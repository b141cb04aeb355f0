import Mathlib.Data.Nat.Basic
import Mathlib.Tactic.Ring

/-! Self-delimiting codecs, and the variable-length one that writes seven bits a byte, the
least significant first. -/

namespace CohesionIpc

/-- `decode` reads one value off the front of the bytes and leaves the rest; it fails where
the bytes end too early. -/
structure Codec (α : Type*) where
  encode : α → List UInt8
  decode : List UInt8 → Option (α × List UInt8)
  decode_encode : ∀ a rest, decode (encode a ++ rest) = some (a, rest)

namespace Codec

/-- At most `k + 1` bytes: the highest bit of a byte says that another one follows. -/
def encodeVarint : ℕ → ℕ → List UInt8
  | 0, n => [UInt8.ofNat n]
  | k + 1, n =>
      if n < 128 then [UInt8.ofNat n]
      else UInt8.ofNat (n % 128 + 128) :: encodeVarint k (n / 128)

def decodeVarint : List UInt8 → Option (ℕ × List UInt8)
  | [] => none
  | b :: bs =>
      if b.toNat < 128 then some (b.toNat, bs)
      else (decodeVarint bs).map fun d => (b.toNat - 128 + 128 * d.1, d.2)

theorem decodeVarint_cons_of_lt {n : ℕ} (h : n < 128) (rest : List UInt8) :
    decodeVarint (UInt8.ofNat n :: rest) = some (n, rest) := by
  have htoNat : (UInt8.ofNat n).toNat = n := by
    rw [UInt8.toNat_ofNat']
    omega
  simp [decodeVarint, htoNat, h]

theorem decodeVarint_encodeVarint (k n : ℕ) (h : n < 128 ^ (k + 1)) (rest : List UInt8) :
    decodeVarint (encodeVarint k n ++ rest) = some (n, rest) := by
  induction k generalizing n with
  | zero => exact decodeVarint_cons_of_lt (by simpa using h) rest
  | succ k ih =>
      by_cases hn : n < 128
      · simpa [encodeVarint, hn] using decodeVarint_cons_of_lt hn rest
      · have htoNat : (UInt8.ofNat (n % 128 + 128)).toNat = n % 128 + 128 := by
          rw [UInt8.toNat_ofNat']
          omega
        have hdiv : n / 128 < 128 ^ (k + 1) := by
          apply Nat.div_lt_of_lt_mul
          rwa [← pow_succ']
        have hge : ¬ n % 128 + 128 < 128 := by omega
        simp only [encodeVarint, hn, if_false, List.cons_append, decodeVarint, htoNat, hge,
          ih _ hdiv, Option.map_some]
        congr 2
        omega

/-- The codec of a type whose values have numbers below `128 ^ 10`. -/
def varint {α : Type*} (toNat : α → ℕ) (ofNat : ℕ → α) (hinv : ∀ a, ofNat (toNat a) = a)
    (hlt : ∀ a, toNat a < 128 ^ 10) : Codec α where
  encode a := encodeVarint 9 (toNat a)
  decode bs := (decodeVarint bs).map fun d => (ofNat d.1, d.2)
  decode_encode a rest := by rw [decodeVarint_encodeVarint 9 _ (hlt a), Option.map_some, hinv]

def uint64 : Codec UInt64 :=
  varint UInt64.toNat UInt64.ofNat (fun _ => UInt64.ofNat_toNat)
    fun a => a.toNat_lt.trans (by decide)

/-- Nonnegative integers get the even numbers, negative ones the odd numbers. -/
def zigzag (i : ℤ) : ℕ := if 0 ≤ i then (2 * i).toNat else (-2 * i - 1).toNat

def unzigzag (n : ℕ) : ℤ := if n % 2 = 0 then n / 2 else -(n / 2) - 1

theorem unzigzag_zigzag (i : ℤ) : unzigzag (zigzag i) = i := by
  unfold unzigzag zigzag
  split <;> split <;> omega

def int32 : Codec Int32 :=
  varint (fun i => zigzag i.toInt) (fun n => Int32.ofInt (unzigzag n))
    (fun i => by rw [unzigzag_zigzag, Int32.ofInt_toInt])
    fun i => by
      have hlow := i.le_toInt
      have hhigh := i.toInt_lt
      simp only [zigzag]
      split <;> omega

end Codec

end CohesionIpc
