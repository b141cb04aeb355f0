import Mathlib.Data.List.Basic
import Mathlib.Tactic.Ring

/-! Fixed-width base-256 numerals, least significant byte first. -/

namespace CohesionIpc.Bytes

/-- The `width` low-order bytes of `n`. -/
def ofNat : ℕ → ℕ → List UInt8
  | 0, _ => []
  | width + 1, n => UInt8.ofNat n :: ofNat width (n / 256)

def toNat : List UInt8 → ℕ
  | [] => 0
  | b :: bs => b.toNat + 256 * toNat bs

@[simp] theorem ofNat_zero (n : ℕ) : ofNat 0 n = [] := rfl

@[simp] theorem ofNat_succ (width n : ℕ) :
    ofNat (width + 1) n = UInt8.ofNat n :: ofNat width (n / 256) := rfl

@[simp] theorem toNat_nil : toNat [] = 0 := rfl

@[simp] theorem toNat_cons (b : UInt8) (bs : List UInt8) :
    toNat (b :: bs) = b.toNat + 256 * toNat bs := rfl

/-- A numeral keeps exactly the value modulo its capacity. -/
theorem toNat_ofNat (width n : ℕ) : toNat (ofNat width n) = n % 256 ^ width := by
  induction width generalizing n with
  | zero => simp [Nat.mod_one]
  | succ width ih =>
      have hlow : (UInt8.ofNat n).toNat = n % 256 := by simp
      rw [ofNat_succ, toNat_cons, ih, hlow, Nat.pow_succ', Nat.mod_mul]

theorem toNat_lt (bs : List UInt8) : toNat bs < 256 ^ bs.length := by
  induction bs with
  | nil => simp
  | cons b bs ih =>
      have hb : b.toNat < 256 := b.toNat_lt
      rw [toNat_cons, List.length_cons, Nat.pow_succ']
      omega

/-- Every byte string is the numeral of its own value. -/
theorem ofNat_toNat (bs : List UInt8) : ofNat bs.length (toNat bs) = bs := by
  induction bs with
  | nil => rfl
  | cons b bs ih =>
      have hb : b.toNat < 256 := b.toNat_lt
      have hdiv : (b.toNat + 256 * toNat bs) / 256 = toNat bs := by omega
      have hlow : UInt8.ofNat (b.toNat + 256 * toNat bs) = b := by
        apply UInt8.toNat_inj.mp
        rw [UInt8.toNat_ofNat']
        omega
      rw [List.length_cons, toNat_cons, ofNat_succ, hdiv, ih, hlow]

end CohesionIpc.Bytes
