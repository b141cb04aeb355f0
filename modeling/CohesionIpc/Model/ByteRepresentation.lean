import CohesionIpc.Foundation.Bytes
import CohesionIpc.Foundation.Framing
import Mathlib.Data.List.Basic

/-! `byte_representation<unsigned int>`: the four bytes of a value in the order of the
host, and the run-time probe that turns them into network order. -/

namespace CohesionIpc

inductive ByteOrder
  | littleEndian
  | bigEndian
deriving DecidableEq, Repr

namespace ByteRepresentation

/-- `bytes` after `value` has been assigned. -/
def bytes (host : ByteOrder) (value : UInt32) : List UInt8 :=
  match host with
  | .littleEndian => Bytes.ofNat 4 value.toNat
  | .bigEndian => (Bytes.ofNat 4 value.toNat).reverse

/-- `value` after the `bytes` have been stored. -/
def value (host : ByteOrder) (bytes : List UInt8) : UInt32 :=
  match host with
  | .littleEndian => UInt32.ofNat (Bytes.toNat bytes)
  | .bigEndian => UInt32.ofNat (Bytes.toNat bytes.reverse)

/-- The swaps of `reorder` over `sizeof(T) / 2` positions. -/
def swapEnds (bytes : List UInt8) : List UInt8 :=
  (List.range (bytes.length / 2)).foldl (fun bs i => bs.swap i (bytes.length - 1 - i)) bytes

def reorder (host : ByteOrder) (data : List UInt8) : List UInt8 :=
  -- `order.value = 0xFF; if (order.bytes[0])`
  if (bytes host 0xFF)[0]? ≠ some 0 then swapEnds data else data

@[simp] theorem length_bytes (host : ByteOrder) (v : UInt32) : (bytes host v).length = 4 := by
  cases host <;> simp [bytes]

theorem eq_quad {data : List UInt8} (h : data.length = 4) :
    ∃ a b c d, data = [a, b, c, d] := by
  match data, h with
  | [a, b, c, d], _ => exact ⟨a, b, c, d, rfl⟩

theorem reorder_littleEndian {data : List UInt8} (h : data.length = 4) :
    reorder .littleEndian data = data.reverse := by
  obtain ⟨a, b, c, d, rfl⟩ := eq_quad h
  have hprobe : (bytes .littleEndian 0xFF)[0]? ≠ some 0 := by decide
  rw [reorder, if_pos hprobe]
  simp [swapEnds, List.range_succ, List.swap]

theorem reorder_bigEndian (data : List UInt8) : reorder .bigEndian data = data := rfl

theorem length_reorder {data : List UInt8} (host : ByteOrder) (h : data.length = 4) :
    (reorder host data).length = 4 := by
  cases host with
  | littleEndian => simpa [reorder_littleEndian h] using h
  | bigEndian => simpa [reorder_bigEndian] using h

theorem ofNat_toNat_bytes (n : ℕ) (h : n < 2 ^ 32) :
    UInt32.ofNat (Bytes.toNat (Bytes.ofNat 4 n)) = UInt32.ofNat n := by
  rw [Bytes.toNat_ofNat]
  congr 1
  omega

@[simp] theorem value_bytes (host : ByteOrder) (v : UInt32) : value host (bytes host v) = v := by
  have h := ofNat_toNat_bytes v.toNat v.toNat_lt
  cases host <;> simpa [value, bytes] using h

/-- Whatever the host, reordered bytes are the value in network order. -/
theorem reorder_bytes (host : ByteOrder) (v : UInt32) :
    reorder host (bytes host v) = bytes .bigEndian v := by
  cases host with
  | littleEndian => exact reorder_littleEndian (length_bytes _ _)
  | bigEndian => rfl

/-- Whatever the host, reordering what was received reads it in network order. -/
theorem value_reorder (host : ByteOrder) {data : List UInt8} (h : data.length = 4) :
    value host (reorder host data) = value .bigEndian data := by
  cases host with
  | littleEndian => rw [reorder_littleEndian h]; rfl
  | bigEndian => rfl

theorem toNat_value_lt (order : ByteOrder) (data : List UInt8) :
    (value order data).toNat < 2 ^ 32 :=
  (value order data).toNat_lt

theorem bytes_value (order : ByteOrder) {data : List UInt8} (h : data.length = 4) :
    bytes order (value order data) = data := by
  have hlt : ∀ bs : List UInt8, bs.length = 4 →
      Bytes.ofNat 4 (UInt32.ofNat (Bytes.toNat bs)).toNat = bs := by
    intro bs hbs
    have hb := Bytes.toNat_lt bs
    have hmod : (UInt32.ofNat (Bytes.toNat bs)).toNat = Bytes.toNat bs := by
      rw [hbs] at hb
      rw [UInt32.toNat_ofNat']
      exact Nat.mod_eq_of_lt hb
    have hofNat := Bytes.ofNat_toNat bs
    rw [hbs] at hofNat
    rw [hmod, hofNat]
  cases order with
  | littleEndian => exact hlt data h
  | bigEndian =>
      have hrev := hlt data.reverse (by simpa using h)
      simp only [bytes, value, hrev, List.reverse_reverse]

end ByteRepresentation

open ByteRepresentation

/-- The frames of all endpoints: a 32-bit length in the given byte order, then the payload. -/
def framing (order : ByteOrder) : LengthPrefix UInt8 where
  width := 4
  bound := 2 ^ 32
  header n := bytes order (UInt32.ofNat n)
  size h := (value order h).toNat
  width_pos := by decide
  length_header n := length_bytes order _
  size_header n hn := by
    rw [value_bytes, UInt32.toNat_ofNat']
    exact Nat.mod_eq_of_lt hn
  size_lt h _ := toNat_value_lt order h
  header_size h hh := by
    rw [UInt32.ofNat_toNat]
    exact bytes_value order hh

@[simp] theorem framing_width (order : ByteOrder) : (framing order).width = 4 := rfl

theorem framing_frame (order : ByteOrder) (payload : List UInt8) :
    (framing order).frame payload = bytes order (UInt32.ofNat payload.length) ++ payload := rfl

theorem framing_size (order : ByteOrder) (h : List UInt8) :
    (framing order).size h = (value order h).toNat := rfl

end CohesionIpc
