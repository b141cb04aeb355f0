import Mathlib.Data.List.Basic

/-! A growable byte vector as storage: resizing keeps the old contents and a partial
write leaves whatever lay behind it. -/

namespace CohesionIpc.Buffer

variable {β : Type*}

/-- Resizing truncates, or pads with `zero`. -/
def resize (zero : β) (buffer : List β) (n : ℕ) : List β :=
  buffer.take n ++ List.replicate (n - buffer.length) zero

/-- Storing `bytes` at the start of the buffer. -/
def overwrite (buffer bytes : List β) : List β :=
  bytes ++ buffer.drop bytes.length

@[simp] theorem length_resize (zero : β) (buffer : List β) (n : ℕ) :
    (resize zero buffer n).length = n := by
  simp only [resize, List.length_append, List.length_take, List.length_replicate]
  omega

/-- A write that covers the whole buffer leaves nothing of the old contents. -/
theorem overwrite_of_length_eq {buffer bytes : List β} (h : bytes.length = buffer.length) :
    overwrite buffer bytes = bytes := by
  simp [overwrite, h]

end CohesionIpc.Buffer
