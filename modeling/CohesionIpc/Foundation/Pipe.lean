import CohesionIpc.Foundation.Link

/-! A pipe of bounded capacity between the stream of its writer and the stream of its reader.
Both streams are buffered, and both parties wait: the writer for room, the reader for as many
symbols as it has asked for. -/

namespace CohesionIpc

/-- `unflushed` is in the stream of the writer, `content` in the pipe, and `ahead` in the stream of
the reader. -/
structure Pipe (β : Type*) where
  unflushed : List β
  content : List β
  ahead : List β
  writable : Bool
deriving DecidableEq, Repr

namespace Pipe

variable {β : Type*}

def empty : Pipe β := ⟨[], [], [], true⟩

def put (p : Pipe β) (symbols : List β) : Pipe β :=
  { p with unflushed := p.unflushed ++ symbols }

/-- `n` symbols go from the stream of the writer into the pipe, where there is room. -/
def flush (capacity n : ℕ) (p : Pipe β) : Option (Pipe β) :=
  if 0 < n ∧ n ≤ p.unflushed.length ∧ p.content.length + n ≤ capacity then some { p with
    unflushed := p.unflushed.drop n
    content := p.content ++ p.unflushed.take n }
  else none

/-- The reader, which has asked for `wanted` symbols, takes `n` out of the pipe. -/
def fill (wanted n : ℕ) (p : Pipe β) : Option (Pipe β) :=
  if p.ahead.length < wanted ∧ 0 < n ∧ n ≤ p.content.length then some { p with
    content := p.content.drop n
    ahead := p.ahead ++ p.content.take n }
  else none

/-- What a read of `n` symbols returns, which is less only at the end of the stream; `none` while
the reader waits. -/
def read (n : ℕ) (p : Pipe β) : Option (List β × Pipe β) :=
  if n ≤ p.ahead.length then some (p.ahead.take n, { p with ahead := p.ahead.drop n })
  else if p.content = [] ∧ p.writable = false then some (p.ahead, { p with ahead := [] })
  else none

def close (p : Pipe β) : Pipe β := { p with writable := false }

/-- A write end is closed; `held` says that there is another one. -/
def release (held : Bool) (p : Pipe β) : Pipe β := { p with writable := held && p.writable }

/-- The pipe for a reader that does not see how far the symbols have come. -/
def link (p : Pipe β) : Link β := ⟨p.ahead, p.content ++ p.unflushed⟩

/-- What moving the symbols out of the pipe takes at most. -/
def weight (p : Pipe β) : ℕ := 3 * p.unflushed.length + 2 * p.content.length + p.ahead.length

variable {p q : Pipe β} {capacity n wanted : ℕ} {symbols : List β}

@[simp] theorem writable_put (p : Pipe β) (symbols : List β) :
    (p.put symbols).writable = p.writable := rfl

@[simp] theorem unflushed_close (p : Pipe β) : p.close.unflushed = p.unflushed := rfl

@[simp] theorem link_close (p : Pipe β) : p.close.link = p.link := rfl

@[simp] theorem weight_close (p : Pipe β) : p.close.weight = p.weight := rfl

@[simp] theorem unflushed_release (held : Bool) (p : Pipe β) :
    (p.release held).unflushed = p.unflushed := rfl

@[simp] theorem link_release (held : Bool) (p : Pipe β) : (p.release held).link = p.link := rfl

@[simp] theorem weight_release (held : Bool) (p : Pipe β) :
    (p.release held).weight = p.weight := rfl

theorem writable_release {held : Bool} (h : p.writable = true) :
    (p.release held).writable = held := by
  rw [release, h, Bool.and_true]

/-! ## The operations on the link -/

theorem link_put (p : Pipe β) (symbols : List β) : (p.put symbols).link = p.link.write symbols := by
  simp only [link, put, Link.write, List.append_assoc]

theorem weight_put (p : Pipe β) (symbols : List β) :
    (p.put symbols).weight = p.weight + 3 * symbols.length := by
  simp only [weight, put, List.length_append]
  omega

/-- Flushing is not seen by the reader. -/
theorem flush_cases (h : p.flush capacity n = some q) :
    q.link = p.link ∧ q.writable = p.writable ∧ q.weight < p.weight ∧
      q.unflushed = p.unflushed.drop n := by
  simp only [flush, Option.ite_none_right_eq_some, Option.some.injEq] at h
  obtain ⟨⟨hpos, hn, -⟩, rfl⟩ := h
  refine ⟨?_, rfl, ?_, rfl⟩
  · simp only [link, List.append_assoc, List.take_append_drop]
  · simp only [weight, List.length_append, List.length_take, List.length_drop]
    omega

theorem fill_cases (h : p.fill wanted n = some q) :
    q.link = p.link.transfer n ∧ q.writable = p.writable ∧ q.weight < p.weight ∧
      q.unflushed = p.unflushed := by
  simp only [fill, Option.ite_none_right_eq_some, Option.some.injEq] at h
  obtain ⟨⟨-, hpos, hn⟩, rfl⟩ := h
  refine ⟨?_, rfl, ?_, rfl⟩
  · simp only [link, Link.transfer, List.take_append_of_le_length hn,
      List.drop_append_of_le_length hn]
  · simp only [weight, List.length_append, List.length_take, List.length_drop]
    omega

/-- A read gets all that it has asked for, or the stream has ended. -/
theorem read_cases {bytes : List β} (h : p.read n = some (bytes, q)) :
    q.writable = p.writable ∧ q.unflushed = p.unflushed ∧ q.content = p.content ∧
      ((n ≤ p.ahead.length ∧ bytes = p.ahead.take n ∧ q.ahead = p.ahead.drop n) ∨
        (p.ahead.length < n ∧ p.content = [] ∧ p.writable = false ∧ bytes = p.ahead ∧
          q.ahead = [])) := by
  simp only [read] at h
  split at h
  · rename_i hn
    cases h
    exact ⟨rfl, rfl, rfl, .inl ⟨hn, rfl, rfl⟩⟩
  · rename_i hn
    simp only [Option.ite_none_right_eq_some, Option.some.injEq, Prod.mk.injEq] at h
    obtain ⟨⟨hcontent, hwritable⟩, rfl, rfl⟩ := h
    exact ⟨rfl, rfl, rfl, .inr ⟨Nat.lt_of_not_le hn, hcontent, hwritable, rfl, rfl⟩⟩

theorem weight_read {bytes : List β} (h : p.read n = some (bytes, q)) :
    q.weight + bytes.length = p.weight := by
  obtain ⟨-, hunflushed, hcontent, ⟨hn, rfl, hahead⟩ | ⟨-, -, -, rfl, hahead⟩⟩ := read_cases h
  · simp only [weight, hunflushed, hcontent, hahead, List.length_take, List.length_drop]
    omega
  · simp only [weight, hunflushed, hcontent, hahead, List.length_nil]
    omega

/-! ## Waiting -/

/-- The writer waits exactly when the pipe is full. -/
theorem flush_eq_none_iff : (∀ n, p.flush capacity n = none) ↔
    p.unflushed = [] ∨ capacity ≤ p.content.length := by
  constructor
  · intro h
    have hone := h 1
    simp only [flush, ite_eq_right_iff, reduceCtorEq, imp_false] at hone
    cases hsymbols : p.unflushed with
    | nil => exact .inl rfl
    | cons x xs =>
        rw [hsymbols, List.length_cons] at hone
        omega
  · intro h n
    simp only [flush, ite_eq_right_iff, reduceCtorEq, imp_false]
    rcases h with h | h
    · rw [h, List.length_nil]
      omega
    · omega

/-- The reader waits exactly when there is nothing to take and there may still come something. -/
theorem waits_iff : ((∀ n, p.fill wanted n = none) ∧ p.read wanted = none) ↔
    p.ahead.length < wanted ∧ p.content = [] ∧ p.writable = true := by
  constructor
  · rintro ⟨hfill, hread⟩
    have hone := hfill 1
    simp only [fill, ite_eq_right_iff, reduceCtorEq, imp_false] at hone
    simp only [read] at hread
    split at hread
    · cases hread
    · rename_i hn
      have hcontent : p.content = [] := by
        cases hsymbols : p.content with
        | nil => rfl
        | cons x xs =>
            rw [hsymbols, List.length_cons] at hone
            omega
      refine ⟨Nat.lt_of_not_le hn, hcontent, ?_⟩
      cases hw : p.writable with
      | true => rfl
      | false => simp [hcontent, hw] at hread
  · rintro ⟨hahead, hcontent, hwritable⟩
    refine ⟨?_, ?_⟩
    · intro n
      simp only [fill, hcontent, List.length_nil, ite_eq_right_iff, reduceCtorEq, imp_false]
      omega
    · rw [read, if_neg (Nat.not_le.mpr hahead), if_neg (by simp [hwritable])]

end Pipe

end CohesionIpc
