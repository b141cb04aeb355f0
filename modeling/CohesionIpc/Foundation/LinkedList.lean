import Mathlib.Data.List.Induction
import Mathlib.Data.List.Nodup
import Mathlib.Data.List.TakeWhile

/-! A linked list whose cells stay where they are. An iterator is the address of a cell or the
place past the end, and it is of use while its cell is in the list. -/

namespace CohesionIpc

structure Cell (α : Type*) where
  address : ℕ
  value : α
deriving DecidableEq, Repr

inductive Iterator
  | cell (address : ℕ)
  | past
deriving DecidableEq, Repr

/-- Cells with distinct addresses; `fresh` is the address the next cell gets. -/
structure LinkedList (α : Type*) where
  cells : List (Cell α)
  fresh : ℕ
  nodup : (cells.map Cell.address).Nodup
  address_lt : ∀ c ∈ cells, c.address < fresh

namespace LinkedList

variable {α : Type*}

/-- The place in front of a row of cells. -/
def front : List (Cell α) → Iterator
  | [] => .past
  | c :: _ => .cell c.address

/-- The cells from an iterator on. -/
def suffix (l : LinkedList α) : Iterator → List (Cell α)
  | .past => []
  | .cell a => l.cells.dropWhile (·.address ≠ a)

/-- `*i` -/
def deref (l : LinkedList α) (i : Iterator) : Option (Cell α) := (l.suffix i).head?

/-- `++i`; an iterator cannot be advanced when its cell is not in the list. -/
def next (l : LinkedList α) (i : Iterator) : Option Iterator :=
  match l.suffix i with
  | [] => none
  | _ :: rest => some (front rest)

def pushBack (l : LinkedList α) (v : α) : LinkedList α where
  cells := l.cells ++ [⟨l.fresh, v⟩]
  fresh := l.fresh + 1
  nodup := by
    rw [List.map_append, List.nodup_append']
    refine ⟨l.nodup, List.nodup_singleton _, ?_⟩
    simpa using fun c hc => (l.address_lt c hc).ne
  address_lt c hc := by
    rcases List.mem_append.mp hc with hold | hnew
    · exact (l.address_lt c hold).trans (Nat.lt_succ_self _)
    · rw [List.mem_singleton.mp hnew]
      exact Nat.lt_succ_self _

def erase (l : LinkedList α) (a : ℕ) : LinkedList α where
  cells := l.cells.filter (·.address ≠ a)
  fresh := l.fresh
  nodup := l.nodup.sublist (List.filter_sublist.map _)
  address_lt c hc := l.address_lt c (List.mem_of_mem_filter hc)

/-- New values in the cells that are there. -/
def assign (l : LinkedList α) (f : Cell α → α) : LinkedList α where
  cells := l.cells.map fun c => ⟨c.address, f c⟩
  fresh := l.fresh
  nodup := by
    rw [List.map_map]
    exact l.nodup
  address_lt c hc := by
    obtain ⟨d, hd, rfl⟩ := List.mem_map.mp hc
    exact l.address_lt d hd

@[simp] theorem cells_pushBack (l : LinkedList α) (v : α) :
    (l.pushBack v).cells = l.cells ++ [⟨l.fresh, v⟩] := rfl

@[simp] theorem cells_erase (l : LinkedList α) (a : ℕ) :
    (l.erase a).cells = l.cells.filter (·.address ≠ a) := rfl

@[simp] theorem cells_assign (l : LinkedList α) (f : Cell α → α) :
    (l.assign f).cells = l.cells.map fun c => ⟨c.address, f c⟩ := rfl

/-- Any values can be put in a list. -/
theorem exists_of_values (values : List α) :
    ∃ l : LinkedList α, l.cells.map Cell.value = values := by
  induction values using List.reverseRecOn with
  | nil => exact ⟨⟨[], 0, List.nodup_nil, fun c hc => absurd hc List.not_mem_nil⟩, rfl⟩
  | append_singleton values v ih =>
      obtain ⟨l, hl⟩ := ih
      refine ⟨l.pushBack v, ?_⟩
      rw [cells_pushBack, List.map_append, hl]
      rfl

/-! ## An iterator between what is behind it and what is before it -/

variable {l : LinkedList α} {i : Iterator} {c : Cell α} {done rest : List (Cell α)}

/-- The iterator stands in front of `rest`. -/
structure At (l : LinkedList α) (i : Iterator) (done rest : List (Cell α)) : Prop where
  cells : l.cells = done ++ rest
  iterator : i = front rest

theorem At.mem (h : l.At i done (c :: rest)) : c ∈ l.cells := by
  rw [h.cells]
  exact List.mem_append_right _ List.mem_cons_self

theorem At.ne_of_mem_done (h : l.At i done (c :: rest)) {d : Cell α} (hd : d ∈ done) :
    d.address ≠ c.address := by
  have hnodup := l.nodup
  rw [h.cells, List.map_append, List.nodup_append] at hnodup
  exact hnodup.2.2 _ (List.mem_map_of_mem hd) _ (List.mem_map_of_mem List.mem_cons_self)

theorem At.ne_of_mem_rest (h : l.At i done (c :: rest)) {d : Cell α} (hd : d ∈ rest) :
    d.address ≠ c.address := by
  have hnodup := l.nodup
  rw [h.cells, List.map_append, List.nodup_append] at hnodup
  have hfirst := (List.nodup_cons.mp hnodup.2.1).1
  exact fun heq => hfirst (heq ▸ List.mem_map_of_mem hd)

theorem At.suffix (h : l.At i done rest) : l.suffix i = rest := by
  rw [h.iterator]
  cases rest with
  | nil => rfl
  | cons c rest =>
      have hdone : ∀ d ∈ done, (decide (d.address ≠ c.address)) = true := by
        intro d hd
        simpa using h.ne_of_mem_done hd
      change l.cells.dropWhile _ = _
      rw [h.cells, List.dropWhile_append_of_pos hdone, List.dropWhile_cons_of_neg (by simp)]

theorem At.deref (h : l.At i done (c :: rest)) : l.deref i = some c := by
  rw [LinkedList.deref, h.suffix]
  rfl

theorem At.next (h : l.At i done (c :: rest)) : l.next i = some (front rest) := by
  rw [LinkedList.next, h.suffix]

theorem At.advance (h : l.At i done (c :: rest)) : l.At (front rest) (done ++ [c]) rest :=
  ⟨by rw [h.cells, List.append_assoc, List.singleton_append], rfl⟩

theorem At.begin (l : LinkedList α) : l.At (front l.cells) [] l.cells := ⟨rfl, rfl⟩

theorem At.pushBack (h : l.At i done (c :: rest)) (v : α) :
    (l.pushBack v).At i done (c :: (rest ++ [⟨l.fresh, v⟩])) :=
  ⟨by rw [cells_pushBack, h.cells, List.append_assoc, List.cons_append], h.iterator⟩

theorem At.assign (h : l.At i done (c :: rest)) (f : Cell α → α) :
    (l.assign f).At i (done.map fun d => ⟨d.address, f d⟩)
      (⟨c.address, f c⟩ :: rest.map fun d => ⟨d.address, f d⟩) :=
  ⟨by rw [cells_assign, h.cells, List.map_append, List.map_cons], h.iterator⟩

theorem At.next_assign (h : l.At i done (c :: rest)) (f : Cell α → α) :
    (l.assign f).next i = some (front rest) := by
  rw [(h.assign f).next]
  cases rest <;> rfl

theorem At.advance_assign (h : l.At i done (c :: rest)) (f : Cell α → α) :
    (l.assign f).At (front rest) ((done.map fun d => ⟨d.address, f d⟩) ++ [⟨c.address, f c⟩])
      (rest.map fun d => ⟨d.address, f d⟩) := by
  refine ⟨(h.assign f).advance.cells, ?_⟩
  cases rest <;> rfl

/-- The cell under the iterator stays when another one is erased. -/
theorem At.erase (h : l.At i done (c :: rest)) {a : ℕ} (ha : c.address ≠ a) :
    (l.erase a).At i (done.filter (·.address ≠ a)) (c :: rest.filter (·.address ≠ a)) := by
  refine ⟨?_, h.iterator⟩
  rw [cells_erase, h.cells, List.filter_append, List.filter_cons_of_pos (by simpa using ha)]

/-- The cell under the iterator is erased, and the iterator has gone on before. -/
theorem At.eraseSelf (h : l.At i done (c :: rest)) :
    (l.erase c.address).At (front rest) done rest := by
  refine ⟨?_, rfl⟩
  rw [cells_erase, h.cells, List.filter_append, List.filter_cons_of_neg (by simp),
    List.filter_eq_self.mpr, List.filter_eq_self.mpr]
  · exact fun d hd => by simpa using h.ne_of_mem_rest hd
  · exact fun d hd => by simpa using h.ne_of_mem_done hd

end LinkedList

end CohesionIpc
