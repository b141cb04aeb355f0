import Mathlib.Data.List.MinMax
import Mathlib.Data.List.Nodup

/-! An associative container whose entries keep their place: an iterator is the address of
a node, it stays valid until that node is erased, and no address is used twice. -/

namespace CohesionIpc

structure Node (κ ν : Type*) where
  address : ℕ
  key : κ
  value : ν
deriving DecidableEq, Repr

/-- A container of nodes with distinct keys and distinct addresses; `fresh` is the address
the next node gets. -/
structure NodeMap (κ ν : Type*) where
  nodes : List (Node κ ν)
  fresh : ℕ
  keys_nodup : (nodes.map Node.key).Nodup
  addresses_nodup : (nodes.map Node.address).Nodup
  address_lt : ∀ n ∈ nodes, n.address < fresh

namespace NodeMap

variable {κ ν : Type*}

def empty : NodeMap κ ν where
  nodes := []
  fresh := 0
  keys_nodup := List.nodup_nil
  addresses_nodup := List.nodup_nil
  address_lt _ h := absurd h List.not_mem_nil

def deref (m : NodeMap κ ν) (i : ℕ) : Option (Node κ ν) := m.nodes.find? (·.address = i)

/-- Erases the node at `i`; an address without a node leaves the container as it is. -/
def erase (m : NodeMap κ ν) (i : ℕ) : NodeMap κ ν where
  nodes := m.nodes.filter (·.address ≠ i)
  fresh := m.fresh
  keys_nodup := m.keys_nodup.sublist (List.filter_sublist.map _)
  addresses_nodup := m.addresses_nodup.sublist (List.filter_sublist.map _)
  address_lt n h := m.address_lt n (List.mem_of_mem_filter h)

variable [DecidableEq κ]

def find? (m : NodeMap κ ν) (k : κ) : Option (Node κ ν) := m.nodes.find? (·.key = k)

/-- The value under a key. -/
def lookup (m : NodeMap κ ν) (k : κ) : Option ν := (m.find? k).map Node.value

theorem ne_of_find?_eq_none {m : NodeMap κ ν} {k : κ} (h : m.find? k = none) {n : Node κ ν}
    (hn : n ∈ m.nodes) : n.key ≠ k := by
  simpa using List.find?_eq_none.mp h n hn

/-- Adds a node that is known to have a new key. -/
def push (m : NodeMap κ ν) (k : κ) (v : ν) (h : m.find? k = none) : NodeMap κ ν where
  nodes := m.nodes ++ [⟨m.fresh, k, v⟩]
  fresh := m.fresh + 1
  keys_nodup := by
    rw [List.map_append, List.nodup_append']
    refine ⟨m.keys_nodup, List.nodup_singleton _, ?_⟩
    simpa using fun n hn => ne_of_find?_eq_none h hn
  addresses_nodup := by
    rw [List.map_append, List.nodup_append']
    refine ⟨m.addresses_nodup, List.nodup_singleton _, ?_⟩
    simpa using fun n hn => (m.address_lt n hn).ne
  address_lt n hn := by
    rcases List.mem_append.mp hn with hold | hnew
    · exact (m.address_lt n hold).trans (Nat.lt_succ_self _)
    · rw [List.mem_singleton.mp hnew]
      exact Nat.lt_succ_self _

/-- `std::map::insert`: where the key is taken nothing is inserted, and the address is that
of the node that is already there. -/
def insert (m : NodeMap κ ν) (k : κ) (v : ν) : NodeMap κ ν × ℕ :=
  match h : m.find? k with
  | some n => (m, n.address)
  | none => (m.push k v h, m.fresh)

/-! ## Nodes by key and by address -/

variable {m : NodeMap κ ν}

omit [DecidableEq κ] in
theorem eq_of_key {n n' : Node κ ν} (hn : n ∈ m.nodes) (hn' : n' ∈ m.nodes)
    (h : n.key = n'.key) : n = n' := List.inj_on_of_nodup_map m.keys_nodup hn hn' h

omit [DecidableEq κ] in
theorem eq_of_address {n n' : Node κ ν} (hn : n ∈ m.nodes) (hn' : n' ∈ m.nodes)
    (h : n.address = n'.address) : n = n' := List.inj_on_of_nodup_map m.addresses_nodup hn hn' h

omit [DecidableEq κ] in
/-- Where `field` tells the nodes apart, a search by it finds the one node that has it. -/
theorem search_eq_some {γ : Type*} [DecidableEq γ] {field : Node κ ν → γ} {l : List (Node κ ν)}
    (hnodup : (l.map field).Nodup) {c : γ} {n : Node κ ν} :
    l.find? (field · = c) = some n ↔ n ∈ l ∧ field n = c := by
  constructor
  · intro h
    exact ⟨List.mem_of_find?_eq_some h, by simpa using List.find?_some h⟩
  · rintro ⟨hn, hc⟩
    cases hf : l.find? (field · = c) with
    | none =>
        have hne := List.find?_eq_none.mp hf n hn
        exact absurd hc (by simpa using hne)
    | some n' =>
        have hn' := List.mem_of_find?_eq_some hf
        have hc' : field n' = c := by simpa using List.find?_some hf
        rw [List.inj_on_of_nodup_map hnodup hn hn' (hc.trans hc'.symm)]

theorem find?_eq_some {k : κ} {n : Node κ ν} :
    m.find? k = some n ↔ n ∈ m.nodes ∧ n.key = k := search_eq_some m.keys_nodup

omit [DecidableEq κ] in
theorem deref_eq_some {i : ℕ} {n : Node κ ν} :
    m.deref i = some n ↔ n ∈ m.nodes ∧ n.address = i := search_eq_some m.addresses_nodup

omit [DecidableEq κ] in
theorem deref_of_fresh_le {i : ℕ} (h : m.fresh ≤ i) : m.deref i = none := by
  rw [Option.eq_none_iff_forall_ne_some]
  intro n hn
  obtain ⟨hmem, rfl⟩ := deref_eq_some.mp hn
  exact absurd (m.address_lt n hmem) (Nat.not_lt.mpr h)

/-! ## Erasing -/

omit [DecidableEq κ] in
theorem mem_erase {i : ℕ} {n : Node κ ν} :
    n ∈ (m.erase i).nodes ↔ n ∈ m.nodes ∧ n.address ≠ i := by
  simp [erase]

omit [DecidableEq κ] in
@[simp] theorem deref_erase_self (i : ℕ) : (m.erase i).deref i = none := by
  rw [Option.eq_none_iff_forall_ne_some]
  intro n hn
  obtain ⟨hmem, hi⟩ := deref_eq_some.mp hn
  exact (mem_erase.mp hmem).2 hi

omit [DecidableEq κ] in
theorem deref_erase_of_ne {i j : ℕ} (h : j ≠ i) : (m.erase i).deref j = m.deref j := by
  ext n
  simp only [deref_eq_some, mem_erase]
  constructor
  · rintro ⟨⟨hn, -⟩, hj⟩
    exact ⟨hn, hj⟩
  · rintro ⟨hn, hj⟩
    exact ⟨⟨hn, fun hi => h (hj.symm.trans hi)⟩, hj⟩

/-! ## Inserting -/

theorem insert_of_some {k : κ} {n : Node κ ν} (h : m.find? k = some n) (v : ν) :
    m.insert k v = (m, n.address) := by
  unfold insert
  split <;> simp_all

theorem insert_of_none {k : κ} (h : m.find? k = none) (v : ν) :
    m.insert k v = (m.push k v h, m.fresh) := by
  unfold insert
  split <;> simp_all

/-- Where the key is new, the address returned is new too and no other one is affected. -/
theorem deref_insert_of_none {k : κ} (h : m.find? k = none) (v : ν) :
    m.deref (m.insert k v).2 = none ∧
      (m.insert k v).1.deref (m.insert k v).2 = some ⟨(m.insert k v).2, k, v⟩ ∧
      ∀ i, i ≠ (m.insert k v).2 → (m.insert k v).1.deref i = m.deref i := by
  rw [insert_of_none h]
  refine ⟨deref_of_fresh_le le_rfl, deref_eq_some.mpr ⟨by simp [push], rfl⟩, ?_⟩
  intro i hi
  ext n
  simp only [deref_eq_some, push, List.mem_append, List.mem_singleton]
  constructor
  · rintro ⟨hn | rfl, haddr⟩
    · exact ⟨hn, haddr⟩
    · exact absurd haddr.symm hi
  · rintro ⟨hn, haddr⟩
    exact ⟨.inl hn, haddr⟩

/-- An insertion leaves the nodes that are there. -/
theorem deref_insert_of_some {i : ℕ} {n : Node κ ν} (h : m.deref i = some n) (k : κ) (v : ν) :
    (m.insert k v).1.deref i = some n := by
  cases hk : m.find? k with
  | some n' => rw [insert_of_some hk, h]
  | none =>
      rcases deref_insert_of_none hk v with ⟨hnew, -, hrest⟩
      have hne : i ≠ (m.insert k v).2 := by
        rintro rfl
        rw [hnew] at h
        cases h
      rw [hrest i hne, h]

theorem find?_insert_of_ne {k k' : κ} (hne : k' ≠ k) (v : ν) :
    (m.insert k v).1.find? k' = m.find? k' := by
  cases h : m.find? k with
  | some n => rw [insert_of_some h]
  | none =>
      rw [insert_of_none h]
      simp [find?, push, List.find?_append, hne.symm]

/-! ## Ranges of keys -/

variable {ρ : Type*} [LinearOrder ρ]

omit [DecidableEq κ] in
/-- The first node whose key is not before `a`, or the end of the container. -/
def lowerBound (m : NodeMap κ ν) (rank : κ → ρ) (a : ρ) : Option ℕ :=
  ((m.nodes.filter (a ≤ rank ·.key)).argmin (rank ·.key)).map Node.address

omit [DecidableEq κ] in
/-- The first node whose key is after `b`, or the end of the container. -/
def upperBound (m : NodeMap κ ν) (rank : κ → ρ) (b : ρ) : Option ℕ :=
  ((m.nodes.filter (b < rank ·.key)).argmin (rank ·.key)).map Node.address

omit [DecidableEq κ] in
/-- The two bounds differ exactly when a key lies between them. -/
theorem lowerBound_ne_upperBound (rank : κ → ρ) {a b : ρ} (hab : a ≤ b) :
    m.lowerBound rank a ≠ m.upperBound rank b ↔
      ∃ n ∈ m.nodes, a ≤ rank n.key ∧ rank n.key ≤ b := by
  constructor
  · intro hne
    by_contra hnone
    push Not at hnone
    apply hne
    -- without a key in the range the two filters keep the same nodes
    have hfilter : m.nodes.filter (a ≤ rank ·.key) = m.nodes.filter (b < rank ·.key) := by
      apply List.filter_congr
      intro n hn
      rw [decide_eq_decide]
      exact ⟨hnone n hn, fun h => hab.trans h.le⟩
    rw [lowerBound, upperBound, hfilter]
  · rintro ⟨n, hn, ha, hb⟩ heq
    have hmem : n ∈ m.nodes.filter (a ≤ rank ·.key) := by simp [hn, ha]
    cases hlow : (m.nodes.filter (a ≤ rank ·.key)).argmin (rank ·.key) with
    | none => rw [List.argmin_eq_none.mp hlow] at hmem; simp at hmem
    | some p =>
        have hp : p ∈ m.nodes := List.mem_of_mem_filter (List.argmin_mem hlow)
        have hple : rank p.key ≤ b := (List.le_of_mem_argmin hmem hlow).trans hb
        rw [lowerBound, upperBound, hlow] at heq
        obtain ⟨q, hq, haddr⟩ := Option.map_eq_some_iff.mp heq.symm
        have hqmem := List.argmin_mem hq
        have hqp : q = p := eq_of_address (List.mem_of_mem_filter hqmem) hp haddr
        have hlt : b < rank q.key := by simpa using (List.mem_filter.mp hqmem).2
        rw [hqp] at hlt
        exact absurd hple (not_le.mpr hlt)

end NodeMap

end CohesionIpc
