import CohesionIpc.Model.Sockets.Run

/-! A pass of `run` calls the handlers that `select` has found ready, whatever they do to the
list it goes through. -/

namespace CohesionIpc.Sockets.Pass

open Transition LinkedList

variable {δ : Type*} {p t : Pass δ} {h : Cell (SocketHandler δ)}
  {done rest : List (Cell (SocketHandler δ))}

/-- What may happen in a pass over `handlers`: a descriptor from `accept` was not open when the
pass began, a handler erases another one than itself, and none stops the loop. -/
def Admits (handlers : LinkedList (SocketHandler δ)) (p : Pass δ) : Turn δ → Prop
  | .skip | .call .proceed | .call .removeThis | .call .switch => True
  | .call (.accept _ socket) => ∀ h ∈ handlers.cells, h.value.socket ≠ socket
  | .call (.erase id) =>
      ∃ h, p.handlers.cells.find? (·.value.id = id) = some h ∧ .cell h.address ≠ p.i
  | .call .exit | .throws => False

/-- What a turn of the handler `h` makes of the pass, when `rest` comes after it. -/
inductive Turned (handlers : LinkedList (SocketHandler δ)) (p : Pass δ)
    (h : Cell (SocketHandler δ)) (rest : List (Cell (SocketHandler δ))) : Pass δ → Prop
  | skipped (hready : p.fds h.value.socket = false) :
      Turned handlers p h rest { p with i := front rest }
  | proceeded (hready : p.fds h.value.socket = true) : Turned handlers p h rest { p with
      i := front rest
      log := p.log ++ [.called h.address h.value.handler] }
  | removed (hready : p.fds h.value.socket = true) : Turned handlers p h rest { p with
      handlers := p.handlers.erase h.address
      i := front rest
      log := p.log ++ [.called h.address h.value.handler, .erased h.address] }
  | accepted (f : HandlerFunction) (socket : δ) (hready : p.fds h.value.socket = true)
      (hsocket : ∀ h ∈ handlers.cells, h.value.socket ≠ socket) : Turned handlers p h rest { p with
        handlers := p.handlers.pushBack ⟨p.nextId, f, socket⟩
        nextId := p.nextId + 1
        i := front (rest ++ [⟨p.handlers.fresh, ⟨p.nextId, f, socket⟩⟩])
        log := p.log ++ [.called h.address h.value.handler,
          .appended p.handlers.fresh p.nextId socket] }
  | switched (hready : p.fds h.value.socket = true) : Turned handlers p h rest { p with
      handlers := p.handlers.assign (switched (front p.handlers.cells) h.address)
      i := front rest
      log := p.log ++ [.called h.address h.value.handler] }
  | erased {d : Cell (SocketHandler δ)} (hready : p.fds h.value.socket = true)
      (hd : d ∈ p.handlers.cells) (hne : h.address ≠ d.address) : Turned handlers p h rest { p with
        handlers := p.handlers.erase d.address
        i := front (rest.filter (·.address ≠ d.address))
        log := p.log ++ [.called h.address h.value.handler, .erased d.address] }

theorem turn_skip : p.turn h .skip = some t ↔
    p.fds h.value.socket = false ∧ p.settle h.address .proceed = t := by
  cases hready : p.fds h.value.socket with
  | true => simp [turn, hready]
  | false => simp [turn, hready]

theorem turn_call {effect : Effect δ} : p.turn h (.call effect) = some t ↔
    p.fds h.value.socket = true ∧
      (((p.record (.called h.address h.value.handler)).perform h.address effect).1.settle h.address
        ((p.record (.called h.address h.value.handler)).perform h.address effect).2) = t := by
  cases hready : p.fds h.value.socket with
  | true => simp [turn, hready]
  | false => simp [turn, hready]

/-- A running pass whose iterator is at a handler gives it its turn. -/
theorem step_of_at (hrunning : p.loop = .running) (hat : p.handlers.At p.i done (h :: rest))
    (e : Turn δ) : p.step e = p.turn h e := by
  have hgo : ¬ (p.loop ≠ .running ∨ p.i = .past) := by
    rintro (hloop | hpast)
    · exact hloop hrunning
    · rw [hat.iterator] at hpast
      cases hpast
  rw [step, if_neg hgo, hat.deref]

theorem turned {handlers : LinkedList (SocketHandler δ)} {e : Turn δ}
    (hat : p.handlers.At p.i done (h :: rest)) (he : Admits handlers p e)
    (ht : p.step e = some t) : Turned handlers p h rest t := by
  simp only [step, Option.ite_none_left_eq_some, hat.deref] at ht
  rcases ht with ⟨-, ht⟩
  cases e with
  | throws => exact he.elim
  | skip =>
      obtain ⟨hready, rfl⟩ := turn_skip.mp ht
      rw [settle, hat.next]
      exact .skipped hready
  | call effect =>
      obtain ⟨hready, rfl⟩ := turn_call.mp ht
      cases effect with
      | exit => exact he.elim
      | proceed =>
          simp only [perform, settle, record, hat.next]
          exact .proceeded hready
      | removeThis =>
          simp only [perform, settle, record, hat.next, List.append_assoc]
          exact .removed hready
      | accept f socket =>
          have hnext := (hat.pushBack ⟨p.nextId, f, socket⟩).next
          simp only [perform, settle, record, hnext, List.append_assoc]
          exact .accepted f socket hready he
      | switch =>
          simp only [perform, settle, record, hat.next_assign]
          exact .switched hready
      | erase id =>
          obtain ⟨d, hfind, hother⟩ := he
          have hne : h.address ≠ d.address := by
            rintro heq
            exact hother (by rw [hat.iterator, front, heq])
          have hnext := (hat.erase hne).next
          simp only [perform, record, hfind, settle, hnext, List.append_assoc]
          exact .erased hready (List.mem_of_find?_eq_some hfind) hne

/-! ## What every turn keeps -/

/-- The addresses of handlers that are ready. -/
def readyAmong (fds : δ → Bool) (handlers : List (Cell (SocketHandler δ))) : List ℕ :=
  (handlers.filter (fds ·.value.socket)).map Cell.address

/-- The pass `p` has begun as `start`, and `rest` is what it has still to look at. -/
structure Serves (start p : Pass δ) (rest : List (Cell (SocketHandler δ))) : Prop where
  running : p.loop = .running
  fds : p.fds = start.fds
  order : (p.called.map Prod.fst ++ readyAmong start.fds rest).Sublist
    (readyAmong start.fds start.handlers.cells)
  complete : ∀ a ∈ readyAmong start.fds start.handlers.cells,
    a ∈ p.called.map Prod.fst ∨ a ∈ p.erased ∨ a ∈ readyAmong start.fds rest
  forgotten : p.log.Pairwise fun e e' => ∀ a f, e = .erased a → e' ≠ .called a f
  list : p.handlers.cells.map place =
    (start.handlers.cells.map place ++ p.appended).filter (·.1 ∉ p.erased)
  fresh : start.handlers.fresh ≤ p.handlers.fresh
  erased_lt : ∀ a ∈ p.erased, a < p.handlers.fresh
  appended_ge : ∀ x ∈ p.appended, start.handlers.fresh ≤ x.1

variable {start : Pass δ}

theorem serves_select [DecidableEq δ] (handlers : LinkedList (SocketHandler δ)) (nextId : UInt32)
    (reported : δ → Bool) : Serves (select handlers nextId reported)
      (select handlers nextId reported) handlers.cells := by
  refine ⟨rfl, rfl, List.Sublist.refl _, ?_, List.Pairwise.nil, ?_, le_rfl, ?_, ?_⟩
  · exact fun a ha => .inr (.inr ha)
  · simp [select, appended, erased]
  · exact fun a ha => absurd ha List.not_mem_nil
  · exact fun x hx => absurd hx List.not_mem_nil

theorem called_of_log {l : List (Entry δ)} (hlog : t.log = p.log ++ l) :
    t.called = p.called ++ l.filterMap Entry.call? := by
  rw [called, called, hlog, List.filterMap_append]

theorem erased_of_log {l : List (Entry δ)} (hlog : t.log = p.log ++ l) :
    t.erased = p.erased ++ l.filterMap Entry.erasure? := by
  rw [erased, erased, hlog, List.filterMap_append]

theorem appended_of_log {l : List (Entry δ)} (hlog : t.log = p.log ++ l) :
    t.appended = p.appended ++ l.filterMap Entry.addition? := by
  rw [appended, appended, hlog, List.filterMap_append]

theorem Serves.not_erased (hs : Serves start p rest) (hh : h ∈ p.handlers.cells) :
    h.address ∉ p.erased := by
  have hplace : place h ∈ p.handlers.cells.map place := List.mem_map_of_mem hh
  rw [hs.list, List.mem_filter] at hplace
  exact of_decide_eq_true hplace.2

/-- Nothing in it speaks of the iterator. -/
theorem Serves.of_eq (hs : Serves start p rest) (hhandlers : t.handlers = p.handlers)
    (hloop : t.loop = p.loop) (hfds : t.fds = p.fds) (hlog : t.log = p.log) :
    Serves start t rest := by
  obtain ⟨handlers, nextId, fds, i, loop, log⟩ := t
  cases hhandlers
  cases hloop
  cases hfds
  cases hlog
  exact ⟨hs.running, hs.fds, hs.order, hs.complete, hs.forgotten, hs.list, hs.fresh, hs.erased_lt,
    hs.appended_ge⟩

theorem readyAmong_cons_of_neg {fds : δ → Bool} (hready : fds h.value.socket = false) :
    readyAmong fds (h :: rest) = readyAmong fds rest := by
  rw [readyAmong, List.filter_cons_of_neg (by simp [hready])]
  rfl

theorem readyAmong_cons_of_pos {fds : δ → Bool} (hready : fds h.value.socket = true) :
    readyAmong fds (h :: rest) = h.address :: readyAmong fds rest := by
  rw [readyAmong, List.filter_cons_of_pos (by simp [hready])]
  rfl

theorem readyAmong_filter (fds : δ → Bool) (rest : List (Cell (SocketHandler δ))) (a : ℕ) :
    readyAmong fds (rest.filter (·.address ≠ a)) = (readyAmong fds rest).filter (· ≠ a) := by
  rw [readyAmong, readyAmong, List.filter_filter, List.filter_map, List.filter_filter]
  congr 1
  apply List.filter_congr
  exact fun _ _ => Bool.and_comm _ _

theorem readyAmong_concat {fds : δ → Bool} (hready : fds h.value.socket = false) :
    readyAmong fds (rest ++ [h]) = readyAmong fds rest := by
  rw [readyAmong, List.filter_append, List.filter_cons_of_neg (by simp [hready]), List.filter_nil,
    List.append_nil]
  rfl

theorem Serves.skip (hs : Serves start p (h :: rest)) (hready : start.fds h.value.socket = false) :
    Serves start p rest := by
  have horder := hs.order
  have hcomplete := hs.complete
  rw [readyAmong_cons_of_neg hready] at horder hcomplete
  exact ⟨hs.running, hs.fds, horder, hcomplete, hs.forgotten, hs.list, hs.fresh, hs.erased_lt,
    hs.appended_ge⟩

/-- The handler under the iterator is called. -/
theorem Serves.call (hs : Serves start p (h :: rest)) (hready : start.fds h.value.socket = true)
    (hh : h ∈ p.handlers.cells) :
    Serves start (p.record (.called h.address h.value.handler)) rest := by
  have horder := hs.order
  have hcomplete := hs.complete
  rw [readyAmong_cons_of_pos hready] at horder hcomplete
  have hlog : (p.record (.called h.address h.value.handler)).log = p.log ++ _ := rfl
  have hcalled := called_of_log hlog
  have herased := (erased_of_log hlog).trans (List.append_nil _)
  have happended := (appended_of_log hlog).trans (List.append_nil _)
  refine ⟨hs.running, hs.fds, ?_, ?_, ?_, ?_, hs.fresh, ?_, ?_⟩
  · rw [hcalled, List.map_append, List.append_assoc]
    exact horder
  · intro a ha
    rw [hcalled, herased, List.map_append, List.mem_append]
    rcases hcomplete a ha with hold | hgone | hrest
    · exact .inl (.inl hold)
    · exact .inr (.inl hgone)
    · rcases List.mem_cons.mp hrest with rfl | hrest
      · exact .inl (.inr List.mem_cons_self)
      · exact .inr (.inr hrest)
  · refine List.pairwise_append.mpr ⟨hs.forgotten, List.pairwise_singleton _ _, ?_⟩
    rintro e he e' he' a f rfl heq
    rw [List.mem_singleton.mp he'] at heq
    cases heq
    exact hs.not_erased hh (List.mem_filterMap.mpr ⟨_, he, rfl⟩)
  · rw [happended, herased]
    exact hs.list
  · rw [herased]
    exact hs.erased_lt
  · rw [happended]
    exact hs.appended_ge

theorem Serves.forgotten_concat (hs : Serves start p rest) {e : Entry δ} (he : e.call? = none)
    (hlog : t.log = p.log ++ [e]) :
    t.log.Pairwise fun e e' => ∀ a f, e = .erased a → e' ≠ .called a f := by
  rw [hlog]
  refine List.pairwise_append.mpr ⟨hs.forgotten, List.pairwise_singleton _ _, ?_⟩
  rintro e₁ - e₂ he₂ a f - rfl
  rw [← List.mem_singleton.mp he₂] at he
  cases he

/-- A handler is erased. -/
theorem Serves.erase (hs : Serves start p rest) {a : ℕ} (ha : a < p.handlers.fresh)
    (hhandlers : t.handlers = p.handlers.erase a) (hloop : t.loop = p.loop) (hfds : t.fds = p.fds)
    (hlog : t.log = p.log ++ [.erased a]) : Serves start t (rest.filter (·.address ≠ a)) := by
  have hcalled := (called_of_log hlog).trans (List.append_nil _)
  have herased : t.erased = p.erased ++ [a] := erased_of_log hlog
  have happended := (appended_of_log hlog).trans (List.append_nil _)
  refine ⟨hloop.trans hs.running, hfds.trans hs.fds, ?_, ?_, ?_, ?_, ?_, ?_, ?_⟩
  · rw [hcalled, readyAmong_filter]
    exact (List.filter_sublist.append_left _).trans hs.order
  · intro b hb
    rw [hcalled, herased, readyAmong_filter, List.mem_append, List.mem_filter]
    rcases hs.complete b hb with hold | hgone | hrest
    · exact .inl hold
    · exact .inr (.inl (.inl hgone))
    · by_cases hba : b = a
      · exact .inr (.inl (.inr (hba ▸ List.mem_cons_self)))
      · exact .inr (.inr ⟨hrest, decide_eq_true hba⟩)
  · exact hs.forgotten_concat rfl hlog
  · rw [hhandlers, happended, herased, cells_erase]
    have hmap : (p.handlers.cells.filter (·.address ≠ a)).map place =
        (p.handlers.cells.map place).filter (·.1 ≠ a) := by
      rw [List.filter_map]
      rfl
    rw [hmap, hs.list, List.filter_filter]
    apply List.filter_congr
    intro x _
    rw [← Bool.decide_and, decide_eq_decide, List.mem_append]
    simp [and_comm]
  · rw [hhandlers]
    exact hs.fresh
  · intro b hb
    rw [hhandlers]
    rw [herased] at hb
    rcases List.mem_append.mp hb with hb | hb
    · exact hs.erased_lt b hb
    · rw [List.mem_singleton.mp hb]
      exact ha
  · rw [happended]
    exact hs.appended_ge

/-- A handler is appended. -/
theorem Serves.append (hs : Serves start p rest) {v : SocketHandler δ}
    (hready : start.fds v.socket = false) (hhandlers : t.handlers = p.handlers.pushBack v)
    (hloop : t.loop = p.loop) (hfds : t.fds = p.fds)
    (hlog : t.log = p.log ++ [.appended p.handlers.fresh v.id v.socket]) :
    Serves start t (rest ++ [⟨p.handlers.fresh, v⟩]) := by
  have hcalled := (called_of_log hlog).trans (List.append_nil _)
  have herased := (erased_of_log hlog).trans (List.append_nil _)
  have happended := appended_of_log hlog
  refine ⟨hloop.trans hs.running, hfds.trans hs.fds, ?_, ?_, ?_, ?_, ?_, ?_, ?_⟩
  · rw [hcalled, readyAmong_concat hready]
    exact hs.order
  · rw [hcalled, herased, readyAmong_concat hready]
    exact hs.complete
  · exact hs.forgotten_concat rfl hlog
  · have hnew : p.handlers.fresh ∉ p.erased := fun h => lt_irrefl _ (hs.erased_lt _ h)
    rw [happended, herased, ← List.append_assoc, List.filter_append, ← hs.list, hhandlers,
      cells_pushBack, List.map_append]
    congr 1
    symm
    exact List.filter_cons_of_pos (by simpa using hnew)
  · rw [hhandlers]
    exact hs.fresh.trans (Nat.le_succ _)
  · rw [hhandlers, herased]
    exact fun b hb => (hs.erased_lt b hb).trans (Nat.lt_succ_self _)
  · intro x hx
    rw [happended] at hx
    rcases List.mem_append.mp hx with hx | hx
    · exact hs.appended_ge x hx
    · rw [List.mem_singleton.mp hx]
      exact hs.fresh

/-- Only the function of a handler is replaced. -/
theorem place_switched (first : Iterator) (self : ℕ) (h : Cell (SocketHandler δ)) :
    place ⟨h.address, switched first self h⟩ = place h := by
  rw [switched]
  split
  · rfl
  · split <;> rfl

theorem readyAmong_switched (fds : δ → Bool) (first : Iterator) (self : ℕ)
    (rest : List (Cell (SocketHandler δ))) :
    readyAmong fds (rest.map fun h => ⟨h.address, switched first self h⟩) =
      readyAmong fds rest := by
  induction rest with
  | nil => rfl
  | cons h rest ih =>
      have hplace := place_switched first self h
      have hsocket : (switched first self h).socket = h.value.socket :=
        congrArg (fun x => x.2.2) hplace
      rw [List.map_cons]
      cases hready : fds h.value.socket with
      | false =>
          rw [readyAmong_cons_of_neg hready, readyAmong_cons_of_neg (by rwa [hsocket]), ih]
      | true =>
          rw [readyAmong_cons_of_pos hready, readyAmong_cons_of_pos (by rwa [hsocket]), ih]

/-- The functions of the handlers are replaced. -/
theorem Serves.switch (hs : Serves start p rest) (first : Iterator) (self : ℕ)
    (hhandlers : t.handlers = p.handlers.assign (switched first self)) (hloop : t.loop = p.loop)
    (hfds : t.fds = p.fds) (hlog : t.log = p.log) :
    Serves start t (rest.map fun h => ⟨h.address, switched first self h⟩) := by
  have hcalled : t.called = p.called := by rw [called, called, hlog]
  have herased : t.erased = p.erased := by rw [erased, erased, hlog]
  have happended : t.appended = p.appended := by rw [appended, appended, hlog]
  refine ⟨hloop.trans hs.running, hfds.trans hs.fds, ?_, ?_, ?_, ?_, ?_, ?_, ?_⟩
  · rw [hcalled, readyAmong_switched]
    exact hs.order
  · rw [hcalled, herased, readyAmong_switched]
    exact hs.complete
  · rw [hlog]
    exact hs.forgotten
  · rw [hhandlers, happended, herased, ← hs.list, cells_assign, List.map_map]
    apply List.map_congr_left
    exact fun h _ => place_switched first self h
  · rw [hhandlers]
    exact hs.fresh
  · rw [hhandlers, herased]
    exact hs.erased_lt
  · rw [happended]
    exact hs.appended_ge

/-! ## A pass -/

/-- The iterator is in the list, and the pass has called whom it should have. -/
def Going (start p : Pass δ) : Prop :=
  ∃ done rest, p.handlers.At p.i done rest ∧ Serves start p rest

theorem going_turned {handlers : LinkedList (SocketHandler δ)}
    (hfds : ∀ d, (∀ h ∈ handlers.cells, h.value.socket ≠ d) → start.fds d = false)
    (hat : p.handlers.At p.i done (h :: rest)) (hs : Serves start p (h :: rest))
    (ht : Turned handlers p h rest t) : Going start t := by
  have hmem := hat.mem
  have hlt := p.handlers.address_lt
  cases ht with
  | skipped hready =>
      have hskip := hs.skip (hs.fds ▸ hready)
      exact ⟨_, _, hat.advance, hskip.of_eq rfl rfl rfl rfl⟩
  | proceeded hready =>
      have hcall := hs.call (hs.fds ▸ hready) hmem
      exact ⟨_, _, hat.advance, hcall.of_eq rfl rfl rfl rfl⟩
  | removed hready =>
      have hcall := hs.call (hs.fds ▸ hready) hmem
      refine ⟨_, _, hat.eraseSelf, ?_⟩
      have herase := hcall.erase (hlt h hmem) (t := { p with
        handlers := p.handlers.erase h.address
        i := front rest
        log := p.log ++ [.called h.address h.value.handler, .erased h.address] }) rfl rfl rfl
        (by simp [record])
      rwa [List.filter_eq_self.mpr] at herase
      exact fun d hd => by simpa using hat.ne_of_mem_rest hd
  | accepted f socket hready hsocket =>
      have hcall := hs.call (hs.fds ▸ hready) hmem
      refine ⟨_, _, (hat.pushBack ⟨p.nextId, f, socket⟩).advance, ?_⟩
      exact hcall.append (v := ⟨p.nextId, f, socket⟩) (hfds socket hsocket) rfl rfl rfl
        (by simp [record])
  | switched hready =>
      have hcall := hs.call (hs.fds ▸ hready) hmem
      exact ⟨_, _, hat.advance_assign _, hcall.switch _ _ rfl rfl rfl rfl⟩
  | @erased d hready hd hne =>
      have hcall := hs.call (hs.fds ▸ hready) hmem
      exact ⟨_, _, (hat.erase hne).advance, hcall.erase (hlt d hd) rfl rfl rfl (by simp [record])⟩

/-- What holds at every moment of a pass that has begun as `start`. At its end nothing is
pending. -/
structure Right (start p : Pass δ) : Prop where
  running : p.loop = .running
  inside : p.i = .past ∨ ∃ h ∈ p.handlers.cells, p.i = .cell h.address
  order : (p.called.map Prod.fst).Sublist (readyAmong start.fds start.handlers.cells)
  once : (p.called.map Prod.fst).Nodup
  complete : ∀ a ∈ readyAmong start.fds start.handlers.cells,
    a ∈ p.called.map Prod.fst ∨ a ∈ p.erased ∨ a ∈ p.pending.map Cell.address
  unappended : ∀ x ∈ p.appended, x.1 ∉ p.called.map Prod.fst
  forgotten : p.log.Pairwise fun e e' => ∀ a f, e = .erased a → e' ≠ .called a f
  list : p.handlers.cells.map place =
    (start.handlers.cells.map place ++ p.appended).filter (·.1 ∉ p.erased)

/-- The handler whose turn it is has been called exactly when `select` has reported it, with the
function that it held. -/
def Reached (p t : Pass δ) : Prop :=
  ∃ h ∈ p.handlers.cells, p.i = .cell h.address ∧
    t.called = p.called ++ if p.fds h.value.socket then [(h.address, h.value.handler)] else []

theorem readyAmong_sublist (fds : δ → Bool) (rest : List (Cell (SocketHandler δ))) :
    (readyAmong fds rest).Sublist (rest.map Cell.address) := List.filter_sublist.map _

theorem Going.right (hs : Going start p) : Right start p := by
  rcases hs with ⟨done, rest, hat, hserves⟩
  have horder := (List.sublist_append_left _ _).trans hserves.order
  refine ⟨hserves.running, ?_, horder, ?_, ?_, ?_, hserves.forgotten, hserves.list⟩
  · cases rest with
    | nil => exact .inl hat.iterator
    | cons h rest => exact .inr ⟨h, hat.mem, hat.iterator⟩
  · exact (horder.trans (readyAmong_sublist _ _)).nodup start.handlers.nodup
  · rw [pending, hat.suffix]
    intro a ha
    rcases hserves.complete a ha with hcalled | herased | hrest
    · exact .inl hcalled
    · exact .inr (.inl herased)
    · exact .inr (.inr ((readyAmong_sublist _ _).subset hrest))
  · intro x hx hcalled
    obtain ⟨h, hh, heq⟩ := List.mem_map.mp ((readyAmong_sublist _ _).subset (horder.subset hcalled))
    have hlt := start.handlers.address_lt h hh
    have hge := hserves.appended_ge x hx
    omega

theorem reached {handlers : LinkedList (SocketHandler δ)} (hat : p.handlers.At p.i done (h :: rest))
    (ht : Turned handlers p h rest t) : Reached p t := by
  refine ⟨h, hat.mem, hat.iterator, ?_⟩
  cases ht with
  | skipped hready => simp [called, hready]
  | proceeded hready | removed hready | accepted _ _ hready | switched hready | erased hready =>
      simp [called, hready, Entry.call?]

/-- The turns that are left: a handler that is ready may append another one, which is not. -/
def load (fds : δ → Bool) (rest : List (Cell (SocketHandler δ))) : ℕ :=
  rest.length + (readyAmong fds rest).length

theorem load_le (fds : δ → Bool) (rest : List (Cell (SocketHandler δ))) :
    load fds rest ≤ 2 * rest.length := by
  have hle := (readyAmong_sublist fds rest).length_le
  rw [List.length_map] at hle
  rw [load]
  omega

theorem load_turned {handlers : LinkedList (SocketHandler δ)}
    (hfds : ∀ d, (∀ h ∈ handlers.cells, h.value.socket ≠ d) → p.fds d = false)
    (hat : p.handlers.At p.i done (h :: rest)) (ht : Turned handlers p h rest t) :
    load t.fds t.pending < load p.fds p.pending := by
  have hbefore : p.pending = h :: rest := hat.suffix
  rw [hbefore]
  cases ht with
  | skipped hready =>
      change load p.fds (p.handlers.suffix (front rest)) < _
      rw [hat.advance.suffix, load, load, readyAmong_cons_of_neg hready, List.length_cons]
      omega
  | proceeded hready =>
      change load p.fds (p.handlers.suffix (front rest)) < _
      rw [hat.advance.suffix, load, load, readyAmong_cons_of_pos hready, List.length_cons,
        List.length_cons]
      omega
  | removed hready =>
      change load p.fds ((p.handlers.erase h.address).suffix (front rest)) < _
      rw [hat.eraseSelf.suffix, load, load, readyAmong_cons_of_pos hready, List.length_cons,
        List.length_cons]
      omega
  | accepted f socket hready hsocket =>
      have hafter := (hat.pushBack ⟨p.nextId, f, socket⟩).advance.suffix
      change load p.fds ((p.handlers.pushBack ⟨p.nextId, f, socket⟩).suffix _) < _
      rw [hafter, load, load, readyAmong_cons_of_pos hready,
        readyAmong_concat (hfds socket hsocket)]
      simp only [List.length_append, List.length_cons, List.length_nil]
      omega
  | switched hready =>
      have hafter := (hat.advance_assign (switched (front p.handlers.cells) h.address)).suffix
      change load p.fds ((p.handlers.assign _).suffix _) < _
      rw [hafter, load, load, readyAmong_switched, readyAmong_cons_of_pos hready, List.length_map,
        List.length_cons, List.length_cons]
      omega
  | @erased d hready hd hne =>
      have hafter := (hat.erase hne).advance.suffix
      change load p.fds ((p.handlers.erase d.address).suffix _) < _
      rw [hafter, load, load, readyAmong_cons_of_pos hready, readyAmong_filter, List.length_cons,
        List.length_cons]
      have hrest := List.length_filter_le (fun c : Cell (SocketHandler δ) => decide
        (c.address ≠ d.address)) rest
      have hready' := List.length_filter_le (· ≠ d.address) (readyAmong p.fds rest)
      omega

theorem fds_select [DecidableEq δ] {handlers : LinkedList (SocketHandler δ)} (nextId : UInt32)
    (reported : δ → Bool) (d : δ) (hd : ∀ h ∈ handlers.cells, h.value.socket ≠ d) :
    (select handlers nextId reported).fds d = false := by
  rw [select, Bool.and_eq_false_iff, List.any_eq_false]
  exact .inl fun h hh => by simpa using hd h hh

theorem going_select [DecidableEq δ] (handlers : LinkedList (SocketHandler δ)) (nextId : UInt32)
    (reported : δ → Bool) :
    Going (select handlers nextId reported) (select handlers nextId reported) :=
  ⟨[], handlers.cells, At.begin handlers, serves_select handlers nextId reported⟩

theorem Going.turned {handlers : LinkedList (SocketHandler δ)} {e : Turn δ} (hp : Going start p)
    (he : Admits handlers p e) (ht : p.step e = some t) :
    ∃ done h rest, p.handlers.At p.i done (h :: rest) ∧ Serves start p (h :: rest) ∧
      Turned handlers p h rest t := by
  rcases hp with ⟨done, rest, hat, hserves⟩
  cases rest with
  | nil =>
      rw [step, if_pos (.inr hat.iterator)] at ht
      cases ht
  | cons h rest => exact ⟨done, h, rest, hat, hserves, Pass.turned hat he ht⟩

/-- One turn of a pass over `handlers`. -/
theorem going_step [DecidableEq δ] {handlers : LinkedList (SocketHandler δ)} {nextId : UInt32}
    {reported : δ → Bool} {e : Turn δ} (hp : Going (select handlers nextId reported) p)
    (he : Admits handlers p e) (ht : p.step e = some t) :
    Going (select handlers nextId reported) t ∧ Reached p t ∧
      load t.fds t.pending < load p.fds p.pending := by
  obtain ⟨done, h, rest, hat, hserves, hturned⟩ := hp.turned he ht
  refine ⟨going_turned (fds_select nextId reported) hat hserves hturned, reached hat hturned, ?_⟩
  refine load_turned ?_ hat hturned
  rw [hserves.fds]
  exact fds_select nextId reported

/-- A pass that is not at its end goes on. -/
theorem Going.goes_on (hp : Going start p) (handlers : LinkedList (SocketHandler δ)) :
    p.i = .past ∨ ∃ e, Admits handlers p e ∧ (p.step e).isSome := by
  rcases hp with ⟨done, rest, hat, hserves⟩
  cases rest with
  | nil => exact .inl hat.iterator
  | cons h rest =>
      right
      cases hready : p.fds h.value.socket with
      | false =>
          refine ⟨.skip, trivial, ?_⟩
          rw [step_of_at hserves.running hat]
          simp only [turn, hready]
          rfl
      | true =>
          refine ⟨.call .proceed, trivial, ?_⟩
          rw [step_of_at hserves.running hat]
          simp only [turn, hready]
          rfl

/-- Every handler that was in the list when the pass began is called when it is reached, if it
has been reported: whatever the handlers that are called do to the list. -/
theorem pass_serves [DecidableEq δ] (handlers : LinkedList (SocketHandler δ)) (nextId : UInt32)
    (reported : δ → Bool) (turns : List (Turn δ))
    (hturns : Along step (Admits handlers) (select handlers nextId reported) turns) :
    Through step (fun p _ t => Reached p t ∧ Right (select handlers nextId reported) t)
        (select handlers nextId reported) turns ∧
      ∀ t, run step (select handlers nextId reported) turns = some t →
        turns.length ≤ 2 * handlers.cells.length ∧
          (t.i = .past ∨ ∃ e, Admits handlers t e ∧ (t.step e).isSome) := by
  have hstart := going_select handlers nextId reported
  constructor
  · refine through_of_along (Going (select handlers nextId reported)) ?_ hstart hturns
    intro p e t hp he ht
    obtain ⟨ht', hreached, -⟩ := going_step hp he ht
    exact ⟨ht', hreached, ht'.right⟩
  · intro t hrun
    constructor
    · have hle : turns.countP (fun _ => true) + load t.fds t.pending ≤
          load (select handlers nextId reported).fds (select handlers nextId reported).pending := by
        refine countP_add_le_of_measure (Going (select handlers nextId reported))
          (fun p => load p.fds p.pending) ?_ hstart hturns hrun
        intro p e t hp he ht
        obtain ⟨ht', -, hload⟩ := going_step hp he ht
        refine ⟨ht', ?_⟩
        rw [if_pos rfl, Nat.add_comm]
        exact hload
      have hpending : (select handlers nextId reported).pending = handlers.cells :=
        (At.begin handlers).suffix
      rw [List.countP_true, hpending] at hle
      exact (Nat.le_add_right _ _).trans (hle.trans (load_le _ _))
    · have hgoing : Going (select handlers nextId reported) t :=
        run_invariant _ (fun p e t hp he ht => (going_step hp he ht).1) hstart hturns hrun
      exact hgoing.goes_on handlers

/-- The acceptor, the handler of the aux connection and two sessions. -/
def fourHandlers : LinkedList (SocketHandler ℕ) where
  cells := [⟨0, 100, .acceptRegular, 5⟩, ⟨1, 101, .handleAux, 6⟩, ⟨2, 102, .handleSession, 7⟩,
    ⟨3, 103, .handleSession, 8⟩]
  fresh := 4
  nodup := by decide
  address_lt := by decide

/-- One connection is accepted, a session that waits for its turn is erased, and another one
asks to be removed. -/
def fourTurns : List (Turn ℕ) :=
  [.call (.accept .handleSession 9), .call (.erase 102), .call .removeThis, .skip]

theorem pass_serves_four :
    Along step (Admits fourHandlers) (select fourHandlers 104 fun _ => true) fourTurns ∧
      Through step
        (fun p _ t => Reached p t ∧ Right (select fourHandlers 104 fun _ => true) t)
        (select fourHandlers 104 fun _ => true) fourTurns := by
  have hturns : Along step (Admits fourHandlers) (select fourHandlers 104 fun _ => true)
      fourTurns := by
    refine ⟨by unfold Admits; decide, fun p hp => ?_⟩
    cases hp
    refine ⟨⟨⟨2, 102, .handleSession, 7⟩, rfl, by decide⟩, fun p hp => ?_⟩
    cases hp
    refine ⟨trivial, fun p hp => ?_⟩
    cases hp
    exact ⟨trivial, fun _ _ => trivial⟩
  exact ⟨hturns, (pass_serves fourHandlers 104 _ fourTurns hturns).1⟩

example : (run step (select fourHandlers 104 fun _ => true) fourTurns).map
    (fun t => (t.called.map Prod.fst, t.handlers.cells.map Cell.address, t.i)) =
      some ([0, 1, 3], [0, 1, 4], .past) := by decide

end CohesionIpc.Sockets.Pass
