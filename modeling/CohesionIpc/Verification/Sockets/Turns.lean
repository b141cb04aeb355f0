import CohesionIpc.Verification.Sockets.Connections
import CohesionIpc.Verification.Sockets.Passes

/-! The turns of the server are those of a pass over its list of handlers: what holds of every
pass holds between two calls of `select`. -/

namespace CohesionIpc.Sockets

open Transition LinkedList Server

/-- The handler in a cell. -/
def handlerOf (c : Cell (SocketHandler Socket)) : Handler :=
  ⟨c.value.id, c.value.handler, c.value.socket⟩

@[simp] theorem handlerOf_id (c : Cell (SocketHandler Socket)) : (handlerOf c).id = c.value.id :=
  rfl

@[simp] theorem handlerOf_socket (c : Cell (SocketHandler Socket)) :
    (handlerOf c).socket = c.value.socket := rfl

/-- The pass over `start` is where the server is in its own. -/
structure Follows (start : LinkedList (SocketHandler Socket)) (p : Pass Socket) (s : Server) :
    Prop where
  list : ∃ done rest, p.handlers.At p.i done rest ∧ done.map handlerOf = s.visited ∧
    rest.map handlerOf = s.pending
  nextId : p.nextId = s.nextId
  fds : ∀ c, p.fds c = decide (c ∈ s.ready)
  loop : p.loop = s.loop
  waiting : ∀ h ∈ start.cells, h.value.socket ∉ s.backlog
  known : ∀ h ∈ start.cells, ∀ n, h.value.socket = .client n → n < s.clients

variable {start : LinkedList (SocketHandler Socket)} {p : Pass Socket} {s t : Server}
  {host : ByteOrder} {code : Surroundings} {unset : UInt32} {fails : Bool} {e : Event}
  {c : Cell (SocketHandler Socket)} {done rest : List (Cell (SocketHandler Socket))}

/-- A pass that takes a turn follows a server that takes one. -/
def Turns (start : LinkedList (SocketHandler Socket)) (p : Pass Socket) (t : Server) : Prop :=
  ∃ e p', Pass.Admits start p e ∧ p.step e = some p' ∧ Follows start p' t

/-- What a turn leaves alone beside the list. -/
structure Moves (s t : Server) : Prop where
  ready : t.ready = s.ready
  loop : t.loop = s.loop
  backlog : ∀ c ∈ t.backlog, c ∈ s.backlog
  clients : t.clients = s.clients

theorem Follows.move {p' : Pass Socket} (hp : Follows start p s) (hst : Moves s t)
    (hfds : p'.fds = p.fds) (hloop : p'.loop = p.loop) (hnextId : p'.nextId = t.nextId)
    (hat : p'.handlers.At p'.i done rest) (hvisited : done.map handlerOf = t.visited)
    (hpending : rest.map handlerOf = t.pending) : Follows start p' t := by
  refine ⟨⟨done, rest, hat, hvisited, hpending⟩, hnextId, ?_, ?_, ?_, ?_⟩
  · intro c
    rw [hfds, hst.ready]
    exact hp.fds c
  · rw [hloop, hst.loop]
    exact hp.loop
  · exact fun h hh hmem => hp.waiting h hh (hst.backlog _ hmem)
  · rw [hst.clients]
    exact hp.known

theorem step_call (hrunning : p.loop = .running) (hat : p.handlers.At p.i done (c :: rest))
    (hready : p.fds c.value.socket = true) (effect : Effect Socket) :
    p.step (.call effect) = some
      (((p.record (.called c.address c.value.handler)).perform c.address effect).1.settle c.address
        ((p.record (.called c.address c.value.handler)).perform c.address effect).2) := by
  rw [Pass.step_of_at hrunning hat]
  exact Pass.turn_call.mpr ⟨hready, rfl⟩

/-! ## The turn of a handler -/

section Turn

variable (hp : Follows start p s) (hrunning : s.loop = .running)
  (hat : p.handlers.At p.i done (c :: rest)) (hdone : done.map handlerOf = s.visited)
include hp hrunning hat hdone

/-- The handler is passed over. -/
theorem turns_skip (hready : c.value.socket ∉ s.ready) :
    Turns start p (s.proceed (handlerOf c) (rest.map handlerOf)) := by
  have hfds : p.fds c.value.socket = false := by
    rw [hp.fds]
    exact decide_eq_false hready
  refine ⟨.skip, _, trivial, (Pass.step_of_at (hp.loop.trans hrunning) hat _).trans
    (Pass.turn_skip.mpr ⟨hfds, rfl⟩), ?_⟩
  simp only [Pass.settle, hat.next]
  refine hp.move ⟨rfl, rfl, fun _ h => h, rfl⟩ rfl rfl hp.nextId hat.advance ?_ rfl
  rw [List.map_append, hdone]
  rfl

variable (hready : c.value.socket ∈ s.ready) (hst : Moves s t)
include hready hst

/-- It is called, and leaves the list alone. -/
theorem turns_proceed (hnextId : t.nextId = s.nextId)
    (hvisited : t.visited = s.visited ++ [handlerOf c])
    (hpending : t.pending = rest.map handlerOf) : Turns start p t := by
  refine ⟨.call .proceed, _, trivial, step_call (hp.loop.trans hrunning) hat
    ((hp.fds _).trans (decide_eq_true hready)) _, ?_⟩
  simp only [Pass.perform, Pass.settle, Pass.record, hat.next]
  refine hp.move hst rfl rfl (hp.nextId.trans hnextId.symm) hat.advance ?_ hpending.symm
  rw [List.map_append, hdone, hvisited]
  rfl

/-- It asks to be removed. -/
theorem turns_removeThis (hnextId : t.nextId = s.nextId) (hvisited : t.visited = s.visited)
    (hpending : t.pending = rest.map handlerOf) : Turns start p t := by
  refine ⟨.call .removeThis, _, trivial, step_call (hp.loop.trans hrunning) hat
    ((hp.fds _).trans (decide_eq_true hready)) _, ?_⟩
  simp only [Pass.perform, Pass.settle, Pass.record, hat.next]
  exact hp.move hst rfl rfl (hp.nextId.trans hnextId.symm) hat.eraseSelf
    (hdone.trans hvisited.symm) hpending.symm

/-- It appends another one. -/
theorem turns_accept {f : HandlerFunction} {d : Socket} (hd : d ∈ s.backlog)
    (hnextId : t.nextId = s.nextId + 1) (hvisited : t.visited = s.visited ++ [handlerOf c])
    (hpending : t.pending = rest.map handlerOf ++ [⟨s.nextId, f, d⟩]) : Turns start p t := by
  have hadmits : Pass.Admits start p (.call (.accept f d)) := by
    rintro h hh rfl
    exact hp.waiting h hh hd
  refine ⟨.call (.accept f d), _, hadmits, step_call (hp.loop.trans hrunning) hat
    ((hp.fds _).trans (decide_eq_true hready)) _, ?_⟩
  have hnext := (hat.pushBack ⟨p.nextId, f, d⟩).next
  simp only [Pass.perform, Pass.settle, Pass.record, hnext]
  refine hp.move hst rfl rfl ?_ (hat.pushBack _).advance ?_ ?_
  · exact hnextId ▸ congrArg (· + 1) hp.nextId
  · rw [List.map_append, hdone, hvisited]
    rfl
  · rw [hpending, List.map_append, ← hp.nextId]
    rfl

omit hdone in
/-- It erases another one. -/
theorem turns_erase {id : UInt32} {d : Cell (SocketHandler Socket)}
    (hfind : p.handlers.cells.find? (·.value.id = id) = some d) (hne : c.address ≠ d.address)
    (hnextId : t.nextId = s.nextId)
    (hvisited : t.visited = (done.filter (·.address ≠ d.address)).map handlerOf ++ [handlerOf c])
    (hpending : t.pending = (rest.filter (·.address ≠ d.address)).map handlerOf) :
    Turns start p t := by
  have hadmits : Pass.Admits start p (.call (.erase id)) := by
    refine ⟨d, hfind, ?_⟩
    rw [hat.iterator, front, ne_eq, Iterator.cell.injEq]
    exact Ne.symm hne
  refine ⟨.call (.erase id), _, hadmits, step_call (hp.loop.trans hrunning) hat
    ((hp.fds _).trans (decide_eq_true hready)) _, ?_⟩
  have hnext := (hat.erase hne).next
  simp only [Pass.perform, Pass.settle, Pass.record, hfind, hnext]
  refine hp.move hst rfl rfl (hp.nextId.trans hnextId.symm) (hat.erase hne).advance ?_ hpending.symm
  rw [List.map_append, hvisited]
  rfl

/-- It has recognised the connection of the server, and switches all handlers. -/
theorem turns_switch (hnextId : t.nextId = s.nextId)
    (hlist : t.visited ++ t.pending =
      (p.handlers.assign (switched (front p.handlers.cells) c.address)).cells.map handlerOf)
    (hlength : t.visited.length = s.visited.length + 1) : Turns start p t := by
  refine ⟨.call .switch, _, trivial, step_call (hp.loop.trans hrunning) hat
    ((hp.fds _).trans (decide_eq_true hready)) _, ?_⟩
  simp only [Pass.perform, Pass.settle, Pass.record, hat.next_assign]
  have hafter := hat.advance_assign (switched (front p.handlers.cells) c.address)
  rw [hafter.cells, List.map_append] at hlist
  obtain ⟨hvisited, hpending⟩ := List.append_inj hlist (by simp [hlength, ← hdone])
  exact hp.move hst rfl rfl (hp.nextId.trans hnextId.symm) hafter hvisited.symm hpending.symm

end Turn

/-- The first handler with an id is erased from the list, and its cell from the cells. -/
theorem map_filter_address {cells : List (Cell (SocketHandler Socket))}
    {d : Cell (SocketHandler Socket)} {id : UInt32} (hnodup : (cells.map Cell.address).Nodup)
    (hfind : cells.find? (·.value.id = id) = some d) :
    (cells.filter (·.address ≠ d.address)).map handlerOf =
      (cells.map handlerOf).eraseP (·.id = id) := by
  induction cells with
  | nil => cases hfind
  | cons x cells ih =>
      obtain ⟨hnot, hrest⟩ := List.nodup_cons.mp hnodup
      by_cases hid : x.value.id = id
      · rw [List.find?_cons_of_pos (by simpa using hid), Option.some.injEq] at hfind
        subst hfind
        have hother : ∀ y ∈ cells, y.address ≠ x.address := by
          intro y hy heq
          exact hnot (heq ▸ List.mem_map_of_mem hy)
        rw [List.filter_cons_of_neg (by simp), List.map_cons,
          List.eraseP_cons_of_pos (p := fun h : Handler => h.id = id) (decide_eq_true hid),
          List.filter_eq_self.mpr fun y hy => by simpa using hother y hy]
      · rw [List.find?_cons_of_neg (by simpa using hid)] at hfind
        have hne : x.address ≠ d.address := by
          intro heq
          exact hnot (heq ▸ List.mem_map_of_mem (List.mem_of_find?_eq_some hfind))
        rw [List.filter_cons_of_pos (by simpa using hne), List.map_cons, List.map_cons,
          List.eraseP_cons_of_neg (p := fun h : Handler => h.id = id)
            fun h => hid (of_decide_eq_true h), ih hrest hfind]

/-- There is a cell with an id where there is a handler with it. -/
theorem exists_find? {cells : List (Cell (SocketHandler Socket))} {id : UInt32}
    (h : ∃ h' ∈ cells.map handlerOf, h'.id = id) :
    ∃ d, cells.find? (·.value.id = id) = some d := by
  obtain ⟨h', hh', hid⟩ := h
  obtain ⟨x, hx, rfl⟩ := List.mem_map.mp hh'
  refine Option.isSome_iff_exists.mp (List.find?_isSome.mpr ⟨x, hx, ?_⟩)
  exact decide_eq_true hid

theorem find?_eq_none_of_not_exists {cells : List (Cell (SocketHandler Socket))} {id : UInt32}
    (h : ¬ ∃ h' ∈ cells.map handlerOf, h'.id = id) :
    cells.find? (·.value.id = id) = none := by
  rw [List.find?_eq_none]
  intro x hx hid
  exact h ⟨handlerOf x, List.mem_map_of_mem hx, of_decide_eq_true hid⟩

/-! ## The calls of the server -/

/-- When no factory raises, every handler gets its function. -/
theorem assign_eq_map {self : Handler} {hs : List Handler}
    (hquiet : (assign code self hs).2.2 = false) : (assign code self hs).1 = hs.map fun h =>
      { h with handler := if h.socket = self.socket then .handleAux else .handleSession } := by
  induction hs with
  | nil => rfl
  | cons h hs ih =>
      rw [Server.assign] at hquiet ⊢
      split at hquiet
      · rename_i hself
        rw [if_pos hself, List.map_cons, if_pos hself, ← ih hquiet]
      · rename_i hself
        rw [if_neg hself]
        split at hquiet
        · cases hquiet
        · rename_i hraises
          rw [if_neg hraises, List.map_cons, if_neg hself, ← ih hquiet]

/-- The handlers are told apart by their addresses or by their sockets. -/
theorem map_switched {cells : List (Cell (SocketHandler Socket))} {first : Handler}
    {others : List Handler} (haddresses : (cells.map Cell.address).Nodup)
    (hsockets : ((cells.map handlerOf).map Handler.socket).Nodup) (hc : c ∈ cells)
    (hlist : cells.map handlerOf = first :: others)
    (hquiet : (assign code (handlerOf c) others).2.2 = false) :
    (cells.map fun x => (⟨x.address, switched (front cells) c.address x⟩ : Cell _)).map handlerOf =
      { first with handler := .acceptRegular } :: (assign code (handlerOf c) others).1 := by
  have hsame : ∀ x ∈ cells, x.value.socket = c.value.socket ↔ x.address = c.address := by
    intro x hx
    constructor
    · intro heq
      rw [List.map_map] at hsockets
      rw [List.inj_on_of_nodup_map hsockets hx hc heq]
    · intro heq
      rw [List.inj_on_of_nodup_map haddresses hx hc heq]
  cases cells with
  | nil => cases hc
  | cons x cells =>
      cases hlist
      have hother : ∀ y ∈ cells, y.address ≠ x.address := by
        intro y hy heq
        exact (List.nodup_cons.mp haddresses).1 (heq ▸ List.mem_map_of_mem hy)
      rw [assign_eq_map hquiet, List.map_cons, List.map_cons, List.map_map, List.map_map]
      congr 1
      · rw [switched, if_pos (by rfl)]
        rfl
      · apply List.map_congr_left
        intro y hy
        have hne : ¬ Iterator.cell y.address = front (x :: cells) := by
          rw [front, Iterator.cell.injEq]
          exact hother y hy
        have hiff := hsame y (List.mem_cons_of_mem x hy)
        simp only [Function.comp_apply, switched, if_neg hne]
        by_cases haddress : y.address = c.address
        · simp [handlerOf, haddress, hiff.mpr haddress]
        · have hsocket : ¬ y.value.socket = c.value.socket := fun h => haddress (hiff.mp h)
          simp [handlerOf, haddress, hsocket]

section Call

variable (hp : Follows start p s) (hrunning : s.loop = .running) (htrunning : t.loop = .running)
  (hat : p.handlers.At p.i done (c :: rest)) (hdone : done.map handlerOf = s.visited)
  (hpending : s.pending = handlerOf c :: rest.map handlerOf) (hready : c.value.socket ∈ s.ready)
include hp hrunning htrunning hat hdone hpending hready

theorem turns_handleAux (hs : s.handleAux host unset (handlerOf c) (rest.map handlerOf) = some t) :
    Turns start p t := by
  have hnodup := p.handlers.nodup
  rw [hat.cells, List.map_append, List.nodup_append] at hnodup
  have happend : ∀ id, p.handlers.cells.find? (·.value.id = id) =
      (done.find? (·.value.id = id)).or ((c :: rest).find? (·.value.id = id)) := by
    intro id
    rw [hat.cells, List.find?_append]
  simp only [handleAux, Option.ite_none_left_eq_some] at hs
  rcases hs with ⟨-, hs⟩
  generalize (s.receivedId host unset (handlerOf c)).value = id at hs
  split at hs
  · rename_i hfound
    split at hs
    · rename_i hvisited
      cases hs
      rw [← hdone] at hvisited
      obtain ⟨d, hd⟩ := exists_find? hvisited
      have hmem := List.mem_of_find?_eq_some hd
      have hother : ∀ x ∈ rest, x.address ≠ d.address := fun x hx heq =>
        hnodup.2.2 _ (List.mem_map_of_mem hmem) _
          (List.mem_map_of_mem (List.mem_cons_of_mem c hx)) heq.symm
      have hfind : p.handlers.cells.find? (·.value.id = id) = some d := by
        rw [happend, hd, Option.some_or]
      refine turns_erase hp hrunning hat hready ⟨rfl, rfl, fun _ h => h, rfl⟩ hfind
        (hat.ne_of_mem_done hmem).symm rfl ?_ ?_
      · rw [map_filter_address hnodup.1 hd, hdone]
        rfl
      · rw [List.filter_eq_self.mpr fun x hx => by simpa using hother x hx]
        rfl
    · rename_i hvisited
      split at hs
      · cases hs
        cases htrunning
      · rename_i hself
        cases hs
        have hlater : ∃ h' ∈ rest.map handlerOf, h'.id = id := by
          obtain ⟨-, h', hh', hid⟩ := hfound
          rw [handlers_of_pending hpending] at hh'
          rcases List.mem_append.mp hh' with hh' | hh'
          · exact absurd ⟨h', hh', hid⟩ hvisited
          · rcases List.mem_cons.mp hh' with rfl | hh'
            · exact absurd hid hself
            · exact ⟨h', hh', hid⟩
        obtain ⟨d, hd⟩ := exists_find? hlater
        have hmem := List.mem_of_find?_eq_some hd
        rw [← hdone] at hvisited
        have hother : ∀ x ∈ done, x.address ≠ d.address := fun x hx =>
          hnodup.2.2 _ (List.mem_map_of_mem hx) _
            (List.mem_map_of_mem (List.mem_cons_of_mem c hmem))
        have hfind : p.handlers.cells.find? (·.value.id = id) = some d := by
          rw [happend, find?_eq_none_of_not_exists hvisited, Option.none_or,
            List.find?_cons_of_neg (by simpa using hself), hd]
        refine turns_erase hp hrunning hat hready ⟨rfl, rfl, fun _ h => h, rfl⟩ hfind
          (hat.ne_of_mem_rest hmem).symm rfl ?_ ?_
        · rw [List.filter_eq_self.mpr fun x hx => by simpa using hother x hx, hdone]
          rfl
        · rw [map_filter_address (List.nodup_cons.mp hnodup.2.1).2 hd]
          rfl
  · cases hs
    cases htrunning

omit hpending in
theorem turns_acceptPreinit
    (hs : s.acceptPreinit fails (handlerOf c) (rest.map handlerOf) = some t) :
    Turns start p t := by
  rcases acceptPreinit_cases hs with rfl | ⟨d, more, hbacklog, rfl⟩
  · cases htrunning
  · have hmore : ∀ x ∈ more, x ∈ s.backlog := by
      intro x hx
      rw [hbacklog]
      exact List.mem_cons_of_mem _ hx
    exact turns_accept hp hrunning hat hdone hready ⟨rfl, rfl, hmore, rfl⟩
      (hbacklog ▸ List.mem_cons_self) rfl rfl rfl

omit hpending in
theorem turns_acceptRegular
    (hs : s.acceptRegular code fails (handlerOf c) (rest.map handlerOf) = some t) :
    Turns start p t := by
  rcases acceptRegular_cases hs with rfl | ⟨d, more, hbacklog, rfl⟩
  · cases htrunning
  · have hmore : ∀ x ∈ more, x ∈ s.backlog := by
      intro x hx
      rw [hbacklog]
      exact List.mem_cons_of_mem _ hx
    exact turns_accept hp hrunning hat hdone hready ⟨rfl, rfl, hmore, rfl⟩
      (hbacklog ▸ List.mem_cons_self) rfl rfl rfl

omit hpending in
theorem turns_handleSession
    (hs : s.handleSession host code unset (handlerOf c) (rest.map handlerOf) = some t) :
    Turns start p t := by
  obtain ⟨outcome, rfl, -⟩ := handleSession_cases hs
  cases hstatus : outcome.status with
  | exit =>
      simp only [served, hstatus] at htrunning
      cases htrunning
  | removeThis =>
      simp only [served, hstatus]
      exact turns_removeThis hp hrunning hat hdone hready ⟨rfl, rfl, fun _ h => h, rfl⟩ rfl rfl rfl
  | proceed =>
      simp only [served, hstatus] at htrunning ⊢
      split at htrunning
      · cases htrunning
      · rename_i hquiet
        rw [if_neg hquiet]
        exact turns_proceed hp hrunning hat hdone hready ⟨rfl, rfl, fun _ h => h, rfl⟩ rfl rfl rfl

/-- The handlers of distinct sockets are switched one by one. -/
theorem turns_handlePreinit (hnodup : (s.handlers.map Handler.socket).Nodup)
    (hs : s.handlePreinit host code unset (handlerOf c) (rest.map handlerOf) = some t) :
    Turns start p t := by
  have hcells : p.handlers.cells.map handlerOf = s.handlers := by
    rw [hat.cells, List.map_append, hdone, List.map_cons, ← hpending, handlers]
  simp only [handlePreinit, Option.ite_none_left_eq_some] at hs
  rcases hs with ⟨-, hs⟩
  split at hs
  · split at hs
    · cases hs
    · rename_i first others hlist
      cases hquiet : (assign code (handlerOf c) others).2.2 with
      | true =>
          rw [hquiet] at hs
          cases hs
          cases htrunning
      | false =>
          rw [hquiet] at hs
          cases hs
          refine turns_switch hp hrunning hat hdone hready ⟨rfl, rfl, fun _ h => h, rfl⟩ rfl ?_ ?_
          · rw [← hcells] at hlist hnodup
            rw [List.take_append_drop, cells_assign]
            exact (map_switched p.handlers.nodup hnodup hat.mem hlist hquiet).symm
          · have hlength := congrArg List.length hlist
            have hplace := congrArg List.length (map_place_assign code (handlerOf c) others)
            simp only [handlers, hpending, List.length_append, List.length_cons,
              List.length_map] at hlength hplace
            rw [if_neg Bool.false_ne_true, List.length_take_of_le]
            rw [List.length_cons, hplace, ← hlength]
            omega
  · cases hs
    exact turns_proceed hp hrunning hat hdone hready ⟨rfl, rfl, fun _ h => h, rfl⟩ rfl rfl rfl

end Call

/-- A turn of the server after which its loop goes on is a turn of the pass. -/
theorem turns_serve (hp : Follows start p s) (hnodup : (s.handlers.map Handler.socket).Nodup)
    (hs : s.step host code (.serve unset fails) = some t) (htrunning : t.loop = .running) :
    Turns start p t := by
  obtain ⟨hrunning, h, later, hpending, hcases⟩ := serve_cases hs
  obtain ⟨done, cells, hat, hdone, hcells⟩ := hp.list
  rw [hpending] at hcells
  obtain ⟨c, rest, rfl, rfl, rfl⟩ := List.map_eq_cons_iff.mp hcells
  rcases hcases with ⟨hready, rfl⟩ | ⟨⟨-, -, -, hready⟩, hcall⟩
  · exact turns_skip hp hrunning hat hdone hready
  · simp only [Server.call] at hcall
    split at hcall
    · exact turns_acceptPreinit hp hrunning htrunning hat hdone hready hcall
    · exact turns_acceptRegular hp hrunning htrunning hat hdone hready hcall
    · exact turns_handlePreinit hp hrunning htrunning hat hdone hpending hready hnodup hcall
    · exact turns_handleSession hp hrunning htrunning hat hdone hready hcall
    · exact turns_handleAux hp hrunning htrunning hat hdone hpending hready hcall

/-! ## Between two calls of `select` -/

/-- Anything but `select`. -/
def Event.withinPass : Event → Bool
  | .connect | .send _ _ | .close _ | .disconnect _ | .stop | .serve _ _ => true
  | .select | .selectFails => false

/-- What clients and sessions do in the meantime does not concern the pass. -/
theorem follows_outside (hp : Follows start p s) (hwithin : e.withinPass)
    (hserve : ∀ unset fails, e ≠ .serve unset fails) (hs : s.step host code e = some t) :
    Follows start p t := by
  cases e with
  | serve unset fails => exact absurd rfl (hserve unset fails)
  | select | selectFails => cases hwithin
  | connect =>
      cases hs
      refine ⟨hp.list, hp.nextId, hp.fds, hp.loop, ?_, ?_⟩
      · intro h hh hmem
        rcases List.mem_append.mp hmem with hmem | hmem
        · exact hp.waiting h hh hmem
        · exact lt_irrefl _ (hp.known h hh _ (List.mem_singleton.mp hmem))
      · exact fun h hh n hn => Nat.lt_succ_of_lt (hp.known h hh n hn)
  | send n bytes | close n | disconnect id =>
      simp only [Server.step, Option.ite_none_right_eq_some, Option.some.injEq] at hs
      rcases hs with ⟨-, rfl⟩
      exact ⟨hp.list, hp.nextId, hp.fds, hp.loop, hp.waiting, hp.known⟩
  | stop =>
      simp only [Server.step, Option.ite_none_left_eq_some, Option.some.injEq] at hs
      rcases hs with ⟨-, rfl⟩
      exact ⟨hp.list, hp.nextId, hp.fds, hp.loop, hp.waiting, hp.known⟩

/-- A loop that has ended does not go on. -/
theorem running_of_step (hs : s.step host code e = some t) (htrunning : t.loop = .running) :
    s.loop = .running := by
  rcases step_cases hs with ⟨unset, fails, rfl⟩ | ⟨hrunning, -⟩ | houtside
  · exact (serve_cases hs).1
  · exact hrunning
  · exact houtside.loop ▸ htrunning

/-- Where `select` returns, a pass over the handlers begins. -/
theorem follows_select (hI : s.InOrder fun _ => False) (hs : s.step host code .select = some t)
    (hstart : start.cells.map handlerOf = s.handlers) :
    Follows start (Pass.select start s.nextId s.readable) t := by
  simp only [Server.step, Option.ite_none_right_eq_some, Option.some.injEq] at hs
  obtain ⟨⟨hrunning, hpending, -⟩, rfl⟩ := hs
  have hvisited : start.cells.map handlerOf = s.visited := by
    rw [hstart, handlers, hpending, List.append_nil]
  have hmem : ∀ h ∈ start.cells, h.value.socket ∈ s.handlers.map Handler.socket := by
    intro h hh
    rw [← hstart]
    exact List.mem_map_of_mem (f := Handler.socket) (List.mem_map_of_mem (f := handlerOf) hh)
  refine ⟨⟨[], start.cells, At.begin start, rfl, hvisited⟩, rfl, ?_, hrunning.symm, ?_, ?_⟩
  · intro c
    rw [Bool.eq_iff_iff, decide_eq_true_iff, ← hvisited]
    simp [Pass.select, handlerOf]
  · intro h hh hmem'
    exact (List.nodup_append.mp hI.intact.nodup).2.2 _ (hmem h hh) _ hmem' rfl
  · intro h hh n hn
    exact hI.intact.known n (List.mem_append_left _ (hn ▸ hmem h hh))

/-- A pass from `began` on has come to where the server is. -/
def PassReaches (start : LinkedList (SocketHandler Socket)) (began : Pass Socket) (s : Server) :
    Prop :=
  ∃ turns p, Along Pass.step (Pass.Admits start) began turns ∧
    run Pass.step began turns = some p ∧ Follows start p s

theorem passes_step {began : Pass Socket} (hI : s.InOrder fun _ => False)
    (hpasses : s.loop = .running → PassReaches start began s) (hwithin : e.withinPass)
    (hs : s.step host code e = some t) (htrunning : t.loop = .running) :
    PassReaches start began t := by
  obtain ⟨turns, p, hturns, hrun, hp⟩ := hpasses (running_of_step hs htrunning)
  by_cases hserve : ∃ unset fails, e = .serve unset fails
  · obtain ⟨unset, fails, rfl⟩ := hserve
    have hnodup := (List.nodup_append.mp hI.intact.nodup).1
    obtain ⟨turn, p', hadmits, hstep, hp'⟩ := turns_serve hp hnodup hs htrunning
    refine ⟨turns ++ [turn], p', hturns.append ?_, run_concat_eq_some.mpr ⟨p, hrun, hstep⟩, hp'⟩
    intro m hm
    cases hrun.symm.trans hm
    exact ⟨hadmits, fun _ _ => trivial⟩
  · refine ⟨turns, p, hturns, hrun, follows_outside hp hwithin ?_ hs⟩
    exact fun unset fails heq => hserve ⟨unset, fails, heq⟩

/-- Between two calls of `select`, the server does what a pass over its handlers does, and what
holds of every pass holds there. -/
theorem server_passes (host : ByteOrder) (code : Surroundings) (early : ℕ)
    {before after : List Event} {s u t : Server}
    (hbefore : run (Server.step host code) (.init host early) before = some s)
    (hselect : s.step host code .select = some u) (hafter : ∀ e ∈ after, e.withinPass)
    (hrun : run (Server.step host code) u after = some t) (hrunning : t.loop = .running) :
    ∃ start : LinkedList (SocketHandler Socket), start.cells.map handlerOf = s.handlers ∧
      ∃ turns p, Along Pass.step (Pass.Admits start) (Pass.select start s.nextId s.readable) turns ∧
        run Pass.step (Pass.select start s.nextId s.readable) turns = some p ∧
        Follows start p t ∧ Pass.Right (Pass.select start s.nextId s.readable) p := by
  have hcut : ∀ s e, NotCutShort (fun _ => False) s e :=
    fun s e unset fails h he hh hwatch => hwatch.elim
  have hI : s.InOrder fun _ => False :=
    run_invariant_of_step (InOrder fun _ => False)
      (fun s e t hI hs => inOrder_step hI (hcut s e) hs)
      (inOrder_init _ host early) hbefore
  obtain ⟨start, hvalues⟩ :=
    exists_of_values (s.handlers.map fun h => (⟨h.id, h.handler, h.socket⟩ : SocketHandler Socket))
  have hstart : start.cells.map handlerOf = s.handlers := by
    have hmap := congrArg (List.map fun v : SocketHandler Socket =>
      (⟨v.id, v.handler, v.socket⟩ : Handler)) hvalues
    rw [List.map_map, List.map_map] at hmap
    exact hmap.trans (List.map_id _)
  refine ⟨start, hstart, ?_⟩
  have hwithin : Along (Server.step host code) (fun _ e => e.withinPass) u after :=
    along_of_forall (fun e he _ => hafter e he) u
  have hbegan : PassReaches start (Pass.select start s.nextId s.readable) u :=
    ⟨[], _, trivial, rfl, follows_select hI hselect hstart⟩
  obtain ⟨-, hpasses⟩ := run_invariant
    (fun s' => s'.InOrder (fun _ => False) ∧
      (s'.loop = .running → PassReaches start (Pass.select start s.nextId s.readable) s'))
    (fun s' e t' h hwithin hs => ⟨inOrder_step h.1 (hcut s' e) hs,
      passes_step h.1 h.2 hwithin hs⟩)
    ⟨inOrder_step hI (hcut s _) hselect, fun _ => hbegan⟩ hwithin hrun
  obtain ⟨turns, p, hturns, hturnsRun, hp⟩ := hpasses hrunning
  refine ⟨turns, p, hturns, hturnsRun, hp, ?_⟩
  exact (run_invariant _ (fun _ _ _ hp he ht => (Pass.going_step hp he ht).1)
    (Pass.going_select start s.nextId s.readable) hturns hturnsRun).right

end CohesionIpc.Sockets
