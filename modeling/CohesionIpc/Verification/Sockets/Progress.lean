import CohesionIpc.Verification.Sockets.Blocking
import Mathlib.Algebra.Order.BigOperators.Group.List
import Mathlib.Data.Prod.Lex

/-! The loop catches up: its own turns use up what has been sent, and then the stop code. -/

namespace CohesionIpc.Sockets

open Transition ByteRepresentation

namespace Server

variable {host : ByteOrder} {code : Surroundings} {s t : Server} {unset : UInt32} {fails : Bool}
  {h : Handler} {rest : List Handler}

/-! ## What is left to be taken -/

/-- What a connection still has for its handler: bytes, and its end. -/
def weight (k : Connection) : ℕ := k.inbox.length + if k.closed then 1 else 0

/-- What all connections still have, and the connections that wait to be accepted. -/
def load (s : Server) : ℕ :=
  (s.handlers.map fun h => weight (s.conns h.socket)).sum +
    (s.backlog.map fun c => weight (s.conns c) + 1).sum

theorem weight_drop {k : Connection} (hlen : 4 ≤ k.inbox.length) :
    weight { k with inbox := k.inbox.drop 4 } < weight k := by
  simp only [weight, List.length_drop]
  omega

theorem sum_weight_le {l l' : List Handler}
    (hsub : (l'.map Handler.socket).Sublist (l.map Handler.socket))
    (hle : ∀ c, weight (t.conns c) ≤ weight (s.conns c)) :
    (l'.map fun h => weight (t.conns h.socket)).sum ≤
      (l.map fun h => weight (s.conns h.socket)).sum := by
  calc (l'.map fun h => weight (t.conns h.socket)).sum
      ≤ (l'.map fun h => weight (s.conns h.socket)).sum :=
        List.sum_le_sum fun h _ => hle h.socket
    _ = ((l'.map Handler.socket).map fun c => weight (s.conns c)).sum := by
        rw [List.map_map]
        rfl
    _ ≤ ((l.map Handler.socket).map fun c => weight (s.conns c)).sum :=
        (hsub.map _).sum_le_sum fun _ _ => Nat.zero_le _
    _ = (l.map fun h => weight (s.conns h.socket)).sum := by
        rw [List.map_map]
        rfl

/-- A turn that takes something from the connection of its handler. -/
theorem load_lt_of_read (hmem : h ∈ s.handlers)
    (hsub : (t.handlers.map Handler.socket).Sublist (s.handlers.map Handler.socket))
    (hbacklog : t.backlog = s.backlog)
    (hother : ∀ c, c ≠ h.socket → weight (t.conns c) = weight (s.conns c))
    (hless : weight (t.conns h.socket) < weight (s.conns h.socket)) : t.load < s.load := by
  have hle : ∀ c, weight (t.conns c) ≤ weight (s.conns c) := by
    intro c
    by_cases hc : c = h.socket
    · rw [hc]
      exact hless.le
    · exact (hother c hc).le
  have hhandlers : (t.handlers.map fun h => weight (t.conns h.socket)).sum <
      (s.handlers.map fun h => weight (s.conns h.socket)).sum := by
    calc (t.handlers.map fun h => weight (t.conns h.socket)).sum
        ≤ (s.handlers.map fun h => weight (t.conns h.socket)).sum :=
          sum_weight_le (s := t) hsub fun _ => le_rfl
      _ < (s.handlers.map fun h => weight (s.conns h.socket)).sum :=
          List.sum_lt_sum _ _ (fun h _ => hle h.socket) ⟨h, hmem, hless⟩
  have hwaiting : (t.backlog.map fun c => weight (t.conns c) + 1).sum ≤
      (s.backlog.map fun c => weight (s.conns c) + 1).sum := by
    rw [hbacklog]
    exact List.sum_le_sum fun c _ => Nat.succ_le_succ (hle c)
  rw [load, load]
  omega

/-- A connection that has been accepted no longer waits. -/
theorem load_accept {c : Socket} {more : List Socket} (new : Handler) (hnew : new.socket = c)
    (hbacklog : s.backlog = c :: more) (hlist : t.handlers = s.handlers ++ [new])
    (hmore : t.backlog = more) (hsame : ∀ d, weight (t.conns d) = weight (s.conns d)) :
    t.load < s.load := by
  simp only [load, hlist, hmore, hbacklog, hsame, List.map_append, List.sum_append, List.map_cons,
    List.map_nil, List.sum_cons, List.sum_nil, hnew]
  omega

theorem load_remove (hlist : s.handlers = s.visited ++ h :: rest)
    (hrest : t.handlers = s.visited ++ rest) (hbacklog : t.backlog = s.backlog)
    (hle : ∀ c, weight (t.conns c) ≤ weight (s.conns c)) (hclosed : (s.conns h.socket).closed) :
    t.load < s.load := by
  have hvisited : (s.visited.map fun h => weight (t.conns h.socket)).sum ≤
      (s.visited.map fun h => weight (s.conns h.socket)).sum :=
    sum_weight_le (List.Sublist.refl _) hle
  have hcome : (rest.map fun h => weight (t.conns h.socket)).sum ≤
      (rest.map fun h => weight (s.conns h.socket)).sum :=
    sum_weight_le (List.Sublist.refl _) hle
  have hwaiting : (t.backlog.map fun c => weight (t.conns c) + 1).sum ≤
      (s.backlog.map fun c => weight (s.conns c) + 1).sum := by
    rw [hbacklog]
    exact List.sum_le_sum fun c _ => Nat.succ_le_succ (hle c)
  have hone : 1 ≤ weight (s.conns h.socket) := by
    rw [weight, if_pos hclosed]
    omega
  rw [load, load, hlist, hrest]
  simp only [List.map_append, List.map_cons, List.sum_append, List.sum_cons]
  omega

/-! ## Every turn takes something -/

theorem load_handleSession (hpending : s.pending = h :: rest)
    (hs : s.handleSession host code unset h rest = some t) : t.load < s.load := by
  simp only [handleSession, Option.ite_none_left_eq_some, Option.some.injEq] at hs
  obtain ⟨hready, rfl⟩ := hs
  have hmem := mem_handlers_of_pending hpending
  have hother : ∀ outcome c, c ≠ h.socket →
      weight ((s.served code h rest outcome).conns c) = weight (s.conns c) := by
    intro outcome c hc
    rw [served_conns, Function.update_of_ne hc]
  have hread : ∀ outcome : Served (List UInt8), outcome.status = .proceed →
      outcome.stream.length < (s.conns h.socket).inbox.length →
        (s.served code h rest outcome).load < s.load := by
    intro outcome hstatus hlen
    apply load_lt_of_read hmem _ (served_backlog _ _ _ _ _) (hother outcome)
    · rw [served_conns, Function.update_self, weight, weight]
      exact Nat.add_lt_add_right hlen _
    · rw [served_proceed hpending hstatus]
  cases hnext : (framing .bigEndian).next? (s.conns h.socket).inbox with
  | some pair =>
      obtain ⟨p, stream⟩ := pair
      obtain ⟨-, -, hstream, hstatus⟩ := handleSession_of_frame host .ofList unset s.buffer
        (s := (s.conns h.socket).inbox) hnext
      apply hread _ hstatus
      have hrest : (Sockets.handleSession host .ofList unset s.buffer
        (s.conns h.socket).inbox).stream = stream := hstream
      rw [hrest]
      exact (framing .bigEndian).next?_length hnext
  | none =>
      have hclosed := Connection.closed_of_none hready hnext
      by_cases hinbox : (s.conns h.socket).inbox = []
      · obtain ⟨-, -, hstream, hstatus⟩ := handleSession_of_end host .ofList unset s.buffer hinbox
        apply load_remove (handlers_of_pending hpending) (served_removeThis hstatus).1
          (served_backlog _ _ _ _ _) _ hclosed
        intro c
        by_cases hc : c = h.socket
        · have hnil : (Sockets.handleSession host .ofList unset s.buffer
            (s.conns h.socket).inbox).stream = [] := hstream
          rw [hc, served_conns, Function.update_self, weight, weight, hnil]
          simp
        · exact (hother _ c hc).le
      · obtain ⟨-, hstream, hstatus⟩ :=
          handleSession_of_cut host .ofList unset s.buffer hinbox hnext
        apply hread _ hstatus
        have hnil : (Sockets.handleSession host .ofList unset s.buffer
          (s.conns h.socket).inbox).stream = [] := hstream
        rw [hnil]
        exact List.length_pos_iff.mpr hinbox

theorem load_handleAux (hpending : s.pending = h :: rest)
    (hopen : (s.conns h.socket).closed = false)
    (hs : s.handleAux host unset h rest = some t) : t.load < s.load := by
  obtain ⟨hconns, -, hbacklog, hsub, -⟩ := handleAux_cases hpending hs
  simp only [handleAux, Option.ite_none_left_eq_some, hopen] at hs
  apply load_lt_of_read (mem_handlers_of_pending hpending) (hsub.map _) hbacklog
  · intro c hc
    rw [hconns, Function.update_of_ne hc]
  · rw [hconns, Function.update_self]
    apply weight_drop
    simpa using hs.1

theorem load_handlePreinit (hpending : s.pending = h :: rest)
    (hfound : s.FindsMagic host unset h) (hs : s.handlePreinit host code unset h rest = some t) :
    t.load < s.load := by
  rcases handlePreinit_cases hs with ⟨-, hnot⟩ |
    ⟨first, others, inbox, -, rfl, hlist, hswitched, hconns, -, hbacklog, -⟩
  · exact absurd hfound hnot
  · have hlen : 4 ≤ (s.conns h.socket).inbox.length := by
      have htake := congrArg List.length (take_of_findsMagic hfound)
      rw [length_sendScalar, List.length_take] at htake
      omega
    apply load_lt_of_read (mem_handlers_of_pending hpending) _ hbacklog
    · intro c hc
      rw [hconns, switchedConns, if_neg hc]
      split <;> rfl
    · rw [hconns, switchedConns, if_pos rfl]
      exact weight_drop hlen
    · rw [hswitched, hlist, List.map_cons, map_socket_assign, List.map_cons]

theorem load_acceptPreinit (hpending : s.pending = h :: rest) (hrunning : t.loop = .running)
    (hs : s.acceptPreinit fails h rest = some t) : t.load < s.load := by
  rcases acceptPreinit_cases hs with rfl | ⟨c, more, hbacklog, rfl⟩
  · cases hrunning
  · refine load_accept ⟨s.nextId, .handlePreinit, c⟩ rfl hbacklog ?_ rfl fun _ => rfl
    rw [handlers_proceed, handlers_of_pending hpending, List.append_assoc, List.cons_append]

theorem load_acceptRegular (hpending : s.pending = h :: rest) (hrunning : t.loop = .running)
    (hs : s.acceptRegular code fails h rest = some t) : t.load < s.load := by
  rcases acceptRegular_cases hs with rfl | ⟨c, more, hbacklog, rfl⟩
  · cases hrunning
  · refine load_accept ⟨s.nextId, .handleSession, c⟩ rfl hbacklog ?_ rfl ?_
    · rw [handlers_proceed, handlers_of_pending hpending, List.append_assoc, List.cons_append]
      rfl
    · exact fun d => field_update weight (by rfl) d

/-- The connection of the handler is looked at in vain only before the recognition. -/
def Idles (h : Handler) : Prop := h.handler = .handlePreinit ∧ h.socket ≠ .aux

end Server

namespace Tracked

variable {host : ByteOrder} {code : Surroundings} {s : Tracked} {t : Server} {unset : UInt32}
  {fails : Bool} {h : Handler} {rest : List Handler}

/-- The magic is what is found on the own connection first. -/
theorem Watched.findsMagic (hW : s.Watched host) (hrunning : s.server.loop = .running)
    (hmem : h ∈ s.server.handlers) (hfun : h.handler = .handlePreinit) (hsocket : h.socket = .aux)
    (unset : UInt32) : s.server.FindsMagic host unset h := by
  obtain ⟨first, others, hlist, hfirst, -⟩ :=
    hW.started.handshake.before hrunning hmem (.inr hfun)
  have hwaiting : s.server.Waiting := ⟨first, by rw [hlist]; exact List.mem_cons_self, hfirst⟩
  obtain ⟨flight, hflight⟩ := List.head?_eq_some_iff.mp (hW.magic hrunning hwaiting)
  have hinbox : (s.server.conns h.socket).inbox =
      Flight.bytes host ((initMagic, none) :: flight) := by
    rw [hsocket, hW.auxInbox, hflight]
  exact (Server.receivedId_of_bytes hinbox).symm

/-- A turn of a handler that was reported takes something, or it is that of a client that waits
for the recognition. -/
theorem Watched.call_takes (hW : s.Watched host) (hsrunning : s.server.loop = .running)
    (hpending : s.server.pending = h :: rest)
    (hs : s.server.call host code unset fails h rest = some t) (hrunning : t.loop = .running) :
    t.load < s.server.load ∨ (t = s.server.proceed h rest ∧ Server.Idles h) := by
  have hmem := Server.mem_handlers_of_pending hpending
  simp only [Server.call] at hs
  split at hs
  · exact .inl (Server.load_acceptPreinit hpending hrunning hs)
  · exact .inl (Server.load_acceptRegular hpending hrunning hs)
  · rename_i hfun
    by_cases hfound : s.server.FindsMagic host unset h
    · exact .inl (Server.load_handlePreinit hpending hfound hs)
    · rcases Server.handlePreinit_cases hs with ⟨rfl, -⟩ | ⟨first, others, inbox, hmagic, -⟩
      · refine .inr ⟨rfl, hfun, ?_⟩
        intro hsocket
        exact hfound (hW.findsMagic hsrunning hmem hfun hsocket unset)
      · exact absurd hmagic hfound
  · exact .inl (Server.load_handleSession hpending hs)
  · rename_i hfun
    have hsocket := hW.started.handshake.aux_of_mem hmem hfun
    refine .inl (Server.load_handleAux hpending ?_ hs)
    rw [hsocket]
    exact hW.started.order.intact.auxOpen

end Tracked

namespace Server

variable {host : ByteOrder} {code : Surroundings} {s t : Server} {e : Event} {unset : UInt32}
  {fails : Bool} {h : Handler} {rest : List Handler}

theorem bytes_ne_nil (host : ByteOrder) {flight : Flight} (h : flight ≠ []) :
    Flight.bytes host flight ≠ [] := by
  cases flight with
  | nil => exact absurd rfl h
  | cons v flight =>
      intro hnil
      have hlen := length_sendScalar host v.1
      rw [Flight.bytes, List.flatMap_cons] at hnil
      rw [(List.append_eq_nil_iff.mp hnil).1] at hlen
      cases hlen

/-! ## The measure -/

instance (h : Handler) : Decidable (Idles h) := inferInstanceAs (Decidable (_ ∧ _))

/-- A turn of the current pass is going to take something. -/
def Productive (s : Server) : Prop := ∃ h ∈ s.pending, h.socket ∈ s.ready ∧ ¬ Idles h

instance (s : Server) : Decidable s.Productive :=
  inferInstanceAs (Decidable (∃ h ∈ s.pending, h.socket ∈ s.ready ∧ ¬ Idles h))

/-- What is left to be taken; then whether the pass takes something; then how long it is. -/
def measure (s : Server) : ℕ ×ₗ ℕ ×ₗ ℕ :=
  if s.loop = .running then
    toLex (s.load + 1, toLex (if s.Productive then 0 else 1, s.pending.length))
  else toLex (0, toLex (0, 0))

/-- Nothing is left for the loop to do. -/
def AtRest (s : Server) : Prop := s.pending = [] ∧ ∀ h ∈ s.handlers, s.readable h.socket = false

/-- No client that is still there has sent a part of a frame only, nor, where `recv` of no bytes
waits, an empty frame last. -/
def WholeFrames (code : Surroundings) (s : Server) : Prop :=
  ∀ n, (s.conns (.client n)).closed = false →
    (framing .bigEndian).residue (s.conns (.client n)).inbox = [] ∧
      (code.emptyRecvWaits = true →
        ((framing .bigEndian).frames (s.conns (.client n)).inbox).getLast? ≠ some [])

theorem measure_lt_of_load (hs : s.loop = .running) (hload : t.loop = .running → t.load < s.load) :
    t.measure < s.measure := by
  rw [measure, measure, if_pos hs]
  split
  · rename_i ht
    exact Prod.Lex.toLex_lt_toLex.mpr (.inl (Nat.succ_lt_succ (hload ht)))
  · exact Prod.Lex.toLex_lt_toLex.mpr (.inl (Nat.succ_pos _))

theorem load_congr (hhandlers : t.handlers = s.handlers) (hbacklog : t.backlog = s.backlog)
    (hconns : t.conns = s.conns) : t.load = s.load := by
  rw [load, load, hhandlers, hbacklog, hconns]

/-- A turn that takes nothing shortens the pass. -/
theorem measure_proceed (hs : s.loop = .running) (hpending : s.pending = h :: rest)
    (hidle : h.socket ∈ s.ready → Idles h) : (s.proceed h rest).measure < s.measure := by
  have hload : (s.proceed h rest).load = s.load :=
    load_congr (by rw [handlers_proceed, handlers_of_pending hpending]) rfl rfl
  have hproductive : (s.proceed h rest).Productive ↔ s.Productive := by
    simp only [Productive, hpending, List.exists_mem_cons_iff]
    exact ⟨.inr, fun hp => hp.resolve_left fun hp => hp.2 (hidle hp.1)⟩
  have hrunning : (s.proceed h rest).loop = .running := hs
  rw [measure, measure, if_pos hs, if_pos hrunning, hload]
  refine Prod.Lex.toLex_lt_toLex.mpr (.inr ⟨rfl, ?_⟩)
  refine Prod.Lex.toLex_lt_toLex.mpr (.inr ⟨?_, ?_⟩)
  · simp only [hproductive]
  · rw [hpending]
    exact Nat.lt_succ_self _

/-- A pass begins that is going to take something. -/
theorem measure_select (hs : s.loop = .running) (ht : t.loop = .running)
    (hpending : s.pending = []) (hload : t.load = s.load) (hproductive : t.Productive) :
    t.measure < s.measure := by
  have hnot : ¬ s.Productive := by
    rintro ⟨h, hh, -⟩
    rw [hpending] at hh
    exact List.not_mem_nil hh
  rw [measure, measure, if_pos hs, if_pos ht, hload, if_pos hproductive, if_neg hnot]
  exact Prod.Lex.toLex_lt_toLex.mpr (.inr ⟨rfl, Prod.Lex.toLex_lt_toLex.mpr (.inl Nat.zero_lt_one)⟩)

/-! ## What the loop leaves as it is -/

/-- The turns and the calls of `select`. -/
def ByLoop (unset : UInt32) (e : Event) : Prop := e = .select ∨ e = .serve unset false

theorem sent_byLoop (he : ByLoop unset e) (hs : s.step host code e = some t) :
    (∀ c, (t.conns c).sent = (s.conns c).sent) ∧ t.clients = s.clients := by
  rcases he with rfl | rfl
  · simp only [step, Option.ite_none_right_eq_some, Option.some.injEq] at hs
    obtain ⟨-, rfl⟩ := hs
    exact ⟨fun _ => rfl, rfl⟩
  · obtain ⟨-, h, rest, hpending, ⟨-, rfl⟩ | ⟨-, hcall⟩⟩ := serve_cases hs
    · exact ⟨fun _ => rfl, rfl⟩
    · exact ⟨sent_call hpending hcall, (backlog_call hpending hcall).1⟩

theorem noMagicSent_byLoop (hsent : s.NoMagicSent host) (he : ByLoop unset e)
    (hs : s.step host code e = some t) : t.NoMagicSent host := by
  intro n
  rw [(sent_byLoop he hs).1]
  exact hsent n

/-- A session takes the first of the whole frames. -/
theorem frames_handleSession (hopen : (s.conns h.socket).closed = false)
    (hs : s.handleSession host code unset h rest = some t) :
    (framing .bigEndian).residue (t.conns h.socket).inbox =
        (framing .bigEndian).residue (s.conns h.socket).inbox ∧
      ∃ p, (framing .bigEndian).frames (s.conns h.socket).inbox =
        p :: (framing .bigEndian).frames (t.conns h.socket).inbox := by
  obtain ⟨outcome, rfl, ⟨p, hnext, -⟩ | ⟨-, hclosed, -⟩⟩ := handleSession_cases hs
  · rw [served_conns, Function.update_self, (framing .bigEndian).residue_of_some hnext]
    exact ⟨rfl, p, (framing .bigEndian).frames_of_some hnext⟩
  · rw [hopen] at hclosed
    cases hclosed

end Server

namespace Tracked

variable {host : ByteOrder} {code : Surroundings} {s : Tracked} {t : Server} {e : Event}
  {unset : UInt32} {fails : Bool} {h : Handler} {rest : List Handler}

theorem Watched.wholeFrames_call (hW : s.Watched host) (hrunning : s.server.loop = .running)
    (hsent : s.server.NoMagicSent host) (hwhole : s.server.WholeFrames code)
    (hpending : s.server.pending = h :: rest) (hserves : s.server.Serves h.handler h)
    (hs : s.server.call host code unset fails h rest = some t) : t.WholeFrames code := by
  intro n hopen
  have hmem := Server.mem_handlers_of_pending hpending
  have hopen' : (s.server.conns (.client n)).closed = false := by
    rw [← (Server.stream_of_call hpending hs _).1]
    exact hopen
  by_cases hn : .client n = h.socket
  · rcases hW.started.handshake.client hrunning hmem hn.symm with hfun | hfun
    · have hmagic := hW.started.fresh.ownMagic (e := .serve unset fails) hW.started.handshake hsent
      rw [hfun] at hserves
      rw [Server.call, hfun] at hs
      rcases Server.handlePreinit_cases hs with ⟨rfl, -⟩ | ⟨first, others, inbox, hfound, -⟩
      · exact hwhole n hopen'
      · exact absurd hfound (hmagic unset fails h n rfl hserves hn.symm)
    · rw [Server.call, hfun] at hs
      obtain ⟨hresidue, hlast⟩ := hwhole n hopen'
      rw [hn] at hopen' hresidue hlast ⊢
      obtain ⟨hsame, p, hframes⟩ := Server.frames_handleSession hopen' hs
      refine ⟨hsame.trans hresidue, fun hwaits hempty => hlast hwaits ?_⟩
      rw [hframes, List.getLast?_cons, hempty]
      rfl
  · rw [Server.inbox_of_call hpending hs hn]
    exact hwhole n hopen'

theorem Watched.wholeFrames_step (hW : s.Watched host) (hsent : s.server.NoMagicSent host)
    (hwhole : s.server.WholeFrames code) (he : Server.ByLoop unset e)
    (hs : s.server.step host code e = some t) : t.WholeFrames code := by
  rcases he with rfl | rfl
  · simp only [Server.step, Option.ite_none_right_eq_some, Option.some.injEq] at hs
    obtain ⟨-, rfl⟩ := hs
    exact hwhole
  · obtain ⟨hrunning, h, rest, hpending, ⟨-, rfl⟩ | ⟨hserves, hcall⟩⟩ := Server.serve_cases hs
    · exact hwhole
    · exact hW.wholeFrames_call hrunning hsent hwhole hpending hserves hcall

/-- With whole frames only no turn waits. -/
theorem Watched.not_blocked (hW : s.Watched host) (hrunning : s.server.loop = .running)
    (hwhole : s.server.WholeFrames code) (hpending : s.server.pending = h :: rest) :
    ¬ s.server.Blocked code h := by
  intro hblocked
  have hmem := Server.mem_handlers_of_pending hpending
  obtain ⟨n, hn⟩ := (hW.started.handshake.session_of_mem hmem hblocked.handler).1
  have hreadable := (hW.reported hrunning).readable h (hpending ▸ List.mem_cons_self)
    hblocked.ready
  rw [Server.readable_eq (by rw [hn]; simp), hblocked.isOpen] at hreadable
  obtain ⟨hresidue, hlast⟩ := hwhole n (hn ▸ hblocked.isOpen)
  rw [← hn] at hresidue hlast
  rcases hblocked.incomplete with hnone | ⟨hwaits, hempty⟩
  · rw [(framing .bigEndian).residue_of_none hnone] at hresidue
    simp [hresidue] at hreadable
  · apply hlast hwaits
    rw [(framing .bigEndian).frames_of_some hempty, (framing .bigEndian).frames_nil]
    rfl

/-- Before the recognition there is something to do for the acceptor or on the own connection. -/
theorem Watched.waiting_readable (hW : s.Watched host) (hrunning : s.server.loop = .running)
    (hwaiting : s.server.Waiting) : ∃ h ∈ s.server.handlers,
      s.server.readable h.socket = true ∧ ¬ Server.Idles h := by
  by_cases hbacklog : s.server.backlog = []
  · have haux := hW.aux hrunning
    rw [Server.AuxPresent, hbacklog, List.append_nil] at haux
    obtain ⟨h, hh, hsocket⟩ := List.mem_map.mp haux
    obtain ⟨flight, hflight⟩ := List.head?_eq_some_iff.mp (hW.magic hrunning hwaiting)
    have hinbox : (s.server.conns .aux).inbox ≠ [] := by
      rw [hW.auxInbox, hflight]
      exact Server.bytes_ne_nil host (List.cons_ne_nil _ _)
    refine ⟨h, hh, ?_, fun hidle => hidle.2 hsocket⟩
    rw [hsocket, Server.readable_eq (by simp)]
    exact .inl hinbox
  · obtain ⟨h, hh, hfun⟩ := hwaiting
    refine ⟨h, hh, ?_, ?_⟩
    · rw [Server.acceptor_socket hW.started.handshake hrunning hh (.inl hfun),
        Server.readable_listener]
      exact hbacklog
    · intro hidle
      rw [hidle.1] at hfun
      cases hfun

/-- When something is readable, the pass that begins takes something. -/
theorem Watched.productive (hW : s.Watched host) (hrunning : s.server.loop = .running)
    (hh : h ∈ s.server.handlers) (hreadable : s.server.readable h.socket = true) :
    ∃ h ∈ s.server.handlers, s.server.readable h.socket = true ∧ ¬ Server.Idles h := by
  by_cases hwaiting : s.server.Waiting
  · exact hW.waiting_readable hrunning hwaiting
  · have hswitched := hW.started.handshake.switched_of_not_waiting hrunning hwaiting
    exact ⟨h, hh, hreadable, fun hidle => (hswitched.assigned.preinit h hh).2 hidle.1⟩

/-- While something is left to be done, the loop does something about it. -/
theorem Watched.step_measure (hW : s.Watched host) (hwhole : s.server.WholeFrames code)
    (hrunning : s.server.loop = .running) (hrest : ¬ s.server.AtRest) (unset : UInt32) :
    ∃ e t, Server.ByLoop unset e ∧ s.server.step host code e = some t ∧
      t.measure < s.server.measure := by
  cases hpending : s.server.pending with
  | nil =>
      have hlist : s.server.handlers = s.server.visited := by
        rw [Server.handlers, hpending, List.append_nil]
      simp only [Server.AtRest, hpending, true_and, not_forall, Bool.not_eq_false] at hrest
      obtain ⟨h, hh, hreadable⟩ := hrest
      let ready := (s.server.visited.map Handler.socket).filter s.server.readable
      have hmem : ∀ h ∈ s.server.handlers, s.server.readable h.socket = true →
          h.socket ∈ ready := by
        intro h hh hr
        rw [hlist] at hh
        exact List.mem_filter.mpr ⟨List.mem_map_of_mem hh, hr⟩
      obtain ⟨h', hh', hr', hidle⟩ := hW.productive hrunning hh hreadable
      have hne : ready ≠ [] := List.ne_nil_of_mem (hmem h hh hreadable)
      refine ⟨.select, { s.server with visited := [], pending := s.server.visited, ready := ready },
        .inl rfl, ?_, ?_⟩
      · simp only [Server.step]
        exact if_pos ⟨hrunning, hpending, hne⟩
      · apply Server.measure_select hrunning (t := { s.server with
          visited := [], pending := s.server.visited, ready := ready }) hrunning hpending
        · exact Server.load_congr (by rw [hlist]; rfl) rfl rfl
        · exact ⟨h', hlist ▸ hh', hmem h' hh' hr', hidle⟩
  | cons h rest =>
      obtain ⟨t, ht⟩ := hW.enabled hrunning hpending
        (hW.not_blocked hrunning hwhole hpending) unset false
      refine ⟨.serve unset false, t, .inr rfl, ht, ?_⟩
      obtain ⟨-, h', rest', hpending', hcases⟩ := Server.serve_cases ht
      obtain ⟨rfl, rfl⟩ := List.cons.inj (hpending.symm.trans hpending')
      rcases hcases with ⟨hready, rfl⟩ | ⟨-, hcall⟩
      · exact Server.measure_proceed hrunning hpending fun hr => absurd hr hready
      · by_cases htrunning : t.loop = .running
        · rcases hW.call_takes hrunning hpending hcall htrunning with hload | ⟨rfl, hidle⟩
          · exact Server.measure_lt_of_load hrunning fun _ => hload
          · exact Server.measure_proceed hrunning hpending fun _ => hidle
        · exact Server.measure_lt_of_load hrunning fun hr => absurd hr htrunning

end Tracked

namespace Tracked

variable {host : ByteOrder} {code : Surroundings} {s t : Tracked} {e : Event} {unset : UInt32}

/-- What the loop needs to get on, besides what holds anyway. -/
structure Unhindered (host : ByteOrder) (code : Surroundings) (s : Tracked) : Prop where
  watched : s.Watched host
  noMagic : s.server.NoMagicSent host
  whole : s.server.WholeFrames code

theorem Unhindered.step (hU : s.Unhindered host code) (he : Server.ByLoop unset e)
    (hs : s.step host code e = some t) : t.Unhindered host code := by
  have hstep := (step_server hs).1
  exact ⟨watched_step hU.watched hU.noMagic hs, Server.noMagicSent_byLoop hU.noMagic he hstep,
    hU.watched.wholeFrames_step hU.noMagic hU.whole he hstep⟩

/-- The loop's own steps lead to rest or to its end. -/
theorem Unhindered.exists_rest (hU : s.Unhindered host code) (unset : UInt32) :
    ∃ turns t, (∀ e ∈ turns, Server.ByLoop unset e) ∧
      run (Tracked.step host code) s turns = some t ∧ t.Unhindered host code ∧
        (t.server.loop ≠ .running ∨ t.server.AtRest) := by
  apply exists_run_of_wellFounded (fun s => s.server.measure) _ hU
  intro s hU hgoal
  rw [not_or, not_not] at hgoal
  obtain ⟨e, t, he, hs, hmeasure⟩ :=
    hU.watched.step_measure hU.whole hgoal.1 hgoal.2 unset
  have htracked : Tracked.step host code s e = some ⟨t, s.server.nextFlight host s.flight e⟩ := by
    rw [Tracked.step, hs]
    rfl
  exact ⟨e, _, he, htracked, hU.step he htracked, hmeasure⟩

theorem server_run {turns : List Event} (hrun : run (Tracked.step host code) s turns = some t) :
    run (Server.step host code) s.server turns = some t.server := by
  induction turns generalizing s with
  | nil =>
      cases hrun
      rfl
  | cons e turns ih =>
      obtain ⟨m, hm, hrest⟩ := run_cons_eq_some.mp hrun
      exact run_cons_eq_some.mpr ⟨m.server, (step_server hm).1, ih hrest⟩

/-- At rest every handler of a client is a session, and nothing is left of its stream. -/
theorem Watched.atRest (hW : s.Watched host) (hrunning : s.server.loop = .running)
    (hrest : s.server.AtRest) : s.server.Switched ∧ ∀ h ∈ s.server.handlers,
      ∀ n, h.socket = .client n → h.handler = .handleSession ∧
        (s.server.conns h.socket).created = 1 ∧ (s.server.conns h.socket).closed = false ∧
        (s.server.conns h.socket).inbox = [] := by
  have hswitched : s.server.Switched := by
    apply hW.started.handshake.switched_of_not_waiting hrunning
    intro hwaiting
    obtain ⟨h, hh, hreadable, -⟩ := hW.waiting_readable hrunning hwaiting
    rw [hrest.2 h hh] at hreadable
    cases hreadable
  refine ⟨hswitched, ?_⟩
  intro h hh n hn
  obtain ⟨hfun, hone⟩ := hswitched.assigned.session h hh n hn
  have hidle := hrest.2 h hh
  rw [← Bool.not_eq_true, Server.readable_eq (by rw [hn]; simp), not_or, not_not,
    Bool.not_eq_true] at hidle
  exact ⟨hfun, hone, hidle.2, hidle.1⟩

end Tracked

namespace Server

variable {host : ByteOrder} {code : Surroundings} {s t : Server} {unset : UInt32}

theorem sent_run {turns : List Event} (hturns : ∀ e ∈ turns, ByLoop unset e)
    (hrun : run (Server.step host code) s turns = some t) :
    (∀ c, (t.conns c).sent = (s.conns c).sent) ∧ t.clients = s.clients := by
  induction turns generalizing s with
  | nil =>
      cases hrun
      exact ⟨fun _ => rfl, rfl⟩
  | cons e turns ih =>
      obtain ⟨m, hm, hrest⟩ := run_cons_eq_some.mp hrun
      obtain ⟨hsent, hclients⟩ := ih (fun e he => hturns e (List.mem_cons_of_mem _ he)) hrest
      obtain ⟨hsent', hclients'⟩ := sent_byLoop (hturns e List.mem_cons_self) hm
      exact ⟨fun c => (hsent c).trans (hsent' c), hclients.trans hclients'⟩

/-- Every connection in the list is idle, and its session has got each frame of the stream. -/
def CaughtUp (s : Server) : Prop := ∀ h ∈ s.handlers, ∀ n, h.socket = .client n →
  h.handler = .handleSession ∧ (s.conns h.socket).inbox = [] ∧
    (s.conns h.socket).messages = (framing .bigEndian).frames (s.conns h.socket).sent

theorem caughtUp_of_run {early : ℕ} {events : List Event}
    (hrun : run (Server.step host code) (.init host early) events = some s)
    (hidle : ∀ h ∈ s.handlers, ∀ n, h.socket = .client n → h.handler = .handleSession ∧
      (s.conns h.socket).created = 1 ∧ (s.conns h.socket).closed = false ∧
      (s.conns h.socket).inbox = []) : s.CaughtUp := by
  intro h hh n hn
  obtain ⟨hfun, hone, hopen, hinbox⟩ := hidle h hh n hn
  refine ⟨hfun, hinbox, ?_⟩
  rw [hn] at hone hopen hinbox ⊢
  have hcut : ¬ (s.conns (.client n)).Cut := by
    rintro ⟨hclosed, -⟩
    rw [hopen] at hclosed
    cases hclosed
  have hframed : (s.conns (.client n)).Framed := framed_of_run hrun (by omega) hcut
  apply hframed.messages_eq
  rw [hinbox]
  exact LengthPrefix.next?_nil _

end Server

open Server in
/-- From every state in which no client is in the middle of a frame (or has, where `recv` of no
bytes waits, sent an empty one last), and none has sent the magic for the length of its first frame,
the loop's own steps lead to a state in which it has ended, or in which nothing is left to be read:
then all connections have been accepted, unless a session has called `disconnect` under the id of
the acceptor, and each session in the list has got every frame its client has sent. -/
theorem loop_catches_up (host : ByteOrder) (code : Surroundings) (early : ℕ) (unset : UInt32)
    {events : List Event} {s : Server}
    (hrun : run (Server.step host code) (.init host early) events = some s)
    (hsent : s.NoMagicSent host) (hwhole : s.WholeFrames code) :
    ∃ turns t, (∀ e ∈ turns, ByLoop unset e) ∧ run (Server.step host code) s turns = some t ∧
      (∀ c, (t.conns c).sent = (s.conns c).sent) ∧
      (t.loop ≠ .running ∨ (t.AtRest ∧ t.CaughtUp ∧
        (.disconnect 100 ∉ events → t.backlog = []))) := by
  obtain ⟨u, rfl, hW⟩ := Tracked.watched_run hrun hsent
  obtain ⟨turns, v, hturns, hrun', hV, hend⟩ :=
    Tracked.Unhindered.exists_rest ⟨hW, hsent, hwhole⟩ unset
  have hserver := Tracked.server_run hrun'
  have hall := run_append_eq_some.mpr ⟨_, hrun, hserver⟩
  refine ⟨turns, v.server, hturns, hserver, (sent_run hturns hserver).1, ?_⟩
  by_cases hrunning : v.server.loop = .running
  · right
    have hrest := hend.resolve_left fun h => h hrunning
    have hidle := (hV.watched.atRest hrunning hrest).2
    refine ⟨hrest, caughtUp_of_run hall hidle, ?_⟩
    intro hids
    have hids' : .disconnect 100 ∉ events ++ turns := by
      intro hmem
      rcases List.mem_append.mp hmem with hmem | hmem
      · exact hids hmem
      · rcases hturns _ hmem with heq | heq <;> cases heq
    have halong := along_noMagicSent (Server.started_init host early).order hall hV.noMagic
    obtain ⟨w, hw, hwserver⟩ := Tracked.run_server (s := .init host early) hall
    obtain ⟨first, others, hlist, -, hsocket, -⟩ := Tracked.headed_run halong hids' hw
    rw [hwserver] at hlist
    have hacceptor := hrest.2 first (by rw [hlist]; exact List.mem_cons_self)
    rw [hsocket, ← Bool.not_eq_true, readable_listener, not_not] at hacceptor
    exact hacceptor
  · exact .inl hrunning

/-- A client sends a frame, and the destructor the stop code, before the loop has begun. -/
def frameAndStop : List Event := [.connect, .send 0 [0, 0, 0, 1, 7], .stop]

theorem frameAndStop_run : ∃ s,
    run (Server.step .littleEndian .quiet) (.init .littleEndian 0) frameAndStop = some s ∧
      s.NoMagicSent .littleEndian ∧ s.WholeFrames .quiet ∧ s.clients < 2 ^ 32 - 102 ∧
        s.stopSent = true := by
  refine ⟨_, rfl, fun n => ?_, fun n _ => ?_, by decide, rfl⟩
  · cases n with
    | zero => decide
    | succ n =>
        change [] ≠ sendScalar .littleEndian initMagic
        decide
  · cases n with
    | zero =>
        change (framing .bigEndian).residue ((framing .bigEndian).frame [7] ++ []) = [] ∧
          (_ → ((framing .bigEndian).frames
            ((framing .bigEndian).frame [7] ++ [])).getLast? ≠ some [])
        rw [(framing .bigEndian).residue_frame_append (by decide),
          (framing .bigEndian).residue_of_none (LengthPrefix.next?_nil _),
          (framing .bigEndian).frames_frame_append (by decide), LengthPrefix.frames_nil]
        exact ⟨rfl, fun _ => by decide⟩
    | succ n =>
        change (framing .bigEndian).residue [] = [] ∧
          (_ → ((framing .bigEndian).frames []).getLast? ≠ some [])
        rw [(framing .bigEndian).residue_of_none (LengthPrefix.next?_nil _),
          LengthPrefix.frames_nil]
        exact ⟨rfl, fun _ => by decide⟩

theorem loop_catches_up_one_frame : ∃ s turns t,
    run (Server.step .littleEndian .quiet) (.init .littleEndian 0) frameAndStop = some s ∧
      run (Server.step .littleEndian .quiet) s turns = some t ∧
      (t.loop ≠ .running ∨ (t.AtRest ∧ t.CaughtUp ∧
        (.disconnect 100 ∉ frameAndStop → t.backlog = []))) := by
  obtain ⟨s, hrun, hsent, hwhole, -⟩ := frameAndStop_run
  obtain ⟨turns, t, -, hturns, -, hend⟩ :=
    loop_catches_up .littleEndian .quiet 0 0 hrun hsent hwhole
  exact ⟨s, turns, t, hrun, hturns, hend⟩

/-! ## The stop code -/

namespace Server

variable {host : ByteOrder} {code : Surroundings} {s t : Server} {e : Event} {unset : UInt32}
  {fails : Bool} {h : Handler} {rest : List Handler}

/-- The ids count the connections: no id is in use again before the counter wraps. -/
structure Numbered (s : Server) : Prop where
  next : s.nextId.toNat + s.backlog.length = s.clients + 102
  ids : ∀ h ∈ s.handlers, 100 ≤ h.id.toNat
  bound : 100 ≤ s.nextId.toNat

theorem numbered_init (host : ByteOrder) {early : ℕ} : (init host early).Numbered := by
  refine ⟨?_, ?_, ?_⟩
  · simp [init]
    omega
  · simp [init, handlers]
  · simp [init]

theorem nextId_handlePreinit (hs : s.handlePreinit host code unset h rest = some t) :
    t.nextId = s.nextId ∧ t.stopSent = s.stopSent := by
  simp only [handlePreinit, Option.ite_none_left_eq_some] at hs
  obtain ⟨-, hs⟩ := hs
  split at hs
  · split at hs
    · cases hs
    · cases hs
      exact ⟨rfl, rfl⟩
  · cases hs
    exact ⟨rfl, rfl⟩

theorem nextId_handleSession (hs : s.handleSession host code unset h rest = some t) :
    t.nextId = s.nextId ∧ t.stopSent = s.stopSent := by
  obtain ⟨outcome, rfl, -⟩ := handleSession_cases hs
  obtain ⟨visited, pending, loop, heq⟩ := served_eq code s h rest outcome
  rw [heq]
  exact ⟨rfl, rfl⟩

theorem nextId_handleAux (hs : s.handleAux host unset h rest = some t) :
    t.nextId = s.nextId ∧ t.stopSent = s.stopSent := by
  simp only [handleAux, Option.ite_none_left_eq_some] at hs
  obtain ⟨-, hs⟩ := hs
  split at hs
  · split at hs
    · cases hs
      exact ⟨rfl, rfl⟩
    · split at hs
      · cases hs
        exact ⟨rfl, rfl⟩
      · cases hs
        exact ⟨rfl, rfl⟩
  · cases hs
    exact ⟨rfl, rfl⟩

/-- A turn accepts one connection or none, and it does not send the stop code. -/
theorem accepts_call (hpending : s.pending = h :: rest) (hrunning : t.loop = .running)
    (hs : s.call host code unset fails h rest = some t) :
    t.stopSent = s.stopSent ∧
    ((t.nextId = s.nextId ∧ t.backlog = s.backlog ∧ ∀ h' ∈ t.handlers, ∃ h ∈ s.handlers,
        h.id = h'.id) ∨
      (t.nextId = s.nextId + 1 ∧ s.backlog.length = t.backlog.length + 1 ∧
        ∀ h' ∈ t.handlers, h'.id = s.nextId ∨ ∃ h ∈ s.handlers, h.id = h'.id)) := by
  have hlist := handlers_of_pending hpending
  have hsub : (t.handlers.map (fun h => (h.id, h.socket))).Sublist
      (s.handlers.map fun h => (h.id, h.socket)) →
        ∀ h' ∈ t.handlers, ∃ h ∈ s.handlers, h.id = h'.id := by
    intro hsub h' hh'
    obtain ⟨h, hh, heq⟩ := List.mem_map.mp (hsub.subset (List.mem_map_of_mem hh'))
    exact ⟨h, hh, (Prod.mk.inj heq).1⟩
  have hnew : ∀ c f, t.handlers = s.handlers ++ [⟨s.nextId, f, c⟩] →
      ∀ h' ∈ t.handlers, h'.id = s.nextId ∨ ∃ h ∈ s.handlers, h.id = h'.id := by
    intro c f heq h' hh'
    rw [heq] at hh'
    rcases List.mem_append.mp hh' with hold | hnew
    · exact .inr ⟨h', hold, rfl⟩
    · rw [List.mem_singleton.mp hnew]
      exact .inl rfl
  have hids := call_handlers hpending hs
  have hsame := (backlog_call hpending hs).2
  simp only [call] at hs
  split at hs
  · rcases acceptPreinit_cases hs with rfl | ⟨c, more, hbacklog, rfl⟩
    · cases hrunning
    · refine ⟨rfl, .inr ⟨rfl, by rw [hbacklog]; rfl, hnew c .handlePreinit ?_⟩⟩
      rw [handlers_proceed, hlist, List.append_assoc, List.cons_append]
  · rcases acceptRegular_cases hs with rfl | ⟨c, more, hbacklog, rfl⟩
    · cases hrunning
    · refine ⟨rfl, .inr ⟨rfl, by rw [hbacklog]; rfl, hnew c .handleSession ?_⟩⟩
      rw [handlers_proceed, hlist, List.append_assoc, List.cons_append]
      rfl
  · rename_i hfun
    obtain ⟨hnextId, hstop⟩ := nextId_handlePreinit hs
    exact ⟨hstop, .inl ⟨hnextId, hsame.resolve_right (by simp [hfun]),
      hsub (hids.resolve_right (by simp [hfun]))⟩⟩
  · rename_i hfun
    obtain ⟨hnextId, hstop⟩ := nextId_handleSession hs
    exact ⟨hstop, .inl ⟨hnextId, hsame.resolve_right (by simp [hfun]),
      hsub (hids.resolve_right (by simp [hfun]))⟩⟩
  · rename_i hfun
    obtain ⟨hnextId, hstop⟩ := nextId_handleAux hs
    exact ⟨hstop, .inl ⟨hnextId, hsame.resolve_right (by simp [hfun]),
      hsub (hids.resolve_right (by simp [hfun]))⟩⟩

theorem numbered_call (hN : s.Numbered) (hclients : s.clients + 102 < 2 ^ 32)
    (hpending : s.pending = h :: rest) (hrunning : t.loop = .running)
    (hs : s.call host code unset fails h rest = some t) : t.Numbered := by
  have hnext := hN.next
  have hbound := hN.bound
  obtain ⟨-, ⟨hnextId, hbacklog, hids⟩ | ⟨hnextId, hbacklog, hids⟩⟩ :=
    accepts_call hpending hrunning hs
  · refine ⟨?_, ?_, ?_⟩
    · rw [hnextId, hbacklog, (backlog_call hpending hs).1]
      exact hnext
    · intro h' hh'
      obtain ⟨h₀, hh₀, heq⟩ := hids h' hh'
      exact heq ▸ hN.ids h₀ hh₀
    · rw [hnextId]
      exact hbound
  · have hone : (s.nextId + 1).toNat = s.nextId.toNat + 1 := by
      rw [UInt32.toNat_add]
      exact Nat.mod_eq_of_lt (by simp; omega)
    refine ⟨?_, ?_, ?_⟩
    · rw [hnextId, hone, (backlog_call hpending hs).1]
      omega
    · intro h' hh'
      rcases hids h' hh' with heq | ⟨h₀, hh₀, heq⟩
      · rw [heq]
        exact hbound
      · exact heq ▸ hN.ids h₀ hh₀
    · rw [hnextId, hone]
      omega

theorem clients_step (hs : s.step host code e = some t) : s.clients ≤ t.clients := by
  cases e with
  | serve unset fails =>
      obtain ⟨-, h, rest, hpending, ⟨-, rfl⟩ | ⟨-, hcall⟩⟩ := serve_cases hs
      · exact le_rfl
      · exact (backlog_call hpending hcall).1.ge
  | connect =>
      cases hs
      exact Nat.le_succ _
  | stop =>
      simp only [step, Option.ite_none_left_eq_some, Option.some.injEq] at hs
      obtain ⟨-, rfl⟩ := hs
      exact le_rfl
  | _ =>
      simp only [step, Option.ite_none_right_eq_some, Option.some.injEq] at hs
      obtain ⟨-, rfl⟩ := hs
      exact le_rfl

theorem numbered_step (hN : s.Numbered) (hclients : s.clients + 102 < 2 ^ 32)
    (hs : s.step host code e = some t) (hrunning : t.loop = .running) : t.Numbered := by
  cases e with
  | serve unset fails =>
      obtain ⟨-, h, rest, hpending, ⟨-, rfl⟩ | ⟨-, hcall⟩⟩ := serve_cases hs
      · refine ⟨hN.next, ?_, hN.bound⟩
        rw [handlers_proceed, ← handlers_of_pending hpending]
        exact hN.ids
      · exact numbered_call hN hclients hpending hrunning hcall
  | connect =>
      cases hs
      refine ⟨?_, hN.ids, hN.bound⟩
      have hnext := hN.next
      simp only [List.length_append, List.length_singleton]
      omega
  | select =>
      simp only [step, Option.ite_none_right_eq_some, Option.some.injEq] at hs
      obtain ⟨⟨-, hpending, -⟩, rfl⟩ := hs
      refine ⟨hN.next, ?_, hN.bound⟩
      have hids := hN.ids
      rw [handlers, hpending, List.append_nil] at hids
      exact hids
  | stop =>
      simp only [step, Option.ite_none_left_eq_some, Option.some.injEq] at hs
      obtain ⟨-, rfl⟩ := hs
      exact ⟨hN.next, hN.ids, hN.bound⟩
  | _ =>
      simp only [step, Option.ite_none_right_eq_some, Option.some.injEq] at hs
      obtain ⟨-, rfl⟩ := hs
      exact ⟨hN.next, hN.ids, hN.bound⟩

theorem Numbered.nonzero (hN : s.Numbered) (hh : h ∈ s.handlers) : h.id ≠ 0 := by
  intro hzero
  have hid := hN.ids h hh
  rw [hzero] at hid
  simp at hid

end Server

namespace Tracked

variable {host : ByteOrder} {code : Surroundings} {s t : Tracked} {e : Event} {unset : UInt32}

/-- The stop code is on its way. -/
def StopComes (s : Tracked) : Prop := s.server.stopSent = true → (0, none) ∈ s.flight

/-- The value that a turn takes first is not the stop code, or the loop ends. -/
theorem Watched.head_ne_stop (hW : s.Watched host) (hN : s.server.Numbered)
    {fails : Bool} {h : Handler} {rest : List Handler} (hpending : s.server.pending = h :: rest)
    (hserves : s.server.Serves h.handler h) {t : Server}
    (hs : s.server.call host code unset fails h rest = some t) (hrunning : t.loop = .running)
    (htakes : s.server.takes host unset = true) : s.flight.head? ≠ some (0, none) := by
  intro hhead
  obtain ⟨flight, hflight⟩ := List.head?_eq_some_iff.mp hhead
  have hmem := Server.mem_handlers_of_pending hpending
  obtain ⟨hsocket, hfun | ⟨hfun, hfound⟩⟩ := (Server.takes_of_serves hserves).mp htakes
  · have hinbox : (s.server.conns h.socket).inbox = Flight.bytes host ((0, none) :: flight) := by
      rw [hsocket, hW.auxInbox, hflight]
    obtain ⟨hvalue, hresult⟩ : (s.server.receivedId host unset h).value = 0 ∧
        (s.server.receivedId host unset h).result = 4 := Server.receivedId_of_bytes hinbox
    rw [Server.call, hfun] at hs
    have hexited := (Server.handleAux_of_unknown (by rw [hresult]; decide)
      (fun h' hh' => by rw [hvalue]; exact hN.nonzero hh') hs).1
    rw [hrunning] at hexited
    cases hexited
  · obtain ⟨first, others, hlist, hfirst, -⟩ :=
      hW.started.handshake.before hserves.running hmem (.inr hfun)
    have hmagic := hW.magic hserves.running ⟨first, by rw [hlist]; exact List.mem_cons_self, hfirst⟩
    rw [hhead] at hmagic
    cases hmagic

theorem stopComes_step (hC : s.StopComes) (hW : s.Watched host) (hN : s.server.Numbered)
    (hs : s.step host code e = some t) (hrunning : t.server.loop = .running) : t.StopComes := by
  intro hstop
  obtain ⟨hstep, hflight⟩ := step_server hs
  rw [hflight]
  cases e with
  | serve unset fails =>
      obtain ⟨-, h, rest, hpending, ⟨hready, hskip⟩ | ⟨hserves, hcall⟩⟩ := Server.serve_cases hstep
      · have htakes : s.server.takes host unset = false := by
          simp [Server.takes, hpending, hready]
        rw [Server.nextFlight, htakes]
        rw [hskip] at hstop
        exact hC hstop
      · have hcomes := hC ((Server.accepts_call hpending hrunning hcall).1 ▸ hstop)
        rw [Server.nextFlight]
        cases htakes : s.server.takes host unset with
        | false => exact hcomes
        | true =>
            have hhead := hW.head_ne_stop hN hpending hserves hcall hrunning htakes
            cases hvalues : s.flight with
            | nil =>
                rw [hvalues] at hcomes
                exact absurd hcomes List.not_mem_nil
            | cons v flight =>
                rw [hvalues] at hcomes hhead
                rcases List.mem_cons.mp hcomes with heq | hmem
                · exact absurd (by rw [List.head?_cons, ← heq]) hhead
                · exact hmem
  | stop => exact List.mem_append_right _ List.mem_cons_self
  | connect =>
      simp only [Server.step, Option.some.injEq] at hstep
      rw [← hstep] at hstop
      exact hC hstop
  | disconnect id =>
      simp only [Server.step, Option.ite_none_right_eq_some, Option.some.injEq] at hstep
      rw [← hstep.2] at hstop
      exact List.mem_append_left _ (hC hstop)
  | _ =>
      simp only [Server.step, Option.ite_none_right_eq_some, Option.some.injEq] at hstep
      rw [← hstep.2] at hstop
      exact hC hstop

/-- The destructor is going to be heard as long as the loop runs. -/
structure Hears (host : ByteOrder) (s : Tracked) : Prop where
  watched : s.Watched host
  numbered : s.server.loop = .running → s.server.Numbered
  stop : s.server.loop = .running → s.StopComes

theorem hears_init (host : ByteOrder) (early : ℕ) : (init host early).Hears host :=
  ⟨watched_init host early, fun _ => Server.numbered_init host, fun _ h => by cases h⟩

theorem hears_step (hH : s.Hears host) (hsent : s.server.NoMagicSent host)
    (hclients : s.server.clients + 102 < 2 ^ 32) (hs : s.step host code e = some t) :
    t.Hears host := by
  have hstep := (step_server hs).1
  refine ⟨watched_step hH.watched hsent hs, ?_, ?_⟩
  · intro hrunning
    exact Server.numbered_step (hH.numbered (running_of_step hstep hrunning)) hclients hstep
      hrunning
  · intro hrunning
    have hsrunning := running_of_step hstep hrunning
    exact stopComes_step (hH.stop hsrunning) hH.watched (hH.numbered hsrunning) hs hrunning

/-- At rest the stop code has been received. -/
theorem Hears.stopped (hH : s.Hears host) (hstop : s.server.stopSent = true)
    (hrest : s.server.AtRest) : s.server.loop ≠ .running := by
  intro hrunning
  have hswitched := (hH.watched.atRest hrunning hrest).1
  obtain ⟨h, hh, hsocket⟩ := List.mem_map.mp
    ((List.mem_append.mp (hH.watched.aux hrunning)).resolve_right hswitched.1)
  have hidle := hrest.2 h hh
  rw [hsocket, ← Bool.not_eq_true, Server.readable_eq (by simp), not_or, not_not] at hidle
  rw [hH.watched.auxInbox] at hidle
  exact Server.bytes_ne_nil host (List.ne_nil_of_mem (hH.stop hrunning hstop)) hidle.1

end Tracked

namespace Server

variable {host : ByteOrder} {code : Surroundings} {s t : Server} {events : List Event}

theorem along_clients {bound : ℕ} (hrun : run (Server.step host code) s events = some t)
    (hbound : t.clients < bound) :
    Along (Server.step host code) (fun s _ => s.clients < bound) s events := by
  induction events generalizing s with
  | nil => trivial
  | cons e events ih =>
      obtain ⟨m, hm, hrest⟩ := run_cons_eq_some.mp hrun
      have hle : ∀ {u : Server} {later : List Event},
          run (Server.step host code) u later = some t → u.clients ≤ t.clients := by
        intro u later hlater
        exact run_invariant_of_step (fun v => u.clients ≤ v.clients)
          (fun v e w hv hw => hv.trans (clients_step hw)) le_rfl hlater
      refine ⟨(hle hrun).trans_lt hbound, ?_⟩
      intro m' hm'
      cases hm.symm.trans hm'
      exact ih hrest

theorem stopSent_byLoop {unset : UInt32} {e : Event} (he : ByLoop unset e)
    (hs : s.step host code e = some t) (hrunning : t.loop = .running)
    (hstop : s.stopSent = true) : t.stopSent = true := by
  rcases he with rfl | rfl
  · simp only [step, Option.ite_none_right_eq_some, Option.some.injEq] at hs
    obtain ⟨-, rfl⟩ := hs
    exact hstop
  · obtain ⟨-, h, rest, hpending, ⟨-, rfl⟩ | ⟨-, hcall⟩⟩ := serve_cases hs
    · exact hstop
    · exact (accepts_call hpending hrunning hcall).1.trans hstop

theorem stopSent_run {unset : UInt32} {turns : List Event} (hturns : ∀ e ∈ turns, ByLoop unset e)
    (hrun : run (Server.step host code) s turns = some t) (hrunning : t.loop = .running)
    (hstop : s.stopSent = true) : t.stopSent = true := by
  induction turns generalizing s with
  | nil =>
      cases hrun
      exact hstop
  | cons e turns ih =>
      obtain ⟨m, hm, hrest⟩ := run_cons_eq_some.mp hrun
      have hmrunning : m.loop = .running := by
        by_contra hnot
        exact hnot ((outside_run hnot hrest).loop ▸ hrunning)
      exact ih (fun e he => hturns e (List.mem_cons_of_mem _ he)) hrest
        (stopSent_byLoop (hturns e List.mem_cons_self) hm hmrunning hstop)

end Server

/-- What the destructor may rely on at the end of a run. -/
theorem Tracked.hears_run {host : ByteOrder} {code : Surroundings} {early : ℕ}
    {events : List Event} {t : Tracked}
    (hrun : run (Tracked.step host code) (.init host early) events = some t)
    (hsent : t.server.NoMagicSent host) (hclients : t.server.clients < 2 ^ 32 - 102) :
    t.Hears host := by
  have hserver := server_run hrun
  have hmagic := Server.along_noMagicSent (Server.started_init host early).order hserver hsent
  have hbound := Server.along_clients hserver hclients
  apply run_invariant (Hears host) _ (hears_init host early)
    ((along_server hmagic).and (along_server hbound)) hrun
  intro s e t hH hP hs
  exact hears_step hH hP.1 (by omega) hs

open Server in
/-- Once the destructor has sent the stop code, with less than `2 ^ 32 - 102` clients in the life
of the server, and where no client is in the middle of a frame (or has, where `recv` of no bytes
waits, sent an empty one last) or has sent the magic for the length of its first one, the loop's own
steps lead to its end from wherever it is: `join` returns. -/
theorem stop_is_heard (host : ByteOrder) (code : Surroundings) (early : ℕ) (unset : UInt32)
    {events : List Event} {s : Server}
    (hrun : run (Server.step host code) (.init host early) events = some s)
    (hsent : s.NoMagicSent host) (hwhole : s.WholeFrames code) (hclients : s.clients < 2 ^ 32 - 102)
    (hstop : s.stopSent = true) :
    ∃ turns t, (∀ e ∈ turns, ByLoop unset e) ∧ run (Server.step host code) s turns = some t ∧
      t.loop ≠ .running := by
  obtain ⟨u, hu, rfl⟩ := Tracked.run_server (s := .init host early) hrun
  have hH := Tracked.hears_run hu hsent hclients
  obtain ⟨turns, v, hturns, hrun', hV, hend⟩ :=
    Tracked.Unhindered.exists_rest ⟨hH.watched, hsent, hwhole⟩ unset
  have hserver := Tracked.server_run hrun'
  refine ⟨turns, v.server, hturns, hserver, ?_⟩
  intro hrunning
  have hrest := hend.resolve_left fun h => h hrunning
  have hbound : v.server.clients < 2 ^ 32 - 102 := by rwa [(sent_run hturns hserver).2]
  have hV' := Tracked.hears_run (run_append_eq_some.mpr ⟨u, hu, hrun'⟩) hV.noMagic hbound
  exact hV'.stopped (stopSent_run hturns hserver hrunning hstop) hrest hrunning

theorem stop_is_heard_one_frame : ∃ s turns t,
    run (Server.step .littleEndian .quiet) (.init .littleEndian 0) frameAndStop = some s ∧
      run (Server.step .littleEndian .quiet) s turns = some t ∧ t.loop ≠ .running := by
  obtain ⟨s, hrun, hsent, hwhole, hclients, hstop⟩ := frameAndStop_run
  obtain ⟨turns, t, -, hturns, hend⟩ :=
    stop_is_heard .littleEndian .quiet 0 0 hrun hsent hwhole hclients hstop
  exact ⟨s, turns, t, hrun, hturns, hend⟩

end CohesionIpc.Sockets
