import CoreShift.Tickets

/-!
# Who is answered

While the queue is processed, the tickets of the round are answered through the tables of the
IPC module. A job id leads to the last ticket that names it, the first answer for the id is
sent there, and the connection is closed; every other ticket stays as it is. `Board` is this
picture, and the responses that are sent are the deliveries of `Utils.Mailbox`.
-/

namespace CoreShift

open Utils WorkQueue

/-! ## The tickets of one round -/

/-- What keeps the tickets apart. -/
structure Distinct (T : List Ticket) : Prop where
  clients : (T.map Ticket.client).Nodup
  fds : (T.map Ticket.fd).Nodup
  peers : (T.map Ticket.peer).Nodup
  nonneg : ∀ t ∈ T, 0 ≤ t.fd

namespace Distinct

variable {T : List Ticket} {t u : Ticket}

theorem eq_of_client (h : Distinct T) (ht : t ∈ T) (hu : u ∈ T) (heq : t.client = u.client) :
    t = u :=
  List.inj_on_of_nodup_map h.clients ht hu heq

theorem eq_of_fd (h : Distinct T) (ht : t ∈ T) (hu : u ∈ T) (heq : t.fd = u.fd) : t = u :=
  List.inj_on_of_nodup_map h.fds ht hu heq

theorem eq_of_peer (h : Distinct T) (ht : t ∈ T) (hu : u ∈ T) (heq : t.peer = u.peer) : t = u :=
  List.inj_on_of_nodup_map h.peers ht hu heq

end Distinct

theorem TakenUp.distinct {T : List Ticket} {ipc ipc' : IpcModule} {k k' : Sockets}
    (h : TakenUp T ipc k ipc' k') (hid : ipc.nextClientId ≠ 0) : Distinct T := by
  have hlen : T.length ≤ 2 ^ 31 := by
    have hle : (T.map Ticket.fd).length ≤ 2 ^ 31 := by
      apply length_fds h.fds
      intro fd hfd
      rcases List.mem_map.mp hfd with ⟨t, ht, rfl⟩
      exact h.nonneg t ht
    rwa [List.length_map] at hle
  refine ⟨?_, h.fds, h.peers, h.nonneg⟩
  rw [h.ids]
  exact IpcModule.nodup_ids hid (by omega)

/-! ## The board -/

/-- The ticket was answered: it is the last one under its id, and the id is done. -/
def Ticket.Answered (T : List Ticket) (done : List JobId) (t : Ticket) : Prop :=
  lastUnder Ticket.id t.id T = some t ∧ t.id ∈ done

/-- The tables and the descriptors after the ids in `done` were answered. `old` is the client
table before the round. -/
structure Board (T : List Ticket) (old : HashMap UInt32 RawFd) (done : List JobId)
    (ipc : IpcModule) (k : Sockets) : Prop where
  mapped : ∀ t ∈ T, lastUnder Ticket.id t.id T = some t →
    ipc.jobToClient.get t.id = if t.id ∈ done then none else some t.client
  waits : ∀ t ∈ T, ¬ t.Answered T done →
    ipc.clients.get t.client = some t.fd ∧ k.peers.get t.fd = some t.peer
  gone : ∀ t ∈ T, t.Answered T done →
    ipc.clients.get t.client = none ∧ ∀ fd, k.peers.get fd ≠ some t.peer
  others : ∀ c, (∀ t ∈ T, t.client ≠ c) → ipc.clients.get c = old.get c
  sound : k.Sound

/-- After the round, everybody waits. -/
theorem TakenUp.board {T : List Ticket} {ipc ipc' : IpcModule} {k k' : Sockets}
    (h : TakenUp T ipc k ipc' k') (hT : Distinct T) : Board T ipc.clients [] ipc' k' := by
  have hclients : ∀ c, ipc'.clients.get c =
      ((lastUnder Ticket.client c T).map Ticket.fd).or (ipc.clients.get c) := by
    intro c
    rw [h.clients]
    exact HashMap.get_insertAll _ Ticket.fd Ticket.client T c
  constructor
  · intro t ht hlast
    rw [h.mapped, HashMap.get_insertAll _ Ticket.client Ticket.id T, hlast]
    rfl
  · intro t ht _
    rw [hclients, lastUnder_of_nodup hT.clients ht]
    exact ⟨rfl, h.stays t ht⟩
  · intro t ht hdone
    cases hdone.2
  · intro c hc
    rw [hclients, lastUnder_eq_none.mpr hc]
    rfl
  · exact h.sound

namespace Board

variable {json : Json} {T : List Ticket} {old : HashMap UInt32 RawFd} {done done' : List JobId}
  {ipc : IpcModule} {k : Sockets} {t : Ticket}

theorem congr (h : Board T old done ipc k) (hiff : ∀ id, id ∈ done' ↔ id ∈ done) :
    Board T old done' ipc k := by
  have hans : ∀ t : Ticket, t.Answered T done' ↔ t.Answered T done :=
    fun t => and_congr_right fun _ => hiff t.id
  constructor
  · intro t ht hlast
    rw [h.mapped t ht hlast]
    simp only [hiff]
  · exact fun t ht hn => h.waits t ht fun hd => hn ((hans t).mpr hd)
  · exact fun t ht hd => h.gone t ht ((hans t).mp hd)
  · exact h.others
  · exact h.sound

/-- An answer under an id that is done finds no client. -/
theorem respond_done (h : Board T old done ipc k) (ht : t ∈ T)
    (hlast : lastUnder Ticket.id t.id T = some t) (hdone : t.id ∈ done) (resp : WireResponse)
    (output : List WriteAnswer) : ipc.respond json t.id resp output = (ipc, []) := by
  unfold IpcModule.respond
  rw [h.mapped t ht hlast, if_pos hdone]

/-- An answer under an id answers no ticket but the last one of that id. -/
theorem answered_cons {u : Ticket} (hlast : lastUnder Ticket.id t.id T = some t) (hne : u ≠ t) :
    u.Answered T (t.id :: done) ↔ u.Answered T done := by
  apply and_congr_right
  intro hulast
  rw [List.mem_cons]
  constructor
  · intro hmem
    refine hmem.resolve_left ?_
    intro heq
    rw [heq, hlast, Option.some.injEq] at hulast
    exact hne hulast.symm
  · exact Or.inr

/-- The first answer under an id is sent to its last ticket, whose descriptor is closed. -/
theorem respond_open (h : Board T old done ipc k) (hT : Distinct T) (ht : t ∈ T)
    (hlast : lastUnder Ticket.id t.id T = some t) (hdone : t.id ∉ done) (resp : WireResponse)
    (output : List WriteAnswer) :
    ∃ ipc' bytes, ipc.respond json t.id resp output =
        (ipc', [.sent t.fd resp bytes, .closed t.fd]) ∧
      k.peers.get t.fd = some t.peer ∧
      Board T old (t.id :: done) ipc' ⟨k.peers.remove t.fd, k.accepted⟩ := by
  have hwait : ¬ t.Answered T done := fun hd => hdone hd.2
  rcases h.waits t ht hwait with ⟨hclient, hpeer⟩
  refine ⟨{ ipc with
      jobToClient := ipc.jobToClient.remove t.id
      clients := ipc.clients.remove t.client }, (encodeResponse json resp output).1, ?_, hpeer, ?_⟩
  · unfold IpcModule.respond
    rw [h.mapped t ht hlast, if_neg hdone]
    dsimp only
    rw [hclient]
    exact if_neg (Int32.not_lt.mpr (hT.nonneg t ht))
  constructor
  · intro u hu hulast
    dsimp only
    rw [HashMap.get_remove]
    by_cases heq : u.id = t.id
    · rw [if_pos heq, if_pos (heq ▸ List.mem_cons_self)]
    · rw [if_neg heq, h.mapped u hu hulast]
      simp only [List.mem_cons, heq, false_or]
  · intro u hu hnot
    have hne : u ≠ t := by
      rintro rfl
      exact hnot ⟨hlast, List.mem_cons_self⟩
    obtain ⟨hc, hp⟩ := h.waits u hu fun hd => hnot ((answered_cons hlast hne).mpr hd)
    dsimp only
    rw [HashMap.get_remove_ne _ fun heq => hne (hT.eq_of_client hu ht heq),
      HashMap.get_remove_ne _ fun heq => hne (hT.eq_of_fd hu ht heq)]
    exact ⟨hc, hp⟩
  · intro u hu hans
    dsimp only
    by_cases hut : u = t
    · rw [hut, HashMap.get_remove_self]
      refine ⟨rfl, ?_⟩
      intro fd hfd
      -- nobody else has this connection
      obtain ⟨hne, hpeer'⟩ := HashMap.get_remove_eq_some.mp hfd
      exact hne (h.sound.own fd t.fd t.peer hpeer' hpeer)
    · obtain ⟨hc, hp⟩ := h.gone u hu ((answered_cons hlast hut).mp hans)
      rw [HashMap.get_remove_ne _ fun heq => hut (hT.eq_of_client hu ht heq)]
      refine ⟨hc, ?_⟩
      intro fd hfd
      exact hp fd (HashMap.get_remove_eq_some.mp hfd).2
  · intro c hc
    exact (HashMap.get_remove_ne _ (Ne.symm (hc t ht))).trans (h.others c hc)
  · exact h.sound.close t.fd

end Board

/-! ## The answers of a run -/

/-- The responses among some traffic, with the connections they were sent on. -/
def responsesOf (t : List Traffic) : List (ℕ × WireResponse) :=
  t.filterMap fun
    | .response p resp => some (p, resp)
    | .request .. => none

/-- The requests among some traffic, with the connections they came from. -/
def requestsOf (t : List Traffic) : List (ℕ × Request × Action) :=
  t.filterMap fun
    | .request p req action => some (p, req, action)
    | .response .. => none

/-- The answer that a pop hands to the IPC module. -/
def answerOf (l : DaemonPop) : Option (JobId × WireResponse) := IpcModule.response l.1.1

/-- The connection that an answer under an id goes to. -/
def addressee (T : List Ticket) (id : JobId) : Option ℕ :=
  (lastUnder Ticket.id id T).map Ticket.peer

/-- An answer is handed over as it is; what has effects is none. -/
theorem World.Step.ipcActs {σ α : Type} {E : Executor σ α} {w w' : World σ} {a : Action}
    {o : PopLog} {out : List Action} (h : World.Step E w a o out w') :
    (o.ipcActs = [a]) ∨ (o.ipcActs = [] ∧ IpcModule.response a = none) := by
  rcases h with ⟨amb, ans, hp⟩
  have hacts : o.ipcActs = (Core.resolveEffects
      (w.dispatcher.dispatch amb w.state a).state [a]).1 := by
    unfold World.process at hp
    rw [← (Prod.mk.inj (Prod.mk.inj hp).2).2]
  rw [hacts]
  simp only [Core.resolveEffects, List.flatMap_cons, List.flatMap_nil, List.append_nil]
  generalize (w.dispatcher.dispatch amb w.state a).state = state
  cases a with
  | emitLog | startProcess => exact Or.inr ⟨rfl, rfl⟩
  | registerInterest | removeInterest | performIo =>
    right
    unfold Core.resolveEffect
    dsimp only
    split <;> exact ⟨rfl, rfl⟩
  | signalProcess | pollProcess =>
    right
    unfold Core.resolveEffect
    dsimp only
    split
    · split <;> exact ⟨rfl, rfl⟩
    · exact ⟨rfl, rfl⟩
  | _ => exact Or.inl rfl

/-- A pop hands over its answer, or nothing that is answered. -/
theorem Daemon.PopStep.answer {json : Json} {d d' : Daemon} {l : DaemonPop}
    (h : Daemon.PopStep json d l d') :
    ∃ output, let r := match answerOf l with
        | some (id, resp) => d.ipc.respond json id resp output
        | none => (d.ipc, [])
      d'.ipc = r.1 ∧ d'.sockets = (d.sockets.run r.2).1 ∧ l.2 = (d.sockets.run r.2).2 := by
  cases h with
  | @pop l loop output hpop =>
    refine ⟨output, ?_⟩
    rcases pop_iff.mp hpop with ⟨rest, out, -, -, hs⟩
    unfold Daemon.answer answerOf
    rcases hs.ipcActs with hacts | ⟨hacts, hnone⟩
    · rw [hacts]
      unfold IpcModule.interceptActions IpcModule.interceptAction
      cases IpcModule.response l.1 with
      | none => exact ⟨rfl, rfl, rfl⟩
      | some r =>
        dsimp only [IpcModule.interceptActions]
        rw [List.append_nil]
        exact ⟨rfl, rfl, rfl⟩
    · rw [hacts, hnone]
      exact ⟨rfl, rfl, rfl⟩

/-- The step lemma: one pop delivers its answer, if it is the first under its id. -/
theorem Board.pop {json : Json} {T : List Ticket} {old : HashMap UInt32 RawFd}
    {done : List JobId} {d d' : Daemon} {l : DaemonPop} (h : Board T old done d.ipc d.sockets)
    (hT : Distinct T) (hstep : Daemon.PopStep json d l d')
    (hids : ∀ id resp, answerOf l = some (id, resp) → ∃ t ∈ T, t.id = id) :
    responsesOf l.2 = deliver (addressee T) done (answerOf l).toList ∧
      Board T old (((answerOf l).toList.map Prod.fst).reverse ++ done) d'.ipc d'.sockets := by
  rcases hstep.answer with ⟨output, hans⟩
  cases hl : answerOf l with
  | none =>
    rw [hl] at hans
    rw [hans.1, hans.2.1, hans.2.2]
    exact ⟨rfl, h⟩
  | some r =>
    rcases r with ⟨id, resp⟩
    rw [hl] at hans
    dsimp only at hans
    rcases hids id resp hl with ⟨u, hu, hid⟩
    obtain ⟨t, hlast⟩ : ∃ t, lastUnder Ticket.id id T = some t := exists_lastUnder hu hid
    rcases lastUnder_eq_some hlast with ⟨ht, rfl⟩
    have haddr : addressee T t.id = some t.peer := by
      unfold addressee
      rw [hlast]
      rfl
    by_cases hdone : t.id ∈ done
    · rw [h.respond_done ht hlast hdone] at hans
      rw [hans.1, hans.2.1, hans.2.2]
      constructor
      · simp [deliver, hdone, responsesOf, Sockets.run]
      · apply h.congr
        simp [hdone]
    · rcases h.respond_open hT ht hlast hdone resp output with ⟨ipc', bytes, heq, hpeer, hboard⟩
      rw [heq] at hans
      rw [hans.1, hans.2.1, hans.2.2]
      constructor
      · simp [deliver, hdone, responsesOf, Sockets.run, Sockets.apply, hpeer, haddr]
      · exact hboard

/-- The run lemma: the responses sent are the deliveries of the answers. -/
theorem Board.pops {json : Json} {T : List Ticket} {old : HashMap UInt32 RawFd}
    {done : List JobId} {d d' : Daemon} {u : List DaemonPop}
    (h : Board T old done d.ipc d.sockets) (hT : Distinct T)
    (hrun : Run (Daemon.PopStep json) d u d')
    (hids : ∀ r ∈ u.filterMap answerOf, ∃ t ∈ T, t.id = r.1) :
    responsesOf (u.flatMap Prod.snd) = deliver (addressee T) done (u.filterMap answerOf) ∧
      Board T old (((u.filterMap answerOf).map Prod.fst).reverse ++ done) d'.ipc d'.sockets := by
  induction hrun generalizing done with
  | nil => exact ⟨rfl, h⟩
  | @cons d l d₁ u d₂ hs _ ih =>
    have hsplit : (l :: u).filterMap answerOf = (answerOf l).toList ++ u.filterMap answerOf := by
      rw [List.filterMap_cons]
      cases answerOf l <;> rfl
    rw [hsplit] at hids ⊢
    have hhead : ∀ id resp, answerOf l = some (id, resp) → ∃ t ∈ T, t.id = id := by
      intro id resp hl
      apply hids (id, resp)
      rw [hl]
      exact List.mem_append_left _ List.mem_cons_self
    have hone := h.pop hT hs hhead
    have hrest := ih hone.2 fun r hr => hids r (List.mem_append_right _ hr)
    constructor
    · unfold responsesOf at hone hrest ⊢
      rw [List.flatMap_cons, List.filterMap_append, hone.1, hrest.1, deliver_append]
    · rw [List.map_append, List.reverse_append, List.append_assoc]
      exact hrest.2

end CoreShift
