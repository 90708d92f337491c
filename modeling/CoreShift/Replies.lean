import CoreShift.Answering
import CoreShift.Deliveries

/-!
# Requests and responses

A round takes up some requests, and the pops that follow answer them. The pending answers are
kept under job ids, so what becomes of a request depends on the others of its round: a client
is answered if and only if no later request of the round names the same job, and its request is
one that the core answers at all; and what it is sent is the answer to whichever of the
requests for this job is answered first.
-/

namespace CoreShift

open Utils WorkQueue

variable {json : Json}

/-! ## Reachable daemons -/

namespace Daemon

/-- The descriptors belong to one connection each, and the next client id is a proper one. -/
structure Tidy (d : Daemon) : Prop where
  sound : d.sockets.Sound
  nextId : d.ipc.nextClientId ≠ 0

/-- A round takes up tickets. Its actions are queued in front of the io of ready jobs, and
everything else stays as it was. -/
structure Took (d : Daemon) (l : RoundLog) (d₁ : Daemon) (T : List Ticket) : Prop where
  distinct : Distinct T
  board : Board T d.ipc.clients [] d₁.ipc d₁.sockets
  actions : l.1.1 = T.map Ticket.action
  traffic : l.2 = T.map Ticket.traffic
  routed : ∀ t ∈ T, ∃ id, t.action = Router.routed id t.request
  idle : d.loop.queue = []
  ready : ∀ ev ∈ l.1.2, ev.isReady = true
  feed : d₁.loop = d.loop.feed l.1.1 l.1.2
  later : ∀ t ∈ T, d.sockets.accepted ≤ t.peer
  clients : T.map Ticket.client = List.iterate IpcModule.nextId d.ipc.nextClientId T.length

theorem RoundStep.took {d d₁ : Daemon} {l : RoundLog} (h : RoundStep json d l d₁)
    (hd : d.Tidy) : (∃ T, d.Took l d₁ T) ∧ d₁.Tidy := by
  cases h with
  | round events hidle hfresh =>
    rcases IpcModule.handleEvents_eq json d.ipc events with ⟨conns, hpos, hconns⟩
    unfold Daemon.round
    rw [hconns] at hfresh ⊢
    rcases receiveAll_takenUp hpos hd.sound hfresh with ⟨T, hT, hacts, htraffic⟩
    have hdist := hT.distinct hd.nextId
    refine ⟨⟨T, ?_⟩, ?_⟩
    · exact ⟨hdist, hT.board hdist, hacts, htraffic, hT.routed, hidle,
        EffectExecutor.jobEvents_ready _ _, rfl, hT.later, hT.ids⟩
    · refine ⟨hT.sound, ?_⟩
      show (d.ipc.receiveAll json conns).ipc.nextClientId ≠ 0
      rw [hT.next]
      exact (IpcModule.nextId_iterate hd.nextId _).1

theorem PopStep.tidy {d d' : Daemon} {l : DaemonPop} (h : PopStep json d l d') (hd : d.Tidy) :
    d'.Tidy := by
  rcases h.answer with ⟨output, hans⟩
  have hrespond : ∀ id resp, (d.ipc.respond json id resp output).1.nextClientId =
      d.ipc.nextClientId ∧
        (d.sockets.run (d.ipc.respond json id resp output).2).1.Sound := by
    intro id resp
    unfold IpcModule.respond
    split
    · exact ⟨rfl, hd.sound⟩
    · dsimp only
      split
      · exact ⟨rfl, hd.sound⟩
      · split
        · exact ⟨rfl, hd.sound⟩
        · exact ⟨rfl, hd.sound.close _⟩
  cases hl : answerOf l with
  | none =>
    rw [hl] at hans
    exact ⟨hans.2.1 ▸ hd.sound, hans.1 ▸ hd.nextId⟩
  | some r =>
    rw [hl] at hans
    dsimp only at hans
    rcases hrespond r.1 r.2 with ⟨hid, hsound⟩
    refine ⟨hans.2.1 ▸ hsound, ?_⟩
    rw [hans.1, hid]
    exact hd.nextId

theorem Tidy.run {d : Daemon} {t : List DaemonLabel} (h : Run (Step json) .new t d) :
    d.Tidy := by
  refine h.invariant ?_ ⟨.new, by decide⟩
  intro d l d' hd hs
  cases hs with
  | round hround => exact (hround.took hd).2
  | pop hpop => exact hpop.tidy hd

end Daemon

/-! ## A round and what follows -/

theorem Router.routed_ask (id : JobId) (req : Request) :
    (Router.routed id req).ask.isSome = true := by
  cases req <;> rfl

/-- The requests that some answers answer. -/
theorem answers_of_pops (u : List DaemonPop) :
    answers ((u.map Prod.fst).map Prod.fst) =
      (u.filterMap answerOf).map fun r => (r.1, r.2.ask) := by
  unfold answers answerOf
  rw [List.filterMap_map, List.filterMap_map, List.map_filterMap]
  rfl

namespace Daemon.Took

variable {d d₁ d₂ : Daemon} {l : RoundLog} {T : List Ticket} {u : List DaemonPop}

theorem requests (h : d.Took l d₁ T) : ∀ a ∈ l.1.1, a.ask.isSome = true := by
  intro a ha
  rw [h.actions] at ha
  rcases List.mem_map.mp ha with ⟨t, ht, rfl⟩
  rcases h.routed t ht with ⟨id, heq⟩
  rw [heq]
  exact Router.routed_ask id _

/-- The answers of a round are among those of its requests, and they are all of them once the
queue is empty. -/
theorem answers (h : d.Took l d₁ T) (hrun : Run (PopStep json) d₁ u d₂) :
    (∃ later, (u.filterMap answerOf).map (fun r => (r.1, r.2.ask)) ++ later =
      asks (d.loop.world.answeredInOrder l.1.1)) ∧
    (d₂.loop.queue = [] → (u.filterMap answerOf).map (fun r => (r.1, r.2.ask)) =
      asks (d.loop.world.answeredInOrder l.1.1)) := by
  have hworld : d₁.loop.world = d.loop.world := by
    rw [h.feed]
    exact Loop.feed_world d.loop _ h.ready
  rcases Loop.feed_queue d.loop l.1.1 h.ready with ⟨ready, hqueue, hio⟩
  rw [← h.feed] at hqueue
  have hall := answers_of_batch (pops_loop hrun) hqueue h.requests hio
  rwa [answers_of_pops, hworld] at hall

/-- What is answered is a job that the round names. -/
theorem named (h : d.Took l d₁ T) (hrun : Run (PopStep json) d₁ u d₂) :
    ∀ r ∈ u.filterMap answerOf, ∃ t ∈ T, t.id = r.1 := by
  intro r hr
  rcases (h.answers hrun).1 with ⟨later, hlater⟩
  have hmem : (r.1, r.2.ask) ∈ asks (d.loop.world.answeredInOrder l.1.1) := by
    rw [← hlater]
    exact List.mem_append_left _ (List.mem_map_of_mem hr)
  rcases List.mem_filterMap.mp hmem with ⟨a, ha, hask⟩
  rcases Option.map_eq_some_iff.mp hask with ⟨kind, -, heq⟩
  have hacts := (World.mem_answeredInOrder.mp ha).1
  rw [h.actions] at hacts
  rcases List.mem_map.mp hacts with ⟨t, ht, rfl⟩
  exact ⟨t, ht, congrArg Prod.fst heq⟩

/-- The responses are the deliveries of the answers. -/
theorem responses (h : d.Took l d₁ T) (hrun : Run (PopStep json) d₁ u d₂) :
    responsesOf (u.flatMap Prod.snd) = deliver (addressee T) [] (u.filterMap answerOf) ∧
      Board T d.ipc.clients (((u.filterMap answerOf).map Prod.fst).reverse ++ [])
        d₂.ipc d₂.sockets :=
  h.board.pops h.distinct hrun (h.named hrun)

/-- What a pop sends is the delivery of its answer, after those before it. -/
theorem responses_pop {d₃ : Daemon} {pop : DaemonPop} (h : d.Took l d₁ T)
    (hrun : Run (PopStep json) d₁ u d₂) (hpop : PopStep json d₂ pop d₃) :
    responsesOf pop.2 = deliver (addressee T) (((u.filterMap answerOf).map Prod.fst).reverse ++ [])
      (answerOf pop).toList := by
  refine ((h.responses hrun).2.pop h.distinct hpop ?_).1
  intro id resp hans
  apply h.named (hrun.append (.single hpop)) (id, resp)
  rw [List.filterMap_append, List.filterMap_cons, hans]
  exact List.mem_append_right _ List.mem_cons_self

/-- A connection is the addressee of one job at most. -/
theorem addressee_eq (h : d.Took l d₁ T) {t : Ticket} (ht : t ∈ T) {id : JobId}
    (hid : addressee T id = some t.peer) : id = t.id ∧ lastUnder Ticket.id id T = some t := by
  unfold addressee at hid
  rcases Option.map_eq_some_iff.mp hid with ⟨t', hlast, hpeer⟩
  rcases lastUnder_eq_some hlast with ⟨ht', hid'⟩
  have heq := h.distinct.eq_of_peer ht' ht hpeer
  rw [heq] at hid' hlast
  exact ⟨hid'.symm, hlast⟩

end Daemon.Took

/-! ## Who is answered -/

theorem mem_responsesOf {t : List Traffic} {p : ℕ} {resp : WireResponse} :
    (p, resp) ∈ responsesOf t ↔ .response p resp ∈ t := by
  unfold responsesOf
  rw [List.mem_filterMap]
  constructor
  · rintro ⟨e, he, heq⟩
    cases e with
    | request => cases heq
    | response => cases heq; exact he
  · exact fun h => ⟨.response p resp, h, rfl⟩

theorem mem_requestsOf {l : RoundLog} {T : List Ticket} (h : l.2 = T.map Ticket.traffic) {p : ℕ}
    {req : Request} {a : Action} :
    (p, req, a) ∈ requestsOf l.2 ↔ ∃ t ∈ T, t.peer = p ∧ t.request = req ∧ t.action = a := by
  have hmap : requestsOf l.2 = T.map fun t => (t.peer, t.request, t.action) := by
    unfold requestsOf
    rw [h, List.filterMap_map]
    exact congrFun (List.filterMap_eq_map (f := fun t : Ticket => (t.peer, t.request, t.action))) T
  rw [hmap, List.mem_map]
  simp only [Prod.mk.injEq]

/-- The ids of what is answered are those of the requests that the core answers. -/
theorem Daemon.Took.mem_answered {d d₁ d₂ : Daemon} {l : RoundLog} {T : List Ticket}
    {u : List DaemonPop} (h : d.Took l d₁ T) (hrun : Run (PopStep json) d₁ u d₂)
    (hdone : d₂.loop.queue = []) {id : JobId} :
    id ∈ (u.filterMap answerOf).map Prod.fst ↔
      ∃ t ∈ T, t.id = id ∧ d.loop.world.answerable t.action = true := by
  have hall := (h.answers hrun).2 hdone
  have hfst : (u.filterMap answerOf).map Prod.fst =
      (asks (d.loop.world.answeredInOrder l.1.1)).map Prod.fst := by
    rw [← hall, List.map_map]
    rfl
  rw [hfst, List.mem_map]
  constructor
  · rintro ⟨⟨j, kind⟩, hmem, rfl⟩
    rcases List.mem_filterMap.mp hmem with ⟨a, ha, hask⟩
    rcases Option.map_eq_some_iff.mp hask with ⟨_, -, heq⟩
    rcases World.mem_answeredInOrder.mp ha with ⟨hacts, hans⟩
    rw [h.actions] at hacts
    rcases List.mem_map.mp hacts with ⟨t, ht, rfl⟩
    exact ⟨t, ht, congrArg Prod.fst heq, hans⟩
  · rintro ⟨t, ht, rfl, hans⟩
    have hacts : t.action ∈ l.1.1 := by
      rw [h.actions]
      exact List.mem_map_of_mem ht
    rcases Option.isSome_iff_exists.mp (h.requests _ hacts) with ⟨kind, hkind⟩
    refine ⟨(t.id, kind), ?_, rfl⟩
    refine List.mem_filterMap.mpr ⟨t.action, World.mem_answeredInOrder.mpr ⟨hacts, hans⟩, ?_⟩
    rw [hkind]
    rfl

/-- A client of the round is answered once if and only if its request is the last under its id
and the core answers a request under that id. -/
theorem Daemon.Took.delivered_iff {d d₁ d₂ : Daemon} {l : RoundLog} {T : List Ticket}
    {u : List DaemonPop} (h : d.Took l d₁ T) (hrun : Run (PopStep json) d₁ u d₂) {t : Ticket}
    (ht : t ∈ T) :
    delivered t.peer (responsesOf (u.flatMap Prod.snd)) = 1 ↔
      t.Answered T ((u.filterMap answerOf).map Prod.fst) := by
  rw [(h.responses hrun).1]
  by_cases hans : t.Answered T ((u.filterMap answerOf).map Prod.fst)
  · have haddr : addressee T t.id = some t.peer := by
      unfold addressee
      rw [hans.1]
      rfl
    have huniq : ∀ j, addressee T j = some t.peer → j = t.id :=
      fun j hj => (h.addressee_eq ht hj).1
    exact ⟨fun _ => hans, fun _ => delivered_one haddr huniq List.not_mem_nil hans.2⟩
  · have hzero : delivered t.peer (deliver (addressee T) [] (u.filterMap answerOf)) = 0 := by
      apply delivered_none
      intro j hj
      right
      intro hmem
      rcases h.addressee_eq ht hj with ⟨rfl, hlast⟩
      exact hans ⟨hlast, hmem⟩
    rw [hzero]
    exact ⟨fun h0 => absurd h0 (by omega), fun ha => absurd ha hans⟩

namespace Daemon

/-- One client starts a command, another asks for a result that nobody stored. -/
noncomputable def busy : RoundLog × Daemon :=
  Daemon.new.connect [.conn 10 (.exec 1000), .conn 11 (.getResult 1000 5)]

theorem busy_round : RoundStep .small .new busy.1 busy.2 := .round _ (by decide) (by decide)

end Daemon
end CoreShift
