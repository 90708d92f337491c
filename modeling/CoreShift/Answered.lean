import CoreShift.Requests
import CoreShift.Responses

/-!
# Every client is answered

Once the queue is empty, the clients of a round should be gone, each after one response, and
nobody should be kept who cannot be answered any more. A job that the round names twice leaves a
client behind, and so does a cancel that the core drops. Who is left behind stays: what is sent
later goes to connections that are accepted later. And a socket that takes few bytes at a time
can spoil a response without a failure.
-/

namespace CoreShift

open Utils WorkQueue

variable {json : Json}

/-! ## Connections of earlier rounds -/

theorem Sockets.accepted_le_run (k : Sockets) (ops : List SocketOp) :
    k.accepted ≤ (k.run ops).1.accepted := by
  induction ops generalizing k with
  | nil => exact le_rfl
  | cons op ops ih =>
    have hone : k.accepted ≤ (k.apply op).1.accepted := by
      cases op with
      | accepted => exact Nat.le_succ _
      | kept | sent | closed => exact le_rfl
    exact hone.trans (ih _)

namespace Daemon

theorem Step.accepted_le {d d' : Daemon} {l : DaemonLabel} (h : Step json d l d') :
    d.sockets.accepted ≤ d'.sockets.accepted := by
  cases h with
  | round hround =>
    cases hround with
    | round events => exact d.sockets.accepted_le_run _
  | pop hpop =>
    rcases hpop.answer with ⟨_, -, hsockets, -⟩
    rw [hsockets]
    exact d.sockets.accepted_le_run _

/-- A response goes to a connection of the round. -/
theorem Took.response_peer {d d₁ d₂ : Daemon} {l : RoundLog} {T : List Ticket}
    {u : List DaemonPop} (h : d.Took l d₁ T) (hrun : Run (PopStep json) d₁ u d₂) {p : ℕ}
    {resp : WireResponse} (hresp : (p, resp) ∈ responsesOf (u.flatMap Prod.snd)) :
    ∃ t ∈ T, t.peer = p := by
  rw [(h.responses hrun).1] at hresp
  rcases mem_deliver hresp with ⟨id, haddr, -, -⟩
  unfold addressee at haddr
  rcases Option.map_eq_some_iff.mp haddr with ⟨t, hlast, hpeer⟩
  exact ⟨t, (lastUnder_eq_some hlast).1, hpeer⟩

/-- All that is being answered are connections from the `n`th on. -/
structure AnswersFrom (json : Json) (n : ℕ) (d : Daemon) : Prop where
  tidy : d.Tidy
  accepted : n ≤ d.sockets.accepted
  round : d.loop.queue = [] ∨ ∃ d₀ l d₁ T u, Took d₀ l d₁ T ∧ (∀ t ∈ T, n ≤ t.peer) ∧
    Run (PopStep json) d₁ u d

theorem AnswersFrom.step {n : ℕ} {d d' : Daemon} {l : DaemonLabel} (h : d.AnswersFrom json n)
    (hs : Step json d l d') :
    d'.AnswersFrom json n ∧ ∀ p resp, .response p resp ∈ l.traffic → n ≤ p := by
  have htidy := hs.tidy h.tidy
  have haccepted := h.accepted.trans hs.accepted_le
  cases hs with
  | round hround =>
    rcases (hround.took h.tidy).1 with ⟨T, hT⟩
    refine ⟨⟨htidy, haccepted, Or.inr ⟨_, _, _, T, [], hT, ?_, .nil _⟩⟩, ?_⟩
    · exact fun t ht => h.accepted.trans (hT.later t ht)
    · intro p resp hresp
      dsimp only [DaemonLabel.traffic] at hresp
      rw [hT.traffic] at hresp
      rcases List.mem_map.mp hresp with ⟨t, -, heq⟩
      cases heq
  | @pop l _ hpop =>
    rcases h.round with hidle | ⟨d₀, l₀, d₁, T, u, hT, hpeers, hrun⟩
    · rcases pop_iff.mp hpop.loop with ⟨rest, out, hq, -, -⟩
      rw [hidle] at hq
      cases hq
    · have hrun' := hrun.append (.single hpop)
      refine ⟨⟨htidy, haccepted, Or.inr ⟨d₀, l₀, d₁, T, _, hT, hpeers, hrun'⟩⟩, ?_⟩
      intro p resp hresp
      have hmem : (p, resp) ∈ responsesOf ((u ++ [l]).flatMap Prod.snd) :=
        mem_responsesOf.mpr (List.mem_flatMap.mpr ⟨l, by simp, hresp⟩)
      rcases hT.response_peer hrun' hmem with ⟨t, ht, rfl⟩
      exact hpeers t ht

/-- Once the queue is empty, nothing more is sent to those who were accepted before. -/
theorem later_responses {t u : List DaemonLabel} {d d' : Daemon}
    (hrun : Run (Step json) .new t d) (hidle : d.loop.queue = []) (hrest : Run (Step json) d u d')
    {p : ℕ} {resp : WireResponse} (hresp : .response p resp ∈ trafficOf u) :
    d.sockets.accepted ≤ p := by
  rcases List.mem_flatMap.mp hresp with ⟨l, hl, hin⟩
  rcases hrest.exists_of_mem hl with ⟨u₁, d₁, d₂, u₂, -, hbefore, hs, -⟩
  have hstart : d.AnswersFrom json d.sockets.accepted := ⟨Tidy.run hrun, le_rfl, Or.inl hidle⟩
  have hthere : d₁.AnswersFrom json d.sockets.accepted :=
    hbefore.invariant (fun _ _ _ hd hs => (hd.step hs).1) hstart
  exact (hthere.step hs).2 p resp hin

/-- The client `c` with the descriptor `fd` may still be answered: a job leads to it, and in some
continuation a response is sent on its connection. -/
def CanBeAnswered (json : Json) (d : Daemon) (c : UInt32) (fd : RawFd) : Prop :=
  ∃ id p, d.ipc.jobToClient.get id = some c ∧ d.sockets.peers.get fd = some p ∧
    ∃ t d' resp, Run (Step json) d t d' ∧ .response p resp ∈ trafficOf t

theorem not_canBeAnswered {t : List DaemonLabel} {d : Daemon} (hrun : Run (Step json) .new t d)
    (hidle : d.loop.queue = []) (c : UInt32) (fd : RawFd) : ¬ d.CanBeAnswered json c fd := by
  rintro ⟨id, p, -, hpeer, t', d', resp, hrest, hresp⟩
  have hlater := later_responses hrun hidle hrest hresp
  have hearlier := (Tidy.run hrun).sound.accepted fd p hpeer
  omega

end Daemon

/-! ## Responses that get through -/

/-- The response is sent whole, or the socket fails and `encode_response` says so. -/
def WireResponse.Sent (json : Json) (resp : WireResponse) (answers : List WriteAnswer) : Prop :=
  (encodeResponse json resp answers).2 = .ok () →
    (encodeResponse json resp answers).1 = frame (resp.payload json) ∧
      fromLeBytes (lenField (resp.payload json)) = (resp.payload json).length

/-- The answers of a socket that carries a payload of `count` bytes or fails: without a failure,
the length is taken in one piece, and something is taken of the payload each time. -/
inductive Carries (count : ℕ) : List WriteAnswer → Prop
  | blocked : Carries count []
  | failed {code : Int32} {answers : List WriteAnswer} : code ≠ EINTR →
      Carries count (.fail code :: answers)
  | cut {n m : ℕ} {answers : List WriteAnswer} : FailsAfter count m answers →
      Carries count (.wrote n :: answers)
  | whole {n : ℕ} {answers : List WriteAnswer} : 4 ≤ n → count < 2 ^ 32 →
      Accepts count answers → Carries count (.wrote n :: answers)
  | retry {answers : List WriteAnswer} : Carries count answers →
      Carries count (.fail EINTR :: answers)

/-- A frame of which the length is taken in part is not the frame. -/
theorem frame_of_take {payload : Bytes} {n : ℕ}
    (h : (lenField payload).take n ++ payload = frame payload) : 4 ≤ n := by
  have hlength := congrArg List.length h
  unfold frame lenField at hlength
  rw [List.length_append, List.length_append, List.length_take, length_toLeBytes,
    length_toLeBytes] at hlength
  omega

theorem sent_iff (json : Json) (resp : WireResponse) (answers : List WriteAnswer) :
    resp.Sent json answers ↔ Carries (resp.payload json).length answers := by
  unfold WireResponse.Sent
  induction answers with
  | nil => exact ⟨fun _ => .blocked, fun _ => nofun⟩
  | cons answer answers ih =>
    cases answer with
    | fail code =>
      by_cases hcode : code = EINTR
      · rw [hcode, encodeResponse_retry, ih]
        constructor
        · exact .retry
        · intro h
          cases h with
          | failed hne => exact absurd rfl hne
          | retry h => exact h
      · rw [encodeResponse_fail hcode]
        exact ⟨fun _ => .failed hcode, fun _ => nofun⟩
    | wrote n =>
      rw [encodeResponse_wrote]
      dsimp only
      constructor
      · intro h
        rcases writePayload_cases (resp.payload json) answers with haccepts | ⟨m, hfails⟩ | hstops
        · rw [writePayload_accepts haccepts] at h
          have ⟨hframe, hlen⟩ := h rfl
          exact .whole (frame_of_take hframe) (lenField_iff.mp hlen) haccepts
        · exact .cut hfails
        -- the loop stops early and the result is that all went well
        · have ⟨m, hlt, heq⟩ := hstops
          rw [heq] at h
          have ⟨hframe, hlen⟩ := h rfl
          rw [frame_eq (lenField_iff.mp hlen)] at hframe
          exact absurd hframe (ne_frame (Or.inr hlt))
      · intro h
        cases h with
        | cut hfails =>
          have ⟨e, heq⟩ := writePayload_failsAfter hfails
          rw [heq]
          exact nofun
        | whole hn hlt haccepts =>
          intro _
          have hfield : (lenField (resp.payload json)).length ≤ n := by
            unfold lenField
            rwa [length_toLeBytes]
          rw [writePayload_accepts haccepts, List.take_of_length_le hfield, frame_eq hlt]
          exact ⟨rfl, lenField_iff.mpr hlt⟩

/-! ## Pops with the answers of the socket -/

namespace Daemon

/-- A pop, and what the socket answers to the writes of its response. -/
inductive WrittenPop (json : Json) : Daemon → DaemonPop × List WriteAnswer → Daemon → Prop
  | pop {d l loop} (output) : Pop (World.Step EffectExecutor.executor) d.loop l loop →
      WrittenPop json d ((l, (d.answer json l.2.ipcActs output).2), output)
        ⟨loop, (d.answer json l.2.ipcActs output).1.1, (d.answer json l.2.ipcActs output).1.2⟩

theorem WrittenPop.popStep {d d' : Daemon} {w : DaemonPop × List WriteAnswer}
    (h : WrittenPop json d w d') : PopStep json d w.1 d' := by
  cases h with
  | pop output hpop => exact .pop output hpop

theorem WrittenPop.pops {d d' : Daemon} {u : List (DaemonPop × List WriteAnswer)}
    (h : Run (WrittenPop json) d u d') : Run (PopStep json) d (u.map Prod.fst) d' :=
  h.map (fun d => d) Prod.fst fun _ _ _ hs => hs.popStep

/-- The response of a pop is that of its action. -/
theorem PopStep.answer_of_response {d d' : Daemon} {l : DaemonPop} (h : PopStep json d l d')
    {p : ℕ} {resp : WireResponse} (hresp : (p, resp) ∈ responsesOf l.2) :
    ∃ id, answerOf l = some (id, resp) := by
  rcases h.answer with ⟨output, hans⟩
  cases hl : answerOf l with
  | none =>
    rw [hl] at hans
    rw [hans.2.2] at hresp
    cases hresp
  | some r =>
    rw [hl] at hans
    dsimp only at hans
    refine ⟨r.1, ?_⟩
    rw [hans.2.2] at hresp
    rcases IpcModule.respond_ops json d.ipc r.1 r.2 output with hops | ⟨fd, bytes, hops⟩
    · rw [hops] at hresp
      cases hresp
    · rw [hops, mem_responsesOf] at hresp
      simp only [Sockets.run, Sockets.apply, List.append_nil, List.mem_map] at hresp
      rcases hresp with ⟨q, -, heq⟩
      cases heq
      rfl

/-- The responses that are written on a connection, with the answers of the socket. -/
def writtenTo (p : ℕ) (u : List (DaemonPop × List WriteAnswer)) :
    List (WireResponse × List WriteAnswer) :=
  u.flatMap fun w => ((responsesOf w.1.2).filter fun r => r.1 = p).map fun r => (r.2, w.2)

theorem mem_writtenTo {p : ℕ} {u : List (DaemonPop × List WriteAnswer)} {resp : WireResponse}
    {output : List WriteAnswer} : (resp, output) ∈ writtenTo p u ↔
      ∃ w ∈ u, (p, resp) ∈ responsesOf w.1.2 ∧ w.2 = output := by
  unfold writtenTo
  rw [List.mem_flatMap]
  constructor
  · rintro ⟨w, hw, hmem⟩
    rcases List.mem_map.mp hmem with ⟨r, hr, heq⟩
    cases heq
    rcases List.mem_filter.mp hr with ⟨hr, hp⟩
    refine ⟨w, hw, ?_, rfl⟩
    rwa [← of_decide_eq_true hp]
  · rintro ⟨w, hw, hr, rfl⟩
    exact ⟨w, hw, List.mem_map.mpr ⟨_, List.mem_filter.mpr ⟨hr, decide_eq_true rfl⟩, rfl⟩⟩

theorem length_writtenTo (p : ℕ) (u : List (DaemonPop × List WriteAnswer)) :
    (writtenTo p u).length =
      delivered p (responsesOf ((u.map Prod.fst).flatMap Prod.snd)) := by
  induction u with
  | nil => rfl
  | cons w u ih =>
    have hhead : responsesOf (((w :: u).map Prod.fst).flatMap Prod.snd) =
        responsesOf w.1.2 ++ responsesOf ((u.map Prod.fst).flatMap Prod.snd) :=
      List.filterMap_append
    unfold writtenTo delivered at ih ⊢
    rw [hhead, List.countP_append, ← ih, List.flatMap_cons, List.length_append, List.length_map,
      List.countP_eq_length_filter]

end Daemon

/-! ## Who is answered -/

/-- If a batch names no job twice, no job is answered twice. -/
theorem World.nodup_answered {σ : Type} (w : World σ) {acts : List Action}
    (h : (acts.map Action.jobId).Nodup) :
    ((asks (w.answeredInOrder acts)).map Prod.fst).Nodup := by
  have hcount : ∀ (n : ℕ) (acts : List Action) (id : JobId),
      ((w.prompts n acts).map Action.jobId).count id +
        ((w.lates n acts).map Action.jobId).count id ≤ (acts.map Action.jobId).count id := by
    intro n acts id
    induction acts generalizing n with
    | nil => exact le_rfl
    | cons a acts ih =>
      have hrest := ih (n + a.isSubmit.toNat)
      rw [World.prompts_cons, World.lates_cons, List.map_append, List.map_append,
        List.count_append, List.count_append, List.map_cons, List.count_cons]
      -- the action is answered at once, or later, or not at all
      have hhead : ((if w.prompt n a then [a] else []).map Action.jobId).count id +
          ((if a.isSubmit && !w.prompt n a then [a] else []).map Action.jobId).count id ≤
            if a.jobId == id then 1 else 0 := by
        cases w.prompt n a <;> cases a.isSubmit <;> simp [List.count_cons]
      omega
  have hanswered : ((w.answeredInOrder acts).map Action.jobId).Nodup := by
    rw [List.nodup_iff_count_le_one] at h ⊢
    intro id
    unfold World.answeredInOrder
    rw [List.map_append, List.count_append]
    exact (hcount 0 acts id).trans (h id)
  have hasks : ∀ acts : List Action,
      ((asks acts).map Prod.fst).Sublist (acts.map Action.jobId) := by
    intro acts
    induction acts with
    | nil => exact List.Sublist.refl _
    | cons a acts ih =>
      unfold asks at ih ⊢
      rw [List.filterMap_cons]
      cases a.ask with
      | none => exact ih.cons _
      | some kind => exact ih.cons_cons _
  exact hanswered.sublist (hasks _)

namespace Daemon

namespace Took

variable {d d₁ d₂ : Daemon} {l : RoundLog} {T : List Ticket}

/-- All tickets of a round are answered if and only if they name no job twice and cancel only
jobs that can be signalled. -/
theorem answered_all {u : List DaemonPop} (hT : d.Took l d₁ T) (hpops : Run (PopStep json) d₁ u d₂)
    (hdone : d₂.loop.queue = []) :
    (∀ t ∈ T, t.Answered T ((u.filterMap answerOf).map Prod.fst)) ↔
      (l.1.1.map Action.jobId).Nodup ∧ ∀ id signal, .control id signal ∈ l.1.1 →
        ProcessModule.signalable d.loop.world.state id = true := by
  have hids : l.1.1.map Action.jobId = T.map Ticket.id := by
    rw [hT.actions, List.map_map]
    rfl
  rw [hids]
  constructor
  · intro hans
    have hnodup : (T.map Ticket.id).Nodup :=
      nodup_of_lastUnder (List.Nodup.of_map _ hT.distinct.peers) fun t ht => (hans t ht).1
    refine ⟨hnodup, ?_⟩
    intro id signal hmem
    rw [hT.actions] at hmem
    rcases List.mem_map.mp hmem with ⟨t, ht, heq⟩
    -- what is answered under its id can only be this request
    rcases (hT.mem_answered hpops hdone).mp (hans t ht).2 with ⟨t', ht', hid, hanswerable⟩
    rw [List.inj_on_of_nodup_map hnodup ht' ht hid, heq] at hanswerable
    exact hanswerable
  · rintro ⟨hnodup, hcancel⟩ t ht
    refine ⟨lastUnder_of_nodup hnodup ht, ?_⟩
    refine (hT.mem_answered hpops hdone).mpr ⟨t, ht, rfl, ?_⟩
    have hmem : t.action ∈ l.1.1 := by
      rw [hT.actions]
      exact List.mem_map_of_mem ht
    rcases hT.routed t ht with ⟨id, hrouted⟩
    cases hreq : t.request with
    | exec | getResult => rw [hrouted, hreq]; rfl
    | cancel uid j =>
      rw [hreq] at hrouted
      rw [hrouted] at hmem ⊢
      exact hcancel j .gracefulStop hmem

/-- If all are answered, the clients that are left are those of before, less those whose client
ids were given again. -/
theorem clients_empty_iff {u : List DaemonPop} (hT : d.Took l d₁ T)
    (hpops : Run (PopStep json) d₁ u d₂)
    (hans : ∀ t ∈ T, t.Answered T ((u.filterMap answerOf).map Prod.fst)) :
    (∀ c fd, d₂.ipc.clients.get c ≠ some fd) ↔ ∀ c fd, d.ipc.clients.get c = some fd →
      c ∈ List.iterate IpcModule.nextId d.ipc.nextClientId l.1.1.length := by
  have hboard : Board T d.ipc.clients ((u.filterMap answerOf).map Prod.fst) d₂.ipc d₂.sockets :=
    (hT.responses hpops).2.congr fun id => by rw [List.append_nil, List.mem_reverse]
  have hlength : l.1.1.length = T.length := by rw [hT.actions, List.length_map]
  rw [hlength, ← hT.clients]
  constructor
  · intro hnone c fd hold
    by_contra hc
    refine hnone c fd ?_
    rw [hboard.others c fun t ht heq => hc (heq ▸ List.mem_map_of_mem ht)]
    exact hold
  · intro hall c fd hc
    by_cases hmem : c ∈ T.map Ticket.client
    · rcases List.mem_map.mp hmem with ⟨t, ht, rfl⟩
      rw [(hboard.gone t ht (hans t ht)).1] at hc
      cases hc
    · rw [hboard.others c fun t ht heq => hmem (heq ▸ List.mem_map_of_mem ht)] at hc
      exact hmem (hall c fd hc)

/-- If the round names no job twice, every answer is sent to one of its clients. -/
theorem answers_sent {u : List (DaemonPop × List WriteAnswer)} (hT : d.Took l d₁ T)
    (hpops : Run (WrittenPop json) d₁ u d₂) (hnodup : (l.1.1.map Action.jobId).Nodup)
    {w : DaemonPop × List WriteAnswer} (hw : w ∈ u) {id : JobId} {resp : WireResponse}
    (hans : answerOf w.1 = some (id, resp)) :
    ∃ t ∈ T, (t.peer, resp) ∈ responsesOf w.1.2 := by
  rcases hpops.exists_of_mem hw with ⟨u₁, d', d'', u₂, rfl, hbefore, hs, -⟩
  have hbefore := WrittenPop.pops hbefore
  have hthis := hbefore.append (.single hs.popStep)
  have hone : [w.1].filterMap answerOf = [(id, resp)] := by
    rw [List.filterMap_cons, hans]
    rfl
  -- its id has not been answered before
  have hfresh : id ∉ ((u₁.map Prod.fst).filterMap answerOf).map Prod.fst := by
    rcases (hT.answers hthis).1 with ⟨later, hlater⟩
    have hids := World.nodup_answered d.loop.world hnodup
    rw [← hlater, List.filterMap_append, hone, List.map_append, List.map_append, List.map_append,
      List.map_map, List.append_assoc] at hids
    intro hmem
    refine (List.nodup_append.mp hids).2.2 id hmem id ?_ rfl
    exact List.mem_append_left _ List.mem_cons_self
  rcases hT.named hthis (id, resp)
    (by rw [List.filterMap_append, hone]; exact List.mem_append_right _ List.mem_cons_self)
    with ⟨t', ht', hid⟩
  obtain ⟨t, hlast⟩ : ∃ t, lastUnder Ticket.id id T = some t := exists_lastUnder ht' hid
  refine ⟨t, (lastUnder_eq_some hlast).1, ?_⟩
  have haddr : addressee T id = some t.peer := by
    unfold addressee
    rw [hlast]
    rfl
  rw [hT.responses_pop hbefore hs.popStep, hans]
  show (t.peer, resp) ∈ (if id ∈ _ then [] else _) ++ _
  rw [if_neg (by rwa [List.append_nil, List.mem_reverse]), haddr]
  exact List.mem_cons_self

end Took

/-- What the clients of a round are owed. The round left the daemon `d₁`, and after the pops `u`
it is `d₂`: each client was sent one response, whole unless its socket failed; its descriptor is
closed and taken out of `clients`; and who is left there can still be answered. -/
structure AllAnswered (json : Json) (l : RoundLog) (d₁ : Daemon)
    (u : List (DaemonPop × List WriteAnswer)) (d₂ : Daemon) : Prop where
  answered : ∀ p req a, (p, req, a) ∈ requestsOf l.2 →
    ∃ resp output, writtenTo p u = [(resp, output)] ∧ resp.Sent json output
  closed : ∀ p req a, (p, req, a) ∈ requestsOf l.2 →
    (∀ fd, d₂.sockets.peers.get fd ≠ some p) ∧
      ∀ fd c, d₁.sockets.peers.get fd = some p → d₂.ipc.clients.get c ≠ some fd
  left : ∀ c fd, d₂.ipc.clients.get c = some fd → d₂.CanBeAnswered json c fd

end Daemon

/-- The clients of a round get what they are owed if and only if the round names no job twice,
cancels only jobs that can be signalled, finds nobody left behind in `clients` except under client
ids that it gives again, and the socket carries each response or fails. -/
theorem all_answered_iff {d d₁ d₂ : Daemon} {t : List DaemonLabel} {l : RoundLog}
    {u : List (DaemonPop × List WriteAnswer)} (hrun : Run (Daemon.Step json) .new t d)
    (hround : Daemon.RoundStep json d l d₁) (hpops : Run (Daemon.WrittenPop json) d₁ u d₂)
    (hdone : d₂.loop.queue = []) :
    Daemon.AllAnswered json l d₁ u d₂ ↔
      ((l.1.1.map Action.jobId).Nodup ∧
        ∀ id signal, .control id signal ∈ l.1.1 →
          ProcessModule.signalable d.loop.world.state id = true) ∧
      (∀ c fd, d.ipc.clients.get c = some fd →
        c ∈ List.iterate IpcModule.nextId d.ipc.nextClientId l.1.1.length) ∧
      ∀ w ∈ u, ∀ id resp, answerOf w.1 = some (id, resp) →
        Carries (resp.payload json).length w.2 := by
  rcases (hround.took (Daemon.Tidy.run hrun)).1 with ⟨T, hT⟩
  have hpops' := Daemon.WrittenPop.pops hpops
  have hrun' : Run (Daemon.Step json) .new (t ++ (.round l :: (u.map Prod.fst).map .pop)) d₂ :=
    hrun.append (hround.steps hpops')
  have hboard : Board T d.ipc.clients (((u.map Prod.fst).filterMap answerOf).map Prod.fst)
      d₂.ipc d₂.sockets :=
    (hT.responses hpops').2.congr fun id => by rw [List.append_nil, List.mem_reverse]
  have hlength : ∀ p, (Daemon.writtenTo p u).length =
    delivered p (responsesOf ((u.map Prod.fst).flatMap Prod.snd)) :=
      fun p => Daemon.length_writtenTo p u
  rw [← hT.answered_all hpops' hdone]
  constructor
  · intro h
    have hans : ∀ t ∈ T, t.Answered T (((u.map Prod.fst).filterMap answerOf).map Prod.fst) := by
      intro t ht
      rcases h.answered t.peer t.request t.action
        ((mem_requestsOf hT.traffic).mpr ⟨t, ht, rfl, rfl, rfl⟩) with ⟨resp, output, hone, -⟩
      rw [← hT.delivered_iff hpops' ht, ← hlength, hone]
      rfl
    have hnone : ∀ c fd, d₂.ipc.clients.get c ≠ some fd :=
      fun c fd hc => Daemon.not_canBeAnswered hrun' hdone c fd (h.left c fd hc)
    refine ⟨hans, (hT.clients_empty_iff hpops' hans).mp hnone, ?_⟩
    intro w hw id resp hresp
    have hnodup := ((hT.answered_all hpops' hdone).mp hans).1
    rcases hT.answers_sent hpops hnodup hw hresp with ⟨t, ht, hsent⟩
    rcases h.answered t.peer t.request t.action
      ((mem_requestsOf hT.traffic).mpr ⟨t, ht, rfl, rfl, rfl⟩) with ⟨resp', output, hone, hgood⟩
    have hmem := Daemon.mem_writtenTo.mpr ⟨w, hw, hsent, rfl⟩
    rw [hone, List.mem_singleton] at hmem
    cases hmem
    exact (sent_iff json _ _).mp hgood
  · rintro ⟨hans, hold, hcarries⟩
    have hnone := (hT.clients_empty_iff hpops' hans).mpr hold
    constructor
    · intro p req a hreq
      rcases (mem_requestsOf hT.traffic).mp hreq with ⟨t, ht, rfl, -, -⟩
      have hone := (hT.delivered_iff hpops' ht).mpr (hans t ht)
      rw [← hlength, List.length_eq_one_iff] at hone
      rcases hone with ⟨⟨resp, output⟩, hone⟩
      refine ⟨resp, output, hone, (sent_iff json _ _).mpr ?_⟩
      obtain ⟨w, hw, hsent, rfl⟩ := Daemon.mem_writtenTo.mp (hone ▸ List.mem_cons_self)
      rcases hpops.exists_of_mem hw with ⟨_, _, _, _, -, -, hs, -⟩
      rcases hs.popStep.answer_of_response hsent with ⟨id, hid⟩
      exact hcarries w hw id resp hid
    · intro p req a hreq
      rcases (mem_requestsOf hT.traffic).mp hreq with ⟨t, ht, rfl, -, -⟩
      exact ⟨(hboard.gone t ht (hans t ht)).2, fun fd c _ => hnone c fd⟩
    · exact fun c fd hc => absurd hc (hnone c fd)

namespace Daemon

/-- `runPops`, on sockets that give the answers `output`. -/
def runWrites (json : Json) (output : List WriteAnswer) : List (Ambient × OsAnswer) → Daemon →
    List (DaemonPop × List WriteAnswer) × Daemon
  | [], d => ([], d)
  | (amb, ans) :: envs, d =>
    match d.loop.pop EffectExecutor.executor amb ans with
    | none => ([], d)
    | some (l, loop) =>
      let answered := d.answer json l.2.ipcActs output
      let r := runWrites json output envs ⟨loop, answered.1.1, answered.1.2⟩
      (((l, answered.2), output) :: r.1, r.2)

theorem runWrites_run (json : Json) (output : List WriteAnswer) (envs : List (Ambient × OsAnswer))
    (d : Daemon) :
    Run (WrittenPop json) d (runWrites json output envs d).1 (runWrites json output envs d).2 := by
  induction envs generalizing d with
  | nil => exact .nil d
  | cons env envs ih =>
    unfold runWrites
    cases hpop : d.loop.pop EffectExecutor.executor env.1 env.2 with
    | none => simp only; exact .nil d
    | some r => simp only; exact .cons (.pop output (Loop.pop_eq_some hpop)) (ih _)

theorem runWrites_output {json : Json} {output : List WriteAnswer}
    {envs : List (Ambient × OsAnswer)} {d : Daemon} :
    ∀ w ∈ (runWrites json output envs d).1, w.2 = output := by
  induction envs generalizing d with
  | nil => exact nofun
  | cons env envs ih =>
    unfold runWrites
    cases d.loop.pop EffectExecutor.executor env.1 env.2 with
    | none => exact nofun
    | some r => exact List.forall_mem_cons.mpr ⟨rfl, ih⟩

/-- The pops after a round, in which every process starts, on sockets that take a frame. -/
noncomputable def write (d : Daemon) : List (DaemonPop × List WriteAnswer) × Daemon :=
  d.runWrites .small [.wrote 4, .wrote 64] (List.replicate 20 (.still 0, .started 100))

theorem write_run (d : Daemon) : Run (WrittenPop .small) d d.write.1 d.write.2 :=
  runWrites_run ..

theorem all_answered_iff_busy :
    AllAnswered .small busy.1 busy.2 busy.2.write.1 busy.2.write.2 := by
  have hnew : Run (Step .small) .new [] .new := .nil _
  refine (all_answered_iff hnew busy_round (write_run _) (by decide)).mpr ⟨⟨by decide, ?_⟩, ?_, ?_⟩
  · intro id signal hmem
    have hacts : busy.1.1.1 = [.submit 1 1000 _ _, .query 5] := rfl
    rw [hacts] at hmem
    simp at hmem
  · intro c fd hc
    have hempty : Daemon.new.ipc.clients.get c = none := HashMap.get_empty c
    rw [hempty] at hc
    cases hc
  · intro w hw id resp _
    rw [runWrites_output w hw]
    have hlen : (resp.payload .small).length ≤ 64 := by
      cases resp with
      | exec id => show (toLeBytes 8 id.toNat).length + 1 ≤ 64; rw [length_toLeBytes]; omega
      | result outcome => cases outcome <;> exact Nat.le_of_ble_eq_true rfl
      | cancelOk | error => decide
    have htaken : (resp.payload .small).length - 64 = 0 := Nat.sub_eq_zero_of_le hlen
    exact .whole le_rfl (by omega) (.piece (by omega) (htaken ▸ .done []))

/-- A client cancels a job that is not there. -/
noncomputable def astray : RoundLog × Daemon := Daemon.new.connect [.conn 10 (.cancel 1000 7)]

/-- The client that cancels an unknown job is never answered, and its descriptor is kept. -/
theorem cancel_unanswered :
    ∃ t d l d₁ u d₂, Run (Step .small) .new t d ∧ RoundStep .small d l d₁ ∧
      Run (WrittenPop .small) d₁ u d₂ ∧ d₂.loop.queue = [] ∧
      (0, .cancel 1000 7, .control 7 .gracefulStop) ∈ requestsOf l.2 ∧
      writtenTo 0 u = [] ∧ d₂.ipc.clients.get 1 = some 10 ∧
      ¬ AllAnswered .small l d₁ u d₂ := by
  have hround : RoundStep .small .new astray.1 astray.2 := .round _ (by decide) (by decide)
  have hreq : (0, .cancel 1000 7, .control 7 .gracefulStop) ∈ requestsOf astray.1.2 := by decide
  have hnone : writtenTo 0 astray.2.write.1 = [] := List.length_eq_zero_iff.mp (by decide)
  refine ⟨[], .new, _, _, _, astray.2.write.2, .nil _, hround, write_run _, by decide, hreq,
    hnone, by decide, ?_⟩
  intro hall
  rcases hall.answered _ _ _ hreq with ⟨resp, output, hone, -⟩
  rw [hnone] at hone
  cases hone

end Daemon
end CoreShift
