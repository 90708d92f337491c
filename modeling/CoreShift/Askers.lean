import CoreShift.Replies

/-!
# Answers and askers

What a client is sent is the first answer under the job id that it waits for, and that is the
answer to the request of this id that is answered first. It is an answer to the client's own
request if that request, the last one, is of the same kind. `World.Matched` says so of all jobs
that a batch names; it holds in particular if no job is named twice.
-/

namespace CoreShift

open Utils WorkQueue

variable {json : Json}

/-! ## Who is sent what -/

/-- For every job that a batch names, the request that is answered first and the last request
are of one kind. -/
def World.Matched {σ : Type} (w : World σ) (acts : List Action) : Prop :=
  ∀ id a b, ((w.answeredInOrder acts).filter fun a => a.jobId = id).head? = some a →
    lastUnder Action.jobId id acts = some b → a.ask = b.ask

/-- A batch that names no job twice is matched. -/
theorem World.Matched.of_nodup {σ : Type} {w : World σ} {acts : List Action}
    (h : (acts.map Action.jobId).Nodup) : w.Matched acts := by
  intro id a b ha hb
  rcases List.mem_filter.mp (List.mem_of_mem_head? ha) with ⟨hmem, hid⟩
  rcases lastUnder_eq_some hb with ⟨hb, hid'⟩
  have hacts := (World.mem_answeredInOrder.mp hmem).1
  rw [List.inj_on_of_nodup_map h hacts hb ((of_decide_eq_true hid).trans hid'.symm)]

/-- The response answers the request: `popped` is the action that caused the response, `action`
the one that the request became. -/
def Replies (popped : Action) : WireResponse → Request → Action → Prop
  | .exec id, .exec _ _, action => action.submitId = some id
  | .result _, .getResult _ id, _ => popped.jobId = id
  | .cancelOk, .cancel _ id, _ => popped.jobId = id
  | .error, .exec _ _, action => ∃ id, action.submitId = some id ∧ popped = .rejected id
  | _, _, _ => False

/-- The requests under an id, with their kinds. -/
theorem asks_filter (acts : List Action) (id : JobId) :
    (asks acts).filter (fun e => e.1 = id) = asks (acts.filter fun a => a.jobId = id) := by
  induction acts with
  | nil => rfl
  | cons a acts ih =>
    have hcons : ∀ acts, asks (a :: acts) = asks [a] ++ asks acts := asks_append [a]
    rw [hcons, List.filter_append, ih]
    by_cases hid : a.jobId = id
    · rw [List.filter_cons_of_pos (by simpa using hid), hcons]
      cases hask : a.ask <;> simp [asks, hask, hid]
    · rw [List.filter_cons_of_neg (by simpa using hid)]
      cases hask : a.ask <;> simp [asks, hask, hid]

/-- The first kind under an id is that of the first request. -/
theorem asks_head {acts : List Action} (hacts : ∀ a ∈ acts, a.ask.isSome = true) {id : JobId}
    {kind : Ask} : ((asks acts).filter fun e => e.1 = id).head? = some (id, kind) ↔
      ∃ a, (acts.filter fun a => a.jobId = id).head? = some a ∧ a.ask = some kind := by
  rw [asks_filter]
  cases hf : acts.filter fun a => a.jobId = id with
  | nil => simp [asks]
  | cons a rest =>
    have hmem : a ∈ acts.filter fun a => a.jobId = id := hf ▸ List.mem_cons_self
    rcases List.mem_filter.mp hmem with ⟨hmem, hid⟩
    rw [decide_eq_true_eq] at hid
    rcases Option.isSome_iff_exists.mp (hacts a hmem) with ⟨kind', hkind⟩
    simp [asks, hkind, hid]

/-- The action of the last ticket under an id is the last action under it. -/
theorem lastUnder_action (T : List Ticket) (id : JobId) :
    lastUnder Action.jobId id (T.map Ticket.action) =
      (lastUnder Ticket.id id T).map Ticket.action :=
  lastUnder_map Action.jobId Ticket.action id T

/-- A response is of the kind of the action that caused it. -/
theorem replies_of_ask {popped action : Action} {id jobId : JobId} {resp : WireResponse}
    {req : Request} (hpopped : IpcModule.response popped = some (id, resp))
    (haction : action = Router.routed jobId req) (hid : action.jobId = id)
    (hask : action.ask = some resp.ask) : Replies popped resp req action := by
  subst haction
  cases req with
  | exec uid cmd =>
    have hjob : jobId = id := hid
    subst hjob
    cases popped with
    | started => cases hpopped; rfl
    | rejected => cases hpopped; exact ⟨_, rfl, rfl⟩
    | controlled | queryResult | finished => cases hpopped; cases hask
    | _ => cases hpopped
  | getResult uid j =>
    have hjob : j = id := hid
    subst hjob
    cases popped with
    | queryResult | finished => cases hpopped; rfl
    | started | rejected | controlled => cases hpopped; cases hask
    | _ => cases hpopped
  | cancel uid j =>
    have hjob : j = id := hid
    subst hjob
    cases popped with
    | controlled => cases hpopped; rfl
    | started | rejected | queryResult | finished => cases hpopped; cases hask
    | _ => cases hpopped

/-- A response that answers a request is of its kind. -/
theorem ask_of_replies {popped action : Action} {jobId : JobId} {resp : WireResponse}
    {req : Request} (haction : action = Router.routed jobId req)
    (h : Replies popped resp req action) : action.ask = some resp.ask := by
  subst haction
  cases req <;> cases resp <;> first | rfl | exact h.elim

/-- In a matched round, a response goes to a client whose request it answers. -/
theorem Daemon.Took.replies {d d₁ d₂ d₃ : Daemon} {l : RoundLog} {T : List Ticket}
    {u : List DaemonPop} {pop : DaemonPop} (h : d.Took l d₁ T)
    (hmatched : d.loop.world.Matched l.1.1) (hrun : Run (PopStep json) d₁ u d₂)
    (hpop : PopStep json d₂ pop d₃) {p : ℕ} {resp : WireResponse}
    (hresp : .response p resp ∈ pop.2) :
    ∃ t ∈ T, t.peer = p ∧ Replies pop.1.1 resp t.request t.action := by
  have hall := h.answers (hrun.append (.single hpop))
  rw [List.filterMap_append] at hall
  have hone : [pop].filterMap answerOf = (answerOf pop).toList := by
    rw [List.filterMap_cons]
    cases answerOf pop <;> rfl
  rw [hone] at hall
  have hmem := mem_responsesOf.mpr hresp
  rw [h.responses_pop hrun hpop] at hmem
  rcases mem_deliver hmem with ⟨id, haddr, hfresh, hhead⟩
  -- the response is the answer of this pop, the first under its id
  have hans : answerOf pop = some (id, resp) := by
    have hin := (List.mem_filter.mp (List.mem_of_mem_head? hhead)).1
    exact Option.mem_toList.mp hin
  unfold addressee at haddr
  rcases Option.map_eq_some_iff.mp haddr with ⟨t, hlast, hpeer⟩
  rcases lastUnder_eq_some hlast with ⟨ht, hid⟩
  have hfirst : ((asks (d.loop.world.answeredInOrder l.1.1)).filter fun e => e.1 = id).head? =
      some (id, resp.ask) := by
    rcases hall.1 with ⟨later, hlater⟩
    rw [← hlater, hans]
    have hnone : ((u.filterMap answerOf).map fun r => (r.1, r.2.ask)).filter
        (fun e => e.1 = id) = [] := by
      rw [List.filter_eq_nil_iff]
      intro e he heq
      rw [decide_eq_true_eq] at heq
      rcases List.mem_map.mp he with ⟨r, hr, rfl⟩
      apply hfresh
      rw [List.append_nil, List.mem_reverse, ← heq]
      exact List.mem_map_of_mem hr
    rw [List.map_append, List.append_assoc, List.filter_append, hnone, List.nil_append]
    rw [show (some (id, resp)).toList = [(id, resp)] from rfl, List.map_singleton,
      List.singleton_append, List.filter_cons_of_pos (by simp), List.head?_cons]
  have hrequests : ∀ a ∈ d.loop.world.answeredInOrder l.1.1, a.ask.isSome = true :=
    fun a ha => h.requests a (World.mem_answeredInOrder.mp ha).1
  rcases (asks_head hrequests).mp hfirst with ⟨a, hafirst, hask⟩
  have hb : lastUnder Action.jobId id l.1.1 = some t.action := by
    rw [h.actions, lastUnder_action, hlast]
    rfl
  have hkind := hmatched id a t.action hafirst hb
  rcases h.routed t ht with ⟨jobId, hrouted⟩
  exact ⟨t, ht, hpeer, replies_of_ask hans hrouted hid (hkind ▸ hask)⟩

/-- In a round that is not matched, some response goes to a client that did not ask for it. -/
theorem Daemon.Took.misdelivers {d d₁ d₂ : Daemon} {l : RoundLog} {T : List Ticket}
    {u : List DaemonPop} (h : d.Took l d₁ T) (hunmatched : ¬ d.loop.world.Matched l.1.1)
    (hrun : Run (PopStep json) d₁ u d₂) (hdone : d₂.loop.queue = []) :
    ∃ pop ∈ u, ∃ p resp, .response p resp ∈ pop.2 ∧
      ∀ t ∈ T, t.peer = p → ¬ Replies pop.1.1 resp t.request t.action := by
  unfold World.Matched at hunmatched
  push Not at hunmatched
  rcases hunmatched with ⟨id, a, b, ha, hb, hne⟩
  have hrequests : ∀ a ∈ d.loop.world.answeredInOrder l.1.1, a.ask.isSome = true :=
    fun a ha => h.requests a (World.mem_answeredInOrder.mp ha).1
  rcases List.mem_filter.mp (List.mem_of_mem_head? ha) with ⟨hmem, hid⟩
  rcases Option.isSome_iff_exists.mp (hrequests a hmem) with ⟨kind, hkind⟩
  have hfirst := (asks_head hrequests).mpr ⟨a, ha, hkind⟩
  -- the last ticket under the id is sent the first answer
  rw [h.actions, lastUnder_action] at hb
  rcases Option.map_eq_some_iff.mp hb with ⟨t, hlast, haction⟩
  rcases lastUnder_eq_some hlast with ⟨ht, rfl⟩
  have hanswered : t.Answered T ((u.filterMap answerOf).map Prod.fst) := by
    refine ⟨hlast, (h.mem_answered hrun hdone).mpr ?_⟩
    rcases World.mem_answeredInOrder.mp hmem with ⟨hacts, hans⟩
    rw [h.actions] at hacts
    rcases List.mem_map.mp hacts with ⟨t', ht', rfl⟩
    exact ⟨t', ht', of_decide_eq_true hid, hans⟩
  have hpos : 0 < delivered t.peer (responsesOf (u.flatMap Prod.snd)) := by
    rw [(h.delivered_iff hrun ht).mpr hanswered]
    exact Nat.one_pos
  rcases List.countP_pos_iff.mp hpos with ⟨⟨p, resp⟩, hresp, hp⟩
  rw [decide_eq_true_eq] at hp
  dsimp only at hp
  subst hp
  have hdeliver := hresp
  rw [(h.responses hrun).1] at hdeliver
  rcases mem_deliver hdeliver with ⟨k, haddr, -, hhead⟩
  rcases h.addressee_eq ht haddr with ⟨rfl, -⟩
  have hask : resp.ask = kind := by
    have hmap : (((u.filterMap answerOf).map fun r => (r.1, r.2.ask)).filter
        fun e => e.1 = t.id).head? = some (t.id, resp.ask) := by
      rw [List.filter_map, List.head?_map]
      exact congrArg (Option.map fun r : JobId × WireResponse => (r.1, r.2.ask)) hhead
    rw [(h.answers hrun).2 hdone, hfirst, Option.some.injEq, Prod.mk.injEq] at hmap
    exact hmap.2.symm
  rcases List.mem_flatMap.mp (mem_responsesOf.mp hresp) with ⟨pop, hpop, hin⟩
  refine ⟨pop, hpop, t.peer, resp, hin, ?_⟩
  intro t' ht' hpeer hreplies
  rw [h.distinct.eq_of_peer ht' ht hpeer] at hreplies
  rcases h.routed t ht with ⟨jobId, hrouted⟩
  have := ask_of_replies hrouted hreplies
  rw [hask, haction] at this
  exact hne (hkind.trans this.symm)

/-! ## Whole runs -/

namespace Daemon

/-- The round is matched. -/
def Matched (d : Daemon) : DaemonLabel → Prop
  | .round l => d.loop.world.Matched l.1.1
  | .pop _ => True

/-- A step whose round is matched. -/
def MatchedStep (json : Json) (d : Daemon) (l : DaemonLabel) (d' : Daemon) : Prop :=
  Step json d l d' ∧ d.Matched l

/-- What a daemon did last: a round, and some pops. -/
def LastRound (json : Json) (past : List DaemonLabel) (d : Daemon) : Prop :=
  (past = [] ∧ d = .new) ∨ ∃ t d₀ l d₁ u, past = t ++ .round l :: u.map .pop ∧
    Run (MatchedStep json) .new t d₀ ∧ RoundStep json d₀ l d₁ ∧ d₀.loop.world.Matched l.1.1 ∧
    Run (PopStep json) d₁ u d

theorem LastRound.of_run {t : List DaemonLabel} {d : Daemon}
    (h : Run (MatchedStep json) .new t d) : LastRound json t d := by
  have hinv : Run (MatchedStep json) .new t d ∧ LastRound json t d := by
    let inv : List DaemonLabel → Daemon → Prop :=
      fun past d => Run (MatchedStep json) .new past d ∧ LastRound json past d
    have hstep : ∀ past d l d', inv past d → MatchedStep json d l d' → inv (past ++ [l]) d' := by
      rintro past d l d' ⟨hrun, hlast⟩ hs
      refine ⟨hrun.append (.single hs), ?_⟩
      rcases hs with ⟨hstep, hmatched⟩
      cases hstep with
      | round hround => exact Or.inr ⟨past, d, _, d', [], rfl, hrun, hround, hmatched, .nil _⟩
      | @pop l _ hpop =>
        rcases hlast with ⟨-, rfl⟩ | ⟨t, d₀, lr, d₁, u, rfl, hrun₀, hround, hm, hpops⟩
        · -- there is nothing to pop before the first round
          rcases pop_iff.mp hpop.loop with ⟨rest, out, hq, -, -⟩
          cases hq
        · refine Or.inr ⟨t, d₀, lr, d₁, u ++ [l], ?_, hrun₀, hround, hm,
            hpops.append (.single hpop)⟩
          rw [List.map_append, List.append_assoc]
          rfl
    exact h.invariant_trace [] hstep ⟨.nil _, Or.inl ⟨rfl, rfl⟩⟩
  exact hinv.2

theorem MatchedStep.run {t : List DaemonLabel} {d d' : Daemon}
    (h : Run (MatchedStep json) d t d') : Run (Step json) d t d' :=
  h.mono fun _ _ _ hs => hs.1

end Daemon

/-- Every response of a run goes to a client whose own request it answers. -/
def Daemon.AnswersAskers (t : List DaemonLabel) : Prop :=
  ∀ l ∈ t, ∀ p resp, .response p resp ∈ l.traffic →
    ∃ pop req action, l = .pop pop ∧ .request p req action ∈ t.flatMap DaemonLabel.traffic ∧
      Replies pop.1.1 resp req action

/-- In every run of matched rounds, the responses go to those who asked. -/
theorem responses_reach_their_askers {t : List DaemonLabel} {d : Daemon}
    (hrun : Run (Daemon.MatchedStep json) .new t d) : Daemon.AnswersAskers t := by
  intro l hl p resp hresp
  rcases hrun.exists_of_mem hl with ⟨t₁, s, s', t₂, rfl, hrun₁, hstep, -⟩
  rcases hstep with ⟨hstep, -⟩
  cases hstep with
  | round hround =>
    -- a round sends nothing
    have hd := Daemon.Tidy.run (Daemon.MatchedStep.run hrun₁)
    rcases (hround.took hd).1 with ⟨T, hT⟩
    rw [show DaemonLabel.traffic (.round _) = _ from hT.traffic] at hresp
    rcases List.mem_map.mp hresp with ⟨u, -, heq⟩
    cases heq
  | @pop pop _ hpop =>
    rcases Daemon.LastRound.of_run hrun₁ with ⟨-, rfl⟩ |
      ⟨t₀, d₀, lr, d₁, u, rfl, hrun₀, hround, hmatched, hpops⟩
    · rcases pop_iff.mp hpop.loop with ⟨rest, out, hq, -, -⟩
      cases hq
    · have hd := Daemon.Tidy.run (Daemon.MatchedStep.run hrun₀)
      rcases (hround.took hd).1 with ⟨T, hT⟩
      rcases hT.replies hmatched hpops hpop hresp with ⟨t, ht, hpeer, hreplies⟩
      refine ⟨pop, t.request, t.action, rfl, ?_, hreplies⟩
      rw [List.mem_flatMap]
      refine ⟨.round lr, by simp, ?_⟩
      rw [show DaemonLabel.traffic (.round lr) = _ from hT.traffic, ← hpeer]
      exact List.mem_map_of_mem ht

namespace Daemon

theorem responses_reach_their_askers_busy :
    AnswersAskers (.round busy.1 :: busy.2.settle.1.map .pop) := by
  have hpops : Run (MatchedStep .small) busy.2 (busy.2.settle.1.map .pop) busy.2.settle.2 :=
    (runPops_run _ _ _).map (fun d => d) DaemonLabel.pop fun _ _ _ hs => ⟨.pop hs, trivial⟩
  have hmatched : Daemon.new.loop.world.Matched busy.1.1.1 := .of_nodup (by decide)
  exact responses_reach_their_askers (.cons ⟨.round busy_round, hmatched⟩ hpops)

/-- A client asks for the result of the job that the next client's command will be. -/
noncomputable def crossed : RoundLog × Daemon :=
  Daemon.new.connect [.conn 10 (.getResult 1000 1), .conn 11 (.exec 2000)]

/-- The client that asked for a command to be started is sent the other client's result. -/
theorem result_for_exec :
    ∃ t d, Run (Step .small) .new t d ∧ .response 1 (.result none) ∈ t.flatMap (·.traffic) ∧
      ¬ AnswersAskers t := by
  have hround : RoundStep .small .new crossed.1 crossed.2 := .round _ (by decide) (by decide)
  let t := DaemonLabel.round crossed.1 :: crossed.2.settle.1.map .pop
  have hsent : .response 1 (.result none) ∈ t.flatMap (·.traffic) := by decide
  refine ⟨t, _, hround.steps (runPops_run _ _ _), hsent, ?_⟩
  intro hall
  rcases List.mem_flatMap.mp hsent with ⟨l, hl, hresp⟩
  rcases hall l hl 1 _ hresp with ⟨pop, req, action, -, hreq, hreplies⟩
  -- the only request of this client is the command
  have honly : ∀ e ∈ requestsOf (t.flatMap (·.traffic)), e.1 = 1 →
      ∃ cmd, e.2.1 = .exec 2000 cmd := by
    have hall : requestsOf (t.flatMap (·.traffic)) =
      [(0, .getResult 1000 1, .query 1), (1, .exec 2000 _, _)] := rfl
    rw [hall]
    simp
  rcases honly (1, req, action) (List.mem_filterMap.mpr ⟨_, hreq, rfl⟩) rfl with ⟨cmd, hexec⟩
  rw [show req = .exec 2000 cmd from hexec] at hreplies
  exact hreplies

end Daemon
end CoreShift
