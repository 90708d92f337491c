import CoreShift.Launch
import CoreShift.Runtime

/-!
# The job limit

The limit is a bare counter: up when a submission is let in, down on every `Finished`. It
bounds the job map as long as every `Finished` that is popped finds its job. A second
`Finished` of a job can only come from a poll made while the first is still queued, and then
the counter goes down twice for one job.
-/

namespace CoreShift

open Utils WorkQueue

variable {σ α : Type} {E : Executor σ α}

/-! ## One job -/

/-- At most one `Finished` of the job is queued, and only while the job is there. -/
structure FinishOnce (c : Config JobView Action) : Prop where
  once : c.queue.countP Action.isFinish ≤ 1
  there : 0 < c.queue.countP Action.isFinish → c.world.job.isSome = true

variable {id : JobId} {v v' : JobView} {o : PopLog} {a : Action} {out : List Action}

/-- Only a poll that was answered by an exit queues a `Finished`. -/
theorem JobView.Outcome.finish_out (h : v.Outcome id o a v' out) :
    out.countP Action.isFinish = 0 ∨
      a = .pollProcess id ∧ out.countP Action.isFinish = 1 ∧ v.job.isSome = true ∧ v' = v := by
  cases h with
  | exited hj => exact Or.inr ⟨rfl, rfl, by rw [hj]; rfl, rfl⟩
  | _ => exact Or.inl rfl

/-- Only a `Finished` removes the job. -/
theorem JobView.Outcome.job_kept (h : v.Outcome id o a v' out) (ha : a.isFinish = false)
    (hv : v.job.isSome = true) : v'.job.isSome = true := by
  cases h with
  | finished | finishedAbsent => cases ha
  | admitted | started | stopped => rfl
  | _ => exact hv

/-- After a `Finished` the job is gone. -/
theorem JobView.Outcome.job_gone (h : v.Outcome id o a v' out) (ha : a.isFinish = true) :
    v'.job = none := by
  cases h with
  | finished => rfl
  | finishedAbsent hj => exact hj
  | quiet hq =>
    rw [Action.not_finish_of_isQuiet hq] at ha
    cases ha
  | _ => cases ha

/-- Apart from admissions and `Finished`, no outcome changes whether the job is there. -/
theorem JobView.Outcome.job_isSome (h : v.Outcome id o a v' out) (hf : a.isFinish = false)
    (ha : a.isAdmission = false) : v'.job.isSome = v.job.isSome := by
  cases h with
  | finished | finishedAbsent => cases hf
  | admitted => cases ha
  | started hj | stopped hj => rw [hj]; rfl
  | _ => rfl

/-- The step lemma, for polls that are made while no `Finished` is queued. -/
theorem FinishOnce.step {c c' : Config JobView Action} {l : Label} (h : FinishOnce c)
    (hstep : JobStep id c l c')
    (hl : ∀ o, l = .pop (.pollProcess id) o → c.queue.countP Action.isFinish = 0) :
    FinishOnce c' := by
  cases hstep with
  | @own v a rest o v₁ out v' hid hout hev =>
    rcases h with ⟨honce, hthere⟩
    dsimp only at honce hthere hl
    rw [List.countP_cons] at honce hthere
    have hjob : v'.job.isSome = v₁.job.isSome := by rw [hev.job]
    constructor <;> dsimp only <;> rw [List.countP_append]
    · rcases hout.finish_out with h0 | ⟨rfl, h1, -, -⟩
      · omega
      · have := hl o rfl
        rw [List.countP_cons] at this
        omega
    · rw [hjob]
      intro hpos
      rcases hout.finish_out with h0 | ⟨rfl, -, hv, rfl⟩
      · -- a `Finished` is left in the queue, so the popped action is not the only one
        have ha : a.isFinish = false := by
          by_contra hfin
          rw [Bool.not_eq_false] at hfin
          rw [hfin, if_pos rfl] at honce
          omega
        exact hout.job_kept ha (hthere (by omega))
      · exact hv
  | other hid hev =>
    exact ⟨h.once, fun hpos => by rw [show _ = _ from hev.job]; exact h.there hpos⟩
  | @feed v acts events ready hacts hready =>
    have hzero : (ownPart Action.jobId id acts ++ ready).countP Action.isFinish = 0 := by
      rw [List.countP_eq_zero]
      intro b hb hfin
      rcases List.mem_append.mp hb with hb | hb
      · have hin := hacts b (List.mem_filter.mp hb).1
        rw [(Action.not_finish_of_isInput hin).1] at hfin
        cases hfin
      · rw [hready b hb] at hfin
        cases hfin
    constructor <;> dsimp only <;> rw [hzero]
    · omega
    · intro hpos
      omega

/-! ## The counter and the map -/

/-- Every poll is handled while no `Finished` of its job is queued. -/
def Loop.PollsAlone (c : Loop σ) : Label → Prop
  | .pop (.pollProcess id) _ => ∀ result, .finished id result ∉ c.queue
  | _ => True

/-- A step of the loop that meets the condition. -/
def Loop.LonePollStep (E : Executor σ α) (c : Loop σ) (l : Label) (c' : Loop σ) : Prop :=
  Loop.Step E c l c' ∧ c.PollsAlone l

/-- The jobs in the map and the admissions in the queue all have a slot. -/
structure Slots (maxJobs : ℕ) (c : Loop σ) : Prop where
  slots : c.world.state.jobs.len + c.queue.countP Action.isAdmission ≤
    c.world.dispatcher.admission.activeJobs
  limit : c.world.dispatcher.admission.activeJobs ≤ maxJobs
  fixed : c.world.dispatcher.admission.maxJobs = maxJobs

/-- The invariant of the run. -/
structure WithinLimit (maxJobs : ℕ) (c : Loop σ) : Prop extends Slots maxJobs c where
  finish : ∀ id, FinishOnce (c.own id)

/-- The counter moves on submissions and on `Finished` only. -/
theorem AdmissionControlModule.handle_other (m : AdmissionControlModule) {a : Action}
    (hs : a.submitId = none) (hf : a.isFinish = false) : m.handle a = (m, []) := by
  cases a with
  | submit => cases hs
  | finished => cases hf
  | _ => rfl

/-- An action other than a submission queues no admission. -/
theorem JobView.Outcome.no_admission (h : v.Outcome id o a v' out) (hs : a.submitId = none) :
    out.countP Action.isAdmission = 0 := by
  cases h with
  | refused | letIn => cases hs
  | _ => rfl

namespace WithinLimit

variable {maxJobs : ℕ} {c c' : Loop σ} {l : Label}

/-- A poll that is made alone sees no `Finished` among the job's own actions. -/
theorem own_polls (hl : c.PollsAlone l) (id : JobId) :
    ∀ o, l = .pop (.pollProcess id) o → (c.own id).queue.countP Action.isFinish = 0 := by
  intro o heq
  subst heq
  rw [List.countP_eq_zero]
  intro b hb hfin
  rcases List.mem_filter.mp hb with ⟨hmem, hid⟩
  cases b with
  | finished j result =>
    rw [decide_eq_true_eq] at hid
    rw [show j = id from hid] at hmem
    exact hl result hmem
  | _ => cases hfin

section Pop

variable {o : PopLog} {a : Action} {rest out : List Action}

/-- The map holds as many jobs as before, up to the entry of the action's job. -/
theorem len_pop (hr : World.Reacts E c.world a o out c'.world) :
    c'.world.state.jobs.len + (if (c.world.view a.jobId).job.isSome then 1 else 0) =
      c.world.state.jobs.len + if (c'.world.view a.jobId).job.isSome then 1 else 0 :=
  HashMap.len_of_agree fun j hj => (hr.others j hj).job

/-- A submission takes a slot for the admission it queues, or is refused. -/
theorem pop_submit {id : JobId} {owner : UInt32} {exec : ExecSpec} {policy : ExecPolicy}
    (h : WithinLimit maxJobs c) (hq : c.queue = .submit id owner exec policy :: rest)
    (hr : World.Reacts E c.world (.submit id owner exec policy) o out c'.world)
    (hq' : c'.queue = rest ++ out) :
    Slots maxJobs c' := by
  have hlen := len_pop hr
  have hview : (c'.world.view id).job = (c.world.view id).job := hr.own.job
  have hout : out = (c.world.dispatcher.admission.handle (.submit id owner exec policy)).2 :=
    hr.out_eq
  have hadm := hr.admission
  have hslots := h.slots
  have hlimit := h.limit
  have hfixed := h.fixed
  rw [show (Action.submit id owner exec policy).jobId = id from rfl, hview] at hlen
  rw [hq, List.countP_cons] at hslots
  unfold AdmissionControlModule.handle at hadm hout
  dsimp only at hadm hout
  split at hadm
  · next hfull =>
    rw [if_pos hfull] at hout
    refine ⟨?_, by rw [hadm]; exact hlimit, by rw [hadm]; exact hfixed⟩
    rw [hq', List.countP_append, hout, hadm]
    show _ + (_ + 0) ≤ c.world.dispatcher.admission.activeJobs
    omega
  · next hfree =>
    rw [if_neg hfree] at hout
    refine ⟨?_, ?_, by rw [hadm]; exact hfixed⟩
    · rw [hq', List.countP_append, hout, hadm]
      show _ + (_ + 1) ≤ c.world.dispatcher.admission.activeJobs + 1
      omega
    · rw [hadm]
      show c.world.dispatcher.admission.activeJobs + 1 ≤ maxJobs
      omega

/-- A `Finished` that finds its job gives its slot back. -/
theorem pop_finished {id : JobId} {result : Except ExecError ExecResult}
    (h : WithinLimit maxJobs c) (hq : c.queue = .finished id result :: rest)
    (hr : World.Reacts E c.world (.finished id result) o out c'.world)
    (hq' : c'.queue = rest ++ out) :
    Slots maxJobs c' := by
  have hlen := len_pop hr
  have hout := hr.outcome.no_admission rfl
  have hadm := hr.admission
  have hslots := h.slots
  have hlimit := h.limit
  have hfixed := h.fixed
  have hmem : Action.finished id result ∈ (c.own id).queue :=
    List.mem_filter.mpr ⟨by rw [hq]; exact List.mem_cons_self, decide_eq_true rfl⟩
  have hthere : (c.world.view id).job.isSome = true :=
    (h.finish id).there (List.countP_pos_iff.mpr ⟨_, hmem, rfl⟩)
  have hgone : (c'.world.view id).job = none := by
    have hown : (c'.world.view id).job = _ := hr.own.job
    rw [hown]
    unfold JobView.react JobView.onFinished
    dsimp only [Action.jobId]
    split <;> first | rfl | assumption
  rw [show (Action.finished id result).jobId = id from rfl, hthere, hgone, if_pos rfl] at hlen
  simp only [Option.isSome_none, Bool.false_eq_true, if_false] at hlen
  rw [hq, List.countP_cons] at hslots
  unfold AdmissionControlModule.handle at hadm
  dsimp only at hadm
  rw [if_pos (by omega)] at hadm
  refine ⟨?_, ?_, by rw [hadm]; exact hfixed⟩
  · rw [hq', List.countP_append, hout, hadm]
    show _ ≤ c.world.dispatcher.admission.activeJobs - 1
    omega
  · rw [hadm]
    show c.world.dispatcher.admission.activeJobs - 1 ≤ maxJobs
    omega

/-- An admission turns the queued slot into a job. -/
theorem pop_admitted {id : JobId} {owner : UInt32} {exec : ExecSpec} {policy : ExecPolicy}
    (h : WithinLimit maxJobs c) (hq : c.queue = .admitted id owner exec policy :: rest)
    (hr : World.Reacts E c.world (.admitted id owner exec policy) o out c'.world)
    (hq' : c'.queue = rest ++ out) :
    Slots maxJobs c' := by
  have hlen := len_pop hr
  have hout := hr.outcome.no_admission rfl
  have hadm := hr.admission
  have hslots := h.slots
  have hlimit := h.limit
  have hfixed := h.fixed
  rw [hq, List.countP_cons,
    show Action.isAdmission (.admitted id owner exec policy) = true from rfl, if_pos rfl] at hslots
  refine ⟨?_, by rw [hadm]; exact hlimit, by rw [hadm]; exact hfixed⟩
  rw [hq', List.countP_append, hout, hadm]
  show _ ≤ c.world.dispatcher.admission.activeJobs
  split at hlen <;> split at hlen <;> omega

/-- Any other action leaves counter, map size and queued admissions as they are. -/
theorem pop_other (h : WithinLimit maxJobs c) (hq : c.queue = a :: rest)
    (hr : World.Reacts E c.world a o out c'.world) (hq' : c'.queue = rest ++ out)
    (hs : a.submitId = none) (hf : a.isFinish = false) (ha : a.isAdmission = false) :
    Slots maxJobs c' := by
  have hlen := len_pop hr
  have hout := hr.outcome.no_admission hs
  have hadm := hr.admission
  have hslots := h.slots
  have hsome : (c'.world.view a.jobId).job.isSome = (c.world.view a.jobId).job.isSome := by
    rw [hr.own.job]
    exact hr.outcome.job_isSome hf ha
  rw [hsome] at hlen
  rw [hq, List.countP_cons, ha] at hslots
  rw [AdmissionControlModule.handle_other _ hs hf] at hadm
  refine ⟨?_, by rw [hadm]; exact h.limit, by rw [hadm]; exact h.fixed⟩
  rw [hq', List.countP_append, hout, hadm]
  simp only [Bool.false_eq_true, if_false] at hslots
  show _ ≤ c.world.dispatcher.admission.activeJobs
  omega

end Pop

/-- The step lemma. -/
theorem step (h : WithinLimit maxJobs c) (hstep : Loop.LonePollStep E c l c') :
    WithinLimit maxJobs c' := by
  have hfinish : ∀ id, FinishOnce (c'.own id) :=
    fun id => (h.finish id).step (hstep.1.own id) (own_polls hstep.2 id)
  rcases hstep with ⟨hs, hpolls⟩
  cases hs with
  | @pop a o _ hpop =>
    rcases pop_iff.mp hpop with ⟨rest, out, hq, hq', hreact⟩
    have hr := hreact.reacts
    have hslots : Slots maxJobs c' := by
      cases a with
      | submit id owner exec policy => exact h.pop_submit hq hr hq'
      | finished id result => exact h.pop_finished hq hr hq'
      | admitted id owner exec policy => exact h.pop_admitted hq hr hq'
      | _ => exact h.pop_other hq hr hq' rfl rfl rfl
    exact ⟨hslots, hfinish⟩
  | @feed acts events hq hacts hready =>
    rcases Loop.feed_queue c acts hready with ⟨ready, hqueue, hio⟩
    have hzero : (c.feed acts events).queue.countP Action.isAdmission = 0 := by
      rw [hqueue, List.countP_eq_zero]
      intro b hb hadm
      rcases List.mem_append.mp hb with hb | hb
      · rw [(Action.not_finish_of_isInput (hacts b hb)).2] at hadm
        cases hadm
      · rcases hio b hb with ⟨j, rfl⟩
        cases hadm
    have hworld := Loop.feed_world c acts hready
    refine ⟨⟨?_, ?_, ?_⟩, hfinish⟩
    · rw [hzero, hworld]
      have := h.slots
      omega
    · rw [hworld]; exact h.limit
    · rw [hworld]; exact h.fixed

end WithinLimit

/-- In a run whose polls are all made while no `Finished` of their job is queued, the jobs in
the map and the admissions in the queue never exceed the limit. -/
theorem job_limit_kept {maxJobs : ℕ} {x : σ} {t : List Label} {c : Loop σ}
    (hrun : Run (Loop.LonePollStep E) (.init maxJobs x) t c) :
    c.world.state.jobs.len + c.queue.countP Action.isAdmission ≤ maxJobs := by
  have hinit : WithinLimit maxJobs (Loop.init maxJobs x) := by
    refine ⟨⟨?_, ?_, rfl⟩, ?_⟩
    · show (HashMap.empty : HashMap JobId JobState).len + 0 ≤ 0
      rw [HashMap.len_empty]
    · exact Nat.zero_le _
    · intro id
      exact ⟨Nat.zero_le _, fun hpos => absurd hpos (Nat.lt_irrefl 0)⟩
  have hinv := hrun.invariant (fun _ _ _ h hs => WithinLimit.step h hs) hinit
  exact le_trans hinv.slots hinv.limit

/-- Steps other than polls meet the condition. -/
theorem Loop.lonePoll_of_no_poll {c c' : Loop σ} {t : List Label} (h : Run (Loop.Step E) c t c')
    (ht : ∀ l ∈ Label.pops t, l.1.isPoll = false) :
    Run (Loop.LonePollStep E) c t c' := by
  induction h with
  | nil => exact .nil _
  | @cons c l c₁ t c₂ hs _ ih =>
    have hpops : Label.pops (l :: t) = Label.pops [l] ++ Label.pops t := Label.pops_append [l] t
    rw [hpops] at ht
    refine .cons ⟨hs, ?_⟩ (ih fun m hm => ht m (List.mem_append_right _ hm))
    cases l with
    | feed => trivial
    | pop a o =>
      cases a with
      | pollProcess id => cases ht _ (List.mem_append_left _ List.mem_cons_self)
      | _ => trivial

namespace EffectExecutor

/-- The started job is polled once, and its child has exited. -/
noncomputable def pollOnce : Loop EffectExecutor := startJob.2.feed [.pollProcess 1] []

theorem job_limit_kept_polled :
    (Loop.runPops executor [(.still 1, .exited)] pollOnce).2.world.state.jobs.len +
      (Loop.runPops executor [(.still 1, .exited)] pollOnce).2.queue.countP
        Action.isAdmission ≤ 1 := by
  have hfeed : Loop.LonePollStep executor startJob.2 (.feed [.pollProcess 1] []) pollOnce :=
    ⟨.feed (by decide) (by decide) (by decide), trivial⟩
  have hpop : Loop.pop executor (.still 1) .exited pollOnce =
      some (_, (Loop.runPops executor [(.still 1, .exited)] pollOnce).2) := rfl
  have halone : ∀ o, pollOnce.PollsAlone (.pop (.pollProcess 1) o) := by
    intro o result
    show .finished 1 result ∉ [Action.pollProcess 1]
    simp
  exact job_limit_kept ((Loop.lonePoll_of_no_poll startJob_run (by decide)).append
    (.cons hfeed (.single ⟨.pop (Loop.pop_eq_some hpop), halone _⟩)))

/-- Two jobs fill the limit. -/
noncomputable def twoJobs : List (Action × PopLog) × Loop EffectExecutor :=
  Loop.batch executor [.submit 1 0 .bare (.graceful none), .submit 2 0 .bare (.graceful none)]
    (List.replicate 18 (.still 0, .started 100)) (.init 2 .new)

/-- The first is polled twice in one batch: its child is reaped, then it is gone. -/
noncomputable def polledTwice : List (Action × PopLog) × Loop EffectExecutor :=
  Loop.batch executor [.pollProcess 1, .pollProcess 1]
    ((.still 1, .exited) :: List.replicate 5 (.still 1, .gone)) twoJobs.2

/-- Then two more jobs are submitted. -/
noncomputable def refilled : List (Action × PopLog) × Loop EffectExecutor :=
  Loop.batch executor [.submit 3 0 .bare (.graceful none), .submit 4 0 .bare (.graceful none)]
    (List.replicate 18 (.still 2, .started 100)) polledTwice.2

/-- A job polled twice gives its slot back twice: three jobs run under a limit of two. -/
theorem job_limit_exceeded :
    ∃ t c, Run (Loop.Step executor) (.init 2 .new) t c ∧ (submitted t).Nodup ∧ c.queue = [] ∧
      c.world.state.jobs.len = 3 := by
  have h₁ : Run (Loop.Step executor) (.init 2 .new) _ twoJobs.2 :=
    Loop.batch_run executor _ rfl (by decide)
  have h₂ : Run (Loop.Step executor) twoJobs.2 _ polledTwice.2 :=
    Loop.batch_run executor _ (by decide) (by decide)
  have h₃ : Run (Loop.Step executor) polledTwice.2 _ refilled.2 :=
    Loop.batch_run executor _ (by decide) (by decide)
  exact ⟨_, refilled.2, (h₁.append h₂).append h₃, by decide, by decide, by decide⟩

end EffectExecutor
end CoreShift
