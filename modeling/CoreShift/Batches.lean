import CoreShift.Answering
import CoreShift.Utils.Rounds

/-!
# What a batch of requests does to the jobs

The requests of a batch are popped before anything that follows from them. They find the jobs as
they were before the batch, so that two cancels of one job are both taken up, and a cancel of a
job that the same batch submits is dropped. `Heard` is the state after this first part. What
follows concerns one job at a time: a job that was there is at most asked to stop, a submission
that was let in becomes a job whose process starts or does not, and nothing else happens.
-/

namespace CoreShift

open Utils WorkQueue

variable {σ α : Type} {E : Executor σ α}

/-! ## The requests -/

namespace Action

/-- What becomes of a submission that is let in. -/
def letIn : Action → Action
  | .submit id owner exec policy => .admitted id owner exec policy
  | a => a

/-- The requests that clients can make, and what follows from them: nothing is killed or
finished. -/
def isCalm : Action → Bool
  | .signalProcess _ signal | .control _ signal => signal == .gracefulStop
  | .timeoutReached _ | .killDeadlineReached _ | .pollProcess _ | .finished _ _ => false
  | _ => true

/-- The action is on the way from a submission to the news of its start. -/
def isStarting : Action → Bool
  | .submit .. | .admitted .. | .startProcess .. | .started _ => true
  | _ => false

end Action

theorem World.lates_append (w : World σ) (n : ℕ) (acts acts' : List Action) :
    w.lates n (acts ++ acts') =
      w.lates n acts ++ w.lates (n + acts.countP Action.isSubmit) acts' := by
  induction acts generalizing n with
  | nil => rfl
  | cons a acts ih =>
    rw [List.cons_append, World.lates_cons, World.lates_cons, ih, List.append_assoc,
      List.countP_cons, Nat.add_assoc, Nat.add_comm (a.isSubmit.toNat)]
    cases a.isSubmit <;> rfl

/-- After the requests `done` of a batch, which found the world `w₀`: the jobs are as they were,
and these are the follow-ups. -/
structure Heard (w₀ : World σ) (done follow : List Action) (w : World σ) : Prop where
  jobs : ∀ id, w.state.jobs.get id = w₀.state.jobs.get id
  prompt : ∀ n a, w.prompt n a = w₀.prompt (n + done.countP Action.isSubmit) a
  starting : follow.filter Action.isStarting = (w₀.lates 0 done).map Action.letIn
  calm : ∀ a ∈ follow, a.isCalm = true ∧ a.ask = none
  signals : ∀ id signal, .signalProcess id signal ∈ follow ↔
    .control id signal ∈ done ∧ ProcessModule.signalable w₀.state id = true

theorem Heard.start (w : World σ) : Heard w [] [] w := by
  constructor
  · exact fun _ => rfl
  · exact fun _ _ => rfl
  · rfl
  · exact fun a ha => absurd ha List.not_mem_nil
  · simp

section Request

variable {w w' : World σ} {a : Action} {o : PopLog} {out : List Action}

/-- The follow-ups of a request. -/
theorem World.Reacts.request_follow (h : World.Reacts E w a o out w') (ha : a.ask.isSome = true)
    (hcalm : a.isCalm = true) :
    out.filter Action.isStarting =
        (if a.isSubmit && !w.prompt 0 a then [a] else []).map Action.letIn ∧
      (∀ b ∈ out, b.isCalm = true ∧ b.ask = none) ∧
      ∀ id signal, .signalProcess id signal ∈ out ↔
        .control id signal = a ∧ ProcessModule.signalable w.state id = true := by
  rw [h.out_eq]
  cases a with
  | submit id owner exec policy =>
    show ((w.dispatcher.admission.handle _).2.filter _ = _) ∧ _
    dsimp only [JobView.react, World.env]
    unfold AdmissionControlModule.handle
    by_cases hfull : w.dispatcher.admission.activeJobs ≥ w.dispatcher.admission.maxJobs
    · simp [hfull, World.prompt, Action.isStarting, Action.isCalm, Action.ask]
    · simp [hfull, World.prompt, Action.isStarting, Action.isCalm, Action.ask, Action.isSubmit,
        Action.submitId, Action.letIn]
  | query id =>
    dsimp only [JobView.react]
    unfold JobView.onQuery
    split <;> simp [Action.isStarting, Action.isCalm, Action.ask, Action.isSubmit,
      Action.submitId]
  | control id signal =>
    have hgraceful : signal = .gracefulStop := eq_of_beq hcalm
    dsimp only [JobView.react]
    rw [hgraceful]
    by_cases hs : (w.view id).signalable = true
    · have hs' : ProcessModule.signalable w.state id = true := hs
      simp only [Action.jobId, hs, if_true]
      refine ⟨rfl, by simp [Action.isCalm, Action.ask], ?_⟩
      intro id' signal'
      simp only [List.mem_cons, Action.signalProcess.injEq, Action.control.injEq, reduceCtorEq,
        List.not_mem_nil, or_false]
      constructor
      · rintro ⟨rfl, rfl⟩
        exact ⟨⟨rfl, rfl⟩, hs'⟩
      · exact fun h => h.1
    · have hs' : ¬ ProcessModule.signalable w.state id = true := hs
      simp only [Action.jobId, hs]
      refine ⟨rfl, by simp, ?_⟩
      intro id' signal'
      simp only [Bool.false_eq_true, if_false, List.not_mem_nil, false_iff, not_and,
        Action.control.injEq]
      rintro ⟨rfl, -⟩
      exact hs'
  | _ => cases ha

/-- The step lemma of the requests. -/
theorem Heard.step {w₀ : World σ} {done follow : List Action} (h : Heard w₀ done follow w)
    (hs : World.Reacts E w a o out w') (ha : a.ask.isSome = true) (hcalm : a.isCalm = true) :
    Heard w₀ (done ++ [a]) (follow ++ out) w' := by
  rcases hs.request_follow ha hcalm with ⟨hstarting, hout, hsignals⟩
  have hsignalable : ∀ id, ProcessModule.signalable w.state id =
      ProcessModule.signalable w₀.state id := by
    intro id
    unfold ProcessModule.signalable
    rw [h.jobs]
  constructor
  · intro id
    rw [hs.request_jobs ha, h.jobs]
  · intro n b
    rw [hs.prompt_stable ha, h.prompt, List.countP_append, List.countP_singleton]
    congr 1
    cases a.isSubmit
    · simp
    · simp
      omega
  · rw [List.filter_append, h.starting, hstarting, World.lates_append, List.map_append, h.prompt]
    simp [World.lates]
  · intro b hb
    rcases List.mem_append.mp hb with hb | hb
    · exact h.calm b hb
    · exact hout b hb
  · intro id signal
    rw [List.mem_append, List.mem_append, h.signals, hsignals, hsignalable, List.mem_singleton,
      or_and_right]

end Request

/-! ## The follow-ups, job by job -/

/-- The invariant rule for what is popped of one job; `past` are the actions popped so far. -/
theorem Loop.own_invariant {id : JobId} {Inv : List Action → Config JobView Action → Prop}
    (hstep : ∀ past x a o y, Inv past x → JobStep id x (.pop a o) y → Inv (past ++ [a]) y)
    {c c' : Loop σ} {u : List (Action × PopLog)} (h : Run (Pop (World.Step E)) c u c')
    {past : List Action} (h0 : Inv past (c.own id)) :
    Inv (past ++ u.map Prod.fst) (c'.own id) := by
  induction h generalizing past with
  | nil => rwa [List.map_nil, List.append_nil]
  | cons hpop _ ih =>
    have hown := (Loop.Step.pop hpop).own id
    have hnext := ih (hstep _ _ _ _ _ h0 hown)
    rwa [List.append_assoc] at hnext

/-- What follows from a calm action is calm and no request. -/
theorem JobView.Outcome.calm {id : JobId} {v v' : JobView} {o : PopLog} {a : Action}
    {out : List Action} (h : v.Outcome id o a v' out) (ha : a.isCalm = true) :
    ∀ b ∈ out, b.isCalm = true ∧ b.ask = none := by
  cases h with
  | exited | timedOut | graceOver => cases ha
  | controlled => simpa [Action.isCalm, Action.ask] using ha
  | _ => simp [JobView.interests, Action.isCalm, Action.ask]

/-- A queue of calm follow-ups. -/
def CalmQueue (q : List Action) : Prop := ∀ a ∈ q, a.isCalm = true ∧ a.ask = none

theorem CalmQueue.next {id : JobId} {v v' : JobView} {o : PopLog} {a : Action}
    {rest out : List Action} (h : CalmQueue (a :: rest)) (hout : v.Outcome id o a v' out) :
    CalmQueue (rest ++ out) := by
  intro b hb
  rcases List.mem_append.mp hb with hb | hb
  · exact h b (List.mem_cons_of_mem _ hb)
  · exact hout.calm (h a List.mem_cons_self).1 b hb

/-- Of a job that is not about to start, a calm follow-up changes at most that it was asked to
stop. -/
theorem JobView.Outcome.not_starting {id : JobId} {v v' : JobView} {o : PopLog} {a : Action}
    {out : List Action} (h : v.Outcome id o a v' out) (ha : a.isCalm = true) (hask : a.ask = none)
    (hstart : a.isStarting = false) :
    out = [] ∧ v'.job = if a = .signalProcess id .gracefulStop then
      v.job.map fun job => { job with timedOut := true } else v.job := by
  cases h with
  | stopped hj => simp [hj]
  | signalAbsent hj => simp [hj]
  | killed => cases ha
  | refused | letIn | admitted | started | startedAbsent | startFailed => cases hstart
  | queried | queriedNone | controlled | controlDropped => cases hask
  | exited | running | unpolled | finished | finishedAbsent | timedOut | graceOver
  | timeoutDropped | graceDropped => cases ha
  | quiet hq => cases a <;> first | exact ⟨rfl, rfl⟩ | cases hq

/-- A job that no submission of the batch starts. `job` is its entry before the batch, and
`stopped` says whether the batch stops it. -/
structure Keeping (id : JobId) (job : Option JobState) (stopped : Prop) (past : List Action)
    (c : Config JobView Action) : Prop where
  calm : CalmQueue c.queue
  idle : ∀ a ∈ c.queue, a.isStarting = false
  untold : .started id ∉ past
  kept : (c.world.job = job ∧ (.signalProcess id .gracefulStop ∈ c.queue ↔ stopped)) ∨
    stopped ∧ c.world.job = job.map fun job => { job with timedOut := true }

theorem Keeping.step {id : JobId} {job : Option JobState} {stopped : Prop} {past : List Action}
    {x y : Config JobView Action} {a : Action} {o : PopLog} (h : Keeping id job stopped past x)
    (hs : JobStep id x (.pop a o) y) : Keeping id job stopped (past ++ [a]) y := by
  cases hs with
  | @own v a rest o v₁ out v' hid hout hev =>
    rcases h with ⟨hcalm, hidle, huntold, hkept⟩
    have hhead := hcalm a List.mem_cons_self
    have hstart := hidle a List.mem_cons_self
    rcases hout.not_starting hhead.1 hhead.2 hstart with ⟨rfl, hjob⟩
    rw [← hev.job] at hjob
    rw [List.append_nil]
    constructor
    · exact fun b hb => hcalm b (List.mem_cons_of_mem _ hb)
    · exact fun b hb => hidle b (List.mem_cons_of_mem _ hb)
    · rw [List.mem_append, List.mem_singleton]
      rintro (hmem | rfl)
      · exact huntold hmem
      · cases hstart
    -- a graceful stop sets the flag, and nothing else changes the job
    · by_cases hsignal : a = .signalProcess id .gracefulStop
      · rw [if_pos hsignal] at hjob
        right
        rcases hkept with ⟨hv, hiff⟩ | ⟨hstop, hv⟩
        · exact ⟨hiff.mp (by rw [hsignal]; exact List.mem_cons_self), by rw [hjob, hv]⟩
        · refine ⟨hstop, ?_⟩
          show v'.job = _
          rw [hjob, hv, Option.map_map]
          rfl
      · rw [if_neg hsignal] at hjob
        rcases hkept with ⟨hv, hiff⟩ | ⟨hstop, hv⟩
        · refine Or.inl ⟨hjob.trans hv, ?_⟩
          rw [← hiff, List.mem_cons]
          exact ⟨Or.inr, fun hmem => hmem.resolve_left fun heq => hsignal heq.symm⟩
        · exact Or.inr ⟨hstop, hjob.trans hv⟩
  | other hid hev =>
    rcases h with ⟨hcalm, hidle, huntold, hkept⟩
    refine ⟨hcalm, hidle, ?_, ?_⟩
    · rw [List.mem_append, List.mem_singleton]
      rintro (hmem | rfl)
      · exact huntold hmem
      · exact hid rfl
    · dsimp only at hkept ⊢
      rw [hev.job]
      exact hkept

/-- What is left of a submission that was let in: `told` says whether the news of its start is
out. -/
inductive Stage (id : JobId) (owner : UInt32) (told : Prop) : Option JobState → List Action → Prop
  | waiting {exec policy} : ¬ told → Stage id owner told none [.admitted id owner exec policy]
  | admitted {exec policy} : ¬ told →
      Stage id owner told (some (JobView.freshJob id owner)) [.startProcess id exec policy]
  | started {job q} : told → job.owner = owner → job.timedOut = false → job.process.isSome = true →
      (∀ a ∈ q, a = .started id) → Stage id owner told (some job) q
  | failed : ¬ told → Stage id owner told (some (JobView.freshJob id owner)) []

theorem Stage.congr {id : JobId} {owner : UInt32} {told told' : Prop} {job : Option JobState}
    {q : List Action} (h : Stage id owner told job q) (hiff : told' ↔ told) :
    Stage id owner told' job q := by
  rw [propext hiff]
  exact h

/-- A pop of what is left. -/
theorem Stage.outcome {id : JobId} {owner : UInt32} {told told' : Prop} {v v' : JobView}
    {o : PopLog} {a : Action} {q out : List Action} (h : Stage id owner told v.job (a :: q))
    (hout : v.Outcome id o a v' out) (hstart : a.isStarting = true) (hask : a.ask = none)
    (htold : told' ↔ told ∨ .started id ∈ out) :
    Stage id owner told' v'.job (q ++ out.filter Action.isStarting) := by
  cases hout with
  | refused | letIn => cases hask
  | admitted =>
    generalize v.job = job at h
    cases h with
    | waiting hnot =>
      refine .admitted fun hmem => ?_
      rcases htold.mp hmem with hmem | hmem
      · exact hnot hmem
      · simp at hmem
    | started _ _ _ _ hall => cases hall _ List.mem_cons_self
  | started hj =>
    rw [hj] at h
    cases h with
    | admitted hnot =>
      refine .started (htold.mpr (Or.inr List.mem_cons_self)) rfl rfl rfl ?_
      exact fun b hb => List.mem_singleton.mp hb
    | started _ _ _ _ hall => cases hall _ List.mem_cons_self
  | startedAbsent hj =>
    rw [hj] at h
    cases h
  | startFailed =>
    generalize v.job = job at h ⊢
    cases h with
    | admitted hnot =>
      refine .failed fun hmem => ?_
      rcases htold.mp hmem with hmem | hmem
      · exact hnot hmem
      · simp at hmem
    | started _ _ _ _ hall => cases hall _ List.mem_cons_self
  | quiet hq =>
    generalize v.job = job at h ⊢
    cases h with
    | waiting | admitted => cases hq
    | started ht hw hto hp hall =>
      refine .started (htold.mpr (Or.inl ht)) hw hto hp ?_
      intro b hb
      rw [List.filter_nil, List.append_nil] at hb
      exact hall b (List.mem_cons_of_mem _ hb)
  | _ => cases hstart

/-- A follow-up of a follow-up signals nothing. -/
theorem JobView.Outcome.no_signal {id : JobId} {v v' : JobView} {o : PopLog} {a : Action}
    {out : List Action} (h : v.Outcome id o a v' out) (ha : a.isCalm = true) (hask : a.ask = none) :
    ∀ b ∈ out, b.isSignal = false := by
  cases h with
  | controlled => cases hask
  | timedOut | graceOver => cases ha
  | _ => simp [JobView.interests, Action.isSignal]

/-- A submission of the batch that was let in, and what is left of it. -/
structure Launching (id : JobId) (owner : UInt32) (past : List Action)
    (c : Config JobView Action) : Prop where
  calm : CalmQueue c.queue
  unsignalled : ∀ a ∈ c.queue, a.isSignal = false
  stage : Stage id owner (.started id ∈ past ++ c.queue) c.world.job
    (c.queue.filter Action.isStarting)

theorem Launching.step {id : JobId} {owner : UInt32} {past : List Action}
    {x y : Config JobView Action} {a : Action} {o : PopLog} (h : Launching id owner past x)
    (hs : JobStep id x (.pop a o) y) : Launching id owner (past ++ [a]) y := by
  cases hs with
  | @own v a rest o v₁ out v' hid hout hev =>
    rcases h with ⟨hcalm, hquiet, hstage⟩
    have hhead := hcalm a List.mem_cons_self
    have hnosignal : ∀ b ∈ rest ++ out, b.isSignal = false := by
      intro b hb
      rcases List.mem_append.mp hb with hb | hb
      · exact hquiet b (List.mem_cons_of_mem _ hb)
      · exact hout.no_signal hhead.1 hhead.2 b hb
    refine ⟨hcalm.next hout, hnosignal, ?_⟩
    have htold : .started id ∈ (past ++ [a]) ++ (rest ++ out) ↔
        .started id ∈ past ++ (a :: rest) ∨ .started id ∈ out := by
      simp only [List.mem_append, List.mem_cons, List.not_mem_nil, or_false, or_assoc]
    dsimp only at hstage ⊢
    rw [hev.job, List.filter_append]
    by_cases hstart : a.isStarting = true
    · rw [List.filter_cons_of_pos hstart] at hstage
      exact hstage.outcome hout hstart hhead.2 htold
    · rw [Bool.not_eq_true] at hstart
      rcases hout.not_starting hhead.1 hhead.2 hstart with ⟨rfl, hjob⟩
      -- no request of the batch can signal a job that it starts
      have hne : a ≠ .signalProcess id .gracefulStop := by
        rintro rfl
        cases hquiet _ List.mem_cons_self
      rw [if_neg hne] at hjob
      rw [List.filter_cons_of_neg (by rw [hstart]; exact Bool.false_ne_true)] at hstage
      simp only [List.append_nil, List.not_mem_nil, or_false] at htold
      simp only [List.append_nil, List.filter_nil]
      rw [hjob]
      exact hstage.congr htold
  | other hid hev =>
    rcases h with ⟨hcalm, hquiet, hstage⟩
    refine ⟨hcalm, hquiet, ?_⟩
    dsimp only at hstage ⊢
    rw [hev.job]
    refine hstage.congr ?_
    have hne : Action.started id ≠ a := by
      rintro rfl
      exact hid rfl
    simp [hne]

/-! ## The batch -/

/-- The requests of a batch, as they are fed: no request kills a job. -/
def Batch (acts : List Action) : Prop := ∀ a ∈ acts, a.ask.isSome = true ∧ a.isCalm = true

/-- What a batch does to the jobs, once the queue is empty again: a job that was there is asked
to stop if a cancel names it and it can be signalled, every submission that is let in becomes a
job whose process is there if and only if the client was told so, and no other job appears. -/
structure Settles (w : World σ) (acts : List Action) (u : List (Action × PopLog)) (w' : World σ) :
    Prop where
  kept : ∀ id, id ∉ (w.lates 0 acts).map Action.jobId →
    w'.state.jobs.get id = (w.state.jobs.get id).map fun job =>
      if .control id .gracefulStop ∈ acts ∧ ProcessModule.signalable w.state id = true then
        { job with timedOut := true } else job
  untold : ∀ id, id ∉ (w.lates 0 acts).map Action.jobId → .started id ∉ u.map Prod.fst
  launched : ∀ id owner exec policy, .submit id owner exec policy ∈ w.lates 0 acts →
    ∃ job, w'.state.jobs.get id = some job ∧ job.owner = owner ∧ job.timedOut = false ∧
      (job.process.isSome = true ↔ .started id ∈ u.map Prod.fst)

theorem Action.jobId_letIn (a : Action) : a.letIn.jobId = a.jobId := by
  cases a <;> rfl

/-- The requests are popped; the rest of the queue is what follows from them. -/
structure Answerable (w₀ : World σ) (acts : List Action) (c : Loop σ) : Prop where
  batch : Batch acts
  calm : CalmQueue c.queue
  starting : c.queue.filter Action.isStarting = (w₀.lates 0 acts).map Action.letIn
  jobs : ∀ id, c.world.state.jobs.get id = w₀.state.jobs.get id
  signals : ∀ id, .signalProcess id .gracefulStop ∈ c.queue ↔
    .control id .gracefulStop ∈ acts ∧ ProcessModule.signalable w₀.state id = true

theorem Heard.answerable {w₀ : World σ} {acts ready follow : List Action} {c : Loop σ}
    (h : Heard w₀ acts follow c.world) (hacts : Batch acts) (hq : c.queue = ready ++ follow)
    (hready : ∀ a ∈ ready, ∃ id, a = .performIo id) : Answerable w₀ acts c := by
  constructor
  · exact hacts
  · intro a ha
    rw [hq] at ha
    rcases List.mem_append.mp ha with ha | ha
    · rcases hready a ha with ⟨id, rfl⟩
      exact ⟨rfl, rfl⟩
    · exact h.calm a ha
  · have hnone : ready.filter Action.isStarting = [] := by
      rw [List.filter_eq_nil_iff]
      intro a ha
      rcases hready a ha with ⟨id, rfl⟩
      exact Bool.false_ne_true
    rw [hq, List.filter_append, hnone, List.nil_append, h.starting]
  · exact h.jobs
  · intro id
    rw [← h.signals, hq, List.mem_append, or_iff_right]
    intro hmem
    rcases hready _ hmem with ⟨j, hj⟩
    cases hj

namespace Answerable

variable {w₀ : World σ} {acts : List Action} {c : Loop σ} {id : JobId}

theorem own_calm (h : Answerable w₀ acts c) (id : JobId) : CalmQueue (c.own id).queue :=
  fun a ha => h.calm a (List.mem_filter.mp ha).1

theorem own_starting (h : Answerable w₀ acts c) (id : JobId) :
    (c.own id).queue.filter Action.isStarting =
      ownPart Action.jobId id ((w₀.lates 0 acts).map Action.letIn) := by
  show (c.queue.filter _).filter _ = _
  rw [List.filter_comm, h.starting]
  rfl

theorem untold (h : Answerable w₀ acts c) (id : JobId) : .started id ∉ acts := by
  intro hmem
  cases (h.batch _ hmem).1

theorem own_signal (h : Answerable w₀ acts c) (id : JobId) :
    .signalProcess id .gracefulStop ∈ (c.own id).queue ↔
      .control id .gracefulStop ∈ acts ∧ ProcessModule.signalable w₀.state id = true := by
  rw [← h.signals]
  show _ ∈ ownPart _ _ _ ↔ _
  unfold ownPart
  rw [List.mem_filter, and_iff_left]
  exact decide_eq_true rfl

theorem keeping (h : Answerable w₀ acts c) (hid : id ∉ (w₀.lates 0 acts).map Action.jobId) :
    Keeping id (w₀.state.jobs.get id)
      (.control id .gracefulStop ∈ acts ∧ ProcessModule.signalable w₀.state id = true) acts
      (c.own id) := by
  refine ⟨h.own_calm id, ?_, h.untold id, Or.inl ⟨h.jobs id, h.own_signal id⟩⟩
  have hnone : (c.own id).queue.filter Action.isStarting = [] := by
    rw [h.own_starting, ownPart_other]
    intro a ha
    rcases List.mem_map.mp ha with ⟨b, hb, rfl⟩
    rw [Action.jobId_letIn]
    exact fun heq => hid (heq ▸ List.mem_map_of_mem hb)
  exact fun a ha => Bool.eq_false_iff.mpr (List.filter_eq_nil_iff.mp hnone a ha)

theorem launching (h : Answerable w₀ acts c) (hids : ((w₀.lates 0 acts).map Action.jobId).Nodup)
    {owner : UInt32} {exec : ExecSpec} {policy : ExecPolicy}
    (hmem : .submit id owner exec policy ∈ w₀.lates 0 acts)
    (hfree : w₀.state.jobs.get id = none) : Launching id owner acts (c.own id) := by
  have hone : (c.own id).queue.filter Action.isStarting = [.admitted id owner exec policy] := by
    have hkeys : (((w₀.lates 0 acts).map Action.letIn).map Action.jobId).Nodup := by
      rw [List.map_map]
      convert hids using 2
      exact funext Action.jobId_letIn
    rw [h.own_starting]
    exact ownPart_of_nodup hkeys (List.mem_map_of_mem (f := Action.letIn) hmem)
  have huntold : .started id ∉ (c.own id).queue := by
    intro ha
    have hin : .started id ∈ (c.own id).queue.filter Action.isStarting :=
      List.mem_filter.mpr ⟨ha, rfl⟩
    rw [hone, List.mem_singleton] at hin
    cases hin
  refine ⟨h.own_calm id, ?_, ?_⟩
  · -- a job that is not there cannot be signalled
    intro a ha
    cases a with
    | signalProcess j signal =>
      have hj : j = id := of_decide_eq_true (List.mem_filter.mp ha).2
      have hgraceful : signal = .gracefulStop := eq_of_beq (h.own_calm id _ ha).1
      rw [hj, hgraceful] at ha
      have hs := ((h.own_signal id).mp ha).2
      unfold ProcessModule.signalable at hs
      rw [hfree] at hs
      cases hs
    | _ => rfl
  · rw [hone]
    show Stage id owner _ (c.world.state.jobs.get id) _
    rw [h.jobs, hfree]
    refine .waiting ?_
    rw [List.mem_append]
    rintro (hin | hin)
    · exact h.untold id hin
    · exact huntold hin

end Answerable

/-- A batch of requests, popped until the queue is empty, settles: the requests are answered in the
first layer of the queue, and what they leave is followed job by job. -/
theorem batch_settles {c c' : Loop σ} {u : List (Action × PopLog)} {acts ready : List Action}
    (h : Run (Pop (World.Step E)) c u c') (hq : c.queue = acts ++ ready) (hacts : Batch acts)
    (hready : ∀ a ∈ ready, ∃ id, a = .performIo id) (hend : c'.queue = [])
    (hids : ((c.world.lates 0 acts).map Action.jobId).Nodup)
    (hfree : ∀ a ∈ c.world.lates 0 acts, c.world.state.jobs.get a.jobId = none) :
    Settles c.world acts u c'.world := by
  have hstep : ∀ a ∈ acts, ∀ done follow w o out w', Heard c.world done follow w →
      World.Step E w a o out w' → Heard c.world (done ++ [a]) (follow ++ out) w' :=
    fun a ha _ _ _ _ _ _ hheard hs => hheard.step hs.reacts (hacts a ha).1 (hacts a ha).2
  -- the requests come first
  rcases layer hstep h hq hend (.start _) with
    ⟨u₁, u₂, c₁, follow, rfl, hfst, hq₁, hheard, hlast⟩
  have hmid := Heard.answerable (c := c₁) hheard hacts hq₁ hready
  have hactions : (u₁ ++ u₂).map Prod.fst = acts ++ u₂.map Prod.fst := by
    rw [List.map_append, hfst]
  have hkept : ∀ id, id ∉ (c.world.lates 0 acts).map Action.jobId →
      Keeping id (c.world.state.jobs.get id) _ (acts ++ u₂.map Prod.fst) (Loop.own c' id) :=
    fun id hid => Loop.own_invariant (fun _ _ _ _ _ hinv hs => hinv.step hs) hlast
      (hmid.keeping hid)
  have hnone : ∀ id, (Loop.own c' id).queue = [] := by
    intro id
    show ownPart _ _ c'.queue = []
    rw [hend]
    rfl
  constructor
  · intro id hid
    have hjob : c'.world.state.jobs.get id = (Loop.own c' id).world.job := rfl
    rw [hjob]
    rcases (hkept id hid).kept with ⟨hsame, hiff⟩ | ⟨hstop, hstopped⟩
    · rw [hnone] at hiff
      have hnot := fun hstop => List.not_mem_nil (hiff.mpr hstop)
      simp only [hsame, if_neg hnot, Option.map_id']
    · rw [hstopped]
      simp only [if_pos hstop]
  · intro id hid
    rw [hactions]
    exact (hkept id hid).untold
  · intro id owner exec policy hmem
    have hlaunch := Loop.own_invariant (fun _ _ _ _ _ hinv hs => Launching.step hinv hs) hlast
      (hmid.launching hids hmem (hfree _ hmem))
    have hstage := hlaunch.stage
    rw [hnone, List.append_nil, List.filter_nil, ← hactions] at hstage
    have hjob : (Loop.own c' id).world.job = c'.world.state.jobs.get id := rfl
    rw [hjob] at hstage
    generalize c'.world.state.jobs.get id = job at hstage ⊢
    cases hstage with
    | started htold howner hto hp => exact ⟨_, rfl, howner, hto, fun _ => htold, fun _ => hp⟩
    | failed hnot => exact ⟨_, rfl, rfl, rfl, iff_of_false Bool.false_ne_true hnot⟩

end CoreShift
