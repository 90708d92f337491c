import CoreShift.Launch
import CoreShift.Runtime

/-!
# From the timeout to SIGKILL

`TimeoutReached` queues a `SignalProcess` with `GracefulStop`, `KillDeadlineReached` one with
`ForceKill`; both only while `timed_out` is false, and the flag is set when the first of the
two signals is popped. So the second step of the escalation is taken exactly as long as the
first one has not been.
-/

namespace CoreShift

open Utils WorkQueue

variable {σ α : Type} {E : Executor σ α}

/-! ## Order of the pops -/

/-- What a run pops, followed by what it leaves queued, starts with the queue as it was. -/
theorem Loop.popped_order {c c' : Loop σ} {t : List Label} (h : Run (Loop.Step E) c t c') :
    ∃ later, (Label.pops t).map Prod.fst ++ c'.queue = c.queue ++ later := by
  induction h with
  | nil c => exact ⟨[], by simp [Label.pops]⟩
  | @cons c l c₁ t c₂ hstep _ ih =>
    rcases ih with ⟨later, ih⟩
    cases hstep with
    | @pop a o _ hpop =>
      rcases pop_iff.mp hpop with ⟨rest, out, hq, hq', -⟩
      refine ⟨out ++ later, ?_⟩
      have hpops : Label.pops (.pop a o :: t) = (a, o) :: Label.pops t := rfl
      rw [hpops, List.map_cons, List.cons_append, ih, hq', hq, List.cons_append,
        List.append_assoc]
    | @feed acts events hq =>
      refine ⟨(c.feed acts events).queue ++ later, ?_⟩
      rw [hq]
      exact ih

/-- The pops of a run at which two actions leave the queue, in the order of the queue. -/
theorem Loop.popped_pair {c c' : Loop σ} {t : List Label} {q₁ q₂ q₃ : List Action} {a b : Action}
    (h : Run (Loop.Step E) c t c') (hq : c.queue = q₁ ++ a :: q₂ ++ b :: q₃)
    (hdone : c'.queue = []) :
    ∃ u₁ u₂ u₃ oa ob, Label.pops t = u₁ ++ (a, oa) :: u₂ ++ (b, ob) :: u₃ := by
  rcases Loop.popped_order h with ⟨later, horder⟩
  rw [hdone, List.append_nil, hq, List.append_assoc, List.cons_append,
    List.map_eq_append_iff] at horder
  rcases horder with ⟨front, back, hpops, hfront, hback⟩
  rcases List.map_eq_append_iff.mp hfront with ⟨u₁, w, rfl, -, hw⟩
  rcases List.map_eq_cons_iff.mp hw with ⟨la, u₂, rfl, rfl, -⟩
  rcases List.map_eq_cons_iff.mp hback with ⟨lb, u₃, rfl, rfl, -⟩
  exact ⟨u₁, u₂, u₃, la.2, lb.2, hpops⟩

/-! ## A job after its start -/

/-- No launch of the job is queued, and if it is still there, its process is `p`. -/
structure Settled (p : ProcessHandle) (c : Config JobView Action) : Prop where
  waiting : c.queue.countP Action.isWaiting = 0
  starting : c.queue.countP Action.isStart = 0
  process : ∀ job, c.world.job = some job → job.process = some p

/-- A stop was noted, if the job is still there. -/
def Asked (c : Config JobView Action) : Prop :=
  ∀ job, c.world.job = some job → job.timedOut = true

variable {p : ProcessHandle} {id : JobId} {c c' : Config JobView Action} {l : Label}

/-- The job, if it is there after an outcome without launch, was there before, with the same
process, and a stop that was noted stays noted. -/
theorem JobView.Outcome.job_after {v v' : JobView} {o : PopLog} {a : Action} {out : List Action}
    (h : v.Outcome id o a v' out) (hw : a.isWaiting = false) (hs : a.isStart = false) :
    ∀ job', v'.job = some job' → ∃ job, v.job = some job ∧ job'.process = job.process ∧
      (job.timedOut = true → job'.timedOut = true) := by
  intro job' hj'
  cases h with
  | refused | letIn | admitted => cases hw
  | started | startedAbsent | startFailed => cases hs
  | @stopped job hj =>
    cases hj'
    exact ⟨job, hj, rfl, fun _ => rfl⟩
  | finished => cases hj'
  | _ => exact ⟨job', hj', rfl, fun h => h⟩

/-- An outcome without launch queues no launch. -/
theorem JobView.Outcome.no_launch {v v' : JobView} {o : PopLog} {a : Action} {out : List Action}
    (h : v.Outcome id o a v' out) (hw : a.isWaiting = false) (hs : a.isStart = false) :
    out.countP Action.isWaiting = 0 ∧ out.countP Action.isStart = 0 := by
  cases h with
  | refused | letIn | admitted => cases hw
  | started | startedAbsent | startFailed => cases hs
  | _ => exact ⟨rfl, rfl⟩

namespace Settled

theorem head {v : JobView} {a : Action} {rest : List Action} (h : Settled p ⟨v, a :: rest⟩) :
    a.isWaiting = false ∧ a.isStart = false ∧ rest.countP Action.isWaiting = 0 ∧
      rest.countP Action.isStart = 0 := by
  rcases h with ⟨hw, hs, -⟩
  dsimp only at hw hs
  rw [List.countP_cons] at hw hs
  refine ⟨?_, ?_, by omega, by omega⟩
  · by_contra ha
    rw [Bool.not_eq_false] at ha
    rw [ha, if_pos rfl] at hw
    omega
  · by_contra ha
    rw [Bool.not_eq_false] at ha
    rw [ha, if_pos rfl] at hs
    omega

/-- A settled job stays settled, and a noted stop stays noted. -/
theorem step (h : Settled p c) (hstep : JobStep id c l c')
    (hl : (submitted [l]).count id = 0) : Settled p c' ∧ (Asked c → Asked c') := by
  cases hstep with
  | @own v a rest o v₁ out v' hid hout hev =>
    rcases h.head with ⟨hw, hs, hrw, hrs⟩
    have hjob := hout.job_after hw hs
    have hno := hout.no_launch hw hs
    constructor
    · constructor
      · rw [List.countP_append, hrw, hno.1]
      · rw [List.countP_append, hrs, hno.2]
      · intro job' hj'
        rw [hev.job] at hj'
        rcases hjob job' hj' with ⟨job, hj, hp, -⟩
        rw [hp]
        exact h.process job hj
    · intro hask job' hj'
      rw [hev.job] at hj'
      rcases hjob job' hj' with ⟨job, hj, -, ht⟩
      exact ht (hask job hj)
  | other _ hev =>
    constructor
    · exact ⟨h.waiting, h.starting, fun job hj => h.process job (hev.job ▸ hj)⟩
    · exact fun hask job hj => hask job (hev.job ▸ hj)
  | @feed v acts events ready hacts hready =>
    rcases input_counts id hacts with ⟨hw, hs, -⟩
    constructor
    · constructor
      · rw [List.countP_append, ready_count hready rfl, hw, ← submitted_feed, hl]
      · rw [List.countP_append, ready_count hready rfl, hs]
      · exact h.process
    · exact fun hask => hask

end Settled

/-- A job that is there and has a process is settled. -/
theorem Launch.settled {fed starts : ℕ} (h : Launch fed starts c) {job : JobState}
    (hjob : c.world.job = some job) (hp : job.process = some p) : Settled p c := by
  constructor
  · exact h.waiting (by rw [hjob]; rfl)
  · exact h.starting job hjob (by rw [hp]; rfl)
  · intro job' hj'
    rw [hjob, Option.some.injEq] at hj'
    rw [← hj', hp]

/-! ## The first signal -/

/-- A graceful stop is queued for the job, or was noted. -/
def Stopping (id : JobId) (c : Config JobView Action) : Prop :=
  .signalProcess id .gracefulStop ∈ c.queue ∨ Asked c

/-- A queued stop stays queued until it is noted. -/
theorem Stopping.step (h : Stopping id c) (hsettled : Settled p c) (hstep : JobStep id c l c')
    (hl : (submitted [l]).count id = 0) : Stopping id c' := by
  rcases h with hmem | hask
  · cases hstep with
    | @own v a rest o v₁ out v' hid hout hev =>
      rcases List.mem_cons.mp hmem with heq | hrest
      · -- the signal itself is popped: the flag is set, or there is no job to set it for
        subst heq
        right
        intro job' hj'
        rw [hev.job] at hj'
        cases hout with
        | stopped => cases hj'; rfl
        | signalAbsent hj => rw [hj] at hj'; cases hj'
        | quiet hq => cases hq
      · exact Or.inl (List.mem_append_left _ hrest)
    | other => exact Or.inl hmem
    | feed => cases hmem
  · exact Or.inr ((hsettled.step hstep hl).2 hask)

/-- `TimeoutReached` queues the stop of a job that can be signalled. -/
theorem JobStep.timeoutReached {o : PopLog}
    (h : JobStep id c (.pop (.timeoutReached id) o) c') (hs : c.world.signalable = true) :
    Stopping id c' := by
  cases h with
  | @own v a rest o v₁ out v' hid hout hev =>
    cases hout with
    | timedOut => exact Or.inl (List.mem_append_right _ List.mem_cons_self)
    | timeoutDropped hs' => rw [hs] at hs'; cases hs'
    | quiet hq => cases hq
  | other hid => exact absurd rfl hid

/-- A signal popped for a job that is there is resolved to the job's process. -/
theorem JobStep.signal_effects {signal : ControlSignal} {o : PopLog} {job : JobState}
    (h : JobStep id c (.pop (.signalProcess id signal) o) c') (hjob : c.world.job = some job) :
    o.effects = JobView.killEffects id signal job := by
  cases h with
  | own _ hout =>
    dsimp only at hjob
    cases hout with
    | stopped hj heffs | killed hj heffs =>
      rw [hjob, Option.some.injEq] at hj
      rw [heffs, hj]
    | signalAbsent hj => rw [hjob] at hj; cases hj
    | quiet hq => cases hq
  | other hid => exact absurd rfl hid

/-! ## The escalation -/

/-- A signal for the job finds it in `state.jobs`. -/
def Loop.SignalFinds (id : JobId) (c : Loop σ) : Label → Prop
  | .pop (.signalProcess j _) _ => j = id → (c.world.state.jobs.get id).isSome = true
  | _ => True

/-- A step of the loop whose signals find the job. -/
def Loop.FindingStep (E : Executor σ α) (id : JobId) (c : Loop σ) (l : Label) (c' : Loop σ) :
    Prop := Loop.Step E c l c' ∧ c.SignalFinds id l

variable {c c' : Loop σ} {t : List Label}

/-- A settled job stays settled along a run that does not submit it, a noted stop stays
noted, and a queued one does not get lost. -/
theorem Settled.run (h : Run (Loop.Step E) c t c') (hsettled : Settled p (c.own id))
    (ht : (submitted t).count id = 0) :
    Settled p (c'.own id) ∧ (Asked (c.own id) → Asked (c'.own id)) ∧
      (Stopping id (c.own id) → Stopping id (c'.own id)) := by
  induction h with
  | nil => exact ⟨hsettled, fun h => h, fun h => h⟩
  | @cons c l c₁ t c₂ hs _ ih =>
    have hsplit : submitted (l :: t) = submitted [l] ++ submitted t := submitted_append [l] t
    rw [hsplit, List.count_append] at ht
    have hstep := hsettled.step (hs.own id) (by omega)
    have hrest := ih hstep.1 (by omega)
    exact ⟨hrest.1, fun ha => hrest.2.1 (hstep.2 ha),
      fun hstop => hrest.2.2 (hstop.step hsettled (hs.own id) (by omega))⟩

/-- Every signal popped for a settled job that is there is resolved to its process. -/
theorem Settled.signal_effects (h : Run (Loop.FindingStep E id) c t c')
    (hsettled : Settled p (c.own id)) (ht : (submitted t).count id = 0) {signal : ControlSignal}
    {o : PopLog} (ho : (.signalProcess id signal, o) ∈ Label.pops t) :
    ∃ isGroup, o.effects = [.killProcess id signal p isGroup] := by
  induction h with
  | nil => cases ho
  | @cons c l c₁ t c₂ hs _ ih =>
    have hsplit : submitted (l :: t) = submitted [l] ++ submitted t := submitted_append [l] t
    rw [hsplit, List.count_append] at ht
    have hpops : Label.pops (l :: t) = Label.pops [l] ++ Label.pops t := Label.pops_append [l] t
    rw [hpops, List.mem_append] at ho
    rcases ho with ho | ho
    · cases l with
      | feed => cases ho
      | pop a o' =>
        rw [Label.pops_pop, List.mem_singleton] at ho
        cases ho
        -- the signal is popped now
        rcases Option.isSome_iff_exists.mp (hs.2 rfl) with ⟨job, hjob⟩
        have hview : (c.own id).world.job = some job := hjob
        refine ⟨job.pgroup.isSome || job.isolated, ?_⟩
        rw [(hs.1.own id).signal_effects hview]
        simp only [JobView.killEffects, hsettled.process job hview]
    · exact ih (hsettled.step (hs.1.own id) (by omega)).1 (by omega) ho

/-- A kill deadline that finds a job it can signal queues the second signal. -/
theorem Loop.killDeadline_queue {o : PopLog}
    (h : Loop.Step E c (.pop (.killDeadlineReached id) o) c')
    (hs : (c.world.view id).signalable = true) :
    ∃ rest, c.queue = .killDeadlineReached id :: rest ∧
      c'.queue = rest ++ [.signalProcess id .forceKill] := by
  cases h with
  | pop hpop =>
    rcases pop_iff.mp hpop with ⟨rest, out, hq, hq', hstep⟩
    refine ⟨rest, hq, ?_⟩
    have hout := hstep.reacts.out_eq
    unfold JobView.react at hout
    dsimp only at hout
    rw [hq', hout]
    exact congrArg _ (if_pos hs)

/-- If no stop of the job was noted when the kill deadline is handled, and the job is still
there when its signals are, then the escalation reaches the process of the job: a
`KillProcess` with `GracefulStop` and later one with `ForceKill` are applied. -/
theorem escalation_reaches_kill {maxJobs : ℕ} {x : σ} {t₁ t₂ t₃ : List Label}
    {c₁ d₁ c₂ d₂ c₃ : Loop σ} {id : JobId} {o₁ o₂ : PopLog} {job job₂ : JobState}
    {p : ProcessHandle} (hids : (submitted (t₁ ++ t₂ ++ t₃)).Nodup)
    (hrun₁ : Run (Loop.Step E) (.init maxJobs x) t₁ c₁)
    (htimeout : Loop.Step E c₁ (.pop (.timeoutReached id) o₁) d₁)
    (hrun₂ : Run (Loop.Step E) d₁ t₂ c₂)
    (hkill : Loop.Step E c₂ (.pop (.killDeadlineReached id) o₂) d₂)
    (hrun₃ : Run (Loop.FindingStep E id) d₂ t₃ c₃) (hdone : c₃.queue = [])
    (hjob : c₁.world.state.jobs.get id = some job) (hp : job.process = some p)
    (hjob₂ : c₂.world.state.jobs.get id = some job₂) (hflag : job₂.timedOut = false) :
    ∃ u₁ u₂ u₃ oG oF g g',
      Label.pops t₃ = u₁ ++ (.signalProcess id .gracefulStop, oG) :: u₂ ++
        (.signalProcess id .forceKill, oF) :: u₃ ∧
      oG.effects = [.killProcess id .gracefulStop p g] ∧
      oF.effects = [.killProcess id .forceKill p g'] := by
  have hview₁ : (c₁.own id).world.job = some job := hjob
  -- the job was submitted in `t₁`, so it is not submitted again
  have hcount := List.nodup_iff_count_le_one.mp hids id
  rw [submitted_append, submitted_append, List.count_append, List.count_append] at hcount
  have hlaunch := Launch.run (Loop.run_own hrun₁ id) rfl rfl (by omega)
  have hborn := hlaunch.born (by rw [hview₁]; rfl)
  have hsettled₁ := hlaunch.settled hview₁ hp
  have hzero : ∀ a o, (submitted [.pop a o]).count id = 0 := fun _ _ => rfl
  have hd₁ := hsettled₁.step (htimeout.own id) (hzero _ _)
  have hc₂ := hd₁.1.run hrun₂ (by omega)
  have hd₂ := hc₂.1.step (hkill.own id) (hzero _ _)
  have hview₂ : (c₂.own id).world.job = some job₂ := hjob₂
  have hnot : ¬ Asked (c₂.own id) := by
    intro hask
    rw [hask job₂ hview₂] at hflag
    cases hflag
  -- so none was noted at the timeout either, which queued one
  have hflag₁ : job.timedOut = false := by
    by_contra hset
    rw [Bool.not_eq_false] at hset
    apply hnot (hc₂.2.1 (hd₁.2 _))
    intro job' hj'
    rw [hview₁, Option.some.injEq] at hj'
    rwa [← hj']
  have hstop := hc₂.2.2 ((htimeout.own id).timeoutReached (JobView.signalable_iff.mpr
    ⟨job, hview₁, by rw [hp]; rfl, hflag₁⟩))
  have hmem : .signalProcess id .gracefulStop ∈ c₂.queue := by
    rcases hstop with hmem | hask
    · exact (List.mem_filter.mp hmem).1
    · exact absurd hask hnot
  -- the kill deadline queues the second signal behind it
  have hs₂ : (c₂.world.view id).signalable = true := JobView.signalable_iff.mpr
    ⟨job₂, hjob₂, by rw [hc₂.1.process job₂ hview₂]; rfl, hflag⟩
  rcases Loop.killDeadline_queue hkill hs₂ with ⟨rest, hq₂, hqd₂⟩
  rw [hq₂] at hmem
  rcases List.mem_cons.mp hmem with heq | hmem
  · cases heq
  · rcases List.append_of_mem hmem with ⟨q₁, q₂, rfl⟩
    rw [List.append_assoc, List.cons_append] at hqd₂
    have hpair : d₂.queue = q₁ ++ .signalProcess id .gracefulStop :: q₂ ++
        .signalProcess id .forceKill :: [] := by
      rw [hqd₂, List.append_assoc, List.cons_append]
    have hrun := hrun₃.mono fun _ _ _ hs => hs.1
    rcases Loop.popped_pair hrun hpair hdone with ⟨u₁, u₂, u₃, oG, oF, hpops⟩
    have hmemG : (.signalProcess id .gracefulStop, oG) ∈ Label.pops t₃ := by rw [hpops]; simp
    have hmemF : (.signalProcess id .forceKill, oF) ∈ Label.pops t₃ := by rw [hpops]; simp
    rcases hd₂.1.signal_effects hrun₃ (by omega) hmemG with ⟨g, hG⟩
    rcases hd₂.1.signal_effects hrun₃ (by omega) hmemF with ⟨g', hF⟩
    exact ⟨u₁, u₂, u₃, oG, oF, g, g', hpops, hG, hF⟩

/-- Once a stop was noted, the kill deadline queues nothing and resolves nothing. -/
theorem Loop.killDeadline_ignored {o : PopLog} {job : JobState}
    (h : Loop.Step E c (.pop (.killDeadlineReached id) o) c')
    (hjob : c.world.state.jobs.get id = some job) (hflag : job.timedOut = true) :
    o.effects = [] ∧ c.queue = .killDeadlineReached id :: c'.queue := by
  have hs : (c.world.view id).signalable = false := by
    unfold JobView.signalable World.view
    simp only [hjob, hflag, Bool.not_true, Bool.and_false]
  cases h with
  | pop hpop =>
    rcases pop_iff.mp hpop with ⟨rest, out, hq, hq', hstep⟩
    have hout := hstep.reacts.out_eq
    have heffs := hstep.reacts.effects_eq
    unfold JobView.react at hout heffs
    dsimp only at hout heffs
    rw [if_neg (by rw [Action.jobId, hs]; exact Bool.false_ne_true)] at hout
    exact ⟨heffs, by rw [hq, hq', hout, List.append_nil]⟩

/-! ## Two runs -/

/-- An effect that kills the job's process with `ForceKill`. -/
def Effect.forceKills (id : JobId) : Effect → Bool
  | .killProcess j .forceKill _ _ => j == id
  | _ => false

namespace EffectExecutor

/-- Both timer actions are queued for a started job. -/
noncomputable def timersTogether : Loop EffectExecutor :=
  startJob.2.feed [.timeoutReached 1, .killDeadlineReached 1] []

/-- Both timer actions in one batch: the second is handled before the first signal is. -/
theorem escalation_reaches_kill_together :
    ∃ u₁ u₂ u₃ oG oF g g',
      Label.pops (Loop.popLabels (popAll 2 (popAll 2 timersTogether).2).1) =
        u₁ ++ (.signalProcess 1 .gracefulStop, oG) :: u₂ ++
          (.signalProcess 1 .forceKill, oF) :: u₃ ∧
      oG.effects = [.killProcess 1 .gracefulStop ⟨1⟩ g] ∧
      oF.effects = [.killProcess 1 .forceKill ⟨1⟩ g'] := by
  have hfind : Run (Loop.FindingStep executor 1) (popAll 2 timersTogether).2
      (Loop.popLabels (popAll 2 (popAll 2 timersTogether).2).1)
      (popAll 2 (popAll 2 timersTogether).2).2 :=
    .cons ⟨pop_step _ _ rfl, fun _ => by decide⟩
      (.cons ⟨pop_step _ _ rfl, fun _ => by decide⟩ (.nil _))
  have hrun : Run (Loop.Step executor) (popAll 1 timersTogether).2 []
      (popAll 1 timersTogether).2 := .nil _
  have hjob : timersTogether.world.state.jobs.get 1 =
      some ⟨1, 0, some ⟨1⟩, some ⟨2⟩, false, none, false⟩ := by decide
  have hjob₂ : (popAll 1 timersTogether).2.world.state.jobs.get 1 =
      some ⟨1, 0, some ⟨1⟩, some ⟨2⟩, false, none, false⟩ := by decide
  exact escalation_reaches_kill (by decide)
    (startJob_run.append (.single (.feed (by decide) (by decide) (by decide))))
    (pop_step timersTogether (popAll 1 timersTogether).2 rfl) hrun
    (pop_step (popAll 1 timersTogether).2 (popAll 2 timersTogether).2 rfl) hfind (by decide)
    hjob rfl hjob₂ rfl

/-- The timeout of a started job is handled, and so is the stop it queues. -/
noncomputable def timerFirst : Loop EffectExecutor := startJob.2.feed [.timeoutReached 1] []

/-- The kill deadline comes in a later batch. -/
noncomputable def timerSecond : Loop EffectExecutor :=
  (popAll 2 timerFirst).2.feed [.killDeadlineReached 1] []

/-- The kill deadline is handled after the graceful stop was: the job is still there, with its
process, and is never sent the second signal. -/
theorem escalation_stops_short :
    ∃ t₁ t₂ c₁ d₁ c₂ d₂ o₁ o₂ job job₂ p,
      Run (Loop.Step executor) (.init 1 .new) t₁ c₁ ∧
      .submit 1 0 .bare (.graceful (some 1)) ∈ Label.fed t₁ ∧
      Loop.Step executor c₁ (.pop (.timeoutReached 1) o₁) d₁ ∧
      Run (Loop.Step executor) d₁ t₂ c₂ ∧
      Loop.Step executor c₂ (.pop (.killDeadlineReached 1) o₂) d₂ ∧ d₂.queue = [] ∧
      c₁.world.state.jobs.get 1 = some job ∧ job.process = some p ∧
      c₂.world.state.jobs.get 1 = some job₂ ∧ job₂.process = some p ∧
      ∀ l ∈ Label.pops (t₁ ++ .pop (.timeoutReached 1) o₁ :: t₂ ++
        [.pop (.killDeadlineReached 1) o₂]), ∀ e ∈ l.2.effects, e.forceKills 1 = false := by
  have hfirst := pop_step timerFirst (popAll 1 timerFirst).2 rfl
  have hrun : Run (Loop.Step executor) (popAll 1 timerFirst).2 [_, _] timerSecond :=
    .cons (pop_step _ (popAll 2 timerFirst).2 rfl)
      (.single (.feed (by decide) (by decide) (by decide)))
  have hsecond := pop_step timerSecond (popAll 1 timerSecond).2 rfl
  have hjob : timerFirst.world.state.jobs.get 1 =
      some ⟨1, 0, some ⟨1⟩, some ⟨2⟩, false, none, false⟩ := by decide
  have hjob₂ : timerSecond.world.state.jobs.get 1 =
      some ⟨1, 0, some ⟨1⟩, some ⟨2⟩, true, none, false⟩ := by decide
  exact ⟨_, _, _, _, _, _, _, _, _, _, _,
    startJob_run.append (.single (.feed (by decide) (by decide) (by decide))), by decide, hfirst,
    hrun, hsecond, by decide, hjob, rfl, hjob₂, rfl, by decide⟩

end EffectExecutor
end CoreShift
