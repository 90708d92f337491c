import CoreShift.Launch
import CoreShift.Runtime

/-!
# Deadlines in the loop

`TimeoutPolicyModule` tracks the deadline of every admitted job and would act on it in
`handleEvent`. `Dispatcher.dispatchEvent` does not hand events to it, so in a run of the loop
the entry of a job stays as it was written at the admission.
-/

namespace CoreShift

open Utils WorkQueue

variable {σ α : Type}

/-! ## The timer module on its own -/

namespace TimeoutPolicyModule

/-- A due entry that was not fired yet gives the timeout action. -/
theorem fire_due {now : Instant} {entry : TimeoutEntry} (hstate : entry.state = .waitingForDeadline)
    (hdue : entry.deadline ≤ now) : .timeoutReached entry.id ∈ (fire now entry).2 := by
  unfold fire
  rw [hstate]
  dsimp only
  rw [if_pos hdue]
  exact List.mem_cons_of_mem _ List.mem_cons_self

/-- `handle_event` would emit `TimeoutReached` for every due entry. -/
theorem handleEvent_due (order : IterOrder JobId TimeoutEntry) {now : Instant}
    {m : TimeoutPolicyModule} {id : JobId} {entry : TimeoutEntry}
    (hentry : m.tracking.get id = some entry) (hstate : entry.state = .waitingForDeadline)
    (hdue : entry.deadline ≤ now) : .timeoutReached entry.id ∈ (m.handleEvent order now).2 := by
  unfold handleEvent
  rw [List.mem_flatMap]
  exact ⟨(id, entry), (order.mem_iter).mpr hentry, fire_due hstate hdue⟩

end TimeoutPolicyModule

/-! ## The dispatcher leaves the timer alone -/

/-- No event changes the timer module. -/
theorem Dispatcher.dispatchEvent_timeout (d : Dispatcher) (state : ExecutionState)
    (event : Event) : (d.dispatchEvent state event).dispatcher.timeout = d.timeout := by
  cases event <;> rfl

/-- No event is answered by one of the two timer actions. -/
theorem Dispatcher.dispatchEvent_no_timer (d : Dispatcher) (state : ExecutionState)
    (event : Event) (id : JobId) :
    .timeoutReached id ∉ (d.dispatchEvent state event).actions ∧
      .killDeadlineReached id ∉ (d.dispatchEvent state event).actions := by
  cases event with
  | processStarted j process io =>
    unfold dispatchEvent LifecycleModule.handleEvent IoModule.handleEvent
    dsimp only
    cases state.jobs.get j <;> simp
  | processSpawnFailed j err => simp [dispatchEvent, LifecycleModule.handleEvent]
  | processExited j status =>
    unfold dispatchEvent ResultModule.handleEvent
    dsimp only
    cases state.jobs.get j <;> simp
  | jobFdReady j readable writable error =>
    unfold dispatchEvent IoModule.handleEvent
    dsimp only
    cases state.jobs.contains j <;> simp

/-! ## A job's entry along a run -/

/-- The step neither admits the job nor finishes it. -/
def Label.keepsTimer (id : JobId) : Label → Bool
  | .pop (.admitted j _ _ _) _ => j != id
  | .pop (.finished j _) _ => j != id
  | _ => true

theorem JobStep.timer {id : JobId} {c c' : Config JobView Action} {l : Label}
    (h : JobStep id c l c') (hl : l.keepsTimer id = true) : c'.world.timer = c.world.timer := by
  cases h with
  | @own v a rest o v₁ out v' hid hout hev =>
    show v'.timer = v.timer
    rw [hev.timer]
    cases hout with
    | admitted | finished | finishedAbsent =>
      exact absurd rfl (bne_iff_ne.mp hl)
    | _ => rfl
  | other _ hev => exact hev.timer
  | feed => rfl

theorem JobStep.run_timer {id : JobId} {c c' : Config JobView Action} {t : List Label}
    (h : Run (JobStep id) c t c') (ht : ∀ l ∈ t, l.keepsTimer id = true) :
    c'.world.timer = c.world.timer := by
  induction h with
  | nil => rfl
  | @cons c l c₁ t c₂ hs _ ih =>
    rw [ih fun l' hl' => ht l' (List.mem_cons_of_mem l hl'), hs.timer (ht l List.mem_cons_self)]

/-- The entry that an admission writes. -/
theorem JobStep.timer_admitted {id : JobId} {c c' : Config JobView Action} {o : PopLog}
    {owner : UInt32} {exec : ExecSpec} {policy : ExecPolicy} {ms : UInt32}
    (h : JobStep id c (.pop (.admitted id owner exec policy) o) c')
    (hms : policy.timeoutMs = some ms) :
    c'.world.timer = some (JobView.freshTimer o.now id policy ms) := by
  cases h with
  | @own v a rest o v₁ out v' hid hout hev =>
    show v'.timer = _
    rw [hev.timer]
    cases hout with
    | admitted =>
      show (v.onAdmitted o.now id owner exec policy).view.timer = _
      simp only [JobView.onAdmitted, hms]
    | quiet hq => cases hq
  | other hid _ => exact absurd rfl hid

/-- In a run in which a job was admitted with a timeout and has not finished, its entry still
waits for its deadline, and no event, however late, changes that: none is answered by one of
the timer actions, and the sleep before the next `epoll_wait` is the one it was. -/
theorem dispatchEvent_ignores_deadlines {E : Executor σ α} {c : Loop σ} {maxJobs : ℕ} {x : σ}
    {t u : List Label} {o : PopLog} {id : JobId} {owner : UInt32} {exec : ExecSpec}
    {policy : ExecPolicy} {ms : UInt32}
    (hrun : Run (Loop.Step E) (.init maxJobs x)
      (t ++ .pop (.admitted id owner exec policy) o :: u) c)
    (hms : policy.timeoutMs = some ms) (hu : ∀ l ∈ u, l.keepsTimer id = true) :
    c.world.dispatcher.timeout.tracking.get id = some (JobView.freshTimer o.now id policy ms) ∧
      ∀ event,
        let d := c.world.dispatcher.dispatchEvent c.world.state event
        .timeoutReached id ∉ d.actions ∧ .killDeadlineReached id ∉ d.actions ∧
          d.dispatcher.timeout = c.world.dispatcher.timeout ∧
          ∀ order now, d.dispatcher.computeTimeoutMs order now =
            c.world.dispatcher.computeTimeoutMs order now := by
  rcases Run.append_iff.mp hrun with ⟨c₁, -, hrest⟩
  rcases Run.cons_iff.mp hrest with ⟨c₂, hadm, hu'⟩
  constructor
  · have hentry := (hadm.own id).timer_admitted hms
    rw [← JobStep.run_timer (Loop.run_own hu' id) hu] at hentry
    exact hentry
  · intro event d
    have htime : d.dispatcher.timeout = c.world.dispatcher.timeout :=
      Dispatcher.dispatchEvent_timeout ..
    have hnone := Dispatcher.dispatchEvent_no_timer c.world.dispatcher c.world.state event id
    refine ⟨hnone.1, hnone.2, htime, ?_⟩
    intro order now
    unfold Dispatcher.computeTimeoutMs
    rw [htime]

/-- The sleep when a single entry is tracked. -/
theorem TimeoutPolicyModule.computeTimeoutMs_single (order : IterOrder JobId TimeoutEntry)
    (now : Instant) {m : TimeoutPolicyModule} {id : JobId} {entry : TimeoutEntry}
    (hlen : m.tracking.len = 1) (hentry : m.tracking.get id = some entry) :
    m.computeTimeoutMs order now = remainingMs now entry := by
  have hmem := (order.mem_iter).mpr hentry
  rcases List.length_eq_one_iff.mp ((order.length_iter m.tracking).trans hlen) with ⟨e, he⟩
  rw [he, List.mem_singleton] at hmem
  unfold computeTimeoutMs
  rw [he, ← hmem, List.foldl_cons, List.foldl_nil]
  exact if_pos (Or.inl rfl)

theorem dispatchEvent_ignores_deadlines_started :
    EffectExecutor.startJob.2.world.dispatcher.timeout.tracking.get 1 =
        some (JobView.freshTimer 0 1 (.graceful (some 1)) 1) ∧
      ∀ event,
        let d := EffectExecutor.startJob.2.world.dispatcher.dispatchEvent
          EffectExecutor.startJob.2.world.state event
        .timeoutReached 1 ∉ d.actions ∧ .killDeadlineReached 1 ∉ d.actions ∧
          d.dispatcher.timeout = EffectExecutor.startJob.2.world.dispatcher.timeout ∧
          ∀ order now, d.dispatcher.computeTimeoutMs order now =
            EffectExecutor.startJob.2.world.dispatcher.computeTimeoutMs order now :=
  dispatchEvent_ignores_deadlines (t := [.feed [.submit 1 0 .bare (.graceful (some 1))] [],
      .pop (.submit 1 0 .bare (.graceful (some 1))) ⟨0, [], [],
        [.submit 1 0 .bare (.graceful (some 1))]⟩])
    (o := ⟨0, [], [], [.admitted 1 0 .bare (.graceful (some 1))]⟩)
    (u := Loop.popLabels (EffectExecutor.startJob.1.drop 2)) EffectExecutor.startJob_run rfl
    (by decide)

/-- Ten milliseconds after a job with a timeout of one was admitted, the sleep is zero; the
next event emits nothing and leaves the sleep at zero. -/
theorem overdue_ignored :
    ∃ t c, Run (Loop.Step EffectExecutor.executor) (.init 1 .new) t c ∧ c.queue = [] ∧
      (∃ entry, c.world.dispatcher.timeout.tracking.get 1 = some entry ∧
        entry.deadline ≤ 10000000) ∧
      (∀ order, c.world.dispatcher.computeTimeoutMs order 10000000 = 0) ∧
      let d := c.world.dispatcher.dispatchEvent c.world.state (.jobFdReady 1 true false false)
      .timeoutReached 1 ∉ d.actions ∧
        ∀ order, d.dispatcher.computeTimeoutMs order 10000000 = 0 := by
  have hentry : EffectExecutor.startJob.2.world.dispatcher.timeout.tracking.get 1 =
      some ⟨1, .waitingForDeadline, 1000000, 1000⟩ := by decide
  have hsleep : ∀ order,
      EffectExecutor.startJob.2.world.dispatcher.computeTimeoutMs order 10000000 = 0 := by
    intro order
    have hlen : EffectExecutor.startJob.2.world.dispatcher.timeout.tracking.len = 1 := by decide
    exact (TimeoutPolicyModule.computeTimeoutMs_single order _ hlen hentry).trans (by decide)
  exact ⟨_, EffectExecutor.startJob.2, EffectExecutor.startJob_run, by decide,
    ⟨_, hentry, by decide⟩, hsleep, by decide, hsleep⟩

end CoreShift
