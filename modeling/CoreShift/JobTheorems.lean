import CoreShift.Job

/-!
# The loop behaves like the job machine
-/

namespace CoreShift

open Utils WorkQueue

variable {σ α : Type}

/-! ## Eviction -/

namespace ResultModule

/-- Eviction changes no result that it leaves. -/
theorem evictResults_get (order : IterOrder JobId StoredResult) (now : Instant)
    (state : ExecutionState) (id : JobId) :
    (evictResults order now state).results.get id = state.results.get id ∨
      (evictResults order now state).results.get id = none := by
  have hlive : (retainLive now state.results).get id = state.results.get id ∨
      (retainLive now state.results).get id = none := by
    rw [retainLive, HashMap.get_retain]
    cases state.results.get id with
    | none => exact Or.inl rfl
    | some r =>
      rw [Option.filter_some]
      split
      · exact Or.inl rfl
      · exact Or.inr rfl
  unfold evictResults
  dsimp only
  split
  · rw [HashMap.get_removeAll]
    split
    · exact Or.inr rfl
    · exact hlive
  · exact hlive

end ResultModule

/-! ## Views that differ by an eviction -/

/-- `v'` is `v`, except that the stored result may be gone. -/
structure JobView.Evicted (v v' : JobView) : Prop where
  job : v'.job = v.job
  lifecycle : v'.lifecycle = v.lifecycle
  timer : v'.timer = v.timer
  stored : v'.stored = v.stored ∨ v'.stored = none

namespace JobView

theorem Evicted.refl (v : JobView) : v.Evicted v := ⟨rfl, rfl, rfl, Or.inl rfl⟩

theorem Evicted.of_eq {v v' : JobView} (h : v' = v) : v.Evicted v' := h ▸ Evicted.refl _

theorem Evicted.eq {v v' : JobView} (h : v.Evicted v') (hs : v'.stored = v.stored) : v' = v :=
  JobView.ext h.job h.lifecycle h.timer hs

/-- A result that is not there is not evicted into being. -/
theorem Evicted.stored_none {v v' : JobView} (h : v.Evicted v') (hs : v.stored = none) :
    v'.stored = none := by
  rcases h.stored with heq | hnone
  · rw [heq, hs]
  · exact hnone

end JobView

/-! ## One pop -/

/-- The environment a pop gives to the job it is about. -/
def World.env (w : World σ) (o : PopLog) : JobEnv :=
  ⟨o.now, w.dispatcher.admission, o.events.head?⟩

/-- All that one pop does: the admission counter follows its module, the job of the action
reacts, the other jobs are left alone, and the executor applies the one effect, if any. -/
structure World.Reacts (E : Executor σ α) (w : World σ) (a : Action) (o : PopLog)
    (out : List Action) (w' : World σ) : Prop where
  admission : w'.dispatcher.admission = (w.dispatcher.admission.handle a).1
  own : ((w.view a.jobId).react (w.env o) a).view.Evicted (w'.view a.jobId)
  others : ∀ id, id ≠ a.jobId → (w.view id).Evicted (w'.view id)
  out_eq : out = ((w.view a.jobId).react (w.env o) a).out
  effects_eq : o.effects = ((w.view a.jobId).react (w.env o) a).effects
  applied : (o.effects = [] ∧ o.events = [] ∧ w'.exec = w.exec) ∨
    ∃ e ans, o.effects = [e] ∧ o.events = (E.apply w.exec e ans).2.toList ∧
      w'.exec = (E.apply w.exec e ans).1

namespace World

/-! ### Applying the effect of an action -/

theorem applyEffects_none {E : Executor σ α} {ans : α} {w : World σ} {e : Effect}
    (h : (E.apply w.exec e ans).2 = none) :
    applyEffects E ans w [e] = ⟨{ w with exec := (E.apply w.exec e ans).1 }, [], []⟩ := by
  simp only [applyEffects, h]

theorem applyEffects_some {E : Executor σ α} {ans : α} {w : World σ} {e : Effect} {ev : Event}
    (h : (E.apply w.exec e ans).2 = some ev) :
    applyEffects E ans w [e] =
      ⟨⟨(w.dispatcher.dispatchEvent w.state ev).dispatcher,
          (w.dispatcher.dispatchEvent w.state ev).state, (E.apply w.exec e ans).1⟩,
        [ev], (w.dispatcher.dispatchEvent w.state ev).actions⟩ := by
  simp only [applyEffects, h, List.append_nil]

/-- An effect that no event answers. -/
def Silent (e : Effect) : Prop := ∀ x, Answers e x → x = none

/-- Without an answer, the state is the one `dispatch` left behind. -/
theorem process_silent (E : Executor σ α) (amb : Ambient) (ans : α) (w : World σ) (a : Action)
    {d : Dispatched} (hd : w.dispatcher.dispatch amb w.state a = d) {effs : List Effect}
    (heffs : (Core.resolveEffect d.state a).2 = effs)
    (hsilent : effs = [] ∨ ∃ e, effs = [e] ∧ Silent e) :
    ∃ exec', process E amb ans w a = (⟨d.dispatcher, d.state, exec'⟩, d.actions,
        ⟨amb.now, effs, [], (Core.resolveEffect d.state a).1⟩) ∧
      ((effs = [] ∧ exec' = w.exec) ∨ ∃ e, effs = [e] ∧ (E.apply w.exec e ans).2 = none ∧
        exec' = (E.apply w.exec e ans).1) := by
  have hres : Core.resolveEffects d.state [a] = ((Core.resolveEffect d.state a).1, effs) := by
    simp only [Core.resolveEffects, List.flatMap_cons, List.flatMap_nil, List.append_nil, heffs]
  rcases hsilent with rfl | ⟨e, rfl, he⟩
  · refine ⟨w.exec, ?_, Or.inl ⟨rfl, rfl⟩⟩
    simp only [process, hd, hres, applyEffects, List.nil_append]
  · have hans : (E.apply w.exec e ans).2 = none := he _ (E.answers w.exec e ans)
    refine ⟨(E.apply w.exec e ans).1, ?_, Or.inr ⟨e, rfl, hans, rfl⟩⟩
    have happ := applyEffects_none (w := ⟨d.dispatcher, d.state, w.exec⟩) hans
    simp only [process, hd, hres, happ, List.nil_append]

/-- With an answer, the event is dispatched on top of what `dispatch` left behind. -/
theorem process_answered (E : Executor σ α) (amb : Ambient) (ans : α) (w : World σ) (a : Action)
    {d : Dispatched} (hd : w.dispatcher.dispatch amb w.state a = d) {e : Effect}
    (heffs : Core.resolveEffect d.state a = ([], [e])) {ev : Event}
    (hans : (E.apply w.exec e ans).2 = some ev) :
    process E amb ans w a =
      (⟨(d.dispatcher.dispatchEvent d.state ev).dispatcher,
          (d.dispatcher.dispatchEvent d.state ev).state, (E.apply w.exec e ans).1⟩,
        (d.dispatcher.dispatchEvent d.state ev).actions ++ d.actions,
        ⟨amb.now, [e], [ev], []⟩) := by
  have hres : Core.resolveEffects d.state [a] = ([], [e]) := by
    simp only [Core.resolveEffects, List.flatMap_cons, List.flatMap_nil, List.append_nil, heffs]
  have happ := applyEffects_some (w := ⟨d.dispatcher, d.state, w.exec⟩) hans
  simp only [process, hd, hres, happ]

/-! ### The actions one by one -/

/-- The effect of a signal is resolved from the job's entry. -/
theorem resolveEffect_signalProcess {state : ExecutionState} {id : JobId} {job : JobState}
    {signal : ControlSignal} (h : state.jobs.get id = some job) :
    (Core.resolveEffect state (.signalProcess id signal)).2 =
      JobView.killEffects id signal job := by
  unfold Core.resolveEffect JobView.killEffects
  simp only [h]
  cases job.process <;> rfl

/-- An action whose effects are silent and that `dispatch` handles like the job machine. -/
theorem reacts_of_silent (E : Executor σ α) (amb : Ambient) (ans : α) (w : World σ) (a : Action)
    {d : Dispatched} (hd : w.dispatcher.dispatch amb w.state a = d)
    {r : Reaction} (hr : (w.view a.jobId).react ⟨amb.now, w.dispatcher.admission, none⟩ a = r)
    (hsilent : r.effects = [] ∨ ∃ e, r.effects = [e] ∧ Silent e)
    (heffs : (Core.resolveEffect d.state a).2 = r.effects)
    (hadm : d.dispatcher.admission = (w.dispatcher.admission.handle a).1)
    (hown : r.view.Evicted (World.view ⟨d.dispatcher, d.state, w.exec⟩ a.jobId))
    (hothers : ∀ id, id ≠ a.jobId →
      (w.view id).Evicted (World.view ⟨d.dispatcher, d.state, w.exec⟩ id))
    (hout : d.actions = r.out) :
    Reacts E w a (process E amb ans w a).2.2 (process E amb ans w a).2.1
      (process E amb ans w a).1 := by
  obtain ⟨exec', hp, hexec⟩ := process_silent E amb ans w a hd heffs hsilent
  subst hr
  rw [hp]
  constructor
  · exact hadm
  · exact hown
  · exact hothers
  · exact hout
  · rfl
  · rcases hexec with ⟨hnil, hx⟩ | ⟨e, he, hans, hx⟩
    · exact Or.inl ⟨hnil, rfl, hx⟩
    · exact Or.inr ⟨e, ans, he, by rw [hans]; rfl, hx⟩

/-- An action that `dispatch` leaves alone, with an effect whose answer is handled like the job
machine handles it. -/
theorem reacts_of_answered (E : Executor σ α) (amb : Ambient) (ans : α) (w : World σ) (a : Action)
    (hd : w.dispatcher.dispatch amb w.state a = ⟨w.dispatcher, w.state, []⟩) {e : Effect}
    (heffs : Core.resolveEffect w.state a = ([], [e])) {ev : Event}
    (hans : (E.apply w.exec e ans).2 = some ev) {d : Dispatched}
    (hev : w.dispatcher.dispatchEvent w.state ev = d)
    {r : Reaction} (hr : (w.view a.jobId).react ⟨amb.now, w.dispatcher.admission, some ev⟩ a = r)
    (hreffs : r.effects = [e])
    (hadm : d.dispatcher.admission = (w.dispatcher.admission.handle a).1)
    (hown : r.view.Evicted (World.view ⟨d.dispatcher, d.state, w.exec⟩ a.jobId))
    (hothers : ∀ id, id ≠ a.jobId →
      (w.view id).Evicted (World.view ⟨d.dispatcher, d.state, w.exec⟩ id))
    (hout : d.actions = r.out) :
    Reacts E w a (process E amb ans w a).2.2 (process E amb ans w a).2.1
      (process E amb ans w a).1 := by
  rw [process_answered E amb ans w a hd heffs hans]
  subst hr
  dsimp only
  rw [hev, List.append_nil]
  constructor
  · exact hadm
  · exact hown
  · exact hothers
  · exact hout
  · exact hreffs.symm
  · exact Or.inr ⟨e, ans, rfl, by rw [hans]; rfl, rfl⟩

theorem silent_performIo (id : JobId) (io : IoHandle) : Silent (.performIo id io) :=
  fun _ h => h

theorem silent_watchStream (id : JobId) (io : IoHandle) (stream : IoStream) :
    Silent (.watchStream id io stream) := fun _ h => h

theorem silent_unwatchStream (id : JobId) (io : IoHandle) (stream : IoStream) :
    Silent (.unwatchStream id io stream) := fun _ h => h

theorem silent_log (level : LogLevel) (event : LogEvent) : Silent (.log level event) :=
  fun _ h => h

theorem silent_killProcess (id : JobId) (signal : ControlSignal) (process : ProcessHandle)
    (isGroup : Bool) : Silent (.killProcess id signal process isGroup) := fun _ h => h

theorem ioEffects_silent (v : JobView) {f : IoHandle → Effect} (hf : ∀ io, Silent (f io)) :
    v.ioEffects f = [] ∨ ∃ e, v.ioEffects f = [e] ∧ Silent e := by
  unfold JobView.ioEffects
  cases v.job.bind JobState.io with
  | none => exact Or.inl rfl
  | some io => exact Or.inr ⟨f io, rfl, hf io⟩

theorem killEffects_silent (id : JobId) (signal : ControlSignal) (job : JobState) :
    JobView.killEffects id signal job = [] ∨
      ∃ e, JobView.killEffects id signal job = [e] ∧ Silent e := by
  unfold JobView.killEffects
  cases job.process with
  | none => exact Or.inl rfl
  | some process => exact Or.inr ⟨_, rfl, silent_killProcess id signal process _⟩

/-- The effects that need the job's io handle are resolved alike. -/
theorem resolveEffect_io (w : World σ) (id : JobId) (f : IoHandle → Effect) :
    (match Core.jobIo w.state id with
      | some io => (([], [f io]) : List Action × List Effect)
      | none => ([], [])).2 = (w.view id).ioEffects f := by
  show _ = match Core.jobIo w.state id with
    | some io => [f io]
    | none => []
  cases Core.jobIo w.state id <;> rfl

/-- An action that leaves dispatcher and state as they are. -/
theorem reacts_of_unchanged (E : Executor σ α) (amb : Ambient) (ans : α) (w : World σ)
    {a : Action} {out : List Action} {effs : List Effect}
    (hd : w.dispatcher.dispatch amb w.state a = ⟨w.dispatcher, w.state, out⟩)
    (hr : (w.view a.jobId).react ⟨amb.now, w.dispatcher.admission, none⟩ a =
      ⟨w.view a.jobId, out, effs⟩)
    (hsilent : effs = [] ∨ ∃ e, effs = [e] ∧ Silent e)
    (heffs : (Core.resolveEffect w.state a).2 = effs)
    (hadm : (w.dispatcher.admission.handle a).1 = w.dispatcher.admission) :
    Reacts E w a (process E amb ans w a).2.2 (process E amb ans w a).2.1
      (process E amb ans w a).1 :=
  reacts_of_silent E amb ans w a hd hr hsilent heffs hadm.symm (JobView.Evicted.refl _)
    (fun _ _ => JobView.Evicted.refl _) rfl

theorem reacts_submit (E : Executor σ α) (amb : Ambient) (ans : α) (w : World σ) (id : JobId)
    (owner : UInt32) (exec : ExecSpec) (policy : ExecPolicy) :
    Reacts E w (.submit id owner exec policy)
      (process E amb ans w (.submit id owner exec policy)).2.2
      (process E amb ans w (.submit id owner exec policy)).2.1
      (process E amb ans w (.submit id owner exec policy)).1 :=
  reacts_of_silent E amb ans w _ rfl rfl (Or.inl rfl) rfl rfl (JobView.Evicted.refl _)
    (fun _ _ => JobView.Evicted.refl _) rfl

theorem signalable_view (w : World σ) (id : JobId) :
    ProcessModule.signalable w.state id = (w.view id).signalable := rfl

theorem reacts_admitted (E : Executor σ α) (amb : Ambient) (ans : α) (w : World σ) (id : JobId)
    (owner : UInt32) (exec : ExecSpec) (policy : ExecPolicy) :
    Reacts E w (.admitted id owner exec policy)
      (process E amb ans w (.admitted id owner exec policy)).2.2
      (process E amb ans w (.admitted id owner exec policy)).2.1
      (process E amb ans w (.admitted id owner exec policy)).1 := by
  refine reacts_of_silent E amb ans w _ rfl rfl (Or.inl rfl) rfl rfl ?_ ?_ rfl
  · apply JobView.Evicted.of_eq
    simp only [World.view, Action.jobId, JobView.react, JobView.onAdmitted, Dispatcher.dispatch,
      LifecycleModule.handle, TimeoutPolicyModule.handle, HashMap.get_insert_self]
    cases policy.timeoutMs with
    | none => rfl
    | some t => simp only [HashMap.get_insert_self]; rfl
  · intro j hj
    apply JobView.Evicted.of_eq
    have hne : j ≠ id := hj
    simp only [World.view, Dispatcher.dispatch, LifecycleModule.handle,
      TimeoutPolicyModule.handle, HashMap.get_insert_ne _ _ hne]
    cases policy.timeoutMs with
    | none => rfl
    | some t => simp only [HashMap.get_insert_ne _ _ hne]

theorem reacts_query (E : Executor σ α) (amb : Ambient) (ans : α) (w : World σ) (id : JobId) :
    Reacts E w (.query id) (process E amb ans w (.query id)).2.2
      (process E amb ans w (.query id)).2.1 (process E amb ans w (.query id)).1 := by
  cases hres : w.state.results.get id with
  | none =>
    have hd : w.dispatcher.dispatch amb w.state (.query id) =
        ⟨w.dispatcher, w.state, [.queryResult id none]⟩ := by
      simp only [Dispatcher.dispatch, ResultModule.handle, hres]
    have hr : (w.view id).react ⟨amb.now, w.dispatcher.admission, none⟩ (.query id) =
        ⟨w.view id, [.queryResult id none], []⟩ := by
      simp only [JobView.react, JobView.onQuery, World.view, hres]
    exact reacts_of_unchanged E amb ans w hd hr (Or.inl rfl) rfl rfl
  | some res =>
    have hd : w.dispatcher.dispatch amb w.state (.query id) =
        ⟨w.dispatcher, { w.state with results := w.state.results.remove id },
          [.queryResult id (some ⟨id, res.result⟩)]⟩ := by
      simp only [Dispatcher.dispatch, ResultModule.handle, hres]
    have hr : (w.view id).react ⟨amb.now, w.dispatcher.admission, none⟩ (.query id) =
        ⟨{ w.view id with stored := none }, [.queryResult id (some ⟨id, res.result⟩)], []⟩ := by
      simp only [JobView.react, JobView.onQuery, World.view, hres]
    refine reacts_of_silent E amb ans w _ hd hr (Or.inl rfl) rfl rfl ?_ ?_ rfl
    · apply JobView.Evicted.of_eq
      simp only [World.view, Action.jobId, HashMap.get_remove_self]
    · intro j hj
      apply JobView.Evicted.of_eq
      have hne : j ≠ id := hj
      simp only [World.view, HashMap.get_remove_ne _ hne]

/-- `Finished` replaces the job by its result; eviction may then take any result. -/
theorem reacts_finished (E : Executor σ α) (amb : Ambient) (ans : α) (w : World σ) (id : JobId)
    (result : Except ExecError ExecResult) :
    Reacts E w (.finished id result) (process E amb ans w (.finished id result)).2.2
      (process E amb ans w (.finished id result)).2.1
      (process E amb ans w (.finished id result)).1 := by
  have hout : ((w.dispatcher.admission.handle (.finished id result)).2 ++
      (w.dispatcher.timeout.handle amb.now (.finished id result)).2) = [] := by
    simp only [AdmissionControlModule.handle, TimeoutPolicyModule.handle, List.append_nil]
    split <;> rfl
  -- the state before the eviction, which changes stored results only
  have hevict : ∀ (state : ExecutionState) (j : JobId),
      (World.view ⟨w.dispatcher, state, w.exec⟩ j).Evicted (World.view
        ⟨w.dispatcher, ResultModule.evictResults amb.order amb.evictNow state, w.exec⟩ j) :=
    fun state j => ⟨rfl, rfl, rfl, ResultModule.evictResults_get amb.order amb.evictNow state j⟩
  cases hjob : w.state.jobs.get id with
  | none =>
    have hd : w.dispatcher.dispatch amb w.state (.finished id result) =
        ⟨⟨(w.dispatcher.admission.handle (.finished id result)).1,
            (w.dispatcher.timeout.handle amb.now (.finished id result)).1⟩,
          ResultModule.evictResults amb.order amb.evictNow w.state, []⟩ := by
      simp only [Dispatcher.dispatch, ResultModule.handle, hjob, hout, List.append_nil]
    have hr : (w.view id).react ⟨amb.now, w.dispatcher.admission, none⟩ (.finished id result) =
        ⟨{ w.view id with timer := none }, [], []⟩ := by
      simp only [JobView.react, JobView.onFinished, World.view, hjob]
    refine reacts_of_silent E amb ans w _ hd hr (Or.inl rfl) rfl rfl ?_ ?_ rfl
    · exact ⟨rfl, rfl, HashMap.get_remove_self .., (hevict w.state id).stored⟩
    · intro j hj
      have hne : j ≠ id := hj
      exact ⟨rfl, rfl, HashMap.get_remove_ne _ hne, (hevict w.state j).stored⟩
  | some job =>
    have hd : w.dispatcher.dispatch amb w.state (.finished id result) =
        ⟨⟨(w.dispatcher.admission.handle (.finished id result)).1,
            (w.dispatcher.timeout.handle amb.now (.finished id result)).1⟩,
          ResultModule.evictResults amb.order amb.evictNow
            { w.state with
              jobs := w.state.jobs.remove id
              results := w.state.results.insert id ⟨result, job.owner, amb.now⟩ },
          [.emitLog .info (.exit id (JobView.statusOf result))]⟩ := by
      simp only [Dispatcher.dispatch, ResultModule.handle, hjob, hout, List.nil_append]
      cases result <;> rfl
    have hr : (w.view id).react ⟨amb.now, w.dispatcher.admission, none⟩ (.finished id result) =
        ⟨{ w.view id with job := none, timer := none, stored := some ⟨result, job.owner, amb.now⟩ },
          [.emitLog .info (.exit id (JobView.statusOf result))], []⟩ := by
      simp only [JobView.react, JobView.onFinished, World.view, hjob]
    refine reacts_of_silent E amb ans w _ hd hr (Or.inl rfl) rfl rfl ?_ ?_ rfl
    · refine ⟨HashMap.get_remove_self .., rfl, HashMap.get_remove_self .., ?_⟩
      have hs := (hevict { w.state with
        jobs := w.state.jobs.remove id
        results := w.state.results.insert id ⟨result, job.owner, amb.now⟩ } id).stored
      rwa [show (World.view ⟨w.dispatcher, { w.state with
        jobs := w.state.jobs.remove id
        results := w.state.results.insert id ⟨result, job.owner, amb.now⟩ }, w.exec⟩ id).stored =
          some ⟨result, job.owner, amb.now⟩ from HashMap.get_insert_self ..] at hs
    · intro j hj
      have hne : j ≠ id := hj
      refine ⟨HashMap.get_remove_ne _ hne, rfl, HashMap.get_remove_ne _ hne, ?_⟩
      have hs := (hevict { w.state with
        jobs := w.state.jobs.remove id
        results := w.state.results.insert id ⟨result, job.owner, amb.now⟩ } j).stored
      rwa [show (World.view ⟨w.dispatcher, { w.state with
        jobs := w.state.jobs.remove id
        results := w.state.results.insert id ⟨result, job.owner, amb.now⟩ }, w.exec⟩ j).stored =
          (w.view j).stored from HashMap.get_insert_ne _ _ hne] at hs

theorem reacts_signalProcess (E : Executor σ α) (amb : Ambient) (ans : α) (w : World σ)
    (id : JobId) (signal : ControlSignal) :
    Reacts E w (.signalProcess id signal) (process E amb ans w (.signalProcess id signal)).2.2
      (process E amb ans w (.signalProcess id signal)).2.1
      (process E amb ans w (.signalProcess id signal)).1 := by
  cases hjob : w.state.jobs.get id with
  | none =>
    have hd : w.dispatcher.dispatch amb w.state (.signalProcess id signal) =
        ⟨w.dispatcher, w.state, []⟩ := by
      simp only [Dispatcher.dispatch, LifecycleModule.handle, hjob, ProcessModule.handle,
        List.append_nil]
    have hr : (w.view id).react ⟨amb.now, w.dispatcher.admission, none⟩
        (.signalProcess id signal) = ⟨w.view id, [], []⟩ := by
      simp only [JobView.react, JobView.onSignalProcess, World.view, hjob]
    refine reacts_of_silent E amb ans w _ hd hr (Or.inl rfl) ?_ rfl (JobView.Evicted.refl _)
      (fun _ _ => JobView.Evicted.refl _) rfl
    simp only [Core.resolveEffect, hjob]
  | some job =>
    -- the flag that `dispatch` sets is none of those the effect is resolved from
    have hkill : ∀ job' : JobState, job'.process = job.process → job'.pgroup = job.pgroup →
        job'.isolated = job.isolated →
        JobView.killEffects id signal job' = JobView.killEffects id signal job := by
      intro job' hp hg hi
      simp only [JobView.killEffects, hp, hg, hi]
    have hview : (w.view id).job = some job := hjob
    cases signal with
    | gracefulStop =>
      have hd : w.dispatcher.dispatch amb w.state (.signalProcess id .gracefulStop) =
          ⟨w.dispatcher,
            { w.state with
              jobs := w.state.jobs.insert id { job with timedOut := true }
              lifecycle := w.state.lifecycle.insert id .terminating }, []⟩ := by
        simp only [Dispatcher.dispatch, LifecycleModule.handle, hjob, ProcessModule.handle,
          List.append_nil]
      have hr : (w.view id).react ⟨amb.now, w.dispatcher.admission, none⟩
          (.signalProcess id .gracefulStop) =
            ⟨{ w.view id with
                job := some { job with timedOut := true }, lifecycle := some .terminating },
              [], JobView.killEffects id .gracefulStop job⟩ := by
        simp only [JobView.react, JobView.onSignalProcess, hview]
      refine reacts_of_silent E amb ans w _ hd hr (killEffects_silent ..) ?_ rfl ?_ ?_ rfl
      · rw [resolveEffect_signalProcess (HashMap.get_insert_self ..)]
        exact hkill _ rfl rfl rfl
      · apply JobView.Evicted.of_eq
        simp only [World.view, Action.jobId, HashMap.get_insert_self]
      · intro j hj
        apply JobView.Evicted.of_eq
        have hne : j ≠ id := hj
        simp only [World.view, HashMap.get_insert_ne _ _ hne]
    | forceKill =>
      have hd : w.dispatcher.dispatch amb w.state (.signalProcess id .forceKill) =
          ⟨w.dispatcher, { w.state with lifecycle := w.state.lifecycle.insert id .killed },
            []⟩ := by
        simp only [Dispatcher.dispatch, LifecycleModule.handle, hjob, ProcessModule.handle,
          List.append_nil]
      have hr : (w.view id).react ⟨amb.now, w.dispatcher.admission, none⟩
          (.signalProcess id .forceKill) =
            ⟨{ w.view id with lifecycle := some .killed }, [],
              JobView.killEffects id .forceKill job⟩ := by
        simp only [JobView.react, JobView.onSignalProcess, hview]
      refine reacts_of_silent E amb ans w _ hd hr (killEffects_silent ..) ?_ rfl ?_ ?_ rfl
      · exact resolveEffect_signalProcess hjob
      · apply JobView.Evicted.of_eq
        simp only [World.view, Action.jobId, HashMap.get_insert_self]
      · intro j hj
        apply JobView.Evicted.of_eq
        have hne : j ≠ id := hj
        simp only [World.view, HashMap.get_insert_ne _ _ hne]

/-- The executor answers a start with one of two events, and both are handled on top of an
unchanged state. -/
theorem reacts_startProcess (E : Executor σ α) (amb : Ambient) (ans : α) (w : World σ)
    (id : JobId) (exec : ExecSpec) (policy : ExecPolicy) :
    Reacts E w (.startProcess id exec policy)
      (process E amb ans w (.startProcess id exec policy)).2.2
      (process E amb ans w (.startProcess id exec policy)).2.1
      (process E amb ans w (.startProcess id exec policy)).1 := by
  have hd : w.dispatcher.dispatch amb w.state (.startProcess id exec policy) =
      ⟨w.dispatcher, w.state, []⟩ := rfl
  rcases E.answers w.exec (.startProcess id exec policy) ans with ⟨ph, io, hans⟩ | ⟨err, hans⟩
  · cases hjob : w.state.jobs.get id with
    | none =>
      have hev : w.dispatcher.dispatchEvent w.state (.processStarted id ph io) =
          ⟨w.dispatcher, w.state, JobView.interests id⟩ := by
        simp only [Dispatcher.dispatchEvent, LifecycleModule.handleEvent, hjob]
        rfl
      have hview : (w.view id).job = none := hjob
      have hr : (w.view id).react ⟨amb.now, w.dispatcher.admission,
          some (.processStarted id ph io)⟩ (.startProcess id exec policy) =
            ⟨w.view id, JobView.interests id, [.startProcess id exec policy]⟩ := by
        simp only [JobView.react, JobView.onStartProcess, hview]
      exact reacts_of_answered E amb ans w _ hd rfl hans hev hr rfl rfl (JobView.Evicted.refl _)
        (fun _ _ => JobView.Evicted.refl _) rfl
    | some job =>
      have hev : w.dispatcher.dispatchEvent w.state (.processStarted id ph io) =
          ⟨w.dispatcher,
            { w.state with
              jobs := w.state.jobs.insert id { job with process := some ph, io := some io }
              lifecycle := w.state.lifecycle.insert id .running },
            .started id :: JobView.interests id⟩ := by
        simp only [Dispatcher.dispatchEvent, LifecycleModule.handleEvent, hjob]
        rfl
      have hview : (w.view id).job = some job := hjob
      have hr : (w.view id).react ⟨amb.now, w.dispatcher.admission,
          some (.processStarted id ph io)⟩ (.startProcess id exec policy) =
            ⟨{ w.view id with
                job := some { job with process := some ph, io := some io },
                lifecycle := some .running },
              .started id :: JobView.interests id, [.startProcess id exec policy]⟩ := by
        simp only [JobView.react, JobView.onStartProcess, hview]
      refine reacts_of_answered E amb ans w _ hd rfl hans hev hr rfl rfl ?_ ?_ rfl
      · apply JobView.Evicted.of_eq
        simp only [World.view, Action.jobId, HashMap.get_insert_self]
      · intro j hj
        have hne : j ≠ id := hj
        apply JobView.Evicted.of_eq
        simp only [World.view, HashMap.get_insert_ne _ _ hne]
  · refine reacts_of_answered E amb ans w _ hd rfl hans rfl rfl rfl rfl ?_ ?_ rfl
    · apply JobView.Evicted.of_eq
      simp only [World.view, Action.jobId, Dispatcher.dispatchEvent, LifecycleModule.handleEvent,
        HashMap.get_insert_self]
      rfl
    · intro j hj
      have hne : j ≠ id := hj
      apply JobView.Evicted.of_eq
      simp only [World.view, Dispatcher.dispatchEvent, LifecycleModule.handleEvent,
        HashMap.get_insert_ne _ _ hne]

/-- A poll does nothing unless the job has a process; an exit is handled on top of an
unchanged state. -/
theorem reacts_pollProcess (E : Executor σ α) (amb : Ambient) (ans : α) (w : World σ)
    (id : JobId) :
    Reacts E w (.pollProcess id) (process E amb ans w (.pollProcess id)).2.2
      (process E amb ans w (.pollProcess id)).2.1 (process E amb ans w (.pollProcess id)).1 := by
  have hd : w.dispatcher.dispatch amb w.state (.pollProcess id) =
      ⟨w.dispatcher, w.state, []⟩ := rfl
  cases hjob : w.state.jobs.get id with
  | none =>
    have hview : (w.view id).job = none := hjob
    refine reacts_of_unchanged E amb ans w hd ?_ (Or.inl rfl) ?_ rfl
    · simp only [JobView.react, JobView.onPollProcess, Action.jobId, hview]
    · simp only [Core.resolveEffect, hjob]
  | some job =>
    have hview : (w.view id).job = some job := hjob
    cases hproc : job.process with
    | none =>
      refine reacts_of_unchanged E amb ans w hd ?_ (Or.inl rfl) ?_ rfl
      · simp only [JobView.react, JobView.onPollProcess, Action.jobId, hview, hproc]
      · simp only [Core.resolveEffect, hjob, hproc]
    | some ph =>
      have heffs : Core.resolveEffect w.state (.pollProcess id) = ([], [.pollProcess id ph]) := by
        simp only [Core.resolveEffect, hjob, hproc]
      rcases E.answers w.exec (.pollProcess id ph) ans with hans | ⟨status, hans⟩
      · have hres : Core.resolveEffects w.state [.pollProcess id] = ([], [.pollProcess id ph]) := by
          simp only [Core.resolveEffects, List.flatMap_cons, List.flatMap_nil, List.append_nil,
            heffs]
        have happ := applyEffects_none (w := ⟨w.dispatcher, w.state, w.exec⟩) hans
        have hr : (w.view id).react ⟨amb.now, w.dispatcher.admission, none⟩ (.pollProcess id) =
            ⟨w.view id, [], [.pollProcess id ph]⟩ := by
          simp only [JobView.react, JobView.onPollProcess, hview, hproc]
        have hp : process E amb ans w (.pollProcess id) =
            (⟨w.dispatcher, w.state, (E.apply w.exec (.pollProcess id ph) ans).1⟩, [],
              ⟨amb.now, [.pollProcess id ph], [], []⟩) := by
          simp only [process, hd, hres, happ, List.append_nil]
        rw [hp]
        constructor
        · rfl
        · change ((w.view id).react ⟨amb.now, _, none⟩ _).view.Evicted _
          rw [hr]
          exact JobView.Evicted.refl _
        · exact fun j _ => JobView.Evicted.refl _
        · change _ = ((w.view id).react ⟨amb.now, _, none⟩ _).out
          rw [hr]
        · change _ = ((w.view id).react ⟨amb.now, _, none⟩ _).effects
          rw [hr]
        · exact Or.inr ⟨_, ans, rfl, by rw [hans]; rfl, rfl⟩
      · have hev : w.dispatcher.dispatchEvent w.state (.processExited id status) =
            ⟨w.dispatcher, w.state, [.finished id (.ok ⟨status, [], [], job.timedOut⟩)]⟩ := by
          simp only [Dispatcher.dispatchEvent, ResultModule.handleEvent, hjob]
        have hr : (w.view id).react ⟨amb.now, w.dispatcher.admission,
            some (.processExited id status)⟩ (.pollProcess id) =
              ⟨w.view id, [.finished id (.ok ⟨status, [], [], job.timedOut⟩)],
                [.pollProcess id ph]⟩ := by
          simp only [JobView.react, JobView.onPollProcess, hview, hproc]
        exact reacts_of_answered E amb ans w _ hd heffs hans hev hr rfl rfl
          (JobView.Evicted.refl _) (fun _ _ => JobView.Evicted.refl _) rfl

/-- The loop body, for every action, is one reaction of the job machine. -/
theorem process_reacts (E : Executor σ α) (amb : Ambient) (ans : α) (w : World σ) (a : Action) :
    Reacts E w a (process E amb ans w a).2.2 (process E amb ans w a).2.1
      (process E amb ans w a).1 := by
  cases a with
  | submit id owner exec policy => exact reacts_submit E amb ans w id owner exec policy
  | admitted id owner exec policy => exact reacts_admitted E amb ans w id owner exec policy
  | startProcess id exec policy => exact reacts_startProcess E amb ans w id exec policy
  | signalProcess id signal => exact reacts_signalProcess E amb ans w id signal
  | pollProcess id => exact reacts_pollProcess E amb ans w id
  | finished id result => exact reacts_finished E amb ans w id result
  | query id => exact reacts_query E amb ans w id
  | emitLog level event =>
    exact reacts_of_unchanged E amb ans w rfl rfl (Or.inr ⟨_, rfl, silent_log level event⟩) rfl rfl
  | performIo id =>
    refine reacts_of_unchanged E amb ans w rfl rfl
      (ioEffects_silent _ (silent_performIo id)) ?_ rfl
    exact resolveEffect_io w id (.performIo id)
  | registerInterest id stream =>
    refine reacts_of_unchanged E amb ans w rfl rfl
      (ioEffects_silent _ (silent_watchStream id · stream)) ?_ rfl
    exact resolveEffect_io w id (.watchStream id · stream)
  | removeInterest id stream =>
    refine reacts_of_unchanged E amb ans w rfl rfl
      (ioEffects_silent _ (silent_unwatchStream id · stream)) ?_ rfl
    exact resolveEffect_io w id (.unwatchStream id · stream)
  | control | timeoutReached | killDeadlineReached | rejected | started | controlled
  | queryResult => exact reacts_of_unchanged E amb ans w rfl rfl (Or.inl rfl) rfl rfl

/-- Every pop of the loop is one reaction of the job machine. -/
theorem Step.reacts {E : Executor σ α} {w w' : World σ} {a : Action} {o : PopLog}
    {out : List Action} (h : Step E w a o out w') : Reacts E w a o out w' := by
  rcases h with ⟨amb, ans, h⟩
  have hreacts := process_reacts E amb ans w a
  rwa [h] at hreacts

end World
end CoreShift
