import CoreShift.Launch
import CoreShift.Runtime

/-!
# Jobs do not interfere through the queue

The drain of a queue looks to every job like the drain of its own part of the queue, if the
submissions fit the free slots, no result is evicted and the answers to a job depend on its
own effects only. This is `KeyLocal.drain_independent` of the work queue library at the step
of the loop; the frame of every action is `World.Reacts`.

Handles and clock readings are compared up to their values: `erase` replaces them by zero.
-/

namespace CoreShift

open Utils WorkQueue

variable {σ α : Type} {E : Executor σ α}

/-! ## Forgetting handles and clock readings -/

def JobState.erase (job : JobState) : JobState :=
  { job with process := job.process.map fun _ => ⟨0⟩, io := job.io.map fun _ => ⟨0⟩ }

def TimeoutEntry.erase (entry : TimeoutEntry) : TimeoutEntry :=
  { entry with
    deadline := 0
    state := match entry.state with
      | .waitingForDeadline => .waitingForDeadline
      | .waitingForKillGrace _ => .waitingForKillGrace 0 }

def StoredResult.erase (res : StoredResult) : StoredResult := { res with created := 0 }

def Effect.erase : Effect → Effect
  | .watchStream id _ stream => .watchStream id ⟨0⟩ stream
  | .unwatchStream id _ stream => .unwatchStream id ⟨0⟩ stream
  | .killProcess id signal _ isGroup => .killProcess id signal ⟨0⟩ isGroup
  | .pollProcess id _ => .pollProcess id ⟨0⟩
  | .performIo id _ => .performIo id ⟨0⟩
  | e => e

def Event.erase : Event → Event
  | .processStarted id _ _ => .processStarted id ⟨0⟩ ⟨0⟩
  | ev => ev

def JobView.erase (v : JobView) : JobView :=
  ⟨v.job.map JobState.erase, v.lifecycle, v.timer.map TimeoutEntry.erase,
    v.stored.map StoredResult.erase⟩

/-- What a job sees of a pop: effects and events. -/
def PopLog.shape (o : PopLog) : List Effect × List Event :=
  (o.effects.map Effect.erase, o.events.map Event.erase)

/-! ## Reactions up to erasure -/

/-- Two reactions that differ in handles and clock readings only. -/
structure Reaction.Alike (r r' : Reaction) : Prop where
  view : r.view.erase = r'.view.erase
  out : r.out = r'.out
  effects : r.effects.map Effect.erase = r'.effects.map Effect.erase

namespace JobView

variable {v v' : JobView}

/-- Views are equal up to erasure if their entries are. -/
theorem erase_eq_iff : v.erase = v'.erase ↔
    v.job.map JobState.erase = v'.job.map JobState.erase ∧ v.lifecycle = v'.lifecycle ∧
      v.timer.map TimeoutEntry.erase = v'.timer.map TimeoutEntry.erase ∧
      v.stored.map StoredResult.erase = v'.stored.map StoredResult.erase := by
  unfold erase
  rw [JobView.mk.injEq]

/-- The job is in both views or in neither. -/
theorem job_cases (h : v.erase = v'.erase) :
    (v.job = none ∧ v'.job = none) ∨
      ∃ job job', v.job = some job ∧ v'.job = some job' ∧ job.erase = job'.erase := by
  have hjob := (erase_eq_iff.mp h).1
  cases hv : v.job with
  | none =>
    rw [hv, Option.map_none] at hjob
    exact Or.inl ⟨rfl, Option.map_eq_none_iff.mp hjob.symm⟩
  | some job =>
    rw [hv, Option.map_some] at hjob
    rcases Option.map_eq_some_iff.mp hjob.symm with ⟨job', hv', heq⟩
    exact Or.inr ⟨job, job', rfl, hv', heq.symm⟩

end JobView

/-- The fields of a job that do not depend on handles, and whether it has a process. -/
theorem JobState.erase_inj {job job' : JobState} (h : job.erase = job'.erase) :
    job.id = job'.id ∧ job.owner = job'.owner ∧ job.timedOut = job'.timedOut ∧
      job.pgroup = job'.pgroup ∧ job.isolated = job'.isolated ∧
      job.process.isSome = job'.process.isSome ∧ job.io.isSome = job'.io.isSome := by
  unfold erase at h
  rw [JobState.mk.injEq] at h
  rcases h with ⟨h1, h2, h3, h4, h5, h6, h7⟩
  refine ⟨h1, h2, h5, h6, h7, ?_, ?_⟩
  · have := congrArg Option.isSome h3
    rwa [Option.isSome_map, Option.isSome_map] at this
  · have := congrArg Option.isSome h4
    rwa [Option.isSome_map, Option.isSome_map] at this

namespace JobView

variable {v v' : JobView}

theorem signalable_alike (h : v.erase = v'.erase) : v.signalable = v'.signalable := by
  unfold signalable
  rcases job_cases h with ⟨hv, hv'⟩ | ⟨job, job', hv, hv', heq⟩
  · rw [hv, hv']
  · rcases JobState.erase_inj heq with ⟨-, -, ht, -, -, hp, -⟩
    rw [hv, hv']
    dsimp only
    rw [hp, ht]

theorem ioEffects_alike (h : v.erase = v'.erase) {f : IoHandle → Effect}
    (hf : ∀ io io', (f io).erase = (f io').erase) :
    (v.ioEffects f).map Effect.erase = (v'.ioEffects f).map Effect.erase := by
  unfold ioEffects
  rcases job_cases h with ⟨hv, hv'⟩ | ⟨job, job', hv, hv', heq⟩
  · rw [hv, hv']
  · rcases JobState.erase_inj heq with ⟨-, -, -, -, -, -, hio⟩
    rw [hv, hv', Option.bind_some, Option.bind_some]
    cases h₁ : job.io <;> cases h₂ : job'.io
    · rfl
    · rw [h₁, h₂] at hio; cases hio
    · rw [h₁, h₂] at hio; cases hio
    · exact congrArg (fun e => [e]) (hf _ _)

theorem killEffects_alike (id : JobId) (signal : ControlSignal) {job job' : JobState}
    (h : job.erase = job'.erase) :
    (killEffects id signal job).map Effect.erase =
      (killEffects id signal job').map Effect.erase := by
  rcases JobState.erase_inj h with ⟨-, -, -, hg, hi, hp, -⟩
  unfold killEffects
  cases h₁ : job.process <;> cases h₂ : job'.process
  · rfl
  · rw [h₁, h₂] at hp; cases hp
  · rw [h₁, h₂] at hp; cases hp
  · simp only [List.map_cons, List.map_nil, Effect.erase, hg, hi]

theorem onAdmitted_alike (h : v.erase = v'.erase) (now now' : Instant) (id : JobId)
    (owner : UInt32) (exec : ExecSpec) (policy : ExecPolicy) :
    (v.onAdmitted now id owner exec policy).Alike (v'.onAdmitted now' id owner exec policy) := by
  rcases erase_eq_iff.mp h with ⟨-, -, ht, hs⟩
  refine ⟨erase_eq_iff.mpr ⟨rfl, rfl, ?_, hs⟩, rfl, rfl⟩
  unfold onAdmitted
  dsimp only
  cases policy.timeoutMs with
  | none => exact ht
  | some t =>
    -- only the deadline differs
    simp only [Option.map_some, freshTimer, TimeoutEntry.erase]

theorem onSignalProcess_alike (h : v.erase = v'.erase) (id : JobId) (signal : ControlSignal) :
    (v.onSignalProcess id signal).Alike (v'.onSignalProcess id signal) := by
  rcases erase_eq_iff.mp h with ⟨hj, -, ht, hs⟩
  unfold onSignalProcess
  rcases job_cases h with ⟨hv, hv'⟩ | ⟨job, job', hv, hv', heq⟩
  · rw [hv, hv']
    exact ⟨h, rfl, rfl⟩
  · simp only [hv, hv'] at hj ⊢
    cases signal with
    | gracefulStop =>
      refine ⟨erase_eq_iff.mpr ⟨?_, rfl, ht, hs⟩, rfl, killEffects_alike id _ heq⟩
      have hset : ∀ job : JobState,
          { job with timedOut := true }.erase = { job.erase with timedOut := true } := fun _ => rfl
      simp only [Option.map_some, hset, heq]
    | forceKill =>
      exact ⟨erase_eq_iff.mpr ⟨hj, rfl, ht, hs⟩, rfl, killEffects_alike id _ heq⟩

theorem onFinished_alike (h : v.erase = v'.erase) (now now' : Instant) (id : JobId)
    (result : Except ExecError ExecResult) :
    (v.onFinished now id result).Alike (v'.onFinished now' id result) := by
  rcases erase_eq_iff.mp h with ⟨hj, hl, -, hs⟩
  unfold onFinished
  rcases job_cases h with ⟨hv, hv'⟩ | ⟨job, job', hv, hv', heq⟩
  · rw [hv, hv']
    exact ⟨erase_eq_iff.mpr ⟨rfl, hl, rfl, hs⟩, rfl, rfl⟩
  · rcases JobState.erase_inj heq with ⟨-, ho, -⟩
    rw [hv, hv']
    refine ⟨erase_eq_iff.mpr ⟨rfl, hl, rfl, ?_⟩, rfl, rfl⟩
    simp only [Option.map_some, StoredResult.erase, ho]

theorem onQuery_alike (h : v.erase = v'.erase) (id : JobId) :
    (v.onQuery id).Alike (v'.onQuery id) := by
  rcases erase_eq_iff.mp h with ⟨hj, hl, ht, hs⟩
  unfold onQuery
  cases hv : v.stored with
  | none =>
    rw [hv, Option.map_none] at hs
    rw [Option.map_eq_none_iff.mp hs.symm]
    exact ⟨h, rfl, rfl⟩
  | some res =>
    rw [hv, Option.map_some] at hs
    rcases Option.map_eq_some_iff.mp hs.symm with ⟨res', hv', heq⟩
    rw [hv']
    have hres : res'.result = res.result := congrArg (fun r => r.result) heq
    exact ⟨erase_eq_iff.mpr ⟨hj, hl, ht, rfl⟩, by simp only [hres], rfl⟩

/-- Answers that are equal up to erasure: two starts, or the same answer. -/
theorem answer_cases {ev ev' : Option Event} (h : ev.map Event.erase = ev'.map Event.erase) :
    (∃ i p io i' p' io', ev = some (.processStarted i p io) ∧
        ev' = some (.processStarted i' p' io')) ∨
      (ev = ev' ∧ ∀ i p io, ev ≠ some (.processStarted i p io)) := by
  cases ev with
  | none =>
    right
    exact ⟨(Option.map_eq_none_iff.mp h.symm).symm, fun i p io heq => by cases heq⟩
  | some x =>
    rw [Option.map_some] at h
    rcases Option.map_eq_some_iff.mp h.symm with ⟨y, rfl, hxy⟩
    cases x with
    | processStarted i p io =>
      cases y with
      | processStarted i' p' io' => exact Or.inl ⟨i, p, io, i', p', io', rfl, rfl⟩
      | _ => cases hxy
    | _ =>
      cases y with
      | processStarted => cases hxy
      | _ => exact Or.inr ⟨congrArg some hxy.symm, fun i p io heq => by cases heq⟩

/-- A start reacts to the kind of the event, not to the handles in it. -/
theorem onStartProcess_alike (h : v.erase = v'.erase) {ev ev' : Option Event}
    (hev : ev.map Event.erase = ev'.map Event.erase) (id : JobId) (exec : ExecSpec)
    (policy : ExecPolicy) :
    (v.onStartProcess ev id exec policy).Alike (v'.onStartProcess ev' id exec policy) := by
  rcases erase_eq_iff.mp h with ⟨hj, hl, ht, hs⟩
  unfold onStartProcess
  rcases answer_cases hev with ⟨i, p, io, i', p', io', rfl, rfl⟩ | ⟨rfl, hnot⟩
  · rcases job_cases h with ⟨hv, hv'⟩ | ⟨job, job', hv, hv', heq⟩
    · simp only [hv, hv']
      exact ⟨h, rfl, rfl⟩
    · simp only [hv, hv']
      refine ⟨erase_eq_iff.mpr ⟨?_, rfl, ht, hs⟩, rfl, rfl⟩
      have hset : ∀ (job : JobState) (p : ProcessHandle) (io : IoHandle),
          { job with process := some p, io := some io }.erase =
            { job.erase with process := some ⟨0⟩, io := some ⟨0⟩ } := fun _ _ _ => rfl
      simp only [Option.map_some, hset, heq]
  · rcases ev with _ | ⟨i, p, io⟩ | ⟨i, err⟩ | ⟨i, status⟩ | ⟨i, r, wr, e⟩
    · exact ⟨h, rfl, rfl⟩
    · exact absurd rfl (hnot i p io)
    · exact ⟨erase_eq_iff.mpr ⟨hj, rfl, ht, hs⟩, rfl, rfl⟩
    · exact ⟨h, rfl, rfl⟩
    · exact ⟨h, rfl, rfl⟩

theorem onPollProcess_alike (h : v.erase = v'.erase) {ev ev' : Option Event}
    (hev : ev.map Event.erase = ev'.map Event.erase) (id : JobId) :
    (v.onPollProcess ev id).Alike (v'.onPollProcess ev' id) := by
  unfold onPollProcess
  rcases job_cases h with ⟨hv, hv'⟩ | ⟨job, job', hv, hv', heq⟩
  · simp only [hv, hv']
    exact ⟨h, rfl, rfl⟩
  · rcases JobState.erase_inj heq with ⟨-, -, ht, -, -, hp, -⟩
    simp only [hv, hv']
    cases h₁ : job.process <;> cases h₂ : job'.process
    · exact ⟨h, rfl, rfl⟩
    · rw [h₁, h₂] at hp; cases hp
    · rw [h₁, h₂] at hp; cases hp
    · dsimp only
      rcases answer_cases hev with ⟨i, p, io, i', p', io', rfl, rfl⟩ | ⟨rfl, hnot⟩
      · exact ⟨h, rfl, rfl⟩
      · rcases ev with _ | ⟨i, p, io⟩ | ⟨i, err⟩ | ⟨i, status⟩ | ⟨i, r, wr, e⟩
        · exact ⟨h, rfl, rfl⟩
        · exact ⟨h, rfl, rfl⟩
        · exact ⟨h, rfl, rfl⟩
        · exact ⟨h, by dsimp only; rw [ht], rfl⟩
        · exact ⟨h, rfl, rfl⟩

/-- Effects do not depend on the answer, so they can be compared before it. -/
theorem react_effects (env env' : JobEnv) (v : JobView) (a : Action) :
    (v.react env a).effects = (v.react env' a).effects := by
  cases a with
  | startProcess id exec policy =>
    have hstart : ∀ ev, (v.onStartProcess ev id exec policy).effects =
        [.startProcess id exec policy] := by
      intro ev
      unfold onStartProcess
      rcases ev with _ | ⟨i, p, io⟩ | ⟨i, err⟩ | ⟨i, status⟩ | ⟨i, r, wr, e⟩ <;>
        cases v.job <;> rfl
    exact (hstart _).trans (hstart _).symm
  | pollProcess id =>
    have hpoll : ∀ ev, (v.onPollProcess ev id).effects = (v.onPollProcess none id).effects := by
      intro ev
      unfold onPollProcess
      cases v.job with
      | none => rfl
      | some job =>
        dsimp only
        cases job.process with
        | none => rfl
        | some p => rcases ev with _ | ⟨i, p, io⟩ | ⟨i, err⟩ | ⟨i, status⟩ | ⟨i, r, wr, e⟩ <;> rfl
    exact (hpoll _).trans (hpoll _).symm
  | finished =>
    unfold react onFinished
    dsimp only
    cases v.job <;> rfl
  | _ => rfl

/-- The reaction to an action is a function of the view, up to handles and clock readings. -/
theorem react_alike (h : v.erase = v'.erase) {env env' : JobEnv} {a : Action}
    (hans : env.answer.map Event.erase = env'.answer.map Event.erase)
    (hsub : a.submitId.isSome → env.admission.activeJobs < env.admission.maxJobs)
    (hsub' : a.submitId.isSome → env'.admission.activeJobs < env'.admission.maxJobs) :
    (v.react env a).Alike (v'.react env' a) := by
  cases a with
  | submit id owner exec policy =>
    have hfree := hsub rfl
    have hfree' := hsub' rfl
    refine ⟨h, ?_, rfl⟩
    unfold react AdmissionControlModule.handle
    dsimp only
    rw [if_neg (by omega), if_neg (by omega)]
  | admitted id owner exec policy => exact onAdmitted_alike h _ _ id owner exec policy
  | startProcess id exec policy => exact onStartProcess_alike h hans id exec policy
  | signalProcess id signal => exact onSignalProcess_alike h id signal
  | pollProcess id => exact onPollProcess_alike h hans id
  | finished id result => exact onFinished_alike h _ _ id result
  | query id => exact onQuery_alike h id
  | control | timeoutReached | killDeadlineReached =>
    refine ⟨h, ?_, rfl⟩
    unfold react
    dsimp only
    rw [signalable_alike h]
  | performIo id => exact ⟨h, rfl, ioEffects_alike h fun _ _ => rfl⟩
  | registerInterest id stream => exact ⟨h, rfl, ioEffects_alike h fun _ _ => rfl⟩
  | removeInterest id stream => exact ⟨h, rfl, ioEffects_alike h fun _ _ => rfl⟩
  | emitLog | rejected | started | controlled | queryResult => exact ⟨h, rfl, rfl⟩

end JobView
/-! ## Pops without eviction -/

/-- A reaction in which no result is evicted. -/
def World.KeepingStep (E : Executor σ α) (w : World σ) (a : Action) (o : PopLog)
    (out : List Action) (w' : World σ) : Prop :=
  World.Step E w a o out w' ∧ w.KeepsResults a w'

/-- A result that a reaction leaves was there, or is the one of a job that just finished. -/
theorem JobView.Outcome.stored_some {id : JobId} {v v' : JobView} {o : PopLog} {a : Action}
    {out : List Action} (h : v.Outcome id o a v' out) (hs : v'.stored.isSome = true) :
    (v.stored.isSome = true ∧ a ≠ .query id) ∨
      ∃ result, a = .finished id result ∧ v.job.isSome = true := by
  cases h with
  | finished hj => exact Or.inr ⟨_, rfl, by rw [hj]; rfl⟩
  | queried => cases hs
  | queriedNone hv => rw [hv] at hs; cases hs
  | quiet hq => exact Or.inl ⟨hs, fun heq => by rw [heq] at hq; cases hq⟩
  | _ => exact Or.inl ⟨hs, fun heq => by cases heq⟩

section Keeping

variable {w w' : World σ} {a : Action} {o : PopLog} {out : List Action}

/-- Without eviction the job's entries are those of its reaction. -/
theorem World.Reacts.view_own (h : World.Reacts E w a o out w') (hk : w.KeepsResults a w') :
    w'.view a.jobId = ((w.view a.jobId).react (w.env o) a).view := by
  apply h.own.eq
  rcases h.own.stored with hs | hs
  · exact hs
  · rw [hs]
    by_contra hne
    have hsome := Option.isSome_iff_ne_none.mpr (Ne.symm hne)
    have hkept : (w'.view a.jobId).stored.isSome = true := by
      rcases h.outcome.stored_some hsome with ⟨hv, hquery⟩ | ⟨result, hfin, hjob⟩
      · rcases hk.1 a.jobId hv with hv' | heq
        · exact hv'
        · exact absurd heq hquery
      · exact hk.2 a.jobId result hfin hjob
    rw [hs] at hkept
    cases hkept

/-- Without eviction the other jobs' entries do not change. -/
theorem World.Reacts.view_others (h : World.Reacts E w a o out w') (hk : w.KeepsResults a w')
    {id : JobId} (hid : id ≠ a.jobId) : w'.view id = w.view id := by
  apply (h.others id hid).eq
  rcases (h.others id hid).stored with hs | hs
  · exact hs
  · rw [hs]
    by_contra hne
    have hsome := Option.isSome_iff_ne_none.mpr (Ne.symm hne)
    rcases hk.1 id hsome with hv' | heq
    · rw [show w'.state.results.get id = none from hs] at hv'
      cases hv'
    · rw [heq] at hid
      exact hid rfl

end Keeping

/-! ## Answers that depend on a job's own effects -/

/-- An answer for each job, its earlier effects and the next effect. -/
abbrev AnswerRule := JobId → List Effect → Effect → List Event

/-- The effects of each job so far, after one more pop. -/
def record (h : JobId → List Effect) (a : Action) (o : PopLog) : JobId → List Effect :=
  Function.update h a.jobId (h a.jobId ++ o.effects.map Effect.erase)

/-- The answers of a pop are those of the rule. -/
def PopLog.Follows (o : PopLog) (f : AnswerRule) (h : JobId → List Effect) (a : Action) : Prop :=
  ∀ e ∈ o.effects, o.events.map Event.erase = f a.jobId (h a.jobId) e.erase

/-- All answers of some pops are those of the rule. -/
def AnsweredBy (f : AnswerRule) : (JobId → List Effect) → List (Action × PopLog) → Prop
  | _, [] => True
  | h, (a, o) :: t => o.Follows f h a ∧ AnsweredBy f (record h a o) t

/-- A reaction together with the record of effects: no result is evicted, a submission finds
a free slot, and the answer follows the rule. -/
structure World.RuledStep (E : Executor σ α) (f : AnswerRule)
    (w : World σ × (JobId → List Effect)) (a : Action) (o : PopLog) (out : List Action)
    (w' : World σ × (JobId → List Effect)) : Prop where
  step : World.KeepingStep E w.1 a o out w'.1
  free : a.submitId.isSome = true →
    w.1.dispatcher.admission.activeJobs < w.1.dispatcher.admission.maxJobs
  follows : o.Follows f w.2 a
  recorded : w'.2 = record w.2 a o

/-- What a job sees of a world with its record. -/
def World.ownView (w : World σ × (JobId → List Effect)) (id : JobId) :
    JobView × List Effect := ((w.1.view id).erase, w.2 id)

/-- A pop without effects has no events. -/
theorem PopLog.Answered.events_nil {o : PopLog} (h : o.Answered) (ho : o.effects = []) :
    o.events = [] := by
  rcases h with ⟨-, hev⟩ | ⟨e, ev, he, -⟩
  · exact hev
  · rw [ho] at he; cases he

/-- A pop has at most one effect. -/
theorem PopLog.Answered.effects_cases {o : PopLog} (h : o.Answered) :
    o.effects = [] ∨ ∃ e, o.effects = [e] := by
  rcases h with ⟨he, -⟩ | ⟨e, ev, he, -⟩
  · exact Or.inl he
  · exact Or.inr ⟨e, he⟩

/-- Answers to like effects under a rule are alike. -/
theorem PopLog.Follows.alike {o o' : PopLog} {f : AnswerRule} {h h' : JobId → List Effect}
    {a : Action} (hans : o.Answered) (hans' : o'.Answered) (ho : o.Follows f h a)
    (ho' : o'.Follows f h' a) (hh : h a.jobId = h' a.jobId)
    (heffs : o.effects.map Effect.erase = o'.effects.map Effect.erase) :
    o.events.map Event.erase = o'.events.map Event.erase := by
  rcases hans.effects_cases with hnil | ⟨e, he⟩
  · rw [hnil, List.map_nil, eq_comm, List.map_eq_nil_iff] at heffs
    rw [hans.events_nil hnil, hans'.events_nil heffs]
  · rw [he, List.map_singleton, eq_comm, List.map_eq_singleton_iff] at heffs
    rcases heffs with ⟨e', he', hee⟩
    rw [ho e (by rw [he]; exact List.mem_singleton_self e),
      ho' e' (by rw [he']; exact List.mem_singleton_self e'), hh, hee]

/-- The steps of the loop concern one job each, up to handles and clock readings. -/
theorem World.ruledStep_keyLocal (E : Executor σ α) (f : AnswerRule) :
    KeyLocal Action.jobId World.ownView PopLog.shape (World.RuledStep E f) where
  follow_ups := fun h b hb => h.step.1.reacts.outcome.out_jobId b hb
  frame := by
    intro w a o out w' h id hid
    unfold World.ownView
    rw [h.step.1.reacts.view_others h.step.2 hid, h.recorded]
    unfold record
    rw [Function.update_of_ne hid]
  own := by
    intro w a o out w' v o' out' v' h h' hview
    have hr := h.step.1.reacts
    have hr' := h'.step.1.reacts
    have herase : (w.1.view a.jobId).erase = (v.1.view a.jobId).erase := congrArg Prod.fst hview
    have hhist : w.2 a.jobId = v.2 a.jobId := congrArg Prod.snd hview
    -- the effects are the same, whatever the answers
    have heffs : o.effects.map Effect.erase = o'.effects.map Effect.erase := by
      rw [hr.effects_eq, hr'.effects_eq,
        JobView.react_effects (w.1.env o) { w.1.env o with answer := none },
        JobView.react_effects (v.1.env o') { v.1.env o' with answer := none }]
      apply Reaction.Alike.effects
      apply JobView.react_alike herase
      · rfl
      · exact h.free
      · exact h'.free
    -- so the answers are, and with them the reactions
    have hevs := PopLog.Follows.alike hr.answered hr'.answered h.follows h'.follows hhist heffs
    have halike : ((w.1.view a.jobId).react (w.1.env o) a).Alike
        ((v.1.view a.jobId).react (v.1.env o') a) := by
      apply JobView.react_alike herase
      · show o.events.head?.map Event.erase = o'.events.head?.map Event.erase
        rw [← List.head?_map, ← List.head?_map, hevs]
      · exact h.free
      · exact h'.free
    refine ⟨?_, ?_, ?_⟩
    · rw [hr.out_eq, hr'.out_eq, halike.out]
    · unfold PopLog.shape
      rw [heffs, hevs]
    · unfold World.ownView
      rw [hr.view_own h.step.2, hr'.view_own h'.step.2, halike.view, h.recorded, h'.recorded]
      unfold record
      rw [Function.update_self, Function.update_self, hhist, heffs]

/-! ## Free slots -/

/-- The submissions in the queue fit the free slots. -/
def SubmitsFit (c : Config (World σ) Action) : Prop :=
  c.world.dispatcher.admission.activeJobs + c.queue.countP Action.isSubmit ≤
    c.world.dispatcher.admission.maxJobs

/-- No outcome submits a job. -/
theorem JobView.Outcome.no_submit {id : JobId} {v v' : JobView} {o : PopLog} {a : Action}
    {out : List Action} (h : v.Outcome id o a v' out) : out.countP Action.isSubmit = 0 := by
  cases h <;> rfl

/-- A counter that is not full before a submission. -/
theorem SubmitsFit.free {w : World σ} {a : Action} {rest : List Action}
    (h : SubmitsFit ⟨w, a :: rest⟩) (ha : a.submitId.isSome = true) :
    w.dispatcher.admission.activeJobs < w.dispatcher.admission.maxJobs := by
  unfold SubmitsFit at h
  have hsub : a.isSubmit = true := ha
  rw [List.countP_cons_of_pos hsub] at h
  dsimp only at h
  omega

/-- A pop uses at most the slot of the submission it takes from the queue. -/
theorem SubmitsFit.pop {w w' : World σ} {a : Action} {o : PopLog} {out rest : List Action}
    (h : SubmitsFit ⟨w, a :: rest⟩) (hr : World.Reacts E w a o out w') :
    SubmitsFit ⟨w', rest ++ out⟩ := by
  unfold SubmitsFit at h ⊢
  dsimp only at h ⊢
  rw [List.countP_append, hr.outcome.no_submit, hr.admission]
  rw [List.countP_cons] at h
  cases a with
  | submit id owner exec policy =>
    rw [show Action.isSubmit (.submit id owner exec policy) = true from rfl, if_pos rfl] at h
    unfold AdmissionControlModule.handle
    dsimp only
    split
    · dsimp only; omega
    · dsimp only; omega
  | finished id result =>
    unfold AdmissionControlModule.handle
    dsimp only
    split
    · dsimp only; omega
    · dsimp only; omega
  | _ => exact le_trans (by simp only [AdmissionControlModule.handle]; omega) h

/-- A drain whose answers follow the rule is a drain of the recording machine. -/
theorem ruled_drain {f : AnswerRule} {c c' : Config (World σ) Action}
    {t : List (Action × PopLog)} (hrun : Run (Pop (World.KeepingStep E)) c t c')
    (h : JobId → List Effect) (hans : AnsweredBy f h t) (hfit : SubmitsFit c) :
    ∃ h', Run (Pop (World.RuledStep E f)) ⟨(c.world, h), c.queue⟩ t ⟨(c'.world, h'), c'.queue⟩ := by
  induction hrun generalizing h with
  | nil => exact ⟨h, .nil _⟩
  | @cons c l c₁ t c₂ hpop _ ih =>
    rcases pop_iff.mp hpop with ⟨rest, out, hq, hq₁, hstep⟩
    rcases c with ⟨w, q⟩
    dsimp only at hq
    subst hq
    have hfit₁ := hfit.pop hstep.1.reacts
    rw [← hq₁] at hfit₁
    rcases ih (record h l.1 l.2) hans.2 hfit₁ with ⟨h', hrest⟩
    refine ⟨h', .cons ?_ hrest⟩
    rw [pop_iff]
    exact ⟨rest, out, rfl, hq₁, hstep, hfit.free, hans.1, rfl⟩

/-! ## The theorem -/

/-- What a drain leaves of a job, and what it shows of it: the job's entries, and its pops
with their effects and events, up to handles and clock readings. -/
structure SameForJob (id : JobId) (w v : World σ) (t u : List (Action × PopLog)) : Prop where
  view : (w.view id).erase = (v.view id).erase
  trace : ownTrace Action.jobId PopLog.shape id t = ownTrace Action.jobId PopLog.shape id u

/-- Two drains from one world that agree on a job's own actions are the same for the job. -/
theorem drains_agree {f : AnswerRule} {w w' v' : World σ} {q r : List Action}
    {t u : List (Action × PopLog)} {id : JobId}
    (hq : SubmitsFit ⟨w, q⟩) (ht : Run (Pop (World.KeepingStep E)) ⟨w, q⟩ t ⟨w', []⟩)
    (hft : AnsweredBy f (fun _ => []) t)
    (hr : SubmitsFit ⟨w, r⟩) (hu : Run (Pop (World.KeepingStep E)) ⟨w, r⟩ u ⟨v', []⟩)
    (hfu : AnsweredBy f (fun _ => []) u)
    (hown : ownPart Action.jobId id q = ownPart Action.jobId id r) :
    SameForJob id w' v' t u := by
  rcases ruled_drain ht _ hft hq with ⟨h₁, hrun₁⟩
  rcases ruled_drain hu _ hfu hr with ⟨h₂, hrun₂⟩
  have hsame := (World.ruledStep_keyLocal E f).drain_independent hrun₁ rfl hrun₂ rfl rfl hown
  exact ⟨congrArg Prod.fst hsame.1, hsame.2⟩

/-- The submissions of a part of the queue fit if those of the queue do. -/
theorem SubmitsFit.ownPart {w : World σ} {q : List Action} (h : SubmitsFit ⟨w, q⟩) (id : JobId) :
    SubmitsFit ⟨w, WorkQueue.ownPart Action.jobId id q⟩ := by
  unfold SubmitsFit at h ⊢
  dsimp only at h ⊢
  have hle : (WorkQueue.ownPart Action.jobId id q).countP Action.isSubmit ≤
      q.countP Action.isSubmit := List.filter_sublist.countP_le
  omega

/-- Draining a queue is, for every job, the same as draining the job's own part of it, and
the same as draining any other interleaving of the jobs' actions. -/
theorem jobs_do_not_interfere {f : AnswerRule} {w w' : World σ} {q : List Action}
    {t : List (Action × PopLog)} (hq : SubmitsFit ⟨w, q⟩)
    (ht : Run (Pop (World.KeepingStep E)) ⟨w, q⟩ t ⟨w', []⟩)
    (hft : AnsweredBy f (fun _ => []) t) :
    (∀ id u v', Run (Pop (World.KeepingStep E)) ⟨w, ownPart Action.jobId id q⟩ u ⟨v', []⟩ →
      AnsweredBy f (fun _ => []) u → SameForJob id w' v' t u) ∧
    ∀ r u v', (∀ id, ownPart Action.jobId id r = ownPart Action.jobId id q) →
      Run (Pop (World.KeepingStep E)) ⟨w, r⟩ u ⟨v', []⟩ → AnsweredBy f (fun _ => []) u →
      ∀ id, SameForJob id w' v' t u := by
  constructor
  · intro id u v' hu hfu
    exact drains_agree hq ht hft (hq.ownPart id) hu hfu (ownPart_ownPart id q).symm
  · intro r u v' hown hu hfu id
    have hr : SubmitsFit ⟨w, r⟩ := by
      unfold SubmitsFit at hq ⊢
      dsimp only at hq ⊢
      rwa [(perm_of_ownPart hown).countP_eq]
    exact drains_agree hq ht hft hr hu hfu (hown id).symm

/-! ## Two jobs -/

instance AnsweredBy.decidable (f : AnswerRule) :
    (h : JobId → List Effect) → (t : List (Action × PopLog)) → Decidable (AnsweredBy f h t)
  | _, [] => isTrue trivial
  | h, (a, o) :: t =>
    @instDecidableAnd _ _
      (inferInstanceAs (Decidable (∀ e ∈ o.effects,
        o.events.map Event.erase = f a.jobId (h a.jobId) e.erase)))
      (AnsweredBy.decidable f (record h a o) t)

/-- Without stored results and without `Finished` there is nothing to evict. -/
theorem keeping_of_no_finish {c c' : Loop σ} {t : List (Action × PopLog)}
    (h : Run (Pop (World.Step E)) c t c') (ht : ∀ l ∈ t, l.1.isFinish = false)
    (hnone : ∀ id, c.world.state.results.get id = none) :
    Run (Pop (World.KeepingStep E)) c t c' := by
  induction h with
  | nil => exact .nil _
  | @cons c l c₁ t c₂ hpop _ ih =>
    rcases pop_iff.mp hpop with ⟨rest, out, hq, hq₁, hstep⟩
    have hr := hstep.reacts
    have hkeeps : c.world.KeepsResults l.1 c₁.world := by
      constructor
      · intro id hid
        rw [hnone id] at hid
        cases hid
      · intro id result heq
        have hfin := ht l List.mem_cons_self
        rw [heq] at hfin
        cases hfin
    have hnone₁ : ∀ id, c₁.world.state.results.get id = none := by
      intro id
      by_cases hid : id = l.1.jobId
      · by_contra hne
        rw [hid] at hne
        have hview := hr.view_own hkeeps
        have hsome : ((c.world.view l.1.jobId).react (c.world.env l.2) l.1).view.stored.isSome =
            true := by
          rw [← hview]
          exact Option.isSome_iff_ne_none.mpr hne
        rcases hr.outcome.stored_some hsome with ⟨hv, -⟩ | ⟨result, heq, -⟩
        · rw [show (c.world.view l.1.jobId).stored = none from hnone _] at hv
          cases hv
        · have hfin := ht l List.mem_cons_self
          rw [heq] at hfin
          cases hfin
      · have hview := congrArg JobView.stored (hr.view_others hkeeps hid)
        exact hview.trans (hnone id)
    exact .cons (pop_iff.mpr ⟨rest, out, hq, hq₁, hstep, hkeeps⟩)
      (ih (fun m hm => ht m (List.mem_cons_of_mem l hm)) hnone₁)

/-- Every start succeeds, nothing else is answered. -/
def startsSucceed : AnswerRule := fun _ _ e =>
  match e with
  | .startProcess id _ _ => [.processStarted id ⟨0⟩ ⟨0⟩]
  | _ => []

namespace EffectExecutor

/-- Two free slots and no jobs. -/
def idle : World EffectExecutor := ⟨.new 2, .new, .new⟩

/-- Two submissions, and a stop of the first job between them. -/
def mixed : List Action :=
  [.submit 1 0 .bare (.graceful none), .control 1 .gracefulStop,
    .submit 2 0 .bare (.graceful none)]

theorem jobs_do_not_interfere_mixed :
    (∀ id u v', Run (Pop (World.KeepingStep executor)) ⟨idle, ownPart Action.jobId id mixed⟩ u
        ⟨v', []⟩ → AnsweredBy startsSucceed (fun _ => []) u →
        SameForJob id (popAll 20 ⟨idle, mixed⟩).2.world v' (popAll 20 ⟨idle, mixed⟩).1 u) ∧
      ∀ r u v', (∀ id, ownPart Action.jobId id r = ownPart Action.jobId id mixed) →
        Run (Pop (World.KeepingStep executor)) ⟨idle, r⟩ u ⟨v', []⟩ →
        AnsweredBy startsSucceed (fun _ => []) u →
        ∀ id, SameForJob id (popAll 20 ⟨idle, mixed⟩).2.world v' (popAll 20 ⟨idle, mixed⟩).1 u := by
  have hrun : Run (Pop (World.Step executor)) ⟨idle, mixed⟩ (popAll 20 ⟨idle, mixed⟩).1
      ⟨(popAll 20 ⟨idle, mixed⟩).2.world, []⟩ := Loop.runPops_run executor _ _
  exact jobs_do_not_interfere (by unfold SubmitsFit; decide)
    (keeping_of_no_finish hrun (by decide) fun id => HashMap.get_empty id) (by decide)

end EffectExecutor
end CoreShift
