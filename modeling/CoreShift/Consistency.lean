import CoreShift.JobLimit

/-!
# The three maps of the execution state

`state.jobs`, `state.lifecycle` and `state.results` agree about a job as long as its start
succeeds and it does not finish. The two ways a job can end update one map and forget another:
a start that fails writes `Finished` into the lifecycle and leaves the job in `state.jobs`; a
`Finished` takes the job out of `state.jobs` and leaves its lifecycle at what it was.
-/

namespace CoreShift

open Utils WorkQueue

variable {σ α : Type} {E : Executor σ α}

namespace JobLifecycle

/-- The job is admitted and has not ended. -/
def isLive : JobLifecycle → Bool
  | .admitted | .running | .terminating | .killed => true
  | .submitted | .finished => false

/-- The job's process was started. -/
def isStarted : JobLifecycle → Bool
  | .running | .terminating | .killed => true
  | .submitted | .admitted | .finished => false

end JobLifecycle

/-- The entries of a job agree; `admitted` says that the job was ever admitted. -/
structure JobView.Consistent (admitted : Prop) (v : JobView) : Prop where
  live : v.job.isSome = true ↔ ∃ l, v.lifecycle = some l ∧ l.isLive = true
  handles : ∀ l, v.lifecycle = some l → l.isStarted = true →
    ∃ job, v.job = some job ∧ job.process.isSome = true ∧ job.io.isSome = true
  stored : v.stored.isSome = true → v.job = none ∧ v.lifecycle = some .finished
  gone : admitted → v.job = none → v.lifecycle = some .finished

/-- The event reports that a start failed. -/
def Event.isFailure : Event → Bool
  | .processSpawnFailed .. => true
  | _ => false

theorem Action.not_admission_of_isQuiet {a : Action} (h : a.isQuiet = true) :
    a.isAdmission = false := by
  cases a <;> first | rfl | cases h

/-- An admission of the job was popped. -/
def AdmittedIn (t : List Label) (id : JobId) : Prop :=
  ∃ l ∈ Label.pops t, l.1.isAdmission = true ∧ l.1.jobId = id

/-- The job does not end in this step: its start does not fail, and no `Finished` finds it. -/
def JobView.StaysOpen (id : JobId) (v : JobView) : Label → Prop
  | .pop (.startProcess i _ _) o => i = id → ∀ err, o.events ≠ [.processSpawnFailed i err]
  | .pop (.finished i _) _ => i = id → v.job = none
  | _ => True

/-- A step of the loop in which the job does not end. -/
def Loop.OpenStep (E : Executor σ α) (id : JobId) (c : Loop σ) (l : Label) (c' : Loop σ) : Prop :=
  Loop.Step E c l c' ∧ (c.world.view id).StaysOpen id l

/-! ## Jobs that do not end -/

/-- The invariant of a job that has not ended. While it has no handles, its start is queued. -/
structure OpenJob (admitted : Prop) (c : Config JobView Action) : Prop where
  live : c.world.job.isSome = true ↔ ∃ l, c.world.lifecycle = some l ∧ l.isLive = true
  unfinished : c.world.lifecycle ≠ some .finished
  equipped : ∀ job, c.world.job = some job →
    job.process.isSome = true ∧ job.io.isSome = true ∨ 0 < c.queue.countP Action.isStart
  stored : c.world.stored = none
  stays : admitted → c.world.job.isSome = true

namespace OpenJob

variable {id : JobId} {admitted admitted' : Prop} {v v' : JobView} {q q' : List Action}

/-- With an empty queue, the entries of an open job are consistent. -/
theorem consistent (h : OpenJob admitted ⟨v, []⟩) : v.Consistent admitted := by
  have hgone : ∀ hadm : admitted, v.job ≠ none := by
    intro hadm hnone
    have hsome := h.stays hadm
    rw [show v.job = none from hnone] at hsome
    cases hsome
  constructor
  · exact h.live
  · intro l hl hstarted
    have hlive : v.job.isSome = true := by
      refine h.live.mpr ⟨l, hl, ?_⟩
      cases l <;> first | rfl | cases hstarted
    rcases Option.isSome_iff_exists.mp hlive with ⟨job, hjob⟩
    rcases h.equipped job hjob with hh | hpos
    · exact ⟨job, hjob, hh⟩
    · exact absurd hpos (Nat.lt_irrefl 0)
  · intro hs
    rw [show v.stored = none from h.stored] at hs
    cases hs
  · exact fun hadm hnone => absurd hnone (hgone hadm)

/-- The invariant looks at the job, its lifecycle, its result and the queued starts. -/
theorem same (h : OpenJob admitted ⟨v, q⟩) (hjob : v'.job = v.job)
    (hlife : v'.lifecycle = v.lifecycle) (hstored : v.stored = none → v'.stored = none)
    (hstart : v.job.isSome = true → q.countP Action.isStart ≤ q'.countP Action.isStart)
    (hadm : admitted' → admitted) : OpenJob admitted' ⟨v', q'⟩ := by
  rcases h with ⟨hlive, hun, hequip, hst, hstays⟩
  constructor <;> dsimp only at *
  · rw [hjob, hlife]; exact hlive
  · rw [hlife]; exact hun
  · rw [hjob]
    intro job hj
    have hle := hstart (by rw [hj]; rfl)
    rcases hequip job hj with hh | hpos
    · exact Or.inl hh
    · exact Or.inr (by omega)
  · exact hstored hst
  · rw [hjob]; exact fun ha => hstays (hadm ha)

/-- A job that is in the map and whose lifecycle is live. -/
theorem of_live {l : JobLifecycle} (hjob : v.job.isSome = true) (hlife : v.lifecycle = some l)
    (hl : l.isLive = true) (hstored : v.stored = none)
    (hequip : ∀ job, v.job = some job →
      job.process.isSome = true ∧ job.io.isSome = true ∨ 0 < q.countP Action.isStart) :
    OpenJob admitted ⟨v, q⟩ := by
  constructor <;> dsimp only
  · exact ⟨fun _ => ⟨l, hlife, hl⟩, fun _ => hjob⟩
  · rw [hlife]
    rintro ⟨⟩
    cases hl
  · exact hequip
  · exact hstored
  · exact fun _ => hjob

/-- A pop of the job's own that does not end it. -/
theorem outcome {o : PopLog} {a : Action} {out rest : List Action}
    (hout : v.Outcome id o a v' out) (hopen : v.StaysOpen id (.pop a o))
    (h : OpenJob admitted ⟨v, a :: rest⟩) :
    OpenJob (admitted ∨ a.isAdmission = true) ⟨v', rest ++ out⟩ := by
  have hstored : v.stored = none := h.stored
  have hequip : ∀ job, v.job = some job → job.process.isSome = true ∧ job.io.isSome = true ∨
      0 < (a :: rest).countP Action.isStart := h.equipped
  cases hout with
  | startFailed heffs hevs => exact absurd hevs (hopen rfl _)
  | finished hj =>
    have hnone := hopen rfl
    rw [hj] at hnone
    cases hnone
  | admitted =>
    refine of_live rfl rfl rfl hstored fun job hj => Or.inr ?_
    rw [List.countP_append]
    show 0 < rest.countP Action.isStart + 1
    omega
  | started hj =>
    refine of_live rfl rfl rfl hstored fun job hj => Or.inl ?_
    cases hj
    exact ⟨rfl, rfl⟩
  | @stopped job hj =>
    refine of_live rfl rfl rfl hstored fun job' hj' => ?_
    cases hj'
    rw [List.append_nil]
    exact hequip job hj
  | @killed job hj =>
    have hsome : v.job.isSome = true := by rw [hj]; rfl
    refine of_live hsome rfl rfl hstored fun job' hj' => ?_
    rw [List.append_nil]
    exact hequip job' hj'
  | startedAbsent hj =>
    refine h.same rfl rfl (fun hs => hs) (fun hsome => ?_) (fun ha => ?_)
    · rw [hj] at hsome; cases hsome
    · rcases ha with ha | ha
      · exact ha
      · cases ha
  | quiet hq =>
    have hnot := Action.not_launch_of_isQuiet hq
    refine h.same rfl rfl (fun hs => hs) (fun _ => ?_) (fun ha => ?_)
    · rw [List.countP_cons_of_neg (Bool.eq_false_iff.mp hnot.2.1), List.append_nil]
    · rcases ha with ha | ha
      · exact ha
      · rw [Action.not_admission_of_isQuiet hq] at ha
        cases ha
  | _ =>
    refine h.same rfl rfl (fun hs => by first | exact hs | rfl) (fun _ => ?_) (fun ha => ?_)
    · rw [List.countP_append]
      exact Nat.le_add_right _ _
    · rcases ha with ha | ha
      · exact ha
      · cases ha

/-- The step lemma. -/
theorem step {c c' : Config JobView Action} {l : Label} (h : OpenJob admitted c)
    (hstep : JobStep id c l c') (hopen : c.world.StaysOpen id l) :
    OpenJob (admitted ∨ AdmittedIn [l] id) c' := by
  cases hstep with
  | @own v a rest o v₁ out v' hid hout hev =>
    have hnext := outcome hout hopen h
    apply hnext.same hev.job hev.lifecycle hev.stored_none (fun _ => le_rfl)
    rintro (ha | ⟨l, hl, hadm, -⟩)
    · exact Or.inl ha
    · rw [Label.pops_pop, List.mem_singleton] at hl
      rw [hl] at hadm
      exact Or.inr hadm
  | @other v v' q a o hid hev =>
    apply h.same hev.job hev.lifecycle hev.stored_none (fun _ => le_rfl)
    rintro (ha | ⟨l, hl, -, hadm⟩)
    · exact ha
    · rw [Label.pops_pop, List.mem_singleton] at hl
      rw [hl] at hadm
      exact absurd hadm hid
  | feed hacts hready =>
    refine h.same rfl rfl (fun hs => hs) (fun _ => Nat.zero_le _) ?_
    rintro (ha | ⟨l, hl, -⟩)
    · exact ha
    · cases hl

end OpenJob

theorem admittedIn_append {t u : List Label} {id : JobId} :
    AdmittedIn (t ++ u) id ↔ AdmittedIn t id ∨ AdmittedIn u id := by
  unfold AdmittedIn
  rw [Label.pops_append]
  simp only [List.mem_append, or_and_right, exists_or]

/-- The run lemma. -/
theorem OpenJob.run {maxJobs : ℕ} {x : σ} {t : List Label} {c : Loop σ} {id : JobId}
    (h : Run (Loop.OpenStep E id) (.init maxJobs x) t c) :
    OpenJob (AdmittedIn t id) (c.own id) := by
  let inv : List Label → Loop σ → Prop := fun t c => OpenJob (AdmittedIn t id) (c.own id)
  have hinit : inv [] (.init maxJobs x) := by
    have hview : (Loop.init maxJobs x).world.view id = ⟨none, none, none, none⟩ := rfl
    unfold inv Loop.own
    rw [hview]
    constructor
    · simp
    · simp
    · intro job hj
      cases hj
    · rfl
    · rintro ⟨l, hl, -⟩
      cases hl
  have hstep : ∀ past c l c', inv past c → Loop.OpenStep E id c l c' → inv (past ++ [l]) c' := by
    rintro past c l c' hc ⟨hs, hopen⟩
    show OpenJob (AdmittedIn (past ++ [l]) id) (c'.own id)
    rw [admittedIn_append]
    exact hc.step (hs.own id) hopen
  exact h.invariant_trace [] hstep hinit

/-! ## Jobs that end -/

/-- What holds of a job that is submitted at most once: before its start it has no process and
no `Finished` is queued for it; a job with a process was started, and only such a job finishes. -/
structure Orderly (starts : ℕ) (c : Config JobView Action) : Prop where
  idle : starts = 0 → (∀ job, c.world.job = some job → job.process = none) ∧
    c.queue.countP Action.isFinish = 0 ∧
      (0 < c.queue.countP Action.isStart → c.world.job.isSome = true)
  running : ∀ job, c.world.job = some job → job.process.isSome = true →
    ∃ l, c.world.lifecycle = some l ∧ l.isStarted = true
  finishing : 0 < c.queue.countP Action.isFinish → ∀ job, c.world.job = some job →
    job.process.isSome = true

/-- The entries of a job that ended: they disagree, and nothing is queued that would mend it. -/
def Spoiled (c : Config JobView Action) : Prop :=
  (c.world.job = none ∧ ∃ l, c.world.lifecycle = some l ∧ l.isStarted = true) ∨
    ∃ job, c.world.job = some job ∧ job.process = none ∧ c.world.lifecycle = some .finished ∧
      c.queue.countP Action.isFinish = 0 ∧ c.queue.countP Action.isSignal = 0

theorem Spoiled.not_consistent {admitted : Prop} {v : JobView} {q : List Action}
    (h : Spoiled ⟨v, q⟩) : ¬ v.Consistent admitted := by
  intro hv
  rcases h with ⟨hnone, l, hl, hstarted⟩ | ⟨job, hjob, -, hl, -⟩
  · rcases hv.handles l hl hstarted with ⟨job, hjob, -⟩
    rw [show v.job = none from hnone] at hjob
    cases hjob
  · rcases hv.live.mp (by rw [show v.job = some job from hjob]; rfl) with ⟨l, hl', hlive⟩
    rw [show v.lifecycle = some .finished from hl, Option.some.injEq] at hl'
    rw [← hl'] at hlive
    cases hlive

section Ended

variable {id : JobId} {fed starts : ℕ} {v v' : JobView} {o : PopLog} {a : Action}
  {out rest : List Action}

/-- While an action that launches the job is queued, it is the only one. -/
theorem Launch.alone (h : Launch fed starts ⟨v, a :: rest⟩) (hfed : fed ≤ 1)
    (ha : a.isWaiting = true ∨ a.isStart = true) : starts = 0 := by
  have htok := h.tokens
  dsimp only at htok
  rcases ha with ha | ha
  · rw [List.countP_cons_of_pos ha] at htok
    omega
  · rw [List.countP_cons_of_pos ha] at htok
    omega

/-- A pop of the job's own keeps it orderly. -/
theorem Orderly.outcome (hout : v.Outcome id o a v' out) (hfed : fed ≤ 1)
    (hl : Launch fed starts ⟨v, a :: rest⟩) (h : Orderly starts ⟨v, a :: rest⟩) :
    Orderly (starts + if a.isStart then 1 else 0) ⟨v', rest ++ out⟩ := by
  rcases h with ⟨hidle, hrunning, hfinishing⟩
  dsimp only at hidle hrunning hfinishing
  cases hout with
  | @admitted owner exec policy =>
    have h0 := hl.alone hfed (Or.inl rfl)
    have hfin := (hidle h0).2.1
    have hnone : (rest ++ [Action.startProcess id exec policy, .emitLog .info (.submit id)]).countP
        Action.isFinish = 0 := by
      rw [List.countP_append]
      exact hfin
    refine ⟨fun _ => ⟨?_, hnone, fun _ => rfl⟩, ?_, ?_⟩
    · rintro job ⟨⟩
      rfl
    · rintro job ⟨⟩ hp
      cases hp
    · intro hpos
      dsimp only at hpos
      omega
  | started hj =>
    refine ⟨fun h0 => absurd h0 (Nat.succ_ne_zero starts), ?_, ?_⟩
    · exact fun _ _ _ => ⟨.running, rfl, rfl⟩
    · rintro _ job ⟨⟩
      rfl
  | startedAbsent hj =>
    refine ⟨fun h0 => absurd h0 (Nat.succ_ne_zero starts), ?_, ?_⟩
    · intro job hjob
      rw [hj] at hjob
      cases hjob
    · intro _ job hjob
      rw [hj] at hjob
      cases hjob
  | startFailed =>
    have hfree := hidle (hl.alone hfed (Or.inr rfl))
    refine ⟨fun h0 => absurd h0 (Nat.succ_ne_zero starts), ?_, ?_⟩
    · intro job hjob hp
      rw [hfree.1 job hjob] at hp
      cases hp
    · intro hpos
      have hfin := hfree.2.1
      rw [List.countP_cons_of_neg (by simp [Action.isFinish])] at hfin
      change 0 < (rest ++ _).countP Action.isFinish at hpos
      rw [List.countP_append, hfin] at hpos
      cases hpos
  | @stopped job hj =>
    rw [List.append_nil]
    refine ⟨fun h0 => ?_, ?_, ?_⟩
    · rcases hidle h0 with ⟨hproc, hfin, hstart⟩
      refine ⟨?_, hfin, fun _ => rfl⟩
      rintro job' ⟨⟩
      exact hproc job hj
    · exact fun _ _ _ => ⟨.terminating, rfl, rfl⟩
    · rintro hpos job' ⟨⟩
      exact hfinishing hpos job hj
  | killed hj =>
    rw [List.append_nil]
    exact ⟨hidle, fun _ _ _ => ⟨.killed, rfl, rfl⟩, hfinishing⟩
  | @exited job process status hj hp =>
    have hstarted : starts ≠ 0 := by
      intro h0
      have hnone := (hidle h0).1 job hj
      rw [hp] at hnone
      cases hnone
    refine ⟨fun h0 => absurd h0 hstarted, hrunning, ?_⟩
    intro _ job' hj'
    rw [hj, Option.some.injEq] at hj'
    rw [← hj', hp]
    rfl
  | finished =>
    refine ⟨fun h0 => absurd (hidle h0).2.1 ?_, ?_, ?_⟩
    · rw [List.countP_cons_of_pos rfl]
      exact Nat.succ_ne_zero _
    · rintro job ⟨⟩
    · rintro _ job ⟨⟩
  | finishedAbsent hj =>
    refine ⟨fun h0 => absurd (hidle h0).2.1 ?_, hrunning, ?_⟩
    · rw [List.countP_cons_of_pos rfl]
      exact Nat.succ_ne_zero _
    · intro _ job hjob
      rw [hj] at hjob
      cases hjob
  | quiet hq =>
    have hstart := (Action.not_launch_of_isQuiet hq).2.1
    have hfin := Action.not_finish_of_isQuiet hq
    rw [List.countP_cons_of_neg (Bool.eq_false_iff.mp hstart),
      List.countP_cons_of_neg (Bool.eq_false_iff.mp hfin)] at hidle
    rw [List.countP_cons_of_neg (Bool.eq_false_iff.mp hfin)] at hfinishing
    rw [hstart, List.append_nil]
    exact ⟨hidle, hrunning, hfinishing⟩
  | _ =>
    -- neither the action nor its follow-ups are counted
    refine ⟨fun h0 => ?_, hrunning, ?_⟩
    · dsimp only
      rw [List.countP_append, List.countP_append]
      exact hidle h0
    · dsimp only
      rw [List.countP_append]
      exact hfinishing

/-- A step that ends an orderly job spoils its entries. -/
theorem Orderly.spoils (hout : v.Outcome id o a v' out) (hfed : fed ≤ 1)
    (hl : Launch fed starts ⟨v, a :: rest⟩) (h : Orderly starts ⟨v, a :: rest⟩)
    (hends : ¬ v.StaysOpen id (.pop a o)) :
    1 ≤ (starts + if a.isStart then 1 else 0) ∧ Spoiled ⟨v', rest ++ out⟩ := by
  cases hout with
  | @startFailed exec policy err =>
    have h0 := hl.alone hfed (Or.inr rfl)
    rcases h.idle h0 with ⟨hproc, hfin, hthere⟩
    have hsome := hthere (by
      rw [List.countP_cons_of_pos rfl]
      omega)
    rcases Option.isSome_iff_exists.mp hsome with ⟨job, hjob⟩
    have hsig : (Action.startProcess id exec policy :: rest).countP Action.isSignal = 0 := by
      by_contra hpos
      have hstart := (hl.signalled (Nat.pos_of_ne_zero hpos)).2.1
      rw [List.countP_cons_of_pos rfl] at hstart
      cases hstart
    refine ⟨Nat.succ_le_succ (Nat.zero_le _), Or.inr ⟨job, hjob, hproc job hjob, rfl, ?_, ?_⟩⟩
    · rw [List.countP_append]
      exact hfin
    · rw [List.countP_append]
      exact hsig
  | @finished result job hj =>
    have hp := h.finishing (by rw [List.countP_cons_of_pos rfl]; omega) job hj
    have hstarted : starts ≠ 0 := by
      intro h0
      rw [(h.idle h0).1 job hj] at hp
      cases hp
    exact ⟨Nat.one_le_iff_ne_zero.mpr hstarted, Or.inl ⟨rfl, h.running job hj hp⟩⟩
  | finishedAbsent hj => exact absurd (fun _ => hj) hends
  | started _ heffs hevs | startedAbsent _ heffs hevs =>
    refine absurd (fun _ err herr => ?_) hends
    rw [hevs, List.cons.injEq] at herr
    cases herr.1
  | quiet hq => cases a <;> first | exact absurd trivial hends | cases hq
  | _ => exact absurd trivial hends

/-- Once a job has ended, a pop of its own mends nothing. -/
theorem Spoiled.outcome (hout : v.Outcome id o a v' out) (hfed : fed ≤ 1) (hs : 1 ≤ starts)
    (hl : Launch fed starts ⟨v, a :: rest⟩) (h : Spoiled ⟨v, a :: rest⟩) :
    Spoiled ⟨v', rest ++ out⟩ := by
  have hnot : a.isWaiting = false ∧ a.isStart = false := by
    constructor
    · by_contra ha
      have := hl.alone hfed (Or.inl ((Bool.not_eq_false _).mp ha))
      omega
    · by_contra ha
      have := hl.alone hfed (Or.inr ((Bool.not_eq_false _).mp ha))
      omega
  rcases h with ⟨hnone, hlife⟩ | ⟨job, hjob, hproc, hlife, hfin, hsig⟩
  · -- the job is gone
    left
    dsimp only at hnone hlife ⊢
    cases hout with
    | refused | letIn | admitted => cases hnot.1
    | started | startedAbsent | startFailed => cases hnot.2
    | stopped hj | killed hj | exited hj | finished hj => rw [hnone] at hj; cases hj
    | _ => exact ⟨hnone, hlife⟩
  · -- the job has no process, so that it is neither signalled nor found to have exited
    right
    dsimp only at hjob hlife hfin hsig ⊢
    have hquiet : v.signalable = false := by
      unfold JobView.signalable
      rw [hjob]
      dsimp only
      rw [hproc]
      rfl
    cases hout with
    | refused | letIn | admitted => cases hnot.1
    | started | startedAbsent | startFailed => cases hnot.2
    | stopped | killed | signalAbsent =>
      rw [List.countP_cons_of_pos rfl] at hsig
      cases hsig
    | finished | finishedAbsent =>
      rw [List.countP_cons_of_pos rfl] at hfin
      cases hfin
    | exited hj hp =>
      rw [hjob, Option.some.injEq] at hj
      rw [← hj, hproc] at hp
      cases hp
    | controlled hc | timedOut hc | graceOver hc => rw [hquiet] at hc; cases hc
    | quiet =>
      rw [List.countP_cons] at hfin hsig
      rw [List.append_nil]
      exact ⟨job, hjob, hproc, hlife, by omega, by omega⟩
    | _ =>
      refine ⟨job, hjob, hproc, hlife, ?_, ?_⟩
      · rw [List.countP_append]
        exact hfin
      · rw [List.countP_append]
        exact hsig

end Ended

/-- What the labels so far did to a job that is submitted at most once: the job never ended, or
its entries are spoiled. `neverEnded` stands for the first. -/
structure Ended (id : JobId) (past : List Label) (neverEnded : Prop)
    (c : Config JobView Action) : Prop where
  launch : Launch ((submitted past).count id) (startsOf id past).length c
  orderly : Orderly (startsOf id past).length c
  ended : neverEnded ∨ 1 ≤ (startsOf id past).length ∧ Spoiled c

/-- Evictions and other jobs' pops do not matter. -/
theorem Orderly.evicted {starts : ℕ} {v v' : JobView} {q : List Action}
    (h : Orderly starts ⟨v, q⟩) (hev : v.Evicted v') : Orderly starts ⟨v', q⟩ := by
  rcases h with ⟨hidle, hrunning, hfinishing⟩
  dsimp only at hidle hrunning hfinishing
  constructor <;> dsimp only <;> rw [hev.job]
  · exact hidle
  · rw [hev.lifecycle]
    exact hrunning
  · exact hfinishing

theorem Spoiled.evicted {v v' : JobView} {q : List Action} (h : Spoiled ⟨v, q⟩)
    (hev : v.Evicted v') : Spoiled ⟨v', q⟩ := by
  unfold Spoiled at h ⊢
  dsimp only at h ⊢
  rw [hev.job, hev.lifecycle]
  exact h

/-- Inputs queue no `Finished` and no signal. -/
theorem fed_unfinished {id : JobId} {acts ready : List Action}
    (hacts : ∀ a ∈ acts, a.isInput = true) (hready : ∀ a ∈ ready, a = .performIo id) :
    (ownPart Action.jobId id acts ++ ready).countP Action.isFinish = 0 ∧
      (ownPart Action.jobId id acts ++ ready).countP Action.isSignal = 0 := by
  rw [List.countP_append, List.countP_append, ready_count hready rfl, ready_count hready rfl,
    (input_counts id hacts).2.2]
  refine ⟨?_, rfl⟩
  rw [Nat.add_zero, List.countP_eq_zero]
  intro a ha
  rw [(Action.not_finish_of_isInput (hacts a (List.mem_of_mem_filter ha))).1]
  exact Bool.false_ne_true

/-- The step lemma. -/
theorem Ended.step {id : JobId} {past : List Label} {l : Label} {never never' : Prop}
    {c c' : Config JobView Action} (h : Ended id past never c) (hstep : JobStep id c l c')
    (hcount : (submitted (past ++ [l])).count id ≤ 1)
    (hopen : never → c.world.StaysOpen id l → never') : Ended id (past ++ [l]) never' c' := by
  have hfed : (submitted past).count id ≤ 1 := by
    rw [submitted_append, List.count_append] at hcount
    omega
  have hlaunch := Launch.step (fun _ => h.launch) hstep hcount
  refine ⟨hlaunch, ?_, ?_⟩ <;> clear hlaunch <;> rw [startsOf_append, List.length_append]
  · cases hstep with
    | @own v a rest o v₁ out v' hid hout hev =>
      rw [startsOf_pop hid]
      exact (h.orderly.outcome hout hfed h.launch).evicted hev
    | @other v v' q a o hid hev =>
      rw [startsOf_pop_other hid]
      exact h.orderly.evicted hev
    | @feed v acts events ready hacts hready =>
      show Orderly ((startsOf id past).length + 0) _
      have hfin := (fed_unfinished hacts hready).1
      refine ⟨fun h0 => ⟨(h.orderly.idle h0).1, hfin, fun hpos => ?_⟩, h.orderly.running, ?_⟩
      · rw [List.countP_append, ready_count hready rfl, (input_counts id hacts).2.1] at hpos
        cases hpos
      · rw [hfin]
        intro hpos
        cases hpos
  · cases hstep with
    | @own v a rest o v₁ out v' hid hout hev =>
      rw [startsOf_pop hid]
      rcases h.ended with hnever | ⟨hs, hspoiled⟩
      · by_cases hl : v.StaysOpen id (.pop a o)
        · exact Or.inl (hopen hnever hl)
        · have hspoils := h.orderly.spoils hout hfed h.launch hl
          exact Or.inr ⟨hspoils.1, hspoils.2.evicted hev⟩
      · exact Or.inr ⟨by omega, (hspoiled.outcome hout hfed hs h.launch).evicted hev⟩
    | @other v v' q a o hid hev =>
      rcases h.ended with hnever | ⟨hs, hspoiled⟩
      · left
        refine hopen hnever ?_
        unfold JobView.StaysOpen
        split
        · next heq => cases heq; exact fun hi => absurd hi hid
        · next heq => cases heq; exact fun hi => absurd hi hid
        · trivial
      · exact Or.inr ⟨by omega, hspoiled.evicted hev⟩
    | @feed v acts events ready hacts hready =>
      rcases h.ended with hnever | ⟨hs, hspoiled⟩
      · exact Or.inl (hopen hnever trivial)
      · refine Or.inr ⟨by omega, ?_⟩
        rcases hspoiled with hgone | ⟨job, hjob, hproc, hlife, -, -⟩
        · exact Or.inl hgone
        · have hnone := fed_unfinished hacts hready
          exact Or.inr ⟨job, hjob, hproc, hlife, hnone.1, hnone.2⟩

/-- The run lemma. -/
theorem Ended.run {maxJobs : ℕ} {x : σ} {t : List Label} {c : Loop σ} {id : JobId}
    (h : Run (Loop.Step E) (.init maxJobs x) t c) (hcount : (submitted t).count id ≤ 1) :
    Ended id t (Run (Loop.OpenStep E id) (.init maxJobs x) t c) (c.own id) := by
  let inv : List Label → Loop σ → Prop := fun t c => (submitted t).count id ≤ 1 →
    Ended id t (Run (Loop.OpenStep E id) (.init maxJobs x) t c) (c.own id)
  have hinit : inv [] (.init maxJobs x) := by
    intro hfed
    have hnone : (Loop.init maxJobs x : Loop σ).own id = ⟨⟨none, none, none, none⟩, []⟩ := rfl
    rw [hnone]
    refine ⟨.run (.nil _) rfl rfl hfed, ⟨fun _ => ⟨?_, rfl, ?_⟩, ?_, ?_⟩, Or.inl (.nil _)⟩
    · rintro job ⟨⟩
    · intro hpos
      cases hpos
    · rintro job ⟨⟩
    · intro hpos
      cases hpos
  have hstep : ∀ past c l c', inv past c → Loop.Step E c l c' → inv (past ++ [l]) c' := by
    intro past c l c' hc hs hfed
    have hpast : (submitted past).count id ≤ 1 := by
      rw [submitted_append, List.count_append] at hfed
      omega
    exact (hc hpast).step (hs.own id) hfed fun hrun hl => hrun.append (.single ⟨hs, hl⟩)
  have hrun : inv t c := h.invariant_trace [] hstep hinit
  exact hrun hcount

/-- In every state with an empty queue that is reached without a failing start of the job and
without a `Finished` that finds it, the maps are consistent about the job; and about a job that
is submitted at most once they are consistent in no other state with an empty queue. -/
theorem maps_consistent {maxJobs : ℕ} {x : σ} {t : List Label} {c : Loop σ}
    (hrun : Run (Loop.Step E) (.init maxJobs x) t c) (hq : c.queue = []) (id : JobId) :
    (Run (Loop.OpenStep E id) (.init maxJobs x) t c →
      (c.world.view id).Consistent (AdmittedIn t id)) ∧
    ((submitted t).count id ≤ 1 → (c.world.view id).Consistent (AdmittedIn t id) →
      Run (Loop.OpenStep E id) (.init maxJobs x) t c) := by
  have hown : c.own id = ⟨c.world.view id, []⟩ := by
    unfold Loop.own
    rw [hq]
    rfl
  constructor
  · intro hopen
    have h := OpenJob.run hopen
    rw [hown] at h
    exact h.consistent
  · intro hcount hcons
    have h := Ended.run hrun hcount
    rw [hown] at h
    rcases h.ended with hnever | ⟨-, hspoiled⟩
    · exact hnever
    · exact absurd hcons hspoiled.not_consistent

/-- A run without a failed start and without a `Finished` is one of open steps. -/
theorem Loop.open_of_labels {c c' : Loop σ} {t : List Label} {id : JobId}
    (h : Run (Loop.Step E) c t c')
    (ht : ∀ l ∈ Label.pops t, l.1.isFinish = false ∧ ∀ ev ∈ l.2.events, ev.isFailure = false) :
    Run (Loop.OpenStep E id) c t c' := by
  induction h with
  | nil => exact .nil _
  | @cons c l c₁ t c₂ hs _ ih =>
    have hrest : Run (Loop.OpenStep E id) c₁ t c₂ := by
      refine ih fun l' hl' => ht l' ?_
      have hsplit := Label.pops_append [l] t
      rw [List.singleton_append] at hsplit
      rw [hsplit]
      exact List.mem_append_right _ hl'
    refine .cons ⟨hs, ?_⟩ hrest
    cases l with
    | feed => trivial
    | pop a o =>
      have hlabel := ht _ (show (a, o) ∈ Label.pops (.pop a o :: t) from List.mem_cons_self)
      cases a with
      | finished => cases hlabel.1
      | startProcess =>
        intro _ err herr
        have hev := hlabel.2 (.processSpawnFailed _ err) (herr ▸ List.mem_cons_self)
        cases hev
      | _ => trivial

namespace EffectExecutor

theorem maps_consistent_started :
    (startJob.2.world.view 1).Consistent (AdmittedIn
      (.feed [.submit 1 0 .bare (.graceful (some 1))] [] :: Loop.popLabels startJob.1) 1) :=
  (maps_consistent startJob_run (by decide) 1).1 (Loop.open_of_labels startJob_run (by decide))

/-- The exit of the job's child is noticed, and the job finishes. -/
noncomputable def finishedJob : List (Action × PopLog) × Loop EffectExecutor :=
  Loop.batch executor [.pollProcess 1] (List.replicate 3 (.still 1, .exited)) startJob.2

/-- A finished job is out of the map, has a result, and is still said to be running. -/
theorem finished_job_inconsistent :
    ∃ t c, Run (Loop.Step executor) (.init 1 .new) t c ∧ (submitted t).Nodup ∧ c.queue = [] ∧
      c.world.state.jobs.get 1 = none ∧ c.world.state.lifecycle.get 1 = some .running ∧
      (c.world.state.results.get 1).isSome = true ∧
      ¬ (c.world.view 1).Consistent (AdmittedIn t 1) := by
  have hrun : Run (Loop.Step executor) startJob.2 _ finishedJob.2 :=
    Loop.batch_run executor _ (by decide) (by decide)
  have hstored : (finishedJob.2.world.state.results.get 1).isSome = true := by decide
  have hlife : finishedJob.2.world.state.lifecycle.get 1 = some .running := by decide
  refine ⟨_, finishedJob.2, startJob_run.append hrun, by decide, by decide, by decide, hlife,
    hstored, ?_⟩
  intro hcons
  have hfin : finishedJob.2.world.state.lifecycle.get 1 = some .finished := (hcons.stored hstored).2
  rw [hlife] at hfin
  cases hfin

end EffectExecutor
end CoreShift
