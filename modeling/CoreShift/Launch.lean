import CoreShift.JobRuns

/-!
# A job is launched once

A `Submit` becomes an `Admitted`, an `Admitted` a `StartProcess`. While one of the three is
queued for a job, the job has no process and no signal is under way; and if the ids of the
submissions are distinct, no job has two of them. This is the invariant `Launch`, from which
the handle of a job and the order of its signals follow.
-/

namespace CoreShift

open Utils WorkQueue

variable {σ α : Type}

namespace Action

/-- The job of this action is not created yet. -/
def isWaiting : Action → Bool
  | .submit .. | .admitted .. => true
  | _ => false

def isStart : Action → Bool
  | .startProcess .. => true
  | _ => false

def isSignal : Action → Bool
  | .signalProcess .. => true
  | _ => false

def isFinish : Action → Bool
  | .finished .. => true
  | _ => false

def isAdmission : Action → Bool
  | .admitted .. => true
  | _ => false

def isPoll : Action → Bool
  | .pollProcess .. => true
  | _ => false

/-- No input finishes or admits a job. -/
theorem not_finish_of_isInput {a : Action} (h : a.isInput = true) :
    a.isFinish = false ∧ a.isAdmission = false := by
  cases a <;> first | exact ⟨rfl, rfl⟩ | cases h

theorem not_launch_of_isQuiet {a : Action} (h : a.isQuiet = true) :
    a.isWaiting = false ∧ a.isStart = false ∧ a.isSignal = false := by
  cases a <;> first | exact ⟨rfl, rfl, rfl⟩ | cases h

theorem not_finish_of_isQuiet {a : Action} (h : a.isQuiet = true) : a.isFinish = false := by
  cases a <;> first | rfl | cases h

/-- The id that a submission brings. -/
def submitId : Action → Option JobId
  | .submit id _ _ _ => some id
  | _ => none

def isSubmit (a : Action) : Bool := a.submitId.isSome

end Action

/-- The ids submitted during a run. -/
def submitted (t : List Label) : List JobId := (Label.fed t).filterMap Action.submitId

/-- The process starts of a job during a run. -/
def startsOf (id : JobId) (t : List Label) : List (Action × PopLog) :=
  (Label.pops t).filter fun l => l.1.isStart && l.1.jobId == id

/-! ## Labels -/

namespace Label

@[simp] theorem pops_append (t u : List Label) : pops (t ++ u) = pops t ++ pops u :=
  List.filterMap_append

@[simp] theorem fed_append (t u : List Label) : fed (t ++ u) = fed t ++ fed u :=
  List.flatMap_append

@[simp] theorem pops_pop (a : Action) (o : PopLog) : pops [.pop a o] = [(a, o)] := rfl

@[simp] theorem pops_feed (acts : List Action) (events : List Event) :
    pops [.feed acts events] = [] := rfl

@[simp] theorem fed_pop (a : Action) (o : PopLog) : fed [.pop a o] = [] := rfl

@[simp] theorem fed_feed (acts : List Action) (events : List Event) :
    fed [.feed acts events] = acts := List.append_nil acts

end Label

theorem submitted_append (t u : List Label) : submitted (t ++ u) = submitted t ++ submitted u := by
  unfold submitted
  rw [Label.fed_append, List.filterMap_append]

theorem startsOf_append (id : JobId) (t u : List Label) :
    startsOf id (t ++ u) = startsOf id t ++ startsOf id u := by
  unfold startsOf
  rw [Label.pops_append, List.filter_append]

theorem startsOf_pop {id : JobId} {a : Action} {o : PopLog} (h : a.jobId = id) :
    (startsOf id [Label.pop a o]).length = if a.isStart then 1 else 0 := by
  unfold startsOf
  rw [Label.pops_pop, List.filter_singleton, h]
  cases a.isStart <;> simp

theorem startsOf_pop_other {id : JobId} {a : Action} {o : PopLog} (h : a.jobId ≠ id) :
    (startsOf id [Label.pop a o]).length = 0 := by
  unfold startsOf
  rw [Label.pops_pop, List.filter_singleton, beq_eq_false_iff_ne.mpr h]
  simp

/-- An input starts and signals nothing; it waits for admission if it is a submission. -/
theorem Action.input_kind {a : Action} (h : a.isInput = true) :
    a.isStart = false ∧ a.isSignal = false ∧
      ((a.isWaiting = true ∧ a.submitId = some a.jobId) ∨
        (a.isWaiting = false ∧ a.submitId = none)) := by
  cases a with
  | submit => exact ⟨rfl, rfl, Or.inl ⟨rfl, rfl⟩⟩
  | control | query | timeoutReached | killDeadlineReached | pollProcess =>
    exact ⟨rfl, rfl, Or.inr ⟨rfl, rfl⟩⟩
  | _ => cases h

/-- Inputs submit jobs; they do not admit, start or signal any. -/
theorem input_counts (id : JobId) {acts : List Action} (h : ∀ a ∈ acts, a.isInput = true) :
    (ownPart Action.jobId id acts).countP Action.isWaiting =
        (acts.filterMap Action.submitId).count id ∧
      (ownPart Action.jobId id acts).countP Action.isStart = 0 ∧
      (ownPart Action.jobId id acts).countP Action.isSignal = 0 := by
  induction acts with
  | nil => exact ⟨rfl, rfl, rfl⟩
  | cons a acts ih =>
    rcases ih fun b hb => h b (List.mem_cons_of_mem a hb) with ⟨hwait, hstart, hsignal⟩
    rcases Action.input_kind (h a List.mem_cons_self) with ⟨hs, hg, hkind⟩
    by_cases hid : a.jobId = id
    · rw [ownPart_cons_self hid]
      refine ⟨?_, ?_, ?_⟩
      · rcases hkind with ⟨hw, hsub⟩ | ⟨hw, hsub⟩
        · rw [List.countP_cons_of_pos hw, List.filterMap_cons_some hsub, hid,
            List.count_cons_self, hwait]
        · rw [List.countP_cons_of_neg (Bool.eq_false_iff.mp hw),
            List.filterMap_cons_none hsub, hwait]
      · rw [List.countP_cons_of_neg (Bool.eq_false_iff.mp hs), hstart]
      · rw [List.countP_cons_of_neg (Bool.eq_false_iff.mp hg), hsignal]
    · rw [ownPart_cons_other hid]
      refine ⟨?_, hstart, hsignal⟩
      rcases hkind with ⟨-, hsub⟩ | ⟨-, hsub⟩
      · rw [List.filterMap_cons_some hsub, List.count_cons_of_ne hid, hwait]
      · rw [List.filterMap_cons_none hsub, hwait]

/-- The io that readiness asks for is none of the counted actions. -/
theorem ready_count {id : JobId} {ready : List Action} (h : ∀ a ∈ ready, a = .performIo id)
    {q : Action → Bool} (hq : q (.performIo id) = false) : ready.countP q = 0 := by
  rw [List.countP_eq_zero]
  intro a ha
  rw [h a ha, hq]
  exact Bool.false_ne_true

theorem submitted_feed (acts : List Action) (events : List Event) :
    submitted [.feed acts events] = acts.filterMap Action.submitId := by
  unfold submitted
  rw [Label.fed_feed]

/-! ## The invariant -/

/-- The invariant of one job, when `fed` submissions of its id were fed and `starts` starts
were popped. -/
structure Launch (fed starts : ℕ) (c : Config JobView Action) : Prop where
  tokens : c.queue.countP Action.isWaiting + c.queue.countP Action.isStart + starts ≤ fed
  born : c.world.job.isSome → 1 ≤ fed
  waiting : c.world.job.isSome → c.queue.countP Action.isWaiting = 0
  starting : ∀ job, c.world.job = some job → job.process.isSome →
    c.queue.countP Action.isStart = 0
  signalled : 0 < c.queue.countP Action.isSignal →
    c.queue.countP Action.isWaiting = 0 ∧ c.queue.countP Action.isStart = 0 ∧ 1 ≤ fed ∧
      ∀ job, c.world.job = some job → job.process.isSome

namespace Launch

variable {fed starts starts' : ℕ} {v v' : JobView} {q q' : List Action}

/-- The invariant survives a step that adds no token and no signal, and leaves the process
of the job as it was, or removes the job. -/
theorem keep (h : Launch fed starts ⟨v, q⟩)
    (hjob : ∀ job', v'.job = some job' → ∃ job, v.job = some job ∧ job'.process = job.process)
    (hw : q'.countP Action.isWaiting ≤ q.countP Action.isWaiting)
    (hs : q'.countP Action.isStart + starts' ≤ q.countP Action.isStart + starts)
    (hs' : q'.countP Action.isStart ≤ q.countP Action.isStart)
    (hg : q'.countP Action.isSignal ≤ q.countP Action.isSignal) :
    Launch fed starts' ⟨v', q'⟩ := by
  have hsome : v'.job.isSome → v.job.isSome := by
    intro hv
    rcases Option.isSome_iff_exists.mp hv with ⟨job', hj'⟩
    rcases hjob job' hj' with ⟨job, hj, -⟩
    rw [hj]; rfl
  rcases h with ⟨htok, hborn, hwait, hstart, hsig⟩
  dsimp only at htok hborn hwait hstart hsig
  constructor <;> dsimp only
  · omega
  · exact fun hv => hborn (hsome hv)
  · intro hv
    have := hwait (hsome hv)
    omega
  · intro job' hj' hp
    rcases hjob job' hj' with ⟨job, hj, heq⟩
    have := hstart job hj (heq ▸ hp)
    omega
  · intro hpos
    rcases hsig (by omega) with ⟨h1, h2, h3, h4⟩
    refine ⟨by omega, by omega, h3, ?_⟩
    intro job' hj'
    rcases hjob job' hj' with ⟨job, hj, heq⟩
    rw [heq]
    exact h4 job hj

/-- No signal is queued while the job waits or is to be started. -/
theorem no_signal (h : Launch fed starts ⟨v, q⟩) {a : Action} (hmem : a ∈ q)
    (ha : a.isWaiting = true ∨ a.isStart = true) : q.countP Action.isSignal = 0 := by
  by_contra hsig
  have ⟨hwait, hstart, _⟩ := h.signalled (Nat.pos_of_ne_zero hsig)
  rw [List.countP_eq_zero] at hwait hstart
  rcases ha with ha | ha
  · exact hwait a hmem ha
  · exact hstart a hmem ha

/-- A job of another view with the same entry. -/
theorem same_job {v v' : JobView} (h : v'.job = v.job) :
    ∀ job', v'.job = some job' → ∃ job, v.job = some job ∧ job'.process = job.process :=
  fun job' hj => ⟨job', h ▸ hj, rfl⟩

/-- A pop of the job's own keeps the invariant; a popped start is counted. -/
theorem outcome {id : JobId} {o : PopLog} {a : Action} {out rest : List Action}
    (hout : v.Outcome id o a v' out) (hfed : fed ≤ 1) (h : Launch fed starts ⟨v, a :: rest⟩) :
    Launch fed (starts + if a.isStart then 1 else 0) ⟨v', rest ++ out⟩ := by
  cases hout with
  | refused | letIn | startedAbsent | startFailed | killed | signalAbsent | exited | running
  | unpolled | finishedAbsent | queried | queriedNone | controlDropped | timeoutDropped
  | graceDropped =>
    refine h.keep (same_job ?_) ?_ ?_ ?_ ?_
    · rfl
    all_goals simp [Action.isWaiting, Action.isStart, Action.isSignal, JobView.interests,
      List.countP_cons] <;> omega
  | quiet hq =>
    rcases Action.not_launch_of_isQuiet hq with ⟨hw, hs, hg⟩
    refine h.keep (same_job rfl) ?_ ?_ ?_ ?_
    all_goals simp [hw, hs, hg]
  | @stopped job hj =>
    refine h.keep (fun job' hj' => ⟨job, hj, by cases hj'; rfl⟩) ?_ ?_ ?_ ?_
    all_goals simp [Action.isWaiting, Action.isStart, Action.isSignal, List.countP_cons]
  | finished hj =>
    refine h.keep (fun job' hj' => by cases hj') ?_ ?_ ?_ ?_
    all_goals simp [Action.isWaiting, Action.isStart, Action.isSignal]
  | admitted =>
    have hnosig := h.no_signal List.mem_cons_self (Or.inl rfl)
    have htok := h.tokens
    simp only [List.countP_cons, Action.isWaiting, Action.isStart, Action.isSignal, if_true,
      Bool.false_eq_true, if_false] at htok hnosig ⊢
    constructor <;> dsimp only
    · rw [List.countP_append, List.countP_append]
      show _ + 0 + (_ + 1) + _ ≤ _
      omega
    · intro _
      omega
    · intro _
      rw [List.countP_append]
      show _ + 0 = 0
      omega
    · intro job hj hp
      cases hj
      cases hp
    · rw [List.countP_append]
      show 0 < rest.countP Action.isSignal + 0 → _
      intro hpos
      omega
  | @started exec policy job process io hj =>
    have hnosig := h.no_signal List.mem_cons_self (Or.inr rfl)
    rcases h with ⟨htok, hborn, hwait, -, -⟩
    have hw := hwait (by rw [hj]; rfl)
    have hb := hborn (by rw [hj]; rfl)
    simp only [List.countP_cons, Action.isWaiting, Action.isStart, Action.isSignal, if_true,
      Bool.false_eq_true, if_false] at htok hw hnosig ⊢
    constructor <;> dsimp only
    · rw [List.countP_append, List.countP_append]
      show _ + 0 + (_ + 0) + _ ≤ _
      omega
    · exact fun _ => hb
    · intro _
      rw [List.countP_append]
      exact hw
    · intro _ _ _
      rw [List.countP_append]
      show _ + 0 = 0
      omega
    · rw [List.countP_append]
      show 0 < rest.countP Action.isSignal + 0 → _
      intro hpos
      omega
  | controlled hs | timedOut hs | graceOver hs =>
    rcases JobView.signalable_iff.mp hs with ⟨job, hj, hp, -⟩
    rcases h with ⟨htok, hborn, hwait, hstart, -⟩
    have hw := hwait (by rw [hj]; rfl)
    have hb := hborn (by rw [hj]; rfl)
    have hst := hstart job hj hp
    simp only [List.countP_cons, Action.isWaiting, Action.isStart,
      Bool.false_eq_true, if_false] at htok hw hst ⊢
    constructor <;> dsimp only
    · rw [List.countP_append, List.countP_append]
      show _ + 0 + (_ + 0) + _ ≤ _
      omega
    · exact hborn
    · intro _
      rw [List.countP_append]
      exact hw
    · intro _ _ _
      rw [List.countP_append]
      exact hst
    · intro _
      rw [List.countP_append, List.countP_append]
      refine ⟨hw, hst, hb, ?_⟩
      intro job' hj'
      rw [hj, Option.some.injEq] at hj'
      rwa [← hj']

/-- A feed may submit the job, if it was not submitted before. -/
theorem feed {id : JobId} {acts ready : List Action} {n : ℕ}
    (hacts : ∀ a ∈ acts, a.isInput = true) (hready : ∀ a ∈ ready, a = .performIo id)
    (hn : n = (acts.filterMap Action.submitId).count id) (hfed : fed + n ≤ 1)
    (h : Launch fed starts ⟨v, []⟩) :
    Launch (fed + n) starts ⟨v, ownPart Action.jobId id acts ++ ready⟩ := by
  rcases input_counts id hacts with ⟨hw, hs, hg⟩
  rcases h with ⟨htok, hborn, -, -, -⟩
  dsimp only at htok hborn
  rw [List.countP_nil, List.countP_nil] at htok
  have hborn' : v.job.isSome → n = 0 := by
    intro hv
    have := hborn hv
    omega
  constructor <;> dsimp only
  · rw [List.countP_append, List.countP_append, ready_count hready rfl, ready_count hready rfl,
      hw, hs]
    omega
  · intro hv
    have := hborn hv
    omega
  · intro hv
    rw [List.countP_append, ready_count hready rfl, hw, ← hn, hborn' hv]
  · intro _ _ _
    rw [List.countP_append, ready_count hready rfl, hs]
  · rw [List.countP_append, ready_count hready rfl, hg]
    intro hpos
    cases hpos

/-- The invariant after the labels `past`. -/
def After (id : JobId) (past : List Label) (c : Config JobView Action) : Prop :=
  (submitted past).count id ≤ 1 →
    Launch ((submitted past).count id) (startsOf id past).length c

/-- The step lemma. -/
theorem step {id : JobId} {past : List Label} {c c' : Config JobView Action} {l : Label}
    (h : After id past c) (hstep : JobStep id c l c') : After id (past ++ [l]) c' := by
  intro hfed
  rw [submitted_append, List.count_append] at hfed ⊢
  rw [startsOf_append, List.length_append]
  have hpast := h (by omega)
  cases hstep with
  | @own v a rest o v₁ out v' hid hout hev =>
    have hkeep := hpast.outcome hout (by omega)
    rw [startsOf_pop hid]
    exact hkeep.keep (same_job hev.job) le_rfl le_rfl le_rfl le_rfl
  | @other v v' q a o hid hev =>
    rw [startsOf_pop_other hid]
    exact hpast.keep (same_job hev.job) le_rfl le_rfl le_rfl le_rfl
  | @feed v acts events ready hacts hready =>
    rw [submitted_feed] at hfed ⊢
    exact hpast.feed hacts hready rfl hfed

/-- The run lemma: from a state without the job, whatever is fed, as long as the job is
submitted at most once. -/
theorem run {id : JobId} {c c' : Config JobView Action} {t : List Label}
    (hrun : Run (JobStep id) c t c') (hjob : c.world.job = none) (hq : c.queue = [])
    (hfed : (submitted t).count id ≤ 1) :
    Launch ((submitted t).count id) (startsOf id t).length c' := by
  have hinit : After id [] c := by
    intro _
    constructor
    · rw [hq]; exact le_rfl
    · rw [hjob]; intro hf; cases hf
    · rw [hjob]; intro hf; cases hf
    · intro job hj; rw [hjob] at hj; cases hj
    · rw [hq]; intro hf; cases hf
  exact hrun.invariant_trace [] (fun _ _ _ _ => step) hinit hfed

end Launch
end CoreShift
