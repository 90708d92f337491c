import CoreShift.Order
import CoreShift.TimedOut

/-!
# What the log says

An action that happens in the core emits its line of the log behind everything that is queued,
and the line reaches the sink when it is popped. So the sink lags behind the loop, but it tells
everything that happened, in the order in which it happened, and of each job a story that fits
what became of the job.
-/

namespace CoreShift

open Utils WorkQueue

open EffectExecutor (executor)

/-- A line of the log before it is turned into text. -/
abbrev LogLine := LogLevel × LogEvent

def Action.line : Action → Option LogLine
  | .emitLog level event => some (level, event)
  | _ => none

def Effect.line : Effect → Option LogLine
  | .log level event => some (level, event)
  | _ => none

/-- The text that the sink gets. -/
def LogLine.text (line : LogLine) : LogLevel × String :=
  (line.1, EffectExecutor.logMessage line.2)

/-- The lines that some steps wrote. -/
def linesWritten (t : List Label) : List LogLine :=
  ((Label.pops t).flatMap fun l => l.2.effects).filterMap Effect.line

/-- What there is to tell about an action when it is handled. -/
def World.report {σ : Type} (w : World σ) (a : Action) (o : PopLog) : List LogLine :=
  match a with
  | .submit id _ _ _ =>
    if w.dispatcher.admission.activeJobs ≥ w.dispatcher.admission.maxJobs then
      [(.error, .error id
        ("max_jobs " ++ toString w.dispatcher.admission.maxJobs ++ " reached"))]
    else []
  | .admitted id _ _ _ => [(.info, .submit id)]
  | .startProcess _ _ _ =>
    o.events.flatMap fun
      | .processSpawnFailed id err => [(.error, .error id err)]
      | _ => []
  | .finished id result =>
    if (w.state.jobs.get id).isSome then [(.info, .exit id (JobView.statusOf result))] else []
  | _ => []

/-- What there is to tell about a step. -/
def Loop.report {σ : Type} (c : Loop σ) : Label → List LogLine
  | .pop a o => c.world.report a o
  | .feed _ _ => []

/-- All that there was to tell. -/
def reportsOf {σ : Type} (h : List (Loop.Moment σ)) : List LogLine :=
  h.flatMap fun m => m.before.report m.label

section Pop

variable {σ α : Type} {E : Executor σ α} {w w' : World σ} {a : Action} {o : PopLog}
  {out : List Action}

theorem JobView.Outcome.reports {id : JobId} {v' : JobView}
    (h : (w.view id).Outcome id o a v' out) (hsubmit : a.submitId = none) :
    out.filterMap Action.line = w.report a o := by
  cases h with
  | refused | letIn => cases hsubmit
  | admitted => rfl
  | started _ _ hev | startedAbsent _ _ hev | startFailed _ hev =>
    unfold World.report
    rw [hev]
    rfl
  | finished hjob =>
    have hsome : (w.state.jobs.get id).isSome = true := by
      rw [show w.state.jobs.get id = _ from hjob]
      rfl
    exact (if_pos hsome).symm
  | finishedAbsent hjob =>
    have hnone : ¬ (w.state.jobs.get id).isSome = true := by
      rw [show w.state.jobs.get id = _ from hjob]
      exact Bool.false_ne_true
    exact (if_neg hnone).symm
  | quiet hq => cases a <;> first | rfl | cases hq
  | _ => rfl

/-- The follow-ups of an action carry what there is to tell about it. -/
theorem World.Reacts.reports (h : World.Reacts E w a o out w') :
    out.filterMap Action.line = w.report a o := by
  cases a with
  | submit id owner exec policy =>
    have hout : out = (w.dispatcher.admission.handle (.submit id owner exec policy)).2 := h.out_eq
    rw [hout]
    unfold AdmissionControlModule.handle World.report
    dsimp only
    split <;> rfl
  | _ => exact h.outcome.reports rfl

/-- Only the popping of a line writes, and it writes the line. -/
theorem World.Reacts.lines (h : World.Reacts E w a o out w') :
    o.effects.filterMap Effect.line = a.line.toList := by
  by_cases hquiet : a.isQuiet = true
  · rw [h.effects_eq]
    cases a with
    | performIo id | registerInterest id stream | removeInterest id stream =>
      show ((w.view id).ioEffects _).filterMap Effect.line = []
      unfold JobView.ioEffects
      cases (w.view id).job.bind JobState.io <;> rfl
    | emitLog | rejected | started | controlled | queryResult => rfl
    | _ => cases hquiet
  · have hloud : a.isQuiet = false := Bool.eq_false_iff.mpr hquiet
    have hline : a.line = none := by cases a <;> first | rfl | cases hloud
    rw [hline, Option.toList_none, List.filterMap_eq_nil_iff]
    intro e he
    rcases h.outcome.loud_effect hloud he with
      ⟨_, _, _, rfl⟩ | ⟨_, _, _, _, _, _, _, rfl⟩ | ⟨_, _, _, _, rfl⟩ <;> rfl

end Pop

/-- Nothing is told from outside. -/
theorem Loop.feed_lines {σ : Type} (c : Loop σ) {acts : List Action} {events : List Event}
    (hacts : ∀ a ∈ acts, a.isInput = true) (hready : ∀ ev ∈ events, ev.isReady = true) :
    (c.feed acts events).queue.filterMap Action.line = [] := by
  have ⟨ready, hqueue, hio⟩ := c.feed_queue acts hready
  rw [hqueue, List.filterMap_eq_nil_iff]
  intro a ha
  rcases List.mem_append.mp ha with ha | ha
  · have hinput := hacts a ha
    cases a <;> first | rfl | cases hinput
  · have ⟨_, heq⟩ := hio a ha
    rw [heq]
    rfl

theorem linesWritten_append (t u : List Label) :
    linesWritten (t ++ u) = linesWritten t ++ linesWritten u := by
  unfold linesWritten
  rw [Label.pops_append, List.flatMap_append, List.filterMap_append]

theorem linesWritten_pop (a : Action) (o : PopLog) :
    linesWritten [.pop a o] = o.effects.filterMap Effect.line := by
  unfold linesWritten
  rw [Label.pops_pop, List.flatMap_singleton]

/-! ## The sink -/

theorem EffectExecutor.apply_sink (x : EffectExecutor) (e : Effect) (ans : OsAnswer) :
    (x.apply e ans).1.sink = x.sink ++ e.line.toList.map LogLine.text := by
  cases e with
  | log => rfl
  | _ =>
    rw [show Effect.line _ = none from rfl, Option.toList_none, List.map_nil, List.append_nil]
    unfold apply
    dsimp only
    repeat' split
    all_goals rfl

theorem World.Reacts.sink {w w' : World EffectExecutor} {a : Action} {o : PopLog}
    {out : List Action} (h : World.Reacts executor w a o out w') :
    w'.exec.sink = w.exec.sink ++ (o.effects.filterMap Effect.line).map LogLine.text := by
  rcases h.applied with ⟨heffs, _, hexec⟩ | ⟨e, ans, heffs, _, hexec⟩
  · rw [heffs, hexec]
    exact (List.append_nil _).symm
  · rw [heffs, hexec, show executor.apply w.exec e ans = w.exec.apply e ans from rfl,
      EffectExecutor.apply_sink, filterMap_cons_eq, List.filterMap_nil, List.append_nil]

/-- A step writes the line at the front of the queue, if it is one, and what there is to tell
about the step is queued behind the other lines. -/
theorem Loop.Step.lines {σ α : Type} {E : Executor σ α} {c c' : Loop σ} {l : Label}
    (h : Loop.Step E c l c') :
    linesWritten [l] ++ c'.queue.filterMap Action.line =
      c.queue.filterMap Action.line ++ c.report l := by
  cases h with
  | feed hq hacts hready =>
    rw [hq, c.feed_lines hacts hready]
    rfl
  | @pop a o _ hpop =>
    have ⟨rest, out, hqueue, hqueue', hw⟩ := pop_iff.mp hpop
    rw [linesWritten_pop, hw.reacts.lines, hqueue, hqueue', filterMap_cons_eq,
      List.filterMap_append, hw.reacts.reports, List.append_assoc]
    rfl

theorem Loop.Step.sink {c c' : Loop EffectExecutor} {l : Label} (h : Loop.Step executor c l c') :
    c'.world.exec.sink = c.world.exec.sink ++ (linesWritten [l]).map LogLine.text := by
  cases h with
  | feed _ _ hready =>
    rw [c.feed_world _ hready]
    exact (List.append_nil _).symm
  | pop hpop =>
    have ⟨_, _, _, _, hw⟩ := pop_iff.mp hpop
    rw [hw.reacts.sink, linesWritten_pop]

section Runs

variable {σ α : Type} {E : Executor σ α} {maxJobs : ℕ}

/-- What was written, and what is queued to be written, is what there was to tell. -/
theorem Loop.lines_run {c c' : Loop σ} {h : List (Loop.Moment σ)}
    (hrun : Run (Traced (Loop.Step E)) c h c') :
    linesWritten (h.map Moment.label) ++ c'.queue.filterMap Action.line =
      c.queue.filterMap Action.line ++ reportsOf h := by
  induction hrun with
  | nil => exact (List.append_nil _).symm
  | @cons c m c₁ h c' hs _ ih =>
    rcases hs with ⟨rfl, rfl, hstep⟩
    have hsplit : linesWritten ((m :: h).map Moment.label) =
        linesWritten [m.label] ++ linesWritten (h.map Moment.label) :=
      linesWritten_append [m.label] _
    have hreported : reportsOf (m :: h) = m.before.report m.label ++ reportsOf h := rfl
    rw [hsplit, hreported, List.append_assoc, ih, ← List.append_assoc, hstep.lines,
      List.append_assoc]

end Runs

/-- The sink holds the text of what was written. -/
theorem Loop.sink_run {maxJobs : ℕ} {t : List Label} {c : Loop EffectExecutor}
    (hrun : Run (Loop.Step executor) (.init maxJobs .new) t c) :
    c.world.exec.sink = (linesWritten t).map LogLine.text := by
  let inv : List Label → Loop EffectExecutor → Prop := fun t c =>
    c.world.exec.sink = (linesWritten t).map LogLine.text
  have hinit : inv [] (.init maxJobs .new) := rfl
  have hstep : ∀ past c l c', inv past c → Loop.Step executor c l c' → inv (past ++ [l]) c' := by
    intro past c l c' hc hs
    show _ = (linesWritten (past ++ [l])).map LogLine.text
    rw [hs.sink, hc, linesWritten_append, List.map_append]
  have hend : inv t c := hrun.invariant_trace [] hstep hinit
  exact hend

/-- For every run of the loop: the sink holds, as text and in the order in which it happened, what
there was to tell about each step, but for the lines that are still queued. -/
theorem log_mirrors_run {maxJobs : ℕ} {h : List (Loop.Moment EffectExecutor)}
    {c : Loop EffectExecutor}
    (hrun : Run (Traced (Loop.Step executor)) (.init maxJobs .new) h c) :
    c.world.exec.sink ++ (c.queue.filterMap Action.line).map LogLine.text =
      (reportsOf h).map LogLine.text := by
  have hlines := Loop.lines_run hrun
  rw [Loop.sink_run hrun.untraced, ← List.map_append, hlines]
  rfl

/-! ## The story of a job -/

/-- The lines about a job. -/
def linesAbout (id : JobId) (lines : List LogLine) : List LogLine :=
  lines.filter fun line => line.2.jobId = id

/-- What the log tells of a job, once every line is written, for each stage of its life. -/
inductive Story (id : JobId) (fed starts : ℕ) (c : Config JobView Action) : List LogLine → Prop
  | unheard : c.world.job = none → c.queue.countP Action.isStart = 0 →
      c.queue.countP Action.isFinish = 0 → starts = 0 → Story id fed starts c []
  | refused {err} : c.world.job = none → c.queue.countP Action.isWaiting = 0 →
      c.queue.countP Action.isStart = 0 → c.queue.countP Action.isFinish = 0 → fed = 1 →
      Story id fed starts c [(.error, .error id err)]
  | admitted : c.world.job.map JobState.process = some none → 0 < c.queue.countP Action.isStart →
      c.queue.countP Action.isFinish = 0 → starts = 0 → Story id fed starts c [(.info, .submit id)]
  | running {process} : c.world.job.map JobState.process = some (some process) →
      Story id fed starts c [(.info, .submit id)]
  | failed {err} : c.world.job.map JobState.process = some none →
      c.queue.countP Action.isStart = 0 → c.queue.countP Action.isFinish = 0 →
      Story id fed starts c [(.info, .submit id), (.error, .error id err)]
  | finished {status} : c.world.job = none → c.queue.countP Action.isWaiting = 0 →
      c.queue.countP Action.isStart = 0 → fed = 1 →
      Story id fed starts c [(.info, .submit id), (.info, .exit id status)]

namespace Story

variable {id : JobId} {fed starts : ℕ} {v v' : JobView} {q q' : List Action} {o : PopLog}
  {a : Action} {out rest : List Action} {story : List LogLine}

/-- The job stays as it is, and nothing is queued that goes on with the story. -/
theorem keep (h : Story id fed starts ⟨v, q⟩ story)
    (hjob : v'.job.map JobState.process = v.job.map JobState.process)
    (hwait : q'.countP Action.isWaiting ≤ q.countP Action.isWaiting)
    (hstart : q'.countP Action.isStart = q.countP Action.isStart)
    (hfinish : q'.countP Action.isFinish ≤ q.countP Action.isFinish) :
    Story id fed starts ⟨v', q'⟩ story := by
  have hnone : v.job = none → v'.job = none := by
    intro h
    rw [h] at hjob
    exact Option.map_eq_none_iff.mp hjob
  cases h with
  | unheard hj hs hf h0 =>
    refine .unheard (hnone hj) ?_ ?_ h0 <;> dsimp only at * <;> omega
  | refused hj hw hs hf h1 =>
    refine .refused (hnone hj) ?_ ?_ ?_ h1 <;> dsimp only at * <;> omega
  | admitted hj hs hf h0 =>
    refine .admitted (hjob.trans hj) ?_ ?_ h0 <;> dsimp only at * <;> omega
  | running hj => exact .running (hjob.trans hj)
  | failed hj hs hf =>
    refine .failed (hjob.trans hj) ?_ ?_ <;> dsimp only at * <;> omega
  | finished hj hw hs h1 =>
    refine .finished (hnone hj) ?_ ?_ h1 <;> dsimp only at * <;> omega

/-- A job that waits for its admission was not heard of. -/
theorem of_waiting (h : Story id fed starts ⟨v, q⟩ story) (hl : Launch fed starts ⟨v, q⟩)
    (hfed : fed ≤ 1) (hwait : 0 < q.countP Action.isWaiting) :
    story = [] ∧ v.job = none ∧ q.countP Action.isWaiting = 1 ∧ q.countP Action.isStart = 0 ∧
      q.countP Action.isFinish = 0 ∧ starts = 0 ∧ fed = 1 := by
  have htok := hl.tokens
  have hthere := hl.waiting
  dsimp only at htok hthere
  cases h with
  | unheard hj hs hf h0 => exact ⟨rfl, hj, by omega, hs, hf, h0, by omega⟩
  | refused hj hw | finished hj hw =>
    dsimp only at hw
    omega
  | admitted hj | running hj | failed hj =>
    have ⟨job, hsome, _⟩ := Option.map_eq_some_iff.mp hj
    have hnone := hthere (by rw [show v.job = _ from hsome]; rfl)
    omega

/-- A job that is to be started was admitted. -/
theorem of_starting (h : Story id fed starts ⟨v, q⟩ story) (hl : Launch fed starts ⟨v, q⟩)
    (hstart : 0 < q.countP Action.isStart) :
    story = [(.info, .submit id)] ∧ v.job.map JobState.process = some none ∧
      q.countP Action.isFinish = 0 ∧ starts = 0 := by
  have hstarting := hl.starting
  dsimp only at hstarting
  cases h with
  | unheard hj hs | refused hj hw hs | failed hj hs | finished hj hw hs =>
    dsimp only at hs
    omega
  | admitted hj _ hf h0 => exact ⟨rfl, hj, hf, h0⟩
  | running hj =>
    have ⟨job, hsome, hp⟩ := Option.map_eq_some_iff.mp hj
    have hnone := hstarting job hsome (by rw [hp]; rfl)
    omega

/-- A job that has a process is running. -/
theorem of_running (h : Story id fed starts ⟨v, q⟩ story) {job : JobState} (hjob : v.job = some job)
    (hp : job.process.isSome = true) : story = [(.info, .submit id)] := by
  cases h with
  | unheard hj | refused hj | finished hj =>
    rw [show v.job = _ from hj] at hjob
    cases hjob
  | admitted | running => rfl
  | failed hj =>
    rw [show v.job = _ from hjob] at hj
    rw [Option.some.inj hj] at hp
    cases hp

/-- A job that is there when it finishes was running. -/
theorem of_finishing (h : Story id fed starts ⟨v, q⟩ story) (hfinish : 0 < q.countP Action.isFinish)
    {job : JobState} (hjob : v.job = some job) :
    story = [(.info, .submit id)] ∧ job.process.isSome = true := by
  cases h with
  | unheard hj | refused hj | finished hj =>
    rw [show v.job = _ from hj] at hjob
    cases hjob
  | admitted hj hs hf | failed hj hs hf =>
    dsimp only at hf
    omega
  | running hj =>
    refine ⟨rfl, ?_⟩
    rw [show v.job = _ from hjob] at hj
    rw [Option.some.inj hj]
    rfl

/-- A pop of the job's own goes on with the story. -/
theorem outcome (hout : v.Outcome id o a v' out) (hfed : fed ≤ 1)
    (hl : Launch fed starts ⟨v, a :: rest⟩) (h : Story id fed starts ⟨v, a :: rest⟩ story) :
    Story id fed (starts + if a.isStart then 1 else 0) ⟨v', rest ++ out⟩
      (story ++ out.filterMap Action.line) := by
  have hborn := hl.born
  have hthere := hl.waiting
  have hstarting := hl.starting
  dsimp only at hborn hthere hstarting
  cases hout with
  | refused | letIn | admitted =>
    obtain ⟨hstory, hj, hw, hs, hf, h0, h1⟩ :=
      h.of_waiting hl hfed (by rw [List.countP_cons_of_pos rfl]; omega)
    simp only [List.countP_cons, Action.isWaiting, Action.isStart, Action.isFinish, if_true,
      Bool.false_eq_true, if_false] at hw hs hf
    rw [hstory, h0, h1]
    first
      | refine .refused hj ?_ ?_ ?_ rfl
      | refine .unheard hj ?_ ?_ rfl
      | refine .admitted rfl ?_ ?_ rfl
    all_goals
      simp only [List.countP_append, List.countP_cons, List.countP_nil, Action.isWaiting,
        Action.isStart, Action.isFinish, if_true, Bool.false_eq_true, if_false]
      omega
  | startedAbsent hj =>
    obtain ⟨_, hjob, _⟩ := h.of_starting hl (by rw [List.countP_cons_of_pos rfl]; omega)
    rw [hj] at hjob
    cases hjob
  | @started exec policy job process io hj =>
    obtain ⟨hstory, _⟩ := h.of_starting hl (by rw [List.countP_cons_of_pos rfl]; omega)
    rw [hstory]
    exact .running rfl
  | @startFailed exec policy err =>
    obtain ⟨hstory, hjob, hf, h0⟩ := h.of_starting hl (by rw [List.countP_cons_of_pos rfl]; omega)
    have htok := hl.tokens
    simp only [List.countP_cons, Action.isWaiting, Action.isStart, Action.isFinish, if_true,
      Bool.false_eq_true, if_false] at hf htok
    rw [hstory]
    refine .failed hjob ?_ ?_
    all_goals
      simp only [List.countP_append, List.countP_cons, List.countP_nil, Action.isStart,
        Action.isFinish, Bool.false_eq_true, if_false]
      omega
  | @exited job process status hj hp =>
    rw [h.of_running hj (by rw [hp]; rfl)]
    have hprocess : v.job.map JobState.process = some (some process) := by
      rw [hj, Option.map_some, hp]
    exact .running hprocess
  | @finished result job hj =>
    obtain ⟨hstory, hp⟩ := h.of_finishing (by rw [List.countP_cons_of_pos rfl]; omega) hj
    have hw := hthere (by rw [hj]; rfl)
    have hs := hstarting job hj hp
    have hb := hborn (by rw [hj]; rfl)
    simp only [List.countP_cons, Action.isWaiting, Action.isStart, Bool.false_eq_true,
      if_false] at hw hs
    rw [hstory]
    refine .finished rfl ?_ ?_ (by omega)
    all_goals
      simp only [List.countP_append, List.countP_cons, List.countP_nil, Action.isWaiting,
        Action.isStart, Bool.false_eq_true, if_false]
      omega
  | quiet hq =>
    obtain ⟨hw, hs, _⟩ := Action.not_launch_of_isQuiet hq
    have hf := Action.not_finish_of_isQuiet hq
    rw [if_neg (by rw [hs]; exact Bool.false_ne_true), List.filterMap_nil, List.append_nil,
      List.append_nil]
    refine h.keep rfl ?_ ?_ ?_
    all_goals simp [hw, hs, hf]
  | stopped hj =>
    show Story id fed starts _ (story ++ [])
    rw [List.append_nil story]
    refine h.keep (by rw [hj]; rfl) ?_ ?_ ?_
    all_goals simp [Action.isWaiting, Action.isStart, Action.isFinish]
  | _ =>
    -- the job stays as it is, and the follow-ups neither launch nor finish it
    show Story id fed starts _ (story ++ [])
    rw [List.append_nil story]
    refine h.keep rfl ?_ ?_ ?_
    all_goals simp [Action.isWaiting, Action.isStart, Action.isFinish, List.countP_cons]

/-- The pops of other jobs leave the story alone. -/
theorem others {c c' : Config JobView Action} (h : Story id fed starts c story)
    (hstep : JobStep id c (.pop a o) c') (ha : a.jobId ≠ id) : Story id fed starts c' story := by
  cases hstep with
  | own hid => exact absurd hid ha
  | other _ hev => exact h.keep (congrArg _ hev.job) le_rfl rfl le_rfl

/-- Inputs may submit the job, if that was not done before. -/
theorem feed {c c' : Config JobView Action} {acts : List Action} {events : List Event} {n : ℕ}
    (h : Story id fed starts c story) (hstep : JobStep id c (.feed acts events) c')
    (hn : n = (acts.filterMap Action.submitId).count id) (hfed : fed + n ≤ 1) :
    Story id (fed + n) starts c' story := by
  cases hstep with
  | @feed v _ _ ready hacts hready =>
    have ⟨hw, hs, _⟩ := input_counts id hacts
    have hf : (ownPart Action.jobId id acts).countP Action.isFinish = 0 := by
      rw [List.countP_eq_zero]
      intro a ha
      have hinput := hacts a (List.mem_of_mem_filter ha)
      simp [(Action.not_finish_of_isInput hinput).1]
    have hcount : ∀ p : Action → Bool, p (.performIo id) = false →
        (ownPart Action.jobId id acts ++ ready).countP p =
          (ownPart Action.jobId id acts).countP p := by
      intro p hp
      rw [List.countP_append, ready_count hready hp, Nat.add_zero]
    have hwait := hcount Action.isWaiting rfl
    have hstart := hcount Action.isStart rfl
    have hfinish := hcount Action.isFinish rfl
    rw [hw, ← hn] at hwait
    rw [hs] at hstart
    rw [hf] at hfinish
    cases h with
    | unheard hj _ _ h0 => exact .unheard hj hstart hfinish h0
    | refused hj _ _ _ h1 => exact .refused hj (by dsimp only; omega) hstart hfinish (by omega)
    | admitted _ hpos => cases hpos
    | running hj => exact .running hj
    | failed hj => exact .failed hj hstart hfinish
    | finished hj _ _ h1 => exact .finished hj (by dsimp only; omega) hstart (by omega)

end Story

section Runs

variable {σ α : Type} {E : Executor σ α} {maxJobs : ℕ} {id : JobId}

theorem linesAbout_self {lines : List LogLine} (h : ∀ line ∈ lines, line.2.jobId = id) :
    linesAbout id lines = lines := by
  unfold linesAbout
  rw [List.filter_eq_self]
  exact fun line hline => decide_eq_true (h line hline)

theorem linesAbout_other {lines : List LogLine} (h : ∀ line ∈ lines, line.2.jobId ≠ id) :
    linesAbout id lines = [] := by
  unfold linesAbout
  rw [List.filter_eq_nil_iff]
  exact fun line hline => by simp [h line hline]

/-- What there is to tell about an action is about its job. -/
theorem World.Reacts.report_jobId {w w' : World σ} {a : Action} {o : PopLog} {out : List Action}
    (h : World.Reacts E w a o out w') : ∀ line ∈ w.report a o, line.2.jobId = a.jobId := by
  intro line hline
  rw [← h.reports] at hline
  have ⟨b, hb, heq⟩ := List.mem_filterMap.mp hline
  rw [← h.outcome.out_jobId b hb]
  cases b <;> cases heq
  rfl

/-- Each step of the loop goes on with the story of each job. -/
theorem Story.step {c c' : Loop σ} {l : Label} {fed starts n : ℕ} {story : List LogLine}
    (h : Story id fed starts (c.own id) story) (hl : Launch fed starts (c.own id))
    (hs : Loop.Step E c l c') (hn : n = (submitted [l]).count id) (hfed : fed + n ≤ 1) :
    Story id (fed + n) (starts + (startsOf id [l]).length) (c'.own id)
      (story ++ linesAbout id (c.report l)) := by
  have hown := hs.own id
  cases hs with
  | feed hq hacts hready =>
    rw [submitted_feed] at hn
    have hstory := h.feed hown hn hfed
    show Story id (fed + n) starts _ (story ++ [])
    rw [List.append_nil]
    exact hstory
  | @pop a o _ hpop =>
    have hzero : n = 0 := hn
    rw [hzero] at hfed ⊢
    have ⟨rest, out, hq, hq', hw⟩ := pop_iff.mp hpop
    have hr := hw.reacts
    have hreport : c.report (.pop a o) = out.filterMap Action.line := hr.reports.symm
    by_cases ha : a.jobId = id
    · subst ha
      have hself : linesAbout a.jobId (out.filterMap Action.line) = out.filterMap Action.line := by
        rw [hr.reports]
        exact linesAbout_self hr.report_jobId
      have hout : ownPart Action.jobId a.jobId out = out := ownPart_self hr.outcome.out_jobId
      have hqueue : (c'.own a.jobId).queue = ownPart Action.jobId a.jobId rest ++ out := by
        show ownPart Action.jobId a.jobId c'.queue = _
        rw [hq', ownPart_append, hout]
      have hbefore : c.own a.jobId =
          ⟨c.world.view a.jobId, a :: ownPart Action.jobId a.jobId rest⟩ := by
        unfold Loop.own
        rw [hq, ownPart_cons_self rfl]
      rw [hbefore] at h hl
      rw [startsOf_pop rfl, hreport, hself]
      refine (h.outcome hr.outcome hfed hl).keep (congrArg _ hr.own.job) ?_ (congrArg _ hqueue) ?_
      all_goals exact (congrArg _ hqueue).le
    · have hnone : linesAbout id (c.report (.pop a o)) = [] :=
        linesAbout_other fun line hline => (hr.report_jobId line hline).symm ▸ ha
      rw [startsOf_pop_other ha, hnone, List.append_nil]
      exact h.others hown ha

theorem Story.run {x : σ} {h : List (Loop.Moment σ)} {c : Loop σ}
    (hrun : Run (Traced (Loop.Step E)) (.init maxJobs x) h c)
    (honce : (submitted (h.map Moment.label)).count id ≤ 1) :
    Story id ((submitted (h.map Moment.label)).count id) (startsOf id (h.map Moment.label)).length
      (c.own id) (linesAbout id (reportsOf h)) := by
  let inv : List (Loop.Moment σ) → Loop σ → Prop := fun h c =>
    let t := h.map Moment.label
    (submitted t).count id ≤ 1 →
      Launch ((submitted t).count id) (startsOf id t).length (c.own id) ∧
        Story id ((submitted t).count id) (startsOf id t).length (c.own id)
          (linesAbout id (reportsOf h))
  have hinit : inv [] (.init maxJobs x) :=
    fun hfed => ⟨.run (.nil _) rfl rfl hfed, .unheard rfl rfl rfl rfl⟩
  have hstep : ∀ past c m c', inv past c → Traced (Loop.Step E) c m c' → inv (past ++ [m]) c' := by
    intro past c m c' hc hs
    rcases hs with ⟨rfl, rfl, hs⟩
    show (submitted ((past ++ [m]).map Moment.label)).count id ≤ 1 → _
    have hmap : (past ++ [m]).map Moment.label = past.map Moment.label ++ [m.label] := by simp
    have hreported : linesAbout id (reportsOf (past ++ [m])) =
        linesAbout id (reportsOf past) ++ linesAbout id (m.before.report m.label) := by
      unfold reportsOf linesAbout
      rw [List.flatMap_append, List.flatMap_singleton, List.filter_append]
    rw [hmap, hreported]
    intro hfed
    have hsplit := congrArg (List.count id) (submitted_append (past.map Moment.label) [m.label])
    rw [List.count_append] at hsplit
    have ⟨hlaunch, hstory⟩ := hc (by omega)
    refine ⟨Launch.step (fun _ => hlaunch) (hs.own id) hfed, ?_⟩
    rw [hsplit] at hfed ⊢
    rw [startsOf_append, List.length_append]
    exact hstory.step hlaunch hs rfl hfed
  have hend : inv h c := hrun.invariant_trace [] hstep hinit
  exact (hend honce).2

end Runs

/-- What the log tells of a job from its beginning to what has become of it: without an entry, or
with one that has a process or none. -/
inductive Tale (id : JobId) : Option (Option ProcessHandle) → List LogLine → Prop
  | nothing : Tale id none []
  | refused (err) : Tale id none [(.error, .error id err)]
  | running (process) : Tale id (some (some process)) [(.info, .submit id)]
  | failed (err) : Tale id (some none) [(.info, .submit id), (.error, .error id err)]
  | finished (status) : Tale id none [(.info, .submit id), (.info, .exit id status)]

namespace Story

variable {id : JobId} {fed starts : ℕ} {c : Config JobView Action} {story : List LogLine}

/-- Once nothing is queued, a story is a whole tale. -/
theorem tale (h : Story id fed starts c story) (hq : c.queue = []) :
    Tale id (c.world.job.map JobState.process) story := by
  cases h with
  | unheard hj => rw [hj]; exact .nothing
  | refused hj => rw [hj]; exact .refused _
  | admitted _ hs =>
    rw [hq] at hs
    cases hs
  | running hj => rw [hj]; exact .running _
  | failed hj => rw [hj]; exact .failed _
  | finished hj => rw [hj]; exact .finished _

theorem exists_tale (h : Story id fed starts c story) : ∃ state, Tale id state story := by
  cases h with
  | unheard => exact ⟨_, .nothing⟩
  | refused => exact ⟨_, .refused _⟩
  | admitted => exact ⟨_, .running ⟨0⟩⟩
  | running => exact ⟨_, .running ⟨0⟩⟩
  | failed => exact ⟨_, .failed _⟩
  | finished => exact ⟨_, .finished _⟩

end Story

/-- For every run of the loop and every job that is submitted at most once: the lines about the
job are at any time the beginning of one of five tales: nothing, the refusal, the submission
alone, or the submission with a failure of the start or an exit. Once the queue is empty, the tale
is whole and fits what is recorded of the job. -/
theorem log_tells_job {maxJobs : ℕ} {h : List (Loop.Moment EffectExecutor)}
    {c : Loop EffectExecutor} {id : JobId}
    (hrun : Run (Traced (Loop.Step executor)) (.init maxJobs .new) h c)
    (honce : (submitted (h.map Moment.label)).count id ≤ 1) :
    ∃ lines, c.world.exec.sink = lines.map LogLine.text ∧
      (∃ state tale, Tale id state tale ∧ linesAbout id lines <+: tale) ∧
      (c.queue = [] →
        Tale id ((c.world.state.jobs.get id).map JobState.process) (linesAbout id lines)) := by
  have hstory := Story.run hrun honce
  have hlines : linesWritten (h.map Moment.label) ++ c.queue.filterMap Action.line = reportsOf h :=
    Loop.lines_run hrun
  refine ⟨linesWritten (h.map Moment.label), Loop.sink_run hrun.untraced, ?_, ?_⟩
  -- the lines in the sink come before those that are still queued
  · have ⟨state, htale⟩ := hstory.exists_tale
    refine ⟨state, _, htale, ?_⟩
    rw [← hlines]
    unfold linesAbout
    rw [List.filter_append]
    exact List.prefix_append _ _
  · intro hq
    rw [hq, List.filterMap_nil, List.append_nil] at hlines
    rw [hlines]
    apply hstory.tale
    unfold Loop.own
    rw [hq]
    rfl

/-! ## A small run -/

namespace EffectExecutor

/-- A second job is refused, and the exit of the first one is noticed. -/
noncomputable def leftHistory : List (Loop.Moment EffectExecutor) :=
  startHistory ++ Loop.batchHistory executor
    [.submit 2 0 .bare (.graceful none), .pollProcess 1] (List.replicate 6 (.still 2, .exited))
    startJob.2

/-- The loop after that. -/
noncomputable def left : Loop EffectExecutor :=
  (Loop.batch executor [.submit 2 0 .bare (.graceful none), .pollProcess 1]
    (List.replicate 6 (.still 2, .exited)) startJob.2).2

theorem leftHistory_run :
    Run (Traced (Loop.Step executor)) (.init 1 .new) leftHistory left :=
  startHistory_run.append (Loop.batchHistory_run executor _ (by decide) (by decide))

theorem log_mirrors_run_left :
    left.world.exec.sink = [(.info, "Submit id=1"), (.error, "Error id=2, err=max_jobs 1 reached"),
      (.info, "Exit id=1, status=Some(0)")] := by
  have hlog := log_mirrors_run leftHistory_run
  have hqueue : left.queue = [] := by decide
  have hreported : reportsOf leftHistory = [(.info, .submit 1),
      (.error, .error 2 "max_jobs 1 reached"), (.info, .exit 1 (some 0))] := by decide
  rw [hqueue, hreported, List.filterMap_nil, List.map_nil, List.append_nil] at hlog
  exact hlog

theorem log_tells_job_left :
    ∃ lines, left.world.exec.sink = lines.map LogLine.text ∧
      Tale 1 none (linesAbout 1 lines) := by
  have honce : (submitted (leftHistory.map Moment.label)).count 1 ≤ 1 := by decide
  have ⟨lines, hsink, _, htale⟩ := log_tells_job leftHistory_run honce
  exact ⟨lines, hsink, htale (by decide)⟩

end EffectExecutor
end CoreShift
