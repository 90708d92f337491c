import CoreShift.Consistency

/-!
# The order of a job's states

The states of a job are ordered as they are declared. A handler writes the next one without
looking at the one before; that the order is kept follows from where its action can stand in
the queue. The write of a graceful stop is the exception: a kill does not set the flag that
keeps a later stop away.
-/

namespace CoreShift

open Utils WorkQueue

variable {σ α : Type} {E : Executor σ α}

namespace JobLifecycle

/-- The place of a state in the order. -/
def rank : JobLifecycle → ℕ
  | .submitted => 0
  | .admitted => 1
  | .running => 2
  | .terminating => 3
  | .killed => 4
  | .finished => 5

/-- The place of an entry; a job without one is below all others. -/
def entryRank : Option JobLifecycle → ℕ
  | none => 0
  | some l => l.rank + 1

/-- An entry that stays as it is or moves up. -/
def Ascends (before after : Option JobLifecycle) : Prop :=
  after = before ∨ entryRank before < entryRank after

end JobLifecycle

open JobLifecycle

/-! ## Before the start -/

/-- The entry of a job whose launch is not over, after `fed` submissions. -/
structure Young (fed : ℕ) (c : Config JobView Action) : Prop where
  unfed : fed = 0 → c.world.lifecycle = none
  waiting : 0 < c.queue.countP Action.isWaiting → c.world.lifecycle = none
  starting : 0 < c.queue.countP Action.isStart → c.world.lifecycle = some .admitted

namespace Young

variable {id : JobId} {fed starts : ℕ} {v v' : JobView} {q q' : List Action} {o : PopLog}
  {a : Action} {out rest : List Action}

/-- The entry stays as it is, and nothing is added to the launch. -/
theorem keep (h : Young fed ⟨v, q⟩) (hlife : v'.lifecycle = v.lifecycle)
    (hwait : q'.countP Action.isWaiting ≤ q.countP Action.isWaiting)
    (hstart : q'.countP Action.isStart ≤ q.countP Action.isStart) : Young fed ⟨v', q'⟩ := by
  rcases h with ⟨hunfed, hw, hs⟩
  constructor <;> dsimp only at * <;> rw [hlife]
  · exact hunfed
  · exact fun hpos => hw (by omega)
  · exact fun hpos => hs (by omega)

/-- The launch is over. -/
theorem of_launched (hfed : 1 ≤ fed) (hwait : q.countP Action.isWaiting = 0)
    (hstart : q.countP Action.isStart = 0) : Young fed ⟨v, q⟩ := by
  constructor <;> dsimp only
  · intro h0
    omega
  · intro hpos
    omega
  · intro hpos
    omega

/-- A pop of the job's own. -/
theorem outcome (hout : v.Outcome id o a v' out) (hfed : fed ≤ 1)
    (hl : Launch fed starts ⟨v, a :: rest⟩) (h : Young fed ⟨v, a :: rest⟩) :
    Young fed ⟨v', rest ++ out⟩ := by
  have htok := hl.tokens
  have hsignalled := hl.signalled
  dsimp only at htok hsignalled
  cases hout with
  | @admitted owner exec policy =>
    rw [List.countP_cons_of_pos rfl] at htok
    constructor <;> dsimp only
    · intro h0
      omega
    · intro hpos
      rw [List.countP_append] at hpos
      change 0 < rest.countP Action.isWaiting + 0 at hpos
      omega
    · exact fun _ => rfl
  | started | startFailed =>
    rw [List.countP_cons_of_neg (by simp [Action.isWaiting]), List.countP_cons_of_pos rfl] at htok
    refine of_launched (by omega) ?_ ?_
    · rw [List.countP_append]
      show rest.countP Action.isWaiting + 0 = 0
      omega
    · rw [List.countP_append]
      show rest.countP Action.isStart + 0 = 0
      omega
  | stopped | killed =>
    obtain ⟨hwait, hstart, hpos, _⟩ := hsignalled (by rw [List.countP_cons_of_pos rfl]; omega)
    rw [List.append_nil]
    exact of_launched hpos hwait hstart
  | quiet hq =>
    obtain ⟨hw, hs, _⟩ := Action.not_launch_of_isQuiet hq
    refine h.keep rfl ?_ ?_
    · rw [List.append_nil, List.countP_cons_of_neg (Bool.eq_false_iff.mp hw)]
    · rw [List.append_nil, List.countP_cons_of_neg (Bool.eq_false_iff.mp hs)]
  | _ =>
    -- the entry stays, and the follow-ups launch nothing
    refine h.keep rfl ?_ ?_
    all_goals simp [Action.isWaiting, Action.isStart, JobView.interests, List.countP_cons]

/-- The step lemma. -/
theorem step {c c' : Config JobView Action} {l : Label} {n : ℕ} (h : Young fed c)
    (hl : Launch fed starts c) (hstep : JobStep id c l c')
    (hn : n = (submitted [l]).count id) (hfed : fed + n ≤ 1) : Young (fed + n) c' := by
  cases hstep with
  | @own v a rest o v₁ out v' hid hout hev =>
    have hzero : n = 0 := hn
    rw [hzero] at hfed ⊢
    exact (outcome hout hfed hl h).keep hev.lifecycle le_rfl le_rfl
  | other hid hev =>
    have hzero : n = 0 := hn
    rw [hzero]
    exact h.keep hev.lifecycle le_rfl le_rfl
  | @feed v acts events ready hacts hready =>
    have ⟨hw, hs, _⟩ := input_counts id hacts
    have hnone : fed = 0 → v.lifecycle = none := h.unfed
    rw [submitted_feed] at hn
    constructor <;> dsimp only
    · intro h0
      exact hnone (by omega)
    · rw [List.countP_append, ready_count hready rfl, hw, ← hn]
      intro hpos
      exact hnone (by omega)
    · rw [List.countP_append, ready_count hready rfl, hs]
      intro hpos
      cases hpos

/-- The run lemma. -/
theorem run {maxJobs : ℕ} {x : σ} {t : List Label} {c : Loop σ} {id : JobId}
    (h : Run (Loop.Step E) (.init maxJobs x) t c) (hcount : (submitted t).count id ≤ 1) :
    Young ((submitted t).count id) (c.own id) := by
  let inv : List Label → Loop σ → Prop := fun t c => (submitted t).count id ≤ 1 →
    Launch ((submitted t).count id) (startsOf id t).length (c.own id) ∧
      Young ((submitted t).count id) (c.own id)
  have hinit : inv [] (.init maxJobs x) := by
    intro hfed
    have hnone : (Loop.init maxJobs x : Loop σ).own id = ⟨⟨none, none, none, none⟩, []⟩ := rfl
    rw [hnone]
    exact ⟨.run (.nil _) rfl rfl hfed, fun _ => rfl, fun _ => rfl, fun hpos => by cases hpos⟩
  have hstep : ∀ past c l c', inv past c → Loop.Step E c l c' → inv (past ++ [l]) c' := by
    intro past c l c' hc hs hfed
    have hsplit : (submitted (past ++ [l])).count id =
        (submitted past).count id + (submitted [l]).count id := by
      rw [submitted_append, List.count_append]
    have ⟨hlaunch, hyoung⟩ := hc (by omega)
    refine ⟨Launch.step (fun _ => hlaunch) (hs.own id) hfed, ?_⟩
    rw [hsplit] at hfed ⊢
    exact hyoung.step hlaunch (hs.own id) rfl hfed
  have hrun : inv t c := h.invariant_trace [] hstep hinit
  exact (hrun hcount).2

end Young

/-! ## The step that can go down -/

/-- A graceful stop is handled for a job that was killed and is still there. -/
def Loop.Relapses (id : JobId) (c : Loop σ) (l : Label) : Prop :=
  ∃ o, l = .pop (.signalProcess id .gracefulStop) o ∧
    c.world.state.lifecycle.get id = some .killed ∧ (c.world.state.jobs.get id).isSome = true

section Outcome

variable {id : JobId} {fed starts : ℕ} {v v' : JobView} {o : PopLog} {a : Action}
  {out rest : List Action}

/-- A signal that finds the job finds it started. -/
theorem Launch.signal_started (hl : Launch fed starts ⟨v, a :: rest⟩)
    (ho : Orderly starts ⟨v, a :: rest⟩) (ha : a.isSignal = true) {job : JobState}
    (hj : v.job = some job) : ∃ l, v.lifecycle = some l ∧ l.isStarted = true := by
  have hpos : 0 < (a :: rest).countP Action.isSignal := by
    rw [List.countP_cons_of_pos ha]
    omega
  have hp := (hl.signalled hpos).2.2.2 job hj
  exact ho.running job hj hp

/-- The entry goes up in every pop of the job's own but that one. -/
theorem JobView.Outcome.ascends_iff (hout : v.Outcome id o a v' out)
    (hl : Launch fed starts ⟨v, a :: rest⟩) (ho : Orderly starts ⟨v, a :: rest⟩)
    (hy : Young fed ⟨v, a :: rest⟩) :
    Ascends v.lifecycle v'.lifecycle ↔
      ¬ (a = .signalProcess id .gracefulStop ∧ v.lifecycle = some .killed ∧
        v.job.isSome = true) := by
  have hwaiting := hy.waiting
  have hstarting := hy.starting
  dsimp only at hwaiting hstarting
  cases hout with
  | admitted =>
    have hlife := hwaiting (by rw [List.countP_cons_of_pos rfl]; omega)
    rw [hlife]
    simp [Ascends, JobView.onAdmitted, entryRank, rank]
  | started | startFailed =>
    have hlife := hstarting (by rw [List.countP_cons_of_pos rfl]; omega)
    rw [hlife]
    simp [Ascends, entryRank, rank]
  | stopped hj =>
    obtain ⟨l, hlife, hstarted⟩ := hl.signal_started ho rfl hj
    rw [hlife, hj]
    cases l with
    | running | terminating | killed => simp [Ascends, entryRank, rank]
    | submitted | admitted | finished => cases hstarted
  | killed hj =>
    obtain ⟨l, hlife, hstarted⟩ := hl.signal_started ho rfl hj
    rw [hlife]
    cases l with
    | running | terminating | killed => simp [Ascends, entryRank, rank]
    | submitted | admitted | finished => cases hstarted
  | signalAbsent hj =>
    rw [hj]
    simp [Ascends]
  | quiet hq =>
    refine ⟨fun _ hrelapse => ?_, fun _ => Or.inl rfl⟩
    rw [hrelapse.1] at hq
    cases hq
  | _ => simp [Ascends]

end Outcome

/-- In every run in which no id is submitted twice, a step moves a job's entry down if and only
if it handles a graceful stop for a job that was killed; every other step leaves it as it is or
moves it up. -/
theorem lifecycle_ascends_iff {maxJobs : ℕ} {x : σ} {t : List Label} {c c' : Loop σ} {l : Label}
    (hrun : Run (Loop.Step E) (.init maxJobs x) t c) (hstep : Loop.Step E c l c')
    (hids : (submitted (t ++ [l])).Nodup) (id : JobId) :
    Ascends (c.world.state.lifecycle.get id) (c'.world.state.lifecycle.get id) ↔
      ¬ c.Relapses id l := by
  have hcount : (submitted t).count id ≤ 1 := by
    have hle := List.nodup_iff_count_le_one.mp hids id
    rw [submitted_append, List.count_append] at hle
    omega
  have hended := Ended.run hrun hcount
  have hyoung := Young.run hrun hcount
  have hown := hstep.own id
  show Ascends (c.own id).world.lifecycle (c'.own id).world.lifecycle ↔
    ¬ ∃ o, l = .pop (.signalProcess id .gracefulStop) o ∧
      (c.own id).world.lifecycle = some .killed ∧ (c.own id).world.job.isSome = true
  generalize c.own id = d at hended hyoung hown ⊢
  generalize c'.own id = d' at hown ⊢
  cases hown with
  | @own v a rest o v₁ out v' hid hout hev =>
    have hiff := hout.ascends_iff hended.launch hended.orderly hyoung
    dsimp only
    rw [hev.lifecycle, hiff]
    simp
  | @other v v' q a o hid hev =>
    refine ⟨fun _ hrelapse => ?_, fun _ => Or.inl hev.lifecycle⟩
    have ⟨_, heq, _⟩ := hrelapse
    cases heq
    exact hid rfl
  | feed => simp [Ascends]

/-! ## A job that is killed and then asked to stop -/

namespace EffectExecutor

/-- Both signals are asked for before the first of them is handled. -/
noncomputable def killThenStop : Loop EffectExecutor :=
  startJob.2.feed [.control 1 .forceKill, .control 1 .gracefulStop] []

theorem killThenStop_run (n : ℕ) :
    Run (Loop.Step executor) (.init 1 .new)
      ((.feed [.submit 1 0 .bare (.graceful (some 1))] [] :: Loop.popLabels startJob.1) ++
        .feed [.control 1 .forceKill, .control 1 .gracefulStop] [] ::
          Loop.popLabels (popAll n killThenStop).1) (popAll n killThenStop).2 :=
  startJob_run.append (.cons (.feed (by decide) (by decide) (by decide)) (popAll_run n _))

theorem lifecycle_ascends_iff_killed :
    Ascends ((popAll 2 killThenStop).2.world.state.lifecycle.get 1)
      ((popAll 3 killThenStop).2.world.state.lifecycle.get 1) := by
  have hstep := pop_step (popAll 2 killThenStop).2 (popAll 3 killThenStop).2 rfl
  refine (lifecycle_ascends_iff (killThenStop_run 2) hstep (by decide) 1).mpr ?_
  rintro ⟨_, heq, _⟩
  cases heq

/-- The stop is handled after the kill, and moves the job's entry down. -/
theorem killed_job_relapses :
    ∃ t c l c', Run (Loop.Step executor) (.init 1 .new) t c ∧ Loop.Step executor c l c' ∧
      (submitted (t ++ [l])).Nodup ∧ c.world.state.lifecycle.get 1 = some .killed ∧
      c'.world.state.lifecycle.get 1 = some .terminating ∧
      ¬ Ascends (c.world.state.lifecycle.get 1) (c'.world.state.lifecycle.get 1) := by
  have hstep := pop_step (popAll 4 killThenStop).2 (popAll 5 killThenStop).2 rfl
  have hbefore : (popAll 4 killThenStop).2.world.state.lifecycle.get 1 = some .killed := by decide
  have hafter : (popAll 5 killThenStop).2.world.state.lifecycle.get 1 = some .terminating := by
    decide
  refine ⟨_, _, _, _, killThenStop_run 4, hstep, by decide, hbefore, hafter, ?_⟩
  rw [hbefore, hafter]
  simp [Ascends, entryRank, rank]

end EffectExecutor
end CoreShift
