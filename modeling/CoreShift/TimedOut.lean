import CoreShift.Captured
import CoreShift.Stops

/-!
# What `timed_out` tells

The flag of a job has two uses: the guard of a signal reads it, and the result of an exit carries
it. It is set when a `SignalProcess` with `GracefulStop` is handled, whoever asked for that one.
So the result tells of a timeout as long as no client stops the job, and the stop that the timer
asked for is handled before the exit is noticed.
-/

namespace CoreShift

open Utils WorkQueue

variable {σ α : Type} {E : Executor σ α}

/-- The answers report that the job's process is gone. -/
def Event.isExit (id : JobId) : Event → Bool
  | .processExited j _ => j == id
  | _ => false

/-- A poll of the job is handled, and the process is gone. -/
def Label.exits (id : JobId) : Label → Bool
  | .pop a o => decide (a = .pollProcess id) && o.events.any (Event.isExit id)
  | .feed _ _ => false

namespace Loop.Moment

variable {id : JobId}

/-- The job's timeout is handled while its process is running. -/
def timesOut (id : JobId) (m : Loop.Moment σ) : Bool :=
  decide (m.label.action = some (.timeoutReached id)) && m.running id

/-- A client's request for a graceful stop is let through. -/
def stopsForClient (id : JobId) (m : Loop.Moment σ) : Bool :=
  decide (m.label.action = some (.control id .gracefulStop)) && m.signalable id

/-- An exit is noticed while a stop of the job waits in the queue. -/
def exitsBeforeStop (id : JobId) (m : Loop.Moment σ) : Bool :=
  m.label.exits id && m.before.queue.contains (.stop id)

end Loop.Moment

/-- The results of the job tell whether its timeout was handled while its process was running. -/
def TellsTimeouts (id : JobId) (h : List (Loop.Moment σ)) : Prop :=
  ∀ h₁ m h₂ result, h = h₁ ++ m :: h₂ → .finished id result ∈ m.queued →
    ∃ r, result = .ok r ∧ (r.timedOut = true ↔ ∃ p ∈ h₁, p.timesOut id = true)

/-! ## The flag -/

/-- The flag of the job is set. -/
def Noted (c : Config JobView Action) : Prop :=
  ∃ job, c.world.job = some job ∧ job.timedOut = true

/-- The flag is set when a stop is handled. -/
theorem JobStep.noted {id : JobId} {c c' : Config JobView Action} {l : Label}
    (h : JobStep id c l c') (hnoted : Noted c') : Noted c ∨ .stop id ∈ c.queue := by
  have ⟨job', hjob', hflag⟩ := hnoted
  cases h with
  | @own v a rest o v₁ out v' hid hout hev =>
    rw [hev.job] at hjob'
    cases hout with
    | admitted =>
      rw [JobView.onAdmitted, Option.some.injEq] at hjob'
      rw [← hjob'] at hflag
      cases hflag
    | @started _ _ job _ _ hj =>
      rw [Option.some.injEq] at hjob'
      rw [← hjob'] at hflag
      exact Or.inl ⟨job, hj, hflag⟩
    | stopped => exact Or.inr List.mem_cons_self
    | finished => cases hjob'
    | _ => exact Or.inl ⟨job', hjob', hflag⟩
  | other _ hev =>
    rw [hev.job] at hjob'
    exact Or.inl ⟨job', hjob', hflag⟩
  | feed => exact Or.inl ⟨job', hjob', hflag⟩

variable {id : JobId} {maxJobs : ℕ} {x : σ} {h : List (Loop.Moment σ)} {c : Loop σ}

/-- If the flag is set, a request was let through. -/
theorem exists_letIn_of_noted (hrun : Run (Traced (Loop.Step E)) (.init maxJobs x) h c)
    (hnoted : Noted (c.own id)) : ∃ m ∈ h, m.letsStop id = true := by
  let inv : List (Loop.Moment σ) → Loop σ → Prop := fun h c =>
    Run (Traced (Loop.Step E)) (.init maxJobs x) h c ∧
      (Noted (c.own id) → ∃ m ∈ h, m.letsStop id = true)
  have hinit : inv [] (.init maxJobs x) := by
    refine ⟨.nil _, fun ⟨job, hjob, _⟩ => ?_⟩
    cases hjob
  have hstep : ∀ past c m c', inv past c → Traced (Loop.Step E) c m c' →
      inv (past ++ [m]) c' := by
    intro past c m c' ⟨hpast, hind⟩ hs
    refine ⟨hpast.append (.single hs), fun hnoted' => ?_⟩
    have hearlier : ∃ p ∈ past, p.letsStop id = true := by
      rcases (hs.2.2.own id).noted hnoted' with hbefore | hmem
      · exact hind hbefore
      · exact exists_letIn hpast (List.mem_filter.mp hmem).1
    have ⟨p, hp, hlet⟩ := hearlier
    exact ⟨p, List.mem_append_left _ hp, hlet⟩
  have hall : inv h c := hrun.invariant_trace [] hstep hinit
  exact hall.2 hnoted

/-! ## The result -/

/-- A `Finished` is queued by a poll that reports an exit, and carries the job's flag. -/
theorem Loop.Step.finishes {c c' : Loop σ} {l : Label} (h : Loop.Step E c l c')
    {result : Except ExecError ExecResult}
    (hmem : .finished id result ∈ Loop.Moment.queued ⟨c, l, c'⟩) :
    l.exits id = true ∧ ∃ job status, c.world.state.jobs.get id = some job ∧
      job.process.isSome = true ∧ result = .ok ⟨status, [], [], job.timedOut⟩ := by
  rw [Loop.Moment.queued] at hmem
  cases h with
  | feed _ hacts hready =>
    exact absurd (List.mem_of_mem_drop hmem) (c.unfinished_feed hacts hready id result)
  | @pop a o _ hpop =>
    have ⟨rest, out, hq, hq', hw⟩ := pop_iff.mp hpop
    dsimp only at hmem
    rw [hq, hq', List.length_cons, Nat.add_sub_cancel, List.drop_left] at hmem
    have ⟨ha, hid, ⟨status, hev⟩, _⟩ := hw.reacts.outcome.finished_out hmem
    dsimp only at ha hev
    rw [← hid] at ha hev
    have hexits : Label.exits id (.pop a o) = true := by
      simp [Label.exits, ha, hev, Event.isExit]
    rw [ha] at hw
    have ⟨job, hj, hp, hout⟩ := hw.reacts.outcome.exit hw.reacts.answered hev
    rw [hout, List.mem_singleton, Action.finished.injEq] at hmem
    exact ⟨hexits, job, status, hj, hp, hmem.2⟩

/-- A request of the timer is let through if the process is running and no stop was noted. -/
theorem Loop.Moment.timesOut_of_letsStop {m : Loop.Moment σ} (hlet : m.letsStop id = true)
    (hclient : m.stopsForClient id = false) : m.timesOut id = true := by
  rw [Loop.Moment.letsStop, Bool.and_eq_true] at hlet
  obtain ⟨hask, hs⟩ := hlet
  obtain ⟨job, hjob, hp, _⟩ := JobView.signalable_iff.mp hs
  have hrunning : m.running id = true := by
    rw [Loop.Moment.running, show m.before.world.state.jobs.get id = some job from hjob]
    exact hp
  rw [Loop.Moment.timesOut, hrunning, Bool.and_true, decide_eq_true_eq]
  rw [Loop.Moment.stopsForClient, hs, Bool.and_true, decide_eq_false_iff_not] at hclient
  cases hl : m.label with
  | feed =>
    rw [hl] at hask
    cases hask
  | pop a o =>
    rw [hl] at hask hclient
    cases a with
    | control j signal =>
      -- the client's request is the one that is excluded
      have hid : j = id := Action.jobId_of_asksStop (a := .control j signal) hask
      cases signal with
      | gracefulStop =>
        rw [hid] at hclient
        exact absurd rfl hclient
      | forceKill => cases hask
    | timeoutReached j =>
      have hid : j = id := Action.jobId_of_asksStop (a := .timeoutReached j) hask
      rw [hid]
      rfl
    | _ => cases hask

/-- In every history in which the job is submitted at most once: if no client's request for a
graceful stop is let through, and no exit of the job is noticed while a stop of it waits in the
queue, then its results tell whether its timeout was handled while its process was running. -/
theorem tells_timeouts (hrun : Run (Traced (Loop.Step E)) (.init maxJobs x) h c)
    (hcount : (submitted (h.map Moment.label)).count id ≤ 1)
    (hcond : ∀ m ∈ h, m.stopsForClient id = false ∧ m.exitsBeforeStop id = false) :
    TellsTimeouts id h := by
  intro h₁ m h₂ result heq hmem
  rw [heq] at hrun hcount hcond
  have ⟨hbefore, hs, _⟩ := hrun.moment_split
  have ⟨hexits, job, status, hjob, _, hresult⟩ := hs.finishes hmem
  refine ⟨_, hresult, ?_⟩
  show job.timedOut = true ↔ _
  constructor
  · intro hflag
    have ⟨p, hp, hlet⟩ := exists_letIn_of_noted hbefore ⟨job, hjob, hflag⟩
    have hclient := (hcond p (List.mem_append_left _ hp)).1
    exact ⟨p, hp, Loop.Moment.timesOut_of_letsStop hlet hclient⟩
  · intro ⟨p, hp, htimes⟩
    rw [Loop.Moment.timesOut, Bool.and_eq_true, decide_eq_true_eq] at htimes
    have hask : p.label.asksStop id = true := by
      cases hl : p.label with
      | feed =>
        rw [hl] at htimes
        cases htimes.1
      | pop a o =>
        have ha : a = .timeoutReached id := by
          rw [hl] at htimes
          exact Option.some.inj htimes.1
        rw [ha]
        exact beq_self_eq_true id
    have ⟨g₁, g₂, hsplit⟩ := List.append_of_mem hp
    rw [hsplit] at hbefore
    rw [List.map_append, submitted_append, List.count_append, hsplit] at hcount
    -- the stop that the timer asked for is noted, as it does not wait any more
    rcases stopping_of_request hbefore (by omega) hask htimes.2 with hqueued | hnoted
    · have hwaits := (List.mem_filter.mp hqueued).1
      have hlate := (hcond m (by simp)).2
      rw [Loop.Moment.exitsBeforeStop, hexits, List.contains_iff_mem.mpr hwaits] at hlate
      cases hlate
    · exact hnoted job hjob

/-! ## A stop that a client asks for -/

namespace EffectExecutor

/-- The history in which the exit is noticed after some requests. -/
noncomputable def exitHistory (requests : List Action) : List (Loop.Moment EffectExecutor) :=
  startHistory ++ requestHistory requests ++
    Loop.batchHistory executor [.pollProcess 1] [(.still 2, .exited)] (requested requests)

theorem exitHistory_run {requests : List Action} (h : ∀ a ∈ requests, a.isInput = true)
    (hdone : (requested requests).queue = []) :
    Run (Traced (Loop.Step executor)) (.init 1 .new) (exitHistory requests)
      (Loop.batch executor [.pollProcess 1] [(.still 2, .exited)] (requested requests)).2 :=
  (requestHistory_run h).append (Loop.batchHistory_run executor _ hdone (by decide))

/-- The job times out, and exits later. -/
theorem tells_timeouts_timeout : TellsTimeouts 1 (exitHistory [.timeoutReached 1]) :=
  tells_timeouts (exitHistory_run (by decide) (by decide)) (by decide) (by decide)

/-- A client stops the job before its timeout, and the result says that it timed out. -/
theorem client_stop_times_out :
    ∃ (h : List (Loop.Moment EffectExecutor)) (c : Loop EffectExecutor),
      Run (Traced (Loop.Step executor)) (.init 1 .new) h c ∧
      (submitted (h.map Moment.label)).Nodup ∧
      (∃ m ∈ h, .finished 1 (.ok ⟨some 0, [], [], true⟩) ∈ m.queued) ∧
      (∀ m ∈ h, m.label.action ≠ some (.timeoutReached 1)) ∧ ¬ TellsTimeouts 1 h := by
  let requests : List Action := [.control 1 .gracefulStop]
  have hdone : (requested requests).queue = [] := by decide
  have hrun := exitHistory_run (show ∀ a ∈ requests, a.isInput = true by decide) hdone
  have hfinished : ∃ m ∈ exitHistory requests,
      .finished 1 (.ok ⟨some 0, [], [], true⟩) ∈ m.queued := by decide
  have htimer : ∀ m ∈ exitHistory requests, m.label.action ≠ some (.timeoutReached 1) := by decide
  refine ⟨_, _, hrun, by decide, hfinished, htimer, fun htells => ?_⟩
  have ⟨m, hm, hmem⟩ := hfinished
  have ⟨h₁, h₂, heq⟩ := List.append_of_mem hm
  have ⟨r, hr, hiff⟩ := htells h₁ m h₂ _ heq hmem
  cases hr
  -- the flag is set, but no timeout was handled
  have ⟨p, hp, htimes⟩ := hiff.mp rfl
  rw [Loop.Moment.timesOut, Bool.and_eq_true, decide_eq_true_eq] at htimes
  refine htimer p ?_ htimes.1
  rw [heq]
  exact List.mem_append_left _ hp

end EffectExecutor
end CoreShift
