import CoreShift.Replies

/-!
# Jobs that never finish

A process is noticed to be gone when it is polled. Nothing in the daemon asks for a poll: no
request does, no module, and no event. So no `Finished` ever enters the queue, and a job whose
process was started stays in `state.jobs` and keeps its slot, whatever happens outside.
-/

namespace CoreShift

open Utils WorkQueue

variable {json : Json}

namespace Daemon

/-- No round feeds a poll. -/
theorem Took.unfinishing {d d₁ : Daemon} {l : RoundLog} {T : List Ticket} (h : d.Took l d₁ T) :
    Unfinishing d₁.loop.queue := by
  rcases Loop.feed_queue d.loop l.1.1 h.ready with ⟨ready, hqueue, hio⟩
  rw [h.feed, hqueue]
  intro a ha
  rcases List.mem_append.mp ha with ha | ha
  · have hreq := Action.not_finish_of_ask (h.requests a ha)
    exact ⟨hreq.1, hreq.2.1⟩
  · rcases hio a ha with ⟨id, rfl⟩
    exact ⟨rfl, rfl⟩

/-- The step lemma. -/
theorem Step.unfinishing {d d' : Daemon} {l : DaemonLabel} (h : Step json d l d') (hd : d.Tidy)
    (hq : Unfinishing d.loop.queue) : Unfinishing d'.loop.queue := by
  cases h with
  | round hround =>
    rcases (hround.took hd).1 with ⟨T, hT⟩
    exact hT.unfinishing
  | pop hpop => exact (Loop.unfinishing_pop hpop.loop hq).1

theorem Step.tidy {d d' : Daemon} {l : DaemonLabel} (h : Step json d l d') (hd : d.Tidy) :
    d'.Tidy := by
  cases h with
  | round hround => exact (hround.took hd).2
  | pop hpop => exact hpop.tidy hd

theorem unfinishing_run {t : List DaemonLabel} {d : Daemon} (h : Run (Step json) .new t d) :
    d.Tidy ∧ Unfinishing d.loop.queue := by
  let inv : Daemon → Prop := fun d => d.Tidy ∧ Unfinishing d.loop.queue
  have hinit : inv .new := ⟨⟨.new, by decide⟩, fun a ha => absurd ha List.not_mem_nil⟩
  have hstep : ∀ d l d', inv d → Step json d l d' → inv d' :=
    fun _ _ _ hd hs => ⟨hs.tidy hd.1, hs.unfinishing hd.1 hd.2⟩
  have hinv : inv d := h.invariant hstep hinit
  exact hinv

/-- The popped action is no `Finished`. -/
theorem PopStep.not_finish {d d' : Daemon} {l : DaemonPop} (h : PopStep json d l d')
    (hq : Unfinishing d.loop.queue) : l.1.1.isFinish = false := by
  rcases pop_iff.mp h.loop with ⟨rest, out, hqueue, -, -⟩
  exact (hq l.1.1 (hqueue ▸ List.mem_cons_self)).1

/-- A step keeps the jobs, and gives no slot back. -/
theorem Step.job_stays {d d' : Daemon} {l : DaemonLabel} (h : Step json d l d') (hd : d.Tidy)
    (hq : Unfinishing d.loop.queue) :
    (∀ id, (d.loop.world.state.jobs.get id).isSome = true →
      (d'.loop.world.state.jobs.get id).isSome = true) ∧
    d.loop.world.dispatcher.admission.activeJobs ≤
      d'.loop.world.dispatcher.admission.activeJobs := by
  cases h with
  | round hround =>
    rcases (hround.took hd).1 with ⟨T, hT⟩
    rw [hT.feed, Loop.feed_world d.loop _ hT.ready]
    exact ⟨fun _ hj => hj, le_rfl⟩
  | pop hpop =>
    refine ⟨?_, (Loop.unfinishing_pop hpop.loop hq).2⟩
    intro id hj
    rcases pop_iff.mp hpop.loop with ⟨rest, out, -, -, hs⟩
    exact hs.reacts.job_stays (hpop.not_finish hq) hj

/-- The run lemma. -/
theorem jobs_stay {d d' : Daemon} {u : List DaemonLabel} (h : Run (Step json) d u d')
    (hd : d.Tidy) (hq : Unfinishing d.loop.queue) :
    (∀ id, (d.loop.world.state.jobs.get id).isSome = true →
      (d'.loop.world.state.jobs.get id).isSome = true) ∧
    d.loop.world.dispatcher.admission.activeJobs ≤
      d'.loop.world.dispatcher.admission.activeJobs := by
  induction h with
  | nil => exact ⟨fun _ hj => hj, le_rfl⟩
  | cons hs _ ih =>
    have hone := hs.job_stays hd hq
    have hrest := ih (hs.tidy hd) (hs.unfinishing hd hq)
    exact ⟨fun id hj => hrest.1 id (hone.1 id hj), hone.2.trans hrest.2⟩

/-- There is a continuation in which the job is finished. -/
def CanFinish (json : Json) (d : Daemon) (id : JobId) : Prop :=
  ∃ u d' l result, Run (Step json) d u d' ∧ .pop l ∈ u ∧ l.1.1 = .finished id result

theorem not_canFinish {t : List DaemonLabel} {d : Daemon} (hrun : Run (Step json) .new t d)
    (id : JobId) : ¬ d.CanFinish json id := by
  rintro ⟨u, d', l, result, hu, hl, hfin⟩
  rcases hu.exists_of_mem hl with ⟨u₁, s, s', u₂, rfl, hu₁, hstep, -⟩
  have hs := (unfinishing_run (hrun.append hu₁)).2
  cases hstep with
  | pop hpop =>
    have hnot := hpop.not_finish hs
    rw [hfin] at hnot
    cases hnot

end Daemon

/-- No job of a reachable daemon can finish, whether it has a process or not: in every
continuation it stays in `state.jobs`, and no slot is given back. -/
theorem job_never_finishes {t : List DaemonLabel} {d : Daemon} {id : JobId}
    (hrun : Run (Daemon.Step json) .new t d)
    (hjob : (d.loop.world.state.jobs.get id).isSome = true) :
    ¬ d.CanFinish json id ∧ ∀ u d', Run (Daemon.Step json) d u d' →
      (d'.loop.world.state.jobs.get id).isSome = true ∧
        d.loop.world.dispatcher.admission.activeJobs ≤
          d'.loop.world.dispatcher.admission.activeJobs := by
  refine ⟨Daemon.not_canFinish hrun id, ?_⟩
  intro u d' hu
  rcases Daemon.unfinishing_run hrun with ⟨hd, hq⟩
  have hstay := Daemon.jobs_stay hu hd hq
  exact ⟨hstay.1 id hjob, hstay.2⟩

namespace Daemon

/-- A daemon that has started one job. -/
noncomputable def working : Daemon := busy.2.settle.2

theorem working_run :
    Run (Step .small) .new (.round busy.1 :: busy.2.settle.1.map .pop) working :=
  busy_round.steps (runPops_run _ _ _)

theorem job_never_finishes_working : ¬ working.CanFinish .small 1 :=
  (job_never_finishes working_run (by decide)).1

/-- A reachable daemon with a started job that no continuation finishes. -/
theorem started_job_stranded :
    ∃ t d job p, Run (Step .small) .new t d ∧ d.loop.queue = [] ∧
      d.loop.world.state.jobs.get 1 = some job ∧ job.process = some p ∧
      ¬ d.CanFinish .small 1 := by
  have hjob : working.loop.world.state.jobs.get 1 =
      some ⟨1, 1000, some ⟨1⟩, some ⟨2⟩, false, none, false⟩ := by decide
  exact ⟨_, working, _, ⟨1⟩, working_run, by decide, hjob, rfl, not_canFinish working_run 1⟩

end Daemon
end CoreShift
