import CoreShift.Signals

/-!
# Graceful stops

A stop is asked for by a client, with `Control`, or by the timer, with `TimeoutReached`. The guard
that both pass looks at `timed_out`, and the flag is set when the `SignalProcess` that they queue
is handled. Between the two the guard lets every other request through, and once the flag is set
nobody can tell who asked for the stop.

Statements about who asked first are about histories: lists of steps with their states.
-/

namespace CoreShift

open Utils WorkQueue

variable {σ α : Type} {E : Executor σ α}

/-- The stop of a job, as it waits in the queue. -/
abbrev Action.stop (id : JobId) : Action := .signalProcess id .gracefulStop

/-- The action asks for a graceful stop of the job. -/
def Action.asksStop (id : JobId) : Action → Bool
  | .control j .gracefulStop | .timeoutReached j => j == id
  | _ => false

/-- The effect stops the job gracefully. -/
def Effect.stops (id : JobId) : Effect → Bool
  | .killProcess j .gracefulStop _ _ => j == id
  | _ => false

namespace Label

/-- The action that was popped. -/
def action : Label → Option Action
  | .pop a _ => some a
  | .feed _ _ => none

/-- A request to stop the job is handled. -/
def asksStop (id : JobId) : Label → Bool
  | .pop a _ => a.asksStop id
  | .feed _ _ => false

/-- The effects that were resolved and applied. -/
def effects : Label → List Effect
  | .pop _ o => o.effects
  | .feed _ _ => []

end Label

/-- A step of the loop, with its states. -/
abbrev Loop.Moment (σ : Type) := Utils.Moment (Loop σ) Label

namespace Loop.Moment

/-- The actions that the step put at the back of the queue. -/
def queued (m : Loop.Moment σ) : List Action := m.after.queue.drop (m.before.queue.length - 1)

/-- The guard lets the job be signalled. -/
def signalable (id : JobId) (m : Loop.Moment σ) : Bool := (m.before.world.view id).signalable

/-- The job's process is running, as far as the core knows. -/
def running (id : JobId) (m : Loop.Moment σ) : Bool :=
  (m.before.world.state.jobs.get id).any fun job => job.process.isSome

/-- A request to stop the job is handled and let through. -/
def letsStop (id : JobId) (m : Loop.Moment σ) : Bool := m.label.asksStop id && m.signalable id

end Loop.Moment

/-! ## One step -/

/-- A request that is let through asks for one stop; nothing else asks for one. -/
theorem JobView.Outcome.count_stop {id : JobId} {v v' : JobView} {o : PopLog} {a : Action}
    {out : List Action} (h : v.Outcome id o a v' out) :
    out.count (.stop id) = if a.asksStop id && v.signalable then 1 else 0 := by
  cases h with
  | @controlled signal hs =>
    rw [hs]
    cases signal <;> simp [Action.asksStop, Action.stop]
  | timedOut hs | graceOver hs =>
    rw [hs]
    simp [Action.asksStop, Action.stop]
  | @controlDropped signal hs =>
    rw [hs, Bool.and_false]
    rfl
  | timeoutDropped hs | graceDropped hs =>
    rw [hs, Bool.and_false]
    rfl
  | quiet hq => cases a <;> first | rfl | cases hq
  | _ => rfl

/-- The stop is applied when it is handled, and only then. -/
theorem World.Reacts.count_stops {w w' : World σ} {a : Action} {o : PopLog} {out : List Action}
    (h : World.Reacts E w a o out w') (id : JobId) :
    o.effects.countP (Effect.stops id) ≤ if a = .stop id then 1 else 0 := by
  rcases h.applied with ⟨hnil, _, _⟩ | ⟨e, _, he, _, _⟩
  · rw [hnil]
    exact Nat.zero_le _
  · by_cases hstop : e.stops id = true
    · have ha : a = .stop id := by
        cases e with
        | killProcess j signal process g =>
          cases signal with
          | gracefulStop =>
            rw [Effect.stops, beq_iff_eq] at hstop
            rw [hstop] at he
            exact h.kill_of (he ▸ List.mem_cons_self)
          | forceKill => cases hstop
        | _ => cases hstop
      rw [he, if_pos ha, List.countP_singleton, if_pos hstop]
    · rw [he, List.countP_singleton, if_neg hstop]
      exact Nat.zero_le _

namespace Loop

variable {c c' : Loop σ} {l : Label}

/-- Inputs queue no stop. -/
theorem count_stop_feed (c : Loop σ) {acts : List Action} {events : List Event}
    (hacts : ∀ a ∈ acts, a.isInput = true) (hready : ∀ ev ∈ events, ev.isReady = true)
    (id : JobId) : (c.feed acts events).queue.count (.stop id) = 0 := by
  have ⟨ready, hqueue, hio⟩ := feed_queue c acts hready
  rw [List.count_eq_zero, hqueue, List.mem_append]
  rintro (hmem | hmem)
  · have hinput := hacts _ hmem
    cases hinput
  · have ⟨_, heq⟩ := hio _ hmem
    cases heq

/-- A stop that is queued or applied was asked for. -/
theorem Step.count_stop (h : Step E c l c') (id : JobId) :
    l.effects.countP (Effect.stops id) + c'.queue.count (.stop id) ≤
      c.queue.count (.stop id) + if Moment.letsStop id ⟨c, l, c'⟩ then 1 else 0 := by
  cases h with
  | @pop a o _ hpop =>
    have ⟨rest, out, hq, hq', hstep⟩ := pop_iff.mp hpop
    have hkill : o.effects.countP (Effect.stops id) ≤ if a = .stop id then 1 else 0 :=
      hstep.reacts.count_stops id
    have hout : out.count (.stop id) ≤ if Moment.letsStop id ⟨c, .pop a o, c'⟩ then 1 else 0 := by
      by_cases hid : a.jobId = id
      · rw [← hid]
        exact hstep.reacts.outcome.count_stop.le
      · have hnone : .stop id ∉ out := fun hmem =>
          hid (hstep.reacts.outcome.out_jobId (.stop id) hmem).symm
        rw [List.count_eq_zero.mpr hnone]
        exact Nat.zero_le _
    have hfront : (a :: rest).count (.stop id) = rest.count (.stop id) +
        if a = .stop id then 1 else 0 := by
      rw [List.count_cons]
      simp
    rw [show c.queue = a :: rest from hq, show c'.queue = rest ++ out from hq', hfront,
      List.count_append]
    show o.effects.countP (Effect.stops id) + _ ≤ _
    omega
  | feed _ hacts hready =>
    rw [count_stop_feed c hacts hready id]
    exact Nat.zero_le _

end Loop

/-! ## Histories -/

/-- The stops that were let through in a history. -/
def letIn (id : JobId) (h : List (Loop.Moment σ)) : ℕ := h.countP (Loop.Moment.letsStop id)

/-- The stops that were applied in a history. -/
def stopped (id : JobId) (h : List (Loop.Moment σ)) : ℕ :=
  (h.flatMap fun m => m.label.effects).countP (Effect.stops id)

variable {id : JobId} {maxJobs : ℕ} {x : σ} {h : List (Loop.Moment σ)} {c : Loop σ}

/-- No more stops are applied or waiting than were let through. -/
theorem stopped_le (hrun : Run (Traced (Loop.Step E)) (.init maxJobs x) h c) (id : JobId) :
    stopped id h + c.queue.count (.stop id) ≤ letIn id h := by
  let inv : List (Loop.Moment σ) → Loop σ → Prop := fun h c =>
    stopped id h + c.queue.count (.stop id) ≤ letIn id h
  have hinit : inv [] (.init maxJobs x) := Nat.le_refl 0
  have hstep : ∀ past c m c', inv past c → Traced (Loop.Step E) c m c' →
      inv (past ++ [m]) c' := by
    rintro past c m c' hpast ⟨hbefore, hafter, hs⟩
    have hcount := hs.count_stop id
    have hm : (⟨c, m.label, c'⟩ : Loop.Moment σ) = m := by rw [← hbefore, ← hafter]
    rw [hm] at hcount
    unfold inv stopped letIn at hpast ⊢
    rw [List.flatMap_append, List.countP_append, List.countP_append, List.flatMap_singleton,
      List.countP_singleton]
    omega
  have hall : inv h c := hrun.invariant_trace [] hstep hinit
  exact hall

/-- A stop that is queued was let through. -/
theorem exists_letIn (hrun : Run (Traced (Loop.Step E)) (.init maxJobs x) h c)
    (hmem : .stop id ∈ c.queue) : ∃ m ∈ h, m.letsStop id = true := by
  have hle := stopped_le hrun id
  have hpos := List.count_pos_iff.mpr hmem
  rw [← List.countP_pos_iff]
  unfold letIn at hle
  omega

theorem Action.jobId_of_asksStop {a : Action} (h : a.asksStop id = true) : a.jobId = id := by
  cases a with
  | control j signal =>
    cases signal with
    | gracefulStop => exact beq_iff_eq.mp h
    | forceKill => cases h
  | timeoutReached j => exact beq_iff_eq.mp h
  | _ => cases h

/-- A request that is let through queues a stop. -/
theorem Loop.Step.queues_stop {c c' : Loop σ} {l : Label} (h : Loop.Step E c l c')
    (hlet : Loop.Moment.letsStop id ⟨c, l, c'⟩ = true) : .stop id ∈ c'.queue := by
  rw [Loop.Moment.letsStop, Bool.and_eq_true] at hlet
  have ⟨hask, hs⟩ := hlet
  cases h with
  | @pop a o _ hpop =>
    have ⟨rest, out, _, hq', hstep⟩ := pop_iff.mp hpop
    have hid := Action.jobId_of_asksStop (a := a) hask
    have hcount : out.count (.stop a.jobId) =
        if a.asksStop a.jobId && (c.world.view a.jobId).signalable then 1 else 0 :=
      hstep.reacts.outcome.count_stop
    rw [hid, show a.asksStop id = true from hask,
      show (c.world.view id).signalable = true from hs] at hcount
    rw [hq']
    refine List.mem_append_right rest (List.count_pos_iff.mp ?_)
    rw [hcount]
    exact Nat.one_pos
  | feed => cases hask

/-- After a request that found the process running, a stop is queued or noted. -/
theorem stopping_of_request {h₁ h₂ : List (Loop.Moment σ)} {m : Loop.Moment σ}
    (hrun : Run (Traced (Loop.Step E)) (.init maxJobs x) (h₁ ++ m :: h₂) c)
    (hcount : (submitted ((h₁ ++ m :: h₂).map Moment.label)).count id ≤ 1)
    (hask : m.label.asksStop id = true) (hrunning : m.running id = true) :
    Stopping id (c.own id) := by
  have ⟨hbefore, hstep, hafter⟩ := hrun.moment_split
  rw [List.map_append, List.map_cons, submitted_append, List.count_append,
    show m.label :: h₂.map Moment.label = [m.label] ++ h₂.map Moment.label from rfl,
    submitted_append, List.count_append] at hcount
  rw [Loop.Moment.running, Option.any_eq_true] at hrunning
  have ⟨job, hjob, hp⟩ := hrunning
  have ⟨p, hp⟩ := Option.isSome_iff_exists.mp hp
  have hview : (m.before.own id).world.job = some job := hjob
  -- the job was submitted before, so that it is not submitted again
  have hlaunch := Launch.run (Loop.run_own hbefore.untraced id) rfl rfl (by omega)
  have hborn := hlaunch.born (by rw [hview]; rfl)
  have hsettled := hlaunch.settled hview hp
  have ⟨hsettled', hasked⟩ := hsettled.step (hstep.own id) (by omega)
  have hstop : Stopping id (m.after.own id) := by
    cases hflag : job.timedOut with
    | true =>
      refine Or.inr (hasked ?_)
      intro job' hj'
      rw [hview, Option.some.injEq] at hj'
      rw [← hj', hflag]
    | false =>
      have hs : m.signalable id = true :=
        JobView.signalable_iff.mpr ⟨job, hjob, by rw [hp]; rfl, hflag⟩
      have hlet : Loop.Moment.letsStop id ⟨m.before, m.label, m.after⟩ = true := by
        rw [Loop.Moment.letsStop, Bool.and_eq_true]
        exact ⟨hask, hs⟩
      have hmem := hstep.queues_stop hlet
      exact Or.inl (List.mem_filter.mpr ⟨hmem, decide_eq_true rfl⟩)
  exact (hsettled'.run hafter.untraced (by omega)).2.2 hstop

/-! ## At most one stop -/

/-- A request that is let through finds no stop in the queue. -/
def Loop.Moment.stopsAlone (id : JobId) (m : Loop.Moment σ) : Bool :=
  !m.letsStop id || !m.before.queue.contains (.stop id)

/-- The job is stopped gracefully at most once, and a request that comes after one that was let
through is refused by the guard. -/
def StoppedOnce (id : JobId) (h : List (Loop.Moment σ)) : Prop :=
  stopped id h ≤ 1 ∧ h.Pairwise fun p q =>
    p.letsStop id = true → q.label.asksStop id = true → q.signalable id = false

theorem letIn_le_one {h : List (Loop.Moment σ)} (hpair : h.Pairwise fun p q =>
    p.letsStop id = true → q.label.asksStop id = true → q.signalable id = false) :
    letIn id h ≤ 1 := by
  unfold letIn
  induction hpair with
  | nil => exact Nat.zero_le 1
  | @cons m h hm _ ih =>
    rw [List.countP_cons]
    by_cases hlet : m.letsStop id = true
    · have hzero : h.countP (Loop.Moment.letsStop id) = 0 := by
        rw [List.countP_eq_zero]
        intro q hq hlet'
        rw [Loop.Moment.letsStop, Bool.and_eq_true] at hlet'
        rw [hm q hq hlet hlet'.1] at hlet'
        cases hlet'.2
      rw [hzero, if_pos hlet]
    · rw [if_neg hlet]
      exact ih

/-- A request that would not be let through beside a queued stop is refused after another one. -/
theorem refused_after {h₁ h₂ : List (Loop.Moment σ)} {p q : Loop.Moment σ}
    (hrun : Run (Traced (Loop.Step E)) (.init maxJobs x) (h₁ ++ q :: h₂) c)
    (hcount : (submitted ((h₁ ++ q :: h₂).map Moment.label)).count id ≤ 1)
    (halone : q.stopsAlone id = true) (hp : p ∈ h₁) (hlet : p.letsStop id = true)
    (hask : q.label.asksStop id = true) : q.signalable id = false := by
  rw [← Bool.not_eq_true]
  intro hs
  have ⟨hbefore, _, _⟩ := hrun.moment_split
  have ⟨g₁, g₂, heq⟩ := List.append_of_mem hp
  rw [heq] at hbefore
  rw [List.map_append, submitted_append, List.count_append, heq] at hcount
  rw [Loop.Moment.letsStop, Bool.and_eq_true] at hlet
  have ⟨job, hjob, hproc, hflag⟩ := JobView.signalable_iff.mp hlet.2
  have hrunning : p.running id = true := by
    rw [Loop.Moment.running, show p.before.world.state.jobs.get id = some job from hjob]
    exact hproc
  -- the stop that was let through waits in the queue, or the flag is set
  rcases stopping_of_request hbefore (by omega) hlet.1 hrunning with hqueued | hnoted
  · have hmem := (List.mem_filter.mp hqueued).1
    rw [Loop.Moment.stopsAlone, Loop.Moment.letsStop, hask, hs,
      List.contains_iff_mem.mpr hmem] at halone
    cases halone
  · have ⟨job', hjob', _, hflag'⟩ := JobView.signalable_iff.mp hs
    rw [hnoted job' hjob'] at hflag'
    cases hflag'

/-- A job that is submitted once is stopped at most once in exactly the histories in which every
request that is let through finds no stop of the job in the queue. -/
theorem stopped_once_iff (hrun : Run (Traced (Loop.Step E)) (.init maxJobs x) h c)
    (hcount : (submitted (h.map Moment.label)).count id ≤ 1) :
    StoppedOnce id h ↔ ∀ m ∈ h, m.stopsAlone id = true := by
  constructor
  · intro ⟨_, hpair⟩ m hm
    have ⟨h₁, h₂, heq⟩ := List.append_of_mem hm
    rw [heq] at hrun hpair
    have ⟨hbefore, _, _⟩ := hrun.moment_split
    rw [Loop.Moment.stopsAlone, Bool.or_eq_true, Bool.not_eq_true', Bool.not_eq_true']
    by_contra hboth
    rw [not_or, Bool.not_eq_false, Bool.not_eq_false, List.contains_iff_mem] at hboth
    -- the queued stop was let through earlier
    have ⟨p, hp, hlet⟩ := exists_letIn hbefore hboth.2
    have hlet' := hboth.1
    rw [Loop.Moment.letsStop, Bool.and_eq_true] at hlet'
    rw [(List.pairwise_append.mp hpair).2.2 p hp m List.mem_cons_self hlet hlet'.1] at hlet'
    cases hlet'.2
  · intro hcond
    have hpair : h.Pairwise fun p q =>
        p.letsStop id = true → q.label.asksStop id = true → q.signalable id = false := by
      refine pairwise_of_prefix fun h₁ q h₂ heq p hp hlet hask => ?_
      rw [heq] at hrun hcount hcond
      exact refused_after hrun hcount (hcond q (by simp)) hp hlet hask
    refine ⟨?_, hpair⟩
    have hle := stopped_le hrun id
    have hone := letIn_le_one hpair
    omega

/-! ## Two clients that ask together -/

/-- The history of some pops. -/
def Loop.history (E : Executor σ α) : List (Ambient × α) → Loop σ → List (Loop.Moment σ)
  | [], _ => []
  | (amb, ans) :: envs, c =>
    match pop E amb ans c with
    | none => []
    | some (l, c') => ⟨c, .pop l.1 l.2, c'⟩ :: history E envs c'

theorem Loop.history_run (E : Executor σ α) (envs : List (Ambient × α)) (c : Loop σ) :
    Run (Traced (Loop.Step E)) c (history E envs c) (runPops E envs c).2 := by
  induction envs generalizing c with
  | nil => exact .nil c
  | cons env envs ih =>
    unfold history runPops
    cases hpop : pop E env.1 env.2 c with
    | none => exact .nil c
    | some r => exact .cons (.of_step (.pop (pop_eq_some hpop))) (ih r.2)

/-- The history of a batch. -/
def Loop.batchHistory (E : Executor σ α) (acts : List Action) (envs : List (Ambient × α))
    (c : Loop σ) : List (Loop.Moment σ) :=
  ⟨c, .feed acts [], c.feed acts []⟩ :: history E envs (c.feed acts [])

theorem Loop.batchHistory_run (E : Executor σ α) {acts : List Action} (envs : List (Ambient × α))
    {c : Loop σ} (hq : c.queue = []) (hacts : ∀ a ∈ acts, a.isInput = true) :
    Run (Traced (Loop.Step E)) c (batchHistory E acts envs c) (batch E acts envs c).2 := by
  have hfeed : Loop.Step E c (.feed acts []) (c.feed acts []) :=
    .feed hq hacts fun _ h => absurd h List.not_mem_nil
  exact .cons (.of_step hfeed) (history_run E envs _)

namespace EffectExecutor

/-- The history in which the job is started. -/
noncomputable def startHistory : List (Loop.Moment EffectExecutor) :=
  Loop.batchHistory executor [.submit 1 0 .bare (.graceful (some 1))]
    (List.replicate 9 (.still 0, .started 100)) (.init 1 .new)

theorem startHistory_run :
    Run (Traced (Loop.Step executor)) (.init 1 .new) startHistory startJob.2 :=
  Loop.batchHistory_run executor _ rfl (by decide)

/-- Requests that are fed together and handled at time 1, while the child keeps running. -/
noncomputable def requestHistory (requests : List Action) : List (Loop.Moment EffectExecutor) :=
  Loop.batchHistory executor requests (List.replicate 9 (.still 1, .started 0)) startJob.2

/-- The loop after them. -/
noncomputable def requested (requests : List Action) : Loop EffectExecutor :=
  (Loop.batch executor requests (List.replicate 9 (.still 1, .started 0)) startJob.2).2

theorem requestHistory_run {requests : List Action} (h : ∀ a ∈ requests, a.isInput = true) :
    Run (Traced (Loop.Step executor)) (.init 1 .new) (startHistory ++ requestHistory requests)
      (requested requests) :=
  startHistory_run.append (Loop.batchHistory_run executor _ (by decide) h)

/-- One client asks. -/
theorem stopped_once_iff_control :
    StoppedOnce 1 (startHistory ++ requestHistory [.control 1 .gracefulStop]) :=
  (stopped_once_iff (requestHistory_run (by decide)) (by decide)).mpr (by decide)

/-- Both requests are let through, and the job is stopped twice. -/
theorem stopped_twice :
    ∃ h c, Run (Traced (Loop.Step executor)) (.init 1 .new) h c ∧
      (submitted (h.map Moment.label)).Nodup ∧ stopped 1 h = 2 ∧ ¬ StoppedOnce 1 h := by
  let requests : List Action := [.control 1 .gracefulStop, .control 1 .gracefulStop]
  have htwo : stopped 1 (startHistory ++ requestHistory requests) = 2 := by
    decide
  have hrun := requestHistory_run (show ∀ a ∈ requests, a.isInput = true by decide)
  refine ⟨_, _, hrun, by decide, htwo, fun h => ?_⟩
  have hle := h.1
  omega

end EffectExecutor
end CoreShift
