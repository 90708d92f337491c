import CoreShift.Escalation

/-!
# Signals and handles

The guard of a signal is evaluated when `Control` is popped, the state change when
`SignalProcess` is dispatched, the effect after that. `Launch` makes the three agree: a queued
signal excludes a queued start, so a job that is still there has the process it had.

The handles are numbers from the executor's counter. As long as it does not wrap around, the
started processes have pairwise distinct handles, and a job holds those of its own start.
-/

namespace CoreShift

open Utils WorkQueue

variable {σ α : Type} {E : Executor σ α}

/-! ## The handles of a run -/

/-- The job and the handles of a start. -/
abbrev Issued := JobId × ProcessHandle × IoHandle

def Event.issued : Event → Option Issued
  | .processStarted id process io => some (id, process, io)
  | _ => none

/-- The handles that were created during a run, with their jobs. -/
def issuedIn (t : List Label) : List Issued :=
  (Label.pops t).flatMap fun l => l.2.events.filterMap Event.issued

theorem issuedIn_append (t u : List Label) : issuedIn (t ++ u) = issuedIn t ++ issuedIn u := by
  unfold issuedIn
  rw [Label.pops_append, List.flatMap_append]

theorem issuedIn_pop (a : Action) (o : PopLog) :
    issuedIn [.pop a o] = o.events.filterMap Event.issued := by
  unfold issuedIn
  rw [Label.pops_pop, List.flatMap_singleton]

theorem issuedIn_feed (acts : List Action) (events : List Event) :
    issuedIn [.feed acts events] = [] := rfl

/-! ### Each start belongs to its action -/

/-- The signal of a job goes to the process that the job holds. -/
theorem JobView.killEffects_process {id : JobId} {signal : ControlSignal} {job : JobState}
    {e : Effect} (he : e ∈ killEffects id signal job) :
    ∃ process g, job.process = some process ∧ e = .killProcess id signal process g := by
  unfold killEffects at he
  cases hp : job.process with
  | none => rw [hp] at he; cases he
  | some p =>
    rw [hp] at he
    exact ⟨p, _, rfl, List.mem_singleton.mp he⟩

/-- The actions that are not quiet start, signal or poll a process, or have no effect. -/
theorem JobView.Outcome.loud_effect {id : JobId} {v v' : JobView} {o : PopLog} {a : Action}
    {out : List Action} (h : v.Outcome id o a v' out) (hquiet : a.isQuiet = false) {e : Effect}
    (he : e ∈ o.effects) :
    (∃ exec policy, a = .startProcess id exec policy ∧ e = .startProcess id exec policy) ∨
      (∃ signal job process g, a = .signalProcess id signal ∧ v.job = some job ∧
        job.process = some process ∧ e = .killProcess id signal process g) ∨
      ∃ job process, v.job = some job ∧ job.process = some process ∧
        e = .pollProcess id process := by
  cases h with
  | started _ heffs | startedAbsent _ heffs | startFailed heffs =>
    rw [heffs] at he
    exact Or.inl ⟨_, _, rfl, List.mem_singleton.mp he⟩
  | @stopped job hj heffs | @killed job hj heffs =>
    rw [heffs] at he
    have ⟨process, g, hp, heq⟩ := JobView.killEffects_process he
    exact Or.inr (Or.inl ⟨_, job, process, g, rfl, hj, hp, heq⟩)
  | @exited job process _ hj hp heffs | @running job process hj hp heffs =>
    rw [heffs] at he
    exact Or.inr (Or.inr ⟨job, process, hj, hp, List.mem_singleton.mp he⟩)
  | quiet hq => rw [hq] at hquiet; cases hquiet
  | refused heffs | letIn heffs | admitted heffs | signalAbsent _ heffs | unpolled _ heffs
  | finished _ heffs | finishedAbsent _ heffs | queried _ heffs | queriedNone _ heffs
  | controlled _ heffs | timedOut _ heffs | graceOver _ heffs | controlDropped _ heffs
  | timeoutDropped _ heffs | graceDropped _ heffs =>
    rw [heffs] at he
    cases he

/-- The effect that starts a process is the one of the start action. -/
theorem JobView.Outcome.starts {id : JobId} {v v' : JobView} {o : PopLog} {a : Action}
    {out : List Action} (h : v.Outcome id o a v' out) {j : JobId} {exec : ExecSpec}
    {policy : ExecPolicy} (heffs : o.effects = [.startProcess j exec policy])
    (hquiet : a.isQuiet = false) : a = .startProcess id exec policy ∧ j = id := by
  have he : .startProcess j exec policy ∈ o.effects := by simp [heffs]
  rcases h.loud_effect hquiet he with
    ⟨_, _, ha, heq⟩ | ⟨_, _, _, _, _, _, _, heq⟩ | ⟨_, _, _, _, heq⟩
  · rw [Effect.startProcess.injEq] at heq
    rw [heq.2.1, heq.2.2]
    exact ⟨ha, heq.1⟩
  · cases heq
  · cases heq

/-- The effects that concern no process: the log, and the io of a job. -/
def Effect.isIo : Effect → Bool
  | .log .. | .watchStream .. | .unwatchStream .. | .performIo .. => true
  | _ => false

/-- A quiet action resolves to such effects only. -/
theorem JobView.react_quiet_effects {env : JobEnv} {v : JobView} {a : Action}
    (ha : a.isQuiet = true) : ∀ e ∈ (v.react env a).effects, e.isIo = true := by
  have hio : ∀ f : IoHandle → Effect, (∀ io, (f io).isIo = true) →
      ∀ e ∈ v.ioEffects f, e.isIo = true := by
    intro f hf e he
    unfold ioEffects at he
    cases hv : v.job.bind JobState.io with
    | none => rw [hv] at he; cases he
    | some io =>
      rw [hv] at he
      rw [List.mem_singleton.mp he]
      exact hf io
  cases a with
  | performIo | registerInterest | removeInterest => exact hio _ fun io => rfl
  | emitLog =>
    intro e he
    rw [List.mem_singleton.mp he]
    rfl
  | rejected | started | controlled | queryResult =>
    intro e he
    cases he
  | _ => cases ha

/-- The effect of a signal comes from the signal. -/
theorem JobView.Outcome.kill_of {j id : JobId} {v v' : JobView} {o : PopLog} {a : Action}
    {out : List Action} (h : v.Outcome j o a v' out) (hquiet : a.isQuiet = false)
    {signal : ControlSignal} {process : ProcessHandle} {g : Bool}
    (he : .killProcess id signal process g ∈ o.effects) : a = .signalProcess id signal := by
  rcases h.loud_effect hquiet he with
    ⟨_, _, _, heq⟩ | ⟨_, _, _, _, ha, _, _, heq⟩ | ⟨_, _, _, _, heq⟩
  · cases heq
  · rw [Effect.killProcess.injEq] at heq
    rw [heq.1, heq.2.1]
    exact ha
  · cases heq

theorem World.Reacts.kill_of {w w' : World σ} {a : Action} {o : PopLog} {out : List Action}
    (h : World.Reacts E w a o out w') {id : JobId} {signal : ControlSignal}
    {process : ProcessHandle} {g : Bool} (he : .killProcess id signal process g ∈ o.effects) :
    a = .signalProcess id signal := by
  refine h.outcome.kill_of ?_ he
  by_contra hq
  rw [Bool.not_eq_false] at hq
  cases JobView.react_quiet_effects hq _ (h.effects_eq ▸ he)

/-- An event that brings handles answers the start of the job it names. -/
theorem World.Reacts.started_by {w w' : World σ} {a : Action} {o : PopLog} {out : List Action}
    (h : World.Reacts E w a o out w') :
    (o.events.filterMap Event.issued = []) ∨
      ∃ id process io exec policy, o.events.filterMap Event.issued = [(id, process, io)] ∧
        a = .startProcess id exec policy := by
  rcases h.answered with ⟨-, hnil⟩ | ⟨e, ev, he, hev, hans⟩
  · rw [hnil]
    exact Or.inl rfl
  · cases e with
    | startProcess id exec policy =>
      have hquiet : a.isQuiet = false := by
        by_contra hq
        rw [Bool.not_eq_false] at hq
        have hmem := h.effects_eq ▸ he ▸ List.mem_cons_self
        cases JobView.react_quiet_effects hq (.startProcess id exec policy) hmem
      rcases h.outcome.starts he hquiet with ⟨ha, hid⟩
      rcases hans with ⟨process, io, rfl⟩ | ⟨err, rfl⟩
      · right
        refine ⟨id, process, io, exec, policy, by rw [hev]; rfl, ?_⟩
        rw [hid]
        exact ha
      · left
        rw [hev]
        rfl
    | pollProcess =>
      left
      rcases hans with rfl | ⟨status, rfl⟩ <;> rw [hev] <;> rfl
    | log | watchStream | unwatchStream | killProcess | performIo =>
      left
      rw [hev, show ev = none from hans]
      rfl

/-- A job has at most as many handles as it had starts. -/
theorem issued_le_starts {c c' : Loop σ} {t : List Label} (h : Run (Loop.Step E) c t c')
    (id : JobId) : (issuedIn t).countP (fun e => e.1 == id) ≤ (startsOf id t).length := by
  induction h with
  | nil => exact le_rfl
  | @cons c l c₁ t c₂ hs _ ih =>
    have hsplit : issuedIn (l :: t) = issuedIn [l] ++ issuedIn t := issuedIn_append [l] t
    have hsplit' : startsOf id (l :: t) = startsOf id [l] ++ startsOf id t :=
      startsOf_append id [l] t
    rw [hsplit, hsplit', List.countP_append, List.length_append]
    have hhead : (issuedIn [l]).countP (fun e => e.1 == id) ≤ (startsOf id [l]).length := by
      cases hs with
      | feed => exact Nat.zero_le _
      | @pop a o _ hpop =>
        rcases pop_iff.mp hpop with ⟨rest, out, -, -, hstep⟩
        rw [issuedIn_pop]
        rcases hstep.reacts.started_by with hnil | ⟨j, process, io, exec, policy, hev, ha⟩
        · rw [hnil]
          exact Nat.zero_le _
        · dsimp only at hev ha
          rw [hev, ha]
          unfold startsOf
          rw [Label.pops_pop, List.filter_singleton, List.countP_singleton]
          show (if (j == id) = true then 1 else 0) ≤ _
          by_cases hj : j = id
          · rw [hj, beq_self_eq_true, if_pos rfl]
            show 1 ≤ (bif (true && id == id) then [_] else []).length
            rw [beq_self_eq_true]
            exact le_rfl
          · rw [beq_eq_false_iff_ne.mpr hj]
            exact Nat.zero_le _
    omega

/-! ### A job holds the handles of its start -/

/-- The job has no handles, or the two of a start of its own. -/
def JobState.HoldsOwn (job : JobState) (id : JobId) (past : List Label) : Prop :=
  (job.process = none ∧ job.io = none) ∨
    ∃ process io, job.process = some process ∧ job.io = some io ∧
      (id, process, io) ∈ issuedIn past

theorem JobState.HoldsOwn.later {job : JobState} {id : JobId} {past : List Label}
    (h : job.HoldsOwn id past) (l : Label) : job.HoldsOwn id (past ++ [l]) := by
  rcases h with hnone | ⟨process, io, hp, hio, hmem⟩
  · exact Or.inl hnone
  · refine Or.inr ⟨process, io, hp, hio, ?_⟩
    rw [issuedIn_append]
    exact List.mem_append_left _ hmem

/-- Jobs that hold handles of their own starts share none, if no handle was created twice. -/
theorem JobState.HoldsOwn.disjoint {job job' : JobState} {id id' : JobId} {past : List Label}
    (h : job.HoldsOwn id past) (h' : job'.HoldsOwn id' past) (hne : id ≠ id')
    (hps : ((issuedIn past).map fun e => e.2.1).Nodup)
    (hios : ((issuedIn past).map fun e => e.2.2).Nodup) :
    (∀ p, job.process = some p → job'.process ≠ some p) ∧
      ∀ io, job.io = some io → job'.io ≠ some io := by
  rcases h with ⟨hp, hio⟩ | ⟨p, io, hp, hio, hmem⟩
  · rw [hp, hio]
    exact ⟨fun _ hf _ => (by cases hf), fun _ hf _ => (by cases hf)⟩
  rcases h' with ⟨hp', hio'⟩ | ⟨p', io', hp', hio', hmem'⟩
  · rw [hp', hio']
    exact ⟨fun _ _ hf => (by cases hf), fun _ _ hf => (by cases hf)⟩
  rw [hp, hp', hio, hio']
  constructor
  · rintro _ ⟨⟩ ⟨⟩
    have heq := List.inj_on_of_nodup_map hps hmem hmem' rfl
    exact hne (congrArg Prod.fst heq)
  · rintro _ ⟨⟩ ⟨⟩
    have heq := List.inj_on_of_nodup_map hios hmem hmem' rfl
    exact hne (congrArg Prod.fst heq)

/-- The invariant of one job. -/
def OwnHandles (id : JobId) (past : List Label) (c : Config JobView Action) : Prop :=
  ∀ job, c.world.job = some job → job.HoldsOwn id past

theorem OwnHandles.step {id : JobId} {past : List Label} {c c' : Config JobView Action}
    {l : Label} (h : OwnHandles id past c) (hstep : JobStep id c l c') :
    OwnHandles id (past ++ [l]) c' := by
  intro job' hj'
  cases hstep with
  | @own v a rest o v₁ out v' hid hout hev =>
    rw [show v'.job = v₁.job from hev.job] at hj'
    cases hout with
    | admitted =>
      cases hj'
      exact Or.inl ⟨rfl, rfl⟩
    | @started exec policy job process io hj _ hevents =>
      cases hj'
      refine Or.inr ⟨process, io, rfl, rfl, ?_⟩
      rw [issuedIn_append, issuedIn_pop, hevents]
      exact List.mem_append_right _ List.mem_cons_self
    | @stopped job hj =>
      cases hj'
      exact (h job hj).later _
    | finished => cases hj'
    | _ => exact (h job' hj').later _
  | other _ hev => exact (h job' (hev.job ▸ hj')).later _
  | feed => exact (h job' hj').later _

theorem OwnHandles.run {c c' : Loop σ} {t : List Label} (h : Run (Loop.Step E) c t c')
    (id : JobId) (hjob : c.world.state.jobs.get id = none) : OwnHandles id t (c'.own id) := by
  have hinit : OwnHandles id [] (c.own id) := by
    intro job hj
    rw [show (c.own id).world.job = none from hjob] at hj
    cases hj
  exact (Loop.run_own h id).invariant_trace [] (fun _ _ _ _ => OwnHandles.step) hinit

/-! ### The counter of the executor -/

namespace EffectExecutor

/-- The counter is ahead of every handle that was created, and no handle was created twice. -/
structure CountsHandles (past : List Label) (x : EffectExecutor) : Prop where
  next : x.nextHandle.toNat = 2 * (issuedIn past).length + 1
  below : ∀ e ∈ issuedIn past, e.2.1.val.toNat < x.nextHandle.toNat ∧
    e.2.2.val.toNat < x.nextHandle.toNat
  processes : ((issuedIn past).map fun e => e.2.1).Nodup
  ios : ((issuedIn past).map fun e => e.2.2).Nodup

/-- An effect either starts a process, under the next two handles, or leaves the counter and the
handles in the tables alone. -/
theorem apply_cases (x : EffectExecutor) (e : Effect) (ans : OsAnswer) :
    (∃ id, ∃ running : RunningProcess, x.apply e ans =
      ({ x with
          processes := x.processes.insert ⟨x.nextHandle⟩ running.process
          drains := x.drains.insert ⟨x.nextHandle + 1⟩ running.drain
          nextHandle := x.nextHandle + 1 + 1 },
        some (.processStarted id ⟨x.nextHandle⟩ ⟨x.nextHandle + 1⟩))) ∨
      ((x.apply e ans).2.toList.filterMap Event.issued = [] ∧
        (x.apply e ans).1.nextHandle = x.nextHandle ∧
        (x.apply e ans).1.processes = x.processes ∧
        (x.apply e ans).1.drains.keys = x.drains.keys) := by
  cases e with
  | startProcess id exec policy =>
    unfold apply
    dsimp only
    cases ans.spawn with
    | ok running => exact Or.inl ⟨id, running, rfl⟩
    | error err => exact Or.inr ⟨rfl, rfl, rfl, rfl⟩
  | log | killProcess => exact Or.inr ⟨rfl, rfl, rfl, rfl⟩
  | watchStream id io stream =>
    right
    unfold apply
    dsimp only
    split
    · split <;> exact ⟨rfl, rfl, rfl, rfl⟩
    · exact ⟨rfl, rfl, rfl, rfl⟩
  | unwatchStream id io stream =>
    right
    unfold apply
    dsimp only
    split <;> exact ⟨rfl, rfl, rfl, rfl⟩
  | performIo id io =>
    right
    unfold apply
    dsimp only
    split
    · next drain hget =>
      -- the drain stays under its handle
      refine ⟨rfl, rfl, rfl, ?_⟩
      rw [HashMap.keys_insert]
      exact Finset.insert_eq_of_mem (HashMap.mem_keys.mpr ⟨drain, hget⟩)
    · exact ⟨rfl, rfl, rfl, rfl⟩
  | pollProcess id process =>
    right
    unfold apply
    dsimp only
    split
    · split <;> exact ⟨rfl, rfl, rfl, rfl⟩
    · exact ⟨rfl, rfl, rfl, rfl⟩

/-- The two handles of one start come after all earlier ones. -/
theorem CountsHandles.start {past : List Label} {x : EffectExecutor} (h : CountsHandles past x)
    {l : Label} {id : JobId} (hl : issuedIn [l] = [(id, ⟨x.nextHandle⟩, ⟨x.nextHandle + 1⟩)])
    (hmany : 2 * (issuedIn (past ++ [l])).length < 2 ^ 64) {x' : EffectExecutor}
    (hx' : x'.nextHandle = x.nextHandle + 1 + 1) : CountsHandles (past ++ [l]) x' := by
  have hlen : (issuedIn (past ++ [l])).length = (issuedIn past).length + 1 := by
    rw [issuedIn_append, hl, List.length_append, List.length_singleton]
  rw [hlen] at hmany
  have hnext := h.next
  have h1 : (x.nextHandle + 1).toNat = x.nextHandle.toNat + 1 := by
    rw [UInt64.toNat_add]
    exact Nat.mod_eq_of_lt (by rw [hnext]; show _ + 1 < 2 ^ 64; omega)
  have h2 : (x.nextHandle + 1 + 1).toNat = x.nextHandle.toNat + 2 := by
    rw [UInt64.toNat_add, h1]
    exact Nat.mod_eq_of_lt (by rw [hnext]; show _ + 1 + 1 < 2 ^ 64; omega)
  constructor
  · rw [hx', h2, hlen, hnext]
    omega
  · intro e he
    rw [hx', h2]
    rw [issuedIn_append, hl, List.mem_append, List.mem_singleton] at he
    rcases he with he | rfl
    · rcases h.below e he with ⟨hp, hio⟩
      exact ⟨by omega, by omega⟩
    · show x.nextHandle.toNat < _ ∧ (x.nextHandle + 1).toNat < _
      rw [h1]
      exact ⟨by omega, by omega⟩
  · rw [issuedIn_append, hl, List.map_append, List.map_singleton, List.nodup_append]
    refine ⟨h.processes, List.nodup_singleton _, ?_⟩
    intro p hp p' hp' heq
    rw [List.mem_singleton] at hp'
    rcases List.mem_map.mp hp with ⟨e, he, rfl⟩
    have hlt : x.nextHandle.toNat < x.nextHandle.toNat := by
      have := (h.below e he).1
      rwa [heq, hp'] at this
    exact absurd hlt (lt_irrefl _)
  · rw [issuedIn_append, hl, List.map_append, List.map_singleton, List.nodup_append]
    refine ⟨h.ios, List.nodup_singleton _, ?_⟩
    intro p hp p' hp' heq
    rw [List.mem_singleton] at hp'
    rcases List.mem_map.mp hp with ⟨e, he, rfl⟩
    have hlt : (x.nextHandle + 1).toNat < x.nextHandle.toNat := by
      have := (h.below e he).2
      rwa [heq, hp'] at this
    rw [h1] at hlt
    omega

/-- Labels without handles keep the counter. -/
theorem CountsHandles.keep {past : List Label} {x : EffectExecutor} (h : CountsHandles past x)
    {l : Label} (hl : issuedIn [l] = []) {x' : EffectExecutor}
    (hx' : x'.nextHandle = x.nextHandle) : CountsHandles (past ++ [l]) x' := by
  have hpast : issuedIn (past ++ [l]) = issuedIn past := by
    rw [issuedIn_append, hl, List.append_nil]
  constructor
  · rw [hx', hpast]; exact h.next
  · rw [hx', hpast]; exact h.below
  · rw [hpast]; exact h.processes
  · rw [hpast]; exact h.ios

/-- The step lemma, as long as fewer than `2 ^ 64` handles were created. -/
theorem CountsHandles.step {past : List Label} {c c' : Loop EffectExecutor} {l : Label}
    (h : 2 * (issuedIn past).length < 2 ^ 64 → CountsHandles past c.world.exec)
    (hstep : Loop.Step executor c l c') (hmany : 2 * (issuedIn (past ++ [l])).length < 2 ^ 64) :
    CountsHandles (past ++ [l]) c'.world.exec := by
  have hpast := h (by rw [issuedIn_append, List.length_append] at hmany; omega)
  cases hstep with
  | @pop a o _ hpop =>
    rcases pop_iff.mp hpop with ⟨rest, out, -, -, hs⟩
    rcases hs.reacts.applied with ⟨-, hev, hexec⟩ | ⟨e, ans, -, hev, hexec⟩
    · apply hpast.keep
      · rw [issuedIn_pop, show o.events = [] from hev]
        rfl
      · rw [hexec]
    · rcases apply_cases c.world.exec e ans with ⟨id, running, hans⟩ | ⟨hnone, hnext, -⟩
      · have happly : executor.apply c.world.exec e ans = _ := hans
        have hl : issuedIn [.pop a o] =
            [(id, ⟨c.world.exec.nextHandle⟩, ⟨c.world.exec.nextHandle + 1⟩)] := by
          rw [issuedIn_pop, show o.events = _ from hev, happly]
          rfl
        refine hpast.start hl hmany ?_
        rw [hexec, happly]
      · apply hpast.keep
        · rw [issuedIn_pop, show o.events = _ from hev]
          exact hnone
        · rw [hexec]
          exact hnext
  | feed hq hacts hready =>
    apply hpast.keep (issuedIn_feed _ _)
    rw [Loop.feed_world c _ hready]

theorem CountsHandles.run {maxJobs : ℕ} {c : Loop EffectExecutor} {t : List Label}
    (h : Run (Loop.Step executor) (.init maxJobs .new) t c)
    (hmany : 2 * (issuedIn t).length < 2 ^ 64) : CountsHandles t c.world.exec := by
  have hinit : 2 * (issuedIn []).length < 2 ^ 64 → CountsHandles [] EffectExecutor.new :=
    fun _ => ⟨rfl, fun e he => absurd he List.not_mem_nil, List.nodup_nil, List.nodup_nil⟩
  let counted : List Label → Loop EffectExecutor → Prop := fun past c =>
    2 * (issuedIn past).length < 2 ^ 64 → CountsHandles past c.world.exec
  have hstep : ∀ past s l s', counted past s → Loop.Step executor s l s' →
      counted (past ++ [l]) s' := fun _ _ _ _ hs hst => CountsHandles.step hs hst
  exact h.invariant_trace [] hstep hinit hmany

end EffectExecutor

/-! ## State changes and effects agree -/

/-- The process an effect is about. -/
def Effect.process : Effect → Option ProcessHandle
  | .killProcess _ _ process _ | .pollProcess _ process => some process
  | _ => none

/-- The lifecycle entry a signal stands for. -/
def ControlSignal.lifecycle : ControlSignal → JobLifecycle
  | .gracefulStop => .terminating
  | .forceKill => .killed

/-- Dispatching the action sets the lifecycle entry of the job, whatever was there before. -/
def World.AssignsLifecycle (w : World σ) (a : Action) (id : JobId) (entry : JobLifecycle) : Prop :=
  ∀ amb lifecycle, (w.dispatcher.dispatch amb { w.state with lifecycle := lifecycle }
    a).state.lifecycle.get id = some entry

/-- A signal sets the entry of a job that is there, and of no other. -/
theorem World.assignsLifecycle_signal (w : World σ) (id : JobId) (signal : ControlSignal) :
    w.AssignsLifecycle (.signalProcess id signal) id signal.lifecycle ↔
      (w.state.jobs.get id).isSome = true := by
  cases hj : w.state.jobs.get id with
  | none =>
    have hcontra : ¬ w.AssignsLifecycle (.signalProcess id signal) id signal.lifecycle := by
      intro h
      have := h ⟨0, 0, default⟩ .empty
      simp only [Dispatcher.dispatch, LifecycleModule.handle, hj] at this
      cases this
    exact ⟨fun h => absurd h hcontra, fun h => by cases h⟩
  | some job =>
    refine ⟨fun _ => rfl, fun _ amb lifecycle => ?_⟩
    cases signal <;>
      simp only [Dispatcher.dispatch, LifecycleModule.handle, hj, HashMap.get_insert_self] <;> rfl

/-- A signal for a job that is not there is dropped. -/
theorem World.Step.signal_absent {w w' : World σ} {id : JobId} {signal : ControlSignal}
    {o : PopLog} {out : List Action} (h : World.Step E w (.signalProcess id signal) o out w')
    (hj : w.state.jobs.get id = none) : w'.state = w.state ∧ o.effects = [] := by
  rcases h with ⟨amb, ans, hp⟩
  have hd : w.dispatcher.dispatch amb w.state (.signalProcess id signal) =
      ⟨w.dispatcher, w.state, []⟩ := by
    simp only [Dispatcher.dispatch, LifecycleModule.handle, hj]
    rfl
  have heffs : (Core.resolveEffect w.state (.signalProcess id signal)).2 = [] := by
    simp only [Core.resolveEffect, hj]
  rcases process_silent E amb ans w _ hd heffs (Or.inl rfl) with ⟨exec', hp', -⟩
  rw [hp', Prod.mk.injEq, Prod.mk.injEq] at hp
  rcases hp with ⟨rfl, -, rfl⟩
  exact ⟨rfl, rfl⟩

/-- An effect about a process is about the one that the popped job holds. -/
theorem JobView.Outcome.effect_process {id : JobId} {v v' : JobView} {o : PopLog} {a : Action}
    {out : List Action} (h : v.Outcome id o a v' out) (hquiet : a.isQuiet = false) {e : Effect}
    (he : e ∈ o.effects) {p : ProcessHandle} (hp : e.process = some p) :
    e.jobId = id ∧ ∃ job, v.job = some job ∧ job.process = some p := by
  rcases h.loud_effect hquiet he with
    ⟨_, _, _, heq⟩ | ⟨_, job, _, _, _, hj, hjp, heq⟩ | ⟨job, _, hj, hjp, heq⟩
  · rw [heq] at hp
    cases hp
  all_goals
    rw [heq] at hp ⊢
    exact ⟨rfl, job, hj, hjp.trans hp⟩

theorem World.Reacts.effect_process {w w' : World σ} {a : Action} {o : PopLog}
    {out : List Action} (h : World.Reacts E w a o out w') {e : Effect} (he : e ∈ o.effects)
    {p : ProcessHandle} (hp : e.process = some p) :
    ∃ job, w.state.jobs.get e.jobId = some job ∧ job.process = some p := by
  have hquiet : a.isQuiet = false := by
    by_contra hq
    rw [Bool.not_eq_false] at hq
    have hio := JobView.react_quiet_effects hq e (h.effects_eq ▸ he)
    cases e with
    | log | watchStream | unwatchStream | startProcess | performIo => cases hp
    | killProcess | pollProcess => cases hio
  rcases h.outcome.effect_process hquiet he hp with ⟨hid, hjob⟩
  rw [hid]
  exact hjob

/-- The process handle was created for a start of the job, the only one in the run. -/
def StartedAs (t : List Label) (id : JobId) (process : ProcessHandle) : Prop :=
  ∃ io, (issuedIn t).filter (fun e => e.1 == id) = [(id, process, io)]

namespace Loop

variable {maxJobs : ℕ} {x : σ} {c : Loop σ} {t : List Label}

/-- A job that is submitted once is started at most once. -/
theorem startedAs_of_job (hrun : Run (Loop.Step E) (.init maxJobs x) t c)
    (hids : (submitted t).Nodup) {id : JobId} {job : JobState}
    (hj : c.world.state.jobs.get id = some job) {p : ProcessHandle} (hp : job.process = some p) :
    StartedAs t id p := by
  have hfed : (submitted t).count id ≤ 1 := List.nodup_iff_count_le_one.mp hids id
  have hlaunch := Launch.run (run_own hrun id) rfl rfl hfed
  have hle : ((issuedIn t).filter fun e => e.1 == id).length ≤ 1 := by
    have h1 := issued_le_starts hrun id
    have h2 := hlaunch.tokens
    rw [← List.countP_eq_length_filter]
    omega
  rcases OwnHandles.run hrun id rfl job hj with ⟨hnone, -⟩ | ⟨process, io, hp', -, hmem⟩
  · rw [hnone] at hp
    cases hp
  · rw [hp', Option.some.injEq] at hp
    subst hp
    have hfilter : (id, process, io) ∈ (issuedIn t).filter fun e => e.1 == id :=
      List.mem_filter.mpr ⟨hmem, beq_self_eq_true id⟩
    refine ⟨io, ?_⟩
    rcases List.length_eq_one_iff.mp
      (le_antisymm hle (List.length_pos_of_mem hfilter)) with ⟨e, he⟩
    rw [he, List.mem_singleton] at hfilter
    rw [he, hfilter]

/-- When a signal is popped for a job that is there, the job has a process. -/
theorem signal_finds_process (hrun : Run (Loop.Step E) (.init maxJobs x) t c)
    (hids : (submitted t).Nodup) {id : JobId} {signal : ControlSignal} {rest : List Action}
    (hq : c.queue = .signalProcess id signal :: rest) {job : JobState}
    (hj : c.world.state.jobs.get id = some job) : job.process.isSome = true := by
  have hfed : (submitted t).count id ≤ 1 := List.nodup_iff_count_le_one.mp hids id
  have hlaunch := Launch.run (run_own hrun id) rfl rfl hfed
  have hpos : 0 < (c.own id).queue.countP Action.isSignal := by
    rw [List.countP_pos_iff]
    exact ⟨.signalProcess id signal,
      List.mem_filter.mpr ⟨hq ▸ List.mem_cons_self, decide_eq_true rfl⟩, rfl⟩
  exact (hlaunch.signalled hpos).2.2.2 job hj

end Loop

/-- In every run of distinct submissions, a signal changes the lifecycle entry of its job if and
only if it is resolved to one `KillProcess`, effects about a process carry the handle that was
created for the job's own start, jobs share no handles, and a signal for a removed job is lost. -/
theorem signals_hit_own_process {maxJobs : ℕ} {c : Loop EffectExecutor} {t : List Label}
    (hrun : Run (Loop.Step EffectExecutor.executor) (.init maxJobs .new) t c)
    (hids : (submitted t).Nodup) (hmany : 2 * (issuedIn t).length < 2 ^ 64) :
    (∀ id signal o c', Loop.Step EffectExecutor.executor c (.pop (.signalProcess id signal) o) c' →
      (c.world.AssignsLifecycle (.signalProcess id signal) id signal.lifecycle ↔
        ∃ p g, o.effects = [.killProcess id signal p g]) ∧
      (c.world.state.jobs.get id = none →
        c'.world.state = c.world.state ∧ o.effects = [])) ∧
    (∀ a o c', Loop.Step EffectExecutor.executor c (.pop a o) c' →
      ∀ e ∈ o.effects, ∀ p, e.process = some p → StartedAs t e.jobId p) ∧
    ∀ i j job job', i ≠ j → c.world.state.jobs.get i = some job →
      c.world.state.jobs.get j = some job' →
      (∀ p, job.process = some p → job'.process ≠ some p) ∧
        ∀ io, job.io = some io → job'.io ≠ some io := by
  refine ⟨?_, ?_, ?_⟩
  · intro id signal o c' hstep
    have hown := hstep.own id
    cases hstep with
    | @pop a o _ hpop =>
      rcases pop_iff.mp hpop with ⟨rest, out, hq, -, hs⟩
      refine ⟨?_, fun hj => hs.signal_absent hj⟩
      rw [World.assignsLifecycle_signal]
      cases hj : c.world.state.jobs.get id with
      | none =>
        have hnil := (hs.signal_absent hj).2
        constructor
        · intro h; cases h
        · rintro ⟨p, g, he⟩
          rw [show o.effects = [] from hnil] at he
          cases he
      | some job =>
        refine ⟨fun _ => ?_, fun _ => rfl⟩
        have hp := Loop.signal_finds_process hrun hids hq hj
        rcases Option.isSome_iff_exists.mp hp with ⟨p, hp⟩
        refine ⟨p, job.pgroup.isSome || job.isolated, ?_⟩
        rw [hown.signal_effects hj]
        unfold JobView.killEffects
        rw [hp]
  · intro a o c' hstep e he p hp
    cases hstep with
    | @pop a o _ hpop =>
      rcases pop_iff.mp hpop with ⟨rest, out, -, -, hs⟩
      rcases hs.reacts.effect_process he hp with ⟨job, hj, hjp⟩
      exact Loop.startedAs_of_job hrun hids hj hjp
  · intro i j job job' hij hj hj'
    have hcount := EffectExecutor.CountsHandles.run hrun hmany
    have hheld := OwnHandles.run hrun i rfl job hj
    have hheld' := OwnHandles.run hrun j rfl job' hj'
    exact hheld.disjoint hheld' hij hcount.processes hcount.ios

namespace EffectExecutor

/-- The labels of a run in which one job is started and a stop is asked for. -/
noncomputable def controlledLabels : List Label :=
  .feed [.submit 1 0 .bare (.graceful (some 1))] [] :: Loop.popLabels startJob.1 ++
    (.feed [.control 1 .gracefulStop] [] ::
      Loop.popLabels (popAll 1 (startJob.2.feed [.control 1 .gracefulStop] [])).1)

/-- The stop is the next action. -/
noncomputable def controlledLoop : Loop EffectExecutor :=
  (popAll 1 (startJob.2.feed [.control 1 .gracefulStop] [])).2

theorem controlledLoop_run :
    Run (Loop.Step executor) (.init 1 .new) controlledLabels controlledLoop :=
  startJob_run.append
    (.cons (.feed (by decide) (by decide) (by decide)) (popAll_run 1 _))

theorem signals_hit_own_process_controlled :
    ∃ o c' p g, Loop.Step executor controlledLoop (.pop (.signalProcess 1 .gracefulStop) o) c' ∧
      controlledLoop.world.AssignsLifecycle (.signalProcess 1 .gracefulStop) 1 .terminating ∧
      o.effects = [.killProcess 1 .gracefulStop p g] ∧ StartedAs controlledLabels 1 p := by
  have hagree := signals_hit_own_process controlledLoop_run (by decide) (by decide)
  have hstep : Loop.Step executor controlledLoop _ (popAll 1 controlledLoop).2 :=
    .pop (Loop.pop_eq_some rfl)
  have heffs : _ = [Effect.killProcess 1 .gracefulStop ⟨1⟩ false] := rfl
  exact ⟨_, _, ⟨1⟩, false, hstep, ((hagree.1 1 .gracefulStop _ _ hstep).1).mpr ⟨_, _, heffs⟩, heffs,
    hagree.2.1 _ _ _ hstep _ List.mem_cons_self _ rfl⟩

end EffectExecutor
end CoreShift
