import CoreShift.Records
import CoreShift.Streams
import CoreShift.Utils.Objects

/-!
# The children of the executor

What becomes of a job below the core: `spawn_start` returns a child and its drain, which the
executor keeps under the handles that it gives to the job, and every later effect of the job
finds them there.
-/

namespace CoreShift

open Utils WorkQueue

open EffectExecutor (executor)

/-! ## What a pop does to the executor -/

section Handling

variable {σ α : Type} {E : Executor σ α}

theorem World.applyEffects_one (E : Executor σ α) (ans : α) (w : World σ) (e : Effect) :
    (applyEffects E ans w [e]).events = (E.apply w.exec e ans).2.toList ∧
      (applyEffects E ans w [e]).world.exec = (E.apply w.exec e ans).1 := by
  cases h : (E.apply w.exec e ans).2 with
  | none => rw [applyEffects_none h]; exact ⟨rfl, rfl⟩
  | some ev => rw [applyEffects_some h]; exact ⟨rfl, rfl⟩

/-- The one effect of an action, if any, is applied with the answer at hand. -/
theorem Handling.applied (h : Handling σ α) :
    ((h.log E).effects = [] ∧ (h.log E).events = [] ∧ (h.after E).exec = h.before.exec) ∨
      ∃ e, (h.log E).effects = [e] ∧
        (h.log E).events = (E.apply h.before.exec e h.ans).2.toList ∧
        (h.after E).exec = (E.apply h.before.exec e h.ans).1 := by
  rcases (h.reacts E).applied with hnone | ⟨e, _, heffs, _, _⟩
  · exact Or.inl hnone
  · right
    let d := h.before.dispatcher.dispatch h.amb h.before.state h.action
    have hresolved : (Core.resolveEffects d.state [h.action]).2 = [e] := heffs
    have hone := World.applyEffects_one E h.ans ⟨d.dispatcher, d.state, h.before.exec⟩ e
    rw [← hresolved] at hone
    exact ⟨e, heffs, hone.1, hone.2⟩

end Handling

/-! ## The tables of the executor -/

namespace EffectExecutor

/-- What an effect does to the drains. -/
def drainChange (x : EffectExecutor) (ans : OsAnswer) :
    Effect → Option (Change IoHandle DrainState OsAnswer)
  | .startProcess _ _ _ =>
    match ans.spawn with
    | .ok running => some (.create ⟨x.nextHandle + 1⟩ running.drain)
    | .error _ => none
  | .performIo _ io => some (.change io ans)
  | _ => none

/-- What an effect does to the processes; none changes one. -/
def processChange (x : EffectExecutor) (ans : OsAnswer) :
    Effect → Option (Change ProcessHandle Process Empty)
  | .startProcess _ _ _ =>
    match ans.spawn with
    | .ok running => some (.create ⟨x.nextHandle⟩ running.process)
    | .error _ => none
  | _ => none

theorem apply_drains (x : EffectExecutor) (e : Effect) (ans : OsAnswer) :
    (x.apply e ans).1.drains.get =
      Change.applyAll performIo x.drains.get (x.drainChange ans e).toList := by
  cases e with
  | startProcess id exec policy =>
    unfold apply drainChange
    dsimp only
    cases ans.spawn with
    | ok running => exact HashMap.get_insert_eq _ _ _
    | error => rfl
  | performIo id io =>
    unfold apply drainChange
    dsimp only
    cases hget : x.drains.get io with
    | none => simp [Change.applyAll, Change.apply, hget]
    | some drain =>
      rw [HashMap.get_insert_eq]
      simp [Change.applyAll, Change.apply, hget]
  | watchStream id io stream | unwatchStream id io stream =>
    unfold apply
    dsimp only
    split <;> first | rfl | (split <;> rfl)
  | pollProcess id process =>
    unfold apply
    dsimp only
    split <;> first | rfl | (split <;> rfl)
  | log | killProcess => rfl

theorem apply_processes (x : EffectExecutor) (e : Effect) (ans : OsAnswer) :
    (x.apply e ans).1.processes.get =
      Change.applyAll (fun process _ => process) x.processes.get
        (x.processChange ans e).toList := by
  cases e with
  | startProcess id exec policy =>
    unfold apply processChange
    dsimp only
    cases ans.spawn with
    | ok running => exact HashMap.get_insert_eq _ _ _
    | error => rfl
  | watchStream id io stream | unwatchStream id io stream | performIo id io
  | pollProcess id process =>
    unfold apply
    dsimp only
    split <;> first | rfl | (split <;> rfl)
  | log | killProcess => rfl

end EffectExecutor

/-! ## What happened under a handle -/

namespace Handling

variable (h : Handling EffectExecutor OsAnswer)

def drainChange : Option (Change IoHandle DrainState OsAnswer) :=
  (h.log executor).effects.head?.bind (h.before.exec.drainChange h.ans)

def processChange : Option (Change ProcessHandle Process Empty) :=
  (h.log executor).effects.head?.bind (h.before.exec.processChange h.ans)

/-- The handle that io is done on, if io is done. -/
def ioHandle : Option IoHandle :=
  ((h.log executor).effects.head?.bind Effect.io).map Prod.snd

/-- A start that succeeds, with the handles that the job gets. -/
structure Starts (e : Issued) (running : RunningProcess) : Prop where
  events : (h.log executor).events = [.processStarted e.1 e.2.1 e.2.2]
  spawned : h.ans.spawn = .ok running

variable {h} in
theorem Starts.mem_issued {e : Issued} {running : RunningProcess} (hs : h.Starts e running) :
    e ∈ (h.log executor).events.filterMap Event.issued := by
  rw [hs.events]
  exact List.mem_singleton.mpr rfl

/-- A start for which `spawn_start` made one child and returned it, with an unused drain. -/
def Spawns (id : JobId) (exec : ExecSpec) (running : RunningProcess) : Prop :=
  ∃ policy ans, h.action = .startProcess id exec policy ∧ h.ans.spawn = .ok running ∧
    let opts := EffectExecutor.startOptions exec policy
    (spawnStart id opts ans).result = .ok running ∧
      (∃ program, (spawnStart id opts ans).ops.flatMap SpawnOp.children =
        [(running.process.pid, program)]) ∧ running.drain.Unused opts

theorem tables_after :
    (h.after executor).exec.drains.get = Change.applyAll EffectExecutor.performIo
        h.before.exec.drains.get h.drainChange.toList ∧
      (h.after executor).exec.processes.get = Change.applyAll (fun process _ => process)
        h.before.exec.processes.get h.processChange.toList := by
  unfold drainChange processChange
  rcases h.applied (E := executor) with ⟨heffs, _, hexec⟩ | ⟨e, heffs, _, hexec⟩
  · rw [heffs, hexec]
    exact ⟨rfl, rfl⟩
  · rw [heffs, hexec]
    exact ⟨EffectExecutor.apply_drains _ e h.ans, EffectExecutor.apply_processes _ e h.ans⟩

variable {h}

/-- What a pop puts into the tables is what `spawn_start` returned. -/
theorem starts_of_effect {e : Effect}
    (hev : (h.log executor).events = (h.before.exec.apply e h.ans).2.toList)
    {running : RunningProcess} (hspawn : h.ans.spawn = .ok running) {id : JobId} {exec : ExecSpec}
    {policy : ExecPolicy} (he : e = .startProcess id exec policy) :
    h.Starts (id, ⟨h.before.exec.nextHandle⟩, ⟨h.before.exec.nextHandle + 1⟩) running := by
  refine ⟨?_, hspawn⟩
  rw [hev, he]
  simp only [EffectExecutor.apply, hspawn]
  rfl

theorem starts_of_drain {c : Change IoHandle DrainState OsAnswer} (hc : h.drainChange = some c)
    {io : IoHandle} {drain : DrainState} (hputs : c.puts io = some drain) :
    ∃ id process running, h.Starts (id, process, io) running ∧ running.drain = drain := by
  rcases h.applied (E := executor) with ⟨heffs, _, _⟩ | ⟨e, heffs, hev, _⟩
  · rw [drainChange, heffs] at hc
    cases hc
  · rw [drainChange, heffs] at hc
    replace hc : h.before.exec.drainChange h.ans e = some c := hc
    cases e with
    | startProcess id exec policy =>
      simp only [EffectExecutor.drainChange] at hc
      cases hspawn : h.ans.spawn with
      | error => rw [hspawn] at hc; cases hc
      | ok running =>
        rw [hspawn] at hc
        cases hc
        have ⟨hio, hdrain⟩ := Option.ite_none_right_eq_some.mp hputs
        rw [← hio]
        exact ⟨id, _, running, starts_of_effect hev hspawn rfl, Option.some.inj hdrain⟩
    | performIo => cases hc; cases hputs
    | _ => cases hc

theorem starts_of_process {c : Change ProcessHandle Process Empty} (hc : h.processChange = some c)
    {process : ProcessHandle} {proc : Process} (hputs : c.puts process = some proc) :
    ∃ id io running, h.Starts (id, process, io) running ∧ running.process = proc := by
  rcases h.applied (E := executor) with ⟨heffs, _, _⟩ | ⟨e, heffs, hev, _⟩
  · rw [processChange, heffs] at hc
    cases hc
  · rw [processChange, heffs] at hc
    replace hc : h.before.exec.processChange h.ans e = some c := hc
    cases e with
    | startProcess id exec policy =>
      simp only [EffectExecutor.processChange] at hc
      cases hspawn : h.ans.spawn with
      | error => rw [hspawn] at hc; cases hc
      | ok running =>
        rw [hspawn] at hc
        cases hc
        have ⟨hprocess, hproc⟩ := Option.ite_none_right_eq_some.mp hputs
        rw [← hprocess]
        exact ⟨id, _, running, starts_of_effect hev hspawn rfl, Option.some.inj hproc⟩
    | _ => cases hc

/-- The changes of a drain are the io done on its handle. -/
theorem drainChange_under (h : Handling EffectExecutor OsAnswer) (io : IoHandle) :
    h.drainChange.bind (Change.under io) = if h.ioHandle = some io then some h.ans else none := by
  unfold drainChange ioHandle
  cases (h.log executor).effects.head? with
  | none => rfl
  | some e =>
    show (h.before.exec.drainChange h.ans e).bind _ = if e.io.map Prod.snd = some io then _ else _
    cases e with
    | startProcess =>
      simp only [EffectExecutor.drainChange]
      cases h.ans.spawn <;> rfl
    | performIo id io' => simp [EffectExecutor.drainChange, Change.under, Effect.io]
    | _ => rfl

end Handling

/-- The answers to the io done on a handle. -/
def servings (io : IoHandle) (hs : List (Handling EffectExecutor OsAnswer)) : List OsAnswer :=
  hs.filterMap fun h => if h.ioHandle = some io then some h.ans else none

theorem servings_eq (io : IoHandle) (hs : List (Handling EffectExecutor OsAnswer)) :
    (hs.filterMap fun h => h.drainChange.bind (Change.under io)) = servings io hs := by
  unfold servings
  congr 1
  funext h
  exact h.drainChange_under io

/-- The tables after a run, from the changes in it. -/
theorem tables_run {w w' : World EffectExecutor} {hs : List (Handling EffectExecutor OsAnswer)}
    (hrun : Run (World.Handles executor) w hs w') :
    w'.exec.drains.get = Change.applyAll EffectExecutor.performIo w.exec.drains.get
        (hs.filterMap Handling.drainChange) ∧
      w'.exec.processes.get = Change.applyAll (fun process _ => process) w.exec.processes.get
        (hs.filterMap Handling.processChange) := by
  induction hrun with
  | nil => exact ⟨rfl, rfl⟩
  | @cons w h w₁ hs w₂ hstep _ ih =>
    rcases hstep with ⟨rfl, rfl⟩
    rw [ih.1, ih.2, h.tables_after.1, h.tables_after.2, filterMap_cons_eq, filterMap_cons_eq,
      Change.applyAll_append, Change.applyAll_append]
    exact ⟨rfl, rfl⟩

/-! ## The child of a job -/

namespace Recorded

variable {maxJobs : ℕ} {ks : List (Entry EffectExecutor OsAnswer)} {c : Loop EffectExecutor}
  {h h' : Handling EffectExecutor OsAnswer} {e : Issued} {running running' : RunningProcess}

theorem issuedIn_eq (ks : List (Entry EffectExecutor OsAnswer)) :
    issuedIn (labelsOf ks) =
      (handlings ks).flatMap fun h => (h.log executor).events.filterMap Event.issued := by
  rw [issuedIn, pops_labels, List.flatMap_map]

theorem issued (hh : h ∈ handlings ks) (hstarts : h.Starts e running) :
    e ∈ issuedIn (labelsOf ks) := by
  rw [issuedIn_eq, List.mem_flatMap]
  exact ⟨h, hh, hstarts.mem_issued⟩

/-- A start that succeeds is one of `spawn_start`, which made one child. -/
theorem spawned (hrec : Recorded maxJobs ks c) (hh : h ∈ handlings ks)
    (hstarts : h.Starts e running) : ∃ exec, h.Spawns e.1 exec running := by
  have ⟨exec, policy, ha, _⟩ := (h.reacts executor).startedWith hstarts.mem_issued
  have ⟨ans, hspawn⟩ := hrec.spawns h (mem_handlings.mp hh) _ exec policy ha
  have houtcome := spawnStart_outcome e.1 (EffectExecutor.startOptions exec policy) ans
  have hrunning := hstarts.spawned
  rw [hspawn] at hrunning
  refine ⟨exec, policy, ans, ha, hspawn.trans hrunning, hrunning, ?_⟩
  generalize spawnStart e.1 (EffectExecutor.startOptions exec policy) ans = started
    at houtcome hrunning
  cases houtcome with
  | refused | lost => cases hrunning
  | running _ _ _ _ hchildren _ hunused =>
    cases hrunning
    exact ⟨⟨_, hchildren⟩, hunused⟩

/-- Handles are given out once. -/
theorem starts_once (hrec : Recorded maxJobs ks c)
    (hmany : 2 * (issuedIn (labelsOf ks)).length < 2 ^ 64) (hh : h ∈ handlings ks)
    (hh' : h' ∈ handlings ks) (hstarts : h.Starts e running) (hstarts' : h'.Starts e running') :
    h' = h := by
  have hnodup : (issuedIn (labelsOf ks)).Nodup :=
    (EffectExecutor.CountsHandles.run hrec.loop hmany).processes.of_map _
  rw [issuedIn_eq, List.nodup_flatMap] at hnodup
  -- two starts would have given out disjoint sets of handles
  by_contra hne
  have : Std.Symm (Function.onFun List.Disjoint fun h : Handling EffectExecutor OsAnswer =>
      (h.log executor).events.filterMap Event.issued) := ⟨fun _ _ hd => hd.symm⟩
  have hdisjoint := hnodup.2.forall hh hh' (Ne.symm hne)
  exact hdisjoint hstarts.mem_issued hstarts'.mem_issued

/-- A drain in the table is that of a start, after the io done on its handle since. -/
theorem drain_started (hrec : Recorded maxJobs ks c) {io : IoHandle} {drain : DrainState}
    (hdrain : c.world.exec.drains.get io = some drain) :
    ∃ before h after id process running, handlings ks = before ++ h :: after ∧
      h.Starts (id, process, io) running ∧
      drain = (servings io after).foldl EffectExecutor.performIo running.drain := by
  rw [(tables_run hrec.handles).1] at hdrain
  have ⟨before, h, after, _, d₀, hsplit, hb, hputs, hfold⟩ :=
    Change.applyAll_filterMap_eq_some hdrain
  have ⟨id, process, running, hstarts, hrunning⟩ := Handling.starts_of_drain hb hputs
  refine ⟨before, h, after, id, process, running, hsplit, hstarts, ?_⟩
  rw [hfold, servings_eq, hrunning]

/-- A process in the table is that of a start. -/
theorem process_started (hrec : Recorded maxJobs ks c) {process : ProcessHandle} {proc : Process}
    (hproc : c.world.exec.processes.get process = some proc) :
    ∃ h ∈ handlings ks, ∃ id io running, h.Starts (id, process, io) running ∧
      proc = running.process := by
  rw [(tables_run hrec.handles).2] at hproc
  have ⟨before, h, after, _, p₀, hsplit, hb, hputs, hfold⟩ :=
    Change.applyAll_filterMap_eq_some hproc
  have ⟨id, io, running, hstarts, hrunning⟩ := Handling.starts_of_process hb hputs
  have hnone : ∀ l : List Empty, l.foldl (fun process _ => process) p₀ = p₀ := by
    intro l
    induction l <;> trivial
  refine ⟨h, by simp [hsplit], id, io, running, hstarts, ?_⟩
  rw [hfold, hnone, hrunning]

/-- The handles of a job lead to the child that was started for it: the process, and the drain
after the io done on its handle since. -/
theorem child (hrec : Recorded maxJobs ks c) (hmany : 2 * (issuedIn (labelsOf ks)).length < 2 ^ 64)
    {id : JobId} {job : JobState} (hjob : c.world.state.jobs.get id = some job)
    (hequipped : job.process.isSome = true) :
    ∃ process io before h after running, job.process = some process ∧ job.io = some io ∧
      handlings ks = before ++ h :: after ∧ h.Starts (id, process, io) running ∧
      c.world.exec.processes.get process = some running.process ∧
      c.world.exec.drains.get io =
        some ((servings io after).foldl EffectExecutor.performIo running.drain) := by
  have hcounts := EffectExecutor.CountsHandles.run hrec.loop hmany
  rcases OwnHandles.run hrec.loop id rfl job hjob with ⟨hnone, _⟩ | ⟨process, io, hp, hio, hmem⟩
  · rw [hnone] at hequipped
    cases hequipped
  · have ⟨hpkeys, hiokeys⟩ := EffectExecutor.IssuedKept.run hrec.loop _ hmem
    have ⟨proc, hproc⟩ := HashMap.mem_keys.mp hpkeys
    have ⟨drain, hdrain⟩ := HashMap.mem_keys.mp hiokeys
    have ⟨before, h, after, _, _, running, hsplit, hstarts, heq⟩ := hrec.drain_started hdrain
    have ⟨h', hh', _, _, running', hstarts', heq'⟩ := hrec.process_started hproc
    have hh : h ∈ handlings ks := by simp [hsplit]
    -- both starts gave out the handles of the job, and a handle is given out once
    rw [← List.inj_on_of_nodup_map hcounts.ios hmem (issued hh hstarts) rfl] at hstarts
    rw [← List.inj_on_of_nodup_map hcounts.processes hmem (issued hh' hstarts') rfl]
      at hstarts'
    have hsame : running' = running := by
      have hspawned := hstarts'.spawned
      rw [hrec.starts_once hmany hh hh' hstarts hstarts', hstarts.spawned] at hspawned
      exact (Except.ok.inj hspawned).symm
    refine ⟨process, io, before, h, after, running, hp, hio, hsplit, hstarts, ?_, ?_⟩
    · rw [hproc, heq', hsame]
    · rw [hdrain, heq]

end Recorded

/-! ## Signals -/

/-- The number of a signal. -/
def ControlSignal.number : ControlSignal → Int32
  | .gracefulStop => SIGTERM
  | .forceKill => SIGKILL

/-- The call of `kill` that an effect makes: the pid it names, and the signal. -/
def EffectExecutor.killCall (x : EffectExecutor) : Effect → Option (Int32 × Int32)
  | .killProcess _ signal process isGroup =>
    (x.processes.get process).map fun proc => (proc.target isGroup, signal.number)
  | _ => none

section Ungrouped

variable {σ α : Type} {E : Executor σ α}

/-- The core puts no job into a process group. -/
def JobView.Ungrouped (v : JobView) : Prop :=
  ∀ job, v.job = some job → (job.pgroup.isSome || job.isolated) = false

theorem JobView.Outcome.ungrouped {id : JobId} {v v' : JobView} {o : PopLog} {a : Action}
    {out : List Action} (h : v.Outcome id o a v' out) (hv : v.Ungrouped) : v'.Ungrouped := by
  intro job' hjob'
  cases h with
  | admitted => cases hjob'; rfl
  | started hj | stopped hj =>
    have hold := hv _ hj
    cases hjob'
    exact hold
  | finished => cases hjob'
  | _ => exact hv job' hjob'

theorem Loop.ungrouped_run {maxJobs : ℕ} {x : σ} {t : List Label} {c : Loop σ}
    (hrun : Run (Loop.Step E) (.init maxJobs x) t c) (id : JobId) :
    (c.world.view id).Ungrouped := by
  let inv : Config JobView Action → Prop := fun c => c.world.Ungrouped
  have hinit : inv ((Loop.init maxJobs x).own id) := fun job hjob => by cases hjob
  have hstep : ∀ c l c', inv c → JobStep id c l c' → inv c' := by
    intro c l c' hc hs
    cases hs with
    | own hid hout hev =>
      intro job hjob
      exact hout.ungrouped hc job (hev.job ▸ hjob)
    | other hid hev =>
      intro job hjob
      exact hc job (hev.job ▸ hjob)
    | feed => exact hc
  have hend : inv (c.own id) := (Loop.run_own hrun id).invariant hstep hinit
  exact hend

end Ungrouped

section Kills

variable {maxJobs : ℕ} {ks : List (Entry EffectExecutor OsAnswer)}
  {c c' : Loop EffectExecutor} {a : Action} {o : PopLog}

/-- A signal resolves to one effect if its job has a process. -/
theorem World.Reacts.signal_effects {w w' : World EffectExecutor} {id : JobId}
    {signal : ControlSignal} {out : List Action}
    (h : World.Reacts executor w (.signalProcess id signal) o out w') {job : JobState}
    (hjob : w.state.jobs.get id = some job) {process : ProcessHandle}
    (hprocess : job.process = some process) :
    o.effects = [.killProcess id signal process (job.pgroup.isSome || job.isolated)] := by
  have hview : (w.view id).job = some job := hjob
  rw [h.effects_eq]
  show (JobView.onSignalProcess (w.view id) id signal).effects = _
  cases signal <;> simp only [JobView.onSignalProcess, hview, JobView.killEffects, hprocess]

/-- For every run of the loop in which each id is submitted once, and whatever the system
answers: the only calls of `kill` in a pop are those of a signal whose job is still there. There
is one such call. It names the child that `spawn_start` made for this job, never a process
group, and its number is that of the signal. -/
theorem signals_reach_own_child (hrec : Recorded maxJobs ks c)
    (hids : (submitted (labelsOf ks)).Nodup)
    (hmany : 2 * (issuedIn (labelsOf ks)).length < 2 ^ 64)
    (hpop : Pop (World.Step executor) c (a, o) c') :
    (∀ id signal, a = .signalProcess id signal →
      (c.world.state.jobs.get id).isSome = true → ∃ h ∈ handlings ks, ∃ exec running,
        h.Spawns id exec running ∧
          o.effects.filterMap c.world.exec.killCall =
            [(running.process.pid, signal.number)]) ∧
    ((∀ id signal, a = .signalProcess id signal → c.world.state.jobs.get id = none) →
      o.effects.filterMap c.world.exec.killCall = []) := by
  rcases pop_iff.mp hpop with ⟨rest, out, hq, -, hstep⟩
  have hr := hstep.reacts
  constructor
  · rintro id signal rfl hsome
    obtain ⟨job, hjob⟩ := Option.isSome_iff_exists.mp hsome
    have hequipped := Loop.signal_finds_process hrec.loop hids hq hjob
    obtain ⟨process, io, before, h, after, running, hp, _, hsplit, hstarts, hproc, _⟩ :=
      hrec.child hmany hjob hequipped
    have hh : h ∈ handlings ks := by simp [hsplit]
    obtain ⟨exec, hspawns⟩ := hrec.spawned hh hstarts
    have heffs := hr.signal_effects hjob hp
    rw [Loop.ungrouped_run hrec.loop id job hjob] at heffs
    refine ⟨h, hh, exec, running, hspawns, ?_⟩
    rw [show o.effects = _ from heffs]
    simp [EffectExecutor.killCall, hproc, Process.target]
  · intro hgone
    rw [List.filterMap_eq_nil_iff]
    intro e he
    cases e with
    | killProcess id signal process isGroup =>
      obtain ⟨job, hjob, _⟩ := hr.effect_process he rfl
      have hnone := hgone id signal (hr.kill_of he)
      rw [show c.world.state.jobs.get id = some job from hjob] at hnone
      cases hnone
    | _ => rfl

end Kills

/-! ## A small run -/

/-- The answers to the start of a bare command. -/
def OsAnswer.spawned : OsAnswer :=
  { OsAnswer.started 0 with
    spawn := (spawnStart 1 (EffectExecutor.startOptions .bare (.graceful none)) .smooth).result }

namespace EffectExecutor

/-- A job is started. -/
noncomputable def bare : List (Entry EffectExecutor OsAnswer) × Loop EffectExecutor :=
  Loop.recordPops executor (List.replicate 9 (.still 0, .spawned))
    ((Loop.init 1 .new).feed [.submit 1 0 .bare (.graceful none)] [])

/-- A client cancels it. -/
noncomputable def cancelled : List (Entry EffectExecutor OsAnswer) × Loop EffectExecutor :=
  Loop.recordPops executor [(.still 0, .spawned)] (bare.2.feed [.control 1 .gracefulStop] [])

/-- The record until then. -/
noncomputable def cancelledRecord : List (Entry EffectExecutor OsAnswer) :=
  .feed [.submit 1 0 .bare (.graceful none)] [] :: bare.1 ++
    .feed [.control 1 .gracefulStop] [] :: cancelled.1

theorem cancelled_recorded : Recorded 1 cancelledRecord cancelled.2 := by
  have hstart : Run (Loop.Records executor) (.init 1 .new) _ bare.2 :=
    .cons (.feed rfl (by decide) (by decide)) (Loop.recordPops_run _ _ _)
  have hcancel : Run (Loop.Records executor) bare.2 _ cancelled.2 :=
    .cons (.feed rfl (by decide) (by decide)) (Loop.recordPops_run _ _ _)
  have hanswers : (handlings cancelledRecord).map Handling.ans = List.replicate 9 .spawned := rfl
  have htasks : tasksStarted (labelsOf cancelledRecord) = [⟨1, .bare, .graceful none⟩] := rfl
  exact .of_task .smooth (hstart.append hcancel) hanswers htasks rfl

theorem signals_reach_own_child_cancelled :
    ∃ o c', Pop (World.Step executor) cancelled.2 (.signalProcess 1 .gracefulStop, o) c' ∧
      ∃ h ∈ handlings cancelledRecord, ∃ exec running, h.Spawns 1 exec running ∧
        o.effects.filterMap cancelled.2.world.exec.killCall =
          [(running.process.pid, SIGTERM)] := by
  have hpop := Loop.pop_eq_some
    (show Loop.pop executor (.still 0) .spawned cancelled.2 = some (_, _) from rfl)
  exact ⟨_, _, hpop,
    (signals_reach_own_child cancelled_recorded (by decide) (by decide) hpop).1 1 .gracefulStop
      rfl rfl⟩

end EffectExecutor
end CoreShift
