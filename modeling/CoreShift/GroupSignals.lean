import CoreShift.Enforcement
import CoreShift.Spawning
import CoreShift.Utils.ProcessGroups

/-!
# Signals to the group of a child

Which group a child is in is decided by its own calls, after the fork or inside `posix_spawn`;
where `wait_loop` sends its signals is decided by the options alone. The two are put side by side
in a system of processes: the started child takes its steps while the others do what they like, and
the signals are sent at any time.
-/

namespace CoreShift

open Utils

/-! ## Where the signals go -/

namespace WaitLoop

variable {a : WaitArgs} {s : WaitState}

/-- All signals go to the target of the options. -/
def Aimed (a : WaitArgs) (ops : List SpawnOp) : Prop :=
  ∀ target signal, .signalled target signal ∈ ops → target = a.process.target (targetIsGroup a)

theorem aimed_of_calm {ops : List SpawnOp} (h : signals ops = []) : Aimed a ops := by
  intro target signal hmem
  have hnone := signal_eq_none h hmem
  cases hnone

theorem Aimed.append {ops ops' : List SpawnOp} (h : Aimed a ops) (h' : Aimed a ops') :
    Aimed a (ops ++ ops') := by
  intro target signal hmem
  rcases List.mem_append.mp hmem with hmem | hmem
  · exact h target signal hmem
  · exact h' target signal hmem

theorem turn_aimed (t : Turn) (h : Aimed a s.ops) : Aimed a (turn a s t).1.ops := by
  have ⟨ops, hops, hnone⟩ := (turn_spec a s t).ops
  rw [hops]
  refine (h.append fun target signal hmem => ?_).append (aimed_of_calm hnone)
  have ⟨_, _, heq⟩ := List.mem_map.mp hmem
  cases heq
  rfl

theorem turns_aimed (ts : List Turn) (h : Aimed a s.ops) : Aimed a (turns a s ts).1.ops := by
  induction ts generalizing s with
  | nil => exact h
  | cons t ts ih =>
    have hturn := turn_aimed t h
    rcases turn_cases a s t with ⟨s', hagain⟩ | hstops
    · rw [hagain] at hturn
      rw [turns_of_again hagain]
      exact ih hturn
    · rw [turns_of_stops hstops]
      exact hturn

theorem waitLoop_aimed (a : WaitArgs) (drain : DrainState) (wait : List WaitAnswer)
    (ts : List Turn) : Aimed a (waitLoop a drain wait ts).1.ops := by
  rcases waitLoop_cases a drain wait ts with
    ⟨s, _, _, hempty, hloop, _⟩ | ⟨s, e, hempty, hloop, _⟩
  · rw [hloop]
    exact turns_aimed ts (aimed_of_calm hempty)
  · rw [hloop]
    exact aimed_of_calm hempty

end WaitLoop

/-- The `errno` of a signal to a target. The parent may signal its child. -/
def killErrno (t : ProcTable) (target : Int32) : Option Int32 :=
  if t.Found target.toInt then none else some ESRCH

/-- A signal finds nobody, and the loop takes that for success. -/
def Unnoticed (a : WaitArgs) (t : ProcTable) (target : Int32) : Prop :=
  killErrno t target = some ESRCH ∧ WaitLoop.killFails a (killErrno t target) = false

theorem unnoticed_iff (a : WaitArgs) (t : ProcTable) (target : Int32) :
    Unnoticed a t target ↔ ¬ t.Found target.toInt := by
  unfold Unnoticed killErrno
  by_cases hfound : t.Found target.toInt
  · rw [if_pos hfound]
    exact ⟨fun h => absurd h.1 nofun, fun h => absurd hfound h⟩
  · rw [if_neg hfound]
    exact ⟨fun _ => hfound, fun _ => ⟨rfl, by unfold WaitLoop.killFails killRet; rfl⟩⟩

/-! ## The started child -/

/-- The group that the attributes ask for. -/
def SpawnAttr.asksFor (attr : SpawnAttr) : Option Int32 :=
  if attr.flags &&& POSIX_SPAWN_SETPGROUP ≠ 0 then some (attr.pgroup.getD 0) else none

theorem spawnAttr_asksFor (opts : SpawnOptions) :
    (spawnAttr opts).asksFor = opts.pgroup.leader := by
  have hset : (POSIX_SPAWN_SETPGROUP ||| (POSIX_SPAWN_SETSIGMASK ||| POSIX_SPAWN_SETSIGDEF)) &&&
      POSIX_SPAWN_SETPGROUP ≠ 0 := by decide
  unfold SpawnAttr.asksFor spawnAttr
  cases opts.pgroup.leader with
  | none => rfl
  | some pgroup => exact if_pos hset

namespace ChildStep

/-- The call about groups that a step makes. -/
def procCall : ChildStep → Option ProcCall
  | .setsid => some .setsid
  | .setpgid pgroup => some (.setpgid pgroup.toInt)
  | _ => none

/-- What a step does to the processes. -/
def among (t : ProcTable) (pid : Int32) (x : ChildStep) : ProcTable :=
  match x.procCall with
  | some c => t.after pid.toInt c
  | none => t

def isSetpgid : ChildStep → Bool
  | .setpgid _ => true
  | _ => false

/-- What a step does to the rank of the child. -/
def promote (pid : Int32) (rank : ProcTable.Rank) : ChildStep → ProcTable.Rank
  | .setsid => if rank = .member then .sessionLeader else rank
  | .setpgid pgroup =>
    if rank = .member then (if pgroup = 0 ∨ pgroup = pid then .groupLeader else .member) else rank
  | _ => rank

end ChildStep

/-- The processes, and how far the child is with its steps. -/
structure ChildScene where
  table : ProcTable
  made : List ChildStep
  todo : List ChildStep

/-- The moment in which the parent goes on. `posix_spawn` returns once the child has changed its
group, and starts none if it cannot; a forked child has all its steps before it. -/
def ChildProgram.launch (program : ChildProgram) (t : ProcTable) (parent pid : Int32) :
    Option ChildScene :=
  match t.fork parent.toInt pid.toInt with
  | none => none
  | some t =>
    match program with
    | .forked steps _ => some ⟨t, [], steps⟩
    | .posixSpawn _ attr _ =>
      match attr.asksFor with
      | none => some ⟨t, [], []⟩
      | some pgroup =>
        (t.setpgid pid.toInt pgroup.toInt).map fun t => ⟨t, [.setpgid pgroup], []⟩

/-- What happens next: the child takes a step, or a process makes a call. -/
inductive SceneMove
  | step
  | call (p : ℤ) (c : ProcCall)

/-- The calls that are not steps of the child leave it in its group and its session. -/
inductive ChildScene.Step (pid : Int32) : ChildScene → SceneMove → ChildScene → Prop
  | step {t made x todo} :
      ChildScene.Step pid ⟨t, made, x :: todo⟩ .step ⟨x.among t pid, made ++ [x], todo⟩
  | call {s p c} (hspares : ProcTable.Spares pid.toInt p c) :
      ChildScene.Step pid s (.call p c) { s with table := s.table.after p c }

/-- The child leads the group of its own number by what it has called. -/
def Founded (pid : Int32) (made : List ChildStep) : Prop :=
  .setsid ∈ made ∨ .setpgid 0 ∈ made ∨ .setpgid pid ∈ made

/-- The rank of the child after some of its steps. -/
def rankAfter (pid : Int32) (made : List ChildStep) : ProcTable.Rank :=
  made.foldl (ChildStep.promote pid) .member

theorem rankAfter_append (pid : Int32) (made : List ChildStep) (x : ChildStep) :
    rankAfter pid (made ++ [x]) = x.promote pid (rankAfter pid made) := by
  unfold rankAfter
  rw [List.foldl_append]
  rfl

theorem rankAfter_ne_member {pid : Int32} {made : List ChildStep} :
    rankAfter pid made ≠ .member ↔ Founded pid made := by
  induction made using List.reverseRecOn with
  | nil => simp [rankAfter, Founded]
  | append_singleton made x ih =>
    rw [rankAfter_append]
    unfold Founded at ih ⊢
    simp only [List.mem_append, List.mem_singleton]
    by_cases hrank : rankAfter pid made = .member
    · -- the last step counts if the child was a member before it
      have hno := mt ih.mpr (not_not_intro hrank)
      rw [hrank]
      cases x with
      | setsid => simp [ChildStep.promote]
      | setpgid pgroup =>
        by_cases hown : pgroup = 0 ∨ pgroup = pid
        · simp only [ChildStep.promote, if_pos hown]
          rcases hown with rfl | rfl <;> simp
        · simp only [ChildStep.promote, if_neg hown]
          rw [not_or] at hown
          simp [Ne.symm hown.1, Ne.symm hown.2, hno]
      | _ => simp [ChildStep.promote, hno]
    · have hyes := ih.mp hrank
      have hkept : x.promote pid (rankAfter pid made) = rankAfter pid made := by
        cases x with
        | setsid | setpgid => exact if_neg hrank
        | _ => rfl
      rw [hkept]
      refine iff_of_true hrank ?_
      rcases hyes with hyes | hyes | hyes
      · exact Or.inl (Or.inl hyes)
      · exact Or.inr (Or.inl (Or.inl hyes))
      · exact Or.inr (Or.inr (Or.inl hyes))

/-- Only a `setpgid` makes a group leader. -/
theorem rankAfter_groupLeader {pid : Int32} {made : List ChildStep}
    (h : rankAfter pid made = .groupLeader) : 0 < made.countP ChildStep.isSetpgid := by
  induction made using List.reverseRecOn with
  | nil => cases h
  | append_singleton made x ih =>
    rw [List.countP_append]
    by_cases hrank : rankAfter pid made = .groupLeader
    · have hpos := ih hrank
      omega
    · have hlast : x.isSetpgid = true := by
        rw [rankAfter_append] at h
        cases x with
        | setsid =>
          simp only [ChildStep.promote] at h
          split at h
          · cases h
          · exact absurd h hrank
        | setpgid => rfl
        | _ => exact absurd h hrank
      rw [List.countP_singleton, if_pos hlast]
      omega

/-- A step of the child does to its place among the processes what it does to its rank. -/
theorem stands_among {t : ProcTable} {pid : Int32} {rank : ProcTable.Rank} {x : ChildStep}
    (hpid : 1 < pid.toInt) (h : t.Stands pid.toInt rank)
    (honce : x.isSetpgid = true → rank ≠ .groupLeader) :
    (x.among t pid).Stands pid.toInt (x.promote pid rank) := by
  cases x with
  | setsid => exact h.setsid
  | setpgid pgroup =>
    have hzero : pgroup.toInt = 0 ↔ pgroup = 0 := Int32.toInt_inj (y := 0)
    cases rank with
    | member =>
      have hmoved := h.setpgid_member (by omega) pgroup.toInt
      simp only [hzero, Int32.toInt_inj] at hmoved
      exact hmoved
    | groupLeader => exact absurd rfl (honce rfl)
    | sessionLeader => exact h.setpgid_sessionLeader pgroup.toInt
  | _ => exact h

/-- What is true of the child at all times: it calls `setpgid` once at most, and its place is the
one that its calls have given it. -/
structure Placed (pid : Int32) (steps : List ChildStep) (s : ChildScene) : Prop where
  whole : s.made ++ s.todo = steps
  once : steps.countP ChildStep.isSetpgid ≤ 1
  stands : s.table.Stands pid.toInt (rankAfter pid s.made)

theorem Placed.step {pid : Int32} {steps : List ChildStep} (hpid : 1 < pid.toInt)
    (s : ChildScene) (m : SceneMove) (s' : ChildScene) (h : Placed pid steps s)
    (hs : ChildScene.Step pid s m s') : Placed pid steps s' := by
  cases hs with
  | @step t made x todo =>
    have hsteps : made ++ x :: todo = steps := h.whole
    refine ⟨?_, h.once, ?_⟩
    · rw [← hsteps, List.append_assoc]
      rfl
    · rw [rankAfter_append]
      refine stands_among hpid h.stands fun hx hleads => ?_
      have hbefore := rankAfter_groupLeader hleads
      have hcount := h.once
      rw [← hsteps, List.countP_append, List.countP_cons, if_pos hx] at hcount
      omega
  | call hspares => exact ⟨h.whole, h.once, h.stands.spared hspares⟩

/-- The steps by which a program changes the group of its process. -/
def ChildProgram.steps : ChildProgram → List ChildStep
  | .forked steps _ => steps
  | .posixSpawn _ attr _ => attr.asksFor.toList.map .setpgid

theorem Placed.launch {program : ChildProgram} {t : ProcTable} {parent pid : Int32}
    {s : ChildScene} (hpid : 1 < pid.toInt) (honce : program.steps.countP ChildStep.isSetpgid ≤ 1)
    (h : program.launch t parent pid = some s) : Placed pid program.steps s := by
  unfold ChildProgram.launch at h
  cases hfork : t.fork parent.toInt pid.toInt with
  | none =>
    rw [hfork] at h
    cases h
  | some t₁ =>
    have hstands := ProcTable.stands_fork hfork
    rw [hfork] at h
    cases program with
    | forked steps image =>
      cases h
      exact ⟨rfl, honce, hstands⟩
    | posixSpawn actions attr image =>
      dsimp only [ChildProgram.steps] at h honce ⊢
      cases hasks : attr.asksFor with
      | none =>
        rw [hasks] at h honce
        cases h
        exact ⟨rfl, honce, hstands⟩
      | some pgroup =>
        rw [hasks] at h honce
        have ⟨t₂, hmoved, heq⟩ := Option.map_eq_some_iff.mp h
        rw [← heq]
        refine ⟨rfl, honce, ?_⟩
        have hstep := stands_among (x := .setpgid pgroup) hpid hstands fun _ => nofun
        have hafter : ChildStep.among t₁ pid (.setpgid pgroup) = t₂ := by
          show (t₁.setpgid pid.toInt pgroup.toInt).getD t₁ = t₂
          rw [hmoved]
          rfl
        rw [hafter] at hstep
        exact hstep

/-! ## What `spawn_start` launches -/

/-- The steps about a pipe are `dup2` calls. -/
theorem dup2_of_mem {p : Option PipeEnds} {f : PipeEnds → RawFd} {n : RawFd} {x : ChildStep}
    (h : x ∈ p.toList.flatMap fun p => if f p ≠ n then [ChildStep.dup2 (f p) n] else []) :
    ∃ fd, x = .dup2 fd n := by
  have ⟨p, _, hx⟩ := List.mem_flatMap.mp h
  split at hx
  · exact ⟨f p, List.mem_singleton.mp hx⟩
  · cases hx

theorem childSteps_once (opts : SpawnOptions) (pipes : Pipes) :
    (childSteps opts pipes).countP ChildStep.isSetpgid ≤ 1 := by
  have hdup : ∀ (p : Option PipeEnds) (f : PipeEnds → RawFd) (n : RawFd),
      (p.toList.flatMap fun p => if f p ≠ n then [ChildStep.dup2 (f p) n] else []).countP
        ChildStep.isSetpgid = 0 := by
    intro p f n
    rw [List.countP_eq_zero]
    intro x hx
    have ⟨fd, heq⟩ := dup2_of_mem hx
    rw [heq]
    exact Bool.false_ne_true
  unfold childSteps
  simp only [List.countP_append, hdup]
  cases opts.pgroup.isolated <;> cases opts.ctx.cwd <;> cases opts.pgroup.leader <;>
    simp [ChildStep.isSetpgid]

theorem program_once (ans : SpawnAnswers) (opts : SpawnOptions) (pipes : Pipes) :
    (ans.program opts pipes).steps.countP ChildStep.isSetpgid ≤ 1 := by
  unfold SpawnAnswers.program
  split
  · show ((spawnAttr opts).asksFor.toList.map ChildStep.setpgid).countP _ ≤ 1
    rw [spawnAttr_asksFor]
    cases opts.pgroup.leader <;> simp [ChildStep.isSetpgid]
  · exact childSteps_once opts pipes

/-- A child that is started has the program of the options. -/
theorem program_of_started {jobId : JobId} {opts : SpawnOptions} {ans : SpawnAnswers}
    {pid : Int32} {program : ChildProgram}
    (h : .started pid program ∈ (spawnStart jobId opts ans).ops) :
    ∃ pipes, program = ans.program opts pipes := by
  have hchild : (pid, program) ∈ (spawnStart jobId opts ans).ops.flatMap SpawnOp.children :=
    List.mem_flatMap.mpr ⟨_, h, List.mem_singleton.mpr rfl⟩
  cases hpipes : (opts.makePipes ans).result with
  | error e =>
    rw [spawnStart_of_no_pipes hpipes, (SpawnOptions.makePipes_fails hpipes).2.2.1] at hchild
    cases hchild
  | ok pipes =>
    have ⟨_, _, _, _, hops⟩ := SpawnOptions.makePipes_ok hpipes
    cases hlaunch : ans.launch opts pipes with
    | error e =>
      rw [spawnStart_of_no_launch hpipes hlaunch, hops] at hchild
      simp [Pipes.closeAll] at hchild
    | ok u =>
      rw [spawnStart_of_launch hpipes hlaunch, hops] at hchild
      have hleft : (handOver jobId opts pipes ans.nonblock).ops.flatMap SpawnOp.children = [] := by
        unfold handOver
        dsimp only
        split <;> exact droppedOps_children _
      simp [SpawnOp.children, hleft] at hchild
      exact ⟨pipes, hchild.2⟩

/-- A child with no steps left leads the group of its own number if it was isolated, or if the
leader that it was given is 0 or itself. -/
theorem founded_iff_options (ans : SpawnAnswers) (opts : SpawnOptions) (pipes : Pipes)
    (pid : Int32) :
    Founded pid (ans.program opts pipes).steps ↔ opts.pgroup.isolated = true ∨
      opts.pgroup.leader = some 0 ∨ opts.pgroup.leader = some pid := by
  have hdup : ∀ (p : Option PipeEnds) (f : PipeEnds → RawFd) (n : RawFd) (x : ChildStep),
      x.procCall.isSome = true →
        x ∉ p.toList.flatMap fun p => if f p ≠ n then [ChildStep.dup2 (f p) n] else [] := by
    intro p f n x hx hmem
    have ⟨fd, heq⟩ := dup2_of_mem hmem
    rw [heq] at hx
    cases hx
  unfold Founded SpawnAnswers.program
  cases hbackend : resolveBackend ans.selected opts with
  | posixSpawn =>
    -- a child that is to be isolated is forked
    have hisolated : opts.pgroup.isolated = false := by
      cases hiso : opts.pgroup.isolated with
      | false => rfl
      | true =>
        unfold resolveBackend forceFork at hbackend
        rw [hiso] at hbackend
        cases hbackend
    simp only [ChildProgram.steps, spawnAttr_asksFor, hisolated]
    cases opts.pgroup.leader <;> simp [eq_comm]
  | fork =>
    simp only [ChildProgram.steps, childSteps, List.mem_append,
      hdup _ _ _ .setsid rfl, hdup _ _ _ (.setpgid _) rfl]
    cases opts.pgroup.isolated <;> cases opts.pgroup.leader <;> simp [eq_comm]

/-! ## The signals and the child -/

theorem target_toInt {pid : Int32} (h : 1 < pid.toInt) (isGroup : Bool) :
    (Process.target ⟨pid⟩ isGroup).toInt = if isGroup then -pid.toInt else pid.toInt := by
  cases isGroup with
  | false => rfl
  | true =>
    have hlt := pid.toInt_lt
    show (-pid).toInt = -pid.toInt
    rw [Int32.toInt_neg]
    exact Int.bmod_eq_of_le (by omega) (by omega)

/-- No group is asked for. -/
theorem targetIsGroup_eq_false_iff (a : WaitArgs) :
    WaitLoop.targetIsGroup a = false ↔ a.pgroup = .default := by
  unfold WaitLoop.targetIsGroup
  have ⟨leader, isolated⟩ := a.pgroup
  cases leader <;> cases isolated <;> simp [ProcessGroup.default]

/-- A signal to the target of the options reaches the child, and finds anybody, if no group is
asked for or the child leads its own. -/
theorem Placed.reached_iff {a : WaitArgs} {pid : Int32} {steps : List ChildStep} {s : ChildScene}
    (h : Placed pid steps s) (hpid : 1 < pid.toInt) (halive : s.table.Alive pid.toInt)
    (ha : a.process = ⟨pid⟩) :
    (s.table.Receives (a.process.target (WaitLoop.targetIsGroup a)).toInt pid.toInt ↔
        a.pgroup = .default ∨ Founded pid s.made) ∧
      (s.table.Found (a.process.target (WaitLoop.targetIsGroup a)).toInt ↔
        a.pgroup = .default ∨ Founded pid s.made) := by
  have hmembers := h.stands.receives_iff halive hpid
  rw [rankAfter_ne_member] at hmembers
  rw [← targetIsGroup_eq_false_iff, ha, target_toInt hpid]
  cases WaitLoop.targetIsGroup a with
  | false =>
    have hself := halive.receives (by omega)
    exact ⟨iff_of_true hself (Or.inl rfl), iff_of_true hself.found (Or.inl rfl)⟩
  | true =>
    rw [or_iff_right (show ¬ true = false by decide)]
    exact hmembers

/-- For every option, backend, schedule and way in which the other processes go on: a signal of
`wait_loop` reaches the child, and is not taken for sent when nobody was there, if and only if no
group was asked for or the child leads the group of its own number by then. -/
theorem signals_reach_child_iff {jobId : JobId} {opts : SpawnOptions} {ans : SpawnAnswers}
    {pid : Int32} {program : ChildProgram} {now : Instant} {drain : DrainState}
    {wait : List WaitAnswer} {ts : List Turn} {target signal : Int32} {t : ProcTable}
    {parent : Int32} {start s : ChildScene} {moves : List SceneMove}
    (hstarted : .started pid program ∈ (spawnStart jobId opts ans).ops)
    (hsent : .signalled target signal ∈ (waitLoop (opts.waitArgs ⟨pid⟩ now) drain wait ts).1.ops)
    (hpid : 1 < pid.toInt) (hlaunch : program.launch t parent pid = some start)
    (hrun : Run (ChildScene.Step pid) start moves s) (halive : s.table.Alive pid.toInt) :
    (s.table.Receives target.toInt pid.toInt ↔
        opts.pgroup = .default ∨ Founded pid s.made) ∧
      (¬ Unnoticed (opts.waitArgs ⟨pid⟩ now) s.table target ↔
        opts.pgroup = .default ∨ Founded pid s.made) ∧
      (s.todo = [] → (opts.pgroup = .default ∨ Founded pid s.made ↔
        opts.pgroup.leader = none ∨ opts.pgroup.isolated = true ∨
          opts.pgroup.leader = some 0 ∨ opts.pgroup.leader = some pid)) := by
  have htarget := WaitLoop.waitLoop_aimed _ drain wait ts target signal hsent
  have ⟨pipes, hprogram⟩ := program_of_started hstarted
  rw [hprogram] at hlaunch
  have hplaced := hrun.invariant (Placed.step hpid)
    (Placed.launch hpid (program_once ans opts pipes) hlaunch)
  have hreached := hplaced.reached_iff hpid halive
    (show (opts.waitArgs ⟨pid⟩ now).process = ⟨pid⟩ from rfl)
  rw [unnoticed_iff, not_not, htarget]
  refine ⟨hreached.1, hreached.2, fun hdone => ?_⟩
  have hmade := hplaced.whole
  rw [hdone, List.append_nil] at hmade
  rw [hmade, founded_iff_options]
  have ⟨leader, isolated⟩ := opts.pgroup
  cases leader <;> cases isolated <;> simp [ProcessGroup.default]

/-- A program that is killed a millisecond after its start. -/
def SpawnOptions.brief (pgroup : ProcessGroup) : SpawnOptions :=
  { SpawnOptions.plain false true with pgroup := pgroup, timeoutMs := some 1, cancel := .kill }

/-- A turn at the deadline of such a program. -/
def Turn.late : Turn := ⟨1000000, none, [], [], .ok []⟩

/-- An isolated child is reached once it has called `setsid`. -/
theorem signals_reach_child_iff_isolated :
    ∃ s : ChildScene, s.table.Receives (-100) 100 := by
  have hstarted : .started 100 (SpawnAnswers.smooth.program (.brief ⟨none, true⟩)
      ⟨none, none, none⟩) ∈ (spawnStart 0 (.brief ⟨none, true⟩) .smooth).ops := List.mem_cons_self
  have hsent : .signalled (-100) SIGKILL ∈ (waitLoop
      ((SpawnOptions.brief ⟨none, true⟩).waitArgs ⟨100⟩ 0) .detached [] [.late]).1.ops :=
    List.mem_cons_self
  have hlaunch : (SpawnAnswers.smooth.program (.brief ⟨none, true⟩) ⟨none, none, none⟩).launch
      [⟨10, 10, 10⟩] 10 100 = some ⟨[⟨100, 10, 10⟩, ⟨10, 10, 10⟩], [],
        childSteps (.brief ⟨none, true⟩) ⟨none, none, none⟩⟩ := rfl
  exact ⟨_, (signals_reach_child_iff hstarted hsent (by decide) hlaunch
    (.cons .step (.cons .step (.nil _))) (by decide)).1.mpr (Or.inr (Or.inl (by decide)))⟩

/-- A child that is put into a group of the session is missed, and nobody is told. -/
theorem signals_miss_child :
    ∃ opts program now drain wait ts target signal t parent s,
      .started 100 program ∈ (spawnStart 0 opts .smooth).ops ∧
      .signalled target signal ∈ (waitLoop (opts.waitArgs ⟨100⟩ now) drain wait ts).1.ops ∧
      program.launch t parent 100 = some s ∧ s.todo = [] ∧ s.table.Alive 100 ∧
      ¬ s.table.Receives target.toInt 100 ∧ Unnoticed (opts.waitArgs ⟨100⟩ now) s.table target := by
  refine ⟨.brief ⟨some 50, false⟩, SpawnAnswers.smooth.program (.brief ⟨some 50, false⟩)
    ⟨none, none, none⟩, 0, .detached, [], [.late], -100, SIGKILL,
    [⟨50, 50, 50⟩, ⟨10, 50, 50⟩], 10, _, List.mem_cons_self, List.mem_cons_self, rfl, rfl, ?_⟩
  rw [unnoticed_iff]
  decide

end CoreShift
