import CoreShift.Waiting

/-!
# Descriptors and children are conserved

Whether `spawn_start` and `spawn` account for what they made when they return. The pipe ends of
a failed start are all closed; but a child that was created before the failure is lost with the
error. `spawn` forgets the descriptors of every slot that it registers, so that only a call
without pipes conserves them.
-/

namespace CoreShift

open Utils

/-- Every pipe descriptor that was created is closed exactly once or owned by the result. -/
def Conserved (ops : List SpawnOp) (owned : List RawFd) : Prop :=
  ∀ fd ∈ ops.flatMap SpawnOp.pipedFds, (ops.flatMap SpawnOp.closedFds).count fd + owned.count fd = 1

/-- Every child that was created is reaped, or the caller knows its pid. -/
def ChildKept (ops : List SpawnOp) (known : Option Int32) : Prop :=
  ∀ child ∈ ops.flatMap SpawnOp.children,
    child.1 ∈ ops.flatMap SpawnOp.reapedPids ∨ known = some child.1

/-- The descriptors that a returned process owns. -/
def ownedFds : Except SysError RunningProcess → List RawFd
  | .ok running => running.drain.slotFds
  | .error _ => []

/-- The pid that the caller of `spawn_start` is given. -/
def startedPid : Except SysError RunningProcess → Option Int32
  | .ok running => some running.process.pid
  | .error _ => none

/-- The pid that the caller of `spawn` is given. -/
def outputPid : Except SysError Output → Option Int32
  | .ok output => some output.pid
  | .error _ => none

/-! ## The ledger -/

theorem Balanced.append {ops ops' : List SpawnOp} {owned owned' : List RawFd}
    (h : Balanced ops owned) (h' : ∀ fd, (ops'.flatMap SpawnOp.pipedFds).count fd + owned.count fd =
      (ops'.flatMap SpawnOp.closedFds).count fd + (ops'.flatMap SpawnOp.forgottenFds).count fd +
        owned'.count fd) : Balanced (ops ++ ops') owned' := by
  intro fd
  have hfd := h fd
  have hfd' := h' fd
  simp only [List.flatMap_append, List.count_append]
  omega

/-- Where the numbers are distinct, the books balance and nothing is forgotten, each descriptor
is accounted for once. -/
theorem Balanced.conserved {ops : List SpawnOp} {owned : List RawFd} (h : Balanced ops owned)
    (hdistinct : (ops.flatMap SpawnOp.pipedFds).Nodup)
    (hforgotten : ops.flatMap SpawnOp.forgottenFds = []) : Conserved ops owned := by
  intro fd hfd
  have hone := List.count_eq_one_of_mem hdistinct hfd
  have hbalance := h fd
  rw [hforgotten, List.count_nil] at hbalance
  omega

/-- A forgotten descriptor is accounted for nowhere. -/
theorem Balanced.not_conserved {ops : List SpawnOp} {owned : List RawFd} {fd : RawFd}
    (h : Balanced ops owned) (hdistinct : (ops.flatMap SpawnOp.pipedFds).Nodup)
    (hfd : fd ∈ ops.flatMap SpawnOp.forgottenFds) : ¬ Conserved ops owned := by
  intro hconserved
  have hforgotten := List.count_pos_iff.mpr hfd
  have hbalance := h fd
  have hmade : fd ∈ ops.flatMap SpawnOp.pipedFds := by
    rw [← List.count_pos_iff]
    omega
  have hone := List.count_eq_one_of_mem hdistinct hmade
  have honce := hconserved fd hmade
  omega

/-! ## `spawn_start` -/

theorem spawnStart_conserves_iff {jobId : JobId} {opts : SpawnOptions} {ans : SpawnAnswers}
    (hdistinct : ((spawnStart jobId opts ans).ops.flatMap SpawnOp.pipedFds).Nodup) :
    Conserved (spawnStart jobId opts ans).ops (ownedFds (spawnStart jobId opts ans).result) ∧
      ChildKept (spawnStart jobId opts ans).ops (startedPid (spawnStart jobId opts ans).result) ↔
    (ans.StartsChild opts → ans.Unblocks opts) := by
  have hout := spawnStart_outcome jobId opts ans
  generalize spawnStart jobId opts ans = start at hdistinct hout ⊢
  cases hout with
  | refused hno hstarting hbalanced hchildren =>
    refine iff_of_true ⟨hbalanced.conserved hdistinct hstarting.1, ?_⟩ fun hyes => absurd hyes hno
    unfold ChildKept
    rw [hchildren]
    exact List.forall_mem_nil _
  | lost hyes hno hstarting _ hchildren =>
    refine iff_of_false ?_ fun h => hno (h hyes)
    intro ⟨_, hkept⟩
    have hpid := hkept _ (hchildren ▸ List.mem_singleton_self _)
    rw [hstarting.2.1] at hpid
    rcases hpid with hreaped | hknown
    · cases hreaped
    · cases hknown
  | running _ hyes hstarting hbalanced hchildren =>
    refine iff_of_true ⟨hbalanced.conserved hdistinct hstarting.1, ?_⟩ fun _ => hyes
    intro child hchild
    rw [hchildren, List.mem_singleton] at hchild
    rw [hchild]
    exact Or.inr rfl

/-! ## Registering the slots -/

section Slots

variable {epollAdd : RawFd → Option Int32}

/-- Each slot is forgotten or closed. -/
theorem watchSlots_count (slots : List FdSlot) (fd : RawFd) :
    (slots.map FdSlot.fd).count fd =
      ((watchSlots epollAdd slots).ops.flatMap SpawnOp.closedFds).count fd +
        ((watchSlots epollAdd slots).ops.flatMap SpawnOp.forgottenFds).count fd := by
  induction slots with
  | nil => rfl
  | cons slot slots ih =>
    unfold watchSlots
    cases syscallRet (epollAdd slot.fd) "epoll_ctl_add" with
    | error e => simp
    | ok u =>
      simp only [List.map_cons, List.flatMap_cons, SpawnOp.closedFds, SpawnOp.forgottenFds,
        List.nil_append, List.singleton_append, List.count_cons, ih]
      omega

/-- Registering makes no pipe and no child, and reaps none. -/
theorem watchSlots_flatMap {α : Type} {f : SpawnOp → List α} (hclosed : ∀ fd, f (.closed fd) = [])
    (hforgotten : ∀ fd, f (.forgotten fd) = []) (hwatched : ∀ fd token, f (.watched fd token) = [])
    (slots : List FdSlot) : (watchSlots epollAdd slots).ops.flatMap f = [] := by
  induction slots with
  | nil => rfl
  | cons slot slots ih =>
    unfold watchSlots
    cases syscallRet (epollAdd slot.fd) "epoll_ctl_add" with
    | error e => exact droppedOps_flatMap hclosed _
    | ok u =>
      dsimp only
      rw [List.flatMap_cons, List.flatMap_cons, hwatched, hforgotten, ih]
      rfl

/-- A slot that is there is either forgotten, or `spawn` fails at it. -/
theorem watchSlots_cons (slot : FdSlot) (slots : List FdSlot) :
    slot.fd ∈ (watchSlots epollAdd (slot :: slots)).ops.flatMap SpawnOp.forgottenFds ∨
      ∃ e, (watchSlots epollAdd (slot :: slots)).result = .error e := by
  unfold watchSlots
  cases syscallRet (epollAdd slot.fd) "epoll_ctl_add" with
  | error e => exact Or.inr ⟨e, rfl⟩
  | ok u => exact Or.inl List.mem_cons_self

end Slots

/-! ## `spawn` -/

/-- A drain has a slot for each stream. -/
theorem DrainState.Unused.slots_eq_nil_iff {d : DrainState} {opts : SpawnOptions}
    (h : d.Unused opts) : d.takeAllSlots.1 = [] ↔ opts.streams = [] := by
  unfold DrainState.takeAllSlots SpawnOptions.streams
  rw [← h.stdin, ← h.stdout, ← h.stderr]
  cases d.stdinSlot <;> cases d.stdoutSlot <;> cases d.stderrSlot <;> simp

section Spawn

variable {opts : SpawnOptions} {k : SpawnRun} {ops : List SpawnOp} {program : ChildProgram}

/-- An error of `spawn` loses a child that was not reaped. -/
theorem child_lost {e : SysError} {pid : Int32}
    (hchildren : ops.flatMap SpawnOp.children = [(pid, program)])
    (hreaped : ops.flatMap SpawnOp.reapedPids = []) :
    ¬ ChildKept ops (outputPid (.error e)) := by
  intro hkept
  have hpid := hkept _ (hchildren ▸ List.mem_singleton_self _)
  rw [hreaped] at hpid
  rcases hpid with hreaped | hknown
  · cases hreaped
  · cases hknown

/-- An output tells the pid of the child. -/
theorem child_told {output : Output}
    (hchildren : ops.flatMap SpawnOp.children = [(output.pid, program)]) :
    ChildKept ops (outputPid (.ok output)) := by
  intro child hchild
  rw [hchildren, List.mem_singleton] at hchild
  rw [hchild]
  exact Or.inr rfl

/-- What `spawn` does once the child runs. -/
def afterStart (opts : SpawnOptions) (k : SpawnRun) (drain : DrainState) :
    Spawned (Option (Except SysError Output)) :=
  let watched := watchSlots k.epollAdd drain.takeAllSlots.1
  match watched.result with
  | .error e => ⟨some (.error e), watched.ops⟩
  | .ok () =>
    if opts.wait then
      let waited := waitLoop (opts.waitArgs ⟨k.start.pid⟩ k.now) drain.takeAllSlots.2 k.wait k.turns
      ⟨waited.2.result, watched.ops ++ waited.1.ops⟩
    else
      let parts := drain.takeAllSlots.2.intoParts
      ⟨some (.ok ⟨k.start.pid, none, parts.1, parts.2, false⟩), watched.ops⟩

theorem spawn_of_no_reactor {code : Int32} (h : k.epollCreate = some code) :
    spawn opts k = ⟨some (.error ⟨code, "epoll_create1"⟩), []⟩ := by
  unfold spawn
  rw [h]
  rfl

theorem spawn_of_no_start {e : SysError} (h : k.epollCreate = none)
    (hstart : spawnStart 0 opts k.start = ⟨.error e, ops⟩) :
    spawn opts k = ⟨some (.error e), ops⟩ := by
  unfold spawn
  rw [h, hstart]
  rfl

theorem spawn_of_start {drain : DrainState} (h : k.epollCreate = none)
    (hstart : spawnStart 0 opts k.start = ⟨.ok ⟨⟨k.start.pid⟩, drain⟩, ops⟩) :
    spawn opts k = ⟨(afterStart opts k drain).result, ops ++ (afterStart opts k drain).ops⟩ := by
  unfold spawn afterStart
  rw [h, hstart]
  dsimp only [syscallRet]
  cases (watchSlots k.epollAdd drain.takeAllSlots.1).result with
  | error e => rfl
  | ok u =>
    dsimp only
    by_cases hwait : opts.wait = true
    · rw [if_pos hwait, if_pos hwait, List.append_assoc]
    · rw [if_neg hwait, if_neg hwait]

/-- Once the slots are registered, `spawn` only waits. -/
theorem afterStart_ops (opts : SpawnOptions) (k : SpawnRun) (drain : DrainState) :
    ∃ waits, (afterStart opts k drain).ops =
        (watchSlots k.epollAdd drain.takeAllSlots.1).ops ++ waits ∧ (∀ op ∈ waits, op.IsWait) ∧
      ((∃ e, (watchSlots k.epollAdd drain.takeAllSlots.1).result = .error e) → waits = []) := by
  have hdone : drain.takeAllSlots.2.isDone = true := rfl
  unfold afterStart
  dsimp only
  cases (watchSlots k.epollAdd drain.takeAllSlots.1).result with
  | error e => exact ⟨[], (List.append_nil _).symm, List.forall_mem_nil _, fun _ => rfl⟩
  | ok u =>
    dsimp only
    by_cases hwait : opts.wait = true
    · -- `take_all_slots` has left nothing to drain
      rw [if_pos hwait]
      have hended := WaitLoop.waitLoop_ended (a := opts.waitArgs ⟨k.start.pid⟩ k.now) hdone
        k.wait k.turns
      exact ⟨_, rfl, hended.2.1, fun ⟨e, he⟩ => by cases he⟩
    · rw [if_neg hwait]
      exact ⟨[], (List.append_nil _).symm, List.forall_mem_nil _, fun ⟨e, he⟩ => by cases he⟩

/-- A child that was waited for is kept unless the wait failed. -/
theorem childKept_iff {status : Option (Except SysError ExitStatus)} {out : ExitStatus → Output}
    {pid : Int32} {result : Except SysError Output}
    (hret : status.map (Except.map out) = some result) (hpid : ∀ st, (out st).pid = pid)
    (hchildren : ops.flatMap SpawnOp.children = [(pid, program)])
    (hlost : (∃ e, status = some (.error e)) → ops.flatMap SpawnOp.reapedPids = []) :
    ChildKept ops (outputPid result) ↔ ¬ ∃ e, status = some (.error e) := by
  cases status with
  | none => cases hret
  | some status =>
    rw [← Option.some.inj hret]
    cases status with
    | error e => exact iff_of_false (child_lost hchildren (hlost ⟨e, rfl⟩)) fun h => h ⟨e, rfl⟩
    | ok st =>
      have htold : ops.flatMap SpawnOp.children = [((out st).pid, program)] := by
        rw [hpid st]
        exact hchildren
      exact iff_of_true (child_told htold) fun ⟨e, he⟩ => by cases he

/-- With slots to register, `spawn` forgets a descriptor or loses the child. -/
theorem afterStart_not_conserved {drain : DrainState} {slot : FdSlot} {slots : List FdSlot}
    {result : Except SysError Output} (hslots : drain.takeAllSlots.1 = slot :: slots)
    (hret : (afterStart opts k drain).result = some result)
    (hbalanced : Balanced ops drain.slotFds)
    (hchildren : ops.flatMap SpawnOp.children = [(k.start.pid, program)])
    (hreaped : ops.flatMap SpawnOp.reapedPids = [])
    (hdistinct : ((ops ++ (afterStart opts k drain).ops).flatMap SpawnOp.pipedFds).Nodup) :
    ¬ (Conserved (ops ++ (afterStart opts k drain).ops) [] ∧
      ChildKept (ops ++ (afterStart opts k drain).ops) (outputPid result)) := by
  have hpiped : ((watchSlots k.epollAdd (slot :: slots)).ops).flatMap SpawnOp.pipedFds = [] :=
    watchSlots_flatMap (fun _ => rfl) (fun _ => rfl) (fun _ _ => rfl) _
  have hmade : ((watchSlots k.epollAdd (slot :: slots)).ops).flatMap SpawnOp.children = [] :=
    watchSlots_flatMap (fun _ => rfl) (fun _ => rfl) (fun _ _ => rfl) _
  have hnone : ((watchSlots k.epollAdd (slot :: slots)).ops).flatMap SpawnOp.reapedPids = [] :=
    watchSlots_flatMap (fun _ => rfl) (fun _ => rfl) (fun _ _ => rfl) _
  have hslotFds : drain.slotFds = (slot :: slots).map FdSlot.fd := by
    unfold DrainState.slotFds
    rw [hslots]
  -- the waiting adds nothing to the ledger
  have ⟨waits, hops, hwaits, hnowaits⟩ := afterStart_ops opts k drain
  rw [hslots] at hops hnowaits
  have hread : ∀ {α : Type} {f : SpawnOp → List α}, (∀ op, op.IsWait → f op = []) →
      (afterStart opts k drain).ops.flatMap f =
        (watchSlots k.epollAdd (slot :: slots)).ops.flatMap f := by
    intro α f hf
    rw [hops, List.flatMap_append, flatMap_waits hf hwaits, List.append_nil]
  rcases @watchSlots_cons k.epollAdd slot slots with hforgotten | ⟨e, hfails⟩
  · -- the slot is registered, and its descriptor forgotten
    intro ⟨hconserved, _⟩
    have htotal : Balanced (ops ++ (afterStart opts k drain).ops) [] := by
      refine hbalanced.append fun fd => ?_
      rw [hread (f := SpawnOp.pipedFds) isWait_pipedFds, hread (f := SpawnOp.closedFds)
        isWait_closedFds, hread (f := SpawnOp.forgottenFds) isWait_forgottenFds, hpiped, hslotFds,
        @watchSlots_count k.epollAdd (slot :: slots) fd]
      simp
    refine @Balanced.not_conserved _ _ slot.fd htotal hdistinct ?_ hconserved
    rw [List.flatMap_append, hread isWait_forgottenFds]
    exact List.mem_append_right _ hforgotten
  · -- the registration fails, and the child is lost with the error
    intro ⟨_, hkept⟩
    have herror : result = .error e := by
      unfold afterStart at hret
      rw [hslots] at hret
      dsimp only at hret
      rw [hfails] at hret
      exact (Option.some.inj hret).symm
    rw [herror] at hkept
    refine @child_lost _ program _ k.start.pid ?_ ?_ hkept
    · rw [List.flatMap_append, hchildren, hread isWait_children, hmade]
      rfl
    · rw [List.flatMap_append, hreaped, hops, hnowaits ⟨e, hfails⟩, List.append_nil, hnone]
      rfl

/-- Without slots `spawn` only loses the child if waiting for it fails. -/
theorem afterStart_conserves_iff {drain : DrainState} {result : Except SysError Output}
    (hslots : drain.takeAllSlots.1 = [])
    (hret : (afterStart opts k drain).result = some result) (hstarting : Starting ops)
    (hbalanced : Balanced ops drain.slotFds)
    (hchildren : ops.flatMap SpawnOp.children = [(k.start.pid, program)])
    (hdistinct : ((ops ++ (afterStart opts k drain).ops).flatMap SpawnOp.pipedFds).Nodup) :
    Conserved (ops ++ (afterStart opts k drain).ops) [] ∧
      ChildKept (ops ++ (afterStart opts k drain).ops) (outputPid result) ↔
    (opts.wait = true → ¬ AwaitFails k.wait k.turns) := by
  have hslotFds : drain.slotFds = [] := by
    unfold DrainState.slotFds
    rw [hslots]
    rfl
  rw [hslotFds] at hbalanced
  have ⟨hforgotten, hreaped, _⟩ := hstarting
  unfold afterStart at hret hdistinct ⊢
  rw [hslots] at hret hdistinct ⊢
  dsimp only [watchSlots] at hret hdistinct ⊢
  by_cases hwait : opts.wait = true
  · rw [if_pos hwait] at hret hdistinct ⊢
    simp only [List.nil_append] at hret hdistinct ⊢
    have hdone : drain.takeAllSlots.2.isDone = true := rfl
    have ⟨⟨timedOut, hresult⟩, hwaits, hlost⟩ := WaitLoop.waitLoop_ended
      (a := opts.waitArgs ⟨k.start.pid⟩ k.now) hdone k.wait k.turns
    generalize waitLoop (opts.waitArgs ⟨k.start.pid⟩ k.now) drain.takeAllSlots.2 k.wait k.turns =
      waited at hret hdistinct hresult hwaits hlost ⊢
    have htotal : Balanced (ops ++ waited.1.ops) [] := by
      refine hbalanced.append fun fd => ?_
      rw [flatMap_waits isWait_pipedFds hwaits, flatMap_waits isWait_closedFds hwaits,
        flatMap_waits isWait_forgottenFds hwaits]
      rfl
    have hconserved : Conserved (ops ++ waited.1.ops) [] := by
      refine htotal.conserved hdistinct ?_
      rw [List.flatMap_append, hforgotten, flatMap_waits isWait_forgottenFds hwaits]
      rfl
    have hchildren' : (ops ++ waited.1.ops).flatMap SpawnOp.children =
        [(k.start.pid, program)] := by
      rw [List.flatMap_append, hchildren, flatMap_waits isWait_children hwaits]
      rfl
    rw [hresult] at hret
    have hunreaped : (∃ e, awaitStatus ⟨k.start.pid⟩ k.wait k.turns = some (.error e)) →
        (ops ++ waited.1.ops).flatMap SpawnOp.reapedPids = [] := by
      intro hfails
      rw [List.flatMap_append, hreaped, hlost hfails]
      rfl
    rw [childKept_iff hret (fun _ => rfl) hchildren' hunreaped,
      ← awaitStatus_error_iff ⟨k.start.pid⟩ k.wait k.turns]
    exact ⟨fun h _ => h.2, fun h => ⟨hconserved, h hwait⟩⟩
  · rw [if_neg hwait] at hret hdistinct ⊢
    simp only [List.append_nil] at hret hdistinct ⊢
    have houtput := (Option.some.inj hret).symm
    rw [houtput]
    exact iff_of_true ⟨hbalanced.conserved hdistinct hforgotten, child_told hchildren⟩
      fun h => absurd h hwait

theorem spawn_conserves_iff {result : Except SysError Output}
    (hret : (spawn opts k).result = some result)
    (hdistinct : ((spawn opts k).ops.flatMap SpawnOp.pipedFds).Nodup) :
    Conserved (spawn opts k).ops [] ∧ ChildKept (spawn opts k).ops (outputPid result) ↔
      k.epollCreate ≠ none ∨ ¬ k.start.StartsChild opts ∨
        opts.streams = [] ∧ (opts.wait = true → ¬ AwaitFails k.wait k.turns) := by
  cases hepoll : k.epollCreate with
  | some code =>
    rw [spawn_of_no_reactor hepoll]
    refine iff_of_true ⟨List.forall_mem_nil _, List.forall_mem_nil _⟩ (Or.inl (by simp))
  | none =>
    have hout := spawnStart_outcome 0 opts k.start
    generalize hstart : spawnStart 0 opts k.start = start at hout
    cases hout with
    | @refused ops e hno hstarting hbalanced hchildren =>
      rw [spawn_of_no_start hepoll hstart] at hdistinct ⊢
      refine iff_of_true ⟨hbalanced.conserved hdistinct hstarting.1, ?_⟩ (Or.inr (Or.inl hno))
      unfold ChildKept
      rw [hchildren]
      exact List.forall_mem_nil _
    | @lost ops e program hyes hno hstarting hbalanced hchildren =>
      rw [spawn_of_no_start hepoll hstart] at hret ⊢
      have herror : result = .error e := (Option.some.inj hret).symm
      rw [herror]
      refine iff_of_false (fun h => child_lost hchildren hstarting.2.1 h.2) ?_
      -- the start fails after the child only if there are pipes
      intro h
      rcases h with h | h | ⟨h, _⟩
      · exact h rfl
      · exact h hyes
      · refine hno fun stream hs => ?_
        rw [h] at hs
        cases hs
    | @running ops drain program hyes _ hstarting hbalanced hchildren _ hunused =>
      rw [spawn_of_start hepoll hstart] at hret hdistinct ⊢
      have hstreams := hunused.slots_eq_nil_iff
      cases hslots : drain.takeAllSlots.1 with
      | nil =>
        rw [afterStart_conserves_iff hslots hret hstarting hbalanced hchildren hdistinct]
        constructor
        · exact fun h => Or.inr (Or.inr ⟨hstreams.mp hslots, h⟩)
        · intro h
          rcases h with h | h | h
          · exact absurd rfl h
          · exact absurd hyes h
          · exact h.2
      | cons slot slots =>
        refine iff_of_false (afterStart_not_conserved hslots hret hbalanced hchildren
          hstarting.2.1 hdistinct) ?_
        intro h
        rcases h with h | h | ⟨h, _⟩
        · exact h rfl
        · exact h hyes
        · rw [hstreams.mpr h] at hslots
          cases hslots

end Spawn

/-- For every outcome of the system calls: `spawn_start` conserves descriptors and children
unless the child was created and a descriptor of the parent cannot be made non-blocking; and
`spawn` conserves them exactly if no child is created, or if there are no pipes and no
`waitpid` that it makes fails for good. -/
theorem spawning_conserves_iff (opts : SpawnOptions) :
    (∀ (jobId : JobId) (ans : SpawnAnswers),
      let start := spawnStart jobId opts ans
      (start.ops.flatMap SpawnOp.pipedFds).Nodup →
      (Conserved start.ops (ownedFds start.result) ∧
          ChildKept start.ops (startedPid start.result) ↔
        (ans.StartsChild opts → ans.Unblocks opts))) ∧
    ∀ (k : SpawnRun) (result : Except SysError Output),
      (spawn opts k).result = some result →
      ((spawn opts k).ops.flatMap SpawnOp.pipedFds).Nodup →
      (Conserved (spawn opts k).ops [] ∧ ChildKept (spawn opts k).ops (outputPid result) ↔
        k.epollCreate ≠ none ∨ ¬ k.start.StartsChild opts ∨
          opts.streams = [] ∧ (opts.wait = true → ¬ AwaitFails k.wait k.turns)) :=
  ⟨fun _ _ hdistinct => spawnStart_conserves_iff hdistinct,
    fun _ _ hret hdistinct => spawn_conserves_iff hret hdistinct⟩

theorem spawning_conserves_iff_plain :
    Conserved (spawnStart 1 (.plain true false) .smooth).ops [7] ∧
      ChildKept (spawn (.plain false true) .smooth).ops (some 100) := by
  have hstart := (spawning_conserves_iff (.plain true false)).1 1 .smooth (by decide)
  have hspawn := (spawning_conserves_iff (.plain false true)).2 .smooth _ rfl List.nodup_nil
  refine ⟨(hstart.mpr fun _ _ _ => rfl).1, (hspawn.mpr (Or.inr (Or.inr ⟨rfl, fun _ => ?_⟩))).2⟩
  intro hfails
  rcases hfails with hfails | ⟨hfails, _⟩
  · cases hfails
  · cases hfails

/-- The descriptor of the captured output cannot be made non-blocking. -/
def SpawnAnswers.stuck : SpawnAnswers :=
  { SpawnAnswers.smooth with nonblock := fun _ => setNonblock (some 9) none }

/-- A failed start leaves a child behind, and a `spawn` that succeeds leaves a pipe open. -/
theorem child_and_pipe_lost :
    (spawnStart 1 (.plain true false) .stuck).result = .error ⟨9, "fcntl(F_GETFL)"⟩ ∧
      ¬ ChildKept (spawnStart 1 (.plain true false) .stuck).ops none ∧
      (spawn (.plain true true) .smooth).result =
        some (.ok ⟨100, some (.exited 0), [], [], false⟩) ∧
      ¬ Conserved (spawn (.plain true true) .smooth).ops [] := by
  refine ⟨rfl, ?_, by decide, ?_⟩
  · intro hkept
    have hpid := hkept (100, _) (List.mem_singleton.mpr rfl)
    rcases hpid with hreaped | hknown
    · cases hreaped
    · cases hknown
  · intro hconserved
    have honce := hconserved 7 (by decide)
    cases honce

end CoreShift
