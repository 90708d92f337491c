import CoreShift.Children

/-!
# What a job's drain has read and written

The executor serves a job by calling `read_fd` for both outputs and then `write_stdin`, on the
drain that it finds under the job's handle. Over a whole run, the drain of a job has captured what
its own child wrote, and has fed its own input, whatever is done for other jobs in between.
-/

namespace CoreShift

open Utils WorkQueue

open EffectExecutor (executor)

variable {alloc : Allocator}

/-! ## One io -/

/-- The calls of one io. -/
def ioCalls (ans : OsAnswer) : List DrainCall :=
  [.readFd true ans.stdout, .readFd false ans.stderr, .writeStdin ans.stdin]

namespace Drain

/-- Some calls, one after the other, and the drain after them. -/
def calls (alloc : Allocator) (d : Drain (Bytes → Bool)) :
    List DrainCall → List (DrainCall × Called) × Drain (Bytes → Bool)
  | [] => ([], d)
  | c :: cs =>
    let one := d.call alloc statelessly c
    let rest := calls alloc one.1 cs
    ((c, one.2) :: rest.1, rest.2)

theorem calls_run (alloc : Allocator) (d : Drain (Bytes → Bool)) (cs : List DrainCall) :
    Run (Drain.Step alloc statelessly) d (d.calls alloc cs).1 (d.calls alloc cs).2 ∧
      (d.calls alloc cs).1.map Prod.fst = cs := by
  induction cs generalizing d with
  | nil => exact ⟨.nil d, rfl⟩
  | cons c cs ih =>
    have hrest := ih (d.call alloc statelessly c).1
    exact ⟨.cons rfl hrest.1, congrArg (c :: ·) hrest.2⟩

theorem calls_append (d : Drain (Bytes → Bool)) (cs cs' : List DrainCall) :
    (d.calls alloc (cs ++ cs')).2 = ((d.calls alloc cs).2.calls alloc cs').2 := by
  induction cs generalizing d with
  | nil => rfl
  | cons c cs ih => exact ih (d.call alloc statelessly c).1

end Drain

namespace DrainState

theorem readFd_of_gone {d : DrainState} {i : Bool} (h : d.readSlot i = none)
    (answers : List ReadAnswer) : (d.readFd i answers).1 = d := by
  rw [readFd, h]

theorem writeStdin_of_gone {d : DrainState} (h : d.stdinSlot = none) (answers : List WriteAnswer) :
    (d.writeStdin answers).1 = d := by
  rw [writeStdin, h]

end DrainState

/-- A stream without a slot is skipped, which is what its call would do. -/
theorem EffectExecutor.performIo_eq (drain : DrainState) (ans : OsAnswer) :
    performIo drain ans =
      ((((drain.readFd true ans.stdout).1.readFd false ans.stderr).1).writeStdin ans.stdin).1 := by
  have hread : ∀ (d : DrainState) (i : Bool) (answers : List ReadAnswer),
      (if (d.readSlot i).isSome = true then (d.readFd i answers).1 else d) =
        (d.readFd i answers).1 := by
    intro d i answers
    by_cases hslot : (d.readSlot i).isSome = true
    · exact if_pos hslot
    · rw [if_neg hslot, DrainState.readFd_of_gone (Option.not_isSome_iff_eq_none.mp hslot)]
  have hwrite : ∀ (d : DrainState) (answers : List WriteAnswer),
      (if d.stdinSlot.isSome = true then (d.writeStdin answers).1 else d) =
        (d.writeStdin answers).1 := by
    intro d answers
    by_cases hslot : d.stdinSlot.isSome = true
    · exact if_pos hslot
    · rw [if_neg hslot, DrainState.writeStdin_of_gone (Option.not_isSome_iff_eq_none.mp hslot)]
  have hstdout := hread drain true ans.stdout
  have hstderr := hread (drain.readFd true ans.stdout).1 false ans.stderr
  rw [← hwrite, ← hstderr, ← hstdout]
  rfl

/-- The io of the executor is that of a drain that also keeps track of its calls. -/
theorem Drain.performIo_erase (d : Drain (Bytes → Bool)) (ans : OsAnswer) :
    EffectExecutor.performIo d.erase ans = (d.calls alloc (ioCalls ans)).2.erase := by
  have hstdout := congrArg Prod.fst (readFd_erase alloc d true ans.stdout)
  have hstderr := congrArg Prod.fst
    (readFd_erase alloc (d.readFd alloc statelessly true ans.stdout).1 false ans.stderr)
  have hstdin := congrArg Prod.fst (writeStdin_erase
    ((d.readFd alloc statelessly true ans.stdout).1.readFd alloc statelessly false ans.stderr).1
    ans.stdin)
  dsimp only at hstdout hstderr hstdin
  rw [EffectExecutor.performIo_eq, ← hstdout, ← hstderr, ← hstdin]
  rfl

theorem Drain.foldl_performIo (d : Drain (Bytes → Bool)) (answers : List OsAnswer) :
    answers.foldl EffectExecutor.performIo d.erase =
      (d.calls alloc (answers.flatMap ioCalls)).2.erase := by
  induction answers generalizing d with
  | nil => rfl
  | cons ans answers ih =>
    rw [List.foldl_cons, d.performIo_erase ans, ih, List.flatMap_cons, Drain.calls_append]

/-! ## The life of a drain -/

/-- What some calls wrote. -/
def bytesWritten (t : List (DrainCall × Called)) : Bytes := sent (t.flatMap fun l => l.2.writes)

/-- A call that gives up no slot has gone on until the descriptor would block. -/
def RunsDry (l : DrainCall × Called) : Prop :=
  l.2.result = .ok none → (l.2.reads = [] ∧ l.2.writes = []) ∨
    (∃ c, l.2.reads.getLast? = some c ∧ c.result = .error ⟨EAGAIN, "read"⟩) ∨
    ∃ c, l.2.writes.getLast? = some c ∧ c.result = .error ⟨EAGAIN, "write"⟩

/-- `calls` are the calls that the executor makes to serve a drain with some answers: they take it
from what it was when it was made to what it is. -/
structure Servicing (alloc : Allocator) (answers : List OsAnswer)
    (calls : List (DrainCall × Called)) (made drain : DrainState) : Prop where
  performed : drain = answers.foldl EffectExecutor.performIo made
  called : calls.map Prod.fst = answers.flatMap ioCalls
  run : ∃ d d' : Drain (Bytes → Bool), d.erase = made ∧ d'.erase = drain ∧
    Run (Drain.Step alloc statelessly) d calls d'

/-- A drain of a job after some calls. -/
structure Tended (exec : ExecSpec) (t : List (DrainCall × Called)) (drain : DrainState) : Prop where
  output : ∀ i, drain.buffer.dest i = (bytesRead i t).take exec.maxOutput
  input : bytesWritten t = (exec.stdin.getD []).take drain.writer.off
  dry : ∀ l ∈ t, RunsDry l

section Calls

variable {F : Type} {pred : F → Bytes → F × Bool} {d d' : Drain F} {t : List (DrainCall × Called)}
  {l : DrainCall × Called}

theorem bytesWritten_snoc (t : List (DrainCall × Called)) (l : DrainCall × Called) :
    bytesWritten (t ++ [l]) = bytesWritten t ++ sent l.2.writes := by
  unfold bytesWritten
  rw [List.flatMap_append, List.flatMap_singleton, sent_append]

/-- Reading leaves the input alone. -/
theorem Drain.readFd_rest (alloc : Allocator) (pred : F → Bytes → F × Bool) (d : Drain F)
    (i : Bool) (answers : List ReadAnswer) :
    (d.readFd alloc pred i answers).1.writer = d.writer ∧
      (d.readFd alloc pred i answers).1.stdinSlot = d.stdinSlot ∧
      (d.readFd alloc pred i answers).2.writes = [] := by
  unfold readFd
  cases d.readSlot i with
  | none => exact ⟨rfl, rfl, rfl⟩
  | some slot =>
    dsimp only
    cases (d.buffer.readFromFd alloc pred i d.earlyExit answers).result with
    | error e => exact ⟨rfl, rfl, rfl⟩
    | ok done => cases done <;> cases i <;> exact ⟨rfl, rfl, rfl⟩

theorem Drain.readFd_dry (alloc : Allocator) (pred : F → Bytes → F × Bool) (d : Drain F) (i : Bool)
    (answers : List ReadAnswer) :
    RunsDry (.readFd i answers, (d.readFd alloc pred i answers).2) := by
  intro hnone
  cases hslot : d.readSlot i with
  | none =>
    left
    simp [readFd, hslot]
  | some slot =>
    have ⟨_, hblocked⟩ := (readFd_givesUp alloc pred hslot answers).kept hnone
    exact Or.inr (Or.inl hblocked)

/-- What becomes of the input: without one there is no slot and nothing is written, and else the
writer is as far as what was written. -/
def Feeding (stdin : Option Bytes) (t : List (DrainCall × Called)) (d : Drain F) : Prop :=
  (d.stdinSlot.isSome = true → stdin.isSome = true) ∧
    bytesWritten t = (stdin.getD []).take d.writer.off ∧
    ∀ buf, stdin = some buf → ∃ ws, Fed buf ws d.writer

theorem Feeding.step {stdin : Option Bytes} (h : Feeding stdin t d)
    (hstep : d.Step alloc pred l d') : Feeding stdin (t ++ [l]) d' ∧ RunsDry l := by
  have ⟨hslots, hwritten, hfed⟩ := h
  have ⟨c, o⟩ := l
  unfold Feeding
  rw [bytesWritten_snoc]
  dsimp only
  cases c with
  | readFd i answers =>
    have ⟨hwriter, hslot, hnone⟩ := d.readFd_rest alloc pred i answers
    have hdry := d.readFd_dry alloc pred i answers
    rw [show d.readFd alloc pred i answers = (d', o) from hstep] at hwriter hslot hnone hdry
    dsimp only at hwriter hslot hnone
    rw [hwriter, hslot, hnone]
    refine ⟨⟨hslots, ?_, hfed⟩, hdry⟩
    rw [← hwritten]
    exact List.append_nil _
  | writeStdin answers =>
    cases hslot : d.stdinSlot with
    | none =>
      have hcall : d.writeStdin answers = (d, ⟨.ok none, [], [], []⟩) := by
        rw [Drain.writeStdin, hslot]
      cases hcall.symm.trans hstep
      refine ⟨⟨hslots, ?_, hfed⟩, fun _ => Or.inl ⟨rfl, rfl⟩⟩
      rw [← hwritten]
      exact List.append_nil _
    | some slot =>
      -- there is a slot, so the job has an input and the writer is somewhere in it
      have hsome := hslots (by rw [hslot]; rfl)
      rcases Option.isSome_iff_exists.mp hsome with ⟨buf, rfl⟩
      have ⟨ws, hfed⟩ := hfed buf rfl
      have hstep' : d.writer.Step (answers, d.writer.writeCalls answers)
          (d.writer.writeCalls answers).writer := ⟨rfl, rfl⟩
      have ⟨hwrites, hwriter, hover, hblocked⟩ := (d.writeStdin_slot answers).2 slot hslot
      rw [show d.writeStdin answers = (d', o) from hstep] at hwrites hwriter hover hblocked
      dsimp only at hwrites hwriter hover hblocked
      have hfed' := hfed.step hstep'
      have hsent := hfed'.sent
      rw [Fed.writesOf_snoc, sent_append, hfed.sent] at hsent
      refine ⟨⟨fun _ => rfl, ?_, ?_⟩, ?_⟩
      · rw [hwritten, hwrites, hwriter]
        exact hsent
      · intro buf' hbuf
        cases hbuf
        exact ⟨_, hwriter.symm ▸ hfed'⟩
      · intro hnone
        cases hdone : (d.writer.writeCalls answers).done with
        | true =>
          rw [(hover hdone).2] at hnone
          cases hnone
        | false =>
          have hlast := hfed.blocked hstep' hdone
          rw [← hwrites] at hlast
          exact Or.inr (Or.inr hlast)

end Calls

/-- What a drain has done since it was unused. -/
theorem DrainState.Unused.tended {drain : DrainState} {exec : ExecSpec} {policy : ExecPolicy}
    (h : drain.Unused (EffectExecutor.startOptions exec policy)) (alloc : Allocator)
    (answers : List OsAnswer) :
    ∃ t, Servicing alloc answers t drain (answers.foldl EffectExecutor.performIo drain) ∧
      Tended exec t (answers.foldl EffectExecutor.performIo drain) := by
  -- the same drain with its allocations, for which the invariants of its calls are stated
  let d : Drain (Bytes → Bool) := .start alloc drain.stdoutSlot drain.stderrSlot drain.stdinSlot
    exec.stdin exec.maxOutput drain.earlyExit
  have herase : d.erase = drain := by
    have hbuffer := h.buffer
    have hwriter := h.writer
    cases drain
    dsimp only at hbuffer hwriter
    rw [hbuffer, hwriter]
    rfl
  have ⟨hrun, hcalls⟩ := d.calls_run alloc (answers.flatMap ioCalls)
  have hperformed : answers.foldl EffectExecutor.performIo drain =
      (d.calls alloc (answers.flatMap ioCalls)).2.erase := by
    rw [← herase, d.foldl_performIo answers]
  refine ⟨_, ⟨rfl, hcalls, d, _, herase, hperformed.symm, hrun⟩, ?_⟩
  rw [hperformed]
  have hhold : Holding exec.maxOutput drain.earlyExit.isSome [] d :=
    ⟨rfl, rfl, fun i => by cases i <;> exact List.take_nil.symm, fun _ => rfl⟩
  have hheld := Run.invariant_trace [] (fun past d l d' hd hs => Holding.step hd hs) hrun hhold
  let inv : List (DrainCall × Called) → Drain (Bytes → Bool) → Prop := fun t d =>
    Feeding exec.stdin t d ∧ ∀ l ∈ t, RunsDry l
  have hinit : inv [] d := by
    refine ⟨⟨fun hslot => ?_, rfl, ?_⟩, nofun⟩
    · exact h.stdin.symm.trans hslot
    · intro buf hbuf
      refine ⟨[], Nat.zero_le _, nofun, rfl, Or.inl ⟨hbuf, nofun⟩⟩
  have hstep : ∀ past d l d', inv past d → d.Step alloc statelessly l d' →
      inv (past ++ [l]) d' := by
    intro past d l d' hd hs
    have ⟨hfeeding, hdry⟩ := hd.1.step hs
    refine ⟨hfeeding, List.forall_mem_append.mpr ⟨hd.2, ?_⟩⟩
    intro l' hl'
    rw [List.mem_singleton.mp hl']
    exact hdry
  have hend := Run.invariant_trace [] hstep hrun hinit
  constructor
  · intro i
    have hdest := hheld.kept i
    rw [← Buffers.erase_dest] at hdest
    exact hdest
  · exact hend.1.2.1
  · exact hend.2

/-! ## The io of a job -/

/-- Io is due because of the io handle that the job has recorded. -/
theorem World.ioDue_eq_some {σ : Type} {w : World σ} {a : Action} {id : JobId} {io : IoHandle}
    (h : w.ioDue a = some (id, io)) :
    a = .performIo id ∧ ∃ job, w.state.jobs.get id = some job ∧ job.io = some io := by
  cases a with
  | performIo i =>
    have ⟨io', hio, heq⟩ := Option.map_eq_some_iff.mp h
    cases heq
    exact ⟨rfl, Option.bind_eq_some_iff.mp hio⟩
  | _ => cases h

namespace Recorded

variable {maxJobs : ℕ} {ks : List (Entry EffectExecutor OsAnswer)} {c : Loop EffectExecutor}
  {h : Handling EffectExecutor OsAnswer}

/-- Io on a handle is done for the job that got the handle. -/
theorem io_issued (hrec : Recorded maxJobs ks c) (hh : h ∈ handlings ks) {io : IoHandle}
    (hio : h.ioHandle = some io) :
    ∃ id process, h.action = .performIo id ∧ (id, process, io) ∈ issuedIn (labelsOf ks) := by
  rcases Option.map_eq_some_iff.mp hio with ⟨⟨id, io⟩, hhead, rfl⟩
  have ⟨e, he, heio⟩ := Option.bind_eq_some_iff.mp hhead
  have hmem : (id, io) ∈ (h.log executor).effects.filterMap Effect.io :=
    List.mem_filterMap.mpr ⟨e, List.mem_of_mem_head? he, heio⟩
  have hdone := (h.reacts executor).io
  rw [hdone, Option.mem_toList] at hmem
  have ⟨ha, job, hjob, hown⟩ := World.ioDue_eq_some hmem
  -- the job recorded the handle before the action was popped
  have ⟨ks₁, ks₂, rest, hks, hrec₁⟩ := hrec.exists_before hh
  rcases OwnHandles.run hrec₁.loop id rfl job hjob with ⟨_, hnone⟩ | ⟨process, io', _, hio', hmem⟩
  · rw [hown] at hnone
    cases hnone
  · rw [hown, Option.some.injEq] at hio'
    refine ⟨id, process, ha, ?_⟩
    rw [hks, labelsOf_append, issuedIn_append, hio']
    exact List.mem_append_left _ hmem

end Recorded

/-- For every run of the loop and whatever the system answers: the drain of a job that is there is
the one that `spawn_start` made for it, after the io that was done on it since, all of it for this
job. Its calls have read from the child the bytes of which it holds the first up to the job's
limit, they have written the first bytes of the job's input in order, and each went on until the
descriptor would block, came to its end or failed. -/
theorem output_is_own {maxJobs : ℕ} {ks : List (Entry EffectExecutor OsAnswer)}
    {c : Loop EffectExecutor} (hrec : Recorded maxJobs ks c)
    (hmany : 2 * (issuedIn (labelsOf ks)).length < 2 ^ 64) (alloc : Allocator) {id : JobId}
    {job : JobState} (hjob : c.world.state.jobs.get id = some job)
    (hequipped : job.process.isSome = true) :
    ∃ io before h after exec running calls drain, job.io = some io ∧
      handlings ks = before ++ h :: after ∧
      h.Spawns id exec running ∧ c.world.exec.drains.get io = some drain ∧
      (∀ h' ∈ handlings ks, h'.ioHandle = some io → h'.action = .performIo id) ∧
      Servicing alloc (servings io after) calls running.drain drain ∧ Tended exec calls drain := by
  have ⟨process, io, before, h, after, running, hp, hio, hsplit, hstarts, _, hdrain⟩ :=
    hrec.child hmany hjob hequipped
  have hh : h ∈ handlings ks := by simp [hsplit]
  have ⟨exec, hspawns⟩ := hrec.spawned hh hstarts
  have ⟨policy, _, _, _, _, _, hunused⟩ := hspawns
  have ⟨calls, hserved, htended⟩ := hunused.tended alloc (servings io after)
  refine ⟨io, before, h, after, exec, running, calls, _, hio, hsplit, hspawns, hdrain, ?_, hserved,
    htended⟩
  intro h' hh' hio'
  have ⟨id', process', ha, hissued⟩ := hrec.io_issued hh' hio'
  have hsame := List.inj_on_of_nodup_map (EffectExecutor.CountsHandles.run hrec.loop hmany).ios
    hissued (Recorded.issued hh hstarts) rfl
  cases hsame
  exact ha

/-! ## A small run -/

/-- The answers to the start of a command that is loud, and to a reading of two bytes. -/
def OsAnswer.heard : OsAnswer :=
  { OsAnswer.loud with
    spawn := (spawnStart 1 (EffectExecutor.startOptions .loud (.graceful none)) .smooth).result }

namespace EffectExecutor

/-- A job is started. -/
noncomputable def talking : List (Entry EffectExecutor OsAnswer) × Loop EffectExecutor :=
  Loop.recordPops executor (List.replicate 9 (.still 0, .heard))
    ((Loop.init 1 .new).feed [.submit 1 0 .loud (.graceful none)] [])

/-- Its output is read. -/
noncomputable def heard : List (Entry EffectExecutor OsAnswer) × Loop EffectExecutor :=
  Loop.recordPops executor [(.still 0, .heard)]
    (talking.2.feed [] [.jobFdReady 1 true false false])

/-- The record until then. -/
noncomputable def heardRecord : List (Entry EffectExecutor OsAnswer) :=
  .feed [.submit 1 0 .loud (.graceful none)] [] :: talking.1 ++
    .feed [] [.jobFdReady 1 true false false] :: heard.1

theorem heard_recorded : Recorded 1 heardRecord heard.2 := by
  have hstart : Run (Loop.Records executor) (.init 1 .new) _ talking.2 :=
    .cons (.feed rfl (by decide) (by decide)) (Loop.recordPops_run _ _ _)
  have hread : Run (Loop.Records executor) talking.2 _ heard.2 :=
    .cons (.feed rfl (by decide) (by decide)) (Loop.recordPops_run _ _ _)
  have hanswers : (handlings heardRecord).map Handling.ans = List.replicate 9 .heard := rfl
  have htasks : tasksStarted (labelsOf heardRecord) = [⟨1, .loud, .graceful none⟩] := rfl
  exact .of_task .smooth (hstart.append hread) hanswers htasks rfl

theorem output_is_own_heard :
    ∃ io drain exec calls answers made, heard.2.world.exec.drains.get io = some drain ∧
      Servicing Streams.exactAlloc answers calls made drain ∧ Tended exec calls drain ∧
      drain.buffer.stdout = [104, 105] := by
  have hjob : heard.2.world.state.jobs.get 1 = some _ := rfl
  have ⟨io, _, _, _, exec, _, calls, drain, hio, _, _, hdrain, _, hserved, htended⟩ :=
    output_is_own heard_recorded (by decide) Streams.exactAlloc hjob rfl
  refine ⟨io, drain, exec, calls, _, _, hdrain, hserved, htended, ?_⟩
  cases hio
  cases hdrain
  rfl

end EffectExecutor
end CoreShift
