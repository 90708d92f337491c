import CoreShift.Closing
import CoreShift.Spawning

/-!
# What a child inherits

The two backends set up the descriptors of a child in different ways: one closes the ends of the
pipes as it goes and then every number that the parent has open, the other duplicates the ends and
closes all numbers above 2 at once. Both come to the duplicated ends with everything above 2
closed.
-/

namespace CoreShift

open Utils

variable {V : Type}

/-! ## The parent -/

/-- The descriptors of a process that has 0, 1 and 2 open. -/
structure ParentTable (V : Type) where
  table : FdTable RawFd V
  nonneg : ∀ fd, fd < 0 → table fd = none
  standard : ∀ fd ∈ [0, 1, 2], table fd ≠ none

/-- What the two descriptors of a pipe stand for. -/
structure PipeFiles (V : Type) where
  readEnd : V
  writeEnd : V

/-- A pipe is made with `O_CLOEXEC`. -/
def pipeEntries (files : PipeFiles V) (p : Option PipeEnds) : List (RawFd × FdEntry V) :=
  p.toList.flatMap fun p => [(p.r, ⟨files.readEnd, true⟩), (p.w, ⟨files.writeEnd, true⟩)]

namespace Pipes

def entries (pipes : Pipes) (files : IoStream → PipeFiles V) : List (RawFd × FdEntry V) :=
  pipeEntries (files .stdin) pipes.stdin ++ pipeEntries (files .stdout) pipes.stdout ++
    pipeEntries (files .stderr) pipes.stderr

/-- The ends that the child needs, and the numbers they are meant to have. -/
def plugs (pipes : Pipes) : List (Plug RawFd) :=
  (pipes.stdin.toList.map fun p => ⟨p.r, 0, p.w⟩) ++
  (pipes.stdout.toList.map fun p => ⟨p.w, 1, p.r⟩) ++
  (pipes.stderr.toList.map fun p => ⟨p.w, 2, p.r⟩)

end Pipes

/-- The table of the parent when it starts the child. -/
def ParentTable.withPipes (parent : ParentTable V) (files : IoStream → PipeFiles V)
    (pipes : Pipes) : FdTable RawFd V :=
  parent.table.openAll (pipes.entries files)

/-- The kernel gives the ends of pipes numbers that are not in use. -/
structure ParentTable.Unused (parent : ParentTable V) (pipes : Pipes) : Prop where
  nodup : pipes.fds.Nodup
  unopened : ∀ fd ∈ pipes.fds, parent.table fd = none

/-! ## What the child is meant to get -/

/-- The entry of a number up to 2: the child's end of the pipe, or what the parent has there. -/
def standardEntry (opts : SpawnOptions) (files : IoStream → PipeFiles V) (t : FdTable RawFd V)
    (fd : RawFd) : Option (FdEntry V) :=
  if fd = 0 ∧ opts.stdin.isSome then some ⟨(files .stdin).readEnd, false⟩
  else if fd = 1 ∧ opts.captureStdout then some ⟨(files .stdout).writeEnd, false⟩
  else if fd = 2 ∧ opts.captureStderr then some ⟨(files .stderr).writeEnd, false⟩
  else t fd

/-- The standard streams and nothing else. -/
def childTable (opts : SpawnOptions) (files : IoStream → PipeFiles V) (t : FdTable RawFd V) :
    FdTable RawFd V :=
  fun fd => if fd ≤ 2 then standardEntry opts files t fd else none

/-! ## Numbers -/

theorem Pipes.fds_nonneg {pipes : Pipes} {fd : RawFd} (h : fd ∈ pipes.fds) : 0 ≤ fd := by
  have ⟨ends, hends⟩ : ∃ ends : PipeEnds, fd ∈ ends.both := by
    unfold Pipes.fds bothEnds at h
    simp only [List.mem_append, List.mem_flatMap] at h
    rcases h with (⟨ends, _, hfd⟩ | ⟨ends, _, hfd⟩) | ⟨ends, _, hfd⟩ <;> exact ⟨ends, hfd⟩
  unfold PipeEnds.both at hends
  simp only [List.mem_cons, List.not_mem_nil, or_false] at hends
  rcases hends with rfl | rfl
  · exact ends.r_nonneg
  · exact ends.w_nonneg

/-! ## The plugs -/

theorem pipeEntries_fst (files : PipeFiles V) (p : Option PipeEnds) :
    (pipeEntries files p).map Prod.fst = bothEnds p := by
  cases p <;> rfl

theorem Pipes.entries_fst (pipes : Pipes) (files : IoStream → PipeFiles V) :
    (pipes.entries files).map Prod.fst = pipes.fds := by
  unfold Pipes.entries Pipes.fds
  simp only [List.map_append, pipeEntries_fst]

theorem Pipes.plugs_ends (pipes : Pipes) :
    (pipes.plugs.flatMap fun p => [p.src, p.other]).Perm pipes.fds := by
  have ⟨stdin, stdout, stderr⟩ := pipes
  have hfirst : ∀ (p : Option PipeEnds) (n : RawFd),
      ((p.toList.map fun p => (⟨p.r, n, p.w⟩ : Plug RawFd)).flatMap
        fun p => [p.src, p.other]).Perm (bothEnds p) := by
    intro p n
    cases p with
    | none => exact .refl []
    | some p => exact .refl [p.r, p.w]
  have hswapped : ∀ (p : Option PipeEnds) (n : RawFd),
      ((p.toList.map fun p => (⟨p.w, n, p.r⟩ : Plug RawFd)).flatMap
        fun p => [p.src, p.other]).Perm (bothEnds p) := by
    intro p n
    cases p with
    | none => exact .refl []
    | some p => exact .swap p.r p.w []
  unfold Pipes.plugs Pipes.fds
  rw [List.flatMap_append, List.flatMap_append]
  exact ((hfirst stdin 0).append (hswapped stdout 1)).append (hswapped stderr 2)

theorem Pipes.mem_plugs_iff {pipes : Pipes} {p : Plug RawFd} : p ∈ pipes.plugs ↔
    (∃ ends, pipes.stdin = some ends ∧ p = ⟨ends.r, 0, ends.w⟩) ∨
    (∃ ends, pipes.stdout = some ends ∧ p = ⟨ends.w, 1, ends.r⟩) ∨
    (∃ ends, pipes.stderr = some ends ∧ p = ⟨ends.w, 2, ends.r⟩) := by
  unfold Pipes.plugs
  simp only [List.mem_append, List.mem_map, Option.mem_toList, or_assoc, eq_comm]

theorem Pipes.mem_plugs {pipes : Pipes} {p : Plug RawFd} (h : p ∈ pipes.plugs) :
    p.dst ∈ [(0 : RawFd), 1, 2] ∧ p.src ∈ pipes.fds ∧ p.other ∈ pipes.fds := by
  have hends : ∀ x ∈ [p.src, p.other], x ∈ pipes.fds := by
    intro x hx
    exact pipes.plugs_ends.subset (List.mem_flatMap.mpr ⟨p, h, hx⟩)
  refine ⟨?_, hends p.src (by simp), hends p.other (by simp)⟩
  rcases Pipes.mem_plugs_iff.mp h with ⟨_, _, heq⟩ | ⟨_, _, heq⟩ | ⟨_, _, heq⟩
  · rw [heq]
    simp
  · rw [heq]
    simp
  · rw [heq]
    simp

theorem Pipes.plugs_dst_ne {pipes : Pipes} {fd : RawFd} (h : fd < 0 ∨ 2 < fd) :
    ∀ p ∈ pipes.plugs, p.dst ≠ fd := by
  intro p hp heq
  have ⟨hdst, _⟩ := Pipes.mem_plugs hp
  rw [heq] at hdst
  simp only [List.mem_cons, List.not_mem_nil, or_false] at hdst
  rcases hdst with rfl | rfl | rfl <;> exact absurd h (by decide)

theorem Pipes.plugs_dsts (pipes : Pipes) : (pipes.plugs.map Plug.dst).Nodup := by
  have ⟨stdin, stdout, stderr⟩ := pipes
  cases stdin <;> cases stdout <;> cases stderr <;> simp [Pipes.plugs]

section Setup

variable {parent : ParentTable V} {files : IoStream → PipeFiles V} {pipes : Pipes}

/-- The ends of the pipes have numbers above 2. -/
theorem ParentTable.Unused.above (h : parent.Unused pipes) {fd : RawFd} (hfd : fd ∈ pipes.fds) :
    2 < fd := by
  rw [two_lt_iff (Pipes.fds_nonneg hfd)]
  exact fun hstd => parent.standard fd hstd (h.unopened fd hfd)

theorem ParentTable.Unused.separate (h : parent.Unused pipes) : FdTable.Separate pipes.plugs := by
  have hapart : ∀ p ∈ pipes.plugs, ∀ fd ∈ pipes.fds, p.dst ≠ fd := by
    intro p hp fd hfd heq
    have hout := (two_lt_iff (Pipes.fds_nonneg hfd)).mp (h.above hfd)
    rw [← heq] at hout
    exact hout (Pipes.mem_plugs hp).1
  refine ⟨pipes.plugs_dsts, pipes.plugs_ends.nodup_iff.mpr h.nodup, fun p hp q hq => ?_⟩
  have ⟨_, hsrc, hother⟩ := Pipes.mem_plugs hq
  exact ⟨hapart p hp q.src hsrc, hapart p hp q.other hother⟩

/-- Numbers other than those of the plugs have what the parent has there. -/
theorem Pipes.dup2All_of_unplugged {fd : RawFd} (hplug : ∀ p ∈ pipes.plugs, p.dst ≠ fd)
    (hpipe : fd ∉ pipes.fds) :
    (parent.withPipes files pipes).dup2All pipes.plugs fd = parent.table fd := by
  rw [FdTable.dup2All_of_ne hplug]
  refine FdTable.openAll_of_not_mem ?_
  rw [Pipes.entries_fst]
  exact hpipe

/-- A plug has what its end of the pipe has. -/
theorem Pipes.dup2All_of_plugged (h : parent.Unused pipes) {p : Plug RawFd}
    {file : V} (hp : p ∈ pipes.plugs) (hfile : (p.src, ⟨file, true⟩) ∈ pipes.entries files) :
    (parent.withPipes files pipes).dup2All pipes.plugs p.dst = some ⟨file, false⟩ := by
  have hopen : parent.withPipes files pipes p.src = some ⟨file, true⟩ := by
    refine FdTable.openAll_of_mem ?_ hfile
    rw [Pipes.entries_fst]
    exact h.nodup
  exact FdTable.dup2All_of_mem h.separate hp hopen

/-- Descriptors are not negative. -/
theorem dup2All_nonneg {fd : RawFd}
    (hopen : (parent.withPipes files pipes).dup2All pipes.plugs fd ≠ none) : 0 ≤ fd := by
  by_contra hneg
  have hlt : fd < 0 := Int32.not_le.mp hneg
  rw [Pipes.dup2All_of_unplugged (Pipes.plugs_dst_ne (Or.inl hlt))
    fun hmem => hneg (Pipes.fds_nonneg hmem)] at hopen
  exact hopen (parent.nonneg fd hlt)

/-! ## What both set-ups come to -/

/-- The duplicated ends, and nothing above 2. -/
theorem plugged_eq_childTable {opts : SpawnOptions} {ans : SpawnAnswers}
    (hpipes : (opts.makePipes ans).result = .ok pipes) (h : parent.Unused pipes) :
    ((parent.withPipes files pipes).dup2All pipes.plugs).closeWhere (2 < ·) =
      childTable opts files parent.table := by
  have ⟨hin, hout, herr, _, _⟩ := SpawnOptions.makePipes_ok hpipes
  funext fd
  unfold FdTable.closeWhere childTable standardEntry
  by_cases hfd : 2 < fd
  · rw [if_pos hfd, if_neg (Int32.not_le.mpr hfd)]
  · rw [if_neg hfd, if_pos (Int32.not_lt.mp hfd), ← hin, ← hout, ← herr]
    by_cases hplug : ∃ p ∈ pipes.plugs, p.dst = fd
    · obtain ⟨p, hp, rfl⟩ := hplug
      rcases Pipes.mem_plugs_iff.mp hp with ⟨e, hpipe, heq⟩ | ⟨e, hpipe, heq⟩ | ⟨e, hpipe, heq⟩
      · have hfile : (p.src, ⟨(files .stdin).readEnd, true⟩) ∈ pipes.entries files := by
          rw [heq]
          simp [Pipes.entries, pipeEntries, hpipe]
        rw [Pipes.dup2All_of_plugged h hp hfile, heq, hpipe, if_pos ⟨rfl, rfl⟩]
      · have hfile : (p.src, ⟨(files .stdout).writeEnd, true⟩) ∈ pipes.entries files := by
          rw [heq]
          simp [Pipes.entries, pipeEntries, hpipe]
        rw [Pipes.dup2All_of_plugged h hp hfile, heq, hpipe, if_neg (by simp), if_pos ⟨rfl, rfl⟩]
      · have hfile : (p.src, ⟨(files .stderr).writeEnd, true⟩) ∈ pipes.entries files := by
          rw [heq]
          simp [Pipes.entries, pipeEntries, hpipe]
        rw [Pipes.dup2All_of_plugged h hp hfile, heq, hpipe, if_neg (by simp),
          if_neg (by simp), if_pos ⟨rfl, rfl⟩]
    · have hno : ∀ p ∈ pipes.plugs, p.dst ≠ fd := fun p hp heq => hplug ⟨p, hp, heq⟩
      rw [Pipes.dup2All_of_unplugged hno fun hmem => hfd (h.above hmem)]
      rw [if_neg, if_neg, if_neg]
      · intro ⟨heq, hsome⟩
        have ⟨e, he⟩ := Option.isSome_iff_exists.mp hsome
        exact hno _ (Pipes.mem_plugs_iff.mpr (Or.inr (Or.inr ⟨e, he, rfl⟩))) heq.symm
      · intro ⟨heq, hsome⟩
        have ⟨e, he⟩ := Option.isSome_iff_exists.mp hsome
        exact hno _ (Pipes.mem_plugs_iff.mpr (Or.inr (Or.inl ⟨e, he, rfl⟩))) heq.symm
      · intro ⟨heq, hsome⟩
        have ⟨e, he⟩ := Option.isSome_iff_exists.mp hsome
        exact hno _ (Pipes.mem_plugs_iff.mpr (Or.inl ⟨e, he, rfl⟩)) heq.symm

/-- The file actions of the pipes. -/
theorem fileActions_eq (pipes : Pipes) (ans : SpawnAnswers) {dirFd : RawFd} {listed : List RawFd}
    (hdir : ans.directory = some (dirFd, listed)) :
    fileActions pipes ans =
      (pipes.plugs.flatMap fun p => [.addDup2 p.src p.dst, .addClose p.src, .addClose p.other]) ++
        (listed.filter fun fd => 2 < fd ∧ fd ≠ dirFd ∧ ans.addsClose fd = true).map
          .addClose := by
  unfold fileActions Pipes.plugs
  simp only [hdir, List.flatMap_append, List.flatMap_map]

theorem posixTable_plugs (t : FdTable RawFd V) (plugs : List (Plug RawFd)) :
    posixTable t (plugs.flatMap fun p =>
      [.addDup2 p.src p.dst, .addClose p.src, .addClose p.other]) = t.plugAll plugs := by
  unfold posixTable FdTable.plugAll
  rw [List.foldl_flatMap]
  rfl

theorem posixTable_closes (t : FdTable RawFd V) (fds : List RawFd) :
    posixTable t (fds.map .addClose) = t.closeAll fds := by
  unfold posixTable FdTable.closeAll
  rw [List.foldl_map]
  rfl

theorem posixTable_eq {ans : SpawnAnswers} (h : parent.Unused pipes)
    (hadds : ∀ fd, parent.withPipes files pipes fd ≠ none → ans.addsClose fd = true)
    (hdir : Readable (parent.withPipes files pipes) ans.directory) :
    posixTable (parent.withPipes files pipes) (fileActions pipes ans) =
      ((parent.withPipes files pipes).dup2All pipes.plugs).closeWhere (2 < ·) := by
  have ⟨dirFd, listed, hdirectory, hlisting⟩ := hdir
  rw [fileActions_eq pipes ans hdirectory]
  have happend : ∀ (t : FdTable RawFd V) actions actions', posixTable t (actions ++ actions') =
      posixTable (posixTable t actions) actions' := fun t actions actions' => List.foldl_append
  rw [happend, posixTable_plugs, posixTable_closes, FdTable.plugAll_eq h.separate,
    FdTable.closeAll_eq, FdTable.closeAll_eq]
  funext fd
  unfold FdTable.closeWhere
  by_cases hfd : 2 < fd
  · -- what the parent has open is listed, and the rest was not opened
    rw [if_pos hfd]
    by_cases hopen : parent.withPipes files pipes fd = none
    · rw [FdTable.dup2All_of_ne (Pipes.plugs_dst_ne (Or.inr hfd)), hopen, ite_self, ite_self]
    · refine if_pos (List.mem_filter.mpr ⟨(hlisting.complete fd).mpr (Or.inl hopen), ?_⟩)
      have hne : fd ≠ dirFd := by
        intro heq
        rw [heq] at hopen
        exact hopen hlisting.unopened
      simp [hfd, hne, hadds fd hopen]
  · rw [if_neg hfd, if_neg (fun hmem => ?_)]
    · exact if_neg fun hmem => hfd (h.above (pipes.plugs_ends.subset hmem))
    · have hlast := (List.mem_filter.mp hmem).2
      simp only [decide_eq_true_eq] at hlast
      exact hfd hlast.1

/-- The `dup2` calls of the forked child. -/
theorem dup2Steps_eq (p : Option PipeEnds) (f : PipeEnds → RawFd) (n : RawFd)
    (h : ∀ e, p = some e → f e ≠ n) :
    (p.toList.flatMap fun e => if f e ≠ n then [ChildStep.dup2 (f e) n] else []) =
      p.toList.map fun e => ChildStep.dup2 (f e) n := by
  cases p with
  | none => rfl
  | some e =>
    show (if f e ≠ n then [ChildStep.dup2 (f e) n] else []) ++ [] = _
    rw [if_pos (h e rfl), List.append_nil]
    rfl

/-- The forked child duplicates its ends and then closes a range. -/
theorem forkTable_eq (k : CloseAnswers) (opts : SpawnOptions) (h : parent.Unused pipes)
    (t : FdTable RawFd V) :
    forkTable k t (childSteps opts pipes) = closeRangeFast k none (t.dup2All pipes.plugs) := by
  have hne : ∀ p ∈ pipes.plugs, p.src ≠ p.dst := fun p hp => (h.separate.apart p hp p hp).1.symm
  have hsteps : childSteps opts pipes =
      (pipes.plugs.map fun p => .dup2 p.src p.dst) ++ .closeRangeFast none ::
        ((if opts.pgroup.isolated then [.setsid] else []) ++ opts.ctx.cwd.toList.map .chdir ++
          opts.pgroup.leader.toList.map .setpgid ++ [.unblockAll, .resetDefault SIGPIPE]) := by
    unfold childSteps Pipes.plugs
    rw [dup2Steps_eq _ PipeEnds.r 0 fun e he =>
        hne ⟨e.r, 0, e.w⟩ (Pipes.mem_plugs_iff.mpr (Or.inl ⟨e, he, rfl⟩)),
      dup2Steps_eq _ PipeEnds.w 1 fun e he =>
        hne ⟨e.w, 1, e.r⟩ (Pipes.mem_plugs_iff.mpr (Or.inr (Or.inl ⟨e, he, rfl⟩))),
      dup2Steps_eq _ PipeEnds.w 2 fun e he =>
        hne ⟨e.w, 2, e.r⟩ (Pipes.mem_plugs_iff.mpr (Or.inr (Or.inr ⟨e, he, rfl⟩)))]
    simp only [List.map_append, List.map_map, List.append_assoc]
    rfl
  -- the steps after the range are about other things
  have hquiet : ∀ t : FdTable RawFd V, forkTable k t
      ((if opts.pgroup.isolated then [.setsid] else []) ++ opts.ctx.cwd.toList.map .chdir ++
        opts.pgroup.leader.toList.map .setpgid ++ [.unblockAll, .resetDefault SIGPIPE]) = t := by
    intro t
    cases opts.pgroup.isolated <;> cases opts.ctx.cwd <;> cases opts.pgroup.leader <;> rfl
  rw [hsteps]
  unfold forkTable at hquiet ⊢
  rw [List.foldl_append, List.foldl_cons, hquiet, List.foldl_map]
  rfl

end Setup

/-- For every parent, every numbering of the pipes and every choice of streams: through both
backends the child executes its program with the ends of its pipes and what else the parent has at
0, 1 and 2, and with nothing above. -/
theorem backends_give_same_descriptors {parent : ParentTable V} {files : IoStream → PipeFiles V}
    {opts : SpawnOptions} {ans : SpawnAnswers} {pipes : Pipes} {k : CloseAnswers}
    (hpipes : (opts.makePipes ans).result = .ok pipes) (hunused : parent.Unused pipes)
    (hadds : ∀ fd, parent.withPipes files pipes fd ≠ none → ans.addsClose fd = true)
    (hparent : Readable (parent.withPipes files pipes) ans.directory)
    (hchild : Readable ((parent.withPipes files pipes).dup2All pipes.plugs) k.directory) :
    posixTable (parent.withPipes files pipes) (fileActions pipes ans) =
        childTable opts files parent.table ∧
      forkTable k (parent.withPipes files pipes) (childSteps opts pipes) =
        childTable opts files parent.table ∧
      (posixTable (parent.withPipes files pipes) (fileActions pipes ans)).exec =
        (forkTable k (parent.withPipes files pipes) (childSteps opts pipes)).exec ∧
      ∀ fd, 2 < fd → (posixTable (parent.withPipes files pipes) (fileActions pipes ans)).exec fd =
        none := by
  have hposix := posixTable_eq hunused hadds hparent
  have hfork := forkTable_eq k opts hunused (parent.withPipes files pipes)
  rw [closeRangeFast_none (fun fd => dup2All_nonneg) hchild.refused] at hfork
  rw [plugged_eq_childTable hpipes hunused] at hposix hfork
  refine ⟨hposix, hfork, by rw [hposix, hfork], fun fd hfd => ?_⟩
  rw [hposix]
  unfold FdTable.exec childTable
  rw [if_neg (Int32.not_le.mpr hfd)]
  rfl

/-- A parent that has 0 to 3 open, each on a file of that number. -/
def ParentTable.small : ParentTable ℕ where
  table fd := if fd = 0 then some ⟨0, false⟩ else if fd = 1 then some ⟨1, false⟩
    else if fd = 2 then some ⟨2, false⟩ else if fd = 3 then some ⟨3, false⟩ else none
  nonneg := by
    intro fd hfd
    rw [if_neg, if_neg, if_neg, if_neg] <;> (rintro rfl; exact absurd hfd (by decide))
  standard := by
    intro fd hfd
    simp only [List.mem_cons, List.not_mem_nil, or_false] at hfd
    rcases hfd with rfl | rfl | rfl <;> decide

/-- The pipe of a captured output. -/
def Pipes.small : Pipes := ⟨none, (SpawnAnswers.smooth.pipe .stdout).toOption, none⟩

/-- Without `close_range`, the child gets the pipe at 1 and not the parent's 3. -/
theorem backends_give_same_descriptors_small : ∃ k : CloseAnswers, ∃ actions,
    posixTable (ParentTable.small.withPipes (fun _ => ⟨10, 11⟩) .small) actions =
        childTable (.plain true true) (fun _ => ⟨10, 11⟩) ParentTable.small.table ∧
      forkTable k (ParentTable.small.withPipes (fun _ => ⟨10, 11⟩) .small)
          (childSteps (.plain true true) .small) =
        childTable (.plain true true) (fun _ => ⟨10, 11⟩) ParentTable.small.table := by
  have htable : ParentTable.small.withPipes (fun _ => ⟨10, 11⟩) .small = Function.update
      (Function.update ParentTable.small.table 7 (some ⟨10, true⟩)) 8 (some ⟨11, true⟩) := rfl
  have hdup : (ParentTable.small.withPipes (fun _ => ⟨10, 11⟩) .small).dup2All
      Pipes.small.plugs = Function.update
        (ParentTable.small.withPipes (fun _ => ⟨10, 11⟩) .small) 1 (some ⟨11, false⟩) := rfl
  have hparent : (ParentTable.small.withPipes (fun _ => ⟨10, 11⟩) .small).Listing 4
      [0, 1, 2, 3, 4, 7, 8] := by
    refine ⟨by decide, fun fd => ?_⟩
    rw [htable]
    simp [Function.update_apply, ParentTable.small]
    grind
  have hchild : ((ParentTable.small.withPipes (fun _ => ⟨10, 11⟩) .small).dup2All
      Pipes.small.plugs).Listing 4 [0, 1, 2, 3, 4, 7, 8] := by
    refine ⟨by decide, fun fd => ?_⟩
    rw [hdup, htable]
    simp [Function.update_apply, ParentTable.small]
    grind
  have hunused : ParentTable.small.Unused .small := by
    refine ⟨by decide, fun fd hfd => ?_⟩
    have hends : fd ∈ [(7 : RawFd), 8] := hfd
    simp only [List.mem_cons, List.not_mem_nil, or_false] at hends
    rcases hends with rfl | rfl <;> rfl
  have hall := @backends_give_same_descriptors ℕ .small (fun _ => ⟨10, 11⟩) (.plain true true)
    { SpawnAnswers.smooth with directory := some (4, [0, 1, 2, 3, 4, 7, 8]) } .small
    ⟨fun _ _ => true, some (4, [0, 1, 2, 3, 4, 7, 8])⟩ rfl hunused
    (fun _ _ => rfl) ⟨4, _, rfl, hparent⟩ ⟨4, _, rfl, hchild⟩
  exact ⟨_, _, hall.1, hall.2.1⟩

end CoreShift
