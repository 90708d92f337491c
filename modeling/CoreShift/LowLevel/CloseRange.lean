import CoreShift.LowLevel.Spawn
import CoreShift.Utils.Descriptors

/-!
# What the set-up of a child does to its descriptors

`close_range_fast` of `low_level/spawn`, and the effect that the file actions of `posix_spawn` and
the steps of a forked child have on a table of descriptors.
-/

namespace CoreShift

open Utils

variable {V : Type}

/-- What `close_range_fast` meets. -/
structure CloseAnswers where
  -- the system call fails for bounds that are in order, as it does where the kernel has none
  refuses : UInt32 → UInt32 → Bool
  -- the directory `/proc/self/fd`: its own descriptor and the numbers it lists
  directory : Option (RawFd × List RawFd)

/-- The system call `close_range`, and whether it returns 0. -/
def closeRange (k : CloseAnswers) (t : FdTable RawFd V) (first last : UInt32) :
    FdTable RawFd V × Bool :=
  if first ≤ last ∧ k.refuses first last = false then
    (t.closeWhere fun fd => first ≤ fd.toUInt32 ∧ fd.toUInt32 ≤ last, true)
  else (t, false)

/-- The walk through the directory. Its own descriptor, which `open` has added to the table, is
closed at the end. -/
def closeListed (k : CloseAnswers) (keepFd : Option RawFd) (t : FdTable RawFd V) :
    FdTable RawFd V :=
  let skipFd := keepFd.getD (-1)
  match k.directory with
  | none => t
  | some (dirFd, listed) =>
    (t.closeAll (listed.filter fun fd => 2 < fd ∧ fd ≠ skipFd ∧ fd ≠ dirFd)).close dirFd

/-- `close_range_fast`. -/
def closeRangeFast (k : CloseAnswers) (keepFd : Option RawFd) (t : FdTable RawFd V) :
    FdTable RawFd V :=
  match keepFd with
  | some fd =>
    let r1 := closeRange k t 3 (max (fd - 1) 2).toUInt32
    let r2 := closeRange k r1.1 (fd + 1).toUInt32 0xffffffff
    if r1.2 && r2.2 then r2.1 else closeListed k keepFd r2.1
  | none =>
    let r := closeRange k t 3 0xffffffff
    if r.2 then r.1 else closeListed k keepFd r.1

/-- A file action, in the child. The two numbers of a `dup2` differ, and a close of a number that
is not open is ignored. -/
def FileAction.act (t : FdTable RawFd V) : FileAction → FdTable RawFd V
  | .addDup2 fd newFd => t.dup2 fd newFd
  | .addClose fd => t.close fd

/-- A step of the forked child. -/
def ChildStep.act (k : CloseAnswers) (t : FdTable RawFd V) : ChildStep → FdTable RawFd V
  | .dup2 fd target => t.dup2 fd target
  | .closeRangeFast keepFd => CoreShift.closeRangeFast k keepFd t
  | _ => t

/-- The table of a child of `posix_spawn` when it executes its program. -/
def posixTable (t : FdTable RawFd V) (actions : List FileAction) : FdTable RawFd V :=
  actions.foldl FileAction.act t

/-- The table of a forked child when it executes its program. -/
def forkTable (k : CloseAnswers) (t : FdTable RawFd V) (steps : List ChildStep) :
    FdTable RawFd V :=
  steps.foldl (ChildStep.act k) t

end CoreShift
