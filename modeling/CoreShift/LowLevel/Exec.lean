import CoreShift.Core.Types
import CoreShift.Utils.ArrayVec

/-!
# What a child executes

`ExecContext` and `ProcessGroup` of `low_level/sys`. The strings of an argument vector and an
environment become C strings, and the C strings become vectors of pointers with 64 slots. A
pointer is either null or points to a C string.
-/

namespace CoreShift

open Utils

/-! ## C strings -/

def NUL : Char := Char.ofNat 0

/-- A `CString`: a string without a NUL in its interior. -/
structure CString where
  text : String
  noNul : NUL ∉ text.toList
deriving DecidableEq

/-- A pointer to a C string, `*mut c_char`. -/
abbrev CPointer := Option CString

namespace CString

/-- `CString::new(s).ok()`. -/
def new (s : String) : Option CString := if h : NUL ∈ s.toList then none else some ⟨s, h⟩

theorem new_of_mem {s : String} (h : NUL ∈ s.toList) : new s = none := dif_pos h

theorem new_of_not_mem {s : String} (h : NUL ∉ s.toList) : new s = some ⟨s, h⟩ := dif_neg h

/-- The program that stands in for an empty argument vector. -/
def binFalse : CString := ⟨"/bin/false", by decide⟩

/-- The strings that become C strings, in order. -/
theorem filterMap_new (ss : List String) :
    (ss.filterMap new).map text = ss.filter fun s => NUL ∉ s.toList := by
  induction ss with
  | nil => rfl
  | cons s ss ih =>
    by_cases h : NUL ∈ s.toList
    · rw [List.filterMap_cons_none (new_of_mem h), List.filter_cons_of_neg (by simpa using h), ih]
    · rw [List.filterMap_cons_some (new_of_not_mem h), List.map_cons,
        List.filter_cons_of_pos (by simpa using h), ih]

end CString

/-! ## The context of an exec -/

/-- An argument vector is never empty: its first element is the program. -/
structure ExecContext where
  argv : List CString
  envp : Option (List CString)
  cwd : Option CString
  argv_ne_nil : argv ≠ []

namespace ExecContext

/-- `ExecContext::new`. Strings with a NUL in them are dropped. -/
def new (argv : List String) (env : Option (List String)) (cwd : Option String) : ExecContext :=
  let cArgv := argv.filterMap CString.new
  { argv := if cArgv = [] then [.binFalse] else cArgv
    envp := env.map fun vars => vars.filterMap CString.new
    cwd := cwd.bind CString.new
    argv_ne_nil := by
      by_cases h : cArgv = []
      · rw [if_pos h]
        exact List.cons_ne_nil _ _
      · rw [if_neg h]
        exact h }

/-- The program, `v[0]`. -/
def exe (ctx : ExecContext) : CString := ctx.argv.head ctx.argv_ne_nil

/-- The body of both functions below: pointers to the strings as long as they fit, then a null
pointer, for which the last one of a full vector is given up. -/
def pointers (v : List CString) : ArrayVec CPointer 64 :=
  (ArrayVec.new.pushAll (v.map some)).pushLast none

/-- `ExecContext::get_argv_ptrs`. -/
def getArgvPtrs (ctx : ExecContext) : ArrayVec CPointer 64 := pointers ctx.argv

/-- `ExecContext::get_envp_ptrs`. -/
def getEnvpPtrs (ctx : ExecContext) : Option (ArrayVec CPointer 64) := ctx.envp.map pointers

end ExecContext

/-- What a vector of pointers means to the program that is given it. -/
def denotes (ptrs : List CPointer) : Option (List String) :=
  (nullTerminated ptrs).map (List.map CString.text)

/-- There is room for 63 strings besides the null pointer. -/
theorem ExecContext.denotes_pointers (v : List CString) :
    denotes (pointers v).items = some ((v.map CString.text).take 63) := by
  unfold denotes pointers
  rw [ArrayVec.pushLast_items (by omega), ArrayVec.pushAll_items]
  show Option.map _ (nullTerminated (([] ++ (v.map some).take (64 - 0)).take 63 ++ [none])) = _
  rw [List.nil_append, List.take_take, ← List.map_take, nullTerminated_map_some, Option.map_some,
    List.map_take]
  rfl

/-! ## Process groups -/

structure ProcessGroup where
  leader : Option Int32
  isolated : Bool
deriving DecidableEq, Repr

/-- `ProcessGroup::default`. -/
def ProcessGroup.default : ProcessGroup := ⟨none, false⟩

end CoreShift
