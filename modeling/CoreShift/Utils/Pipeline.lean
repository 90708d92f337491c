import CoreShift.Utils.WorkQueue
import Mathlib.Data.List.Sublists

/-!
# Pipelines over a work queue

In a work queue an item often travels as a sequence of actions: an action of one stage is
popped, and the action of the next stage is appended for the same item. A stage is given by the
function that reads the item off its actions; `stages` lists them with the last one first.

Because the queue is first-in first-out, items never overtake each other. `line stages q` is the
order in which the items of a queue will come out of the last stage, and a pop leaves it as it
is but for the item that comes out, those that come in, and those that are dropped.
-/

namespace Utils
namespace WorkQueue

variable {W A O T : Type*}

/-- The items in the queue, in the order in which they will come out. -/
def line (stages : List (A → Option T)) (q : List A) : List T :=
  stages.flatMap fun stage => q.filterMap stage

/-- The item that comes out of the last stage. -/
def leaving (stages : List (A → Option T)) (a : A) : List T :=
  (stages.head?.bind fun stage => stage a).toList

/-- The items that come in at the first stage. -/
def entering : List (A → Option T) → List A → List T
  | [], _ => []
  | [stage], out => out.filterMap stage
  | _ :: stages, out => entering stages out

/-- What follows an action of a stage in the next one is the item of the action, unless it is
dropped. -/
def Passes : List (A → Option T) → A → List A → Prop
  | later :: stage :: stages, a, out =>
    (out.filterMap later).Sublist (stage a).toList ∧ Passes (stage :: stages) a out
  | _, _, _ => True

variable {stages : List (A → Option T)} {stage : A → Option T} {a : A} {rest out q : List A}

@[simp] theorem line_nil (q : List A) : line ([] : List (A → Option T)) q = [] := rfl

@[simp] theorem line_cons (stage : A → Option T) (stages : List (A → Option T)) (q : List A) :
    line (stage :: stages) q = q.filterMap stage ++ line stages q := rfl

@[simp] theorem line_empty (stages : List (A → Option T)) : line stages ([] : List A) = [] := by
  induction stages with
  | nil => rfl
  | cons stage stages ih => rw [line_cons, ih, List.filterMap_nil, List.append_nil]

theorem filterMap_cons_eq (stage : A → Option T) (a : A) (rest : List A) :
    (a :: rest).filterMap stage = (stage a).toList ++ rest.filterMap stage := by
  cases h : stage a with
  | none => rw [List.filterMap_cons_none h]; rfl
  | some b => rw [List.filterMap_cons_some h]; rfl

/-- A pop shortens the line at the front by the item that comes out; behind it, items may only
be dropped, and new ones come in at the end. -/
theorem line_pop (h : Passes stages a out) :
    (leaving stages a ++ line stages (rest ++ out)).Sublist
      (line stages (a :: rest) ++ entering stages out) := by
  induction stages with
  | nil => exact List.Sublist.refl _
  | cons stage stages ih =>
    rw [line_cons, line_cons, filterMap_cons_eq, List.filterMap_append, List.append_assoc,
      List.append_assoc, List.append_assoc]
    refine (List.Sublist.refl _).append ((List.Sublist.refl _).append ?_)
    cases stages with
    | nil =>
      rw [line_nil, line_nil, List.append_nil]
      exact List.Sublist.refl _
    -- what may follow in this stage is what left the earlier one
    | cons earlier stages => exact (h.1.append (List.Sublist.refl _)).trans (ih h.2)

/-- Inputs that only the first stage reads wait in the order in which they were fed. -/
theorem line_of_first {first : A → Option T}
    (hq : ∀ stage ∈ stages, ∀ b ∈ q, stage b = none) :
    line (stages ++ [first]) q = q.filterMap first := by
  induction stages with
  | nil => rw [List.nil_append, line_cons, line_nil, List.append_nil]
  | cons stage stages ih =>
    rw [List.cons_append, line_cons, ih fun stage' h => hq stage' (List.mem_cons_of_mem _ h),
      List.filterMap_eq_nil_iff.mpr (hq stage List.mem_cons_self), List.nil_append]

end WorkQueue
end Utils
