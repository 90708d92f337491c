import Mathlib.Data.List.Basic

/-!
# Vectors of bounded capacity

A vector that holds at most `cap` items, with its bound. The operations are those of the crate
`arrayvec` as it documents them: a new vector is empty, `try_push` fails exactly when the vector
is full, and `pop` takes the last item. A loop that pushes until it fails keeps a prefix of what
it was given.

A vector of pointers that ends with a null pointer denotes the items before it.
-/

namespace Utils

structure ArrayVec (α : Type) (cap : ℕ) where
  items : List α
  bounded : items.length ≤ cap

namespace ArrayVec

variable {α : Type} {cap : ℕ}

def new : ArrayVec α cap := ⟨[], Nat.zero_le cap⟩

def isFull (v : ArrayVec α cap) : Bool := v.items.length = cap

def tryPush (v : ArrayVec α cap) (a : α) : Option (ArrayVec α cap) :=
  if h : v.items.length < cap then
    some ⟨v.items ++ [a], by rw [List.length_append, List.length_singleton]; omega⟩
  else none

def pop (v : ArrayVec α cap) : ArrayVec α cap :=
  ⟨v.items.dropLast, by
    have h := v.bounded
    rw [List.length_dropLast]
    omega⟩

/-- Pushes until the first item that does not fit. -/
def pushAll (v : ArrayVec α cap) : List α → ArrayVec α cap
  | [] => v
  | a :: as =>
    match v.tryPush a with
    | some v => v.pushAll as
    | none => v

/-- Pushes an item in any case, in the place of the last one if the vector is full. -/
def pushLast (v : ArrayVec α cap) (a : α) : ArrayVec α cap :=
  let v := if v.isFull then v.pop else v
  (v.tryPush a).getD v

theorem tryPush_of_lt {v : ArrayVec α cap} (h : v.items.length < cap) (a : α) :
    ∃ v', v.tryPush a = some v' ∧ v'.items = v.items ++ [a] := by
  unfold tryPush
  rw [dif_pos h]
  exact ⟨_, rfl, rfl⟩

theorem tryPush_of_full {v : ArrayVec α cap} (h : ¬ v.items.length < cap) (a : α) :
    v.tryPush a = none := by
  unfold tryPush
  rw [dif_neg h]

/-- The loop keeps as many items as there is room for. -/
theorem pushAll_items (v : ArrayVec α cap) (as : List α) :
    (v.pushAll as).items = v.items ++ as.take (cap - v.items.length) := by
  induction as generalizing v with
  | nil => simp [pushAll]
  | cons a as ih =>
    unfold pushAll
    by_cases h : v.items.length < cap
    · have ⟨v', hpush, hitems⟩ := tryPush_of_lt h a
      rw [hpush]
      show (v'.pushAll as).items = _
      have hroom : cap - v.items.length = cap - v'.items.length + 1 := by
        rw [hitems, List.length_append, List.length_singleton]
        omega
      rw [ih, hroom, List.take_succ_cons, hitems, List.append_assoc, List.singleton_append]
    · rw [tryPush_of_full h]
      have hroom : cap - v.items.length = 0 := by omega
      rw [hroom, List.take_zero, List.append_nil]

theorem pushLast_items (hcap : 0 < cap) (v : ArrayVec α cap) (a : α) :
    (v.pushLast a).items = v.items.take (cap - 1) ++ [a] := by
  have hbound := v.bounded
  unfold pushLast
  by_cases hfull : v.items.length = cap
  · have hroom : v.pop.items.length < cap := by
      show v.items.dropLast.length < cap
      rw [List.length_dropLast]
      omega
    have ⟨v', hpush, hitems⟩ := tryPush_of_lt hroom a
    have hif : v.isFull = true := by simp [isFull, hfull]
    simp only [hif, if_true, hpush, Option.getD_some]
    have hpop : v.pop.items = v.items.take (cap - 1) := by
      show v.items.dropLast = _
      rw [List.dropLast_eq_take, hfull]
    rw [hitems, hpop]
  · have ⟨v', hpush, hitems⟩ := tryPush_of_lt (v := v) (by omega) a
    have hif : v.isFull = false := by simp [isFull, hfull]
    simp only [hif, Bool.false_eq_true, if_false, hpush, Option.getD_some]
    rw [hitems, List.take_of_length_le (by omega)]

end ArrayVec

/-! ## Vectors with a null pointer at their end -/

/-- The items before the first null pointer; without one, nothing is denoted. -/
def nullTerminated {α : Type} : List (Option α) → Option (List α)
  | [] => none
  | none :: _ => some []
  | some a :: ptrs => (nullTerminated ptrs).map (a :: ·)

theorem nullTerminated_map_some {α : Type} (as : List α) :
    nullTerminated (as.map some ++ [none]) = some as := by
  induction as with
  | nil => rfl
  | cons a as ih =>
    show (nullTerminated (as.map some ++ [none])).map (a :: ·) = _
    rw [ih]
    rfl

end Utils
