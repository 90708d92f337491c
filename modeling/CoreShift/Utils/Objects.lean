import CoreShift.Utils.HashMap
import Mathlib.Data.List.Induction
import Mathlib.Logic.Function.Basic

/-!
# Objects behind keys

A table of objects, seen as a partial function of keys, changes in two ways: an object is put
under a key, or the object under a key is changed. Whatever the order of these, an object that is
in the table is the one that was put there last, after the changes made under its key since.
-/

namespace Utils

/-- What happens to a table of objects `V` under keys `K` that are changed by `U`. -/
inductive Change (K V U : Type*)
  | create (k : K) (v : V)
  | change (k : K) (u : U)

namespace Change

variable {K V U : Type*} [DecidableEq K] {f : V → U → V}

/-- The table after a change; `f` says what a change makes of an object. -/
def apply (f : V → U → V) (table : K → Option V) : Change K V U → K → Option V
  | .create k v => Function.update table k (some v)
  | .change k u => Function.update table k ((table k).map fun v => f v u)

/-- The table after some changes. -/
def applyAll (f : V → U → V) (table : K → Option V) (cs : List (Change K V U)) : K → Option V :=
  cs.foldl (apply f) table

/-- The change of the object under `k`, if it is one. -/
def under (k : K) : Change K V U → Option U
  | .create _ _ => none
  | .change k' u => if k' = k then some u else none

/-- The object that is put under `k`, if one is. -/
def puts (k : K) : Change K V U → Option V
  | .create k' v => if k' = k then some v else none
  | .change _ _ => none

theorem applyAll_snoc (table : K → Option V) (cs : List (Change K V U)) (c : Change K V U) :
    applyAll f table (cs ++ [c]) = apply f (applyAll f table cs) c := by
  rw [applyAll, List.foldl_append, List.foldl_cons, List.foldl_nil, applyAll]

theorem applyAll_append (table : K → Option V) (cs cs' : List (Change K V U)) :
    applyAll f table (cs ++ cs') = applyAll f (applyAll f table cs) cs' := List.foldl_append

/-- What one change does to the object under a key. -/
theorem apply_eq (table : K → Option V) (c : Change K V U) (k : K) :
    apply f table c k = match c.puts k with
      | some v => some v
      | none => (table k).map fun v => (c.under k).elim v (f v) := by
  cases c with
  | create k' v =>
    by_cases hk : k' = k
    · simp [apply, puts, hk]
    · simp [apply, puts, under, hk, Function.update_of_ne (Ne.symm hk)]
  | change k' u =>
    by_cases hk : k' = k
    · simp [apply, puts, under, hk]
    · simp [apply, puts, under, hk, Function.update_of_ne (Ne.symm hk)]

/-- The object under a key is the one that was put there last, after the changes since. -/
theorem applyAll_eq_some {cs : List (Change K V U)} {k : K} {v : V}
    (h : applyAll f (fun _ => none) cs k = some v) :
    ∃ before c v₀ after, cs = before ++ c :: after ∧ c.puts k = some v₀ ∧
      (∀ c' ∈ after, c'.puts k = none) ∧ v = (after.filterMap (under k)).foldl f v₀ := by
  induction cs using List.reverseRecOn generalizing v with
  | nil => cases h
  | append_singleton cs c ih =>
    rw [applyAll_snoc, apply_eq] at h
    cases hput : c.puts k with
    | some v₀ =>
      rw [hput] at h
      cases h
      exact ⟨cs, c, v, [], rfl, hput, fun c' hc' => absurd hc' List.not_mem_nil, rfl⟩
    | none =>
      rw [hput] at h
      rcases Option.map_eq_some_iff.mp h with ⟨w, hw, rfl⟩
      rcases ih hw with ⟨before, c₀, v₀, after, rfl, hput₀, hafter, rfl⟩
      refine ⟨before, c₀, v₀, after ++ [c], by simp, hput₀, ?_, ?_⟩
      · intro c' hc'
        rcases List.mem_append.mp hc' with hc' | hc'
        · exact hafter c' hc'
        · rw [List.mem_singleton.mp hc']
          exact hput
      · rw [List.filterMap_append, List.foldl_append]
        cases hunder : c.under k with
        | none => simp [hunder]
        | some u => simp [hunder]

/-- The same where the changes are made by events. -/
theorem applyAll_filterMap_eq_some {A : Type*} {g : A → Option (Change K V U)} {as : List A} {k : K}
    {v : V} (h : applyAll f (fun _ => none) (as.filterMap g) k = some v) :
    ∃ before a after c v₀, as = before ++ a :: after ∧ g a = some c ∧ c.puts k = some v₀ ∧
      v = (after.filterMap fun a => (g a).bind (under k)).foldl f v₀ := by
  have ⟨_, c, v₀, cs, hsplit, hputs, _, hv⟩ := applyAll_eq_some h
  have ⟨l₁, l₂, has, _, hl₂⟩ := List.filterMap_eq_append_iff.mp hsplit
  have ⟨l₃, a, l₄, hl, _, ha, hcs⟩ := List.filterMap_eq_cons_iff.mp hl₂
  refine ⟨l₁ ++ l₃, a, l₄, c, v₀, ?_, ha, hputs, ?_⟩
  · rw [has, hl, List.append_assoc]
  · rw [hv, ← hcs, List.filterMap_filterMap]

end Change

/-- An insertion puts an object under a key. -/
theorem HashMap.get_insert_eq {K V : Type} [DecidableEq K] (m : HashMap K V) (k : K) (v : V) :
    (m.insert k v).get = Function.update m.get k (some v) := by
  funext j
  rw [HashMap.get_insert, Function.update_apply]

/-- A table whose keys all come from a list. -/
theorem HashMap.len_le_length {K V A : Type} [DecidableEq K] {m : HashMap K V} {l : List A}
    (f : A → K) (h : ∀ k ∈ m.keys, ∃ a ∈ l, f a = k) : m.len ≤ l.length := by
  have hsub : m.keys ⊆ (l.map f).toFinset := by
    intro k hk
    rw [List.mem_toFinset]
    exact List.mem_map.mpr (h k hk)
  calc m.len ≤ (l.map f).toFinset.card := Finset.card_le_card hsub
    _ ≤ (l.map f).length := List.toFinset_card_le _
    _ = l.length := List.length_map f

theorem HashMap.len_eq_zero {K V : Type} [DecidableEq K] {m : HashMap K V}
    (h : ∀ k, m.get k = none) : m.len = 0 := by
  rw [HashMap.len, Finset.card_eq_zero, Finset.eq_empty_iff_forall_notMem]
  intro k hk
  obtain ⟨v, hv⟩ := HashMap.mem_keys.mp hk
  rw [h k] at hv
  cases hv

end Utils
