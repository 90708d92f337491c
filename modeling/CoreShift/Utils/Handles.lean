import Mathlib.Data.Finset.Insert

/-!
# Handles and who records them

One side keeps things in a table, under handles, and holders on another side record the handles
they were given. `Accounted` says that both agree: every handle of the table is recorded by
exactly one holder, and no other handle is recorded. The rules say how the two change together.

`Orphaned` is how they fall out of step when nothing is ever taken out of the table: a handle
that nobody records stays one, as long as only new handles are given out.
-/

namespace Utils

variable {I H : Type*}

/-- Every handle of the table is recorded by exactly one holder, and no other is recorded. -/
structure Accounted (record : I → Option H) (table : Finset H) : Prop where
  held : ∀ h ∈ table, ∃! i, record i = some h
  known : ∀ i h, record i = some h → h ∈ table

/-- A handle of the table is recorded by nobody. -/
def Orphaned (record : I → Option H) (table : Finset H) : Prop :=
  ∃ h ∈ table, ∀ i, record i ≠ some h

variable {record record' : I → Option H} {table table' : Finset H} {i : I} {h : H}

namespace Accounted

theorem empty (hnone : ∀ i, record i = none) : Accounted record (∅ : Finset H) := by
  constructor
  · simp
  · simp [hnone]

theorem not_orphaned (ha : Accounted record table) : ¬ Orphaned record table := by
  intro ⟨h, hmem, hno⟩
  have ⟨i, hi, _⟩ := ha.held h hmem
  exact hno i hi

theorem congr (ha : Accounted record table) (hi : record' i = record i)
    (hrec : ∀ j, j ≠ i → record' j = record j) (htab : table' = table) :
    Accounted record' table' := by
  have hfun : record' = record := by
    funext j
    by_cases hji : j = i
    · rw [hji, hi]
    · exact hrec j hji
  rw [hfun, htab]
  exact ha

/-- A new handle is given to a holder that has none. -/
theorem give [DecidableEq H] (ha : Accounted record table) (hnew : h ∉ table)
    (hnone : record i = none) (hi : record' i = some h) (hrec : ∀ j, j ≠ i → record' j = record j) :
    Accounted record' (insert h table) := by
  -- the holders that have a handle now had it before, or are the new one
  have hold : ∀ j g, record' j = some g → j = i ∧ g = h ∨ j ≠ i ∧ record j = some g := by
    intro j g hj
    by_cases hji : j = i
    · rw [hji, hi, Option.some.injEq] at hj
      exact Or.inl ⟨hji, hj.symm⟩
    · rw [hrec j hji] at hj
      exact Or.inr ⟨hji, hj⟩
  constructor
  · intro g hg
    rcases Finset.mem_insert.mp hg with hg | hg
    · refine ⟨i, hg ▸ hi, fun j hj => ?_⟩
      rcases hold j g hj with ⟨hji, _⟩ | ⟨_, hj⟩
      · exact hji
      · exact absurd (hg ▸ ha.known j g hj) hnew
    · have ⟨k, hk, huniq⟩ := ha.held g hg
      have hki : k ≠ i := by
        intro hki
        rw [hki, hnone] at hk
        cases hk
      refine ⟨k, (hrec k hki).trans hk, fun j hj => ?_⟩
      rcases hold j g hj with ⟨_, hgh⟩ | ⟨_, hj⟩
      · exact absurd (hgh ▸ hg) hnew
      · exact huniq j hj
  · intro j g hj
    rcases hold j g hj with ⟨_, hgh⟩ | ⟨_, hj⟩
    · rw [hgh]
      exact Finset.mem_insert_self h table
    · exact Finset.mem_insert_of_mem (ha.known j g hj)

/-- A holder gives up a handle that stays in the table. -/
theorem drop (ha : Accounted record table) (hi : record i = some h) (hi' : record' i ≠ some h)
    (hrec : ∀ j, j ≠ i → record' j = record j) (htab : table ⊆ table') :
    Orphaned record' table' := by
  refine ⟨h, htab (ha.known i h hi), fun j hj => ?_⟩
  by_cases hji : j = i
  · exact hi' (hji ▸ hj)
  · rw [hrec j hji] at hj
    have ⟨k, _, huniq⟩ := ha.held h (ha.known i h hi)
    exact hji ((huniq j hj).trans (huniq i hi).symm)

/-- A new handle enters the table and nobody records it. -/
theorem unclaimed [DecidableEq H] (ha : Accounted record table) (hnew : h ∉ table)
    (hi : record' i = record i) (hrec : ∀ j, j ≠ i → record' j = record j) :
    Orphaned record' (insert h table) := by
  refine ⟨h, Finset.mem_insert_self h table, fun j hj => hnew ?_⟩
  exact (ha.congr hi hrec rfl).known j h hj

end Accounted

/-- As long as a holder is given new handles only, nobody takes an old one up. -/
theorem Orphaned.stays (ho : Orphaned record table) (htab : table ⊆ table')
    (hi : ∀ g, record' i = some g → record i = some g ∨ g ∉ table)
    (hrec : ∀ j, j ≠ i → record' j = record j) : Orphaned record' table' := by
  have ⟨h, hmem, hno⟩ := ho
  refine ⟨h, htab hmem, fun j hj => ?_⟩
  by_cases hji : j = i
  · rw [hji] at hj
    rcases hi h hj with hold | hnew
    · exact hno i hold
    · exact hnew hmem
  · rw [hrec j hji] at hj
    exact hno j hj

end Utils
