import Mathlib.Data.List.Sort
import Mathlib.Order.Bounds.Basic

/-!
# The lowest entries of a list

A list is sorted by the rank of its entries, and so many of them are taken from the front. The
sort is stable, which decides between entries of one rank; what is proved here holds whatever
that decision is.

The lowest entry alone can be found in one pass, which begins with a mark for "none so far". The
mark has to be below all entries.
-/

namespace Utils

variable {A R : Type*} [LinearOrder R] {rank : A → R} {n : ℕ} {l : List A} {a b : A}

/-- The entries in the order of their ranks. -/
def byRank (rank : A → R) (l : List A) : List A := l.mergeSort fun a b => rank a ≤ rank b

/-- The `n` lowest entries. -/
def lowest (rank : A → R) (n : ℕ) (l : List A) : List A := (byRank rank l).take n

theorem pairwise_byRank (rank : A → R) (l : List A) :
    (byRank rank l).Pairwise fun a b => rank a ≤ rank b := by
  have htrans : ∀ a b c : A, decide (rank a ≤ rank b) = true → decide (rank b ≤ rank c) = true →
      decide (rank a ≤ rank c) = true := by
    intro a b c hab hbc
    exact decide_eq_true (le_trans (of_decide_eq_true hab) (of_decide_eq_true hbc))
  have htotal : ∀ a b : A, (decide (rank a ≤ rank b) || decide (rank b ≤ rank a)) = true := by
    intro a b
    rw [Bool.or_eq_true, decide_eq_true_eq, decide_eq_true_eq]
    exact le_total _ _
  exact (List.pairwise_mergeSort htrans htotal l).imp fun h => of_decide_eq_true h

theorem mem_byRank : a ∈ byRank rank l ↔ a ∈ l := List.mem_mergeSort

theorem length_lowest (rank : A → R) (n : ℕ) (l : List A) :
    (lowest rank n l).length = min n l.length := by
  rw [lowest, byRank, List.length_take, List.length_mergeSort]

theorem lowest_subset (rank : A → R) (n : ℕ) (l : List A) : lowest rank n l ⊆ l :=
  fun _ ha => mem_byRank.mp (List.mem_of_mem_take ha)

/-- What is listed once is taken once. -/
theorem nodup_map_lowest {B : Type*} {f : A → B} (h : (l.map f).Nodup) :
    ((lowest rank n l).map f).Nodup := by
  have hperm := (List.mergeSort_perm l fun a b => rank a ≤ rank b).map f
  exact (hperm.nodup_iff.mpr h).sublist ((List.take_sublist _ _).map f)

/-- What was left ranks no lower than what was taken. -/
theorem rank_le_of_lowest (ha : a ∈ lowest rank n l) (hb : b ∈ l) (hleft : b ∉ lowest rank n l) :
    rank a ≤ rank b := by
  have hsorted := pairwise_byRank rank l
  have hmem : b ∈ byRank rank l := mem_byRank.mpr hb
  rw [← List.take_append_drop n (byRank rank l)] at hsorted hmem
  have hdrop := (List.mem_append.mp hmem).resolve_left hleft
  exact (List.pairwise_append.mp hsorted).2.2 a ha b hdrop

/-! ## The least entry -/

/-- One entry in a pass that looks for the least one. -/
def keepLeast (mark acc x : R) : R := if acc = mark ∨ x < acc then x else acc

variable {mark acc x : R} {xs : List R}

theorem keepLeast_le (h : x ≤ mark) : keepLeast mark acc x ≤ mark := by
  unfold keepLeast
  split
  · exact h
  · next hno =>
    rw [not_or, not_lt] at hno
    exact le_trans hno.2 h

/-- A pass that ends with an entry at or below the mark comes out there. -/
theorem foldl_keepLeast_le (xs : List R) (h : x ≤ mark) :
    (xs ++ [x]).foldl (keepLeast mark) acc ≤ mark := by
  rw [List.foldl_append, List.foldl_cons, List.foldl_nil]
  exact keepLeast_le h

theorem isLeast_foldl_of_lt (hacc : mark < acc) (hxs : ∀ x ∈ xs, mark < x) :
    IsLeast {x | x = acc ∨ x ∈ xs} (xs.foldl (keepLeast mark) acc) := by
  induction xs generalizing acc with
  | nil =>
    refine ⟨Or.inl rfl, ?_⟩
    rintro x (rfl | hx)
    · exact le_rfl
    · cases hx
  | cons y xs ih =>
    rw [List.forall_mem_cons] at hxs
    rw [List.foldl_cons]
    by_cases hy : y < acc
    · have hstep : keepLeast mark acc y = y := if_pos (Or.inr hy)
      rw [hstep]
      have ⟨hmem, hleast⟩ := ih hxs.1 hxs.2
      refine ⟨Or.inr (List.mem_cons.mpr hmem), ?_⟩
      rintro x (rfl | hx)
      · exact le_trans (hleast (Or.inl rfl)) (le_of_lt hy)
      · exact hleast (List.mem_cons.mp hx)
    · have hstep : keepLeast mark acc y = acc :=
        if_neg fun h => h.elim (ne_of_gt hacc) hy
      rw [hstep]
      have ⟨hmem, hleast⟩ := ih hacc hxs.2
      refine ⟨hmem.imp_right (List.mem_cons_of_mem y), ?_⟩
      rintro x (rfl | hx)
      · exact hleast (Or.inl rfl)
      · rcases List.mem_cons.mp hx with rfl | hx
        · exact le_trans (hleast (Or.inl rfl)) (not_lt.mp hy)
        · exact hleast (Or.inr hx)

/-- A pass over entries above the mark finds the least one. -/
theorem isLeast_foldl (hne : xs ≠ []) (hxs : ∀ x ∈ xs, mark < x) :
    IsLeast {x | x ∈ xs} (xs.foldl (keepLeast mark) mark) := by
  cases xs with
  | nil => exact absurd rfl hne
  | cons y xs =>
    rw [List.forall_mem_cons] at hxs
    have hstep : keepLeast mark mark y = y := if_pos (Or.inl rfl)
    rw [List.foldl_cons, hstep]
    have hset : {x | x ∈ y :: xs} = {x | x = y ∨ x ∈ xs} := Set.ext fun x => List.mem_cons
    rw [hset]
    exact isLeast_foldl_of_lt hxs.1 hxs.2

end Utils
