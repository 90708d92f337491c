import Mathlib.Data.List.Nodup
import Mathlib.Logic.Function.Basic

/-!
# Descriptor tables

The descriptors of a process as a function from numbers to entries, and the calls that change
it. A `Plug` is an end of a pipe that is to be duplicated to a fixed number; the rules say that
a list of plugs that keep apart comes to the same whether their ends are closed one by one on the
way or all together afterwards.
-/

namespace Utils

/-- What a descriptor stands for, and whether an exec closes it. -/
structure FdEntry (V : Type*) where
  file : V
  cloexec : Bool
deriving DecidableEq

abbrev FdTable (F V : Type*) := F → Option (FdEntry V)

/-- An end of a pipe, the number it is meant to have, and the other end. -/
structure Plug (F : Type*) where
  src : F
  dst : F
  other : F

namespace FdTable

variable {F V : Type*} [DecidableEq F] {t : FdTable F V} {fd new x : F} {e : FdEntry V}

/-! ## The calls -/

/-- The copy that `dup2` makes is not closed by an exec. -/
def dup2 (t : FdTable F V) (fd new : F) : FdTable F V :=
  match t fd with
  | none => t
  | some e => if fd = new then t else Function.update t new (some ⟨e.file, false⟩)

/-- Nothing happens to a number that is not open. -/
def close (t : FdTable F V) (fd : F) : FdTable F V := Function.update t fd none

def closeWhere (t : FdTable F V) (p : F → Prop) [DecidablePred p] : FdTable F V :=
  fun fd => if p fd then none else t fd

def closeAll (t : FdTable F V) (fds : List F) : FdTable F V := fds.foldl close t

def openAll (t : FdTable F V) (new : List (F × FdEntry V)) : FdTable F V :=
  new.foldl (fun t x => Function.update t x.1 (some x.2)) t

def exec (t : FdTable F V) : FdTable F V := fun fd => (t fd).filter fun e => !e.cloexec

/-- A directory of the open descriptors, which has a descriptor of its own while it is read. -/
structure Listing (t : FdTable F V) (dir : F) (listed : List F) : Prop where
  unopened : t dir = none
  complete : ∀ fd, fd ∈ listed ↔ t fd ≠ none ∨ fd = dir

theorem dup2_of_open (h : t fd = some e) (hne : fd ≠ new) :
    t.dup2 fd new = Function.update t new (some ⟨e.file, false⟩) := by
  unfold dup2
  rw [h]
  exact if_neg hne

theorem dup2_of_ne (h : new ≠ x) : t.dup2 fd new x = t x := by
  unfold dup2
  cases t fd with
  | none => rfl
  | some e =>
    by_cases hsame : fd = new
    · simp only [if_pos hsame]
    · simp only [if_neg hsame]
      exact Function.update_of_ne h.symm _ _

theorem close_self (t : FdTable F V) (fd : F) : t.close fd fd = none := by
  show Function.update t fd none fd = none
  rw [Function.update_self]

theorem close_of_ne (h : fd ≠ x) : t.close fd x = t x := Function.update_of_ne h.symm _ _

/-- A close that a `dup2` has nothing to do with can wait. -/
theorem dup2_close (hsrc : x ≠ fd) (hdst : x ≠ new) :
    (t.close x).dup2 fd new = (t.dup2 fd new).close x := by
  unfold dup2
  rw [close_of_ne hsrc]
  cases t fd with
  | none => rfl
  | some e =>
    by_cases hsame : fd = new
    · simp only [if_pos hsame]
    · simp only [if_neg hsame]
      exact (Function.update_comm hdst.symm _ _ t).symm

theorem closeAll_eq (t : FdTable F V) (fds : List F) :
    t.closeAll fds = t.closeWhere (· ∈ fds) := by
  induction fds generalizing t with
  | nil => rfl
  | cons fd fds ih =>
    show (t.close fd).closeAll fds = _
    rw [ih]
    funext x
    unfold closeWhere
    by_cases hmem : x ∈ fds
    · rw [if_pos hmem, if_pos (List.mem_cons_of_mem fd hmem)]
    · rw [if_neg hmem]
      by_cases heq : x = fd
      · rw [heq, if_pos List.mem_cons_self]
        exact close_self t fd
      · rw [if_neg (List.not_mem_cons_of_ne_of_not_mem heq hmem)]
        exact close_of_ne (Ne.symm heq)

omit [DecidableEq F] in
theorem closeWhere_congr {p q : F → Prop} [DecidablePred p] [DecidablePred q]
    (h : ∀ x, t x ≠ none → (p x ↔ q x)) : t.closeWhere p = t.closeWhere q := by
  funext x
  unfold closeWhere
  cases hx : t x with
  | none => rw [ite_self, ite_self]
  | some e => simp only [h x (by rw [hx]; exact nofun)]

omit [DecidableEq F] in
/-- Only what is open tells two ways of closing apart. -/
theorem closeWhere_eq_iff {p q : F → Prop} [DecidablePred p] [DecidablePred q] :
    t.closeWhere p = t.closeWhere q ↔ ∀ x, t x ≠ none → (p x ↔ q x) := by
  refine ⟨fun h x hopen => ?_, closeWhere_congr⟩
  have hx := congrFun h x
  unfold closeWhere at hx
  by_cases hp : p x
  · rw [if_pos hp] at hx
    refine iff_of_true hp ?_
    by_contra hq
    rw [if_neg hq] at hx
    exact hopen hx.symm
  · rw [if_neg hp] at hx
    refine iff_of_false hp fun hq => ?_
    rw [if_pos hq] at hx
    exact hopen hx

omit [DecidableEq F] in
theorem closeWhere_of_none {p : F → Prop} [DecidablePred p] (h : t x = none) :
    t.closeWhere p x = none := by
  unfold closeWhere
  rw [h, ite_self]

omit [DecidableEq F] in
theorem closeWhere_closeWhere (t : FdTable F V) (p q : F → Prop) [DecidablePred p]
    [DecidablePred q] : (t.closeWhere p).closeWhere q = t.closeWhere fun x => p x ∨ q x := by
  funext x
  unfold closeWhere
  by_cases hq : q x
  · rw [if_pos hq, if_pos (Or.inr hq)]
  · rw [if_neg hq]
    simp [hq]

theorem openAll_of_not_mem {l : List (F × FdEntry V)} (h : x ∉ l.map Prod.fst) :
    t.openAll l x = t x := by
  induction l generalizing t with
  | nil => rfl
  | cons y l ih =>
    rw [List.map_cons, List.mem_cons, not_or] at h
    show openAll (Function.update t y.1 (some y.2)) l x = t x
    rw [ih h.2]
    exact Function.update_of_ne h.1 _ _

theorem openAll_of_mem {l : List (F × FdEntry V)} (hnodup : (l.map Prod.fst).Nodup)
    (h : (x, e) ∈ l) : t.openAll l x = some e := by
  induction l generalizing t with
  | nil => cases h
  | cons y l ih =>
    rw [List.map_cons, List.nodup_cons] at hnodup
    show openAll (Function.update t y.1 (some y.2)) l x = some e
    rcases List.mem_cons.mp h with heq | h
    · rw [← heq] at hnodup ⊢
      rw [openAll_of_not_mem hnodup.1]
      exact Function.update_self x (some e) t
    · exact ih hnodup.2 h

/-! ## Plugs -/

/-- The plugs do not get into each other's way. -/
structure Separate (plugs : List (Plug F)) : Prop where
  dsts : (plugs.map Plug.dst).Nodup
  ends : (plugs.flatMap fun p => [p.src, p.other]).Nodup
  apart : ∀ p ∈ plugs, ∀ q ∈ plugs, p.dst ≠ q.src ∧ p.dst ≠ q.other

def dup2All (t : FdTable F V) (plugs : List (Plug F)) : FdTable F V :=
  plugs.foldl (fun t p => t.dup2 p.src p.dst) t

/-- Each plug is duplicated, and both ends of its pipe are closed. -/
def plugAll (t : FdTable F V) (plugs : List (Plug F)) : FdTable F V :=
  plugs.foldl (fun t p => ((t.dup2 p.src p.dst).close p.src).close p.other) t

omit [DecidableEq F] in
theorem Separate.tail {p : Plug F} {plugs : List (Plug F)} (h : Separate (p :: plugs)) :
    Separate plugs := by
  refine ⟨(List.nodup_cons.mp h.dsts).2, ?_, fun q hq r hr => ?_⟩
  · have hends := h.ends
    rw [List.flatMap_cons] at hends
    exact (List.nodup_append.mp hends).2.1
  · exact h.apart q (List.mem_cons_of_mem p hq) r (List.mem_cons_of_mem p hr)

theorem dup2All_of_ne {plugs : List (Plug F)} (h : ∀ p ∈ plugs, p.dst ≠ x) :
    t.dup2All plugs x = t x := by
  induction plugs generalizing t with
  | nil => rfl
  | cons p plugs ih =>
    rw [List.forall_mem_cons] at h
    show (t.dup2 p.src p.dst).dup2All plugs x = t x
    rw [ih h.2]
    exact dup2_of_ne h.1

/-- A plug is where it is meant to be. -/
theorem dup2All_of_mem {plugs : List (Plug F)} {p : Plug F} (hsep : Separate plugs)
    (hp : p ∈ plugs) (hopen : t p.src = some e) :
    t.dup2All plugs p.dst = some ⟨e.file, false⟩ := by
  induction plugs generalizing t with
  | nil => cases hp
  | cons q plugs ih =>
    show (t.dup2 q.src q.dst).dup2All plugs p.dst = _
    rcases List.mem_cons.mp hp with heq | hmem
    · have hrest : ∀ r ∈ plugs, r.dst ≠ p.dst := by
        intro r hr hdst
        refine (List.nodup_cons.mp hsep.dsts).1 ?_
        rw [← heq, ← hdst]
        exact List.mem_map_of_mem hr
      rw [dup2All_of_ne hrest, ← heq,
        dup2_of_open hopen (hsep.apart p hp p hp).1.symm]
      exact Function.update_self _ _ _
    · refine ih hsep.tail hmem ?_
      rw [dup2_of_ne (hsep.apart q List.mem_cons_self p hp).1]
      exact hopen

theorem dup2All_close {plugs : List (Plug F)} (hsrc : ∀ p ∈ plugs, x ≠ p.src)
    (hdst : ∀ p ∈ plugs, x ≠ p.dst) :
    (t.close x).dup2All plugs = (t.dup2All plugs).close x := by
  induction plugs generalizing t with
  | nil => rfl
  | cons p plugs ih =>
    rw [List.forall_mem_cons] at hsrc hdst
    show ((t.close x).dup2 p.src p.dst).dup2All plugs = _
    rw [dup2_close hsrc.1 hdst.1]
    exact ih hsrc.2 hdst.2

/-- The ends of separate plugs can all be closed afterwards. -/
theorem plugAll_eq {plugs : List (Plug F)} (hsep : Separate plugs) :
    t.plugAll plugs =
      (t.dup2All plugs).closeAll (plugs.flatMap fun p => [p.src, p.other]) := by
  induction plugs generalizing t with
  | nil => rfl
  | cons p plugs ih =>
    have hends := hsep.ends
    rw [List.flatMap_cons, List.nodup_append] at hends
    -- the ends of the first plug are no numbers of the others
    have hother : ∀ x ∈ [p.src, p.other], ∀ q ∈ plugs, x ≠ q.src ∧ x ≠ q.dst := by
      intro x hx q hq
      refine ⟨hends.2.2 x hx q.src ?_, ?_⟩
      · exact List.mem_flatMap.mpr ⟨q, hq, List.mem_cons_self⟩
      · have hapart := hsep.apart q (List.mem_cons_of_mem p hq) p List.mem_cons_self
        simp only [List.mem_cons, List.not_mem_nil, or_false] at hx
        rcases hx with rfl | rfl
        · exact hapart.1.symm
        · exact hapart.2.symm
    have hsrc := hother p.src (by simp)
    have hoth := hother p.other (by simp)
    show (((t.dup2 p.src p.dst).close p.src).close p.other).plugAll plugs = _
    rw [ih hsep.tail, dup2All_close (fun q hq => (hoth q hq).1) (fun q hq => (hoth q hq).2),
      dup2All_close (fun q hq => (hsrc q hq).1) (fun q hq => (hsrc q hq).2)]
    rfl

end FdTable
end Utils
