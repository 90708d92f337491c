import Mathlib.Data.List.Basic
import Mathlib.Data.List.Induction

/-!
# Runs of a labelled transition relation

`Run step s t s'` says that the labels of `t`, taken one after the other, lead from `s`
to `s'`. The rules below are the ones invariant proofs need: an invariant of one step is
an invariant of a run, also when it speaks about the labels taken so far, and a label of a
run marks a step that splits the run in two.
-/

namespace Utils

variable {S L : Type*}

/-- The labels `t` lead from the first state to the second. -/
inductive Run (step : S → L → S → Prop) : S → List L → S → Prop
  | nil (s : S) : Run step s [] s
  | cons {s l s₁ t s₂} : step s l s₁ → Run step s₁ t s₂ → Run step s (l :: t) s₂

namespace Run

variable {step step' : S → L → S → Prop} {s s₁ s₂ : S} {t t₁ t₂ : List L} {l : L}

theorem single (h : step s l s₁) : Run step s [l] s₁ := .cons h (.nil s₁)

theorem append (h₁ : Run step s t₁ s₁) (h₂ : Run step s₁ t₂ s₂) :
    Run step s (t₁ ++ t₂) s₂ := by
  induction h₁ with
  | nil => exact h₂
  | cons hstep _ ih => exact .cons hstep (ih h₂)

@[simp] theorem nil_iff : Run step s [] s₁ ↔ s = s₁ := by
  constructor
  · intro h; cases h; rfl
  · rintro rfl; exact .nil s

theorem cons_iff : Run step s (l :: t) s₂ ↔ ∃ s₁, step s l s₁ ∧ Run step s₁ t s₂ := by
  constructor
  · intro h
    cases h with
    | cons hstep hrun => exact ⟨_, hstep, hrun⟩
  · rintro ⟨s₁, hstep, hrun⟩
    exact .cons hstep hrun

theorem append_iff :
    Run step s (t₁ ++ t₂) s₂ ↔ ∃ s₁, Run step s t₁ s₁ ∧ Run step s₁ t₂ s₂ := by
  constructor
  · intro h
    induction t₁ generalizing s with
    | nil => exact ⟨s, .nil s, h⟩
    | cons l t ih =>
      obtain ⟨s', hstep, hrun⟩ := cons_iff.mp h
      obtain ⟨s₁, h₁, h₂⟩ := ih hrun
      exact ⟨s₁, .cons hstep h₁, h₂⟩
  · rintro ⟨s₁, h₁, h₂⟩
    exact h₁.append h₂

/-- Each label of a run was taken by one of its steps. -/
theorem exists_of_mem (h : Run step s t s₂) (hl : l ∈ t) :
    ∃ t₁ u u' t₂, t = t₁ ++ l :: t₂ ∧ Run step s t₁ u ∧ step u l u' ∧ Run step u' t₂ s₂ := by
  obtain ⟨t₁, t₂, rfl⟩ := List.append_of_mem hl
  obtain ⟨u, h₁, hrest⟩ := append_iff.mp h
  obtain ⟨u', hstep, h₂⟩ := cons_iff.mp hrest
  exact ⟨t₁, u, u', t₂, rfl, h₁, hstep, h₂⟩

/-- An invariant of every step is an invariant of every run. -/
theorem invariant {Inv : S → Prop} (hstep : ∀ s l s', Inv s → step s l s' → Inv s')
    (h : Run step s t s₁) (h0 : Inv s) : Inv s₁ := by
  induction h with
  | nil => exact h0
  | cons hs _ ih => exact ih (hstep _ _ _ h0 hs)

/-- The invariant rule for invariants that mention the labels taken so far. -/
theorem invariant_trace {Inv : List L → S → Prop} (past : List L)
    (hstep : ∀ past s l s', Inv past s → step s l s' → Inv (past ++ [l]) s')
    (h : Run step s t s₁) (h0 : Inv past s) : Inv (past ++ t) s₁ := by
  induction h generalizing past with
  | nil => rwa [List.append_nil]
  | cons hs _ ih =>
    have h1 := ih _ (hstep _ _ _ _ h0 hs)
    rwa [List.append_assoc] at h1

/-- A run under an invariant takes steps of any relation that the steps refine there. -/
theorem mono_of_invariant {Inv : S → Prop} (hstep : ∀ s l s', Inv s → step s l s' → Inv s')
    (himp : ∀ s l s', Inv s → step s l s' → step' s l s') (h : Run step s t s₁) (h0 : Inv s) :
    Run step' s t s₁ := by
  induction h with
  | nil => exact .nil _
  | cons hs _ ih => exact .cons (himp _ _ _ h0 hs) (ih (hstep _ _ _ h0 hs))

theorem mono (himp : ∀ s l s', step s l s' → step' s l s') (h : Run step s t s₁) :
    Run step' s t s₁ :=
  let always : S → Prop := fun _ => True
  have hstep : ∀ s l s', always s → step s l s' → always s' := fun _ _ _ _ _ => trivial
  h.mono_of_invariant hstep (fun _ _ _ _ => himp _ _ _) trivial

/-- A step-by-step translation of states and labels carries runs over. -/
theorem map {S' L' : Type*} {step' : S' → L' → S' → Prop} (f : S → S') (g : L → L')
    (himp : ∀ s l s', step s l s' → step' (f s) (g l) (f s')) (h : Run step s t s₁) :
    Run step' (f s) (t.map g) (f s₁) := by
  induction h with
  | nil => exact .nil _
  | cons hs _ ih => exact .cons (himp _ _ _ hs) ih

end Run

/-! ## Histories -/

/-- A step that was taken, with the states it led from and to. -/
structure Moment (S L : Type*) where
  before : S
  label : L
  after : S

/-- The steps of a relation, labelled by their moments. -/
def Traced (step : S → L → S → Prop) (s : S) (m : Moment S L) (s' : S) : Prop :=
  m.before = s ∧ m.after = s' ∧ step s m.label s'

theorem Traced.of_step {step : S → L → S → Prop} {s s' : S} {l : L} (h : step s l s') :
    Traced step s ⟨s, l, s'⟩ s' := ⟨rfl, rfl, h⟩

/-- A relation holds along a list if it holds between each entry and those before it. -/
theorem pairwise_of_prefix {A : Type*} {R : A → A → Prop} {h : List A}
    (hall : ∀ h₁ q h₂, h = h₁ ++ q :: h₂ → ∀ p ∈ h₁, R p q) : h.Pairwise R := by
  induction h using List.reverseRecOn with
  | nil => exact List.Pairwise.nil
  | append_singleton h q ih =>
    rw [List.pairwise_append]
    refine ⟨ih ?_, List.pairwise_singleton R q, ?_⟩
    · intro h₁ q' h₂ heq p hp
      refine hall h₁ q' (h₂ ++ [q]) ?_ p hp
      rw [heq, List.append_assoc, List.cons_append]
    · intro p hp q' hq'
      rw [List.mem_singleton.mp hq']
      exact hall h q [] rfl p hp

namespace Run

variable {step : S → L → S → Prop} {s s₁ : S} {t : List L} {h : List (Moment S L)}

/-- A history is one of a run. -/
theorem untraced (hrun : Run (Traced step) s h s₁) : Run step s (h.map Moment.label) s₁ :=
  hrun.map (fun s => s) Moment.label fun _ _ _ hs => hs.2.2

/-- A moment of a history splits it. -/
theorem moment_split {h₁ h₂ : List (Moment S L)} {m : Moment S L}
    (hrun : Run (Traced step) s (h₁ ++ m :: h₂) s₁) :
    Run (Traced step) s h₁ m.before ∧ step m.before m.label m.after ∧
      Run (Traced step) m.after h₂ s₁ := by
  obtain ⟨s', hfirst, hrest⟩ := append_iff.mp hrun
  obtain ⟨s'', ⟨hbefore, hafter, hs⟩, hlast⟩ := cons_iff.mp hrest
  rw [hbefore, hafter]
  exact ⟨hfirst, hs, hlast⟩

/-- Each moment of a history is a step. -/
theorem step_of_mem {m : Moment S L} (hrun : Run (Traced step) s h s₁) (hm : m ∈ h) :
    step m.before m.label m.after := by
  obtain ⟨h₁, h₂, hsplit⟩ := List.append_of_mem hm
  rw [hsplit] at hrun
  exact hrun.moment_split.2.1

/-- An invariant that each moment of a history keeps holds after each of them. -/
theorem invariant_history {Inv : S → Prop} (hrun : Run (Traced step) s h s₁)
    (hkeep : ∀ m ∈ h, Inv m.before → step m.before m.label m.after → Inv m.after)
    (h0 : Inv s) : Inv s₁ ∧ ∀ m ∈ h, Inv m.after := by
  induction h generalizing s with
  | nil =>
    rw [← nil_iff.mp hrun]
    exact ⟨h0, by simp⟩
  | cons m h ih =>
    obtain ⟨s', ⟨hbefore, hafter, hs⟩, hrest⟩ := cons_iff.mp hrun
    rw [List.forall_mem_cons] at hkeep ⊢
    rw [← hbefore] at h0 hs
    rw [← hafter] at hs hrest
    have hm := hkeep.1 h0 hs
    obtain ⟨hend, hall⟩ := ih hrest hkeep.2 hm
    exact ⟨hend, hm, hall⟩

end Run
end Utils
