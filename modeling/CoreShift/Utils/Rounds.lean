import CoreShift.Utils.WorkQueue

/-!
# Runs in rounds

A system that serves requests often works in rounds: an opening step, which is taken only when
nothing is left to do, and then steps of work until nothing is left again. A run between two such
moments is a sequence of rounds, and a simulation that is proved for one round holds for a run.

Inside a round, a work queue pops what it was given before it pops any follow-up. `layer` is the
induction rule for this first part.
-/

namespace Utils

variable {S S' L L' A B : Type*}

/-- An opening step and the work it leads to. -/
inductive Round (opens : S → A → S → Prop) (works : S → B → S → Prop) (Idle : S → Prop) :
    S → A × List B → S → Prop
  | mk {s a s₁ u s₂} : opens s a s₁ → Run works s₁ u s₂ → Idle s₂ →
      Round opens works Idle s (a, u) s₂

/-- The labels of some rounds, in the order of their steps. -/
def flatten (opening : A → L) (working : B → L) (rounds : List (A × List B)) : List L :=
  rounds.flatMap fun r => opening r.1 :: r.2.map working

namespace Run

section Rounds

variable {step : S → L → S → Prop} {opens : S → A → S → Prop} {works : S → B → S → Prop}
  {Idle : S → Prop} {opening : A → L} {working : B → L} {s s' : S} {t : List L}

/-- A run that ends idle is some work that is left to do, and rounds after it. -/
theorem work_then_rounds
    (hstep : ∀ s l s', step s l s' → (∃ a, l = opening a ∧ Idle s ∧ opens s a s') ∨
      ∃ b, l = working b ∧ ¬ Idle s ∧ works s b s')
    (h : Run step s t s') (hend : Idle s') :
    ∃ u rounds s₁, t = u.map working ++ flatten opening working rounds ∧ Run works s u s₁ ∧
      Idle s₁ ∧ Run (Round opens works Idle) s₁ rounds s' := by
  induction h with
  | nil s => exact ⟨[], [], s, rfl, .nil s, hend, .nil s⟩
  | cons hs _ ih =>
    obtain ⟨u, rounds, s₁, ht, hwork, hidle, hrounds⟩ := ih hend
    -- an opening step begins a round; a step of work belongs to the round before
    rcases hstep _ _ _ hs with ⟨a, hl, hfirst, hopens⟩ | ⟨b, hl, -, hworks⟩
    · refine ⟨[], (a, u) :: rounds, _, ?_, .nil _, hfirst, .cons ⟨hopens, hwork, hidle⟩ hrounds⟩
      rw [ht, hl]
      rfl
    · refine ⟨b :: u, rounds, s₁, ?_, .cons hworks hwork, hidle, hrounds⟩
      rw [ht, hl]
      rfl

/-- A run from idle to idle is a sequence of rounds. -/
theorem rounds
    (hstep : ∀ s l s', step s l s' → (∃ a, l = opening a ∧ Idle s ∧ opens s a s') ∨
      ∃ b, l = working b ∧ ¬ Idle s ∧ works s b s')
    (h : Run step s t s') (hstart : Idle s) (hend : Idle s') :
    ∃ rounds, t = flatten opening working rounds ∧ Run (Round opens works Idle) s rounds s' := by
  cases h with
  | nil => exact ⟨[], rfl, .nil s⟩
  | cons hs hrest =>
    rcases hstep _ _ _ hs with ⟨a, hl, -, hopens⟩ | ⟨b, -, hbusy, -⟩
    · obtain ⟨u, rounds, s₁, ht, hwork, hidle, hrounds⟩ := work_then_rounds hstep hrest hend
      refine ⟨(a, u) :: rounds, ?_, .cons ⟨hopens, hwork, hidle⟩ hrounds⟩
      rw [ht, hl]
      rfl
    · exact absurd hstart hbusy

end Rounds

/-- A forward simulation: what the concrete steps show, the abstract steps do. -/
theorem simulates {step : S → L → S → Prop} {spec : S' → L' → S' → Prop} {R : S → S' → Prop}
    {shown : L → L'}
    (hsim : ∀ s l s₁ a, R s a → step s l s₁ → ∃ a₁, spec a (shown l) a₁ ∧ R s₁ a₁)
    {s s₁ : S} {t : List L} (h : Run step s t s₁) {a : S'} (ha : R s a) :
    ∃ a₁, Run spec a (t.map shown) a₁ ∧ R s₁ a₁ := by
  induction h generalizing a with
  | nil => exact ⟨a, .nil a, ha⟩
  | cons hs _ ih =>
    obtain ⟨a', hspec, ha'⟩ := hsim _ _ _ _ ha hs
    obtain ⟨a₁, hrun, ha₁⟩ := ih ha'
    exact ⟨a₁, .cons hspec hrun, ha₁⟩

end Run

namespace WorkQueue

variable {W O : Type*} {step : W → A → O → List A → W → Prop}

theorem layer_aux {q r todo : List A} {Inv : List A → List A → W → Prop}
    (hstep : ∀ a ∈ q, ∀ done follow w o out w', Inv done follow w → step w a o out w' →
      Inv (done ++ [a]) (follow ++ out) w')
    {c c' : Config W A} {u : List (A × O)} (h : Run (Pop step) c u c') (hend : c'.queue = [])
    {done follow : List A} (hq : c.queue = todo ++ (r ++ follow)) (hsplit : q = done ++ todo)
    (hinv : Inv done follow c.world) :
    ∃ u₁ u₂ c₁ follow', u = u₁ ++ u₂ ∧ u₁.map Prod.fst = todo ∧ c₁.queue = r ++ follow' ∧
      Inv q follow' c₁.world ∧ Run (Pop step) c₁ u₂ c' := by
  induction todo generalizing c u done follow with
  | nil =>
    rw [hsplit, List.append_nil]
    exact ⟨[], u, c, follow, rfl, rfl, hq, hinv, h⟩
  | cons a todo ih =>
    cases h with
    | nil =>
      rw [hend] at hq
      cases hq
    | cons hpop hrest =>
      -- the next of `todo` is popped, and its follow-ups go behind what is left of the queue
      rcases pop_iff.mp hpop with ⟨rest, out, hq₀, hq₁, hs⟩
      rw [hq, List.cons_append, List.cons.injEq] at hq₀
      obtain ⟨hhead, hrest'⟩ := hq₀
      rw [← hhead] at hs
      have ha : a ∈ q := by
        rw [hsplit]
        exact List.mem_append_right _ List.mem_cons_self
      have hqueue := hq₁
      rw [← hrest', List.append_assoc, List.append_assoc] at hqueue
      obtain ⟨u₁, u₂, c₁, follow', hu, hfst, hc₁, hinv', hlast⟩ := ih hrest hqueue
        (by rw [hsplit, List.append_assoc]; rfl) (hstep a ha _ _ _ _ _ _ hinv hs)
      refine ⟨_ :: u₁, u₂, c₁, follow', by rw [hu]; rfl, ?_, hc₁, hinv', hlast⟩
      rw [List.map_cons, hfst, ← hhead]

/-- What a queue was given is popped before any follow-up. `Inv` speaks about what was popped of
it, what followed, and the world. -/
theorem layer {q r : List A} {Inv : List A → List A → W → Prop}
    (hstep : ∀ a ∈ q, ∀ done follow w o out w', Inv done follow w → step w a o out w' →
      Inv (done ++ [a]) (follow ++ out) w')
    {c c' : Config W A} {u : List (A × O)} (h : Run (Pop step) c u c') (hq : c.queue = q ++ r)
    (hend : c'.queue = []) (hinv : Inv [] [] c.world) :
    ∃ u₁ u₂ c₁ follow, u = u₁ ++ u₂ ∧ u₁.map Prod.fst = q ∧ c₁.queue = r ++ follow ∧
      Inv q follow c₁.world ∧ Run (Pop step) c₁ u₂ c' :=
  layer_aux hstep h hend (by rw [hq, List.append_nil]) rfl hinv

end WorkQueue
end Utils
