import CoreShift.Utils.Runs
import Mathlib.Algebra.GroupWithZero.Nat
import Mathlib.Algebra.Order.BigOperators.Group.List

/-!
# First-in first-out work queues

A work queue machine takes the action at the front of its queue, changes the world and
appends the actions that follow from it. `step w a o out w'` is one such reaction: in the
world `w` the action `a` is observed as `o`, leaves the world `w'` and asks for the actions
`out`. `Pop step` is the machine on a configuration of world and queue.

Three facts are proved for any reaction relation:

* the actions are popped in queue order (`pop_order`);
* if the follow-ups of an action weigh less than the action, the queue runs empty after at
  most as many pops as it weighs (`length_le_weight`);
* if a reaction only touches its own key's part of the world, the drain of a shared queue
  looks to every key like the drain of any other queue with the same actions of that key
  (`drain_independent`).
-/

namespace Utils
namespace WorkQueue

variable {W A O : Type*}

/-- A world together with the actions still to be processed. -/
@[ext] structure Config (W A : Type*) where
  world : W
  queue : List A

/-- One pop: the front action reacts, its follow-ups go to the back of the queue. -/
inductive Pop (step : W → A → O → List A → W → Prop) : Config W A → A × O → Config W A → Prop
  | mk {w a o out w' rest} : step w a o out w' →
      Pop step ⟨w, a :: rest⟩ (a, o) ⟨w', rest ++ out⟩

variable {step : W → A → O → List A → W → Prop}

theorem pop_iff {c c' : Config W A} {l : A × O} :
    Pop step c l c' ↔ ∃ rest out, c.queue = l.1 :: rest ∧ c'.queue = rest ++ out ∧
      step c.world l.1 l.2 out c'.world := by
  constructor
  · rintro ⟨h⟩
    exact ⟨_, _, rfl, rfl, h⟩
  · obtain ⟨w, q⟩ := c
    obtain ⟨w', q'⟩ := c'
    obtain ⟨a, o⟩ := l
    rintro ⟨rest, out, hq, hq', h⟩
    cases hq; cases hq'
    exact .mk h

/-! ## Order -/

/-- What was popped followed by what is left starts with the queue as it was. -/
theorem pop_order {c c' : Config W A} {t : List (A × O)} (h : Run (Pop step) c t c') :
    ∃ later, t.map Prod.fst ++ c'.queue = c.queue ++ later := by
  induction h with
  | nil => exact ⟨[], by simp⟩
  | cons hpop _ ih =>
    obtain ⟨later, ih⟩ := ih
    obtain ⟨rest, out, hq, hq', -⟩ := pop_iff.mp hpop
    refine ⟨out ++ later, ?_⟩
    rw [List.map_cons, List.cons_append, ih, hq', hq]
    simp

/-! ## Termination -/

section Weight

variable (weight : A → ℕ)

/-- The weight of a queue. -/
def total (q : List A) : ℕ := (q.map weight).sum

@[simp] theorem total_nil : total weight ([] : List A) = 0 := rfl

@[simp] theorem total_cons (a : A) (q : List A) :
    total weight (a :: q) = weight a + total weight q := rfl

@[simp] theorem total_append (q r : List A) :
    total weight (q ++ r) = total weight q + total weight r := by
  rw [total, List.map_append, List.sum_append, total, total]

variable {weight}

/-- A queue is at most as heavy as its length times the largest weight. -/
theorem total_le_mul {n : ℕ} (hle : ∀ a, weight a ≤ n) (q : List A) :
    total weight q ≤ n * q.length := by
  induction q with
  | nil => simp
  | cons a q ih =>
    have ha := hle a
    rw [total_cons, List.length_cons, Nat.mul_succ]
    omega

/-- A queue of actions of positive weight is at least as heavy as it is long. -/
theorem length_le_total (hpos : ∀ a, 0 < weight a) (q : List A) : q.length ≤ total weight q := by
  induction q with
  | nil => simp
  | cons a q ih =>
    have ha := hpos a
    rw [total_cons, List.length_cons]
    omega

/-- A pop makes the queue lighter. -/
theorem total_pop (hw : ∀ w a o out w', step w a o out w' → total weight out < weight a)
    {c c' : Config W A} {l : A × O} (h : Pop step c l c') :
    total weight c'.queue < total weight c.queue := by
  obtain ⟨rest, out, hq, hq', hs⟩ := pop_iff.mp h
  have hout := hw _ _ _ _ _ hs
  rw [hq, hq', total_cons, total_append]
  omega

/-- No run of pops is longer than the queue is heavy. -/
theorem length_le_weight (hw : ∀ w a o out w', step w a o out w' → total weight out < weight a)
    {c c' : Config W A} {t : List (A × O)} (h : Run (Pop step) c t c') :
    t.length + total weight c'.queue ≤ total weight c.queue := by
  induction h with
  | nil => simp
  | cons hpop _ ih =>
    have hlt := total_pop hw hpop
    rw [List.length_cons]
    omega

end Weight

/-! ## Independence of keys -/

section Independence

variable {K V P : Type*} [DecidableEq K] (key : A → K) (view : W → K → V) (shape : O → P)

/-- A reaction that concerns one key only: follow-ups stay with the key, the other keys'
views are left alone, and what happens to the key is a function of the key's view. -/
structure KeyLocal (step : W → A → O → List A → W → Prop) : Prop where
  follow_ups : ∀ {w a o out w'}, step w a o out w' → ∀ b ∈ out, key b = key a
  frame : ∀ {w a o out w'}, step w a o out w' → ∀ k, k ≠ key a → view w' k = view w k
  own : ∀ {w a o out w' v o' out' v'}, step w a o out w' → step v a o' out' v' →
    view w (key a) = view v (key a) →
    out = out' ∧ shape o = shape o' ∧ view w' (key a) = view v' (key a)

/-- The part of a queue that belongs to `k`. -/
def ownPart (k : K) (q : List A) : List A := q.filter fun a => key a = k

/-- What `k` sees of a run of pops: its own actions, with their observations. -/
def ownTrace (k : K) (t : List (A × O)) : List (A × P) :=
  (t.filter fun l => key l.1 = k).map fun l => (l.1, shape l.2)

variable {key view shape}

@[simp] theorem ownPart_append (k : K) (q r : List A) :
    ownPart key k (q ++ r) = ownPart key k q ++ ownPart key k r :=
  List.filter_append ..

theorem ownPart_cons_self {k : K} {a : A} (h : key a = k) (q : List A) :
    ownPart key k (a :: q) = a :: ownPart key k q :=
  List.filter_cons_of_pos (decide_eq_true h)

theorem ownPart_cons_other {k : K} {a : A} (h : key a ≠ k) (q : List A) :
    ownPart key k (a :: q) = ownPart key k q :=
  List.filter_cons_of_neg (by rwa [decide_eq_true_eq])

theorem ownPart_self {k : K} {q : List A} (h : ∀ a ∈ q, key a = k) : ownPart key k q = q :=
  List.filter_eq_self.mpr fun a ha => decide_eq_true (h a ha)

theorem ownPart_other {k : K} {q : List A} (h : ∀ a ∈ q, key a ≠ k) : ownPart key k q = [] :=
  List.filter_eq_nil_iff.mpr fun a ha => by rw [decide_eq_true_eq]; exact h a ha

theorem ownPart_ownPart (k : K) (q : List A) :
    ownPart key k (ownPart key k q) = ownPart key k q :=
  ownPart_self fun _ ha => of_decide_eq_true (List.mem_filter.mp ha).2

/-- Where keys are not repeated, an action is alone with its key. -/
theorem ownPart_of_nodup {q : List A} {a : A} (h : (q.map key).Nodup) (ha : a ∈ q) :
    ownPart key (key a) q = [a] := by
  induction q with
  | nil => cases ha
  | cons b q ih =>
    obtain ⟨hb, hq⟩ := List.nodup_cons.mp h
    rcases List.mem_cons.mp ha with rfl | ha
    · have hother : ∀ c ∈ q, key c ≠ key a := by
        intro c hc hkey
        rw [← hkey] at hb
        exact hb (List.mem_map_of_mem hc)
      rw [ownPart_cons_self rfl, ownPart_other hother]
    · have hne : key b ≠ key a := fun hkey => hb (hkey ▸ List.mem_map_of_mem ha)
      rw [ownPart_cons_other hne, ih hq ha]

/-- Queues with the same actions of every key are permutations of each other. -/
theorem perm_of_ownPart [DecidableEq A] {q r : List A}
    (h : ∀ k, ownPart key k q = ownPart key k r) : q.Perm r := by
  rw [List.perm_iff_count]
  intro a
  have hcount := congrArg (List.count a) (h (key a))
  unfold ownPart at hcount
  rwa [List.count_filter (by simp), List.count_filter (by simp)] at hcount

theorem ownTrace_cons_self {k : K} {l : A × O} (h : key l.1 = k) (t : List (A × O)) :
    ownTrace key shape k (l :: t) = (l.1, shape l.2) :: ownTrace key shape k t := by
  rw [ownTrace, List.filter_cons_of_pos (by rwa [decide_eq_true_eq]), List.map_cons, ownTrace]

theorem ownTrace_cons_other {k : K} {l : A × O} (h : key l.1 ≠ k) (t : List (A × O)) :
    ownTrace key shape k (l :: t) = ownTrace key shape k t := by
  rw [ownTrace, List.filter_cons_of_neg (by rwa [decide_eq_true_eq]), ownTrace]

/-- A pop for another key changes neither the view nor the own part of the queue. -/
theorem KeyLocal.pop_other (hloc : KeyLocal key view shape step) {k : K} {c c' : Config W A}
    {l : A × O} (h : Pop step c l c') (hk : key l.1 ≠ k) :
    view c'.world k = view c.world k ∧ ownPart key k c'.queue = ownPart key k c.queue := by
  obtain ⟨rest, out, hq, hq', hs⟩ := pop_iff.mp h
  refine ⟨hloc.frame hs k (Ne.symm hk), ?_⟩
  have hout : ownPart key k out = [] :=
    ownPart_other fun b hb => by rw [hloc.follow_ups hs b hb]; exact hk
  rw [hq, hq', ownPart_cons_other hk, ownPart_append, hout, List.append_nil]

/-- Pops for other keys can be skipped until the next action of `k` is at the front. -/
theorem KeyLocal.skip_others (hloc : KeyLocal key view shape step) {k : K} {a : A}
    {own : List A} {c c' : Config W A} {t : List (A × O)} (h : Run (Pop step) c t c')
    (hdone : c'.queue = []) (hown : ownPart key k c.queue = a :: own) :
    ∃ d rest t', d.queue = a :: rest ∧ ownPart key k rest = own ∧
      view d.world k = view c.world k ∧ Run (Pop step) d t' c' ∧
      ownTrace key shape k t = ownTrace key shape k t' := by
  induction h with
  | nil c =>
    rw [hdone] at hown
    cases hown
  | @cons c l c₁ t c₂ hpop hrun ih =>
    by_cases hk : key l.1 = k
    · obtain ⟨rest, out, hq, -, -⟩ := pop_iff.mp hpop
      rw [hq, ownPart_cons_self hk, List.cons.injEq] at hown
      refine ⟨c, rest, l :: t, by rw [hq, hown.1], hown.2, rfl, .cons hpop hrun, rfl⟩
    · obtain ⟨hview, hpart⟩ := hloc.pop_other hpop hk
      obtain ⟨d, rest, t', hd, hrest, hv, hrun', ht⟩ := ih hdone (hpart.trans hown)
      refine ⟨d, rest, t', hd, hrest, hv.trans hview, hrun', ?_⟩
      rw [ownTrace_cons_other hk, ht]

/-- If no action of `k` is queued, a drain passes by `k`. -/
theorem KeyLocal.drain_none (hloc : KeyLocal key view shape step) {k : K} {c c' : Config W A}
    {t : List (A × O)} (h : Run (Pop step) c t c') (hown : ownPart key k c.queue = []) :
    view c'.world k = view c.world k ∧ ownTrace key shape k t = [] := by
  induction h with
  | nil => exact ⟨rfl, rfl⟩
  | @cons c l c₁ t c₂ hpop _ ih =>
    have hk : key l.1 ≠ k := by
      intro hk
      obtain ⟨rest, out, hq, -, -⟩ := pop_iff.mp hpop
      rw [hq, ownPart_cons_self hk] at hown
      cases hown
    obtain ⟨hview, hpart⟩ := hloc.pop_other hpop hk
    obtain ⟨hv, ht⟩ := ih (hpart.trans hown)
    exact ⟨hv.trans hview, by rw [ownTrace_cons_other hk, ht]⟩

/-- Two drains that start with the same view of `k` and the same actions of `k` in the
same order end with the same view of `k`, and `k` sees the same pops. -/
theorem KeyLocal.drain_independent (hloc : KeyLocal key view shape step) {k : K}
    {c c' d d' : Config W A} {t u : List (A × O)}
    (hc : Run (Pop step) c t c') (hcq : c'.queue = [])
    (hd : Run (Pop step) d u d') (hdq : d'.queue = [])
    (hview : view c.world k = view d.world k)
    (hown : ownPart key k c.queue = ownPart key k d.queue) :
    view c'.world k = view d'.world k ∧
      ownTrace key shape k t = ownTrace key shape k u := by
  induction hc generalizing d u with
  | nil c =>
    rw [hcq] at hown
    obtain ⟨hv, ht⟩ := hloc.drain_none hd hown.symm
    exact ⟨hview.trans hv.symm, ht.symm⟩
  | @cons c l c₁ t c₂ hpop _ ih =>
    by_cases hk : key l.1 = k
    · obtain ⟨rest, out, hq, hq', hs⟩ := pop_iff.mp hpop
      rw [hq, ownPart_cons_self hk] at hown
      -- bring the other drain to its next action of `k`, which is the same action
      obtain ⟨e, rest', u', he, hrest', hve, hrun, hu⟩ := hloc.skip_others hd hdq hown.symm
      cases hrun with
      | nil => rw [hdq] at he; cases he
      | @cons _ m e₁ u'' _ hpop' hrun' =>
        obtain ⟨rest'', out', hqe, hqe', hs'⟩ := pop_iff.mp hpop'
        rw [he, List.cons.injEq] at hqe
        obtain ⟨hm, rfl⟩ := hqe
        rw [← hm] at hs'
        obtain ⟨hout, hsh, hv⟩ := hloc.own hs hs' (by rw [hk, hview, hve])
        rw [hk] at hv
        have hpart : ownPart key k c₁.queue = ownPart key k e₁.queue := by
          rw [hq', hqe', ownPart_append, ownPart_append, hrest', hout]
        obtain ⟨hfin, htr⟩ := ih hcq hrun' hv hpart
        refine ⟨hfin, ?_⟩
        rw [hu, ownTrace_cons_self hk, ownTrace_cons_self (hm ▸ hk), htr, hsh, hm]
    · obtain ⟨hv, hpart⟩ := hloc.pop_other hpop hk
      obtain ⟨hfin, htr⟩ := ih hcq hd (hv.trans hview) (hpart.trans hown)
      exact ⟨hfin, by rw [ownTrace_cons_other hk, htr]⟩

end Independence
end WorkQueue
end Utils
