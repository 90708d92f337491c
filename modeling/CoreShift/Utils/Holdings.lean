import CoreShift.Utils.HashMap
import Mathlib.Data.Finset.Insert

/-!
# Resources that are opened, handed on and closed

A pool hands out resources that are not open and takes them back when they are closed. Some of
the open resources are owned by an object that closes them; `disown` takes a resource from its
object without closing it. `Legal` is the discipline of such operations: nothing is opened that
is open, and nothing is used or closed that is not.

A table keeps the resources that were disowned. `Kept` says that it does so soundly, and the
rules below say which sequences of operations preserve this: keeping a new resource, giving it
up at once, and taking one from the table to close it.
-/

namespace Utils

/-- The open resources, and those of them that an object owns. -/
structure Holdings (R : Type) [DecidableEq R] where
  opened : Finset R
  owned : Finset R

/-- What happens to a resource. -/
inductive HoldingsOp (R : Type)
  | acquire (r : R)
  | disown (r : R)
  | use (r : R)
  | release (r : R)
deriving DecidableEq

namespace Holdings

variable {R K : Type} [DecidableEq R] [DecidableEq K]

/-- The holdings after an operation. -/
def apply (h : Holdings R) : HoldingsOp R → Holdings R
  | .acquire r => ⟨insert r h.opened, insert r h.owned⟩
  | .disown r => ⟨h.opened, h.owned.erase r⟩
  | .use _ => h
  | .release r => ⟨h.opened.erase r, h.owned.erase r⟩

/-- The holdings after some operations. -/
def run (h : Holdings R) : List (HoldingsOp R) → Holdings R
  | [] => h
  | op :: ops => (h.apply op).run ops

/-- The discipline of one operation. -/
def LegalOp (h : Holdings R) : HoldingsOp R → Prop
  | .acquire r => r ∉ h.opened
  | .disown r => r ∈ h.owned
  | .use r => r ∈ h.opened
  | .release r => r ∈ h.opened

/-- The discipline of some operations, each in the holdings that the earlier ones left. -/
def Legal (h : Holdings R) : List (HoldingsOp R) → Prop
  | [] => True
  | op :: ops => h.LegalOp op ∧ (h.apply op).Legal ops

/-- The part of the discipline that the pool answers for: what it hands out is not open. -/
def FreshOp (h : Holdings R) : HoldingsOp R → Prop
  | .acquire r => r ∉ h.opened
  | _ => True

def Fresh (h : Holdings R) : List (HoldingsOp R) → Prop
  | [] => True
  | op :: ops => h.FreshOp op ∧ (h.apply op).Fresh ops

instance decidableFreshOp (h : Holdings R) : (op : HoldingsOp R) → Decidable (h.FreshOp op)
  | .acquire r => inferInstanceAs (Decidable (r ∉ h.opened))
  | .disown _ | .use _ | .release _ => .isTrue trivial

instance decidableFresh : (h : Holdings R) → (ops : List (HoldingsOp R)) → Decidable (h.Fresh ops)
  | _, [] => .isTrue trivial
  | h, op :: ops =>
    have := decidableFresh (h.apply op) ops
    inferInstanceAs (Decidable (h.FreshOp op ∧ (h.apply op).Fresh ops))

theorem run_append (h : Holdings R) (ops ops' : List (HoldingsOp R)) :
    h.run (ops ++ ops') = (h.run ops).run ops' := by
  induction ops generalizing h with
  | nil => rfl
  | cons op ops ih => exact ih _

theorem legal_append (h : Holdings R) (ops ops' : List (HoldingsOp R)) :
    h.Legal (ops ++ ops') ↔ h.Legal ops ∧ (h.run ops).Legal ops' := by
  induction ops generalizing h with
  | nil => simp [Legal, run]
  | cons op ops ih =>
    rw [List.cons_append]
    simp only [Legal, run, ih, and_assoc]

theorem fresh_append (h : Holdings R) (ops ops' : List (HoldingsOp R)) :
    h.Fresh (ops ++ ops') ↔ h.Fresh ops ∧ (h.run ops).Fresh ops' := by
  induction ops generalizing h with
  | nil => simp [Fresh, run]
  | cons op ops ih =>
    rw [List.cons_append]
    simp only [Fresh, run, ih, and_assoc]

/-! ## Tables of disowned resources -/

/-- The resources in the table are open, no object owns them, and each is there once. -/
structure Kept (h : Holdings R) (m : HashMap K R) : Prop where
  sound : h.owned ⊆ h.opened
  distinct : ∀ i j r, m.get i = some r → m.get j = some r → i = j
  opened : ∀ i r, m.get i = some r → r ∈ h.opened
  unowned : ∀ i r, m.get i = some r → r ∉ h.owned

namespace Kept

variable {h : Holdings R} {m : HashMap K R} {k : K} {r : R}

theorem empty (hsound : h.owned ⊆ h.opened) : h.Kept (HashMap.empty : HashMap K R) := by
  have hnone : ∀ (i : K) (r : R), (HashMap.empty : HashMap K R).get i ≠ some r := by simp
  exact ⟨hsound, fun i _ r hi => absurd hi (hnone i r), fun i r hi => absurd hi (hnone i r),
    fun i r hi => absurd hi (hnone i r)⟩

/-- An entry may be dropped; its resource is lost, not closed. -/
theorem remove (hk : h.Kept m) (k : K) : h.Kept (m.remove k) := by
  have hget : ∀ i r, (m.remove k).get i = some r → m.get i = some r := by
    intro i r hi
    by_cases hik : i = k
    · rw [hik, HashMap.get_remove_self] at hi
      cases hi
    · rwa [HashMap.get_remove_ne _ hik] at hi
  exact ⟨hk.sound, fun i j r hi hj => hk.distinct i j r (hget i r hi) (hget j r hj),
    fun i r hi => hk.opened i r (hget i r hi), fun i r hi => hk.unowned i r (hget i r hi)⟩

/-- A new resource is entered, in the place of what was there. -/
theorem keep (hk : h.Kept m) (hr : r ∉ h.opened) :
    (h.run [.acquire r, .disown r]).Kept (m.insert k r) := by
  have howned : r ∉ h.owned := fun hmem => hr (hk.sound hmem)
  have hrun : h.run [.acquire r, .disown r] = ⟨insert r h.opened, h.owned⟩ := by
    show (⟨insert r h.opened, (insert r h.owned).erase r⟩ : Holdings R) = _
    rw [Finset.erase_insert howned]
  rw [hrun]
  have hget : ∀ i r', (m.insert k r).get i = some r' →
      i = k ∧ r' = r ∨ m.get i = some r' ∧ r' ≠ r := by
    intro i r' hi
    by_cases hik : i = k
    · rw [hik, HashMap.get_insert_self, Option.some.injEq] at hi
      exact Or.inl ⟨hik, hi.symm⟩
    · rw [HashMap.get_insert_ne _ _ hik] at hi
      refine Or.inr ⟨hi, fun heq => hr ?_⟩
      rw [← heq]
      exact hk.opened i r' hi
  constructor
  · exact fun x hx => Finset.mem_insert_of_mem (hk.sound hx)
  · intro i j r' hi hj
    rcases hget i r' hi with ⟨hik, hri⟩ | ⟨hi', hri⟩
    · rcases hget j r' hj with ⟨hjk, -⟩ | ⟨-, hrj⟩
      · rw [hik, hjk]
      · exact absurd hri hrj
    · rcases hget j r' hj with ⟨-, hrj⟩ | ⟨hj', -⟩
      · exact absurd hrj hri
      · exact hk.distinct i j r' hi' hj'
  · intro i r' hi
    rcases hget i r' hi with ⟨-, hri⟩ | ⟨hi', -⟩
    · rw [hri]
      exact Finset.mem_insert_self r h.opened
    · exact Finset.mem_insert_of_mem (hk.opened i r' hi')
  · intro i r' hi
    rcases hget i r' hi with ⟨-, hri⟩ | ⟨hi', -⟩
    · rw [hri]
      exact howned
    · exact hk.unowned i r' hi'

/-- A resource that is opened and closed again leaves no trace. -/
theorem run_acquire_release (hk : h.Kept m) (hr : r ∉ h.opened) :
    h.run [.acquire r, .release r] = h := by
  have howned : r ∉ h.owned := fun hmem => hr (hk.sound hmem)
  show (⟨(insert r h.opened).erase r, (insert r h.owned).erase r⟩ : Holdings R) = h
  rw [Finset.erase_insert hr, Finset.erase_insert howned]

/-- An entry is taken from the table and its resource is closed. -/
theorem take (hk : h.Kept m) (hget : m.get k = some r) :
    (h.run [.use r, .release r]).Kept (m.remove k) := by
  show (⟨h.opened.erase r, h.owned.erase r⟩ : Holdings R).Kept (m.remove k)
  -- the other entries hold other resources
  have hother : ∀ i r', (m.remove k).get i = some r' → m.get i = some r' ∧ r' ≠ r := by
    intro i r' hi
    by_cases hik : i = k
    · rw [hik, HashMap.get_remove_self] at hi
      cases hi
    · rw [HashMap.get_remove_ne _ hik] at hi
      refine ⟨hi, fun heq => hik (hk.distinct i k r ?_ hget)⟩
      rw [← heq]
      exact hi
  constructor
  · exact Finset.erase_subset_erase r hk.sound
  · exact fun i j r' hi hj => hk.distinct i j r' (hother i r' hi).1 (hother j r' hj).1
  · intro i r' hi
    rcases hother i r' hi with ⟨hi', hne⟩
    exact Finset.mem_erase.mpr ⟨hne, hk.opened i r' hi'⟩
  · intro i r' hi hmem
    exact hk.unowned i r' (hother i r' hi).1 (Finset.mem_of_mem_erase hmem)

/-- An object of its own opens a resource. -/
theorem acquire (hk : h.Kept m) (hr : r ∉ h.opened) : (h.apply (.acquire r)).Kept m := by
  constructor
  · exact Finset.insert_subset_insert r hk.sound
  · exact hk.distinct
  · exact fun i r' hi => Finset.mem_insert_of_mem (hk.opened i r' hi)
  · intro i r' hi hmem
    rcases Finset.mem_insert.mp hmem with heq | hmem
    · exact hr (heq ▸ hk.opened i r' hi)
    · exact hk.unowned i r' hi hmem

/-- An object closes the resource that it owns. -/
theorem release (hk : h.Kept m) (hr : r ∈ h.owned) : (h.apply (.release r)).Kept m := by
  constructor
  · exact Finset.erase_subset_erase r hk.sound
  · exact hk.distinct
  · intro i r' hi
    refine Finset.mem_erase.mpr ⟨?_, hk.opened i r' hi⟩
    rintro rfl
    exact hk.unowned i r' hi hr
  · exact fun i r' hi hmem => hk.unowned i r' hi (Finset.mem_of_mem_erase hmem)

end Kept
end Holdings
end Utils
