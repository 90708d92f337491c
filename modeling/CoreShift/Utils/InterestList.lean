import Mathlib.Data.List.Nodup

/-!
# Interest lists

The list of an epoll instance: each descriptor is on it at most once, with what it was registered
with. Distinct descriptors may be registered with equal tags; `Distinct` says that none are.
-/

namespace Utils

variable {F V T : Type*}

structure InterestList (F V : Type*) where
  entries : List (F × V)
  nodup : (entries.map Prod.fst).Nodup

namespace InterestList

/-- The descriptors on the list. -/
def fds (l : InterestList F V) : List F := l.entries.map Prod.fst

def empty : InterestList F V := ⟨[], List.nodup_nil⟩

def add (l : InterestList F V) (e : F × V) (h : e.1 ∉ l.fds) : InterestList F V :=
  ⟨l.entries ++ [e], by
    rw [List.map_append, List.nodup_append_comm]
    exact List.nodup_cons.mpr ⟨h, l.nodup⟩⟩

def remove [DecidableEq F] (l : InterestList F V) (fd : F) : InterestList F V :=
  ⟨l.entries.filter fun e => e.1 ≠ fd, l.nodup.sublist (List.filter_sublist.map _)⟩

/-- No two descriptors have the same tag. -/
def Distinct (tag : F × V → T) (l : InterestList F V) : Prop := (l.entries.map tag).Nodup

variable {tag : F × V → T} {l : InterestList F V} {e e' : F × V} {fd : F}

theorem mem_add (h : e.1 ∉ l.fds) : e' ∈ (l.add e h).entries ↔ e' ∈ l.entries ∨ e' = e := by
  show e' ∈ l.entries ++ [e] ↔ _
  rw [List.mem_append, List.mem_singleton]

theorem fd_ne (h : e.1 ∉ l.fds) (he : e' ∈ l.entries) : e'.1 ≠ e.1 := by
  intro heq
  exact h (heq ▸ List.mem_map_of_mem he)

theorem distinct_add_iff (h : e.1 ∉ l.fds) :
    (l.add e h).Distinct tag ↔ (∀ e' ∈ l.entries, tag e' ≠ tag e) ∧ l.Distinct tag := by
  show ((l.entries ++ [e]).map tag).Nodup ↔ _
  rw [List.map_append, List.nodup_append_comm]
  show (tag e :: l.entries.map tag).Nodup ↔ _
  rw [List.nodup_cons, List.mem_map, not_exists]
  simp only [not_and]
  rfl

variable [DecidableEq F]

theorem mem_of_mem_remove (h : e ∈ (l.remove fd).entries) : e ∈ l.entries :=
  List.mem_of_mem_filter h

theorem Distinct.remove (h : l.Distinct tag) (fd : F) : (l.remove fd).Distinct tag :=
  List.Nodup.sublist (List.filter_sublist.map _) h

end InterestList
end Utils
