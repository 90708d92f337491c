import Mathlib.Data.Finmap
import Mathlib.Data.Finset.Card

/-!
# Finite maps with the vocabulary of a hash map

`HashMap K V` is Mathlib's `Finmap` at a constant family, so two maps are equal when
they hold the same entries. The operations keep the words of the usual library (`get`,
`insert`, `remove`, `retain`, `len`), and each has one lemma that says what `get` returns
after it; later proofs use these lemmas and never look at the entries.

The order in which such a map is iterated is not part of its value. A function that
iterates takes an `IterOrder`, which lists the entries of any map in some order.
-/

namespace Utils

/-- A finite map from keys to values. -/
structure HashMap (K V : Type) where
  toFinmap : Finmap fun _ : K => V

namespace HashMap

variable {K V : Type}

/-- The map without entries. -/
def empty : HashMap K V := ⟨∅⟩

/-- The keys in use. -/
def keys (m : HashMap K V) : Finset K := m.toFinmap.keys

/-- The number of entries. -/
def len (m : HashMap K V) : ℕ := m.keys.card

variable [DecidableEq K]

/-- The value stored at `k`. -/
def get (m : HashMap K V) (k : K) : Option V := m.toFinmap.lookup k

/-- Stores `v` at `k`, replacing what was there. -/
def insert (m : HashMap K V) (k : K) (v : V) : HashMap K V := ⟨m.toFinmap.insert k v⟩

/-- Removes the entry at `k`. -/
def remove (m : HashMap K V) (k : K) : HashMap K V := ⟨m.toFinmap.erase k⟩

/-- Is there an entry at `k`? -/
def contains (m : HashMap K V) (k : K) : Bool := (m.get k).isSome

/-- Removes the entries at the listed keys. -/
def removeAll (m : HashMap K V) (ks : List K) : HashMap K V := ks.foldl remove m

@[ext] theorem ext {m m' : HashMap K V} (h : ∀ k, m.get k = m'.get k) : m = m' :=
  congrArg HashMap.mk (Finmap.ext_lookup h)

/-! ## What `get` returns after each operation -/

@[simp] theorem get_empty (k : K) : (empty : HashMap K V).get k = none :=
  Finmap.lookup_empty k

theorem get_insert (m : HashMap K V) (k j : K) (v : V) :
    (m.insert k v).get j = if j = k then some v else m.get j := by
  split
  · next h => subst h; exact Finmap.lookup_insert m.toFinmap
  · next h => exact Finmap.lookup_insert_of_ne m.toFinmap h

@[simp] theorem get_insert_self (m : HashMap K V) (k : K) (v : V) :
    (m.insert k v).get k = some v := by
  rw [get_insert, if_pos rfl]

theorem get_insert_ne (m : HashMap K V) {k j : K} (v : V) (h : j ≠ k) :
    (m.insert k v).get j = m.get j := by
  rw [get_insert, if_neg h]

theorem get_remove (m : HashMap K V) (k j : K) :
    (m.remove k).get j = if j = k then none else m.get j := by
  split
  · next h => subst h; exact Finmap.lookup_erase j m.toFinmap
  · next h => exact Finmap.lookup_erase_ne h

@[simp] theorem get_remove_self (m : HashMap K V) (k : K) : (m.remove k).get k = none := by
  rw [get_remove, if_pos rfl]

theorem get_remove_ne (m : HashMap K V) {k j : K} (h : j ≠ k) :
    (m.remove k).get j = m.get j := by
  rw [get_remove, if_neg h]

/-- What is left after a removal was there before, under another key. -/
theorem get_remove_eq_some {m : HashMap K V} {k j : K} {v : V} :
    (m.remove k).get j = some v ↔ j ≠ k ∧ m.get j = some v := by
  rw [get_remove]
  by_cases heq : j = k
  · simp [heq]
  · simp [heq]

theorem get_removeAll (m : HashMap K V) (ks : List K) (j : K) :
    (m.removeAll ks).get j = if j ∈ ks then none else m.get j := by
  induction ks generalizing m with
  | nil => simp [removeAll]
  | cons k ks ih =>
    have hstep : (m.removeAll (k :: ks)).get j = ((m.remove k).removeAll ks).get j := rfl
    rw [hstep, ih, get_remove]
    by_cases hk : j = k <;> by_cases hks : j ∈ ks <;> simp [hk, hks]

theorem remove_of_get_none {m : HashMap K V} {k : K} (h : m.get k = none) : m.remove k = m := by
  ext j : 1
  rw [get_remove]
  split
  · next hj => rw [hj, h]
  · rfl

@[simp] theorem contains_iff {m : HashMap K V} {k : K} :
    m.contains k = true ↔ ∃ v, m.get k = some v := by
  rw [contains, Option.isSome_iff_exists]

/-! ## Keys and number of entries -/

@[simp] theorem mem_keys {m : HashMap K V} {k : K} : k ∈ m.keys ↔ ∃ v, m.get k = some v :=
  Finmap.mem_keys.trans Finmap.mem_iff

omit [DecidableEq K] in
@[simp] theorem len_empty : (empty : HashMap K V).len = 0 := by
  rw [len, keys, empty, Finmap.keys_empty, Finset.card_empty]

theorem keys_insert (m : HashMap K V) (k : K) (v : V) :
    (m.insert k v).keys = Insert.insert k m.keys := by
  ext j
  rw [Finset.mem_insert, mem_keys, mem_keys, get_insert]
  by_cases h : j = k <;> simp [h]

theorem keys_remove (m : HashMap K V) (k : K) : (m.remove k).keys = m.keys.erase k :=
  Finmap.keys_erase k m.toFinmap

theorem len_remove_of_get_some {m : HashMap K V} {k : K} {u : V} (h : m.get k = some u) :
    (m.remove k).len + 1 = m.len := by
  have hk : k ∈ m.keys := mem_keys.mpr ⟨u, h⟩
  rw [len, keys_remove, Finset.card_erase_add_one hk, len]

/-- Removing listed entries, each of which is there once. -/
theorem len_removeAll {m : HashMap K V} {ks : List K} (hnodup : ks.Nodup)
    (hks : ∀ k ∈ ks, k ∈ m.keys) : (m.removeAll ks).len + ks.length = m.len := by
  induction ks generalizing m with
  | nil => rfl
  | cons k ks ih =>
    rw [List.nodup_cons] at hnodup
    rw [List.forall_mem_cons] at hks
    have ⟨v, hv⟩ := mem_keys.mp hks.1
    have hrest : ∀ j ∈ ks, j ∈ (m.remove k).keys := by
      intro j hj
      rw [keys_remove, Finset.mem_erase]
      exact ⟨fun heq => hnodup.1 (heq ▸ hj), hks.2 j hj⟩
    have hlen : ((m.remove k).removeAll ks).len + ks.length = (m.remove k).len :=
      ih hnodup.2 hrest
    have hone := len_remove_of_get_some hv
    show ((m.remove k).removeAll ks).len + (ks.length + 1) = m.len
    omega

/-- Maps that agree off one key differ in size by what they hold there. -/
theorem len_of_agree {m m' : HashMap K V} {k : K} (h : ∀ j, j ≠ k → m'.get j = m.get j) :
    m'.len + (if (m.get k).isSome then 1 else 0) = m.len + if (m'.get k).isSome then 1 else 0 := by
  have hrest : m'.remove k = m.remove k := by
    ext j : 1
    rw [get_remove, get_remove]
    split
    · rfl
    · next hj => exact h j hj
  have hsize : ∀ n : HashMap K V,
      n.len = (n.remove k).len + if (n.get k).isSome then 1 else 0 := by
    intro n
    cases hn : n.get k with
    | none => rw [remove_of_get_none hn]; rfl
    | some v => exact (len_remove_of_get_some hn).symm
  rw [hsize m, hsize m', hrest]
  omega

/-! ## Iteration -/

/-- The entries as a multiset of key-value pairs. -/
def entries (m : HashMap K V) : Multiset (K × V) :=
  m.toFinmap.entries.map fun e => (e.1, e.2)

theorem mem_entries {m : HashMap K V} {k : K} {v : V} :
    (k, v) ∈ m.entries ↔ m.get k = some v := by
  rw [entries, Multiset.mem_map, get, Finmap.lookup_eq_some_iff]
  constructor
  · rintro ⟨e, he, heq⟩
    cases heq
    exact he
  · exact fun h => ⟨⟨k, v⟩, h, rfl⟩

omit [DecidableEq K] in
theorem card_entries (m : HashMap K V) : m.entries.card = m.len := by
  rw [entries, Multiset.card_map, len, keys]
  exact (Multiset.card_map Sigma.fst m.toFinmap.entries).symm

/-- Keeps the entries that satisfy `p`. -/
def retain (m : HashMap K V) (p : K → V → Bool) : HashMap K V :=
  ⟨m.toFinmap.entries.filter fun e => p e.1 e.2,
    Multiset.nodup_keys.mp <| Multiset.nodup_of_le
      (Multiset.map_le_map (Multiset.filter_le _ _))
      (Multiset.nodup_keys.mpr m.toFinmap.nodupKeys)⟩

theorem get_retain (m : HashMap K V) (p : K → V → Bool) (k : K) :
    (m.retain p).get k = (m.get k).filter (p k) := by
  have key : ∀ v, (m.retain p).get k = some v ↔ m.get k = some v ∧ p k v = true := by
    intro v
    rw [get, get, Finmap.lookup_eq_some_iff, Finmap.lookup_eq_some_iff]
    exact Multiset.mem_filter
  ext v : 1
  rw [key, Option.filter_eq_some_iff]

end HashMap

/-- A way to list the entries of every map, in an order of its own. -/
structure IterOrder (K V : Type) where
  iter : HashMap K V → List (K × V)
  entries_iter : ∀ m, (iter m : Multiset (K × V)) = m.entries

namespace IterOrder

variable {K V : Type}

theorem mem_iter [DecidableEq K] (o : IterOrder K V) {m : HashMap K V} {k : K} {v : V} :
    (k, v) ∈ o.iter m ↔ m.get k = some v := by
  rw [← HashMap.mem_entries, ← o.entries_iter, Multiset.mem_coe]

theorem length_iter (o : IterOrder K V) (m : HashMap K V) : (o.iter m).length = m.len := by
  rw [← HashMap.card_entries, ← o.entries_iter, Multiset.coe_card]

/-- No key is listed twice. -/
theorem nodup_keys (o : IterOrder K V) (m : HashMap K V) : ((o.iter m).map Prod.fst).Nodup := by
  rw [← Multiset.coe_nodup, ← Multiset.map_coe, o.entries_iter, HashMap.entries, Multiset.map_map]
  exact Multiset.nodup_keys.mpr m.toFinmap.nodupKeys

/-- The place of an entry: its key is listed neither before nor after. -/
theorem iter_split [DecidableEq K] (o : IterOrder K V) {m : HashMap K V} {k : K} {v : V}
    (h : m.get k = some v) : ∃ l₁ l₂, o.iter m = l₁ ++ (k, v) :: l₂ ∧
      k ∉ l₁.map Prod.fst ∧ k ∉ l₂.map Prod.fst := by
  have ⟨l₁, l₂, hl⟩ := List.append_of_mem (o.mem_iter.mpr h)
  have hnodup := o.nodup_keys m
  rw [hl, List.map_append, List.map_cons, List.nodup_append, List.nodup_cons] at hnodup
  exact ⟨l₁, l₂, hl, fun hk => hnodup.2.2 k hk k List.mem_cons_self rfl, hnodup.2.1.1⟩

theorem not_mem_keys [DecidableEq K] (o : IterOrder K V) {m : HashMap K V} {k : K}
    (h : m.get k = none) : k ∉ (o.iter m).map Prod.fst := by
  intro hk
  have ⟨⟨j, v⟩, he, hj⟩ := List.mem_map.mp hk
  rw [← hj, o.mem_iter.mp he] at h
  cases h

theorem get_insertAll_of_not_mem [DecidableEq K] {l : List (K × V)} {m : HashMap K V} {k : K}
    (f : V → V) (h : k ∉ l.map Prod.fst) :
    (l.foldl (fun m e => m.insert e.1 (f e.2)) m).get k = m.get k := by
  induction l generalizing m with
  | nil => rfl
  | cons e l ih =>
    rw [List.map_cons, List.mem_cons, not_or] at h
    rw [List.foldl_cons, ih h.2]
    exact HashMap.get_insert_ne _ _ h.1

/-- What a map holds after each of its values was replaced. -/
theorem get_insertAll [DecidableEq K] (o : IterOrder K V) (m : HashMap K V) (f : V → V) (k : K) :
    ((o.iter m).foldl (fun m e => m.insert e.1 (f e.2)) m).get k = (m.get k).map f := by
  cases hk : m.get k with
  | some v =>
    have ⟨l₁, l₂, hl, _, h₂⟩ := o.iter_split hk
    rw [hl, List.foldl_append, List.foldl_cons, get_insertAll_of_not_mem f h₂]
    exact HashMap.get_insert_self ..
  | none =>
    rw [get_insertAll_of_not_mem f (o.not_mem_keys hk)]
    exact hk

/-- An item that only the entry under one key gives is given as often as this entry gives it. -/
theorem count_flatMap [DecidableEq K] {A : Type} [DecidableEq A] (o : IterOrder K V)
    {m : HashMap K V} {k : K} {a : A} {g : V → List A}
    (hown : ∀ j v, m.get j = some v → a ∈ g v → j = k) :
    ((o.iter m).flatMap fun e => g e.2).count a = (m.get k).elim 0 fun v => (g v).count a := by
  have hnone : ∀ l : List (K × V), (∀ e ∈ l, e ∈ o.iter m) → k ∉ l.map Prod.fst →
      (l.flatMap fun e => g e.2).count a = 0 := by
    intro l hl hk
    rw [List.count_eq_zero, List.mem_flatMap]
    rintro ⟨e, he, ha⟩
    have heq := hown e.1 e.2 (o.mem_iter.mp (hl e he)) ha
    exact hk (heq ▸ List.mem_map_of_mem he)
  cases hk : m.get k with
  | some v =>
    have ⟨l₁, l₂, hl, h₁, h₂⟩ := o.iter_split hk
    rw [hl] at hnone ⊢
    rw [List.flatMap_append, List.flatMap_cons, List.count_append, List.count_append,
      hnone l₁ (fun e he => List.mem_append_left _ he) h₁,
      hnone l₂ (fun e he => List.mem_append_right _ (List.mem_cons_of_mem _ he)) h₂,
      Nat.zero_add, Nat.add_zero]
    rfl
  | none => exact hnone _ (fun _ he => he) (o.not_mem_keys hk)

theorem iter_insert_empty [DecidableEq K] (o : IterOrder K V) (k : K) (v : V) :
    o.iter (HashMap.empty.insert k v) = [(k, v)] := by
  have hlen : (o.iter (HashMap.empty.insert k v)).length = 1 := by
    rw [o.length_iter, HashMap.len, HashMap.keys_insert]
    rfl
  have ⟨e, he⟩ := List.length_eq_one_iff.mp hlen
  have hmem : (k, v) ∈ o.iter (HashMap.empty.insert k v) :=
    o.mem_iter.mpr (HashMap.get_insert_self _ k v)
  rw [he, List.mem_singleton] at hmem
  rw [he, hmem]

/-- Some order exists: the entries of a map form a finite multiset. -/
noncomputable instance : Inhabited (IterOrder K V) :=
  ⟨⟨fun m => m.entries.toList, fun m => Multiset.coe_toList m.entries⟩⟩

/-- Any entry of a map may be the one that is listed last. -/
theorem exists_last [DecidableEq K] {m : HashMap K V} {k : K} {v : V} (h : m.get k = some v) :
    ∃ (o : IterOrder K V) (l : List (K × V)), o.iter m = l ++ [(k, v)] := by
  classical
  let o : IterOrder K V := default
  have ⟨l₁, l₂, hl, _, _⟩ := o.iter_split h
  have hperm : (l₁ ++ (l₂ ++ [(k, v)])).Perm (o.iter m) := by
    rw [hl]
    exact List.Perm.append_left l₁ List.perm_append_comm
  refine ⟨⟨fun m' => if m' = m then l₁ ++ (l₂ ++ [(k, v)]) else o.iter m', ?_⟩, l₁ ++ l₂, ?_⟩
  · intro m'
    by_cases heq : m' = m
    · rw [if_pos heq, heq, ← o.entries_iter]
      exact Multiset.coe_eq_coe.mpr hperm
    · rw [if_neg heq]
      exact o.entries_iter m'
  · rw [List.append_assoc]
    exact if_pos rfl

end IterOrder
end Utils
