import CoreShift.Utils.HashMap

/-!
# Replies under shared keys

Requests are registered under keys in one table, so that a later request under a key replaces
an earlier one: the key leads to the last. The first reply under a key takes the entry, and the
later ones find nothing.

`lastUnder` is the request a key leads to, `deliver` the list of deliveries of some replies.
-/

namespace Utils

variable {K V P R T : Type} [DecidableEq K]

/-! ## The last request under a key -/

/-- The last element with the key. -/
def lastUnder (key : T → K) (k : K) : List T → Option T
  | [] => none
  | t :: l => (lastUnder key k l).or (if key t = k then some t else none)

section lastUnder

variable {key : T → K} {k : K} {t : T} {l : List T}

theorem lastUnder_cons (key : T → K) (k : K) (t : T) (l : List T) : lastUnder key k (t :: l) =
    (lastUnder key k l).or (if key t = k then some t else none) := rfl

theorem lastUnder_eq_some (h : lastUnder key k l = some t) : t ∈ l ∧ key t = k := by
  induction l with
  | nil => cases h
  | cons u l ih =>
    rw [lastUnder_cons] at h
    cases hl : lastUnder key k l with
    | some v =>
      rw [hl, Option.some_or, Option.some.injEq] at h
      rw [h] at hl
      rcases ih hl with ⟨hmem, hk⟩
      exact ⟨List.mem_cons_of_mem _ hmem, hk⟩
    | none =>
      rw [hl, Option.none_or] at h
      by_cases hu : key u = k
      · rw [if_pos hu, Option.some.injEq] at h
        rw [← h]
        exact ⟨List.mem_cons_self, hu⟩
      · rw [if_neg hu] at h
        cases h

theorem lastUnder_eq_none : lastUnder key k l = none ↔ ∀ t ∈ l, key t ≠ k := by
  induction l with
  | nil => exact ⟨fun _ t ht => absurd ht List.not_mem_nil, fun _ => rfl⟩
  | cons u l ih =>
    rw [lastUnder_cons, Option.or_eq_none_iff, ih, List.forall_mem_cons, and_comm]
    by_cases hu : key u = k
    · simp [hu]
    · simp [hu]

theorem exists_lastUnder (ht : t ∈ l) (hk : key t = k) : ∃ u, lastUnder key k l = some u := by
  cases h : lastUnder key k l with
  | some u => exact ⟨u, rfl⟩
  | none => exact absurd hk (lastUnder_eq_none.mp h t ht)

theorem lastUnder_map {S : Type} (key : T → K) (f : S → T) (k : K) (l : List S) :
    lastUnder key k (l.map f) = (lastUnder (fun s => key (f s)) k l).map f := by
  induction l with
  | nil => rfl
  | cons s l ih =>
    rw [List.map_cons, lastUnder_cons, lastUnder_cons, ih]
    cases lastUnder (fun s => key (f s)) k l with
    | some u => rfl
    | none => by_cases hs : key (f s) = k <;> simp [hs]

/-- Under distinct keys nothing is replaced. -/
theorem lastUnder_of_nodup (h : (l.map key).Nodup) (ht : t ∈ l) :
    lastUnder key (key t) l = some t := by
  obtain ⟨u, hu⟩ : ∃ u, lastUnder key (key t) l = some u := exists_lastUnder ht rfl
  rcases lastUnder_eq_some hu with ⟨hmem, hk⟩
  rw [hu, List.inj_on_of_nodup_map h hmem ht hk]

/-- If nothing is replaced, the keys are distinct. -/
theorem nodup_of_lastUnder (hnodup : l.Nodup)
    (h : ∀ t ∈ l, lastUnder key (key t) l = some t) : (l.map key).Nodup := by
  refine List.Nodup.map_on ?_ hnodup
  intro t ht u hu heq
  have htu := h t ht
  rw [heq, h u hu, Option.some.injEq] at htu
  exact htu.symm

end lastUnder

/-- The entries of a list, put into a table one after the other. -/
def HashMap.insertAll (m : HashMap K V) (l : List (K × V)) : HashMap K V :=
  l.foldl (fun m e => m.insert e.1 e.2) m

theorem HashMap.insertAll_cons (m : HashMap K V) (e : K × V) (l : List (K × V)) :
    m.insertAll (e :: l) = (m.insert e.1 e.2).insertAll l := rfl

/-- A key leads to its last entry. -/
theorem HashMap.get_insertAll (m : HashMap K V) (f : T → V) (key : T → K) (l : List T) (k : K) :
    (m.insertAll (l.map fun t => (key t, f t))).get k =
      ((lastUnder key k l).map f).or (m.get k) := by
  induction l generalizing m with
  | nil => rfl
  | cons t l ih =>
    rw [List.map_cons, insertAll_cons, ih, get_insert, lastUnder_cons]
    by_cases hk : k = key t
    · rw [if_pos hk, if_pos hk.symm]
      cases lastUnder key k l <;> rfl
    · rw [if_neg hk, if_neg (Ne.symm hk), Option.or_none]

/-! ## Deliveries -/

/-- The deliveries of some replies, when the keys in `done` were replied to before. -/
def deliver (addr : K → Option P) (done : List K) : List (K × R) → List (P × R)
  | [] => []
  | (k, r) :: rs =>
    (if k ∈ done then [] else ((addr k).map fun p => (p, r)).toList) ++ deliver addr (k :: done) rs

section deliver

variable {addr : K → Option P} {done : List K} {rs : List (K × R)} {p : P} {r : R}

theorem deliver_append (addr : K → Option P) (done : List K) (rs rs' : List (K × R)) :
    deliver addr done (rs ++ rs') =
      deliver addr done rs ++ deliver addr ((rs.map Prod.fst).reverse ++ done) rs' := by
  induction rs generalizing done with
  | nil => rfl
  | cons e rs ih =>
    rcases e with ⟨k, r⟩
    rw [List.cons_append]
    simp only [deliver, ih, List.map_cons, List.reverse_cons, List.append_assoc,
      List.singleton_append]

/-- What is delivered is the first reply under a key of the addressee. -/
theorem mem_deliver (h : (p, r) ∈ deliver addr done rs) :
    ∃ k, addr k = some p ∧ k ∉ done ∧ (rs.filter fun e => e.1 = k).head? = some (k, r) := by
  induction rs generalizing done with
  | nil => cases h
  | cons e rs ih =>
    rcases e with ⟨k, r'⟩
    unfold deliver at h
    rcases List.mem_append.mp h with h | h
    · -- the first reply under `k`
      by_cases hk : k ∈ done
      · rw [if_pos hk] at h
        cases h
      · rw [if_neg hk, Option.mem_toList, Option.map_eq_some_iff] at h
        rcases h with ⟨q, hq, heq⟩
        cases heq
        exact ⟨k, hq, hk, by rw [List.filter_cons_of_pos (by simp)]; rfl⟩
    · rcases ih h with ⟨j, hj, hdone, hhead⟩
      rw [List.mem_cons, not_or] at hdone
      refine ⟨j, hj, hdone.2, ?_⟩
      rw [List.filter_cons_of_neg (by simpa using Ne.symm hdone.1)]
      exact hhead

variable [DecidableEq P]

/-- The number of deliveries to an addressee. -/
def delivered (p : P) (l : List (P × R)) : ℕ := l.countP fun e => e.1 = p

/-- Who is no addressee of an open key gets nothing. -/
theorem delivered_none (h : ∀ k, addr k = some p → k ∈ done ∨ k ∉ rs.map Prod.fst) :
    delivered p (deliver addr done rs) = 0 := by
  unfold delivered
  rw [List.countP_eq_zero]
  rintro ⟨q, r⟩ hmem heq
  rw [decide_eq_true_eq] at heq
  rcases mem_deliver hmem with ⟨k, hk, hdone, hhead⟩
  rcases h k (heq ▸ hk) with hin | hout
  · exact hdone hin
  · have hfilter := List.mem_of_mem_head? hhead
    exact hout (List.mem_map_of_mem (List.mem_filter.mp hfilter).1)

/-- The addressee of an open key gets the first reply under it, and that only. -/
theorem delivered_one {k : K} (hk : addr k = some p) (huniq : ∀ j, addr j = some p → j = k)
    (hdone : k ∉ done) (hmem : k ∈ rs.map Prod.fst) :
    delivered p (deliver addr done rs) = 1 := by
  induction rs generalizing done with
  | nil => cases hmem
  | cons e rs ih =>
    rcases e with ⟨j, r⟩
    rw [List.map_cons, List.mem_cons] at hmem
    unfold deliver delivered
    rw [List.countP_append]
    by_cases hjk : k = j
    · -- the first reply under `k`: it is delivered, and the others are lost
      have hrest : delivered p (deliver addr (j :: done) rs) = 0 := by
        apply delivered_none
        intro i hi
        left
        rw [huniq i hi, hjk]
        exact List.mem_cons_self
      unfold delivered at hrest
      rw [hrest, ← hjk, if_neg hdone, hk]
      simp
    · have hzero : (if j ∈ done then [] else ((addr j).map fun p => (p, r)).toList).countP
          (fun e => e.1 = p) = 0 := by
        rw [List.countP_eq_zero]
        intro e he
        by_cases hj : j ∈ done
        · rw [if_pos hj] at he
          cases he
        · rw [if_neg hj, Option.mem_toList, Option.map_eq_some_iff] at he
          rcases he with ⟨q, hq, rfl⟩
          rw [decide_eq_true_eq]
          rintro rfl
          exact hjk (huniq j hq).symm
      have hopen : k ∉ j :: done := by
        rw [List.mem_cons, not_or]
        exact ⟨hjk, hdone⟩
      have hrest := ih hopen (hmem.resolve_left hjk)
      unfold delivered at hrest
      rw [hzero, hrest]

end deliver
end Utils
