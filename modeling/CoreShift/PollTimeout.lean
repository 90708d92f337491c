import CoreShift.Timer
import CoreShift.Utils.Ranking

/-!
# The poll timeout

`compute_timeout_ms` looks for the least remaining time in one pass over the tracked entries,
with `-1` for "none so far". The remaining milliseconds are cut to 32 bits: from `2 ^ 31` on
they come out negative, and then they pass for the nearest deadline or for none at all.
-/

namespace CoreShift

open Utils

namespace TimeoutPolicyModule

/-- The whole milliseconds left until the deadline that an entry waits for. -/
def leftMs (now : Instant) (e : TimeoutEntry) : ℕ := (currentDeadline e - now) / 1000000

/-- What the sleep should be: the least time that is left, capped at `i32::MAX`, and `-1` only if
nothing is tracked. -/
structure PollsNearest (now : Instant) (m : TimeoutPolicyModule) : Prop where
  idle : ∀ order, m.computeTimeoutMs order now = -1 ↔ ∀ id, m.tracking.get id = none
  nearest : ∀ order, (∃ id e, m.tracking.get id = some e) →
    IsLeast {ms : ℤ | ∃ id e, m.tracking.get id = some e ∧ ms = min (leftMs now e : ℤ) 2147483647}
      (m.computeTimeoutMs order now).toInt
  sign : ∀ order, m.computeTimeoutMs order now = -1 ∨ 0 ≤ (m.computeTimeoutMs order now).toInt
  bounded : ∀ order id e, m.tracking.get id = some e →
    (m.computeTimeoutMs order now).toInt ≤ leftMs now e
  any_order : ∀ order order', m.computeTimeoutMs order now = m.computeTimeoutMs order' now

/-- Every deadline was set at a moment up to `now`, by a `u32` of milliseconds. -/
def SetBefore (now : Instant) (m : TimeoutPolicyModule) : Prop :=
  ∀ id e, m.tracking.get id = some e →
    ∃ (set : Instant) (ms : UInt32), set ≤ now ∧
      currentDeadline e = set + durationFromMillis ms.toNat

/-! ## Deadlines that were set -/

-- the deadline is a variable here, for the kernel would count in nanoseconds to compare two of them
theorem currentDeadline_of_waiting {e : TimeoutEntry} (h : e.state = .waitingForDeadline) :
    currentDeadline e = e.deadline := by
  rw [currentDeadline, h]

theorem currentDeadline_of_grace {e : TimeoutEntry} {d : Instant}
    (h : e.state = .waitingForKillGrace d) : currentDeadline e = d := by
  rw [currentDeadline, h]

def Call.clock : Call → Instant
  | .handle now _ => now
  | .handleEvent now _ => now

theorem SetBefore.call {now : Instant} {m : TimeoutPolicyModule} (h : SetBefore now m) (c : Call)
    (hc : c.clock ≤ now) : SetBefore now (m.call c).1 := by
  intro id e he
  cases c with
  | handleEvent clock order =>
    unfold TimeoutPolicyModule.call handleEvent at he
    dsimp only at he
    rw [order.get_insertAll m.tracking (fun e => (fire clock e).1)] at he
    have ⟨e₀, he₀, heq⟩ := Option.map_eq_some_iff.mp he
    have hset := h id e₀ he₀
    rw [← heq]
    unfold fire
    split
    · split
      -- the grace begins at the reading
      · exact ⟨clock, e₀.killGraceMs, hc, currentDeadline_of_grace rfl⟩
      · exact hset
    · split <;> exact hset
  | handle clock a =>
    cases a with
    | admitted j owner exec policy =>
      unfold TimeoutPolicyModule.call handle at he
      dsimp only at he
      cases hms : policy.timeoutMs with
      | none =>
        rw [hms] at he
        exact h id e he
      | some t =>
        rw [hms] at he
        dsimp only at he
        rw [HashMap.get_insert] at he
        split at he
        · rw [Option.some.injEq] at he
          rw [← he]
          exact ⟨clock, t, hc, currentDeadline_of_waiting rfl⟩
        · exact h id e he
    | finished j result => exact h id e (HashMap.get_remove_eq_some.mp he).2
    | _ => exact h id e he

/-- The deadlines of a module that was called up to now are set before now. -/
theorem SetBefore.run {now : Instant} {t : List (Call × List Action)} {m : TimeoutPolicyModule}
    (hrun : Run Calls .new t m) (hclock : ∀ l ∈ t, l.1.clock ≤ now) : SetBefore now m := by
  have hinit : SetBefore now .new := by
    intro id e he
    rw [show TimeoutPolicyModule.new.tracking.get id = none from HashMap.get_empty id] at he
    cases he
  generalize TimeoutPolicyModule.new = m₀ at hrun hinit
  induction hrun with
  | nil => exact hinit
  | @cons m l m₁ t m₂ hcall _ ih =>
    rw [List.forall_mem_cons] at hclock
    have hnext := hinit.call l.1 hclock.1
    rw [show m.call l.1 = (m₁, l.2) from hcall] at hnext
    exact ih hclock.2 hnext

theorem SetBefore.leftMs_lt {now : Instant} {m : TimeoutPolicyModule} (h : SetBefore now m)
    {id : JobId} {e : TimeoutEntry} (he : m.tracking.get id = some e) :
    leftMs now e < 2 ^ 32 := by
  have ⟨set, ms, hset, hdeadline⟩ := h id e he
  unfold leftMs
  rw [hdeadline, durationFromMillis, Nat.div_lt_iff_lt_mul (by decide)]
  have hms : ms.toNat < 2 ^ 32 := ms.toNat_lt
  have hsub : set + ms.toNat * 1000000 - now ≤ ms.toNat * 1000000 := by
    rw [Nat.sub_le_iff_le_add, Nat.add_comm]
    exact Nat.add_le_add_left hset _
  exact Nat.lt_of_le_of_lt hsub (Nat.mul_lt_mul_of_pos_right hms (by decide))

/-! ## The cut to 32 bits -/

theorem remainingMs_eq (now : Instant) (e : TimeoutEntry) :
    remainingMs now e = Int32.ofNat (leftMs now e) := by
  unfold remainingMs leftMs
  split
  · rfl
  · next hpast =>
    rw [Nat.sub_eq_zero_of_le (Nat.le_of_not_lt hpast)]
    rfl

theorem remainingMs_of_lt {now : Instant} {e : TimeoutEntry} (h : leftMs now e < 2 ^ 31) :
    (remainingMs now e).toInt = leftMs now e := by
  rw [remainingMs_eq]
  exact Int32.toInt_ofNat_of_lt h

theorem remainingMs_neg {now : Instant} {e : TimeoutEntry} (hge : 2 ^ 31 ≤ leftMs now e)
    (hlt : leftMs now e < 2 ^ 32) : (remainingMs now e).toInt ≤ -1 := by
  rw [remainingMs_eq, Int32.toInt_ofNat', Int.bmod_def]
  have hsize : ((Int32.size : ℕ) : ℤ) = 2 ^ 32 := rfl
  rw [hsize]
  omega

/-! ## The pass over the entries -/

/-- The remaining times in the order of iteration. -/
def remaining (order : IterOrder JobId TimeoutEntry) (now : Instant) (m : TimeoutPolicyModule) :
    List ℤ :=
  (order.iter m.tracking).map fun e => (remainingMs now e.2).toInt

theorem toInt_computeTimeoutMs (order : IterOrder JobId TimeoutEntry) (now : Instant)
    (m : TimeoutPolicyModule) :
    (m.computeTimeoutMs order now).toInt =
      (remaining order now m).foldl (keepLeast (-1)) (-1) := by
  have hpass : ∀ (l : List (JobId × TimeoutEntry)) (acc : Int32),
      (l.foldl (fun minMs e =>
        let ms := remainingMs now e.2
        if minMs = -1 ∨ ms < minMs then ms else minMs) acc).toInt =
      (l.map fun e => (remainingMs now e.2).toInt).foldl (keepLeast (-1)) acc.toInt := by
    intro l
    induction l with
    | nil => exact fun _ => rfl
    | cons e l ih =>
      intro acc
      rw [List.foldl_cons, ih, List.map_cons, List.foldl_cons]
      congr 1
      unfold keepLeast
      have hmark : acc = -1 ↔ acc.toInt = -1 := Int32.toInt_inj.symm
      dsimp only
      rw [apply_ite Int32.toInt]
      simp only [hmark, Int32.lt_iff_toInt_lt]
  exact hpass (order.iter m.tracking) (-1)

theorem mem_remaining {order : IterOrder JobId TimeoutEntry} {now : Instant}
    {m : TimeoutPolicyModule} {ms : ℤ} :
    ms ∈ remaining order now m ↔
      ∃ id e, m.tracking.get id = some e ∧ (remainingMs now e).toInt = ms := by
  unfold remaining
  rw [List.mem_map]
  constructor
  · rintro ⟨⟨id, e⟩, hmem, heq⟩
    exact ⟨id, e, order.mem_iter.mp hmem, heq⟩
  · rintro ⟨id, e, he, heq⟩
    exact ⟨(id, e), order.mem_iter.mpr he, heq⟩

variable {now : Instant} {m : TimeoutPolicyModule}

/-- While all remaining times fit, the pass finds the least one. -/
theorem isLeast_computeTimeoutMs (order : IterOrder JobId TimeoutEntry)
    (hfit : ∀ id e, m.tracking.get id = some e → leftMs now e < 2 ^ 31)
    (htracked : ∃ id e, m.tracking.get id = some e) :
    IsLeast
      {ms : ℤ | ∃ id e, m.tracking.get id = some e ∧ ms = min (leftMs now e : ℤ) 2147483647}
      (m.computeTimeoutMs order now).toInt := by
  have hset : {ms : ℤ | ∃ id e, m.tracking.get id = some e ∧
      ms = min (leftMs now e : ℤ) 2147483647} = {ms | ms ∈ remaining order now m} := by
    ext ms
    rw [Set.mem_ofPred_eq, Set.mem_ofPred_eq, mem_remaining]
    refine exists_congr fun id => exists_congr fun e => and_congr_right fun he => ?_
    have hlt := hfit id e he
    rw [remainingMs_of_lt hlt, min_eq_left (by omega)]
    exact eq_comm
  rw [hset, toInt_computeTimeoutMs]
  refine isLeast_foldl ?_ ?_
  · have ⟨id, e, he⟩ := htracked
    exact List.ne_nil_of_mem (mem_remaining.mpr ⟨id, e, he, rfl⟩)
  · intro ms hms
    have ⟨id, e, he, heq⟩ := mem_remaining.mp hms
    rw [← heq, remainingMs_of_lt (hfit id e he)]
    omega

theorem computeTimeoutMs_idle (order : IterOrder JobId TimeoutEntry)
    (hnone : ∀ id, m.tracking.get id = none) : m.computeTimeoutMs order now = -1 := by
  have hiter : order.iter m.tracking = [] := by
    rw [List.eq_nil_iff_forall_not_mem]
    rintro ⟨id, e⟩ hmem
    have hget := order.mem_iter.mp hmem
    rw [hnone id] at hget
    cases hget
  unfold computeTimeoutMs
  rw [hiter]
  rfl

theorem exists_tracked (h : ¬ ∀ id, m.tracking.get id = none) :
    ∃ id e, m.tracking.get id = some e := by
  rw [not_forall] at h
  have ⟨id, hid⟩ := h
  exact ⟨id, Option.ne_none_iff_exists'.mp hid⟩

theorem PollsNearest.of_fit
    (hfit : ∀ id e, m.tracking.get id = some e → leftMs now e < 2 ^ 31) : PollsNearest now m := by
  have hleast := fun order => isLeast_computeTimeoutMs order hfit
  have hnonneg : ∀ order, (∃ id e, m.tracking.get id = some e) →
      0 ≤ (m.computeTimeoutMs order now).toInt := by
    intro order htracked
    have ⟨id, e, _, heq⟩ := (hleast order htracked).1
    rw [heq]
    omega
  refine ⟨?_, hleast, ?_, ?_, ?_⟩
  · intro order
    refine ⟨fun h => ?_, computeTimeoutMs_idle order⟩
    by_contra hsome
    have hpos := hnonneg order (exists_tracked hsome)
    rw [h] at hpos
    exact absurd hpos (by decide)
  · intro order
    by_cases hnone : ∀ id, m.tracking.get id = none
    · exact Or.inl (computeTimeoutMs_idle order hnone)
    · exact Or.inr (hnonneg order (exists_tracked hnone))
  · intro order id e he
    have hle := (hleast order ⟨id, e, he⟩).2 ⟨id, e, he, rfl⟩
    exact le_trans hle (min_le_left _ _)
  · intro order order'
    by_cases hnone : ∀ id, m.tracking.get id = none
    · rw [computeTimeoutMs_idle order hnone, computeTimeoutMs_idle order' hnone]
    · have htracked := exists_tracked hnone
      exact Int32.toInt_inj.mp ((hleast order htracked).unique (hleast order' htracked))

/-- The poll timeout is the nearest deadline if and only if each deadline is less than `2 ^ 31`
milliseconds away. -/
theorem polls_nearest_iff (hset : SetBefore now m) :
    PollsNearest now m ↔ ∀ id e, m.tracking.get id = some e → leftMs now e < 2 ^ 31 := by
  refine ⟨fun h id e he => ?_, PollsNearest.of_fit⟩
  by_contra hfar
  have hneg := remainingMs_neg (Nat.le_of_not_lt hfar) (hset.leftMs_lt he)
  -- an order in which the far entry comes last
  have ⟨order, l, hl⟩ := IterOrder.exists_last he
  have hend : (m.computeTimeoutMs order now).toInt ≤ -1 := by
    rw [toInt_computeTimeoutMs, remaining, hl, List.map_append]
    exact foldl_keepLeast_le _ hneg
  have ⟨id', e', _, heq⟩ := (h.nearest order ⟨id, e, he⟩).1
  rw [heq] at hend
  omega

/-! ## A timeout of 49 days -/

theorem tracking_single {id : JobId} {e e' : TimeoutEntry}
    (h : (single e).tracking.get id = some e') : e' = e := by
  unfold single at h
  rw [HashMap.get_insert, HashMap.get_empty] at h
  split at h
  · exact (Option.some.inj h).symm
  · cases h

theorem polls_nearest_iff_timed :
    PollsNearest 0 (single ⟨1, .waitingForDeadline, 1000000, 1⟩) := by
  refine (polls_nearest_iff ?_).mpr ?_
  · intro id e he
    rw [tracking_single he]
    exact ⟨0, 1, le_rfl, rfl⟩
  · intro id e he
    rw [tracking_single he]
    decide

/-- The longest timeout is taken for none, and the sleep has no end. -/
theorem long_timeout_forgotten :
    ∃ t m, Run Calls .new t m ∧ (∀ l ∈ t, l.1.clock ≤ 0) ∧
      (∃ id e, m.tracking.get id = some e) ∧ (∀ order, m.computeTimeoutMs order 0 = -1) ∧
      ¬ PollsNearest 0 m := by
  let policy : ExecPolicy := ⟨some 4294967295, 1000, .graceful⟩
  let e : TimeoutEntry := ⟨1, .waitingForDeadline, 4294967295000000, 1000⟩
  have hrun : Run Calls .new
      [(.handle 0 (.admitted 1 0 ⟨[], none, false, false, 0⟩ policy), [.emitLog .info (.submit 1)])]
      (single e) := .single rfl
  have hpoll : ∀ order, (single e).computeTimeoutMs order 0 = -1 := by
    intro order
    unfold computeTimeoutMs single
    rw [order.iter_insert_empty]
    decide
  have htracked : (single e).tracking.get 1 = some e := HashMap.get_insert_self ..
  refine ⟨_, single e, hrun, by decide, ⟨1, e, htracked⟩, hpoll, fun h => ?_⟩
  have hnone := (h.idle default).mp (hpoll default) 1
  rw [htracked] at hnone
  cases hnone

end TimeoutPolicyModule
end CoreShift
