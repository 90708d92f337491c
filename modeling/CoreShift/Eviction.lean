import CoreShift.Core.Modules
import CoreShift.Utils.Ranking

/-!
# What an eviction keeps

`ResultModule::evict_results` drops the results past their time to live and then, while there
are more than a thousand, the oldest ones. Whatever the order in which the map is iterated, and
however the sort decides between results of one age, the newest live results are kept.
-/

namespace CoreShift

open Utils

namespace ResultModule

/-- The ids of the results that are at most 300 seconds old. -/
def youngIds (now : Instant) (results : HashMap JobId StoredResult) : Finset JobId :=
  results.keys.filter fun id =>
    (results.get id).any fun res => now - res.created ≤ 300 * 1000000000

variable {order : IterOrder JobId StoredResult} {now : Instant}
  {results live : HashMap JobId StoredResult} {id id' : JobId} {res res' : StoredResult}

/-! ## The results within their time to live -/

theorem get_retainLive : (retainLive now results).get id = some res ↔
    results.get id = some res ∧ now - res.created ≤ ttl := by
  rw [retainLive, HashMap.get_retain, Option.filter_eq_some_iff, decide_eq_true_eq]

theorem mem_youngIds :
    id ∈ youngIds now results ↔ ∃ res, results.get id = some res ∧ now - res.created ≤ ttl := by
  unfold youngIds
  rw [Finset.mem_filter, HashMap.mem_keys]
  constructor
  · rintro ⟨⟨res, hres⟩, hyoung⟩
    rw [hres, Option.any_some, decide_eq_true_eq] at hyoung
    exact ⟨res, hres, hyoung⟩
  · rintro ⟨res, hres, hyoung⟩
    refine ⟨⟨res, hres⟩, ?_⟩
    rw [hres, Option.any_some, decide_eq_true_eq]
    exact hyoung

theorem keys_retainLive (now : Instant) (results : HashMap JobId StoredResult) :
    (retainLive now results).keys = youngIds now results := by
  ext id
  rw [HashMap.mem_keys, mem_youngIds]
  exact exists_congr fun res => get_retainLive

theorem len_retainLive (now : Instant) (results : HashMap JobId StoredResult) :
    (retainLive now results).len = (youngIds now results).card := by
  rw [HashMap.len, keys_retainLive]

/-! ## The oldest of them -/

/-- The ids of a map with the moments their results were stored, in the order of iteration. -/
def stamps (order : IterOrder JobId StoredResult) (live : HashMap JobId StoredResult) :
    List (JobId × Instant) :=
  (order.iter live).map fun e => (e.1, e.2.created)

theorem surplus_eq (order : IterOrder JobId StoredResult) (live : HashMap JobId StoredResult) :
    surplus order live =
      (lowest Prod.snd (live.len - maxResults) (stamps order live)).map Prod.fst := rfl

theorem mem_stamps {t : Instant} :
    (id, t) ∈ stamps order live ↔ ∃ res, live.get id = some res ∧ res.created = t := by
  unfold stamps
  rw [List.mem_map]
  constructor
  · rintro ⟨⟨j, res⟩, hmem, heq⟩
    rw [Prod.mk.injEq] at heq
    rw [← heq.1]
    exact ⟨res, order.mem_iter.mp hmem, heq.2⟩
  · rintro ⟨res, hres, rfl⟩
    exact ⟨(id, res), order.mem_iter.mpr hres, rfl⟩

theorem length_stamps (order : IterOrder JobId StoredResult)
    (live : HashMap JobId StoredResult) : (stamps order live).length = live.len := by
  rw [stamps, List.length_map, order.length_iter]

/-- Each id has one stamp. -/
theorem nodup_stamps (order : IterOrder JobId StoredResult)
    (live : HashMap JobId StoredResult) : ((stamps order live).map Prod.fst).Nodup := by
  rw [stamps, List.map_map]
  exact order.nodup_keys live

theorem length_surplus (order : IterOrder JobId StoredResult)
    (live : HashMap JobId StoredResult) :
    (surplus order live).length = live.len - maxResults := by
  rw [surplus_eq, List.length_map, length_lowest, length_stamps]
  omega

theorem mem_surplus (h : live.get id = some res) :
    id ∈ surplus order live ↔
      (id, res.created) ∈ lowest Prod.snd (live.len - maxResults) (stamps order live) := by
  rw [surplus_eq, List.mem_map]
  constructor
  · rintro ⟨⟨j, t⟩, hmem, hj⟩
    have hstamp := mem_stamps.mp (lowest_subset _ _ _ hmem)
    have ⟨res', hres', ht⟩ := hstamp
    dsimp only at hj
    rw [hj, h, Option.some.injEq] at hres'
    rw [hres', ht, ← hj]
    exact hmem
  · exact fun hmem => ⟨_, hmem, rfl⟩

/-- The map without its surplus. -/
theorem len_removeAll_surplus (order : IterOrder JobId StoredResult) (h : maxResults ≤ live.len) :
    (live.removeAll (surplus order live)).len = maxResults := by
  have hnodup : (surplus order live).Nodup := by
    rw [surplus_eq]
    exact nodup_map_lowest (nodup_stamps order live)
  have hkeys : ∀ id ∈ surplus order live, id ∈ live.keys := by
    intro id hid
    have ⟨⟨j, t⟩, hmem, hj⟩ := List.mem_map.mp hid
    have ⟨res, hres, _⟩ := mem_stamps.mp (lowest_subset _ _ _ hmem)
    exact HashMap.mem_keys.mpr ⟨res, hj ▸ hres⟩
  have hlen := HashMap.len_removeAll hnodup hkeys
  rw [length_surplus] at hlen
  omega

/-- A result in the surplus is no newer than one outside. -/
theorem created_le_of_surplus (h : live.get id = some res) (h' : live.get id' = some res')
    (hin : id ∈ surplus order live) (hout : id' ∉ surplus order live) :
    res.created ≤ res'.created := by
  rw [mem_surplus h] at hin
  rw [mem_surplus h'] at hout
  have hstamp : (id', res'.created) ∈ stamps order live := mem_stamps.mpr ⟨res', h', rfl⟩
  have hle := rank_le_of_lowest hin hstamp hout
  exact hle

/-! ## The eviction -/

/-- A result that is kept is a live one that is not in the surplus, if there is one. -/
theorem get_evictResults {state : ExecutionState} :
    (evictResults order now state).results.get id = some res ↔
      (retainLive now state.results).get id = some res ∧
        (maxResults < (retainLive now state.results).len →
          id ∉ surplus order (retainLive now state.results)) := by
  unfold evictResults
  dsimp only
  by_cases hmany : maxResults < (retainLive now state.results).len
  · rw [if_pos hmany, HashMap.get_removeAll]
    by_cases hmem : id ∈ surplus order (retainLive now state.results)
    · rw [if_pos hmem]
      exact ⟨fun h => (Option.some_ne_none _ h.symm).elim, fun h => absurd hmem (h.2 hmany)⟩
    · rw [if_neg hmem]
      exact ⟨fun h => ⟨h, fun _ => hmem⟩, fun h => h.1⟩
  · rw [if_neg hmany]
    exact ⟨fun h => ⟨h, fun hlt => absurd hlt hmany⟩, fun h => h.1⟩

theorem len_evictResults (order : IterOrder JobId StoredResult) (now : Instant)
    (state : ExecutionState) :
    (evictResults order now state).results.len =
      min (youngIds now state.results).card maxResults := by
  rw [← len_retainLive]
  unfold evictResults
  dsimp only
  by_cases hmany : maxResults < (retainLive now state.results).len
  · rw [if_pos hmany, len_removeAll_surplus order (le_of_lt hmany)]
    omega
  · rw [if_neg hmany]
    omega

end ResultModule

open ResultModule

/-- An eviction keeps the newest live results, a thousand at most, and changes none. -/
theorem evict_results_keeps_newest (order : IterOrder JobId StoredResult) (now : Instant)
    (state : ExecutionState) :
    let old := state.results
    let kept := (evictResults order now state).results
    (∀ id res, kept.get id = some res → old.get id = some res) ∧
      kept.len ≤ 1000 ∧
      (∀ id res, kept.get id = some res → now - res.created ≤ 300 * 1000000000) ∧
      ((youngIds now old).card ≤ 1000 → ∀ id ∈ youngIds now old, kept.get id = old.get id) ∧
      (1000 < (youngIds now old).card →
        kept.len = 1000 ∧
          ∀ id res id' res', kept.get id = some res → id' ∈ youngIds now old →
            old.get id' = some res' → kept.get id' = none → res'.created ≤ res.created) := by
  intro old kept
  have hlen : kept.len = min (youngIds now old).card 1000 := len_evictResults order now state
  refine ⟨?_, ?_, ?_, ?_, ?_⟩
  · intro id res h
    exact (get_retainLive.mp (get_evictResults.mp h).1).1
  · omega
  · intro id res h
    exact (get_retainLive.mp (get_evictResults.mp h).1).2
  · intro hfew id hid
    have ⟨res, hres, hyoung⟩ := mem_youngIds.mp hid
    rw [← len_retainLive] at hfew
    rw [hres]
    exact get_evictResults.mpr ⟨get_retainLive.mpr ⟨hres, hyoung⟩,
      fun hmany => absurd hfew (Nat.not_le_of_lt hmany)⟩
  · intro hmany
    refine ⟨by omega, ?_⟩
    intro id res id' res' hkept hid' hres' hgone
    rw [← len_retainLive] at hmany
    have ⟨hlive, hout⟩ := get_evictResults.mp hkept
    have ⟨_, hget, hyoung⟩ := mem_youngIds.mp hid'
    rw [hres', Option.some.injEq] at hget
    rw [← hget] at hyoung
    have hlive' := get_retainLive.mpr ⟨hres', hyoung⟩
    -- a live result that is gone was in the surplus
    have hin : id' ∈ surplus order (retainLive now state.results) := by
      by_contra hno
      rw [get_evictResults.mpr ⟨hlive', fun _ => hno⟩] at hgone
      cases hgone
    exact created_le_of_surplus hlive' hlive hin (hout hmany)

end CoreShift
