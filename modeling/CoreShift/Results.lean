import CoreShift.JobLimit

/-!
# Results are handed out once

A job's result is stored by the first `Finished` that finds the job, taken by a query, or
evicted by a `Finished` of some job. `Handling` is one action with all that handling it reads;
the history of a job is read off the handlings so far, in whatever order the actions came:
`Standing` says which of the three has happened, and what the results map holds accordingly.
-/

namespace CoreShift

open Utils WorkQueue

variable {σ α : Type} {E : Executor σ α}

/-! ## Eviction -/

namespace ResultModule

/-- The eviction at `now` removes the result `res` of the job `id` from `results`: it is past
its time to live, or among those beyond the limit. -/
def Evicts (order : IterOrder JobId StoredResult) (now : Instant)
    (results : HashMap JobId StoredResult) (id : JobId) : Prop :=
  ∃ res, results.get id = some res ∧
    (ttl < now - res.created ∨
      maxResults < (retainLive now results).len ∧ id ∈ surplus order (retainLive now results))

/-- What eviction does to one result. -/
theorem evictResults_cases (order : IterOrder JobId StoredResult) (now : Instant)
    (state : ExecutionState) (id : JobId) :
    (evictResults order now state).results.get id = state.results.get id ∨
      (evictResults order now state).results.get id = none ∧
        Evicts order now state.results id := by
  cases hres : state.results.get id with
  | none =>
    left
    rcases evictResults_get order now state id with heq | hnone
    · rw [heq, hres]
    · exact hnone
  | some res =>
    have hlive : (retainLive now state.results).get id =
        if now - res.created ≤ ttl then some res else none := by
      rw [retainLive, HashMap.get_retain, hres, Option.filter_some]
      simp
    unfold evictResults
    dsimp only
    by_cases hold : now - res.created ≤ ttl
    · rw [if_pos hold] at hlive
      by_cases hmany : (retainLive now state.results).len > maxResults
      · rw [if_pos hmany, HashMap.get_removeAll]
        by_cases hmem : id ∈ surplus order (retainLive now state.results)
        · rw [if_pos hmem]
          exact Or.inr ⟨rfl, res, hres, Or.inr ⟨hmany, hmem⟩⟩
        · rw [if_neg hmem]
          exact Or.inl hlive
      · rw [if_neg hmany]
        exact Or.inl hlive
    · right
      rw [if_neg hold] at hlive
      refine ⟨?_, res, hres, Or.inl (Nat.lt_of_not_le hold)⟩
      split
      · rw [HashMap.get_removeAll, hlive]
        split <;> rfl
      · exact hlive

end ResultModule

/-! ## Handling one action -/

/-- An action as it is handled: the world before, and what is read from outside. -/
structure Handling (σ α : Type) where
  before : World σ
  action : Action
  amb : Ambient
  ans : α

namespace Handling

/-- The world afterwards. -/
def after (E : Executor σ α) (h : Handling σ α) : World σ :=
  (World.process E h.amb h.ans h.before h.action).1

/-- The follow-ups. -/
def out (E : Executor σ α) (h : Handling σ α) : List Action :=
  (World.process E h.amb h.ans h.before h.action).2.1

def log (E : Executor σ α) (h : Handling σ α) : PopLog :=
  (World.process E h.amb h.ans h.before h.action).2.2

/-- A `Finished` that finds its job in `state.jobs`. -/
def Files (h : Handling σ α) (id : JobId) (result : Except ExecError ExecResult) : Prop :=
  h.action = .finished id result ∧ (h.before.state.jobs.get id).isSome = true

/-- A query of the job that is answered by `result`. -/
def Yields (E : Executor σ α) (h : Handling σ α) (id : JobId) (result : Option ExecOutcome) :
    Prop :=
  h.action = .query id ∧ .queryResult id result ∈ h.out E

/-- The results that a `Finished` leaves to the eviction: its own is stored if it finds its
job. -/
def filed (h : Handling σ α) : HashMap JobId StoredResult :=
  match h.action with
  | .finished id result =>
    match h.before.state.jobs.get id with
    | some job => h.before.state.results.insert id ⟨result, job.owner, h.amb.now⟩
    | none => h.before.state.results
  | _ => h.before.state.results

/-- A `Finished`, of whatever job, at which the result of the job `id` is evicted. -/
def Evicts (h : Handling σ α) (id : JobId) : Prop :=
  h.action.isFinish = true ∧ ResultModule.Evicts h.amb.order h.amb.evictNow h.filed id

theorem reacts (E : Executor σ α) (h : Handling σ α) :
    World.Reacts E h.before h.action (h.log E) (h.out E) (h.after E) :=
  World.process_reacts E h.amb h.ans h.before h.action

end Handling

/-- The steps of a world that handles one action after the other, whatever they are. -/
def World.Handles (E : Executor σ α) (w : World σ) (h : Handling σ α) (w' : World σ) : Prop :=
  h.before = w ∧ h.after E = w'

/-! ## The results afterwards -/

/-- No event changes the results. -/
theorem Dispatcher.dispatchEvent_results (d : Dispatcher) (state : ExecutionState)
    (event : Event) : (d.dispatchEvent state event).state.results = state.results := by
  cases event with
  | processStarted id process io =>
    unfold dispatchEvent LifecycleModule.handleEvent
    dsimp only
    split <;> rfl
  | processSpawnFailed | processExited | jobFdReady => rfl

theorem World.applyEffects_results (E : Executor σ α) (ans : α) (w : World σ)
    (effs : List Effect) :
    (applyEffects E ans w effs).world.state.results = w.state.results := by
  induction effs generalizing w with
  | nil => rfl
  | cons e effs ih =>
    unfold applyEffects
    dsimp only
    split
    · exact ih _
    · exact (ih _).trans (Dispatcher.dispatchEvent_results ..)

/-- Only `dispatch` changes the results. -/
theorem Handling.after_results (h : Handling σ α) : (h.after E).state.results =
    (h.before.dispatcher.dispatch h.amb h.before.state h.action).state.results :=
  World.applyEffects_results E h.ans _ _

namespace Handling

variable (h : Handling σ α) (id : JobId)

theorem after_query (hq : h.action = .query id) : (h.after E).state.results.get id = none := by
  rw [after_results, hq]
  show (ResultModule.handle _ _ _ _ (.query id)).1.results.get id = none
  unfold ResultModule.handle
  dsimp only
  split
  · exact HashMap.get_remove_self _ _
  · assumption

/-- Apart from a query of the job and a `Finished`, no action touches its result. -/
theorem after_other (hf : h.action.isFinish = false) (hq : h.action ≠ .query id) :
    (h.after E).state.results.get id = h.before.state.results.get id := by
  rw [after_results]
  cases ha : h.action with
  | finished => rw [ha] at hf; cases hf
  | query i =>
    show (ResultModule.handle _ _ _ _ (.query i)).1.results.get id = _
    unfold ResultModule.handle
    dsimp only
    have hne : id ≠ i := fun heq => hq (heq ▸ ha)
    split
    · exact HashMap.get_remove_ne _ hne
    · rfl
  | signalProcess i signal =>
    show (LifecycleModule.handle _ (.signalProcess i signal)).1.results.get id = _
    unfold LifecycleModule.handle
    dsimp only
    split
    · split <;> rfl
    · rfl
  | _ => rfl

/-- A `Finished` leaves the result of the job as it is filed, or evicts it. -/
theorem after_finish (hf : h.action.isFinish = true) :
    (h.after E).state.results.get id = h.filed.get id ∨
      (h.after E).state.results.get id = none ∧ h.Evicts id := by
  rw [after_results]
  unfold Evicts
  rw [hf]
  cases ha : h.action with
  | finished i result =>
    show (ResultModule.handle _ _ _ _ (.finished i result)).1.results.get id = _ ∨
      (ResultModule.handle _ _ _ _ (.finished i result)).1.results.get id = none ∧ _
    unfold ResultModule.handle filed
    rw [ha]
    dsimp only
    cases hjob : h.before.state.jobs.get i with
    | none =>
      rcases ResultModule.evictResults_cases h.amb.order h.amb.evictNow h.before.state id with
        heq | hev
      · exact Or.inl heq
      · exact Or.inr ⟨hev.1, rfl, hev.2⟩
    | some job =>
      rcases ResultModule.evictResults_cases h.amb.order h.amb.evictNow
        { h.before.state with
          jobs := h.before.state.jobs.remove i
          results := h.before.state.results.insert i ⟨result, job.owner, h.amb.now⟩ } id with
        heq | hev
      · exact Or.inl heq
      · exact Or.inr ⟨hev.1, rfl, hev.2⟩
  | _ => rw [ha] at hf; cases hf

/-- What a `Finished` files for the job. -/
theorem filed_cases (hf : h.action.isFinish = true) :
    (∃ result job, h.Files id result ∧ h.before.state.jobs.get id = some job ∧
      h.filed.get id = some ⟨result, job.owner, h.amb.now⟩) ∨
    (∀ result, ¬ h.Files id result) ∧ h.filed.get id = h.before.state.results.get id := by
  unfold Files filed
  cases ha : h.action with
  | finished i result =>
    dsimp only
    by_cases hid : i = id
    · rw [hid]
      cases hjob : h.before.state.jobs.get id with
      | none => exact Or.inr ⟨fun _ hfile => (by cases hfile.2), rfl⟩
      | some job =>
        exact Or.inl ⟨result, job, ⟨rfl, rfl⟩, rfl, HashMap.get_insert_self _ _ _⟩
    · right
      refine ⟨fun r hfile => ?_, ?_⟩
      · cases hfile.1
        exact hid rfl
      · split
        · exact HashMap.get_insert_ne _ _ (Ne.symm hid)
        · rfl
  | _ => rw [ha] at hf; cases hf

/-- A query yields the stored result. -/
theorem yields_iff (result : Option ExecOutcome) (hq : h.action = .query id) :
    h.Yields E id result ↔
      result = (h.before.state.results.get id).map fun res => ⟨id, res.result⟩ := by
  have hout : h.out E = [.queryResult id
      ((h.before.state.results.get id).map fun res => ⟨id, res.result⟩)] := by
    rw [(h.reacts E).out_eq, hq]
    show (JobView.onQuery (h.before.view id) id).out = _
    have hstored : (h.before.view id).stored = h.before.state.results.get id := rfl
    unfold JobView.onQuery
    rw [hstored]
    cases h.before.state.results.get id <;> rfl
  unfold Yields
  rw [hout, List.mem_singleton, Action.queryResult.injEq]
  exact ⟨fun hy => hy.2.2, fun hr => ⟨hq, rfl, hr⟩⟩

theorem after_job_finish (hf : h.action.isFinish = true) (hid : h.action.jobId = id) :
    (h.after E).state.jobs.get id = none := by
  have hr := h.reacts E
  have hjob := hr.own.job
  have hout := hr.outcome
  rw [hid] at hjob hout
  exact hjob.trans (hout.job_gone hf)

/-- Apart from its own admission and its own `Finished`, no action changes whether the job is
there. -/
theorem after_job (hf : h.action.isFinish = true → h.action.jobId ≠ id)
    (ha : h.action.isAdmission = true → h.action.jobId ≠ id) :
    ((h.after E).state.jobs.get id).isSome = (h.before.state.jobs.get id).isSome := by
  have hr := h.reacts E
  by_cases hid : h.action.jobId = id
  · have hfin : h.action.isFinish = false := Bool.eq_false_iff.mpr fun hf' => hf hf' hid
    have hadm : h.action.isAdmission = false := Bool.eq_false_iff.mpr fun ha' => ha ha' hid
    have hsome := hr.outcome.job_isSome hfin hadm
    rw [← hr.own.job, hid] at hsome
    exact hsome
  · have hjob := (hr.others id (Ne.symm hid)).job
    exact congrArg Option.isSome hjob

end Handling

/-- The handlings of some actions, one after the other, under the same clock and answers. -/
def Handling.chain (E : Executor σ α) (amb : Ambient) (ans : α) (w : World σ) :
    List Action → List (Handling σ α) × World σ
  | [] => ([], w)
  | a :: as =>
    let h : Handling σ α := ⟨w, a, amb, ans⟩
    let rest := chain E amb ans (h.after E) as
    (h :: rest.1, rest.2)

theorem Handling.chain_run (E : Executor σ α) (amb : Ambient) (ans : α) (w : World σ)
    (as : List Action) :
    Run (World.Handles E) w (chain E amb ans w as).1 (chain E amb ans w as).2 := by
  induction as generalizing w with
  | nil => exact .nil w
  | cons a as ih => exact .cons ⟨rfl, rfl⟩ (ih _)

/-! ## The history of a result -/

/-- The number of admissions of the job. -/
def admissions (id : JobId) (t : List (Handling σ α)) : ℕ :=
  t.countP fun h => h.action.isAdmission && h.action.jobId == id

/-- The result of the first `Finished` that found the job. -/
def FiledFirst (id : JobId) (t : List (Handling σ α)) (result : Except ExecError ExecResult) :
    Prop :=
  ∃ t₁ h t₂, t = t₁ ++ h :: t₂ ∧ h.Files id result ∧ ∀ p ∈ t₁, ∀ r, ¬ p.Files id r

/-- The query hands a result of the job out. -/
def Handling.HandsOut (E : Executor σ α) (id : JobId) (h : Handling σ α) : Prop :=
  ∃ outcome, h.Yields E id (some outcome)

/-- Where the result of a job stands after some actions: it is not filed yet; or it was filed
by the first `Finished` that found the job, and is stored, handed out or evicted. -/
structure Standing (E : Executor σ α) (id : JobId) (t : List (Handling σ α)) (w : World σ) :
    Prop where
  admitted : (w.state.jobs.get id).isSome = true → 1 ≤ admissions id t
  once : t.Pairwise fun p q => ¬ (p.HandsOut E id ∧ q.HandsOut E id)
  phase : ((∀ p ∈ t, ∀ r, ¬ p.Files id r) ∧ w.state.results.get id = none ∧
      ∀ p ∈ t, ¬ p.HandsOut E id) ∨
    ∃ result, FiledFirst id t result ∧ w.state.jobs.get id = none ∧ 1 ≤ admissions id t ∧
      ((∃ res, w.state.results.get id = some res ∧ res.result = result ∧
          ∀ p ∈ t, ¬ p.HandsOut E id) ∨
        w.state.results.get id = none ∧
          ((∃ p ∈ t, p.HandsOut E id) ∨ ∃ p ∈ t, p.Evicts id))

theorem FiledFirst.append {id : JobId} {t u : List (Handling σ α)}
    {result : Except ExecError ExecResult} (h : FiledFirst id t result) :
    FiledFirst id (t ++ u) result := by
  rcases h with ⟨t₁, p, t₂, rfl, hp, hfirst⟩
  exact ⟨t₁, p, t₂ ++ u, by simp, hp, hfirst⟩

theorem admissions_append (id : JobId) (t u : List (Handling σ α)) :
    admissions id (t ++ u) = admissions id t + admissions id u :=
  List.countP_append ..

namespace Standing

variable {id : JobId} {t : List (Handling σ α)} {h : Handling σ α}

/-- A query that hands the result out finds it stored. -/
theorem handsOut_iff : h.HandsOut E id ↔
    h.action = .query id ∧ (h.before.state.results.get id).isSome = true := by
  constructor
  · rintro ⟨outcome, hy⟩
    refine ⟨hy.1, ?_⟩
    have hres := (h.yields_iff id _ hy.1).mp hy
    cases hget : h.before.state.results.get id with
    | none => rw [hget] at hres; cases hres
    | some res => rfl
  · rintro ⟨hq, hsome⟩
    rcases Option.isSome_iff_exists.mp hsome with ⟨res, hget⟩
    refine ⟨⟨id, res.result⟩, (h.yields_iff id _ hq).mpr ?_⟩
    rw [hget]
    rfl

/-- What has been handed out, or never will be, is not handed out again. -/
theorem once_snoc (hs : Standing E id t h.before) :
    (t ++ [h]).Pairwise fun p q => ¬ (p.HandsOut E id ∧ q.HandsOut E id) := by
  rw [List.pairwise_append]
  refine ⟨hs.once, List.pairwise_singleton _ _, ?_⟩
  intro p hp q hq
  rw [List.mem_singleton] at hq
  rw [hq]
  rintro ⟨hp', hh⟩
  have hsome := (handsOut_iff.mp hh).2
  rcases hs.phase with ⟨-, -, hno⟩ | ⟨r, -, -, -, ⟨res, -, -, hno⟩ | ⟨hnone, -⟩⟩
  · exact hno p hp hp'
  · exact hno p hp hp'
  · rw [hnone] at hsome
    cases hsome

/-- Without a `Finished` that finds the job, no result appears. -/
theorem after_none (hnone : h.before.state.results.get id = none)
    (hfile : ∀ result, ¬ h.Files id result) : (h.after E).state.results.get id = none := by
  by_cases hf : h.action.isFinish = true
  · rcases h.filed_cases id hf with ⟨r, _, hr, -⟩ | ⟨-, heq⟩
    · exact absurd hr (hfile r)
    · rcases h.after_finish (E := E) id hf with hstay | ⟨hgone, -⟩
      · rw [hstay, heq, hnone]
      · exact hgone
  · by_cases hq : h.action = .query id
    · exact h.after_query id hq
    · rw [h.after_other id (Bool.eq_false_iff.mpr hf) hq, hnone]

/-- A query is no `Finished`. -/
theorem not_handsOut (hf : h.action.isFinish = true) : ¬ h.HandsOut E id := by
  intro hh
  rw [(handsOut_iff.mp hh).1] at hf
  cases hf

/-- The first `Finished` that finds the job files its result. -/
theorem snoc_files {result : Except ExecError ExecResult}
    (hfile : h.Files id result) (hopen : ∀ p ∈ t, ∀ r, ¬ p.Files id r)
    (hhands : ∀ p ∈ t, ¬ p.HandsOut E id) :
    FiledFirst id (t ++ [h]) result ∧ (h.after E).state.jobs.get id = none ∧
      ((∃ res, (h.after E).state.results.get id = some res ∧ res.result = result ∧
          ∀ p ∈ t ++ [h], ¬ p.HandsOut E id) ∨
        (h.after E).state.results.get id = none ∧
          ((∃ p ∈ t ++ [h], p.HandsOut E id) ∨ ∃ p ∈ t ++ [h], p.Evicts id)) := by
  have hf : h.action.isFinish = true := by rw [hfile.1]; rfl
  have hid : h.action.jobId = id := by rw [hfile.1]; rfl
  refine ⟨⟨t, h, [], rfl, hfile, hopen⟩, h.after_job_finish id hf hid, ?_⟩
  rcases h.filed_cases id hf with ⟨r, job, hr, -, hfiled⟩ | ⟨hno, -⟩
  · rcases h.after_finish (E := E) id hf with hstay | ⟨hgone, hev⟩
    · left
      refine ⟨_, hstay.trans hfiled, ?_, ?_⟩
      · have heq := hr.1.symm.trans hfile.1
        cases heq
        rfl
      · intro p hp
        rcases List.mem_append.mp hp with hp | hp
        · exact hhands p hp
        · rw [List.mem_singleton.mp hp]
          exact not_handsOut hf
    · exact Or.inr ⟨hgone, Or.inr ⟨h, List.mem_append_right _ List.mem_cons_self, hev⟩⟩
  · exact absurd hfile (hno _)

theorem admissions_singleton (ha : h.action.isAdmission = true) (hid : h.action.jobId = id) :
    admissions id [h] = 1 := by
  unfold admissions
  rw [List.countP_cons_of_pos (by simp [ha, hid])]
  rfl

/-- A job is there since its admission. -/
theorem admitted_snoc (hs : Standing E id t h.before)
    (hjob : ((h.after E).state.jobs.get id).isSome = true) : 1 ≤ admissions id (t ++ [h]) := by
  rw [admissions_append]
  by_cases ha : h.action.isAdmission = true ∧ h.action.jobId = id
  · rw [admissions_singleton ha.1 ha.2]
    omega
  · by_cases hf : h.action.isFinish = true ∧ h.action.jobId = id
    · rw [h.after_job_finish id hf.1 hf.2] at hjob
      cases hjob
    · rw [h.after_job id (fun h1 h2 => hf ⟨h1, h2⟩) (fun h1 h2 => ha ⟨h1, h2⟩)] at hjob
      have := hs.admitted hjob
      omega

/-- A job that is gone stays away if it is not admitted again. -/
theorem job_stays_gone (hjob : h.before.state.jobs.get id = none) (hadm : admissions id [h] = 0) :
    (h.after E).state.jobs.get id = none := by
  by_cases hf : h.action.isFinish = true ∧ h.action.jobId = id
  · exact h.after_job_finish id hf.1 hf.2
  · have hsame := h.after_job (E := E) id (fun h1 h2 => hf ⟨h1, h2⟩) (fun h1 h2 => by
      rw [admissions_singleton h1 h2] at hadm
      omega)
    rw [hjob] at hsame
    exact Option.isNone_iff_eq_none.mp (Option.isSome_eq_false_iff.mp hsame)

/-- A stored result stays as it is, is handed out by a query or is evicted by a `Finished`. -/
theorem stored_cases {res : StoredResult} (hres : h.before.state.results.get id = some res)
    (hno : ∀ r, ¬ h.Files id r) :
    (h.after E).state.results.get id = some res ∧ ¬ h.HandsOut E id ∨
      (h.after E).state.results.get id = none ∧ (h.HandsOut E id ∨ h.Evicts id) := by
  by_cases hq : h.action = .query id
  · have hh : h.HandsOut E id := handsOut_iff.mpr ⟨hq, by rw [hres]; rfl⟩
    exact Or.inr ⟨h.after_query id hq, Or.inl hh⟩
  · have hnot : ¬ h.HandsOut E id := fun hh => hq (handsOut_iff.mp hh).1
    by_cases hf : h.action.isFinish = true
    · rcases h.filed_cases id hf with ⟨r', _, hr', -⟩ | ⟨-, heq⟩
      · exact absurd hr' (hno r')
      · rcases h.after_finish (E := E) id hf with hstay | ⟨hgone, hev⟩
        · exact Or.inl ⟨by rw [hstay, heq, hres], hnot⟩
        · exact Or.inr ⟨hgone, Or.inr hev⟩
    · have hstay := h.after_other (E := E) id (Bool.eq_false_iff.mpr hf) hq
      exact Or.inl ⟨by rw [hstay, hres], hnot⟩

/-- The step lemma. -/
theorem snoc (hs : Standing E id t h.before) (hadm : admissions id (t ++ [h]) ≤ 1) :
    Standing E id (t ++ [h]) (h.after E) := by
  refine ⟨admitted_snoc hs, once_snoc hs, ?_⟩
  have hgrow : ∀ {P : Handling σ α → Prop}, (∃ p ∈ t, P p) → ∃ p ∈ t ++ [h], P p := by
    intro P hP
    rcases hP with ⟨p, hp, hPp⟩
    exact ⟨p, List.mem_append_left _ hp, hPp⟩
  have hlast : ∀ {P : Handling σ α → Prop}, P h → ∃ p ∈ t ++ [h], P p := fun hh =>
    ⟨h, List.mem_append_right _ List.mem_cons_self, hh⟩
  have hall : ∀ {P : Handling σ α → Prop}, (∀ p ∈ t, P p) → P h → ∀ p ∈ t ++ [h], P p := by
    intro P hP hh p hp
    rcases List.mem_append.mp hp with hp | hp
    · exact hP p hp
    · rw [List.mem_singleton.mp hp]
      exact hh
  rw [admissions_append] at hadm ⊢
  rcases hs.phase with ⟨hopen, hnone, hhands⟩ | ⟨r, hfirst, hjob, hadm₁, hphase⟩
  · by_cases hfile : ∃ r, h.Files id r
    · rcases hfile with ⟨r, hfile⟩
      have hthere := hs.admitted hfile.2
      rcases snoc_files hfile hopen hhands with ⟨hfirst, hjob, hphase⟩
      exact Or.inr ⟨r, hfirst, hjob, by omega, hphase⟩
    · left
      have hno : ∀ r, ¬ h.Files id r := fun r hr => hfile ⟨r, hr⟩
      refine ⟨hall hopen hno, after_none hnone hno, hall hhands ?_⟩
      intro hh
      have hsome := (handsOut_iff.mp hh).2
      rw [hnone] at hsome
      cases hsome
  · right
    have hno : ∀ r, ¬ h.Files id r := by
      intro r hr
      have hsome := hr.2
      rw [hjob] at hsome
      cases hsome
    -- a second admission is excluded
    refine ⟨r, hfirst.append, job_stays_gone hjob (by omega), by omega, ?_⟩
    rcases hphase with ⟨res, hres, hr, hhands⟩ | ⟨hnone, hwhy⟩
    · rcases stored_cases (E := E) hres hno with ⟨hstay, hnot⟩ | ⟨hgone, hh | hev⟩
      · exact Or.inl ⟨res, hstay, hr, hall hhands hnot⟩
      · exact Or.inr ⟨hgone, Or.inl (hlast hh)⟩
      · exact Or.inr ⟨hgone, Or.inr (hlast hev)⟩
    · refine Or.inr ⟨after_none hnone hno, ?_⟩
      rcases hwhy with hh | hev
      · exact Or.inl (hgrow hh)
      · exact Or.inr (hgrow hev)

/-- The run lemma: from an empty state, whatever is handled. -/
theorem run {maxJobs : ℕ} {x : σ} {w : World σ}
    (hrun : Run (World.Handles E) ⟨.new maxJobs, .new, x⟩ t w) (hadm : admissions id t ≤ 1) :
    Standing E id t w := by
  let inv : List (Handling σ α) → World σ → Prop := fun t w =>
    admissions id t ≤ 1 → Standing E id t w
  have hinit : inv [] ⟨.new maxJobs, .new, x⟩ := by
    intro _
    refine ⟨fun hjob => ?_, List.Pairwise.nil, Or.inl ⟨?_, rfl, ?_⟩⟩
    · cases hjob
    · exact fun p hp => absurd hp List.not_mem_nil
    · exact fun p hp => absurd hp List.not_mem_nil
  have hstep : ∀ past w h w', inv past w → World.Handles E w h w' → inv (past ++ [h]) w' := by
    intro past w h w' hpast hh hle
    have hcount := admissions_append id past [h]
    rw [← hh.2]
    refine snoc ?_ hle
    rw [hh.1]
    exact hpast (by omega)
  have hinv : inv t w := hrun.invariant_trace [] hstep hinit
  exact hinv hadm

/-- Before each of the actions of a run. -/
theorem before {maxJobs : ℕ} {x : σ} {w : World σ} {u : List (Handling σ α)}
    (hrun : Run (World.Handles E) ⟨.new maxJobs, .new, x⟩ (t ++ h :: u) w)
    (hadm : admissions id (t ++ h :: u) ≤ 1) : Standing E id t h.before := by
  rcases Run.append_iff.mp hrun with ⟨w₁, hrun₁, hrest⟩
  rcases Run.cons_iff.mp hrest with ⟨w₂, hstep, -⟩
  have hcount := admissions_append id t (h :: u)
  rw [hstep.1]
  exact run hrun₁ (by omega)

end Standing

/-- Whatever is handled in whatever order, as long as the job is admitted at most once: at most
one query hands its result out; what a query hands out is the result of the first `Finished`
that found the job, under the job's id; and a query that yields nothing comes before any such
`Finished`, or after the result was handed out or evicted. -/
theorem results_handed_out_once {maxJobs : ℕ} {x : σ} {t : List (Handling σ α)} {w : World σ}
    {id : JobId} (hrun : Run (World.Handles E) ⟨.new maxJobs, .new, x⟩ t w)
    (hadm : admissions id t ≤ 1) :
    (t.Pairwise fun p q => ¬ (p.HandsOut E id ∧ q.HandsOut E id)) ∧
    (∀ t₁ q t₂ outcome, t = t₁ ++ q :: t₂ → q.Yields E id (some outcome) →
      outcome.id = id ∧ FiledFirst id t₁ outcome.result) ∧
    ∀ t₁ q t₂, t = t₁ ++ q :: t₂ → q.Yields E id none →
      (∀ p ∈ t₁, ∀ r, ¬ p.Files id r) ∨ (∃ p ∈ t₁, p.HandsOut E id) ∨
        ∃ p ∈ t₁, p.Evicts id := by
  refine ⟨(Standing.run hrun hadm).once, ?_, ?_⟩
  · intro t₁ q t₂ outcome ht hy
    rw [ht] at hrun hadm
    have hs := Standing.before hrun hadm
    have hres := (q.yields_iff id _ hy.1).mp hy
    cases hget : q.before.state.results.get id with
    | none =>
      rw [hget] at hres
      cases hres
    | some res =>
      rw [hget] at hres
      cases hres
      rcases hs.phase with ⟨-, hnone, -⟩ | ⟨r, hfirst, -, -, ⟨res', hres', hr, -⟩ | ⟨hnone, -⟩⟩
      · rw [hnone] at hget; cases hget
      · rw [hres', Option.some.injEq] at hget
        rw [← hget]
        refine ⟨rfl, ?_⟩
        show FiledFirst id t₁ res'.result
        rwa [hr]
      · rw [hnone] at hget; cases hget
  · intro t₁ q t₂ ht hy
    rw [ht] at hrun hadm
    have hs := Standing.before hrun hadm
    have hres := (q.yields_iff id _ hy.1).mp hy
    have hnone : q.before.state.results.get id = none := Option.map_eq_none_iff.mp hres.symm
    rcases hs.phase with ⟨hopen, -⟩ | ⟨r, -, -, -, ⟨res, hres', -⟩ | ⟨-, hwhy⟩⟩
    · exact Or.inl hopen
    · rw [hnone] at hres'; cases hres'
    · exact Or.inr hwhy

namespace EffectExecutor

/-- A job finishes twice, and its result is asked for twice. -/
noncomputable def askedTwice : List (Handling EffectExecutor OsAnswer) × World EffectExecutor :=
  Handling.chain executor (.still 0) (.started 100) ⟨.new 64, .new, .new⟩
    [.admitted 1 0 .bare (.graceful none), .finished 1 (.ok ⟨some 3, [], [], false⟩),
      .finished 1 (.error .runtimeError), .query 1, .query 1]

theorem results_handed_out_once_askedTwice :
    (askedTwice.1.Pairwise fun p q => ¬ (p.HandsOut executor 1 ∧ q.HandsOut executor 1)) ∧
    ∃ t₁ q t₂ outcome, askedTwice.1 = t₁ ++ q :: t₂ ∧ q.Yields executor 1 (some outcome) ∧
      FiledFirst 1 t₁ outcome.result := by
  have hrun : Run (World.Handles executor) ⟨.new 64, .new, .new⟩ askedTwice.1 askedTwice.2 :=
    Handling.chain_run executor _ _ _ _
  have hadm : admissions 1 askedTwice.1 ≤ 1 := by decide
  have honce := results_handed_out_once hrun hadm
  refine ⟨honce.1, askedTwice.1.take 3, askedTwice.1[3], askedTwice.1.drop 4,
    ⟨1, .ok ⟨some 3, [], [], false⟩⟩, rfl, ⟨rfl, by decide⟩, ?_⟩
  exact (honce.2.1 _ _ _ _ rfl ⟨rfl, by decide⟩).2

end EffectExecutor
end CoreShift
