import CoreShift.Core.Policy
import CoreShift.Utils.Runs

/-!
# The timer module over its calls

`TimeoutPolicyModule` as a machine of its own: `handle` is called with actions, `handle_event`
with readings of the clock. `Watch` is what the calls so far say about a job that was admitted
with a timeout, and the module's entry for the job is read off it.

An entry that has fired its kill deadline stays as it is, so that each later `handle_event` fires
it again.
-/

namespace CoreShift

open Utils

namespace TimeoutPolicyModule

/-! ## Calls -/

/-- A call of the module, with the reading of the clock. -/
inductive Call
  | handle (now : Instant) (action : Action)
  | handleEvent (now : Instant) (order : IterOrder JobId TimeoutEntry)

def call (m : TimeoutPolicyModule) : Call → TimeoutPolicyModule × List Action
  | .handle now action => m.handle now action
  | .handleEvent now order => m.handleEvent order now

/-- A call and what it answers. -/
def Calls (m : TimeoutPolicyModule) (l : Call × List Action) (m' : TimeoutPolicyModule) : Prop :=
  m.call l.1 = (m', l.2)

/-- What a `handle_event` reads from the clock. -/
def Call.reading : Call → Option Instant
  | .handleEvent now _ => some now
  | .handle _ _ => none

/-! ## What a job is to get -/

/-- A job that was admitted with a timeout: its deadline, its grace, and the clock at the
`handle_event`s since then. -/
structure Watch where
  deadline : Instant
  killGraceMs : UInt32
  readings : List Instant

namespace Watch

/-- The readings from the first one at or after the deadline on. -/
def past (w : Watch) : List Instant := w.readings.dropWhile fun r => r < w.deadline

/-- The kill deadline, for the reading that was past the deadline. -/
def killDeadline (w : Watch) (reached : Instant) : Instant :=
  reached + durationFromMillis w.killGraceMs.toNat

/-- A `handle_event` at `now` is the first one at or after the deadline. -/
def timeoutDue (w : Watch) (now : Instant) : Bool := w.past.isEmpty && w.deadline ≤ now

/-- A `handle_event` at `now` is the first one at or after the kill deadline. -/
def killDue (w : Watch) (now : Instant) : Bool :=
  match w.past with
  | [] => false
  | reached :: later =>
    w.killDeadline reached ≤ now && later.all fun r => r < w.killDeadline reached

/-- Some `handle_event` was at or after the kill deadline. -/
def killPast (w : Watch) : Bool :=
  match w.past with
  | [] => false
  | reached :: later => later.any fun r => w.killDeadline reached ≤ r

def read (w : Watch) (now : Instant) : Watch := { w with readings := w.readings ++ [now] }

end Watch

/-- What a call changes: an admission with a timeout starts a watch, `Finished` ends it. -/
def watchStep (id : JobId) (w : Option Watch) : Call → Option Watch
  | .handle now (.admitted j _ _ policy) =>
    if j = id then
      match policy.timeoutMs with
      | some t => some ⟨now + durationFromMillis t.toNat, policy.killGraceMs, []⟩
      | none => w
    else w
  | .handle _ (.finished j _) => if j = id then none else w
  | .handle _ _ => w
  | .handleEvent now _ => w.map fun w => w.read now

/-- The watch over a job after some calls. -/
def watch (id : JobId) (calls : List Call) : Option Watch := calls.foldl (watchStep id) none

/-- One if the job is watched and due at a `handle_event`. -/
def dueCount (due : Watch → Instant → Bool) (w : Option Watch) : Call → ℕ
  | .handleEvent now _ => if w.any fun w => due w now then 1 else 0
  | .handle _ _ => 0

/-- Each call answers with the two timer actions of the job when they are due, and only then. -/
def FiresOnce (id : JobId) (t : List (Call × List Action)) : Prop :=
  ∀ t₁ c out t₂, t = t₁ ++ (c, out) :: t₂ →
    out.count (.timeoutReached id) = dueCount Watch.timeoutDue (watch id (t₁.map Prod.fst)) c ∧
    out.count (.killDeadlineReached id) = dueCount Watch.killDue (watch id (t₁.map Prod.fst)) c

/-- No `handle_event` is called for a job that is still watched after an earlier one was at or
past its kill deadline. -/
def EndsInTime (id : JobId) (t : List (Call × List Action)) : Prop :=
  ∀ t₁ now order out t₂, t = t₁ ++ (.handleEvent now order, out) :: t₂ →
    ∀ w, watch id (t₁.map Prod.fst) = some w → w.killPast = false

/-! ## The entry of a job -/

namespace Watch

/-- The entry that the module has for a watched job. -/
def entry (id : JobId) (w : Watch) : TimeoutEntry :=
  { id := id
    state := match w.past with
      | [] => .waitingForDeadline
      | reached :: _ => .waitingForKillGrace (w.killDeadline reached)
    deadline := w.deadline
    killGraceMs := w.killGraceMs }

theorem past_read (w : Watch) (now : Instant) :
    (w.read now).past =
      if w.past = [] then (if now < w.deadline then [] else [now]) else w.past ++ [now] := by
  unfold past read
  dsimp only
  rw [List.dropWhile_append]
  by_cases hnone : w.readings.dropWhile (fun r => r < w.deadline) = []
  · rw [if_pos (by rw [hnone]; rfl), if_pos hnone]
    rw [List.dropWhile_cons, List.dropWhile_nil]
    by_cases hnow : now < w.deadline
    · rw [if_pos hnow, if_pos (decide_eq_true hnow)]
    · rw [if_neg hnow, if_neg (by rw [decide_eq_true_eq]; exact hnow)]
  · rw [if_neg (by rw [List.isEmpty_iff]; exact hnone), if_neg hnone]

variable {w : Watch} {now : Instant} {id : JobId}

/-- Before the deadline was reached. -/
theorem fire_waiting (h : w.past = []) :
    fire now (w.entry id) =
      if w.deadline ≤ now then
        ((w.read now).entry id, [.emitLog .info (.timeout id), .timeoutReached id])
      else ((w.read now).entry id, []) := by
  have hread := w.past_read now
  rw [if_pos h] at hread
  unfold fire entry
  rw [h, hread]
  dsimp only
  by_cases hdue : w.deadline ≤ now
  · rw [if_pos hdue, if_pos hdue, if_neg (Nat.not_lt_of_le hdue)]
    rfl
  · rw [if_neg hdue, if_neg hdue, if_pos (Nat.lt_of_not_le hdue)]
    rfl

/-- After the deadline was reached: the entry does not change any more. -/
theorem fire_reached {reached : Instant} {later : List Instant} (h : w.past = reached :: later) :
    fire now (w.entry id) =
      if w.killDeadline reached ≤ now then
        ((w.read now).entry id, [.killDeadlineReached id])
      else ((w.read now).entry id, []) := by
  have hread := w.past_read now
  rw [if_neg (by rw [h]; exact List.cons_ne_nil _ _), h, List.cons_append] at hread
  unfold fire entry
  rw [h, hread]
  rfl

theorem fire_entry : (fire now (w.entry id)).1 = (w.read now).entry id := by
  cases hpast : w.past with
  | nil =>
    rw [fire_waiting hpast]
    split <;> rfl
  | cons reached later =>
    rw [fire_reached hpast]
    split <;> rfl

end Watch

/-- What an entry fires is about its job. -/
theorem jobId_of_fire {now : Instant} {e : TimeoutEntry} {a : Action} (h : a ∈ (fire now e).2) :
    a.jobId = e.id := by
  unfold fire at h
  split at h
  · split at h
    · simp only [List.mem_cons, List.not_mem_nil, or_false] at h
      rcases h with rfl | rfl <;> rfl
    · cases h
  · split at h
    · rw [List.mem_singleton.mp h]
      rfl
    · cases h

/-- The module holds the entries of the watched jobs. -/
def Holds (m : TimeoutPolicyModule) (calls : List Call) : Prop :=
  ∀ id, m.tracking.get id = (watch id calls).map (Watch.entry id)

theorem watch_snoc (id : JobId) (calls : List Call) (c : Call) :
    watch id (calls ++ [c]) = watchStep id (watch id calls) c := by
  rw [watch, List.foldl_append]
  rfl

theorem Holds.call {m : TimeoutPolicyModule} {calls : List Call} (h : Holds m calls) (c : Call) :
    Holds (m.call c).1 (calls ++ [c]) := by
  intro id
  rw [watch_snoc]
  cases c with
  | handleEvent now order =>
    show ((m.handleEvent order now).1).tracking.get id = _
    unfold TimeoutPolicyModule.handleEvent
    dsimp only
    rw [order.get_insertAll m.tracking (fun e => (fire now e).1), h id, watchStep,
      Option.map_map, Option.map_map]
    exact congrArg₂ Option.map (funext fun w => Watch.fire_entry) rfl
  | handle now a =>
    cases a with
    | admitted j owner exec policy =>
      unfold TimeoutPolicyModule.call TimeoutPolicyModule.handle watchStep
      dsimp only
      cases policy.timeoutMs with
      | none => rw [ite_self]; exact h id
      | some t =>
        dsimp only
        rw [HashMap.get_insert]
        by_cases hid : id = j
        · rw [if_pos hid, if_pos hid.symm, hid]
          rfl
        · rw [if_neg hid, if_neg (Ne.symm hid)]
          exact h id
    | finished j result =>
      unfold TimeoutPolicyModule.call TimeoutPolicyModule.handle watchStep
      dsimp only
      rw [HashMap.get_remove]
      by_cases hid : id = j
      · rw [if_pos hid, if_pos hid.symm]
        rfl
      · rw [if_neg hid, if_neg (Ne.symm hid)]
        exact h id
    | _ => exact h id

theorem Holds.run {t : List (Call × List Action)} {m : TimeoutPolicyModule}
    (h : Run Calls .new t m) : Holds m (t.map Prod.fst) := by
  let Inv : List (Call × List Action) → TimeoutPolicyModule → Prop :=
    fun t m => Holds m (t.map Prod.fst)
  have hstep : ∀ past m l m', Inv past m → Calls m l m' → Inv (past ++ [l]) m' := by
    intro past m l m' hm hcalls
    have hcall := Holds.call hm l.1
    rw [hcalls] at hcall
    show Holds m' ((past ++ [l]).map Prod.fst)
    rw [List.map_append]
    exact hcall
  have hinit : Inv [] .new := fun id => HashMap.get_empty id
  exact Run.invariant_trace [] hstep h hinit

/-! ## What a call answers -/

/-- A `handle_event` answers with the actions of a job's entry. -/
theorem Holds.count_handleEvent {m : TimeoutPolicyModule} {calls : List Call} (h : Holds m calls)
    (order : IterOrder JobId TimeoutEntry) (now : Instant) {a : Action} :
    (m.handleEvent order now).2.count a =
      (watch a.jobId calls).elim 0 fun w => (fire now (w.entry a.jobId)).2.count a := by
  have hown : ∀ j e, m.tracking.get j = some e → a ∈ (fire now e).2 → j = a.jobId := by
    intro j e he ha
    rw [h j] at he
    have ⟨w, _, hw⟩ := Option.map_eq_some_iff.mp he
    rw [jobId_of_fire ha, ← hw]
    rfl
  have hcount := order.count_flatMap (g := fun e => (fire now e).2) hown
  rw [h a.jobId] at hcount
  refine hcount.trans ?_
  cases watch a.jobId calls <;> rfl

/-- An action other than the two timer actions is all that `handle` answers with. -/
theorem count_handle (m : TimeoutPolicyModule) (now : Instant) (action : Action) (id : JobId) :
    (m.handle now action).2.count (.timeoutReached id) = 0 ∧
      (m.handle now action).2.count (.killDeadlineReached id) = 0 := by
  cases action <;> exact ⟨rfl, rfl⟩

namespace Watch

variable {w : Watch} {now : Instant} {id : JobId}

theorem count_timeout : (fire now (w.entry id)).2.count (.timeoutReached id) =
    if w.timeoutDue now then 1 else 0 := by
  unfold timeoutDue
  cases hpast : w.past with
  | nil =>
    rw [fire_waiting hpast, List.isEmpty_nil, Bool.true_and]
    by_cases hdue : w.deadline ≤ now
    · rw [if_pos hdue, if_pos (decide_eq_true hdue)]
      simp
    · rw [if_neg hdue, if_neg (by rw [decide_eq_true_eq]; exact hdue)]
      rfl
  | cons reached later =>
    rw [fire_reached hpast, List.isEmpty_cons, Bool.false_and]
    split <;> simp

/-- The kill deadline fires at each call that is late enough. -/
theorem count_kill : (fire now (w.entry id)).2.count (.killDeadlineReached id) =
    match w.past with
    | [] => 0
    | reached :: _ => if w.killDeadline reached ≤ now then 1 else 0 := by
  cases hpast : w.past with
  | nil =>
    rw [fire_waiting hpast]
    split <;> simp
  | cons reached later =>
    rw [fire_reached hpast]
    by_cases hdue : w.killDeadline reached ≤ now
    · rw [if_pos hdue]
      simp [hdue]
    · rw [if_neg hdue]
      simp [hdue]

/-- It is due at such a call unless it was due before. -/
theorem count_kill_iff (hread : ∀ r ∈ w.past, r ≤ now) :
    (fire now (w.entry id)).2.count (.killDeadlineReached id) =
      (if w.killDue now then 1 else 0) ↔ w.killPast = false := by
  rw [count_kill]
  unfold killDue killPast
  cases hpast : w.past with
  | nil => exact ⟨fun _ => rfl, fun _ => rfl⟩
  | cons reached later =>
    dsimp only
    rw [hpast] at hread
    rw [List.any_eq_false]
    constructor
    · intro h r hr hle
      rw [decide_eq_true_eq] at hle
      have hnow := le_trans hle (hread r (List.mem_cons_of_mem _ hr))
      rw [if_pos hnow, if_neg] at h
      · exact absurd h (by decide)
      · rw [Bool.and_eq_true, List.all_eq_true]
        intro hall
        exact absurd hle (Nat.not_le_of_lt (of_decide_eq_true (hall.2 r hr)))
    · intro h
      have hall : (later.all fun r => r < w.killDeadline reached) = true := by
        rw [List.all_eq_true]
        intro r hr
        have hno := h r hr
        rw [decide_eq_true_eq] at hno
        exact decide_eq_true (Nat.lt_of_not_le hno)
      simp only [hall, Bool.and_true, decide_eq_true_eq]

end Watch

/-- The readings of a watch were read at its calls. -/
theorem mem_readings {id : JobId} {calls : List Call} {w : Watch} {r : Instant}
    (hw : watch id calls = some w) (hr : r ∈ w.readings) : r ∈ calls.filterMap Call.reading := by
  induction calls using List.reverseRecOn generalizing w with
  | nil => cases hw
  | append_singleton calls c ih =>
    rw [watch_snoc] at hw
    rw [List.filterMap_append, List.mem_append]
    cases c with
    | handleEvent now order =>
      have ⟨w₀, hw₀, hread⟩ := Option.map_eq_some_iff.mp hw
      rw [← hread] at hr
      rcases List.mem_append.mp hr with hr | hr
      · exact Or.inl (ih hw₀ hr)
      · exact Or.inr hr
    | handle now a =>
      left
      cases a with
      | admitted j owner exec policy =>
        unfold watchStep at hw
        dsimp only at hw
        split at hw
        · cases hms : policy.timeoutMs with
          | none =>
            rw [hms] at hw
            exact ih hw hr
          | some t =>
            rw [hms, Option.some.injEq] at hw
            rw [← hw] at hr
            cases hr
        · exact ih hw hr
      | finished j result =>
        unfold watchStep at hw
        dsimp only at hw
        split at hw
        · cases hw
        · exact ih hw hr
      | _ => exact ih hw hr

/-! ## Runs -/

/-- In every run of the module with a clock that does not go back, a job gets the two timer
actions once each and when they are due if and only if no `handle_event` is called for it after
its kill deadline was fired. -/
theorem fires_once_iff {t : List (Call × List Action)} {m : TimeoutPolicyModule}
    (hrun : Run Calls .new t m)
    (hclock : (t.filterMap fun l => l.1.reading).Pairwise (· ≤ ·)) (id : JobId) :
    FiresOnce id t ↔ EndsInTime id t := by
  -- one call of the run
  have hone : ∀ t₁ c out t₂, t = t₁ ++ (c, out) :: t₂ →
      ∃ m₁, Holds m₁ (t₁.map Prod.fst) ∧ (m₁.call c).2 = out := by
    intro t₁ c out t₂ ht
    rw [ht] at hrun
    have ⟨m₁, h₁, hrest⟩ := Run.append_iff.mp hrun
    have ⟨m₂, hcall, _⟩ := Run.cons_iff.mp hrest
    refine ⟨m₁, Holds.run h₁, ?_⟩
    rw [show m₁.call c = (m₂, out) from hcall]
  -- the clock at a `handle_event` is past all earlier readings
  have hpast : ∀ t₁ now order out t₂, t = t₁ ++ (.handleEvent now order, out) :: t₂ →
      ∀ w, watch id (t₁.map Prod.fst) = some w → ∀ r ∈ w.past, r ≤ now := by
    intro t₁ now order out t₂ ht w hw r hr
    have hmem := mem_readings hw ((List.dropWhile_sublist _).subset hr)
    rw [List.filterMap_map] at hmem
    rw [ht, List.filterMap_append, List.filterMap_cons, List.pairwise_append] at hclock
    exact hclock.2.2 r hmem now List.mem_cons_self
  constructor
  · intro h t₁ now order out t₂ ht w hw
    have ⟨m₁, hm₁, hout⟩ := hone _ _ _ _ ht
    have hkill := (h _ _ _ _ ht).2
    rw [← hout] at hkill
    have hcount := hm₁.count_handleEvent order now (a := .killDeadlineReached id)
    rw [show Action.jobId (.killDeadlineReached id) = id from rfl, hw] at hcount
    rw [hw] at hkill
    exact (Watch.count_kill_iff (hpast _ _ _ _ _ ht w hw)).mp (hcount.symm.trans hkill)
  · intro h t₁ c out t₂ ht
    have ⟨m₁, hm₁, hout⟩ := hone _ _ _ _ ht
    rw [← hout]
    cases c with
    | handle now action => exact count_handle m₁ now action id
    | handleEvent now order =>
      have htimeout := hm₁.count_handleEvent order now (a := .timeoutReached id)
      have hkill := hm₁.count_handleEvent order now (a := .killDeadlineReached id)
      rw [show Action.jobId (.timeoutReached id) = id from rfl] at htimeout
      rw [show Action.jobId (.killDeadlineReached id) = id from rfl] at hkill
      unfold call dueCount
      dsimp only
      rw [htimeout, hkill]
      cases hw : watch id (t₁.map Prod.fst) with
      | none => exact ⟨rfl, rfl⟩
      | some w =>
        refine ⟨Watch.count_timeout, ?_⟩
        exact (Watch.count_kill_iff (hpast _ _ _ _ _ ht w hw)).mpr (h _ _ _ _ _ ht w hw)

/-! ## One job -/

/-- The module with one entry. -/
def single (e : TimeoutEntry) : TimeoutPolicyModule := ⟨HashMap.empty.insert e.id e⟩

theorem handleEvent_single (order : IterOrder JobId TimeoutEntry) (now : Instant)
    (e : TimeoutEntry) (hid : (fire now e).1.id = e.id) :
    (single e).handleEvent order now = (single (fire now e).1, (fire now e).2) := by
  unfold handleEvent single
  rw [order.iter_insert_empty, hid]
  refine Prod.ext (congrArg TimeoutPolicyModule.mk ?_) (List.append_nil _)
  ext j : 1
  rw [List.foldl_cons, List.foldl_nil]
  by_cases hj : j = e.id
  · rw [hj, HashMap.get_insert_self, HashMap.get_insert_self]
  · rw [HashMap.get_insert_ne _ _ hj, HashMap.get_insert_ne _ _ hj, HashMap.get_insert_ne _ _ hj]

/-- A timeout of one millisecond and as long a grace. -/
def oneMs : ExecPolicy := ⟨some 1, 1, .graceful⟩

/-- The job 1 is admitted, and `handle_event` is called at the deadline and at the kill
deadline. -/
def timedJob (order : IterOrder JobId TimeoutEntry) : List (Call × List Action) :=
  [(.handle 0 (.admitted 1 0 ⟨[], none, false, false, 0⟩ oneMs), [.emitLog .info (.submit 1)]),
    (.handleEvent 1000000 order, [.emitLog .info (.timeout 1), .timeoutReached 1]),
    (.handleEvent 2000000 order, [.killDeadlineReached 1])]

/-- One more call of `handle_event`. -/
def lateCall (order : IterOrder JobId TimeoutEntry) : Call × List Action :=
  (.handleEvent 3000000 order, [.killDeadlineReached 1])

theorem timedJob_run (order : IterOrder JobId TimeoutEntry) :
    Run Calls .new (timedJob order) (single ⟨1, .waitingForKillGrace 2000000, 1000000, 1⟩) := by
  have hreached : Calls (single ⟨1, .waitingForDeadline, 1000000, 1⟩)
      (.handleEvent 1000000 order, [.emitLog .info (.timeout 1), .timeoutReached 1])
      (single ⟨1, .waitingForKillGrace 2000000, 1000000, 1⟩) := handleEvent_single order _ _ rfl
  have hkill : Calls (single ⟨1, .waitingForKillGrace 2000000, 1000000, 1⟩)
      (.handleEvent 2000000 order, [.killDeadlineReached 1])
      (single ⟨1, .waitingForKillGrace 2000000, 1000000, 1⟩) := handleEvent_single order _ _ rfl
  exact .cons rfl (.cons hreached (.single hkill))

theorem fires_once_iff_timed : FiresOnce 1 (timedJob default) := by
  refine (fires_once_iff (timedJob_run default) (by simp [timedJob, Call.reading]) 1).mpr ?_
  intro t₁ now order out t₂ ht w hw
  -- at most one reading comes before the last call
  rcases t₁ with _ | ⟨_, _ | ⟨_, _ | ⟨_, t₁⟩⟩⟩
  · cases hw
  · cases ht
    cases hw
    rfl
  · cases ht
    cases hw
    rfl
  · simp [timedJob] at ht

/-- A third `handle_event` fires the kill deadline again. -/
theorem kill_deadline_repeats :
    ∃ t m, Run Calls .new t m ∧ (t.filterMap fun l => l.1.reading).Pairwise (· ≤ ·) ∧
      (t.flatMap Prod.snd).count (.killDeadlineReached 1) = 2 ∧ ¬ FiresOnce 1 t := by
  refine ⟨timedJob default ++ [lateCall default], _, (timedJob_run default).append
    (.single (handleEvent_single default _ _ rfl)), by simp [timedJob, lateCall, Call.reading],
    by rfl, fun h => ?_⟩
  have hlate := (h (timedJob default) _ _ [] rfl).2
  exact absurd hlate (by decide)

end TimeoutPolicyModule
end CoreShift
