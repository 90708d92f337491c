import CoreShift.Runtime
import CoreShift.Turns

/-!
# Deadlines and signals of `wait_loop`

What the escalation sends, when, and to whom: the order of the signals, the blocking wait that
comes before them, and the child that is gone before them. The loop checks the deadline at the
head of a turn and nowhere else, and does not ask there whether the child was reaped.
-/

namespace CoreShift

open Utils

namespace WaitLoop

variable {a : WaitArgs} {s s' : WaitState}

/-! ## The protocol -/

/-- The signals that a policy may send, in order. -/
def protocol (a : WaitArgs) : KillState → List Int32
  | .none =>
    match a.deadline, a.cancel with
    | some _, .graceful => [SIGTERM, SIGKILL]
    | some _, .kill => [SIGKILL]
    | _, _ => []
  | .termSent => [SIGKILL]
  | .killSent => []

theorem due_killSent (a : WaitArgs) (now : Instant) : due a .killSent now = none := by
  unfold due
  split
  · rfl
  · split <;> rfl

/-- A signal is due from the deadline on, and after a `SIGTERM` once the grace is over. -/
theorem due_eq_some {kill : KillState} {now : Instant} {signal : Int32}
    (h : due a kill now = some signal) : ∃ dl, a.deadline = some dl ∧ dl ≤ now ∧
      (kill = .none ∧ a.cancel.firstSignal = some signal ∨
        kill = .termSent ∧ signal = SIGKILL ∧ a.killGraceMs.toNat < (now - dl) / 1000000) := by
  unfold due at h
  cases hdl : a.deadline with
  | none =>
    rw [hdl] at h
    cases h
  | some dl =>
    rw [hdl] at h
    dsimp only at h
    split at h
    · next hpast =>
      refine ⟨dl, rfl, hpast, ?_⟩
      cases kill with
      | none => exact Or.inl ⟨rfl, h⟩
      | termSent =>
        dsimp only at h
        split at h
        · next hover =>
          rw [Option.some.injEq] at h
          exact Or.inr ⟨rfl, h.symm, hover⟩
        · cases h
      | killSent => cases h
    · cases h

theorem sends_killSent (a : WaitArgs) (ts : List Turn) : sends a .killSent ts = [] := by
  induction ts with
  | nil => rfl
  | cons t ts ih =>
    rw [sends, killNext, due_killSent]
    exact ih

/-- One step of the machine takes the first signal of its protocol, or waits. -/
theorem protocol_step (a : WaitArgs) (kill : KillState) (now : Instant) (errno : Option Int32) :
    (due a kill now).toList ++ protocol a (killNext a kill now errno) <+: protocol a kill := by
  unfold killNext
  cases hdue : due a kill now with
  | none => exact List.prefix_rfl
  | some signal =>
    have ⟨dl, hdl, _, hcases⟩ := due_eq_some hdue
    rcases hcases with ⟨hkill, hfirst⟩ | ⟨hkill, hsignal, _⟩
    · rw [hkill, protocol, hdl]
      cases hcancel : a.cancel with
      | none =>
        rw [hcancel] at hfirst
        cases hfirst
      | graceful =>
        rw [hcancel] at hfirst
        cases hfirst
        cases killFails a errno <;> simp [protocol]
      | kill =>
        rw [hcancel] at hfirst
        cases hfirst
        simp [protocol, SIGKILL, SIGTERM]
    · rw [hkill, hsignal]
      simp [protocol, SIGKILL, SIGTERM]

/-- The machine follows its protocol. -/
theorem sends_follow (a : WaitArgs) (kill : KillState) (ts : List Turn) :
    (sends a kill ts).map Sent.signal <+: protocol a kill := by
  induction ts generalizing kill with
  | nil => exact List.nil_prefix
  | cons t ts ih =>
    rw [sends_cons]
    refine List.IsPrefix.trans ?_ (protocol_step a kill t.now t.kill)
    exact (List.prefix_append_right_inj _).mpr (ih _)

/-! ## Every signal has its time -/

/-- What the policy says about a signal that is sent in a turn. -/
def Timely (a : WaitArgs) (x : Sent) : Prop :=
  ∃ dl, a.deadline = some dl ∧ dl ≤ x.turn.now ∧
    (a.cancel = .graceful → x.signal = SIGKILL →
      dl + durationFromMillis a.killGraceMs.toNat < x.turn.now)

theorem timely_of_due {kill : KillState} {t : Turn} {signal : Int32}
    (h : due a kill t.now = some signal) : Timely a ⟨t, signal⟩ := by
  have ⟨dl, hdl, hpast, hcases⟩ := due_eq_some h
  refine ⟨dl, hdl, hpast, fun hgraceful hkill => ?_⟩
  rcases hcases with ⟨_, hfirst⟩ | ⟨_, _, hover⟩
  · rw [hgraceful, show signal = SIGKILL from hkill] at hfirst
    cases hfirst
  · have hns : a.killGraceMs.toNat * 1000000 < t.now - dl := by omega
    exact Nat.add_lt_of_lt_sub' hns

/-- The turn of a signal is one at whose head the signal was due. -/
theorem exists_due_of_sent {kill : KillState} {ts : List Turn} {x : Sent}
    (h : x ∈ sends a kill ts) : ∃ kill', due a kill' x.turn.now = some x.signal := by
  induction ts generalizing kill with
  | nil => cases h
  | cons t ts ih =>
    rw [sends, List.mem_append, List.mem_map] at h
    rcases h with ⟨signal, hdue, hx⟩ | h
    · rw [← hx]
      exact ⟨kill, Option.mem_toList.mp hdue⟩
    · exact ih h

/-- After a `SIGTERM` no other is sent. -/
theorem sends_termSent {kill : KillState} (hkill : kill ≠ .none) {ts : List Turn} {x : Sent}
    (h : x ∈ sends a kill ts) : x.signal = SIGKILL := by
  have hmem : x.signal ∈ (sends a kill ts).map Sent.signal := List.mem_map_of_mem h
  have hall := (sends_follow a kill ts).subset hmem
  cases kill with
  | none => exact absurd rfl hkill
  | termSent => exact List.mem_singleton.mp hall
  | killSent => cases hall

/-- A `SIGTERM` that could not be sent is the last signal. -/
theorem sends_of_failed {ts : List Turn} {x : Sent} (h : x ∈ sends a .none ts)
    (hterm : x.signal = SIGTERM) (hfails : killFails a x.turn.kill = true) :
    sends a .none ts = [x] := by
  induction ts with
  | nil => cases h
  | cons t ts ih =>
    rw [sends, killNext] at h ⊢
    cases hdue : due a .none t.now with
    | none =>
      rw [hdue] at h
      exact ih h
    | some signal =>
      rw [hdue] at h
      dsimp only at h ⊢
      rw [List.mem_append] at h
      rcases h with h | h
      · -- this turn sends it, and the escalation is over
        have hx := List.mem_singleton.mp h
        rw [hx] at hfails
        rw [if_neg (fun hok => by rw [hfails] at hok; cases hok.2), sends_killSent, hx]
        rfl
      · have hkill : x.signal = SIGKILL := by
          refine sends_termSent ?_ h
          split <;> exact fun hno => by cases hno
        rw [hterm] at hkill
        cases hkill

/-- The signals that the loop sends, each with the turn that sends it. -/
def sentBy (a : WaitArgs) (s : WaitState) : List Turn → List Sent
  | [] => []
  | t :: ts =>
    ((signals (turn a s t).1.ops).drop (signals s.ops).length).map (⟨t, ·⟩) ++
      match turn a s t with
      | (s', .again) => sentBy a s' ts
      | _ => []

/-- The same for `wait_loop`. -/
def waitLoopSent (a : WaitArgs) (drain : DrainState) (wait : List WaitAnswer) (ts : List Turn) :
    List Sent :=
  match step a ⟨drain, none, .none, false, []⟩ wait with
  | (s, .ok ()) => sentBy a s ts
  | (_, .error _) => []

theorem sentBy_eq (a : WaitArgs) (s : WaitState) (ts : List Turn) :
    sentBy a s ts = sends a s.kill (executed a s ts) := by
  induction ts generalizing s with
  | nil => rfl
  | cons t ts ih =>
    have hnew : (signals (turn a s t).1.ops).drop (signals s.ops).length =
        (due a s.kill t.now).toList := by
      rw [turn_signals, List.drop_left]
    rcases turn_cases a s t with ⟨s', hagain⟩ | hstops
    · have hkill := (turn_spec a s t).kill
      rw [executed_of_again hagain, sends, sentBy, hnew]
      rw [hagain] at hkill ⊢
      dsimp only at hkill ⊢
      rw [ih, hkill]
    · rw [executed_of_stops hstops, sentBy, hnew, sends]
      generalize turn a s t = r at hstops ⊢
      obtain ⟨s', v⟩ := r
      cases v with
      | again => exact absurd rfl hstops
      | blocked | returned => rfl

/-! ## The flag -/

/-- The flag is set before the first signal is sent. -/
theorem isPast_of_due {kill : KillState} {now : Instant} {signal : Int32}
    (h : due a kill now = some signal) : isPast a now = true := by
  have ⟨dl, hdl, hpast, _⟩ := due_eq_some h
  unfold isPast
  rw [hdl]
  exact decide_eq_true hpast

/-- If a signal was sent, the output says that the child timed out. -/
theorem turns_timedOut {ts : List Turn} {out : Output}
    (h : (turns a s ts).2 = .returned (.ok out)) (hflag : signals s.ops ≠ [] → s.timedOut = true)
    (hsent : signals (turns a s ts).1.ops ≠ []) : out.timedOut = true := by
  induction ts generalizing s with
  | nil => cases h
  | cons t ts ih =>
    have hspec := turn_spec a s t
    -- the invariant is kept by a turn
    have hflag' : signals (turn a s t).1.ops ≠ [] → (turn a s t).1.timedOut = true := by
      intro hne
      rw [hspec.timedOut, Bool.or_eq_true]
      rw [turn_signals] at hne
      cases hdue : due a s.kill t.now with
      | none =>
        rw [hdue] at hne
        exact Or.inl (hflag (by simpa using hne))
      | some signal => exact Or.inr (isPast_of_due hdue)
    rcases turn_cases a s t with ⟨s', hagain⟩ | hstops
    · rw [turns_of_again hagain] at h hsent
      rw [hagain] at hflag'
      exact ih h hflag' hsent
    · rw [turns_of_stops hstops] at h hsent
      rw [hspec.output out h]
      exact hflag' hsent

/-! ## From the first call on -/

/-- The first `wait_step` sends nothing and leaves the escalation as it was. -/
theorem waitLoop_cases (a : WaitArgs) (drain : DrainState) (wait : List WaitAnswer)
    (ts : List Turn) :
    (∃ s, s.kill = .none ∧ s.timedOut = false ∧ signals s.ops = [] ∧
      waitLoop a drain wait ts = turns a s ts ∧ waitLoopSent a drain wait ts = sentBy a s ts) ∨
    (∃ s e, signals s.ops = [] ∧ waitLoop a drain wait ts = (s, .returned (.error e)) ∧
      waitLoopSent a drain wait ts = []) := by
  have hcalm := step_calm a ⟨drain, none, .none, false, []⟩ wait
  unfold waitLoop waitLoopSent
  generalize step a ⟨drain, none, .none, false, []⟩ wait = r at hcalm ⊢
  have ⟨s, result⟩ := r
  have hnone : ∀ s', Calm ⟨drain, none, .none, false, []⟩ s' → signals s'.ops = [] := by
    intro s' h
    have ⟨ops, hops, hsignals⟩ := h.ops
    rw [hops, signals_append, hsignals]
    rfl
  cases result with
  | ok =>
    exact Or.inl ⟨s, hcalm.kill, hcalm.timedOut, hnone s hcalm, rfl, rfl⟩
  | error e =>
    exact Or.inr ⟨s.abandon, e, hnone _ (hcalm.trans (abandon_calm s)), rfl, rfl⟩

end WaitLoop

open WaitLoop

/-- For every drain, child, clock and schedule: the signals of `wait_loop` follow the protocol of
its policy, each has its time, a `SIGTERM` that could not be sent is the last one, and the output
says that the child timed out if any was sent. -/
theorem escalation_follows_protocol (a : WaitArgs) (drain : DrainState) (wait : List WaitAnswer)
    (ts : List Turn) :
    signals (waitLoop a drain wait ts).1.ops = (waitLoopSent a drain wait ts).map Sent.signal ∧
      signals (waitLoop a drain wait ts).1.ops <+: protocol a .none ∧
      (∀ x ∈ waitLoopSent a drain wait ts, Timely a x) ∧
      (∀ x ∈ waitLoopSent a drain wait ts, x.signal = SIGTERM →
        killFails a x.turn.kill = true → waitLoopSent a drain wait ts = [x]) ∧
      ∀ out, (waitLoop a drain wait ts).2 = .returned (.ok out) →
        signals (waitLoop a drain wait ts).1.ops ≠ [] → out.timedOut = true := by
  rcases waitLoop_cases a drain wait ts with
    ⟨s, hkill, _, hempty, hloop, hsent⟩ | ⟨s, e, hempty, hloop, hsent⟩
  · have hsignals : signals (waitLoop a drain wait ts).1.ops =
        (waitLoopSent a drain wait ts).map Sent.signal := by
      rw [hloop, hsent, turns_signals, hempty, sentBy_eq, List.nil_append]
    rw [sentBy_eq, hkill] at hsent
    refine ⟨hsignals, ?_, ?_, ?_, ?_⟩
    · rw [hsignals, hsent]
      exact sends_follow a .none _
    · intro x hx
      rw [hsent] at hx
      have ⟨kill, hdue⟩ := exists_due_of_sent hx
      exact timely_of_due hdue
    · intro x hx hterm hfails
      rw [hsent] at hx ⊢
      exact sends_of_failed hx hterm hfails
    · intro out hout hne
      rw [hloop] at hout hne
      exact turns_timedOut hout (fun hne' => absurd hempty hne') hne
  · rw [hsent, hloop]
    dsimp only
    rw [hempty]
    refine ⟨rfl, List.nil_prefix, ?_, ?_, ?_⟩
    · intro x hx
      cases hx
    · intro x hx
      cases hx
    · intro out _ hne
      exact absurd rfl hne

namespace WaitLoop

variable {a : WaitArgs} {s s' : WaitState}

/-! ## The blocking wait -/

/-- The state in which a turn calls `wait_blocking`, if it does. -/
def blockingState (a : WaitArgs) (s : WaitState) (t : Turn) : Option WaitState :=
  match step a (checkDeadline a s t.now t.kill).1 t.wait with
  | (s', .ok ()) => if s'.drain.isDone && s'.status.isNone then some s' else none
  | (_, .error _) => none

/-- A turn that does not return is in `wait_blocking`. -/
theorem blockingState_of_blocked {t : Turn} (h : (turn a s t).2 = .blocked) :
    (blockingState a s t).isSome = true := by
  unfold turn at h
  unfold blockingState
  generalize checkDeadline a s t.now t.kill = checked at h ⊢
  have ⟨s₁, pollTimeout⟩ := checked
  dsimp only at h ⊢
  generalize step a s₁ t.wait = stepped at h ⊢
  have ⟨s₂, result⟩ := stepped
  cases result with
  | error e => cases h
  | ok =>
    dsimp only at h ⊢
    split at h
    · next hdone =>
      cases hstatus : s₂.status with
      | none =>
        rw [hdone]
        rfl
      | some st =>
        unfold finish at h
        rw [hstatus] at h
        cases h
    · unfold poll at h
      dsimp only at h
      split at h
      · cases h
      · split at h <;> cases h

/-- A `wait_step` that finds the child running changes nothing. -/
theorem step_of_running {wait : List WaitAnswer} (h : stillRunning wait = true)
    (hnone : s.status = none) : step a s wait = (s, .ok ()) := by
  have ⟨drain, status, kill, timedOut, ops⟩ := s
  change status = none at hnone
  unfold step
  rw [hnone, (a.process.waitStep_none_iff wait).mpr h, reapsChild_eq_false (Or.inl h)]
  simp [WaitState.did, reapedOps]

/-- One that does not find it running finds its status, or fails. -/
theorem step_of_not_running {wait : List WaitAnswer} (h : stillRunning wait = false)
    (hnone : s.status = none) : (∃ s' e, step a s wait = (s', .error e)) ∨
      ∃ s', step a s wait = (s', .ok ()) ∧ s'.status.isSome = true := by
  unfold step
  rw [hnone]
  dsimp only
  cases hfound : a.process.waitStep wait with
  | error e => exact Or.inl ⟨_, e, rfl⟩
  | ok found =>
    cases found with
    | none =>
      rw [(a.process.waitStep_none_iff wait).mp hfound] at h
      cases h
    | some st => exact Or.inr ⟨_, rfl, rfl⟩

/-- A turn blocks if nothing is left to drain and the child is running. -/
theorem blockingState_eq_some {t : Turn} :
    blockingState a s t = some s' ↔ s.drain.isDone = true ∧ s.status = none ∧
      stillRunning t.wait = true ∧ s' = (checkDeadline a s t.now t.kill).1 := by
  have hcheck := checkDeadline_eq a s t.now t.kill
  unfold blockingState
  generalize (checkDeadline a s t.now t.kill).1 = s₁ at hcheck ⊢
  have hdrain : s₁.drain = s.drain := by rw [hcheck]; rfl
  have hstatus : s₁.status = s.status := by rw [hcheck]; rfl
  clear hcheck
  rw [← hdrain, ← hstatus]
  cases hknown : s₁.status with
  | some st =>
    have hstep : step a s₁ t.wait = (s₁, .ok ()) := by
      unfold step
      rw [hknown]
    rw [hstep]
    simp [hknown]
  | none =>
    cases hrunning : stillRunning t.wait with
    | true =>
      rw [step_of_running hrunning hknown]
      dsimp only
      rw [hknown]
      cases s₁.drain.isDone with
      | false => simp
      | true => exact ⟨fun h => ⟨rfl, rfl, rfl, (Option.some.inj h).symm⟩, fun h => h.2.2.2 ▸ rfl⟩
    | false =>
      rcases step_of_not_running hrunning hknown with ⟨_, _, hstep⟩ | ⟨_, hstep, hfound⟩
      · rw [hstep]
        simp
      · rw [hstep]
        simp only [Option.isSome_iff_ne_none] at hfound
        simp [hfound]

/-! ### When `SIGKILL` is sent -/

/-- The clock and the results of the signals have brought the escalation to `SIGKILL`: under
`Kill` by the first turn past the deadline; under `Graceful` by a turn past the grace, after an
earlier one, the first past the deadline, in which the `SIGTERM` could be sent. -/
def KillReached (a : WaitArgs) (ts : List Turn) : Prop :=
  ∃ dl, a.deadline = some dl ∧
    (a.cancel = .kill ∧ (∃ t ∈ ts, dl ≤ t.now) ∨
      a.cancel = .graceful ∧ ∃ before t after, ts = before ++ t :: after ∧
        (∀ u ∈ before, u.now < dl) ∧ dl ≤ t.now ∧ killFails a t.kill = false ∧
        ∃ u ∈ after, a.killGraceMs.toNat < (u.now - dl) / 1000000)

theorem due_none (hdl : a.deadline = none) (kill : KillState) (now : Instant) :
    due a kill now = none := by
  unfold due
  rw [hdl]

theorem due_early {dl : Instant} (hdl : a.deadline = some dl) (kill : KillState) {now : Instant}
    (h : now < dl) : due a kill now = none := by
  unfold due
  rw [hdl]
  exact if_neg (Nat.not_le_of_lt h)

theorem due_past {dl : Instant} (hdl : a.deadline = some dl) {now : Instant} (h : dl ≤ now) :
    due a .none now = a.cancel.firstSignal := by
  unfold due
  rw [hdl]
  exact if_pos h

theorem due_termSent {dl : Instant} (hdl : a.deadline = some dl) (now : Instant) :
    due a .termSent now =
      if a.killGraceMs.toNat < (now - dl) / 1000000 then some SIGKILL else none := by
  unfold due
  rw [hdl]
  by_cases hpast : now ≥ dl
  · exact if_pos hpast
  · have hzero : now - dl = 0 := Nat.sub_eq_zero_of_le (Nat.le_of_not_le hpast)
    rw [hzero]
    simp [hpast]

theorem killNext_of_none {kill : KillState} {now : Instant} {errno : Option Int32}
    (h : due a kill now = none) : killNext a kill now errno = kill := by
  unfold killNext
  rw [h]

/-- A turn in which nothing is due leaves the machine as it is. -/
theorem sends_of_none {kill : KillState} {t : Turn} (h : due a kill t.now = none)
    (ts : List Turn) : sends a kill (t :: ts) = sends a kill ts := by
  rw [sends, killNext_of_none h, h]
  rfl

/-- After the `SIGTERM`, it is sent by the first turn past the grace. -/
theorem sigkill_after_sigterm {dl : Instant} (hdl : a.deadline = some dl) (ts : List Turn) :
    SIGKILL ∈ (sends a .termSent ts).map Sent.signal ↔
      ∃ u ∈ ts, a.killGraceMs.toNat < (u.now - dl) / 1000000 := by
  induction ts with
  | nil => simp [sends]
  | cons t ts ih =>
    have hdue := due_termSent hdl t.now
    rw [List.exists_mem_cons_iff]
    by_cases hover : a.killGraceMs.toNat < (t.now - dl) / 1000000
    · rw [if_pos hover] at hdue
      rw [sends_cons, hdue]
      simp [hover]
    · rw [if_neg hover] at hdue
      rw [sends_of_none hdue, ih]
      simp [hover]

/-- A turn before the deadline makes no difference. -/
theorem killReached_cons_early {dl : Instant} (hdl : a.deadline = some dl) {t : Turn}
    (h : t.now < dl) (ts : List Turn) : KillReached a (t :: ts) ↔ KillReached a ts := by
  unfold KillReached
  rw [hdl]
  simp only [Option.some.injEq, exists_eq_left']
  refine or_congr (and_congr_right' ?_) (and_congr_right' ⟨?_, ?_⟩)
  · rw [List.exists_mem_cons_iff]
    exact or_iff_right (Nat.not_le_of_lt h)
  · intro ⟨before, u, after, heq, hbefore, hpast, hrest⟩
    cases before with
    | nil =>
      rw [List.nil_append, List.cons.injEq] at heq
      rw [← heq.1] at hpast
      exact absurd hpast (Nat.not_le_of_lt h)
    | cons v before =>
      rw [List.cons_append, List.cons.injEq] at heq
      exact ⟨before, u, after, heq.2, fun w hw => hbefore w (List.mem_cons_of_mem v hw), hpast,
        hrest⟩
  · intro ⟨before, u, after, heq, hbefore, hpast, hrest⟩
    refine ⟨t :: before, u, after, by rw [heq, List.cons_append], ?_, hpast, hrest⟩
    exact List.forall_mem_cons.mpr ⟨h, hbefore⟩

/-- Under `Graceful`, the first turn past the deadline decides. -/
theorem killReached_cons_graceful {dl : Instant} (hdl : a.deadline = some dl)
    (hcancel : a.cancel = .graceful) {t : Turn} (h : dl ≤ t.now) (ts : List Turn) :
    KillReached a (t :: ts) ↔ killFails a t.kill = false ∧
      ∃ u ∈ ts, a.killGraceMs.toNat < (u.now - dl) / 1000000 := by
  unfold KillReached
  rw [hdl, hcancel]
  simp only [Option.some.injEq, exists_eq_left', reduceCtorEq, false_and, false_or, true_and]
  constructor
  · intro ⟨before, u, after, heq, hbefore, _, hok, hover⟩
    cases before with
    | nil =>
      rw [List.nil_append, List.cons.injEq] at heq
      rw [heq.1, heq.2]
      exact ⟨hok, hover⟩
    | cons v before =>
      -- no turn before it may be past the deadline
      rw [List.cons_append, List.cons.injEq] at heq
      have hearly := hbefore v List.mem_cons_self
      rw [← heq.1] at hearly
      exact absurd h (Nat.not_le_of_lt hearly)
  · intro ⟨hok, hover⟩
    exact ⟨[], t, ts, rfl, List.forall_mem_nil _, h, hok, hover⟩

/-- The machine sends it in some turns if and only if they have reached it. -/
theorem sigkill_sent_iff (a : WaitArgs) (ts : List Turn) :
    SIGKILL ∈ (sends a .none ts).map Sent.signal ↔ KillReached a ts := by
  induction ts with
  | nil => simp [sends, KillReached]
  | cons t ts ih =>
    cases hdl : a.deadline with
    | none =>
      rw [sends_of_none (due_none hdl _ _), ih]
      simp [KillReached, hdl]
    | some dl =>
      by_cases hpast : dl ≤ t.now
      · have hdue := due_past hdl hpast
        cases hcancel : a.cancel with
        | none =>
          rw [hcancel] at hdue
          rw [sends_of_none hdue, ih]
          simp [KillReached, hcancel]
        | kill =>
          rw [hcancel] at hdue
          rw [sends_cons, hdue]
          simp [KillReached, hcancel, hdl, hpast, CancelPolicy.firstSignal]
        | graceful =>
          rw [hcancel] at hdue
          rw [killReached_cons_graceful hdl hcancel hpast, sends_cons, hdue, killNext, hdue]
          cases hfails : killFails a t.kill with
          | true => simp [CancelPolicy.firstSignal, sends_killSent, SIGKILL, SIGTERM]
          | false =>
            rw [← sigkill_after_sigterm hdl]
            simp [CancelPolicy.firstSignal, SIGKILL, SIGTERM]
      · have hearly : t.now < dl := Nat.lt_of_not_le hpast
        rw [sends_of_none (due_early hdl _ hearly), killReached_cons_early hdl hearly, ih]

/-- What was sent when the deadline of a turn was checked. -/
theorem signals_at_check {drain : DrainState} {wait : List WaitAnswer} {before : List Turn}
    (h : waitLoop a drain wait before = (s, .again)) (t : Turn) :
    signals (checkDeadline a s t.now t.kill).1.ops =
      (sends a .none (before ++ [t])).map Sent.signal := by
  rcases waitLoop_cases a drain wait before with
    ⟨s₀, hkill, _, hempty, hloop, _⟩ | ⟨s₀, e, _, hloop, _⟩
  · rw [hloop] at h
    have hsent := turns_sent h
    have hafter := turns_kill h
    rw [hkill, hempty, List.nil_append] at hsent
    rw [hkill] at hafter
    rw [checkDeadline_eq, sends_append, List.map_append, ← hsent, ← hafter, sends_cons]
    show signals (s.ops ++ _) = _ ++ (_ ++ [])
    rw [signals_append, signals_signalOps, List.append_nil]
  · rw [hloop] at h
    cases h

end WaitLoop

/-! ## The deadline and the blocking wait -/

/-- Whenever `wait_loop` enters `wait_blocking` on a running child, it has sent `SIGKILL`. -/
def KillsBeforeBlocking (a : WaitArgs) (drain : DrainState) (wait : List WaitAnswer)
    (ts : List Turn) : Prop :=
  ∀ before t after s s', ts = before ++ t :: after → waitLoop a drain wait before = (s, .again) →
    blockingState a s t = some s' → SIGKILL ∈ signals s'.ops

/-- For every drain, child, clock and schedule: `wait_loop` has sent `SIGKILL` whenever it blocks
for the child if and only if in every turn that finds nothing left to drain the child was found
dead, or the turns up to that one have reached `SIGKILL`. -/
theorem kills_before_blocking_iff (a : WaitArgs) (drain : DrainState) (wait : List WaitAnswer)
    (ts : List Turn) :
    KillsBeforeBlocking a drain wait ts ↔
      ∀ before t after s, ts = before ++ t :: after → waitLoop a drain wait before = (s, .again) →
        s.drain.isDone = true → s.status.isSome = true ∨ stillRunning t.wait = false ∨
          KillReached a (before ++ [t]) := by
  constructor
  · intro h before t after s heq hloop hdone
    cases hstatus : s.status with
    | some st => exact Or.inl rfl
    | none =>
      cases hrunning : stillRunning t.wait with
      | false => exact Or.inr (Or.inl rfl)
      | true =>
        have hblocks : blockingState a s t = some (checkDeadline a s t.now t.kill).1 :=
          blockingState_eq_some.mpr ⟨hdone, hstatus, hrunning, rfl⟩
        have hsent := h before t after s _ heq hloop hblocks
        rw [signals_at_check hloop, sigkill_sent_iff] at hsent
        exact Or.inr (Or.inr hsent)
  · intro h before t after s s' heq hloop hblocks
    have ⟨hdone, hstatus, hrunning, hchecked⟩ := blockingState_eq_some.mp hblocks
    rw [hchecked, signals_at_check hloop, sigkill_sent_iff]
    rcases h before t after s heq hloop hdone with hknown | hdead | hreached
    · rw [hstatus] at hknown
      cases hknown
    · rw [hrunning] at hdead
      cases hdead
    · exact hreached

/-- A child without captured streams that is waited for with a timeout of a millisecond. -/
def WaitArgs.millisecond (cancel : CancelPolicy) : WaitArgs :=
  ⟨⟨100⟩, some 1000000, 1000, cancel, .default⟩

/-- With nothing to drain, the first turn blocks until the child exits by itself. -/
theorem blocks_without_kill :
    ∃ a drain wait ts, a.deadline.isSome = true ∧ a.cancel ≠ .none ∧
      (waitLoop a drain wait ts).2 = .blocked ∧ signals (waitLoop a drain wait ts).1.ops = [] ∧
      ¬ KillsBeforeBlocking a drain wait ts := by
  refine ⟨.millisecond .graceful, .detached, [], [⟨0, none, [], [], .ok []⟩], rfl,
    (fun h => by cases h), rfl, rfl, fun h => ?_⟩
  have hsent := h [] _ [] _ _ rfl rfl rfl
  cases hsent

/-! ## The child that is gone -/

/-- The child's status was taken away. -/
def Reaped (ops : List SpawnOp) : Prop := ∃ op ∈ ops, op.reapedPids ≠ []

/-- No signal is sent after the child was reaped. -/
def SignalsOwned (ops : List SpawnOp) : Prop :=
  ops.Pairwise fun op op' => op.reapedPids ≠ [] → op'.signal = none

/-- A signal is due at the head of a turn. -/
def SignalDue (a : WaitArgs) (s : WaitState) (now : Instant) : Prop :=
  ∃ dl, a.deadline = some dl ∧ dl ≤ now ∧ (s.kill = .none ∧ a.cancel ≠ .none ∨
    s.kill = .termSent ∧ a.killGraceMs.toNat < (now - dl) / 1000000)

namespace WaitLoop

variable {a : WaitArgs} {s s' : WaitState}

theorem due_eq_none_iff (a : WaitArgs) (s : WaitState) (now : Instant) :
    due a s.kill now = none ↔ ¬ SignalDue a s now := by
  rw [← Option.not_isSome_iff_eq_none, not_iff_not, Option.isSome_iff_exists]
  constructor
  · intro ⟨signal, hdue⟩
    have ⟨dl, hdl, hpast, hcases⟩ := due_eq_some hdue
    refine ⟨dl, hdl, hpast, ?_⟩
    rcases hcases with ⟨hkill, hfirst⟩ | ⟨hkill, _, hover⟩
    · refine Or.inl ⟨hkill, fun hnone => ?_⟩
      rw [hnone] at hfirst
      cases hfirst
    · exact Or.inr ⟨hkill, hover⟩
  · intro ⟨dl, hdl, hpast, hcases⟩
    rcases hcases with ⟨hkill, hcancel⟩ | ⟨hkill, hover⟩
    · rw [hkill, due_past hdl hpast]
      cases hpolicy : a.cancel with
      | none => exact absurd hpolicy hcancel
      | graceful => exact ⟨SIGTERM, rfl⟩
      | kill => exact ⟨SIGKILL, rfl⟩
    · rw [hkill, due_termSent hdl, if_pos hover]
      exact ⟨SIGKILL, rfl⟩

theorem signal_eq_none {ops : List SpawnOp} (h : signals ops = []) {op : SpawnOp}
    (hop : op ∈ ops) : op.signal = none :=
  List.filterMap_eq_nil_iff.mp h op hop

theorem signalsOwned_of_calm {ops : List SpawnOp} (h : signals ops = []) : SignalsOwned ops :=
  List.pairwise_of_forall_mem_list fun _ _ _ hop _ => signal_eq_none h hop

/-- A turn keeps the signals owned if the child was not reaped or nothing is due. -/
theorem signalsOwned_turn (a : WaitArgs) (s : WaitState) (t : Turn) :
    SignalsOwned (turn a s t).1.ops ↔
      SignalsOwned s.ops ∧ (Reaped s.ops → ¬ SignalDue a s t.now) := by
  have ⟨ops, hops, hnone⟩ := (turn_spec a s t).ops
  rw [← due_eq_none_iff, hops, List.append_assoc]
  cases due a s.kill t.now with
  | none =>
    -- the turn sends nothing
    show SignalsOwned (s.ops ++ ops) ↔ _
    unfold SignalsOwned
    rw [List.pairwise_append]
    exact ⟨fun h => ⟨h.1, fun _ => rfl⟩, fun h => ⟨h.1, signalsOwned_of_calm hnone,
      fun _ _ _ hop _ => signal_eq_none hnone hop⟩⟩
  | some signal =>
    show SignalsOwned (s.ops ++ signalOp a signal :: ops) ↔ _
    unfold SignalsOwned
    rw [List.pairwise_append]
    constructor
    · intro ⟨hbefore, _, hall⟩
      refine ⟨hbefore, fun ⟨op, hop, hreaped⟩ => ?_⟩
      have hsignal := hall op hop _ List.mem_cons_self hreaped
      cases hsignal
    · intro ⟨hbefore, hreaped⟩
      refine ⟨hbefore, ?_, fun op hop _ _ hgone => ?_⟩
      · rw [List.pairwise_cons]
        exact ⟨fun _ _ hgone => absurd rfl hgone, signalsOwned_of_calm hnone⟩
      · have hdue := hreaped ⟨op, hop, hgone⟩
        cases hdue

/-- What holds of every turn that is taken holds of the first one and, if the loop goes on, of
every later one. -/
theorem forall_turns_cons {P : WaitState → Turn → Prop} {t : Turn} {ts : List Turn} :
    (∀ before u after s', t :: ts = before ++ u :: after → turns a s before = (s', .again) →
        P s' u) ↔
      P s t ∧ ∀ s₁, turn a s t = (s₁, .again) → ∀ before u after s', ts = before ++ u :: after →
        turns a s₁ before = (s', .again) → P s' u := by
  constructor
  · intro hall
    refine ⟨hall [] t ts s rfl rfl, fun s₁ hagain before u after s' heq hloop => ?_⟩
    refine hall (t :: before) u after s' (by rw [heq, List.cons_append]) ?_
    rw [turns_of_again hagain]
    exact hloop
  · intro ⟨hfirst, hrest⟩ before u after s' heq hloop
    cases before with
    | nil =>
      rw [List.nil_append, List.cons.injEq] at heq
      cases hloop
      rw [← heq.1]
      exact hfirst
    | cons v before =>
      rw [List.cons_append, List.cons.injEq] at heq
      rw [← heq.1] at hloop
      rcases turn_cases a s t with ⟨s₁, hagain⟩ | hstops
      · rw [turns_of_again hagain] at hloop
        exact hrest s₁ hagain before u after s' heq.2 hloop
      · -- there is no second turn
        rw [turns_of_stops hstops] at hloop
        rw [hloop] at hstops
        exact absurd rfl hstops

theorem signalsOwned_turns (a : WaitArgs) (s : WaitState) (ts : List Turn) :
    SignalsOwned (turns a s ts).1.ops ↔ SignalsOwned s.ops ∧
      ∀ before t after s', ts = before ++ t :: after → turns a s before = (s', .again) →
        Reaped s'.ops → ¬ SignalDue a s' t.now := by
  induction ts generalizing s with
  | nil =>
    refine ⟨fun h => ⟨h, fun before t after s' heq => ?_⟩, fun h => h.1⟩
    simp at heq
  | cons t ts ih =>
    have hturn := signalsOwned_turn a s t
    rw [forall_turns_cons]
    rcases turn_cases a s t with ⟨s₁, hagain⟩ | hstops
    · rw [hagain] at hturn
      rw [turns_of_again hagain, ih, hturn, and_assoc]
      refine and_congr_right' (and_congr_right' ⟨fun hrest s₂ heq => ?_, fun hall => ?_⟩)
      · rw [hagain] at heq
        cases heq
        exact hrest
      · exact hall s₁ hagain
    · rw [turns_of_stops hstops, hturn]
      refine and_congr_right' (iff_self_and.mpr fun _ s₁ hagain => ?_)
      rw [hagain] at hstops
      exact absurd rfl hstops

end WaitLoop

/-- For every drain, child, clock and schedule: `wait_loop` sends no signal after the child was
reaped if and only if none is due in any turn that begins with the child reaped. -/
theorem signals_owned_iff (a : WaitArgs) (drain : DrainState) (wait : List WaitAnswer)
    (ts : List Turn) :
    SignalsOwned (waitLoop a drain wait ts).1.ops ↔
      ∀ before t after s, ts = before ++ t :: after → waitLoop a drain wait before = (s, .again) →
        Reaped s.ops → ¬ SignalDue a s t.now := by
  have hcalm := step_calm a ⟨drain, none, .none, false, []⟩ wait
  unfold waitLoop
  generalize step a ⟨drain, none, .none, false, []⟩ wait = r at hcalm ⊢
  have ⟨s₀, result⟩ := r
  have hnone : ∀ s', Calm ⟨drain, none, .none, false, []⟩ s' → SignalsOwned s'.ops := by
    intro s' h
    have ⟨ops, hops, hsignals⟩ := h.ops
    rw [hops]
    exact signalsOwned_of_calm hsignals
  cases result with
  | ok =>
    dsimp only
    rw [signalsOwned_turns]
    exact and_iff_right (hnone s₀ hcalm)
  | error e =>
    refine ⟨fun _ before t after s _ hloop => ?_, fun _ => hnone _ (hcalm.trans (abandon_calm s₀))⟩
    cases hloop

/-- The child exits before the loop; a stream that a grandchild holds open keeps the loop going
until the deadline, when the pid is sent `SIGKILL`. -/
theorem signals_reaped_child :
    ∃ a drain wait ts, Reaped (waitLoop a drain wait []).1.ops ∧
      signals (waitLoop a drain wait ts).1.ops = [SIGKILL] ∧
      ¬ SignalsOwned (waitLoop a drain wait ts).1.ops := by
  refine ⟨.millisecond .kill, { DrainState.detached with stdoutSlot := some ⟨⟨0⟩, 5⟩ },
    [.reaped 0], [⟨2000000, none, [], [], .ok []⟩], ⟨_, List.mem_cons_self, fun h => by cases h⟩,
    by decide, fun h => ?_⟩
  have hops : SignalsOwned [.reaped 100, .signalled 100 SIGKILL, .polled 1] := h
  have hsignal := (List.pairwise_cons.mp hops).1 _ List.mem_cons_self (fun h => by cases h)
  cases hsignal

end CoreShift
