import CoreShift.Waiting

/-!
# The turns of `wait_loop`

What the loop sends depends on the readings of the clock, on the results of the signals sent
before, and on nothing else. `due` and `killNext` are that machine by itself; `turn_spec` says that
each turn of the loop takes one step of it, whatever the drain and the child do.
-/

namespace CoreShift

open Utils

/-- The signal that a policy asks for first. -/
def CancelPolicy.firstSignal : CancelPolicy → Option Int32
  | .none => Option.none
  | .graceful => some SIGTERM
  | .kill => some SIGKILL

/-- The signal that was sent. -/
def SpawnOp.signal : SpawnOp → Option Int32
  | .signalled _ signal => some signal
  | _ => none

/-- The signals that were sent, in order. -/
def signals (ops : List SpawnOp) : List Int32 := ops.filterMap SpawnOp.signal

theorem signals_append (ops ops' : List SpawnOp) :
    signals (ops ++ ops') = signals ops ++ signals ops' := List.filterMap_append

namespace WaitLoop

variable {a : WaitArgs} {s s' s'' : WaitState}

theorem signals_signalOps (a : WaitArgs) (sigs : List Int32) :
    signals (sigs.map (signalOp a)) = sigs := by
  unfold signals
  rw [List.filterMap_map]
  exact List.filterMap_some

/-! ## The machine -/

/-- The signal that is due, if any. -/
def due (a : WaitArgs) (kill : KillState) (now : Instant) : Option Int32 :=
  match a.deadline with
  | none => none
  | some dl =>
    if now ≥ dl then
      match kill with
      | .none => a.cancel.firstSignal
      | .termSent => if (now - dl) / 1000000 > a.killGraceMs.toNat then some SIGKILL else none
      | .killSent => none
    else none

/-- The state after the deadline was checked, given the `errno` of the signal. -/
def killNext (a : WaitArgs) (kill : KillState) (now : Instant) (errno : Option Int32) :
    KillState :=
  match due a kill now with
  | none => kill
  | some signal => if signal = SIGTERM ∧ killFails a errno = false then .termSent else .killSent

/-- The deadline is passed. -/
def isPast (a : WaitArgs) (now : Instant) : Bool := a.deadline.any fun dl => now ≥ dl

/-- The head of a turn is one step of the machine. -/
theorem checkDeadline_eq (a : WaitArgs) (s : WaitState) (now : Instant) (errno : Option Int32) :
    (checkDeadline a s now errno).1 =
      { s.did ((due a s.kill now).toList.map (signalOp a)) with
        kill := killNext a s.kill now errno
        timedOut := s.timedOut || isPast a now } := by
  have ⟨drain, status, kill, timedOut, ops⟩ := s
  unfold checkDeadline killNext due isPast
  cases a.deadline with
  | none => simp [WaitState.did]
  | some dl =>
    by_cases hpast : now ≥ dl
    · simp only [if_pos hpast, Option.any_some, decide_eq_true hpast, Bool.or_true]
      unfold escalate
      cases kill with
      | none =>
        cases a.cancel with
        | none => simp [WaitState.did, CancelPolicy.firstSignal]
        | graceful =>
          cases hfails : killFails a errno <;> simp [WaitState.did, CancelPolicy.firstSignal]
        | kill => simp [WaitState.did, CancelPolicy.firstSignal, SIGTERM, SIGKILL]
      | termSent =>
        by_cases hover : (now - dl) / 1000000 > a.killGraceMs.toNat
        · simp [WaitState.did, hover, SIGTERM, SIGKILL]
        · simp [WaitState.did, hover]
      | killSent => simp [WaitState.did]
    · simp [WaitState.did, hpast]

/-! ## The rest of a turn -/

/-- Something was done, and no signal sent. -/
structure Calm (s s' : WaitState) : Prop where
  ops : ∃ ops, s'.ops = s.ops ++ ops ∧ signals ops = []
  kill : s'.kill = s.kill
  timedOut : s'.timedOut = s.timedOut

namespace Calm

theorem refl (s : WaitState) : Calm s s := ⟨⟨[], (List.append_nil _).symm, rfl⟩, rfl, rfl⟩

theorem trans (h : Calm s s') (h' : Calm s' s'') : Calm s s'' := by
  have ⟨ops, hops, hnone⟩ := h.ops
  have ⟨ops', hops', hnone'⟩ := h'.ops
  refine ⟨⟨ops ++ ops', ?_, ?_⟩, h'.kill.trans h.kill, h'.timedOut.trans h.timedOut⟩
  · rw [hops', hops, List.append_assoc]
  · rw [signals_append, hnone, hnone']
    rfl

theorem did {ops : List SpawnOp} (h : signals ops = []) : Calm s (s.did ops) :=
  ⟨⟨ops, rfl, h⟩, rfl, rfl⟩

/-- The drain and the status may change as well. -/
theorem of_fields (h : Calm s s') (hops : s''.ops = s'.ops) (hkill : s''.kill = s'.kill)
    (htimed : s''.timedOut = s'.timedOut) : Calm s s'' := by
  refine ⟨?_, hkill.trans h.kill, htimed.trans h.timedOut⟩
  rw [hops]
  exact h.ops

end Calm

theorem signals_map {α : Type} (f : α → SpawnOp) (l : List α) (h : ∀ x, (f x).signal = none) :
    signals (l.map f) = [] := by
  unfold signals
  rw [List.filterMap_map, List.filterMap_eq_nil_iff]
  exact fun x _ => h x

theorem signals_flatMap {α : Type} (f : α → List SpawnOp) (l : List α)
    (h : ∀ x, signals (f x) = []) : signals (l.flatMap f) = [] := by
  induction l with
  | nil => rfl
  | cons x l ih =>
    rw [List.flatMap_cons, signals_append, h x, ih]
    rfl

theorem abandon_calm (s : WaitState) : Calm s s.abandon :=
  .of_fields (.did (signals_map _ _ fun _ => rfl)) rfl rfl rfl

theorem step_calm (a : WaitArgs) (s : WaitState) (wait : List WaitAnswer) :
    Calm s (step a s wait).1 := by
  unfold step
  split
  · exact .refl s
  · split
    · exact .refl s
    · have hreaped : Calm s (s.did (reapedOps a.process (reapsChild wait))) := by
        refine .did ?_
        unfold reapedOps
        split <;> rfl
      exact hreaped.of_fields rfl rfl rfl

theorem readStream_calm (s : WaitState) (isStdout : Bool) (reads : List ReadAnswer) :
    Calm s (readStream s isStdout reads).1 := by
  unfold readStream
  dsimp only
  split
  · exact .of_fields (.refl s) rfl rfl rfl
  · exact .of_fields (.did (signals_map _ _ fun _ => rfl)) rfl rfl rfl

theorem writeStream_calm (s : WaitState) (writes : List WriteAnswer) :
    Calm s (writeStream s writes) := by
  have hwrote : ∀ taken, Calm s
      { s.did (s.drain.stdinSlot.toList.map fun slot => .wrote slot.fd taken) with
        drain := (s.drain.writeStdin writes).1 } := by
    intro taken
    exact .of_fields (.did (signals_map _ s.drain.stdinSlot.toList fun _ => rfl)) rfl rfl rfl
  exact (hwrote _).trans (.did (signals_map _ _ fun _ => rfl))

theorem hangUp_calm (s : WaitState) (slot : Option FdSlot) (drain : DrainState) :
    Calm s { s.did (hangUpOps slot) with drain := drain } :=
  .of_fields (.did (signals_flatMap _ _ fun _ => rfl)) rfl rfl rfl

theorem handleEvent_calm (s : WaitState) (ev : PollEvent) : Calm s (handleEvent s ev).1 := by
  unfold handleEvent
  dsimp only
  split
  · split
    · exact hangUp_calm s _ _
    · split
      · exact hangUp_calm s _ _
      · split
        · exact hangUp_calm s _ _
        · exact .refl s
  · split
    · exact readStream_calm s true ev.reads
    · split
      · exact readStream_calm s false ev.reads
      · split
        · exact writeStream_calm s ev.writes
        · exact .refl s

theorem handleEvents_calm (s : WaitState) (evs : List PollEvent) :
    Calm s (handleEvents s evs).1 := by
  induction evs generalizing s with
  | nil => exact .refl s
  | cons ev evs ih =>
    have hone := handleEvent_calm s ev
    unfold handleEvents
    split
    · next heq =>
      rw [heq] at hone
      exact hone
    · next heq =>
      rw [heq] at hone
      exact hone.trans (ih _)

theorem finish_calm (a : WaitArgs) (s : WaitState) (blocking : List (Except Int32 Int32)) :
    Calm s (finish a s blocking).1 := by
  have hreaped : ∀ reaps, Calm s (s.did (reapedOps a.process reaps)) := by
    intro reaps
    refine .did ?_
    unfold reapedOps
    split <;> rfl
  unfold finish
  dsimp only
  split
  · exact hreaped _
  · exact (hreaped _).trans (abandon_calm _)
  · refine (hreaped _).trans (.of_fields (.did ?_) rfl rfl rfl)
    exact signals_flatMap _ _ fun _ => rfl

theorem poll_calm (s : WaitState) (pollTimeout : Int32) (epoll : Except Int32 (List PollEvent)) :
    Calm s (poll s pollTimeout epoll).1 := by
  have hpolled : ∀ timeout, Calm s (s.did [.polled timeout]) := fun timeout => .did rfl
  unfold poll
  dsimp only
  split
  · exact (hpolled _).trans (abandon_calm _)
  · next events _ =>
    generalize hr : handleEvents _ events = r
    have hevents := (hpolled _).trans (hr ▸ handleEvents_calm _ events)
    have ⟨s', result⟩ := r
    cases result with
    | error e => exact hevents.trans (abandon_calm s')
    | ok => exact hevents

theorem finish_output {blocking : List (Except Int32 Int32)} {out : Output}
    (h : (finish a s blocking).2 = .returned (.ok out)) :
    out.timedOut = (finish a s blocking).1.timedOut := by
  unfold finish at h ⊢
  dsimp only at h ⊢
  split at h
  · cases h
  · cases h
  · cases h
    rfl

theorem poll_output (s : WaitState) (pollTimeout : Int32) (epoll : Except Int32 (List PollEvent))
    (out : Output) : (poll s pollTimeout epoll).2 ≠ .returned (.ok out) := by
  unfold poll
  dsimp only
  split
  · exact fun h => by cases h
  · split
    · exact fun h => by cases h
    · exact fun h => by cases h

/-! ## A turn -/

/-- What one turn does to the escalation, whatever it comes to. -/
structure TurnSpec (a : WaitArgs) (s : WaitState) (t : Turn) (r : WaitState × Verdict) : Prop where
  ops : ∃ ops, r.1.ops = s.ops ++ (due a s.kill t.now).toList.map (signalOp a) ++ ops ∧
    signals ops = []
  kill : r.1.kill = killNext a s.kill t.now t.kill
  timedOut : r.1.timedOut = (s.timedOut || isPast a t.now)
  output : ∀ out, r.2 = .returned (.ok out) → out.timedOut = r.1.timedOut

theorem turn_spec (a : WaitArgs) (s : WaitState) (t : Turn) : TurnSpec a s t (turn a s t) := by
  have hcheck := checkDeadline_eq a s t.now t.kill
  unfold turn
  generalize checkDeadline a s t.now t.kill = checked at hcheck ⊢
  have ⟨s₁, pollTimeout⟩ := checked
  change s₁ = _ at hcheck
  -- what follows the check is calm
  have hafter : ∀ r : WaitState × Verdict, Calm s₁ r.1 →
      (∀ out, r.2 = .returned (.ok out) → out.timedOut = r.1.timedOut) → TurnSpec a s t r := by
    intro r hcalm hout
    have ⟨ops, hops, hnone⟩ := hcalm.ops
    refine ⟨⟨ops, ?_, hnone⟩, ?_, ?_, hout⟩
    · rw [hops, hcheck]
      rfl
    · rw [hcalm.kill, hcheck]
    · rw [hcalm.timedOut, hcheck]
  have hstep := step_calm a s₁ t.wait
  dsimp only
  generalize step a s₁ t.wait = stepped at hstep ⊢
  have ⟨s₂, result⟩ := stepped
  cases result with
  | error e => exact hafter _ (hstep.trans (abandon_calm s₂)) (fun out h => by cases h)
  | ok =>
    dsimp only
    split
    · exact hafter _ (hstep.trans (finish_calm a s₂ t.blocking)) fun out => finish_output
    · exact hafter _ (hstep.trans (poll_calm s₂ pollTimeout t.epoll)) fun out h =>
        absurd h (poll_output s₂ pollTimeout t.epoll out)

/-! ## All turns -/

/-- The turns that are taken. -/
def executed (a : WaitArgs) (s : WaitState) : List Turn → List Turn
  | [] => []
  | t :: ts => t :: match turn a s t with
    | (s', .again) => executed a s' ts
    | _ => []

/-- A signal, with the turn that sends it. -/
structure Sent where
  turn : Turn
  signal : Int32

/-- The signals that the machine sends in some turns. -/
def sends (a : WaitArgs) (kill : KillState) : List Turn → List Sent
  | [] => []
  | t :: ts => (due a kill t.now).toList.map (⟨t, ·⟩) ++ sends a (killNext a kill t.now t.kill) ts

/-- The state of the machine after some turns. -/
def killAfter (a : WaitArgs) (kill : KillState) : List Turn → KillState
  | [] => kill
  | t :: ts => killAfter a (killNext a kill t.now t.kill) ts

theorem turn_cases (a : WaitArgs) (s : WaitState) (t : Turn) :
    (∃ s', turn a s t = (s', .again)) ∨ (turn a s t).2 ≠ .again := by
  generalize turn a s t = r
  have ⟨s', v⟩ := r
  cases v with
  | again => exact Or.inl ⟨s', rfl⟩
  | blocked | returned => exact Or.inr fun h => by cases h

theorem turns_of_again {t : Turn} {ts : List Turn} (h : turn a s t = (s', .again)) :
    turns a s (t :: ts) = turns a s' ts := by
  rw [turns, h]

theorem executed_of_again {t : Turn} {ts : List Turn} (h : turn a s t = (s', .again)) :
    executed a s (t :: ts) = t :: executed a s' ts := by
  rw [executed, h]

theorem executed_of_stops {t : Turn} {ts : List Turn} (h : (turn a s t).2 ≠ .again) :
    executed a s (t :: ts) = [t] := by
  unfold executed
  generalize turn a s t = r at h ⊢
  have ⟨s', v⟩ := r
  cases v with
  | again => exact absurd rfl h
  | blocked | returned => rfl

/-- The signals of one turn. -/
theorem turn_signals (a : WaitArgs) (s : WaitState) (t : Turn) :
    signals (turn a s t).1.ops = signals s.ops ++ (due a s.kill t.now).toList := by
  have ⟨ops, hops, hnone⟩ := (turn_spec a s t).ops
  rw [hops, signals_append, signals_append, signals_signalOps, hnone, List.append_nil]

theorem sends_cons (kill : KillState) (t : Turn) (ts : List Turn) :
    (sends a kill (t :: ts)).map Sent.signal = (due a kill t.now).toList ++
      (sends a (killNext a kill t.now t.kill) ts).map Sent.signal := by
  rw [sends, List.map_append, List.map_map]
  exact congrArg (· ++ _) (List.map_id _)

/-- The loop sends what the machine sends in the turns that are taken. -/
theorem turns_signals (a : WaitArgs) (s : WaitState) (ts : List Turn) :
    signals (turns a s ts).1.ops =
      signals s.ops ++ (sends a s.kill (executed a s ts)).map Sent.signal := by
  induction ts generalizing s with
  | nil => exact (List.append_nil _).symm
  | cons t ts ih =>
    rcases turn_cases a s t with ⟨s', hagain⟩ | hstops
    · have hsignals := turn_signals a s t
      have hkill := (turn_spec a s t).kill
      rw [hagain] at hsignals hkill
      dsimp only at hsignals hkill
      rw [turns_of_again hagain, executed_of_again hagain, ih, hsignals, sends_cons, hkill,
        List.append_assoc]
    · rw [turns_of_stops hstops, executed_of_stops hstops, turn_signals, sends_cons]
      show _ = _ ++ (_ ++ [])
      rw [List.append_nil]

/-- As long as the loop goes on, all turns are taken. -/
theorem executed_append {ts ts' : List Turn} (h : turns a s ts = (s', .again)) :
    executed a s (ts ++ ts') = ts ++ executed a s' ts' := by
  induction ts generalizing s with
  | nil =>
    cases h
    rfl
  | cons t ts ih =>
    rcases turn_cases a s t with ⟨s₁, hagain⟩ | hstops
    · rw [turns_of_again hagain] at h
      rw [List.cons_append, executed_of_again hagain, ih h, List.cons_append]
    · rw [turns_of_stops hstops] at h
      rw [h] at hstops
      exact absurd rfl hstops

/-- As long as the loop goes on, it has sent what the machine sends in all turns. -/
theorem turns_sent {ts : List Turn} (h : turns a s ts = (s', .again)) :
    signals s'.ops = signals s.ops ++ (sends a s.kill ts).map Sent.signal := by
  have hall : executed a s (ts ++ []) = ts ++ executed a s' [] := executed_append h
  rw [List.append_nil, show executed a s' [] = [] from rfl, List.append_nil] at hall
  have hsignals := turns_signals a s ts
  rw [h, hall] at hsignals
  exact hsignals

/-- The state of the escalation is that of the machine. -/
theorem turns_kill {ts : List Turn} (h : turns a s ts = (s', .again)) :
    s'.kill = killAfter a s.kill ts := by
  induction ts generalizing s with
  | nil =>
    cases h
    rfl
  | cons t ts ih =>
    rcases turn_cases a s t with ⟨s₁, hagain⟩ | hstops
    · rw [turns_of_again hagain] at h
      have hkill := (turn_spec a s t).kill
      rw [hagain] at hkill
      rw [ih h, killAfter, ← hkill]
    · rw [turns_of_stops hstops] at h
      rw [h] at hstops
      exact absurd rfl hstops

theorem sends_append (kill : KillState) (ts ts' : List Turn) :
    sends a kill (ts ++ ts') = sends a kill ts ++ sends a (killAfter a kill ts) ts' := by
  induction ts generalizing kill with
  | nil => rfl
  | cons t ts ih =>
    rw [List.cons_append, sends, ih, sends, killAfter, List.append_assoc]

end WaitLoop
end CoreShift
