import CoreShift.Turns
import CoreShift.Utils.Runs
import Mathlib.Logic.Function.Basic

/-!
# Output at a hang-up

The descriptors are registered edge-triggered, and one event can tell of data and of the end of
the writers at once. `wait_loop` looks at the error flag first and gives the stream up, so that
what is in the pipe then is never read.

`drawFrom` is the pipe's side of `read_from_fd`: what is left in it, given what was left before.
-/

namespace CoreShift

open Utils

/-! ## Reading from a pipe -/

namespace BufferState

variable {b : BufferState} {isStdout : Bool}

/-- What the next `read` asks for: beyond the limit, the data is read to be discarded. -/
def count (b : BufferState) (isStdout : Bool) : ℕ :=
  let room := b.limit - (b.dest isStdout).length
  if room = 0 then 8192 else min room READ_CHUNK

/-- The buffer with what a `read` handed over. -/
def keep (b : BufferState) (isStdout : Bool) (got : Bytes) : BufferState :=
  b.extend isStdout (got.take (b.limit - (b.dest isStdout).length))

/-- What `read_from_fd` leaves in the pipe, if the answers are those of a pipe: a `read` hands over
the bytes that come next, and none only when all were read and no writer is left. -/
def drawFrom (b : BufferState) (isStdout : Bool) : List ReadAnswer → Bytes → Option Bytes
  | [], left => some left
  | .fail code :: answers, left =>
    if code = EINTR then b.drawFrom isStdout answers left else some left
  | .data bytes :: answers, left =>
    let got := bytes.take (b.count isStdout)
    if got = [] then (if left = [] then some [] else none)
    else if got.isPrefixOf left then
      (b.keep isStdout got).drawFrom isStdout answers (left.drop got.length)
    else none

@[simp] theorem extend_nil (b : BufferState) (isStdout : Bool) : b.extend isStdout [] = b := by
  cases isStdout <;> simp [extend]

@[simp] theorem extend_limit (b : BufferState) (isStdout : Bool) (bytes : Bytes) :
    (b.extend isStdout bytes).limit = b.limit := by
  cases isStdout <;> rfl

@[simp] theorem extend_dest (b : BufferState) (isStdout : Bool) (bytes : Bytes) :
    (b.extend isStdout bytes).dest isStdout = b.dest isStdout ++ bytes := by
  cases isStdout <;> rfl

theorem extend_dest_other (b : BufferState) (isStdout : Bool) (bytes : Bytes) :
    (b.extend isStdout bytes).dest (!isStdout) = b.dest (!isStdout) := by
  cases isStdout <;> rfl

/-- The destination holds what was read first, as far as the limit allows. -/
def Holds (b : BufferState) (isStdout : Bool) (taken : Bytes) : Prop :=
  b.dest isStdout = taken.take b.limit

theorem Holds.keep {taken : Bytes} (h : b.Holds isStdout taken) (got : Bytes) :
    (b.keep isStdout got).Holds isStdout (taken ++ got) := by
  unfold Holds BufferState.keep at *
  rw [extend_dest, extend_limit, h, List.take_append, List.length_take]
  congr 2
  omega

theorem Holds.nothing {taken : Bytes} (h : b.Holds isStdout taken) :
    b.Holds isStdout (taken ++ []) := by
  rwa [List.append_nil]

/-- One `read` with an answer of the pipe. -/
theorem readFromFd_data (b : BufferState) (isStdout : Bool) (bytes : Bytes)
    (answers : List ReadAnswer) :
    b.readFromFd isStdout none (.data bytes :: answers) =
      if bytes.take (b.count isStdout) = [] then (b, .ok true, answers)
      else (b.keep isStdout (bytes.take (b.count isStdout))).readFromFd isStdout none answers := by
  conv_lhs => unfold readFromFd
  unfold count keep
  dsimp only
  by_cases hroom : b.limit - (b.dest isStdout).length = 0
  · rw [if_pos hroom, if_pos hroom, hroom, List.take_zero, extend_nil]
    by_cases hgot : bytes.take 8192 = []
    · rw [if_pos hgot, if_neg (by rw [hgot]; exact Nat.not_lt_zero 0)]
    · rw [if_neg hgot, if_pos (List.length_pos_iff.mpr hgot)]
  · rw [if_neg hroom, if_neg hroom]
    -- no more is read than there is room for
    have hfits : ∀ n, (bytes.take (min n READ_CHUNK)).take n = bytes.take (min n READ_CHUNK) := by
      intro n
      rw [List.take_take, ← min_assoc, min_self]
    rw [hfits, Option.any_none, Bool.and_false]
    by_cases hgot : bytes.take (min (b.limit - (b.dest isStdout).length) READ_CHUNK) = []
    · rw [if_pos hgot, if_neg (by rw [hgot]; exact Nat.not_lt_zero 0)]
    · rw [if_neg hgot, if_pos (List.length_pos_iff.mpr hgot)]
      rfl

@[simp] theorem keep_limit (b : BufferState) (isStdout : Bool) (got : Bytes) :
    (b.keep isStdout got).limit = b.limit := extend_limit b isStdout _

theorem keep_dest_other (b : BufferState) (isStdout : Bool) (got : Bytes) :
    (b.keep isStdout got).dest (!isStdout) = b.dest (!isStdout) := extend_dest_other b isStdout _

/-- What `read_from_fd` does to a pipe and to the buffer. -/
theorem readFromFd_spec {answers : List ReadAnswer} {left left' : Bytes}
    (h : b.drawFrom isStdout answers left = some left') :
    ∃ got, left = got ++ left' ∧
      (∀ taken, b.Holds isStdout taken →
        (b.readFromFd isStdout none answers).1.Holds isStdout (taken ++ got)) ∧
      (b.readFromFd isStdout none answers).1.limit = b.limit ∧
      (b.readFromFd isStdout none answers).1.dest (!isStdout) = b.dest (!isStdout) ∧
      ((b.readFromFd isStdout none answers).2.1 = .ok true → left' = []) := by
  induction answers generalizing b left with
  | nil =>
    cases h
    exact ⟨[], rfl, fun _ => Holds.nothing, rfl, rfl, fun h => by cases h⟩
  | cons ans answers ih =>
    cases ans with
    | fail code =>
      unfold drawFrom at h
      unfold readFromFd
      by_cases hintr : code = EINTR
      · rw [if_pos hintr] at h ⊢
        exact ih h
      · rw [if_neg hintr] at h ⊢
        cases h
        by_cases hagain : code = EAGAIN
        · rw [if_pos hagain]
          exact ⟨[], rfl, fun _ => Holds.nothing, rfl, rfl, fun h => by cases h⟩
        · rw [if_neg hagain]
          exact ⟨[], rfl, fun _ => Holds.nothing, rfl, rfl, fun h => by cases h⟩
    | data bytes =>
      unfold drawFrom at h
      dsimp only at h
      rw [readFromFd_data]
      by_cases hgot : bytes.take (b.count isStdout) = []
      · rw [if_pos hgot] at h ⊢
        -- the end of the pipe
        split at h
        · next hleft =>
          cases h
          exact ⟨[], hleft, fun _ => Holds.nothing, rfl, rfl, fun _ => rfl⟩
        · cases h
      · rw [if_neg hgot] at h ⊢
        split at h
        · next hprefix =>
          have ⟨rest, hrest⟩ := List.isPrefixOf_iff_prefix.mp hprefix
          have ⟨got, hleft, hholds, hlimit, hother, heof⟩ := ih h
          rw [← hrest, List.drop_left] at hleft
          refine ⟨bytes.take (b.count isStdout) ++ got, ?_, ?_, ?_, ?_, heof⟩
          · rw [← hrest, hleft, List.append_assoc]
          · intro taken htaken
            rw [← List.append_assoc]
            exact hholds _ (htaken.keep _)
          · rw [hlimit, keep_limit]
          · rw [hother, keep_dest_other]
        · cases h

end BufferState

/-! ## One event -/

/-- What is left in the pipes of the two outputs. -/
abbrev Left := Bool → Bytes

namespace DrainState

/-- What `wait_loop` makes of an event. -/
def serve (d : DrainState) (ev : PollEvent) : DrainState × Except SysError Unit :=
  let r := WaitLoop.handleEvent ⟨d, none, .none, false, []⟩ ev
  (r.1.drain, r.2)

/-- The output that is read for an event, if one is. -/
def readBy (d : DrainState) (ev : PollEvent) : Option Bool :=
  if ev.event.error then none
  else if WaitLoop.owns d.stdoutSlot ev.event.token && ev.event.readable then some true
  else if WaitLoop.owns d.stderrSlot ev.event.token && ev.event.readable then some false
  else none

/-- The output that is given up for an event, if one is. -/
def hungUpBy (d : DrainState) (ev : PollEvent) : Option Bool :=
  if ev.event.error then
    if WaitLoop.owns d.stdoutSlot ev.event.token then some true
    else if WaitLoop.owns d.stderrSlot ev.event.token then some false
    else none
  else none

/-- What an event leaves in the pipes, if the answers are theirs. -/
def drawFrom (d : DrainState) (ev : PollEvent) (left : Left) : Option Left :=
  match d.readBy ev with
  | none => some left
  | some isStdout =>
    (d.buffer.drawFrom isStdout ev.reads (left isStdout)).map (Function.update left isStdout)

/-- The drain without the slot of an output. -/
def giveUp (d : DrainState) (isStdout : Bool) : DrainState :=
  if isStdout then { d with stdoutSlot := none } else { d with stderrSlot := none }

end DrainState

open DrainState

/-- The drain after an event is that of the loop. -/
theorem handleEvent_drain (s : WaitState) (ev : PollEvent) :
    ((WaitLoop.handleEvent s ev).1.drain, (WaitLoop.handleEvent s ev).2) = s.drain.serve ev := by
  unfold serve WaitLoop.handleEvent WaitLoop.readStream WaitLoop.writeStream
  dsimp only [WaitState.did]
  split
  · split
    · rfl
    · split
      · rfl
      · split <;> rfl
  · split
    · cases (s.drain.readFd true ev.reads).2 <;> rfl
    · split
      · cases (s.drain.readFd false ev.reads).2 <;> rfl
      · split <;> rfl

theorem isSome_of_owns {slot : Option FdSlot} {token : Token}
    (h : WaitLoop.owns slot token = true) : slot.isSome = true := by
  cases slot with
  | none => cases h
  | some => rfl

/-- Writing leaves the outputs alone. -/
theorem writeStdin_outputs (d : DrainState) (answers : List WriteAnswer) :
    (d.writeStdin answers).1.buffer = d.buffer ∧
      (∀ i, (d.writeStdin answers).1.readSlot i = d.readSlot i) ∧
      (d.writeStdin answers).1.earlyExit = d.earlyExit := by
  unfold writeStdin
  split
  · exact ⟨rfl, fun _ => rfl, rfl⟩
  · dsimp only
    split <;> exact ⟨rfl, fun _ => rfl, rfl⟩

/-- An event is a read, a hang-up, or leaves the outputs alone. -/
theorem serve_cases (d : DrainState) (ev : PollEvent) :
    (∃ i, d.readBy ev = some i ∧ d.hungUpBy ev = none ∧ (d.readSlot i).isSome = true ∧
      d.serve ev = ((d.readFd i ev.reads).1, (d.readFd i ev.reads).2.map fun _ => ())) ∨
    (∃ i, d.readBy ev = none ∧ d.hungUpBy ev = some i ∧ (d.readSlot i).isSome = true ∧
      d.serve ev = (d.giveUp i, .ok ())) ∨
    (d.readBy ev = none ∧ d.hungUpBy ev = none ∧ (d.serve ev).1.buffer = d.buffer ∧
      (∀ i, (d.serve ev).1.readSlot i = d.readSlot i) ∧
      (d.serve ev).1.earlyExit = d.earlyExit) := by
  unfold serve WaitLoop.handleEvent readBy hungUpBy
  dsimp only
  cases herr : ev.event.error with
  | true =>
    cases hout : WaitLoop.owns d.stdoutSlot ev.event.token with
    | true => exact Or.inr (Or.inl ⟨true, rfl, rfl, isSome_of_owns hout, rfl⟩)
    | false =>
      cases herr : WaitLoop.owns d.stderrSlot ev.event.token with
      | true => exact Or.inr (Or.inl ⟨false, rfl, rfl, isSome_of_owns herr, rfl⟩)
      | false =>
        cases WaitLoop.owns d.stdinSlot ev.event.token with
        | true => exact Or.inr (Or.inr ⟨rfl, rfl, rfl, fun _ => rfl, rfl⟩)
        | false => exact Or.inr (Or.inr ⟨rfl, rfl, rfl, fun _ => rfl, rfl⟩)
  | false =>
    cases hout : WaitLoop.owns d.stdoutSlot ev.event.token && ev.event.readable with
    | true =>
      rw [Bool.and_eq_true] at hout
      refine Or.inl ⟨true, rfl, rfl, isSome_of_owns hout.1, ?_⟩
      unfold WaitLoop.readStream
      cases hread : (d.readFd true ev.reads).2 <;> simp [hread, WaitState.did, Except.map]
    | false =>
      cases herr : WaitLoop.owns d.stderrSlot ev.event.token && ev.event.readable with
      | true =>
        rw [Bool.and_eq_true] at herr
        refine Or.inl ⟨false, rfl, rfl, isSome_of_owns herr.1, ?_⟩
        unfold WaitLoop.readStream
        cases hread : (d.readFd false ev.reads).2 <;> simp [hread, WaitState.did, Except.map]
      | false =>
        cases WaitLoop.owns d.stdinSlot ev.event.token && ev.event.writable with
        | true => exact Or.inr (Or.inr ⟨rfl, rfl, writeStdin_outputs d ev.writes⟩)
        | false => exact Or.inr (Or.inr ⟨rfl, rfl, rfl, fun _ => rfl, rfl⟩)

/-- A read of an output that does not fail: the slot is given up at the end of the stream. -/
theorem readFd_spec {d : DrainState} {i : Bool} {answers : List ReadAnswer}
    (hslot : (d.readSlot i).isSome = true)
    (hok : (d.readFd i answers).2.map (fun _ => ()) = .ok ()) :
    let r := d.buffer.readFromFd i d.earlyExit answers
    (d.readFd i answers).1.buffer = r.1 ∧ (d.readFd i answers).1.earlyExit = d.earlyExit ∧
      (d.readFd i answers).1.readSlot (!i) = d.readSlot (!i) ∧
      ((d.readFd i answers).1.readSlot i = d.readSlot i ∨
        (d.readFd i answers).1.readSlot i = none ∧ r.2.1 = .ok true) := by
  have ⟨slot, hslot⟩ := Option.isSome_iff_exists.mp hslot
  unfold readFd at hok ⊢
  rw [hslot] at hok ⊢
  dsimp only at hok ⊢
  cases hr : (d.buffer.readFromFd i d.earlyExit answers).2.1 with
  | error e =>
    rw [hr] at hok
    cases hok
  | ok done =>
    cases done with
    | false => exact ⟨rfl, rfl, rfl, Or.inl hslot⟩
    | true => cases i <;> exact ⟨rfl, rfl, rfl, Or.inr ⟨rfl, rfl⟩⟩

/-! ## All events -/

/-- The drain and the pipes take one step. -/
def Serves (x : DrainState × Left) (ev : PollEvent) (y : DrainState × Left) : Prop :=
  x.1.serve ev = (y.1, .ok ()) ∧ x.1.drawFrom ev x.2 = some y.2

/-- An event with the drain and the pipes before and after it. -/
abbrev Served := Moment (DrainState × Left) PollEvent

/-- What a step does to the stream of an output: it is left alone, read, or given up. -/
inductive StreamStep (i : Bool) (x y : DrainState × Left) (ev : PollEvent) : Prop
  | other : x.1.hungUpBy ev ≠ some i → y.1.readSlot i = x.1.readSlot i →
      y.1.buffer.dest i = x.1.buffer.dest i → y.2 i = x.2 i → StreamStep i x y ev
  | read (got : Bytes) : x.1.hungUpBy ev ≠ some i → (x.1.readSlot i).isSome = true →
      x.2 i = got ++ y.2 i →
      (∀ taken, x.1.buffer.Holds i taken → y.1.buffer.Holds i (taken ++ got)) →
      (y.1.readSlot i = x.1.readSlot i ∨ y.1.readSlot i = none ∧ y.2 i = []) →
      StreamStep i x y ev
  | hungUp : x.1.hungUpBy ev = some i → (x.1.readSlot i).isSome = true →
      y.1.readSlot i = none → y.1.buffer.dest i = x.1.buffer.dest i → y.2 i = x.2 i →
      StreamStep i x y ev

theorem Serves.stream {x y : DrainState × Left} {ev : PollEvent} (h : Serves x ev y)
    (hearly : x.1.earlyExit = none) (i : Bool) :
    StreamStep i x y ev ∧ y.1.earlyExit = none ∧ y.1.buffer.limit = x.1.buffer.limit := by
  have ⟨d, left⟩ := x
  have ⟨d', left'⟩ := y
  have ⟨hserve, hdraw⟩ := h
  dsimp only at hserve hdraw hearly ⊢
  unfold DrainState.drawFrom at hdraw
  rcases serve_cases d ev with ⟨j, hread, hno, hslot, heq⟩ | ⟨j, hread, hup, hslot, heq⟩ |
    ⟨hread, hno, hbuffer, hslots, hexit⟩
  · -- the event makes the drain read
    rw [heq, Prod.mk.injEq] at hserve
    have ⟨hd', hok⟩ := hserve
    have ⟨hbuf, hexit, hother, hslot'⟩ := readFd_spec hslot hok
    rw [hearly] at hbuf hslot' hexit
    rw [hd'] at hbuf hexit hother hslot'
    rw [hread] at hdraw
    have ⟨rest, hdrawn, hleft⟩ := Option.map_eq_some_iff.mp hdraw
    have ⟨got, hgot, hholds, hlimit, hdest, heof⟩ := BufferState.readFromFd_spec hdrawn
    rw [← hbuf] at hholds hlimit hdest
    refine ⟨?_, hexit, hlimit⟩
    by_cases hij : i = j
    · have hrest : left' j = rest := by rw [← hleft, Function.update_self]
      rw [hij]
      refine .read got (by rw [hno]; exact fun h => by cases h) hslot ?_ hholds ?_
      · show left j = got ++ left' j
        rw [hrest]
        exact hgot
      · show _ ∨ _ ∧ left' j = []
        rw [hrest]
        rcases hslot' with hsame | ⟨hgone, hend⟩
        · exact Or.inl hsame
        · exact Or.inr ⟨hgone, heof hend⟩
    · -- the other output
      have hi : i = !j := by cases i <;> cases j <;> simp at hij ⊢
      refine .other (by rw [hno]; exact fun h => by cases h) ?_ ?_ ?_
      · rw [hi]
        exact hother
      · rw [hi]
        exact hdest
      · rw [← hleft]
        exact Function.update_of_ne hij _ _
  · -- the slot is given up
    rw [heq, Prod.mk.injEq] at hserve
    rw [hread, Option.some.injEq] at hdraw
    rw [← hserve.1, ← hdraw]
    have hbuffer : (d.giveUp j).buffer = d.buffer := by cases j <;> rfl
    have hexit : (d.giveUp j).earlyExit = d.earlyExit := by cases j <;> rfl
    refine ⟨?_, hexit.trans hearly, by rw [hbuffer]⟩
    by_cases hij : i = j
    · rw [hij]
      exact .hungUp hup hslot (by cases j <;> rfl) (by rw [hbuffer]) rfl
    · refine .other (by rw [hup]; exact fun h => hij (Option.some.inj h).symm) ?_ (by rw [hbuffer])
        rfl
      cases i <;> cases j <;> first | rfl | exact absurd rfl hij
  · rw [hread, Option.some.injEq] at hdraw
    have hd' : d' = (d.serve ev).1 := by rw [hserve]
    rw [← hd'] at hbuffer hslots hexit
    rw [← hdraw]
    refine ⟨?_, hexit.trans hearly, by rw [hbuffer]⟩
    exact .other (by rw [hno]; exact fun h => by cases h) (hslots i) (by rw [hbuffer]) rfl

/-- The stream is at its end, as far as the limit goes: the buffer is full, or the pipe empty. -/
def AtEnd (x : DrainState × Left) (isStdout : Bool) : Prop :=
  x.1.buffer.limit ≤ (x.1.buffer.dest isStdout).length ∨ x.2 isStdout = []

/-- A stream that is drained from a pipe with the bytes `written` in it. -/
structure Draining (written : Bytes) (isStdout : Bool) (limit : ℕ) (past : List Served)
    (x : DrainState × Left) : Prop where
  early : x.1.earlyExit = none
  limit : x.1.buffer.limit = limit
  taken : ∃ taken, written = taken ++ x.2 isStdout ∧ x.1.buffer.Holds isStdout taken
  opened : (x.1.readSlot isStdout).isSome = true →
    ∀ m ∈ past, m.before.1.hungUpBy m.label ≠ some isStdout
  gone : x.1.readSlot isStdout = none → (AtEnd x isStdout ↔
    ∀ m ∈ past, m.before.1.hungUpBy m.label = some isStdout → AtEnd m.before isStdout)

theorem AtEnd.congr {x y : DrainState × Left} {i : Bool}
    (hlimit : y.1.buffer.limit = x.1.buffer.limit)
    (hdest : y.1.buffer.dest i = x.1.buffer.dest i) (hleft : y.2 i = x.2 i) :
    AtEnd y i ↔ AtEnd x i := by
  unfold AtEnd
  rw [hlimit, hdest, hleft]

namespace Draining

variable {written : Bytes} {i : Bool} {limit : ℕ} {past : List Served} {x y : DrainState × Left}
  {ev : PollEvent}

/-- The hang-ups up to now, when one more event was served. -/
theorem forall_snoc {p : Served → Prop} {m : Served} :
    (∀ q ∈ past ++ [m], p q) ↔ (∀ q ∈ past, p q) ∧ p m := by
  simp [or_imp, forall_and]

/-- The step lemma. -/
theorem step (h : Draining written i limit past x) (hs : Serves x ev y) :
    Draining written i limit (past ++ [⟨x, ev, y⟩]) y := by
  have ⟨hstream, hearly, hlimit⟩ := hs.stream h.early i
  have ⟨taken, hwritten, hholds⟩ := h.taken
  cases hstream with
  | other hno hslot hdest hleft =>
    have hsame := AtEnd.congr hlimit hdest hleft
    refine ⟨hearly, hlimit.trans h.limit, ⟨taken, ?_, ?_⟩, ?_, ?_⟩
    · rw [hleft]
      exact hwritten
    · unfold BufferState.Holds
      rw [hdest, hlimit]
      exact hholds
    · rw [hslot, forall_snoc]
      exact fun hopen => ⟨h.opened hopen, hno⟩
    · rw [hslot, hsame, forall_snoc]
      exact fun hgone => (h.gone hgone).trans (and_iff_left fun hup => absurd hup hno).symm
  | read got hno hopen hgot hkeep hslot =>
    have hpast := (forall_snoc (m := ⟨x, ev, y⟩)).mpr ⟨h.opened hopen, hno⟩
    refine ⟨hearly, hlimit.trans h.limit, ⟨taken ++ got, ?_, hkeep taken hholds⟩,
      fun _ => hpast, ?_⟩
    · rw [hwritten, hgot, List.append_assoc]
    · intro hgone
      rcases hslot with hsame | ⟨_, hend⟩
      · rw [← hsame, hgone] at hopen
        cases hopen
      · -- the end of the stream was read, and there was no hang-up
        exact ⟨fun _ m hm hup => absurd hup (hpast m hm), fun _ => Or.inr hend⟩
  | hungUp hup hopen hgone hdest hleft =>
    have hsame := AtEnd.congr hlimit hdest hleft
    refine ⟨hearly, hlimit.trans h.limit, ⟨taken, ?_, ?_⟩, ?_, ?_⟩
    · rw [hleft]
      exact hwritten
    · unfold BufferState.Holds
      rw [hdest, hlimit]
      exact hholds
    · intro hopen'
      rw [hgone] at hopen'
      cases hopen'
    · intro _
      rw [hsame, forall_snoc]
      exact ⟨fun hend => ⟨fun m hm hup' => absurd hup' (h.opened hopen m hm), fun _ => hend⟩,
        fun hall => hall.2 hup⟩

/-- The run lemma. -/
theorem run {h : List Served} {drain : DrainState} {left : Left} {taken : Bytes}
    (hrun : Run (Traced Serves) (drain, left) h x) (hearly : drain.earlyExit = none)
    (hholds : drain.buffer.Holds i taken) (hslot : (drain.readSlot i).isSome = true) :
    Draining (taken ++ left i) i drain.buffer.limit h x := by
  have hinit : Draining (taken ++ left i) i drain.buffer.limit [] (drain, left) := by
    refine ⟨hearly, rfl, ⟨taken, rfl, hholds⟩, fun _ => List.forall_mem_nil _, fun hgone => ?_⟩
    dsimp only at hgone
    rw [hgone] at hslot
    cases hslot
  have hstep : ∀ past x m y, Draining (taken ++ left i) i drain.buffer.limit past x →
      Traced Serves x m y → Draining (taken ++ left i) i drain.buffer.limit (past ++ [m]) y := by
    intro past x m y hx ⟨hbefore, hafter, hs⟩
    have hm : (⟨x, m.label, y⟩ : Served) = m := by rw [← hbefore, ← hafter]
    rw [← hm]
    exact hx.step hs
  exact hrun.invariant_trace [] hstep hinit

/-- A stream without a slot is not given up. -/
theorem never_hungUp {h : List Served} {drain : DrainState} {left : Left}
    (hrun : Run (Traced Serves) (drain, left) h x) (hearly : drain.earlyExit = none)
    (hslot : drain.readSlot i = none) : ∀ m ∈ h, m.before.1.hungUpBy m.label ≠ some i := by
  let inv : List Served → DrainState × Left → Prop := fun past x =>
    x.1.earlyExit = none ∧ x.1.readSlot i = none ∧ ∀ m ∈ past, m.before.1.hungUpBy m.label ≠ some i
  have hstep : ∀ past x m y, inv past x → Traced Serves x m y → inv (past ++ [m]) y := by
    intro past x m y ⟨hearly, hnone, hpast⟩ ⟨hbefore, _, hs⟩
    have ⟨hstream, hearly', _⟩ := hs.stream hearly i
    rw [← hbefore] at hstream hnone
    cases hstream with
    | other hno hsame => exact ⟨hearly', hsame.trans hnone, forall_snoc.mpr ⟨hpast, hno⟩⟩
    | read _ _ hopen | hungUp _ hopen =>
      rw [hnone] at hopen
      cases hopen
  have hall : inv h x := hrun.invariant_trace [] hstep ⟨hearly, hslot, List.forall_mem_nil _⟩
  exact hall.2.2

/-- A stream that was given up was captured as far as the limit allows if and only if it was at
its end. -/
theorem captured_iff (h : Draining written i limit past x) :
    x.1.buffer.dest i = written.take limit ↔ AtEnd x i := by
  have ⟨taken, hwritten, hholds⟩ := h.taken
  unfold AtEnd
  rw [hholds, h.limit, hwritten, List.take_append, List.length_take, List.self_eq_append_right,
    List.take_eq_nil_iff]
  refine or_congr_left ?_
  omega

end Draining
/-! ## The events of the loop -/

/-- The events that the loop sees in a turn. -/
def polledEvents (t : Turn) : List PollEvent :=
  match Reactor.wait t.epoll with
  | .ok events => events
  | .error _ => []

/-- The turns that `wait_loop` takes. -/
def executedTurns (a : WaitArgs) (drain : DrainState) (wait : List WaitAnswer) (ts : List Turn) :
    List Turn :=
  match WaitLoop.step a ⟨drain, none, .none, false, []⟩ wait with
  | (s, .ok ()) => WaitLoop.executed a s ts
  | (_, .error _) => []

/-- The events that a `wait_loop` that returns has handled: it polls in all turns but the last. -/
def handledEvents (a : WaitArgs) (drain : DrainState) (wait : List WaitAnswer) (ts : List Turn) :
    List PollEvent := (executedTurns a drain wait ts).dropLast.flatMap polledEvents

/-- The drain serves events as long as none fails. -/
def ServesAll (d : DrainState) (evs : List PollEvent) (d' : DrainState) : Prop :=
  Run (fun d ev d' => DrainState.serve d ev = (d', .ok ())) d evs d'

theorem ServesAll.eq {d d₁ d₂ : DrainState} {evs : List PollEvent} (h₁ : ServesAll d evs d₁)
    (h₂ : ServesAll d evs d₂) : d₁ = d₂ := by
  unfold ServesAll at *
  induction h₁ with
  | nil => exact Run.nil_iff.mp h₂
  | cons hs _ ih =>
    have ⟨_, hs', hrest⟩ := Run.cons_iff.mp h₂
    rw [hs, Prod.mk.injEq] at hs'
    exact ih (hs'.1 ▸ hrest)

namespace WaitLoop

variable {a : WaitArgs} {s s' : WaitState}

theorem handleEvents_serves {evs : List PollEvent} (h : (handleEvents s evs).2 = .ok ()) :
    ServesAll s.drain evs (handleEvents s evs).1.drain := by
  induction evs generalizing s with
  | nil => exact .nil _
  | cons ev evs ih =>
    have hone := handleEvent_drain s ev
    unfold handleEvents at h ⊢
    split at h
    · cases h
    · next heq =>
      rw [heq] at hone
      exact .cons hone.symm (ih h)

/-- The head of a turn and the look at the child leave the drain alone. -/
theorem step_drain (a : WaitArgs) (s : WaitState) (wait : List WaitAnswer) :
    (step a s wait).1.drain = s.drain := by
  unfold step
  split
  · rfl
  · split <;> rfl

theorem checkDeadline_drain (a : WaitArgs) (s : WaitState) (now : Instant)
    (errno : Option Int32) : (checkDeadline a s now errno).1.drain = s.drain := by
  rw [checkDeadline_eq]
  rfl

theorem poll_serves {t : Turn} {pollTimeout : Int32}
    (h : (poll s pollTimeout t.epoll).2 = .again) :
    ServesAll s.drain (polledEvents t) (poll s pollTimeout t.epoll).1.drain := by
  unfold polledEvents
  unfold poll at h ⊢
  dsimp only at h ⊢
  cases hwait : Reactor.wait t.epoll with
  | error e =>
    rw [hwait] at h
    cases h
  | ok events =>
    rw [hwait] at h
    dsimp only at h ⊢
    generalize hpolled : s.did [_] = s₁ at h ⊢
    have hdrain : s₁.drain = s.drain := by rw [← hpolled]; rfl
    have hserves : (handleEvents s₁ events).2 = .ok () →
        ServesAll s₁.drain events (handleEvents s₁ events).1.drain := handleEvents_serves
    generalize handleEvents s₁ events = r at h hserves ⊢
    have ⟨s₂, result⟩ := r
    cases result with
    | error e => cases h
    | ok =>
      rw [← hdrain]
      exact hserves rfl

theorem finish_streams {blocking : List (Except Int32 Int32)} {out : Output}
    (h : (finish a s blocking).2 = .returned (.ok out)) :
    out.stdout = s.drain.buffer.stdout ∧ out.stderr = s.drain.buffer.stderr := by
  unfold finish at h
  dsimp only at h
  split at h
  · cases h
  · cases h
  · cases h
    exact ⟨rfl, rfl⟩

/-- What a turn does to the drain: if another one follows, its events were served; if it returns
an output, the drain was done. -/
theorem turn_drain (a : WaitArgs) (s : WaitState) (t : Turn) :
    ((turn a s t).2 = .again → ServesAll s.drain (polledEvents t) (turn a s t).1.drain) ∧
    ∀ out, (turn a s t).2 = .returned (.ok out) → s.drain.isDone = true ∧
      out.stdout = s.drain.buffer.stdout ∧ out.stderr = s.drain.buffer.stderr := by
  have hcheck := checkDeadline_drain a s t.now t.kill
  unfold turn
  generalize checkDeadline a s t.now t.kill = checked at hcheck ⊢
  have ⟨s₁, pollTimeout⟩ := checked
  dsimp only at hcheck ⊢
  have hstep := step_drain a s₁ t.wait
  generalize step a s₁ t.wait = stepped at hstep ⊢
  have ⟨s₂, result⟩ := stepped
  dsimp only at hstep
  rw [← hcheck, ← hstep]
  cases result with
  | error e => exact ⟨(fun h => by cases h), fun out h => by cases h⟩
  | ok =>
    dsimp only
    cases hdone : s₂.drain.isDone with
    | true =>
      rw [if_pos rfl]
      refine ⟨fun h => ?_, fun out h => ⟨rfl, finish_streams h⟩⟩
      unfold finish at h
      dsimp only at h
      split at h <;> cases h
    | false =>
      rw [if_neg (by exact fun h => by cases h)]
      exact ⟨poll_serves, fun out h => absurd h (poll_output s₂ pollTimeout t.epoll out)⟩

/-- A loop that returns an output has served the events of all turns but the last. -/
theorem turns_drain {ts : List Turn} {out : Output}
    (h : (turns a s ts).2 = .returned (.ok out)) :
    ∃ d, ServesAll s.drain ((executed a s ts).dropLast.flatMap polledEvents) d ∧
      d.isDone = true ∧ out.stdout = d.buffer.stdout ∧ out.stderr = d.buffer.stderr := by
  induction ts generalizing s with
  | nil => cases h
  | cons t ts ih =>
    have ⟨hagainDrain, houtput⟩ := turn_drain a s t
    rcases turn_cases a s t with ⟨s', hagain⟩ | hstops
    · rw [turns_of_again hagain] at h
      rw [hagain] at hagainDrain
      have ⟨d, hserves, hrest⟩ := ih h
      have hne : executed a s' ts ≠ [] := by
        intro hnil
        cases ts with
        | nil => cases h
        | cons u us => cases hnil
      rw [executed_of_again hagain, List.dropLast_cons_of_ne_nil hne, List.flatMap_cons]
      exact ⟨d, (hagainDrain rfl).append hserves, hrest⟩
    · rw [turns_of_stops hstops] at h
      rw [executed_of_stops hstops]
      exact ⟨s.drain, .nil _, houtput out h⟩

end WaitLoop

/-- The same for `wait_loop`. -/
theorem waitLoop_drain {a : WaitArgs} {drain : DrainState} {wait : List WaitAnswer}
    {ts : List Turn} {out : Output} (h : (waitLoop a drain wait ts).2 = .returned (.ok out)) :
    ∃ d, ServesAll drain (handledEvents a drain wait ts) d ∧
      d.isDone = true ∧ out.stdout = d.buffer.stdout ∧ out.stderr = d.buffer.stderr := by
  have hstep := WaitLoop.step_drain a ⟨drain, none, .none, false, []⟩ wait
  unfold handledEvents executedTurns
  unfold waitLoop at h
  generalize WaitLoop.step a ⟨drain, none, .none, false, []⟩ wait = r at hstep h ⊢
  have ⟨s, result⟩ := r
  cases result with
  | error e => cases h
  | ok =>
    rw [← show s.drain = drain from hstep]
    exact WaitLoop.turns_drain h

/-- The output of a stream. -/
def Output.stream (out : Output) (isStdout : Bool) : Bytes :=
  if isStdout then out.stdout else out.stderr

/-- Every captured stream comes back as the first bytes that were written to its pipe, up to the
limit. -/
def LosesNothing (drain : DrainState) (written : Left) (out : Output) : Prop :=
  ∀ i, (drain.readSlot i).isSome = true →
    out.stream i = (written i).take drain.buffer.limit

/-- For every drain without an early exit, every child, clock and schedule: if `wait_loop` returns
an output, and the events' reads are answered by the pipes, which hold the bytes `left` after the
bytes `taken` that are in the buffers, then it loses nothing if and only if each stream that is
given up at a hang-up or an error is at its end then. -/
theorem loses_nothing_iff {a : WaitArgs} {drain : DrainState} {wait : List WaitAnswer}
    {ts : List Turn} {out : Output} {taken left : Left} {h : List Served} {x : DrainState × Left}
    (hearly : drain.earlyExit = none) (hholds : ∀ i, drain.buffer.Holds i (taken i))
    (hreturns : (waitLoop a drain wait ts).2 = .returned (.ok out))
    (hpipes : Run (Traced Serves) (drain, left) h x)
    (hevents : h.map Moment.label = handledEvents a drain wait ts) :
    LosesNothing drain (fun i => taken i ++ left i) out ↔
      ∀ m ∈ h, ∀ i, m.before.1.hungUpBy m.label = some i → AtEnd m.before i := by
  have ⟨d, hserves, hdone, hstdout, hstderr⟩ := waitLoop_drain hreturns
  have hx : x.1 = d := by
    have hlabels : ServesAll drain (h.map Moment.label) x.1 :=
      hpipes.untraced.map Prod.fst (fun ev => ev) (fun _ _ _ hs => hs.1) |> fun hrun => by
        rwa [List.map_id'] at hrun
    rw [hevents] at hlabels
    exact hlabels.eq hserves
  rw [← hx] at hdone hstdout hstderr
  have hgone : ∀ i, x.1.readSlot i = none := by
    have ⟨_, hout, herr⟩ := WaitLoop.slots_of_isDone hdone
    intro i
    cases i
    · exact herr
    · exact hout
  have hstream : ∀ i, out.stream i = x.1.buffer.dest i := by
    intro i
    cases i
    · exact hstderr
    · exact hstdout
  -- stream by stream
  have hone : ∀ i, ((drain.readSlot i).isSome = true →
      out.stream i = (taken i ++ left i).take drain.buffer.limit) ↔
        ∀ m ∈ h, m.before.1.hungUpBy m.label = some i → AtEnd m.before i := by
    intro i
    cases hslot : drain.readSlot i with
    | none =>
      have hnever := Draining.never_hungUp hpipes hearly hslot
      exact ⟨fun _ m hm hup => absurd hup (hnever m hm), fun _ hopen => by cases hopen⟩
    | some slot =>
      have hdraining := Draining.run hpipes hearly (hholds i) (by rw [hslot]; rfl)
      rw [hstream i, ← hdraining.gone (hgone i), ← hdraining.captured_iff]
      exact ⟨fun h => h rfl, fun h _ => h⟩
  unfold LosesNothing
  simp only [hone]
  exact ⟨fun hall m hm i => hall i m hm, fun hall i m hm => hall m hm i⟩

/-! ## Two bytes and a hang-up -/

namespace HangUp

/-- A child without a deadline. -/
def args : WaitArgs := ⟨⟨100⟩, none, 1000, .graceful, .default⟩

/-- A drain whose standard output is captured. -/
def drain : DrainState := ⟨some ⟨⟨1⟩, 5⟩, none, none, .new 16, .new none, none⟩

/-- Two bytes are written to it. -/
def written : Left := fun isStdout => if isStdout then [104, 105] else []

/-- The descriptor becomes readable; both bytes are read. -/
def ready : PollEvent := ⟨⟨⟨1⟩, true, false, false⟩, [.data [104, 105]], []⟩

/-- The writer is gone. -/
def hangUp : PollEvent := ⟨⟨⟨1⟩, true, true, true⟩, [.data [104, 105]], []⟩

/-- The child exits, some events come, and the loop ends. -/
def turns (evs : List PollEvent) : List Turn :=
  [⟨0, none, [.reaped 0], [], .ok evs⟩, ⟨0, none, [], [], .ok []⟩]

/-- The drain after the bytes were read. -/
def drained : DrainState := { drain with buffer := ⟨[104, 105], [], 16⟩ }

/-- The bytes are read before the hang-up. -/
theorem loses_nothing_iff_ready :
    LosesNothing drain written ⟨100, some (.exited 0), [104, 105], [], false⟩ := by
  have hready : Serves (drain, written) ready (drained, Function.update written true []) :=
    ⟨rfl, rfl⟩
  have hhangUp : Serves (drained, Function.update written true []) hangUp
      (drained.giveUp true, Function.update written true []) := ⟨rfl, rfl⟩
  have hpipes := Run.cons (Traced.of_step hready) (.single (.of_step hhangUp))
  have hreturns : (waitLoop args drain [] (turns [ready, hangUp])).2 =
      .returned (.ok ⟨100, some (.exited 0), [104, 105], [], false⟩) := rfl
  have hnone : ∀ i, drain.buffer.Holds i [] := by
    intro i
    cases i <;> rfl
  refine (loses_nothing_iff rfl hnone hreturns hpipes rfl).mpr ?_
  intro m hm i hup
  rcases List.mem_cons.mp hm with heq | hm
  · rw [heq] at hup
    cases hup
  · rw [List.mem_singleton.mp hm] at hup ⊢
    -- nothing is left in the pipe
    cases hup
    exact Or.inr rfl

/-- The hang-up comes with the bytes, which are never read. -/
theorem output_lost_at_hang_up :
    ∃ a drain wait ts out written h x, DrainState.earlyExit drain = none ∧
      (∀ i, drain.buffer.dest i = []) ∧ (waitLoop a drain wait ts).2 = .returned (.ok out) ∧
      Run (Traced Serves) (drain, written) h x ∧
      h.map Moment.label = handledEvents a drain wait ts ∧
      written true = [104, 105] ∧ out.stdout = [] ∧ ¬ LosesNothing drain written out := by
  have hhangUp : Serves (drain, written) hangUp (drain.giveUp true, written) := ⟨rfl, rfl⟩
  refine ⟨args, drain, [], turns [hangUp], ⟨100, some (.exited 0), [], [], false⟩, written, _, _,
    rfl, by decide, rfl, .single (.of_step hhangUp), rfl, rfl, rfl, fun h => ?_⟩
  have hall := h true rfl
  cases hall

end HangUp
end CoreShift
