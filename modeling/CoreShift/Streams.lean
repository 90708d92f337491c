import CoreShift.LowLevel.Buffers
import CoreShift.Utils.Runs

/-!
# The streams of a drain

What a drain keeps of the outputs of a child and what it feeds to its input, for any order of the
calls of `read_fd` and `write_stdin` and any answers of the descriptors. A call that is cut short
by a descriptor that blocks is a call too, so that what holds after every call holds between the
system calls of one.
-/

namespace CoreShift

open Utils

variable {F : Type} {alloc : Allocator} {pred : F → Bytes → F × Bool}

/-! ## One reading -/

namespace Buffers

variable {b : Buffers} {i : Bool} {v : Vec} {bytes : Bytes}

theorem count_le_room (alloc : Allocator) (b : Buffers) (i : Bool) :
    (b.request alloc i).count ≤ (b.request alloc i).room := by
  unfold request
  split
  · exact le_rfl
  · exact b.le_spare_ensured alloc i

theorem dest_request (alloc : Allocator) (b : Buffers) (i : Bool) :
    ((b.request alloc i).buffer.dest i).data = (b.dest i).data := by
  unfold request
  split
  · rfl
  · simp

theorem dest_request_not (alloc : Allocator) (b : Buffers) (i : Bool) :
    (b.request alloc i).buffer.dest (!i) = b.dest (!i) := by
  unfold request
  split
  · rfl
  · simp

theorem limit_request (alloc : Allocator) (b : Buffers) (i : Bool) :
    (b.request alloc i).buffer.limit = b.limit := by
  unfold request
  split
  · rfl
  · simp

theorem remainingLimit_setDest (h : v.data = (b.dest i).data ++ bytes) :
    (b.setDest i v).remainingLimit i = b.remainingLimit i - bytes.length := by
  unfold remainingLimit
  rw [limit_setDest, dest_setDest, h, List.length_append]
  omega

/-- Below the limit, no more is asked for than is kept. -/
theorem length_le_remainingLimit (alloc : Allocator) (bytes : Bytes)
    (h : b.remainingLimit i ≠ 0) :
    (bytes.take (b.request alloc i).count).length ≤ b.remainingLimit i := by
  rw [count_of_room h, List.length_take]
  omega

end Buffers

theorem judge_spec (pred : F → Bytes → F × Bool) (i : Bool) (earlyExit : Option F)
    (chunk : Bytes) :
    (judge pred i earlyExit chunk).1.isSome = earlyExit.isSome ∧
      ((judge pred i earlyExit chunk).2.map Prod.fst).flatten =
        if (i && earlyExit.isSome) = true then chunk else [] := by
  cases earlyExit with
  | none => cases i <;> exact ⟨rfl, rfl⟩
  | some f => cases i <;> simp [judge]

/-- The last call stays the last one. -/
theorem getLast?_cons_some {A : Type*} {a b : A} {l : List A} (h : l.getLast? = some b) :
    (a :: l).getLast? = some b := by
  rw [List.getLast?_cons, h]
  rfl

/-- A call that does not meet the end of the stream. -/
theorem exists_eof_cons {call : ReadCall UInt8 SysError} {calls : List (ReadCall UInt8 SysError)}
    {got : Bytes} (hne : got ≠ []) (hok : call.result = .ok got) :
    (∃ c ∈ call :: calls, c.result = .ok []) ↔ ∃ c ∈ calls, c.result = .ok [] := by
  have hno : call.result ≠ .ok [] := by
    rw [hok]
    exact fun heq => hne (Except.ok.inj heq)
  simp [hno]

/-- What a reading does: the buffer keeps what was read up to the limit, and the reading ends
with the stream, with a verdict of `early_exit`, or with an error. -/
structure Reads (b : Buffers) (i : Bool) (earlyExit : Option F) (r : Reading F) : Prop where
  kept : (r.buffer.dest i).data =
    (b.dest i).data ++ (received r.calls).take (b.remainingLimit i)
  other : r.buffer.dest (!i) = b.dest (!i)
  limit : r.buffer.limit = b.limit
  asked : ∀ c ∈ r.calls, c.count ≤ c.room
  shown : (r.shown.map Prod.fst).flatten =
    if (i && earlyExit.isSome) = true then (received r.calls).take (b.remainingLimit i) else []
  exit : r.earlyExit.isSome = earlyExit.isSome
  done : r.result = .ok true ↔ (∃ c ∈ r.calls, c.result = .ok []) ∨ ∃ x ∈ r.shown, x.2 = true
  blocked : r.result = .ok false →
    ∃ c, r.calls.getLast? = some c ∧ c.result = .error ⟨EAGAIN, "read"⟩

namespace Reads

variable {b : Buffers} {i : Bool} {earlyExit : Option F} {r : Reading F}

/-- A reading that ends with its first call. -/
theorem one {rest : List ReadAnswer} {result : Except SysError Bool}
    {answer : Except SysError Bytes}
    (hgot : ReadCall.got ⟨(b.request alloc i).room, (b.request alloc i).count, answer⟩ = [])
    (hdone : result = .ok true ↔ answer = .ok [])
    (hblocked : result = .ok false → answer = .error ⟨EAGAIN, "read"⟩) :
    Reads b i earlyExit ⟨(b.request alloc i).buffer, earlyExit, result,
      [⟨(b.request alloc i).room, (b.request alloc i).count, answer⟩], [], rest⟩ := by
  have hnone : received
      [(⟨(b.request alloc i).room, (b.request alloc i).count, answer⟩ :
        ReadCall UInt8 SysError)] = [] := by
    rw [received_cons, hgot]
    rfl
  constructor
  · rw [hnone, List.take_nil, List.append_nil]
    exact b.dest_request alloc i
  · exact b.dest_request_not alloc i
  · exact b.limit_request alloc i
  · intro c hc
    rw [List.mem_singleton.mp hc]
    exact b.count_le_room alloc i
  · rw [hnone, List.take_nil, ite_self]
    rfl
  · rfl
  · rw [hdone]
    simp
  · exact fun h => ⟨_, rfl, hblocked h⟩

/-- A call beyond the limit before the others. -/
theorem after_discard {call : ReadCall UInt8 SysError} (h : Reads b i earlyExit r)
    (hfull : b.remainingLimit i = 0) (hcall : call.count ≤ call.room)
    (hok : ∃ got, got ≠ [] ∧ call.result = .ok got) : Reads b i earlyExit (r.after call []) := by
  have ⟨got, hgot, hres⟩ := hok
  have hkept := h.kept
  have hshown := h.shown
  rw [hfull, List.take_zero] at hkept hshown
  constructor
  · rw [hfull, List.take_zero]
    exact hkept
  · exact h.other
  · exact h.limit
  · exact List.forall_mem_cons.mpr ⟨hcall, h.asked⟩
  · rw [hfull, List.take_zero]
    exact hshown
  · exact h.exit
  · show r.result = .ok true ↔ (∃ c ∈ call :: r.calls, _) ∨ ∃ x ∈ [] ++ r.shown, _
    rw [exists_eof_cons hgot hres]
    exact h.done
  · intro hblocked
    have ⟨c, hlast, hc⟩ := h.blocked hblocked
    exact ⟨c, getLast?_cons_some hlast, hc⟩

variable {v : Vec} {got : Bytes} {call : ReadCall UInt8 SysError}

/-- A chunk that is kept before the others. -/
theorem after_store (hv : v.data = (b.dest i).data ++ got) (hne : got ≠ [])
    (hfits : got.length ≤ b.remainingLimit i) (hcall : call.count ≤ call.room)
    (hok : call.result = .ok got)
    (hgo : (judge pred i earlyExit got).2.any Prod.snd = false)
    (h : Reads (b.setDest i v) i (judge pred i earlyExit got).1 r) :
    Reads b i earlyExit (r.after call (judge pred i earlyExit got).2) := by
  have ⟨hexit, hjudged⟩ := judge_spec pred i earlyExit got
  have hreceived : received (r.after call (judge pred i earlyExit got).2).calls =
      got ++ received r.calls := by
    show call.got ++ received r.calls = _
    rw [ReadCall.got_of_ok hok]
  have htake : (got ++ received r.calls).take (b.remainingLimit i) =
      got ++ (received r.calls).take (b.remainingLimit i - got.length) := by
    rw [List.take_append, List.take_of_length_le hfits]
  have hkept := h.kept
  have hshown := h.shown
  rw [Buffers.remainingLimit_setDest hv] at hkept hshown
  constructor
  · rw [hreceived, htake, ← List.append_assoc, ← hv]
    rw [Buffers.dest_setDest] at hkept
    exact hkept
  · exact h.other.trans (Buffers.dest_setDest_not b i v)
  · exact h.limit.trans (Buffers.limit_setDest b i v)
  · exact List.forall_mem_cons.mpr ⟨hcall, h.asked⟩
  · show ((_ ++ r.shown).map Prod.fst).flatten = _
    rw [List.map_append, List.flatten_append, hjudged, hshown, hexit, hreceived, htake]
    split <;> rfl
  · exact h.exit.trans hexit
  · have happend : (∃ x ∈ (judge pred i earlyExit got).2 ++ r.shown, x.2 = true) ↔
        ∃ x ∈ r.shown, x.2 = true := by
      rw [List.any_eq_false] at hgo
      constructor
      · rintro ⟨x, hx, hstop⟩
        rcases List.mem_append.mp hx with hx | hx
        · exact absurd hstop (hgo x hx)
        · exact ⟨x, hx, hstop⟩
      · rintro ⟨x, hx, hstop⟩
        exact ⟨x, List.mem_append_right _ hx, hstop⟩
    show r.result = .ok true ↔ (∃ c ∈ call :: r.calls, _) ∨
      ∃ x ∈ (judge pred i earlyExit got).2 ++ r.shown, _
    rw [exists_eof_cons hne hok, happend]
    exact h.done
  · intro hblocked
    have ⟨c, hlast, hc⟩ := h.blocked hblocked
    exact ⟨c, getLast?_cons_some hlast, hc⟩

/-- A chunk that is the last one by the verdict of `early_exit`. -/
theorem stopped {rest : List ReadAnswer} (hv : v.data = (b.dest i).data ++ got)
    (hfits : got.length ≤ b.remainingLimit i) (hcall : call.count ≤ call.room)
    (hok : call.result = .ok got)
    (hstop : (judge pred i earlyExit got).2.any Prod.snd = true) :
    Reads b i earlyExit ⟨b.setDest i v, (judge pred i earlyExit got).1, .ok true, [call],
      (judge pred i earlyExit got).2, rest⟩ := by
  have ⟨hexit, hjudged⟩ := judge_spec pred i earlyExit got
  have hreceived : (received [call]).take (b.remainingLimit i) = got := by
    rw [received_cons, ReadCall.got_of_ok hok, received_nil, List.append_nil,
      List.take_of_length_le hfits]
  constructor
  · rw [hreceived, Buffers.dest_setDest]
    exact hv
  · exact Buffers.dest_setDest_not b i v
  · exact Buffers.limit_setDest b i v
  · intro c hc
    rw [List.mem_singleton.mp hc]
    exact hcall
  · rw [hreceived]
    exact hjudged
  · exact hexit
  · have ⟨x, hx, hx'⟩ := List.any_eq_true.mp hstop
    exact ⟨fun _ => Or.inr ⟨x, hx, hx'⟩, fun _ => rfl⟩
  · exact nofun

end Reads

theorem Buffers.readFromFd_reads (alloc : Allocator) (pred : F → Bytes → F × Bool) (b : Buffers)
    (i : Bool) (earlyExit : Option F) (answers : List ReadAnswer) :
    Reads b i earlyExit (b.readFromFd alloc pred i earlyExit answers) := by
  induction answers generalizing b earlyExit with
  | nil => exact .one rfl (by simp) fun _ => rfl
  | cons answer answers ih =>
    cases answer with
    | fail code =>
      by_cases hintr : code = EINTR
      · rw [readFromFd, if_pos hintr]
        exact ih b earlyExit
      · rw [readFromFd_fail hintr]
        refine .one rfl ?_ ?_
        · split <;> simp
        · split
          · next hagain => exact fun _ => by rw [hagain]
          · simp
    | data bytes =>
      have hcount := b.count_le_room alloc i
      by_cases hgot : bytes.take (b.request alloc i).count = []
      · rw [readFromFd_eof hgot]
        exact .one rfl ⟨fun _ => rfl, fun _ => rfl⟩ (by simp)
      · by_cases hfull : b.remainingLimit i = 0
        · rw [readFromFd_discard hfull hgot]
          exact (ih b earlyExit).after_discard hfull hcount ⟨_, hgot, rfl⟩
        · obtain ⟨v, hv, heq⟩ := readFromFd_store pred earlyExit answers hfull hgot
          have hfits := length_le_remainingLimit alloc bytes hfull
          rw [heq]
          dsimp only
          split
          · next hstop => exact .stopped hv hfits hcount rfl hstop
          · next hgo =>
            rw [Bool.not_eq_true] at hgo
            exact .after_store hv hgot hfits hcount rfl hgo (ih _ _)

/-! ## The calls of a drain -/

/-- A method that is called, with the answers to its system calls. -/
inductive DrainCall
  | readFd (isStdout : Bool) (answers : List ReadAnswer)
  | writeStdin (answers : List WriteAnswer)

namespace Drain

def call (alloc : Allocator) (pred : F → Bytes → F × Bool) (d : Drain F) :
    DrainCall → Drain F × Called
  | .readFd isStdout answers => d.readFd alloc pred isStdout answers
  | .writeStdin answers => d.writeStdin answers

def Step (alloc : Allocator) (pred : F → Bytes → F × Bool) (d : Drain F)
    (l : DrainCall × Called) (d' : Drain F) : Prop :=
  d.call alloc pred l.1 = (d', l.2)

end Drain

/-- What a call reads from the descriptor of an output. -/
def readFrom (i : Bool) (l : DrainCall × Called) : Bytes :=
  match l.1 with
  | .readFd j _ => if j = i then received l.2.reads else []
  | .writeStdin _ => []

def bytesRead (i : Bool) (t : List (DrainCall × Called)) : Bytes := t.flatMap (readFrom i)

/-- The chunks that were shown to `early_exit`, one after the other. -/
def bytesShown (t : List (DrainCall × Called)) : Bytes :=
  t.flatMap fun l => (l.2.shown.map Prod.fst).flatten

/-- What a call of `read_fd` returns and whether the slot stays, for a slot that is there. -/
structure GivesUpAtEnd (i : Bool) (slot : FdSlot) (o : Called) (after : Drain F) : Prop where
  gone_iff : after.readSlot i = none ↔
    (∃ c ∈ o.reads, c.result = .ok []) ∨ ∃ x ∈ o.shown, x.2 = true
  gone : after.readSlot i = none → o.result = .ok (some slot)
  kept : o.result = .ok none → after.readSlot i = some slot ∧
    ∃ c, o.reads.getLast? = some c ∧ c.result = .error ⟨EAGAIN, "read"⟩

/-- What the drain holds of an output after `taken` was read from it, in a call that gave `o`. -/
structure Drain.Keeps (d : Drain F) (i : Bool) (o : Called) (d' : Drain F) : Prop where
  kept : (d'.buffer.dest i).data = (d.buffer.dest i).data ++
    (received o.reads).take (d.buffer.limit - (d.buffer.dest i).data.length)
  other : d'.buffer.dest (!i) = d.buffer.dest (!i)
  limit : d'.buffer.limit = d.buffer.limit
  asked : ∀ c ∈ o.reads, c.count ≤ c.room
  shown : (o.shown.map Prod.fst).flatten = if (i && d.earlyExit.isSome) = true then
    (received o.reads).take (d.buffer.limit - (d.buffer.dest i).data.length) else []
  exit : d'.earlyExit.isSome = d.earlyExit.isSome

namespace Drain

variable {d : Drain F} {i : Bool} {slot : FdSlot} {answers : List ReadAnswer}

theorem readSlot_giveUp (d : Drain F) (i : Bool) : (d.giveUp i).readSlot i = none := by
  cases i <;> rfl

theorem readFd_keeps (alloc : Allocator) (pred : F → Bytes → F × Bool) (d : Drain F) (i : Bool)
    (answers : List ReadAnswer) :
    d.Keeps i (d.readFd alloc pred i answers).2 (d.readFd alloc pred i answers).1 := by
  unfold readFd
  cases d.readSlot i with
  | none => exact ⟨by simp, rfl, rfl, nofun, by simp, rfl⟩
  | some slot =>
    have h := d.buffer.readFromFd_reads alloc pred i d.earlyExit answers
    dsimp only
    cases (d.buffer.readFromFd alloc pred i d.earlyExit answers).result with
    | error e => exact ⟨h.kept, h.other, h.limit, h.asked, h.shown, h.exit⟩
    | ok done =>
      cases done with
      | false => exact ⟨h.kept, h.other, h.limit, h.asked, h.shown, h.exit⟩
      | true => cases i <;> exact ⟨h.kept, h.other, h.limit, h.asked, h.shown, h.exit⟩

/-- A call that meets no end leaves the slot in place. -/
theorem givesUp_of_stays {o : Called} {d' : Drain F} (hslot : d'.readSlot i = some slot)
    (hgoes : ¬ ((∃ c ∈ o.reads, c.result = .ok []) ∨ ∃ x ∈ o.shown, x.2 = true))
    (hblocked : o.result = .ok none →
      ∃ c, o.reads.getLast? = some c ∧ c.result = .error ⟨EAGAIN, "read"⟩) :
    GivesUpAtEnd i slot o d' := by
  have hstays : d'.readSlot i ≠ none := by simp [hslot]
  constructor
  · exact ⟨fun hnone => absurd hnone hstays, fun hend => absurd hend hgoes⟩
  · exact fun hnone => absurd hnone hstays
  · exact fun hnone => ⟨hslot, hblocked hnone⟩

theorem readFd_givesUp (alloc : Allocator) (pred : F → Bytes → F × Bool)
    (hslot : d.readSlot i = some slot) (answers : List ReadAnswer) :
    GivesUpAtEnd i slot (d.readFd alloc pred i answers).2
      (d.readFd alloc pred i answers).1 := by
  have h := d.buffer.readFromFd_reads alloc pred i d.earlyExit answers
  have hstays : ∀ b e,
      ({ d with buffer := b, earlyExit := e } : Drain F).readSlot i = some slot := by
    intro b e
    rw [← hslot]
    cases i <;> rfl
  unfold readFd
  rw [hslot]
  dsimp only
  cases hr : (d.buffer.readFromFd alloc pred i d.earlyExit answers).result with
  | error e =>
    have hgoes := mt h.done.mpr (by simp [hr])
    apply givesUp_of_stays (hstays _ _) hgoes
    simp
  | ok done =>
    cases done with
    | false =>
      have hgoes := mt h.done.mpr (by simp [hr])
      exact givesUp_of_stays (hstays _ _) hgoes fun _ => h.blocked hr
    | true =>
      refine ⟨⟨fun _ => h.done.mp hr, fun _ => readSlot_giveUp _ i⟩, fun _ => rfl, ?_⟩
      simp

/-- Writing leaves the outputs alone. -/
theorem writeStdin_rest (d : Drain F) (answers : List WriteAnswer) :
    (d.writeStdin answers).1.buffer = d.buffer ∧
      (d.writeStdin answers).1.earlyExit = d.earlyExit ∧
      (d.writeStdin answers).2.reads = [] ∧ (d.writeStdin answers).2.shown = [] := by
  unfold writeStdin
  split
  · exact ⟨rfl, rfl, rfl, rfl⟩
  · dsimp only
    split <;> exact ⟨rfl, rfl, rfl, rfl⟩

end Drain

/-- What a drain holds after some calls. -/
structure Holding (limit : ℕ) (watched : Bool) (t : List (DrainCall × Called)) (d : Drain F) :
    Prop where
  limited : d.buffer.limit = limit
  exit : d.earlyExit.isSome = watched
  kept : ∀ i, (d.buffer.dest i).data = (bytesRead i t).take limit
  shown : watched = true → bytesShown t = d.buffer.stdout.data

theorem Holding.step {limit : ℕ} {watched : Bool} {t : List (DrainCall × Called)} {d d' : Drain F}
    {l : DrainCall × Called} (h : Holding limit watched t d) (hstep : d.Step alloc pred l d') :
    Holding limit watched (t ++ [l]) d' := by
  have ⟨c, o⟩ := l
  have hread : ∀ i, bytesRead i (t ++ [(c, o)]) = bytesRead i t ++ readFrom i (c, o) := by
    intro i
    rw [bytesRead, List.flatMap_append, List.flatMap_singleton]
    rfl
  have hshow : bytesShown (t ++ [(c, o)]) = bytesShown t ++ (o.shown.map Prod.fst).flatten := by
    rw [bytesShown, List.flatMap_append, List.flatMap_singleton]
    rfl
  cases c with
  | writeStdin answers =>
    have ⟨hbuffer, hexit, _, hnone⟩ := d.writeStdin_rest answers
    rw [show d.writeStdin answers = (d', o) from hstep] at hbuffer hexit hnone
    refine ⟨?_, ?_, ?_, ?_⟩
    · rw [hbuffer, h.limited]
    · rw [hexit, h.exit]
    · intro i
      rw [hbuffer, hread, h.kept i]
      exact congrArg (List.take limit) (List.append_nil _).symm
    · intro hw
      rw [hshow, hnone, hbuffer, ← h.shown hw]
      exact List.append_nil _
  | readFd j answers =>
    have hkeeps := d.readFd_keeps alloc pred j answers
    rw [show d.readFd alloc pred j answers = (d', o) from hstep] at hkeeps
    refine ⟨?_, ?_, ?_, ?_⟩
    · rw [hkeeps.limit, h.limited]
    · rw [hkeeps.exit, h.exit]
    · intro i
      rw [hread]
      by_cases hij : j = i
      · rw [← hij, hkeeps.kept, h.kept j, h.limited, List.take_append, List.length_take]
        show _ = _ ++ (if j = j then received o.reads else []).take _
        rw [if_pos rfl]
        congr 2
        omega
      · have hother : i = !j := Bool.eq_not.mpr (Ne.symm hij)
        show _ = (bytesRead i t ++ if j = i then received o.reads else []).take limit
        rw [if_neg hij, List.append_nil, ← h.kept i, hother, hkeeps.other]
    · intro hw
      rw [hshow, hkeeps.shown, h.shown hw, h.exit, hw, Bool.and_true]
      cases j with
      | true => exact hkeeps.kept.symm
      | false =>
        rw [if_neg Bool.false_ne_true, List.append_nil]
        exact (congrArg Vec.data hkeeps.other).symm

/-! ## The outputs of a drain -/

namespace Streams

/-- An allocator that gives what is asked for. -/
def exactAlloc : Allocator := ⟨fun _ needed => needed, fun _ _ => le_rfl⟩

/-- A drain that keeps two bytes of standard output. -/
def drain : Drain (Bytes → Bool) :=
  .start exactAlloc (some ⟨⟨1⟩, 5⟩) none none none 2 (some fun chunk => chunk.length = 9)

end Streams

/-! ## One writing -/

/-- The call ends the writing: nobody reads any more, or there is an error. -/
def Ends (c : WriteCall UInt8 SysError) : Prop :=
  c.result = .ok 0 ∨ ∃ e, c.result = .error e ∧ e.code ≠ EAGAIN

/-- What a writing does to a buffer of which `w.off` bytes are written. -/
structure Writes (buf : Bytes) (w : WriterState) (r : Writing) : Prop where
  le : w.off ≤ r.writer.off
  off_le : r.writer.off ≤ buf.length
  calls : ∀ c ∈ r.calls, c.buf = buf ∧ c.InRange
  first : ∀ c, r.calls.head? = some c → c.off = w.off
  sent : sent r.calls = (buf.drop w.off).take (r.writer.off - w.off)
  blocked : r.done = false →
    r.writer.buf = some buf ∧ r.writer.off < buf.length ∧ (∀ c ∈ r.calls, ¬ Ends c) ∧
      ∃ c, r.calls.getLast? = some c ∧ c.result = .error ⟨EAGAIN, "write"⟩
  done : r.done = true →
    r.writer.buf = none ∧ (r.writer.off = buf.length ∨ ∃ c ∈ r.calls, Ends c)

namespace Writes

variable {buf : Bytes} {w : WriterState} {r : Writing} {c : WriteCall UInt8 SysError}

/-- A writing that makes one call, which moves nothing. -/
theorem one {rest : List WriteAnswer} {answer : Except SysError ℕ} {w' : WriterState} {done : Bool}
    (hoff : w.off < buf.length) (hsame : w'.off = w.off)
    (hnone : WriteCall.taken ⟨buf, w.off, min (buf.length - w.off) WRITE_CHUNK, answer⟩ = [])
    (hblocked : done = false → w'.buf = some buf ∧ answer = .error ⟨EAGAIN, "write"⟩)
    (hdone : done = true → w'.buf = none ∧
      Ends ⟨buf, w.off, min (buf.length - w.off) WRITE_CHUNK, answer⟩) :
    Writes buf w
      ⟨w', done, [⟨buf, w.off, min (buf.length - w.off) WRITE_CHUNK, answer⟩], rest⟩ := by
  constructor
  · exact hsame.ge
  · exact hsame.le.trans hoff.le
  · intro c hc
    rw [List.mem_singleton.mp hc]
    refine ⟨rfl, ?_⟩
    show w.off + min (buf.length - w.off) WRITE_CHUNK ≤ buf.length
    omega
  · intro c hc
    rw [← Option.some.inj hc]
  · rw [sent_cons, hnone, hsame, Nat.sub_self, List.take_zero]
    rfl
  · intro h
    have ⟨hbuf, hagain⟩ := hblocked h
    refine ⟨hbuf, hsame.trans_lt hoff, ?_, _, rfl, hagain⟩
    intro c hc
    rw [List.mem_singleton.mp hc]
    rintro (hzero | ⟨e, he, hcode⟩)
    · cases hagain.symm.trans hzero
    · rw [← Except.error.inj (hagain.symm.trans he)] at hcode
      exact hcode rfl
  · intro h
    have ⟨hbuf, hends⟩ := hdone h
    exact ⟨hbuf, Or.inr ⟨_, List.mem_singleton_self _, hends⟩⟩

/-- A call that moves bytes before the others. -/
theorem after {n : ℕ} (hn : 0 < n) (hfit : n ≤ min (buf.length - w.off) WRITE_CHUNK)
    (h : Writes buf { w with off := w.off + n } r) :
    Writes buf w { r with
      calls := ⟨buf, w.off, min (buf.length - w.off) WRITE_CHUNK, .ok n⟩ :: r.calls } := by
  have hno : ¬ Ends ⟨buf, w.off, min (buf.length - w.off) WRITE_CHUNK, .ok n⟩ := by
    rintro (hzero | ⟨e, he, _⟩)
    · rw [Except.ok.inj hzero] at hn
      exact Nat.lt_irrefl 0 hn
    · cases he
  have hle : w.off + n ≤ r.writer.off := h.le
  constructor
  · show w.off ≤ r.writer.off
    omega
  · exact h.off_le
  · refine List.forall_mem_cons.mpr ⟨⟨rfl, ?_⟩, h.calls⟩
    show w.off + min (buf.length - w.off) WRITE_CHUNK ≤ buf.length
    omega
  · intro c hc
    rw [← Option.some.inj hc]
  · rw [sent_cons, h.sent]
    show (buf.drop w.off).take n ++ (buf.drop (w.off + n)).take (r.writer.off - (w.off + n)) =
      (buf.drop w.off).take (r.writer.off - w.off)
    have hsum : r.writer.off - w.off = n + (r.writer.off - (w.off + n)) := by omega
    rw [hsum, List.take_add, List.drop_drop]
  · intro hdone
    have ⟨hbuf, hoff, hends, c, hlast, hagain⟩ := h.blocked hdone
    exact ⟨hbuf, hoff, List.forall_mem_cons.mpr ⟨hno, hends⟩, c, getLast?_cons_some hlast, hagain⟩
  · intro hdone
    have ⟨hbuf, hend⟩ := h.done hdone
    refine ⟨hbuf, hend.imp_right ?_⟩
    rintro ⟨c, hc, hends⟩
    exact ⟨c, List.mem_cons_of_mem _ hc, hends⟩

end Writes

/-- A writer that has written all of its buffer. -/
theorem Writes.all {buf : Bytes} {w : WriterState} (h : w.off = buf.length)
    (rest : List WriteAnswer) : Writes buf w ⟨{ w with buf := none }, true, [], rest⟩ :=
  ⟨le_rfl, h.le, nofun, nofun, by rw [Nat.sub_self]; rfl, nofun, fun _ => ⟨rfl, Or.inl h⟩⟩

theorem WriterState.writeCalls_writes {buf : Bytes} {off : ℕ} (hoff : off ≤ buf.length)
    (answers : List WriteAnswer) :
    Writes buf ⟨some buf, off⟩ (WriterState.writeCalls ⟨some buf, off⟩ answers) := by
  induction answers generalizing off with
  | nil =>
    unfold writeCalls
    dsimp only
    by_cases hlt : off < buf.length
    · rw [if_pos hlt]
      exact .one hlt rfl rfl (fun _ => ⟨rfl, rfl⟩) (by simp)
    · rw [if_neg hlt]
      exact .all (Nat.le_antisymm hoff (Nat.le_of_not_lt hlt)) _
  | cons answer answers ih =>
    unfold writeCalls
    dsimp only
    by_cases hlt : off < buf.length
    · rw [if_pos hlt]
      cases answer with
      | wrote n =>
        dsimp only
        by_cases hn : min n (min (buf.length - off) WRITE_CHUNK) > 0
        · rw [if_pos hn]
          have hfit := Nat.min_le_right n (min (buf.length - off) WRITE_CHUNK)
          have hle : off + min n (min (buf.length - off) WRITE_CHUNK) ≤ buf.length := by omega
          exact .after hn hfit (ih hle)
        · rw [if_neg hn, Nat.eq_zero_of_not_pos hn]
          exact .one hlt rfl rfl (by simp) fun _ => ⟨rfl, Or.inl rfl⟩
      | fail code =>
        dsimp only
        by_cases hintr : code = EINTR
        · rw [if_pos hintr]
          exact ih hoff
        · rw [if_neg hintr]
          by_cases hagain : code = EAGAIN
          · rw [if_pos hagain, hagain]
            exact .one hlt rfl rfl (fun _ => ⟨rfl, rfl⟩) (by simp)
          · rw [if_neg hagain]
            exact .one hlt rfl rfl (by simp) fun _ => ⟨rfl, Or.inr ⟨_, rfl, hagain⟩⟩
    · rw [if_neg hlt]
      exact .all (Nat.le_antisymm hoff (Nat.le_of_not_lt hlt)) _

/-! ## All writings -/

namespace WriterState

/-- A call of `write_to_fd` with the answers to its system calls. -/
def Step (w : WriterState) (l : List WriteAnswer × Writing) (w' : WriterState) : Prop :=
  w.writeCalls l.1 = l.2 ∧ l.2.writer = w'

end WriterState

/-- The calls of `Fd::write` in some calls of `write_to_fd`. -/
def writesOf (t : List (List WriteAnswer × Writing)) : List (WriteCall UInt8 SysError) :=
  t.flatMap fun l => l.2.calls

/-- A buffer of which so much was written as the offset says; it is dropped when the writing is
over. -/
structure Fed (buf : Bytes) (t : List (List WriteAnswer × Writing)) (w : WriterState) : Prop where
  off_le : w.off ≤ buf.length
  calls : ∀ c ∈ writesOf t, c.buf = buf ∧ c.InRange
  sent : sent (writesOf t) = buf.take w.off
  buffer : w.buf = some buf ∧ (∀ c ∈ writesOf t, ¬ Ends c) ∨
    w.buf = none ∧ (w.off = buf.length ∨ ∃ c ∈ writesOf t, Ends c)

namespace Fed

variable {buf : Bytes} {t : List (List WriteAnswer × Writing)} {w w' : WriterState}
  {l : List WriteAnswer × Writing}

theorem writesOf_snoc (t : List (List WriteAnswer × Writing)) (l : List WriteAnswer × Writing) :
    writesOf (t ++ [l]) = writesOf t ++ l.2.calls := by
  rw [writesOf, List.flatMap_append, List.flatMap_singleton]
  rfl

/-- After the end, nothing is written. -/
theorem calls_of_none (h : w.buf = none) (answers : List WriteAnswer) :
    w.writeCalls answers = ⟨w, true, [], answers⟩ := by
  unfold WriterState.writeCalls
  rw [h]

/-- A call goes on with the buffer, or finds none. -/
theorem called (h : Fed buf t w) (hstep : w.Step l w') :
    l.2.writer = w' ∧ ((∀ c ∈ writesOf t, ¬ Ends c) ∧ Writes buf w l.2 ∨
      w.buf = none ∧ (w.off = buf.length ∨ ∃ c ∈ writesOf t, Ends c) ∧
        l.2 = ⟨w, true, [], l.1⟩) := by
  have ⟨hr, hw'⟩ := hstep
  refine ⟨hw', ?_⟩
  rcases h.buffer with ⟨hbuf, hopen⟩ | ⟨hbuf, hend⟩
  · have hw : w = ⟨some buf, w.off⟩ := by rw [← hbuf]
    have hwrites := WriterState.writeCalls_writes h.off_le l.1
    rw [← hw, hr] at hwrites
    exact Or.inl ⟨hopen, hwrites⟩
  · rw [calls_of_none hbuf] at hr
    exact Or.inr ⟨hbuf, hend, hr.symm⟩

theorem step (h : Fed buf t w) (hstep : w.Step l w') : Fed buf (t ++ [l]) w' := by
  have ⟨hw', hcalled⟩ := h.called hstep
  have hsnoc := writesOf_snoc t l
  rw [← hw']
  rcases hcalled with ⟨hopen, hwrites⟩ | ⟨hbuf, hend, hquiet⟩
  · refine ⟨hwrites.off_le, ?_, ?_, ?_⟩
    · rw [hsnoc]
      exact List.forall_mem_append.mpr ⟨h.calls, hwrites.calls⟩
    · rw [hsnoc, sent_append, h.sent, hwrites.sent]
      have hsum : l.2.writer.off = w.off + (l.2.writer.off - w.off) := by
        have hle := hwrites.le
        omega
      conv_rhs => rw [hsum, List.take_add]
    · rw [hsnoc]
      cases hdone : l.2.done with
      | false =>
        have ⟨hbuf, _, hends, _⟩ := hwrites.blocked hdone
        exact Or.inl ⟨hbuf, List.forall_mem_append.mpr ⟨hopen, hends⟩⟩
      | true =>
        have ⟨hbuf, hends⟩ := hwrites.done hdone
        refine Or.inr ⟨hbuf, hends.imp_right ?_⟩
        rintro ⟨c, hc, hends⟩
        exact ⟨c, List.mem_append_right _ hc, hends⟩
  · have hcalls : writesOf (t ++ [l]) = writesOf t := by
      rw [hsnoc, hquiet]
      exact List.append_nil _
    have hsame : l.2.writer = w := by rw [hquiet]
    rw [hsame]
    refine ⟨h.off_le, ?_, ?_, ?_⟩
    · rw [hcalls]
      exact h.calls
    · rw [hcalls]
      exact h.sent
    · rw [hcalls]
      exact Or.inr ⟨hbuf, hend⟩

theorem run {h : List (Moment WriterState (List WriteAnswer × Writing))}
    (hrun : Run (Traced WriterState.Step) (.new (some buf)) h w) :
    Fed buf (h.map Moment.label) w := by
  have hinit : Fed buf [] (.new (some buf)) :=
    ⟨Nat.zero_le _, nofun, rfl, Or.inl ⟨rfl, nofun⟩⟩
  exact Run.invariant_trace [] (fun _ _ _ _ hfed hs => hfed.step hs) hrun.untraced hinit

/-- A call that is not the last one ends with a descriptor that blocks. -/
theorem blocked (h : Fed buf t w) (hstep : w.Step l w') (hdone : l.2.done = false) :
    ∃ c, l.2.calls.getLast? = some c ∧ c.result = .error ⟨EAGAIN, "write"⟩ := by
  rcases (h.called hstep).2 with ⟨_, hwrites⟩ | ⟨_, _, hquiet⟩
  · have ⟨_, _, _, hlast⟩ := hwrites.blocked hdone
    exact hlast
  · rw [hquiet] at hdone
    cases hdone

/-- Without a buffer nothing is written any more. -/
theorem quiet {h : List (Moment WriterState (List WriteAnswer × Writing))}
    (hrun : Run (Traced WriterState.Step) w h w') (hnone : w.buf = none) :
    ∀ m ∈ h, m.label.2.calls = [] := by
  induction hrun with
  | nil => exact nofun
  | cons hstep _ ih =>
    have ⟨_, _, hr, hw⟩ := hstep
    rw [calls_of_none hnone] at hr
    rw [← hr] at hw
    refine List.forall_mem_cons.mpr ⟨?_, ih ?_⟩
    · rw [← hr]
    · rw [← hw]
      exact hnone

end Fed

/-! ## The input of a drain -/

/-- `write_stdin` writes while there is a slot, which it gives up with the last call. -/
theorem Drain.writeStdin_slot (d : Drain F) (answers : List WriteAnswer) :
    (d.stdinSlot = none →
      (d.writeStdin answers).1.stdinSlot = none ∧ (d.writeStdin answers).2.writes = []) ∧
    ∀ slot, d.stdinSlot = some slot →
      (d.writeStdin answers).2.writes = (d.writer.writeCalls answers).calls ∧
      (d.writeStdin answers).1.writer = (d.writer.writeCalls answers).writer ∧
      ((d.writer.writeCalls answers).done = true →
        (d.writeStdin answers).1.stdinSlot = none ∧
          (d.writeStdin answers).2.result = .ok (some slot)) ∧
      ((d.writer.writeCalls answers).done = false →
        (d.writeStdin answers).1.stdinSlot = some slot ∧
          (d.writeStdin answers).2.result = .ok none) := by
  unfold writeStdin
  cases hslot : d.stdinSlot with
  | none => exact ⟨fun _ => ⟨hslot, rfl⟩, nofun⟩
  | some slot =>
    refine ⟨nofun, fun slot' heq => ?_⟩
    rw [← Option.some.inj heq]
    dsimp only
    cases (d.writer.writeCalls answers).done with
    | true => exact ⟨rfl, rfl, fun _ => ⟨rfl, rfl⟩, nofun⟩
    | false => exact ⟨rfl, rfl, nofun, fun _ => ⟨rfl, rfl⟩⟩

namespace Streams

/-- A writer of three bytes. -/
def writer : WriterState := .new (some [97, 98, 99])

/-- Two bytes are taken before the pipe is full. -/
def full : List WriteAnswer := [.wrote 2, .fail EAGAIN]

/-- The rest is taken later. -/
def later : List WriteAnswer := [.wrote 1]

def calls : List (List WriteAnswer × Writing) :=
  [(full, writer.writeCalls full), (later, (writer.writeCalls full).writer.writeCalls later)]

end Streams
end CoreShift
