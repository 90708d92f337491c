import CoreShift.LowLevel.Io
import CoreShift.Utils.Transfers

/-!
# Buffers and their calls

`read_from_fd` and `write_to_fd` once more, with what the functions of `LowLevel.Io` leave out:
the capacity of the vectors, the predicate `early_exit` with the state that an `FnMut` may have,
and the calls of `Fd::read` and `Fd::write` with what they ask for. The theorems at the end say
that without these the functions are those of `LowLevel.Io`.
-/

namespace CoreShift

open Utils

/-! ## Vectors -/

/-- A `Vec<u8>`. -/
structure Vec where
  data : Bytes
  capacity : ℕ
  fits : data.length ≤ capacity

/-- The allocator may give more than it is asked for. -/
structure Allocator where
  grow : ℕ → ℕ → ℕ
  enough : ∀ capacity needed, needed ≤ grow capacity needed

namespace Vec

/-- `Vec::with_capacity`. -/
def withCapacity (alloc : Allocator) (n : ℕ) : Vec := ⟨[], alloc.grow 0 n, Nat.zero_le _⟩

/-- The room behind the data. -/
def spare (v : Vec) : ℕ := v.capacity - v.data.length

/-- `Vec::reserve`. -/
def reserve (alloc : Allocator) (v : Vec) (additional : ℕ) : Vec :=
  if additional ≤ v.spare then v
  else
    { data := v.data
      capacity := alloc.grow v.capacity (v.data.length + additional)
      fits := Nat.le_trans (Nat.le_add_right _ _) (alloc.enough _ _) }

/-- `set_len`, after bytes were written into the room behind the data. -/
def extend (v : Vec) (bytes : Bytes) (h : bytes.length ≤ v.spare) : Vec :=
  { data := v.data ++ bytes
    capacity := v.capacity
    fits := by
      have hfits := v.fits
      unfold spare at h
      rw [List.length_append]
      omega }

@[simp] theorem reserve_data (alloc : Allocator) (v : Vec) (n : ℕ) :
    (v.reserve alloc n).data = v.data := by
  unfold reserve
  split <;> rfl

theorem le_spare_reserve (alloc : Allocator) (v : Vec) (n : ℕ) : n ≤ (v.reserve alloc n).spare := by
  unfold reserve
  split
  · next h => exact h
  · have henough := alloc.enough v.capacity (v.data.length + n)
    unfold spare
    dsimp only
    omega

@[simp] theorem extend_data (v : Vec) (bytes : Bytes) (h : bytes.length ≤ v.spare) :
    (v.extend bytes h).data = v.data ++ bytes := rfl

end Vec

/-! ## Reading -/

/-- `BufferState`. -/
structure Buffers where
  stdout : Vec
  stderr : Vec
  limit : ℕ

/-- `READ_CHUNK` bytes at most are read at once, and what is beyond the limit goes into an array
of this size. -/
def DROP_BUF : ℕ := 8192

namespace Buffers

def new (alloc : Allocator) (limit : ℕ) : Buffers :=
  ⟨.withCapacity alloc 1024, .withCapacity alloc 1024, limit⟩

def dest (b : Buffers) (isStdout : Bool) : Vec := if isStdout then b.stdout else b.stderr

def setDest (b : Buffers) (isStdout : Bool) (v : Vec) : Buffers :=
  if isStdout then { b with stdout := v } else { b with stderr := v }

/-- `remaining_limit`. -/
def remainingLimit (b : Buffers) (isStdout : Bool) : ℕ :=
  b.limit - (b.dest isStdout).data.length

/-- The vector with the room that is ensured before a read. -/
def ensured (alloc : Allocator) (b : Buffers) (isStdout : Bool) : Vec :=
  let v := b.dest isStdout
  let toRead := min (b.remainingLimit isStdout) READ_CHUNK
  if v.spare < toRead then v.reserve alloc toRead else v

/-- What the next read is prepared with: the buffers, the room, and the number of bytes. -/
structure Request where
  buffer : Buffers
  room : ℕ
  count : ℕ

def request (alloc : Allocator) (b : Buffers) (isStdout : Bool) : Request :=
  if b.remainingLimit isStdout = 0 then ⟨b, DROP_BUF, DROP_BUF⟩
  else
    let v := b.ensured alloc isStdout
    ⟨b.setDest isStdout v, v.spare, min (b.remainingLimit isStdout) READ_CHUNK⟩

@[simp] theorem dest_setDest (b : Buffers) (isStdout : Bool) (v : Vec) :
    (b.setDest isStdout v).dest isStdout = v := by
  cases isStdout <;> rfl

@[simp] theorem dest_setDest_not (b : Buffers) (isStdout : Bool) (v : Vec) :
    (b.setDest isStdout v).dest (!isStdout) = b.dest (!isStdout) := by
  cases isStdout <;> rfl

@[simp] theorem limit_setDest (b : Buffers) (isStdout : Bool) (v : Vec) :
    (b.setDest isStdout v).limit = b.limit := by
  cases isStdout <;> rfl

@[simp] theorem ensured_data (alloc : Allocator) (b : Buffers) (isStdout : Bool) :
    (b.ensured alloc isStdout).data = (b.dest isStdout).data := by
  unfold ensured
  dsimp only
  split
  · exact Vec.reserve_data ..
  · rfl

theorem le_spare_ensured (alloc : Allocator) (b : Buffers) (isStdout : Bool) :
    min (b.remainingLimit isStdout) READ_CHUNK ≤ (b.ensured alloc isStdout).spare := by
  unfold ensured
  dsimp only
  split
  · exact Vec.le_spare_reserve ..
  · next h => exact Nat.le_of_not_lt h

end Buffers

/-- What `read_from_fd` leaves behind: the calls it made, and the chunks that were shown to
`early_exit`, with its verdicts. -/
structure Reading (F : Type) where
  buffer : Buffers
  earlyExit : Option F
  result : Except SysError Bool
  calls : List (ReadCall UInt8 SysError)
  shown : List (Bytes × Bool)
  rest : List ReadAnswer

/-- A reading that was preceded by one call. -/
def Reading.after {F : Type} (r : Reading F) (call : ReadCall UInt8 SysError)
    (shown : List (Bytes × Bool)) : Reading F :=
  { r with calls := call :: r.calls, shown := shown ++ r.shown }

variable {F : Type}

/-- The verdict on a chunk; only standard output has one to ask. -/
def judge (pred : F → Bytes → F × Bool) (isStdout : Bool) (earlyExit : Option F) (chunk : Bytes) :
    Option F × List (Bytes × Bool) :=
  match earlyExit with
  | some f =>
    if isStdout then (some (pred f chunk).1, [(chunk, (pred f chunk).2)]) else (some f, [])
  | none => (none, [])

/-- `BufferState::read_from_fd`. -/
def Buffers.readFromFd (alloc : Allocator) (pred : F → Bytes → F × Bool) (b : Buffers)
    (isStdout : Bool) (earlyExit : Option F) : List ReadAnswer → Reading F
  | [] =>
    let q := b.request alloc isStdout
    ⟨q.buffer, earlyExit, .ok false, [⟨q.room, q.count, .error ⟨EAGAIN, "read"⟩⟩], [], []⟩
  | .fail code :: answers =>
    -- `Fd::read` retries on `EINTR`
    if code = EINTR then b.readFromFd alloc pred isStdout earlyExit answers
    else
      let q := b.request alloc isStdout
      ⟨q.buffer, earlyExit, if code = EAGAIN then .ok false else .error ⟨code, "read"⟩,
        [⟨q.room, q.count, .error ⟨code, "read"⟩⟩], [], answers⟩
  | .data bytes :: answers =>
    if b.remainingLimit isStdout = 0 then
      let got := bytes.take DROP_BUF
      let call := ⟨DROP_BUF, DROP_BUF, .ok got⟩
      if got.length > 0 then
        (b.readFromFd alloc pred isStdout earlyExit answers).after call []
      else ⟨b, earlyExit, .ok true, [call], [], answers⟩
    else
      let toRead := min (b.remainingLimit isStdout) READ_CHUNK
      let v := b.ensured alloc isStdout
      let got := bytes.take toRead
      let call := ⟨v.spare, toRead, .ok got⟩
      if got.length > 0 then
        have hfits : got.length ≤ v.spare :=
          Nat.le_trans (List.length_take_le _ _) (b.le_spare_ensured alloc isStdout)
        let b' := b.setDest isStdout (v.extend got hfits)
        let verdict := judge pred isStdout earlyExit got
        if verdict.2.any Prod.snd then ⟨b', verdict.1, .ok true, [call], verdict.2, answers⟩
        else (b'.readFromFd alloc pred isStdout verdict.1 answers).after call verdict.2
      else ⟨b.setDest isStdout v, earlyExit, .ok true, [call], [], answers⟩

/-! ## Writing -/

/-- What `write_to_fd` leaves behind. -/
structure Writing where
  writer : WriterState
  done : Bool
  calls : List (WriteCall UInt8 SysError)
  rest : List WriteAnswer

/-- `WriterState::write_to_fd`, with its calls. -/
def WriterState.writeCalls (w : WriterState) (answers : List WriteAnswer) : Writing :=
  match w.buf with
  | none => ⟨w, true, [], answers⟩
  | some buf =>
    if w.off < buf.length then
      let chunk := min (buf.length - w.off) WRITE_CHUNK
      match answers with
      | [] => ⟨w, false, [⟨buf, w.off, chunk, .error ⟨EAGAIN, "write"⟩⟩], []⟩
      | .wrote n :: answers =>
        let n := min n chunk
        let call := ⟨buf, w.off, chunk, .ok n⟩
        if n > 0 then
          let rest := { w with off := w.off + n }.writeCalls answers
          { rest with calls := call :: rest.calls }
        else ⟨{ w with buf := none }, true, [call], answers⟩
      | .fail code :: answers =>
        -- `Fd::write` retries on `EINTR`
        if code = EINTR then w.writeCalls answers
        else
          let call := ⟨buf, w.off, chunk, .error ⟨code, "write"⟩⟩
          if code = EAGAIN then ⟨w, false, [call], answers⟩
          else ⟨{ w with buf := none }, true, [call], answers⟩
    else ⟨{ w with buf := none }, true, [], answers⟩
termination_by structural answers

/-! ## Both together -/

/-- `DrainState`. -/
structure Drain (F : Type) where
  stdoutSlot : Option FdSlot
  stderrSlot : Option FdSlot
  stdinSlot : Option FdSlot
  buffer : Buffers
  writer : WriterState
  earlyExit : Option F

/-- What a method of the drain returns, and the calls it made. -/
structure Called where
  result : Except SysError (Option FdSlot)
  reads : List (ReadCall UInt8 SysError)
  shown : List (Bytes × Bool)
  writes : List (WriteCall UInt8 SysError)

namespace Drain

/-- The drain that `DrainState::new` makes of its slots. -/
def start (alloc : Allocator) (stdoutSlot stderrSlot stdinSlot : Option FdSlot)
    (stdinBuf : Option Bytes) (limit : ℕ) (earlyExit : Option F) : Drain F :=
  ⟨stdoutSlot, stderrSlot, stdinSlot, .new alloc limit, .new stdinBuf, earlyExit⟩

def readSlot (d : Drain F) (isStdout : Bool) : Option FdSlot :=
  if isStdout then d.stdoutSlot else d.stderrSlot

def giveUp (d : Drain F) (isStdout : Bool) : Drain F :=
  if isStdout then { d with stdoutSlot := none } else { d with stderrSlot := none }

/-- `DrainState::read_fd`. -/
def readFd (alloc : Allocator) (pred : F → Bytes → F × Bool) (d : Drain F) (isStdout : Bool)
    (answers : List ReadAnswer) : Drain F × Called :=
  match d.readSlot isStdout with
  | none => (d, ⟨.ok none, [], [], []⟩)
  | some slot =>
    let r := d.buffer.readFromFd alloc pred isStdout d.earlyExit answers
    let d := { d with buffer := r.buffer, earlyExit := r.earlyExit }
    match r.result with
    | .error e => (d, ⟨.error e, r.calls, r.shown, []⟩)
    | .ok false => (d, ⟨.ok none, r.calls, r.shown, []⟩)
    | .ok true => (d.giveUp isStdout, ⟨.ok (some slot), r.calls, r.shown, []⟩)

/-- `DrainState::write_stdin`. -/
def writeStdin (d : Drain F) (answers : List WriteAnswer) : Drain F × Called :=
  match d.stdinSlot with
  | none => (d, ⟨.ok none, [], [], []⟩)
  | some slot =>
    let r := d.writer.writeCalls answers
    if r.done then
      ({ d with writer := r.writer, stdinSlot := none }, ⟨.ok (some slot), [], [], r.calls⟩)
    else ({ d with writer := r.writer }, ⟨.ok none, [], [], r.calls⟩)

end Drain

/-! ## One read after the other -/

namespace Buffers

variable {alloc : Allocator} {pred : F → Bytes → F × Bool} {b : Buffers} {i : Bool}
  {earlyExit : Option F} {bytes : Bytes} {answers : List ReadAnswer}

theorem count_of_full (h : b.remainingLimit i = 0) : (b.request alloc i).count = DROP_BUF := by
  rw [request, if_pos h]

theorem count_of_room (h : b.remainingLimit i ≠ 0) :
    (b.request alloc i).count = min (b.remainingLimit i) READ_CHUNK := by
  rw [request, if_neg h]

/-- The answers are at an end. -/
theorem readFromFd_eof (h : bytes.take (b.request alloc i).count = []) :
    b.readFromFd alloc pred i earlyExit (.data bytes :: answers) =
      ⟨(b.request alloc i).buffer, earlyExit, .ok true,
        [⟨(b.request alloc i).room, (b.request alloc i).count, .ok []⟩], [], answers⟩ := by
  unfold readFromFd
  by_cases hfull : b.remainingLimit i = 0
  · rw [count_of_full hfull] at h
    simp only [hfull, if_true, h, request]
    rfl
  · rw [count_of_room hfull] at h
    simp only [hfull, if_false, h, request]
    rfl

/-- Beyond the limit, what is read is dropped. -/
theorem readFromFd_discard (hfull : b.remainingLimit i = 0)
    (h : bytes.take (b.request alloc i).count ≠ []) :
    b.readFromFd alloc pred i earlyExit (.data bytes :: answers) =
      (b.readFromFd alloc pred i earlyExit answers).after
        ⟨(b.request alloc i).room, (b.request alloc i).count,
          .ok (bytes.take (b.request alloc i).count)⟩ [] := by
  conv_lhs => unfold readFromFd
  rw [count_of_full hfull] at h ⊢
  have hroom : (b.request alloc i).room = DROP_BUF := by rw [request, if_pos hfull]
  rw [hroom]
  simp only [hfull, if_true, if_pos (List.length_pos_iff.mpr h)]

/-- Below the limit, it is kept and shown to `early_exit`. -/
theorem readFromFd_store (pred : F → Bytes → F × Bool) (earlyExit : Option F)
    (answers : List ReadAnswer) (hroom : b.remainingLimit i ≠ 0)
    (h : bytes.take (b.request alloc i).count ≠ []) :
    ∃ v : Vec, v.data = (b.dest i).data ++ bytes.take (b.request alloc i).count ∧
      b.readFromFd alloc pred i earlyExit (.data bytes :: answers) =
        let got := bytes.take (b.request alloc i).count
        let call := ⟨(b.request alloc i).room, (b.request alloc i).count, .ok got⟩
        let verdict := judge pred i earlyExit got
        if verdict.2.any Prod.snd then
          ⟨b.setDest i v, verdict.1, .ok true, [call], verdict.2, answers⟩
        else
          ((b.setDest i v).readFromFd alloc pred i verdict.1 answers).after call verdict.2 := by
  have hpos := List.length_pos_iff.mpr h
  have hcall : (b.request alloc i).room = (b.ensured alloc i).spare := by
    rw [request, if_neg hroom]
  have hfits : (bytes.take (b.request alloc i).count).length ≤ (b.ensured alloc i).spare := by
    rw [count_of_room hroom]
    exact Nat.le_trans (List.length_take_le _ _) (b.le_spare_ensured alloc i)
  refine ⟨(b.ensured alloc i).extend _ hfits, ?_, ?_⟩
  · rw [Vec.extend_data, ensured_data]
  · conv_lhs => unfold readFromFd
    rw [hcall]
    simp only [count_of_room hroom] at hpos ⊢
    simp only [hroom, if_false]
    exact if_pos hpos

theorem readFromFd_fail {code : Int32} (hintr : code ≠ EINTR) :
    b.readFromFd alloc pred i earlyExit (.fail code :: answers) =
      ⟨(b.request alloc i).buffer, earlyExit,
        if code = EAGAIN then .ok false else .error ⟨code, "read"⟩,
        [⟨(b.request alloc i).room, (b.request alloc i).count, .error ⟨code, "read"⟩⟩], [],
        answers⟩ := by
  rw [readFromFd, if_neg hintr]

end Buffers

/-! ## The same functions -/

/-- A predicate without a state, `fn(&[u8]) -> bool`. -/
def statelessly (f : Bytes → Bool) (chunk : Bytes) : (Bytes → Bool) × Bool := (f, f chunk)

theorem judge_statelessly (i : Bool) (earlyExit : Option (Bytes → Bool)) (chunk : Bytes) :
    (judge statelessly i earlyExit chunk).1 = earlyExit ∧
      (judge statelessly i earlyExit chunk).2.any Prod.snd =
        (i && earlyExit.any fun f => f chunk) := by
  cases earlyExit with
  | none => cases i <;> exact ⟨rfl, rfl⟩
  | some f => cases i <;> simp [judge, statelessly]

namespace Buffers

def erase (b : Buffers) : BufferState := ⟨b.stdout.data, b.stderr.data, b.limit⟩

variable {b : Buffers} {i : Bool}

theorem erase_dest : b.erase.dest i = (b.dest i).data := by
  cases i <;> rfl

theorem erase_setDest {v : Vec} {bytes : Bytes} (h : v.data = (b.dest i).data ++ bytes) :
    (b.setDest i v).erase = b.erase.extend i bytes := by
  cases i
  · exact congrArg (fun data => BufferState.mk b.stdout.data data b.limit) h
  · exact congrArg (fun data => BufferState.mk data b.stderr.data b.limit) h

theorem erase_request (alloc : Allocator) : (b.request alloc i).buffer.erase = b.erase := by
  unfold request
  split
  · rfl
  · have hdata : (b.ensured alloc i).data = (b.dest i).data ++ [] := by
      rw [ensured_data, List.append_nil]
    rw [erase_setDest hdata]
    cases i <;> simp [BufferState.extend]

/-- `read_from_fd` of `LowLevel.Io`, in terms of the next read. -/
theorem erase_readFromFd_data (alloc : Allocator) (earlyExit : Option (Bytes → Bool))
    (bytes : Bytes) (answers : List ReadAnswer) :
    b.erase.readFromFd i earlyExit (.data bytes :: answers) =
      let got := bytes.take (b.request alloc i).count
      if got = [] then (b.erase, .ok true, answers)
      else if b.remainingLimit i = 0 then b.erase.readFromFd i earlyExit answers
      else if i && earlyExit.any fun f => f got then (b.erase.extend i got, .ok true, answers)
      else (b.erase.extend i got).readFromFd i earlyExit answers := by
  conv_lhs => unfold BufferState.readFromFd
  have hlimit : b.erase.limit - (b.erase.dest i).length = b.remainingLimit i := by
    rw [erase_dest]
    rfl
  rw [hlimit]
  dsimp only
  by_cases hfull : b.remainingLimit i = 0
  · have hdrop : DROP_BUF = 8192 := rfl
    rw [count_of_full hfull, if_pos hfull, if_pos hfull, hdrop]
    by_cases hgot : bytes.take 8192 = []
    · rw [if_pos hgot, if_neg (by rw [hgot]; exact Nat.not_lt_zero 0)]
    · rw [if_neg hgot, if_pos (List.length_pos_iff.mpr hgot)]
  · rw [count_of_room hfull, if_neg hfull, if_neg hfull]
    by_cases hgot : bytes.take (min (b.remainingLimit i) READ_CHUNK) = []
    · rw [if_pos hgot, if_neg (by rw [hgot]; exact Nat.not_lt_zero 0)]
    · rw [if_neg hgot, if_pos (List.length_pos_iff.mpr hgot)]

/-- `read_from_fd` without capacities and calls. -/
theorem readFromFd_erase (alloc : Allocator) (b : Buffers) (i : Bool)
    (earlyExit : Option (Bytes → Bool)) (answers : List ReadAnswer) :
    let r := b.readFromFd alloc statelessly i earlyExit answers
    (r.buffer.erase, r.result, r.rest) = b.erase.readFromFd i earlyExit answers ∧
      r.earlyExit = earlyExit := by
  intro r
  induction answers generalizing b with
  | nil =>
    refine ⟨?_, rfl⟩
    show ((b.request alloc i).buffer.erase, _, _) = _
    rw [erase_request]
    rfl
  | cons answer answers ih =>
    cases answer with
    | fail code =>
      by_cases hintr : code = EINTR
      · have hr : r = b.readFromFd alloc statelessly i earlyExit answers := if_pos hintr
        have hread : b.erase.readFromFd i earlyExit (.fail code :: answers) =
            b.erase.readFromFd i earlyExit answers := if_pos hintr
        rw [hr, hread]
        exact ih b
      · have hr : r = _ := readFromFd_fail hintr
        rw [hr]
        dsimp only
        rw [erase_request, BufferState.readFromFd, if_neg hintr]
        by_cases hagain : code = EAGAIN
        · rw [if_pos hagain, if_pos hagain]
          exact ⟨rfl, rfl⟩
        · rw [if_neg hagain, if_neg hagain]
          exact ⟨rfl, rfl⟩
    | data bytes =>
      rw [erase_readFromFd_data alloc]
      dsimp only
      by_cases hgot : bytes.take (b.request alloc i).count = []
      · have hr : r = _ := readFromFd_eof hgot
        rw [hr, if_pos hgot]
        dsimp only
        rw [erase_request]
        exact ⟨rfl, rfl⟩
      · rw [if_neg hgot]
        by_cases hfull : b.remainingLimit i = 0
        · have hr : r = _ := readFromFd_discard hfull hgot
          rw [hr, if_pos hfull]
          exact ih b
        · have ⟨v, hv, heq⟩ := readFromFd_store statelessly earlyExit answers hfull hgot
          have hr : r = _ := heq
          have ⟨hsame, hany⟩ := judge_statelessly i earlyExit
            (bytes.take (b.request alloc i).count)
          rw [hr, if_neg hfull]
          dsimp only
          rw [hany, hsame, ← erase_setDest hv]
          split
          · exact ⟨rfl, rfl⟩
          · exact ih _

end Buffers

/-- `write_to_fd` without the calls. -/
theorem WriterState.writeCalls_erase (w : WriterState) (answers : List WriteAnswer) :
    ((w.writeCalls answers).writer, (w.writeCalls answers).done, (w.writeCalls answers).rest) =
      w.writeToFd answers := by
  induction answers generalizing w with
  | nil =>
    unfold writeCalls writeToFd
    cases w.buf with
    | none => rfl
    | some buf =>
      dsimp only
      split <;> rfl
  | cons answer answers ih =>
    unfold writeCalls writeToFd
    cases w.buf with
    | none => rfl
    | some buf =>
      dsimp only
      by_cases hoff : w.off < buf.length
      · rw [if_pos hoff, if_pos hoff]
        cases answer with
        | wrote n =>
          dsimp only
          split
          · exact ih _
          · rfl
        | fail code =>
          dsimp only
          split
          · exact ih w
          · split <;> rfl
      · rw [if_neg hoff, if_neg hoff]

namespace Drain

def erase (d : Drain (Bytes → Bool)) : DrainState :=
  ⟨d.stdoutSlot, d.stderrSlot, d.stdinSlot, d.buffer.erase, d.writer, d.earlyExit⟩

theorem readFd_erase (alloc : Allocator) (d : Drain (Bytes → Bool)) (i : Bool)
    (answers : List ReadAnswer) :
    ((d.readFd alloc statelessly i answers).1.erase,
      (d.readFd alloc statelessly i answers).2.result) = d.erase.readFd i answers := by
  have hslot : d.erase.readSlot i = d.readSlot i := by cases i <;> rfl
  unfold readFd DrainState.readFd
  rw [hslot]
  cases d.readSlot i with
  | none => rfl
  | some slot =>
    dsimp only
    have ⟨herase, hexit⟩ := d.buffer.readFromFd_erase alloc i d.earlyExit answers
    have hread : d.erase.buffer.readFromFd i d.erase.earlyExit answers = _ := herase.symm
    rw [hread, hexit]
    dsimp only
    cases (d.buffer.readFromFd alloc statelessly i d.earlyExit answers).result with
    | error e => rfl
    | ok done =>
      cases done with
      | false => rfl
      | true => cases i <;> rfl

theorem writeStdin_erase (d : Drain (Bytes → Bool)) (answers : List WriteAnswer) :
    ((d.writeStdin answers).1.erase, (d.writeStdin answers).2.result) =
      ((d.erase.writeStdin answers).1, .ok (d.erase.writeStdin answers).2) := by
  have hslot : d.erase.stdinSlot = d.stdinSlot := rfl
  unfold writeStdin DrainState.writeStdin
  rw [hslot]
  cases d.stdinSlot with
  | none => rfl
  | some slot =>
    dsimp only
    have hwrite : d.erase.writer.writeToFd answers = _ := (d.writer.writeCalls_erase answers).symm
    rw [hwrite]
    dsimp only
    split <;> rfl

end Drain
end CoreShift
