import CoreShift.LowLevel.Sys

/-!
# Draining the pipes of a child

`BufferState`, `WriterState` and `DrainState` of `low_level/io`. A call that reads or writes
in a loop takes the list of answers the descriptor gives to the successive system calls and
returns what is left of it; a list that has run out stands for a descriptor that would block.
-/

namespace CoreShift

def READ_CHUNK : ℕ := 65536
def WRITE_CHUNK : ℕ := 65536

/-- An answer to `read`; the kernel hands over at most as many bytes as were asked for. -/
inductive ReadAnswer
  | data (bytes : Bytes)
  | fail (code : Int32)
deriving DecidableEq, Repr

/-- An answer to `write`: a number of bytes, at most as many as were offered. -/
inductive WriteAnswer
  | wrote (n : ℕ)
  | fail (code : Int32)
deriving DecidableEq, Repr

/-! ## System calls of a descriptor -/

/-- `Fd::read` of at most `count` bytes; a socket without further answers would block. -/
def fdRead (count : ℕ) : List ReadAnswer → Except SysError Bytes × List ReadAnswer
  | [] => (.error ⟨EAGAIN, "read"⟩, [])
  | .data bytes :: answers => (.ok (bytes.take count), answers)
  | .fail code :: answers =>
    if code = EINTR then fdRead count answers else (.error ⟨code, "read"⟩, answers)

/-- `Fd::write`: the number of bytes that were taken. -/
def fdWrite (buf : Bytes) : List WriteAnswer → Except SysError ℕ × List WriteAnswer
  | [] => (.error ⟨EAGAIN, "write"⟩, [])
  | .wrote n :: answers => (.ok (min n buf.length), answers)
  | .fail code :: answers =>
    if code = EINTR then fdWrite buf answers else (.error ⟨code, "write"⟩, answers)

/-! ## Reading -/

structure BufferState where
  stdout : Bytes
  stderr : Bytes
  limit : ℕ
deriving DecidableEq, Repr

namespace BufferState

def new (limit : ℕ) : BufferState := ⟨[], [], limit⟩

/-- The destination of a stream. -/
def dest (b : BufferState) (isStdout : Bool) : Bytes := if isStdout then b.stdout else b.stderr

/-- Appends to the destination of a stream. -/
def extend (b : BufferState) (isStdout : Bool) (bytes : Bytes) : BufferState :=
  if isStdout then { b with stdout := b.stdout ++ bytes }
  else { b with stderr := b.stderr ++ bytes }

/-- `BufferState::read_from_fd`: reads until the descriptor blocks (`false`), is at its end
or `early_exit` says so (`true`), or fails. Beyond the limit the data is discarded. -/
def readFromFd (b : BufferState) (isStdout : Bool) (earlyExit : Option (Bytes → Bool)) :
    List ReadAnswer → BufferState × Except SysError Bool × List ReadAnswer
  | [] => (b, .ok false, [])
  | .fail code :: answers =>
    -- `Fd::read` retries on `EINTR`
    if code = EINTR then b.readFromFd isStdout earlyExit answers
    else if code = EAGAIN then (b, .ok false, answers)
    else (b, .error ⟨code, "read"⟩, answers)
  | .data bytes :: answers =>
    let remainingLimit := b.limit - (b.dest isStdout).length
    if remainingLimit = 0 then
      if (bytes.take 8192).length > 0 then b.readFromFd isStdout earlyExit answers
      else (b, .ok true, answers)
    else
      let chunk := bytes.take (min remainingLimit READ_CHUNK)
      if chunk.length > 0 then
        let b' := b.extend isStdout chunk
        if isStdout && (earlyExit.any fun f => f chunk) then (b', .ok true, answers)
        else b'.readFromFd isStdout earlyExit answers
      else (b, .ok true, answers)

end BufferState

/-! ## Writing -/

structure WriterState where
  buf : Option Bytes
  off : ℕ
deriving DecidableEq, Repr

namespace WriterState

def new (buf : Option Bytes) : WriterState := ⟨buf, 0⟩

/-- `WriterState::write_to_fd`. It never returns an error: `false` means that the descriptor
blocks, `true` that there is nothing more to write, or nobody to write to. -/
def writeToFd (w : WriterState) (answers : List WriteAnswer) :
    WriterState × Bool × List WriteAnswer :=
  match w.buf with
  | none => (w, true, answers)
  | some buf =>
    if w.off < buf.length then
      match answers with
      | [] => (w, false, [])
      | .wrote n :: answers =>
        let n := min n (min (buf.length - w.off) WRITE_CHUNK)
        if n > 0 then { w with off := w.off + n }.writeToFd answers
        else ({ w with buf := none }, true, answers)
      | .fail code :: answers =>
        -- `Fd::write` retries on `EINTR`
        if code = EINTR then w.writeToFd answers
        else if code = EAGAIN then (w, false, answers)
        else ({ w with buf := none }, true, answers)
    else ({ w with buf := none }, true, answers)
termination_by structural answers

end WriterState

/-! ## Both together -/

structure FdSlot where
  token : Token
  fd : RawFd
deriving DecidableEq, Repr

structure DrainState where
  stdoutSlot : Option FdSlot
  stderrSlot : Option FdSlot
  stdinSlot : Option FdSlot
  buffer : BufferState
  writer : WriterState
  earlyExit : Option (Bytes → Bool)

/-- The token of a stream of a job: the job's id with the number of the stream above it. -/
def slotToken (jobId : JobId) (k : UInt64) : Token := ⟨jobId ||| (k <<< 60)⟩

/-- The slot of a stream, if there is a pipe; the descriptor is first made non-blocking. -/
def FdSlot.new (jobId : JobId) (k : UInt64) (nonblock : Except SysError Unit) :
    Option RawFd → Except SysError (Option FdSlot)
  | some fd =>
    match nonblock with
    | .error e => .error e
    | .ok () => .ok (some ⟨slotToken jobId k, fd⟩)
  | none => .ok none

namespace DrainState

/-- `DrainState::new`; `nonblock` is what `set_nonblock` answers for a stream. An input pipe
without a buffer is not kept. -/
def new (jobId : JobId) (stdinFd : Option RawFd) (stdinBuf : Option Bytes)
    (stdoutFd stderrFd : Option RawFd) (limit : ℕ) (earlyExit : Option (Bytes → Bool))
    (nonblock : IoStream → Except SysError Unit) : Except SysError DrainState :=
  match FdSlot.new jobId 1 (nonblock .stdin) (if stdinBuf.isSome then stdinFd else none) with
  | .error e => .error e
  | .ok stdinSlot =>
    match FdSlot.new jobId 2 (nonblock .stdout) stdoutFd with
    | .error e => .error e
    | .ok stdoutSlot =>
      match FdSlot.new jobId 3 (nonblock .stderr) stderrFd with
      | .error e => .error e
      | .ok stderrSlot =>
        .ok ⟨stdoutSlot, stderrSlot, stdinSlot, .new limit, .new stdinBuf, earlyExit⟩

def isDone (d : DrainState) : Bool :=
  d.stdinSlot.isNone && d.stdoutSlot.isNone && d.stderrSlot.isNone

/-- `DrainState::write_stdin`; the slot is given up once the writer is done. -/
def writeStdin (d : DrainState) (answers : List WriteAnswer) : DrainState × Option FdSlot :=
  match d.stdinSlot with
  | none => (d, none)
  | some slot =>
    let r := d.writer.writeToFd answers
    if r.2.1 then ({ d with writer := r.1, stdinSlot := none }, some slot)
    else ({ d with writer := r.1 }, none)

/-- The slot of a stream that is read. -/
def readSlot (d : DrainState) (isStdout : Bool) : Option FdSlot :=
  if isStdout then d.stdoutSlot else d.stderrSlot

/-- `DrainState::read_fd`; the slot is given up at the end of the stream. -/
def readFd (d : DrainState) (isStdout : Bool) (answers : List ReadAnswer) :
    DrainState × Except SysError (Option FdSlot) :=
  match d.readSlot isStdout with
  | none => (d, .ok none)
  | some slot =>
    let r := d.buffer.readFromFd isStdout d.earlyExit answers
    let d := { d with buffer := r.1 }
    match r.2.1 with
    | .error e => (d, .error e)
    | .ok false => (d, .ok none)
    | .ok true =>
      if isStdout then ({ d with stdoutSlot := none }, .ok (some slot))
      else ({ d with stderrSlot := none }, .ok (some slot))

/-- `DrainState::take_all_slots`. -/
def takeAllSlots (d : DrainState) : List FdSlot × DrainState :=
  (d.stdinSlot.toList ++ d.stdoutSlot.toList ++ d.stderrSlot.toList,
    { d with stdinSlot := none, stdoutSlot := none, stderrSlot := none })

/-- `DrainState::into_parts`. -/
def intoParts (d : DrainState) : Bytes × Bytes := (d.buffer.stdout, d.buffer.stderr)

end DrainState
end CoreShift
