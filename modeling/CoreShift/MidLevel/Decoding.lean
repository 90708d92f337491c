import CoreShift.LowLevel.Buffers
import CoreShift.MidLevel.Wire

/-!
# Decoding, index by index

`decode_request` of `MidLevel.Wire` with the buffers it reads into, the ranges it takes of them
and the calls it makes. `none` stands for an index that is out of range, where the program would
panic; `decodeCalls_eq` says that there is none and that the result is the same.
-/

namespace CoreShift

open Utils

/-! ## Ranges -/

/-- `&bytes[start..]`. -/
def sliceFrom (bytes : Bytes) (start : ℕ) : Option Bytes :=
  if start ≤ bytes.length then some (bytes.drop start) else none

/-- `&bytes[start..stop]`. -/
def slice (bytes : Bytes) (start stop : ℕ) : Option Bytes :=
  if start ≤ stop ∧ stop ≤ bytes.length then some ((bytes.take stop).drop start) else none

/-- `copy_from_slice` into an array of `len` bytes; the lengths have to agree. -/
def copyFromSlice (len : ℕ) (src : Bytes) : Option Bytes :=
  if src.length = len then some src else none

/-- A buffer in which a read put some bytes, from `off` on. -/
def overwrite (buf : Bytes) (off : ℕ) (got : Bytes) : Bytes :=
  buf.take off ++ got ++ buf.drop (off + got.length)

/-- What was read so far stands in front of what is still blank. -/
theorem overwrite_append (read blank got : Bytes) :
    overwrite (read ++ blank) read.length got = (read ++ got) ++ blank.drop got.length := by
  rw [overwrite, List.take_left, List.drop_append, List.drop_eq_nil_of_le (Nat.le_add_right _ _),
    Nat.add_sub_cancel_left, List.nil_append]

/-! ## The reading loop -/

/-- How the reading loop ends. -/
structure Filling where
  result : Option (Except SysError (Option Bytes))
  calls : List (ReadCall UInt8 SysError)
  rest : List ReadAnswer

/-- A loop that was preceded by one call. -/
def Filling.after (f : Filling) (call : ReadCall UInt8 SysError) : Filling :=
  { f with calls := call :: f.calls }

/-- The loop of `decode_request`, which reads into `payload` from `totalRead` on. -/
def fillPayload (len : ℕ) (payload : Bytes) (totalRead : ℕ) (answers : List ReadAnswer) :
    Filling :=
  if totalRead < len then
    match sliceFrom payload totalRead with
    | none => ⟨none, [], answers⟩
    | some room =>
      let count := len - totalRead
      match answers with
      | [] =>
        ⟨some (.error ⟨EAGAIN, "read"⟩), [⟨room.length, count, .error ⟨EAGAIN, "read"⟩⟩], []⟩
      | .fail code :: answers =>
        -- `Fd::read` retries on `EINTR`
        if code = EINTR then fillPayload len payload totalRead answers
        else
          ⟨some (.error ⟨code, "read"⟩), [⟨room.length, count, .error ⟨code, "read"⟩⟩], answers⟩
      | .data bytes :: answers =>
        let got := bytes.take count
        let call := ⟨room.length, count, .ok got⟩
        if got.length = 0 then ⟨some (.ok none), [call], answers⟩
        else
          (fillPayload len (overwrite payload totalRead got) (totalRead + got.length)
            answers).after call
  else ⟨some (.ok (some payload)), [], answers⟩
termination_by structural answers

/-! ## The request -/

/-- What `decode_request` makes of a payload. -/
def parseIndexed (json : Json) (uid : UInt32) (payload : Bytes) : Option (Option Request) :=
  if payload.isEmpty then some none
  else
    match payload[0]? with
    | none => none
    | some reqType =>
      if reqType = 1 then
        (sliceFrom payload 1).map fun text => (json.parseCommand text).map (.exec uid)
      else if reqType = 2 then
        if payload.length = 9 then
          ((slice payload 1 9).bind (copyFromSlice 8)).map fun idBuf =>
            some (.getResult uid (UInt64.ofNat (fromLeBytes idBuf)))
        else some none
      else if reqType = 3 then
        if payload.length = 9 then
          ((slice payload 1 9).bind (copyFromSlice 8)).map fun idBuf =>
            some (.cancel uid (UInt64.ofNat (fromLeBytes idBuf)))
        else some none
      else some none

/-- What `decode_request` returns after the loop. -/
def Filling.request (json : Json) (uid : UInt32) (f : Filling) :
    Option (Except SysError (Option Request)) :=
  match f.result with
  | none => none
  | some (.error e) => some (.error e)
  | some (.ok none) => some (.ok none)
  | some (.ok (some payload)) => (parseIndexed json uid payload).map .ok

/-- How a decoding ends. -/
structure Decoding where
  result : Option (Except SysError (Option Request))
  calls : List (ReadCall UInt8 SysError)
  rest : List ReadAnswer

/-- `decode_request`, with its calls. -/
def decodeCalls (json : Json) (uid : UInt32) (answers : List ReadAnswer) : Decoding :=
  match fdRead 4 answers with
  | (.error e, answers) => ⟨some (.error e), [⟨4, 4, .error e⟩], answers⟩
  | (.ok lenBuf, answers) =>
    let call := ⟨4, 4, .ok lenBuf⟩
    if lenBuf.length ≠ 4 then ⟨some (.ok none), [call], answers⟩
    else if fromLeBytes lenBuf > maxPayload then ⟨some (.ok none), [call], answers⟩
    else
      let len := fromLeBytes lenBuf
      let f := fillPayload len (List.replicate len 0) 0 answers
      ⟨f.request json uid, call :: f.calls, f.rest⟩

/-! ## No index is out of range -/

section Loop

variable {len : ℕ} {read blank : Bytes} {answers : List ReadAnswer}

theorem sliceFrom_append (read blank : Bytes) :
    sliceFrom (read ++ blank) read.length = some blank := by
  rw [sliceFrom, if_pos (by rw [List.length_append]; exact Nat.le_add_right _ _), List.drop_left]

theorem fillPayload_full (h : ¬ read.length < len) :
    fillPayload len (read ++ blank) read.length answers =
      ⟨some (.ok (some (read ++ blank))), [], answers⟩ := by
  unfold fillPayload
  rw [if_neg h]

theorem fillPayload_nil (h : read.length < len) :
    fillPayload len (read ++ blank) read.length [] =
      ⟨some (.error ⟨EAGAIN, "read"⟩),
        [⟨blank.length, len - read.length, .error ⟨EAGAIN, "read"⟩⟩], []⟩ := by
  unfold fillPayload
  rw [if_pos h, sliceFrom_append]

theorem fillPayload_retry (h : read.length < len) :
    fillPayload len (read ++ blank) read.length (.fail EINTR :: answers) =
      fillPayload len (read ++ blank) read.length answers := by
  conv_lhs => unfold fillPayload
  rw [if_pos h, sliceFrom_append]
  exact if_pos rfl

theorem fillPayload_fail {code : Int32} (h : read.length < len) (hcode : code ≠ EINTR) :
    fillPayload len (read ++ blank) read.length (.fail code :: answers) =
      ⟨some (.error ⟨code, "read"⟩),
        [⟨blank.length, len - read.length, .error ⟨code, "read"⟩⟩], answers⟩ := by
  conv_lhs => unfold fillPayload
  rw [if_pos h, sliceFrom_append]
  exact if_neg hcode

theorem fillPayload_eof {bytes : Bytes} (h : read.length < len)
    (hgot : bytes.take (len - read.length) = []) :
    fillPayload len (read ++ blank) read.length (.data bytes :: answers) =
      ⟨some (.ok none), [⟨blank.length, len - read.length, .ok []⟩], answers⟩ := by
  conv_lhs => unfold fillPayload
  rw [if_pos h, sliceFrom_append]
  dsimp only
  rw [hgot]
  rfl

theorem fillPayload_piece {bytes : Bytes} (h : read.length < len)
    (hgot : bytes.take (len - read.length) ≠ []) :
    fillPayload len (read ++ blank) read.length (.data bytes :: answers) =
      (fillPayload len
        ((read ++ bytes.take (len - read.length)) ++
          blank.drop (bytes.take (len - read.length)).length)
        (read ++ bytes.take (len - read.length)).length answers).after
          ⟨blank.length, len - read.length, .ok (bytes.take (len - read.length))⟩ := by
  conv_lhs => unfold fillPayload
  rw [if_pos h, sliceFrom_append]
  dsimp only
  rw [if_neg fun h0 => hgot (List.length_eq_zero_iff.mp h0), overwrite_append, List.length_append]

/-- The induction over the loop; all of the buffer that is not read yet is room for the next
read. -/
theorem fillPayload_induct {motive : Bytes → List ReadAnswer → Filling → Prop}
    (full : ∀ read answers, read.length = len →
      motive read answers ⟨some (.ok (some read)), [], answers⟩)
    (blocked : ∀ read, read.length < len →
      motive read [] ⟨some (.error ⟨EAGAIN, "read"⟩),
        [⟨len - read.length, len - read.length, .error ⟨EAGAIN, "read"⟩⟩], []⟩)
    (retry : ∀ read answers f, read.length < len →
      motive read answers f → motive read (.fail EINTR :: answers) f)
    (failed : ∀ read code answers, read.length < len → code ≠ EINTR →
      motive read (.fail code :: answers) ⟨some (.error ⟨code, "read"⟩),
        [⟨len - read.length, len - read.length, .error ⟨code, "read"⟩⟩], answers⟩)
    (eof : ∀ read bytes answers, read.length < len → bytes.take (len - read.length) = [] →
      motive read (.data bytes :: answers) ⟨some (.ok none),
        [⟨len - read.length, len - read.length, .ok []⟩], answers⟩)
    (piece : ∀ read bytes answers f, read.length < len → bytes.take (len - read.length) ≠ [] →
      motive (read ++ bytes.take (len - read.length)) answers f →
      motive read (.data bytes :: answers) (f.after
        ⟨len - read.length, len - read.length, .ok (bytes.take (len - read.length))⟩))
    (hlen : read.length + blank.length = len) :
    motive read answers (fillPayload len (read ++ blank) read.length answers) := by
  have hfull : ∀ {read blank : Bytes} {answers}, read.length + blank.length = len →
      ¬ read.length < len →
      motive read answers (fillPayload len (read ++ blank) read.length answers) := by
    intro read blank answers hlen h
    have hblank : blank = [] := List.length_eq_zero_iff.mp (by omega)
    rw [fillPayload_full h, hblank, List.append_nil]
    exact full read answers (by omega)
  induction answers generalizing read blank with
  | nil =>
    by_cases h : read.length < len
    · rw [fillPayload_nil h, show blank.length = len - read.length by omega]
      exact blocked read h
    · exact hfull hlen h
  | cons answer answers ih =>
    by_cases h : read.length < len
    · have hroom : blank.length = len - read.length := by omega
      cases answer with
      | fail code =>
        by_cases hcode : code = EINTR
        · rw [hcode, fillPayload_retry h]
          exact retry read answers _ h (ih hlen)
        · rw [fillPayload_fail h hcode, hroom]
          exact failed read code answers h hcode
      | data bytes =>
        by_cases hgot : bytes.take (len - read.length) = []
        · rw [fillPayload_eof h hgot, hroom]
          exact eof read bytes answers h hgot
        · rw [fillPayload_piece h hgot, hroom]
          refine piece read bytes answers _ h hgot (ih ?_)
          have hfit := List.length_take_le (len - read.length) bytes
          rw [List.length_append, List.length_drop]
          omega
    · exact hfull hlen h

/-- The loop of `MidLevel.Wire`. -/
theorem fillPayload_eq (answers : List ReadAnswer) (hlen : read.length + blank.length = len) :
    (fillPayload len (read ++ blank) read.length answers).result =
        some (readPayload len read answers).1 ∧
      (fillPayload len (read ++ blank) read.length answers).rest =
        (readPayload len read answers).2 := by
  refine fillPayload_induct (motive := fun read answers f =>
    f.result = some (readPayload len read answers).1 ∧ f.rest = (readPayload len read answers).2)
    ?_ ?_ ?_ ?_ ?_ ?_ hlen
  · intro read answers h
    have hread : readPayload len read answers = (.ok (some read), answers) := by
      unfold readPayload
      cases answers with
      | nil => exact congrArg (·, []) (if_neg (Nat.not_lt.mpr h.ge))
      | cons => exact if_neg (Nat.not_lt.mpr h.ge)
    rw [hread]
    exact ⟨rfl, rfl⟩
  · intro read h
    rw [readPayload, if_pos h]
    exact ⟨rfl, rfl⟩
  · intro read answers f h ih
    rw [readPayload, if_pos h]
    exact ih
  · intro read code answers h hcode
    rw [readPayload, if_pos h, if_neg hcode]
    exact ⟨rfl, rfl⟩
  · intro read bytes answers h hgot
    rw [readPayload, if_pos h]
    dsimp only
    rw [hgot]
    exact ⟨rfl, rfl⟩
  · intro read bytes answers f h hgot ih
    rw [readPayload, if_pos h]
    dsimp only
    rw [if_neg fun h0 => hgot (List.length_eq_zero_iff.mp h0)]
    exact ih

end Loop

theorem parseIndexed_eq (json : Json) (uid : UInt32) (payload : Bytes) :
    parseIndexed json uid payload = some (parsePayload json uid payload) := by
  cases payload with
  | nil => rfl
  | cons reqType body =>
    have htext : sliceFrom (reqType :: body) 1 = some body := if_pos (Nat.le_add_left 1 _)
    have hid : (reqType :: body).length = 9 →
        (slice (reqType :: body) 1 9).bind (copyFromSlice 8) = some body := by
      intro h9
      have h8 : body.length = 8 := Nat.succ.inj h9
      have hslice : slice (reqType :: body) 1 9 = some body := by
        rw [slice, if_pos ⟨by decide, h9.ge⟩, List.take_of_length_le h9.le]
        rfl
      rw [hslice]
      exact if_pos h8
    show (if reqType = 1 then _ else _) = some (if reqType = 1 then _ else _)
    split
    · rw [htext]
      rfl
    · split
      · split
        · next h9 => rw [hid h9]; rfl
        · rfl
      · split
        · split
          · next h9 => rw [hid h9]; rfl
          · rfl
        · rfl

theorem Filling.request_of_payload {json : Json} {uid : UInt32} {f : Filling} {payload : Bytes}
    (h : f.result = some (.ok (some payload))) :
    f.request json uid = some (.ok (parsePayload json uid payload)) := by
  rw [Filling.request, h]
  exact congrArg (Option.map Except.ok) (parseIndexed_eq json uid payload)

theorem Filling.request_of_none {json : Json} {uid : UInt32} {f : Filling}
    (h : f.result = some (.ok none)) : f.request json uid = some (.ok none) := by
  rw [Filling.request, h]

theorem Filling.request_of_error {json : Json} {uid : UInt32} {f : Filling} {e : SysError}
    (h : f.result = some (.error e)) : f.request json uid = some (.error e) := by
  rw [Filling.request, h]

/-! ## The header -/

section Header

variable {json : Json} {uid : UInt32} {answers rest : List ReadAnswer} {lenBuf : Bytes}

theorem decodeCalls_fail {e : SysError} (h : fdRead 4 answers = (.error e, rest)) :
    decodeCalls json uid answers = ⟨some (.error e), [⟨4, 4, .error e⟩], rest⟩ := by
  rw [decodeCalls, h]

theorem decodeCalls_short (h : fdRead 4 answers = (.ok lenBuf, rest)) (h4 : lenBuf.length ≠ 4) :
    decodeCalls json uid answers = ⟨some (.ok none), [⟨4, 4, .ok lenBuf⟩], rest⟩ := by
  rw [decodeCalls, h]
  exact if_pos h4

theorem decodeCalls_large (h : fdRead 4 answers = (.ok lenBuf, rest)) (h4 : lenBuf.length = 4)
    (hmax : maxPayload < fromLeBytes lenBuf) :
    decodeCalls json uid answers = ⟨some (.ok none), [⟨4, 4, .ok lenBuf⟩], rest⟩ := by
  rw [decodeCalls, h]
  dsimp only
  rw [if_neg (not_not.mpr h4), if_pos hmax]

/-- The loop starts with a blank buffer. -/
def fillBlank (len : ℕ) (answers : List ReadAnswer) : Filling :=
  fillPayload len ([] ++ List.replicate len 0) ([] : Bytes).length answers

theorem length_blank (len : ℕ) :
    ([] : Bytes).length + (List.replicate len (0 : UInt8)).length = len := by
  rw [List.length_replicate]
  exact Nat.zero_add len

theorem decodeCalls_fill (h : fdRead 4 answers = (.ok lenBuf, rest)) (h4 : lenBuf.length = 4)
    (hmax : fromLeBytes lenBuf ≤ maxPayload) :
    decodeCalls json uid answers =
      ⟨(fillBlank (fromLeBytes lenBuf) rest).request json uid,
        ⟨4, 4, .ok lenBuf⟩ :: (fillBlank (fromLeBytes lenBuf) rest).calls,
        (fillBlank (fromLeBytes lenBuf) rest).rest⟩ := by
  rw [decodeCalls, h]
  dsimp only
  rw [if_neg (not_not.mpr h4), if_neg (Nat.not_lt.mpr hmax)]
  rfl

/-- The first call asks for the length. -/
theorem decodeCalls_head (json : Json) (uid : UInt32) (h : fdRead 4 answers = (.ok lenBuf, rest)) :
    ∃ calls, (decodeCalls json uid answers).calls = ⟨4, 4, .ok lenBuf⟩ :: calls := by
  rw [decodeCalls, h]
  dsimp only
  split
  · exact ⟨_, rfl⟩
  · split <;> exact ⟨_, rfl⟩

end Header

/-- `decode_request` of `MidLevel.Wire`. -/
theorem decodeCalls_eq (json : Json) (uid : UInt32) (answers : List ReadAnswer) :
    (decodeCalls json uid answers).result = some (decodeRequest json uid answers).1 ∧
      (decodeCalls json uid answers).rest = (decodeRequest json uid answers).2 := by
  rcases h : fdRead 4 answers with ⟨e | lenBuf, rest⟩
  · rw [decodeCalls_fail h, decodeRequest, h]
    exact ⟨rfl, rfl⟩
  · by_cases h4 : lenBuf.length = 4
    · by_cases hmax : fromLeBytes lenBuf ≤ maxPayload
      · have ⟨hresult, hrest⟩ :=
          fillPayload_eq rest (length_blank (fromLeBytes lenBuf))
        rw [decodeCalls_fill h h4 hmax, decodeRequest, h]
        dsimp only [fillBlank]
        rw [hrest, if_neg (not_not.mpr h4), if_neg (Nat.not_lt.mpr hmax)]
        rcases hread : readPayload (fromLeBytes lenBuf) [] rest with ⟨e | payload, answers⟩
        all_goals rw [hread] at hresult
        · exact ⟨Filling.request_of_error hresult, rfl⟩
        · cases payload with
          | none => exact ⟨Filling.request_of_none hresult, rfl⟩
          | some payload => exact ⟨Filling.request_of_payload hresult, rfl⟩
      · rw [decodeCalls_large h h4 (Nat.not_le.mp hmax), decodeRequest, h]
        dsimp only
        rw [if_neg (not_not.mpr h4), if_pos (Nat.not_le.mp hmax)]
        exact ⟨rfl, rfl⟩
    · rw [decodeCalls_short h h4, decodeRequest, h]
      dsimp only
      rw [if_pos h4]
      exact ⟨rfl, rfl⟩

end CoreShift
