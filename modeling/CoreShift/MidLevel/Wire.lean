import CoreShift.LowLevel.Io
import CoreShift.MidLevel.Router

/-!
# Frames on the socket

`decode_request` and `encode_response` of `mid_level/ipc.rs`. A frame is the length of its
payload in four bytes, least significant first, and the payload; the first byte of the payload
is its type. The texts in between are JSON, read and written by a library that the model takes
as a parameter.
-/

namespace CoreShift

/-- The two functions of the JSON library that are used. -/
structure Json where
  parseCommand : Bytes → Option Command
  outcome : Option ExecOutcome → Bytes

/-! ## Little-endian numbers -/

/-- `from_le_bytes`. -/
def fromLeBytes (bytes : Bytes) : ℕ := bytes.foldr (fun b n => b.toNat + 256 * n) 0

/-- `to_le_bytes`, in `count` bytes. -/
def toLeBytes : ℕ → ℕ → Bytes
  | 0, _ => []
  | count + 1, n => UInt8.ofNat (n % 256) :: toLeBytes count (n / 256)

theorem fromLeBytes_cons (b : UInt8) (bytes : Bytes) :
    fromLeBytes (b :: bytes) = b.toNat + 256 * fromLeBytes bytes := rfl

@[simp] theorem length_toLeBytes (count n : ℕ) : (toLeBytes count n).length = count := by
  induction count generalizing n with
  | zero => rfl
  | succ count ih => rw [toLeBytes, List.length_cons, ih]

/-- A number that fits is read back. -/
theorem fromLeBytes_toLeBytes {count n : ℕ} (h : n < 256 ^ count) :
    fromLeBytes (toLeBytes count n) = n := by
  induction count generalizing n with
  | zero => exact (Nat.lt_one_iff.mp h).symm
  | succ count ih =>
    have hlow : (UInt8.ofNat (n % 256)).toNat = n % 256 :=
      UInt8.toNat_ofNat_of_lt' (Nat.mod_lt n (by decide))
    have hhigh : n / 256 < 256 ^ count := Nat.div_lt_of_lt_mul (by rwa [Nat.pow_succ'] at h)
    rw [toLeBytes, fromLeBytes_cons, ih hhigh, hlow]
    exact Nat.mod_add_div n 256

theorem fromLeBytes_lt (bytes : Bytes) : fromLeBytes bytes < 256 ^ bytes.length := by
  induction bytes with
  | nil => exact Nat.one_pos
  | cons b bytes ih =>
    have hb := b.toNat_lt
    rw [fromLeBytes_cons, List.length_cons, Nat.pow_succ']
    omega

/-- The bytes of a number are the only ones, for their count. -/
theorem toLeBytes_fromLeBytes (bytes : Bytes) :
    toLeBytes bytes.length (fromLeBytes bytes) = bytes := by
  induction bytes with
  | nil => rfl
  | cons b bytes ih =>
    have hb : b.toNat < 256 := b.toNat_lt
    have hlow : (b.toNat + 256 * fromLeBytes bytes) % 256 = b.toNat := by omega
    have hhigh : (b.toNat + 256 * fromLeBytes bytes) / 256 = fromLeBytes bytes := by omega
    rw [List.length_cons, toLeBytes, fromLeBytes_cons, hlow, hhigh, ih, UInt8.ofNat_toNat]

/-! ## Requests -/

/-- The largest payload, ten MiB. -/
def maxPayload : ℕ := 10 * 1024 * 1024

/-- The reading loop: the rest of a payload of which `payload` was read, and the answers that
are left. -/
def readPayload (len : ℕ) (payload : Bytes) :
    List ReadAnswer → Except SysError (Option Bytes) × List ReadAnswer
  | [] => (if payload.length < len then .error ⟨EAGAIN, "read"⟩ else .ok (some payload), [])
  | answer :: answers =>
    if payload.length < len then
      match answer with
      | .fail code =>
        if code = EINTR then readPayload len payload answers
        else (.error ⟨code, "read"⟩, answers)
      | .data bytes =>
        let chunk := bytes.take (len - payload.length)
        if chunk.length = 0 then (.ok none, answers)
        else readPayload len (payload ++ chunk) answers
    else (.ok (some payload), answer :: answers)

/-- The request in a payload. -/
def parsePayload (json : Json) (uid : UInt32) (payload : Bytes) : Option Request :=
  match payload with
  | [] => none
  | reqType :: body =>
    if reqType = 1 then (json.parseCommand body).map (.exec uid)
    else if reqType = 2 then
      if payload.length = 9 then some (.getResult uid (UInt64.ofNat (fromLeBytes body))) else none
    else if reqType = 3 then
      if payload.length = 9 then some (.cancel uid (UInt64.ofNat (fromLeBytes body))) else none
    else none

/-- `decode_request`, with the answers that are left. -/
def decodeRequest (json : Json) (uid : UInt32) (answers : List ReadAnswer) :
    Except SysError (Option Request) × List ReadAnswer :=
  match fdRead 4 answers with
  | (.error e, answers) => (.error e, answers)
  | (.ok lenBuf, answers) =>
    if lenBuf.length ≠ 4 then (.ok none, answers)
    else if fromLeBytes lenBuf > maxPayload then (.ok none, answers)
    else
      match readPayload (fromLeBytes lenBuf) [] answers with
      | (.error e, answers) => (.error e, answers)
      | (.ok none, answers) => (.ok none, answers)
      | (.ok (some payload), answers) => (.ok (parsePayload json uid payload), answers)

/-! ## Responses -/

inductive WireResponse
  | exec (id : JobId)
  | result (outcome : Option ExecOutcome)
  | cancelOk
  | error
deriving DecidableEq, Repr

/-- The payload of a response. -/
def WireResponse.payload (json : Json) : WireResponse → Bytes
  | .exec id => 1 :: toLeBytes 8 id.toNat
  | .result outcome => 2 :: json.outcome outcome
  | .cancelOk => [3]
  | .error => [4]

/-- The writing loop: `rest` is what was not written yet, the result is what the socket took. -/
def writePayload (rest : Bytes) : List WriteAnswer → Bytes × Except SysError Unit
  | [] => if rest = [] then ([], .ok ()) else ([], .error ⟨EAGAIN, "write"⟩)
  | answer :: answers =>
    if rest = [] then ([], .ok ())
    else
      match answer with
      | .fail code =>
        if code = EINTR then writePayload rest answers else ([], .error ⟨code, "write"⟩)
      | .wrote n =>
        let taken := rest.take n
        if taken.length = 0 then ([], .ok ())
        else
          let r := writePayload (rest.drop n) answers
          (taken ++ r.1, r.2)

/-- `encode_response`: the bytes the socket took, and what the function returns. A short write
of the length is not noticed. -/
def encodeResponse (json : Json) (resp : WireResponse) (answers : List WriteAnswer) :
    Bytes × Except SysError Unit :=
  let payload := resp.payload json
  let lenBuf := toLeBytes 4 (payload.length % 2 ^ 32)
  match fdWrite lenBuf answers with
  | (.error e, _) => ([], .error e)
  | (.ok n, answers) =>
    let r := writePayload payload answers
    (lenBuf.take n ++ r.1, r.2)

end CoreShift
