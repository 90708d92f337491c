import CoreShift.MidLevel.Decoding

/-!
# Frames of requests

Which streams `decode_request` accepts when no read fails: those that start with the frame of a
request, however the payload is cut into reads.
-/

namespace CoreShift

open Utils

/-! ## Frames -/

/-- A frame: the length of the payload, and the payload. -/
def frame (payload : Bytes) : Bytes := toLeBytes 4 payload.length ++ payload

/-- The payloads that stand for a request of a user. -/
inductive Encodes (json : Json) (uid : UInt32) : Bytes → Request → Prop
  | exec {text : Bytes} {command : Command} : json.parseCommand text = some command →
      Encodes json uid (1 :: text) (.exec uid command)
  | getResult (id : UInt64) : Encodes json uid (2 :: toLeBytes 8 id.toNat) (.getResult uid id)
  | cancel (id : UInt64) : Encodes json uid (3 :: toLeBytes 8 id.toNat) (.cancel uid id)

/-- The stream starts with the frame of a request, of which `after` is left. -/
def StartsWith (json : Json) (uid : UInt32) (stream : Bytes) (req : Request) (after : Bytes) :
    Prop :=
  ∃ payload, stream = frame payload ++ after ∧ 1 ≤ payload.length ∧
    payload.length ≤ maxPayload ∧ Encodes json uid payload req

theorem fromLeBytes_toNat (id : UInt64) : fromLeBytes (toLeBytes 8 id.toNat) = id.toNat :=
  fromLeBytes_toLeBytes id.toNat_lt

theorem toLeBytes_ofNat {body : Bytes} (h : body.length = 8) :
    toLeBytes 8 (UInt64.ofNat (fromLeBytes body)).toNat = body := by
  have hlt := fromLeBytes_lt body
  rw [h] at hlt
  rw [UInt64.toNat_ofNat_of_lt' hlt, ← h]
  exact toLeBytes_fromLeBytes body

/-- The parser accepts the payloads of requests. -/
theorem parsePayload_eq_some {json : Json} {uid : UInt32} {payload : Bytes} {req : Request} :
    parsePayload json uid payload = some req ↔ Encodes json uid payload req := by
  constructor
  · intro h
    cases payload with
    | nil => cases h
    | cons reqType body =>
      have hlength : (reqType :: body).length = 9 → body.length = 8 := Nat.succ.inj
      rw [parsePayload] at h
      split at h
      · next h1 =>
        have ⟨command, hparse, heq⟩ := Option.map_eq_some_iff.mp h
        rw [h1, ← heq]
        exact .exec hparse
      · split at h
        · next h2 =>
          split at h
          · next h9 =>
            rw [← Option.some.inj h, h2]
            conv_lhs => rw [← toLeBytes_ofNat (hlength h9)]
            exact .getResult _
          · cases h
        · split at h
          · next h3 =>
            split at h
            · next h9 =>
              rw [← Option.some.inj h, h3]
              conv_lhs => rw [← toLeBytes_ofNat (hlength h9)]
              exact .cancel _
            · cases h
          · cases h
  · intro h
    cases h with
    | exec hparse => exact Option.map_eq_some_iff.mpr ⟨_, hparse, rfl⟩
    | getResult id =>
      show some (Request.getResult uid (UInt64.ofNat (fromLeBytes _))) = _
      rw [fromLeBytes_toNat, UInt64.ofNat_toNat]
    | cancel id =>
      show some (Request.cancel uid (UInt64.ofNat (fromLeBytes _))) = _
      rw [fromLeBytes_toNat, UInt64.ofNat_toNat]

/-! ## The reading loop on a stream -/

section Loop

variable {len : ℕ} {read blank stream left : Bytes} {answers : List ReadAnswer}

end Loop

/-! ## Decoding a stream -/

section Stream

variable {json : Json} {uid : UInt32} {stream left : Bytes} {answers : List ReadAnswer}

/-- The first bytes of a frame are the length of its payload. -/
theorem take_frame (payload after : Bytes) :
    (frame payload ++ after).take 4 = toLeBytes 4 payload.length := by
  rw [frame, List.append_assoc, List.take_left' (length_toLeBytes 4 _)]

theorem length_of_take {payload : Bytes} (hmax : payload.length ≤ maxPayload) :
    fromLeBytes (toLeBytes 4 payload.length) = payload.length :=
  fromLeBytes_toLeBytes (Nat.lt_of_le_of_lt hmax (by decide))

/-- The length that a stream names is that of the payload it starts with. -/
theorem StartsWith.length_eq {req : Request} {after : Bytes}
    (h : StartsWith json uid stream req after) :
    4 ≤ stream.length ∧ fromLeBytes (stream.take 4) ≤ maxPayload ∧
      ∃ payload, stream.drop 4 = payload ++ after ∧
        payload.length = fromLeBytes (stream.take 4) ∧ Encodes json uid payload req := by
  have ⟨payload, hstream, _, hmax, hencodes⟩ := h
  rw [hstream, take_frame, length_of_take hmax]
  refine ⟨?_, hmax, payload, ?_, rfl, hencodes⟩
  · rw [List.length_append, frame, List.length_append, length_toLeBytes]
    omega
  · rw [frame, List.append_assoc, List.drop_left' (length_toLeBytes 4 _)]

/-- A stream starts with one request at most. -/
theorem StartsWith.unique {req req' : Request} {after after' : Bytes}
    (h : StartsWith json uid stream req after) (h' : StartsWith json uid stream req' after') :
    req = req' ∧ after = after' := by
  have ⟨_, _, payload, hdrop, hsize, hencodes⟩ := h.length_eq
  have ⟨_, _, payload', hdrop', hsize', hencodes'⟩ := h'.length_eq
  have ⟨hpayload, hafter⟩ := List.append_inj (hdrop.symm.trans hdrop') (hsize.trans hsize'.symm)
  rw [← hpayload] at hencodes'
  have hreq := (parsePayload_eq_some.mpr hencodes).symm.trans (parsePayload_eq_some.mpr hencodes')
  exact ⟨Option.some.inj hreq, hafter⟩

end Stream

/-! ### A query in three pieces -/

namespace Frames

/-- A library that is not asked for a command. -/
def json : Json := ⟨fun _ => none, fun _ => []⟩

/-- The query of job 5. -/
def query : Bytes := 2 :: toLeBytes 8 (5 : UInt64).toNat

end Frames

end CoreShift
