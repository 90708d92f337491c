import CoreShift.Frames

/-!
# Frames of responses

What a client gets of a response, for any answers of its socket. The payload is written in a
loop; the length in front of it is written by one call, whose count is not looked at, and the
loop also ends, as if all went well, when a call takes nothing.
-/

namespace CoreShift

/-- The field in front of a payload, the length narrowed to `u32`. -/
def lenField (payload : Bytes) : Bytes := toLeBytes 4 (payload.length % 2 ^ 32)

/-- The socket takes a prefix of the frame, all of it if `encode_response` says so, and the field
is the length of the payload. -/
structure Faithful (json : Json) (resp : WireResponse) (answers : List WriteAnswer) : Prop where
  first : (encodeResponse json resp answers).1 <+: frame (resp.payload json)
  whole : (encodeResponse json resp answers).2 = .ok () →
    (encodeResponse json resp answers).1 = frame (resp.payload json)
  length : fromLeBytes (lenField (resp.payload json)) = (resp.payload json).length

/-! ## Answers of the socket -/

/-- `count` bytes are taken. -/
inductive Accepts : ℕ → List WriteAnswer → Prop
  | done (answers : List WriteAnswer) : Accepts 0 answers
  | piece {count n : ℕ} {answers : List WriteAnswer} : 0 < n → Accepts (count - n) answers →
      Accepts count (.wrote n :: answers)
  | retry {count : ℕ} {answers : List WriteAnswer} :
      Accepts count answers → Accepts count (.fail EINTR :: answers)

/-- Of `count` bytes, `m` are taken, and then a call fails. -/
inductive FailsAfter : ℕ → ℕ → List WriteAnswer → Prop
  | blocked {count : ℕ} : 0 < count → FailsAfter count 0 []
  | failed {count : ℕ} {code : Int32} {answers : List WriteAnswer} : 0 < count → code ≠ EINTR →
      FailsAfter count 0 (.fail code :: answers)
  | piece {count n m : ℕ} {answers : List WriteAnswer} : 0 < n → n < count →
      FailsAfter (count - n) m answers → FailsAfter count (n + m) (.wrote n :: answers)
  | retry {count m : ℕ} {answers : List WriteAnswer} :
      FailsAfter count m answers → FailsAfter count m (.fail EINTR :: answers)

/-- The answers to the calls for a field and a payload that do no harm: the field is not taken at
all, or it is taken in one piece and no call for the payload takes nothing, or what is taken of
the payload before a failure happens to be what the frame goes on with. -/
inductive Harmless (field payload : Bytes) : List WriteAnswer → Prop
  | blocked : Harmless field payload []
  | failed {code : Int32} {answers : List WriteAnswer} : code ≠ EINTR →
      Harmless field payload (.fail code :: answers)
  | field {n : ℕ} {answers : List WriteAnswer} : field.length ≤ n →
      (Accepts payload.length answers ∨ ∃ m, FailsAfter payload.length m answers) →
      Harmless field payload (.wrote n :: answers)
  | short {n m : ℕ} {answers : List WriteAnswer} : n < field.length →
      FailsAfter payload.length m answers → payload.take m <+: field.drop n ++ payload →
      Harmless field payload (.wrote n :: answers)
  | retry {answers : List WriteAnswer} : Harmless field payload answers →
      Harmless field payload (.fail EINTR :: answers)

/-! ## The writing loop -/

section Loop

variable {rest : Bytes} {answers : List WriteAnswer} {n : ℕ}

theorem writePayload_retry (rest : Bytes) (answers : List WriteAnswer) :
    writePayload rest (.fail EINTR :: answers) = writePayload rest answers := by
  rw [writePayload]
  split
  · next hnil =>
    rw [hnil]
    cases answers <;> rfl
  · exact if_pos rfl

theorem writePayload_nil (answers : List WriteAnswer) : writePayload [] answers = ([], .ok ()) := by
  cases answers <;> rfl

theorem writePayload_fail {code : Int32} (hrest : rest ≠ []) (hcode : code ≠ EINTR) :
    writePayload rest (.fail code :: answers) = ([], .error ⟨code, "write"⟩) := by
  rw [writePayload, if_neg hrest]
  exact if_neg hcode

theorem writePayload_piece (hrest : rest ≠ []) (hn : 0 < n) :
    writePayload rest (.wrote n :: answers) =
      (rest.take n ++ (writePayload (rest.drop n) answers).1,
        (writePayload (rest.drop n) answers).2) := by
  have hpos := List.length_pos_iff.mpr hrest
  have htaken : (rest.take n).length ≠ 0 := by
    rw [List.length_take]
    omega
  rw [writePayload, if_neg hrest]
  exact if_neg htaken

theorem writePayload_zero (hrest : rest ≠ []) :
    writePayload rest (.wrote 0 :: answers) = ([], .ok ()) := by
  rw [writePayload, if_neg hrest]
  rfl

theorem ne_nil_of_pos (h : 0 < rest.length) : rest ≠ [] := List.length_pos_iff.mp h

theorem writePayload_accepts (h : Accepts rest.length answers) :
    writePayload rest answers = (rest, .ok ()) := by
  generalize hcount : rest.length = count at h
  induction h generalizing rest with
  | done answers => rw [List.length_eq_zero_iff.mp hcount, writePayload_nil]
  | @piece count n answers hn _ ih =>
    by_cases hrest : rest = []
    · rw [hrest, writePayload_nil]
    · rw [writePayload_piece hrest hn, ih (by rw [List.length_drop, hcount]), List.take_append_drop]
  | retry _ ih => rw [writePayload_retry, ih hcount]

theorem writePayload_failsAfter {m : ℕ} (h : FailsAfter rest.length m answers) :
    ∃ e, writePayload rest answers = (rest.take m, .error e) := by
  generalize hcount : rest.length = count at h
  induction h generalizing rest with
  | blocked hpos =>
    rw [writePayload, if_neg (ne_nil_of_pos (hcount ▸ hpos))]
    exact ⟨_, rfl⟩
  | failed hpos hcode =>
    rw [writePayload_fail (ne_nil_of_pos (hcount ▸ hpos)) hcode]
    exact ⟨_, rfl⟩
  | @piece count n m answers hn hlt _ ih =>
    have hpos : 0 < rest.length := by omega
    have hdrop : (rest.drop n).length = count - n := by rw [List.length_drop, hcount]
    have ⟨e, heq⟩ := ih hdrop
    rw [writePayload_piece (ne_nil_of_pos hpos) hn, heq, List.take_add]
    exact ⟨e, rfl⟩
  | retry _ ih =>
    rw [writePayload_retry]
    exact ih hcount

/-- A loop that neither writes all nor fails stops before the end and says that all went well. -/
theorem writePayload_cases (rest : Bytes) (answers : List WriteAnswer) :
    Accepts rest.length answers ∨ (∃ m, FailsAfter rest.length m answers) ∨
      ∃ m, m < rest.length ∧ writePayload rest answers = (rest.take m, .ok ()) := by
  by_cases hrest : rest = []
  · rw [hrest]
    exact Or.inl (.done answers)
  · have hpos := List.length_pos_iff.mpr hrest
    induction answers generalizing rest with
    | nil => exact Or.inr (Or.inl ⟨0, .blocked hpos⟩)
    | cons answer answers ih =>
      cases answer with
      | fail code =>
        by_cases hcode : code = EINTR
        · rw [hcode, writePayload_retry]
          rcases ih rest hrest hpos with h | ⟨m, h⟩ | h
          · exact Or.inl (.retry h)
          · exact Or.inr (Or.inl ⟨m, .retry h⟩)
          · exact Or.inr (Or.inr h)
        · exact Or.inr (Or.inl ⟨0, .failed hpos hcode⟩)
      | wrote n =>
        by_cases hn : 0 < n
        · by_cases hlt : n < rest.length
          · have hdrop : 0 < (rest.drop n).length := by
              rw [List.length_drop]
              omega
            have h := ih (rest.drop n) (ne_nil_of_pos hdrop) hdrop
            rw [List.length_drop] at h
            rw [writePayload_piece hrest hn]
            rcases h with h | ⟨m, h⟩ | ⟨m, hm, h⟩
            · exact Or.inl (.piece hn h)
            · exact Or.inr (Or.inl ⟨n + m, .piece hn hlt h⟩)
            · rw [h, ← List.take_add]
              exact Or.inr (Or.inr ⟨n + m, by omega, rfl⟩)
          · have hzero : rest.length - n = 0 := by omega
            exact Or.inl (.piece hn (hzero ▸ .done answers))
        · rw [Nat.eq_zero_of_not_pos hn, writePayload_zero hrest]
          exact Or.inr (Or.inr ⟨0, hpos, rfl⟩)

end Loop

/-! ## The frame -/

section Frame

variable {json : Json} {resp : WireResponse} {answers : List WriteAnswer} {n : ℕ}

/-- The field is the length of payloads below four GiB. -/
theorem lenField_iff {payload : Bytes} :
    fromLeBytes (lenField payload) = payload.length ↔ payload.length < 2 ^ 32 := by
  have hmod : payload.length % 2 ^ 32 < 256 ^ 4 := Nat.mod_lt _ (by decide)
  rw [lenField, fromLeBytes_toLeBytes hmod]
  constructor
  · intro h
    rw [← h]
    exact hmod
  · exact Nat.mod_eq_of_lt

theorem frame_eq {payload : Bytes} (h : payload.length < 2 ^ 32) :
    frame payload = lenField payload ++ payload := by
  rw [frame, lenField, Nat.mod_eq_of_lt h]

theorem encodeResponse_retry :
    encodeResponse json resp (.fail EINTR :: answers) = encodeResponse json resp answers := by
  have hwrite : ∀ buf, fdWrite buf (.fail EINTR :: answers) = fdWrite buf answers :=
    fun _ => if_pos rfl
  rw [encodeResponse, encodeResponse, hwrite]

theorem encodeResponse_fail {code : Int32} (hcode : code ≠ EINTR) :
    encodeResponse json resp (.fail code :: answers) = ([], .error ⟨code, "write"⟩) := by
  have hwrite : ∀ buf, fdWrite buf (.fail code :: answers) = (.error ⟨code, "write"⟩, answers) :=
    fun _ => if_neg hcode
  rw [encodeResponse, hwrite]

theorem encodeResponse_wrote :
    encodeResponse json resp (.wrote n :: answers) =
      ((lenField (resp.payload json)).take n ++ (writePayload (resp.payload json) answers).1,
        (writePayload (resp.payload json) answers).2) := by
  have htake : (lenField (resp.payload json)).take (min n (lenField (resp.payload json)).length) =
      (lenField (resp.payload json)).take n := by
    rw [← List.take_take, List.take_length]
  rw [← htake]
  rfl

/-- With the field or the payload cut short, it is not the frame that was written. -/
theorem ne_frame {field payload : Bytes} {m : ℕ}
    (h : n < field.length ∧ m ≤ payload.length ∨ m < payload.length) :
    field.take n ++ payload.take m ≠ field ++ payload := by
  intro heq
  have hlength := congrArg List.length heq
  rw [List.length_append, List.length_append, List.length_take, List.length_take] at hlength
  omega

/-- What is written after a part of the field goes on with the frame as the rest of it does. -/
theorem take_append_prefix_iff {field payload rest : Bytes} :
    field.take n ++ rest <+: field ++ payload ↔ rest <+: field.drop n ++ payload := by
  conv_lhs => rw [← List.take_append_drop n field, List.append_assoc, List.take_append_drop]
  exact List.prefix_append_right_inj _

/-- A field of which `n` bytes are offered to be taken, and the loop after it. -/
theorem harmless_wrote_iff {field payload : Bytes} :
    field.take n ++ (writePayload payload answers).1 <+: field ++ payload ∧
      ((writePayload payload answers).2 = .ok () →
        field.take n ++ (writePayload payload answers).1 = field ++ payload) ↔
      Harmless field payload (.wrote n :: answers) := by
  constructor
  · rintro ⟨hfirst, hwhole⟩
    rcases writePayload_cases payload answers with haccepts | ⟨m, hfails⟩ | ⟨m, hlt, hstops⟩
    · rw [writePayload_accepts haccepts] at hwhole
      by_cases hn : n < field.length
      · have hall : field.take n ++ payload.take payload.length = field ++ payload := by
          rw [List.take_length]
          exact hwhole rfl
        exact absurd hall (ne_frame (Or.inl ⟨hn, le_rfl⟩))
      · exact .field (Nat.le_of_not_lt hn) (Or.inl haccepts)
    · by_cases hn : n < field.length
      · have ⟨e, heq⟩ := writePayload_failsAfter hfails
        rw [heq, take_append_prefix_iff] at hfirst
        exact .short hn hfails hfirst
      · exact .field (Nat.le_of_not_lt hn) (Or.inr ⟨m, hfails⟩)
    · rw [hstops] at hwhole
      exact absurd (hwhole rfl) (ne_frame (Or.inr hlt))
  · intro h
    cases h with
    | field hn h =>
      rw [List.take_of_length_le hn, List.prefix_append_right_inj]
      rcases h with haccepts | ⟨m, hfails⟩
      · rw [writePayload_accepts haccepts]
        exact ⟨List.prefix_rfl, fun _ => rfl⟩
      · have ⟨e, heq⟩ := writePayload_failsAfter hfails
        rw [heq]
        exact ⟨⟨payload.drop m, List.take_append_drop m payload⟩, nofun⟩
    | short hn hfails hsame =>
      have ⟨e, heq⟩ := writePayload_failsAfter hfails
      rw [heq, take_append_prefix_iff]
      exact ⟨hsame, nofun⟩

/-- A response is sent faithfully if and only if its length fits the field and the answers of the
socket do no harm. -/
theorem encode_faithful_iff (json : Json) (resp : WireResponse) (answers : List WriteAnswer) :
    Faithful json resp answers ↔ (resp.payload json).length < 2 ^ 32 ∧
      Harmless (lenField (resp.payload json)) (resp.payload json) answers := by
  suffices hsent : (resp.payload json).length < 2 ^ 32 →
      ((encodeResponse json resp answers).1 <+: frame (resp.payload json) ∧
        ((encodeResponse json resp answers).2 = .ok () →
          (encodeResponse json resp answers).1 = frame (resp.payload json)) ↔
      Harmless (lenField (resp.payload json)) (resp.payload json) answers) by
    constructor
    · intro h
      have hlt := lenField_iff.mp h.length
      exact ⟨hlt, (hsent hlt).mp ⟨h.first, h.whole⟩⟩
    · rintro ⟨hlt, h⟩
      have ⟨hfirst, hwhole⟩ := (hsent hlt).mpr h
      exact ⟨hfirst, hwhole, lenField_iff.mpr hlt⟩
  intro hlt
  rw [frame_eq hlt]
  induction answers with
  | nil => exact ⟨fun _ => .blocked, fun _ => ⟨⟨_, rfl⟩, nofun⟩⟩
  | cons answer answers ih =>
    cases answer with
    | fail code =>
      by_cases hcode : code = EINTR
      · rw [hcode, encodeResponse_retry, ih]
        constructor
        · exact .retry
        · intro h
          cases h with
          | failed hne => exact absurd rfl hne
          | retry h => exact h
      · rw [encodeResponse_fail hcode]
        exact ⟨fun _ => .failed hcode, fun _ => ⟨⟨_, rfl⟩, nofun⟩⟩
    | wrote n =>
      rw [encodeResponse_wrote]
      exact harmless_wrote_iff

end Frame

/-! ### A length in two pieces -/

namespace Responses

/-- A library that writes no outcome. -/
def json : Json := ⟨fun _ => none, fun _ => []⟩

/-- The socket has room for two bytes of the length, and for more a moment later. -/
def short : List WriteAnswer := [.wrote 2, .wrote 1]

/-- The payload follows the two bytes, and all seems to be well. -/
theorem short_length_forgotten :
    encodeResponse json .cancelOk short = ([1, 0, 3], .ok ()) ∧
      frame (WireResponse.cancelOk.payload json) = [1, 0, 0, 0, 3] ∧
      ¬ Faithful json .cancelOk short := by
  have hsent : encodeResponse json .cancelOk short = ([1, 0, 3], .ok ()) := by decide
  have hframe : frame (WireResponse.cancelOk.payload json) = [1, 0, 0, 0, 3] := by decide
  refine ⟨hsent, hframe, fun h => ?_⟩
  have hfirst := h.first
  rw [hsent, hframe] at hfirst
  exact absurd hfirst (by decide)

end Responses

/-! ## Telling answers apart -/

section Telling

variable {json : Json}

/-- A frame says how long it is, so that none is the beginning of another one. -/
theorem frame_prefix {payload payload' : Bytes} (hlen : payload.length < 2 ^ 32)
    (hlen' : payload'.length < 2 ^ 32) (h : frame payload <+: frame payload') :
    payload = payload' := by
  have ⟨rest, hrest⟩ := h
  unfold frame at hrest
  rw [List.append_assoc] at hrest
  have ⟨hfield, htail⟩ := List.append_inj hrest (by simp)
  have hsame : payload.length = payload'.length := by
    rw [← fromLeBytes_toLeBytes (show payload.length < 256 ^ 4 by omega), hfield,
      fromLeBytes_toLeBytes (show payload'.length < 256 ^ 4 by omega)]
  have hnone : rest = [] := by
    have hlengths := congrArg List.length htail
    rw [List.length_append] at hlengths
    exact List.eq_nil_of_length_eq_zero (by omega)
  rw [hnone, List.append_nil] at htail
  exact htail

/-- The same answer; results are the same if the library writes the same for them. -/
def WireResponse.Like (json : Json) : WireResponse → WireResponse → Prop
  | .result outcome, .result outcome' => json.outcome outcome = json.outcome outcome'
  | resp, resp' => resp = resp'

theorem WireResponse.like_of_payload {resp resp' : WireResponse}
    (h : resp.payload json = resp'.payload json) : resp.Like json resp' := by
  cases resp with
  | exec id =>
    cases resp' with
    | exec id' =>
      have hid : id.toNat = id'.toNat := by
        rw [← fromLeBytes_toLeBytes (show id.toNat < 256 ^ 8 from id.toNat_lt),
          List.tail_eq_of_cons_eq h,
          fromLeBytes_toLeBytes (show id'.toNat < 256 ^ 8 from id'.toNat_lt)]
      rw [UInt64.toNat_inj.mp hid]
      rfl
    | _ => cases h
  | result outcome =>
    cases resp' with
    | result outcome' => exact List.tail_eq_of_cons_eq h
    | _ => cases h
  | cancelOk => cases resp' <;> first | rfl | cases h
  | error => cases resp' <;> first | rfl | cases h

/-- A client that has got a whole answer can have been sent no other one: no answer that is
written faithfully, whole or cut off, begins with the bytes of another whole answer. -/
theorem answers_told_apart {resp resp' : WireResponse} {answers answers' : List WriteAnswer}
    (h : Faithful json resp answers) (h' : Faithful json resp' answers')
    (hwhole : (encodeResponse json resp answers).2 = .ok ())
    (hbegins : (encodeResponse json resp answers).1 <+: (encodeResponse json resp' answers').1) :
    resp.Like json resp' ∧
      (encodeResponse json resp' answers').1 = (encodeResponse json resp answers).1 := by
  have hall := h.whole hwhole
  have hprefix : frame (resp.payload json) <+: frame (resp'.payload json) := by
    rw [← hall]
    exact hbegins.trans h'.first
  have hpayload := frame_prefix (lenField_iff.mp h.length) (lenField_iff.mp h'.length) hprefix
  refine ⟨WireResponse.like_of_payload hpayload, ?_⟩
  have hlong := h'.first.length_le
  rw [← hpayload, ← hall] at hlong
  exact (hbegins.eq_of_length_le hlong).symm

end Telling

namespace Responses

/-- A result that the library writes like an absent one. -/
def unwritten : ExecOutcome := ⟨7, .error .runtimeError⟩

/-- Two results that are written alike, one of them after an interruption; and an `Exec` of which
six bytes are written does not begin with a `CancelOk`. -/
theorem answers_told_apart_pieces :
    (WireResponse.Like json (.result none) (.result (some unwritten)) ∧
      (encodeResponse json (.result (some unwritten)) [.wrote 4, .fail EINTR, .wrote 1]).1 =
        (encodeResponse json (.result none) [.wrote 4, .wrote 1]).1) ∧
      ¬ (encodeResponse json .cancelOk [.wrote 4, .wrote 1]).1 <+:
        (encodeResponse json (.exec 7) [.wrote 4, .wrote 2, .fail 32]).1 := by
  have hnone : encodeResponse json (.result none) [.wrote 4, .wrote 1] =
      ([1, 0, 0, 0, 2], .ok ()) := by decide
  have hsome : encodeResponse json (.result (some unwritten)) [.wrote 4, .fail EINTR, .wrote 1] =
      ([1, 0, 0, 0, 2], .ok ()) := by decide
  have hcancel : encodeResponse json .cancelOk [.wrote 4, .wrote 1] =
      ([1, 0, 0, 0, 3], .ok ()) := by decide
  have hcut : encodeResponse json (.exec 7) [.wrote 4, .wrote 2, .fail 32] =
      ([9, 0, 0, 0, 1, 7], .error ⟨32, "write"⟩) := by decide
  have hfnone : Faithful json (.result none) [.wrote 4, .wrote 1] :=
    ⟨by rw [hnone]; decide, fun _ => by rw [hnone]; decide, by decide⟩
  have hfsome : Faithful json (.result (some unwritten)) [.wrote 4, .fail EINTR, .wrote 1] :=
    ⟨by rw [hsome]; decide, fun _ => by rw [hsome]; decide, by decide⟩
  have hfcancel : Faithful json .cancelOk [.wrote 4, .wrote 1] :=
    ⟨by rw [hcancel]; decide, fun _ => by rw [hcancel]; decide, by decide⟩
  have hfcut : Faithful json (.exec 7) [.wrote 4, .wrote 2, .fail 32] :=
    ⟨by rw [hcut]; decide, by rw [hcut]; exact nofun, by decide⟩
  refine ⟨answers_told_apart hfnone hfsome (by rw [hnone]) (by rw [hnone, hsome]), ?_⟩
  intro hbegins
  cases (answers_told_apart hfcancel hfcut (by rw [hcancel]) hbegins).1

end Responses
end CoreShift
