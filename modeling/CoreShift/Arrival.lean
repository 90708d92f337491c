import CoreShift.Frames
import CoreShift.MidLevel.Ipc

/-!
# How a frame arrives

The sockets of the clients do not block, and a client may write its frame a piece at a time. The
payload is read in a loop, the length in front of it is not, and neither is read again once a
read was answered by `EAGAIN`.
-/

namespace CoreShift

open Utils

/-! ## Without a pause -/

/-- `count` bytes are handed over, and no call before the last of them is answered otherwise. -/
inductive Prompt : ℕ → List ReadAnswer → Prop
  | done (answers : List ReadAnswer) : Prompt 0 answers
  | piece {count : ℕ} {bytes : Bytes} {answers : List ReadAnswer} :
      Prompt (count - bytes.length) answers → Prompt count (.data bytes :: answers)
  | retry {count : ℕ} {answers : List ReadAnswer} :
      Prompt count answers → Prompt count (.fail EINTR :: answers)

/-- The length of a payload of `count` bytes arrives in one piece, and the payload after it
without a pause. -/
inductive InTime (count : ℕ) : List ReadAnswer → Prop
  | length {bytes : Bytes} {answers : List ReadAnswer} : 4 ≤ bytes.length →
      Prompt count answers → InTime count (.data bytes :: answers)
  | retry {answers : List ReadAnswer} : InTime count answers →
      InTime count (.fail EINTR :: answers)

/-- All of a frame is there. -/
def atOnce (payload : Bytes) : List ReadAnswer :=
  [.data (toLeBytes 4 payload.length), .data payload]

section

variable {count : ℕ} {bytes : Bytes} {answers : List ReadAnswer} {code : Int32}

theorem prompt_nil : Prompt count [] ↔ count = 0 := by
  constructor
  · rintro ⟨⟩
    rfl
  · intro h
    rw [h]
    exact .done []

theorem prompt_data :
    Prompt count (.data bytes :: answers) ↔ Prompt (count - bytes.length) answers := by
  constructor
  · intro h
    cases h with
    | done => rw [Nat.zero_sub]; exact .done answers
    | piece h => exact h
  · exact .piece

theorem prompt_retry : Prompt count (.fail EINTR :: answers) ↔ Prompt count answers := by
  constructor
  · intro h
    cases h with
    | done => exact .done answers
    | retry h => exact h
  · exact .retry

theorem prompt_fail (hcode : code ≠ EINTR) : Prompt count (.fail code :: answers) ↔ count = 0 := by
  constructor
  · intro h
    cases h with
    | done => rfl
    | retry => exact absurd rfl hcode
  · intro h
    rw [h]
    exact .done _

theorem inTime_data : InTime count (.data bytes :: answers) ↔
    4 ≤ bytes.length ∧ Prompt count answers := by
  constructor
  · intro h
    cases h with
    | length h4 h => exact ⟨h4, h⟩
  · exact fun ⟨h4, h⟩ => .length h4 h

theorem inTime_retry : InTime count (.fail EINTR :: answers) ↔ InTime count answers := by
  constructor
  · intro h
    cases h with
    | retry h => exact h
  · exact .retry

theorem not_inTime_fail (hcode : code ≠ EINTR) : ¬ InTime count (.fail code :: answers) := by
  intro h
  cases h with
  | retry => exact hcode rfl

end

/-! ## The reading loop -/

section Loop

variable {len : ℕ} {read blank stream left : Bytes} {answers : List ReadAnswer}

/-- If the stream has all of the payload, the loop reads it if it comes without a pause, and
fails otherwise. -/
theorem fillPayload_prompt (hlen : read.length + blank.length = len)
    (hdelivers : Delivers stream (fillPayload len (read ++ blank) read.length answers).calls left)
    (hwhole : len ≤ read.length + stream.length) :
    Prompt (len - read.length) answers ∧
      (fillPayload len (read ++ blank) read.length answers).result =
        some (.ok (some (read ++ stream.take (len - read.length)))) ∨
    ¬ Prompt (len - read.length) answers ∧
      ∃ e, (fillPayload len (read ++ blank) read.length answers).result = some (.error e) := by
  revert stream
  refine fillPayload_induct (motive := fun read answers f =>
    ∀ {stream}, Delivers stream f.calls left → len ≤ read.length + stream.length →
      Prompt (len - read.length) answers ∧
        f.result = some (.ok (some (read ++ stream.take (len - read.length)))) ∨
      ¬ Prompt (len - read.length) answers ∧ ∃ e, f.result = some (.error e))
    ?_ ?_ ?_ ?_ ?_ ?_ hlen
  · intro read answers h stream _ _
    rw [h, Nat.sub_self, List.take_zero, List.append_nil]
    exact Or.inl ⟨.done answers, rfl⟩
  · intro read h stream _ _
    rw [prompt_nil]
    exact Or.inr ⟨by omega, _, rfl⟩
  · intro read answers f h ih stream
    rw [prompt_retry]
    exact ih
  · intro read code answers h hcode stream _ _
    rw [prompt_fail hcode]
    exact Or.inr ⟨by omega, _, rfl⟩
  · intro read bytes answers h hgot stream hdelivers hwhole
    have ⟨_, _, _, hend, _⟩ := delivers_cons_ok hdelivers
    rw [hend rfl, List.length_nil] at hwhole
    omega
  · intro read bytes answers f h hgot ih stream hdelivers hwhole
    have ⟨rest, hstream, _, _, hrest⟩ := delivers_cons_ok hdelivers
    have hsize : (bytes.take (len - read.length)).length = min (len - read.length) bytes.length :=
      List.length_take
    have hmore : len - (read ++ bytes.take (len - read.length)).length =
        len - read.length - bytes.length := by
      rw [List.length_append]
      omega
    have htake : stream.take (len - read.length) = bytes.take (len - read.length) ++
        rest.take (len - read.length - bytes.length) := by
      have hfit := List.length_take_le (len - read.length) bytes
      rw [hstream, List.take_append, List.take_of_length_le hfit]
      congr 2
      omega
    have hwhole' : len ≤ (read ++ bytes.take (len - read.length)).length + rest.length := by
      rw [hstream, List.length_append] at hwhole
      rw [List.length_append]
      omega
    have h := ih hrest hwhole'
    rw [hmore, List.append_assoc, ← htake] at h
    rw [prompt_data]
    exact h

theorem fillBlank_prompt (hdelivers : Delivers stream (fillBlank len answers).calls left)
    (hwhole : len ≤ stream.length) :
    Prompt len answers ∧ (fillBlank len answers).result = some (.ok (some (stream.take len))) ∨
      ¬ Prompt len answers ∧ ∃ e, (fillBlank len answers).result = some (.error e) := by
  have hwhole' : len ≤ ([] : Bytes).length + stream.length := by
    rwa [List.length_nil, Nat.zero_add]
  exact fillPayload_prompt (length_blank len) hdelivers hwhole'

end Loop

/-! ## Decoding -/

section Decoding

variable {json : Json} {uid : UInt32} {payload after left : Bytes} {req : Request}
  {answers : List ReadAnswer}

theorem decodeCalls_retry (json : Json) (uid : UInt32) (answers : List ReadAnswer) :
    decodeCalls json uid (.fail EINTR :: answers) = decodeCalls json uid answers := by
  have hread : fdRead 4 (.fail EINTR :: answers) = fdRead 4 answers := if_pos rfl
  rw [decodeCalls, decodeCalls, hread]

/-- A frame that is delivered is decoded if it arrives in time, and no request otherwise. -/
theorem decodeCalls_inTime (hencodes : Encodes json uid payload req)
    (hmax : payload.length ≤ maxPayload)
    (hdelivers : Delivers (frame payload ++ after) (decodeCalls json uid answers).calls left) :
    InTime payload.length answers ∧
      (decodeCalls json uid answers).result = some (.ok (some req)) ∨
    ¬ InTime payload.length answers ∧
      ∀ req', (decodeCalls json uid answers).result ≠ some (.ok (some req')) := by
  induction answers with
  | nil =>
    have hread : fdRead 4 [] = (.error ⟨EAGAIN, "read"⟩, []) := rfl
    rw [decodeCalls_fail hread]
    refine Or.inr ⟨?_, by simp⟩
    intro h
    cases h
  | cons answer answers ih =>
    cases answer with
    | fail code =>
      by_cases hcode : code = EINTR
      · rw [hcode, decodeCalls_retry] at hdelivers ⊢
        rw [inTime_retry]
        exact ih hdelivers
      · have hread : fdRead 4 (.fail code :: answers) = (.error ⟨code, "read"⟩, answers) :=
          if_neg hcode
        rw [decodeCalls_fail hread]
        exact Or.inr ⟨not_inTime_fail hcode, by simp⟩
    | data bytes =>
      have hread : fdRead 4 (.data bytes :: answers) = (.ok (bytes.take 4), answers) := rfl
      have hlength : (bytes.take 4).length = min 4 bytes.length := List.length_take
      rw [inTime_data]
      by_cases h4 : 4 ≤ bytes.length
      · have hfour : (bytes.take 4).length = 4 := by omega
        have hheader : bytes.take 4 = toLeBytes 4 payload.length := by
          obtain ⟨_, hcalls⟩ := decodeCalls_head json uid hread
          rw [hcalls] at hdelivers
          obtain ⟨_, hstream, _⟩ := delivers_cons_ok hdelivers
          rw [← take_frame payload after, hstream, List.take_left' hfour]
        have hsize : fromLeBytes (bytes.take 4) = payload.length := by
          rw [hheader, length_of_take hmax]
        rw [decodeCalls_fill hread hfour (hsize.trans_le hmax), hsize] at hdelivers ⊢
        obtain ⟨rest, hstream, _, _, hrest⟩ := delivers_cons_ok hdelivers
        have hpayload : rest = payload ++ after := by
          rw [frame, ← hheader, List.append_assoc] at hstream
          exact (List.append_cancel_left hstream).symm
        have hwhole : payload.length ≤ rest.length := by
          rw [hpayload, List.length_append]
          exact Nat.le_add_right _ _
        rcases fillBlank_prompt hrest hwhole with ⟨hprompt, hresult⟩ | ⟨hprompt, e, hresult⟩
        · rw [hpayload, List.take_left] at hresult
          rw [Filling.request_of_payload hresult, parsePayload_eq_some.mpr hencodes]
          exact Or.inl ⟨⟨h4, hprompt⟩, rfl⟩
        · rw [Filling.request_of_error hresult]
          exact Or.inr ⟨fun h => hprompt h.2, by simp⟩
      · rw [decodeCalls_short hread (by omega)]
        exact Or.inr ⟨fun h => h4 h.1, by simp⟩

/-- A frame that is there at once is decoded. -/
theorem decodeRequest_atOnce (hencodes : Encodes json uid payload req)
    (hmax : payload.length ≤ maxPayload) :
    (decodeRequest json uid (atOnce payload)).1 = .ok (some req) := by
  have hpos : 0 < payload.length := by cases hencodes <;> exact Nat.zero_lt_succ _
  have hread : fdRead 4 (atOnce payload) =
      (.ok (toLeBytes 4 payload.length), [.data payload]) := by
    show (Except.ok (List.take 4 _), _) = _
    rw [List.take_of_length_le (length_toLeBytes 4 _).le]
  have hpayload : readPayload payload.length [] [.data payload] = (.ok (some payload), []) := by
    rw [readPayload, List.length_nil, if_pos hpos]
    dsimp only
    rw [Nat.sub_zero, List.take_length, if_neg hpos.ne', List.nil_append, readPayload,
      if_neg (Nat.lt_irrefl _)]
  rw [decodeRequest, hread]
  dsimp only
  rw [if_neg (not_not.mpr (length_toLeBytes 4 _)), length_of_take hmax,
    if_neg (Nat.not_lt.mpr hmax), hpayload]
  exact congrArg Except.ok (parsePayload_eq_some.mpr hencodes)

end Decoding

/-! ## The connection -/

namespace IpcModule

variable {json : Json} {conn : Connection} {uid : UInt32}

/-- A connection whose request is decoded is kept for the answer. -/
theorem receive_of_request {req : Request} (hcred : conn.cred = .ok uid)
    (h : (decodeRequest json uid conn.input).1 = .ok (some req)) (ipc : IpcModule) (fd : RawFd) :
    (ipc.receive json fd conn).ops = [.kept fd req (Router.routed ipc.router.nextId req)] := by
  have hrouted := Router.handle_routed ipc.router req
  unfold receive
  rw [hcred]
  dsimp only
  rw [h]
  dsimp only
  rcases hhandle : ipc.router.handle req with ⟨router, action⟩
  rw [hhandle] at hrouted
  dsimp only at hrouted
  rw [hrouted]

/-- A connection without a request is dropped. -/
theorem receive_of_none (hcred : conn.cred = .ok uid)
    (h : ∀ req, (decodeRequest json uid conn.input).1 ≠ .ok (some req)) (ipc : IpcModule)
    (fd : RawFd) : ipc.receive json fd conn = ⟨ipc, [], [.closed fd]⟩ := by
  unfold receive
  rw [hcred]
  dsimp only
  split
  · next req hreq => exact absurd hreq (h req)
  · rfl

/-- Of the bytes of a client, only the decoded request matters. -/
theorem receive_congr {input : List ReadAnswer} (hcred : conn.cred = .ok uid)
    (h : (decodeRequest json uid conn.input).1 = (decodeRequest json uid input).1)
    (ipc : IpcModule) (fd : RawFd) :
    ipc.receive json fd conn = ipc.receive json fd { conn with input := input } := by
  unfold receive
  rw [hcred]
  dsimp only
  rw [h]

/-- A valid frame gets its sender what it gets when it is there at once, if and only if its
length arrives in one piece and no call before the end of the frame finds nothing to read;
otherwise the connection is dropped. -/
theorem arrival_iff {payload after left : Bytes} {req : Request} (ipc : IpcModule) (fd : RawFd)
    (hcred : conn.cred = .ok uid) (hencodes : Encodes json uid payload req)
    (hmax : payload.length ≤ maxPayload)
    (hdelivers : Delivers (frame payload ++ after) (decodeCalls json uid conn.input).calls left) :
    ((decodeRequest json uid conn.input).1 = (decodeRequest json uid (atOnce payload)).1 ∧
      ipc.receive json fd conn = ipc.receive json fd { conn with input := atOnce payload } ↔
      InTime payload.length conn.input) ∧
    ((ipc.receive json fd conn).ops = [.closed fd] ↔ ¬ InTime payload.length conn.input) := by
  have hatOnce := decodeRequest_atOnce hencodes hmax
  have hdecoded := decodeCalls_inTime hencodes hmax hdelivers
  rw [(decodeCalls_eq json uid conn.input).1] at hdecoded
  rcases hdecoded with ⟨htime, hresult⟩ | ⟨hlate, hresult⟩
  · have hsame := (Option.some.inj hresult).trans hatOnce.symm
    have hkept := receive_of_request hcred (Option.some.inj hresult) ipc fd
    refine ⟨⟨fun _ => htime, fun _ => ⟨hsame, receive_congr hcred hsame ipc fd⟩⟩, ?_⟩
    rw [hkept]
    exact ⟨nofun, fun hlate => absurd htime hlate⟩
  · have hno : ∀ req, (decodeRequest json uid conn.input).1 ≠ .ok (some req) :=
      fun req heq => hresult req (congrArg some heq)
    refine ⟨⟨fun h => absurd (h.1.trans hatOnce) (hno req), fun htime => absurd htime hlate⟩, ?_⟩
    rw [receive_of_none hcred hno ipc fd]
    exact ⟨fun _ => hlate, fun _ => rfl⟩

end IpcModule

/-! ### A query that is late -/

namespace Arrival

open Frames (json query)

/-- A client that writes its frame before it is accepted. -/
def prompt : Connection :=
  ⟨.ok 7, [.data [9, 0, 0, 0], .data [2, 5, 0], .fail EINTR, .data [0, 0, 0, 0, 0, 0]], []⟩

/-- A client that writes the length in two pieces. -/
def split : Connection := ⟨.ok 7, [.data [9, 0], .data [0, 0], .data query], []⟩

/-- A client that is accepted before it has written the payload. -/
def slow : Connection := ⟨.ok 7, [.data [9, 0, 0, 0], .fail EAGAIN, .data query], []⟩

def ipc : IpcModule := .new ⟨1⟩

theorem arrival_iff_prompt : ipc.receive json 9 prompt =
    ipc.receive json 9 { prompt with input := atOnce query } := by
  have hdelivers : Delivers (frame query ++ []) (decodeCalls json 7 prompt.input).calls [] :=
    .piece [9, 0, 0, 0] (by decide) (by decide)
      (.piece [2, 5, 0] (by decide) (by decide)
        (.piece [0, 0, 0, 0, 0, 0] (by decide) (by decide) (.nil [])))
  have htime : InTime query.length prompt.input :=
    .length (by decide) (.piece (.retry (.piece (.done []))))
  exact ((IpcModule.arrival_iff ipc 9 rfl (.getResult 5) (by decide) hdelivers).1.mpr htime).2

/-- Both lose the connection, though all of the frame is valid and more of it is on the way. -/
theorem late_query_dropped :
    Delivers (frame query) (decodeCalls json 7 split.input).calls ([0, 0] ++ query) ∧
      (ipc.receive json 9 split).ops = [.closed 9] ∧
      Delivers (frame query) (decodeCalls json 7 slow.input).calls query ∧
      (ipc.receive json 9 slow).ops = [.closed 9] ∧
      (ipc.receive json 9 { slow with input := atOnce query }).ops =
        [.kept 9 (.getResult 7 5) (.query 5)] :=
  ⟨.piece [9, 0] (by decide) (by decide) (.nil _), by decide,
    .piece [9, 0, 0, 0] (by decide) (by decide) (.failed (.nil query)), by decide, by decide⟩

end Arrival
end CoreShift
