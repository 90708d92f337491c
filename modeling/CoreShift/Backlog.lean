import CoreShift.Arrival
import CoreShift.Tickets

/-!
# The backlog of the listener

The listener is watched edge-triggered, so an event has to take up all connections that wait.
`handle_ready` accepts until a call fails, and any failure will do: a client that gave up, or a
signal, ends the loop as an empty backlog does.
-/

namespace CoreShift

open Utils

/-! ## The kernel's side -/

/-- The answers of `accept4` while some connections wait: these come in their order, then those
that arrive meanwhile, and `EAGAIN` only when nobody waits. -/
inductive Backlog : List (RawFd × Connection) → List AcceptAnswer → Prop
  | nil : Backlog [] []
  | empty (answers : List AcceptAnswer) : Backlog [] (.fail EAGAIN :: answers)
  | conn {fd : RawFd} {conn : Connection} {pending answers} : 0 ≤ fd →
      Backlog pending answers → Backlog ((fd, conn) :: pending) (.conn fd conn :: answers)
  | later {fd : RawFd} {conn : Connection} {answers} : 0 ≤ fd →
      Backlog [] answers → Backlog [] (.conn fd conn :: answers)
  | fail {code : Int32} {pending answers} : code ≠ EAGAIN →
      Backlog pending answers → Backlog pending (.fail code :: answers)

/-- No call fails otherwise than for good before one finds nobody. -/
inductive Undisturbed (persistent : Set Int32) : List AcceptAnswer → Prop
  | nil : Undisturbed persistent []
  | empty (answers : List AcceptAnswer) : Undisturbed persistent (.fail EAGAIN :: answers)
  | lasting {code : Int32} (answers : List AcceptAnswer) : code ∈ persistent →
      Undisturbed persistent (.fail code :: answers)
  | conn {fd : RawFd} {conn : Connection} {answers : List AcceptAnswer} :
      Undisturbed persistent answers → Undisturbed persistent (.conn fd conn :: answers)

namespace IpcModule

variable {json : Json} {ipc : IpcModule} {persistent : Set Int32}
  {pending : List (RawFd × Connection)} {answers : List AcceptAnswer}

/-- `handle_ready`, with the error at which it returns and the answers after it. A negative
descriptor, which `accept4` does not hand out, is an error without a number. -/
def readyUntil (json : Json) (ipc : IpcModule) :
    List AcceptAnswer → Reception × Int32 × List AcceptAnswer
  | [] => (⟨ipc, [], []⟩, EAGAIN, [])
  | .fail code :: answers => (⟨ipc, [], []⟩, code, answers)
  | .conn fd conn :: answers =>
    if fd < 0 then (⟨ipc, [], []⟩, 0, answers)
    else
      let one := ipc.receive json fd conn
      let rest := readyUntil json one.ipc answers
      (⟨rest.1.ipc, one.actions ++ rest.1.actions, .accepted fd :: one.ops ++ rest.1.ops⟩, rest.2)

theorem readyUntil_eq (json : Json) (ipc : IpcModule) (answers : List AcceptAnswer) :
    (ipc.readyUntil json answers).1 = ipc.handleReady json answers := by
  induction answers generalizing ipc with
  | nil => rfl
  | cons answer answers ih =>
    cases answer with
    | fail code => rfl
    | conn fd conn =>
      rw [readyUntil, handleReady]
      split
      · rfl
      · dsimp only
        rw [ih]

/-- An event of the listener drains its backlog: `handle_ready` returns when nobody waits, or at
an error for good, and in the first case all that waited were received. -/
def Drained (json : Json) (ipc : IpcModule) (persistent : Set Int32)
    (pending : List (RawFd × Connection)) (event : ReactorEvent) (answers : List AcceptAnswer) :
    Prop :=
  let code := (ipc.readyUntil json answers).2.1
  (code = EAGAIN ∨ code ∈ persistent) ∧
    (code = EAGAIN →
      ∃ later, ipc.handleEvent json event answers = ipc.receiveAll json (pending ++ later))

theorem readyUntil_conn {fd : RawFd} (hfd : 0 ≤ fd) (conn : Connection) :
    ipc.readyUntil json (.conn fd conn :: answers) =
      let one := ipc.receive json fd conn
      let rest := one.ipc.readyUntil json answers
      (⟨rest.1.ipc, one.actions ++ rest.1.actions, .accepted fd :: one.ops ++ rest.1.ops⟩,
        rest.2) := by
  rw [readyUntil, if_neg (Int32.not_lt.mpr hfd)]

/-- A failed or good client does not keep the loop from the ones behind it. -/
theorem readyUntil_received (h : Backlog pending answers) (ipc : IpcModule)
    (hcode : (ipc.readyUntil json answers).2.1 = EAGAIN) :
    ∃ later, (ipc.readyUntil json answers).1 = ipc.receiveAll json (pending ++ later) := by
  induction h generalizing ipc with
  | nil => exact ⟨[], rfl⟩
  | empty answers => exact ⟨[], rfl⟩
  | @conn fd conn pending answers hfd _ ih =>
    rw [readyUntil_conn hfd] at hcode ⊢
    have ⟨later, heq⟩ := ih (ipc.receive json fd conn).ipc hcode
    refine ⟨later, ?_⟩
    dsimp only
    rw [heq]
    rfl
  | @later fd conn answers hfd _ ih =>
    rw [readyUntil_conn hfd] at hcode ⊢
    have ⟨later, heq⟩ := ih (ipc.receive json fd conn).ipc hcode
    refine ⟨(fd, conn) :: later, ?_⟩
    dsimp only
    rw [heq]
    rfl
  | fail hne => exact absurd hcode hne

/-- The error at which the loop returns is the first one. -/
theorem readyUntil_code_iff (json : Json) (persistent : Set Int32) (h : Backlog pending answers)
    (ipc : IpcModule) :
    ((ipc.readyUntil json answers).2.1 = EAGAIN ∨
      (ipc.readyUntil json answers).2.1 ∈ persistent) ↔ Undisturbed persistent answers := by
  induction h generalizing ipc with
  | nil => exact ⟨fun _ => .nil, fun _ => Or.inl rfl⟩
  | empty answers => exact ⟨fun _ => .empty answers, fun _ => Or.inl rfl⟩
  | conn hfd _ ih | later hfd _ ih =>
    rw [readyUntil_conn hfd]
    refine (ih _).trans ⟨.conn, fun h => ?_⟩
    cases h with
    | conn h => exact h
  | @fail code pending answers hne _ _ =>
    constructor
    · rintro (heq | hmem)
      · exact absurd heq hne
      · exact .lasting answers hmem
    · intro h
      cases h with
      | empty => exact Or.inl rfl
      | lasting _ hmem => exact Or.inr hmem

/-- An event of the listener drains its backlog if and only if no call of `accept4` is answered
by a passing failure before one finds nobody or fails for good. -/
theorem backlog_drained_iff {event : ReactorEvent} (hbacklog : Backlog pending answers)
    (htoken : some event.token = ipc.serverToken) (hreadable : event.readable = true) :
    ipc.Drained json persistent pending event answers ↔ Undisturbed persistent answers := by
  have hevent : ipc.handleEvent json event answers = (ipc.readyUntil json answers).1 := by
    rw [handleEvent, if_pos ⟨htoken, hreadable⟩, readyUntil_eq]
  have hcode := readyUntil_code_iff json persistent hbacklog ipc
  unfold Drained
  rw [hevent]
  constructor
  · exact fun h => hcode.mp h.1
  · exact fun h => ⟨hcode.mpr h, readyUntil_received hbacklog ipc⟩

end IpcModule

/-! ### A client that gave up -/

namespace Backlog

open Arrival (ipc)
open Frames (json)

/-- The event of the listener. -/
def ready : ReactorEvent := ⟨⟨1⟩, true, false, false⟩

/-- A client without a request. -/
def silent : Connection := ⟨.ok 7, [], []⟩

/-- A client whose query is there. -/
def asking : Connection := ⟨.ok 7, atOnce Frames.query, []⟩

/-- A connection was aborted before it was accepted. -/
def ECONNABORTED : Int32 := 103

/-- There are no descriptors left. -/
def EMFILE : Int32 := 24

theorem backlog_drained_two : ipc.Drained json {EMFILE} [(9, silent), (10, asking)] ready
    [.conn 9 silent, .conn 10 asking, .fail EAGAIN] :=
  (IpcModule.backlog_drained_iff (.conn (by decide) (.conn (by decide) (.empty []))) rfl rfl).mpr
    (.conn (.conn (.empty [])))

/-- The client behind the one that gave up is not accepted, and there is no other event. -/
theorem aborted_client_ends_loop :
    Backlog [(9, asking)] [.fail ECONNABORTED, .conn 9 asking] ∧
      ipc.handleEvent json ready [.fail ECONNABORTED, .conn 9 asking] = ⟨ipc, [], []⟩ ∧
      ¬ ipc.Drained json {EMFILE} [(9, asking)] ready [.fail ECONNABORTED, .conn 9 asking] := by
  refine ⟨.fail (by decide) (.conn (by decide) .nil), rfl, ?_⟩
  rintro ⟨hagain | hlasting, _⟩
  · exact absurd hagain (by decide)
  · exact absurd hlasting (by decide)

end Backlog
end CoreShift
