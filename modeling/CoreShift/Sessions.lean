import CoreShift.Requests

/-!
# The protocol of a connection

Seen from one connection, the daemon is simple: it takes up at most one request, answers it at
most once, and never writes before it has read. Between the request and the response, and at no
other time when a round or a pop is over, the descriptor of the connection is open. An answer
counts when it is attempted: the descriptor is closed after it even if its writes fail.
-/

namespace CoreShift

open Utils WorkQueue

variable {json : Json}

/-- The connection that some traffic is on. -/
def Traffic.peer : Traffic → ℕ
  | .request p _ _ | .response p _ => p

/-- The traffic of one connection. -/
def sessionOf (t : List Traffic) (p : ℕ) : List Traffic := t.filter fun e => e.peer = p

/-- What can happen on a connection. -/
inductive Session (p : ℕ) : List Traffic → Prop
  | silent : Session p []
  | asked (req : Request) (action : Action) : Session p [.request p req action]
  | answered (req : Request) (action : Action) (resp : WireResponse) :
      Session p [.request p req action, .response p resp]

/-- A request was taken up and is not answered. -/
def Pending (p : ℕ) (s : List Traffic) : Prop := ∃ req action, s = [.request p req action]

theorem sessionOf_append (t u : List Traffic) (p : ℕ) :
    sessionOf (t ++ u) p = sessionOf t p ++ sessionOf u p := List.filter_append ..

theorem sessionOf_snoc_self (t : List Traffic) {e : Traffic} {p : ℕ} (h : e.peer = p) :
    sessionOf (t ++ [e]) p = sessionOf t p ++ [e] := by
  rw [sessionOf_append]
  simp [sessionOf, h]

theorem sessionOf_snoc_other (t : List Traffic) {e : Traffic} {p : ℕ} (h : p ≠ e.peer) :
    sessionOf (t ++ [e]) p = sessionOf t p := by
  rw [sessionOf_append]
  simp [sessionOf, h.symm]

/-- Of sound sockets, closing a descriptor leaves the other connections open. -/
theorem Sockets.Sound.open_remove {k : Sockets} (h : k.Sound) {fd : RawFd} {q : ℕ}
    (hfd : k.peers.get fd = some q) (p : ℕ) :
    (∃ fd', (k.peers.remove fd).get fd' = some p) ↔ p ≠ q ∧ ∃ fd', k.peers.get fd' = some p := by
  constructor
  · rintro ⟨fd', hget⟩
    have ⟨hne, hget⟩ := HashMap.get_remove_eq_some.mp hget
    refine ⟨?_, fd', hget⟩
    -- its only descriptor is closed
    rintro rfl
    exact hne (h.own fd' fd p hget hfd)
  · rintro ⟨hp, fd', hget⟩
    refine ⟨fd', HashMap.get_remove_eq_some.mpr ⟨?_, hget⟩⟩
    rintro rfl
    rw [hfd] at hget
    exact hp (Option.some.inj hget).symm

/-- The sockets after some traffic: every connection follows the protocol, and the open ones are
those with a pending request. -/
structure Sessions (past : List Traffic) (k : Sockets) : Prop where
  sound : k.Sound
  early : ∀ e ∈ past, e.peer < k.accepted
  session : ∀ p, Session p (sessionOf past p)
  waits : ∀ p, (∃ fd, k.peers.get fd = some p) ↔ Pending p (sessionOf past p)

namespace Sessions

variable {past : List Traffic} {k : Sockets} {fd : RawFd}

theorem new : Sessions [] .new := by
  constructor
  · exact .new
  · exact fun e he => absurd he List.not_mem_nil
  · exact fun p => .silent
  · intro p
    simp [Sockets.new, Pending, sessionOf]

/-- Nothing happened yet on a connection that was not accepted. -/
theorem later (h : Sessions past k) {p : ℕ} (hp : k.accepted ≤ p) : sessionOf past p = [] := by
  unfold sessionOf
  rw [List.filter_eq_nil_iff]
  intro e he hpeer
  have hearly := h.early e he
  rw [of_decide_eq_true hpeer] at hearly
  omega

/-- A connection without a valid request. -/
theorem turnedAway (h : Sessions past k) (hfree : k.peers.get fd = none) :
    Sessions past ⟨(k.peers.insert fd k.accepted).remove fd, k.accepted + 1⟩ := by
  have hsame : ∀ fd', ((k.peers.insert fd k.accepted).remove fd).get fd' = k.peers.get fd' := by
    intro fd'
    by_cases heq : fd' = fd
    · rw [heq, HashMap.get_remove_self, hfree]
    · rw [HashMap.get_remove_ne _ heq, HashMap.get_insert_ne _ _ heq]
  constructor
  · exact (h.sound.accept fd).close fd
  · exact fun e he => (h.early e he).trans (Nat.lt_succ_self _)
  · exact h.session
  · intro p
    rw [← h.waits]
    simp only [hsame]

/-- A connection with a valid request. -/
theorem takenUp (h : Sessions past k) (hfree : k.peers.get fd = none) (req : Request)
    (action : Action) : Sessions (past ++ [.request k.accepted req action])
      ⟨k.peers.insert fd k.accepted, k.accepted + 1⟩ := by
  have hself : sessionOf (past ++ [.request k.accepted req action]) k.accepted =
      [.request k.accepted req action] :=
    (sessionOf_snoc_self past rfl).trans (congrArg (· ++ _) (h.later le_rfl))
  have hother : ∀ p, p ≠ k.accepted →
      sessionOf (past ++ [.request k.accepted req action]) p = sessionOf past p :=
    fun p hp => sessionOf_snoc_other past hp
  constructor
  · exact h.sound.accept fd
  · intro e he
    rcases List.mem_append.mp he with he | he
    · exact (h.early e he).trans (Nat.lt_succ_self _)
    · rw [List.mem_singleton.mp he]
      exact Nat.lt_succ_self _
  · intro p
    by_cases hp : p = k.accepted
    · rw [hp, hself]
      exact .asked req action
    · rw [hother p hp]
      exact h.session p
  · intro p
    by_cases hp : p = k.accepted
    · rw [hp, hself]
      exact ⟨fun _ => ⟨req, action, rfl⟩, fun _ => ⟨fd, HashMap.get_insert_self ..⟩⟩
    · rw [hother p hp, ← h.waits]
      constructor
      · rintro ⟨fd', hget⟩
        refine ⟨fd', ?_⟩
        dsimp only at hget
        by_cases heq : fd' = fd
        · rw [heq, HashMap.get_insert_self] at hget
          exact absurd (Option.some.inj hget).symm hp
        · rwa [HashMap.get_insert_ne _ _ heq] at hget
      · rintro ⟨fd', hget⟩
        refine ⟨fd', ?_⟩
        have heq : fd' ≠ fd := by
          rintro rfl
          rw [hfree] at hget
          cases hget
        rwa [HashMap.get_insert_ne _ _ heq]

/-- A response, after which the descriptor is closed. -/
theorem answered (h : Sessions past k) (fd : RawFd) (resp : WireResponse) :
    Sessions (past ++ (k.peers.get fd).toList.map fun p => .response p resp)
      { k with peers := k.peers.remove fd } := by
  cases hfd : k.peers.get fd with
  | none =>
    have hsame : ∀ fd', (k.peers.remove fd).get fd' = k.peers.get fd' := by
      intro fd'
      by_cases heq : fd' = fd
      · rw [heq, HashMap.get_remove_self, hfd]
      · rw [HashMap.get_remove_ne _ heq]
    show Sessions (past ++ []) _
    rw [List.append_nil]
    refine ⟨h.sound.close fd, h.early, h.session, fun p => ?_⟩
    rw [← h.waits]
    simp only [hsame]
  | some q =>
    show Sessions (past ++ [.response q resp]) _
    rcases (h.waits q).mp ⟨fd, hfd⟩ with ⟨req, action, hasked⟩
    have hself : sessionOf (past ++ [.response q resp]) q =
        [.request q req action, .response q resp] :=
      (sessionOf_snoc_self past rfl).trans (congrArg (· ++ _) hasked)
    have hother : ∀ p, p ≠ q → sessionOf (past ++ [.response q resp]) p = sessionOf past p :=
      fun p hp => sessionOf_snoc_other past hp
    constructor
    · exact h.sound.close fd
    · intro e he
      rcases List.mem_append.mp he with he | he
      · exact h.early e he
      · rw [List.mem_singleton.mp he]
        exact h.sound.accepted fd q hfd
    · intro p
      by_cases hp : p = q
      · rw [hp, hself]
        exact .answered req action resp
      · rw [hother p hp]
        exact h.session p
    · intro p
      rw [h.sound.open_remove hfd p]
      by_cases hp : p = q
      · rw [hp, hself]
        constructor
        · rintro ⟨hne, _⟩
          exact absurd rfl hne
        · rintro ⟨req', action', heq⟩
          cases heq
      · rw [hother p hp, ← h.waits]
        exact and_iff_right hp

/-- What the IPC module does with the connections it accepts. -/
theorem receiveAll {past : List Traffic} {k : Sockets} (h : Sessions past k) (ipc : IpcModule)
    {conns : List (RawFd × Connection)}
    (hfresh : k.Fresh (ipc.receiveAll json conns).ops = true) :
    Sessions (past ++ (k.run (ipc.receiveAll json conns).ops).2)
      (k.run (ipc.receiveAll json conns).ops).1 := by
  induction conns generalizing ipc past k with
  | nil =>
    show Sessions (past ++ []) k
    rwa [List.append_nil]
  | cons c conns ih =>
    rcases c with ⟨fd, conn⟩
    unfold IpcModule.receiveAll at hfresh ⊢
    rcases IpcModule.receive_cases json ipc fd conn with hone | ⟨req, hone⟩
    · rw [hone] at hfresh ⊢
      rcases Sockets.fresh_cons.mp hfresh with ⟨hfree, hrest⟩
      have hfree : k.peers.get fd = none := Option.isNone_iff_eq_none.mp hfree
      exact ih (h.turnedAway hfree) ipc (Sockets.fresh_cons.mp hrest).2
    · rw [hone] at hfresh ⊢
      rcases Sockets.fresh_cons.mp hfresh with ⟨hfree, hrest⟩
      have hfree : k.peers.get fd = none := Option.isNone_iff_eq_none.mp hfree
      have hpast := ih (h.takenUp hfree req (Router.routed ipc.router.nextId req)) (ipc.take fd req)
        (Sockets.fresh_cons.mp hrest).2
      rw [List.append_assoc] at hpast
      dsimp only [Sockets.run, Sockets.apply, List.append, List.cons_append, List.nil_append]
      rw [HashMap.get_insert_self]
      exact hpast

end Sessions

namespace Daemon

/-- The step lemma. -/
theorem Step.sessions {past : List Traffic} {d d' : Daemon} {l : DaemonLabel}
    (h : Step json d l d') (hd : Sessions past d.sockets) :
    Sessions (past ++ l.traffic) d'.sockets := by
  cases h with
  | round hround =>
    cases hround with
    | round events hidle hfresh =>
      rcases IpcModule.handleEvents_eq json d.ipc events with ⟨conns, -, hconns⟩
      show Sessions (past ++ (Daemon.round json d events).1.2)
        (Daemon.round json d events).2.sockets
      unfold Daemon.round
      rw [hconns] at hfresh ⊢
      exact hd.receiveAll d.ipc hfresh
  | pop hpop =>
    rename_i l
    show Sessions (past ++ l.2) _
    rcases hpop.answer with ⟨output, hans⟩
    cases hl : answerOf l with
    | none =>
      rw [hl] at hans
      rw [hans.2.1, hans.2.2]
      show Sessions (past ++ []) _
      rwa [List.append_nil]
    | some r =>
      rw [hl] at hans
      dsimp only at hans
      rw [hans.2.1, hans.2.2]
      rcases IpcModule.respond_ops json d.ipc r.1 r.2 output with hops | ⟨fd, bytes, hops⟩
      · rw [hops]
        show Sessions (past ++ []) _
        rwa [List.append_nil]
      · rw [hops]
        have hone := hd.answered fd r.2
        show Sessions (past ++ (_ ++ ([] ++ []))) _
        rwa [List.append_nil, List.append_nil]

end Daemon

/-- For every run of the daemon and every connection: no request was taken up from it, or one was
and is not answered, or one was and then `encode_response` was called once for it, whether its
writes went well or not. Its descriptor is open if and only if the request is not answered. -/
theorem sessions_follow_protocol {t : List DaemonLabel} {d : Daemon}
    (hrun : Run (Daemon.Step json) .new t d) (p : ℕ) :
    Session p (sessionOf (Daemon.trafficOf t) p) ∧
      ((∃ fd, d.sockets.peers.get fd = some p) ↔
        Pending p (sessionOf (Daemon.trafficOf t) p)) := by
  let inv : List DaemonLabel → Daemon → Prop := fun past d =>
    Sessions (Daemon.trafficOf past) d.sockets
  have hstep : ∀ past d l d', inv past d → Daemon.Step json d l d' → inv (past ++ [l]) d' := by
    intro past d l d' hd hs
    show Sessions (Daemon.trafficOf (past ++ [l])) _
    rw [Daemon.trafficOf_append]
    have hone := hs.sessions hd
    show Sessions (_ ++ (l.traffic ++ [])) _
    rwa [List.append_nil]
  have hsessions : inv ([] ++ t) d := hrun.invariant_trace [] hstep .new
  exact ⟨hsessions.session p, hsessions.waits p⟩

namespace Daemon

theorem sessions_follow_protocol_working :
    (Session 0 (sessionOf (trafficOf workingLabels) 0) ∧
      ((∃ fd, working.sockets.peers.get fd = some 0) ↔
        Pending 0 (sessionOf (trafficOf workingLabels) 0))) ∧
      sessionOf (trafficOf workingLabels) 0 =
        [.request 0 (.exec 1000 (.cmd "a" [])) (Router.routed 1 (.exec 1000 (.cmd "a" []))),
          .response 0 (.exec 1)] :=
  ⟨sessions_follow_protocol working_run 0, by decide⟩

end Daemon
end CoreShift
