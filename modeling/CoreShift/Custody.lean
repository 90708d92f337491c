import CoreShift.Daemon
import CoreShift.Utils.Holdings

/-!
# Clients' descriptors are owned once

An accepted descriptor is owned by an `Fd` until its request is taken up; then the `Fd` is
forgotten and only the raw number is left, in `clients`. A response makes an `Fd` of the number
again, which closes it. In between, the rest of the process opens and closes descriptors of its
own, and the kernel reuses closed numbers. The invariant is `Holdings.Kept` of `clients`; it
does not matter that `next_client_id` wraps around: an entry that is overwritten is lost, and
its descriptor stays open, but nothing is closed twice.
-/

namespace CoreShift

open Utils

variable {json : Json}

/-- What an operation does to its descriptor. `mem::forget` takes a kept descriptor from its
`Fd`; a response is written through an `Fd` that is dropped afterwards. -/
def SocketOp.holding : SocketOp → HoldingsOp RawFd
  | .accepted fd => .acquire fd
  | .kept fd _ _ => .disown fd
  | .sent fd _ _ => .use fd
  | .closed fd => .release fd

/-- The IPC module, and the descriptors of the process. -/
structure Custody where
  ipc : IpcModule
  fds : Holdings RawFd

/-- A call, as far as descriptors go: those before it, and what it does to them. -/
structure Custody.Call where
  fds : Holdings RawFd
  ops : List (HoldingsOp RawFd)

namespace Custody

/-- The calls of the IPC module in any order, and what other `Fd`s do in between. What is
assumed is `Fresh`: the kernel hands out numbers that are not open. -/
inductive Step (json : Json) : Custody → Call → Custody → Prop
  | handleReady {ipc fds ops} (answers) :
      ops = (ipc.handleReady json answers).ops.map SocketOp.holding → fds.Fresh ops →
      Step json ⟨ipc, fds⟩ ⟨fds, ops⟩ ⟨(ipc.handleReady json answers).ipc, fds.run ops⟩
  | interceptAction {ipc fds ops} (action output) :
      ops = (ipc.interceptAction json action output).2.map SocketOp.holding →
      Step json ⟨ipc, fds⟩ ⟨fds, ops⟩ ⟨(ipc.interceptAction json action output).1, fds.run ops⟩
  | opens {ipc fds} (fd) : fd ∉ fds.opened →
      Step json ⟨ipc, fds⟩ ⟨fds, [.acquire fd]⟩ ⟨ipc, fds.run [.acquire fd]⟩
  | drops {ipc fds} (fd) : fd ∈ fds.owned →
      Step json ⟨ipc, fds⟩ ⟨fds, [.release fd]⟩ ⟨ipc, fds.run [.release fd]⟩

/-! ## The functions of the IPC module -/

/-- An accepted descriptor is closed, or kept in the table, whatever its credentials, its
request and the router's answer are. -/
theorem receive_kept {ipc : IpcModule} {fds : Holdings RawFd} {fd : RawFd}
    (hk : fds.Kept ipc.clients) (hfd : fd ∉ fds.opened) (conn : Connection) :
    let ops := .acquire fd :: (ipc.receive json fd conn).ops.map SocketOp.holding
    fds.Legal ops ∧ (fds.run ops).Kept (ipc.receive json fd conn).ipc.clients := by
  have howned : fd ∈ insert fd fds.owned := Finset.mem_insert_self _ _
  have hopened : fd ∈ insert fd fds.opened := Finset.mem_insert_self _ _
  have hclosed : fds.Legal [.acquire fd, .release fd] := ⟨hfd, hopened, trivial⟩
  have hback : fds.run [.acquire fd, .release fd] = fds := hk.run_acquire_release hfd
  unfold IpcModule.receive
  split
  · -- no credentials
    refine ⟨hclosed, ?_⟩
    show (fds.run [.acquire fd, .release fd]).Kept _
    rw [hback]
    exact hk
  · split
    · dsimp only
      split
      · -- the request is taken up
        refine ⟨⟨hfd, howned, trivial⟩, ?_⟩
        show (fds.run [.acquire fd, .disown fd]).Kept _
        unfold IpcModule.mapJob
        split
        · exact hk.keep hfd
        · exact hk.keep hfd
      · -- the router refuses the request: the entry is removed again
        refine ⟨⟨hfd, hopened, hopened, trivial⟩, ?_⟩
        show (fds.run [.acquire fd, .release fd]).Kept
          ((ipc.clients.insert ipc.nextClientId fd).remove ipc.nextClientId)
        rw [hback]
        have hremove : (ipc.clients.insert ipc.nextClientId fd).remove ipc.nextClientId =
            ipc.clients.remove ipc.nextClientId := by
          ext i : 1
          by_cases hi : i = ipc.nextClientId
          · rw [hi, HashMap.get_remove_self, HashMap.get_remove_self]
          · rw [HashMap.get_remove_ne _ hi, HashMap.get_remove_ne _ hi,
              HashMap.get_insert_ne _ _ hi]
        rw [hremove]
        exact hk.remove _
    · -- no request
      refine ⟨hclosed, ?_⟩
      show (fds.run [.acquire fd, .release fd]).Kept _
      rw [hback]
      exact hk

theorem handleReady_kept (answers : List AcceptAnswer) {ipc : IpcModule} {fds : Holdings RawFd}
    (hk : fds.Kept ipc.clients)
    (hfresh : fds.Fresh ((ipc.handleReady json answers).ops.map SocketOp.holding)) :
    fds.Legal ((ipc.handleReady json answers).ops.map SocketOp.holding) ∧
      (fds.run ((ipc.handleReady json answers).ops.map SocketOp.holding)).Kept
        (ipc.handleReady json answers).ipc.clients := by
  induction answers generalizing ipc fds with
  | nil => exact ⟨trivial, hk⟩
  | cons ans answers ih =>
    cases ans with
    | fail => exact ⟨trivial, hk⟩
    | conn fd conn =>
      unfold IpcModule.handleReady at hfresh ⊢
      by_cases hfd : fd < 0
      · rw [if_pos hfd]
        exact ⟨trivial, hk⟩
      · rw [if_neg hfd] at hfresh ⊢
        dsimp only at hfresh ⊢
        rw [List.map_append, List.map_cons, Holdings.fresh_append] at hfresh
        rw [List.map_append, List.map_cons, Holdings.legal_append, Holdings.run_append]
        have hone := @receive_kept json _ _ _ hk hfresh.1.1 conn
        have hrest := ih hone.2 hfresh.2
        exact ⟨⟨hone.1, hrest.1⟩, hrest.2⟩

/-- A response is written to the descriptor of the client that waits, and the descriptor is
closed; a client id that is no longer in the table has no descriptor. -/
theorem interceptAction_kept {ipc : IpcModule} {fds : Holdings RawFd}
    (hk : fds.Kept ipc.clients) (action : Action) (output : List WriteAnswer) :
    fds.Legal ((ipc.interceptAction json action output).2.map SocketOp.holding) ∧
      (fds.run ((ipc.interceptAction json action output).2.map SocketOp.holding)).Kept
        (ipc.interceptAction json action output).1.clients := by
  unfold IpcModule.interceptAction
  split
  · unfold IpcModule.respond
    split
    · exact ⟨trivial, hk⟩
    · next client _ =>
      dsimp only
      split
      · exact ⟨trivial, hk⟩
      · next fd hfd =>
        split
        · exact ⟨trivial, hk.remove client⟩
        · have hopened := hk.opened client fd hfd
          exact ⟨⟨hopened, hopened, trivial⟩, hk.take hfd⟩
  · exact ⟨trivial, hk⟩

/-! ## Runs -/

/-- The step lemma. -/
theorem Step.kept {c c' : Custody} {l : Call} (h : Step json c l c')
    (hk : c.fds.Kept c.ipc.clients) : l.fds.Legal l.ops ∧ c'.fds.Kept c'.ipc.clients := by
  cases h with
  | handleReady answers hops hfresh =>
    subst hops
    exact handleReady_kept answers hk hfresh
  | interceptAction action output hops =>
    subst hops
    exact interceptAction_kept hk action output
  | opens fd hfd => exact ⟨⟨hfd, trivial⟩, hk.acquire hfd⟩
  | drops fd hfd => exact ⟨⟨hk.sound hfd, trivial⟩, hk.release hfd⟩

/-- The run lemma. -/
theorem kept_run {c c' : Custody} {t : List Call} (h : Run (Step json) c t c')
    (hk : c.fds.Kept c.ipc.clients) :
    c'.fds.Kept c'.ipc.clients ∧ ∀ l ∈ t, l.fds.Legal l.ops := by
  induction h with
  | nil => exact ⟨hk, fun l hl => absurd hl List.not_mem_nil⟩
  | cons hstep _ ih =>
    rcases hstep.kept hk with ⟨hlegal, hk'⟩
    rcases ih hk' with ⟨hlast, hrest⟩
    refine ⟨hlast, ?_⟩
    intro l hl
    rcases List.mem_cons.mp hl with rfl | hl
    · exact hlegal
    · exact hrest l hl

end Custody

/-- From a module without clients, whatever its next client id is, and after any calls: the
descriptors in `clients` are distinct, open, and owned by no `Fd`; and in every call a frame
was written to an open descriptor only, and only open descriptors were closed. -/
theorem client_descriptors_owned_once {ipc : IpcModule} {fds : Holdings RawFd} {c : Custody}
    {t : List Custody.Call} (hempty : ipc.clients = .empty) (hsound : fds.owned ⊆ fds.opened)
    (hrun : Run (Custody.Step json) ⟨ipc, fds⟩ t c) :
    (∀ i j fd, c.ipc.clients.get i = some fd → c.ipc.clients.get j = some fd → i = j) ∧
    (∀ i fd, c.ipc.clients.get i = some fd → fd ∈ c.fds.opened ∧ fd ∉ c.fds.owned) ∧
    ∀ l ∈ t, l.fds.Legal l.ops := by
  have hk : fds.Kept ipc.clients := by
    rw [hempty]
    exact .empty hsound
  rcases Custody.kept_run hrun hk with ⟨hlast, hlegal⟩
  exact ⟨hlast.distinct, fun i fd hi => ⟨hlast.opened i fd hi, hlast.unowned i fd hi⟩, hlegal⟩

namespace Custody

/-- A module that has used up its client ids, without clients. -/
def lastId : IpcModule := { IpcModule.new ⟨1⟩ with nextClientId := 0xffffffff }

/-- Two clients ask for results; the client id wraps around between them. -/
def asked : Reception :=
  lastId.handleReady .small [.conn 5 (.getResult 1000 7), .conn 6 (.getResult 1000 8)]

/-- The first is answered. -/
def answered : IpcModule × List SocketOp :=
  asked.ipc.interceptAction .small (.queryResult 7 none) []

/-- The process has its listener and its epoll instance open. -/
def listening : Holdings RawFd := ⟨{3, 4}, {3, 4}⟩

/-- The descriptors while both clients wait. -/
def waiting : Holdings RawFd := listening.run (asked.ops.map SocketOp.holding)

theorem client_descriptors_owned_once_wrapped :
    answered.1.clients.get 1 = some 6 ∧
      6 ∈ (waiting.run (answered.2.map SocketOp.holding)).opened ∧
      waiting.Legal (answered.2.map SocketOp.holding) := by
  have hasked : Step .small ⟨lastId, listening⟩ _ ⟨asked.ipc, waiting⟩ :=
    .handleReady _ rfl (by decide)
  have hanswered : Step .small ⟨asked.ipc, waiting⟩ _ ⟨answered.1, _⟩ := .interceptAction _ _ rfl
  have howned := client_descriptors_owned_once rfl (by decide)
    (.cons hasked (.single hanswered))
  have hclient : answered.1.clients.get 1 = some 6 := by decide
  exact ⟨hclient, (howned.2.1 1 6 hclient).1,
    howned.2.2 _ (List.mem_cons_of_mem _ List.mem_cons_self)⟩

end Custody
end CoreShift
