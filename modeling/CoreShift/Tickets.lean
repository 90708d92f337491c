import CoreShift.Daemon
import CoreShift.Utils.Mailbox
import Mathlib.Data.List.Iterate

/-!
# What a round takes up

Each connection that a round keeps is a `Ticket`: the client at its end, the client id and the
descriptor under which it is kept, its request, and the action the request became. `TakenUp`
says what the tickets of a round are and how they are entered into the tables. The two facts
that need an argument are that the tickets' descriptors are distinct, because each was accepted
while the earlier ones were open, and that their client ids are, because there are more ids
than descriptors.
-/

namespace CoreShift

open Utils

/-! ## Requests become actions -/

namespace Router

@[simp] theorem mapping_routed (id : JobId) (req : Request) :
    IpcModule.mapping (routed id req) = some (routed id req).jobId := by
  cases req <;> rfl

end Router

namespace IpcModule

variable {json : Json}

/-- The module after a request was taken up. -/
def take (ipc : IpcModule) (fd : RawFd) (req : Request) : IpcModule :=
  { ipc with
    router := (ipc.router.handle req).1
    clients := ipc.clients.insert ipc.nextClientId fd
    jobToClient :=
      ipc.jobToClient.insert (Router.routed ipc.router.nextId req).jobId ipc.nextClientId
    nextClientId := nextId ipc.nextClientId }

/-- A connection is closed at once, or its request is taken up. -/
theorem receive_cases (json : Json) (ipc : IpcModule) (fd : RawFd) (conn : Connection) :
    ipc.receive json fd conn = ⟨ipc, [], [.closed fd]⟩ ∨
      ∃ req, ipc.receive json fd conn = ⟨ipc.take fd req, [Router.routed ipc.router.nextId req],
        [.kept fd req (Router.routed ipc.router.nextId req)]⟩ := by
  unfold receive
  cases conn.cred with
  | error => exact Or.inl rfl
  | ok uid =>
    dsimp only
    rcases (decodeRequest json uid conn.input).1 with e | _ | req
    · exact Or.inl rfl
    · exact Or.inl rfl
    · right
      refine ⟨req, ?_⟩
      obtain ⟨router, hreq⟩ : ∃ router, ipc.router.handle req =
          (router, some (Router.routed ipc.router.nextId req)) :=
        ⟨_, Prod.ext rfl (Router.handle_routed ipc.router req)⟩
      simp only [hreq, mapJob, Router.mapping_routed, take]

/-- All connections of a round, one after the other. -/
def receiveAll (json : Json) (ipc : IpcModule) : List (RawFd × Connection) → Reception
  | [] => ⟨ipc, [], []⟩
  | (fd, conn) :: conns =>
    let one := ipc.receive json fd conn
    let rest := receiveAll json one.ipc conns
    ⟨rest.ipc, one.actions ++ rest.actions, .accepted fd :: one.ops ++ rest.ops⟩

theorem receiveAll_append (ipc : IpcModule) (conns conns' : List (RawFd × Connection)) :
    ipc.receiveAll json (conns ++ conns') =
      let one := ipc.receiveAll json conns
      let rest := one.ipc.receiveAll json conns'
      ⟨rest.ipc, one.actions ++ rest.actions, one.ops ++ rest.ops⟩ := by
  induction conns generalizing ipc with
  | nil => rfl
  | cons c conns ih =>
    rw [List.cons_append]
    simp only [receiveAll, ih, List.append_assoc, List.cons_append]

/-- `handle_ready` receives the connections up to the first failure. -/
theorem handleReady_eq (json : Json) (ipc : IpcModule) (answers : List AcceptAnswer) :
    ∃ conns, (∀ c ∈ conns, 0 ≤ c.1) ∧
      ipc.handleReady json answers = ipc.receiveAll json conns := by
  have hnone : ∃ conns : List (RawFd × Connection), (∀ c ∈ conns, 0 ≤ c.1) ∧
      (⟨ipc, [], []⟩ : Reception) = ipc.receiveAll json conns :=
    ⟨[], fun c hc => absurd hc List.not_mem_nil, rfl⟩
  induction answers generalizing ipc with
  | nil => exact hnone
  | cons ans answers ih =>
    cases ans with
    | fail => exact hnone
    | conn fd conn =>
      unfold handleReady
      by_cases hfd : fd < 0
      · rw [if_pos hfd]
        exact hnone
      · rw [if_neg hfd]
        rcases ih (ipc.receive json fd conn).ipc
          ⟨[], fun c hc => absurd hc List.not_mem_nil, rfl⟩ with ⟨conns, hpos, heq⟩
        refine ⟨(fd, conn) :: conns, ?_, ?_⟩
        · intro c hc
          rcases List.mem_cons.mp hc with rfl | hc
          · exact Int32.not_lt.mp hfd
          · exact hpos c hc
        · dsimp only
          rw [heq]
          rfl

/-- So does a round. -/
theorem handleEvents_eq (json : Json) (ipc : IpcModule)
    (events : List (ReactorEvent × List AcceptAnswer)) :
    ∃ conns, (∀ c ∈ conns, 0 ≤ c.1) ∧
      ipc.handleEvents json events = ipc.receiveAll json conns := by
  induction events generalizing ipc with
  | nil => exact ⟨[], fun c hc => absurd hc List.not_mem_nil, rfl⟩
  | cons ev events ih =>
    rcases ev with ⟨event, answers⟩
    obtain ⟨conns, hpos, heq⟩ : ∃ conns, (∀ c ∈ conns, (0 : RawFd) ≤ c.1) ∧
        ipc.handleEvent json event answers = ipc.receiveAll json conns := by
      unfold handleEvent
      split
      · exact handleReady_eq json ipc answers
      · exact ⟨[], fun c hc => absurd hc List.not_mem_nil, rfl⟩
    rcases ih (ipc.handleEvent json event answers).ipc with ⟨conns', hpos', heq'⟩
    refine ⟨conns ++ conns', ?_, ?_⟩
    · intro c hc
      rcases List.mem_append.mp hc with hc | hc
      · exact hpos c hc
      · exact hpos' c hc
    · rw [receiveAll_append, ← heq]
      dsimp only
      rw [← heq']
      rfl

end IpcModule

/-! ## Client ids -/

namespace IpcModule

/-- Client ids are the numbers from 1 to `2 ^ 32 - 1`, in a circle. -/
theorem nextId_rank {id : UInt32} (h : id ≠ 0) :
    nextId id ≠ 0 ∧ (nextId id).toNat - 1 = (id.toNat - 1 + 1) % (2 ^ 32 - 1) := by
  have hpos : 0 < id.toNat := by
    rw [Nat.pos_iff_ne_zero]
    exact fun h0 => h (UInt32.toNat_inj.mp h0)
  have hlt := id.toNat_lt
  have hsucc : (id + 1).toNat = (id.toNat + 1) % 2 ^ 32 := UInt32.toNat_add id 1
  unfold nextId
  by_cases hwrap : id + 1 = 0
  · -- the largest id is followed by the smallest
    rw [if_pos hwrap]
    rw [hwrap, UInt32.toNat_zero] at hsucc
    refine ⟨by decide, ?_⟩
    show 0 = _
    omega
  · rw [if_neg hwrap]
    have hne : (id + 1).toNat ≠ 0 := fun h0 => hwrap (UInt32.toNat_inj.mp h0)
    refine ⟨hwrap, ?_⟩
    omega

theorem nextId_iterate {id : UInt32} (h : id ≠ 0) (n : ℕ) :
    nextId^[n] id ≠ 0 ∧ (nextId^[n] id).toNat - 1 = (id.toNat - 1 + n) % (2 ^ 32 - 1) := by
  have hlt := id.toNat_lt
  induction n with
  | zero =>
    refine ⟨h, ?_⟩
    show id.toNat - 1 = _
    omega
  | succ n ih =>
    rw [Function.iterate_succ_apply']
    rcases nextId_rank ih.1 with ⟨hne, hrank⟩
    refine ⟨hne, ?_⟩
    rw [hrank, ih.2]
    omega

/-- Fewer than `2 ^ 32 - 1` successive ids are distinct. -/
theorem nodup_ids {id : UInt32} (h : id ≠ 0) {n : ℕ} (hn : n < 2 ^ 32 - 1) :
    (List.iterate nextId id n).Nodup := by
  rw [← List.range_map_iterate]
  refine List.Nodup.map_on ?_ List.nodup_range
  intro i hi j hj hij
  rw [List.mem_range] at hi hj
  have hri := (nextId_iterate h i).2
  have hrj := (nextId_iterate h j).2
  rw [hij, hrj] at hri
  omega

end IpcModule

/-! ## Descriptors -/

namespace Sockets

/-- Each open descriptor belongs to a connection of its own, one that was accepted. -/
structure Sound (k : Sockets) : Prop where
  accepted : ∀ fd p, k.peers.get fd = some p → p < k.accepted
  own : ∀ fd fd' p, k.peers.get fd = some p → k.peers.get fd' = some p → fd = fd'

theorem Sound.new : Sound .new := by
  constructor
  · intro fd p h
    rw [show Sockets.new.peers.get fd = none from HashMap.get_empty fd] at h
    cases h
  · intro fd fd' p h
    rw [show Sockets.new.peers.get fd = none from HashMap.get_empty fd] at h
    cases h

theorem Sound.accept {k : Sockets} (h : k.Sound) (fd : RawFd) :
    Sound ⟨k.peers.insert fd k.accepted, k.accepted + 1⟩ := by
  constructor
  · intro fd' p hp
    dsimp only at hp ⊢
    rw [HashMap.get_insert] at hp
    by_cases heq : fd' = fd
    · rw [if_pos heq, Option.some.injEq] at hp
      omega
    · rw [if_neg heq] at hp
      have := h.accepted fd' p hp
      omega
  · intro fd₁ fd₂ p hp₁ hp₂
    dsimp only at hp₁ hp₂
    rw [HashMap.get_insert] at hp₁ hp₂
    by_cases h₁ : fd₁ = fd <;> by_cases h₂ : fd₂ = fd
    · rw [h₁, h₂]
    · -- the new connection has a number of its own
      rw [if_pos h₁, Option.some.injEq] at hp₁
      rw [if_neg h₂] at hp₂
      have := h.accepted fd₂ p hp₂
      omega
    · rw [if_neg h₁] at hp₁
      rw [if_pos h₂, Option.some.injEq] at hp₂
      have := h.accepted fd₁ p hp₁
      omega
    · rw [if_neg h₁] at hp₁
      rw [if_neg h₂] at hp₂
      exact h.own fd₁ fd₂ p hp₁ hp₂

theorem Sound.close {k : Sockets} (h : k.Sound) (fd : RawFd) :
    Sound ⟨k.peers.remove fd, k.accepted⟩ := by
  have hget : ∀ fd' p, (k.peers.remove fd).get fd' = some p → k.peers.get fd' = some p :=
    fun _ _ hp => (HashMap.get_remove_eq_some.mp hp).2
  constructor
  · exact fun fd' p hp => h.accepted fd' p (hget fd' p hp)
  · exact fun fd₁ fd₂ p hp₁ hp₂ => h.own fd₁ fd₂ p (hget fd₁ p hp₁) (hget fd₂ p hp₂)

end Sockets

/-- A set of distinct descriptors has at most `2 ^ 31` elements. -/
theorem length_fds {fds : List RawFd} (hnodup : fds.Nodup) (hpos : ∀ fd ∈ fds, 0 ≤ fd) :
    fds.length ≤ 2 ^ 31 := by
  have hmap : (fds.map fun fd => fd.toInt.toNat).Nodup := by
    refine List.Nodup.map_on ?_ hnodup
    intro fd hfd fd' hfd' heq
    have h0 := Int32.le_iff_toInt_le.mp (hpos fd hfd)
    have h0' := Int32.le_iff_toInt_le.mp (hpos fd' hfd')
    rw [Int32.toInt_zero] at h0 h0'
    apply Int32.toInt_inj.mp
    omega
  have hsub : (fds.map fun fd => fd.toInt.toNat) ⊆ List.range (2 ^ 31) := by
    intro n hn
    rcases List.mem_map.mp hn with ⟨fd, -, rfl⟩
    have hlt := fd.toInt_lt
    rw [List.mem_range]
    omega
  have hle := (hmap.subperm hsub).length_le
  rwa [List.length_map, List.length_range] at hle

/-! ## Tickets -/

/-- A connection whose request was taken up. -/
structure Ticket where
  peer : ℕ
  client : UInt32
  fd : RawFd
  request : Request
  action : Action

namespace Ticket

/-- The job that the request names, or the one it creates. -/
def id (t : Ticket) : JobId := t.action.jobId

def traffic (t : Ticket) : Traffic := .request t.peer t.request t.action

end Ticket

/-- The state of the connections before and after some tickets were entered. -/
structure TakenUp (T : List Ticket) (ipc : IpcModule) (k : Sockets) (ipc' : IpcModule)
    (k' : Sockets) : Prop where
  routed : ∀ t ∈ T, ∃ id, t.action = Router.routed id t.request
  clients : ipc'.clients = ipc.clients.insertAll (T.map fun t => (t.client, t.fd))
  mapped : ipc'.jobToClient = ipc.jobToClient.insertAll (T.map fun t => (t.id, t.client))
  ids : T.map Ticket.client = List.iterate IpcModule.nextId ipc.nextClientId T.length
  next : ipc'.nextClientId = IpcModule.nextId^[T.length] ipc.nextClientId
  fds : (T.map Ticket.fd).Nodup
  nonneg : ∀ t ∈ T, 0 ≤ t.fd
  peers : (T.map Ticket.peer).Nodup
  later : ∀ t ∈ T, k.accepted ≤ t.peer
  stays : ∀ t ∈ T, k'.peers.get t.fd = some t.peer
  before : ∀ fd p, k.peers.get fd = some p → k'.peers.get fd = some p
  sound : k'.Sound

theorem TakenUp.nil (ipc : IpcModule) {k : Sockets} (hk : k.Sound) : TakenUp [] ipc k ipc k := by
  constructor <;> first | rfl | exact List.nodup_nil | exact hk | skip
  · exact fun t ht => absurd ht List.not_mem_nil
  · exact fun t ht => absurd ht List.not_mem_nil
  · exact fun t ht => absurd ht List.not_mem_nil
  · exact fun t ht => absurd ht List.not_mem_nil
  · exact fun _ _ hp => hp

/-- One more ticket in front. -/
theorem TakenUp.cons {ipc ipc' : IpcModule} {k k' : Sockets} {T : List Ticket} {fd : RawFd}
    {req : Request} (hfd : 0 ≤ fd) (hfree : k.peers.get fd = none)
    (h : TakenUp T (ipc.take fd req) ⟨k.peers.insert fd k.accepted, k.accepted + 1⟩ ipc' k') :
    TakenUp (⟨k.accepted, ipc.nextClientId, fd, req, Router.routed ipc.router.nextId req⟩ :: T)
      ipc k ipc' k' := by
  have hstays : k'.peers.get fd = some k.accepted :=
    h.before fd k.accepted (HashMap.get_insert_self _ _ _)
  have hlater : ∀ t ∈ T, k.accepted + 1 ≤ t.peer := h.later
  constructor
  · intro t ht
    rcases List.mem_cons.mp ht with rfl | ht
    · exact ⟨_, rfl⟩
    · exact h.routed t ht
  · exact h.clients
  · exact h.mapped
  · rw [List.map_cons, h.ids, List.length_cons]
    rfl
  · rw [h.next, List.length_cons]
    rfl
  · rw [List.map_cons, List.nodup_cons]
    refine ⟨?_, h.fds⟩
    -- a later ticket with this descriptor would be of the same connection
    intro hmem
    rcases List.mem_map.mp hmem with ⟨t, ht, heq⟩
    have hstays' := h.stays t ht
    rw [heq, hstays, Option.some.injEq] at hstays'
    have := hlater t ht
    omega
  · intro t ht
    rcases List.mem_cons.mp ht with rfl | ht
    · exact hfd
    · exact h.nonneg t ht
  · rw [List.map_cons, List.nodup_cons]
    refine ⟨?_, h.peers⟩
    intro hmem
    rcases List.mem_map.mp hmem with ⟨t, ht, heq⟩
    have := hlater t ht
    dsimp only at heq
    omega
  · intro t ht
    rcases List.mem_cons.mp ht with rfl | ht
    · exact le_rfl
    · have := hlater t ht
      omega
  · intro t ht
    rcases List.mem_cons.mp ht with rfl | ht
    · exact hstays
    · exact h.stays t ht
  · intro fd' p hp
    apply h.before
    have hne : fd' ≠ fd := by
      rintro rfl
      rw [hfree] at hp
      cases hp
    exact (HashMap.get_insert_ne _ _ hne).trans hp
  · exact h.sound

/-- A descriptor that is closed at once leaves no trace but a number. -/
theorem TakenUp.skip {ipc ipc' : IpcModule} {k k' : Sockets} {T : List Ticket}
    (h : TakenUp T ipc ⟨k.peers, k.accepted + 1⟩ ipc' k') : TakenUp T ipc k ipc' k' :=
  { h with later := fun t ht => (Nat.le_succ _).trans (h.later t ht) }

/-- The tickets of some connections. -/
theorem receiveAll_takenUp {json : Json} {ipc : IpcModule} {k : Sockets}
    {conns : List (RawFd × Connection)} (hpos : ∀ c ∈ conns, 0 ≤ c.1) (hk : k.Sound)
    (hfresh : k.Fresh (ipc.receiveAll json conns).ops = true) :
    ∃ T, TakenUp T ipc k (ipc.receiveAll json conns).ipc
        (k.run (ipc.receiveAll json conns).ops).1 ∧
      (ipc.receiveAll json conns).actions = T.map Ticket.action ∧
      (k.run (ipc.receiveAll json conns).ops).2 = T.map Ticket.traffic := by
  induction conns generalizing ipc k with
  | nil => exact ⟨[], .nil ipc hk, rfl, rfl⟩
  | cons c conns ih =>
    rcases c with ⟨fd, conn⟩
    have hpos' : ∀ c ∈ conns, 0 ≤ c.1 := fun c hc => hpos c (List.mem_cons_of_mem _ hc)
    have hfd : 0 ≤ fd := hpos _ List.mem_cons_self
    unfold IpcModule.receiveAll at hfresh ⊢
    change k.Fresh (.accepted fd :: ((ipc.receive json fd conn).ops ++
      ((ipc.receive json fd conn).ipc.receiveAll json conns).ops)) = true at hfresh
    rw [Sockets.fresh_cons] at hfresh
    have hfree : k.peers.get fd = none := Option.isNone_iff_eq_none.mp hfresh.1
    have hrest := hfresh.2
    rcases IpcModule.receive_cases json ipc fd conn with hone | ⟨req, hone⟩
    · rw [hone] at hrest ⊢
      -- the descriptor is closed again
      have hclosed : (k.peers.insert fd k.accepted).remove fd = k.peers := by
        ext fd' : 1
        rw [HashMap.get_remove]
        by_cases heq : fd' = fd
        · rw [if_pos heq, heq, hfree]
        · rw [if_neg heq, HashMap.get_insert_ne _ _ heq]
      have hk' : Sockets.Sound ⟨k.peers, k.accepted + 1⟩ :=
        ⟨fun fd' p hp => (hk.accepted fd' p hp).trans (Nat.lt_succ_self _), hk.own⟩
      have hfresh' : Sockets.Fresh ⟨k.peers, k.accepted + 1⟩ (ipc.receiveAll json conns).ops =
          true := by
        have hclose := (Sockets.fresh_cons.mp hrest).2
        dsimp only [Sockets.apply] at hclose
        rwa [hclosed] at hclose
      rcases ih hpos' hk' hfresh' with ⟨T, hT, hacts, htraffic⟩
      refine ⟨T, ?_, ?_, ?_⟩
      · dsimp only [Sockets.run, Sockets.apply, List.append, List.cons_append, List.nil_append]
        rw [hclosed]
        exact hT.skip
      · exact hacts
      · dsimp only [Sockets.run, Sockets.apply, List.append, List.cons_append, List.nil_append]
        rw [hclosed]
        exact htraffic
    · rw [hone] at hrest ⊢
      rcases ih hpos' (hk.accept fd) (Sockets.fresh_cons.mp hrest).2 with ⟨T, hT, hacts, htraffic⟩
      refine ⟨_ :: T, hT.cons hfd hfree, ?_, ?_⟩
      · rw [List.map_cons, ← hacts]
        rfl
      · rw [List.map_cons, ← htraffic]
        dsimp only [Sockets.run, Sockets.apply, List.append, List.cons_append, List.nil_append]
        rw [HashMap.get_insert_self]
        rfl

end CoreShift
