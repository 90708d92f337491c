import CoreShift.MidLevel.Ipc
import CoreShift.Runtime

/-!
# The daemon

`run_daemon`: the core loop, the IPC module, and the clients' descriptors as the kernel keeps
them. A round takes the reactor's events into an empty queue; a pop processes one action and
hands what it resolved to for the IPC module over.

The kernel numbers the connections in the order they are accepted; the number is the identity of
the client at the other end, whatever descriptor it is reached through. `Traffic` is what
happens on the connections: the requests that were taken up, and the responses sent.
-/

namespace CoreShift

open Utils WorkQueue

/-! ## The clients' descriptors -/

/-- What happens on a connection, which is given by its number. A response is there as soon as
`encode_response` is called for it, even if its writes fail. -/
inductive Traffic
  | request (peer : ℕ) (request : Request) (action : Action)
  | response (peer : ℕ) (response : WireResponse)
deriving DecidableEq

/-- The open descriptors of clients, with the connection each belongs to, and the number of
connections that were accepted. -/
structure Sockets where
  peers : HashMap RawFd ℕ
  accepted : ℕ

namespace Sockets

def new : Sockets := ⟨.empty, 0⟩

/-- A frame goes to the connection that the descriptor belongs to. -/
def apply (k : Sockets) : SocketOp → Sockets × List Traffic
  | .accepted fd => (⟨k.peers.insert fd k.accepted, k.accepted + 1⟩, [])
  | .kept fd req action => (k, (k.peers.get fd).toList.map fun p => .request p req action)
  | .sent fd resp _ => (k, (k.peers.get fd).toList.map fun p => .response p resp)
  | .closed fd => ({ k with peers := k.peers.remove fd }, [])

def run (k : Sockets) : List SocketOp → Sockets × List Traffic
  | [] => (k, [])
  | op :: ops =>
    let one := k.apply op
    let rest := run one.1 ops
    (rest.1, one.2 ++ rest.2)

/-- The descriptor of an accepted connection is not open. -/
def FreshOp (k : Sockets) : SocketOp → Bool
  | .accepted fd => (k.peers.get fd).isNone
  | _ => true

/-- What the kernel promises: a descriptor that it hands out is not open. -/
def Fresh (k : Sockets) : List SocketOp → Bool
  | [] => true
  | op :: ops => k.FreshOp op && (k.apply op).1.Fresh ops

theorem fresh_cons {k : Sockets} {op : SocketOp} {ops : List SocketOp} :
    k.Fresh (op :: ops) = true ↔ k.FreshOp op = true ∧ (k.apply op).1.Fresh ops = true :=
  Bool.and_eq_true_iff

end Sockets

/-! ## The daemon -/

/-- The state of `run_daemon`. Its listener is assumed to be bound and listening, so that there
are connections to accept; `run_daemon` itself calls neither `bind` nor `listen`. -/
structure Daemon where
  loop : Loop EffectExecutor
  ipc : IpcModule
  sockets : Sockets

/-- What is observable of a round: what is fed to the loop, and what happens on the
connections. -/
abbrev RoundLog := (List Action × List Event) × List Traffic

/-- What is observable of a pop. -/
abbrev DaemonPop := (Action × PopLog) × List Traffic

inductive DaemonLabel
  | round (log : RoundLog)
  | pop (log : DaemonPop)

namespace DaemonLabel

/-- The label of the loop's step. -/
def loop : DaemonLabel → Label
  | .round log => .feed log.1.1 log.1.2
  | .pop log => .pop log.1.1 log.1.2

def traffic : DaemonLabel → List Traffic
  | .round log => log.2
  | .pop log => log.2

end DaemonLabel

namespace Daemon

/-- The state before the first iteration: `Core::new` limits the number of jobs to 64, and the
listener is registered under the token 1. -/
def new : Daemon := ⟨.init AdmissionControlModule.default.maxJobs .new, .new ⟨1⟩, .new⟩

/-- The part of an iteration before the queue is processed. -/
def round (json : Json) (d : Daemon) (events : List (ReactorEvent × List AcceptAnswer)) :
    RoundLog × Daemon :=
  let r := d.ipc.handleEvents json events
  let jobEvents := d.loop.world.exec.jobEvents (events.map Prod.fst)
  let k := d.sockets.run r.ops
  (((r.actions, jobEvents), k.2), ⟨d.loop.feed r.actions jobEvents, r.ipc, k.1⟩)

/-- The connections after the actions of a pop were handed over. -/
def answer (json : Json) (d : Daemon) (actions : List Action) (output : List WriteAnswer) :
    (IpcModule × Sockets) × List Traffic :=
  let r := d.ipc.interceptActions json output actions
  let k := d.sockets.run r.2
  ((r.1, k.1), k.2)

/-- One pop, for a given clock and given answers to its effect and its response. -/
def pop (json : Json) (amb : Ambient) (ans : OsAnswer) (output : List WriteAnswer) (d : Daemon) :
    Option (DaemonPop × Daemon) :=
  match d.loop.pop EffectExecutor.executor amb ans with
  | none => none
  | some (l, loop) =>
    let r := d.answer json l.2.ipcActs output
    some ((l, r.2), ⟨loop, r.1.1, r.1.2⟩)

/-- A round, in which the kernel keeps its promise. -/
inductive RoundStep (json : Json) : Daemon → RoundLog → Daemon → Prop
  | round {d} (events) : d.loop.queue = [] →
      d.sockets.Fresh (d.ipc.handleEvents json events).ops = true →
      RoundStep json d (d.round json events).1 (d.round json events).2

/-- A pop, for some clock and some answers. -/
inductive PopStep (json : Json) : Daemon → DaemonPop → Daemon → Prop
  | pop {d l loop} (output) : Pop (World.Step EffectExecutor.executor) d.loop l loop →
      PopStep json d (l, (d.answer json l.2.ipcActs output).2)
        ⟨loop, (d.answer json l.2.ipcActs output).1.1, (d.answer json l.2.ipcActs output).1.2⟩

/-- A step of the daemon. -/
inductive Step (json : Json) : Daemon → DaemonLabel → Daemon → Prop
  | round {d l d'} : RoundStep json d l d' → Step json d (.round l) d'
  | pop {d l d'} : PopStep json d l d' → Step json d (.pop l) d'

theorem pop_eq_some {json : Json} {amb : Ambient} {ans : OsAnswer} {output : List WriteAnswer}
    {d d' : Daemon} {l : DaemonPop} (h : d.pop json amb ans output = some (l, d')) :
    PopStep json d l d' := by
  unfold pop at h
  cases hp : d.loop.pop EffectExecutor.executor amb ans with
  | none => rw [hp] at h; cases h
  | some r =>
    rw [hp] at h
    cases h
    exact .pop output (Loop.pop_eq_some hp)

/-! ## The steps of the loop inside -/

theorem PopStep.loop {json : Json} {d d' : Daemon} {l : DaemonPop} (h : PopStep json d l d') :
    Pop (World.Step EffectExecutor.executor) d.loop l.1 d'.loop := by
  cases h with
  | pop output hpop => exact hpop

/-- The loop pops what the daemon pops. -/
theorem pops_loop {json : Json} {d d' : Daemon} {u : List DaemonPop}
    (h : Run (PopStep json) d u d') :
    Run (Pop (World.Step EffectExecutor.executor)) d.loop (u.map Prod.fst) d'.loop :=
  h.map Daemon.loop Prod.fst fun _ _ _ hs => hs.loop

/-- A round and the pops that follow it, as steps of the daemon. -/
theorem RoundStep.steps {json : Json} {d d₁ d₂ : Daemon} {l : RoundLog} {u : List DaemonPop}
    (h : RoundStep json d l d₁) (hpops : Run (PopStep json) d₁ u d₂) :
    Run (Step json) d (.round l :: u.map .pop) d₂ :=
  .cons (.round h) (hpops.map (fun d => d) DaemonLabel.pop fun _ _ _ hs => .pop hs)

/-- Pops as long as there are actions and answers, on sockets that take no bytes. -/
def runPops (json : Json) : List (Ambient × OsAnswer) → Daemon → List DaemonPop × Daemon
  | [], d => ([], d)
  | (amb, ans) :: envs, d =>
    match d.pop json amb ans [] with
    | none => ([], d)
    | some (l, d') =>
      let r := runPops json envs d'
      (l :: r.1, r.2)

theorem runPops_run (json : Json) (envs : List (Ambient × OsAnswer)) (d : Daemon) :
    Run (PopStep json) d (runPops json envs d).1 (runPops json envs d).2 := by
  induction envs generalizing d with
  | nil => exact .nil d
  | cons env envs ih =>
    unfold runPops
    cases hpop : d.pop json env.1 env.2 [] with
    | none => simp only; exact .nil d
    | some r => simp only; exact .cons (pop_eq_some hpop) (ih r.2)

end Daemon

/-! ## Inputs for small runs -/

namespace Json

/-- The text `\x7b"Cmd":\x7b"service":"a","args":[]\x7d\x7d`. -/
def commandText : Bytes :=
  [0x7b, 0x22, 0x43, 0x6d, 0x64, 0x22, 0x3a, 0x7b, 0x22, 0x73, 0x65, 0x72, 0x76, 0x69, 0x63, 0x65,
    0x22, 0x3a, 0x22, 0x61, 0x22, 0x2c, 0x22, 0x61, 0x72, 0x67, 0x73, 0x22, 0x3a, 0x5b, 0x5d, 0x7d,
    0x7d]

/-- A library that reads one command, and writes the absent result as `null`. -/
def small : Json where
  parseCommand text := if text = commandText then some (.cmd "a" []) else none
  outcome
    | none => [0x6e, 0x75, 0x6c, 0x6c]
    | some _ => []

end Json

namespace Connection

/-- A client that sends a frame, the length first. -/
def sends (uid : UInt32) (payload : Bytes) : Connection :=
  ⟨.ok uid, [.data (toLeBytes 4 payload.length), .data payload], []⟩

def exec (uid : UInt32) : Connection := sends uid (1 :: Json.commandText)

def getResult (uid : UInt32) (id : ℕ) : Connection := sends uid (2 :: toLeBytes 8 id)

def cancel (uid : UInt32) (id : ℕ) : Connection := sends uid (3 :: toLeBytes 8 id)

end Connection

namespace Daemon

/-- A round in which the listener is ready, and some connections are accepted. -/
def connect (d : Daemon) (conns : List AcceptAnswer) : RoundLog × Daemon :=
  d.round .small [(⟨⟨1⟩, true, false, false⟩, conns)]

/-- The pops that follow, in which every process starts. -/
noncomputable def settle (d : Daemon) : List DaemonPop × Daemon :=
  d.runPops .small (List.replicate 20 (.still 0, .started 100))

end Daemon
end CoreShift
