import CoreShift.MidLevel.Wire

/-!
# The IPC module

`mid_level/ipc.rs`. Accepted connections are kept under client ids, and the id of the job that a
request names leads to the client that is to be answered. What the module does with sockets is
returned as a list of `SocketOp`s; what the kernel answers comes in as data.
-/

namespace CoreShift

open Utils

/-- What the calls on an accepted descriptor answer: the credentials of the peer, the bytes it
sends, and its reception of an error frame. -/
structure Connection where
  cred : Except Int32 UInt32
  input : List ReadAnswer
  output : List WriteAnswer

/-- An answer of `accept4`. -/
inductive AcceptAnswer
  | fail (code : Int32)
  | conn (fd : RawFd) (conn : Connection)

/-- What happens to a client's descriptor. `kept` stands for the `mem::forget` of a descriptor
whose request was turned into an action. -/
inductive SocketOp
  | accepted (fd : RawFd)
  | kept (fd : RawFd) (request : Request) (action : Action)
  | sent (fd : RawFd) (response : WireResponse) (bytes : Bytes)
  | closed (fd : RawFd)
deriving DecidableEq, Repr

structure IpcModule where
  serverToken : Option Token
  router : Router
  clients : HashMap UInt32 RawFd
  jobToClient : HashMap JobId UInt32
  nextClientId : UInt32

/-- The module after some connections, with the actions and the socket operations of these. -/
structure Reception where
  ipc : IpcModule
  actions : List Action
  ops : List SocketOp

namespace IpcModule

def new (token : Token) : IpcModule := ⟨some token, .new, .empty, .empty, 1⟩

/-! ## Accepting -/

/-- The client id after `id`; zero is skipped. -/
def nextId (id : UInt32) : UInt32 := if id + 1 = 0 then 1 else id + 1

/-- The job id whose answer the client of an action waits for. -/
def mapping : Action → Option JobId
  | .submit id _ _ _ | .query id | .control id _ => some id
  | _ => none

/-- Stores the mapping of an action. -/
def mapJob (ipc : IpcModule) (action : Action) (client : UInt32) : IpcModule :=
  match mapping action with
  | some id => { ipc with jobToClient := ipc.jobToClient.insert id client }
  | none => ipc

/-- The body of the accept loop, for a descriptor that was accepted. -/
def receive (json : Json) (ipc : IpcModule) (fd : RawFd) (conn : Connection) : Reception :=
  match conn.cred with
  | .error _ => ⟨ipc, [], [.closed fd]⟩
  | .ok uid =>
    match (decodeRequest json uid conn.input).1 with
    | .ok (some req) =>
      let client := ipc.nextClientId
      let clients := ipc.clients.insert client fd
      match ipc.router.handle req with
      | (router, some action) =>
        ⟨{ ipc with router := router, clients := clients, nextClientId := nextId client }.mapJob
            action client, [action], [.kept fd req action]⟩
      | (router, none) =>
        ⟨{ ipc with
            router := router, clients := clients.remove client, nextClientId := nextId client },
          [], [.sent fd .error (encodeResponse json .error conn.output).1, .closed fd]⟩
    | _ => ⟨ipc, [], [.closed fd]⟩

/-- `handle_ready`: accepts until `accept4` fails, be it that nobody waits any more. -/
def handleReady (json : Json) (ipc : IpcModule) : List AcceptAnswer → Reception
  | [] | .fail _ :: _ => ⟨ipc, [], []⟩
  | .conn fd conn :: answers =>
    if fd < 0 then ⟨ipc, [], []⟩
    else
      let one := ipc.receive json fd conn
      let rest := handleReady json one.ipc answers
      ⟨rest.ipc, one.actions ++ rest.actions, .accepted fd :: one.ops ++ rest.ops⟩

/-- `handle_event`. -/
def handleEvent (json : Json) (ipc : IpcModule) (event : ReactorEvent)
    (answers : List AcceptAnswer) : Reception :=
  if some event.token = ipc.serverToken ∧ event.readable = true then
    ipc.handleReady json answers
  else ⟨ipc, [], []⟩

/-- The loop over the reactor's events. -/
def handleEvents (json : Json) (ipc : IpcModule) :
    List (ReactorEvent × List AcceptAnswer) → Reception
  | [] => ⟨ipc, [], []⟩
  | (event, answers) :: events =>
    let one := ipc.handleEvent json event answers
    let rest := handleEvents json one.ipc events
    ⟨rest.ipc, one.actions ++ rest.actions, one.ops ++ rest.ops⟩

/-! ## Answering -/

/-- The response that an action stands for, and the job whose client gets it. -/
def response : Action → Option (JobId × WireResponse)
  | .started id => some (id, .exec id)
  | .controlled id => some (id, .cancelOk)
  | .queryResult id result => some (id, .result result)
  | .rejected id => some (id, .error)
  | .finished id result => some (id, .result (some ⟨id, result⟩))
  | _ => none

/-- Sends a response to the client that waits for the job, if there is one, and closes its
descriptor. -/
def respond (json : Json) (ipc : IpcModule) (id : JobId) (resp : WireResponse)
    (output : List WriteAnswer) : IpcModule × List SocketOp :=
  match ipc.jobToClient.get id with
  | none => (ipc, [])
  | some client =>
    let ipc := { ipc with jobToClient := ipc.jobToClient.remove id }
    match ipc.clients.get client with
    | none => (ipc, [])
    | some fd =>
      let ipc := { ipc with clients := ipc.clients.remove client }
      if fd < 0 then (ipc, [])
      else (ipc, [.sent fd resp (encodeResponse json resp output).1, .closed fd])

/-- `intercept_action`. -/
def interceptAction (json : Json) (ipc : IpcModule) (action : Action)
    (output : List WriteAnswer) : IpcModule × List SocketOp :=
  match response action with
  | some (id, resp) => ipc.respond json id resp output
  | none => (ipc, [])

/-- The loop over the actions for the IPC module; there is at most one for each pop. -/
def interceptActions (json : Json) (ipc : IpcModule) (output : List WriteAnswer) :
    List Action → IpcModule × List SocketOp
  | [] => (ipc, [])
  | action :: actions =>
    let one := ipc.interceptAction json action output
    let rest := interceptActions json one.1 output actions
    (rest.1, one.2 ++ rest.2)

end IpcModule
end CoreShift
