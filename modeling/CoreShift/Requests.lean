import CoreShift.Arguments
import CoreShift.Order
import CoreShift.PollTimeout
import CoreShift.Stranded

/-!
# What the daemon is asked for, and what it starts

The router turns the requests that were taken up into the inputs of the loop, one after the
other; `handleAll` is its meaning for a whole sequence. With the order in which the loop serves
its submissions, this says which children the daemon starts: those of the first 64 `Exec`
requests, numbered from 1 in the order in which they were taken up. Every one of them runs one of
the two executables that a `Command` can name.

No command has a timeout, so that the daemon never has a deadline to wait for.
-/

namespace CoreShift

open Utils WorkQueue

variable {json : Json}

/-! ## Routing -/

/-- The command of an `Exec`, with the client's uid. -/
def Request.command : Request → Option (UInt32 × Command)
  | .exec uid cmd => some (uid, cmd)
  | _ => none

/-- What the command of a client becomes under the number `id`. -/
def Command.task (id : JobId) (cmd : Command) : Task := ⟨id, cmd.mapToExec.1, cmd.mapToExec.2⟩

/-- The tasks of some commands, numbered from `first`. -/
def numbered (first : JobId) : List (UInt32 × Command) → List Task
  | [] => []
  | (_, cmd) :: cmds => cmd.task first :: numbered (first + 1) cmds

/-- The requests among the traffic. -/
def requestsIn (t : List Traffic) : List Request :=
  t.filterMap fun
    | .request _ req _ => some req
    | .response .. => none

/-- The commands among the traffic. -/
def commandsIn (t : List Traffic) : List (UInt32 × Command) :=
  (requestsIn t).filterMap Request.command

theorem requestsIn_append (t u : List Traffic) :
    requestsIn (t ++ u) = requestsIn t ++ requestsIn u := List.filterMap_append

namespace Router

/-- The requests, one after the other. -/
def handleAll (r : Router) : List Request → Router × List Action
  | [] => (r, [])
  | req :: reqs =>
    let one := r.handle req
    let rest := handleAll one.1 reqs
    (rest.1, one.2.toList ++ rest.2)

theorem handleAll_cons (r : Router) (req : Request) (reqs : List Request) :
    r.handleAll (req :: reqs) = (((r.handle req).1.handleAll reqs).1,
      routed r.nextId req :: ((r.handle req).1.handleAll reqs).2) := by
  rw [handleAll, handle_routed]
  rfl

theorem handleAll_append (r : Router) (reqs reqs' : List Request) :
    r.handleAll (reqs ++ reqs') =
      (((r.handleAll reqs).1.handleAll reqs').1,
        (r.handleAll reqs).2 ++ ((r.handleAll reqs).1.handleAll reqs').2) := by
  induction reqs generalizing r with
  | nil => rfl
  | cons req reqs ih =>
    rw [List.cons_append, handleAll_cons, handleAll_cons, ih, List.cons_append]

/-- The commands become submissions, numbered in their order. -/
theorem handleAll_tasks (r : Router) (reqs : List Request) :
    (r.handleAll reqs).2.filterMap Action.submitTask =
      numbered r.nextId (reqs.filterMap Request.command) := by
  induction reqs generalizing r with
  | nil => rfl
  | cons req reqs ih =>
    rw [handleAll_cons]
    dsimp only
    rw [filterMap_cons_eq, filterMap_cons_eq, ih]
    cases req with
    | exec uid cmd => cases cmd <;> rfl
    | getResult | cancel => rfl

/-- The router never asks for a poll. -/
theorem handleAll_polls (r : Router) (reqs : List Request) :
    ∀ a ∈ (r.handleAll reqs).2, a.isPoll = false := by
  induction reqs generalizing r with
  | nil => exact fun a ha => absurd ha List.not_mem_nil
  | cons req reqs ih =>
    rw [handleAll_cons]
    intro a ha
    rcases List.mem_cons.mp ha with rfl | ha
    · cases req <;> rfl
    · exact ih _ a ha

end Router

/-! ## The inputs of the loop -/

/-- What a round takes up is routed in the order in which it was taken up. -/
theorem IpcModule.receiveAll_routed (ipc : IpcModule) (k : Sockets)
    (conns : List (RawFd × Connection)) :
    (ipc.receiveAll json conns).ipc.router = (ipc.router.handleAll
        (requestsIn (k.run (ipc.receiveAll json conns).ops).2)).1 ∧
      (ipc.receiveAll json conns).actions = (ipc.router.handleAll
        (requestsIn (k.run (ipc.receiveAll json conns).ops).2)).2 := by
  induction conns generalizing ipc k with
  | nil => exact ⟨rfl, rfl⟩
  | cons c conns ih =>
    rcases c with ⟨fd, conn⟩
    unfold receiveAll
    rcases receive_cases json ipc fd conn with hone | ⟨req, hone⟩
    · -- the connection is closed without a trace in the traffic
      rw [hone]
      exact ih ipc ⟨(k.peers.insert fd k.accepted).remove fd, k.accepted + 1⟩
    · rw [hone]
      have hrest := ih (ipc.take fd req) ⟨k.peers.insert fd k.accepted, k.accepted + 1⟩
      have htraffic : (k.run (.accepted fd ::
          [.kept fd req (Router.routed ipc.router.nextId req)] ++
          ((ipc.take fd req).receiveAll json conns).ops)).2 =
          .request k.accepted req (Router.routed ipc.router.nextId req) ::
            (Sockets.run ⟨k.peers.insert fd k.accepted, k.accepted + 1⟩
              ((ipc.take fd req).receiveAll json conns).ops).2 := by
        dsimp only [Sockets.run, Sockets.apply, List.append, List.cons_append, List.nil_append]
        rw [HashMap.get_insert_self]
        rfl
      dsimp only
      rw [htraffic]
      show _ = ((ipc.router.handleAll (req :: requestsIn _)).1) ∧
        _ = ((ipc.router.handleAll (req :: requestsIn _)).2)
      rw [Router.handleAll_cons]
      exact ⟨hrest.1, congrArg _ hrest.2⟩

/-- A response is sent at most once, and its descriptor is closed after it. -/
theorem IpcModule.respond_ops (json : Json) (ipc : IpcModule) (id : JobId) (resp : WireResponse)
    (output : List WriteAnswer) : (ipc.respond json id resp output).2 = [] ∨
      ∃ fd bytes, (ipc.respond json id resp output).2 = [.sent fd resp bytes, .closed fd] := by
  unfold respond
  split
  · exact Or.inl rfl
  · dsimp only
    split
    · exact Or.inl rfl
    · split
      · exact Or.inl rfl
      · exact Or.inr ⟨_, _, rfl⟩

theorem IpcModule.respond_router (json : Json) (ipc : IpcModule) (id : JobId) (resp : WireResponse)
    (output : List WriteAnswer) : (ipc.respond json id resp output).1.router = ipc.router := by
  unfold respond
  split
  · rfl
  · dsimp only
    split
    · rfl
    · split <;> rfl

namespace Daemon

/-- A pop takes no request up and leaves the router alone. -/
theorem PopStep.requests {d d' : Daemon} {l : DaemonPop} (h : PopStep json d l d') :
    d'.ipc.router = d.ipc.router ∧ requestsIn l.2 = [] := by
  rcases h.answer with ⟨output, hans⟩
  cases hl : answerOf l with
  | none =>
    rw [hl] at hans
    rw [hans.1, hans.2.2]
    exact ⟨rfl, rfl⟩
  | some r =>
    rw [hl] at hans
    dsimp only at hans
    rw [hans.1, hans.2.2]
    refine ⟨IpcModule.respond_router json d.ipc r.1 r.2 output, ?_⟩
    rcases IpcModule.respond_ops json d.ipc r.1 r.2 output with hops | ⟨fd, bytes, hops⟩
    · rw [hops]
      rfl
    · rw [hops]
      dsimp only [Sockets.run, Sockets.apply]
      cases d.sockets.peers.get fd <;> rfl

/-- A round feeds what it takes up, routed. -/
theorem RoundStep.requests {d d' : Daemon} {l : RoundLog} (h : RoundStep json d l d') :
    d'.ipc.router = (d.ipc.router.handleAll (requestsIn l.2)).1 ∧
      l.1.1 = (d.ipc.router.handleAll (requestsIn l.2)).2 := by
  cases h with
  | round events hidle hfresh =>
    rcases IpcModule.handleEvents_eq json d.ipc events with ⟨conns, -, hconns⟩
    unfold Daemon.round
    rw [hconns]
    exact IpcModule.receiveAll_routed d.ipc d.sockets conns

/-- The labels of the loop inside. -/
def loopLabels (t : List DaemonLabel) : List Label := t.map DaemonLabel.loop

/-- All that happened on the connections. -/
def trafficOf (t : List DaemonLabel) : List Traffic := t.flatMap DaemonLabel.traffic

theorem trafficOf_append (t u : List DaemonLabel) :
    trafficOf (t ++ u) = trafficOf t ++ trafficOf u := List.flatMap_append

/-- The loop inside the daemon takes a step of its own at every step of the daemon. -/
theorem Step.loop {d d' : Daemon} {l : DaemonLabel} (h : Step json d l d') (hd : d.Tidy) :
    Loop.Step EffectExecutor.executor d.loop l.loop d'.loop := by
  cases h with
  | round hround =>
    rcases (hround.took hd).1 with ⟨T, hT⟩
    rw [hT.feed]
    refine .feed hT.idle ?_ hT.ready
    intro a ha
    have hask := hT.requests a ha
    cases a <;> first | rfl | cases hask
  | pop hpop => exact .pop hpop.loop

theorem loop_run {t : List DaemonLabel} {d : Daemon} (h : Run (Step json) .new t d) :
    Run (Loop.Step EffectExecutor.executor) Daemon.new.loop (loopLabels t) d.loop := by
  have hinit : Daemon.new.Tidy := ⟨.new, by decide⟩
  have hkeep : ∀ d l d', d.Tidy → Step json d l d' → d'.Tidy := fun _ _ _ hd hs => hs.tidy hd
  have hloop : ∀ d l d', d.Tidy → Step json d l d' →
      Loop.Step EffectExecutor.executor d.loop l.loop d'.loop := fun _ _ _ hd hs => hs.loop hd
  exact (h.mono_of_invariant hkeep hloop hinit).map Daemon.loop DaemonLabel.loop
    fun _ _ _ hs => hs

/-- The inputs of the loop are the requests, routed in the order in which they were taken up. -/
structure Routed (past : List DaemonLabel) (d : Daemon) : Prop where
  router : d.ipc.router = (Router.new.handleAll (requestsIn (trafficOf past))).1
  fed : Label.fed (loopLabels past) = (Router.new.handleAll (requestsIn (trafficOf past))).2

theorem Routed.step {past : List DaemonLabel} {d d' : Daemon} {l : DaemonLabel}
    (h : Routed past d) (hs : Step json d l d') : Routed (past ++ [l]) d' := by
  have hlabels : loopLabels (past ++ [l]) = loopLabels past ++ [l.loop] := List.map_append
  have htraffic : trafficOf (past ++ [l]) = trafficOf past ++ l.traffic := by
    rw [trafficOf_append]
    exact congrArg _ (List.append_nil _)
  -- what one step adds: only a round takes requests up
  have hone : d'.ipc.router = (d.ipc.router.handleAll (requestsIn l.traffic)).1 ∧
      Label.fed [l.loop] = (d.ipc.router.handleAll (requestsIn l.traffic)).2 := by
    cases hs with
    | round hround =>
      refine ⟨hround.requests.1, ?_⟩
      show Label.fed [.feed _ _] = _
      rw [Label.fed_feed]
      exact hround.requests.2
    | pop hpop =>
      have hpop := hpop.requests
      show _ = (d.ipc.router.handleAll (requestsIn _)).1 ∧ [] = _
      dsimp only [DaemonLabel.traffic]
      rw [hpop.2, hpop.1]
      exact ⟨rfl, rfl⟩
  rw [h.router] at hone
  constructor
  · rw [htraffic, requestsIn_append, Router.handleAll_append, hone.1]
  · rw [hlabels, htraffic, Label.fed_append, requestsIn_append, Router.handleAll_append, h.fed,
      hone.2]

theorem routed_run {t : List DaemonLabel} {d : Daemon} (h : Run (Step json) .new t d) :
    Routed t d := by
  have hinit : Routed [] .new := ⟨rfl, rfl⟩
  exact h.invariant_trace [] (fun _ _ _ _ hd hs => hd.step hs) hinit

end Daemon

/-! ## What is started -/

/-- A numbered task is that of a command. -/
theorem mem_numbered {first : JobId} {cmds : List (UInt32 × Command)} {task : Task}
    (h : task ∈ numbered first cmds) : ∃ id uid cmd, (uid, cmd) ∈ cmds ∧ task = cmd.task id := by
  induction cmds generalizing first with
  | nil => cases h
  | cons e cmds ih =>
    rcases List.mem_cons.mp h with rfl | h
    · exact ⟨first, e.1, e.2, List.mem_cons_self, rfl⟩
    · rcases ih h with ⟨id, uid, cmd, hmem, heq⟩
      exact ⟨id, uid, cmd, List.mem_cons_of_mem _ hmem, heq⟩

theorem length_numbered (first : JobId) (cmds : List (UInt32 × Command)) :
    (numbered first cmds).length = cmds.length := by
  induction cmds generalizing first with
  | nil => rfl
  | cons e cmds ih =>
    show (numbered (first + 1) cmds).length + 1 = _
    rw [ih, List.length_cons]

namespace Daemon

/-- The submissions are the commands, numbered from 1. -/
theorem tasks_run {t : List DaemonLabel} {d : Daemon} (h : Run (Step json) .new t d) :
    tasksSubmitted (loopLabels t) = numbered 1 (commandsIn (trafficOf t)) ∧
      ∀ a ∈ Label.fed (loopLabels t), a.isPoll = false := by
  have hrouted := (routed_run h).fed
  constructor
  · rw [tasksSubmitted, hrouted, Router.handleAll_tasks]
    rfl
  · rw [hrouted]
    exact Router.handleAll_polls _ _

end Daemon

/-- For every run of the daemon: the executor is asked to start commands that clients sent,
numbered from 1 in the order in which they were taken up, and in that order. Whenever the queue
is empty, these are the first 64 commands: they are the jobs of the daemon for good, and for
every later command a `Rejected` was handed out, in the order of the commands. -/
theorem daemon_serves_requests {t : List DaemonLabel} {d : Daemon}
    (hrun : Run (Daemon.Step json) .new t d) :
    (tasksStarted (Daemon.loopLabels t)).Sublist
        (numbered 1 (commandsIn (Daemon.trafficOf t))) ∧
      (d.loop.queue = [] →
        tasksStarted (Daemon.loopLabels t) =
          (numbered 1 (commandsIn (Daemon.trafficOf t))).take 64 ∧
        (∀ id, (d.loop.world.state.jobs.get id).isSome = true ↔
          id ∈ ((numbered 1 (commandsIn (Daemon.trafficOf t))).take 64).map Task.id) ∧
        d.loop.world.dispatcher.admission.activeJobs =
          min 64 (commandsIn (Daemon.trafficOf t)).length ∧
        (((numbered 1 (commandsIn (Daemon.trafficOf t))).drop 64).map Task.id).Sublist
          (refusalsTold (Daemon.loopLabels t))) := by
  have hloop := Daemon.loop_run hrun
  rcases Daemon.tasks_run hrun with ⟨htasks, hpolls⟩
  rw [← htasks]
  refine ⟨(InOrder.run hloop).tasks, ?_⟩
  intro hq
  have hserving := Serving.run hloop hpolls
  have ⟨hstarted, hjobs, hactive⟩ := hserving.idle hq
  rw [← length_numbered 1, ← htasks]
  exact ⟨hstarted, hjobs, hactive, hserving.idle_refused hq⟩

namespace Daemon

/-- The run up to `working`. -/
noncomputable def workingLabels : List DaemonLabel :=
  .round busy.1 :: busy.2.settle.1.map .pop

theorem daemon_serves_requests_working :
    tasksStarted (loopLabels workingLabels) =
        (numbered 1 (commandsIn (trafficOf workingLabels))).take 64 ∧
      commandsIn (trafficOf workingLabels) = [(1000, .cmd "a" [])] ∧
      working.loop.world.dispatcher.admission.activeJobs = min 64 1 := by
  have hserved := (daemon_serves_requests working_run).2 (by decide)
  exact ⟨hserved.1, by decide, hserved.2.2.1⟩

end Daemon

/-- Every child that a start creates, whether it is returned or lost, is given the image of the
options' context. -/
theorem spawnStart_image {jobId : JobId} {opts : SpawnOptions} {ans : SpawnAnswers} {pid : Int32}
    {program : ChildProgram}
    (h : (pid, program) ∈ (spawnStart jobId opts ans).ops.flatMap SpawnOp.children) :
    program.image = opts.ctx.image ans.environ := by
  cases hpipes : (opts.makePipes ans).result with
  | error e =>
    rw [spawnStart_of_no_pipes hpipes] at h
    rw [(SpawnOptions.makePipes_fails hpipes).2.2.1] at h
    cases h
  | ok pipes =>
    have hops := (SpawnOptions.makePipes_ok hpipes).2.2.2.2
    cases hlaunch : ans.launch opts pipes with
    | error e =>
      rw [spawnStart_of_no_launch hpipes hlaunch, hops] at h
      simp [Pipes.closeAll] at h
    | ok u =>
      rw [spawnStart_of_launch hpipes hlaunch, hops] at h
      have hleft : (handOver jobId opts pipes ans.nonblock).ops.flatMap SpawnOp.children = [] := by
        cases hresult : (handOver jobId opts pipes ans.nonblock).result with
        | error e =>
          rcases (handOver_fails hpipes hresult).1 with ⟨fds, hdropped, -⟩
          rw [hdropped]
          simp
        | ok drain =>
          rw [(handOver_ok hpipes hresult).1]
          simp
      rw [List.flatMap_append, hleft] at h
      simp [SpawnOp.children] at h
      rw [h.2]
      exact ans.program_image opts pipes

/-- The strings that a child is given are those of the command, but for those with a NUL in them,
and no more than 63. -/
theorem Command.image (id : JobId) (cmd : Command) (environ : List CPointer) :
    let image := (EffectExecutor.startOptions (cmd.task id).exec (cmd.task id).policy).ctx.image
      environ
    image.path.text = cmd.executable ∧ image.envp = environ ∧
      denotes image.argv = some (((cmd.executable :: cmd.service :: cmd.args).filter
        fun s => NUL ∉ s.toList).take 63) := by
  have hargv : (EffectExecutor.startOptions (cmd.task id).exec (cmd.task id).policy).ctx =
      .new (cmd.executable :: cmd.service :: cmd.args) none none := by
    rw [← cmd.mapToExec_argv]
    rfl
  have hnew : (cmd.executable :: cmd.service :: cmd.args).filterMap CString.new =
      ⟨cmd.executable, cmd.executable_noNul⟩ :: (cmd.service :: cmd.args).filterMap CString.new :=
    List.filterMap_cons_some (CString.new_of_not_mem cmd.executable_noNul)
  have hctx : (ExecContext.new (cmd.executable :: cmd.service :: cmd.args) none none).argv =
      (cmd.executable :: cmd.service :: cmd.args).filterMap CString.new := by
    show (if _ then _ else _) = _
    rw [if_neg (by rw [hnew]; exact List.cons_ne_nil _ _)]
  rw [hargv]
  refine ⟨?_, rfl, ?_⟩
  · show (ExecContext.exe _).text = _
    unfold ExecContext.exe
    simp only [hctx, hnew, List.head_cons]
  · show denotes (ExecContext.pointers _).items = _
    rw [ExecContext.denotes_pointers, hctx, CString.filterMap_new]

/-- For every run of the daemon and every start in it, whatever the system answers: each child,
also one that is lost on the way, executes `cmd` or `dumpsys` of the system with the service and
the arguments of one command that a client sent, less the strings with a NUL and those after the
63rd, and in the environment of the daemon. -/
theorem children_confined {t : List DaemonLabel} {d : Daemon} {task : Task} {ans : SpawnAnswers}
    {pid : Int32} {program : ChildProgram} (hrun : Run (Daemon.Step json) .new t d)
    (htask : task ∈ tasksStarted (Daemon.loopLabels t))
    (hchild : (pid, program) ∈ (spawnStart task.id
      (EffectExecutor.startOptions task.exec task.policy) ans).ops.flatMap SpawnOp.children) :
    ∃ uid cmd, (uid, cmd) ∈ commandsIn (Daemon.trafficOf t) ∧
      program.image.path.text = cmd.executable ∧
      program.image.envp = ans.environ ∧
      denotes program.image.argv = some (((cmd.executable :: cmd.service :: cmd.args).filter
        fun s => NUL ∉ s.toList).take 63) := by
  have hmem : task ∈ numbered 1 (commandsIn (Daemon.trafficOf t)) := by
    rw [← (Daemon.tasks_run hrun).1]
    exact (InOrder.run (Daemon.loop_run hrun)).tasks.subset htask
  rcases mem_numbered hmem with ⟨id, uid, cmd, hcmd, rfl⟩
  rw [spawnStart_image hchild]
  exact ⟨uid, cmd, hcmd, cmd.image id ans.environ⟩

namespace Daemon

theorem children_confined_working :
    ∃ pid program, (pid, program) ∈ (spawnStart 1 (EffectExecutor.startOptions
        (Command.task 1 (.cmd "a" [])).exec (Command.task 1 (.cmd "a" [])).policy)
        .smooth).ops.flatMap SpawnOp.children ∧
      ∃ uid cmd, (uid, cmd) ∈ commandsIn (trafficOf workingLabels) ∧
        program.image.path.text = cmd.executable ∧
        program.image.envp = SpawnAnswers.smooth.environ ∧
        denotes program.image.argv = some (((cmd.executable :: cmd.service :: cmd.args).filter
          fun s => NUL ∉ s.toList).take 63) := by
  have htask : Command.task 1 (.cmd "a" []) ∈ tasksStarted (loopLabels workingLabels) := by decide
  exact ⟨_, _, List.mem_cons_self, children_confined working_run htask List.mem_cons_self⟩

end Daemon

/-! ## No deadline -/

/-- An action that neither sets a deadline nor comes from one. -/
def Action.untimed : Action → Bool
  | .submit _ _ _ policy | .admitted _ _ _ policy => policy.timeoutMs.isNone
  | .timeoutReached _ | .killDeadlineReached _ => false
  | _ => true

theorem Command.untimed (cmd : Command) : cmd.mapToExec.2.timeoutMs = none := by
  cases cmd <;> rfl

/-- No job has a deadline, and none is about to get one. -/
structure Untimed {σ : Type} (c : Loop σ) : Prop where
  timers : ∀ id, c.world.dispatcher.timeout.tracking.get id = none
  queue : ∀ a ∈ c.queue, a.untimed = true

theorem JobView.Outcome.untimed {id : JobId} {v v' : JobView} {o : PopLog} {a : Action}
    {out : List Action} (h : v.Outcome id o a v' out) (hv : v.timer = none)
    (ha : a.untimed = true) : v'.timer = none ∧ ∀ b ∈ out, b.untimed = true := by
  cases h with
  | admitted heffs =>
    have hnone := Option.isNone_iff_eq_none.mp ha
    simp [onAdmitted, hnone, hv, Action.untimed]
  | letIn => simpa [Action.untimed, hv] using ha
  | started | startedAbsent => simp [interests, Action.untimed, hv]
  | timedOut | graceOver => cases ha
  | _ => simp [Action.untimed, hv]

theorem Untimed.pop {σ α : Type} {E : Executor σ α} {c c' : Loop σ} {l : Action × PopLog}
    (h : Untimed c) (hpop : Pop (World.Step E) c l c') : l.1.untimed = true ∧ Untimed c' := by
  rcases pop_iff.mp hpop with ⟨rest, out, hq₀, hq₁, hstep⟩
  have hr := hstep.reacts
  have hl : l.1.untimed = true := h.queue _ (hq₀ ▸ List.mem_cons_self)
  have hone := hr.outcome.untimed (h.timers l.1.jobId) hl
  refine ⟨hl, ?_, ?_⟩
  · intro id
    show (c'.world.view id).timer = none
    by_cases hid : id = l.1.jobId
    · rw [hid, hr.own.timer]
      exact hone.1
    · exact (hr.others id hid).timer.trans (h.timers id)
  · rw [hq₁]
    intro b hb
    rcases List.mem_append.mp hb with hb | hb
    · exact h.queue b (hq₀ ▸ List.mem_cons_of_mem _ hb)
    · exact hone.2 b hb

namespace Daemon

theorem Took.untimed {d d₁ : Daemon} {l : RoundLog} {T : List Ticket} (h : d.Took l d₁ T)
    (hd : Untimed d.loop) : Untimed d₁.loop := by
  constructor
  · rw [h.feed, Loop.feed_world d.loop _ h.ready]
    exact hd.timers
  · rcases Loop.feed_queue d.loop l.1.1 h.ready with ⟨ready, hqueue, hio⟩
    rw [h.feed, hqueue]
    intro a ha
    rcases List.mem_append.mp ha with ha | ha
    · rw [h.actions] at ha
      rcases List.mem_map.mp ha with ⟨ticket, hmem, rfl⟩
      rcases h.routed ticket hmem with ⟨id, hrouted⟩
      rw [hrouted]
      cases ticket.request with
      | exec uid cmd => exact Option.isNone_iff_eq_none.mpr cmd.untimed
      | getResult | cancel => rfl
    · rcases hio a ha with ⟨id, rfl⟩
      rfl

theorem Step.untimed {d d' : Daemon} {l : DaemonLabel} (h : Step json d l d') (hd : d.Tidy)
    (huntimed : Untimed d.loop) : Untimed d'.loop := by
  cases h with
  | round hround =>
    rcases (hround.took hd).1 with ⟨T, hT⟩
    exact hT.untimed huntimed
  | pop hpop => exact (huntimed.pop hpop.loop).2

theorem untimed_run {t : List DaemonLabel} {d : Daemon} (h : Run (Step json) .new t d) :
    Untimed d.loop := by
  let inv : Daemon → Prop := fun d => d.Tidy ∧ Untimed d.loop
  have hinit : inv .new := by
    refine ⟨⟨.new, by decide⟩, ⟨fun _ => HashMap.get_empty _, ?_⟩⟩
    exact fun a ha => absurd ha List.not_mem_nil
  have hstep : ∀ d l d', inv d → Step json d l d' → inv d' :=
    fun _ _ _ hd hs => ⟨hs.tidy hd.1, hs.untimed hd.1 hd.2⟩
  have hinv : inv d := h.invariant hstep hinit
  exact hinv.2

end Daemon

/-- For every run of the daemon: it always sleeps until a descriptor is ready, whatever the clock
says, and no deadline of a job is ever handled. -/
theorem daemon_waits_for_descriptors {t : List DaemonLabel} {d : Daemon}
    (hrun : Run (Daemon.Step json) .new t d) :
    (∀ order now, d.loop.world.dispatcher.computeTimeoutMs order now = -1) ∧
      ∀ l, .pop l ∈ t → ∀ id, l.1.1 ≠ .timeoutReached id ∧ l.1.1 ≠ .killDeadlineReached id := by
  constructor
  · exact fun order _ =>
      TimeoutPolicyModule.computeTimeoutMs_idle order (Daemon.untimed_run hrun).timers
  · intro l hl id
    rcases hrun.exists_of_mem hl with ⟨t₁, d₁, d₂, t₂, -, hrun₁, hs, -⟩
    cases hs with
    | pop hpop =>
      have huntimed := ((Daemon.untimed_run hrun₁).pop hpop.loop).1
      constructor <;> (intro heq; rw [heq] at huntimed; cases huntimed)

namespace Daemon

theorem daemon_waits_for_descriptors_working :
    (∀ order now, working.loop.world.dispatcher.computeTimeoutMs order now = -1) ∧
      ∀ l, .pop l ∈ workingLabels → ∀ id,
        l.1.1 ≠ .timeoutReached id ∧ l.1.1 ≠ .killDeadlineReached id :=
  daemon_waits_for_descriptors working_run

end Daemon

end CoreShift
