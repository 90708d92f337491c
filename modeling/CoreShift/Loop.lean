import CoreShift.Core.Dispatch
import CoreShift.Utils.WorkQueue

/-!
# The core loop

The `while let Some(action) = queue.pop_front()` loop of `run_daemon`, for any executor.

An `Executor` has a state and answers effects with events; which event may answer which
effect is part of the structure. What the operating system contributes to an answer is the
extra argument `ans`, chosen anew for every pop, so that quantifying over runs quantifies
over all answers.

A `World` is everything an action can read or write. The loop is the work queue machine of
`Utils.WorkQueue` over it, together with the step that feeds the next batch of inputs into
an empty queue.
-/

namespace CoreShift

open Utils WorkQueue

/-! ## Executors -/

/-- The events that can answer an effect. -/
def Answers : Effect → Option Event → Prop
  | .startProcess id _ _, ev =>
    (∃ process io, ev = some (.processStarted id process io)) ∨
      ∃ err, ev = some (.processSpawnFailed id err)
  | .pollProcess id _, ev => ev = none ∨ ∃ status, ev = some (.processExited id status)
  | _, ev => ev = none

/-- An executor with state `σ` that reads answers `α` of the operating system. -/
structure Executor (σ α : Type) where
  apply : σ → Effect → α → σ × Option Event
  answers : ∀ x e ans, Answers e (apply x e ans).2

/-! ## One action -/

/-- All that processing an action reads and writes. -/
structure World (σ : Type) where
  dispatcher : Dispatcher
  state : ExecutionState
  exec : σ

/-- What is observable of one pop: the clock it read, the effects it resolved to, the
events that answered them, and the actions handed to the IPC module. -/
structure PopLog where
  now : Instant
  effects : List Effect
  events : List Event
  ipcActs : List Action
deriving DecidableEq

/-- A world after some effects, the events they caused and the actions these asked for. -/
structure Applied (σ : Type) where
  world : World σ
  events : List Event
  actions : List Action

namespace World

variable {σ α : Type}

/-- Applies effects in order, feeding each answer back through the dispatcher. -/
def applyEffects (E : Executor σ α) (ans : α) (w : World σ) : List Effect → Applied σ
  | [] => ⟨w, [], []⟩
  | e :: es =>
    let (exec, answer) := E.apply w.exec e ans
    match answer with
    | none => applyEffects E ans { w with exec := exec } es
    | some event =>
      let d := w.dispatcher.dispatchEvent w.state event
      let rest := applyEffects E ans ⟨d.dispatcher, d.state, exec⟩ es
      ⟨rest.world, event :: rest.events, d.actions ++ rest.actions⟩

/-- The loop body: dispatch, resolve on the new state, apply. The actions asked for by
events are queued before those returned by `dispatch`. -/
def process (E : Executor σ α) (amb : Ambient) (ans : α) (w : World σ) (a : Action) :
    World σ × List Action × PopLog :=
  let d := w.dispatcher.dispatch amb w.state a
  let resolved := Core.resolveEffects d.state [a]
  let applied := applyEffects E ans ⟨d.dispatcher, d.state, w.exec⟩ resolved.2
  (applied.world, applied.actions ++ d.actions,
    ⟨amb.now, resolved.2, applied.events, resolved.1⟩)

/-- The reaction to an action, for some clock and some answer of the operating system. -/
def Step (E : Executor σ α) (w : World σ) (a : Action) (o : PopLog) (out : List Action)
    (w' : World σ) : Prop :=
  ∃ amb ans, process E amb ans w a = (w', out, o)

end World

/-! ## The loop -/

/-- The state of the loop: a world and the queue of actions. -/
abbrev Loop (σ : Type) := Config (World σ) Action

/-- What a step of the loop shows. -/
inductive Label
  | pop (action : Action) (log : PopLog)
  | feed (actions : List Action) (events : List Event)
deriving DecidableEq

namespace Label

/-- The pops among some labels. -/
def pops (t : List Label) : List (Action × PopLog) :=
  t.filterMap fun
    | .pop a log => some (a, log)
    | .feed _ _ => none

/-- The actions fed from outside among some labels. -/
def fed (t : List Label) : List Action :=
  t.flatMap fun
    | .pop _ _ => []
    | .feed acts _ => acts

end Label

/-- The actions that enter the loop from outside: requests, timers, and polls. -/
def Action.isInput : Action → Bool
  | .submit .. | .control .. | .query .. | .timeoutReached .. | .killDeadlineReached ..
  | .pollProcess .. => true
  | _ => false

/-- The event reported for a ready descriptor. -/
def Event.isReady : Event → Bool
  | .jobFdReady .. => true
  | _ => false

namespace Loop

variable {σ α : Type}

/-- Dispatches events in order and collects the actions they ask for. -/
def dispatchEvents (d : Dispatcher) (state : ExecutionState) : List Event → Dispatched
  | [] => ⟨d, state, []⟩
  | event :: events =>
    let one := d.dispatchEvent state event
    let rest := dispatchEvents one.dispatcher one.state events
    { rest with actions := one.actions ++ rest.actions }

/-- The queue an iteration of `run_daemon` starts with: the actions of the IPC module, then
those of the reactor's events. -/
def feed (c : Loop σ) (acts : List Action) (events : List Event) : Loop σ :=
  let d := dispatchEvents c.world.dispatcher c.world.state events
  ⟨⟨d.dispatcher, d.state, c.world.exec⟩, acts ++ d.actions⟩

/-- One pop, for a given clock and a given answer. -/
def pop (E : Executor σ α) (amb : Ambient) (ans : α) (c : Loop σ) :
    Option ((Action × PopLog) × Loop σ) :=
  match c.queue with
  | [] => none
  | a :: rest =>
    let r := World.process E amb ans c.world a
    some ((a, r.2.2), ⟨r.1, rest ++ r.2.1⟩)

/-- A step of the loop: a pop, or a batch of inputs once the queue is empty. -/
inductive Step (E : Executor σ α) : Loop σ → Label → Loop σ → Prop
  | pop {c a log c'} : Pop (World.Step E) c (a, log) c' → Step E c (.pop a log) c'
  | feed {c : Loop σ} {acts events} : c.queue = [] → (∀ a ∈ acts, a.isInput = true) →
      (∀ ev ∈ events, ev.isReady = true) → Step E c (.feed acts events) (c.feed acts events)

/-- The loop before its first input. -/
def init (maxJobs : ℕ) (exec : σ) : Loop σ := ⟨⟨.new maxJobs, .new, exec⟩, []⟩

/-- Pops as long as there are actions and answers. -/
def runPops (E : Executor σ α) : List (Ambient × α) → Loop σ →
    List (Action × PopLog) × Loop σ
  | [], c => ([], c)
  | (amb, ans) :: envs, c =>
    match pop E amb ans c with
    | none => ([], c)
    | some (l, c') =>
      let r := runPops E envs c'
      (l :: r.1, r.2)

/-- Feeds inputs and pops as long as there are actions and answers. -/
def batch (E : Executor σ α) (acts : List Action) (envs : List (Ambient × α)) (c : Loop σ) :
    List (Action × PopLog) × Loop σ :=
  runPops E envs (c.feed acts [])

/-- The labels of some pops. -/
def popLabels (t : List (Action × PopLog)) : List Label := t.map fun l => .pop l.1 l.2

theorem pop_eq_some {E : Executor σ α} {amb : Ambient} {ans : α} {c c' : Loop σ}
    {l : Action × PopLog} (h : pop E amb ans c = some (l, c')) : Pop (World.Step E) c l c' := by
  unfold pop at h
  rw [pop_iff]
  cases hq : c.queue with
  | nil => rw [hq] at h; cases h
  | cons a rest =>
    rw [hq] at h
    cases h
    exact ⟨rest, _, rfl, rfl, amb, ans, rfl⟩

/-- What `runPops` computes is a run of pops. -/
theorem runPops_run (E : Executor σ α) (envs : List (Ambient × α)) (c : Loop σ) :
    Run (Pop (World.Step E)) c (runPops E envs c).1 (runPops E envs c).2 := by
  induction envs generalizing c with
  | nil => exact .nil c
  | cons env envs ih =>
    unfold runPops
    cases hpop : pop E env.1 env.2 c with
    | none => exact .nil c
    | some r => exact .cons (pop_eq_some hpop) (ih r.2)

/-- A run of pops is a run of the loop. -/
theorem run_of_pops {E : Executor σ α} {c c' : Loop σ} {t : List (Action × PopLog)}
    (h : Run (Pop (World.Step E)) c t c') : Run (Step E) c (popLabels t) c' :=
  h.map (fun c => c) (fun l : Action × PopLog => Label.pop l.1 l.2) fun _ _ _ hs => .pop hs

/-- A batch is a run of the loop. -/
theorem batch_run (E : Executor σ α) {acts : List Action} (envs : List (Ambient × α))
    {c : Loop σ} (hq : c.queue = []) (hacts : ∀ a ∈ acts, a.isInput = true) :
    Run (Step E) c (.feed acts [] :: popLabels (batch E acts envs c).1) (batch E acts envs c).2 :=
  .cons (.feed hq hacts fun _ h => absurd h List.not_mem_nil) (run_of_pops (runPops_run E envs _))

end Loop
end CoreShift
