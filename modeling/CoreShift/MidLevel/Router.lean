import CoreShift.HighLevel.Api

/-!
# The router

`mid_level/router.rs`: a decoded request becomes one action of the core. The uid of the peer is
part of the request; only `Exec` carries it on, as the owner of the job.
-/

namespace CoreShift

/-- A decoded request, with the uid of the peer that sent it. -/
inductive Request
  | exec (uid : UInt32) (command : Command)
  | getResult (uid : UInt32) (id : JobId)
  | cancel (uid : UInt32) (id : JobId)
deriving DecidableEq, Repr

/-- The counter of job ids. -/
structure Router where
  nextId : JobId
deriving DecidableEq, Repr

namespace Router

def new : Router := ⟨1⟩

/-- `Router::next_id`; `fetch_add` wraps around. -/
def takeId (r : Router) : JobId × Router := (r.nextId, ⟨r.nextId + 1⟩)

/-- The gate of `Router::handle`. -/
def permits (cap : Capability) : Command → Bool
  | .cmd .. => cap.allowCmd
  | .dumpsys .. => cap.allowDumpsys

/-- `Router::handle`. -/
def handle (r : Router) : Request → Router × Option Action
  | .exec uid cmd =>
    if permits .default cmd then
      let (exec, policy) := cmd.mapToExec
      let (id, r) := r.takeId
      (r, some (.submit id uid exec policy))
    else (r, none)
  | .getResult _ id => (r, some (.query id))
  | .cancel _ id => (r, some (.control id .gracefulStop))

/-- The action a request stands for; `id` is the one an `Exec` is given. -/
def routed (id : JobId) : Request → Action
  | .exec uid cmd => .submit id uid cmd.mapToExec.1 cmd.mapToExec.2
  | .getResult _ id => .query id
  | .cancel _ id => .control id .gracefulStop

/-- The default capability permits every command, so every request is routed. -/
theorem handle_routed (r : Router) (req : Request) :
    (r.handle req).2 = some (routed r.nextId req) := by
  cases req with
  | exec uid cmd => cases cmd <;> rfl
  | getResult | cancel => rfl

end Router
end CoreShift
