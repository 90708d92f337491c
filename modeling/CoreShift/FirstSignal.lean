import CoreShift.Captured
import CoreShift.Stops
import CoreShift.Turns

/-!
# The first signal of a timeout

The cancel policy of a job says what is sent when its time is up. `wait_loop` asks the policy; in
the core the action that tells of the timeout carries the id only, and what it queues is always
the same. The queue is first in, first out, so that the place of an action tells which step
handles it.
-/

namespace CoreShift

open Utils WorkQueue

variable {σ α : Type} {E : Executor σ α}

/-- The signal that is sent when an effect is applied. -/
def Effect.signal : Effect → Option Int32
  | .killProcess _ .gracefulStop _ _ => some SIGTERM
  | .killProcess _ .forceKill _ _ => some SIGKILL
  | _ => none

/-- The policy with which a pop admits the job. -/
def Label.admits (id : JobId) : Label → Option ExecPolicy
  | .pop (.admitted j _ _ policy) _ => if j = id then some policy else none
  | _ => none

namespace Loop.Moment

/-- The step that comes after `between` handles an action that this one queued. -/
def QueuedFor (m : Loop.Moment σ) (between : List (Loop.Moment σ)) : Prop :=
  m.before.queue.length ≤ between.length + 1 ∧ between.length < m.after.queue.length

end Loop.Moment

/-! ## In the core -/

/-- What a step queues is handled by the step at its place. -/
theorem Loop.Moment.QueuedFor.pops {m m' : Loop.Moment σ} {between : List (Loop.Moment σ)}
    (h : m.QueuedFor between)
    (hrun : Run (Loop.Step E) m.after (between.map Moment.label) m'.before)
    (hs : Loop.Step E m'.before m'.label m'.after) :
    ∃ a ∈ m.queued, ∃ o out, m'.label = .pop a o ∧
      World.Step E m'.before.world a o out m'.after.world := by
  have ⟨hfrom, hto⟩ := h
  let n := between.length
  obtain ⟨a, hdrop⟩ : ∃ a, m.after.queue.drop n = a :: m.after.queue.drop (n + 1) :=
    ⟨_, List.drop_eq_getElem_cons hto⟩
  have hmem : a ∈ m.queued := by
    have hplace : a ∈ m.after.queue.drop n := by
      rw [hdrop]
      exact List.mem_cons_self
    rw [show n = (m.before.queue.length - 1) + (n - (m.before.queue.length - 1)) by omega,
      ← List.drop_drop] at hplace
    exact List.mem_of_mem_drop hplace
  have hsplit : m.after.queue = m.after.queue.take n ++ m.after.queue.drop n :=
    (List.take_append_drop n _).symm
  have ⟨added, hfront⟩ := Loop.run_shifts hrun hsplit (by
    rw [List.length_map, List.length_take]
    omega)
  rw [hdrop] at hfront
  refine ⟨a, hmem, ?_⟩
  generalize m'.before = c at hs hfront ⊢
  generalize m'.label = l at hs ⊢
  generalize m'.after = c' at hs ⊢
  cases hs with
  | feed hempty =>
    rw [hempty] at hfront
    cases hfront
  | @pop b o _ hpop =>
    have ⟨rest, out, hq, _, hstep⟩ := pop_iff.mp hpop
    rw [hfront, List.cons_append, List.cons.injEq] at hq
    rw [hq.1]
    exact ⟨o, out, rfl, hstep⟩

section Outcome

variable {id : JobId} {v v' : JobView} {o : PopLog} {out : List Action}

end Outcome

variable {id : JobId} {maxJobs : ℕ} {x : σ} {c : Loop σ}

namespace EffectExecutor

end EffectExecutor
end CoreShift
