import CoreShift.JobRuns

/-!
# The action loop runs empty

Each pop queues the follow-ups of its action, from `dispatch` and from the events that answer
its effects. `Action.weight` counts the pops that an action can lead to, its own included; the
follow-ups of an action weigh less than the action, whatever its job's entries and the answers
of the executor are. The heaviest action is a submission: it is let in, started and reported,
and asks for the three streams of its job; with the two log lines these are eight pops.
-/

namespace CoreShift

open Utils WorkQueue

variable {σ α : Type} {E : Executor σ α}

namespace Action

/-- The number of pops that an action can lead to. -/
def weight : Action → ℕ
  | .submit .. => 8
  -- the start, and the line in the log
  | .admitted .. => 7
  -- the report, and the three interests
  | .startProcess .. => 5
  | .pollProcess .. => 3
  | .control .. => 3
  | .finished .. => 2
  | .query .. => 2
  | .timeoutReached .. => 2
  | .killDeadlineReached .. => 2
  | _ => 1

theorem weight_le (a : Action) : a.weight ≤ 8 := by
  cases a <;> simp [weight]

theorem weight_pos (a : Action) : 0 < a.weight := by
  cases a <;> simp [weight]

end Action

/-- The follow-ups of an action weigh less than the action. -/
theorem JobView.Outcome.lighter {id : JobId} {v v' : JobView} {o : PopLog} {a : Action}
    {out : List Action} (h : v.Outcome id o a v' out) : total Action.weight out < a.weight := by
  cases h with
  | quiet =>
    show 0 < a.weight
    exact a.weight_pos
  | _ => simp [Action.weight, JobView.interests]

theorem World.Step.lighter (w : World σ) (a : Action) (o : PopLog) (out : List Action)
    (w' : World σ) (h : World.Step E w a o out w') : total Action.weight out < a.weight :=
  h.reacts.outcome.lighter

namespace Loop

/-- Popping goes on until the queue is empty or the answers have run out. -/
theorem runPops_stops (E : Executor σ α) (envs : List (Ambient × α)) (c : Loop σ) :
    (runPops E envs c).2.queue = [] ∨ (runPops E envs c).1.length = envs.length := by
  induction envs generalizing c with
  | nil => exact Or.inr rfl
  | cons env envs ih =>
    unfold runPops
    cases hpop : pop E env.1 env.2 c with
    | none =>
      left
      show c.queue = []
      unfold pop at hpop
      split at hpop
      · assumption
      · cases hpop
    | some r =>
      show (runPops E envs r.2).2.queue = [] ∨ (r.1 :: (runPops E envs r.2).1).length = _
      rw [List.length_cons, List.length_cons]
      rcases ih r.2 with hnil | hlen
      · exact Or.inl hnil
      · exact Or.inr (by omega)

end Loop

/-- From any world and any queue, a run of pops has at most eight pops for each action of the
queue; and given that many answers, whatever they are, the loop pops until the queue is empty. -/
theorem action_loop_runs_empty (E : Executor σ α) (c : Loop σ) :
    (∀ t c', Run (Pop (World.Step E)) c t c' → t.length ≤ 8 * c.queue.length) ∧
    ∀ envs : List (Ambient × α), 8 * c.queue.length ≤ envs.length →
      (Loop.runPops E envs c).2.queue = [] ∧
        (Loop.runPops E envs c).1.length ≤ 8 * c.queue.length := by
  have hheavy : total Action.weight c.queue ≤ 8 * c.queue.length :=
    total_le_mul Action.weight_le c.queue
  have hbound : ∀ t c', Run (Pop (World.Step E)) c t c' →
      t.length + c'.queue.length ≤ 8 * c.queue.length := by
    intro t c' h
    have hlen := length_le_weight World.Step.lighter h
    have hleft := length_le_total Action.weight_pos c'.queue
    omega
  refine ⟨fun t c' h => by have := hbound t c' h; omega, ?_⟩
  intro envs henvs
  have hrun := hbound _ _ (Loop.runPops_run E envs c)
  refine ⟨?_, by omega⟩
  rcases Loop.runPops_stops E envs c with hnil | hlen
  · exact hnil
  · -- all answers were used up, so nothing can be left
    have hzero : (Loop.runPops E envs c).2.queue.length = 0 := by omega
    exact List.length_eq_zero_iff.mp hzero

end CoreShift
