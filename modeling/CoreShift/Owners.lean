import CoreShift.Signals
import CoreShift.Stranded

/-!
# What a uid decides

The router drops the uid of a query and of a cancel, and no module of the core compares it with
the owner of a job. Results are safe all the same: since no job finishes, none is ever stored.
Signals are not: a cancel stops the job it names, whoever owns it. What does hold is that it
stops no other job, and that nothing but a cancel of the same round stops one.
-/

namespace CoreShift

open Utils WorkQueue

variable {σ α : Type} {E : Executor σ α} {json : Json}

/-! ## No results -/

/-- Nothing is stored, and no stored result is on its way to a client. -/
structure Resultless (c : Loop σ) : Prop where
  results : ∀ id, c.world.state.results.get id = none
  queue : ∀ a ∈ c.queue, ∀ id out, a ≠ .queryResult id (some out)

/-- Without a stored result, a query finds none, and only a `Finished` stores one. -/
theorem JobView.Outcome.resultless {id : JobId} {v v' : JobView} {o : PopLog} {a : Action}
    {out : List Action} (h : v.Outcome id o a v' out) (hv : v.stored = none)
    (ha : a.isFinish = false) :
    v'.stored = none ∧ ∀ b ∈ out, ∀ j res, b ≠ .queryResult j (some res) := by
  cases h with
  | finished => cases ha
  | queried hs => rw [hv] at hs; cases hs
  | _ => exact ⟨hv, by simp [JobView.interests]⟩

theorem Resultless.pop {c c' : Loop σ} {l : Action × PopLog} (h : Resultless c)
    (hpop : Pop (World.Step E) c l c') (ha : l.1.isFinish = false) : Resultless c' := by
  rcases pop_iff.mp hpop with ⟨rest, out, hq₀, hq₁, hstep⟩
  have hs := hstep.reacts
  have hout := hs.outcome.resultless (h.results l.1.jobId) ha
  constructor
  · intro id
    show (c'.world.view id).stored = none
    by_cases hid : id = l.1.jobId
    · rw [hid]
      exact hs.own.stored_none hout.1
    · exact (hs.others id hid).stored_none (h.results id)
  · rw [hq₁]
    intro a ha id res
    rcases List.mem_append.mp ha with ha | ha
    · exact h.queue a (hq₀ ▸ List.mem_cons_of_mem _ ha) id res
    · exact hout.2 a ha id res

namespace Daemon

/-- The feed of a round brings no result. -/
theorem Took.resultless {d d₁ : Daemon} {l : RoundLog} {T : List Ticket} (h : d.Took l d₁ T)
    (hd : Resultless d.loop) : Resultless d₁.loop := by
  constructor
  · rw [h.feed, Loop.feed_world d.loop _ h.ready]
    exact hd.results
  · rcases Loop.feed_queue d.loop l.1.1 h.ready with ⟨ready, hqueue, hio⟩
    rw [h.feed, hqueue]
    rintro a ha id res rfl
    rcases List.mem_append.mp ha with ha | ha
    · cases h.requests _ ha
    · rcases hio _ ha with ⟨j, hj⟩
      cases hj

theorem resultless_run {t : List DaemonLabel} {d : Daemon} (h : Run (Step json) .new t d) :
    Resultless d.loop := by
  let inv : Daemon → Prop := fun d => (d.Tidy ∧ Unfinishing d.loop.queue) ∧ Resultless d.loop
  have hnew : Run (Step json) .new [] .new := .nil _
  have hinit : inv .new :=
    ⟨unfinishing_run hnew, fun _ => rfl, fun a ha => absurd ha List.not_mem_nil⟩
  have hstep : ∀ d l d', inv d → Step json d l d' → inv d' := by
    rintro d l d' ⟨⟨hd, hq⟩, hres⟩ hs
    refine ⟨⟨hs.tidy hd, hs.unfinishing hd hq⟩, ?_⟩
    cases hs with
    | round hround =>
      rcases (hround.took hd).1 with ⟨T, hT⟩
      exact hT.resultless hres
    | pop hpop => exact hres.pop hpop.loop (hpop.not_finish hq)
  have hinv : inv d := h.invariant hstep hinit
  exact hinv.2

/-- A response is the one that the popped action stands for. -/
theorem PopStep.response_of {d d' : Daemon} {l : DaemonPop} (h : PopStep json d l d') {p : ℕ}
    {resp : WireResponse} (hresp : .response p resp ∈ l.2) :
    ∃ id, answerOf l = some (id, resp) := by
  rcases h.answer with ⟨output, hans⟩
  rw [hans.2.2] at hresp
  cases hl : answerOf l with
  | none =>
    rw [hl] at hresp
    cases hresp
  | some r =>
    rw [hl] at hresp
    dsimp only at hresp
    have hops : ∀ ops, (∃ fd bytes, ops = [.sent fd r.2 bytes, .closed fd]) ∨ ops = [] →
        .response p resp ∈ (d.sockets.run ops).2 → r.2 = resp := by
      rintro ops (⟨fd, bytes, rfl⟩ | rfl) hmem
      · simp only [Sockets.run, Sockets.apply, List.append_nil] at hmem
        rcases List.mem_map.mp hmem with ⟨q, -, heq⟩
        cases heq
        rfl
      · cases hmem
    have hsent : (∃ fd bytes, (d.ipc.respond json r.1 r.2 output).2 =
        [.sent fd r.2 bytes, .closed fd]) ∨ (d.ipc.respond json r.1 r.2 output).2 = [] := by
      unfold IpcModule.respond
      split
      · exact Or.inr rfl
      · dsimp only
        split
        · exact Or.inr rfl
        · split
          · exact Or.inr rfl
          · exact Or.inl ⟨_, _, rfl⟩
    exact ⟨r.1, by rw [← hops _ hsent hresp]⟩

end Daemon

/-! ## Signals and cancels -/

/-- The action stops no job but a named one, and that gracefully. -/
def Action.Warranted (named : JobId → Prop) : Action → Prop
  | .control id signal | .signalProcess id signal => signal = .gracefulStop ∧ named id
  | .timeoutReached _ | .killDeadlineReached _ => False
  | _ => True

/-- The follow-ups of a warranted action are. -/
theorem JobView.Outcome.warranted {named : JobId → Prop} {id : JobId} {v v' : JobView}
    {o : PopLog} {a : Action} {out : List Action} (h : v.Outcome id o a v' out)
    (ha : a.Warranted named) : ∀ b ∈ out, b.Warranted named := by
  cases h with
  | controlled =>
    intro b hb
    simp only [List.mem_cons, List.not_mem_nil, or_false] at hb
    rcases hb with rfl | rfl
    · exact ha
    · trivial
  | timedOut | graceOver => exact ha.elim
  | _ => simp [JobView.interests, Action.Warranted]

/-- The run lemma: a queue of warranted actions kills named jobs only. -/
theorem Loop.warranted_run {named : JobId → Prop} {c c' : Loop σ} {u : List (Action × PopLog)}
    (h : Run (Pop (World.Step E)) c u c') (hq : ∀ a ∈ c.queue, a.Warranted named) :
    ∀ l ∈ u, ∀ id signal process g, .killProcess id signal process g ∈ l.2.effects →
      signal = .gracefulStop ∧ named id := by
  induction h with
  | nil => exact fun l hl => absurd hl List.not_mem_nil
  | @cons c l c₁ u c₂ hpop _ ih =>
    rcases pop_iff.mp hpop with ⟨rest, out, hq₀, hq₁, hstep⟩
    have hs := hstep.reacts
    have hhead := hq l.1 (hq₀ ▸ List.mem_cons_self)
    have hnext : ∀ a ∈ c₁.queue, a.Warranted named := by
      rw [hq₁]
      intro a ha
      rcases List.mem_append.mp ha with ha | ha
      · exact hq a (hq₀ ▸ List.mem_cons_of_mem _ ha)
      · exact hs.outcome.warranted hhead a ha
    intro l' hl' id signal process g he
    rcases List.mem_cons.mp hl' with rfl | hl'
    · rw [hs.kill_of he] at hhead
      exact hhead
    · exact ih hnext l' hl' id signal process g he

/-- The round has a cancel that names the job. -/
def Daemon.Cancels (l : RoundLog) (id : JobId) : Prop :=
  ∃ p uid action, (p, .cancel uid id, action) ∈ requestsOf l.2

/-- What a round feeds stops the jobs that it cancels. -/
theorem Daemon.Took.warranted {d d₁ : Daemon} {l : RoundLog} {T : List Ticket}
    (h : d.Took l d₁ T) : ∀ a ∈ d₁.loop.queue, a.Warranted (Daemon.Cancels l) := by
  rcases Loop.feed_queue d.loop l.1.1 h.ready with ⟨ready, hqueue, hio⟩
  rw [h.feed, hqueue]
  intro a ha
  rcases List.mem_append.mp ha with ha | ha
  · rw [h.actions] at ha
    rcases List.mem_map.mp ha with ⟨t, ht, rfl⟩
    rcases h.routed t ht with ⟨id, hrouted⟩
    rw [hrouted]
    cases hreq : t.request with
    | exec | getResult => trivial
    | cancel uid j =>
      exact ⟨rfl, t.peer, uid, t.action, (mem_requestsOf h.traffic).mpr ⟨t, ht, rfl, hreq, rfl⟩⟩
  · rcases hio a ha with ⟨id, rfl⟩
    trivial

/-- In every reachable state no result is stored, and none was sent; and whatever a round leads
to, it kills only the processes of jobs that it cancels, by a graceful stop. -/
theorem only_named_jobs_stopped {t : List DaemonLabel} {d : Daemon}
    (hrun : Run (Daemon.Step json) .new t d) :
    (∀ id, d.loop.world.state.results.get id = none) ∧
    (∀ l, .pop l ∈ t → ∀ p out, .response p (.result (some out)) ∉ l.2) ∧
    ∀ l d₁ u d₂, Daemon.RoundStep json d l d₁ → Run (Daemon.PopStep json) d₁ u d₂ →
      ∀ pop ∈ u, ∀ id signal process g, .killProcess id signal process g ∈ pop.1.2.effects →
        signal = .gracefulStop ∧ Daemon.Cancels l id := by
  refine ⟨(Daemon.resultless_run hrun).results, ?_, ?_⟩
  · intro l hl p out hresp
    rcases hrun.exists_of_mem hl with ⟨t₁, s, s', t₂, rfl, hrun₁, hstep, -⟩
    have hres := Daemon.resultless_run hrun₁
    have hun := (Daemon.unfinishing_run hrun₁).2
    cases hstep with
    | pop hpop =>
      rcases hpop.response_of hresp with ⟨id, hans⟩
      have hnot := hpop.not_finish hun
      rcases pop_iff.mp hpop.loop with ⟨rest, _, hq, -, -⟩
      have hhead := hres.queue l.1.1 (hq ▸ List.mem_cons_self)
      unfold answerOf at hans
      -- a result is the answer of a query, or of a job that finished
      cases ha : l.1.1 with
      | queryResult j result =>
        rw [ha] at hans hhead
        cases hans
        exact hhead _ _ rfl
      | finished => rw [ha] at hnot; cases hnot
      | _ => rw [ha] at hans; cases hans
  · intro l d₁ u d₂ hround hpops pop hpop
    rcases (hround.took (Daemon.Tidy.run hrun)).1 with ⟨T, hT⟩
    exact Loop.warranted_run (Daemon.pops_loop hpops) hT.warranted pop.1 (List.mem_map_of_mem hpop)

namespace Daemon

/-- A client cancels the job of another. -/
noncomputable def meddled : RoundLog × Daemon := working.connect [.conn 20 (.cancel 2000 1)]

theorem meddled_round : RoundStep .small working meddled.1 meddled.2 := .round _ rfl (by decide)

theorem only_named_jobs_stopped_working :
    (∀ id, working.loop.world.state.results.get id = none) ∧
      ∃ pop ∈ meddled.2.settle.1, pop.1.2.effects = [.killProcess 1 .gracefulStop ⟨1⟩ false] ∧
        Cancels meddled.1 1 := by
  have hnamed := only_named_jobs_stopped working_run
  have hkill : ∃ pop ∈ meddled.2.settle.1,
      pop.1.2.effects = [.killProcess 1 .gracefulStop ⟨1⟩ false] := by decide
  rcases hkill with ⟨pop, hpop, heffs⟩
  refine ⟨hnamed.1, pop, hpop, heffs, ?_⟩
  have heff : .killProcess 1 .gracefulStop ⟨1⟩ false ∈ pop.1.2.effects :=
    heffs ▸ List.mem_cons_self
  exact (hnamed.2.2 _ _ _ _ meddled_round (runPops_run _ _ _) pop hpop _ _ _ _ heff).2

/-- The job of uid 1000 is stopped for uid 2000. -/
theorem stranger_stops_job :
    ∃ t d l d₁ u d₂ job, Run (Step .small) .new t d ∧ RoundStep .small d l d₁ ∧
      Run (PopStep .small) d₁ u d₂ ∧ d.loop.world.state.jobs.get 1 = some job ∧
      job.owner = 1000 ∧
      requestsOf l.2 = [(2, .cancel 2000 1, .control 1 .gracefulStop)] ∧
      ∃ pop ∈ u, pop.1.2.effects = [.killProcess 1 .gracefulStop ⟨1⟩ false] := by
  have hjob : working.loop.world.state.jobs.get 1 =
      some ⟨1, 1000, some ⟨1⟩, some ⟨2⟩, false, none, false⟩ := by decide
  exact ⟨_, working, _, _, _, meddled.2.settle.2, _, working_run, meddled_round,
    runPops_run _ _ _, hjob, rfl, by decide, by decide⟩

end Daemon
end CoreShift
