import CoreShift.Orphans
import CoreShift.Results

/-!
# What becomes of captured output

The drain of a job collects output in the executor; the core learns of an exit by a
`ProcessExited`, which carries the status and nothing else. The result that `Finished` files is
made then, with empty streams: it is right about a requested stream exactly if the drain has
captured nothing from it.

The queue is first in, first out, so that the `Finished` an exit asks for is popped after as many
pops as there are actions before it.
-/

namespace CoreShift

open Utils WorkQueue

open EffectExecutor (executor)

variable {σ α : Type} {E : Executor σ α}

/-! ## From the exit to the `Finished` -/

/-- As long as actions are left that were queued at the beginning, the loop only pops. -/
theorem Loop.run_pops {c c' : Loop σ} {t : List Label} (h : Run (Loop.Step E) c t c')
    (hlen : t.length ≤ c.queue.length) :
    ∃ pops, Run (Pop (World.Step E)) c pops c' ∧ pops.length = t.length := by
  -- a batch of inputs needs an empty queue
  induction h with
  | nil c => exact ⟨[], .nil c, rfl⟩
  | @cons c l c₁ t c₂ hs _ ih =>
    rw [List.length_cons] at hlen
    cases hs with
    | feed hempty =>
      rw [hempty, List.length_nil] at hlen
      omega
    | pop hpop =>
      have ⟨rest, out, hfront, hback, _⟩ := pop_iff.mp hpop
      rw [hfront, List.length_cons] at hlen
      have ⟨pops, hpops, heq⟩ := ih (by
        rw [hback, List.length_append]
        omega)
      exact ⟨_ :: pops, .cons hpop hpops, by rw [List.length_cons, List.length_cons, heq]⟩

/-- After as many steps as there are actions before them, the others are at the front. -/
theorem Loop.run_shifts {c c' : Loop σ} {t : List Label} (h : Run (Loop.Step E) c t c')
    {q q' : List Action} (hq : c.queue = q ++ q') (hlen : t.length = q.length) :
    ∃ added, c'.queue = q' ++ added := by
  have hle : t.length ≤ c.queue.length := by
    rw [hq, List.length_append]
    omega
  have ⟨pops, hpops, heq⟩ := Loop.run_pops h hle
  have ⟨added, horder⟩ := pop_order hpops
  refine ⟨added, ?_⟩
  rw [hq, List.append_assoc] at horder
  exact (List.append_inj horder (by rw [List.length_map]; omega)).2

/-- A poll that reports an exit finds the job with a process, and asks for one `Finished`. -/
theorem JobView.Outcome.exit {id id' : JobId} {v v' : JobView} {o : PopLog} {out : List Action}
    {status : Option Int32} (h : v.Outcome id o (.pollProcess id) v' out) (hans : o.Answered)
    (hev : o.events = [.processExited id' status]) : ∃ job, v.job = some job ∧
      job.process.isSome = true ∧ out = [.finished id (.ok ⟨status, [], [], job.timedOut⟩)] := by
  cases h with
  | @exited job process status' hj hp _ hev' =>
    rw [hev', List.cons.injEq, Event.processExited.injEq] at hev
    refine ⟨job, hj, ?_, ?_⟩
    · rw [hp]
      rfl
    · rw [hev.1.2]
  | running _ _ _ hnone =>
    rw [hnone] at hev
    cases hev
  | unpolled _ heffs =>
    -- without an effect there is no event
    rcases hans with ⟨_, hnone⟩ | ⟨e, _, he, _⟩
    · rw [hnone] at hev
      cases hev
    · rw [heffs] at he
      cases he
  | quiet hq => cases hq

theorem Loop.Step.exit {c c' : Loop σ} {id id' : JobId} {o : PopLog} {status : Option Int32}
    (h : Loop.Step E c (.pop (.pollProcess id) o) c')
    (hev : o.events = [.processExited id' status]) :
    ∃ job rest, c.world.state.jobs.get id = some job ∧ job.process.isSome = true ∧
      c'.queue = rest ++ [.finished id (.ok ⟨status, [], [], job.timedOut⟩)] := by
  cases h with
  | pop hpop =>
    have ⟨rest, out, _, hq', hw⟩ := pop_iff.mp hpop
    have ⟨job, hj, hp, hout⟩ := hw.reacts.outcome.exit hw.reacts.answered hev
    exact ⟨job, rest, hj, hp, hout ▸ hq'⟩

/-- The result that a `Finished` files is its own. -/
theorem Loop.Step.filed {c c' : Loop σ} {id : JobId} {result : Except ExecError ExecResult}
    {o : PopLog} (h : Loop.Step E c (.pop (.finished id result) o) c')
    (hjob : (c.world.state.jobs.get id).isSome = true) {res : StoredResult}
    (hres : c'.world.state.results.get id = some res) : res.result = result := by
  cases h with
  | pop hpop =>
    have ⟨_, _, _, _, amb, ans, hproc⟩ := pop_iff.mp hpop
    let p : Handling σ α := ⟨c.world, .finished id result, amb, ans⟩
    have hafter : p.after E = c'.world := congrArg Prod.fst hproc
    rw [← hafter] at hres
    -- the result is there as it was filed, or was evicted at once
    rcases p.after_finish id rfl with heq | ⟨hnone, _⟩
    · rcases p.filed_cases id rfl with ⟨result', job, hfile, _, hget⟩ | ⟨hno, _⟩
      · have hresult : Action.finished id result = .finished id result' := hfile.1
        rw [Action.finished.injEq] at hresult
        rw [heq, hget, Option.some.injEq] at hres
        rw [← hres]
        exact hresult.2.symm
      · exact absurd ⟨rfl, hjob⟩ (hno result)
    · rw [hnone] at hres
      cases hres

/-- In the state `c₁`, which is reached by `t₁`, a poll of the job reports an exit and asks for a
`Finished`, which in the state `c` is the one with `ahead` actions before it. -/
def AskedAt (E : Executor σ α) (start : Loop σ) (id : JobId) (t₁ : List Label) (c₁ : Loop σ)
    (ahead : ℕ) (c : Loop σ) : Prop :=
  ∃ o status c₂ t₂, Run (Loop.Step E) start t₁ c₁ ∧
    Loop.Step E c₁ (.pop (.pollProcess id) o) c₂ ∧ o.events = [.processExited id status] ∧
    Run (Loop.Step E) c₂ t₂ c ∧ t₂.length + ahead + 1 = c₂.queue.length

/-- Only a poll that reports an exit asks for a `Finished`, and for nothing else. -/
theorem JobView.Outcome.finished_out {id id' : JobId} {v v' : JobView} {o : PopLog} {a : Action}
    {out : List Action} {result : Except ExecError ExecResult} (h : v.Outcome id o a v' out)
    (hmem : .finished id' result ∈ out) : a = .pollProcess id ∧ id' = id ∧
      (∃ status, o.events = [.processExited id status]) ∧ out.length = 1 := by
  cases h with
  | exited _ _ _ hev =>
    rw [List.mem_singleton, Action.finished.injEq] at hmem
    exact ⟨rfl, hmem.1, ⟨_, hev⟩, rfl⟩
  | _ => simp [JobView.interests] at hmem

/-- The `Finished` comes one place nearer with each step. -/
theorem AskedAt.later {start c c' c₁ : Loop σ} {id : JobId} {t₁ : List Label} {l : Label} {n : ℕ}
    (h : AskedAt E start id t₁ c₁ (n + 1) c) (hs : Loop.Step E c l c') :
    AskedAt E start id t₁ c₁ n c' := by
  have ⟨o, status, c₂, t₂, h₁, hpoll, hev, h₂, hlen⟩ := h
  refine ⟨o, status, c₂, t₂ ++ [l], h₁, hpoll, hev, h₂.append (.single hs), ?_⟩
  rw [List.length_append, List.length_singleton]
  omega

/-- Every `Finished` in the queue was asked for by an exit. -/
def EveryAsked (E : Executor σ α) (start c : Loop σ) : Prop :=
  ∀ id result q q', c.queue = q ++ .finished id result :: q' →
    ∃ t₁ c₁, AskedAt E start id t₁ c₁ q.length c

/-- Neither the inputs nor the io of ready jobs finish anything. -/
theorem Loop.unfinished_feed (c : Loop σ) {acts : List Action} {events : List Event}
    (hacts : ∀ a ∈ acts, a.isInput = true) (hready : ∀ ev ∈ events, ev.isReady = true) (id : JobId)
    (result : Except ExecError ExecResult) : .finished id result ∉ (c.feed acts events).queue := by
  intro hmem
  have ⟨ready, hqueue, hio⟩ := Loop.feed_queue c acts hready
  rw [hqueue, List.mem_append] at hmem
  rcases hmem with hmem | hmem
  · have hinput := hacts _ hmem
    cases hinput
  · have ⟨_, heq⟩ := hio _ hmem
    cases heq

/-- The step lemma. -/
theorem EveryAsked.step {start c c' : Loop σ} {past : List Label} {l : Label}
    (h : EveryAsked E start c) (hpast : Run (Loop.Step E) start past c)
    (hs : Loop.Step E c l c') : EveryAsked E start c' := by
  intro id result q q' hq
  cases hs with
  | feed _ hacts hready =>
    refine absurd ?_ (c.unfinished_feed hacts hready id result)
    rw [hq]
    exact List.mem_append_right q List.mem_cons_self
  | @pop a o _ hpop =>
    have ⟨rest, out, hfront, hback, hw⟩ := pop_iff.mp hpop
    -- if this pop asks for it, it asks for nothing else
    have hnew : .finished id result ∈ out → q.length = rest.length ∨ out.length ≠ 1 →
        ∃ t₁ c₁, AskedAt E start id t₁ c₁ q.length c' := by
      intro hin hplace
      have ⟨ha, hid, ⟨status, hev⟩, hone⟩ := hw.reacts.outcome.finished_out hin
      dsimp only at ha
      rw [ha] at hpop
      rw [hid, ha]
      refine ⟨past, c, o, status, c', [], hpast, .pop hpop, ha ▸ hev, .nil c', ?_⟩
      rw [hback, List.length_append, List.length_nil]
      omega
    rw [hback] at hq
    rcases List.append_eq_append_iff.mp hq with ⟨as, hqa, hout⟩ | ⟨bs, hrest, hfin⟩
    · refine hnew ?_ ?_
      · rw [hout]
        exact List.mem_append_right as List.mem_cons_self
      · rw [hqa, hout, List.length_append, List.length_append, List.length_cons]
        omega
    · cases bs with
      | nil =>
        refine hnew ?_ (Or.inl ?_)
        · rw [show out = _ from hfin.symm]
          exact List.mem_cons_self
        · rw [hrest, List.append_nil]
      | cons b bs =>
        -- it was queued before, behind the action that is popped
        rw [List.cons_append, List.cons.injEq] at hfin
        have hbefore : c.queue = (a :: q) ++ .finished id result :: bs := by
          rw [hfront, hrest, hfin.1]
          rfl
        have ⟨t₁, c₁, hasked⟩ := h id result _ _ hbefore
        exact ⟨t₁, c₁, hasked.later (.pop hpop)⟩

/-- The run lemma. -/
theorem EveryAsked.run {start c : Loop σ} {t : List Label} (hrun : Run (Loop.Step E) start t c)
    (hstart : start.queue = []) : EveryAsked E start c := by
  let asked : List Label → Loop σ → Prop := fun past c =>
    Run (Loop.Step E) start past c ∧ EveryAsked E start c
  have hinit : asked [] start := by
    refine ⟨.nil start, fun id result q q' hq => ?_⟩
    rw [hstart] at hq
    simp at hq
  have hstep : ∀ past c l c', asked past c → Loop.Step E c l c' → asked (past ++ [l]) c' :=
    fun _ _ _ _ ⟨hpast, hasked⟩ hs => ⟨hpast.append (.single hs), hasked.step hpast hs⟩
  have hc : asked t c := hrun.invariant_trace [] hstep hinit
  exact hc.2

/-! ## The drain of the job -/

/-- The job was started with `exec`, and the start made the drain under the handle `io`. -/
def StartedWith (t : List Label) (id : JobId) (exec : ExecSpec) (io : IoHandle) : Prop :=
  ∃ policy process o, (.startProcess id exec policy, o) ∈ Label.pops t ∧
    o.events = [.processStarted id process io]

/-- A pop that shows the handles of a start shows that start. -/
theorem World.Reacts.startedWith {w w' : World σ} {a : Action} {o : PopLog} {out : List Action}
    (h : World.Reacts E w a o out w') {id : JobId} {process : ProcessHandle} {io : IoHandle}
    (hmem : (id, process, io) ∈ o.events.filterMap Event.issued) :
    ∃ exec policy, a = .startProcess id exec policy ∧
      o.events = [.processStarted id process io] := by
  have hevents : o.events = [.processStarted id process io] := by
    have ⟨ev, hev, hissued⟩ := List.mem_filterMap.mp hmem
    have heq : ev = .processStarted id process io := by
      cases ev with
      | processStarted => cases hissued; rfl
      | _ => cases hissued
    rw [heq] at hev
    rcases h.answered with ⟨_, hnil⟩ | ⟨_, answer, _, hone, _⟩
    · rw [hnil] at hev
      cases hev
    · rw [hone] at hev ⊢
      rw [Option.mem_toList.mp hev]
      rfl
  rcases h.started_by with hnone | ⟨id', process', io', exec, policy, hone, ha⟩
  · rw [hnone] at hmem
    cases hmem
  · rw [hone, List.mem_singleton, Prod.mk.injEq] at hmem
    rw [hmem.1]
    exact ⟨exec, policy, ha, hmem.1 ▸ hevents⟩

theorem StartedWith.exists_of_issued {maxJobs : ℕ} {x : σ} {t : List Label} {c : Loop σ}
    (hrun : Run (Loop.Step E) (.init maxJobs x) t c) {id : JobId} {process : ProcessHandle}
    {io : IoHandle} (hmem : (id, process, io) ∈ issuedIn t) : ∃ exec, StartedWith t id exec io := by
  have ⟨⟨a, o⟩, hpop, hissued⟩ := List.mem_flatMap.mp hmem
  have hl : Label.pop a o ∈ t := by
    have ⟨l, hl, heq⟩ := List.mem_filterMap.mp hpop
    cases l with
    | pop => cases heq; exact hl
    | feed => cases heq
  have ⟨_, u, u', _, _, _, hstep, _⟩ := hrun.exists_of_mem hl
  cases hstep with
  | pop hp =>
    have ⟨_, _, _, _, hw⟩ := pop_iff.mp hp
    have ⟨exec, policy, ha, hev⟩ := hw.reacts.startedWith hissued
    dsimp only at ha hev
    exact ⟨exec, policy, process, o, ha ▸ hpop, hev⟩

namespace EffectExecutor

/-- What the starts created is still in the tables. -/
def IssuedKept (past : List Label) (x : EffectExecutor) : Prop :=
  ∀ e ∈ issuedIn past, e.2.1 ∈ x.processes.keys ∧ e.2.2 ∈ x.drains.keys

theorem IssuedKept.step {past : List Label} {c c' : Loop EffectExecutor} {l : Label}
    (h : IssuedKept past c.world.exec) (hstep : Loop.Step executor c l c') :
    IssuedKept (past ++ [l]) c'.world.exec := by
  intro e he
  rw [issuedIn_append, List.mem_append] at he
  cases hstep with
  | feed _ _ hready =>
    rw [Loop.feed_world c _ hready]
    rcases he with he | he
    · exact h e he
    · cases he
  | @pop a o _ hpop =>
    have ⟨_, _, _, _, hw⟩ := pop_iff.mp hpop
    rw [issuedIn_pop] at he
    rcases hw.reacts.tables with ⟨id, hev, hissues⟩ | ⟨hnone, htables⟩
    · rw [hissues.processes, hissues.drains, Finset.mem_insert, Finset.mem_insert]
      rcases he with he | he
      · exact ⟨Or.inr (h e he).1, Or.inr (h e he).2⟩
      · rw [show o.events = _ from hev] at he
        rw [List.mem_singleton.mp he]
        exact ⟨Or.inl rfl, Or.inl rfl⟩
    · rw [htables.processes, htables.drains]
      rcases he with he | he
      · exact h e he
      · rw [show o.events.filterMap Event.issued = [] from hnone] at he
        cases he

theorem IssuedKept.run {maxJobs : ℕ} {t : List Label} {c : Loop EffectExecutor}
    (hrun : Run (Loop.Step executor) (.init maxJobs .new) t c) : IssuedKept t c.world.exec := by
  let kept : List Label → Loop EffectExecutor → Prop := fun past c => IssuedKept past c.world.exec
  have hstep : ∀ past c l c', kept past c → Loop.Step executor c l c' → kept (past ++ [l]) c' :=
    fun _ _ _ _ h hs => h.step hs
  have hinit : kept [] (.init maxJobs .new) := fun e he => absurd he List.not_mem_nil
  have hc : kept t c := hrun.invariant_trace [] hstep hinit
  exact hc

/-- A job with a process has a drain, made by a start of its own. -/
theorem drain_of_job {maxJobs : ℕ} {t : List Label} {c : Loop EffectExecutor}
    (hrun : Run (Loop.Step executor) (.init maxJobs .new) t c) {id : JobId} {job : JobState}
    (hj : c.world.state.jobs.get id = some job) (hp : job.process.isSome = true) :
    ∃ io drain, c.world.ioOf id = some io ∧ c.world.exec.drains.get io = some drain ∧
      ∃ exec, StartedWith t id exec io := by
  rcases OwnHandles.run hrun id rfl job hj with ⟨hnone, _⟩ | ⟨process, io, _, hio, hmem⟩
  · rw [hnone] at hp
    cases hp
  · -- the handle is one of those that were issued, and the tables have kept it
    have ⟨drain, hget⟩ := HashMap.mem_keys.mp (IssuedKept.run hrun _ hmem).2
    refine ⟨io, drain, ?_, hget, StartedWith.exists_of_issued hrun hmem⟩
    unfold World.ioOf
    rw [hj]
    exact hio

end EffectExecutor

/-! ## The result -/

/-- The result has what the drain captured from the streams whose capture was requested. -/
def KeepsOutput (exec : ExecSpec) (drain : DrainState) (result : Except ExecError ExecResult) :
    Prop :=
  ∃ r, result = .ok r ∧ (exec.captureStdout = true → r.stdout = drain.buffer.stdout) ∧
    (exec.captureStderr = true → r.stderr = drain.buffer.stderr)

/-- The drain captured nothing from the streams whose capture was requested. -/
def NothingCaptured (exec : ExecSpec) (drain : DrainState) : Prop :=
  (exec.captureStdout = true → drain.buffer.stdout = []) ∧
    (exec.captureStderr = true → drain.buffer.stderr = [])

/-- A result with empty streams keeps the output if there is none. -/
theorem keepsOutput_empty_iff {exec : ExecSpec} {drain : DrainState} {status : Option Int32}
    {timedOut : Bool} :
    KeepsOutput exec drain (.ok ⟨status, [], [], timedOut⟩) ↔ NothingCaptured exec drain := by
  constructor
  · intro ⟨r, hr, hout, herr⟩
    cases hr
    exact ⟨fun hreq => (hout hreq).symm, fun hreq => (herr hreq).symm⟩
  · intro ⟨hout, herr⟩
    exact ⟨_, rfl, fun hreq => (hout hreq).symm, fun hreq => (herr hreq).symm⟩

/-- The `Finished` that an exit asked for carries its status and empty streams. -/
theorem AskedAt.result {start c₁ c : Loop σ} {id : JobId} {t₁ : List Label}
    (h : AskedAt E start id t₁ c₁ 0 c) {result : Except ExecError ExecResult} {rest : List Action}
    (hq : c.queue = .finished id result :: rest) :
    ∃ job status, c₁.world.state.jobs.get id = some job ∧ job.process.isSome = true ∧
      result = .ok ⟨status, [], [], job.timedOut⟩ := by
  have ⟨o, status, c₂, t₂, _, hpoll, hexit, hwait, hlen⟩ := h
  have ⟨job, before, hj, hp, hq₂⟩ := hpoll.exit hexit
  rw [hq₂, List.length_append, List.length_singleton] at hlen
  have ⟨added, hfront⟩ := Loop.run_shifts hwait hq₂ (by omega)
  rw [hq, List.singleton_append, List.cons.injEq, Action.finished.injEq] at hfront
  exact ⟨job, status, hj, hp, hfront.1.2⟩

/-- In every run: a `Finished` that files a result was asked for by an exit, and when that exit
was reported, the job had the drain that its start made. The result keeps the captured output if
and only if that drain had captured nothing. -/
theorem captured_output_kept_iff {maxJobs : ℕ} {t : List Label} {c c' : Loop EffectExecutor}
    {id : JobId} {result : Except ExecError ExecResult} {o : PopLog} {res : StoredResult}
    (hrun : Run (Loop.Step executor) (.init maxJobs .new) t c)
    (hstep : Loop.Step executor c (.pop (.finished id result) o) c')
    (hjob : (c.world.state.jobs.get id).isSome = true)
    (hres : c'.world.state.results.get id = some res) :
    (∃ t₁ c₁, AskedAt executor (.init maxJobs .new) id t₁ c₁ 0 c) ∧
      ∀ t₁ c₁, AskedAt executor (.init maxJobs .new) id t₁ c₁ 0 c →
        ∃ io drain, c₁.world.ioOf id = some io ∧ c₁.world.exec.drains.get io = some drain ∧
          (∃ exec, StartedWith t₁ id exec io) ∧ ∀ exec, StartedWith t₁ id exec io →
            (KeepsOutput exec drain res.result ↔ NothingCaptured exec drain) := by
  have hq : ∃ rest, c.queue = .finished id result :: rest := by
    cases hstep with
    | pop hpop =>
      have ⟨rest, _, hq, _, _⟩ := pop_iff.mp hpop
      exact ⟨rest, hq⟩
  have ⟨rest, hq⟩ := hq
  constructor
  · exact EveryAsked.run hrun rfl id result [] rest hq
  · intro t₁ c₁ hasked
    have ⟨job, status, hj, hp, hresult⟩ := hasked.result hq
    have ⟨_, _, _, _, hrun₁, _⟩ := hasked
    have ⟨io, drain, hio, hget, hstart⟩ := EffectExecutor.drain_of_job hrun₁ hj hp
    refine ⟨io, drain, hio, hget, hstart, fun exec _ => ?_⟩
    rw [hstep.filed hjob hres, hresult]
    exact keepsOutput_empty_iff

/-! ## A job that writes before it exits -/

/-- A command whose standard output is requested. -/
def ExecSpec.loud : ExecSpec := ⟨[], none, true, false, 16⟩

/-- Its child, and a descriptor that has two bytes to read. -/
def OsAnswer.loud : OsAnswer :=
  { OsAnswer.started 100 with
    spawn := .ok ⟨⟨100⟩, ⟨some ⟨⟨0⟩, 5⟩, none, none, .new 16, .new none, none⟩⟩
    stdout := [.data [104, 105]] }

namespace EffectExecutor

/-- The loop after the job was started. -/
noncomputable def loudJob : List (Action × PopLog) × Loop EffectExecutor :=
  Loop.batch executor [.submit 1 0 .loud (.graceful none)]
    (List.replicate 9 (.still 0, .loud)) (.init 1 .new)

/-- The output is read. -/
noncomputable def loudRead : List (Action × PopLog) × Loop EffectExecutor :=
  Loop.runPops executor [(.still 1, .loud)] (loudJob.2.feed [] [.jobFdReady 1 true false false])

/-- The exit is noticed; the `Finished` is next. -/
noncomputable def loudExit : List (Action × PopLog) × Loop EffectExecutor :=
  Loop.batch executor [.pollProcess 1] [(.still 2, .exited)] loudRead.2

/-- The result is filed. -/
noncomputable def loudEnd : List (Action × PopLog) × Loop EffectExecutor :=
  Loop.runPops executor [(.still 2, .exited)] loudExit.2

/-- The labels until then. -/
noncomputable def loudLabels : List Label :=
  .feed [.submit 1 0 .loud (.graceful none)] [] :: Loop.popLabels loudJob.1 ++
    (.feed [] [.jobFdReady 1 true false false] :: Loop.popLabels loudRead.1) ++
    [.feed [.pollProcess 1] []]

theorem loudExit_run :
    Run (Loop.Step executor) (.init 1 .new) loudLabels (loudRead.2.feed [.pollProcess 1] []) := by
  have hstart : Run (Loop.Step executor) (.init 1 .new) _ loudJob.2 :=
    Loop.batch_run executor _ rfl (by decide)
  have hready : Loop.Step executor loudJob.2 (.feed [] [.jobFdReady 1 true false false]) _ :=
    .feed (by decide) (by decide) (by decide)
  have hread : Run (Loop.Step executor) _ _ loudRead.2 :=
    Loop.run_of_pops (Loop.runPops_run executor _ _)
  exact (hstart.append (.cons hready hread)).append
    (.single (.feed (by decide) (by decide) (by decide)))

theorem loudJob_started : StartedWith loudLabels 1 .loud ⟨2⟩ :=
  ⟨.graceful none, ⟨1⟩, ⟨0, [.startProcess 1 .loud (.graceful none)],
    [.processStarted 1 ⟨1⟩ ⟨2⟩], []⟩, by decide, rfl⟩

theorem loudExit_asked :
    AskedAt executor (.init 1 .new) 1 loudLabels (loudRead.2.feed [.pollProcess 1] []) 0
      loudExit.2 :=
  ⟨_, some 0, loudExit.2, [], loudExit_run, .pop (Loop.pop_eq_some rfl), rfl, .nil _, rfl⟩

theorem captured_output_kept_iff_loud :
    ∃ drain res, (loudRead.2.feed [.pollProcess 1] []).world.exec.drains.get ⟨2⟩ = some drain ∧
      loudEnd.2.world.state.results.get 1 = some res ∧
      (KeepsOutput .loud drain res.result ↔ NothingCaptured .loud drain) := by
  have hexit : Run (Loop.Step executor) _ (Loop.popLabels loudExit.1) loudExit.2 :=
    Loop.run_of_pops (Loop.runPops_run executor _ _)
  have hstep : Loop.Step executor loudExit.2 _ loudEnd.2 := .pop (Loop.pop_eq_some rfl)
  have ⟨io, drain, hio, hget, _, hiff⟩ :=
    (captured_output_kept_iff (loudExit_run.append hexit) hstep (by decide) rfl).2 _ _
      loudExit_asked
  have hown : (loudRead.2.feed [.pollProcess 1] []).world.ioOf 1 = some ⟨2⟩ := by decide
  rw [hown, Option.some.injEq] at hio
  rw [← hio] at hget hiff
  exact ⟨drain, _, hget, rfl, hiff _ loudJob_started⟩

/-- Two bytes were captured, and the result has none. -/
theorem captured_output_dropped :
    ∃ t c c' result o drain res, Run (Loop.Step executor) (.init 1 .new) t c ∧ (submitted t).Nodup ∧
      Loop.Step executor c (.pop (.finished 1 result) o) c' ∧
      c'.world.state.results.get 1 = some res ∧
      ∃ t₁ c₁, AskedAt executor (.init 1 .new) 1 t₁ c₁ 0 c ∧ StartedWith t₁ 1 .loud ⟨2⟩ ∧
        c₁.world.exec.drains.get ⟨2⟩ = some drain ∧ drain.buffer.stdout = [104, 105] ∧
        ¬ KeepsOutput .loud drain res.result := by
  have hexit : Run (Loop.Step executor) _ (Loop.popLabels loudExit.1) loudExit.2 :=
    Loop.run_of_pops (Loop.runPops_run executor _ _)
  have hstep : Loop.Step executor loudExit.2 _ loudEnd.2 := .pop (Loop.pop_eq_some rfl)
  refine ⟨_, loudExit.2, loudEnd.2, _, _, _, _, loudExit_run.append hexit, by decide, hstep, rfl,
    loudLabels, _, loudExit_asked, loudJob_started, rfl, rfl, ?_⟩
  intro ⟨r, hr, hout, _⟩
  cases hr
  have hempty := hout rfl
  cases hempty

end EffectExecutor
end CoreShift
