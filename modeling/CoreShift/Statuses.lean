import CoreShift.Children

/-!
# What a query is told of a child

A job's result is made when a poll reports that its process has exited, is stored when the core
hears of it, and is handed out to the next query. So a status that a query is told was read from
the job's own child by `waitpid`.
-/

namespace CoreShift

open Utils WorkQueue

open EffectExecutor (executor)

/-! ## The poll -/

/-- What a poll reports of a `wait_step`: a signal as its negative, and an error as no status. -/
def exitReport : Except SysError (Option ExitStatus) → Option (Option Int32)
  | .ok (some (.exited code)) => some (some code)
  | .ok (some (.signaled signal)) => some (some (-signal))
  | .ok none => none
  | .error _ => some none

/-- The call of `waitpid` that an effect makes: the pid it names. -/
def EffectExecutor.waitCall (x : EffectExecutor) : Effect → Option Int32
  | .pollProcess _ process => (x.processes.get process).map Process.pid
  | _ => none

theorem EffectExecutor.apply_pollProcess {x : EffectExecutor} {process : ProcessHandle}
    {proc : Process} (h : x.processes.get process = some proc) (id : JobId) (ans : OsAnswer) :
    (x.apply (.pollProcess id process) ans).2 =
      (exitReport (proc.waitStep ans.wait)).map (.processExited id) := by
  simp only [apply, h]
  cases proc.waitStep ans.wait with
  | error => rfl
  | ok found =>
    cases found with
    | none => rfl
    | some status => cases status <;> rfl

/-- A poll of the job at which `waitpid` reports an exit of the child. -/
structure Handling.Reaps (h : Handling EffectExecutor OsAnswer) (id : JobId)
    (running : RunningProcess) (status : Option Int32) : Prop where
  action : h.action = .pollProcess id
  waited : (h.log executor).effects.filterMap h.before.exec.waitCall = [running.process.pid]
  status : exitReport (running.process.waitStep h.ans.wait) = some status

/-! ## Where a result comes from -/

/-- The job was asked to stop. -/
def Stopped (id : JobId) (past : List Label) : Prop :=
  ∃ o, .pop (.signalProcess id .gracefulStop) o ∈ past

/-- The result tells of the exit that a poll has reported. -/
def Reported (id : JobId) (past : List Label) (result : Except ExecError ExecResult) : Prop :=
  ∃ before o after status timedOut, past = before ++ .pop (.pollProcess id) o :: after ∧
    o.events = [.processExited id status] ∧ result = .ok ⟨status, [], [], timedOut⟩ ∧
    (timedOut = true ↔ Stopped id before)

theorem stopped_pop {id : JobId} {past : List Label} {a : Action} {o : PopLog} :
    Stopped id (past ++ [.pop a o]) ↔ Stopped id past ∨ a = .signalProcess id .gracefulStop := by
  unfold Stopped
  constructor
  · rintro ⟨o', ho'⟩
    rcases List.mem_append.mp ho' with hold | hnew
    · exact Or.inl ⟨o', hold⟩
    · exact Or.inr (Label.pop.inj (List.mem_singleton.mp hnew)).1.symm
  · rintro (⟨o', ho'⟩ | rfl)
    · exact ⟨o', List.mem_append_left _ ho'⟩
    · exact ⟨o, List.mem_append_right _ (List.mem_singleton.mpr rfl)⟩

theorem stopped_feed {id : JobId} {past : List Label} {acts : List Action} {events : List Event} :
    Stopped id (past ++ [.feed acts events]) ↔ Stopped id past := by
  simp [Stopped]

theorem Reported.later {id : JobId} {past : List Label} {result : Except ExecError ExecResult}
    (h : Reported id past result) (l : Label) : Reported id (past ++ [l]) result := by
  have ⟨before, o, after, status, timedOut, hpast, hrest⟩ := h
  refine ⟨before, o, after ++ [l], status, timedOut, ?_, hrest⟩
  rw [hpast, List.append_assoc, List.cons_append]

section Outcome

variable {id : JobId} {v v' : JobView} {o : PopLog} {a : Action} {out : List Action}

theorem JobView.Outcome.finished_status (h : v.Outcome id o a v' out)
    {result : Except ExecError ExecResult} (hmem : .finished id result ∈ out) :
    a = .pollProcess id ∧ ∃ job status, v.job = some job ∧
      o.events = [.processExited id status] ∧ result = .ok ⟨status, [], [], job.timedOut⟩ := by
  cases h with
  | exited hj _ _ hev =>
    rw [List.mem_singleton, Action.finished.injEq] at hmem
    exact ⟨rfl, _, _, hj, hev, hmem.2⟩
  | _ => simp [JobView.interests] at hmem

theorem JobView.Outcome.polled (h : v.Outcome id o (.pollProcess id) v' out)
    (hev : o.events ≠ []) (heffs : o.effects ≠ []) :
    ∃ job process, v.job = some job ∧ job.process = some process ∧
      o.effects = [.pollProcess id process] := by
  cases h with
  | exited hj hp he _ => exact ⟨_, _, hj, hp, he⟩
  | running _ _ _ hnone => exact absurd hnone hev
  | unpolled _ hnone => exact absurd hnone heffs
  | quiet hquiet => cases hquiet

theorem JobView.Outcome.queryResult_out (h : v.Outcome id o a v' out) {told : ExecOutcome}
    (hmem : .queryResult id (some told) ∈ out) :
    ∃ res, v.stored = some res ∧ told = ⟨id, res.result⟩ := by
  cases h with
  | queried hres =>
    rw [List.mem_singleton, Action.queryResult.injEq, Option.some.injEq] at hmem
    exact ⟨_, hres, hmem.2⟩
  | _ => simp [JobView.interests] at hmem

theorem JobView.Outcome.stored_from (h : v.Outcome id o a v' out) {res : StoredResult}
    (hres : v'.stored = some res) :
    v.stored = some res ∨ a = .finished id res.result := by
  cases h with
  | finished => cases hres; exact Or.inr rfl
  | queried => cases hres
  | _ => exact Or.inl hres

end Outcome

/-- A job that is there has the flag if it was asked to stop, which it is after its admission. -/
structure StopAsked (id : JobId) (past : List Label) (c : Config JobView Action) : Prop where
  flag : ∀ job, c.world.job = some job → (job.timedOut = true ↔ Stopped id past)
  settled : Stopped id past → c.queue.countP Action.isWaiting = 0 ∧ 1 ≤ (submitted past).count id

namespace StopAsked

variable {id : JobId} {past : List Label} {fed starts : ℕ} {v v' : JobView} {o : PopLog}
  {a : Action} {out rest : List Action}

/-- A pop that leaves the flag alone. -/
theorem keep {c' : Config JobView Action} (h : StopAsked id past ⟨v, a :: rest⟩)
    (ha : a ≠ .signalProcess id .gracefulStop)
    (hjob : ∀ job', c'.world.job = some job' →
      ∃ job, v.job = some job ∧ job'.timedOut = job.timedOut)
    (hwait : c'.queue.countP Action.isWaiting ≤ (a :: rest).countP Action.isWaiting) :
    StopAsked id (past ++ [.pop a o]) c' := by
  constructor
  · intro job' hjob'
    have ⟨job, hold, hflag⟩ := hjob job' hjob'
    rw [stopped_pop, hflag, h.flag job hold]
    simp [ha]
  · intro hstopped
    have ⟨hnone, hsub⟩ := h.settled ((stopped_pop.mp hstopped).resolve_right ha)
    rw [submitted_append, List.count_append]
    dsimp only at hnone
    omega

/-- A pop of the job's own. -/
theorem outcome (hout : v.Outcome id o a v' out)
    (hl : Launch ((submitted past).count id) starts ⟨v, a :: rest⟩)
    (h : StopAsked id past ⟨v, a :: rest⟩) :
    StopAsked id (past ++ [.pop a o]) ⟨v', rest ++ out⟩ := by
  have hshorter : rest.countP Action.isWaiting ≤ (a :: rest).countP Action.isWaiting :=
    (List.sublist_cons_self a rest).countP_le
  -- a signal is queued only after the launch
  have hsignal : a.isSignal = true → (rest ++ []).countP Action.isWaiting = 0 ∧
      1 ≤ (submitted (past ++ [.pop a o])).count id := by
    intro ha
    obtain ⟨hnone, _, hsub, _⟩ := hl.signalled (by rw [List.countP_cons_of_pos ha]; omega)
    rw [List.append_nil, submitted_append, List.count_append]
    dsimp only at hnone
    omega
  cases hout with
  | @admitted owner exec policy =>
    have hwaits : (Action.admitted id owner exec policy :: rest).countP Action.isWaiting =
        rest.countP Action.isWaiting + 1 := List.countP_cons_of_pos rfl
    -- the admission is still to come, so the job was not asked to stop
    have hnever : ¬ Stopped id past := by
      intro hstopped
      have hnone := (h.settled hstopped).1
      dsimp only at hnone
      omega
    constructor
    · intro job' hjob'
      cases hjob'
      simp [stopped_pop, hnever, JobView.freshJob]
    · simp [stopped_pop, hnever]
  | stopped =>
    refine ⟨?_, fun _ => hsignal rfl⟩
    intro job' hjob'
    cases hjob'
    simp [stopped_pop]
  | signalAbsent hnone =>
    refine ⟨?_, fun _ => hsignal rfl⟩
    intro job' hjob'
    cases hnone.symm.trans hjob'
  | started hj =>
    refine h.keep (by simp) ?_ ?_
    · intro job' hjob'
      cases hjob'
      exact ⟨_, hj, rfl⟩
    · simp [Action.isWaiting, JobView.interests]
  | finished =>
    refine h.keep (by simp) (fun job' hjob' => by cases hjob') ?_
    simp [Action.isWaiting]
  | quiet hq =>
    refine h.keep ?_ (fun job' hjob' => ⟨job', hjob', rfl⟩) ?_
    · rintro rfl
      cases hq
    · rw [List.append_nil]
      exact hshorter
  | _ =>
    refine h.keep (by simp) (fun job' hjob' => ⟨job', hjob', rfl⟩) ?_
    simp [Action.isWaiting, JobView.interests, List.countP_cons]

/-- The step lemma. -/
theorem step {c c' : Config JobView Action} {l : Label} (h : StopAsked id past c)
    (hl : Launch ((submitted past).count id) starts c) (hs : JobStep id c l c')
    (hfed : (submitted (past ++ [l])).count id ≤ 1) : StopAsked id (past ++ [l]) c' := by
  cases hs with
  | @own v a rest o v₁ out v' hid hout hev =>
    have hown := outcome hout hl h
    exact ⟨fun job hjob => hown.flag job (hev.job ▸ hjob), hown.settled⟩
  | @other v v' q a o hid hev =>
    have hother : a ≠ .signalProcess id .gracefulStop := by
      rintro rfl
      exact hid rfl
    constructor
    · intro job hjob
      rw [stopped_pop, h.flag job (hev.job ▸ hjob)]
      simp [hother]
    · intro hstopped
      have ⟨hnone, hsub⟩ := h.settled ((stopped_pop.mp hstopped).resolve_right hother)
      rw [submitted_append, List.count_append]
      exact ⟨hnone, by omega⟩
  | @feed v acts events ready hacts hready =>
    constructor
    · intro job hjob
      rw [stopped_feed]
      exact h.flag job hjob
    · intro hstopped
      have ⟨_, hsub⟩ := h.settled (stopped_feed.mp hstopped)
      have hinputs := (input_counts id hacts).1
      rw [submitted_append, List.count_append, submitted_feed] at hfed ⊢
      rw [List.countP_append, ready_count hready rfl, hinputs]
      omega

end StopAsked

/-- Whatever tells of the job's exit goes back to a poll. -/
structure Sourced (id : JobId) (past : List Label) (c : Config JobView Action) : Prop where
  finished : ∀ result, .finished id result ∈ c.queue → Reported id past result
  stored : ∀ res, c.world.stored = some res → Reported id past res.result
  told : ∀ told, .queryResult id (some told) ∈ c.queue →
    ∃ result, told = ⟨id, result⟩ ∧ Reported id past result

namespace Sourced

variable {id : JobId} {past : List Label} {c c' : Config JobView Action} {l : Label}

/-- A step after which there is nothing more to tell. -/
theorem keep (h : Sourced id past c)
    (hfinished : ∀ result, .finished id result ∈ c'.queue → .finished id result ∈ c.queue)
    (hstored : c'.world.stored = c.world.stored ∨ c'.world.stored = none)
    (htold : ∀ told, .queryResult id told ∈ c'.queue → .queryResult id told ∈ c.queue) :
    Sourced id (past ++ [l]) c' := by
  constructor
  · intro result hmem
    exact (h.finished result (hfinished result hmem)).later l
  · intro res hres
    rcases hstored with heq | hnone
    · exact (h.stored res (heq ▸ hres)).later l
    · rw [hnone] at hres
      cases hres
  · intro told hmem
    have ⟨result, heq, hrep⟩ := h.told told (htold _ hmem)
    exact ⟨result, heq, hrep.later l⟩

theorem step (h : Sourced id past c) (hasked : StopAsked id past c) (hs : JobStep id c l c') :
    Sourced id (past ++ [l]) c' := by
  cases hs with
  | @own v a rest o v₁ out v' hid hout hev =>
    constructor
    · intro result hmem
      rcases List.mem_append.mp hmem with hmem | hmem
      · exact (h.finished result (List.mem_cons_of_mem _ hmem)).later _
      · have ⟨ha, job, status, hjob, hevents, hresult⟩ := hout.finished_status hmem
        rw [ha]
        exact ⟨past, o, [], status, job.timedOut, rfl, hevents, hresult, hasked.flag job hjob⟩
    · intro res hres
      rcases hev.stored with heq | hnone
      · rcases hout.stored_from (heq ▸ hres) with hold | rfl
        · exact (h.stored res hold).later _
        · exact (h.finished _ List.mem_cons_self).later _
      · rw [hnone] at hres
        cases hres
    · intro told hmem
      rcases List.mem_append.mp hmem with hmem | hmem
      · have ⟨result, htold, hrep⟩ := h.told told (List.mem_cons_of_mem _ hmem)
        exact ⟨result, htold, hrep.later _⟩
      · have ⟨res, hres, htold⟩ := hout.queryResult_out hmem
        exact ⟨res.result, htold, (h.stored res hres).later _⟩
  | other hid hev => exact h.keep (fun _ hmem => hmem) hev.stored (fun _ hmem => hmem)
  | @feed v acts events ready hacts hready =>
    have hfed : ∀ b ∈ ownPart Action.jobId id acts ++ ready,
        b.isInput = true ∨ b = .performIo id := by
      intro b hb
      rcases List.mem_append.mp hb with hb | hb
      · exact Or.inl (hacts b (List.mem_filter.mp hb).1)
      · exact Or.inr (hready b hb)
    refine h.keep ?_ (Or.inl rfl) ?_
    · intro result hmem
      rcases hfed _ hmem with hinput | heq
      · cases hinput
      · cases heq
    · intro told hmem
      rcases hfed _ hmem with hinput | heq
      · cases hinput
      · cases heq

theorem run {σ α : Type} {E : Executor σ α} {maxJobs : ℕ} {x : σ} {t : List Label} {c : Loop σ}
    (hrun : Run (Loop.Step E) (.init maxJobs x) t c) (hfed : (submitted t).count id ≤ 1) :
    Sourced id t (c.own id) := by
  let inv : List Label → Config JobView Action → Prop := fun t c => (submitted t).count id ≤ 1 →
    Launch ((submitted t).count id) (startsOf id t).length c ∧ StopAsked id t c ∧ Sourced id t c
  have hinit : inv [] ((Loop.init maxJobs x).own id) := by
    intro hfed
    refine ⟨.run (.nil _) rfl rfl hfed, ⟨?_, ?_⟩, ⟨?_, ?_, ?_⟩⟩
    · intro job hjob
      cases hjob
    · rintro ⟨o, ho⟩
      cases ho
    · intro result hmem
      cases hmem
    · intro res hres
      cases hres
    · intro told hmem
      cases hmem
  have hstep : ∀ past c l c', inv past c → JobStep id c l c' → inv (past ++ [l]) c' := by
    intro past c l c' hc hs hfed
    have hle : (submitted past).count id ≤ 1 := by
      rw [submitted_append, List.count_append] at hfed
      omega
    have ⟨hlaunch, hasked, hsourced⟩ := hc hle
    exact ⟨Launch.step (fun _ => hlaunch) hs hfed, hasked.step hlaunch hs hfed,
      hsourced.step hasked hs⟩
  exact ((Loop.run_own hrun id).invariant_trace [] hstep hinit hfed).2.2

end Sourced

/-! ## From the child to the query -/

section

variable {maxJobs : ℕ} {ks : List (Entry EffectExecutor OsAnswer)} {c : Loop EffectExecutor}
  {id : JobId}

theorem stopped_iff : Stopped id (labelsOf ks) ↔
    ∃ stop ∈ handlings ks, stop.action = .signalProcess id .gracefulStop := by
  constructor
  · rintro ⟨o, ho⟩
    have ⟨k, hk, hlabel⟩ := List.mem_map.mp ho
    cases k with
    | feed => cases hlabel
    | pop stop => exact ⟨stop, mem_handlings.mpr hk, (Label.pop.inj hlabel).1⟩
  · rintro ⟨stop, hstop, ha⟩
    refine ⟨stop.log executor, ?_⟩
    rw [← ha]
    exact List.mem_map_of_mem (f := Entry.label executor) (mem_handlings.mp hstop)

/-- A poll that reports an exit of the job has waited for the job's own child. -/
theorem Recorded.reaped {poll : Handling EffectExecutor OsAnswer} {status : Option Int32}
    {rest : List Action} (hrec : Recorded maxJobs ks ⟨poll.before, rest⟩)
    (hmany : 2 * (issuedIn (labelsOf ks)).length < 2 ^ 64) (ha : poll.action = .pollProcess id)
    (hev : (poll.log executor).events = [.processExited id status]) :
    ∃ start ∈ handlings ks, ∃ exec running, start.Spawns id exec running ∧
      poll.Reaps id running status := by
  rcases poll.applied (E := executor) with ⟨_, hnone, _⟩ | ⟨e, he, hevents, _⟩
  · rw [hnone] at hev
    cases hev
  have hout := (poll.reacts executor).outcome
  rw [ha] at hout
  have ⟨job, process, hjob, hprocess, heffs⟩ :=
    hout.polled (by rw [hev]; exact List.cons_ne_nil _ _) (by rw [he]; exact List.cons_ne_nil _ _)
  rw [he, List.cons.injEq] at heffs
  rw [heffs.1] at he hevents
  have ⟨process', io, before, start, after, running, hp, _, hsplit, hstarts, hproc, _⟩ :=
    hrec.child hmany hjob (by rw [hprocess]; rfl)
  rw [hprocess, Option.some.injEq] at hp
  subst hp
  have hstart : start ∈ handlings ks := by simp [hsplit]
  have ⟨exec, hspawns⟩ := hrec.spawned hstart hstarts
  have hproc : poll.before.exec.processes.get process = some running.process := hproc
  refine ⟨start, hstart, exec, running, hspawns, ha, ?_, ?_⟩
  · rw [he]
    simp [EffectExecutor.waitCall, hproc]
  · rw [hev] at hevents
    change _ = (poll.before.exec.apply (.pollProcess id process) poll.ans).2.toList at hevents
    rw [EffectExecutor.apply_pollProcess hproc] at hevents
    cases hreport : exitReport (running.process.waitStep poll.ans.wait) with
    | none =>
      rw [hreport] at hevents
      cases hevents
    | some found =>
      rw [hreport] at hevents
      cases hevents
      rfl

/-- For every run of the loop in which each id is submitted once, and whatever the system answers:
a query that is told a result is told the status that a poll has read from `waitpid` on the child
that was started for this job, no output, and that the job timed out if and only if it was asked
to stop before that poll. -/
theorem statuses_are_own (hrec : Recorded maxJobs ks c) (hids : (submitted (labelsOf ks)).Nodup)
    (hmany : 2 * (issuedIn (labelsOf ks)).length < 2 ^ 64) {h : Handling EffectExecutor OsAnswer}
    (hh : h ∈ handlings ks) {told : ExecOutcome} (ha : h.action = .queryResult id (some told)) :
    ∃ before poll after start exec running status timedOut,
      handlings ks = before ++ poll :: after ∧ start ∈ before ∧ h ∈ after ∧
      start.Spawns id exec running ∧ poll.Reaps id running status ∧
      told = ⟨id, .ok ⟨status, [], [], timedOut⟩⟩ ∧
      (timedOut = true ↔ ∃ stop ∈ before, stop.action = .signalProcess id .gracefulStop) := by
  obtain ⟨ks₁, ks₂, rest, hks, hrec₁⟩ := hrec.exists_before hh
  subst hks
  rw [labelsOf_append] at hids hmany
  -- the answer is at the head of the queue, so it goes back to a poll
  have htold : Action.queryResult id (some told) ∈ ownPart Action.jobId id (h.action :: rest) := by
    rw [ha]
    exact List.mem_filter.mpr ⟨List.mem_cons_self, by simp [Action.jobId]⟩
  have hfed : (submitted (labelsOf ks₁)).count id ≤ 1 := by
    have hle := List.nodup_iff_count_le_one.mp hids id
    rw [submitted_append, List.count_append] at hle
    omega
  obtain ⟨result, heq, past, o, later, status, timedOut, hpast, hev, hresult, hstop⟩ :=
    (Sourced.run hrec₁.loop hfed).told told htold
  obtain ⟨ks₃, poll, ks₄, hks₁, hbefore, haction, hlog⟩ := labelsOf_eq_append hpast
  subst hks₁ hbefore
  -- and the poll found the child that was there by then
  obtain ⟨rest', hrec₃⟩ := hrec₁.before
  have hfew : 2 * (issuedIn (labelsOf ks₃)).length < 2 ^ 64 := by
    rw [labelsOf_append, issuedIn_append, issuedIn_append, List.length_append,
      List.length_append] at hmany
    omega
  obtain ⟨start, hstart, exec, running, hspawns, hreaps⟩ :=
    hrec₃.reaped hfew haction (hlog ▸ hev)
  refine ⟨handlings ks₃, poll, handlings ks₄ ++ h :: handlings ks₂, start, exec, running,
    status, timedOut, ?_, hstart, by simp, hspawns, hreaps, ?_, ?_⟩
  · rw [handlings_append, handlings_append]
    exact List.append_assoc _ _ _
  · rw [heq, hresult]
  · rw [hstop, stopped_iff]

end

/-! ## A small run -/

/-- The answers to the start of a bare command, and to a `waitpid` after it was terminated. -/
def OsAnswer.terminated : OsAnswer := { OsAnswer.spawned with wait := [.reaped 15] }

namespace EffectExecutor

/-- A job is started, stopped, reaped and launched. -/
noncomputable def launched : List (Entry EffectExecutor OsAnswer) × Loop EffectExecutor :=
  Loop.recordPops executor (List.replicate 20 (.still 0, .terminated))
    ((Loop.init 1 .new).feed [.submit 1 0 .bare (.graceful none)] [])

/-- A client stops it. -/
noncomputable def halted : List (Entry EffectExecutor OsAnswer) × Loop EffectExecutor :=
  Loop.recordPops executor (List.replicate 20 (.still 0, .terminated))
    (launched.2.feed [.control 1 .gracefulStop] [])

/-- It is polled. -/
noncomputable def reaped : List (Entry EffectExecutor OsAnswer) × Loop EffectExecutor :=
  Loop.recordPops executor (List.replicate 20 (.still 0, .terminated))
    (halted.2.feed [.pollProcess 1] [])

/-- A client asks for its result. -/
noncomputable def told : List (Entry EffectExecutor OsAnswer) × Loop EffectExecutor :=
  Loop.recordPops executor (List.replicate 20 (.still 0, .terminated))
    (reaped.2.feed [.query 1] [])

/-- The record until then. -/
noncomputable def toldRecord : List (Entry EffectExecutor OsAnswer) :=
  .feed [.submit 1 0 .bare (.graceful none)] [] :: launched.1 ++
    (.feed [.control 1 .gracefulStop] [] :: halted.1 ++
      (.feed [.pollProcess 1] [] :: reaped.1 ++ .feed [.query 1] [] :: told.1))

theorem told_recorded : Recorded 1 toldRecord told.2 := by
  have hstart : Run (Loop.Records executor) (.init 1 .new) _ launched.2 :=
    .cons (.feed rfl (by decide) (by decide)) (Loop.recordPops_run _ _ _)
  have hstop : Run (Loop.Records executor) launched.2 _ halted.2 :=
    .cons (.feed rfl (by decide) (by decide)) (Loop.recordPops_run _ _ _)
  have hpoll : Run (Loop.Records executor) halted.2 _ reaped.2 :=
    .cons (.feed rfl (by decide) (by decide)) (Loop.recordPops_run _ _ _)
  have hquery : Run (Loop.Records executor) reaped.2 _ told.2 :=
    .cons (.feed rfl (by decide) (by decide)) (Loop.recordPops_run _ _ _)
  have hanswers : (handlings toldRecord).map Handling.ans = List.replicate 16 .terminated := rfl
  have htasks : tasksStarted (labelsOf toldRecord) = [⟨1, .bare, .graceful none⟩] := rfl
  exact .of_task .smooth (hstart.append (hstop.append (hpoll.append hquery))) hanswers htasks rfl

theorem statuses_are_own_told :
    ∃ before poll after start exec running, handlings toldRecord = before ++ poll :: after ∧
      start ∈ before ∧ start.Spawns 1 exec running ∧ poll.Reaps 1 running (some (-15)) ∧
      ∃ stop ∈ before, stop.action = .signalProcess 1 .gracefulStop := by
  have hlast : ((handlings toldRecord).map Handling.action).getLast? =
      some (.queryResult 1 (some ⟨1, .ok ⟨some (-15), [], [], true⟩⟩)) := rfl
  have ⟨h, hh, ha⟩ := List.mem_map.mp (List.mem_of_getLast? hlast)
  have ⟨before, poll, after, start, exec, running, status, timedOut, hsplit, hstart, _, hspawns,
      hreaps, htold, hstop⟩ :=
    statuses_are_own told_recorded (by decide) (by decide) hh ha
  cases htold
  exact ⟨before, poll, after, start, exec, running, hsplit, hstart, hspawns, hreaps,
    hstop.mp rfl⟩

end EffectExecutor
end CoreShift
