import CoreShift.JobLimit

/-!
# What a rejected submission leaves behind

A submission is rejected by the admission module, before anything is stored, or after its
process could not be started. In the second case nothing is undone: the slot, the job entry
and the timer stay, because only a `Finished` would release them and none is emitted.
-/

namespace CoreShift

open Utils WorkQueue

variable {σ α : Type} {E : Executor σ α}

/-- The bookkeeping of a world that a submission can change: the counter, the jobs and the
timers. -/
structure World.SameBooks (w w' : World σ) : Prop where
  active : w'.dispatcher.admission.activeJobs = w.dispatcher.admission.activeJobs
  jobs : w'.state.jobs = w.state.jobs
  tracking : w'.dispatcher.timeout.tracking = w.dispatcher.timeout.tracking

namespace World.SameBooks

theorem refl (w : World σ) : SameBooks w w := ⟨rfl, rfl, rfl⟩

theorem trans {w w' w'' : World σ} (h : SameBooks w w') (h' : SameBooks w' w'') :
    SameBooks w w'' :=
  ⟨h'.active.trans h.active, h'.jobs.trans h.jobs, h'.tracking.trans h.tracking⟩

end World.SameBooks

/-! ## Pops that keep the books -/

section Pop

variable {w w' : World σ} {a : Action} {o : PopLog} {out : List Action}

/-- The maps are the same if the entries of the action's job are. -/
theorem World.Reacts.same_books (h : World.Reacts E w a o out w')
    (hactive : (w.dispatcher.admission.handle a).1 = w.dispatcher.admission)
    (hjob : ((w.view a.jobId).react (w.env o) a).view.job = (w.view a.jobId).job)
    (htimer : ((w.view a.jobId).react (w.env o) a).view.timer = (w.view a.jobId).timer) :
    World.SameBooks w w' := by
  have hviews : ∀ j, (w'.view j).job = (w.view j).job ∧ (w'.view j).timer = (w.view j).timer := by
    intro j
    by_cases hj : j = a.jobId
    · rw [hj]
      exact ⟨h.own.job.trans hjob, h.own.timer.trans htimer⟩
    · exact ⟨(h.others j hj).job, (h.others j hj).timer⟩
  constructor
  · rw [h.admission, hactive]
  · exact HashMap.ext fun j => (hviews j).1
  · exact HashMap.ext fun j => (hviews j).2

/-- A quiet action keeps the books and asks for nothing. -/
theorem World.Reacts.quiet (h : World.Reacts E w a o out w') (ha : a.isQuiet = true) :
    World.SameBooks w w' ∧ out = [] := by
  have hreact : (w.view a.jobId).react (w.env o) a =
      ⟨w.view a.jobId, [], ((w.view a.jobId).react (w.env o) a).effects⟩ := by
    cases a <;> first | rfl | cases ha
  constructor
  · apply h.same_books
    · cases a <;> first | rfl | cases ha
    · rw [hreact]
    · rw [hreact]
  · rw [h.out_eq, hreact]

end Pop

/-- Draining quiet actions keeps the books. -/
theorem Loop.quiet_drain {c c' : Loop σ} {t : List (Action × PopLog)}
    (h : Run (Pop (World.Step E)) c t c') (hq : ∀ a ∈ c.queue, a.isQuiet = true) :
    World.SameBooks c.world c'.world := by
  induction h with
  | nil => exact .refl _
  | cons hpop _ ih =>
    rcases pop_iff.mp hpop with ⟨rest, out, hq₀, hq₁, hstep⟩
    rw [hq₀] at hq
    have hquiet := hstep.reacts.quiet (hq _ List.mem_cons_self)
    refine hquiet.1.trans (ih ?_)
    rw [hq₁, hquiet.2, List.append_nil]
    exact fun a ha => hq a (List.mem_cons_of_mem _ ha)

/-! ## A slot that is not given back -/

/-- Nothing in the queue can lead to a `Finished`. -/
def Unfinishing (q : List Action) : Prop := ∀ a ∈ q, a.isFinish = false ∧ a.isPoll = false

/-- No outcome asks for a poll. -/
theorem JobView.Outcome.no_poll {id : JobId} {v v' : JobView} {o : PopLog} {a : Action}
    {out : List Action} (h : v.Outcome id o a v' out) : ∀ b ∈ out, b.isPoll = false := by
  cases h <;> simp [JobView.interests, Action.isPoll]

/-- Nothing but a `Finished` takes the counter down. -/
theorem AdmissionControlModule.active_le (m : AdmissionControlModule) {a : Action}
    (ha : a.isFinish = false) : m.activeJobs ≤ (m.handle a).1.activeJobs := by
  cases a with
  | submit =>
    unfold handle
    dsimp only
    split
    · exact le_rfl
    · exact Nat.le_succ _
  | finished => cases ha
  | _ => exact le_rfl

/-- Without polls, the queue stays free of `Finished` and the counter does not go down. -/
theorem Loop.unfinishing_pop {c c' : Loop σ} {l : Action × PopLog}
    (h : Pop (World.Step E) c l c') (hq : Unfinishing c.queue) :
    Unfinishing c'.queue ∧ c.world.dispatcher.admission.activeJobs ≤
      c'.world.dispatcher.admission.activeJobs := by
  rcases pop_iff.mp h with ⟨rest, out, hq₀, hq₁, hstep⟩
  have hr := hstep.reacts
  rw [hq₀] at hq
  have hhead := hq _ List.mem_cons_self
  constructor
  · rw [hq₁]
    intro b hb
    rcases List.mem_append.mp hb with hb | hb
    · exact hq b (List.mem_cons_of_mem _ hb)
    · refine ⟨?_, hr.outcome.no_poll b hb⟩
      rcases hr.outcome.finish_out with h0 | ⟨hpoll, -⟩
      · rw [List.countP_eq_zero] at h0
        exact Bool.eq_false_iff.mpr (h0 b hb)
      · rw [hpoll] at hhead
        cases hhead.2
  · rw [hr.admission]
    exact AdmissionControlModule.active_le _ hhead.1

theorem Loop.unfinishing_drain {c c' : Loop σ} {t : List (Action × PopLog)}
    (h : Run (Pop (World.Step E)) c t c') (hq : Unfinishing c.queue) :
    Unfinishing c'.queue ∧ c.world.dispatcher.admission.activeJobs ≤
      c'.world.dispatcher.admission.activeJobs := by
  induction h with
  | nil => exact ⟨hq, le_rfl⟩
  | cons hpop _ ih =>
    have hstep := Loop.unfinishing_pop hpop hq
    have hrest := ih hstep.1
    exact ⟨hrest.1, hstep.2.trans hrest.2⟩

/-! ## Rejected submissions -/

/-- A submission that is let in takes a slot and does not give it back in its batch. -/
theorem Loop.admitted_keeps_slot {c c' : Loop σ} {t : List (Action × PopLog)} {id : JobId}
    {owner : UInt32} {exec : ExecSpec} {policy : ExecPolicy} {rest : List Action}
    (h : Run (Pop (World.Step E)) c t c') (hq : c.queue = .submit id owner exec policy :: rest)
    (hrest : Unfinishing rest) (hdone : c'.queue = [])
    (hfree : c.world.dispatcher.admission.activeJobs < c.world.dispatcher.admission.maxJobs) :
    c.world.dispatcher.admission.activeJobs < c'.world.dispatcher.admission.activeJobs := by
  have hun : Unfinishing c.queue := by
    rw [hq]
    intro a ha
    rcases List.mem_cons.mp ha with rfl | ha
    · exact ⟨rfl, rfl⟩
    · exact hrest a ha
  cases h with
  | nil => rw [hdone] at hq; cases hq
  | @cons _ l c₁ t _ hpop hrun =>
    have hstep := Loop.unfinishing_pop hpop hun
    have hdrain := Loop.unfinishing_drain hrun hstep.1
    rcases pop_iff.mp hpop with ⟨rest', out, hq₀, -, hs⟩
    rw [hq, List.cons.injEq] at hq₀
    have hadm := hs.reacts.admission
    rw [← hq₀.1] at hadm
    unfold AdmissionControlModule.handle at hadm
    dsimp only at hadm
    rw [if_neg (by omega)] at hadm
    rw [hadm] at hdrain
    exact hdrain.2

/-- A submission that finds no free slot is answered by a rejection and a log entry. -/
theorem Loop.refused_pop {c c' : Loop σ} {l : Action × PopLog} {id : JobId} {owner : UInt32}
    {exec : ExecSpec} {policy : ExecPolicy} {rest : List Action}
    (h : Pop (World.Step E) c l c') (hq : c.queue = .submit id owner exec policy :: rest)
    (hfull : c.world.dispatcher.admission.maxJobs ≤ c.world.dispatcher.admission.activeJobs) :
    World.SameBooks c.world c'.world ∧
      ∃ err, c'.queue = rest ++ [.rejected id, .emitLog .error (.error id err)] := by
  rcases pop_iff.mp h with ⟨rest', out, hq₀, hq₁, hs⟩
  rw [hq, List.cons.injEq] at hq₀
  have hr := hs.reacts
  rw [← hq₀.1] at hr
  have hhandle : c.world.dispatcher.admission.handle (.submit id owner exec policy) = _ :=
    if_pos hfull
  constructor
  · apply hr.same_books
    · rw [hhandle]
    · rfl
    · rfl
  · have hout : out = (c.world.dispatcher.admission.handle (.submit id owner exec policy)).2 :=
      hr.out_eq
    exact ⟨_, by rw [hq₁, ← hq₀.2, hout, hhandle]⟩

/-- In any world, a rejected submission leaves counter, jobs and timers as they were exactly
when it was rejected for want of a free slot. -/
theorem rejected_same_books_iff {w w' : World σ} {t : List (Action × PopLog)} {id : JobId}
    {owner : UInt32} {exec : ExecSpec} {policy : ExecPolicy}
    (hrun : Run (Pop (World.Step E)) ⟨w, [.submit id owner exec policy]⟩ t ⟨w', []⟩)
    (_hrejected : .rejected id ∈ t.map Prod.fst) :
    World.SameBooks w w' ↔
      w.dispatcher.admission.maxJobs ≤ w.dispatcher.admission.activeJobs := by
  constructor
  · intro hsame
    by_contra hfree
    have hslot := Loop.admitted_keeps_slot hrun rfl (fun _ h => absurd h List.not_mem_nil) rfl
      (by show w.dispatcher.admission.activeJobs < w.dispatcher.admission.maxJobs; omega)
    have hactive := hsame.active
    dsimp only at hslot
    omega
  · intro hfull
    cases hrun with
    | cons hpop hrest =>
      rcases Loop.refused_pop hpop rfl hfull with ⟨hsame, err, hq₁⟩
      refine hsame.trans (Loop.quiet_drain hrest ?_)
      rw [hq₁]
      intro a ha
      simp only [List.nil_append, List.mem_cons, List.not_mem_nil, or_false] at ha
      rcases ha with rfl | rfl <;> rfl

namespace EffectExecutor

/-- The only slot is free, and the process of the submitted job cannot be started. -/
noncomputable def spawnRefused : List (Action × PopLog) × Loop EffectExecutor :=
  Loop.runPops executor (List.replicate 9 (.still 0, .spawnFails))
    ⟨⟨.new 1, .new, .new⟩, [.submit 1 0 .bare (.graceful (some 1))]⟩

theorem spawnRefused_run : Run (Pop (World.Step executor))
    ⟨⟨.new 1, .new, .new⟩, [.submit 1 0 .bare (.graceful (some 1))]⟩ spawnRefused.1
    ⟨spawnRefused.2.world, []⟩ :=
  Loop.runPops_run executor _ _

theorem rejected_same_books_iff_spawnRefused :
    World.SameBooks (⟨.new 1, .new, .new⟩ : World EffectExecutor) spawnRefused.2.world ↔ 1 ≤ 0 :=
  rejected_same_books_iff spawnRefused_run (by decide)

/-- A submission whose spawn fails is rejected, and keeps the slot, the job and the timer. -/
theorem spawn_failure_leaves_traces :
    ∃ t c, Run (Loop.Step executor) (.init 1 .new)
        (.feed [.submit 1 0 .bare (.graceful (some 1))] [] :: Loop.popLabels t) c ∧
      c.queue = [] ∧ .rejected 1 ∈ t.map Prod.fst ∧
      c.world.dispatcher.admission = ⟨1, 1⟩ ∧ (c.world.state.jobs.get 1).isSome = true ∧
      (c.world.dispatcher.timeout.tracking.get 1).isSome = true := by
  have hacts : ∀ a ∈ [Action.submit 1 0 .bare (.graceful (some 1))], a.isInput = true := by
    decide
  have hrun : Run (Loop.Step executor) (.init 1 .new) (.feed _ [] :: _) spawnRefused.2 :=
    Loop.batch_run executor (List.replicate 9 (.still 0, .spawnFails)) rfl hacts
  exact ⟨spawnRefused.1, spawnRefused.2, hrun, by decide, by decide, by decide, by decide,
    by decide⟩

end EffectExecutor
end CoreShift
