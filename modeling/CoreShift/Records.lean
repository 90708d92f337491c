import CoreShift.Readiness
import CoreShift.Results

/-!
# Records of the loop

A label of the loop says what is popped and what the executor reports. A record also has what the
system answered, which the executor keeps: the child that a start returned, the bytes that were
read. It is a run of the loop with the handling of each action in place of its label.
-/

namespace CoreShift

open Utils WorkQueue

open EffectExecutor (executor)

/-! ## Entries -/

/-- An entry of a record: inputs that are fed, or an action as it is handled. -/
inductive Entry (σ α : Type)
  | feed (acts : List Action) (events : List Event)
  | pop (h : Handling σ α)

section

variable {σ α : Type} {E : Executor σ α}

namespace Entry

def label (E : Executor σ α) : Entry σ α → Label
  | .feed acts events => .feed acts events
  | .pop h => .pop h.action (h.log E)

def handling : Entry σ α → Option (Handling σ α)
  | .feed _ _ => none
  | .pop h => some h

end Entry

/-- The actions of a record as they are handled. -/
def handlings (ks : List (Entry σ α)) : List (Handling σ α) := ks.filterMap Entry.handling

theorem mem_handlings {ks : List (Entry σ α)} {h : Handling σ α} :
    h ∈ handlings ks ↔ .pop h ∈ ks := by
  unfold handlings
  rw [List.mem_filterMap]
  constructor
  · rintro ⟨k, hk, heq⟩
    cases k with
    | feed => cases heq
    | pop => cases heq; exact hk
  · exact fun hh => ⟨_, hh, rfl⟩

theorem handlings_append (ks ks' : List (Entry σ α)) :
    handlings (ks ++ ks') = handlings ks ++ handlings ks' := List.filterMap_append

theorem pops_labels (E : Executor σ α) (ks : List (Entry σ α)) :
    Label.pops (ks.map (Entry.label E)) =
      (handlings ks).map fun h => (h.action, h.log E) := by
  induction ks with
  | nil => rfl
  | cons k ks ih =>
    cases k with
    | feed => exact ih
    | pop h => exact congrArg ((h.action, h.log E) :: ·) ih

namespace Loop

/-- The steps of the loop, with all that is read from outside. -/
inductive Records (E : Executor σ α) : Loop σ → Entry σ α → Loop σ → Prop
  | pop {h : Handling σ α} {rest : List Action} :
      Records E ⟨h.before, h.action :: rest⟩ (.pop h) ⟨h.after E, rest ++ h.out E⟩
  | feed {c : Loop σ} {acts : List Action} {events : List Event} : c.queue = [] →
      (∀ a ∈ acts, a.isInput = true) → (∀ ev ∈ events, ev.isReady = true) →
      Records E c (.feed acts events) (c.feed acts events)

theorem Records.process (E : Executor σ α) (amb : Ambient) (ans : α) (w : World σ) (a : Action)
    (rest : List Action) :
    Records E ⟨w, a :: rest⟩ (.pop ⟨w, a, amb, ans⟩)
      ⟨(World.process E amb ans w a).1, rest ++ (World.process E amb ans w a).2.1⟩ :=
  .pop (h := ⟨w, a, amb, ans⟩)

theorem Records.step {c c' : Loop σ} {k : Entry σ α} (h : Records E c k c') :
    Step E c (k.label E) c' := by
  cases h with
  | @pop h rest => exact .pop (pop_iff.mpr ⟨rest, h.out E, rfl, rfl, h.amb, h.ans, rfl⟩)
  | feed hq hacts hready => exact .feed hq hacts hready

theorem Records.handles {c c' : Loop σ} {k : Entry σ α} (h : Records E c k c') :
    Run (World.Handles E) c.world k.handling.toList c'.world := by
  cases h with
  | pop => exact .single ⟨rfl, rfl⟩
  | feed _ _ hready => rw [feed_world _ _ hready]; exact .nil _

/-- Each step of the loop can be recorded. -/
theorem Step.exists_record {c c' : Loop σ} {l : Label} (h : Step E c l c') :
    ∃ k, Records E c k c' ∧ k.label E = l := by
  cases h with
  | feed hq hacts hready => exact ⟨_, .feed hq hacts hready, rfl⟩
  | @pop a o c' hpop =>
    rcases hpop with @⟨w, _, _, out, w', rest, amb, ans, hproc⟩
    have hrecord := Records.process E amb ans w a rest
    rw [hproc] at hrecord
    refine ⟨_, hrecord, ?_⟩
    show Label.pop a (World.process E amb ans w a).2.2 = _
    rw [hproc]

/-- Each run of the loop has a record. -/
theorem exists_record {c c' : Loop σ} {t : List Label} (h : Run (Step E) c t c') :
    ∃ ks, Run (Records E) c ks c' ∧ ks.map (Entry.label E) = t := by
  induction h with
  | nil => exact ⟨[], .nil _, rfl⟩
  | cons hs _ ih =>
    have ⟨k, hk, hlabel⟩ := hs.exists_record
    have ⟨ks, hks, hlabels⟩ := ih
    refine ⟨k :: ks, .cons hk hks, ?_⟩
    rw [List.map_cons, hlabel, hlabels]

variable {c c' : Loop σ} {ks : List (Entry σ α)}

theorem record_run (h : Run (Records E) c ks c') : Run (Step E) c (ks.map (Entry.label E)) c' :=
  h.map (fun c => c) (Entry.label E) fun _ _ _ hk => hk.step

theorem record_handles (h : Run (Records E) c ks c') :
    Run (World.Handles E) c.world (handlings ks) c'.world := by
  induction h with
  | nil => exact .nil _
  | @cons c k c₁ ks c₂ hk _ ih =>
    have hsplit : handlings (k :: ks) = k.handling.toList ++ handlings ks := filterMap_cons_eq _ _ _
    rw [hsplit]
    exact hk.handles.append ih

/-- The record of some pops. -/
def recordPops (E : Executor σ α) : List (Ambient × α) → Loop σ → List (Entry σ α) × Loop σ
  | [], c => ([], c)
  | (amb, ans) :: envs, c =>
    match c.queue with
    | [] => ([], c)
    | a :: rest =>
      let h : Handling σ α := ⟨c.world, a, amb, ans⟩
      let tail := recordPops E envs ⟨h.after E, rest ++ h.out E⟩
      (.pop h :: tail.1, tail.2)

theorem recordPops_run (E : Executor σ α) (envs : List (Ambient × α)) (c : Loop σ) :
    Run (Records E) c (recordPops E envs c).1 (recordPops E envs c).2 := by
  induction envs generalizing c with
  | nil => exact .nil c
  | cons env envs ih =>
    have ⟨w, q⟩ := c
    cases q with
    | nil => exact .nil _
    | cons a rest => exact .cons (.process E env.1 env.2 w a rest) (ih _)

end Loop

end

/-! ## Records of the executor -/

/-- A record from the start, in which each start is one of `spawn_start`. -/
structure Recorded (maxJobs : ℕ) (ks : List (Entry EffectExecutor OsAnswer))
    (c : Loop EffectExecutor) : Prop where
  run : Run (Loop.Records executor) (.init maxJobs .new) ks c
  spawns : ∀ h, .pop h ∈ ks → ∀ id exec policy, h.action = .startProcess id exec policy →
    ∃ ans, h.ans.spawn = (spawnStart id (EffectExecutor.startOptions exec policy) ans).result

/-- The labels of a record. -/
abbrev labelsOf (ks : List (Entry EffectExecutor OsAnswer)) : List Label :=
  ks.map (Entry.label executor)

theorem labelsOf_append (ks ks' : List (Entry EffectExecutor OsAnswer)) :
    labelsOf (ks ++ ks') = labelsOf ks ++ labelsOf ks' := List.map_append

/-- The place of a popped action among the labels is that of its handling in the record. -/
theorem labelsOf_eq_append {ks : List (Entry EffectExecutor OsAnswer)} {t₁ t₂ : List Label}
    {a : Action} {o : PopLog} (hks : labelsOf ks = t₁ ++ .pop a o :: t₂) :
    ∃ ks₁ h ks₂, ks = ks₁ ++ .pop h :: ks₂ ∧ labelsOf ks₁ = t₁ ∧ h.action = a ∧
      h.log executor = o := by
  have ⟨ks₁, ks', hsplit, hfirst, hrest⟩ := List.map_eq_append_iff.mp hks
  have ⟨k, ks₂, hcons, hlabel, _⟩ := List.map_eq_cons_iff.mp hrest
  subst hsplit hcons
  cases k with
  | feed => cases hlabel
  | pop h =>
    have ⟨haction, hlog⟩ := Label.pop.inj hlabel
    exact ⟨ks₁, h, ks₂, rfl, hfirst, haction, hlog⟩

/-- What is started is one of the tasks of the record. -/
theorem task_of_start {ks : List (Entry EffectExecutor OsAnswer)}
    {h : Handling EffectExecutor OsAnswer} (hh : h ∈ handlings ks) {id : JobId} {exec : ExecSpec}
    {policy : ExecPolicy} (ha : h.action = .startProcess id exec policy) :
    ⟨id, exec, policy⟩ ∈ tasksStarted (labelsOf ks) := by
  have htask : ⟨id, exec, policy⟩ ∈ (h.log executor).effects.filterMap Effect.task := by
    rw [(h.reacts executor).tasks, ha]
    exact List.mem_singleton.mpr rfl
  have ⟨e, he, heq⟩ := List.mem_filterMap.mp htask
  rw [tasksStarted, pops_labels, List.mem_filterMap]
  exact ⟨e, List.mem_flatMap.mpr ⟨_, List.mem_map_of_mem hh, he⟩, heq⟩

namespace Recorded

variable {maxJobs : ℕ} {ks ks₁ ks₂ : List (Entry EffectExecutor OsAnswer)}
  {h : Handling EffectExecutor OsAnswer} {c : Loop EffectExecutor}

theorem loop (hrec : Recorded maxJobs ks c) :
    Run (Loop.Step executor) (.init maxJobs .new) (labelsOf ks) c := Loop.record_run hrec.run

theorem handles (hrec : Recorded maxJobs ks c) :
    Run (World.Handles executor) (Loop.init maxJobs EffectExecutor.new).world (handlings ks)
      c.world := Loop.record_handles hrec.run

/-- What comes before an action is a record too, to the state in which the action is handled. -/
theorem before (hrec : Recorded maxJobs (ks₁ ++ .pop h :: ks₂) c) :
    ∃ rest, Recorded maxJobs ks₁ ⟨h.before, h.action :: rest⟩ := by
  have ⟨c₁, hfirst, hrest⟩ := Run.append_iff.mp hrec.run
  have ⟨c₂, hk, _⟩ := Run.cons_iff.mp hrest
  have hspawns := fun h hh => hrec.spawns h (List.mem_append_left _ hh)
  cases hk with
  | pop => exact ⟨_, hfirst, hspawns⟩

theorem exists_before (hrec : Recorded maxJobs ks c) (hh : h ∈ handlings ks) :
    ∃ ks₁ ks₂ rest, ks = ks₁ ++ .pop h :: ks₂ ∧
      Recorded maxJobs ks₁ ⟨h.before, h.action :: rest⟩ := by
  have ⟨ks₁, ks₂, hks⟩ := List.append_of_mem (mem_handlings.mp hh)
  subst hks
  have ⟨rest, hrec₁⟩ := hrec.before
  exact ⟨ks₁, ks₂, rest, rfl, hrec₁⟩

/-- The record of one job, with the same answers throughout. -/
theorem of_task {task : Task} {n : ℕ} {ans : OsAnswer} (sys : SpawnAnswers)
    (hrun : Run (Loop.Records executor) (.init maxJobs .new) ks c)
    (hanswers : (handlings ks).map Handling.ans = List.replicate n ans)
    (htasks : tasksStarted (labelsOf ks) = [task])
    (hspawn : ans.spawn = (spawnStart task.id
      (EffectExecutor.startOptions task.exec task.policy) sys).result) :
    Recorded maxJobs ks c := by
  refine ⟨hrun, fun h hk id exec policy ha => ⟨sys, ?_⟩⟩
  have hh := mem_handlings.mpr hk
  have hans : h.ans = ans := by
    have hmem := List.mem_map_of_mem (f := Handling.ans) hh
    rw [hanswers] at hmem
    exact List.eq_of_mem_replicate hmem
  have htask := task_of_start hh ha
  rw [htasks, List.mem_singleton] at htask
  rw [hans, hspawn, ← htask]

end Recorded

end CoreShift
