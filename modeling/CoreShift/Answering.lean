import CoreShift.Rejection
import CoreShift.MidLevel.Ipc

/-!
# The answers of a batch, in their order

A batch of requests is answered while the queue is processed. A query, a control of a job that
can be signalled and a submission that is refused are answered by the follow-up of their own
pop; a submission that is let in is answered when its process was started, or was not. Since the
queue is first in, first out, the answers of the first kind come before those of the second,
and within each kind they keep the order of the requests. `Answering` is the invariant: what
was answered, followed by what the queue will still answer, is fixed when the batch is fed.
-/

namespace CoreShift

open Utils WorkQueue

variable {σ α : Type} {E : Executor σ α}

/-! ## Kinds of requests -/

/-- What a client can ask for. -/
inductive Ask
  | exec
  | result
  | cancel
deriving DecidableEq, Repr

/-- The kind of a request, if the action is one. -/
def Action.ask : Action → Option Ask
  | .submit .. => some .exec
  | .query _ => some .result
  | .control .. => some .cancel
  | _ => none

/-- A request finishes and polls nothing, and is no answer. -/
theorem Action.not_finish_of_ask {a : Action} (h : a.ask.isSome = true) :
    a.isFinish = false ∧ a.isPoll = false ∧ IpcModule.response a = none := by
  cases a <;> first | exact ⟨rfl, rfl, rfl⟩ | cases h

/-- The kind of request that a response answers. -/
def WireResponse.ask : WireResponse → Ask
  | .exec _ | .error => .exec
  | .result _ => .result
  | .cancelOk => .cancel

/-- The jobs that some requests name, with the kinds of the requests. -/
def asks (acts : List Action) : List (JobId × Ask) :=
  acts.filterMap fun a => a.ask.map fun kind => (a.jobId, kind)

/-- The requests that an action answers. -/
def answers (acts : List Action) : List (JobId × Ask) :=
  acts.filterMap fun a => (IpcModule.response a).map fun r => (r.1, r.2.ask)

/-- The submissions that a queued start will answer. -/
def starting (acts : List Action) : List (JobId × Ask) :=
  acts.filterMap fun
    | .startProcess id _ _ => some (id, .exec)
    | _ => none

/-- The submissions that were let in and are not yet to be started. -/
def admitting (acts : List Action) : List (JobId × Ask) :=
  acts.filterMap fun
    | .admitted id _ _ _ => some (id, .exec)
    | _ => none

section append

variable (acts acts' : List Action)

theorem asks_append : asks (acts ++ acts') = asks acts ++ asks acts' := List.filterMap_append

theorem answers_append : answers (acts ++ acts') = answers acts ++ answers acts' :=
  List.filterMap_append

theorem starting_append : starting (acts ++ acts') = starting acts ++ starting acts' :=
  List.filterMap_append

theorem admitting_append : admitting (acts ++ acts') = admitting acts ++ admitting acts' :=
  List.filterMap_append

end append

/-! ## Prompt and late answers -/

namespace World

/-- The request is answered by the follow-up of its pop, when `before` submissions are popped
earlier. -/
def prompt (w : World σ) (before : ℕ) : Action → Bool
  | .submit .. =>
    w.dispatcher.admission.activeJobs + before ≥ w.dispatcher.admission.maxJobs
  | .query _ => true
  | .control id _ => ProcessModule.signalable w.state id
  | _ => false

/-- The requests that are answered at once. -/
def prompts (w : World σ) : ℕ → List Action → List Action
  | _, [] => []
  | before, a :: acts =>
    (if w.prompt before a then [a] else []) ++ prompts w (before + a.isSubmit.toNat) acts

/-- The submissions that are let in. -/
def lates (w : World σ) : ℕ → List Action → List Action
  | _, [] => []
  | before, a :: acts =>
    (if a.isSubmit && !w.prompt before a then [a] else []) ++
      lates w (before + a.isSubmit.toNat) acts

/-- The requests of a batch that are answered, in the order of their answers. -/
def answeredInOrder (w : World σ) (acts : List Action) : List Action :=
  w.prompts 0 acts ++ w.lates 0 acts

theorem prompts_cons (w : World σ) (n : ℕ) (a : Action) (acts : List Action) :
    w.prompts n (a :: acts) =
      (if w.prompt n a then [a] else []) ++ w.prompts (n + a.isSubmit.toNat) acts := rfl

theorem lates_cons (w : World σ) (n : ℕ) (a : Action) (acts : List Action) :
    w.lates n (a :: acts) = (if a.isSubmit && !w.prompt n a then [a] else []) ++
      w.lates (n + a.isSubmit.toNat) acts := rfl

theorem prompts_congr {w w' : World σ} {s : ℕ}
    (h : ∀ n a, w'.prompt n a = w.prompt (n + s) a) (n : ℕ) (acts : List Action) :
    w'.prompts n acts = w.prompts (n + s) acts ∧ w'.lates n acts = w.lates (n + s) acts := by
  induction acts generalizing n with
  | nil => exact ⟨rfl, rfl⟩
  | cons a acts ih =>
    rw [prompts_cons, prompts_cons, lates_cons, lates_cons, (ih _).1, (ih _).2, h,
      Nat.add_right_comm]
    exact ⟨rfl, rfl⟩

/-- The requests that are answered at some time: all but controls of jobs that cannot be
signalled. -/
def answerable (w : World σ) : Action → Bool
  | .submit .. | .query _ => true
  | .control id _ => ProcessModule.signalable w.state id
  | _ => false

theorem mem_prompts_or_lates (w : World σ) (n : ℕ) (acts : List Action) (a : Action) :
    (a ∈ w.prompts n acts ∨ a ∈ w.lates n acts) ↔ a ∈ acts ∧ w.answerable a = true := by
  induction acts generalizing n with
  | nil => simp [prompts, lates]
  | cons b acts ih =>
    have hhead : (a ∈ (if w.prompt n b then [b] else []) ∨
        a ∈ (if b.isSubmit && !w.prompt n b then [b] else [])) ↔
          a = b ∧ w.answerable a = true := by
      by_cases hab : a = b
      · rw [hab]
        cases b with
        | submit => cases h : w.prompt n _ <;> simp [Action.isSubmit, Action.submitId, answerable]
        | query => simp [prompt, answerable, Action.isSubmit, Action.submitId]
        | control id =>
          cases h : ProcessModule.signalable w.state id <;>
            simp [prompt, answerable, Action.isSubmit, Action.submitId, h]
        | _ => simp [prompt, answerable, Action.isSubmit, Action.submitId]
      · have hno : ∀ p : Bool, a ∉ (if p then [b] else []) := by
          intro p
          cases p <;> simp [hab]
        simp [hno, hab]
    rw [prompts_cons, lates_cons, List.mem_append, List.mem_append, or_or_or_comm, hhead, ih,
      List.mem_cons]
    rw [← or_and_right]

theorem mem_answeredInOrder {w : World σ} {acts : List Action} {a : Action} :
    a ∈ w.answeredInOrder acts ↔ a ∈ acts ∧ w.answerable a = true := by
  unfold answeredInOrder
  rw [List.mem_append, mem_prompts_or_lates]

end World

/-! ## Follow-ups -/

/-- A queue without requests, in which every start finds its job. -/
structure Following (w : World σ) (q : List Action) : Prop where
  unfinishing : Unfinishing q
  asked : ∀ a ∈ q, a.ask = none
  starts : ∀ a ∈ q, a.isStart = true → (w.state.jobs.get a.jobId).isSome = true

/-- No outcome is a request. -/
theorem JobView.Outcome.no_ask {id : JobId} {v v' : JobView} {o : PopLog} {a : Action}
    {out : List Action} (h : v.Outcome id o a v' out) : ∀ b ∈ out, b.ask = none := by
  cases h <;> simp [JobView.interests, Action.ask]

/-- Only an admission, which creates the job, asks for a start. -/
theorem JobView.Outcome.start_out {id : JobId} {v v' : JobView} {o : PopLog} {a : Action}
    {out : List Action} (h : v.Outcome id o a v' out) :
    out.countP Action.isStart = 0 ∨ v'.job.isSome = true := by
  cases h with
  | admitted => exact Or.inr rfl
  | _ => exact Or.inl rfl

/-- Jobs are there to stay, as long as none is finished. -/
theorem JobView.Outcome.job_stays {id : JobId} {v v' : JobView} {o : PopLog} {a : Action}
    {out : List Action} (h : v.Outcome id o a v' out) (ha : a.isFinish = false)
    (hjob : v.job.isSome = true) : v'.job.isSome = true := by
  cases h with
  | admitted | started | stopped => rfl
  | finished => cases ha
  | _ => exact hjob

theorem World.Reacts.job_stays {w w' : World σ} {a : Action} {o : PopLog} {out : List Action}
    (h : World.Reacts E w a o out w') (ha : a.isFinish = false) {id : JobId}
    (hjob : (w.state.jobs.get id).isSome = true) : (w'.state.jobs.get id).isSome = true := by
  by_cases hid : id = a.jobId
  · subst hid
    have := h.outcome.job_stays ha hjob
    rwa [← h.own.job] at this
  · have := (h.others id hid).job
    show (w'.view id).job.isSome = true
    rw [this]
    exact hjob

/-- What a popped follow-up answers, and what it hands on: an admission becomes a start, and a
start an answer. -/
theorem JobView.Outcome.hands_on {id : JobId} {v v' : JobView} {o : PopLog} {a : Action}
    {out : List Action} (h : v.Outcome id o a v' out) (hask : a.ask = none)
    (hfinish : a.isFinish = false) (hpoll : a.isPoll = false)
    (hjob : a.isStart = true → v.job.isSome = true) :
    answers out = starting [a] ∧ starting out = admitting [a] ∧ admitting out = [] := by
  cases h with
  | refused | letIn | queried | queriedNone | controlled | controlDropped => cases hask
  | finished | finishedAbsent => cases hfinish
  | exited | running | unpolled => cases hpoll
  | startedAbsent hj =>
    rw [hj] at hjob
    cases hjob rfl
  | quiet hq => cases a <;> first | exact ⟨rfl, rfl, rfl⟩ | cases hq
  | _ => exact ⟨rfl, rfl, rfl⟩

/-- The follow-ups of an action that finishes and polls nothing join the queue. -/
theorem Following.extend {w w' : World σ} {a : Action} {rest out : List Action} {o : PopLog}
    (h : Following w rest) (hs : World.Reacts E w a o out w') (hfinish : a.isFinish = false)
    (hpoll : a.isPoll = false) : Following w' (rest ++ out) := by
  constructor
  · intro b hb
    rcases List.mem_append.mp hb with hb | hb
    · exact h.unfinishing b hb
    · refine ⟨?_, hs.outcome.no_poll b hb⟩
      rcases hs.outcome.finish_out with h0 | ⟨hpoll', -⟩
      · rw [List.countP_eq_zero] at h0
        exact Bool.eq_false_iff.mpr (h0 b hb)
      · rw [hpoll'] at hpoll
        cases hpoll
  · intro b hb
    rcases List.mem_append.mp hb with hb | hb
    · exact h.asked b hb
    · exact hs.outcome.no_ask b hb
  · intro b hb hstart
    rcases List.mem_append.mp hb with hb | hb
    · exact hs.job_stays hfinish (h.starts b hb hstart)
    · rcases hs.outcome.start_out with hnone | hnew
      · exact absurd hstart (List.countP_eq_zero.mp hnone b hb)
      · rw [← hs.own.job] at hnew
        rw [hs.outcome.out_jobId b hb]
        exact hnew

/-- The step lemma of the follow-ups. -/
theorem Following.pop {w w' : World σ} {a : Action} {rest out : List Action} {o : PopLog}
    (h : Following w (a :: rest)) (hs : World.Reacts E w a o out w') :
    Following w' (rest ++ out) ∧
      answers [a] ++ (answers (rest ++ out) ++ starting (rest ++ out) ++ admitting (rest ++ out)) =
        answers (a :: rest) ++ starting (a :: rest) ++ admitting (a :: rest) := by
  have hun := h.unfinishing a List.mem_cons_self
  have hask := h.asked a List.mem_cons_self
  have hrest : Following w rest :=
    ⟨fun b hb => h.unfinishing b (List.mem_cons_of_mem _ hb),
      fun b hb => h.asked b (List.mem_cons_of_mem _ hb),
      fun b hb => h.starts b (List.mem_cons_of_mem _ hb)⟩
  refine ⟨hrest.extend hs hun.1 hun.2, ?_⟩
  rcases hs.outcome.hands_on hask hun.1 hun.2 (h.starts a List.mem_cons_self) with ⟨h1, h2, h3⟩
  have hcons : a :: rest = [a] ++ rest := rfl
  rw [hcons]
  simp only [answers_append, starting_append, admitting_append, h1, h2, h3, List.append_assoc,
    List.append_nil]

/-! ## Requests -/

section Request

variable {w w' : World σ} {a : Action} {o : PopLog} {out : List Action}

/-- A request leaves the jobs alone. -/
theorem World.Reacts.request_jobs (h : World.Reacts E w a o out w') (ha : a.ask.isSome = true)
    (id : JobId) : w'.state.jobs.get id = w.state.jobs.get id := by
  by_cases hid : id = a.jobId
  · subst hid
    have hown := h.own.job
    have hout := h.outcome
    rw [show (w'.view a.jobId).job = w'.state.jobs.get a.jobId from rfl] at hown
    rw [hown]
    cases a with
    | submit | control => rfl
    | query id =>
      unfold JobView.react JobView.onQuery
      dsimp only
      split <;> rfl
    | _ => cases ha
  · exact (h.others id hid).job

/-- A request counts the submission that is let in, and nothing else. -/
theorem World.Reacts.request_active (h : World.Reacts E w a o out w') (ha : a.ask.isSome = true) :
    w'.dispatcher.admission.maxJobs = w.dispatcher.admission.maxJobs ∧
      w'.dispatcher.admission.activeJobs = w.dispatcher.admission.activeJobs +
        if a.isSubmit && !w.prompt 0 a then 1 else 0 := by
  rw [h.admission]
  cases a with
  | submit =>
    unfold AdmissionControlModule.handle
    by_cases hfull : w.dispatcher.admission.activeJobs ≥ w.dispatcher.admission.maxJobs
    · simp [hfull, World.prompt]
    · simp [hfull, World.prompt, Action.isSubmit, Action.submitId]
  | query | control => exact ⟨rfl, rfl⟩
  | _ => cases ha

/-- Whether a later request is answered at once does not change when a request is popped. -/
theorem World.Reacts.prompt_stable (h : World.Reacts E w a o out w') (ha : a.ask.isSome = true)
    (n : ℕ) (b : Action) : w'.prompt n b = w.prompt (n + a.isSubmit.toNat) b := by
  cases b with
  | submit =>
    rcases h.request_active ha with ⟨hmax, hactive⟩
    unfold World.prompt
    rw [hmax, hactive, decide_eq_decide]
    cases a with
    | submit =>
      unfold World.prompt
      by_cases hfull : w.dispatcher.admission.activeJobs ≥ w.dispatcher.admission.maxJobs
      · simp [hfull, Action.isSubmit, Action.submitId]
        omega
      · simp [hfull, Action.isSubmit, Action.submitId]
        omega
    | query | control => rfl
    | _ => cases ha
  | control id =>
    show ProcessModule.signalable w'.state id = ProcessModule.signalable w.state id
    unfold ProcessModule.signalable
    rw [h.request_jobs ha]
  | _ => rfl

/-- What a request is answered with, and what it hands on: it is answered at once, admitted, or
dropped. -/
theorem World.Reacts.request_out (h : World.Reacts E w a o out w') (ha : a.ask.isSome = true) :
    answers out = asks (if w.prompt 0 a then [a] else []) ∧ starting out = [] ∧
      admitting out = asks (if a.isSubmit && !w.prompt 0 a then [a] else []) := by
  rw [h.out_eq]
  cases a with
  | submit id owner exec policy =>
    unfold JobView.react AdmissionControlModule.handle
    by_cases hfull : w.dispatcher.admission.activeJobs ≥ w.dispatcher.admission.maxJobs
    · simp [hfull, World.prompt, World.env]
      exact ⟨rfl, rfl, rfl⟩
    · simp [hfull, World.prompt, World.env]
      exact ⟨rfl, rfl, rfl⟩
  | query id =>
    unfold JobView.react JobView.onQuery
    dsimp only
    split <;> exact ⟨rfl, rfl, rfl⟩
  | control id signal =>
    unfold JobView.react World.prompt
    dsimp only
    rw [show w.view (Action.control id signal).jobId = w.view id from rfl,
      ← World.signalable_view]
    by_cases hs : ProcessModule.signalable w.state id = true
    · rw [if_pos hs, if_pos hs]
      exact ⟨rfl, rfl, rfl⟩
    · rw [if_neg hs, if_neg hs]
      exact ⟨rfl, rfl, rfl⟩
  | _ => cases ha

end Request

/-! ## The invariant -/

/-- What is still to be answered, when `requests` are popped before `rest`. -/
def World.dueAfter (w : World σ) (requests rest : List Action) : List (JobId × Ask) :=
  answers rest ++ asks (w.prompts 0 requests) ++ starting rest ++
    (admitting rest ++ asks (w.lates 0 requests))

/-- After the answers of `past`, the rest of `target` is due. -/
def Answering (target : List (JobId × Ask)) (past : List (Action × PopLog)) (c : Loop σ) : Prop :=
  ∃ requests rest, c.queue = requests ++ rest ∧ (∀ a ∈ requests, a.ask.isSome = true) ∧
    Following c.world rest ∧
    answers (past.map Prod.fst) ++ c.world.dueAfter requests rest = target

/-- A batch is fed: nothing was answered, and all its requests are still there. -/
theorem Answering.start {c : Loop σ} {acts rest : List Action} (hq : c.queue = acts ++ rest)
    (hacts : ∀ a ∈ acts, a.ask.isSome = true) (hrest : ∀ a ∈ rest, ∃ id, a = .performIo id) :
    Answering (asks (c.world.answeredInOrder acts)) [] c := by
  refine ⟨acts, rest, hq, hacts, ?_, ?_⟩
  · constructor
    · intro a ha
      rcases hrest a ha with ⟨id, rfl⟩
      exact ⟨rfl, rfl⟩
    · intro a ha
      rcases hrest a ha with ⟨id, rfl⟩
      rfl
    · intro a ha hs
      rcases hrest a ha with ⟨id, rfl⟩
      cases hs
  · have hio : answers rest = [] ∧ starting rest = [] ∧ admitting rest = [] := by
      unfold answers starting admitting
      simp only [List.filterMap_eq_nil_iff]
      refine ⟨?_, ?_, ?_⟩ <;>
      · intro a ha
        rcases hrest a ha with ⟨id, rfl⟩
        rfl
    unfold World.dueAfter World.answeredInOrder
    rw [hio.1, hio.2.1, hio.2.2, asks_append]
    simp only [List.nil_append, List.append_nil]
    rfl

/-- The step lemma. -/
theorem Answering.pop {target : List (JobId × Ask)} {past : List (Action × PopLog)} {c c' : Loop σ}
    {l : Action × PopLog} (h : Answering target past c) (hpop : Pop (World.Step E) c l c') :
    Answering target (past ++ [l]) c' := by
  rcases h with ⟨requests, rest, hq, hasked, hfollow, htarget⟩
  rcases pop_iff.mp hpop with ⟨tail, out, hq₀, hq₁, hstep⟩
  have hs := hstep.reacts
  have hpast : answers ((past ++ [l]).map Prod.fst) =
      answers (past.map Prod.fst) ++ answers [l.1] := by
    rw [List.map_append, answers_append]
    rfl
  cases requests with
  | nil =>
    -- all requests were popped: the follow-ups take their course
    rw [List.nil_append] at hq
    rw [hq] at hq₀
    rw [hq₀] at hfollow htarget
    rcases hfollow.pop hs with ⟨hfollow', hdue⟩
    refine ⟨[], tail ++ out, hq₁, hasked, hfollow', ?_⟩
    rw [← htarget, hpast, List.append_assoc]
    congr 1
    simpa [World.dueAfter, World.prompts, World.lates, asks] using hdue
  | cons a requests =>
    rw [hq, List.cons_append, List.cons.injEq] at hq₀
    rcases hq₀ with ⟨rfl, rfl⟩
    have ha := hasked _ List.mem_cons_self
    rcases hs.request_out ha with ⟨h1, h2, h3⟩
    refine ⟨requests, rest ++ out, ?_, fun b hb => hasked b (List.mem_cons_of_mem _ hb), ?_, ?_⟩
    · rw [hq₁, List.append_assoc]
    · exact hfollow.extend hs (Action.not_finish_of_ask ha).1 (Action.not_finish_of_ask ha).2.1
    · have hcongr := World.prompts_congr (hs.prompt_stable ha) 0 requests
      have hnone : answers [l.1] = [] := by
        unfold answers
        rw [List.filterMap_cons, (Action.not_finish_of_ask ha).2.2]
        rfl
      rw [← htarget, hpast, hnone, List.append_nil]
      congr 1
      unfold World.dueAfter
      rw [hcongr.1, hcongr.2, World.prompts_cons, World.lates_cons]
      simp only [answers_append, starting_append, admitting_append, asks_append, h1, h2, h3,
        List.append_assoc, List.append_nil]

/-- The run lemma: what is answered is a beginning of what the batch is answered with, and all
of it once the queue is empty. -/
theorem answers_of_batch {c c' : Loop σ} {u : List (Action × PopLog)} {acts rest : List Action}
    (h : Run (Pop (World.Step E)) c u c') (hq : c.queue = acts ++ rest)
    (hacts : ∀ a ∈ acts, a.ask.isSome = true) (hrest : ∀ a ∈ rest, ∃ id, a = .performIo id) :
    (∃ later, answers (u.map Prod.fst) ++ later = asks (c.world.answeredInOrder acts)) ∧
      (c'.queue = [] → answers (u.map Prod.fst) = asks (c.world.answeredInOrder acts)) := by
  have hfinal := h.invariant_trace [] (fun _ _ _ _ => Answering.pop)
    (Answering.start hq hacts hrest)
  rw [List.nil_append] at hfinal
  rcases hfinal with ⟨requests, rest', hq', -, -, htarget⟩
  refine ⟨⟨_, htarget⟩, ?_⟩
  intro hdone
  rw [hdone] at hq'
  rcases List.append_eq_nil_iff.mp hq'.symm with ⟨rfl, rfl⟩
  rw [← htarget]
  exact (List.append_nil _).symm

end CoreShift
