import CoreShift.Batches
import CoreShift.JobTable
import CoreShift.Owners

/-!
# The daemon is a table of jobs

Whenever its queue is empty, the daemon shows a table of jobs, and each of its rounds, together
with the work that the round leads to, does to that table what `JobTable.serve` says. What its
clients see of the round, the requests of their connections and the responses on these, is what
the table shows: the answers of `JobTable.answer`, each to the connection that asked last for its
job. All there is to the queue, the modules and the executor is then which processes start.
-/

namespace CoreShift

open Utils WorkQueue

variable {σ : Type} {json : Json}

/-! ## Requests and their actions -/

/-- The actions of some requests, when `n` commands came before. -/
def actionsFrom (n : ℕ) (reqs : List Request) : List Action :=
  (Router.handleAll ⟨jobNumber n⟩ reqs).2

theorem actionsFrom_exec (n : ℕ) (uid : UInt32) (cmd : Command) (reqs : List Request) :
    actionsFrom n (.exec uid cmd :: reqs) =
      Router.routed (jobNumber n) (.exec uid cmd) :: actionsFrom (n + 1) reqs := by
  unfold actionsFrom
  rw [Router.handleAll_cons, jobNumber_succ]
  cases cmd <;> rfl

theorem actionsFrom_getResult (n : ℕ) (uid : UInt32) (id : JobId) (reqs : List Request) :
    actionsFrom n (.getResult uid id :: reqs) = .query id :: actionsFrom n reqs := by
  unfold actionsFrom
  rw [Router.handleAll_cons]
  rfl

theorem actionsFrom_cancel (n : ℕ) (uid : UInt32) (id : JobId) (reqs : List Request) :
    actionsFrom n (.cancel uid id :: reqs) =
      .control id .gracefulStop :: actionsFrom n reqs := by
  unfold actionsFrom
  rw [Router.handleAll_cons]
  rfl

theorem handleAll_issued (n : ℕ) (reqs : List Request) :
    (Router.handleAll ⟨jobNumber n⟩ reqs).1 =
      ⟨jobNumber (n + (reqs.filterMap Request.command).length)⟩ := by
  induction reqs generalizing n with
  | nil => rfl
  | cons req reqs ih =>
    rw [Router.handleAll_cons, filterMap_cons_eq, List.length_append]
    cases req with
    | exec uid cmd =>
      have hone : ((⟨jobNumber n⟩ : Router).handle (.exec uid cmd)).1 = ⟨jobNumber (n + 1)⟩ := by
        rw [jobNumber_succ]
        cases cmd <;> rfl
      rw [hone, ih, Nat.add_assoc]
      rfl
    | getResult uid id | cancel uid id =>
      show (Router.handleAll ⟨jobNumber n⟩ reqs).1 = _
      rw [ih]
      simp [Request.command]

/-- Every action of a batch is a calm request. -/
theorem actionsFrom_batch (n : ℕ) (reqs : List Request) : Batch (actionsFrom n reqs) := by
  induction reqs generalizing n with
  | nil => exact fun a ha => absurd ha List.not_mem_nil
  | cons req reqs ih =>
    intro a ha
    cases req with
    | exec uid cmd =>
      rw [actionsFrom_exec] at ha
      rcases List.mem_cons.mp ha with rfl | ha
      · exact ⟨rfl, rfl⟩
      · exact ih _ a ha
    | getResult uid id =>
      rw [actionsFrom_getResult] at ha
      rcases List.mem_cons.mp ha with rfl | ha
      · exact ⟨rfl, rfl⟩
      · exact ih _ a ha
    | cancel uid id =>
      rw [actionsFrom_cancel] at ha
      rcases List.mem_cons.mp ha with rfl | ha
      · exact ⟨rfl, rfl⟩
      · exact ih _ a ha

theorem control_mem_actionsFrom (n : ℕ) (reqs : List Request) (id : JobId) :
    .control id .gracefulStop ∈ actionsFrom n reqs ↔ cancels reqs id = true := by
  induction reqs generalizing n with
  | nil => simp [actionsFrom, Router.handleAll, cancels]
  | cons req reqs ih =>
    cases req with
    | exec uid cmd =>
      rw [actionsFrom_exec, List.mem_cons, ih]
      simp [Router.routed, cancels]
    | getResult uid id' =>
      rw [actionsFrom_getResult, List.mem_cons, ih]
      simp [cancels]
    | cancel uid id' =>
      rw [actionsFrom_cancel, List.mem_cons, ih, Action.control.injEq]
      unfold cancels
      rw [List.any_cons, Bool.or_eq_true, beq_iff_eq, and_iff_left rfl, eq_comm]

/-- The ids that a batch submits. -/
theorem submitIds_actionsFrom (n : ℕ) (reqs : List Request) :
    (actionsFrom n reqs).filterMap Action.submitId =
      (reqs.filterMap Request.command).mapIdx fun i _ => jobNumber (n + i) := by
  induction reqs generalizing n with
  | nil => rfl
  | cons req reqs ih =>
    cases req with
    | exec uid cmd =>
      have hshift : ∀ i, n + 1 + i = n + (i + 1) := by omega
      have hcmds : (Request.exec uid cmd :: reqs).filterMap Request.command =
          (uid, cmd) :: reqs.filterMap Request.command := rfl
      rw [actionsFrom_exec, filterMap_cons_eq, ih, hcmds, List.mapIdx_cons]
      simp only [hshift]
      rfl
    | getResult uid id =>
      rw [actionsFrom_getResult]
      exact ih n
    | cancel uid id =>
      rw [actionsFrom_cancel]
      exact ih n

/-! ## What the daemon shows -/

/-- The place of a job. -/
def JobState.place (job : JobState) : Place :=
  ⟨job.owner,
    if job.process.isNone then .failed else if job.timedOut then .stopping else .running⟩

/-- The world of an idle daemon with the jobs of a table. -/
structure World.Shows (w : World σ) (table : JobTable) : Prop where
  room : w.dispatcher.admission.maxJobs = 64
  active : w.dispatcher.admission.activeJobs = min 64 table.issued
  jobs : ∀ id, (w.state.jobs.get id).map JobState.place = table.get id

namespace World.Shows

variable {w w' : World σ} {table : JobTable}

/-- The jobs that can be signalled are the running ones. -/
theorem signalable_iff (h : w.Shows table) (id : JobId) :
    ProcessModule.signalable w.state id = table.running id := by
  unfold JobTable.running ProcessModule.signalable
  rw [← h.jobs]
  cases w.state.jobs.get id with
  | none => rfl
  | some job =>
    rcases job with ⟨_, owner, process, io, timedOut, pgroup, isolated⟩
    cases process <;> cases timedOut <;> rfl

/-- A command is refused if 64 or more came before it. -/
theorem prompt_submit (h : w.Shows table) (k : ℕ) (id : JobId) (owner : UInt32) (exec : ExecSpec)
    (policy : ExecPolicy) :
    w.prompt k (.submit id owner exec policy) = decide (64 ≤ table.issued + k) := by
  unfold World.prompt
  rw [h.room, h.active, decide_eq_decide]
  omega

/-- The submissions that are let in are those of the commands that get a place. -/
theorem lates (h : w.Shows table) (k : ℕ) (reqs : List Request) :
    w.lates k (actionsFrom (table.issued + k) reqs) =
      (JobTable.seated (table.issued + k) reqs).mapIdx fun i cmd =>
        Router.routed (jobNumber (table.issued + k + i)) (.exec cmd.1 cmd.2) := by
  induction reqs generalizing k with
  | nil =>
    unfold JobTable.seated
    rw [List.filterMap_nil, List.take_nil]
    rfl
  | cons req reqs ih =>
    cases req with
    | exec uid cmd =>
      have hprompt : w.prompt k (Router.routed (jobNumber (table.issued + k)) (.exec uid cmd)) =
          decide (64 ≤ table.issued + k) := h.prompt_submit k _ _ _ _
      have hsubmit : (Router.routed (jobNumber (table.issued + k)) (.exec uid cmd)).isSubmit =
          true := rfl
      rw [actionsFrom_exec, World.lates_cons, hprompt, hsubmit, Bool.toNat_true]
      rw [Nat.add_assoc table.issued k 1, ih (k + 1)]
      -- from the 65th command on nobody is seated
      by_cases hfull : 64 ≤ table.issued + k
      · rw [JobTable.seated_full hfull, JobTable.seated_full (by omega)]
        simp [hfull]
      · have hshift : ∀ i, table.issued + (k + 1) + i = table.issued + k + (i + 1) := by omega
        rw [JobTable.seated_exec (by omega), List.mapIdx_cons, Nat.add_assoc table.issued k 1,
          decide_eq_false hfull]
        simp only [hshift]
        rfl
    | getResult uid id =>
      rw [actionsFrom_getResult, World.lates_cons]
      exact ih k
    | cancel uid id =>
      rw [actionsFrom_cancel, World.lates_cons]
      exact ih k

/-- The numbers of the seated commands. -/
theorem lates_ids (h : w.Shows table) (reqs : List Request) :
    (w.lates 0 (actionsFrom table.issued reqs)).map Action.jobId =
      (JobTable.seated table.issued reqs).mapIdx fun i _ => jobNumber (table.issued + i) := by
  have hlates := h.lates 0 reqs
  rw [Nat.add_zero] at hlates
  rw [hlates]
  apply List.ext_getElem
  · simp
  · intro i hi hi'
    simp [Router.routed, Action.jobId]

theorem mem_lates_ids (h : w.Shows table) (reqs : List Request) (id : JobId) :
    id ∈ (w.lates 0 (actionsFrom table.issued reqs)).map Action.jobId ↔
      ∃ i, i < (JobTable.seated table.issued reqs).length ∧ jobNumber (table.issued + i) = id := by
  rw [h.lates_ids, List.mem_mapIdx]
  simp only [exists_prop]

theorem nodup_lates_ids (h : w.Shows table) (reqs : List Request) :
    ((w.lates 0 (actionsFrom table.issued reqs)).map Action.jobId).Nodup := by
  have hlen := JobTable.length_seated table.issued reqs
  rw [h.lates_ids]
  exact nodup_numbers (by omega) _

/-- The numbers that the seated commands get are free. -/
theorem free_numbers (h : w.Shows table) (reqs : List Request) :
    ∀ a ∈ w.lates 0 (actionsFrom table.issued reqs), w.state.jobs.get a.jobId = none := by
  intro a ha
  have hlen := JobTable.length_seated table.issued reqs
  rcases (h.mem_lates_ids reqs a.jobId).mp (List.mem_map_of_mem ha) with ⟨i, hi, hid⟩
  have hjobs := h.jobs a.jobId
  rw [← hid, JobTable.get_jobNumber (by omega), List.getElem?_eq_none] at hjobs
  · rw [← hid]
    exact Option.map_eq_none_iff.mp hjobs
  · rw [table.filled]
    omega

/-- A place after the cancels of a round. -/
theorem place_stopIf (job : JobState) (stopped : Bool) :
    JobTable.stopIf stopped job.place =
      (if stopped = true ∧ (job.process.isSome && !job.timedOut) = true then
        { job with timedOut := true } else job).place := by
  rcases job with ⟨_, owner, process, io, timedOut, pgroup, isolated⟩
  cases process <;> cases timedOut <;> cases stopped <;> rfl

/-- The jobs after a batch that settled are those of the table that served it. -/
theorem serve (h : w.Shows table) {reqs : List Request} {u : List (Action × PopLog)}
    (hs : Settles w (actionsFrom table.issued reqs) u w') (id : JobId) :
    (w'.state.jobs.get id).map JobState.place =
      (table.serve (fun id => decide (.started id ∈ u.map Prod.fst)) reqs).get id := by
  -- the number of a command of this batch, or any other
  by_cases hnew : id ∈ (w.lates 0 (actionsFrom table.issued reqs)).map Action.jobId
  · rcases (h.mem_lates_ids reqs id).mp hnew with ⟨i, hi, rfl⟩
    rw [JobTable.get_serve_new _ _ _ hi]
    have hlates := h.lates 0 reqs
    rw [Nat.add_zero] at hlates
    have hmem : Router.routed (jobNumber (table.issued + i))
        (.exec (JobTable.seated table.issued reqs)[i].1 (JobTable.seated table.issued reqs)[i].2) ∈
        w.lates 0 (actionsFrom table.issued reqs) := by
      rw [hlates, List.mem_mapIdx]
      exact ⟨i, hi, rfl⟩
    rcases hs.launched _ _ _ _ hmem with ⟨job, hjob, howner, hto, hprocess⟩
    rw [hjob, Option.map_some, JobState.place, howner, hto, JobTable.newPlace]
    cases hp : job.process with
    | none =>
      rw [hp] at hprocess
      rw [decide_eq_false fun ht => Bool.false_ne_true (hprocess.mpr ht)]
      rfl
    | some process =>
      rw [hp] at hprocess
      rw [decide_eq_true (hprocess.mp rfl)]
      rfl
  · have hold := hs.kept id hnew
    rw [JobTable.get_serve_old _ _ _ fun i hi heq =>
      hnew ((h.mem_lates_ids reqs id).mpr ⟨i, hi, heq⟩), hold, ← h.jobs, Option.map_map,
      Option.map_map]
    cases hjob : w.state.jobs.get id with
    | none => rfl
    | some job =>
      have hsignalable : ProcessModule.signalable w.state id =
          (job.process.isSome && !job.timedOut) := by
        unfold ProcessModule.signalable
        rw [hjob]
      rw [Option.map_some, Option.map_some, Function.comp_apply, Function.comp_apply,
        place_stopIf, hsignalable]
      simp only [control_mem_actionsFrom]

end World.Shows

/-! ## The answers -/

/-- The request that a response answers. -/
def answered (r : JobId × WireResponse) : JobId × Ask := (r.1, r.2.ask)

/-- The response to a request, when only a start can fail. -/
def respondTo (starts : JobId → Bool) (r : JobId × Ask) : JobId × WireResponse :=
  (r.1, match r.2 with
    | .exec => if starts r.1 then .exec r.1 else .error
    | .result => .result none
    | .cancel => .cancelOk)

theorem count_asks (w : World σ) (n : ℕ) (acts : List Action) (id : JobId) :
    (asks (w.prompts n acts)).count (id, .exec) + (asks (w.lates n acts)).count (id, .exec) =
      (acts.filterMap Action.submitId).count id := by
  induction acts generalizing n with
  | nil => rfl
  | cons a acts ih =>
    have hrest := ih (n + a.isSubmit.toNat)
    rw [World.prompts_cons, World.lates_cons, asks_append, asks_append, List.count_append,
      List.count_append, filterMap_cons_eq, List.count_append]
    have hhead : (asks (if w.prompt n a then [a] else [])).count (id, .exec) +
        (asks (if a.isSubmit && !w.prompt n a then [a] else [])).count (id, .exec) =
          a.submitId.toList.count id := by
      cases hp : w.prompt n a <;> cases a <;>
        simp [asks, Action.ask, Action.isSubmit, Action.submitId, Action.jobId, List.count_cons]
    omega

/-- Two different entries with the same image count twice. -/
theorem two_le_count_map {A B : Type} [BEq B] [LawfulBEq B] {f : A → B} {l : List A} {x y : A}
    (hx : x ∈ l) (hy : y ∈ l) (hne : x ≠ y) (hf : f y = f x) : 2 ≤ (l.map f).count (f x) := by
  rcases List.append_of_mem hx with ⟨l₁, l₂, rfl⟩
  rw [List.map_append, List.map_cons, List.count_append, List.count_cons_self]
  rcases List.mem_append.mp hy with hy | hy
  · have hpos : 0 < (l₁.map f).count (f x) :=
      List.count_pos_iff.mpr (hf ▸ List.mem_map_of_mem hy)
    omega
  · have hy := (List.mem_cons.mp hy).resolve_left fun heq => hne heq.symm
    have hpos : 0 < (l₂.map f).count (f x) :=
      List.count_pos_iff.mpr (hf ▸ List.mem_map_of_mem hy)
    omega

/-- If no command of a batch is answered twice, the responses are those to the requests, and a
command is answered by its number if and only if the number was told to have started. -/
theorem responses_of_asks {popped : List Action} {P : List (JobId × Ask)}
    (hP : (popped.filterMap IpcModule.response).map answered = P)
    (honce : ∀ id, P.count (id, .exec) ≤ 1) (hfinish : ∀ a ∈ popped, a.isFinish = false)
    (hresult : ∀ a ∈ popped, ∀ id out, a ≠ .queryResult id (some out)) :
    popped.filterMap IpcModule.response =
      P.map (respondTo fun id => decide (.started id ∈ popped)) := by
  rw [← hP, List.map_map]
  conv_lhs => rw [← List.map_id (popped.filterMap IpcModule.response)]
  refine List.map_congr_left ?_
  intro r hr
  rcases List.mem_filterMap.mp hr with ⟨a, ha, hresp⟩
  cases a with
  | started id =>
    cases hresp
    simp [answered, respondTo, WireResponse.ask, ha]
  | controlled id =>
    cases hresp
    rfl
  | queryResult id out =>
    cases hresp
    cases out with
    | none => rfl
    | some out => exact absurd rfl (hresult _ ha id out)
  | rejected id =>
    cases hresp
    -- else the same command would have two answers
    have hnot : .started id ∉ popped := by
      intro hstarted
      have hexec : (id, .exec id) ∈ popped.filterMap IpcModule.response :=
        List.mem_filterMap.mpr ⟨_, hstarted, rfl⟩
      have htwo : 2 ≤ ((popped.filterMap IpcModule.response).map answered).count (id, .exec) := by
        exact two_le_count_map (f := answered) hexec hr (by simp) rfl
      rw [hP] at htwo
      exact absurd (honce id) (by omega)
    simp [answered, respondTo, WireResponse.ask, hnot]
  | finished id result => cases hfinish _ ha
  | _ => cases hresp

namespace World.Shows

variable {w : World σ} {table : JobTable}

theorem answersNow (h : w.Shows table) (starts : JobId → Bool) (k : ℕ) {reqs : List Request}
    (hrefused : ∀ i, i < (reqs.filterMap Request.command).length → 64 ≤ table.issued + k + i →
      starts (jobNumber (table.issued + k + i)) = false) :
    table.answersNow (table.issued + k) reqs =
      (asks (w.prompts k (actionsFrom (table.issued + k) reqs))).map (respondTo starts) := by
  induction reqs generalizing k with
  | nil => rfl
  | cons req reqs ih =>
    cases req with
    | exec uid cmd =>
      have hprompt : w.prompt k (Router.routed (jobNumber (table.issued + k)) (.exec uid cmd)) =
          decide (64 ≤ table.issued + k) := h.prompt_submit k _ _ _ _
      have hrest := ih (k + 1) fun i hi hfull => by
        have hnext := hrefused (i + 1) (Nat.succ_lt_succ hi) (by omega)
        rwa [show table.issued + (k + 1) + i = table.issued + k + (i + 1) by omega]
      rw [actionsFrom_exec, World.prompts_cons, hprompt, asks_append, List.map_append,
        JobTable.answersNow, Nat.add_assoc table.issued k 1, hrest]
      congr 1
      by_cases hfull : 64 ≤ table.issued + k
      · have hnot := hrefused 0 (Nat.succ_pos _) (by omega)
        rw [Nat.add_zero] at hnot
        rw [decide_eq_true hfull, if_neg (by omega), if_pos rfl]
        show _ = [(_, if starts (jobNumber (table.issued + k)) then _ else _)]
        rw [hnot]
        rfl
      · rw [decide_eq_false hfull, if_pos (by omega)]
        rfl
    | getResult uid id =>
      rw [actionsFrom_getResult, World.prompts_cons, asks_append, List.map_append,
        JobTable.answersNow, ih k hrefused]
      rfl
    | cancel uid id =>
      rw [actionsFrom_cancel, World.prompts_cons, asks_append, List.map_append,
        JobTable.answersNow, ih k hrefused]
      congr 1
      show _ = (asks (if ProcessModule.signalable w.state id then _ else _)).map _
      rw [h.signalable_iff]
      cases table.running id <;> rfl

theorem map_asks_routed {B : Type} (cmds : List (UInt32 × Command)) (number : ℕ → JobId)
    (f : JobId × Ask → B) :
    (asks (cmds.mapIdx fun i cmd => Router.routed (number i) (.exec cmd.1 cmd.2))).map f =
      cmds.mapIdx fun i _ => f (number i, .exec) := by
  induction cmds generalizing number with
  | nil => rfl
  | cons cmd cmds ih =>
    rw [List.mapIdx_cons, List.mapIdx_cons, ← ih fun i => number (i + 1)]
    rfl

theorem answersLater (h : w.Shows table) (starts : JobId → Bool) (reqs : List Request) :
    JobTable.answersLater starts table.issued reqs =
      (asks (w.lates 0 (actionsFrom table.issued reqs))).map (respondTo starts) := by
  have hlates := h.lates 0 reqs
  rw [Nat.add_zero] at hlates
  rw [hlates, map_asks_routed]
  rfl

end World.Shows

/-! ## Rounds -/

/-- The requests among some traffic, each with its connection. -/
def askedIn (t : List Traffic) : List (ℕ × Request) :=
  t.filterMap fun
    | .request p req _ => some (p, req)
    | .response .. => none

theorem requestsIn_eq (t : List Traffic) : requestsIn t = (askedIn t).map Prod.snd := by
  unfold requestsIn askedIn
  rw [List.map_filterMap]
  congr 1
  funext e
  cases e <;> rfl

theorem askedIn_tickets (T : List Ticket) :
    askedIn (T.map Ticket.traffic) = T.map fun t => (t.peer, t.request) := by
  unfold askedIn
  rw [List.filterMap_map]
  show T.filterMap (some ∘ fun t : Ticket => (t.peer, t.request)) = _
  rw [List.filterMap_eq_map]

/-- The tickets of a round name the jobs that the table thinks they name. -/
theorem askers_tickets {n : ℕ} {T : List Ticket}
    (h : T.map Ticket.action = actionsFrom n (T.map Ticket.request)) :
    JobTable.askers n (T.map fun t => (t.peer, t.request)) = T.map fun t => (t.id, t.peer) := by
  induction T generalizing n with
  | nil => rfl
  | cons t T ih =>
    rw [List.map_cons, List.map_cons] at h
    rw [List.map_cons, List.map_cons]
    cases hreq : t.request with
    | exec uid cmd =>
      rw [hreq, actionsFrom_exec, List.cons.injEq] at h
      rw [JobTable.askers, ih h.2, Ticket.id, h.1]
      rfl
    | getResult uid id =>
      rw [hreq, actionsFrom_getResult, List.cons.injEq] at h
      rw [JobTable.askers, ih h.2, Ticket.id, h.1]
      rfl
    | cancel uid id =>
      rw [hreq, actionsFrom_cancel, List.cons.injEq] at h
      rw [JobTable.askers, ih h.2, Ticket.id, h.1]
      rfl

/-- The addressees of a round are the recipients of the table. -/
theorem addressee_eq_recipient {n : ℕ} {T : List Ticket}
    (h : T.map Ticket.action = actionsFrom n (T.map Ticket.request)) :
    addressee T = JobTable.recipient n (T.map fun t => (t.peer, t.request)) := by
  funext id
  unfold addressee JobTable.recipient
  rw [askers_tickets h, lastUnder_map, Option.map_map]
  rfl

namespace Daemon

/-- Nothing is left to do. -/
def Idle (d : Daemon) : Prop := d.loop.queue = []

/-- A round of the daemon, with the work that it leads to. -/
abbrev FullRound (json : Json) : Daemon → RoundLog × List DaemonPop → Daemon → Prop :=
  Round (RoundStep json) (PopStep json) Idle

/-- All that happens on the connections in a round. -/
def roundTraffic (r : RoundLog × List DaemonPop) : List Traffic := r.1.2 ++ r.2.flatMap Prod.snd

/-- What clients see of a round: the requests that were taken up and the responses that were
sent, each with its connection. -/
def served (r : RoundLog × List DaemonPop) : List (ℕ × Request) × List (ℕ × WireResponse) :=
  (askedIn (roundTraffic r), responsesOf (roundTraffic r))

/-- An idle daemon that was reached from the start, and its table. -/
structure Shows (json : Json) (d : Daemon) (table : JobTable) : Prop where
  idle : d.Idle
  world : d.loop.world.Shows table
  reached : ∃ t, Run (Step json) .new t d ∧ table.issued = (commandsIn (trafficOf t)).length

/-- No job ends in the daemon, and no result is handed out. -/
theorem popped_run {t : List DaemonLabel} {d : Daemon} (hrun : Run (Step json) .new t d)
    {l : DaemonPop} (hl : .pop l ∈ t) :
    l.1.1.isFinish = false ∧ ∀ id out, l.1.1 ≠ .queryResult id (some out) := by
  rcases hrun.exists_of_mem hl with ⟨t₁, d₁, d₂, t₂, -, hrun₁, hs, -⟩
  cases hs with
  | pop hpop =>
    refine ⟨hpop.not_finish (unfinishing_run hrun₁).2, ?_⟩
    rcases pop_iff.mp hpop.loop with ⟨rest, out, hq, -, -⟩
    exact (resultless_run hrun₁).queue _ (hq ▸ List.mem_cons_self)

theorem requestsIn_tickets {T : List Ticket} {traffic : List Traffic}
    (h : traffic = T.map Ticket.traffic) : requestsIn traffic = T.map Ticket.request := by
  rw [h]
  unfold requestsIn
  rw [List.filterMap_map]
  show T.filterMap (some ∘ Ticket.request) = _
  rw [List.filterMap_eq_map]

/-- The work of a round takes no request up. -/
theorem requestsIn_pops {d d' : Daemon} {u : List DaemonPop} (h : Run (PopStep json) d u d') :
    requestsIn (trafficOf (u.map .pop)) = [] := by
  induction h with
  | nil => rfl
  | cons hpop _ ih =>
    show requestsIn (_ ++ trafficOf _) = []
    rw [requestsIn_append, ih, List.append_nil]
    exact hpop.requests.2

/-- What clients see of a round, and who asked. -/
theorem Took.served {d d₁ d₂ : Daemon} {l : RoundLog} {T : List Ticket} {u : List DaemonPop}
    (hT : d.Took l d₁ T) (hpops : Run (PopStep json) d₁ u d₂) :
    Daemon.served (l, u) =
      (T.map fun t => (t.peer, t.request), deliver (addressee T) [] (u.filterMap answerOf)) := by
  have hnone : askedIn (u.flatMap Prod.snd) = [] := by
    have hreqs := requestsIn_pops hpops
    rw [requestsIn_eq, trafficOf, List.flatMap_map] at hreqs
    exact List.map_eq_nil_iff.mp hreqs
  have hsilent : responsesOf l.2 = [] := by
    unfold responsesOf
    rw [hT.traffic, List.filterMap_map, List.filterMap_eq_nil_iff]
    exact fun _ _ => rfl
  unfold Daemon.served roundTraffic
  refine Prod.ext ?_ ?_
  · show askedIn (l.2 ++ u.flatMap Prod.snd) = _
    rw [askedIn, List.filterMap_append]
    show askedIn l.2 ++ askedIn _ = _
    rw [hnone, List.append_nil, hT.traffic, askedIn_tickets]
  · show responsesOf (l.2 ++ u.flatMap Prod.snd) = _
    rw [responsesOf, List.filterMap_append]
    show responsesOf l.2 ++ responsesOf _ = _
    rw [hsilent, List.nil_append, (hT.responses hpops).1]

/-- The router of a daemon whose table is shown. -/
theorem Shows.router {d : Daemon} {table : JobTable} (h : d.Shows json table) :
    d.ipc.router = ⟨jobNumber table.issued⟩ := by
  rcases h.reached with ⟨t, hrun, hissued⟩
  have hnew : Router.new = ⟨jobNumber 0⟩ := rfl
  rw [(routed_run hrun).router, hnew, handleAll_issued, Nat.zero_add, hissued]
  rfl

/-- The books of an idle daemon. -/
theorem books {t : List DaemonLabel} {d : Daemon} (hrun : Run (Step json) .new t d)
    (hidle : d.Idle) : d.loop.world.dispatcher.admission.maxJobs = 64 ∧
      d.loop.world.dispatcher.admission.activeJobs =
        min 64 (commandsIn (trafficOf t)).length := by
  have hserving := Serving.run (loop_run hrun) (tasks_run hrun).2
  have hactive := (hserving.idle hidle).2.2
  rw [(tasks_run hrun).1, length_numbered] at hactive
  exact ⟨hserving.fixed, hactive⟩

/-- A round takes up at most as many requests as there are descriptors. -/
theorem length_requests {d d₁ : Daemon} {l : RoundLog} {T : List Ticket} (h : d.Took l d₁ T) :
    (requestsIn l.2).length ≤ 2 ^ 31 := by
  have hlen := length_fds h.distinct.fds fun fd hfd => by
    rcases List.mem_map.mp hfd with ⟨t, ht, rfl⟩
    exact h.distinct.nonneg t ht
  rw [requestsIn_tickets h.traffic, List.length_map]
  rwa [List.length_map] at hlen

/-- The answers of a round. -/
theorem Shows.answers {d d₁ d₂ : Daemon} {l : RoundLog} {u : List DaemonPop} {T : List Ticket}
    {table : JobTable} (h : d.Shows json table) (hT : d.Took l d₁ T)
    (hacts : l.1.1 = actionsFrom table.issued (requestsIn l.2))
    (hpops : Run (PopStep json) d₁ u d₂) (hend : d₂.Idle)
    (hs : Settles d.loop.world (actionsFrom table.issued (requestsIn l.2)) (u.map Prod.fst)
      d₂.loop.world)
    (hpopped : ∀ l ∈ u, l.1.1.isFinish = false ∧ ∀ id out, l.1.1 ≠ .queryResult id (some out)) :
    u.filterMap answerOf =
      table.answer (fun id => decide (.started id ∈ (u.map Prod.fst).map Prod.fst))
        (requestsIn l.2) := by
  have hlen := length_requests hT
  have hcommands : ((requestsIn l.2).filterMap Request.command).length ≤ 2 ^ 31 :=
    (List.length_filterMap_le _ _).trans hlen
  have hactions : ∀ a ∈ (u.map Prod.fst).map Prod.fst, a.isFinish = false ∧
      ∀ id out, a ≠ .queryResult id (some out) := by
    intro a ha
    rw [List.map_map] at ha
    rcases List.mem_map.mp ha with ⟨l, hl, rfl⟩
    exact hpopped l hl
  have honce : ∀ id, (asks (d.loop.world.answeredInOrder l.1.1)).count (id, .exec) ≤ 1 := by
    intro id
    unfold World.answeredInOrder
    rw [asks_append, List.count_append, count_asks, hacts, submitIds_actionsFrom]
    exact List.nodup_iff_count_le_one.mp (nodup_numbers hcommands _) id
  have hasks : (((u.map Prod.fst).map Prod.fst).filterMap IpcModule.response).map answered =
      asks (d.loop.world.answeredInOrder l.1.1) := by
    rw [List.filterMap_map, List.filterMap_map]
    exact (hT.answers hpops).2 hend
  have hresponses := responses_of_asks hasks honce (fun a ha => (hactions a ha).1)
    fun a ha => (hactions a ha).2
  have hanswers : ((u.map Prod.fst).map Prod.fst).filterMap IpcModule.response =
      u.filterMap answerOf := by
    rw [List.filterMap_map, List.filterMap_map]
    rfl
  -- a command without a place was not started
  have hrefused : ∀ i, i < ((requestsIn l.2).filterMap Request.command).length →
      64 ≤ table.issued + 0 + i →
      decide (.started (jobNumber (table.issued + 0 + i)) ∈ (u.map Prod.fst).map Prod.fst) =
        false := by
    intro i hi hfull
    rw [Nat.add_zero] at hfull ⊢
    refine decide_eq_false (hs.untold _ fun hmem => ?_)
    rcases (h.world.mem_lates_ids _ _).mp hmem with ⟨j, hj, heq⟩
    have hseated := JobTable.length_seated table.issued (requestsIn l.2)
    have := jobNumber_inj (by omega) (by omega) heq
    omega
  have hnow := h.world.answersNow
    (fun id => decide (.started id ∈ (u.map Prod.fst).map Prod.fst)) 0 hrefused
  rw [Nat.add_zero] at hnow
  rw [← hanswers, hresponses, JobTable.answer, h.world.answersLater, hnow, hacts,
    World.answeredInOrder, asks_append, List.map_append]

/-- The actions of a round are those of its requests, numbered as the table has it. -/
theorem Shows.actions {d d₁ : Daemon} {l : RoundLog} {table : JobTable} (h : d.Shows json table)
    (hround : RoundStep json d l d₁) : l.1.1 = actionsFrom table.issued (requestsIn l.2) := by
  rw [hround.requests.2, h.router]
  rfl

/-- What the requests of a round do to the jobs. -/
theorem Shows.settles {d d₁ d₂ : Daemon} {l : RoundLog} {u : List DaemonPop} {table : JobTable}
    (h : d.Shows json table) (hround : RoundStep json d l d₁) (hpops : Run (PopStep json) d₁ u d₂)
    (hend : d₂.Idle) : Settles d.loop.world (actionsFrom table.issued (requestsIn l.2))
      (u.map Prod.fst) d₂.loop.world := by
  rcases h.reached with ⟨t, hrun, -⟩
  rcases (hround.took (Tidy.run hrun)).1 with ⟨T, hT⟩
  have hacts := h.actions hround
  -- the queue is fed, and drained
  rcases Loop.feed_queue d.loop l.1.1 hT.ready with ⟨ready, hqueue, hio⟩
  rw [hacts] at hqueue
  have hworld : d₁.loop.world = d.loop.world := by
    rw [hT.feed, Loop.feed_world _ _ hT.ready]
  have hshows : d₁.loop.world.Shows table := hworld ▸ h.world
  have hs := batch_settles (pops_loop hpops) (by rw [hT.feed, hacts]; exact hqueue)
    (actionsFrom_batch _ _) hio hend (hshows.nodup_lates_ids _) (hshows.free_numbers _)
  rwa [hworld] at hs

/-- A round does to the table what the table's own round does, and clients see the same of
both. -/
theorem Shows.round {d d₂ : Daemon} {r : RoundLog × List DaemonPop} {table : JobTable}
    (h : d.Shows json table) (hr : FullRound json d r d₂) :
    ∃ table', table.Serves (served r) table' ∧ d₂.Shows json table' := by
  rcases h.reached with ⟨t, hrun, hissued⟩
  cases hr with
  | @mk l d₁ u _ hround hpops hend =>
    rcases (hround.took (Tidy.run hrun)).1 with ⟨T, hT⟩
    have hreqs := requestsIn_tickets hT.traffic
    have hacts := h.actions hround
    have hall : Run (Step json) .new (t ++ (.round l :: u.map .pop)) d₂ :=
      hrun.append (hround.steps hpops)
    have hcommands : commandsIn (trafficOf (t ++ (.round l :: u.map .pop))) =
        commandsIn (trafficOf t) ++ (requestsIn l.2).filterMap Request.command := by
      unfold commandsIn
      rw [trafficOf_append, requestsIn_append, List.filterMap_append]
      show _ ++ (requestsIn (l.2 ++ trafficOf (u.map .pop))).filterMap _ = _
      rw [requestsIn_append, requestsIn_pops hpops, List.append_nil]
    have hs := h.settles hround hpops hend
    have hbooks := books hall hend
    rw [hcommands, List.length_append, ← hissued] at hbooks
    have hasked : (T.map fun t => (t.peer, t.request)).map Prod.snd = requestsIn l.2 := by
      rw [hreqs, List.map_map]
      rfl
    have hpopped := h.answers hT hacts hpops hend hs fun l hl => popped_run hall <|
      List.mem_append_right _ (List.mem_cons_of_mem _ (List.mem_map_of_mem hl))
    -- an answer goes to the connection that asked last
    have haddr : addressee T =
        JobTable.recipient table.issued (T.map fun t => (t.peer, t.request)) := by
      apply addressee_eq_recipient
      rw [← hT.actions, ← hreqs]
      exact hacts
    rw [hT.served hpops]
    refine ⟨_, ⟨fun id => decide (.started id ∈ (u.map Prod.fst).map Prod.fst), rfl, ?_⟩, ?_⟩
    · rw [hasked, ← hpopped, haddr]
    · rw [hasked]
      refine ⟨hend, ⟨hbooks.1, hbooks.2, h.world.serve hs⟩, _, hall, ?_⟩
      rw [hcommands, List.length_append, ← hissued]
      rfl

/-- A daemon that starts shows the empty table. -/
theorem shows_new : Shows json .new .empty := by
  refine ⟨rfl, ⟨rfl, rfl, ?_⟩, [], .nil _, rfl⟩
  intro id
  unfold JobTable.get
  simp [Daemon.new, Loop.init, ExecutionState.new, JobTable.empty]

/-- A step either opens a round or works one off. -/
theorem Step.opens_or_works {d d' : Daemon} {l : DaemonLabel} (h : Step json d l d') :
    (∃ a, l = .round a ∧ d.Idle ∧ RoundStep json d a d') ∨
      ∃ b, l = .pop b ∧ ¬ d.Idle ∧ PopStep json d b d' := by
  cases h with
  | round hround =>
    refine Or.inl ⟨_, rfl, ?_, hround⟩
    cases hround with
    | round events hidle hfresh => exact hidle
  | pop hpop =>
    refine Or.inr ⟨_, rfl, ?_, hpop⟩
    rcases pop_iff.mp hpop.loop with ⟨rest, out, hq, -, -⟩
    intro hidle
    rw [Idle, hq] at hidle
    cases hidle

end Daemon

namespace Daemon

/-- Between two idle states, the daemon takes rounds, and its table takes rounds that look the same
to clients. -/
theorem Shows.run {t : List DaemonLabel} {d d' : Daemon} {table : JobTable}
    (h : d.Shows json table) (hrun : Run (Step json) d t d') (hidle : d'.Idle) :
    ∃ rounds table', t = flatten .round .pop rounds ∧ Run (FullRound json) d rounds d' ∧
      Run JobTable.Serves table (rounds.map served) table' ∧ d'.Shows json table' := by
  have hsplit : ∃ rounds, t = flatten .round .pop rounds ∧ Run (FullRound json) d rounds d' :=
    Run.rounds (fun _ _ _ hs => hs.opens_or_works) hrun h.idle hidle
  rcases hsplit with ⟨rounds, ht, hrounds⟩
  rcases hrounds.simulates (R := Shows json) (fun _ _ _ _ h hr => h.round hr) h with
    ⟨table', htable, hshows⟩
  exact ⟨rounds, table', ht, hrounds, htable, hshows⟩

end Daemon

/-- Every run of the daemon to an idle state is a sequence of rounds, and the table of jobs has a
run of its own in which clients see the same, the requests and the responses of each round on
each connection; the jobs of the daemon are those of the table at its end. -/
theorem daemon_refines_table {t : List DaemonLabel} {d : Daemon}
    (hrun : Run (Daemon.Step json) .new t d) (hidle : d.loop.queue = []) :
    ∃ rounds table, t = flatten .round .pop rounds ∧
      Run (Daemon.FullRound json) .new rounds d ∧
      Run JobTable.Serves .empty (rounds.map Daemon.served) table ∧
      d.loop.world.Shows table := by
  rcases Daemon.shows_new.run hrun hidle with ⟨rounds, table, ht, hrounds, htable, hshows⟩
  exact ⟨rounds, table, ht, hrounds, htable, hshows.world⟩

/-- What can become of the entry of a job: it stays as it is, or the process is asked to stop. -/
def JobState.Stops (job job' : JobState) : Prop :=
  job' = job ∨ job.process.isSome = true ∧ job.timedOut = false ∧
    job' = { job with timedOut := true }

theorem JobState.Stops.trans {job job' job'' : JobState} (h : job.Stops job')
    (h' : job'.Stops job'') : job.Stops job'' := by
  rcases h with rfl | ⟨hprocess, htimed, rfl⟩
  · exact h'
  · rcases h' with rfl | ⟨-, htimed', -⟩
    · exact Or.inr ⟨hprocess, htimed, rfl⟩
    · cases htimed'

namespace Daemon

/-- No round takes a job away. -/
theorem Shows.keeps {d d₂ : Daemon} {r : RoundLog × List DaemonPop} {table : JobTable}
    (h : d.Shows json table) (hr : FullRound json d r d₂) {id : JobId} {job : JobState}
    (hjob : d.loop.world.state.jobs.get id = some job) :
    ∃ job', d₂.loop.world.state.jobs.get id = some job' ∧ job.Stops job' := by
  cases hr with
  | @mk l d₁ u _ hround hpops hend =>
    have hs := h.settles hround hpops hend
    -- the numbers of new jobs are free
    have hold : id ∉ (d.loop.world.lates 0 (actionsFrom table.issued (requestsIn l.2))).map
        Action.jobId := by
      intro hmem
      rcases List.mem_map.mp hmem with ⟨a, ha, rfl⟩
      rw [h.world.free_numbers _ a ha] at hjob
      cases hjob
    rw [hs.kept id hold, hjob]
    refine ⟨_, rfl, ?_⟩
    split
    · next hstop =>
      have hsignalable := hstop.2
      unfold ProcessModule.signalable at hsignalable
      rw [hjob, Bool.and_eq_true, Bool.not_eq_true'] at hsignalable
      exact Or.inr ⟨hsignalable.1, hsignalable.2, rfl⟩
    · exact Or.inl rfl

theorem Shows.keeps_run {d d' : Daemon} {rounds : List (RoundLog × List DaemonPop)}
    {table : JobTable} (h : d.Shows json table) (hrounds : Run (FullRound json) d rounds d')
    {id : JobId} {job : JobState} (hjob : d.loop.world.state.jobs.get id = some job) :
    ∃ job', d'.loop.world.state.jobs.get id = some job' ∧ job.Stops job' := by
  induction hrounds generalizing table job with
  | nil => exact ⟨job, hjob, Or.inl rfl⟩
  | cons hr _ ih =>
    rcases h.round hr with ⟨table', -, hshows⟩
    rcases h.keeps hr hjob with ⟨next, hnext, hfirst⟩
    rcases ih hshows hnext with ⟨last, hlast, hrest⟩
    exact ⟨last, hlast, hfirst.trans hrest⟩

end Daemon

/-- Whatever the daemon does between two idle states, a job stays, and all that can become of its
entry is that its process was running and is asked to stop, which sets `timed_out`. -/
theorem jobs_only_stop {t u : List DaemonLabel} {d d' : Daemon} {id : JobId} {job : JobState}
    (hrun : Run (Daemon.Step json) .new t d) (hidle : d.loop.queue = [])
    (hrest : Run (Daemon.Step json) d u d') (hidle' : d'.loop.queue = [])
    (hjob : d.loop.world.state.jobs.get id = some job) :
    ∃ job', d'.loop.world.state.jobs.get id = some job' ∧ job.Stops job' := by
  rcases Daemon.shows_new.run hrun hidle with ⟨-, table, -, -, -, hshows⟩
  rcases hshows.run hrest hidle' with ⟨rounds, -, -, hrounds, -, -⟩
  exact hshows.keeps_run hrounds hjob

namespace Daemon

theorem daemon_refines_table_working :
    ∃ rounds table, workingLabels = flatten .round .pop rounds ∧
      Run (FullRound .small) .new rounds working ∧
      Run JobTable.Serves .empty (rounds.map served) table ∧
      working.loop.world.Shows table ∧ table.get 1 = some ⟨1000, .running⟩ := by
  rcases daemon_refines_table working_run (by decide) with
    ⟨rounds, table, ht, hrounds, htable, hshows⟩
  have hjob : working.loop.world.state.jobs.get 1 =
      some ⟨1, 1000, some ⟨1⟩, some ⟨2⟩, false, none, false⟩ := by decide
  refine ⟨rounds, table, ht, hrounds, htable, hshows, ?_⟩
  rw [← hshows.jobs, hjob]
  rfl

/-- `working`, after the job was cancelled. -/
noncomputable def stopped : Daemon := meddled.2.settle.2

theorem stopped_run :
    Run (Step .small) working (.round meddled.1 :: meddled.2.settle.1.map .pop) stopped :=
  meddled_round.steps (runPops_run _ _ _)

theorem jobs_only_stop_working :
    JobState.Stops ⟨1, 1000, some ⟨1⟩, some ⟨2⟩, false, none, false⟩
      ⟨1, 1000, some ⟨1⟩, some ⟨2⟩, true, none, false⟩ := by
  have hjob : working.loop.world.state.jobs.get 1 =
      some ⟨1, 1000, some ⟨1⟩, some ⟨2⟩, false, none, false⟩ := by decide
  have hend : stopped.loop.world.state.jobs.get 1 =
      some ⟨1, 1000, some ⟨1⟩, some ⟨2⟩, true, none, false⟩ := by decide
  rcases jobs_only_stop working_run (by decide) stopped_run (by decide) hjob with
    ⟨job', hjob', hstops⟩
  rw [hend] at hjob'
  cases hjob'
  exact hstops

end Daemon

end CoreShift
