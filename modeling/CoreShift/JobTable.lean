import CoreShift.Requests

/-!
# The table of jobs

What the daemon is for, without queues, handles or descriptors: a table with room for 64 jobs,
numbered from 1. A round serves some requests as if all of them came at the same time. Its
cancels are judged by the table as it was before the round, and stop jobs of that table only;
its commands take the places that are left, in their order. No place is ever freed.

An answer is addressed to a job. It is sent to the connection that was the last of the round to
name the job, once for each job; other clients who named it get nothing.
-/

namespace CoreShift

open Utils

/-- What became of a job. -/
inductive Phase
  | failed
  | running
  | stopping
deriving DecidableEq, Repr

/-- A place of the table. -/
structure Place where
  owner : UInt32
  phase : Phase
deriving DecidableEq, Repr

/-- The number of the command before which `n` commands came. -/
def jobNumber (n : ℕ) : JobId := UInt64.ofNat (n + 1)

theorem jobNumber_succ (n : ℕ) : jobNumber (n + 1) = jobNumber n + 1 := by
  unfold jobNumber
  rw [UInt64.ofNat_add]
  rfl

theorem jobNumber_inj {n i j : ℕ} (hi : i < 2 ^ 32) (hj : j < 2 ^ 32)
    (h : jobNumber (n + i) = jobNumber (n + j)) : i = j := by
  have hnat := congrArg UInt64.toNat h
  unfold jobNumber at hnat
  rw [UInt64.toNat_ofNat', UInt64.toNat_ofNat'] at hnat
  omega

theorem exists_jobNumber {id : JobId} (h : id ≠ 0) : id = jobNumber (id.toNat - 1) := by
  have hpos : id.toNat ≠ 0 := fun hzero => h (UInt64.toNat_inj.mp hzero)
  unfold jobNumber
  rw [Nat.sub_add_cancel (Nat.pos_of_ne_zero hpos), UInt64.ofNat_toNat]

theorem jobNumber_ne_zero {n : ℕ} (h : n < 2 ^ 32) : jobNumber n ≠ 0 := by
  intro hzero
  have hnat := congrArg UInt64.toNat hzero
  unfold jobNumber at hnat
  rw [UInt64.toNat_ofNat', UInt64.toNat_zero] at hnat
  omega

theorem nodup_numbers {A : Type} {l : List A} (hlen : l.length ≤ 2 ^ 31) (n : ℕ) :
    (l.mapIdx fun i _ => jobNumber (n + i)).Nodup := by
  rw [List.nodup_iff_injective_getElem]
  intro i j heq
  have hi := i.isLt.trans_eq List.length_mapIdx
  have hj := j.isLt.trans_eq List.length_mapIdx
  simp only [List.getElem_mapIdx] at heq
  exact Fin.ext (jobNumber_inj (by omega) (by omega) heq)

/-- The jobs, in the order of their numbers, and how many commands there were: the first 64 of
them have a place. -/
structure JobTable where
  places : List Place
  issued : ℕ
  filled : places.length = min 64 issued

/-- A cancel of the job is among the requests. -/
def cancels (reqs : List Request) (id : JobId) : Bool :=
  reqs.any fun
    | .cancel _ target => target == id
    | _ => false

namespace JobTable

def empty : JobTable := ⟨[], 0, rfl⟩

/-- The job with a number. -/
def get (table : JobTable) (id : JobId) : Option Place :=
  if id = 0 then none else table.places[id.toNat - 1]?

theorem get_jobNumber {table : JobTable} {n : ℕ} (h : n < 2 ^ 32) :
    table.get (jobNumber n) = table.places[n]? := by
  have hnat : (jobNumber n).toNat = n + 1 := by
    unfold jobNumber
    rw [UInt64.toNat_ofNat']
    omega
  unfold get
  rw [if_neg (jobNumber_ne_zero h), hnat]
  rfl

theorem get_zero (table : JobTable) : table.get 0 = none := if_pos rfl

def running (table : JobTable) (id : JobId) : Bool :=
  (table.get id).map Place.phase = some .running

/-- The job in its place, after the cancels of a round. -/
def stopIf (stopped : Bool) (place : Place) : Place :=
  if place.phase = .running ∧ stopped = true then { place with phase := .stopping } else place

/-- The place of a new job; `starts` says whether its process could be started. -/
def newPlace (starts : JobId → Bool) (id : JobId) (owner : UInt32) : Place :=
  ⟨owner, if starts id then .running else .failed⟩

/-- The commands among the requests that get a place, when `n` commands came before. -/
def seated (n : ℕ) (reqs : List Request) : List (UInt32 × Command) :=
  (reqs.filterMap Request.command).take (64 - n)

/-- No more commands are seated than there are places. -/
theorem length_seated (n : ℕ) (reqs : List Request) :
    (seated n reqs).length ≤ 64 - n := by
  unfold seated
  rw [List.length_take]
  omega

theorem seated_full {n : ℕ} (h : 64 ≤ n) (reqs : List Request) : seated n reqs = [] := by
  unfold seated
  rw [Nat.sub_eq_zero_of_le h, List.take_zero]

theorem seated_exec {n : ℕ} (h : n < 64) (uid : UInt32) (cmd : Command) (reqs : List Request) :
    seated n (.exec uid cmd :: reqs) = (uid, cmd) :: seated (n + 1) reqs := by
  unfold seated
  rw [show 64 - n = 64 - (n + 1) + 1 by omega]
  rfl

/-- The table after a round. -/
def serve (table : JobTable) (starts : JobId → Bool) (reqs : List Request) : JobTable where
  places := (table.places.mapIdx fun k place => stopIf (cancels reqs (jobNumber k)) place) ++
    (seated table.issued reqs).mapIdx fun k cmd =>
      newPlace starts (jobNumber (table.issued + k)) cmd.1
  issued := table.issued + (reqs.filterMap Request.command).length
  filled := by
    rw [List.length_append, List.length_mapIdx, List.length_mapIdx, seated, List.length_take,
      table.filled]
    omega

section Serve

variable (table : JobTable) (starts : JobId → Bool) (reqs : List Request)

/-- A job that is not a new one keeps its place, and is stopped if it runs and a cancel names
it. -/
theorem get_serve_old {id : JobId}
    (hid : ∀ i, i < (seated table.issued reqs).length → jobNumber (table.issued + i) ≠ id) :
    (table.serve starts reqs).get id = (table.get id).map (stopIf (cancels reqs id)) := by
  by_cases hzero : id = 0
  · rw [hzero, get_zero, get_zero]
    rfl
  have hlen := length_seated table.issued reqs
  have hfilled := table.filled
  have hnumber := exists_jobNumber hzero
  unfold get
  rw [if_neg hzero, if_neg hzero]
  dsimp only [serve]
  rw [List.getElem?_append, List.length_mapIdx]
  by_cases hold : id.toNat - 1 < table.places.length
  · rw [if_pos hold, List.getElem?_mapIdx, ← hnumber]
  · rw [if_neg hold, List.getElem?_eq_none (not_lt.mp hold), Option.map_none, List.getElem?_mapIdx,
      List.getElem?_eq_none, Option.map_none]
    by_contra hnew
    refine hid (id.toNat - 1 - table.places.length) (by omega) ?_
    rw [show table.issued + (id.toNat - 1 - table.places.length) = id.toNat - 1 by omega]
    exact hnumber.symm

theorem get_serve_new {i : ℕ} (hi : i < (seated table.issued reqs).length) :
    (table.serve starts reqs).get (jobNumber (table.issued + i)) =
      some (newPlace starts (jobNumber (table.issued + i)) (seated table.issued reqs)[i].1) := by
  have hlen := length_seated table.issued reqs
  have hfilled := table.filled
  rw [get_jobNumber (by omega)]
  dsimp only [serve]
  rw [List.getElem?_append_right (by rw [List.length_mapIdx]; omega), List.length_mapIdx,
    show table.issued + i - table.places.length = i by omega, List.getElem?_mapIdx,
    List.getElem?_eq_getElem hi]
  rfl

end Serve

/-- The answers that need no process: to queries, to cancels of running jobs, and to commands for
which there is no place. -/
def answersNow (table : JobTable) : ℕ → List Request → List (JobId × WireResponse)
  | _, [] => []
  | n, .exec _ _ :: reqs =>
    (if n < 64 then [] else [(jobNumber n, .error)]) ++ answersNow table (n + 1) reqs
  | n, .getResult _ id :: reqs => (id, .result none) :: answersNow table n reqs
  | n, .cancel _ id :: reqs =>
    (if table.running id then [(id, .cancelOk)] else []) ++ answersNow table n reqs

/-- The answers to the commands that get a place. -/
def answersLater (starts : JobId → Bool) (n : ℕ) (reqs : List Request) :
    List (JobId × WireResponse) :=
  (seated n reqs).mapIdx fun k _ =>
    (jobNumber (n + k), if starts (jobNumber (n + k)) then .exec (jobNumber (n + k)) else .error)

/-- The answers of a round, in their order. -/
def answer (table : JobTable) (starts : JobId → Bool) (reqs : List Request) :
    List (JobId × WireResponse) :=
  table.answersNow table.issued reqs ++ answersLater starts table.issued reqs

/-- The jobs that the requests of some connections name or create, when `n` commands came before,
each with the connection. -/
def askers : ℕ → List (ℕ × Request) → List (JobId × ℕ)
  | _, [] => []
  | n, (p, .exec _ _) :: asked => (jobNumber n, p) :: askers (n + 1) asked
  | n, (p, .getResult _ id) :: asked | n, (p, .cancel _ id) :: asked => (id, p) :: askers n asked

/-- The connection that an answer about a job goes to: of those that named it, the last. -/
def recipient (n : ℕ) (asked : List (ℕ × Request)) (id : JobId) : Option ℕ :=
  (lastUnder Prod.fst id (askers n asked)).map Prod.snd

/-- A round as clients see it: the requests of their connections, and the responses on these. Of
several answers about one job only the first is sent, and of several connections that named the
job only the last gets it. Which processes start is up to the system. -/
def Serves (table : JobTable) (l : List (ℕ × Request) × List (ℕ × WireResponse))
    (table' : JobTable) : Prop :=
  ∃ starts, table' = table.serve starts (l.1.map Prod.snd) ∧
    l.2 = deliver (recipient table.issued l.1) [] (table.answer starts (l.1.map Prod.snd))

end JobTable
end CoreShift
