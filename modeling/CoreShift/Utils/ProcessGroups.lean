import Mathlib.Data.Int.Notation
import Mathlib.Data.List.Basic

/-!
# Process groups

The processes of a system, each with its group and its session, and the calls that change
them: `fork`, `setsid`, `setpgid`, the end of a process. How a process stands to the group of
its own number is what decides whether a signal to that group reaches it.
-/

namespace Utils

/-- A process, with the group and the session it is in. -/
structure Proc where
  pid : ℤ
  group : ℤ
  session : ℤ
deriving DecidableEq, Repr

/-- The processes there are. -/
abbrev ProcTable := List Proc

inductive ProcCall
  | fork (child : ℤ)
  | exit
  | setsid
  -- the calling process moves itself, to the group of its own number if 0 is given
  | setpgid (group : ℤ)
deriving DecidableEq, Repr

namespace ProcTable

variable {t t' : ProcTable} {p q n target : ℤ} {r : Proc}

def Alive (t : ProcTable) (p : ℤ) : Prop := ∃ r ∈ t, r.pid = p

/-- There is no group of that number. -/
def Lacks (t : ProcTable) (n : ℤ) : Prop := ∀ r ∈ t, r.group ≠ n

/-- No process, group or session has the number. -/
def Free (t : ProcTable) (n : ℤ) : Prop := ∀ r ∈ t, r.pid ≠ n ∧ r.group ≠ n ∧ r.session ≠ n

instance (t : ProcTable) (p : ℤ) : Decidable (t.Alive p) :=
  inferInstanceAs (Decidable (∃ r ∈ t, r.pid = p))

instance (t : ProcTable) (n : ℤ) : Decidable (t.Lacks n) :=
  inferInstanceAs (Decidable (∀ r ∈ t, r.group ≠ n))

instance (t : ProcTable) (n : ℤ) : Decidable (t.Free n) :=
  inferInstanceAs (Decidable (∀ r ∈ t, r.pid ≠ n ∧ r.group ≠ n ∧ r.session ≠ n))

def lookup (t : ProcTable) (p : ℤ) : Option Proc := t.find? fun r => r.pid = p

/-- The entry of a process is changed. -/
def move (t : ProcTable) (p : ℤ) (f : Proc → Proc) : ProcTable :=
  t.map fun r => if r.pid = p then f r else r

/-! ## The calls -/

/-- The child is in the group and the session of its parent. -/
def fork (t : ProcTable) (p child : ℤ) : Option ProcTable :=
  match t.lookup p with
  | none => none
  | some r => if t.Free child then some (⟨child, r.group, r.session⟩ :: t) else none

/-- A process that leads a group cannot lead a new session. -/
def setsid (t : ProcTable) (p : ℤ) : Option ProcTable :=
  if t.Lacks p then some (t.move p fun _ => ⟨p, p, p⟩) else none

/-- A process that leads a session stays in its group, and a group other than its own has to
exist in its session. -/
def setpgid (t : ProcTable) (p group : ℤ) : Option ProcTable :=
  let n := if group = 0 then p else group
  match t.lookup p with
  | none => none
  | some r =>
    if n < 0 ∨ r.session = p ∨ n ≠ p ∧ ∀ r' ∈ t, r'.group = n → r'.session ≠ r.session then none
    else some (t.move p fun r => { r with group := n })

def call (t : ProcTable) (p : ℤ) : ProcCall → Option ProcTable
  | .fork child => t.fork p child
  | .exit => some (t.filter fun r => r.pid ≠ p)
  | .setsid => t.setsid p
  | .setpgid group => t.setpgid p group

/-- A call that fails changes nothing. -/
def after (t : ProcTable) (p : ℤ) (c : ProcCall) : ProcTable := (t.call p c).getD t

theorem lookup_eq_some (h : t.lookup p = some r) : r ∈ t ∧ r.pid = p :=
  ⟨List.mem_of_find?_eq_some h, by simpa using List.find?_some h⟩

theorem lookup_eq_none (h : t.lookup p = none) : ∀ r ∈ t, r.pid ≠ p := by
  intro r hr
  have hno := List.find?_eq_none.mp h r hr
  simpa using hno

theorem mem_move {f : Proc → Proc} (h : r ∈ t.move p f) :
    (∃ r' ∈ t, r'.pid = p ∧ r = f r') ∨ r ∈ t ∧ r.pid ≠ p := by
  have ⟨r', hr', heq⟩ := List.mem_map.mp h
  by_cases hp : r'.pid = p
  · rw [if_pos hp] at heq
    exact Or.inl ⟨r', hr', hp, heq.symm⟩
  · rw [if_neg hp] at heq
    rw [← heq]
    exact Or.inr ⟨hr', hp⟩

/-- A predicate on the entries is kept by a call if it is kept by what the call does. -/
theorem forall_after {P : Proc → Prop} {c : ProcCall} (h : ∀ r ∈ t, P r)
    (hdone : ∀ t', t.call p c = some t' → ∀ r ∈ t', P r) : ∀ r ∈ t.after p c, P r := by
  unfold after
  cases hcall : t.call p c with
  | none => exact h
  | some t' => exact hdone t' hcall

theorem mem_fork {child : ℤ} (h : t.fork p child = some t') (hr : r ∈ t') :
    (∃ r' ∈ t, r = ⟨child, r'.group, r'.session⟩) ∨ r ∈ t := by
  unfold fork at h
  cases hlook : t.lookup p with
  | none =>
    rw [hlook] at h
    cases h
  | some r' =>
    rw [hlook] at h
    dsimp only at h
    split at h
    · cases h
      rcases List.mem_cons.mp hr with hr | hr
      · exact Or.inl ⟨r', (lookup_eq_some hlook).1, hr⟩
      · exact Or.inr hr
    · cases h

theorem mem_setsid (h : t.setsid p = some t') (hr : r ∈ t') :
    t.Lacks p ∧ ((∃ r' ∈ t, r'.pid = p) ∧ r = ⟨p, p, p⟩ ∨ r ∈ t ∧ r.pid ≠ p) := by
  unfold setsid at h
  split at h
  · next hlacks =>
    cases h
    refine ⟨hlacks, ?_⟩
    rcases mem_move hr with ⟨r', hr', hpid, heq⟩ | hold
    · exact Or.inl ⟨⟨r', hr', hpid⟩, heq⟩
    · exact Or.inr hold
  · cases h

theorem mem_setpgid {group : ℤ} (h : t.setpgid p group = some t') (hr : r ∈ t') :
    (∃ r' ∈ t, r'.pid = p ∧ r'.session ≠ p ∧
        (group = 0 ∨ group = p ∨ ¬ t.Lacks group)) ∧
      ((∃ r' ∈ t, r'.pid = p ∧ r = { r' with group := if group = 0 then p else group }) ∨
        r ∈ t ∧ r.pid ≠ p) := by
  unfold setpgid at h
  cases hlook : t.lookup p with
  | none =>
    rw [hlook] at h
    cases h
  | some r₀ =>
    have ⟨hmem, hpid⟩ := lookup_eq_some hlook
    rw [hlook] at h
    dsimp only at h
    generalize hn : (if group = 0 then p else group) = n at h ⊢
    split at h
    · cases h
    · next hok =>
      cases h
      rw [not_or, not_or] at hok
      refine ⟨⟨r₀, hmem, hpid, hok.2.1, ?_⟩, mem_move hr⟩
      by_cases h0 : group = 0
      · exact Or.inl h0
      · rw [if_neg h0] at hn
        rw [← hn] at hok
        by_cases hown : group = p
        · exact Or.inr (Or.inl hown)
        · refine Or.inr (Or.inr fun hlacks => hok.2.2 ⟨hown, fun r' hr' heq => ?_⟩)
          exact absurd heq (hlacks r' hr')

/-! ## The group of one's own number -/

/-- How a process stands to the group of its own number. -/
inductive Rank
  -- there is no such group
  | member
  | groupLeader
  | sessionLeader
deriving DecidableEq, Repr

def Stands (t : ProcTable) (p : ℤ) : Rank → Prop
  | .member => t.Lacks p ∧ ∀ r ∈ t, r.pid = p → r.session ≠ p
  | .groupLeader => ∀ r ∈ t, r.pid = p → r.group = p ∧ r.session ≠ p
  | .sessionLeader => ∀ r ∈ t, r.pid = p → r.group = p ∧ r.session = p

/-- A call that leaves a process in its group and its session. -/
def Spares (p q : ℤ) : ProcCall → Prop
  | .fork child => child ≠ p
  | .exit => True
  | .setsid | .setpgid _ => q ≠ p

theorem fork_free {child : ℤ} (h : t.fork p child = some t') : t.Free child := by
  unfold fork at h
  split at h
  · cases h
  · split at h
    · next hfree => exact hfree
    · cases h

/-- A process that was just forked is in the group of its parent. -/
theorem stands_fork (h : t.fork q p = some t') : t'.Stands p .member := by
  have hfree := fork_free h
  constructor
  · intro r hr
    rcases mem_fork h hr with ⟨r', hr', heq⟩ | hr
    · rw [heq]
      exact (hfree r' hr').2.1
    · exact (hfree r hr).2.1
  · intro r hr _
    rcases mem_fork h hr with ⟨r', hr', heq⟩ | hr
    · rw [heq]
      exact (hfree r' hr').2.2
    · exact (hfree r hr).2.2

/-- Nobody else makes the group of that number, or enters it before it is there. -/
theorem Lacks.spared {c : ProcCall} (h : t.Lacks p) (hspares : Spares p q c) :
    (t.after q c).Lacks p := by
  refine forall_after h fun t' hcall r hr => ?_
  cases c with
  | fork child =>
    rcases mem_fork hcall hr with ⟨r', hr', heq⟩ | hr
    · rw [heq]
      exact h r' hr'
    · exact h r hr
  | exit =>
    cases hcall
    exact h r (List.mem_of_mem_filter hr)
  | setsid =>
    rcases (mem_setsid hcall hr).2 with ⟨_, heq⟩ | ⟨hr, _⟩
    · rw [heq]
      exact hspares
    · exact h r hr
  | setpgid group =>
    have ⟨⟨_, _, _, _, hgroup⟩, hcases⟩ := mem_setpgid hcall hr
    rcases hcases with ⟨r', _, _, heq⟩ | ⟨hr, _⟩
    · rw [heq]
      show (if group = 0 then q else group) ≠ p
      split
      · exact hspares
      · next h0 =>
        rcases hgroup with hzero | hown | hexists
        · exact absurd hzero h0
        · rw [hown]
          exact hspares
        · intro heq
          rw [heq] at hexists
          exact hexists h
    · exact h r hr

/-- What is said about the entries of a process stays true while the process is spared. -/
theorem forall_spared {P : Proc → Prop} {c : ProcCall} (h : ∀ r ∈ t, r.pid = p → P r)
    (hspares : Spares p q c) : ∀ r ∈ t.after q c, r.pid = p → P r := by
  refine forall_after h fun t' hcall r hr hpid => ?_
  cases c with
  | fork child =>
    rcases mem_fork hcall hr with ⟨r', _, heq⟩ | hr
    · rw [heq] at hpid
      exact absurd hpid hspares
    · exact h r hr hpid
  | exit =>
    cases hcall
    exact h r (List.mem_of_mem_filter hr) hpid
  | setsid =>
    rcases (mem_setsid hcall hr).2 with ⟨_, heq⟩ | ⟨hr, _⟩
    · rw [heq] at hpid
      exact absurd hpid hspares
    · exact h r hr hpid
  | setpgid group =>
    rcases (mem_setpgid hcall hr).2 with ⟨r', _, hq, heq⟩ | ⟨hr, _⟩
    · rw [heq] at hpid
      exact absurd (hq.symm.trans hpid) hspares
    · exact h r hr hpid

theorem Stands.spared {c : ProcCall} {rank : Rank} (h : t.Stands p rank)
    (hspares : Spares p q c) : (t.after q c).Stands p rank := by
  cases rank with
  | member => exact ⟨h.1.spared hspares, forall_spared h.2 hspares⟩
  | groupLeader | sessionLeader => exact forall_spared h hspares

/-- `setsid` makes a session leader of a member, and fails for a leader. -/
theorem Stands.setsid {rank : Rank} (h : t.Stands p rank) :
    (t.after p .setsid).Stands p (if rank = .member then .sessionLeader else rank) := by
  cases rank with
  | member =>
    rw [if_pos rfl]
    show ∀ r ∈ (t.setsid p).getD t, _
    unfold ProcTable.setsid
    rw [if_pos h.1]
    intro r hr hpid
    rcases mem_move hr with ⟨_, _, _, heq⟩ | ⟨_, hne⟩
    · rw [heq]
      exact ⟨rfl, rfl⟩
    · exact absurd hpid hne
  | groupLeader | sessionLeader =>
    refine forall_after h fun t' hcall r hr hpid => ?_
    have ⟨hlacks, hcases⟩ := mem_setsid hcall hr
    rcases hcases with ⟨⟨r', hr', hpid'⟩, _⟩ | ⟨_, hne⟩
    · exact absurd (h r' hr' hpid').1 (hlacks r' hr')
    · exact absurd hpid hne

/-- `setpgid` to the own number makes a group leader of a member, and to any other number
leaves a member one. -/
theorem Stands.setpgid_member (h : t.Stands p .member) (hp : 0 ≤ p) (group : ℤ) :
    (t.after p (.setpgid group)).Stands p
      (if group = 0 ∨ group = p then .groupLeader else .member) := by
  split
  · next hown =>
    have hn : (if group = 0 then p else group) = p := by
      split
      · rfl
      · next h0 => exact hown.resolve_left h0
    show ∀ r ∈ (t.setpgid p group).getD t, _
    unfold ProcTable.setpgid
    dsimp only
    rw [hn]
    cases hlook : t.lookup p with
    | none => exact fun r hr hpid => absurd hpid (lookup_eq_none hlook r hr)
    | some r₀ =>
      have ⟨hmem, hpid₀⟩ := lookup_eq_some hlook
      dsimp only
      rw [if_neg (by
        intro hno
        rcases hno with hneg | hsession | ⟨hne, _⟩
        · omega
        · exact h.2 r₀ hmem hpid₀ hsession
        · exact hne rfl)]
      intro r hr hpid
      rcases mem_move hr with ⟨r', hr', hp', heq⟩ | ⟨_, hne⟩
      · rw [heq]
        exact ⟨rfl, h.2 r' hr' hp'⟩
      · exact absurd hpid hne
  · next hother =>
    rw [not_or] at hother
    constructor
    · refine forall_after h.1 fun t' hcall r hr => ?_
      rcases (mem_setpgid hcall hr).2 with ⟨r', _, _, heq⟩ | ⟨hr, _⟩
      · rw [heq]
        show (if group = 0 then p else group) ≠ p
        rw [if_neg hother.1]
        exact hother.2
      · exact h.1 r hr
    · refine forall_after h.2 fun t' hcall r hr hpid => ?_
      rcases (mem_setpgid hcall hr).2 with ⟨r', hr', hp', heq⟩ | ⟨hr, _⟩
      · rw [heq]
        exact h.2 r' hr' hp'
      · exact h.2 r hr hpid

/-- A session leader stays where it is. -/
theorem Stands.setpgid_sessionLeader (h : t.Stands p .sessionLeader) (group : ℤ) :
    (t.after p (.setpgid group)).Stands p .sessionLeader := by
  refine forall_after h fun t' hcall r hr _ => ?_
  have ⟨⟨r', hr', hpid, hsession, _⟩, _⟩ := mem_setpgid hcall hr
  exact absurd (h r' hr' hpid).2 hsession

/-! ## Signals -/

/-- A process that a signal is for: the one with the number, or those of the group if the
number is negative. The numbers 0 and -1, which mean other things, are left out. -/
def Hits (target : ℤ) (r : Proc) : Prop :=
  0 < target ∧ r.pid = target ∨ target < -1 ∧ r.group = -target

/-- There is a process that the signal is for. -/
def Found (t : ProcTable) (target : ℤ) : Prop := ∃ r ∈ t, Hits target r

def Receives (t : ProcTable) (target p : ℤ) : Prop := ∃ r ∈ t, r.pid = p ∧ Hits target r

instance (target : ℤ) (r : Proc) : Decidable (Hits target r) :=
  inferInstanceAs (Decidable (_ ∨ _))

instance (t : ProcTable) (target : ℤ) : Decidable (t.Found target) :=
  inferInstanceAs (Decidable (∃ r ∈ t, Hits target r))

instance (t : ProcTable) (target p : ℤ) : Decidable (t.Receives target p) :=
  inferInstanceAs (Decidable (∃ r ∈ t, r.pid = p ∧ Hits target r))

theorem Receives.found (h : t.Receives target p) : t.Found target := by
  have ⟨r, hr, _, hhits⟩ := h
  exact ⟨r, hr, hhits⟩

theorem Alive.receives (h : t.Alive p) (hp : 0 < p) : t.Receives p p := by
  have ⟨r, hr, hpid⟩ := h
  exact ⟨r, hr, hpid, Or.inl ⟨hp, hpid⟩⟩

/-- A signal to the group of its own number reaches a process that leads the group, and
finds nobody while the process is a member of another one. -/
theorem Stands.receives_iff {rank : Rank} (h : t.Stands p rank) (halive : t.Alive p)
    (hp : 1 < p) :
    (t.Receives (-p) p ↔ rank ≠ .member) ∧ (t.Found (-p) ↔ rank ≠ .member) := by
  have hled : rank ≠ .member → t.Receives (-p) p := by
    intro hrank
    have ⟨r, hr, hpid⟩ := halive
    have hgroup : r.group = p := by
      cases rank with
      | member => exact absurd rfl hrank
      | groupLeader | sessionLeader => exact (h r hr hpid).1
    exact ⟨r, hr, hpid, Or.inr ⟨by omega, by omega⟩⟩
  have hlacked : t.Found (-p) → rank ≠ .member := by
    intro ⟨r, hr, hhits⟩ hrank
    rw [hrank] at h
    rcases hhits with ⟨hpos, _⟩ | ⟨_, hgroup⟩
    · omega
    · exact h.1 r hr (by omega)
  exact ⟨⟨fun hrec => hlacked hrec.found, hled⟩, ⟨hlacked, fun hrank => (hled hrank).found⟩⟩

end ProcTable
end Utils
