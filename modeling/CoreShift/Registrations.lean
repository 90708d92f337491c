import CoreShift.Attribution
import CoreShift.Utils.InterestList
import CoreShift.Utils.Runs

/-!
# Registrations of a reactor

The tokens of a reactor come from four schemes: the counter of `Reactor::add`, the listener's
constant, the number of a watched descriptor, and the job ids with the number of a stream above
them. The counter begins with the number that the listener has, and runs through the numbers of
the descriptors.
-/

namespace CoreShift

open Utils

/-! ## Tokens -/

/-- The scheme a token comes from. -/
inductive Origin
  | counter (n : UInt64)
  | listener
  | stream
  | slot (jobId : JobId) (stream : IoStream)
deriving DecidableEq, Repr

/-- The number of a stream in the tokens of `DrainState::new`. -/
def IoStream.number : IoStream → UInt64
  | .stdin => 1
  | .stdout => 2
  | .stderr => 3

/-- The token that a descriptor is registered with. -/
def Origin.token (e : RawFd × Origin) : Token :=
  match e.2 with
  | .counter n => ⟨n⟩
  | .listener => listenerToken
  | .stream => EffectExecutor.fdToken e.1
  | .slot jobId s => slotToken jobId s.number

/-! ## The reactor -/

def EEXIST : Int32 := 17

/-- `Reactor`. What is registered keeps the scheme of its token, of which the kernel only gets the
token. -/
structure Reactor where
  nextToken : UInt64
  watched : InterestList RawFd Origin
  signalfd : Option RawFd
  sigchldToken : Option Token

namespace Reactor

def new : Reactor := ⟨1, .empty, none, none⟩

/-- `Reactor::add_with_token`, given the `errno` of an `epoll_ctl` that fails; it does if the
descriptor is registered. -/
def addWithToken (r : Reactor) (e : RawFd × Origin) (errno : Option Int32) :
    Reactor × Except SysError Unit :=
  if h : e.1 ∈ r.watched.fds then (r, .error ⟨EEXIST, "epoll_ctl_add"⟩)
  else
    match syscallRet errno "epoll_ctl_add" with
    | .error e => (r, .error e)
    | .ok () => ({ r with watched := r.watched.add e h }, .ok ())

/-- `Reactor::add`. The counter goes on whether or not the kernel agrees. -/
def add (r : Reactor) (fd : RawFd) (errno : Option Int32) : Reactor × Except SysError Token :=
  let origin := Origin.counter r.nextToken
  match { r with nextToken := r.nextToken + 1 }.addWithToken (fd, origin) errno with
  | (r, .error e) => (r, .error e)
  | (r, .ok ()) => (r, .ok (Origin.token (fd, origin)))

/-- `Reactor::del_raw`; the kernel does the same when a descriptor is closed. -/
def delRaw (r : Reactor) (fd : RawFd) : Reactor := { r with watched := r.watched.remove fd }

/-- `Reactor::setup_signalfd`, given the `errno` of `sigprocmask`, the answer of `signalfd` and
the `errno` of `epoll_ctl`. A signal descriptor that was set up before is closed. -/
def setupSignalfd (r : Reactor) (mask : Option Int32) (signalfd : Except Int32 RawFd)
    (errno : Option Int32) : Reactor × Except SysError Unit :=
  match syscallRet mask "sigprocmask" with
  | .error e => (r, .error e)
  | .ok () =>
    match signalfd with
    | .error code => (r, .error ⟨code, "signalfd"⟩)
    | .ok fd =>
      match r.add fd errno with
      | (r, .error e) => (r.delRaw fd, .error e)
      | (r, .ok token) =>
        let r := match r.signalfd with
          | some old => r.delRaw old
          | none => r
        ({ r with signalfd := some fd, sigchldToken := some token }, .ok ())

end Reactor

/-! ## Tokens of one scheme and of two -/

/-- The counter, the job ids and the watched descriptors are in the ranges that the schemes leave
to each other. -/
def Origin.Sound (e : RawFd × Origin) : Prop :=
  match e.2 with
  | .counter n => n.toNat < 2 ^ 60
  | .listener => True
  | .stream => 2 < e.1
  | .slot jobId _ => jobId.toNat < 2 ^ 60

/-- The ways in which two registrations come to have one token. -/
inductive Clash : RawFd × Origin → RawFd × Origin → Prop
  | listeners (fd fd' : RawFd) : Clash (fd, .listener) (fd', .listener)
  | slots (fd fd' : RawFd) (jobId : JobId) (s : IoStream) :
      Clash (fd, .slot jobId s) (fd', .slot jobId s)
  | first (fd fd' : RawFd) : Clash (fd, .counter 1) (fd', .listener)
  | listener (fd fd' : RawFd) : Clash (fd, .listener) (fd', .counter 1)
  | number (fd fd' : RawFd) :
      Clash (fd, .counter (EffectExecutor.fdToken fd').val) (fd', .stream)
  | stream (fd fd' : RawFd) :
      Clash (fd, .stream) (fd', .counter (EffectExecutor.fdToken fd).val)

theorem Clash.token_eq {e e' : RawFd × Origin} (h : Clash e e') :
    Origin.token e = Origin.token e' := by
  cases h <;> rfl

theorem slotToken_toNat {jobId : JobId} (h : jobId.toNat < 2 ^ 60) (s : IoStream) :
    (slotToken jobId s.number).val.toNat = 2 ^ 60 * s.number.toNat + jobId.toNat := by
  have hshift : (s.number <<< 60).toNat = 2 ^ 60 * s.number.toNat := by cases s <;> decide
  show (jobId ||| (s.number <<< 60)).toNat = _
  rw [UInt64.toNat_or, hshift, Nat.or_comm, ← Nat.two_pow_add_eq_or_of_lt h]

theorem IoStream.number_pos (s : IoStream) : 1 ≤ s.number.toNat := by cases s <;> decide

theorem IoStream.number_inj {s s' : IoStream} (h : s.number.toNat = s'.number.toNat) : s = s' := by
  cases s <;> cases s' <;> first | rfl | exact absurd h (by decide)

theorem fdToken_lt {fd : RawFd} (h : 0 ≤ fd) : (EffectExecutor.fdToken fd).val.toNat < 2 ^ 60 := by
  have h64 : 0 ≤ fd.toInt64 := by
    rw [Int64.le_iff_toInt_le, Int32.toInt_toInt64]
    exact Int32.le_iff_toInt_le.mp h
  have hval : (EffectExecutor.fdToken fd).val.toNat = fd.toNatClampNeg := by
    show fd.toInt64.toUInt64.toNat = _
    rw [Int64.toNat_toUInt64_of_le h64, Int32.toNatClampNeg_toInt64]
  rw [hval]
  exact fd.toNatClampNeg_lt.trans (by decide)

namespace Origin

variable {fd fd' : RawFd} {o o' : Origin} {jobId jobId' : JobId} {s s' : IoStream}

theorem le_token (h : Sound (fd, .slot jobId s)) :
    2 ^ 60 ≤ (token (fd, .slot jobId s)).val.toNat := by
  have hval : (token (fd, .slot jobId s)).val.toNat = _ := slotToken_toNat h s
  have hpos := s.number_pos
  omega

/-- Only slots have their tokens from `2 ^ 60` on. -/
theorem token_lt (h : Sound (fd, o)) (hslot : ∀ jobId s, o ≠ .slot jobId s) :
    (token (fd, o)).val.toNat < 2 ^ 60 := by
  cases o with
  | counter n => exact h
  | listener => exact (by decide : (1 : UInt64).toNat < 2 ^ 60)
  | stream =>
    have htwo : (2 : Int32) < fd := h
    exact fdToken_lt (Int32.le_of_lt (Int32.lt_trans (by decide) htwo))
  | slot jobId s => exact absurd rfl (hslot jobId s)

theorem token_ne_slot (h : Sound (fd, o)) (hslot : ∀ jobId s, o ≠ .slot jobId s)
    (h' : Sound (fd', .slot jobId s)) : token (fd, o) ≠ token (fd', .slot jobId s) := by
  intro heq
  have hlow := token_lt h hslot
  rw [heq] at hlow
  exact absurd (le_token h') (Nat.not_le.mpr hlow)

theorem token_ne_listener (h : Sound (fd, .stream)) : token (fd, .stream) ≠ listenerToken := by
  have htwo : (2 : Int32) < fd := h
  have hne : fd ≠ 1 := by
    intro hone
    rw [hone] at htwo
    exact absurd htwo (by decide)
  exact fdToken_ne_listener hne

theorem slot_inj (h : Sound (fd, .slot jobId s)) (h' : Sound (fd', .slot jobId' s'))
    (heq : token (fd, .slot jobId s) = token (fd', .slot jobId' s')) :
    jobId = jobId' ∧ s = s' := by
  have hjob : jobId.toNat < 2 ^ 60 := h
  have hjob' : jobId'.toNat < 2 ^ 60 := h'
  have hval : (slotToken jobId s.number).val.toNat = (slotToken jobId' s'.number).val.toNat :=
    congrArg (fun t => t.val.toNat) heq
  rw [slotToken_toNat hjob, slotToken_toNat hjob'] at hval
  exact ⟨UInt64.toNat_inj.mp (by omega), IoStream.number_inj (by omega)⟩

/-- Registrations that do not clash have different tokens, within the ranges. -/
theorem token_ne (h : Sound (fd, o)) (h' : Sound (fd', o')) (hfd : fd ≠ fd')
    (hcounter : ∀ n, o = .counter n → o' ≠ .counter n) (hclash : ¬ Clash (fd, o) (fd', o')) :
    token (fd, o) ≠ token (fd', o') := by
  cases o with
  | counter n =>
    cases o' with
    | counter n' =>
      intro heq
      have hn : n = n' := congrArg Token.val heq
      exact hcounter n rfl (congrArg Origin.counter hn.symm)
    | listener =>
      intro heq
      have hn : n = 1 := congrArg Token.val heq
      rw [hn] at hclash
      exact hclash (.first fd fd')
    | stream =>
      intro heq
      have hn : n = (EffectExecutor.fdToken fd').val := congrArg Token.val heq
      rw [hn] at hclash
      exact hclash (.number fd fd')
    | slot jobId s => exact token_ne_slot h (fun _ _ => nofun) h'
  | listener =>
    cases o' with
    | counter n =>
      intro heq
      have hn : 1 = n := congrArg Token.val heq
      rw [← hn] at hclash
      exact hclash (.listener fd fd')
    | listener => exact absurd (.listeners fd fd') hclash
    | stream => exact (token_ne_listener h').symm
    | slot jobId s => exact token_ne_slot h (fun _ _ => nofun) h'
  | stream =>
    cases o' with
    | counter n =>
      intro heq
      have hn : (EffectExecutor.fdToken fd).val = n := congrArg Token.val heq
      rw [← hn] at hclash
      exact hclash (.stream fd fd')
    | listener => exact token_ne_listener h
    | stream => exact fun heq => hfd (EffectExecutor.fdToken_inj heq)
    | slot jobId s => exact token_ne_slot h (fun _ _ => nofun) h'
  | slot jobId s =>
    cases o' with
    | slot jobId' s' =>
      intro heq
      have ⟨hid, hs⟩ := slot_inj h h' heq
      rw [hid, hs] at hclash
      exact hclash (.slots fd fd' jobId' s')
    | counter | listener | stream => exact (token_ne_slot h' (fun _ _ => nofun) h).symm

end Origin

/-! ## Runs -/

/-- A registration by one of the schemes, with the `errno` of `epoll_ctl`, or the end of one. -/
inductive ReactorCall
  | add (fd : RawFd) (errno : Option Int32)
  | listen (fd : RawFd) (errno : Option Int32)
  | watchStream (fd : RawFd) (errno : Option Int32)
  | watchSlot (fd : RawFd) (jobId : JobId) (s : IoStream) (errno : Option Int32)
  | removed (fd : RawFd)

/-- The standard streams of the daemon are not watched. -/
def ReactorCall.Formed : ReactorCall → Prop
  | .watchStream fd _ => 2 < fd
  | _ => True

namespace Reactor

def call (r : Reactor) : ReactorCall → Reactor
  | .add fd errno => (r.add fd errno).1
  | .listen fd errno => (r.addWithToken (fd, .listener) errno).1
  | .watchStream fd errno => (r.addWithToken (fd, .stream) errno).1
  | .watchSlot fd jobId s errno => (r.addWithToken (fd, .slot jobId s) errno).1
  | .removed fd => r.delRaw fd

def Step (r : Reactor) (c : ReactorCall) (r' : Reactor) : Prop := r.call c = r'

/-- No two descriptors that are registered have the same token. -/
def Distinct (r : Reactor) : Prop := r.watched.Distinct Origin.token

/-- What a call asks the kernel to register, and the kernel's answer. -/
def request (r : Reactor) : ReactorCall → Option ((RawFd × Origin) × Option Int32)
  | .add fd errno => some ((fd, .counter r.nextToken), errno)
  | .listen fd errno => some ((fd, .listener), errno)
  | .watchStream fd errno => some ((fd, .stream), errno)
  | .watchSlot fd jobId s errno => some ((fd, .slot jobId s), errno)
  | .removed _ => none

/-- The call registers this. -/
def Registers (r : Reactor) (c : ReactorCall) (e : RawFd × Origin) : Prop :=
  r.request c = some (e, none) ∧ e.1 ∉ r.watched.fds

/-- The counter and the job ids have not reached the numbers of the streams. -/
def InRange (r : Reactor) : ReactorCall → Prop
  | .add _ _ => r.nextToken.toNat < 2 ^ 60
  | .watchSlot _ jobId _ _ => jobId.toNat < 2 ^ 60
  | _ => True

/-- What the call registers clashes with nothing that is registered. -/
def Free (r : Reactor) (c : ReactorCall) : Prop :=
  ∀ e, r.Registers c e → ∀ e' ∈ r.watched.entries, ¬ Clash e' e

/-! ### One call -/

variable {r : Reactor} {c : ReactorCall}

/-- A list after the kernel was asked to add a descriptor. -/
def Asked (l : InterestList RawFd Origin) (e : RawFd × Origin) (errno : Option Int32)
    (l' : InterestList RawFd Origin) : Prop :=
  l' = l ∧ ¬ (errno = none ∧ e.1 ∉ l.fds) ∨ ∃ h : e.1 ∉ l.fds, errno = none ∧ l' = l.add e h

theorem addWithToken_asked (r : Reactor) (e : RawFd × Origin) (errno : Option Int32) :
    Asked r.watched e errno (r.addWithToken e errno).1.watched := by
  unfold addWithToken
  by_cases h : e.1 ∈ r.watched.fds
  · rw [dif_pos h]
    exact Or.inl ⟨rfl, fun hno => hno.2 h⟩
  · rw [dif_neg h]
    cases errno with
    | some code => exact Or.inl ⟨rfl, nofun⟩
    | none => exact Or.inr ⟨h, rfl, rfl⟩

theorem add_fst (r : Reactor) (fd : RawFd) (errno : Option Int32) :
    (r.add fd errno).1 = ({ r with nextToken := r.nextToken + 1 }.addWithToken
      (fd, .counter r.nextToken) errno).1 := by
  unfold add
  dsimp only
  split <;> next h => rw [h]

/-- A call asks for a registration, or ends one. -/
theorem call_asked (r : Reactor) (c : ReactorCall) :
    (∃ e errno, r.request c = some (e, errno) ∧ Asked r.watched e errno (r.call c).watched) ∨
      r.request c = none ∧ ∃ fd, (r.call c).watched = r.watched.remove fd := by
  cases c with
  | add fd errno =>
    have h := { r with nextToken := r.nextToken + 1 }.addWithToken_asked
      (fd, .counter r.nextToken) errno
    rw [← add_fst] at h
    exact Or.inl ⟨_, _, rfl, h⟩
  | listen fd errno => exact Or.inl ⟨_, _, rfl, r.addWithToken_asked _ _⟩
  | watchStream fd errno => exact Or.inl ⟨_, _, rfl, r.addWithToken_asked _ _⟩
  | watchSlot fd jobId s errno => exact Or.inl ⟨_, _, rfl, r.addWithToken_asked _ _⟩
  | removed fd => exact Or.inr ⟨rfl, fd, rfl⟩

/-- A call registers what it asks for, or registers nothing. -/
theorem call_cases (r : Reactor) (c : ReactorCall) :
    (∃ e, ∃ h : e.1 ∉ r.watched.fds, r.Registers c e ∧
      (r.call c).watched = r.watched.add e h) ∨
    (∀ e, ¬ r.Registers c e) ∧
      ((r.call c).watched = r.watched ∨ ∃ fd, (r.call c).watched = r.watched.remove fd) := by
  rcases r.call_asked c with ⟨e, errno, hrequest, hasked⟩ | ⟨hrequest, hremoved⟩
  · rcases hasked with ⟨hsame, hrefused⟩ | ⟨h, hnone, hadded⟩
    · refine Or.inr ⟨?_, Or.inl hsame⟩
      rintro e' ⟨hregisters, hfresh⟩
      have heq := Option.some.inj (hrequest.symm.trans hregisters)
      rw [Prod.mk.injEq] at heq
      exact hrefused ⟨heq.2, heq.1 ▸ hfresh⟩
    · exact Or.inl ⟨e, h, ⟨by rw [hrequest, hnone], h⟩, hadded⟩
  · refine Or.inr ⟨?_, Or.inr hremoved⟩
    rintro e ⟨hregisters, _⟩
    rw [hrequest] at hregisters
    cases hregisters

theorem addWithToken_nextToken (r : Reactor) (e : RawFd × Origin) (errno : Option Int32) :
    (r.addWithToken e errno).1.nextToken = r.nextToken := by
  unfold addWithToken
  split
  · rfl
  · split <;> rfl

/-- The counter goes on by one with each `add`. -/
theorem call_nextToken (r : Reactor) (c : ReactorCall) :
    (∃ fd errno, c = .add fd errno) ∧ (r.call c).nextToken = r.nextToken + 1 ∨
      (∀ fd errno, c ≠ .add fd errno) ∧ (r.call c).nextToken = r.nextToken := by
  cases c with
  | add fd errno =>
    refine Or.inl ⟨⟨fd, errno, rfl⟩, ?_⟩
    show (r.add fd errno).1.nextToken = _
    rw [add_fst, addWithToken_nextToken]
  | listen | watchStream | watchSlot =>
    exact Or.inr ⟨fun _ _ => nofun, r.addWithToken_nextToken _ _⟩
  | removed fd => exact Or.inr ⟨fun _ _ => nofun, rfl⟩

/-- What is registered is within its range. -/
theorem Registers.sound {e : RawFd × Origin} (h : r.Registers c e) (hformed : c.Formed)
    (hrange : r.InRange c) : Origin.Sound e := by
  have hrequest := h.1
  cases c with
  | add fd errno | watchStream fd errno | watchSlot fd jobId s errno =>
    cases hrequest
    first | exact hrange | exact hformed
  | listen fd errno =>
    cases hrequest
    trivial
  | removed fd => cases hrequest

/-- A counter's token is the next one. -/
theorem Registers.counter_eq {fd : RawFd} {n : UInt64} (h : r.Registers c (fd, .counter n)) :
    n = r.nextToken ∧ ∃ fd errno, c = .add fd errno := by
  have hrequest := h.1
  cases c with
  | add fd' errno =>
    cases hrequest
    exact ⟨rfl, fd, none, rfl⟩
  | _ => cases hrequest

/-! ### All calls -/

/-- The tokens of the counter are below its next one, and all are in their ranges and distinct. -/
structure Kept (r : Reactor) : Prop where
  counter : r.nextToken.toNat ≤ 2 ^ 60
  below : ∀ fd n, (fd, .counter n) ∈ r.watched.entries → n.toNat < r.nextToken.toNat
  sound : ∀ e ∈ r.watched.entries, Origin.Sound e
  distinct : r.Distinct

theorem kept_new : new.Kept :=
  ⟨by decide, nofun, nofun, List.nodup_nil⟩

/-- The counter goes up within its range. -/
theorem Kept.nextToken_le (h : r.Kept) (hrange : r.InRange c) :
    r.nextToken.toNat ≤ (r.call c).nextToken.toNat ∧
      (r.call c).nextToken.toNat ≤ 2 ^ 60 ∧
      ((∃ fd errno, c = .add fd errno) → r.nextToken.toNat < (r.call c).nextToken.toNat) := by
  rcases r.call_nextToken c with ⟨⟨fd, errno, hc⟩, heq⟩ | ⟨hno, heq⟩
  · rw [hc] at hrange
    have hlt : r.nextToken.toNat < 2 ^ 60 := hrange
    have hsucc : (r.nextToken + 1).toNat = r.nextToken.toNat + 1 := by
      rw [UInt64.toNat_add]
      exact Nat.mod_eq_of_lt (Nat.lt_of_le_of_lt hlt (by decide))
    rw [heq, hsucc]
    exact ⟨Nat.le_succ _, hlt, fun _ => Nat.lt_succ_self _⟩
  · rw [heq]
    exact ⟨le_rfl, h.counter, fun ⟨fd, errno, hc⟩ => absurd hc (hno fd errno)⟩

/-- A number that the counter has given is not given again. -/
theorem Kept.counter_ne {e e' : RawFd × Origin} (h : r.Kept) (hregisters : r.Registers c e)
    (he' : e' ∈ r.watched.entries) : ∀ n, e'.2 = .counter n → e.2 ≠ .counter n := by
  intro n hn' hn
  have hnew : r.Registers c (e.1, .counter n) := by
    rw [← hn]
    exact hregisters
  have hold : (e'.1, .counter n) ∈ r.watched.entries := by
    rw [← hn']
    exact he'
  have hbelow := h.below e'.1 n hold
  rw [hnew.counter_eq.1] at hbelow
  omega

theorem Kept.call (h : r.Kept) (hformed : c.Formed) (hrange : r.InRange c) (hfree : r.Free c) :
    (r.call c).Kept := by
  have ⟨hle, hbound, hlt⟩ := h.nextToken_le hrange
  rcases r.call_cases c with ⟨e, hfresh, hregisters, hadded⟩ | ⟨_, hrest⟩
  · have hsound := hregisters.sound hformed hrange
    refine ⟨hbound, ?_, ?_, ?_⟩
    · intro fd n hmem
      rw [hadded, InterestList.mem_add] at hmem
      rcases hmem with hold | hnew
      · exact Nat.lt_of_lt_of_le (h.below fd n hold) hle
      · rw [← hnew] at hregisters
        have ⟨hn, hadd⟩ := hregisters.counter_eq
        rw [hn]
        exact hlt hadd
    · intro e' hmem
      rw [hadded, InterestList.mem_add] at hmem
      rcases hmem with hold | hnew
      · exact h.sound e' hold
      · rw [hnew]
        exact hsound
    · rw [Distinct, hadded, InterestList.distinct_add_iff]
      refine ⟨fun e' he' => ?_, h.distinct⟩
      exact Origin.token_ne (h.sound e' he') hsound (InterestList.fd_ne hfresh he')
        (h.counter_ne hregisters he') (hfree e hregisters e' he')
  · have hsub : ∀ e ∈ (r.call c).watched.entries, e ∈ r.watched.entries := by
      rcases hrest with hsame | ⟨fd, hremoved⟩
      · rw [hsame]
        exact fun _ he => he
      · rw [hremoved]
        exact fun _ he => InterestList.mem_of_mem_remove he
    refine ⟨hbound, ?_, fun e he => h.sound e (hsub e he), ?_⟩
    · exact fun fd n hmem => Nat.lt_of_lt_of_le (h.below fd n (hsub _ hmem)) hle
    · rcases hrest with hsame | ⟨fd, hremoved⟩
      · rw [Distinct, hsame]
        exact h.distinct
      · rw [Distinct, hremoved]
        exact h.distinct.remove fd

/-- A clash leaves two descriptors with one token. -/
theorem Free.of_distinct (h : (r.call c).Distinct) : r.Free c := by
  intro e hregisters e' he' hclash
  rcases r.call_cases c with ⟨e₀, hfresh, hregisters₀, hadded⟩ | ⟨hno, _⟩
  · have heq := Option.some.inj (hregisters.1.symm.trans hregisters₀.1)
    rw [Prod.mk.injEq] at heq
    rw [Distinct, hadded, InterestList.distinct_add_iff] at h
    exact h.1 e' he' (heq.1 ▸ hclash.token_eq)
  · exact hno e hregisters

/-- No two registered descriptors have one token in any run in which the counter and the job ids
stay in their ranges and no call clashes with what is registered; and a call that clashes gives
two of them one. -/
theorem tokens_distinct {h : List (Moment Reactor ReactorCall)} {r : Reactor}
    (hrun : Run (Traced Step) .new h r) (hformed : ∀ m ∈ h, m.label.Formed) :
    ((∀ m ∈ h, m.before.InRange m.label ∧ m.before.Free m.label) →
      r.Distinct ∧ ∀ m ∈ h, m.after.Distinct) ∧
    ((∀ m ∈ h, m.after.Distinct) → ∀ m ∈ h, m.before.Free m.label) := by
  constructor
  · intro hcond
    have hkeep : ∀ m ∈ h, m.before.Kept → Step m.before m.label m.after → m.after.Kept := by
      intro m hm hbefore hstep
      rw [← show m.before.call m.label = m.after from hstep]
      exact hbefore.call (hformed m hm) (hcond m hm).1 (hcond m hm).2
    have ⟨hr, hall⟩ := hrun.invariant_history hkeep kept_new
    exact ⟨hr.distinct, fun m hm => (hall m hm).distinct⟩
  · intro hdistinct m hm
    have hstep : m.before.call m.label = m.after := hrun.step_of_mem hm
    apply Free.of_distinct
    rw [hstep]
    exact hdistinct m hm

end Reactor

/-! ### The listener and the signal descriptor -/

namespace Reactor

/-- Setting up the signal descriptor is an `add`, and the end of the descriptor before it. -/
theorem setupSignalfd_run (r : Reactor) (mask : Option Int32) (signalfd : Except Int32 RawFd)
    (errno : Option Int32) :
    ∃ t r', Run Step r t r' ∧ (r.setupSignalfd mask signalfd errno).1.nextToken = r'.nextToken ∧
      (r.setupSignalfd mask signalfd errno).1.watched = r'.watched := by
  unfold setupSignalfd
  cases syscallRet mask "sigprocmask" with
  | error e => exact ⟨[], r, .nil r, rfl, rfl⟩
  | ok =>
    cases signalfd with
    | error code => exact ⟨[], r, .nil r, rfl, rfl⟩
    | ok fd =>
      dsimp only
      rcases hadd : r.add fd errno with ⟨r', e | token⟩
      all_goals have hstep : r.Step (.add fd errno) r' := congrArg Prod.fst hadd
      · have hremoved : r'.Step (.removed fd) (r'.delRaw fd) := rfl
        exact ⟨_, _, .cons hstep (.single hremoved), rfl, rfl⟩
      · dsimp only
        cases r'.signalfd with
        | none => exact ⟨_, r', .single hstep, rfl, rfl⟩
        | some old =>
          have hremoved : r'.Step (.removed old) (r'.delRaw old) := rfl
          exact ⟨_, _, .cons hstep (.single hremoved), rfl, rfl⟩

end Reactor

namespace Registrations

/-- A reactor with the listener of the daemon. -/
def listening : Reactor := Reactor.new.call (.listen 3 none)

theorem tokens_distinct_watched : (listening.call (.watchStream 7 none)).Distinct := by
  have hrun : Run (Traced Reactor.Step) .new
      [⟨.new, .listen 3 none, listening⟩,
        ⟨listening, .watchStream 7 none, listening.call (.watchStream 7 none)⟩]
      (listening.call (.watchStream 7 none)) := .cons (.of_step rfl) (.single (.of_step rfl))
  have hformed : ∀ m ∈ [(⟨.new, .listen 3 none, listening⟩ : Moment Reactor ReactorCall),
      ⟨listening, .watchStream 7 none, listening.call (.watchStream 7 none)⟩],
      m.label.Formed := by
    rw [List.forall_mem_cons, List.forall_mem_singleton]
    exact ⟨trivial, (by decide : (2 : Int32) < 7)⟩
  refine ((Reactor.tokens_distinct hrun hformed).1 ?_).1
  rw [List.forall_mem_cons, List.forall_mem_singleton]
  refine ⟨⟨trivial, fun _ _ _ => nofun⟩, trivial, ?_⟩
  rintro e ⟨hrequest, _⟩ e' he' hclash
  have he : e = (7, .stream) := (congrArg Prod.fst (Option.some.inj hrequest)).symm
  have hlistener : e' = (3, .listener) := List.mem_singleton.mp he'
  rw [he, hlistener] at hclash
  cases hclash

/-- The first token of the counter is the listener's. -/
theorem signalfd_takes_listener_token :
    Run Reactor.Step .new [.listen 3 none, .add 4 none] (listening.call (.add 4 none)) ∧
      ¬ (listening.call (.add 4 none)).Distinct ∧
      (listening.setupSignalfd none (.ok 4) none).1.sigchldToken = some listenerToken ∧
      (listening.setupSignalfd none (.ok 4) none).1.watched.entries.map Origin.token =
        [listenerToken, listenerToken] := by
  have htokens : (listening.call (.add 4 none)).watched.entries.map Origin.token =
      [listenerToken, listenerToken] := rfl
  refine ⟨.cons rfl (.single rfl), fun h => ?_, rfl, rfl⟩
  rw [Reactor.Distinct, InterestList.Distinct, htokens] at h
  exact absurd h (by decide)

end Registrations
end CoreShift
