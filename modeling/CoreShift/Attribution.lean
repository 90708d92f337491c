import CoreShift.Signals
import CoreShift.Spawning

/-!
# Readiness belongs to the job that holds the descriptor

A token of the executor is the number of a descriptor, and numbers are reused. An entry of
`fd_map` outlives the descriptor it was made for: the end of a stream closes the descriptor and
leaves the entry. What makes an event go to the right job all the same is the kernel: a closed
descriptor is no longer registered, so that whenever a descriptor is registered, its entry was
renewed when it was.

The runs are those of the executor beside everything else that opens and closes descriptors.
-/

namespace CoreShift

open Utils WorkQueue

/-! ## Tokens -/

/-- Different descriptors have different tokens. -/
theorem EffectExecutor.fdToken_inj {fd fd' : RawFd} (h : fdToken fd = fdToken fd') : fd = fd' := by
  -- the sign extension is injective, and the cast to 64 bits unsigned is a bijection
  have h64 : fd.toInt64 = fd'.toInt64 := by
    have hval : fd.toInt64.toUInt64 = fd'.toInt64.toUInt64 := congrArg Token.val h
    generalize fd.toInt64 = a at hval ⊢
    generalize fd'.toInt64 = b at hval ⊢
    cases a
    cases b
    exact congrArg Int64.ofUInt64 hval
  rw [← Int32.toInt_inj, ← Int32.toInt_toInt64, h64, Int32.toInt_toInt64]

/-- The token that the daemon registers its listener with. -/
def listenerToken : Token := ⟨1⟩

theorem fdToken_ne_listener {fd : RawFd} (h : fd ≠ 1) :
    EffectExecutor.fdToken fd ≠ listenerToken := by
  intro heq
  have hone : EffectExecutor.fdToken 1 = listenerToken := by decide
  exact h (EffectExecutor.fdToken_inj (heq.trans hone.symm))

/-! ## The slots of a drain -/

/-- Some slots are given up, the others are as they were. -/
structure DrainState.Shrinks (d d' : DrainState) : Prop where
  stdin : d'.stdinSlot = d.stdinSlot ∨ d'.stdinSlot = none
  stdout : d'.stdoutSlot = d.stdoutSlot ∨ d'.stdoutSlot = none
  stderr : d'.stderrSlot = d.stderrSlot ∨ d'.stderrSlot = none

namespace DrainState

theorem Shrinks.refl (d : DrainState) : d.Shrinks d := ⟨Or.inl rfl, Or.inl rfl, Or.inl rfl⟩

theorem Shrinks.trans {d d' d'' : DrainState} (h : d.Shrinks d') (h' : d'.Shrinks d'') :
    d.Shrinks d'' := by
  have hslot : ∀ {a b c : Option FdSlot}, b = a ∨ b = none → c = b ∨ c = none →
      c = a ∨ c = none := by
    intro a b c hb hc
    rcases hc with hc | hc
    · rw [hc]
      exact hb
    · exact Or.inr hc
  exact ⟨hslot h.stdin h'.stdin, hslot h.stdout h'.stdout, hslot h.stderr h'.stderr⟩

theorem mem_slotFds {d : DrainState} {fd : RawFd} :
    fd ∈ d.slotFds ↔ ∃ stream, EffectExecutor.streamFd d stream = some fd := by
  unfold slotFds takeAllSlots EffectExecutor.streamFd
  constructor
  · intro h
    rw [List.map_append, List.map_append, List.mem_append, List.mem_append] at h
    rcases h with (h | h) | h
    · refine ⟨.stdin, ?_⟩
      have ⟨slot, hslot, hfd⟩ := List.mem_map.mp h
      rw [Option.mem_toList] at hslot
      rw [← hfd, hslot]
      rfl
    · refine ⟨.stdout, ?_⟩
      have ⟨slot, hslot, hfd⟩ := List.mem_map.mp h
      rw [Option.mem_toList] at hslot
      rw [← hfd, hslot]
      rfl
    · refine ⟨.stderr, ?_⟩
      have ⟨slot, hslot, hfd⟩ := List.mem_map.mp h
      rw [Option.mem_toList] at hslot
      rw [← hfd, hslot]
      rfl
  · intro ⟨stream, h⟩
    cases stream with
    | stdin =>
      have ⟨slot, hslot, hfd⟩ := Option.map_eq_some_iff.mp h
      simp [hslot, hfd]
    | stdout =>
      have ⟨slot, hslot, hfd⟩ := Option.map_eq_some_iff.mp h
      simp [hslot, hfd]
    | stderr =>
      have ⟨slot, hslot, hfd⟩ := Option.map_eq_some_iff.mp h
      simp [hslot, hfd]

/-- A drain that shrinks holds no new descriptor. -/
theorem Shrinks.slotFds_subset {d d' : DrainState} (h : d.Shrinks d') {fd : RawFd}
    (hfd : fd ∈ d'.slotFds) : fd ∈ d.slotFds := by
  have hslot : ∀ {a b : Option FdSlot}, b = a ∨ b = none → b.map FdSlot.fd = some fd →
      a.map FdSlot.fd = some fd := by
    intro a b hb hmap
    rcases hb with hb | hb
    · rwa [hb] at hmap
    · rw [hb] at hmap
      cases hmap
  rw [mem_slotFds] at hfd ⊢
  have ⟨stream, hstream⟩ := hfd
  refine ⟨stream, ?_⟩
  cases stream with
  | stdin => exact hslot h.stdin hstream
  | stdout => exact hslot h.stdout hstream
  | stderr => exact hslot h.stderr hstream

theorem readFd_shrinks (d : DrainState) (isStdout : Bool) (answers : List ReadAnswer) :
    d.Shrinks (d.readFd isStdout answers).1 := by
  unfold readFd
  split
  · exact .refl d
  · dsimp only
    split
    · exact ⟨Or.inl rfl, Or.inl rfl, Or.inl rfl⟩
    · exact ⟨Or.inl rfl, Or.inl rfl, Or.inl rfl⟩
    · split
      · exact ⟨Or.inl rfl, Or.inr rfl, Or.inl rfl⟩
      · exact ⟨Or.inl rfl, Or.inl rfl, Or.inr rfl⟩

theorem writeStdin_shrinks (d : DrainState) (answers : List WriteAnswer) :
    d.Shrinks (d.writeStdin answers).1 := by
  unfold writeStdin
  split
  · exact .refl d
  · dsimp only
    split
    · exact ⟨Or.inr rfl, Or.inl rfl, Or.inl rfl⟩
    · exact ⟨Or.inl rfl, Or.inl rfl, Or.inl rfl⟩

end DrainState

theorem EffectExecutor.performIo_shrinks (drain : DrainState) (ans : OsAnswer) :
    drain.Shrinks (performIo drain ans) := by
  have hread : ∀ (d : DrainState) (b isStdout : Bool) (answers : List ReadAnswer),
      d.Shrinks (if b then (d.readFd isStdout answers).1 else d) := by
    intro d b isStdout answers
    cases b with
    | true => exact d.readFd_shrinks isStdout answers
    | false => exact .refl d
  have hwrite : ∀ (d : DrainState) (b : Bool) (answers : List WriteAnswer),
      d.Shrinks (if b then (d.writeStdin answers).1 else d) := by
    intro d b answers
    cases b with
    | true => exact d.writeStdin_shrinks answers
    | false => exact .refl d
  unfold performIo
  exact ((hread _ _ _ _).trans (hread _ _ _ _)).trans (hwrite _ _ _)

/-! ## What the core asks for -/

/-- The actions that are not quiet have no effect on the io. -/
theorem JobView.Outcome.effects_of_loud {id : JobId} {v v' : JobView} {o : PopLog} {a : Action}
    {out : List Action} (h : v.Outcome id o a v' out) (hquiet : a.isQuiet = false) :
    ∀ e ∈ o.effects, e.isIo = false := by
  intro e he
  rcases h.loud_effect hquiet he with
    ⟨_, _, _, heq⟩ | ⟨_, _, _, _, _, _, _, heq⟩ | ⟨_, _, _, _, heq⟩
  all_goals
    rw [heq]
    rfl

/-- A stream is watched because of the io handle that the job has recorded. -/
theorem World.Reacts.watched {σ α : Type} {E : Executor σ α} {w w' : World σ} {a : Action}
    {o : PopLog} {out : List Action} (h : World.Reacts E w a o out w') {id : JobId}
    {io : IoHandle} {stream : IoStream} (hw : .watchStream id io stream ∈ o.effects) :
    ∃ job, w.state.jobs.get id = some job ∧ job.io = some io := by
  have hquiet : a.isQuiet = true := by
    by_contra hloud
    rw [Bool.not_eq_true] at hloud
    have hio := h.outcome.effects_of_loud hloud _ hw
    cases hio
  rw [h.effects_eq] at hw
  cases a with
  | registerInterest i s =>
    change _ ∈ (w.view i).ioEffects _ at hw
    unfold JobView.ioEffects at hw
    cases hj : (w.view i).job.bind JobState.io with
    | none =>
      rw [hj] at hw
      cases hw
    | some h =>
      rw [hj] at hw
      have heq := List.mem_singleton.mp hw
      cases heq
      exact Option.bind_eq_some_iff.mp hj
  | performIo i | removeInterest i s =>
    change _ ∈ (w.view i).ioEffects _ at hw
    unfold JobView.ioEffects at hw
    split at hw
    · cases List.mem_singleton.mp hw
    · cases hw
  | emitLog level event => cases List.mem_singleton.mp hw
  | rejected | started | controlled | queryResult => cases hw
  | _ => cases hquiet

/-- So the executor is asked to watch drains for the jobs that they were made for. -/
theorem watched_of_start {σ α : Type} {E : Executor σ α} {maxJobs : ℕ} {x : σ} {t : List Label}
    {c c' : Loop σ} (hrun : Run (Loop.Step E) (.init maxJobs x) t c) {a : Action} {o : PopLog}
    (hstep : Loop.Step E c (.pop a o) c') {id : JobId} {io : IoHandle} {stream : IoStream}
    (hw : .watchStream id io stream ∈ o.effects) : ∃ process, (id, process, io) ∈ issuedIn t := by
  cases hstep with
  | pop hpop =>
    have ⟨rest, out, _, _, hs⟩ := pop_iff.mp hpop
    have ⟨job, hjob, hio⟩ := hs.reacts.watched hw
    rcases OwnHandles.run hrun id rfl job hjob with ⟨_, hnone⟩ | ⟨process, io', _, hio', hmem⟩
    · rw [hio] at hnone
      cases hnone
    · rw [hio, Option.some.injEq] at hio'
      rw [hio']
      exact ⟨process, hmem⟩

/-! ## The kernel's side -/

/-- The open descriptors, and the token of each that is registered with the reactor. -/
structure KernelFds where
  opened : Finset RawFd
  registered : HashMap RawFd Token

namespace KernelFds

def openAll (k : KernelFds) (fds : List RawFd) : KernelFds :=
  { k with opened := k.opened ∪ fds.toFinset }

/-- Closing a descriptor removes its registration. -/
def closeAll (k : KernelFds) (fds : List RawFd) : KernelFds :=
  ⟨k.opened \ fds.toFinset, k.registered.removeAll fds⟩

theorem mem_closeAll {k : KernelFds} {fds : List RawFd} {fd : RawFd} :
    fd ∈ (k.closeAll fds).opened ↔ fd ∈ k.opened ∧ fd ∉ fds := by
  unfold closeAll
  rw [Finset.mem_sdiff, List.mem_toFinset]

theorem registered_closeAll {k : KernelFds} {fds : List RawFd} {fd : RawFd} {token : Token} :
    (k.closeAll fds).registered.get fd = some token ↔
      k.registered.get fd = some token ∧ fd ∉ fds := by
  unfold closeAll
  rw [HashMap.get_removeAll]
  by_cases h : fd ∈ fds
  · simp [h]
  · simp [h]

end KernelFds

/-! ## Runs of the executor -/

/-- The executor and the kernel; `owner` is the job whose start made the drain under a handle. -/
structure Watching where
  x : EffectExecutor
  kernel : KernelFds
  owner : HashMap IoHandle JobId

/-- What happens: an effect is applied, or another part of the process opens a descriptor,
closes one or registers its listener. -/
inductive Watching.Move
  | effect (e : Effect) (ans : OsAnswer)
  | opened (fd : RawFd)
  | closed (fd : RawFd)
  | listened (fd : RawFd)

namespace Watching

/-- The descriptor that an effect about a stream is about. -/
def fdOf (s : Watching) (io : IoHandle) (stream : IoStream) : Option RawFd :=
  (s.x.drains.get io).bind fun drain => EffectExecutor.streamFd drain stream

/-- The handle that the next start gives its drain. -/
def nextIo (s : Watching) : IoHandle := ⟨s.x.nextHandle + 1⟩

/-- The descriptors of a drain that a new one replaces. -/
def replacedFds (s : Watching) : List RawFd :=
  ((s.x.drains.get s.nextIo).map DrainState.slotFds).getD []

/-- The descriptors that a drain gives up when its io is performed. -/
def givenUp (drain : DrainState) (ans : OsAnswer) : List RawFd :=
  drain.slotFds.filter fun fd => fd ∉ (EffectExecutor.performIo drain ans).slotFds

/-- A slot of a drain of the executor holds the descriptor. -/
def Held (s : Watching) (fd : RawFd) : Prop :=
  ∃ io drain, s.x.drains.get io = some drain ∧ fd ∈ drain.slotFds

/-- What the kernel has done after an effect. A start that fails has closed what it opened. -/
def kernelAfter (s : Watching) (ans : OsAnswer) : Effect → KernelFds
  | .startProcess _ _ _ =>
    match ans.spawn with
    | .ok running => (s.kernel.openAll running.drain.slotFds).closeAll s.replacedFds
    | .error _ => s.kernel
  | .watchStream _ io stream =>
    match s.fdOf io stream with
    | some fd =>
      if ans.epollAdded then
        { s.kernel with
          registered := s.kernel.registered.insert fd (EffectExecutor.fdToken fd) }
      else s.kernel
    | none => s.kernel
  | .unwatchStream _ io stream =>
    match s.fdOf io stream with
    | some fd => { s.kernel with registered := s.kernel.registered.remove fd }
    | none => s.kernel
  | .performIo _ io =>
    match s.x.drains.get io with
    | some drain => s.kernel.closeAll (givenUp drain ans)
    | none => s.kernel
  | _ => s.kernel

def ownerAfter (s : Watching) (ans : OsAnswer) : Effect → HashMap IoHandle JobId
  | .startProcess id _ _ =>
    match ans.spawn with
    | .ok _ => s.owner.insert s.nextIo id
    | .error _ => s.owner
  | _ => s.owner

/-- The state after an effect. -/
def after (s : Watching) (e : Effect) (ans : OsAnswer) : Watching :=
  ⟨(s.x.apply e ans).1, s.kernelAfter ans e, s.ownerAfter ans e⟩

/-- What is assumed of an effect. The kernel hands a new child descriptors that are not open. The
core asks to watch a stream of the job whose start made the drain, since the handle comes from
the job's own record. -/
def Allows (s : Watching) (ans : OsAnswer) : Effect → Prop
  | .startProcess _ _ _ =>
    ∀ running, ans.spawn = .ok running → ∀ fd ∈ running.drain.slotFds, fd ∉ s.kernel.opened
  | .watchStream id io _ => ∀ drain, s.x.drains.get io = some drain → s.owner.get io = some id
  | _ => True

inductive Step : Watching → Move → Watching → Prop
  | effect {s} (e : Effect) (ans : OsAnswer) : s.Allows ans e →
      Step s (.effect e ans) (s.after e ans)
  | opened {s} (fd : RawFd) : fd ∉ s.kernel.opened →
      Step s (.opened fd) { s with kernel := s.kernel.openAll [fd] }
  -- the other parts of the process close what is theirs, and not 0 to 2
  | closed {s} (fd : RawFd) : ¬ s.Held fd → fd ∉ [0, 1, 2] →
      Step s (.closed fd) { s with kernel := s.kernel.closeAll [fd] }
  | listened {s} (fd : RawFd) : fd ∈ s.kernel.opened → ¬ s.Held fd → fd ∉ [0, 1, 2] →
      Step s (.listened fd)
        { s with kernel := { s.kernel with
            registered := s.kernel.registered.insert fd listenerToken } }

/-- Nothing is watched yet, and 0 to 2 are open. -/
structure Fresh (s : Watching) : Prop where
  executor : s.x = .new
  registered : s.kernel.registered = .empty
  std : ∀ fd ∈ [0, 1, 2], fd ∈ s.kernel.opened

/-! ## The invariant -/

/-- The registration of a descriptor that is in a slot: its token is the descriptor's, and the
entry of the token names the owner of the drain. -/
def WatchedBy (s : Watching) (fd : RawFd) (token : Token) : Prop :=
  token = EffectExecutor.fdToken fd ∧ ∃ io drain id, s.x.drains.get io = some drain ∧
    fd ∈ drain.slotFds ∧ s.owner.get io = some id ∧ s.x.fdMap.get token = some id

/-- Every slot holds a descriptor of its own that is open, and every registration is that of a
slot, or of the listener. -/
structure Attributed (s : Watching) : Prop where
  std : ∀ fd ∈ [0, 1, 2], fd ∈ s.kernel.opened ∧ ¬ s.Held fd
  opened : ∀ fd, s.Held fd → fd ∈ s.kernel.opened
  unique : ∀ io io' drain drain' fd, s.x.drains.get io = some drain →
    s.x.drains.get io' = some drain' → fd ∈ drain.slotFds → fd ∈ drain'.slotFds → io = io'
  registered : ∀ fd token, s.kernel.registered.get fd = some token →
    fd ∈ s.kernel.opened ∧
      (s.WatchedBy fd token ∨ token = listenerToken ∧ fd ∉ [0, 1, 2] ∧ ¬ s.Held fd)

theorem Fresh.attributed {s : Watching} (h : s.Fresh) : s.Attributed := by
  have hnone : ∀ io drain, s.x.drains.get io ≠ some drain := by
    intro io drain hget
    rw [h.executor] at hget
    cases hget
  have hheld : ∀ fd, ¬ s.Held fd := fun fd ⟨io, drain, hget, _⟩ => hnone io drain hget
  constructor
  · exact fun fd hfd => ⟨h.std fd hfd, hheld fd⟩
  · exact fun fd hfd => absurd hfd (hheld fd)
  · exact fun io io' drain drain' fd hget => absurd hget (hnone io drain)
  · intro fd token hreg
    rw [h.registered, HashMap.get_empty] at hreg
    cases hreg

/-! ## What one step preserves -/

theorem held_congr {s s' : Watching} (hdrains : s'.x.drains = s.x.drains) (fd : RawFd) :
    s'.Held fd ↔ s.Held fd := by
  unfold Held
  rw [hdrains]

/-- As long as the slots stay as they are, only open descriptors and registrations matter. -/
theorem Attributed.of_same_slots {s s' : Watching} (h : s.Attributed)
    (hdrains : s'.x.drains = s.x.drains)
    (hopened : ∀ fd ∈ s.kernel.opened, s.Held fd ∨ fd ∈ [0, 1, 2] → fd ∈ s'.kernel.opened)
    (hreg : ∀ fd token, s'.kernel.registered.get fd = some token → fd ∈ s'.kernel.opened ∧
      (s'.WatchedBy fd token ∨ token = listenerToken ∧ fd ∉ [0, 1, 2] ∧ ¬ s.Held fd)) :
    s'.Attributed := by
  constructor
  · intro fd hfd
    have ⟨hopen, hfree⟩ := h.std fd hfd
    rw [held_congr hdrains]
    exact ⟨hopened fd hopen (Or.inr hfd), hfree⟩
  · intro fd hfd
    rw [held_congr hdrains] at hfd
    exact hopened fd (h.opened fd hfd) (Or.inl hfd)
  · rw [hdrains]
    exact h.unique
  · intro fd token hget
    rw [held_congr hdrains]
    exact hreg fd token hget

/-- A registration survives whatever leaves the slots, their owners and its own entry alone. -/
theorem WatchedBy.of_same_slots {s s' : Watching} {fd : RawFd} {token : Token}
    (h : s.WatchedBy fd token) (hdrains : s'.x.drains = s.x.drains) (howner : s'.owner = s.owner)
    (hentry : s'.x.fdMap.get token = s.x.fdMap.get token) : s'.WatchedBy fd token := by
  unfold WatchedBy
  rw [hdrains, howner, hentry]
  exact h

theorem Attributed.still_registered {s s' : Watching} {fd : RawFd} {token : Token}
    (h : s.Attributed) (hget : s.kernel.registered.get fd = some token)
    (hdrains : s'.x.drains = s.x.drains) (howner : s'.owner = s.owner)
    (hentry : s'.x.fdMap.get (EffectExecutor.fdToken fd) =
      s.x.fdMap.get (EffectExecutor.fdToken fd)) :
    fd ∈ s.kernel.opened ∧
      (s'.WatchedBy fd token ∨ token = listenerToken ∧ fd ∉ [0, 1, 2] ∧ ¬ s.Held fd) := by
  have ⟨hopen, hcases⟩ := h.registered fd token hget
  refine ⟨hopen, ?_⟩
  rcases hcases with hw | hl
  · rw [← hw.1] at hentry
    exact Or.inl (hw.of_same_slots hdrains howner hentry)
  · exact Or.inr hl

/-- An effect that changes no drain, no entry and no registration changes nothing here. -/
theorem Attributed.congr {s s' : Watching} (h : s.Attributed) (hdrains : s'.x.drains = s.x.drains)
    (hmap : s'.x.fdMap = s.x.fdMap) (hkernel : s'.kernel = s.kernel) (howner : s'.owner = s.owner) :
    s'.Attributed := by
  refine h.of_same_slots hdrains ?_ ?_
  · rw [hkernel]
    exact fun fd hopen _ => hopen
  · rw [hkernel]
    intro fd token hget
    exact h.still_registered hget hdrains howner (by rw [hmap])

theorem mem_replacedFds {s : Watching} {fd : RawFd} :
    fd ∈ s.replacedFds ↔ ∃ drain, s.x.drains.get s.nextIo = some drain ∧ fd ∈ drain.slotFds := by
  unfold replacedFds
  cases s.x.drains.get s.nextIo with
  | none => simp
  | some drain => simp

/-- The slots may change, as long as what is in them is open, and was in a slot of the same drain
or is new and in a slot of the drain `io₀`; and as long as nothing new is registered. -/
theorem Attributed.of_slots {s s' : Watching} {io₀ : IoHandle} (h : s.Attributed)
    (hslot : ∀ io drain fd, s'.x.drains.get io = some drain → fd ∈ drain.slotFds →
      fd ∈ s'.kernel.opened ∧ (io = io₀ ∧ fd ∉ s.kernel.opened ∨
        ∃ drain₀, s.x.drains.get io = some drain₀ ∧ fd ∈ drain₀.slotFds))
    (hstd : ∀ fd ∈ s.kernel.opened, ¬ s.Held fd → fd ∈ s'.kernel.opened)
    (hreg : ∀ fd token, s'.kernel.registered.get fd = some token → fd ∈ s'.kernel.opened ∧
      s.kernel.registered.get fd = some token ∧ (s.WatchedBy fd token → s'.WatchedBy fd token)) :
    s'.Attributed := by
  -- a descriptor that was open and in no slot is in no slot
  have hfree : ∀ fd ∈ s.kernel.opened, ¬ s.Held fd → ¬ s'.Held fd := by
    intro fd hopen hno ⟨io, drain, hget, hfd⟩
    rcases (hslot io drain fd hget hfd).2 with ⟨_, hnew⟩ | ⟨drain₀, hget₀, hfd₀⟩
    · exact hnew hopen
    · exact hno ⟨io, drain₀, hget₀, hfd₀⟩
  constructor
  · intro fd hfd
    have ⟨hopen, hno⟩ := h.std fd hfd
    exact ⟨hstd fd hopen hno, hfree fd hopen hno⟩
  · exact fun fd ⟨io, drain, hget, hfd⟩ => (hslot io drain fd hget hfd).1
  · intro io io' drain drain' fd hget hget' hfd hfd'
    rcases (hslot io drain fd hget hfd).2 with ⟨hio, hnew⟩ | ⟨old, hold, hin⟩
    · rcases (hslot io' drain' fd hget' hfd').2 with ⟨hio', _⟩ | ⟨old', hold', hin'⟩
      · rw [hio, hio']
      · exact absurd (h.opened fd ⟨io', old', hold', hin'⟩) hnew
    · rcases (hslot io' drain' fd hget' hfd').2 with ⟨_, hnew⟩ | ⟨old', hold', hin'⟩
      · exact absurd (h.opened fd ⟨io, old, hold, hin⟩) hnew
      · exact h.unique io io' old old' fd hold hold' hin hin'
  · intro fd token hget
    have ⟨hopen', hget₀, hkeep⟩ := hreg fd token hget
    have ⟨hopen, hcases⟩ := h.registered fd token hget₀
    refine ⟨hopen', ?_⟩
    rcases hcases with hw | ⟨htoken, hother, hno⟩
    · exact Or.inl (hkeep hw)
    · exact Or.inr ⟨htoken, hother, hfree fd hopen hno⟩

/-- A new child: its descriptors are new, and those of a drain it replaces are closed. -/
theorem Attributed.started {s : Watching} {id : JobId} {running : RunningProcess}
    {x' : EffectExecutor} (h : s.Attributed)
    (hfresh : ∀ fd ∈ running.drain.slotFds, fd ∉ s.kernel.opened)
    (hdrains : x'.drains = s.x.drains.insert s.nextIo running.drain)
    (hmap : x'.fdMap = s.x.fdMap) :
    Attributed ⟨x', (s.kernel.openAll running.drain.slotFds).closeAll s.replacedFds,
      s.owner.insert s.nextIo id⟩ := by
  have hreplaced : ∀ fd ∈ s.replacedFds, s.Held fd := by
    intro fd hfd
    have ⟨old, hold, hin⟩ := mem_replacedFds.mp hfd
    exact ⟨_, old, hold, hin⟩
  have hopen : ∀ fd, fd ∈ s.kernel.opened ∨ fd ∈ running.drain.slotFds → fd ∉ s.replacedFds →
      fd ∈ ((s.kernel.openAll running.drain.slotFds).closeAll s.replacedFds).opened := by
    intro fd hfd hkept
    rw [KernelFds.mem_closeAll]
    unfold KernelFds.openAll
    rw [Finset.mem_union, List.mem_toFinset]
    exact ⟨hfd, hkept⟩
  -- the new drain is the one under the next handle
  refine @Attributed.of_slots s _ s.nextIo h ?_ ?_ ?_
  · intro io drain fd hget hfd
    rw [hdrains] at hget
    by_cases hio : io = s.nextIo
    · rw [hio, HashMap.get_insert_self, Option.some.injEq] at hget
      rw [← hget] at hfd
      refine ⟨hopen fd (Or.inr hfd) ?_, Or.inl ⟨hio, hfresh fd hfd⟩⟩
      exact fun hgone => hfresh fd hfd (h.opened fd (hreplaced fd hgone))
    · rw [HashMap.get_insert_ne _ _ hio] at hget
      refine ⟨hopen fd (Or.inl (h.opened fd ⟨io, drain, hget, hfd⟩)) ?_, Or.inr ⟨drain, hget, hfd⟩⟩
      intro hgone
      have ⟨old, hold, hin⟩ := mem_replacedFds.mp hgone
      exact hio (h.unique io s.nextIo drain old fd hget hold hfd hin)
  · intro fd hfd hno
    exact hopen fd (Or.inl hfd) fun hgone => hno (hreplaced fd hgone)
  · intro fd token hreg
    have ⟨hreg, hkept⟩ := KernelFds.registered_closeAll.mp hreg
    refine ⟨hopen fd (Or.inl (h.registered fd token hreg).1) hkept, hreg, ?_⟩
    intro ⟨htoken, io, drain, job, hget, hfd, howner, hentry⟩
    -- the drain was not replaced, since the descriptor was not closed
    have hio : io ≠ s.nextIo := by
      intro hio
      rw [hio] at hget
      exact hkept (mem_replacedFds.mpr ⟨drain, hget, hfd⟩)
    refine ⟨htoken, io, drain, job, ?_, hfd, ?_, ?_⟩
    · rw [hdrains, HashMap.get_insert_ne _ _ hio]
      exact hget
    · rw [HashMap.get_insert_ne _ _ hio]
      exact howner
    · rw [hmap]
      exact hentry

/-- A stream is registered: the entry of its token is renewed, whatever it was. -/
theorem Attributed.watched {s s' : Watching} {id : JobId} {io : IoHandle} {drain : DrainState}
    {fd : RawFd} (h : s.Attributed) (hget : s.x.drains.get io = some drain)
    (hfd : fd ∈ drain.slotFds) (hid : s.owner.get io = some id)
    (hdrains : s'.x.drains = s.x.drains) (howner : s'.owner = s.owner)
    (hmap : s'.x.fdMap = s.x.fdMap.insert (EffectExecutor.fdToken fd) id)
    (hopened : s'.kernel.opened = s.kernel.opened)
    (hreg : s'.kernel.registered = s.kernel.registered.insert fd (EffectExecutor.fdToken fd)) :
    s'.Attributed := by
  refine h.of_same_slots hdrains ?_ ?_
  · rw [hopened]
    exact fun fd hopen _ => hopen
  · intro fd' token hget'
    rw [hopened]
    rw [hreg] at hget'
    by_cases heq : fd' = fd
    · rw [heq, HashMap.get_insert_self, Option.some.injEq] at hget'
      rw [heq]
      refine ⟨h.opened fd ⟨io, drain, hget, hfd⟩, Or.inl ⟨hget'.symm, io, drain, id, ?_⟩⟩
      rw [hdrains, howner, hmap, ← hget', HashMap.get_insert_self]
      exact ⟨hget, hfd, hid, rfl⟩
    · rw [HashMap.get_insert_ne _ _ heq] at hget'
      apply h.still_registered hget' hdrains howner
      rw [hmap]
      exact HashMap.get_insert_ne _ _ fun htoken => heq (EffectExecutor.fdToken_inj htoken)

/-- A stream is no longer watched: its registration goes with its entry. -/
theorem Attributed.unwatched {s s' : Watching} {fd : RawFd} (h : s.Attributed)
    (hdrains : s'.x.drains = s.x.drains) (howner : s'.owner = s.owner)
    (hmap : s'.x.fdMap = s.x.fdMap.remove (EffectExecutor.fdToken fd))
    (hopened : s'.kernel.opened = s.kernel.opened)
    (hreg : s'.kernel.registered = s.kernel.registered.remove fd) : s'.Attributed := by
  refine h.of_same_slots hdrains ?_ ?_
  · rw [hopened]
    exact fun fd hopen _ => hopen
  · intro fd' token hget'
    rw [hopened]
    rw [hreg] at hget'
    by_cases heq : fd' = fd
    · -- it is not registered any more
      rw [heq, HashMap.get_remove_self] at hget'
      cases hget'
    · rw [HashMap.get_remove_ne _ heq] at hget'
      apply h.still_registered hget' hdrains howner
      rw [hmap]
      exact HashMap.get_remove_ne _ fun htoken => heq (EffectExecutor.fdToken_inj htoken)

theorem mem_givenUp {drain : DrainState} {ans : OsAnswer} {fd : RawFd} :
    fd ∈ givenUp drain ans ↔
      fd ∈ drain.slotFds ∧ fd ∉ (EffectExecutor.performIo drain ans).slotFds := by
  unfold givenUp
  rw [List.mem_filter, decide_eq_true_eq]

/-- Io is performed: the descriptors that are given up are closed, and so not registered any
more. Their entries stay. -/
theorem Attributed.performed {s s' : Watching} {io : IoHandle} {drain : DrainState}
    {ans : OsAnswer} (h : s.Attributed) (hget : s.x.drains.get io = some drain)
    (hdrains : s'.x.drains = s.x.drains.insert io (EffectExecutor.performIo drain ans))
    (hmap : s'.x.fdMap = s.x.fdMap) (howner : s'.owner = s.owner)
    (hkernel : s'.kernel = s.kernel.closeAll (givenUp drain ans)) : s'.Attributed := by
  refine @Attributed.of_slots s s' io h ?_ ?_ ?_
  · intro io' drain' fd hget' hfd
    rw [hkernel, KernelFds.mem_closeAll]
    rw [hdrains] at hget'
    by_cases hio : io' = io
    · -- what is left of the drain was in its slots, and was not given up
      rw [hio, HashMap.get_insert_self, Option.some.injEq] at hget'
      rw [← hget'] at hfd
      have hin := (EffectExecutor.performIo_shrinks drain ans).slotFds_subset hfd
      refine ⟨⟨h.opened fd ⟨io, drain, hget, hin⟩, ?_⟩, Or.inr ⟨drain, hio ▸ hget, hin⟩⟩
      exact fun hgone => (mem_givenUp.mp hgone).2 hfd
    · rw [HashMap.get_insert_ne _ _ hio] at hget'
      refine ⟨⟨h.opened fd ⟨io', drain', hget', hfd⟩, ?_⟩, Or.inr ⟨drain', hget', hfd⟩⟩
      intro hgone
      exact hio (h.unique io' io drain' drain fd hget' hget hfd (mem_givenUp.mp hgone).1)
  · intro fd hopen hno
    rw [hkernel, KernelFds.mem_closeAll]
    exact ⟨hopen, fun hgone => hno ⟨io, drain, hget, (mem_givenUp.mp hgone).1⟩⟩
  · intro fd token hreg
    rw [hkernel] at hreg ⊢
    have ⟨hreg, hkept⟩ := KernelFds.registered_closeAll.mp hreg
    refine ⟨KernelFds.mem_closeAll.mpr ⟨(h.registered fd token hreg).1, hkept⟩, hreg, ?_⟩
    intro ⟨htoken, io', drain', id, hget', hfd, hid, hentry⟩
    refine ⟨htoken, io', ?_⟩
    rw [hdrains, howner, hmap]
    by_cases hio : io' = io
    · rw [hio, hget, Option.some.injEq] at hget'
      rw [← hget'] at hfd
      rw [hio] at hid ⊢
      refine ⟨_, id, HashMap.get_insert_self _ _ _, ?_, hid, hentry⟩
      by_contra hgone
      exact hkept (mem_givenUp.mpr ⟨hfd, hgone⟩)
    · refine ⟨drain', id, ?_, hfd, hid, hentry⟩
      rw [HashMap.get_insert_ne _ _ hio]
      exact hget'

theorem fdOf_eq_some {s : Watching} {io : IoHandle} {stream : IoStream} {fd : RawFd}
    (h : s.fdOf io stream = some fd) : ∃ drain, s.x.drains.get io = some drain ∧
      fd ∈ drain.slotFds := by
  have ⟨drain, hget, hfd⟩ := Option.bind_eq_some_iff.mp h
  exact ⟨drain, hget, DrainState.mem_slotFds.mpr ⟨stream, hfd⟩⟩

/-! ### What each effect does -/

section After

variable {s : Watching} {ans : OsAnswer} {id : JobId} {io : IoHandle} {stream : IoStream}
  {fd : RawFd}

theorem after_watchStream_none (h : s.fdOf io stream = none) :
    s.after (.watchStream id io stream) ans = s := by
  unfold fdOf at h
  unfold Watching.after kernelAfter ownerAfter EffectExecutor.apply fdOf
  simp only [h]

/-- A descriptor that cannot be registered is not watched. -/
theorem after_watchStream_failed (h : s.fdOf io stream = some fd)
    (hadded : ans.epollAdded = false) :
    s.after (.watchStream id io stream) ans = s := by
  unfold fdOf at h
  unfold Watching.after kernelAfter ownerAfter EffectExecutor.apply fdOf
  simp only [h, hadded, Bool.false_eq_true, if_false]

theorem after_watchStream (h : s.fdOf io stream = some fd) (hadded : ans.epollAdded = true) :
    s.after (.watchStream id io stream) ans =
      ⟨{ s.x with fdMap := s.x.fdMap.insert (EffectExecutor.fdToken fd) id },
        { s.kernel with
          registered := s.kernel.registered.insert fd (EffectExecutor.fdToken fd) },
        s.owner⟩ := by
  unfold fdOf at h
  unfold Watching.after kernelAfter ownerAfter EffectExecutor.apply fdOf
  simp only [h, hadded, if_true]

theorem after_unwatchStream_none (h : s.fdOf io stream = none) :
    s.after (.unwatchStream id io stream) ans = s := by
  unfold fdOf at h
  unfold Watching.after kernelAfter ownerAfter EffectExecutor.apply fdOf
  simp only [h]

theorem after_unwatchStream (h : s.fdOf io stream = some fd) :
    s.after (.unwatchStream id io stream) ans =
      ⟨{ s.x with fdMap := s.x.fdMap.remove (EffectExecutor.fdToken fd) },
        { s.kernel with registered := s.kernel.registered.remove fd }, s.owner⟩ := by
  unfold fdOf at h
  unfold Watching.after kernelAfter ownerAfter EffectExecutor.apply fdOf
  simp only [h]

theorem after_performIo_none (h : s.x.drains.get io = none) :
    s.after (.performIo id io) ans = s := by
  unfold Watching.after kernelAfter ownerAfter EffectExecutor.apply
  simp only [h]

theorem after_performIo {drain : DrainState} (h : s.x.drains.get io = some drain) :
    s.after (.performIo id io) ans =
      ⟨{ s.x with drains := s.x.drains.insert io (EffectExecutor.performIo drain ans) },
        s.kernel.closeAll (givenUp drain ans), s.owner⟩ := by
  unfold Watching.after kernelAfter ownerAfter EffectExecutor.apply
  simp only [h]

/-- Of a poll, only the answer depends on the child. -/
theorem after_pollProcess {process : ProcessHandle} :
    s.after (.pollProcess id process) ans = s := by
  unfold Watching.after kernelAfter ownerAfter EffectExecutor.apply
  dsimp only
  split
  · split <;> rfl
  · rfl

end After

/-- Applying an effect, one case for each. -/
theorem Attributed.after {s : Watching} {e : Effect} {ans : OsAnswer} (h : s.Attributed)
    (hallows : s.Allows ans e) : (s.after e ans).Attributed := by
  cases e with
  | log level event => exact h.congr rfl rfl rfl rfl
  | killProcess id signal process isGroup => exact h.congr rfl rfl rfl rfl
  | pollProcess id process =>
    rw [after_pollProcess]
    exact h
  | startProcess id exec policy =>
    unfold Watching.after kernelAfter ownerAfter EffectExecutor.apply
    cases hspawn : ans.spawn with
    | error e => exact h.congr rfl rfl rfl rfl
    | ok running => exact h.started (hallows running hspawn) rfl rfl
  | watchStream id io stream =>
    cases hfd : s.fdOf io stream with
    | none =>
      rw [after_watchStream_none hfd]
      exact h
    | some fd =>
      have ⟨drain, hget, hmem⟩ := fdOf_eq_some hfd
      cases hadded : ans.epollAdded with
      | true =>
        rw [after_watchStream hfd hadded]
        exact h.watched hget hmem (hallows drain hget) rfl rfl rfl rfl rfl
      | false =>
        rw [after_watchStream_failed hfd hadded]
        exact h
  | unwatchStream id io stream =>
    cases hfd : s.fdOf io stream with
    | none =>
      rw [after_unwatchStream_none hfd]
      exact h
    | some fd =>
      rw [after_unwatchStream hfd]
      exact h.unwatched rfl rfl rfl rfl rfl
  | performIo id io =>
    cases hget : s.x.drains.get io with
    | none =>
      rw [after_performIo_none hget]
      exact h
    | some drain =>
      rw [after_performIo hget]
      exact h.performed hget rfl rfl rfl rfl

/-- The step lemma. -/
theorem Step.attributed {s s' : Watching} {m : Move} (hstep : Step s m s') (h : s.Attributed) :
    s'.Attributed := by
  cases hstep with
  | effect e ans hallows => exact h.after hallows
  | opened fd hfd =>
    have hopen : ∀ fd' ∈ s.kernel.opened, fd' ∈ (s.kernel.openAll [fd]).opened :=
      fun fd' hfd' => Finset.mem_union_left _ hfd'
    refine h.of_same_slots rfl (fun fd' hfd' _ => hopen fd' hfd') ?_
    intro fd' token hreg
    have ⟨hopened, hcases⟩ := h.registered fd' token hreg
    exact ⟨hopen fd' hopened, hcases⟩
  | closed fd hfree hstd =>
    -- a descriptor that somebody else closes is in no slot
    refine h.of_same_slots rfl ?_ ?_
    · intro fd' hopen hkept
      refine KernelFds.mem_closeAll.mpr ⟨hopen, fun hgone => ?_⟩
      rw [List.mem_singleton.mp hgone] at hkept
      rcases hkept with hkept | hkept
      · exact hfree hkept
      · exact hstd hkept
    · intro fd' token hreg
      have ⟨hreg, hkept⟩ := KernelFds.registered_closeAll.mp hreg
      have ⟨hopen, hcases⟩ := h.registered fd' token hreg
      exact ⟨KernelFds.mem_closeAll.mpr ⟨hopen, hkept⟩, hcases⟩
  | listened fd hopen hfree hstd =>
    refine h.of_same_slots rfl (fun fd' hfd' _ => hfd') ?_
    intro fd' token hreg
    by_cases heq : fd' = fd
    · rw [heq, HashMap.get_insert_self, Option.some.injEq] at hreg
      rw [heq]
      exact ⟨hopen, Or.inr ⟨hreg.symm, hstd, hfree⟩⟩
    · rw [HashMap.get_insert_ne _ _ heq] at hreg
      exact h.registered fd' token hreg

/-- The run lemma. -/
theorem attributed_run {s s' : Watching} {t : List Move} (hrun : Run Step s t s')
    (h : s.Attributed) : s'.Attributed :=
  hrun.invariant (fun _ _ _ hs hstep => hstep.attributed hs) h

end Watching

/-- After any run from a fresh executor: an event with the token of a watched stream is turned
into one `JobFdReady`, for the owner of the one drain that holds the descriptor in a slot. -/
theorem readiness_attributed {s₀ s : Watching} {t : List Watching.Move} (hfresh : s₀.Fresh)
    (hrun : Run Watching.Step s₀ t s) {fd : RawFd}
    (hwatched : s.kernel.registered.get fd = some (EffectExecutor.fdToken fd))
    (before later : List ReactorEvent) (ev : ReactorEvent)
    (hev : ev.token = EffectExecutor.fdToken fd) :
    ∃ io drain stream id, s.x.drains.get io = some drain ∧
      EffectExecutor.streamFd drain stream = some fd ∧ s.owner.get io = some id ∧
      (∀ io' drain' stream', s.x.drains.get io' = some drain' →
        EffectExecutor.streamFd drain' stream' = some fd → io' = io) ∧
      s.x.jobEvents (before ++ ev :: later) = s.x.jobEvents before ++
        .jobFdReady id ev.readable ev.writable ev.error :: s.x.jobEvents later := by
  have h := Watching.attributed_run hrun hfresh.attributed
  have ⟨_, hcases⟩ := h.registered fd _ hwatched
  rcases hcases with ⟨_, io, drain, id, hget, hfd, howner, hentry⟩ | ⟨hlistener, hstd, _⟩
  · have ⟨stream, hstream⟩ := DrainState.mem_slotFds.mp hfd
    refine ⟨io, drain, stream, id, hget, hstream, howner, ?_, ?_⟩
    · intro io' drain' stream' hget' hstream'
      exact h.unique io' io drain' drain fd hget' hget
        (DrainState.mem_slotFds.mpr ⟨stream', hstream'⟩) hfd
    · unfold EffectExecutor.jobEvents
      rw [List.filterMap_append, List.filterMap_cons]
      rw [hev, hentry]
      rfl
  · -- the listener is none of the descriptors 0 to 2
    refine absurd hlistener (fdToken_ne_listener fun hone => hstd ?_)
    rw [hone]
    decide

/-! ## A number that is used twice -/

/-- A child whose output comes through descriptor 5 and is at its end at once. -/
def OsAnswer.piped : OsAnswer :=
  { OsAnswer.started 100 with
    spawn := .ok ⟨⟨100⟩, { DrainState.detached with stdoutSlot := some ⟨⟨0⟩, 5⟩ }⟩
    stdout := [.data []] }

namespace Watching

def fresh : Watching := ⟨.new, ⟨[0, 1, 2].toFinset, .empty⟩, .empty⟩

/-- Job 1 is watched until the end of its output. -/
def firstUse : Watching :=
  ((fresh.after (.startProcess 1 .bare (.graceful none)) .piped).after
    (.watchStream 1 ⟨2⟩ .stdout) .piped).after (.performIo 1 ⟨2⟩) .piped

/-- A client has the number for a while, then job 2 has it. -/
def secondUse : Watching :=
  let s := { firstUse with kernel := (firstUse.kernel.openAll [5]).closeAll [5] }
  (s.after (.startProcess 2 .bare (.graceful none)) .piped).after
    (.watchStream 2 ⟨4⟩ .stdout) .piped

theorem fresh_fresh : fresh.Fresh := ⟨rfl, rfl, fun _ hfd => List.mem_toFinset.mpr hfd⟩

theorem firstUse_run : Run Step fresh
    [.effect (.startProcess 1 .bare (.graceful none)) .piped,
      .effect (.watchStream 1 ⟨2⟩ .stdout) .piped, .effect (.performIo 1 ⟨2⟩) .piped]
    firstUse := by
  refine .cons (.effect _ _ ?_) (.cons (.effect _ _ ?_) (.single (.effect _ _ trivial)))
  · intro running hrunning fd hfd
    cases hrunning
    rw [List.mem_singleton.mp hfd]
    decide
  · intro drain _
    decide

/-- The entry of the first use is still there. -/
example : firstUse.x.fdMap.get (EffectExecutor.fdToken 5) = some 1 ∧
    firstUse.kernel.registered.get 5 = none := by decide

theorem secondUse_run : Run Step fresh
    ([.effect (.startProcess 1 .bare (.graceful none)) .piped,
      .effect (.watchStream 1 ⟨2⟩ .stdout) .piped, .effect (.performIo 1 ⟨2⟩) .piped] ++
      [.opened 5, .closed 5, .effect (.startProcess 2 .bare (.graceful none)) .piped,
      .effect (.watchStream 2 ⟨4⟩ .stdout) .piped])
    secondUse := by
  refine firstUse_run.append (.cons (.opened 5 (by decide)) (.cons (.closed 5 ?_ (by decide))
    (.cons (.effect _ _ ?_) (.single (.effect _ _ ?_)))))
  · -- the one drain has given its slot up
    intro ⟨io, drain, hget, hfd⟩
    by_cases hio : io = ⟨2⟩
    · rw [hio] at hget
      cases hget
      exact absurd hfd (by decide)
    · have hnone : firstUse.x.drains.get io = none := by
        show (((HashMap.empty.insert ⟨2⟩ _).insert ⟨2⟩ _).get io : Option DrainState) = none
        rw [HashMap.get_insert_ne _ _ hio, HashMap.get_insert_ne _ _ hio, HashMap.get_empty]
      rw [hnone] at hget
      cases hget
  · intro running hrunning fd hfd
    cases hrunning
    rw [List.mem_singleton.mp hfd]
    decide
  · intro drain _
    decide

end Watching

theorem readiness_attributed_reused : ∃ io drain stream id,
    Watching.secondUse.x.drains.get io = some drain ∧
      EffectExecutor.streamFd drain stream = some 5 ∧ Watching.secondUse.owner.get io = some id ∧
      (∀ io' drain' stream', Watching.secondUse.x.drains.get io' = some drain' →
        EffectExecutor.streamFd drain' stream' = some 5 → io' = io) ∧
      Watching.secondUse.x.jobEvents [⟨EffectExecutor.fdToken 5, true, false, false⟩] =
        [.jobFdReady id true false false] :=
  readiness_attributed Watching.fresh_fresh Watching.secondUse_run (by decide) [] [] _ rfl

end CoreShift
