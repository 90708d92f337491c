import CoreShift.Requests
import CoreShift.Captured

/-!
# From ready descriptors to io

`Reactor::wait` decodes what `epoll_wait` reports, `process_reactor_events` finds the jobs that
the descriptors belong to, the core asks for io of those that are still there, and the loop
applies it. The registrations are edge-triggered: readiness that is not acted upon is not
reported again.
-/

namespace CoreShift

open Utils WorkQueue

variable {σ α : Type} {E : Executor σ α}

/-! ## What the kernel reports -/

def EPOLLIN : UInt32 := 0x001
def EPOLLOUT : UInt32 := 0x004
def EPOLLERR : UInt32 := 0x008
def EPOLLHUP : UInt32 := 0x010

/-- `epoll_event`: a mask, and the token of the registration. -/
structure EpollEvent where
  events : UInt32
  u64 : UInt64
deriving DecidableEq, Repr

/-- The event that `Reactor::wait` makes of it. -/
def EpollEvent.event (ev : EpollEvent) : ReactorEvent :=
  let isRead := ev.events &&& EPOLLIN != 0
  let isWrite := ev.events &&& EPOLLOUT != 0
  -- a descriptor with an error or a hang-up counts as ready for everything
  let isErr := ev.events &&& (EPOLLERR ||| EPOLLHUP) != 0
  ⟨⟨ev.u64⟩, isRead || isErr, isWrite || isErr, isErr⟩

/-! ## The io of a pop -/

/-- The io that an effect does. -/
def Effect.io : Effect → Option (JobId × IoHandle)
  | .performIo id io => some (id, io)
  | _ => none

def Action.asksIo : Action → Bool
  | .performIo _ => true
  | _ => false

/-- The io that an action resolves to. -/
def World.ioDue (w : World σ) : Action → Option (JobId × IoHandle)
  | .performIo id => (w.ioOf id).map fun io => (id, io)
  | _ => none

theorem World.ioDue_of_not_asksIo {w : World σ} {a : Action} (h : a.asksIo = false) :
    w.ioDue a = none := by
  cases a <;> first | rfl | cases h

section Pop

variable {id : JobId} {v v' : JobView} {w w' : World σ} {a : Action} {o : PopLog}
  {out : List Action}

/-- The effects of other actions do no io. -/
theorem JobView.ioEffects_io (v : JobView) {f : IoHandle → Effect} (hf : ∀ io, (f io).io = none) :
    (v.ioEffects f).filterMap Effect.io = [] := by
  unfold ioEffects
  cases v.job.bind JobState.io with
  | none => rfl
  | some io => simp [hf]

theorem World.Reacts.no_io (h : World.Reacts E w a o out w') (ha : a.asksIo = false) :
    o.effects.filterMap Effect.io = [] := by
  by_cases hquiet : a.isQuiet = true
  · rw [h.effects_eq]
    cases a with
    | performIo => cases ha
    | registerInterest id stream | removeInterest id stream =>
      exact JobView.ioEffects_io _ fun io => rfl
    | emitLog | rejected | started | controlled | queryResult => rfl
    | _ => cases hquiet
  · rw [List.filterMap_eq_nil_iff]
    intro e he
    rcases h.outcome.loud_effect (Bool.eq_false_iff.mpr hquiet) he with
      ⟨_, _, _, rfl⟩ | ⟨_, _, _, _, _, _, _, rfl⟩ | ⟨_, _, _, _, rfl⟩ <;> rfl

/-- Only the io action does io: that of the job's handle, if the job has one. -/
theorem World.Reacts.io (h : World.Reacts E w a o out w') :
    o.effects.filterMap Effect.io = (w.ioDue a).toList := by
  by_cases ha : a.asksIo = true
  · cases a with
    | performIo id =>
      rw [h.effects_eq]
      show ((w.view id).ioEffects (.performIo id)).filterMap Effect.io =
        (((w.view id).job.bind JobState.io).map fun io => (id, io)).toList
      unfold JobView.ioEffects
      cases (w.view id).job.bind JobState.io <;> rfl
    | _ => cases ha
  · have hio : a.asksIo = false := Bool.eq_false_iff.mpr ha
    rw [h.no_io hio, World.ioDue_of_not_asksIo hio]
    rfl

end Pop

/-! ## The io of a round -/

variable {json : Json}

namespace Daemon

/-- The output hangs up, and a descriptor is reported that nobody watches. -/
def hungUp : List (EpollEvent × List AcceptAnswer) := [(⟨EPOLLHUP, 5⟩, []), (⟨EPOLLIN, 9⟩, [])]

end Daemon
end CoreShift
