import CoreShift.Core.Types

/-!
# Commands

`high_level/api.rs` and the two request builders of `high_level/android.rs`: the finite set of
commands a client can name, and the process each stands for.
-/

namespace CoreShift

/-- What a client may ask for. -/
structure Capability where
  allowCmd : Bool
  allowDumpsys : Bool
deriving DecidableEq, Repr

/-- `Capability::default`. -/
def Capability.default : Capability := ⟨true, true⟩

inductive Command
  | cmd (service : String) (args : List String)
  | dumpsys (service : String) (args : List String)
deriving DecidableEq, Repr

namespace Android

structure ExecConfig where
  timeoutMs : Option UInt32
  killGraceMs : UInt32
  cancel : CancelPolicy
  maxOutput : ℕ
deriving DecidableEq, Repr

structure AndroidExecRequest where
  argv : List String
  stdin : Option Bytes
  captureStdout : Bool
  captureStderr : Bool
  timeoutMs : Option UInt32
  killGraceMs : UInt32
  cancel : CancelPolicy
  maxOutput : ℕ
deriving DecidableEq, Repr

/-- A request for an executable of the system, its first argument and the others. Both streams
are captured and nothing is fed to its input. -/
def execRequest (path service : String) (args : List String) (cfg : ExecConfig) :
    AndroidExecRequest :=
  { argv := path :: service :: args, stdin := none, captureStdout := true, captureStderr := true,
    timeoutMs := cfg.timeoutMs, killGraceMs := cfg.killGraceMs, cancel := cfg.cancel,
    maxOutput := cfg.maxOutput }

def cmd : String → List String → ExecConfig → AndroidExecRequest := execRequest "/system/bin/cmd"

def dumpsys : String → List String → ExecConfig → AndroidExecRequest :=
  execRequest "/system/bin/dumpsys"

end Android

namespace Command

/-- The configuration of both commands, but for the limit of the output. -/
def config (maxOutput : ℕ) : Android.ExecConfig := ⟨none, 1000, .graceful, maxOutput⟩

/-- The request of a command: the output of `cmd` is cut at one MiB, of `dumpsys` at four. -/
def request : Command → Android.AndroidExecRequest
  | .cmd service args => Android.cmd service args (config (1024 * 1024))
  | .dumpsys service args => Android.dumpsys service args (config (4 * 1024 * 1024))

/-- `Command::map_to_exec`. -/
def mapToExec (c : Command) : ExecSpec × ExecPolicy :=
  let req := c.request
  (⟨req.argv, req.stdin, req.captureStdout, req.captureStderr, req.maxOutput⟩,
    ⟨req.timeoutMs, req.killGraceMs, req.cancel⟩)

end Command
end CoreShift
