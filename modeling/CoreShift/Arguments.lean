import CoreShift.HighLevel.Api
import CoreShift.Runtime
import CoreShift.Spawning

/-!
# The arguments of a child

From the strings of a request to the vector of pointers that the child is given. A string with
a NUL in it is dropped on the way, what does not fit into 63 slots is cut off, and an empty
vector is replaced; the start does not fail for any of these. So the child is given exactly the
arguments that were asked for if and only if none of this happens.
-/

namespace CoreShift

open Utils

/-- One child was created, and its program is given these arguments and this environment, if
one was asked for. -/
def Passed (ops : List SpawnOp) (argv : List String) (env : Option (List String)) : Prop :=
  ∃ pid program, ops.flatMap SpawnOp.children = [(pid, program)] ∧
    denotes program.image.argv = some argv ∧
    ∀ vars, env = some vars → denotes program.image.envp = some vars

/-- What a vector of pointers can hold besides its null pointer. -/
def Passable (strings : List String) : Prop :=
  strings.length ≤ 63 ∧ ∀ s ∈ strings, NUL ∉ s.toList

instance decidablePassable (strings : List String) : Decidable (Passable strings) :=
  inferInstanceAs (Decidable (strings.length ≤ 63 ∧ ∀ s ∈ strings, NUL ∉ s.toList))

/-! ## Dropping and cutting -/

/-- Nothing is lost exactly if nothing had to be dropped or cut off. -/
theorem take_filter_eq_iff (strings : List String) :
    (strings.filter fun s => NUL ∉ s.toList).take 63 = strings ↔ Passable strings := by
  have hsub : (strings.filter fun s => NUL ∉ s.toList).length ≤ strings.length :=
    List.length_filter_le _ _
  constructor
  · intro h
    have hlen : ((strings.filter fun s => NUL ∉ s.toList).take 63).length = strings.length := by
      rw [h]
    rw [List.length_take] at hlen
    -- the lengths agree only if the filter keeps everything
    have hall : (strings.filter fun s => NUL ∉ s.toList).length = strings.length := by omega
    rw [List.length_filter_eq_length_iff] at hall
    exact ⟨by omega, fun s hs => of_decide_eq_true (hall s hs)⟩
  · intro ⟨hlen, hall⟩
    have hkept : (strings.filter fun s => NUL ∉ s.toList) = strings := by
      rw [List.filter_eq_self]
      exact fun s hs => decide_eq_true (hall s hs)
    rw [hkept, List.take_of_length_le hlen]

/-- What a vector of pointers to the strings that can be converted denotes. -/
theorem denotes_converted (strings : List String) :
    denotes (ExecContext.pointers (strings.filterMap CString.new)).items = some strings ↔
      Passable strings := by
  rw [ExecContext.denotes_pointers, CString.filterMap_new, Option.some.injEq]
  exact take_filter_eq_iff strings

namespace ExecContext

theorem argv_denotes_iff (argv : List String) (env : Option (List String)) (cwd : Option String) :
    denotes (new argv env cwd).getArgvPtrs.items = some argv ↔ argv ≠ [] ∧ Passable argv := by
  unfold getArgvPtrs new
  dsimp only
  by_cases hnil : argv.filterMap CString.new = []
  · -- the vector that stands in has one string, which could have been converted
    rw [if_pos hnil, denotes_pointers]
    constructor
    · intro h
      have hargv : argv = [CString.binFalse.text] := by
        rw [Option.some.injEq] at h
        exact h.symm
      rw [hargv] at hnil
      cases hnil
    · intro ⟨hne, hpass⟩
      have hkept := (denotes_converted argv).mpr hpass
      rw [hnil, denotes_pointers] at hkept
      exact absurd (Option.some.inj hkept).symm hne
  · rw [if_neg hnil, denotes_converted]
    constructor
    · intro hpass
      refine ⟨fun hargv => hnil ?_, hpass⟩
      rw [hargv]
      rfl
    · intro h
      exact h.2

theorem envp_denotes_iff (argv vars : List String) (cwd : Option String)
    (environ : List CPointer) :
    denotes ((new argv (some vars) cwd).image environ).envp = some vars ↔ Passable vars :=
  denotes_converted vars

end ExecContext

/-! ## Starts -/

/-- A start that succeeds passes its arguments on exactly if it can. -/
theorem passed_iff {argv : List String} {env : Option (List String)} {cwd : Option String}
    {jobId : JobId} {opts : SpawnOptions} {ans : SpawnAnswers} {running : RunningProcess}
    (hctx : opts.ctx = .new argv env cwd)
    (hok : (spawnStart jobId opts ans).result = .ok running) :
    Passed (spawnStart jobId opts ans).ops argv env ↔
      argv ≠ [] ∧ Passable argv ∧ ∀ vars, env = some vars → Passable vars := by
  have hout := spawnStart_outcome jobId opts ans
  generalize spawnStart jobId opts ans = start at hok hout ⊢
  cases hout with
  | refused => cases hok
  | lost => cases hok
  | @running ops drain program _ _ _ _ hchildren himage _ =>
    rw [hctx] at himage
    have henv : (∀ vars, env = some vars → denotes program.image.envp = some vars) ↔
        ∀ vars, env = some vars → Passable vars := by
      constructor
      · intro h vars hvars
        have hdenotes := h vars hvars
        rw [himage, hvars] at hdenotes
        exact (ExecContext.envp_denotes_iff _ _ _ _).mp hdenotes
      · intro h vars hvars
        rw [himage, hvars]
        exact (ExecContext.envp_denotes_iff _ _ _ _).mpr (h vars hvars)
    have hargv : denotes program.image.argv = some argv ↔ argv ≠ [] ∧ Passable argv := by
      rw [himage]
      exact ExecContext.argv_denotes_iff argv env cwd
    constructor
    · intro ⟨pid, program', hone, hargs, hvars⟩
      rw [hchildren] at hone
      cases hone
      have ⟨hne, hpass⟩ := hargv.mp hargs
      exact ⟨hne, hpass, henv.mp hvars⟩
    · intro ⟨hne, hpass, hvars⟩
      exact ⟨ans.pid, program, hchildren, hargv.mpr ⟨hne, hpass⟩, henv.mpr hvars⟩

/-! ## Commands -/

namespace Command

/-- The fixed executable of a command. -/
def executable : Command → String
  | .cmd _ _ => "/system/bin/cmd"
  | .dumpsys _ _ => "/system/bin/dumpsys"

def service : Command → String
  | .cmd service _ | .dumpsys service _ => service

def args : Command → List String
  | .cmd _ args | .dumpsys _ args => args

theorem mapToExec_argv (c : Command) :
    c.mapToExec.1.argv = c.executable :: c.service :: c.args := by
  cases c <;> rfl

theorem executable_noNul (c : Command) : NUL ∉ c.executable.toList := by
  cases c with
  | cmd service args =>
    show NUL ∉ "/system/bin/cmd".toList
    decide
  | dumpsys service args =>
    show NUL ∉ "/system/bin/dumpsys".toList
    decide

theorem passable_iff (c : Command) :
    Passable (c.executable :: c.service :: c.args) ↔
      c.args.length ≤ 61 ∧ NUL ∉ c.service.toList ∧ ∀ s ∈ c.args, NUL ∉ s.toList := by
  unfold Passable
  rw [List.forall_mem_cons, List.forall_mem_cons, List.length_cons, List.length_cons]
  constructor
  · intro ⟨hlen, _, hservice, hargs⟩
    exact ⟨by omega, hservice, hargs⟩
  · intro ⟨hlen, hservice, hargs⟩
    exact ⟨by omega, c.executable_noNul, hservice, hargs⟩

end Command

/-- For every start that succeeds: the vectors it passes to the child are the given ones if and
only if the argument vector is not empty, no string has a NUL in it, and neither list has more
than 63 strings. For a command of a client this means at most 61 arguments, without a NUL. -/
theorem arguments_reach_child_iff (jobId : JobId) (ans : SpawnAnswers) :
    (∀ (argv : List String) (env : Option (List String)) (cwd : Option String)
      (opts : SpawnOptions) (running : RunningProcess),
      opts.ctx = .new argv env cwd → (spawnStart jobId opts ans).result = .ok running →
      (Passed (spawnStart jobId opts ans).ops argv env ↔
        argv ≠ [] ∧ Passable argv ∧ ∀ vars, env = some vars → Passable vars)) ∧
    ∀ (c : Command) (running : RunningProcess),
      let start := spawnStart jobId
        (EffectExecutor.startOptions c.mapToExec.1 c.mapToExec.2) ans
      start.result = .ok running →
      (Passed start.ops (c.executable :: c.service :: c.args) none ↔
        c.args.length ≤ 61 ∧ NUL ∉ c.service.toList ∧ ∀ s ∈ c.args, NUL ∉ s.toList) := by
  constructor
  · intro argv env cwd opts running hctx hok
    exact passed_iff hctx hok
  · intro c running start hok
    have hctx : (EffectExecutor.startOptions c.mapToExec.1 c.mapToExec.2).ctx =
        .new (c.executable :: c.service :: c.args) none none := by
      rw [← c.mapToExec_argv]
      rfl
    rw [passed_iff hctx hok, c.passable_iff]
    constructor
    · intro ⟨_, hpass, _⟩
      exact hpass
    · intro hpass
      exact ⟨List.cons_ne_nil _ _, hpass, fun vars hvars => by cases hvars⟩

namespace EffectExecutor

/-- The start of a command that its client sends. -/
def startCommand (c : Command) : Spawned (Except SysError RunningProcess) :=
  spawnStart 1 (startOptions c.mapToExec.1 c.mapToExec.2) .smooth

/-- The options of a program with an environment of its own. -/
def envOptions : SpawnOptions :=
  { startOptions .bare (.graceful none) with
    ctx := .new ["/bin/echo", "hello"] (some ["LANG=C"]) none }

theorem arguments_reach_child_echo :
    Passed (spawnStart 1 envOptions .smooth).ops ["/bin/echo", "hello"] (some ["LANG=C"]) ∧
      Passed (startCommand (.dumpsys "activity" ["top"])).ops
        ["/system/bin/dumpsys", "activity", "top"] none := by
  have ⟨hgeneral, hcommand⟩ := arguments_reach_child_iff 1 .smooth
  constructor
  · refine (hgeneral _ _ none envOptions _ rfl rfl).mpr ⟨by decide, by decide, ?_⟩
    intro vars hvars
    cases hvars
    decide
  · exact (hcommand (.dumpsys "activity" ["top"]) _ rfl).mpr (by decide)

/-- A command whose first argument has a NUL in it is started without that argument. -/
theorem argument_with_nul_dropped :
    ∃ running, (startCommand (.cmd "activity" ["--user\x00", "start"])).result = .ok running ∧
      Passed (startCommand (.cmd "activity" ["--user\x00", "start"])).ops
        ["/system/bin/cmd", "activity", "start"] none ∧
      ¬ Passed (startCommand (.cmd "activity" ["--user\x00", "start"])).ops
        ["/system/bin/cmd", "activity", "--user\x00", "start"] none := by
  have hargv : denotes (ExecContext.new ["/system/bin/cmd", "activity", "--user\x00", "start"]
      none none).getArgvPtrs.items = some ["/system/bin/cmd", "activity", "start"] := by decide
  refine ⟨_, rfl, ⟨100, _, rfl, hargv, fun vars hvars => by cases hvars⟩, ?_⟩
  intro ⟨pid, program, hone, hpassed, _⟩
  cases hone
  exact absurd (hargv.symm.trans hpassed) (by decide)

end EffectExecutor
end CoreShift
