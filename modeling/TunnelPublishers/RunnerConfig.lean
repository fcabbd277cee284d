import Mathlib.Logic.Function.Basic
import TunnelPublishers.ByteOrder
import TunnelPublishers.ExecutionTraces

/-!
# The service configuration of the runner

`ini_handle` gathers the entries of a section in one static command, which is
executed when the next section begins and cleared only then. Strings are copied
to slots of fixed size, pointers are slot numbers. Each copy remembers the entry
it was made from, which the program does not, so that statements can say where a
string comes from. Log texts are left out.
-/
namespace RunnerConfig

open ByteOrder ExecutionTraces

def MAX_STR_LEN : ℕ := 255

def MAX_ARGC : ℕ := 64

structure Entry where
  sectionName : List UInt8
  name : List UInt8
  value : List UInt8
  deriving DecidableEq, Repr

/-- An entry with its place in the file. -/
abbrev Line := Entry × ℕ

/-- What is copied to a slot, and the entry it comes from. -/
structure Slot where
  line : ℕ
  bytes : List UInt8
  deriving DecidableEq, Repr

/-- A string as a new process sees it, and the entry it comes from, if any. -/
structure Text where
  line : Option ℕ
  bytes : List UInt8
  deriving DecidableEq, Repr

inductive EnvPointer where
  | slot (i : ℕ)
  /-- A string of the runner's own environment. -/
  | inherited (value : List UInt8)
  deriving DecidableEq, Repr

/-- `strings` holds the slots written since the command was cleared, `s_p` of them. -/
structure RunnerCmd where
  name : Option ℕ
  strings : List Slot
  envs : ℕ → Option EnvPointer
  params : ℕ → Option ℕ
  nParams : ℕ
  nEnvs : ℕ

/-- After `memset(&cmd, 0, sizeof(cmd))`. -/
def RunnerCmd.zero : RunnerCmd := ⟨none, [], fun _ => none, fun _ => none, 0, 0⟩

/-- The C string that starts at the first of some slots. A full slot has no terminator. -/
def stringAt : List Slot → List UInt8
  | [] => []
  | slot :: rest =>
    if slot.bytes.length < MAX_STR_LEN then slot.bytes else slot.bytes ++ stringAt rest

def textAt (strings : List Slot) (i : ℕ) : Text :=
  ⟨(strings[i]?).map Slot.line, stringAt (strings.drop i)⟩

def envText (strings : List Slot) : EnvPointer → Text
  | .slot i => textAt strings i
  | .inherited value => ⟨none, value⟩

/-- What is found in so many pointers before the first NULL, if there is one. -/
def upToNull {α : Type} : ℕ → (ℕ → Option α) → Option (List α)
  | 0, _ => none
  | n + 1, f =>
    match f 0 with
    | none => some []
    | some x => (upToNull n fun i => f (i + 1)).map (x :: ·)

/-- What a new process is given; `none` stands for a table without NULL. -/
structure Launch where
  argv : Option (List Text)
  env : Option (List Text)
  deriving DecidableEq, Repr

inductive Stop where
  /-- An ASSERT stops the program. -/
  | assertion
  /-- A write goes past the string slots. -/
  | overflow
  deriving DecidableEq, Repr

structure State where
  cmd : RunnerCmd
  pids : List ℤ

/-- What surrounds the runner: its environment, and the answer to each successive `fork`. -/
structure Host where
  environ : List (List UInt8)
  fork : ℕ → ℤ

/-! ### Execution -/

/-- The loop over `environ` in `execute_command`. -/
def inheritEnviron : List (List UInt8) → RunnerCmd → RunnerCmd
  | [], cmd => cmd
  | value :: environ, cmd =>
    if cmd.nEnvs < MAX_ARGC then
      inheritEnviron environ { cmd with
        envs := Function.update cmd.envs cmd.nEnvs (some (.inherited value))
        nEnvs := cmd.nEnvs + 1 }
    else cmd

/-- The arguments of `execve` in the child. -/
def launch (cmd : RunnerCmd) : Launch where
  argv := upToNull (MAX_ARGC + 1) fun i => (cmd.params i).map (textAt cmd.strings)
  env := upToNull (MAX_ARGC + 1) fun i => (cmd.envs i).map (envText cmd.strings)

def executeCommand (host : Host) (s : State) : Except Stop (State × List Launch) :=
  if s.cmd.name = none then .error .assertion
  else
    let cmd := inheritEnviron host.environ s.cmd
    let pid := host.fork s.pids.length
    if pid = -1 then .error .assertion
    else .ok (⟨.zero, s.pids ++ [pid]⟩, [launch cmd])

/-! ### The handler -/

/-- A copy to the next slot. -/
def RunnerCmd.put (cmd : RunnerCmd) (line : ℕ) (bytes : List UInt8) : Except Stop RunnerCmd :=
  if cmd.strings.length < MAX_ARGC * 2 then
    .ok { cmd with strings := cmd.strings ++ [⟨line, bytes⟩] }
  else .error .overflow

def RunnerCmd.isNamed (cmd : RunnerCmd) (sectionName : List UInt8) : Bool :=
  match cmd.name with
  | none => false
  | some i => (textAt cmd.strings i).bytes = sectionName

/-- The first part of `ini_handle`: a new section executes the last one. -/
def enterSection (host : Host) (s : State) (l : Line) : Except Stop (State × List Launch) :=
  if s.cmd.isNamed l.1.sectionName then .ok (s, [])
  else do
    let (s, launched) ← if (s.cmd.params 0).isSome then executeCommand host s else .ok (s, [])
    let cmd ← s.cmd.put l.2 (l.1.sectionName.take MAX_STR_LEN)
    .ok ({ s with cmd := { cmd with nParams := 1, name := some s.cmd.strings.length } }, launched)

def putExec (cmd : RunnerCmd) (l : Line) : Except Stop RunnerCmd :=
  if l.1.name = text "exec" then do
    let next ← cmd.put l.2 (l.1.value.take MAX_STR_LEN)
    .ok { next with params := Function.update next.params 0 (some cmd.strings.length) }
  else .ok cmd

/-- `name=value`, as `snprintf` writes it. -/
def binding (l : Line) : List UInt8 :=
  (l.1.name ++ text "=" ++ l.1.value).take (MAX_STR_LEN - 1)

/-- An exec entry becomes a variable too. -/
def putEntry (cmd : RunnerCmd) (l : Line) : Except Stop RunnerCmd :=
  if l.1.name = text "param" then do
    let next ← cmd.put l.2 (l.1.value.take MAX_STR_LEN)
    .ok { next with
      params := Function.update next.params cmd.nParams (some cmd.strings.length)
      nParams := cmd.nParams + 1 }
  else do
    let next ← cmd.put l.2 (binding l)
    .ok { next with
      envs := Function.update next.envs cmd.nEnvs (some (.slot cmd.strings.length))
      nEnvs := cmd.nEnvs + 1 }

def iniHandle (host : Host) (s : State) (l : Line) : Except Stop (State × List Launch) :=
  if s.cmd.strings.length < MAX_ARGC * 2 ∧ s.cmd.nParams ≤ MAX_ARGC ∧ s.cmd.nEnvs ≤ MAX_ARGC then do
    let (s, launched) ← enterSection host s l
    let cmd ← putExec s.cmd l
    let cmd ← putEntry cmd l
    .ok ({ s with cmd := cmd }, launched)
  else .error .assertion

/-- `main` up to the monitor loop, with `ini_parse` handing over the entries in order. -/
def load (host : Host) (file : List Entry) : Except Stop (State × List Launch) := do
  let (s, launched) ← runAll (iniHandle host) ⟨.zero, []⟩ file.zipIdx
  if (s.cmd.params 0).isSome then do
    let (s, last) ← executeCommand host s
    .ok (s, launched ++ last)
  else .ok (s, launched)

end RunnerConfig
