import Mathlib.Data.List.Destutter
import TunnelPublishers.RunnerConfig
import TunnelPublishers.CallOutcomes

/-!
# The tables of the runner

The functions of the configuration once more, with a note of every slot they
write and of every command they execute. The three counters are checked once at
the head of `ini_handle`, which may use three string slots, and not at all before
the last command is executed. Where every `fork` succeeds, whether that goes well
can be counted in the file.
-/
namespace RunnerTables

open ByteOrder ExecutionTraces CallOutcomes RunnerConfig

/-- The arrays of the command. -/
inductive Table where
  | strings
  | params
  | envs
  deriving DecidableEq, Repr

def Table.size : Table → ℕ
  | strings => MAX_ARGC * 2
  | params => MAX_ARGC + 1
  | envs => MAX_ARGC + 1

inductive Act where
  | wrote (table : Table) (i : ℕ)
  /-- `execve` in a child, with the command as it stands then. -/
  | executed (cmd : RunnerCmd)

/-- Of the slots of the table one is NULL, and it comes after the last string. -/
def Terminated {α : Type} (table : ℕ → Option α) : Prop :=
  ∃ i ≤ MAX_ARGC, table i = none ∧ ∀ j ≤ MAX_ARGC, table j ≠ none → j < i

/-- A write goes to a slot of the table, and a command is executed with both tables terminated. -/
def Act.Right : Act → Prop
  | wrote table i => i < table.size
  | executed cmd => Terminated cmd.params ∧ Terminated cmd.envs

theorem terminated_iff {α : Type} {table : ℕ → Option α} :
    Terminated table ↔ table MAX_ARGC = none := by
  constructor
  · rintro ⟨i, hi, -, hlast⟩
    by_contra hsome
    exact absurd (hlast MAX_ARGC le_rfl hsome) (Nat.not_lt.mpr hi)
  · intro hnone
    exact ⟨MAX_ARGC, le_rfl, hnone, fun j hj hsome =>
      lt_of_le_of_ne hj fun he => hsome (he ▸ hnone)⟩

instance {α : Type} (table : ℕ → Option α) : Decidable (Terminated table) :=
  decidable_of_iff (table MAX_ARGC = none) terminated_iff.symm

instance : DecidablePred Act.Right
  | .wrote table i => inferInstanceAs (Decidable (i < table.size))
  | .executed cmd => inferInstanceAs (Decidable (Terminated cmd.params ∧ Terminated cmd.envs))

/-! ### The functions with notes -/

/-- What the loop over `environ` writes. -/
def inheritWrites : List (List UInt8) → RunnerCmd → List Act
  | [], _ => []
  | value :: environ, cmd =>
    if cmd.nEnvs < MAX_ARGC then
      .wrote .envs cmd.nEnvs :: inheritWrites environ { cmd with
        envs := Function.update cmd.envs cmd.nEnvs (some (.inherited value))
        nEnvs := cmd.nEnvs + 1 }
    else []

def notedExecuteCommand (host : Host) (s : State) : Outcome State Act :=
  Outcome.andThen ⟨s.cmd.name ≠ none, s, []⟩ fun s =>
    Outcome.andThen ⟨true, { s with cmd := inheritEnviron host.environ s.cmd },
      inheritWrites host.environ s.cmd⟩ fun s =>
      let pid := host.fork s.pids.length
      if pid = -1 then ⟨false, s, []⟩
      else ⟨true, ⟨.zero, s.pids ++ [pid]⟩, [.executed s.cmd]⟩

/-- A copy to the next slot, which may not be there. -/
def notedPut (s : State) (line : ℕ) (bytes : List UInt8) : Outcome State Act :=
  ⟨s.cmd.strings.length < Table.strings.size,
    { s with cmd := { s.cmd with strings := s.cmd.strings ++ [⟨line, bytes⟩] } },
    [.wrote .strings s.cmd.strings.length]⟩

/-- The name of the section is copied, with one argument to come before its parameters. -/
def notedName (s : State) (l : Line) : Outcome State Act :=
  (notedPut s l.2 (l.1.sectionName.take MAX_STR_LEN)).andThen fun next =>
    .done { next with cmd := { next.cmd with nParams := 1, name := some s.cmd.strings.length } }

def notedEnterSection (host : Host) (s : State) (l : Line) : Outcome State Act :=
  if s.cmd.isNamed l.1.sectionName then .done s
  else
    (if (s.cmd.params 0).isSome then notedExecuteCommand host s else .done s).andThen fun s =>
      notedName s l

def notedExec (s : State) (l : Line) : Outcome State Act :=
  if l.1.name = text "exec" then
    (notedPut s l.2 (l.1.value.take MAX_STR_LEN)).andThen fun next =>
      ⟨true, { next with cmd := { next.cmd with
        params := Function.update next.cmd.params 0 (some s.cmd.strings.length) } },
        [.wrote .params 0]⟩
  else .done s

def notedEntry (s : State) (l : Line) : Outcome State Act :=
  if l.1.name = text "param" then
    (notedPut s l.2 (l.1.value.take MAX_STR_LEN)).andThen fun next =>
      ⟨true, { next with cmd := { next.cmd with
        params := Function.update next.cmd.params s.cmd.nParams (some s.cmd.strings.length)
        nParams := s.cmd.nParams + 1 } },
        [.wrote .params s.cmd.nParams]⟩
  else
    (notedPut s l.2 (binding l)).andThen fun next =>
      ⟨true, { next with cmd := { next.cmd with
        envs := Function.update next.cmd.envs s.cmd.nEnvs (some (.slot s.cmd.strings.length))
        nEnvs := s.cmd.nEnvs + 1 } },
        [.wrote .envs s.cmd.nEnvs]⟩

/-- The three ASSERTs at the head of `ini_handle`. -/
def Asserted (s : State) : Prop :=
  s.cmd.strings.length < MAX_ARGC * 2 ∧ s.cmd.nParams ≤ MAX_ARGC ∧ s.cmd.nEnvs ≤ MAX_ARGC

instance (s : State) : Decidable (Asserted s) :=
  inferInstanceAs (Decidable (s.cmd.strings.length < MAX_ARGC * 2 ∧ s.cmd.nParams ≤ MAX_ARGC ∧
    s.cmd.nEnvs ≤ MAX_ARGC))

def notedIniHandle (host : Host) (s : State) (l : Line) : Outcome State Act :=
  if Asserted s then
    (notedEnterSection host s l).andThen fun s => (notedExec s l).andThen fun s => notedEntry s l
  else ⟨false, s, []⟩

/-- The entries in order, and then the last command. -/
def notedLoad (host : Host) : State → List Line → Outcome State Act
  | s, [] => if (s.cmd.params 0).isSome then notedExecuteCommand host s else .done s
  | s, l :: ls => (notedIniHandle host s l).andThen fun s => notedLoad host s ls

/-! ### The notes erased -/

def launches (out : List Act) : List Launch :=
  out.filterMap fun
    | .wrote .. => none
    | .executed cmd => some (launch cmd)

/-- A function with notes fails when the function without does, and otherwise does the same. -/
structure Noted (r : Outcome State Act) (result : Except Stop (State × List Launch)) : Prop where
  ok : r.ok = true → result = .ok (r.state, launches r.out)
  failed : r.ok = false → ∃ stop, result = .error stop

section Noted

variable {r : Outcome State Act} {result : Except Stop (State × List Launch)}

theorem Noted.done (s : State) : Noted (.done s) (.ok (s, [])) :=
  ⟨fun _ => rfl, fun h => Bool.noConfusion h⟩

theorem Noted.stop {s : State} {out : List Act} {stop : Stop} :
    Noted ⟨false, s, out⟩ (.error stop) :=
  ⟨fun h => Bool.noConfusion h, fun _ => ⟨stop, rfl⟩⟩

theorem Noted.andThen {f : State → Outcome State Act}
    {g : State → Except Stop (State × List Launch)} (h : Noted r result)
    (hf : ∀ s, Noted (f s) (g s)) :
    Noted (r.andThen f) (result.bind fun p => (g p.1).map fun q => (q.1, p.2 ++ q.2)) := by
  cases hok : r.ok with
  | true =>
    rw [Outcome.andThen_of_ok hok, h.ok hok]
    refine ⟨fun hrest => ?_, fun hrest => ?_⟩
    · simp [Except.bind, Except.map, (hf r.state).ok hrest, launches]
    · obtain ⟨stop, hstop⟩ := (hf r.state).failed hrest
      exact ⟨stop, by simp [Except.bind, Except.map, hstop]⟩
  | false =>
    obtain ⟨stop, hstop⟩ := h.failed hok
    rw [Outcome.andThen_of_failed hok, hstop]
    exact ⟨fun hr => absurd (hok.symm.trans hr) Bool.false_ne_true, fun _ => ⟨stop, rfl⟩⟩

/-- A copy, and then an update of the command. -/
theorem Noted.put (s : State) (line : ℕ) (bytes : List UInt8) (f : RunnerCmd → RunnerCmd)
    {out : List Act} (hout : launches out = []) :
    Noted ((notedPut s line bytes).andThen fun next => ⟨true, { next with cmd := f next.cmd }, out⟩)
      (((s.cmd.put line bytes).bind fun next => .ok (f next)).map fun cmd =>
        ({ s with cmd }, [])) := by
  rw [notedPut, RunnerCmd.put]
  by_cases hroom : s.cmd.strings.length < MAX_ARGC * 2
  · rw [if_pos hroom, decide_eq_true (p := s.cmd.strings.length < Table.strings.size) hroom]
    refine ⟨fun _ => ?_, fun h => Bool.noConfusion h⟩
    rw [Outcome.andThen_success, ← hout]
    rfl
  · rw [if_neg hroom, decide_eq_false (p := s.cmd.strings.length < Table.strings.size) hroom]
    exact .stop

theorem launches_inheritWrites (environ : List (List UInt8)) (cmd : RunnerCmd) :
    launches (inheritWrites environ cmd) = [] := by
  induction environ generalizing cmd with
  | nil => rfl
  | cons value environ ih =>
    rw [inheritWrites]
    split
    case isTrue => exact ih _
    case isFalse => rfl

theorem notedExecuteCommand_noted (host : Host) (s : State) :
    Noted (notedExecuteCommand host s) (executeCommand host s) := by
  rw [notedExecuteCommand, executeCommand]
  by_cases hname : s.cmd.name = none
  · rw [if_pos hname, decide_eq_false (not_not_intro hname)]
    exact .stop
  · rw [if_neg hname, decide_eq_true hname]
    by_cases hfork : host.fork s.pids.length = -1
    · simp only [hfork, Outcome.andThen_success, if_true]
      exact .stop
    · simp only [hfork, Outcome.andThen_success, if_false]
      refine ⟨fun _ => ?_, fun h => Bool.noConfusion h⟩
      simp only [launches, List.nil_append, List.filterMap_append]
      rw [← launches, launches_inheritWrites]
      rfl

theorem notedName_noted (s : State) (l : Line) :
    Noted (notedName s l) (((s.cmd.put l.2 (l.1.sectionName.take MAX_STR_LEN)).bind fun cmd =>
      .ok { cmd with nParams := 1, name := some s.cmd.strings.length }).map fun cmd =>
        ({ s with cmd }, [])) :=
  .put s _ _ (fun cmd => { cmd with nParams := 1, name := some s.cmd.strings.length }) rfl

theorem Noted.name (h : Noted r result) (l : Line) :
    Noted (r.andThen fun s => notedName s l) (do
      let (s, launched) ← result
      let cmd ← s.cmd.put l.2 (l.1.sectionName.take MAX_STR_LEN)
      .ok ({ s with cmd := { cmd with nParams := 1, name := some s.cmd.strings.length } },
        launched)) := by
  have hname := h.andThen fun s => notedName_noted s l
  cases result with
  | error stop => exact hname
  | ok p =>
    simp only [bind, Except.bind] at hname ⊢
    cases hput : p.1.cmd.put l.2 (l.1.sectionName.take MAX_STR_LEN) with
    | error stop => rwa [hput] at hname
    | ok cmd =>
      rw [hput] at hname
      simpa only [Except.map, List.append_nil] using hname

theorem notedEnterSection_noted (host : Host) (s : State) (l : Line) :
    Noted (notedEnterSection host s l) (enterSection host s l) := by
  rw [notedEnterSection, enterSection]
  split
  case isTrue => exact .done s
  case isFalse =>
    split
    case isTrue => exact (notedExecuteCommand_noted host s).name l
    case isFalse => exact (Noted.done s).name l

theorem launches_wrote (table : Table) (i : ℕ) : launches [.wrote table i] = [] := rfl

theorem notedExec_noted (s : State) (l : Line) :
    Noted (notedExec s l) ((putExec s.cmd l).map fun cmd => ({ s with cmd }, [])) := by
  rw [notedExec, putExec]
  split
  case isTrue =>
    exact .put s l.2 (l.1.value.take MAX_STR_LEN) (fun cmd => { cmd with
      params := Function.update cmd.params 0 (some s.cmd.strings.length) })
      (launches_wrote .params 0)
  case isFalse => exact .done s

theorem notedEntry_noted (s : State) (l : Line) :
    Noted (notedEntry s l) ((putEntry s.cmd l).map fun cmd => ({ s with cmd }, [])) := by
  rw [notedEntry, putEntry]
  split
  case isTrue =>
    exact .put s l.2 (l.1.value.take MAX_STR_LEN) (fun cmd => { cmd with
      params := Function.update cmd.params s.cmd.nParams (some s.cmd.strings.length)
      nParams := s.cmd.nParams + 1 }) (launches_wrote .params s.cmd.nParams)
  case isFalse =>
    exact .put s l.2 (binding l) (fun cmd => { cmd with
      envs := Function.update cmd.envs s.cmd.nEnvs (some (.slot s.cmd.strings.length))
      nEnvs := s.cmd.nEnvs + 1 }) (launches_wrote .envs s.cmd.nEnvs)

theorem notedIniHandle_noted (host : Host) (s : State) (l : Line) :
    Noted (notedIniHandle host s l) (iniHandle host s l) := by
  rw [notedIniHandle, iniHandle]
  by_cases hs : Asserted s
  · rw [if_pos hs, if_pos (by exact hs)]
    have hentered := (notedEnterSection_noted host s l).andThen fun s =>
      (notedExec_noted s l).andThen fun s => notedEntry_noted s l
    cases henter : enterSection host s l with
    | error stop => rwa [henter] at hentered
    | ok p =>
      rw [henter] at hentered
      simp only [bind, Except.bind] at hentered ⊢
      cases hexec : putExec p.1.cmd l with
      | error stop => rwa [hexec] at hentered
      | ok cmd =>
        simp only [hexec, Except.map] at hentered ⊢
        cases hentry : putEntry cmd l with
        | error stop => rwa [hentry] at hentered
        | ok cmd' =>
          rw [hentry] at hentered
          simpa only [List.append_nil] using hentered
  · rw [if_neg hs, if_neg (by exact hs)]
    exact .stop

theorem last_noted (host : Host) (s : State) :
    Noted (notedLoad host s [])
      (if (s.cmd.params 0).isSome then executeCommand host s else .ok (s, [])) := by
  rw [notedLoad]
  split
  case isTrue => exact notedExecuteCommand_noted host s
  case isFalse => exact .done s

/-- From any state, by induction on the entries to come. -/
theorem run_noted (host : Host) (s : State) (ls : List Line) :
    Noted (notedLoad host s ls) ((runAll (iniHandle host) s ls).bind fun p =>
      (if (p.1.cmd.params 0).isSome then executeCommand host p.1 else .ok (p.1, [])).map fun q =>
        (q.1, p.2 ++ q.2)) := by
  induction ls generalizing s with
  | nil =>
    have hlast := last_noted host s
    rw [runAll]
    cases hresult : if (s.cmd.params 0).isSome then executeCommand host s else .ok (s, []) with
    | error stop =>
      rw [hresult] at hlast
      simpa only [Except.bind, Except.map, hresult] using hlast
    | ok q =>
      rw [hresult] at hlast
      simpa only [Except.bind, Except.map, hresult, List.nil_append] using hlast
  | cons l ls ih =>
    have hrun := (notedIniHandle_noted host s l).andThen ih
    rw [notedLoad, runAll_cons]
    cases hstep : iniHandle host s l with
    | error stop => rwa [hstep] at hrun
    | ok p =>
      rw [hstep] at hrun
      simp only [Except.bind] at hrun ⊢
      cases hrest : runAll (iniHandle host) p.1 ls with
      | error stop => rwa [hrest] at hrun
      | ok q =>
        simp only [hrest, Except.map] at hrun ⊢
        cases hlast : if (q.1.cmd.params 0).isSome then executeCommand host q.1
          else .ok (q.1, []) with
        | error stop => rwa [hlast] at hrun
        | ok last =>
          rw [hlast] at hrun
          simpa only [List.append_assoc] using hrun

theorem notedLoad_noted (host : Host) (file : List Entry) :
    Noted (notedLoad host ⟨.zero, []⟩ file.zipIdx) (load host file) := by
  have hrun := run_noted host ⟨.zero, []⟩ file.zipIdx
  rw [load]
  cases hresult : runAll (iniHandle host) ⟨.zero, []⟩ file.zipIdx with
  | error stop => rwa [hresult] at hrun
  | ok p =>
    rw [hresult] at hrun
    simp only [bind, Except.bind] at hrun ⊢
    split
    case isTrue hprogram =>
      rw [if_pos hprogram] at hrun
      cases hlast : executeCommand host p.1 with
      | error stop => rwa [hlast] at hrun
      | ok last => rwa [hlast] at hrun
    case isFalse hprogram =>
      rw [if_neg hprogram] at hrun
      simpa only [Except.map, List.append_nil] using hrun

end Noted

/-! ### The condition -/

/-- The slots in use once the section is settled, its own name not counted. -/
def slotsKept (s : State) (l : Line) : ℕ :=
  if s.cmd.isNamed l.1.sectionName = false ∧ (s.cmd.params 0).isSome then 0
  else s.cmd.strings.length

def naming (s : State) (l : Line) : ℕ := if s.cmd.isNamed l.1.sectionName then 0 else 1

def execs (l : Line) : ℕ := if l.1.name = text "exec" then 1 else 0

/-- There are slots for the section name, the program and the entry itself. -/
def Fits (s : State) (l : Line) : Prop :=
  slotsKept s l + naming s l + execs l + 1 ≤ Table.strings.size

instance (s : State) (l : Line) : Decidable (Fits s l) :=
  inferInstanceAs (Decidable (slotsKept s l + naming s l + execs l + 1 ≤ Table.strings.size))

/-- Every call that passes the ASSERTs fits, and a last command that is executed has not filled a
table. -/
def Fitting (host : Host) : State → List Line → Prop
  | s, [] => (s.cmd.params 0).isSome → host.fork s.pids.length ≠ -1 →
      s.cmd.nParams ≤ MAX_ARGC ∧ s.cmd.nEnvs ≤ MAX_ARGC
  | s, l :: ls => (Asserted s → Fits s l) ∧
      ((notedIniHandle host s l).ok = true → Fitting host (notedIniHandle host s l).state ls)

/-- Between calls: the last slot of a table is free as long as its counter has not passed it. -/
structure Counted (cmd : RunnerCmd) : Prop where
  params : cmd.params MAX_ARGC = none ↔ cmd.nParams ≤ MAX_ARGC
  envs : cmd.envs MAX_ARGC = none ↔ cmd.nEnvs ≤ MAX_ARGC
  named : (cmd.params 0).isSome → cmd.name ≠ none

/-- Within a call that passed the ASSERTs, until its entry is written. -/
structure Roomy (cmd : RunnerCmd) : Prop where
  nParams : cmd.nParams ≤ MAX_ARGC
  nEnvs : cmd.nEnvs ≤ MAX_ARGC
  params : cmd.params MAX_ARGC = none
  envs : cmd.envs MAX_ARGC = none

theorem counted_zero : Counted .zero := ⟨by decide, by decide, by decide⟩

theorem Counted.roomy {s : State} (h : Counted s.cmd) (hs : Asserted s) : Roomy s.cmd :=
  ⟨hs.2.1, hs.2.2, h.params.mpr hs.2.1, h.envs.mpr hs.2.2⟩

/-! ### Execution -/

section Execution

variable {host : Host} {s : State}

theorem inheritEnviron_envs (environ : List (List UInt8)) (cmd : RunnerCmd) :
    (inheritEnviron environ cmd).envs MAX_ARGC = cmd.envs MAX_ARGC ∧
      (inheritEnviron environ cmd).params = cmd.params := by
  induction environ generalizing cmd with
  | nil => exact ⟨rfl, rfl⟩
  | cons value environ ih =>
    rw [inheritEnviron]
    split
    case isTrue hlt =>
      obtain ⟨henvs, hparams⟩ := ih { cmd with
        envs := Function.update cmd.envs cmd.nEnvs (some (.inherited value))
        nEnvs := cmd.nEnvs + 1 }
      exact ⟨henvs.trans (Function.update_of_ne hlt.ne' _ _), hparams⟩
    case isFalse => exact ⟨rfl, rfl⟩

theorem inheritWrites_right (environ : List (List UInt8)) (cmd : RunnerCmd) :
    ∀ a ∈ inheritWrites environ cmd, a.Right := by
  induction environ generalizing cmd with
  | nil => exact fun a ha => (List.not_mem_nil ha).elim
  | cons value environ ih =>
    rw [inheritWrites]
    split
    case isTrue hlt =>
      intro a ha
      rcases List.mem_cons.mp ha with rfl | ha
      · exact Nat.lt_succ_of_lt hlt
      · exact ih _ a ha
    case isFalse => exact fun a ha => (List.not_mem_nil ha).elim

/-- The inherited variables are never one too many. -/
theorem notedExecuteCommand_right_iff :
    (∀ a ∈ (notedExecuteCommand host s).out, a.Right) ↔
      (s.cmd.name ≠ none → host.fork s.pids.length ≠ -1 →
        s.cmd.params MAX_ARGC = none ∧ s.cmd.envs MAX_ARGC = none) := by
  obtain ⟨henvs, hparams⟩ := inheritEnviron_envs host.environ s.cmd
  have hexecuted : (Act.executed (inheritEnviron host.environ s.cmd)).Right ↔
      s.cmd.params MAX_ARGC = none ∧ s.cmd.envs MAX_ARGC = none := by
    rw [Act.Right, terminated_iff, terminated_iff, henvs, hparams]
  have hinherited : (∀ a ∈ inheritWrites host.environ s.cmd, a.Right) ↔ True :=
    iff_true_intro (inheritWrites_right host.environ s.cmd)
  rw [notedExecuteCommand, Outcome.forall_mem_andThen, Outcome.forall_mem_andThen]
  by_cases hfork : host.fork s.pids.length = -1
  · simp [hfork, hinherited]
  · simp [hfork, hinherited, hexecuted]

theorem notedExecuteCommand_state (hok : (notedExecuteCommand host s).ok = true) :
    (notedExecuteCommand host s).state.cmd = .zero := by
  rw [notedExecuteCommand] at hok ⊢
  by_cases hname : s.cmd.name = none
  · simp [hname] at hok
  · by_cases hfork : host.fork s.pids.length = -1
    · simp [hname, hfork] at hok
    · simp [hname, hfork]

end Execution

/-! ### One call -/

section Call

variable {host : Host} {s : State} {l : Line}

theorem notedPut_andThen_right_iff {line : ℕ} {bytes : List UInt8} {f : State → Outcome State Act}
    (hf : ∀ s, ∀ a ∈ (f s).out, a.Right) :
    (∀ a ∈ ((notedPut s line bytes).andThen f).out, a.Right) ↔
      s.cmd.strings.length < Table.strings.size := by
  rw [Outcome.forall_mem_andThen]
  constructor
  · intro h
    exact h.1 _ (List.mem_singleton_self _)
  · intro hlt
    refine ⟨fun a ha => ?_, fun _ => hf _⟩
    rw [List.mem_singleton.mp ha]
    exact hlt

theorem notedPut_ok {line : ℕ} {bytes : List UInt8} :
    (notedPut s line bytes).ok = true ↔ s.cmd.strings.length < Table.strings.size :=
  decide_eq_true_iff

theorem notedName_right_iff :
    (∀ a ∈ (notedName s l).out, a.Right) ↔ s.cmd.strings.length < Table.strings.size :=
  notedPut_andThen_right_iff fun _ _ ha => (List.not_mem_nil ha).elim

/-- A command that is executed in the middle of the file is in order: the ASSERTs have just
passed. -/
theorem notedEnterSection_right (hs : Asserted s) (hroomy : Roomy s.cmd) :
    ∀ a ∈ (notedEnterSection host s l).out, a.Right := by
  rw [notedEnterSection]
  split
  case isTrue => exact fun a ha => (List.not_mem_nil ha).elim
  case isFalse =>
    refine Outcome.forall_mem_andThen.mpr ?_
    split
    case isTrue =>
      refine ⟨?_, fun hok => notedName_right_iff.mpr ?_⟩
      · exact notedExecuteCommand_right_iff.mpr fun _ _ => ⟨hroomy.params, hroomy.envs⟩
      · rw [notedExecuteCommand_state hok]
        decide
    case isFalse =>
      exact ⟨fun a ha => (List.not_mem_nil ha).elim, fun _ => notedName_right_iff.mpr hs.1⟩

/-- The section is settled, with so many slots in use. -/
structure Settled (slots : ℕ) (cmd : RunnerCmd) : Prop extends Roomy cmd where
  named : cmd.name ≠ none
  slots : cmd.strings.length = slots

theorem notedName_settled (hroomy : Roomy s.cmd) (hok : (notedName s l).ok = true) :
    Settled (s.cmd.strings.length + 1) (notedName s l).state.cmd := by
  have hput := (Outcome.ok_andThen_iff.mp hok).1
  rw [notedName, Outcome.andThen_of_ok hput]
  exact ⟨⟨Nat.succ_le_succ (Nat.zero_le 63), hroomy.nEnvs, hroomy.params, hroomy.envs⟩,
    Option.some_ne_none _, List.length_append⟩

theorem roomy_zero : Roomy .zero := ⟨by decide, by decide, rfl, rfl⟩

theorem isNamed_named {cmd : RunnerCmd} {sectionName : List UInt8}
    (h : cmd.isNamed sectionName = true) : cmd.name ≠ none := by
  intro hnone
  rw [RunnerCmd.isNamed, hnone] at h
  exact Bool.noConfusion h

theorem notedEnterSection_settled (hroomy : Roomy s.cmd)
    (hok : (notedEnterSection host s l).ok = true) :
    Settled (slotsKept s l + naming s l) (notedEnterSection host s l).state.cmd := by
  rw [notedEnterSection] at hok
  rw [notedEnterSection, slotsKept, naming]
  cases hnamed : s.cmd.isNamed l.1.sectionName with
  | true =>
    simp only [if_true, Bool.true_eq_false, false_and, if_false]
    exact ⟨hroomy, isNamed_named hnamed, rfl⟩
  | false =>
    simp only [hnamed, Bool.false_eq_true, if_false, true_and] at hok ⊢
    obtain ⟨hexecuted, hput⟩ := Outcome.ok_andThen_iff.mp hok
    rw [Outcome.andThen_of_ok hexecuted]
    by_cases hprogram : (s.cmd.params 0).isSome = true
    · rw [if_pos hprogram] at hexecuted hput ⊢
      have hcmd := notedExecuteCommand_state hexecuted
      have hsettled := notedName_settled (by rw [hcmd]; exact roomy_zero) hput
      rw [hcmd] at hsettled
      rwa [if_pos hprogram]
    · rw [if_neg hprogram] at hput ⊢
      rw [if_neg hprogram]
      exact notedName_settled hroomy hput

theorem notedEntry_right_iff (hroomy : Roomy s.cmd) :
    (∀ a ∈ (notedEntry s l).out, a.Right) ↔ s.cmd.strings.length < Table.strings.size := by
  rw [notedEntry]
  split
  case isTrue =>
    refine notedPut_andThen_right_iff fun _ a ha => ?_
    rw [List.mem_singleton.mp ha]
    exact Nat.lt_succ_of_le hroomy.nParams
  case isFalse =>
    refine notedPut_andThen_right_iff fun _ a ha => ?_
    rw [List.mem_singleton.mp ha]
    exact Nat.lt_succ_of_le hroomy.nEnvs

/-- The last slot is used when its own turn comes. -/
theorem update_last_iff {α : Type} {table : ℕ → Option α} {n : ℕ} {x : α} (hn : n ≤ MAX_ARGC)
    (hlast : table MAX_ARGC = none) :
    Function.update table n (some x) MAX_ARGC = none ↔ n + 1 ≤ MAX_ARGC := by
  rcases hn.eq_or_lt with rfl | hlt
  · rw [Function.update_self]
    exact iff_of_false (Option.some_ne_none x) (Nat.not_succ_le_self _)
  · rw [Function.update_of_ne hlt.ne']
    exact iff_of_true hlast hlt

theorem notedExec_settled {n : ℕ} (h : Settled n s.cmd) (hok : (notedExec s l).ok = true) :
    Settled (n + execs l) (notedExec s l).state.cmd := by
  rw [notedExec] at hok ⊢
  rw [execs]
  by_cases hname : l.1.name = text "exec"
  · rw [if_pos hname] at hok ⊢
    rw [if_pos hname, Outcome.andThen_of_ok (Outcome.ok_andThen_iff.mp hok).1]
    have hlast := (update_last_iff (x := s.cmd.strings.length) (Nat.zero_le _) h.params).mpr
      (Nat.succ_le_succ (Nat.zero_le 63))
    exact ⟨⟨h.nParams, h.nEnvs, hlast, h.envs⟩, h.named,
      List.length_append.trans (congrArg (· + 1) h.slots)⟩
  · rw [if_neg hname, if_neg hname]
    exact h

/-- A counter passes the last slot when the slot is written. -/
theorem notedEntry_counted {n : ℕ} (h : Settled n s.cmd) (hok : (notedEntry s l).ok = true) :
    Counted (notedEntry s l).state.cmd := by
  rw [notedEntry] at hok ⊢
  by_cases hname : l.1.name = text "param"
  · rw [if_pos hname] at hok ⊢
    rw [Outcome.andThen_of_ok (Outcome.ok_andThen_iff.mp hok).1]
    exact ⟨update_last_iff h.nParams h.params, iff_of_true h.envs h.nEnvs, fun _ => h.named⟩
  · rw [if_neg hname] at hok ⊢
    rw [Outcome.andThen_of_ok (Outcome.ok_andThen_iff.mp hok).1]
    exact ⟨iff_of_true h.params h.nParams, update_last_iff h.nEnvs h.envs, fun _ => h.named⟩

theorem notedExec_right_iff_ok :
    (∀ a ∈ (notedExec s l).out, a.Right) ↔ (notedExec s l).ok = true := by
  rw [notedExec]
  split
  case isTrue =>
    rw [Outcome.ok_andThen_iff, notedPut_ok, and_iff_left rfl]
    refine notedPut_andThen_right_iff fun _ a ha => ?_
    rw [List.mem_singleton.mp ha]
    exact Nat.succ_pos MAX_ARGC
  case isFalse => exact iff_of_true (fun a ha => (List.not_mem_nil ha).elim) rfl

theorem notedExec_ok (h : s.cmd.strings.length + execs l ≤ Table.strings.size) :
    (notedExec s l).ok = true := by
  rw [execs] at h
  rw [notedExec]
  by_cases hname : l.1.name = text "exec"
  · rw [if_pos hname] at h
    rw [if_pos hname, Outcome.ok_andThen_iff]
    exact ⟨notedPut_ok.mpr h, rfl⟩
  · rw [if_neg hname]
    rfl

/-- Once the section is settled, an entry needs one slot, and an exec entry two. -/
theorem entry_right_iff {n : ℕ} (h : Settled n s.cmd) :
    (∀ a ∈ ((notedExec s l).andThen fun s => notedEntry s l).out, a.Right) ↔
      n + execs l + 1 ≤ Table.strings.size := by
  have hentry (hok : (notedExec s l).ok = true) :
      (∀ a ∈ (notedEntry (notedExec s l).state l).out, a.Right) ↔
        n + execs l + 1 ≤ Table.strings.size := by
    have hsettled := notedExec_settled h hok
    rw [notedEntry_right_iff hsettled.toRoomy, hsettled.slots]
    exact Iff.rfl
  rw [Outcome.forall_mem_andThen, notedExec_right_iff_ok]
  constructor
  · rintro ⟨hok, hright⟩
    exact (hentry hok).mp (hright hok)
  · intro hfits
    exact ⟨notedExec_ok (h.slots ▸ Nat.le_of_succ_le hfits), fun hok => (hentry hok).mpr hfits⟩

/-- If the section cannot be entered, an execution has failed. A command that has been executed
leaves all slots free. -/
theorem fits_of_failed (hs : Asserted s) (hfailed : (notedEnterSection host s l).ok = false) :
    Fits s l := by
  rw [notedEnterSection] at hfailed
  cases hnamed : s.cmd.isNamed l.1.sectionName with
  | true =>
    rw [if_pos hnamed] at hfailed
    exact Bool.noConfusion hfailed
  | false =>
    rw [if_neg (Bool.not_eq_true _ ▸ hnamed)] at hfailed
    by_cases hprogram : (s.cmd.params 0).isSome = true
    · have hexecs : execs l ≤ 1 := by
        rw [execs]
        split <;> decide
      rw [Fits, slotsKept, naming, if_pos ⟨hnamed, hprogram⟩, if_neg (Bool.not_eq_true _ ▸ hnamed)]
      simp only [Table.size, MAX_ARGC]
      omega
    · rw [if_neg hprogram] at hfailed
      have hok : (notedName s l).ok = true :=
        Outcome.ok_andThen_iff.mpr ⟨notedPut_ok.mpr hs.1, rfl⟩
      exact absurd (hfailed.symm.trans hok) Bool.false_ne_true

theorem notedIniHandle_right_iff (h : Counted s.cmd) :
    (∀ a ∈ (notedIniHandle host s l).out, a.Right) ↔ (Asserted s → Fits s l) := by
  rw [notedIniHandle]
  by_cases hs : Asserted s
  · have hroomy := h.roomy hs
    rw [if_pos hs, Outcome.forall_mem_andThen, and_iff_right (notedEnterSection_right hs hroomy),
      forall_prop_of_true hs]
    cases hok : (notedEnterSection host s l).ok with
    | true =>
      rw [forall_prop_of_true rfl]
      exact entry_right_iff (notedEnterSection_settled hroomy hok)
    | false => exact iff_of_true (fun h => Bool.noConfusion h) (fits_of_failed hs hok)
  · rw [if_neg hs]
    exact iff_of_true (fun a ha => (List.not_mem_nil ha).elim) fun hasserted => absurd hasserted hs

theorem notedIniHandle_counted (h : Counted s.cmd) (hok : (notedIniHandle host s l).ok = true) :
    Counted (notedIniHandle host s l).state.cmd := by
  rw [notedIniHandle] at hok ⊢
  by_cases hs : Asserted s
  · rw [if_pos hs] at hok ⊢
    obtain ⟨henter, hrest⟩ := Outcome.ok_andThen_iff.mp hok
    obtain ⟨hexec, hentry⟩ := Outcome.ok_andThen_iff.mp hrest
    rw [Outcome.andThen_of_ok henter, Outcome.andThen_of_ok hexec]
    have hsettled := notedEnterSection_settled (h.roomy hs) henter
    exact notedEntry_counted (notedExec_settled hsettled hexec) hentry
  · rw [if_neg hs] at hok
    exact Bool.noConfusion hok

end Call

/-! ### The condition, counted in the file -/

def isExec (e : Entry) : Bool := e.name = text "exec"

def isParam (e : Entry) : Bool := e.name = text "param"

/-- How many section names are copied for these entries, newest first. -/
def names (held : List Entry) : ℕ := ((held.map Entry.sectionName).destutter (· ≠ ·)).length

def slotsOf (held : List Entry) : ℕ := names held + held.countP isExec + held.length

/-- The program comes before the parameters of the section. -/
def paramsIn (sectionName : List UInt8) (held : List Entry) : ℕ :=
  1 + (held.takeWhile fun e => e.sectionName = sectionName).countP isParam

def paramsOf (held : List Entry) : ℕ := held.head?.elim 0 fun e => paramsIn e.sectionName held

def envsOf (held : List Entry) : ℕ := held.countP fun e => !isParam e

/-- Of the entries since a command was last executed those that are left when this one comes: a new
section executes the program that there is. -/
def leftAt (held : List Entry) (e : Entry) : List Entry :=
  if held.head?.any (fun last => last.sectionName ≠ e.sectionName) ∧ held.any isExec then []
  else held

/-- An entry that comes to less than the tables finds its slots, and a last section with a program
has not filled a table. -/
def Ample : List Entry → List Entry → Prop
  | held, [] => held.any isExec → paramsOf held ≤ MAX_ARGC ∧ envsOf held ≤ MAX_ARGC
  | held, e :: file =>
    slotsOf held < Table.strings.size ∧ paramsOf held ≤ MAX_ARGC ∧ envsOf held ≤ MAX_ARGC →
      slotsOf (e :: leftAt held e) ≤ Table.strings.size ∧ Ample (e :: leftAt held e) file

instance decidableAmple : (held file : List Entry) → Decidable (Ample held file)
  | held, [] => inferInstanceAs
      (Decidable (held.any isExec → paramsOf held ≤ MAX_ARGC ∧ envsOf held ≤ MAX_ARGC))
  | held, e :: file =>
    have := decidableAmple (e :: leftAt held e) file
    inferInstanceAs (Decidable (slotsOf held < Table.strings.size ∧ paramsOf held ≤ MAX_ARGC ∧
      envsOf held ≤ MAX_ARGC →
        slotsOf (e :: leftAt held e) ≤ Table.strings.size ∧ Ample (e :: leftAt held e) file))

section Counts

variable {host : Host} {s : State} {l : Line}

/-- Whether the name of the section has to be copied for this entry. -/
def begins (held : List Entry) (e : Entry) : ℕ :=
  if held.head?.any (fun last => last.sectionName = e.sectionName) then 0 else 1

theorem begins_of_same {held : List Entry} {last e : Entry}
    (h : last.sectionName = e.sectionName) : begins (last :: held) e = 0 := by
  simp [begins, h]

theorem begins_of_ne {held : List Entry} {last e : Entry} (h : last.sectionName ≠ e.sectionName) :
    begins (last :: held) e = 1 := by
  simp [begins, h]

theorem leftAt_of_same {held : List Entry} {last e : Entry}
    (h : last.sectionName = e.sectionName) : leftAt (last :: held) e = last :: held := by
  simp [leftAt, h]

theorem leftAt_of_exec {held : List Entry} {last e : Entry} (h : last.sectionName ≠ e.sectionName)
    (hexec : (last :: held).any isExec = true) : leftAt (last :: held) e = [] :=
  if_pos ⟨by simp [h], hexec⟩

theorem leftAt_of_none {held : List Entry} {e : Entry} (h : ¬ held.any isExec = true) :
    leftAt held e = held :=
  if_neg fun hcleared => h hcleared.2

theorem names_cons (held : List Entry) (e : Entry) :
    names (e :: held) = names held + begins held e := by
  cases held with
  | nil => rfl
  | cons last held =>
    simp only [names, begins, List.map_cons, List.destutter_cons', List.head?_cons,
      Option.any_some, decide_eq_true_eq]
    by_cases hsame : last.sectionName = e.sectionName
    · simp [hsame]
    · simp [hsame, Ne.symm hsame]

theorem slotsOf_cons (held : List Entry) (l : Line) :
    slotsOf (l.1 :: held) = slotsOf held + begins held l.1 + execs l + 1 := by
  have hexec : (if isExec l.1 then 1 else 0) = execs l := by simp [isExec, execs]
  rw [slotsOf, slotsOf, names_cons, List.countP_cons, hexec, List.length_cons]
  omega

theorem paramsOf_cons (held : List Entry) (e : Entry) :
    paramsOf (e :: held) = paramsIn e.sectionName held + if isParam e then 1 else 0 := by
  simp [paramsOf, paramsIn, List.takeWhile_cons, List.countP_cons, Nat.add_assoc]

theorem paramsIn_of_same {held : List Entry} {last e : Entry}
    (h : last.sectionName = e.sectionName) :
    paramsIn e.sectionName (last :: held) = paramsOf (last :: held) := by
  simp [paramsOf, h]

theorem paramsIn_of_ne {held : List Entry} {last e : Entry}
    (h : last.sectionName ≠ e.sectionName) : paramsIn e.sectionName (last :: held) = 1 := by
  simp [paramsIn, h]

/-- The counters of a command with a section, whether it has a program, and the section's name,
which ends within its slot. -/
structure Holds (cmd : RunnerCmd) (sectionName : List UInt8) (slots params envs : ℕ)
    (program : Bool) : Prop where
  named : ∃ i slot, cmd.name = some i ∧ cmd.strings[i]? = some slot ∧ slot.bytes = sectionName
  ended : sectionName.length < MAX_STR_LEN
  slots : cmd.strings.length = slots
  params : cmd.nParams = params
  envs : cmd.nEnvs = envs
  program : (cmd.params 0).isSome = program

variable {sectionName : List UInt8} {slots params envs : ℕ} {program : Bool}

theorem Holds.isNamed {cmd : RunnerCmd} (h : Holds cmd sectionName slots params envs program)
    (other : List UInt8) : cmd.isNamed other = decide (sectionName = other) := by
  obtain ⟨i, slot, hname, hslot, hbytes⟩ := h.named
  obtain ⟨hi, hget⟩ := List.getElem?_eq_some_iff.mp hslot
  have htext : (textAt cmd.strings i).bytes = sectionName := by
    rw [textAt, List.drop_eq_getElem_cons hi, hget, stringAt, hbytes, if_pos h.ended]
  rw [RunnerCmd.isNamed, hname]
  simp only [htext]

theorem notedName_holds (hroom : s.cmd.strings.length < Table.strings.size)
    (hshort : l.1.sectionName.length < MAX_STR_LEN) :
    (notedName s l).ok = true ∧ Holds (notedName s l).state.cmd l.1.sectionName
      (s.cmd.strings.length + 1) 1 s.cmd.nEnvs (s.cmd.params 0).isSome := by
  rw [notedName, Outcome.andThen_of_ok (notedPut_ok.mpr hroom)]
  refine ⟨rfl, ⟨_, _, rfl, List.getElem?_concat_length, ?_⟩, hshort, List.length_append, rfl, rfl, rfl⟩
  exact List.take_of_length_le hshort.le

/-- A copy more, and an update of the command that leaves the section's name. -/
theorem Holds.copied {cmd next : RunnerCmd} {slot : Slot} {params' envs' : ℕ} {program' : Bool}
    (h : Holds cmd sectionName slots params envs program)
    (hname : next.name = cmd.name) (hstrings : next.strings = cmd.strings ++ [slot])
    (hparams : next.nParams = params') (henvs : next.nEnvs = envs')
    (hprogram : (next.params 0).isSome = program') :
    Holds next sectionName (slots + 1) params' envs' program' := by
  obtain ⟨i, first, hi, hfirst, hbytes⟩ := h.named
  refine ⟨⟨i, first, hname.trans hi, ?_, hbytes⟩, h.ended, ?_, hparams, henvs, hprogram⟩
  · rw [hstrings, List.getElem?_append_left (List.getElem?_eq_some_iff.mp hfirst).1]
    exact hfirst
  · rw [hstrings, List.length_append, h.slots]
    rfl

theorem notedExec_holds (h : Holds s.cmd sectionName slots params envs program)
    (hroom : slots + execs l ≤ Table.strings.size) :
    (notedExec s l).ok = true ∧ Holds (notedExec s l).state.cmd sectionName (slots + execs l)
      params envs (program || isExec l.1) := by
  refine ⟨notedExec_ok (h.slots ▸ hroom), ?_⟩
  rw [execs] at hroom ⊢
  rw [notedExec, isExec]
  by_cases hname : l.1.name = text "exec"
  · rw [if_pos hname] at hroom
    rw [if_pos hname, if_pos hname, Outcome.andThen_of_ok (notedPut_ok.mpr (h.slots ▸ hroom))]
    exact h.copied rfl rfl h.params h.envs (by simp [hname])
  · simpa [hname, Outcome.done] using h

theorem notedEntry_holds (h : Holds s.cmd sectionName slots params envs program)
    (hroom : slots < Table.strings.size) (hfirst : 1 ≤ params) :
    (notedEntry s l).ok = true ∧ Holds (notedEntry s l).state.cmd sectionName (slots + 1)
      (params + if isParam l.1 then 1 else 0) (envs + if isParam l.1 then 0 else 1) program := by
  rw [notedEntry, isParam]
  by_cases hname : l.1.name = text "param"
  · have hother : 0 ≠ s.cmd.nParams := Nat.ne_of_lt (h.params ▸ hfirst)
    rw [if_pos hname, Outcome.andThen_of_ok (notedPut_ok.mpr (h.slots ▸ hroom))]
    refine ⟨rfl, h.copied rfl rfl ?_ ?_ ?_⟩
    · simp [hname, h.params]
    · simp [notedPut, hname, h.envs]
    · simp [notedPut, hother, h.program]
  · rw [if_neg hname, Outcome.andThen_of_ok (notedPut_ok.mpr (h.slots ▸ hroom))]
    refine ⟨rfl, h.copied rfl rfl ?_ ?_ h.program⟩
    · simp [notedPut, hname, h.params]
    · simp [hname, h.envs]

/-- The command as these entries have left it. -/
def Gathered (cmd : RunnerCmd) (held : List Entry) : Prop :=
  match held with
  | [] => cmd = .zero
  | e :: _ => Holds cmd e.sectionName (slotsOf held) (paramsOf held) (envsOf held) (held.any isExec)

theorem Gathered.counts {held : List Entry} (h : Gathered s.cmd held) :
    s.cmd.strings.length = slotsOf held ∧ s.cmd.nParams = paramsOf held ∧
      s.cmd.nEnvs = envsOf held ∧ (s.cmd.params 0).isSome = held.any isExec := by
  cases held with
  | nil =>
    have hzero : s.cmd = .zero := h
    rw [hzero]
    exact ⟨rfl, rfl, rfl, rfl⟩
  | cons e held => exact ⟨h.slots, h.params, h.envs, h.program⟩

theorem Gathered.isNamed {held : List Entry} (h : Gathered s.cmd held) (e : Entry) :
    s.cmd.isNamed e.sectionName =
      held.head?.any fun last => last.sectionName = e.sectionName := by
  cases held with
  | nil =>
    have hzero : s.cmd = .zero := h
    rw [hzero]
    rfl
  | cons last held => exact Holds.isNamed h _

theorem notedExecuteCommand_ok (hfork : ∀ n, host.fork n ≠ -1) (hname : s.cmd.name ≠ none) :
    (notedExecuteCommand host s).ok = true := by
  simp [notedExecuteCommand, hname, hfork]

theorem notedEnterSection_holds (hfork : ∀ n, host.fork n ≠ -1) {held : List Entry}
    (h : Gathered s.cmd held) (hs : Asserted s) (hshort : l.1.sectionName.length < MAX_STR_LEN) :
    (notedEnterSection host s l).ok = true ∧
      Holds (notedEnterSection host s l).state.cmd l.1.sectionName
        (slotsOf (leftAt held l.1) + begins (leftAt held l.1) l.1)
        (paramsIn l.1.sectionName (leftAt held l.1)) (envsOf (leftAt held l.1))
        ((leftAt held l.1).any isExec) := by
  have hnamed := h.isNamed l.1
  obtain ⟨hslots, hparams, henvs, hprogram⟩ := h.counts
  rw [notedEnterSection, hnamed, hprogram]
  cases held with
  | nil =>
    have hzero : s.cmd = .zero := h
    obtain ⟨hok, hholds⟩ := notedName_holds (s := s) hs.1 hshort
    rw [hzero] at hholds
    exact ⟨hok, hholds⟩
  | cons last held =>
    by_cases hsame : last.sectionName = l.1.sectionName
    · rw [leftAt_of_same hsame, begins_of_same hsame, paramsIn_of_same hsame, ← hsame]
      simp only [List.head?_cons, Option.any_some, hsame, decide_true, if_true]
      exact ⟨rfl, hsame ▸ h⟩
    · rw [if_neg (by simp [hsame])]
      by_cases hexec : (last :: held).any isExec = true
      · obtain ⟨i, slot, hi, -⟩ := Holds.named h
        have hexecuted := notedExecuteCommand_ok hfork (s := s) (hi ▸ Option.some_ne_none i)
        have hzero := notedExecuteCommand_state hexecuted
        obtain ⟨hok, hholds⟩ :=
          notedName_holds (s := (notedExecuteCommand host s).state) (by rw [hzero]; decide) hshort
        rw [if_pos hexec, Outcome.andThen_of_ok hexecuted, leftAt_of_exec hsame hexec]
        rw [hzero] at hholds
        exact ⟨hok, hholds⟩
      · obtain ⟨hok, hholds⟩ := notedName_holds (s := s) hs.1 hshort
        rw [hslots, henvs, hprogram] at hholds
        rw [if_neg hexec, leftAt_of_none hexec, begins_of_ne hsame, paramsIn_of_ne hsame]
        exact ⟨hok, hholds⟩

/-- The slots a call needs are those of its entry and of what is left before it. -/
theorem Gathered.needs {held : List Entry} (h : Gathered s.cmd held) (l : Line) :
    slotsKept s l + naming s l + execs l + 1 = slotsOf (l.1 :: leftAt held l.1) := by
  obtain ⟨hslots, -, -, hprogram⟩ := h.counts
  rw [slotsOf_cons, slotsKept, naming, h.isNamed, hprogram, hslots]
  cases held with
  | nil => rfl
  | cons last held =>
    by_cases hsame : last.sectionName = l.1.sectionName
    · simp [leftAt_of_same hsame, begins_of_same hsame, hsame]
    · by_cases hexec : (last :: held).any isExec = true
      · rw [leftAt_of_exec hsame hexec, if_pos ⟨by simp [hsame], hexec⟩, if_neg (by simp [hsame])]
        rfl
      · rw [leftAt_of_none hexec, begins_of_ne hsame, if_neg fun h => hexec h.2,
          if_neg (by simp [hsame])]

/-- One entry: a call that passes the ASSERTs and fits leaves what the entries so far come to. -/
theorem notedIniHandle_gathered (hfork : ∀ n, host.fork n ≠ -1) {held : List Entry}
    (h : Gathered s.cmd held) (hs : Asserted s) (hfits : Fits s l)
    (hshort : l.1.sectionName.length < MAX_STR_LEN) :
    (notedIniHandle host s l).ok = true ∧
      Gathered (notedIniHandle host s l).state.cmd (l.1 :: leftAt held l.1) := by
  rw [Fits, h.needs, slotsOf_cons] at hfits
  obtain ⟨henter, hentered⟩ := notedEnterSection_holds hfork h hs hshort
  obtain ⟨hexec, hexecs⟩ := notedExec_holds hentered (l := l) (Nat.le_of_succ_le hfits)
  obtain ⟨hentry, hdone⟩ := notedEntry_holds hexecs (l := l) hfits (Nat.le_add_right 1 _)
  rw [notedIniHandle, if_pos hs, Outcome.andThen_of_ok henter, Outcome.andThen_of_ok hexec]
  refine ⟨hentry, ?_⟩
  have henvs : envsOf (l.1 :: leftAt held l.1) =
      envsOf (leftAt held l.1) + if isParam l.1 then 0 else 1 := by
    rw [envsOf, envsOf, List.countP_cons]
    cases isParam l.1 <;> rfl
  rw [Gathered, slotsOf_cons, paramsOf_cons, henvs, List.any_cons, Bool.or_comm]
  exact hdone

/-- Where every `fork` succeeds and no section name fills its slot, the condition is one on the
entries of the file alone. -/
theorem fitting_iff_ample (hfork : ∀ n, host.fork n ≠ -1) {ls : List Line} {held : List Entry}
    (hshort : ∀ l ∈ ls, l.1.sectionName.length < MAX_STR_LEN) (h : Gathered s.cmd held) :
    Fitting host s ls ↔ Ample held (ls.map Prod.fst) := by
  induction ls generalizing s held with
  | nil =>
    obtain ⟨-, hparams, henvs, hprogram⟩ := h.counts
    rw [Fitting, List.map_nil, Ample, hparams, henvs, hprogram,
      forall_prop_of_true (hfork s.pids.length)]
  | cons l ls ih =>
    obtain ⟨hl, hrest⟩ := List.forall_mem_cons.mp hshort
    obtain ⟨hslots, hparams, henvs, -⟩ := h.counts
    have hasserted : slotsOf held < Table.strings.size ∧ paramsOf held ≤ MAX_ARGC ∧
        envsOf held ≤ MAX_ARGC ↔ Asserted s := by
      rw [Asserted, hslots, hparams, henvs]
      exact Iff.rfl
    rw [Fitting, List.map_cons, Ample, hasserted, ← h.needs, ← Fits]
    by_cases hs : Asserted s
    · rw [forall_prop_of_true hs, forall_prop_of_true hs]
      refine and_congr_right fun hfits => ?_
      obtain ⟨hok, hnext⟩ := notedIniHandle_gathered hfork h hs hfits hl
      rw [forall_prop_of_true hok]
      exact ih hrest hnext
    · have hstop : (notedIniHandle host s l).ok = false := by rw [notedIniHandle, if_neg hs]
      refine iff_of_true ⟨fun h => absurd h hs, fun hok => ?_⟩ fun h => absurd h hs
      exact absurd (hstop.symm.trans hok) Bool.false_ne_true

end Counts

/-! ### The whole file -/

section Load

variable {host : Host}

theorem last_right_iff {s : State} (h : Counted s.cmd) :
    (∀ a ∈ (notedLoad host s []).out, a.Right) ↔ Fitting host s [] := by
  rw [notedLoad, Fitting]
  by_cases hprogram : (s.cmd.params 0).isSome = true
  · rw [if_pos hprogram, notedExecuteCommand_right_iff, forall_prop_of_true hprogram,
      forall_prop_of_true (h.named hprogram), h.params, h.envs]
  · rw [if_neg hprogram]
    exact iff_of_true (fun a ha => (List.not_mem_nil ha).elim) fun h => absurd h hprogram

/-- By induction on the entries to come. -/
theorem notedLoad_right_iff {s : State} {ls : List Line} (h : Counted s.cmd) :
    (∀ a ∈ (notedLoad host s ls).out, a.Right) ↔ Fitting host s ls := by
  induction ls generalizing s with
  | nil => exact last_right_iff h
  | cons l ls ih =>
    rw [notedLoad, Outcome.forall_mem_andThen, notedIniHandle_right_iff h, Fitting]
    exact and_congr_right fun _ => forall_congr' fun hok => ih (notedIniHandle_counted h hok)

/-- The tables do not overflow and stay terminated exactly when every call has the slots it needs
and a last command that is executed has not filled a table. -/
theorem tables_safe_iff (host : Host) (file : List Entry) :
    (∀ a ∈ (notedLoad host ⟨.zero, []⟩ file.zipIdx).out, a.Right) ↔
      Fitting host ⟨.zero, []⟩ file.zipIdx :=
  notedLoad_right_iff counted_zero

def webEntry (name : String) : Entry := ⟨text "web", text name, text "v"⟩

/-- The arguments fill their table up to the last slot, and the command is executed at the end of
the file. In the second file the last entry takes the name of the program to slot 127 and its
variable past the end. -/
theorem tables_unsafe :
    (¬ ∀ a ∈ (notedLoad ⟨[], fun _ => 1⟩ ⟨.zero, []⟩
      (webEntry "exec" :: List.replicate 64 (webEntry "param")).zipIdx).out, a.Right) ∧
    ¬ ∀ a ∈ (notedLoad ⟨[], fun _ => 1⟩ ⟨.zero, []⟩
      (webEntry "exec" :: List.replicate 62 (webEntry "param") ++
        List.replicate 62 (webEntry "PATH") ++ [webEntry "exec"]).zipIdx).out, a.Right := by
  decide +kernel

/-- For a file of the usual kind, on a host where every `fork` succeeds, this is read off the
entries. -/
theorem tables_safe_iff_ample (hfork : ∀ n, host.fork n ≠ -1) {file : List Entry}
    (hshort : ∀ e ∈ file, e.sectionName.length < MAX_STR_LEN) :
    (∀ a ∈ (notedLoad host ⟨.zero, []⟩ file.zipIdx).out, a.Right) ↔ Ample [] file := by
  have hlines : ∀ l ∈ file.zipIdx, l.1.sectionName.length < MAX_STR_LEN :=
    fun l hl => hshort l.1 (List.fst_mem_of_mem_zipIdx hl)
  have hgathered : Gathered (⟨.zero, []⟩ : State).cmd [] := rfl
  rw [notedLoad_right_iff counted_zero, fitting_iff_ample hfork hlines hgathered,
    List.zipIdx_map_fst]

/-- One argument less, and the last slot stays free. -/
example : Ample [] (webEntry "exec" :: List.replicate 63 (webEntry "param")) ∧
    ¬ Ample [] (webEntry "exec" :: List.replicate 64 (webEntry "param")) := by
  decide +kernel

end Load

end RunnerTables
