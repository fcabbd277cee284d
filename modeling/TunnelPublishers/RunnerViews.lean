import TunnelPublishers.RunnerConfig

/-!
# What the runner has gathered

The command without its tables: the program, its parameters and its variables as
lists, with the number of slots used. A copied string keeps its place while later
ones are added, so as long as strings are short the handler works on these lists.
-/
namespace RunnerViews

open ByteOrder ExecutionTraces RunnerConfig

/-! ### What an entry says -/

def isExec (l : Line) : Bool := l.1.name = text "exec"

def isParam (l : Line) : Bool := l.1.name = text "param"

def valueText (l : Line) : Text := ⟨some l.2, l.1.value⟩

def bindingText (l : Line) : Text := ⟨some l.2, l.1.name ++ text "=" ++ l.1.value⟩

def inheritedText (value : List UInt8) : Text := ⟨none, value⟩

/-- The strings of an entry are shorter than 127 bytes. -/
structure Short (e : Entry) : Prop where
  sectionName : e.sectionName.length < 127
  name : e.name.length < 127
  value : e.value.length < 127

instance (e : Entry) : Decidable (Short e) :=
  decidable_of_iff (e.sectionName.length < 127 ∧ e.name.length < 127 ∧ e.value.length < 127)
    ⟨fun ⟨hs, hn, hv⟩ => ⟨hs, hn, hv⟩, fun ⟨hs, hn, hv⟩ => ⟨hs, hn, hv⟩⟩

theorem not_isParam_of_isExec {l : Line} (h : isExec l = true) : isParam l = false := by
  simp only [isExec, isParam, decide_eq_true_eq, decide_eq_false_iff_not] at h ⊢
  rw [h]
  decide

/-! ### Views -/

/-- `params` are the parameters before the first NULL, after the program itself. -/
structure View where
  name : Option (List UInt8)
  exec : Option Text
  params : List Text
  nParams : ℕ
  envs : List Text
  used : ℕ

def View.blank : View := ⟨none, none, [], 0, [], 0⟩

/-- A new section begins. -/
def View.enter (v : View) (sectionName : List UInt8) : View :=
  { v with name := some sectionName, nParams := 1, used := v.used + 1 }

def View.addExec (v : View) (l : Line) : View :=
  if isExec l then { v with exec := some (valueText l), used := v.used + 1 } else v

def View.addEntry (v : View) (l : Line) : View :=
  if isParam l then
    { v with
      params := v.params.take (v.nParams - 1) ++ valueText l :: v.params.drop v.nParams
      nParams := v.nParams + 1
      used := v.used + 1 }
  else { v with envs := v.envs ++ [bindingText l], used := v.used + 1 }

def View.add (v : View) (l : Line) : View := (v.addExec l).addEntry l

/-- The count of parameters stands inside the list or at its end. -/
def View.Sound (v : View) : Prop := 1 ≤ v.nParams ∧ v.nParams ≤ v.params.length + 1

theorem View.Sound.addExec {v : View} (h : v.Sound) (l : Line) : (v.addExec l).Sound := by
  unfold View.addExec
  split <;> exact h

theorem View.Sound.addEntry {v : View} (h : v.Sound) (l : Line) : (v.addEntry l).Sound := by
  unfold View.addEntry
  split
  · simp only [View.Sound, List.length_append, List.length_take, List.length_cons,
      List.length_drop] at h ⊢
    omega
  · exact h

theorem View.Sound.add {v : View} (h : v.Sound) (l : Line) : (v.add l).Sound :=
  (h.addExec l).addEntry l

/-! ### Commands and their views -/

structure Shows (cmd : RunnerCmd) (v : View) : Prop where
  used : cmd.strings.length = v.used
  short : ∀ slot ∈ cmd.strings, slot.bytes.length < MAX_STR_LEN
  name : cmd.name.map (fun i => (textAt cmd.strings i).bytes) = v.name
  namePlace : ∀ i, cmd.name = some i → i < cmd.strings.length
  exec : (cmd.params 0).map (textAt cmd.strings) = v.exec
  params : ∀ n, (cmd.params (n + 1)).map (textAt cmd.strings) = v.params[n]?
  paramPlace : ∀ n i, cmd.params n = some i → i < cmd.strings.length
  nParams : cmd.nParams = v.nParams
  envs : ∀ n, (cmd.envs n).map (envText cmd.strings) = v.envs[n]?
  envPlace : ∀ n i, cmd.envs n = some (.slot i) → i < cmd.strings.length
  nEnvs : cmd.nEnvs = v.envs.length

theorem shows_zero : Shows .zero .blank := by
  constructor <;> simp [RunnerCmd.zero, View.blank]

section Putting

variable {cmd : RunnerCmd} {v : View} {line : ℕ} {bytes : List UInt8}

theorem stringAt_cons {slot : Slot} {rest : List Slot} (h : slot.bytes.length < MAX_STR_LEN) :
    stringAt (slot :: rest) = slot.bytes := by
  rw [stringAt, if_pos h]

/-- A slot written keeps its string while slots are added. -/
theorem textAt_append {strings : List Slot}
    (hshort : ∀ slot ∈ strings, slot.bytes.length < MAX_STR_LEN) {i : ℕ}
    (hi : i < strings.length) (slot : Slot) :
    textAt (strings ++ [slot]) i = textAt strings i := by
  have hfirst := hshort strings[i] (List.getElem_mem hi)
  rw [textAt, textAt, List.getElem?_append_left hi, List.drop_append_of_le_length hi.le,
    List.drop_eq_getElem_cons hi, List.cons_append, stringAt_cons hfirst, stringAt_cons hfirst]

theorem textAt_new (strings : List Slot) (hbytes : bytes.length < MAX_STR_LEN) :
    textAt (strings ++ [⟨line, bytes⟩]) strings.length = ⟨some line, bytes⟩ := by
  simp [textAt, stringAt, hbytes]

/-- A copy that nothing points to yet. -/
theorem Shows.put (h : Shows cmd v) (line : ℕ) (hbytes : bytes.length < MAX_STR_LEN) :
    Shows { cmd with strings := cmd.strings ++ [⟨line, bytes⟩] } { v with used := v.used + 1 } where
  used := by simp [h.used]
  short slot hslot := by
    rcases List.mem_append.mp hslot with hslot | hslot
    · exact h.short slot hslot
    · rw [List.mem_singleton.mp hslot]
      exact hbytes
  name := by
    rw [← h.name]
    refine Option.map_congr fun i hi => ?_
    rw [textAt_append h.short (h.namePlace i hi)]
  namePlace i hi := by
    have hlt := h.namePlace i hi
    simp only [List.length_append]
    omega
  exec := by
    rw [← h.exec]
    exact Option.map_congr fun i hi => textAt_append h.short (h.paramPlace 0 i hi) _
  params n := by
    rw [← h.params]
    exact Option.map_congr fun i hi => textAt_append h.short (h.paramPlace _ i hi) _
  paramPlace n i hi := by
    have hlt := h.paramPlace n i hi
    simp only [List.length_append]
    omega
  nParams := h.nParams
  envs n := by
    rw [← h.envs]
    refine Option.map_congr fun p hp => ?_
    cases p with
    | slot i => exact textAt_append h.short (h.envPlace n i hp) _
    | inherited value => rfl
  envPlace n i hi := by
    have hlt := h.envPlace n i hi
    simp only [List.length_append]
    omega
  nEnvs := h.nEnvs

theorem Shows.setName (h : Shows cmd v) {i : ℕ} (hi : i < cmd.strings.length) :
    Shows { cmd with nParams := 1, name := some i }
      { v with name := some (textAt cmd.strings i).bytes, nParams := 1 } :=
  { h with
    name := rfl
    namePlace := fun j hj => by
      rw [← Option.some.inj hj]
      exact hi
    nParams := rfl }

theorem Shows.setExec (h : Shows cmd v) {i : ℕ} (hi : i < cmd.strings.length) :
    Shows { cmd with params := Function.update cmd.params 0 (some i) }
      { v with exec := some (textAt cmd.strings i) } :=
  { h with
    exec := by simp
    params := fun n => by simpa using h.params n
    paramPlace := fun n j hj => by
      by_cases hn : n = 0
      · subst hn
        simp only [Function.update_self, Option.some.injEq] at hj
        rwa [← hj]
      · simp only [Function.update_of_ne hn] at hj
        exact h.paramPlace n j hj }

theorem getElem?_write {xs : List Text} {n : ℕ} (hn : n ≤ xs.length) (x : Text) (m : ℕ) :
    (xs.take n ++ x :: xs.drop (n + 1))[m]? = if m = n then some x else xs[m]? := by
  rcases lt_trichotomy m n with hlt | rfl | hgt
  · rw [List.getElem?_append_left (by simp; omega), List.getElem?_take_of_lt hlt,
      if_neg hlt.ne]
  · rw [List.getElem?_append_right (by simp), if_pos rfl]
    simp [hn]
  · rw [List.getElem?_append_right (by simp; omega), if_neg hgt.ne']
    have hm : m - (xs.take n).length = (m - n - 1) + 1 := by
      simp only [List.length_take]
      omega
    rw [hm, List.getElem?_cons_succ, List.getElem?_drop]
    congr 1
    omega

theorem getElem?_concat (xs : List Text) (x : Text) (m : ℕ) :
    (xs ++ [x])[m]? = if m = xs.length then some x else xs[m]? := by
  have hwrite := getElem?_write (le_refl xs.length) x m
  rwa [List.take_length, List.drop_eq_nil_of_le (Nat.le_succ _)] at hwrite

/-- A parameter is written at a place after the program's. -/
theorem Shows.setParam (h : Shows cmd v) {i k : ℕ} (hi : i < cmd.strings.length)
    (hk : v.nParams = k + 1) (hle : k ≤ v.params.length) :
    Shows { cmd with
        params := Function.update cmd.params cmd.nParams (some i)
        nParams := cmd.nParams + 1 }
      { v with
        params := v.params.take (v.nParams - 1) ++ textAt cmd.strings i :: v.params.drop v.nParams
        nParams := v.nParams + 1 } :=
  have hcount : cmd.nParams = k + 1 := h.nParams.trans hk
  { h with
    exec := by simpa [hcount] using h.exec
    params := fun n => by
      rw [hk, Nat.add_sub_cancel, getElem?_write hle]
      by_cases hn : n = k
      · simp [hn, hcount]
      · simpa [hn, hcount] using h.params n
    paramPlace := fun n j hj => by
      by_cases hn : n = cmd.nParams
      · subst hn
        simp only [Function.update_self, Option.some.injEq] at hj
        rwa [← hj]
      · simp only [Function.update_of_ne hn] at hj
        exact h.paramPlace n j hj
    nParams := by simp [h.nParams] }

theorem Shows.setEnv (h : Shows cmd v) (pointer : EnvPointer)
    (hplace : ∀ i, pointer = .slot i → i < cmd.strings.length) :
    Shows { cmd with
        envs := Function.update cmd.envs cmd.nEnvs (some pointer)
        nEnvs := cmd.nEnvs + 1 }
      { v with envs := v.envs ++ [envText cmd.strings pointer] } :=
  { h with
    envs := fun n => by
      rw [getElem?_concat, ← h.nEnvs]
      by_cases hn : n = cmd.nEnvs
      · simp [hn]
      · simpa [hn] using h.envs n
    envPlace := fun n j hj => by
      by_cases hn : n = cmd.nEnvs
      · subst hn
        simp only [Function.update_self, Option.some.injEq] at hj
        exact hplace j hj
      · simp only [Function.update_of_ne hn] at hj
        exact h.envPlace n j hj
    nEnvs := by simp [h.nEnvs] }

/-- Either there is a slot left, or the count goes past the table. -/
theorem put_cases (cmd : RunnerCmd) (line : ℕ) (bytes : List UInt8) :
    (cmd.put line bytes = .error .overflow ∧ 128 < cmd.strings.length + 1) ∨
      cmd.put line bytes = .ok { cmd with strings := cmd.strings ++ [⟨line, bytes⟩] } ∧
        cmd.strings.length + 1 ≤ 128 := by
  unfold RunnerCmd.put MAX_ARGC
  split
  · exact .inr ⟨rfl, by omega⟩
  · exact .inl ⟨rfl, by omega⟩

end Putting

/-! ### The handler on views -/

/-- A step that shows `v` afterwards, unless it would take more slots than there are. -/
def Reaches (result : Except Stop RunnerCmd) (v : View) : Prop :=
  result = .error .overflow ∧ 128 < v.used ∨
    ∃ cmd, result = .ok cmd ∧ Shows cmd v ∧ v.used ≤ 128

section Handling

variable {cmd : RunnerCmd} {v : View} {l : Line}

theorem Short.value_take (h : Short l.1) : l.1.value.take MAX_STR_LEN = l.1.value :=
  List.take_of_length_le (h.value.le.trans (by decide))

theorem Short.sectionName_take (h : Short l.1) :
    l.1.sectionName.take MAX_STR_LEN = l.1.sectionName :=
  List.take_of_length_le (h.sectionName.le.trans (by decide))

theorem Short.binding_length (h : Short l.1) :
    (l.1.name ++ text "=" ++ l.1.value).length < MAX_STR_LEN - 1 := by
  have hname := h.name
  have hvalue := h.value
  have heq : (text "=").length = 1 := by decide
  simp only [List.length_append, MAX_STR_LEN, heq]
  omega

theorem Short.binding_eq (h : Short l.1) : binding l = l.1.name ++ text "=" ++ l.1.value :=
  List.take_of_length_le h.binding_length.le

theorem Short.value_lt (h : Short l.1) : l.1.value.length < MAX_STR_LEN :=
  h.value.trans (by decide)

theorem putExec_reaches (h : Shows cmd v) (hl : Short l.1) (hused : v.used ≤ 128) :
    Reaches (putExec cmd l) (v.addExec l) := by
  unfold putExec View.addExec isExec
  by_cases hexec : l.1.name = text "exec"
  · simp only [hexec, ↓reduceIte, decide_true, hl.value_take]
    rcases put_cases cmd l.2 l.1.value with ⟨hput, hlt⟩ | ⟨hput, hle⟩ <;> rw [hput]
    · exact .inl ⟨rfl, by rw [← h.used]; exact hlt⟩
    · refine .inr ⟨_, rfl, ?_, by rw [← h.used]; exact hle⟩
      have hshows := (h.put l.2 hl.value_lt).setExec (i := cmd.strings.length) (by simp)
      rwa [textAt_new cmd.strings hl.value_lt] at hshows
  · simp only [hexec, ↓reduceIte, decide_false, Bool.false_eq_true]
    exact .inr ⟨cmd, rfl, h, hused⟩

theorem putEntry_reaches (h : Shows cmd v) (hsound : v.Sound) (hl : Short l.1) :
    Reaches (putEntry cmd l) (v.addEntry l) := by
  unfold putEntry View.addEntry isParam
  by_cases hparam : l.1.name = text "param"
  · simp only [hparam, ↓reduceIte, decide_true, hl.value_take]
    rcases put_cases cmd l.2 l.1.value with ⟨hput, hlt⟩ | ⟨hput, hle⟩ <;> rw [hput]
    · exact .inl ⟨rfl, by rw [← h.used]; exact hlt⟩
    · refine .inr ⟨_, rfl, ?_, by rw [← h.used]; exact hle⟩
      obtain ⟨hpos, hlast⟩ := hsound
      have hshows := (h.put l.2 hl.value_lt).setParam (i := cmd.strings.length)
        (k := v.nParams - 1) (by simp) (by simp; omega) (by simp; omega)
      rwa [textAt_new cmd.strings hl.value_lt] at hshows
  · have hlength : (l.1.name ++ text "=" ++ l.1.value).length < MAX_STR_LEN :=
      hl.binding_length.trans (by decide)
    simp only [hparam, ↓reduceIte, decide_false, Bool.false_eq_true, hl.binding_eq]
    rcases put_cases cmd l.2 (l.1.name ++ text "=" ++ l.1.value) with ⟨hput, hlt⟩ | ⟨hput, hle⟩ <;>
      rw [hput]
    · exact .inl ⟨rfl, by rw [← h.used]; exact hlt⟩
    · refine .inr ⟨_, rfl, ?_, by rw [← h.used]; exact hle⟩
      have hshows := (h.put l.2 hlength).setEnv (.slot cmd.strings.length)
        (by simp)
      rwa [envText, textAt_new cmd.strings hlength] at hshows

theorem View.used_addExec (v : View) (l : Line) :
    (v.addExec l).used = v.used + if isExec l then 1 else 0 := by
  unfold View.addExec
  split <;> rfl

theorem View.used_addEntry (v : View) (l : Line) : (v.addEntry l).used = v.used + 1 := by
  unfold View.addEntry
  split <;> rfl

theorem View.used_add (v : View) (l : Line) :
    (v.add l).used = v.used + (if isExec l then 1 else 0) + 1 := by
  rw [View.add, View.used_addEntry, View.used_addExec]

/-- Both writes of an entry. -/
theorem putBoth_reaches (h : Shows cmd v) (hsound : v.Sound) (hl : Short l.1)
    (hused : v.used ≤ 128) :
    Reaches ((putExec cmd l).bind fun cmd => putEntry cmd l) (v.add l) := by
  rcases putExec_reaches h hl hused with ⟨hput, hlt⟩ | ⟨next, hput, hshows, -⟩ <;> rw [hput]
  · refine .inl ⟨rfl, ?_⟩
    rw [View.add, View.used_addEntry]
    omega
  · exact putEntry_reaches hshows (hsound.addExec l) hl

theorem Shows.isNamed (h : Shows cmd v) (sectionName : List UInt8) :
    cmd.isNamed sectionName = true ↔ v.name = some sectionName := by
  rw [← h.name, RunnerCmd.isNamed]
  cases cmd.name <;> simp

theorem Shows.exec_isSome (h : Shows cmd v) : (cmd.params 0).isSome = v.exec.isSome := by
  rw [← h.exec, Option.isSome_map]

/-! ### Launches -/

/-- What a new process is given. -/
def View.launch (environ : List (List UInt8)) (v : View) : Launch :=
  let argv := v.exec.toList ++ v.params
  let env := v.envs ++ (environ.map inheritedText).take (MAX_ARGC - v.envs.length)
  ⟨if argv.length < MAX_ARGC + 1 then some argv else none,
    if env.length < MAX_ARGC + 1 then some env else none⟩

theorem upToNull_eq {α : Type} {f : ℕ → Option α} {xs : List α} (h : ∀ n, f n = xs[n]?) (n : ℕ) :
    upToNull n f = if xs.length < n then some xs else none := by
  induction n generalizing f xs with
  | zero => rfl
  | succ n ih =>
    rw [upToNull, h 0]
    cases xs with
    | nil => simp
    | cons x xs =>
      have htail (i : ℕ) : f (i + 1) = xs[i]? := by rw [h, List.getElem?_cons_succ]
      have hrest := ih htail
      simp only [List.getElem?_cons_zero, hrest, List.length_cons, Nat.add_lt_add_iff_right]
      split <;> rfl

theorem inheritEnviron_shows (environ : List (List UInt8)) (h : Shows cmd v) :
    Shows (inheritEnviron environ cmd)
      { v with envs := v.envs ++ (environ.map inheritedText).take (MAX_ARGC - v.envs.length) } := by
  induction environ generalizing cmd v with
  | nil => simpa [inheritEnviron] using h
  | cons value environ ih =>
    rw [inheritEnviron]
    by_cases hroom : cmd.nEnvs < MAX_ARGC
    · rw [if_pos hroom]
      have hstep := ih (h.setEnv (.inherited value) (by simp))
      rw [h.nEnvs] at hroom
      have hleft : MAX_ARGC - v.envs.length = MAX_ARGC - (v.envs.length + 1) + 1 := by omega
      rw [hleft, List.map_cons, List.take_succ_cons]
      simpa [envText, inheritedText] using hstep
    · rw [if_neg hroom]
      rw [h.nEnvs] at hroom
      rw [Nat.sub_eq_zero_of_le (not_lt.mp hroom), List.take_zero, List.append_nil]
      exact h

theorem launch_eq {environ : List (List UInt8)} (h : Shows cmd v) (hexec : v.exec.isSome = true) :
    launch (inheritEnviron environ cmd) = v.launch environ := by
  have hshows := inheritEnviron_shows environ h
  obtain ⟨program, hprogram⟩ := Option.isSome_iff_exists.mp hexec
  have hargv : ∀ n, ((inheritEnviron environ cmd).params n).map
      (textAt (inheritEnviron environ cmd).strings) = (program :: v.params)[n]? := by
    intro n
    cases n with
    | zero => rw [hshows.exec, hprogram, List.getElem?_cons_zero]
    | succ n => rw [hshows.params, List.getElem?_cons_succ]
  rw [launch, View.launch, hprogram, upToNull_eq hargv, upToNull_eq hshows.envs]
  rfl

theorem executeCommand_cases (host : Host) {s : State} (h : Shows s.cmd v)
    (hexec : v.exec.isSome = true) :
    executeCommand host s = .error .assertion ∨
      executeCommand host s = .ok (⟨.zero, s.pids ++ [host.fork s.pids.length]⟩,
        [v.launch host.environ]) := by
  unfold executeCommand
  dsimp only
  rw [launch_eq h hexec]
  split_ifs
  · exact .inl rfl
  · exact .inl rfl
  · exact .inr rfl

/-! ### Entries and sections -/

/-- An ASSERT stops the program, the slots are used up, or `v` is shown after these launches. -/
def Leads (result : Except Stop (State × List Launch)) (v : View) (launched : List Launch) : Prop :=
  result = .error .assertion ∨ result = .error .overflow ∧ 128 < v.used ∨
    ∃ s, result = .ok (s, launched) ∧ Shows s.cmd v ∧ v.used ≤ 128

variable {host : Host} {s : State}

/-- The handler past its ASSERTs. -/
theorem iniHandle_bind {l : Line} (host : Host) (s : State)
    (hroom : s.cmd.strings.length < MAX_ARGC * 2 ∧ s.cmd.nParams ≤ MAX_ARGC ∧
      s.cmd.nEnvs ≤ MAX_ARGC) :
    iniHandle host s l = (enterSection host s l).bind fun r =>
      ((putExec r.1.cmd l).bind fun cmd => putEntry cmd l).map fun cmd =>
        ({ r.1 with cmd := cmd }, r.2) := by
  rw [iniHandle, if_pos hroom]
  cases enterSection host s l with
  | error e => rfl
  | ok r =>
    simp only [bind, Except.bind]
    cases putExec r.1.cmd l with
    | error e => rfl
    | ok cmd => cases hentry : putEntry cmd l <;> simp [hentry, Except.map]

theorem iniHandle_eq (host : Host) (s : State) (l : Line) :
    iniHandle host s l = .error .assertion ∨
      iniHandle host s l = (enterSection host s l).bind fun r =>
        ((putExec r.1.cmd l).bind fun cmd => putEntry cmd l).map fun cmd =>
          ({ r.1 with cmd := cmd }, r.2) := by
  by_cases hroom : s.cmd.strings.length < MAX_ARGC * 2 ∧ s.cmd.nParams ≤ MAX_ARGC ∧
      s.cmd.nEnvs ≤ MAX_ARGC
  · exact .inr (iniHandle_bind host s hroom)
  · exact .inl (by rw [iniHandle, if_neg hroom])

/-- What follows once the section is entered. -/
theorem leads_of_enter (next : State) {launched : List Launch}
    (henter : enterSection host s l = .ok (next, launched)) (h : Shows next.cmd v)
    (hsound : v.Sound) (hl : Short l.1) (hused : v.used ≤ 128) :
    Leads (iniHandle host s l) (v.add l) launched := by
  rcases iniHandle_eq host s l with hstop | heq
  · exact .inl hstop
  rw [heq, henter]
  rcases putBoth_reaches h hsound hl hused with ⟨hput, hlt⟩ | ⟨cmd, hput, hshows, hle⟩
  · refine .inr (.inl ⟨?_, hlt⟩)
    simp only [Except.bind] at hput ⊢
    rw [hput]
    rfl
  · refine .inr (.inr ⟨{ next with cmd := cmd }, ?_, hshows, hle⟩)
    simp only [Except.bind] at hput ⊢
    rw [hput]
    rfl

/-- An entry of the section at hand. -/
theorem iniHandle_within (host : Host) (h : Shows s.cmd v) (hsound : v.Sound) (hl : Short l.1)
    (hused : v.used ≤ 128) (hname : v.name = some l.1.sectionName) :
    Leads (iniHandle host s l) (v.add l) [] := by
  refine leads_of_enter _ ?_ h hsound hl hused
  rw [enterSection, if_pos ((h.isNamed _).mpr hname)]

/-- The first entry of a section, when there is nothing to execute. -/
theorem iniHandle_enter (host : Host) (h : Shows s.cmd v) (hl : Short l.1)
    (hname : v.name ≠ some l.1.sectionName) (hexec : v.exec = none) :
    Leads (iniHandle host s l) ((v.enter l.1.sectionName).add l) [] := by
  have hnamed : ¬ s.cmd.isNamed l.1.sectionName = true := fun hn => hname ((h.isNamed _).mp hn)
  have hnone : ¬ (s.cmd.params 0).isSome = true := by
    rw [h.exec_isSome, hexec]
    simp
  have hlength : l.1.sectionName.length < MAX_STR_LEN := hl.sectionName.trans (by decide)
  rcases put_cases s.cmd l.2 l.1.sectionName with ⟨hput, hlt⟩ | ⟨hput, hle⟩
  · have henter : enterSection host s l = .error .overflow := by
      rw [enterSection, if_neg hnamed, if_neg hnone, hl.sectionName_take]
      simp only [bind, Except.bind, hput]
    rcases iniHandle_eq host s l with hstop | heq
    · exact .inl hstop
    · refine .inr (.inl ⟨by rw [heq, henter]; rfl, ?_⟩)
      have hused : (v.enter l.1.sectionName).used = s.cmd.strings.length + 1 := by
        rw [h.used]
        rfl
      rw [View.used_add]
      omega
  · have hshows := (h.put l.2 hlength).setName (i := s.cmd.strings.length) (by simp)
    rw [textAt_new s.cmd.strings hlength] at hshows
    refine leads_of_enter (⟨{ s.cmd with
        strings := s.cmd.strings ++ [⟨l.2, l.1.sectionName⟩]
        nParams := 1
        name := some s.cmd.strings.length }, s.pids⟩) ?_ hshows
      ⟨le_refl 1, Nat.le_add_left 1 _⟩ hl ?_
    · rw [enterSection, if_neg hnamed, if_neg hnone, hl.sectionName_take]
      simp only [bind, Except.bind, hput]
    · rw [View.enter, ← h.used]
      exact hle

/-- The first entry of a section, when there is a command to execute. -/
theorem iniHandle_launch (host : Host) (h : Shows s.cmd v) (hname : v.name ≠ some l.1.sectionName)
    (hexec : v.exec.isSome = true) :
    iniHandle host s l = .error .assertion ∨ ∃ next, Shows next.cmd .blank ∧
      (iniHandle host s l = (iniHandle host next l).map fun r =>
        (r.1, v.launch host.environ :: r.2)) := by
  have hnamed : ¬ s.cmd.isNamed l.1.sectionName = true := fun hn => hname ((h.isNamed _).mp hn)
  have hsome : (s.cmd.params 0).isSome = true := by rw [h.exec_isSome, hexec]
  rcases iniHandle_eq host s l with hstop | heq
  · exact .inl hstop
  rcases executeCommand_cases host h hexec with hrun | hrun
  · left
    rw [heq, enterSection, if_neg hnamed, if_pos hsome]
    simp only [bind, Except.bind, hrun]
  · right
    have hroom : RunnerCmd.zero.strings.length < MAX_ARGC * 2 ∧ RunnerCmd.zero.nParams ≤ MAX_ARGC ∧
        RunnerCmd.zero.nEnvs ≤ MAX_ARGC := by decide
    have henter : enterSection host s l =
        (enterSection host ⟨.zero, s.pids ++ [host.fork s.pids.length]⟩ l).map fun r =>
          (r.1, v.launch host.environ :: r.2) := by
      rw [enterSection, if_neg hnamed, if_pos hsome, enterSection]
      simp only [bind, Except.bind, hrun]
      cases RunnerCmd.zero.put l.2 (l.1.sectionName.take MAX_STR_LEN) <;>
        simp [RunnerCmd.isNamed, RunnerCmd.zero, Except.map]
    refine ⟨⟨.zero, s.pids ++ [host.fork s.pids.length]⟩, shows_zero, ?_⟩
    rw [heq, iniHandle_bind host _ hroom, henter]
    cases enterSection host ⟨.zero, s.pids ++ [host.fork s.pids.length]⟩ l with
    | error e => rfl
    | ok r =>
      simp only [Except.bind, Except.map]
      cases putExec r.1.cmd l with
      | error e => rfl
      | ok cmd => cases hentry : putEntry cmd l <;> simp [hentry]

theorem Leads.bind {result : Except Stop (State × List Launch)} {v' : View}
    {launched launched' : List Launch} {f : State → Except Stop (State × List Launch)}
    (h : Leads result v launched)
    (hf : ∀ s, Shows s.cmd v → v.used ≤ 128 → Leads (f s) v' launched')
    (hmono : v.used ≤ v'.used) :
    Leads (result.bind fun r => (f r.1).map fun r' => (r'.1, r.2 ++ r'.2)) v'
      (launched ++ launched') := by
  rcases h with rfl | ⟨rfl, hlt⟩ | ⟨s, rfl, hshows, hle⟩
  · exact .inl rfl
  · exact .inr (.inl ⟨rfl, hlt.trans_le hmono⟩)
  · simp only [Except.bind]
    rcases hf s hshows hle with hstop | ⟨hstop, hlt⟩ | ⟨s', hrun, hrest⟩
    · exact .inl (by rw [hstop]; rfl)
    · exact .inr (.inl ⟨by rw [hstop]; rfl, hlt⟩)
    · exact .inr (.inr ⟨s', by rw [hrun]; rfl, hrest⟩)

theorem View.name_add (v : View) (l : Line) : (v.add l).name = v.name := by
  unfold View.add View.addEntry View.addExec
  split <;> split <;> rfl

theorem View.used_foldl (v : View) (ls : List Line) : v.used ≤ (ls.foldl View.add v).used := by
  induction ls generalizing v with
  | nil => exact le_refl _
  | cons l ls ih =>
    have hadd := v.used_add l
    have hrest := ih (v.add l)
    rw [List.foldl_cons]
    omega

/-- Entries of the section at hand. -/
theorem run_within {ls : List Line} {sectionName : List UInt8} (h : Shows s.cmd v)
    (hsound : v.Sound) (hused : v.used ≤ 128) (hname : v.name = some sectionName)
    (hsame : ∀ l ∈ ls, l.1.sectionName = sectionName) (hshort : ∀ l ∈ ls, Short l.1) :
    Leads (runAll (iniHandle host) s ls) (ls.foldl View.add v) [] := by
  induction ls generalizing s v with
  | nil => exact .inr (.inr ⟨s, rfl, h, hused⟩)
  | cons l ls ih =>
    have hl := hsame l List.mem_cons_self
    rw [runAll_cons]
    have hfirst := iniHandle_within host h hsound (hshort l List.mem_cons_self) hused
      (by rw [hname, hl])
    refine hfirst.bind (fun s' hshows hle => ih hshows (hsound.add l) hle ?_ ?_ ?_)
      ((v.add l).used_foldl ls)
    · rw [View.name_add, hname]
    · exact fun l' hl' => hsame l' (List.mem_cons_of_mem l hl')
    · exact fun l' hl' => hshort l' (List.mem_cons_of_mem l hl')

/-- A whole section, when there is nothing to execute. -/
theorem run_section (host : Host) {ls : List Line} (h : Shows s.cmd v) (hexec : v.exec = none)
    (hname : v.name ≠ some l.1.sectionName)
    (hsame : ∀ l' ∈ ls, l'.1.sectionName = l.1.sectionName)
    (hshort : ∀ l' ∈ l :: ls, Short l'.1) :
    Leads (runAll (iniHandle host) s (l :: ls))
      ((l :: ls).foldl View.add (v.enter l.1.sectionName)) [] := by
  rw [runAll_cons, List.foldl_cons]
  have hfirst := iniHandle_enter host h (hshort l List.mem_cons_self) hname hexec
  refine hfirst.bind (fun s' hshows hle => run_within hshows ?_ hle ?_ hsame ?_)
    (View.used_foldl _ ls)
  · exact View.Sound.add ⟨le_refl 1, Nat.le_add_left 1 _⟩ l
  · rw [View.name_add]
    rfl
  · exact fun l' hl' => hshort l' (List.mem_cons_of_mem l hl')

end Handling

end RunnerViews
