import Mathlib.Algebra.BigOperators.Group.List.Basic
import Mathlib.Data.List.SplitBy
import TunnelPublishers.RunnerViews

/-!
# Whether each service gets its own configuration

The command is cleared only when it is executed. What a section without exec has
gathered is still there when the next service is launched: its variables, and its
parameters as far as they reach beyond the service's own.
-/
namespace RunnerSections

open ByteOrder ExecutionTraces RunnerConfig RunnerViews

/-! ### What a section asks for -/

/-- The last exec entry counts. -/
def program (S : List Line) : Option Text := ((S.filter isExec).getLast?).map valueText

def parameters (S : List Line) : List Text := (S.filter isParam).map valueText

def bindings (S : List Line) : List Text := (S.filter fun l => !isParam l).map bindingText

/-- The launch of a service from its own section and the runner's environment, if any. -/
def ownLaunch (environ : List (List UInt8)) (S : List Line) : Option Launch :=
  (program S).map fun program =>
    ⟨some (program :: parameters S),
      some (bindings S ++ (environ.map inheritedText).take (MAX_ARGC - (bindings S).length))⟩

/-- Maximal runs of entries with one section name. -/
def sections (lines : List Line) : List (List Line) :=
  lines.splitBy fun a b => decide (a.1.sectionName = b.1.sectionName)

/-- The string slots that a section takes, an exec entry taking two. -/
def slots (S : List Line) : ℕ := 1 + (S.map fun l => if isExec l then 2 else 1).sum

/-- No section without exec leaves anything to the next service. `pending` are the sections since
the last launch. -/
def Clean : List (List Line) → List (List Line) → Prop
  | pending, [] => (pending.map slots).sum ≤ 128
  | pending, S :: rest =>
    if (program S).isSome then
      (∀ T ∈ pending, bindings T = [] ∧ (parameters T).length ≤ (parameters S).length) ∧
        ((pending ++ [S]).map slots).sum ≤ 128 ∧ Clean [] rest
    else Clean (pending ++ [S]) rest

instance Clean.decide : ∀ pending secs, Decidable (Clean pending secs)
  | pending, [] => inferInstanceAs (Decidable ((pending.map slots).sum ≤ 128))
  | pending, S :: rest =>
    have : Decidable (Clean [] rest) := Clean.decide [] rest
    have : Decidable (Clean (pending ++ [S]) rest) := Clean.decide (pending ++ [S]) rest
    inferInstanceAs (Decidable (if (program S).isSome then
      (∀ T ∈ pending, bindings T = [] ∧ (parameters T).length ≤ (parameters S).length) ∧
        ((pending ++ [S]).map slots).sum ≤ 128 ∧ Clean [] rest
      else Clean (pending ++ [S]) rest))

/-! ### What sections gather -/

section Gathering

variable {S : List Line} {v : View}

theorem program_concat (S : List Line) (l : Line) :
    program (S ++ [l]) = if isExec l then some (valueText l) else program S := by
  by_cases h : isExec l <;> simp [program, List.filter_append, h]

theorem parameters_concat (S : List Line) (l : Line) :
    parameters (S ++ [l]) = if isParam l then parameters S ++ [valueText l] else parameters S := by
  by_cases h : isParam l <;> simp [parameters, List.filter_append, h]

theorem bindings_concat (S : List Line) (l : Line) :
    bindings (S ++ [l]) = if isParam l then bindings S else bindings S ++ [bindingText l] := by
  by_cases h : isParam l <;> simp [bindings, List.filter_append, h]

/-- After its entries, a section's own things stand in front of the parameters and behind the
variables that were there before. -/
theorem foldl_add (hcount : v.nParams = 1) (S : List Line) :
    S.foldl View.add v = ⟨v.name, (program S).or v.exec,
      parameters S ++ v.params.drop (parameters S).length, (parameters S).length + 1,
      v.envs ++ bindings S, v.used + (S.map fun l => if isExec l then 2 else 1).sum⟩ := by
  induction S using List.reverseRecOn with
  | nil => simp [program, parameters, bindings, ← hcount]
  | append_singleton S l ih =>
    rw [List.foldl_append, ih, List.foldl_cons, List.foldl_nil, program_concat, parameters_concat,
      bindings_concat, List.map_append, List.sum_append]
    by_cases hparam : isParam l
    · have hexec : isExec l = false := by
        by_contra h
        rw [not_isParam_of_isExec (by simpa using h)] at hparam
        cases hparam
      have hdrop : (parameters S ++ v.params.drop (parameters S).length).drop
          ((parameters S).length + 1) = v.params.drop ((parameters S).length + 1) := by
        rw [List.drop_append, List.drop_of_length_le (Nat.le_succ _), List.drop_drop]
        simp
      simp [View.add, View.addExec, View.addEntry, hparam, hexec, hdrop, Nat.add_assoc]
    · by_cases hexec : isExec l
      · simp [View.add, View.addExec, View.addEntry, hparam, hexec, Nat.add_assoc]
      · simp [View.add, View.addExec, View.addEntry, hparam, hexec, Nat.add_assoc]

def sectionOf : List Line → List UInt8
  | [] => []
  | l :: _ => l.1.sectionName

/-- What sections without a launch in between leave in the command. -/
def gathered (pending : List (List Line)) : View :=
  pending.foldl (fun v S => S.foldl View.add (v.enter (sectionOf S))) .blank

theorem gathered_concat (pending : List (List Line)) (S : List Line) :
    gathered (pending ++ [S]) =
      ⟨some (sectionOf S), (program S).or (gathered pending).exec,
        parameters S ++ (gathered pending).params.drop (parameters S).length,
        (parameters S).length + 1, (gathered pending).envs ++ bindings S,
        (gathered pending).used + slots S⟩ := by
  have hlast : gathered (pending ++ [S]) =
      S.foldl View.add ((gathered pending).enter (sectionOf S)) := by
    rw [gathered, List.foldl_append]
    rfl
  rw [hlast, foldl_add rfl, slots, ← Nat.add_assoc]
  rfl

theorem gathered_used (pending : List (List Line)) :
    (gathered pending).used = (pending.map slots).sum := by
  induction pending using List.reverseRecOn with
  | nil => rfl
  | append_singleton pending S ih => simp [gathered_concat, ih]

theorem gathered_envs (pending : List (List Line)) :
    (gathered pending).envs = pending.flatMap bindings := by
  induction pending using List.reverseRecOn with
  | nil => rfl
  | append_singleton pending S ih => simp [gathered_concat, ih]

theorem gathered_exec {pending : List (List Line)} (h : ∀ T ∈ pending, program T = none) :
    (gathered pending).exec = none := by
  induction pending using List.reverseRecOn with
  | nil => rfl
  | append_singleton pending S ih =>
    rw [gathered_concat]
    simp [h S (by simp), ih fun T hT => h T (List.mem_append_left _ hT)]

/-- As many parameters are left as the longest section has. -/
theorem gathered_params_le {pending : List (List Line)} {n : ℕ} :
    (gathered pending).params.length ≤ n ↔ ∀ T ∈ pending, (parameters T).length ≤ n := by
  induction pending using List.reverseRecOn with
  | nil => simp [gathered, View.blank]
  | append_singleton pending S ih =>
    rw [gathered_concat]
    simp only [List.length_append, List.length_drop, List.mem_append, List.mem_singleton]
    constructor
    · rintro h T (hT | rfl)
      · exact ih.mp (by omega) T hT
      · omega
    · intro h
      have hpast := ih.mpr fun T hT => h T (.inl hT)
      have hlast := h S (.inr rfl)
      omega

end Gathering

/-! ### Launches -/

section Launching

variable {environ : List (List UInt8)} {pending : List (List Line)} {S : List Line}

/-- Entries tell where a variable comes from, so nothing of another section can stand for a
section's own variable or for an inherited one. -/
theorem bindings_first {extra own inherited : List Text} {room left : ℕ}
    (hextra : ∀ t ∈ extra, ∃ n, t.line = some n ∧ ∀ t' ∈ own, t'.line ≠ some n)
    (hinherited : ∀ t ∈ inherited, t.line = none)
    (h : extra ++ own ++ inherited.take room = own ++ inherited.take left) : extra = [] := by
  cases extra with
  | nil => rfl
  | cons t extra =>
    obtain ⟨n, hline, hother⟩ := hextra t List.mem_cons_self
    have hmem : t ∈ own ++ inherited.take left := by
      rw [← h]
      simp
    rcases List.mem_append.mp hmem with hown | htake
    · exact (hother t hown hline).elim
    · rw [hinherited t (List.mem_of_mem_take htake)] at hline
      cases hline

/-- The launch after some sections without exec is the service's own if and only if they leave
nothing behind. -/
theorem launch_own_iff (environ : List (List UInt8)) {first : Text}
    (hprogram : program S = some first) (hopen : ∀ T ∈ pending, program T = none)
    (hbound : ∀ T ∈ pending ++ [S], (parameters T).length ≤ 60 ∧ (bindings T).length ≤ 30)
    (hlines : ((pending ++ [S]).flatten.map Prod.snd).Nodup) :
    some ((gathered (pending ++ [S])).launch environ) = ownLaunch environ S ↔
      ∀ T ∈ pending, bindings T = [] ∧ (parameters T).length ≤ (parameters S).length := by
  obtain ⟨hparams, hbindings⟩ := hbound S (by simp)
  have hinherited : ∀ t ∈ environ.map inheritedText, t.line = none := by
    intro t ht
    obtain ⟨value, -, rfl⟩ := List.mem_map.mp ht
    rfl
  -- A variable of an earlier section names an entry that is none of this section's.
  have hextra : ∀ t ∈ pending.flatMap bindings,
      ∃ n, t.line = some n ∧ ∀ t' ∈ bindings S, t'.line ≠ some n := by
    intro t ht
    obtain ⟨T, hT, ht⟩ := List.mem_flatMap.mp ht
    obtain ⟨l, hl, rfl⟩ := List.mem_map.mp ht
    refine ⟨l.2, rfl, ?_⟩
    rintro t' ht' hsame
    obtain ⟨l', hl', rfl⟩ := List.mem_map.mp ht'
    rw [List.flatten_append, List.map_append, List.nodup_append] at hlines
    refine hlines.2.2 l.2 ?_ l'.2 ?_ (Option.some.inj hsame).symm
    · exact List.mem_map.mpr ⟨l, List.mem_flatten.mpr ⟨T, hT, (List.mem_filter.mp hl).1⟩, rfl⟩
    · exact List.mem_map.mpr ⟨l', by simpa using (List.mem_filter.mp hl').1, rfl⟩
  have hleft : (gathered pending).params.length ≤ 60 :=
    gathered_params_le.mpr fun T hT => (hbound T (by simp [hT])).1
  have hargv : (first :: (parameters S ++
      (gathered pending).params.drop (parameters S).length)).length < MAX_ARGC + 1 := by
    simp only [List.length_cons, List.length_append, List.length_drop, MAX_ARGC]
    omega
  have hdrop : (gathered pending).params.drop (parameters S).length = [] ↔
      ∀ T ∈ pending, (parameters T).length ≤ (parameters S).length := by
    rw [List.drop_eq_nil_iff, gathered_params_le]
  rw [ownLaunch, gathered_concat, View.launch, gathered_exec hopen, gathered_envs, hprogram]
  simp only [Option.map_some, Option.some_or, Option.toList_some, List.singleton_append, hargv,
    ↓reduceIte, Option.some.injEq, Launch.mk.injEq, List.cons.injEq, true_and,
    List.append_right_eq_self]
  constructor
  · rintro ⟨hnone, henv⟩ T hT
    refine ⟨?_, hdrop.mp hnone T hT⟩
    split at henv
    · have hnil := bindings_first hextra hinherited (Option.some.inj henv)
      exact List.flatMap_eq_nil_iff.mp hnil T hT
    · cases henv
  · intro h
    refine ⟨hdrop.mpr fun T hT => (h T hT).2, ?_⟩
    have hnil : pending.flatMap bindings = [] :=
      List.flatMap_eq_nil_iff.mpr fun T hT => (h T hT).1
    rw [hnil, List.nil_append, if_pos]
    simp only [List.length_append, List.length_take, List.length_map, MAX_ARGC]
    omega

end Launching

/-! ### Runs -/

/-- The end of the file executes what is left. -/
def finish (host : Host) (r : State × List Launch) : Except Stop (State × List Launch) :=
  if (r.1.cmd.params 0).isSome then
    (executeCommand host r.1).map fun r' => (r'.1, r.2 ++ r'.2)
  else .ok r

/-- From some point of the file on. -/
def rest (host : Host) (s : State) (lines : List Line) : Except Stop (State × List Launch) :=
  (runAll (iniHandle host) s lines).bind (finish host)

theorem load_eq (host : Host) (file : List Entry) :
    load host file = rest host ⟨.zero, []⟩ file.zipIdx := by
  unfold load rest finish
  cases runAll (iniHandle host) ⟨.zero, []⟩ file.zipIdx with
  | error e => rfl
  | ok r =>
    simp only [bind, Except.bind]
    split
    · cases executeCommand host r.1 <;> rfl
    · rfl

/-- Sections as they are cut from a file: not empty, of one name each, next to other names, and
with short strings. -/
structure Sectioned (secs : List (List Line)) : Prop where
  nonempty : ∀ S ∈ secs, S ≠ []
  same : ∀ S ∈ secs, ∀ l ∈ S, l.1.sectionName = sectionOf S
  chain : secs.IsChain fun S T => sectionOf S ≠ sectionOf T
  short : ∀ S ∈ secs, ∀ l ∈ S, Short l.1

theorem Sectioned.tail {S : List Line} {secs : List (List Line)} (h : Sectioned (S :: secs)) :
    Sectioned secs where
  nonempty T hT := h.nonempty T (List.mem_cons_of_mem S hT)
  same T hT := h.same T (List.mem_cons_of_mem S hT)
  chain := h.chain.tail
  short T hT := h.short T (List.mem_cons_of_mem S hT)

theorem sectioned_sections {lines : List Line} (hshort : ∀ l ∈ lines, Short l.1) :
    Sectioned (sections lines) := by
  have hsame : ∀ S ∈ sections lines, ∀ l ∈ S, l.1.sectionName = sectionOf S := by
    intro S hS
    have hchain := List.isChain_of_mem_splitBy hS
    cases S with
    | nil => simp
    | cons first S =>
      have htrans : ((first :: S).map fun l => l.1.sectionName).IsChain (· = ·) := by
        rw [List.isChain_map]
        simpa using hchain
      have hpair := List.isChain_iff_pairwise.mp htrans
      intro l hl
      rcases List.mem_cons.mp hl with rfl | hl
      · rfl
      · rw [List.map_cons, List.pairwise_cons] at hpair
        exact (hpair.1 _ (List.mem_map.mpr ⟨l, hl, rfl⟩)).symm
  refine ⟨fun S hS => List.ne_nil_of_mem_splitBy hS, hsame, ?_, ?_⟩
  · have hcut := List.isChain_getLast_head_splitBy
      (fun a b : Line => decide (a.1.sectionName = b.1.sectionName)) lines
    refine hcut.imp_of_mem_imp fun S T hS hT hdiffer => ?_
    obtain ⟨hS', hT', hne⟩ := hdiffer
    rw [decide_eq_false_iff_not, hsame S hS _ (List.getLast_mem hS'),
      hsame T hT _ (List.head_mem hT')] at hne
    exact hne
  · intro S hS l hl
    refine hshort l ?_
    rw [← List.flatten_splitBy (fun a b => decide (a.1.sectionName = b.1.sectionName)) lines]
    exact List.mem_flatten.mpr ⟨S, hS, hl⟩

variable {host : Host}

/-- After a section with exec, its command is executed and the rest starts from nothing. -/
theorem rest_launch {s : State} {v : View} (h : Shows s.cmd v) (hexec : v.exec.isSome = true)
    {secs : List (List Line)} (hne : ∀ S ∈ secs, S ≠ [])
    (hname : ∀ S ∈ secs.head?, v.name ≠ some (sectionOf S)) :
    rest host s secs.flatten = .error .assertion ∨
      ∃ next, Shows next.cmd .blank ∧ rest host s secs.flatten =
        (rest host next secs.flatten).map fun r => (r.1, v.launch host.environ :: r.2) := by
  cases secs with
  | nil =>
    have hsome : (s.cmd.params 0).isSome = true := by rw [h.exec_isSome, hexec]
    have hfinish : rest host s [] = (executeCommand host s).map fun r => (r.1, [] ++ r.2) := by
      simp only [rest, runAll, Except.bind, finish, hsome, ↓reduceIte]
    rw [List.flatten_nil, hfinish]
    rcases executeCommand_cases host h hexec with hrun | hrun
    · exact .inl (by rw [hrun]; rfl)
    · right
      refine ⟨⟨.zero, s.pids ++ [host.fork s.pids.length]⟩, shows_zero, ?_⟩
      rw [hrun]
      rfl
  | cons S secs =>
    obtain ⟨l, ls, rfl⟩ := List.exists_cons_of_ne_nil (hne S List.mem_cons_self)
    rw [List.flatten_cons, List.cons_append, rest, runAll_cons]
    rcases iniHandle_launch host h (hname (l :: ls) rfl) hexec with hrun | ⟨next, hnext, hrun⟩
    · exact .inl (by rw [hrun]; rfl)
    · refine .inr ⟨next, hnext, ?_⟩
      rw [hrun, rest, runAll_cons]
      cases iniHandle host next l with
      | error e => rfl
      | ok r =>
        simp only [Except.bind, Except.map]
        cases runAll (iniHandle host) r.1 (ls ++ secs.flatten) with
        | error e => rfl
        | ok r' =>
          simp only [finish]
          split
          · cases executeCommand host r'.1 <;> simp [Except.map]
          · rfl

theorem rest_append_error {s : State} {a : List Line} {e : Stop}
    (h : runAll (iniHandle host) s a = .error e) (b : List Line) :
    rest host s (a ++ b) = .error e := by
  rw [rest, runAll_append, h]
  rfl

theorem rest_append_ok {s s' : State} {a : List Line}
    (h : runAll (iniHandle host) s a = .ok (s', [])) (b : List Line) :
    rest host s (a ++ b) = rest host s' b := by
  rw [rest, runAll_append, h, rest]
  simp only [Except.bind]
  cases runAll (iniHandle host) s' b <;> rfl

/-- Sections that are clean fit in the slots. -/
theorem Clean.fits {pending secs : List (List Line)} (h : Clean pending secs) :
    (pending.map slots).sum ≤ 128 := by
  induction secs generalizing pending with
  | nil => exact h
  | cons S secs ih =>
    have hnext : ((pending ++ [S]).map slots).sum ≤ 128 := by
      rw [Clean] at h
      split at h
      · exact h.2.1
      · exact ih h
    rw [List.map_append, List.sum_append] at hnext
    omega

theorem Clean.fits_head {pending secs : List (List Line)} {S : List Line}
    (h : Clean pending (S :: secs)) : ((pending ++ [S]).map slots).sum ≤ 128 := by
  rw [Clean] at h
  split at h
  · exact h.2.1
  · exact h.fits

/-- A launch and the ones after it are as they should be. -/
theorem map_launch_eq_ok {r : Except Stop (State × List Launch)} {launch own : Launch}
    {launches : List Launch} :
    (∃ s', (r.map fun r => (r.1, launch :: r.2)) = .ok (s', own :: launches)) ↔
      launch = own ∧ ∃ s', r = .ok (s', launches) := by
  cases r with
  | error e => simp [Except.map]
  | ok r =>
    obtain ⟨s, launched⟩ := r
    simp only [Except.map, Except.ok.injEq, Prod.mk.injEq, List.cons.injEq]
    constructor
    · rintro ⟨s', rfl, hfirst, hrest⟩
      exact ⟨hfirst, s, rfl, hrest⟩
    · rintro ⟨hfirst, s', rfl, hrest⟩
      exact ⟨s, rfl, hfirst, hrest⟩

/-- One whole section is gathered behind those that are pending. -/
theorem section_leads (host : Host) {pending secs : List (List Line)} {S : List Line} {s : State}
    (h : Shows s.cmd (gathered pending)) (hopen : ∀ T ∈ pending, program T = none)
    (hsecs : Sectioned (S :: secs)) (hname : (gathered pending).name ≠ some (sectionOf S)) :
    Leads (runAll (iniHandle host) s S) (gathered (pending ++ [S])) [] := by
  obtain ⟨l, ls, rfl⟩ := List.exists_cons_of_ne_nil (hsecs.nonempty S List.mem_cons_self)
  have hsame := hsecs.same (l :: ls) List.mem_cons_self
  have hleads := run_section host h (gathered_exec hopen) hname
    (fun l' hl' => hsame l' (List.mem_cons_of_mem l hl')) (hsecs.short (l :: ls) List.mem_cons_self)
  rw [gathered, List.foldl_append]
  exact hleads

/-- The next section has another name than the one just gathered. -/
theorem Sectioned.next_name {secs : List (List Line)} {S : List Line}
    (hsecs : Sectioned (S :: secs)) (pending : List (List Line)) :
    ∀ T ∈ secs.head?, (gathered (pending ++ [S])).name ≠ some (sectionOf T) := by
  obtain ⟨l, ls, rfl⟩ := List.exists_cons_of_ne_nil (hsecs.nonempty S List.mem_cons_self)
  intro T hT
  rw [gathered_concat]
  intro he
  exact (List.isChain_cons.mp hsecs.chain).1 T hT (Option.some.inj he)

/-- From a point between two sections, unless an ASSERT stops the program: the services still to
come are launched with their own configuration if and only if the sections are clean. -/
theorem rest_iff (secs : List (List Line)) {pending : List (List Line)} {s : State}
    (h : Shows s.cmd (gathered pending)) (hused : (gathered pending).used ≤ 128)
    (hopen : ∀ T ∈ pending, program T = none) (hsecs : Sectioned secs)
    (hname : ∀ S ∈ secs.head?, (gathered pending).name ≠ some (sectionOf S))
    (hbound : ∀ S ∈ pending ++ secs, (parameters S).length ≤ 60 ∧ (bindings S).length ≤ 30)
    (hlines : ((pending ++ secs).flatten.map Prod.snd).Nodup)
    (hrun : rest host s secs.flatten ≠ .error .assertion) :
    (∃ s', rest host s secs.flatten = .ok (s', secs.filterMap (ownLaunch host.environ))) ↔
      Clean pending secs := by
  induction secs generalizing pending s with
  | nil =>
    have hnone : (s.cmd.params 0).isSome = false := by
      rw [h.exec_isSome, gathered_exec hopen]
      rfl
    have hok : rest host s [] = .ok (s, []) := by
      simp [rest, runAll, Except.bind, finish, hnone]
    rw [Clean, ← gathered_used]
    exact ⟨fun _ => hused, fun _ => ⟨s, hok⟩⟩
  | cons S secs ih =>
    have hsection := section_leads host h hopen hsecs (hname S rfl)
    have hnext := hsecs.next_name pending
    obtain ⟨l, ls, rfl⟩ := List.exists_cons_of_ne_nil (hsecs.nonempty S List.mem_cons_self)
    rw [List.flatten_cons] at hrun ⊢
    rcases hsection with hstop | ⟨hstop, hlt⟩ | ⟨s₁, hok, hshows, hle⟩
    · exact (hrun (rest_append_error hstop _)).elim
    · -- The slots are used up.
      rw [rest_append_error hstop]
      constructor
      · rintro ⟨s', hs'⟩
        cases hs'
      · intro hclean
        have hfits := hclean.fits_head
        rw [← gathered_used] at hfits
        omega
    rw [rest_append_ok hok] at hrun ⊢
    have hflat : (pending ++ [l :: ls]) ++ secs = pending ++ (l :: ls) :: secs := by simp
    rw [Clean]
    cases hprogram : program (l :: ls) with
    | none =>
      -- Another section to wait with.
      have hown : ownLaunch host.environ (l :: ls) = none := by
        rw [ownLaunch, hprogram]
        rfl
      rw [List.filterMap_cons_none hown]
      refine ih hshows hle ?_ hsecs.tail hnext (by rwa [hflat]) (by rwa [hflat]) hrun
      intro T hT
      rcases List.mem_append.mp hT with hT | hT
      · exact hopen T hT
      · rw [List.mem_singleton.mp hT, hprogram]
    | some first =>
      -- The service is launched when the next section begins, or at the end.
      have hexec : (gathered (pending ++ [l :: ls])).exec.isSome = true := by
        rw [gathered_concat, hprogram]
        rfl
      rcases rest_launch hshows hexec hsecs.tail.nonempty hnext with hstop | ⟨next, hblank, hlaunch⟩
      · exact (hrun hstop).elim
      have hrest : rest host next secs.flatten ≠ .error .assertion := by
        intro hstop
        rw [hlaunch, hstop] at hrun
        exact hrun rfl
      rw [← hflat, List.flatten_append, List.map_append] at hlines
      have hiff := @ih [] _ hblank (Nat.zero_le 128) (by simp) hsecs.tail
        (by simp [gathered, View.blank])
        (fun T hT => hbound T (List.mem_append_right _ (List.mem_cons_of_mem _ hT)))
        hlines.of_append_right hrest
      have hmine := launch_own_iff host.environ hprogram hopen
        (fun T hT => hbound T (hflat ▸ List.mem_append_left secs hT)) hlines.of_append_left
      obtain ⟨own, hown⟩ : ∃ own, ownLaunch host.environ (l :: ls) = some own := by
        rw [ownLaunch, hprogram]
        exact ⟨_, rfl⟩
      rw [hown, Option.some.injEq] at hmine
      rw [List.filterMap_cons_some hown, hlaunch, map_launch_eq_ok, hmine, hiff, ← gathered_used]
      exact ⟨fun h => ⟨h.1, hle, h.2⟩, fun h => ⟨h.1, h.2.2⟩⟩

/-- For a file of short strings with at most 60 parameters and 30 other entries in a section,
unless an ASSERT stops the program: one process is launched for each section with exec, in file
order, with exactly the section's own arguments and variables and the inherited ones that fit, if
and only if the sections are clean. -/
theorem services_own_configuration_iff {host : Host} {file : List Entry}
    (hshort : ∀ e ∈ file, Short e)
    (hbound : ∀ S ∈ sections file.zipIdx, (parameters S).length ≤ 60 ∧ (bindings S).length ≤ 30)
    (hrun : load host file ≠ .error .assertion) :
    (∃ s, load host file =
        .ok (s, (sections file.zipIdx).filterMap (ownLaunch host.environ))) ↔
      Clean [] (sections file.zipIdx) := by
  have hlines : (sections file.zipIdx).flatten = file.zipIdx := List.flatten_splitBy _ _
  have hshort' : ∀ l ∈ file.zipIdx, Short l.1 := fun l hl =>
    hshort l.1 (List.fst_mem_of_mem_zipIdx hl)
  rw [load_eq] at hrun ⊢
  have hiff := @rest_iff host (sections file.zipIdx) [] ⟨.zero, []⟩
    shows_zero (Nat.zero_le 128) (by simp) (sectioned_sections hshort')
    (by simp [gathered, View.blank]) hbound
  rw [List.nil_append, hlines, List.zipIdx_map_snd] at hiff
  exact hiff List.nodup_range' hrun

/-- Two services, the second with a section in front of it that has no exec. -/
def services (between : List Entry) : List Entry :=
  [⟨text "a", text "exec", text "/a"⟩, ⟨text "a", text "param", text "x"⟩] ++ between ++
    [⟨text "c", text "exec", text "/c"⟩, ⟨text "c", text "param", text "z"⟩]

def lonelyHost : Host := ⟨[text "HOME=/"], fun n => n + 7⟩

theorem services_own_configuration_two : ∃ s, load lonelyHost (services []) =
    .ok (s, [
      ⟨some [⟨some 0, text "/a"⟩, ⟨some 1, text "x"⟩],
        some [⟨some 0, text "exec=/a"⟩, ⟨none, text "HOME=/"⟩]⟩,
      ⟨some [⟨some 2, text "/c"⟩, ⟨some 3, text "z"⟩],
        some [⟨some 2, text "exec=/c"⟩, ⟨none, text "HOME=/"⟩]⟩]) := by
  have hown := (@services_own_configuration_iff lonelyHost (services [])
    (by decide +kernel) (by decide +kernel)
    (fun hstop => absurd (congrArg (fun r => r.toOption.isSome) hstop) (by decide +kernel))).mpr
    (by decide +kernel)
  obtain ⟨s, hs⟩ := hown
  refine ⟨s, hs.trans (congrArg (fun launched => Except.ok (s, launched)) ?_)⟩
  decide +kernel

/-- Two parameters of a section without exec: the second is left to the next service, which has
one of its own. -/
def stray : List Entry :=
  services [⟨text "b", text "param", text "p"⟩, ⟨text "b", text "param", text "q"⟩]

theorem parameter_of_another_section :
    (∀ e ∈ stray, Short e) ∧
    (∀ S ∈ sections stray.zipIdx, (parameters S).length ≤ 60 ∧ (bindings S).length ≤ 30) ∧
    (load lonelyHost stray).toOption.map (fun r => r.2.map Launch.argv) =
      some [some [⟨some 0, text "/a"⟩, ⟨some 1, text "x"⟩],
        some [⟨some 4, text "/c"⟩, ⟨some 5, text "z"⟩, ⟨some 3, text "q"⟩]] ∧
    ((sections stray.zipIdx).filterMap (ownLaunch lonelyHost.environ)).map Launch.argv =
      [some [⟨some 0, text "/a"⟩, ⟨some 1, text "x"⟩],
        some [⟨some 4, text "/c"⟩, ⟨some 5, text "z"⟩]] := by
  decide +kernel

end RunnerSections
