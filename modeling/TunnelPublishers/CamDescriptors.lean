import TunnelPublishers.CamDevices

/-!
# Which descriptors the camera service closes

The field of the timer is the 0 of static storage until the first timer is
made, and `cam_init_timer` takes it for a timer to close. So only runs that end
before their first timer close nothing but their own descriptors.
-/
namespace CamDescriptors

open ByteOrder TunnelFraming ExecutionTraces CallOutcomes FiniteMaps CamService CamDevices

/-- A camera or a timer is open under this number. -/
def InUse (t : Table) (fd : ℤ) : Prop := IsCamera t fd ∨ t fd = some .timer

/-- The number was opened for the field and not closed since. -/
def Holds (t : Table) (fd : ℤ) : Field → Prop
  | .camera => IsCamera t fd
  | .timer => t fd = some .timer
  | .sock => True

instance (t : Table) (fd : ℤ) : DecidablePred (Holds t fd)
  | .camera => inferInstanceAs (Decidable (IsCamera t fd))
  | .timer => inferInstanceAs (Decidable (t fd = some .timer))
  | .sock => instDecidableTrue

/-- The descriptor a call closes, and the variable it stands in. -/
def closed : Call → Option (Field × ℤ)
  | .close field fd => some (field, fd)
  | _ => none

def Owned (t : Table) (e : Event) : Prop := ∀ c ∈ closed e.call, Holds t c.2 c.1

instance (t : Table) : DecidablePred (Owned t) := fun e =>
  inferInstanceAs (Decidable (∀ c ∈ closed e.call, Holds t c.2 c.1))

def Apart (opts : CamSetting) (t : Table) : Prop := InUse t opts.fd → opts.fd ≠ opts.timerfd

instance (t : Table) (fd : ℤ) : Decidable (InUse t fd) :=
  inferInstanceAs (Decidable (IsCamera t fd ∨ t fd = some .timer))

instance (opts : CamSetting) (t : Table) : Decidable (Apart opts t) :=
  inferInstanceAs (Decidable (InUse t opts.fd → opts.fd ≠ opts.timerfd))

def OwnedApart (t : Table) (e : Event) : Prop := Owned t e ∧ Apart e.opts t

instance (t : Table) : DecidablePred (OwnedApart t) := fun e =>
  inferInstanceAs (Decidable (Owned t e ∧ Apart e.opts t))

/-- The program ends before its first timer, because the set-up of the device fails. -/
def Halts (a : Apply) : Prop :=
  a.open = -1 ∨ a.format = false ∨ a.parm = false ∨ a.request = false ∨
    a.query = none ∨ a.query = some 0xffffffff

section Device

variable {t : Table} {opts : CamSetting} {a : Apply} {e : Event} {fd : ℤ}

theorem inUse_opened {result : ℤ} {node : Node} (h : InUse (opened t result node) fd) :
    InUse t fd ∨ fd = result := by
  unfold opened at h
  split at h
  · exact .inl h
  · by_cases hfd : fd = result
    · exact .inr hfd
    · rw [InUse, IsCamera, Function.update_of_ne hfd] at h
      exact .inl h

theorem inUse_onCamera {x : ℤ} {f : UInt32 × Bool → UInt32 × Bool}
    (h : InUse (onCamera t x f) fd) : InUse t fd := by
  rw [InUse, isCamera_iff, onCamera_apply] at h
  rw [InUse, isCamera_iff]
  by_cases hfd : fd = x
  · subst hfd
    rw [if_pos rfl] at h
    cases ht : t fd with
    | none => simp [ht] at h
    | some node => cases node <;> simp_all
  · rwa [if_neg hfd] at h

/-- Calls of the set-up: only the device is opened, and nothing is closed. -/
structure SetsUp (opts : CamSetting) (result : ℤ) (e : Event) : Prop where
  timerfd : e.opts.timerfd = opts.timerfd
  opened : ∀ path r, e.call = .open path r → r = result
  only : ∀ r, e.call ≠ .timerfdCreate r ∧ e.call ≠ .openSocket r
  closed : ∀ field fd, e.call ≠ .close field fd

theorem camSetFormat_state : (camSetFormat opts a).state = opts := by
  unfold camSetFormat
  cases a.format <;> rfl

theorem openDevice_setsUp (h : e ∈ (openDevice opts a).out) : SetsUp opts a.open e := by
  rcases Outcome.mem_andThen h with h | h
  · obtain rfl := List.mem_singleton.mp h
    exact ⟨rfl, by simp, by simp, by simp⟩
  rcases Outcome.mem_andThen h with h | h
  · rcases Outcome.mem_andThen h with h | h
    · obtain rfl := List.mem_singleton.mp h
      exact ⟨rfl, by simp, by simp, by simp⟩
    · obtain rfl := List.mem_singleton.mp h
      exact ⟨rfl, by simp, by simp, by simp⟩
  rw [camSetFormat_state] at h
  rcases Outcome.mem_andThen h with h | h
  · obtain rfl := List.mem_singleton.mp h
    exact ⟨rfl, by simp, by simp, by simp⟩
  · cases hquery : a.query with
    | none =>
      simp only [camQueryBuffer, hquery] at h
      obtain rfl := List.mem_singleton.mp h
      exact ⟨rfl, by simp, by simp, by simp⟩
    | some length =>
      simp only [camQueryBuffer, hquery] at h
      obtain rfl | h := List.mem_cons.mp h
      · exact ⟨rfl, by simp, by simp, by simp⟩
      · obtain rfl := List.mem_singleton.mp h
        exact ⟨rfl, by simp, by simp, by simp⟩

theorem camQueryBuffer_ok (query : Option UInt32) (mmap : Bool) :
    (camQueryBuffer opts query mmap).ok = true ↔ query ≠ none ∧ query ≠ some 0xffffffff := by
  cases query with
  | none => simp [camQueryBuffer]
  | some length => simp [camQueryBuffer, cInt_eq_failure]

theorem openDevice_ok : (openDevice opts a).ok = true ↔ ¬ Halts a := by
  simp only [openDevice, camSetFormat, camRequestBuffer, Outcome.andThen_ok, Bool.and_eq_true,
    camQueryBuffer_ok, Halts, not_or, decide_eq_true_eq, ne_eq, Bool.not_eq_false, and_assoc]

/-- The fields that the set-up of the device leaves. -/
theorem openDevice_state (opts : CamSetting) (a : Apply) : (openDevice opts a).state.fd = a.open ∧
    (openDevice opts a).state.timerfd = opts.timerfd := by
  let P (s : CamSetting) : Prop := s.fd = a.open ∧ s.timerfd = opts.timerfd
  have hformat (s : CamSetting) (hs : P s) : P (camSetFormat s a).state := by
    rw [camSetFormat_state]
    exact hs
  have hquery (s : CamSetting) (hs : P s) : P (camQueryBuffer s a.query a.mmap).state := by
    unfold camQueryBuffer
    cases a.query <;> exact hs
  exact Outcome.andThen_state (P := P) ⟨rfl, rfl⟩ fun s hs =>
    Outcome.andThen_state (P := P) (hformat s hs) fun s hs =>
      Outcome.andThen_state (P := P) hs hquery

theorem SetsUp.granted {r result : ℤ} (h : SetsUp opts result e) (hr : r ∈ granted e.call) :
    r = result := by
  obtain ⟨opts', call⟩ := e
  cases call with
  | «open» path r' =>
    obtain rfl := Option.some.inj hr
    exact h.opened path r' rfl
  | timerfdCreate r' => exact ((h.only r').1 rfl).elim
  | openSocket r' => exact ((h.only r').2 rfl).elim
  | _ => cases hr

/-- A number stays out of use while another one is opened. -/
theorem SetsUp.unused {x result : ℤ} (h : SetsUp opts result e) (hx : x ≠ result)
    (hunused : ¬ InUse t x) : ¬ InUse (after t e) x := by
  rcases after_cases t e with hsame | ⟨r, hr, node, hopened⟩ | ⟨field, fd, hclose, -⟩ |
    ⟨fd, f, hcam⟩
  · rwa [hsame]
  · obtain rfl := h.granted hr
    rw [hopened]
    exact fun hin => (inUse_opened hin).elim hunused hx
  · exact (h.closed field fd hclose).elim
  · rw [hcam]
    exact mt inUse_onCamera hunused

/-- Before the first timer there is nothing to object to, unless the camera has the number 0. -/
theorem openDevice_ownedApart (opts : CamSetting) (htimer : opts.timerfd = 0) (hopen : a.open ≠ 0)
    (hunused : ¬ InUse t 0) :
    Along after OwnedApart t (openDevice opts a).out ∧
      ¬ InUse ((openDevice opts a).out.foldl after t) 0 := by
  refine along_of_invariant (I := fun t => ¬ InUse t 0) hunused fun e he u hu => ?_
  have hsets := openDevice_setsUp he
  refine ⟨⟨?_, fun hin heq => ?_⟩, hsets.unused hopen.symm hu⟩
  · obtain ⟨opts', call⟩ := e
    cases call with
    | close field fd => exact (hsets.closed field fd rfl).elim
    | _ => simp [Owned, closed]
  · rw [heq, hsets.timerfd, htimer] at hin
    exact hu hin

theorem camInitTimer_out (timer : Timer) (h : opts.timerfd ≠ -1) :
    ∃ rest, (camInitTimer opts timer).out = ⟨opts, .close .timer opts.timerfd⟩ :: rest := by
  unfold camInitTimer
  rw [if_pos h]
  exact ⟨_, rfl⟩

/-- A camera under the number 0 has the number in the timer's field. -/
theorem openDevice_zero (htimer : opts.timerfd = 0) (hopen : a.open = 0) :
    ¬ Along after OwnedApart t (openDevice opts a).out := by
  intro h
  have hformat : ∃ rest, (openDevice opts a).out = ⟨opts, .open opts.devName 0⟩ ::
      ⟨{ opts with fd := 0 }, .setFormat 0 opts.width opts.height a.format⟩ :: rest := by
    obtain ⟨rest, hrest⟩ := Outcome.andThen_out (camSetFormat { opts with fd := 0 } a) fun opts =>
      (camRequestBuffer opts 1 a.request).andThen fun opts => camQueryBuffer opts a.query a.mmap
    obtain ⟨rest', hrest'⟩ : ∃ rest', (camSetFormat { opts with fd := 0 } a).out =
        ⟨{ opts with fd := 0 }, .setFormat 0 opts.width opts.height a.format⟩ :: rest' := by
      unfold camSetFormat
      cases a.format <;> exact ⟨_, rfl⟩
    refine ⟨rest' ++ rest, ?_⟩
    rw [hrest', List.cons_append] at hrest
    rw [openDevice, hopen, ← hrest]
    rfl
  obtain ⟨rest, hout⟩ := hformat
  rw [hout] at h
  refine h.2.1.2 ?_ htimer.symm
  simp [InUse, isCamera_iff, after, opened]

end Device

section Runs

variable {M : Type → Type → Type} [FiniteMap M] {args : Args} {a : Setup} {t : Table}

/-- Nothing is mapped at first, so the set-up begins with `open`. -/
theorem camApplySetting_defaults (device : List UInt8) (a : Apply) :
    camApplySetting (defaults device) a = (openDevice (defaults device) a).andThen
      fun opts => (camInitTimer opts a.timer).ignored :=
  rfl

theorem setup_applies (args : Args) (a : Setup) :
    ∃ rest, (setup args a : Outcome (State M) Event).out =
      (camApplySetting (defaults args.device) a.apply).out ++ rest :=
  Outcome.andThen_out _ _

theorem setup_out (args : Args) (a : Setup) :
    ∃ rest, (setup args a : Outcome (State M) Event).out =
      (openDevice (defaults args.device) a.apply).out ++ rest := by
  obtain ⟨rest, hrest⟩ := setup_applies (M := M) args a
  obtain ⟨rest', hrest'⟩ := Outcome.andThen_out (openDevice (defaults args.device) a.apply)
    fun opts => (camInitTimer opts a.apply.timer).ignored
  exact ⟨rest' ++ rest, by rw [hrest, camApplySetting_defaults, hrest', List.append_assoc]⟩

/-- The first timer starts with a close of the number 0. -/
theorem setup_closes (args : Args) (hok : ¬ Halts a.apply) :
    ∃ opts rest, (setup args a : Outcome (State M) Event).out =
      (openDevice (defaults args.device) a.apply).out ++ ⟨opts, .close .timer 0⟩ :: rest := by
  obtain ⟨-, htimer⟩ := openDevice_state (defaults args.device) a.apply
  have hzero : (openDevice (defaults args.device) a.apply).state.timerfd = 0 := htimer
  obtain ⟨rest, hrest⟩ := setup_applies (M := M) args a
  obtain ⟨rest', hrest'⟩ := camInitTimer_out a.apply.timer
    (show (openDevice (defaults args.device) a.apply).state.timerfd ≠ -1 by rw [hzero]; decide)
  refine ⟨(openDevice (defaults args.device) a.apply).state, rest' ++ rest, ?_⟩
  rw [hrest, camApplySetting_defaults, Outcome.andThen_of_ok (openDevice_ok.mpr hok)]
  simp only [Outcome.ignored, hrest', hzero, List.append_assoc, List.cons_append]

theorem setup_halts (args : Args) (h : Halts a.apply) : ∃ opts : CamSetting,
    opts.fd = a.apply.open ∧ opts.timerfd = 0 ∧
      Program.of (setup args a : Outcome (State M) Event) =
        (.exited opts, (openDevice (defaults args.device) a.apply).out) := by
  have hok : (openDevice (defaults args.device) a.apply).ok = false := by
    rw [← Bool.not_eq_true, openDevice_ok, not_not]
    exact h
  obtain ⟨hfd, htimer⟩ := openDevice_state (defaults args.device) a.apply
  refine ⟨_, hfd, htimer, ?_⟩
  simp only [setup, camApplySetting_defaults, Outcome.andThen_of_failed hok, hok,
    Outcome.andThen_failure, Program.of]
  rfl

theorem visitAll_exited (opts : CamSetting) (is : List Round) :
    visitAll (next args) (.exited opts : Program M) is = (.exited opts, []) := by
  induction is with
  | nil => rfl
  | cons i is ih => simp [visitAll, next, ih]

theorem run_setup (args : Args) (i : Round) (is : List Round) :
    ∃ rest, (visitAll (next args) (.start : Program M) (i :: is)).2 =
      (setup args i.setup : Outcome (State M) Event).out ++ rest :=
  ⟨_, rfl⟩

/-- Whatever is closed was opened for its field and is still open, and camera and timer are apart,
exactly in the runs that end before the first timer, with the camera not under the number 0. -/
theorem closes_owned_iff {inherited : List ℤ} {is : List Round} {trace : List Event} {p : Program M}
    (run : Execution (Step args) .start is trace p) :
    Along after OwnedApart (inheriting inherited) trace ∧
        Apart (p.opts args) (trace.foldl after (inheriting inherited)) ↔
      ∀ a ∈ is.head?, Halts a.setup.apply ∧ a.setup.apply.open ≠ 0 := by
  have hstart : ¬ InUse (inheriting inherited) 0 := by
    rw [InUse, isCamera_iff, inheriting]
    split_ifs <;> simp
  have hcompute := run.eq_visitAll
  cases is with
  | nil =>
    obtain ⟨rfl, rfl⟩ := Prod.mk.inj hcompute
    exact ⟨fun _ => by simp, fun _ => ⟨trivial, fun hin => (hstart hin).elim⟩⟩
  | cons i is =>
    simp only [List.head?_cons, Option.mem_some_iff, forall_eq']
    constructor
    · rintro ⟨halong, -⟩
      obtain ⟨rest, hrest⟩ := run_setup (M := M) args i is
      rw [hcompute] at hrest
      obtain rfl : trace = _ := hrest
      have hsetup := (along_append.mp halong).1
      by_cases hopen : i.setup.apply.open = 0
      · obtain ⟨rest', hrest'⟩ := setup_out (M := M) args i.setup
        rw [hrest'] at hsetup
        exact (openDevice_zero rfl hopen (along_append.mp hsetup).1).elim
      · refine ⟨?_, hopen⟩
        by_contra hhalts
        obtain ⟨opts, rest', hrest'⟩ := setup_closes (M := M) args hhalts
        rw [hrest'] at hsetup
        have hunused := (openDevice_ownedApart (defaults args.device) rfl hopen hstart).2
        have howned := (along_append.mp hsetup).2.1.1 (.timer, 0) rfl
        exact hunused (.inr howned)
    · rintro ⟨hhalts, hopen⟩
      obtain ⟨opts, hfd, htimer, hsetup⟩ := setup_halts (M := M) args hhalts
      have hrun : visitAll (next args) (.start : Program M) (i :: is) =
          (.exited opts, (openDevice (defaults args.device) i.setup.apply).out) := by
        rw [visitAll, next, hsetup]
        simp only [visitAll_exited, List.append_nil]
      obtain ⟨rfl, rfl⟩ := Prod.mk.inj (hcompute.symm.trans hrun)
      have hsound := openDevice_ownedApart (defaults args.device) rfl hopen hstart
      refine ⟨hsound.1, fun hin heq => ?_⟩
      exact hopen (hfd.symm.trans (heq.trans htimer))

end Runs

/-! ### Three starts -/

def arguments : Args := ⟨text "cam", text "/dev/video0", [0]⟩

/-- The device gets this descriptor and a frame of 640 times 480 pixels, and the timer that one. -/
def working (fd timer : ℤ) : Apply :=
  ⟨⟨none, false, false⟩, fd, true, true, true, some 921600, true, ⟨timer, true, 0⟩⟩

/-- A first round; the rest of the record is not used in it. -/
def boot (apply : Apply) (sock : ℤ) : Round where
  setup := ⟨apply, sock, true, some ⟨CHANNEL_OK, 1, 0, 0⟩, true, apply.cleanup, false⟩
  pass := ⟨none, .timeout, none, apply.timer, none, apply, apply.cleanup, true, true,
    ⟨0, 0, 0, 0⟩, false⟩
  cleanup := apply.cleanup
  stack := ⟨0, 0, 0, 0⟩

abbrev starting : Program AssocList := .start

/-- There is no such device. -/
theorem closes_owned_no_device : ∃ trace p,
    Execution (Step arguments) starting [boot { working 3 0 with «open» := -1 } 4] trace p ∧
    Along after OwnedApart (inheriting [0, 1, 2]) trace ∧
    Apart (p.opts arguments) (trace.foldl after (inheriting [0, 1, 2])) := by
  have hrun := execution_of_guardedRun (fun _ => true) (next arguments) starting
    [boot { working 3 0 with «open» := -1 } 4] (by decide +kernel)
  exact ⟨_, _, hrun, (closes_owned_iff hrun).mpr (by simp [boot, Halts])⟩

/-- The first timer closes the standard input. If that is closed already, the camera gets its
number, which the field of the timer names too. -/
theorem standard_input_closed :
    (∃ trace p, Execution (Step arguments) starting [boot (working 3 0) 4] trace p ∧
      Along after LowestFree (inheriting [0, 1, 2]) trace ∧
      ¬ Along after Owned (inheriting [0, 1, 2]) trace) ∧
    ∃ trace p, Execution (Step arguments) starting [boot (working 0 0) 3] trace p ∧
      Along after LowestFree (inheriting [1, 2]) trace ∧
      ¬ Along after (fun t e => Apart e.opts t) (inheriting [1, 2]) trace := by
  refine ⟨⟨_, _, execution_of_guardedRun (fun _ => true) (next arguments) starting
      [boot (working 3 0) 4] (by decide +kernel), ?_, ?_⟩,
    ⟨_, _, execution_of_guardedRun (fun _ => true) (next arguments) starting
      [boot (working 0 0) 3] (by decide +kernel), ?_, ?_⟩⟩
  · decide +kernel
  · decide +kernel
  · decide +kernel
  · decide +kernel

end CamDescriptors
