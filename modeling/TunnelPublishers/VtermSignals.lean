import TunnelPublishers.VtermTerminals

/-!
# Whom the terminal service kills

The loop keeps every terminal's pid among the children not yet reaped, each pid
once. This holds as long as no fork fails and no poll reports an exit: a failed
fork leaves -1 in the record, and an exited child has been reaped by the very
poll that leads to the kill.
-/
namespace VtermSignals

open ByteOrder FiniteMaps FiniteMap TunnelFraming ExecutionTraces KernelTables VtermService
  VtermTerminals

/-- The children left by some calls. -/
abbrev childrenAfter (table : List ℤ) (calls : List ProcessCall) : List ℤ :=
  calls.foldl ProcessCall.after table

abbrev AllPossible : List ℤ → List ProcessCall → Prop :=
  Along ProcessCall.after ProcessCall.Possible

abbrev AllAimed : List ℤ → List ProcessCall → Prop := Along ProcessCall.after ProcessCall.Aimed

/-- A fork that succeeds, a poll that reaps nobody. -/
def Benign : ProcessCall → Prop
  | .fork result => result ≠ -1
  | .waitpid _ nohang result => nohang = true → result ≤ 0
  | .kill _ _ => True

instance : DecidablePred Benign
  | .fork result => inferInstanceAs (Decidable (result ≠ -1))
  | .waitpid _ nohang result => inferInstanceAs (Decidable (nohang = true → result ≤ 0))
  | .kill _ _ => instDecidableTrue

section Histories

variable {table : List ℤ} {a b : List ProcessCall}

theorem allPossible_append :
    AllPossible table (a ++ b) ↔ AllPossible table a ∧ AllPossible (childrenAfter table a) b :=
  along_append

theorem allAimed_append :
    AllAimed table (a ++ b) ↔ AllAimed table a ∧ AllAimed (childrenAfter table a) b :=
  along_append

theorem childrenAfter_append :
    childrenAfter table (a ++ b) = childrenAfter (childrenAfter table a) b :=
  List.foldl_append

end Histories

theorem calls_append (a b : List Event) : calls (a ++ b) = calls a ++ calls b :=
  List.filterMap_append

/-- Terminals with distinct pids of the table. -/
structure Tracked (d : Terminals) (table : List ℤ) : Prop where
  own : ∀ c p proc, d c = some (p, proc) → 0 < proc.pid ∧ proc.pid ∈ table
  apart : ∀ c c' p p' proc proc', d c = some (p, proc) → d c' = some (p', proc') →
    proc.pid = proc'.pid → c = c'

/-! ### Kills -/

/-- The kernel calls of killing one terminal. -/
def killCalls (pid : ℤ) (a : Answers) : List ProcessCall :=
  .kill pid a.kill :: if a.kill = -1 then [] else [.waitpid pid false a.wait]

theorem calls_killed (p : ℕ) (proc : VtermProc) (a : Answers) :
    calls (killed p proc a) = killCalls proc.pid a := by
  unfold killed killCalls
  split <;> rfl

theorem calls_dismissed (p : ℕ) (proc : VtermProc) (c channelId : UInt16) (a : Answers) :
    calls (dismissed p proc c channelId a) = killCalls proc.pid a := by
  rw [dismissed, calls_append, calls_killed]
  cases a.send <;> simp [calls]

theorem calls_exited (p : ℕ) (proc : VtermProc) (c channelId : UInt16) (a : Answers) :
    calls (.process (.waitpid proc.pid true a.poll) :: dismissed p proc c channelId a) =
      .waitpid proc.pid true a.poll :: killCalls proc.pid a := by
  rw [← calls_dismissed p proc c channelId a]
  rfl

/-- A poll that finds the child running reaps nobody. -/
theorem after_running {table : List ℤ} {poll : ℤ} (pid : ℤ) (hle : poll ≤ 0) :
    ProcessCall.after table (.waitpid pid true poll) = table := by
  simp [ProcessCall.after, not_lt.mpr hle]

theorem killCalls_aimed {table : List ℤ} {pid : ℤ} (hpos : 0 < pid) (hmem : pid ∈ table)
    (a : Answers) : AllAimed table (killCalls pid a) := by
  by_cases hk : a.kill = -1 <;> simp [killCalls, hk, Along, ProcessCall.Aimed, hpos, hmem]

/-- At most the child killed is reaped. -/
theorem killCalls_keep {table : List ℤ} {pid other : ℤ} {a : Answers} (hpos : 0 < pid)
    (hpossible : AllPossible table (killCalls pid a)) (hother : other ∈ table)
    (hne : other ≠ pid) : other ∈ childrenAfter table (killCalls pid a) := by
  by_cases hk : a.kill = -1
  · simpa [killCalls, hk, ProcessCall.after] using hother
  by_cases hw : 0 < a.wait
  · simp only [killCalls, hk, ↓reduceIte, Along, ProcessCall.Possible] at hpossible
    have hwait : a.wait = pid := by
      have hr := hpossible.2.1 hpos
      omega
    simp [killCalls, hk, ProcessCall.after, hwait, hpos, hother, hne]
  · simpa [killCalls, hk, ProcessCall.after, hw] using hother

section Moves

variable {d d' : Terminals} {table : List ℤ} {out : List Event} {answers : UInt16 → Answers}
  {c : UInt16} {p : ℕ} {proc : VtermProc} {a : Answers}

/-- Killing a tracked terminal leaves the others tracked. -/
theorem Tracked.kill (h : Tracked d table) (hd : d c = some (p, proc))
    (hpossible : AllPossible table (killCalls proc.pid a)) :
    Tracked (Function.update d c none) (childrenAfter table (killCalls proc.pid a)) := by
  have hold : ∀ c' r, Function.update d c none c' = some r → c' ≠ c ∧ d c' = some r := by
    intro c' r hr
    by_cases hc : c' = c
    · simp [hc] at hr
    · rw [Function.update_of_ne hc] at hr
      exact ⟨hc, hr⟩
  constructor
  · intro c' q other hother
    obtain ⟨hne, hother⟩ := hold c' _ hother
    obtain ⟨hpos, hmem⟩ := h.own c' q other hother
    have hpid : other.pid ≠ proc.pid := fun he => hne (h.apart c' c q p other proc hother hd he)
    exact ⟨hpos, killCalls_keep (h.own c p proc hd).1 hpossible hmem hpid⟩
  · intro c₁ c₂ q₁ q₂ r₁ r₂ h₁ h₂
    exact h.apart c₁ c₂ q₁ q₂ r₁ r₂ (hold c₁ _ h₁).2 (hold c₂ _ h₂).2

/-- A new child joins the table, so its terminal may join the others. -/
theorem Tracked.grow (h : Tracked d table) (hpos : 0 < proc.pid) (hfresh : proc.pid ∉ table) :
    Tracked (Function.update d c (some (p, proc))) (proc.pid :: table) := by
  have hold : ∀ c' q r, Function.update d c (some (p, proc)) c' = some (q, r) →
      c' = c ∧ r = proc ∨ c' ≠ c ∧ d c' = some (q, r) := by
    intro c' q r hr
    by_cases hc : c' = c
    · subst hc
      simp only [Function.update_self, Option.some.injEq, Prod.mk.injEq] at hr
      exact .inl ⟨rfl, hr.2.symm⟩
    · rw [Function.update_of_ne hc] at hr
      exact .inr ⟨hc, hr⟩
  -- An old terminal has another pid, since the new one was not in the table.
  have hapart : ∀ c' q r, d c' = some (q, r) → r.pid ≠ proc.pid := fun c' q r hr he =>
    hfresh (he ▸ (h.own c' q r hr).2)
  constructor
  · intro c' q r hr
    rcases hold c' q r hr with ⟨-, rfl⟩ | ⟨-, hr⟩
    · exact ⟨hpos, List.mem_cons_self⟩
    · exact ⟨(h.own c' q r hr).1, List.mem_cons_of_mem _ (h.own c' q r hr).2⟩
  · intro c₁ c₂ q₁ q₂ r₁ r₂ h₁ h₂ he
    rcases hold c₁ q₁ r₁ h₁ with ⟨hc₁, hr₁⟩ | ⟨-, hold₁⟩ <;>
      rcases hold c₂ q₂ r₂ h₂ with ⟨hc₂, hr₂⟩ | ⟨-, hold₂⟩
    · rw [hc₁, hc₂]
    · rw [hr₁] at he
      exact (hapart c₂ q₂ r₂ hold₂ he.symm).elim
    · rw [hr₂] at he
      exact (hapart c₁ q₁ r₁ hold₁ he).elim
    · exact h.apart c₁ c₂ q₁ q₂ r₁ r₂ hold₁ hold₂ he

theorem Tracked.keep (h : Tracked d table) (pid : ℤ) : Tracked d (pid :: table) :=
  ⟨fun c p proc hd => ⟨(h.own c p proc hd).1, List.mem_cons_of_mem _ (h.own c p proc hd).2⟩,
    h.apart⟩

/-! ### Moves -/

/-- Calls that are possible and benign are aimed, and leave these terminals tracked. -/
def Aims (table : List ℤ) (out : List Event) (d' : Terminals) : Prop :=
  AllPossible table (calls out) → (∀ call ∈ calls out, Benign call) →
    AllAimed table (calls out) ∧ Tracked d' (childrenAfter table (calls out))

theorem aims_silent (h : Tracked d table) (hout : calls out = []) : Aims table out d := by
  intro _ _
  rw [hout]
  exact ⟨trivial, h⟩

theorem aims_killed (h : Tracked d table) (hd : d c = some (p, proc))
    (hout : calls out = killCalls proc.pid a) : Aims table out (Function.update d c none) := by
  intro hpossible _
  rw [hout] at hpossible ⊢
  obtain ⟨hpos, hmem⟩ := h.own c p proc hd
  exact ⟨killCalls_aimed hpos hmem a, h.kill hd hpossible⟩

theorem Poll.aims (h : Tracked d table) (hmove : Poll answers d out d') : Aims table out d' := by
  cases hmove with
  | @alive c p proc hd hne hle =>
    have hafter : childrenAfter table [.waitpid proc.pid true (answers c).poll] = table :=
      after_running proc.pid hle
    intro _ _
    refine ⟨⟨trivial, trivial⟩, ?_⟩
    exact hafter.symm ▸ h
  | @exited c p proc channelId hd hw =>
    intro hpossible hbenign
    rw [calls_exited] at hpossible hbenign ⊢
    have hpoll : (answers c).poll ≤ 0 := hbenign _ List.mem_cons_self rfl
    have hafter : ProcessCall.after table (.waitpid proc.pid true (answers c).poll) = table :=
      after_running proc.pid hpoll
    have hkill := hpossible.2
    rw [hafter] at hkill
    obtain ⟨hpos, hmem⟩ := h.own c p proc hd
    refine ⟨⟨trivial, ?_⟩, ?_⟩
    · rw [hafter]
      exact killCalls_aimed hpos hmem (answers c)
    · rw [childrenAfter, List.foldl_cons, hafter]
      exact h.kill hd hkill

theorem terminalNew_calls (a : Spawn) (user : List UInt8) :
    ((terminalNew a user).1 = none ∧ calls (terminalNew a user).2 = []) ∨
      ((terminalNew a user).1 = some (a.openpt, a.fork) ∧
        calls (terminalNew a user).2 = [.fork a.fork]) := by
  rcases terminalNew_cases a user with ⟨-, hnew⟩ | ⟨-, -, hnew⟩ | ⟨-, -, hnew⟩ <;> rw [hnew]
  · exact .inl ⟨rfl, rfl⟩
  · exact .inl ⟨rfl, rfl⟩
  · right
    split <;> split <;> exact ⟨rfl, rfl⟩

theorem Handle.aims {spawn : Spawn} {i : Input} (h : Tracked d table)
    (hmove : Handle spawn a i d out d') : Aims table out d' := by
  cases hmove with
  | @refused created htype hnew =>
    refine aims_silent h ?_
    rcases terminalNew_calls spawn (cString i.memory) with ⟨-, hc⟩ | ⟨hsome, -⟩
    · rw [hnew] at hc
      rw [calls_append, hc]
      rfl
    · rw [hnew] at hsome
      cases hsome
  | @created _ p fdm pid _ htype hnew _ hd' =>
    rcases terminalNew_calls spawn (cString i.memory) with ⟨hnone, -⟩ | ⟨hsome, hc⟩
    · rw [hnew] at hnone
      cases hnone
    rw [hnew] at hsome hc
    obtain ⟨rfl, rfl⟩ : fdm = spawn.openpt ∧ pid = spawn.fork := by simpa using hsome
    intro hpossible hbenign
    rw [hc] at hpossible hbenign ⊢
    have hfork : 0 < spawn.fork ∧ spawn.fork ∉ table :=
      hpossible.1.resolve_left (hbenign (.fork spawn.fork) List.mem_cons_self)
    have hafter : childrenAfter table [.fork spawn.fork] = spawn.fork :: table := by
      simp [childrenAfter, ProcessCall.after, hfork.1]
    refine ⟨⟨trivial, trivial⟩, ?_⟩
    rw [hafter]
    rcases hd' with rfl | ⟨-, rfl⟩
    · exact @Tracked.grow d table _ p ⟨spawn.openpt, spawn.fork, i.client⟩ h hfork.1 hfork.2
    · exact h.keep spawn.fork
  | @left p proc htype hd => exact aims_killed h hd (calls_killed p proc a)
  | @broken p proc htype hd hw =>
    refine aims_killed (a := a) h hd ?_
    rw [calls_append, ← List.singleton_append, calls_append, calls_killed]
    exact List.append_nil _
  | stranger | resized | wrote | unwritable | ignored => exact aims_silent h rfl

theorem Watch.aims (h : Tracked d table) (hmove : Watch answers d out d') : Aims table out d' := by
  cases hmove with
  | silent | forwarded | freed => exact aims_silent h rfl
  | @undelivered c p proc bytes channelId hd =>
    exact aims_killed h hd (calls_killed p proc (answers c))
  | @failed c p proc hd => exact aims_killed h hd (calls_killed p proc (answers c))

theorem Quit.aims (h : Tracked d table) (hmove : Quit answers d out d') : Aims table out d' := by
  cases hmove with
  | @quit c p proc channelId hd =>
    exact aims_killed h hd (calls_dismissed p proc c channelId (answers c))

end Moves

/-! ### Whole runs -/

variable {M : Type → Type → Type} [FiniteMap M]

/-- So far every kill was aimed, and the terminals are tracked. -/
def Aimed (d : Terminals) (trace : List Event) : Prop := Aims [] trace d

theorem Aimed.append {d d' : Terminals} {past out : List Event} (h : Aimed d past)
    (hmove : ∀ table, Tracked d table → Aims table out d') : Aimed d' (past ++ out) := by
  intro hpossible hbenign
  simp only [calls_append, allPossible_append, allAimed_append, List.mem_append,
    childrenAfter_append] at hpossible hbenign ⊢
  obtain ⟨haimed, ht⟩ := h hpossible.1 fun call hc => hbenign call (.inl hc)
  obtain ⟨haimed', ht'⟩ := hmove _ ht hpossible.2 fun call hc => hbenign call (.inr hc)
  exact ⟨⟨haimed, haimed'⟩, ht'⟩

theorem aimed_preserved :
    Preserved (M := M) (fun _ _ => True) fun d acts => Aimed d (events acts) where
  poll s p d past out d' _ h hmove := by
    rw [events_append, events_did]
    exact h.append fun table ht => Poll.aims ht hmove
  handle s p i past out d' _ _ _ h hmove := by
    rw [events_append, events_received, events_did]
    exact h.append fun table ht => Handle.aims ht hmove
  watch s p d past out d' _ _ _ _ h hmove := by
    rw [events_append, events_did]
    exact h.append fun table ht => Watch.aims ht hmove

/-- In every run to its exit in which no fork fails and no poll reports an exit, every kill goes
to a child that was forked and not reaped since. -/
theorem kills_own_children {A : Antd} {answer : TunnelMsgH} {passes : List Pass}
    {trace : List Event} {s : State M} {answers : UInt16 → Answers} {stack : TunnelMsgH}
    (hrun : Execution (Step A) (initial answer) passes trace s)
    (hpossible : AllPossible [] (calls (trace ++ exit s answers stack)))
    (hbenign : ∀ call ∈ calls (trace ++ exit s answers stack), Benign call) :
    AllAimed [] (calls (trace ++ exit s answers stack)) := by
  obtain ⟨acts, hlogged, rfl⟩ := execution_logged hrun
  obtain ⟨haimed, hrecords⟩ := aimed_preserved.run
    (fun _ _ => ⟨trivial, ⟨by simp, by simp⟩⟩)
    (hlogged.mono fun _ _ _ _ hstep => ⟨hstep, trivial⟩)
  obtain ⟨out, d', last, hquits, hexit, hlast⟩ := exit_quits hrecords answers stack
  rw [hexit] at hpossible hbenign ⊢
  have hend : Aimed d' (events acts ++ out) := hquits.history (I := Aimed)
    (fun _ _ _ _ h hmove => h.append fun table ht => Quit.aims ht hmove) haimed
  have hsilent : calls last = [] := by
    apply List.filterMap_eq_nil_iff.mpr
    intro e he
    rw [hlast e he]
  have hclose : Aimed d' (events acts ++ out ++ last) :=
    hend.append fun table ht => aims_silent ht hsilent
  rw [List.append_assoc] at hclose
  exact (hclose hpossible hbenign).1

/-! ### One client -/

/-- Answers for a terminal with child 7, whose poll says what is given. -/
def childSeven (poll : ℤ) : Answers := ⟨poll, 0, 7, 0, false, none, true, .inl true⟩

def quiet (poll fork : ℤ) (selected : Selected) : Pass :=
  ⟨fun _ => childSeven poll, ⟨5, 0, 0, 6, fork⟩, selected, ⟨0, 0, 0, 0⟩, false⟩

/-- What `main` starts from. -/
def start : State AssocList := initial ⟨CHANNEL_OK, 1, 0, 0⟩

/-- Client 1 subscribes with child 7, which runs until the shutdown. -/
theorem kills_own_children_one_client : ∃ trace s,
    Execution (Step firstByteHost) start
      [quiet 0 7 (.message (.subscribe 1 97)), quiet 0 7 .timeout] trace s ∧
    .kill 7 0 ∈ calls (trace ++ exit s (fun _ => childSeven 0) ⟨0, 0, 0, 0⟩) ∧
    AllAimed [] (calls (trace ++ exit s (fun _ => childSeven 0) ⟨0, 0, 0, 0⟩)) := by
  have hrun := execution_of_guardedRun State.going (turn firstByteHost) start
    [quiet 0 7 (.message (.subscribe 1 97)), quiet 0 7 .timeout] (by decide +kernel)
  exact ⟨_, _, hrun, by decide +kernel,
    kills_own_children hrun (by decide +kernel) (by decide +kernel)⟩

/-- Child 7 exits by itself: the poll reaps it and the kill follows. A failed fork: the kill goes
to every process. -/
theorem kills_beyond_own_children :
    (∃ trace s, Execution (Step firstByteHost) start
        [quiet 0 7 (.message (.subscribe 1 97)), quiet 7 7 .timeout] trace s ∧
      AllPossible [] (calls trace) ∧ ¬ AllAimed [] (calls trace)) ∧
    ∃ trace s, Execution (Step firstByteHost) start
        [quiet 0 (-1) (.message (.subscribe 1 97)), quiet (-1) (-1) .timeout] trace s ∧
      AllPossible [] (calls trace) ∧ .kill (-1) 0 ∈ calls trace := by
  refine ⟨⟨_, _, execution_of_guardedRun _ _ _ _ (by decide +kernel), ?_, ?_⟩,
    ⟨_, _, execution_of_guardedRun _ _ _ _ (by decide +kernel), ?_, ?_⟩⟩
  all_goals decide +kernel

end VtermSignals
