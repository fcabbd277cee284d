import Mathlib.Data.List.Perm.Subperm
import TunnelPublishers.VtermMembership

/-!
# The descriptors of the terminal service

What is open at the head of the loop are the masters of the terminals and what
their creation forgot. The parent never closes the slave side, and a master that
cannot be granted or unlocked stays open, so nothing is forgotten only if no
slave side could be opened in the first place.
-/
namespace VtermDescriptors

open ByteOrder FiniteMaps FiniteMap TunnelFraming ExecutionTraces KernelTables VtermService
  VtermTerminals VtermSignals VtermMembership

/-- The descriptors opened and closed in a trace. -/
def descriptors (trace : List Event) : List DescriptorCall :=
  trace.filterMap fun
    | .opened fd => some (.opened fd)
    | .closed fd => some (.closed fd)
    | _ => none

abbrev openAfter (table : List ℤ) (calls : List DescriptorCall) : List ℤ :=
  calls.foldl DescriptorCall.after table

/-- The kernel opens no descriptor that is open. -/
abbrev AllUnused : List ℤ → List DescriptorCall → Prop :=
  Along DescriptorCall.after DescriptorCall.Unused

theorem descriptors_append (a b : List Event) :
    descriptors (a ++ b) = descriptors a ++ descriptors b :=
  List.filterMap_append

/-- What a creation opens and nothing will close. -/
def forgotten (a : Spawn) : List ℤ :=
  if a.openpt < 0 then []
  else if a.grantpt ≠ 0 ∨ a.unlockpt ≠ 0 then [a.openpt]
  else if a.open < 0 then []
  else [a.open]

/-- What a turn opens and nothing will close. -/
def lost (p : Pass) : List ℤ :=
  match p.selected with
  | .message i => if i.request.header.type = CHANNEL_SUBSCRIBE then forgotten p.spawn else []
  | _ => []

/-- The open descriptors are the masters, each of one terminal, and the forgotten ones. -/
structure Accounts (d : Terminals) (table forgotten : List ℤ) : Prop where
  nodup : table.Nodup
  known : ∀ fd, fd ∈ table ↔ fd ∈ forgotten ∨ ∃ c, master d c = some fd
  stray : ∀ fd ∈ forgotten, ∀ c, master d c ≠ some fd
  apart : ∀ c c' fd, master d c = some fd → master d c' = some fd → c = c'

section Moves

variable {d d' : Terminals} {table left : List ℤ} {out : List Event} {c : UInt16} {p : ℕ}
  {proc : VtermProc} {a : Answers}

theorem master_eq (hd : d c = some (p, proc)) : master d c = some proc.fdm := by
  simp [master, hd]

theorem master_update (d : Terminals) (c c' : UInt16) (r : Option (ℕ × VtermProc)) :
    master (Function.update d c r) c' =
      if c' = c then r.map fun r => r.2.fdm else master d c' := by
  by_cases h : c' = c
  · subst h
    simp [master]
  · simp [master, h]

theorem Accounts.close (h : Accounts d table left) (hd : d c = some (p, proc)) :
    Accounts (Function.update d c none) (table.filter (· ≠ proc.fdm)) left := by
  have hown := master_eq hd
  constructor
  · exact h.nodup.filter _
  · intro fd
    simp only [List.mem_filter, decide_eq_true_eq, h.known, master_update]
    constructor
    · rintro ⟨hleft | ⟨c', hc'⟩, hne⟩
      · exact .inl hleft
      · refine .inr ⟨c', ?_⟩
        rw [if_neg]
        · exact hc'
        · rintro rfl
          rw [hown, Option.some.injEq] at hc'
          exact hne hc'.symm
    · rintro (hleft | ⟨c', hc'⟩)
      · exact ⟨.inl hleft, fun he => h.stray fd hleft c (he ▸ hown)⟩
      · split at hc'
        · cases hc'
        · next hne => exact ⟨.inr ⟨c', hc'⟩, fun he => hne (h.apart c' c fd hc' (he ▸ hown))⟩
  · intro fd hleft c'
    rw [master_update]
    split
    · simp
    · exact h.stray fd hleft c'
  · intro c₁ c₂ fd h₁ h₂
    rw [master_update] at h₁ h₂
    split at h₁
    · cases h₁
    split at h₂
    · cases h₂
    exact h.apart c₁ c₂ fd h₁ h₂

theorem Accounts.forget (h : Accounts d table left) {fd : ℤ} (hfresh : fd ∉ table) :
    Accounts d (fd :: table) (left ++ [fd]) := by
  have hunowned : ∀ c, master d c ≠ some fd := fun c hc =>
    hfresh ((h.known fd).mpr (.inr ⟨c, hc⟩))
  constructor
  · exact List.nodup_cons.mpr ⟨hfresh, h.nodup⟩
  · intro fd'
    simp only [List.mem_cons, List.mem_append, h.known, List.not_mem_nil, or_false]
    tauto
  · intro fd' hfd c
    rcases List.mem_append.mp hfd with hleft | hnew
    · exact h.stray fd' hleft c
    · rw [List.mem_singleton.mp hnew]
      exact hunowned c
  · exact h.apart

theorem Accounts.adopt (h : Accounts d table left) (hd : d c = none) (hfresh : proc.fdm ∉ table) :
    Accounts (Function.update d c (some (p, proc))) (proc.fdm :: table) left := by
  have hunowned : ∀ c, master d c ≠ some proc.fdm := fun c hc =>
    hfresh ((h.known proc.fdm).mpr (.inr ⟨c, hc⟩))
  have hnone : master d c = none := by
    simp [master, hd]
  constructor
  · exact List.nodup_cons.mpr ⟨hfresh, h.nodup⟩
  · intro fd
    simp only [List.mem_cons, h.known, master_update, Option.map_some]
    constructor
    · rintro (rfl | hleft | ⟨c', hc'⟩)
      · exact .inr ⟨c, by rw [if_pos rfl]⟩
      · exact .inl hleft
      · refine .inr ⟨c', ?_⟩
        rw [if_neg]
        · exact hc'
        · rintro rfl
          rw [hnone] at hc'
          cases hc'
    · rintro (hleft | ⟨c', hc'⟩)
      · exact .inr (.inl hleft)
      · split at hc'
        · exact .inl (Option.some.inj hc').symm
        · exact .inr (.inr ⟨c', hc'⟩)
  · intro fd hleft c'
    rw [master_update]
    split
    · rintro ⟨⟩
      exact hfresh ((h.known proc.fdm).mpr (.inl hleft))
    · exact h.stray fd hleft c'
  · intro c₁ c₂ fd h₁ h₂
    rw [master_update] at h₁ h₂
    split at h₁ <;> split at h₂
    · next he₁ he₂ => rw [he₁, he₂]
    · exact (hunowned c₂ (h₂.trans h₁.symm)).elim
    · exact (hunowned c₁ (h₁.trans h₂.symm)).elim
    · exact h.apart c₁ c₂ fd h₁ h₂

/-! ### Moves -/

theorem descriptors_killed (p : ℕ) (proc : VtermProc) (a : Answers) :
    descriptors (killed p proc a) = [.closed proc.fdm] := by
  unfold killed
  split <;> rfl

theorem descriptors_dismissed (p : ℕ) (proc : VtermProc) (c channelId : UInt16) (a : Answers) :
    descriptors (dismissed p proc c channelId a) = [.closed proc.fdm] := by
  rw [dismissed, descriptors_append, descriptors_killed]
  cases a.send <;> rfl

/-- A move that opens no descriptor keeps the accounts. -/
theorem Accounts.kill (h : Accounts d table left) (hd : d c = some (p, proc))
    (hout : descriptors out = [.closed proc.fdm]) :
    Accounts (Function.update d c none) (openAfter table (descriptors out)) left := by
  rw [hout]
  exact h.close hd

theorem Accounts.silent (h : Accounts d table left) (hout : descriptors out = []) :
    Accounts d (openAfter table (descriptors out)) left := by
  rw [hout]
  exact h

theorem Accounts.poll {answers : UInt16 → Answers} (h : Accounts d table left)
    (hmove : Poll answers d out d') : Accounts d' (openAfter table (descriptors out)) left := by
  cases hmove with
  | alive => exact h.silent rfl
  | @exited c p proc channelId hd =>
    exact h.kill hd (descriptors_dismissed p proc c channelId (answers c))

theorem Accounts.watch {answers : UInt16 → Answers} (h : Accounts d table left)
    (hmove : Watch answers d out d') : Accounts d' (openAfter table (descriptors out)) left := by
  cases hmove with
  | silent | forwarded | freed => exact h.silent rfl
  | @undelivered c p proc bytes channelId hd =>
    exact h.kill hd (descriptors_killed p proc (answers c))
  | @failed c p proc hd => exact h.kill hd (descriptors_killed p proc (answers c))

/-- A failed creation forgets what it opened. -/
theorem Accounts.fail (h : Accounts d table left) {spawn : Spawn} {user : List UInt8}
    (hnew : terminalNew spawn user = (none, out))
    (hunused : AllUnused table (descriptors out)) :
    Accounts d (openAfter table (descriptors out)) (left ++ forgotten spawn) := by
  rcases terminalNew_cases spawn user with ⟨hopen, hcase⟩ | ⟨hopen, hgrant, hcase⟩ | ⟨-, -, hcase⟩
  · obtain rfl : out = [] := by rw [hnew] at hcase; exact (Prod.mk.inj hcase).2
    rw [forgotten, if_pos hopen, List.append_nil]
    exact h
  · obtain rfl : out = [.opened spawn.openpt] := by rw [hnew] at hcase; exact (Prod.mk.inj hcase).2
    rw [forgotten, if_neg hopen, if_pos hgrant]
    exact h.forget hunused.1
  · rw [hnew] at hcase
    cases (Prod.mk.inj hcase).1

/-- A creation that succeeds opens the master, and the slave side if it can. -/
theorem terminalNew_created {spawn : Spawn} {user : List UInt8} {fdm pid : ℤ}
    (hnew : terminalNew spawn user = (some (fdm, pid), out)) :
    fdm = spawn.openpt ∧ pid = spawn.fork ∧
      forgotten spawn = (if spawn.open < 0 then [] else [spawn.open]) ∧
      descriptors out = .opened fdm :: if spawn.open < 0 then [] else [.opened spawn.open] := by
  rcases terminalNew_cases spawn user with ⟨-, hcase⟩ | ⟨-, -, hcase⟩ | ⟨hopen, hgrant, hcase⟩
  · rw [hnew] at hcase
    cases (Prod.mk.inj hcase).1
  · rw [hnew] at hcase
    cases (Prod.mk.inj hcase).1
  rw [hnew] at hcase
  obtain ⟨hsome, rfl⟩ := Prod.mk.inj hcase
  obtain ⟨rfl, rfl⟩ := Prod.mk.inj (Option.some.inj hsome)
  refine ⟨rfl, rfl, ?_, ?_⟩
  · rw [forgotten, if_neg hopen, if_neg hgrant]
  · split <;> split <;> rfl

/-- A new terminal owns its master, and its slave side is forgotten. -/
theorem Accounts.create (h : Accounts d table left) {spawn : Spawn} {user : List UInt8}
    {fdm pid : ℤ} (hnew : terminalNew spawn user = (some (fdm, pid), out))
    (hunused : AllUnused table (descriptors out)) (hd : d c = none) (cid : UInt16) :
    Accounts (Function.update d c (some (p, ⟨fdm, pid, cid⟩)))
      (openAfter table (descriptors out)) (left ++ forgotten spawn) := by
  obtain ⟨-, -, hforgotten, hcalls⟩ := terminalNew_created hnew
  rw [hcalls] at hunused ⊢
  rw [hforgotten]
  have hadopt : Accounts (Function.update d c (some (p, ⟨fdm, pid, cid⟩))) (fdm :: table) left :=
    h.adopt hd hunused.1
  split
  · rw [List.append_nil]
    exact hadopt
  · next hslave =>
    rw [if_neg hslave] at hunused
    exact hadopt.forget hunused.2.1

theorem Accounts.handle {spawn : Spawn} {i : Input} (h : Accounts d table left)
    (hmove : Handle spawn a i d out d') (hunused : AllUnused table (descriptors out))
    (hanew : i.request.header.type = CHANNEL_SUBSCRIBE → d i.client = none) :
    Accounts d' (openAfter table (descriptors out))
      (left ++ if i.request.header.type = CHANNEL_SUBSCRIBE then forgotten spawn else []) := by
  cases hmove with
  | @refused created htype hnew =>
    have hreply : descriptors [refuse i.request.header] = [] := rfl
    rw [descriptors_append, hreply, List.append_nil] at hunused ⊢
    rw [if_pos htype]
    exact h.fail hnew hunused
  | @created _ p fdm pid _ htype hnew _ hd' =>
    rw [if_pos htype]
    rcases hd' with rfl | ⟨hsome, -⟩
    · exact h.create hnew hunused (hanew htype) i.client
    · exact (hsome (hanew htype)).elim
  | @left p proc htype hd =>
    rw [htype]
    simpa [CHANNEL_UNSUBSCRIBE, CHANNEL_SUBSCRIBE] using h.kill hd (descriptors_killed p proc a)
  | stranger htype | resized htype | wrote htype | unwritable htype =>
    rw [htype]
    simpa [CHANNEL_UNSUBSCRIBE, CHANNEL_SUBSCRIBE, CHANNEL_CTRL, CHANNEL_DATA] using h.silent rfl
  | @broken p proc htype hd =>
    have hcalls : descriptors (.wrote proc.fdm i.request.payload a.write :: killed p proc a ++
        [refuse i.request.header]) = [.closed proc.fdm] := by
      rw [descriptors_append, ← List.singleton_append, descriptors_append, descriptors_killed]
      rfl
    rw [htype]
    simpa [CHANNEL_DATA, CHANNEL_SUBSCRIBE] using h.kill hd hcalls
  | ignored hsub =>
    rw [if_neg hsub, List.append_nil]
    exact h.silent rfl

end Moves

/-! ### Runs -/

variable {M : Type → Type → Type} [FiniteMap M]

theorem polls_account {s : State M} (h : Records s []) (p : Pass) {table left : List ℤ}
    (hacc : Accounts (terminals s) table left) :
    Accounts (terminals (monitorProcesses s p).1)
      (openAfter table (descriptors (monitorProcesses s p).2)) left := by
  refine Runs.invariant
    (I := fun d out => Accounts d (openAfter table (descriptors out)) left) ?_
    (monitorProcesses_polls h p).1 hacc
  intro d past out d' hd hmove
  rw [descriptors_append, openAfter, List.foldl_append]
  exact hd.poll hmove

theorem attend_accounts (A : Antd) {s : State M} (h : Records s []) {p : Pass}
    {table left : List ℤ} (hacc : Accounts (terminals s) table left)
    (hunused : AllUnused table (descriptors (attend A s p).2))
    (hanew : ∀ i, p.selected = .message i → i.request.header.type = CHANNEL_SUBSCRIBE →
      terminals s i.client = none) :
    Accounts (terminals (attend A s p).1) (openAfter table (descriptors (attend A s p).2))
      (left ++ lost p) := by
  unfold attend at hunused ⊢
  unfold lost
  cases hsel : p.selected with
  | failed | timeout | unreadable =>
    rw [List.append_nil]
    exact ⟨hacc.nodup, hacc.known, hacc.stray, hacc.apart⟩
  | message i =>
    simp only [hsel] at hunused ⊢
    have hmove := (handleMessage_handles
      (s := { s with msg := i.request.header }) ⟨h.live, h.gone⟩ p i).1
    exact Accounts.handle (d := terminals s) hacc hmove hunused (hanew i hsel)
  | terminals =>
    rw [List.append_nil]
    refine Runs.invariant
      (I := fun d out => Accounts d (openAfter table (descriptors out)) left) ?_
      (monitorTerminals_watches A h p).1 hacc
    intro d past out d' hd hmove
    rw [descriptors_append, openAfter, List.foldl_append]
    exact hd.watch hmove

/-- After a run the open descriptors are the masters and what the turns forgot. -/
theorem accounts_run {A : Antd} {answer : TunnelMsgH} {passes : List Pass} {acts : List Act}
    {s : State M} (hrun : Execution (Logged A) (initial answer) passes acts s)
    (hunused : AllUnused [] (descriptors (events acts))) (honce : Once acts) :
    Accounts (terminals s) (openAfter [] (descriptors (events acts))) (passes.flatMap lost) := by
  generalize hstart : (initial answer : State M) = s₀ at hrun
  induction hrun with
  | refl =>
    subst hstart
    have hnone : ∀ c, master (terminals (initial answer : State M)) c = none := by
      intro c
      simp [master, terminals, initial]
    exact ⟨List.nodup_nil, by simp [events, descriptors, hnone], by simp, by simp [hnone]⟩
  | @tail u v passes p past acts hpast hstep ih =>
    subst hstart
    obtain ⟨-, hturn⟩ := hstep
    obtain ⟨rfl, rfl⟩ := Prod.mk.inj hturn
    obtain ⟨hheed, h⟩ := heeded_preserved.run (fun _ _ => by simp)
      (hpast.mono fun _ _ _ _ hstep => ⟨hstep, trivial⟩)
    rw [events_append, descriptors_append] at hunused ⊢
    obtain ⟨hunused, hturn⟩ := along_append.mp hunused
    have hacc := polls_account h p (ih hunused (once_append.mp honce).1)
    -- Who is subscribed when the message is handled.
    have hmid := Runs.logged (J := fun d acts => Once acts → Heeded d acts)
      (fun d past out d' hd hmove => heeded_preserved.poll u p d past out d' trivial hd hmove)
      (monitorProcesses_polls h p).1 hheed
    rw [log, ← List.append_assoc] at honce
    rw [events_log, turn_eq, descriptors_append] at hturn ⊢
    rw [openAfter, List.foldl_append, List.foldl_append, List.flatMap_append,
      List.flatMap_singleton]
    refine attend_accounts A (monitorProcesses_polls h p).2 hacc (along_append.mp hturn).2 ?_
    intro i hsel htype
    rw [hsel] at honce
    exact (hmid (once_append.mp honce).1).absent honce htype

/-- The masters of the entries. -/
def masters (s : State M) : List ℤ :=
  (entries s.processes).filterMap fun n => (s.heap[n.2]?.join).map VtermProc.fdm

theorem mem_masters {s : State M} {fd : ℤ} :
    fd ∈ masters s ↔ ∃ c, master (terminals s) c = some fd := by
  simp only [masters, List.mem_filterMap, master, terminals, Option.map_eq_some_iff,
    Option.bind_eq_some_iff, mem_entries, Prod.exists]
  constructor
  · rintro ⟨c, p, hf, proc, hproc, rfl⟩
    exact ⟨c, p, proc, ⟨p, hf, proc, hproc, rfl⟩, rfl⟩
  · rintro ⟨c, p, proc, ⟨q, hf, proc', hproc, he⟩, rfl⟩
    obtain ⟨-, rfl⟩ := Prod.mk.inj he
    exact ⟨c, q, hf, proc', hproc, rfl⟩

/-- A SUBSCRIBE opens nothing, or a master that it can use and no slave side. -/
def Tidy (p : Pass) : Prop :=
  match p.selected with
  | .message i => i.request.header.type = CHANNEL_SUBSCRIBE →
      p.spawn.openpt < 0 ∨ p.spawn.grantpt = 0 ∧ p.spawn.unlockpt = 0 ∧ p.spawn.open < 0
  | _ => True

theorem forgotten_eq_nil {a : Spawn} :
    forgotten a = [] ↔ a.openpt < 0 ∨ a.grantpt = 0 ∧ a.unlockpt = 0 ∧ a.open < 0 := by
  unfold forgotten
  by_cases hopen : a.openpt < 0
  · simp [hopen]
  by_cases hgrant : a.grantpt ≠ 0 ∨ a.unlockpt ≠ 0
  · simp only [hopen, hgrant, ↓reduceIte]
    simp
    tauto
  · rw [not_or, not_not, not_not] at hgrant
    by_cases hslave : a.open < 0 <;> simp [hopen, hgrant, hslave]

theorem lost_eq_nil {p : Pass} : lost p = [] ↔ Tidy p := by
  unfold lost Tidy
  cases p.selected with
  | failed | timeout | unreadable | terminals => simp
  | message i =>
    by_cases htype : i.request.header.type = CHANNEL_SUBSCRIBE
    · simp [htype, forgotten_eq_nil]
    · simp [htype]

/-- In every run in which the kernel opens no descriptor that is open and no client subscribes
twice without an UNSUBSCRIBE in between, the descriptors open at the end are the masters of the
entries, no more than there are entries, if and only if every turn was tidy. -/
theorem open_descriptors_iff {A : Antd} {answer : TunnelMsgH} {passes : List Pass}
    {acts : List Act} {s : State M} (hrun : Execution (Logged A) (initial answer) passes acts s)
    (hunused : AllUnused [] (descriptors (events acts))) (honce : Once acts) :
    ((∀ fd, fd ∈ openAfter [] (descriptors (events acts)) ↔ fd ∈ masters s) ∧
        (openAfter [] (descriptors (events acts))).length ≤ (entries s.processes).length) ↔
      ∀ p ∈ passes, Tidy p := by
  have h := accounts_run hrun hunused honce
  have htidy : (∀ p ∈ passes, Tidy p) ↔ passes.flatMap lost = [] := by
    simp [List.flatMap_eq_nil_iff, lost_eq_nil]
  rw [htidy]
  constructor
  · rintro ⟨hopen, -⟩
    refine List.eq_nil_iff_forall_not_mem.mpr fun fd hfd => ?_
    obtain ⟨c, hc⟩ := mem_masters.mp ((hopen fd).mp ((h.known fd).mpr (.inl hfd)))
    exact h.stray fd hfd c hc
  · intro hnil
    have hopen : ∀ fd, fd ∈ openAfter [] (descriptors (events acts)) ↔ fd ∈ masters s := by
      intro fd
      rw [h.known, hnil, mem_masters]
      simp
    refine ⟨hopen, ?_⟩
    have hle := (h.nodup.subperm fun fd hfd => (hopen fd).mp hfd).length_le
    exact hle.trans (List.length_filterMap_le _ _)

/-- A turn in which client 1 subscribes, with the kernel's answers about the slave side. -/
def spawning (slave : ℤ) : Pass :=
  { quiet 0 7 (.message (.subscribe 1 97)) with spawn := ⟨5, 0, 0, slave, 7⟩ }

/-- Client 1 subscribes, and the slave side cannot be opened. -/
theorem open_descriptors_one_client : ∃ acts s,
    Execution (Logged firstByteHost) start [spawning (-1)] acts s ∧
    openAfter [] (descriptors (events acts)) = [5] ∧ masters s = [5] ∧
    (∀ fd, fd ∈ openAfter [] (descriptors (events acts)) ↔ fd ∈ masters s) := by
  have hrun := execution_of_guardedRun State.going
    (fun s p => ((turn firstByteHost s p).1, log firstByteHost s p)) start [spawning (-1)]
    (by decide +kernel)
  exact ⟨_, _, hrun, by decide +kernel, by decide +kernel,
    ((open_descriptors_iff hrun (by decide +kernel) (by decide +kernel)).mpr
      (by simp [Tidy, spawning, quiet])).1⟩

/-- One subscription leaves the slave side open next to the master. -/
theorem slave_stays_open : ∃ acts s,
    Execution (Logged firstByteHost) start [spawning 6] acts s ∧
    AllUnused [] (descriptors (events acts)) ∧ Once acts ∧
    openAfter [] (descriptors (events acts)) = [6, 5] ∧ masters s = [5] := by
  refine ⟨_, _, execution_of_guardedRun _ _ _ _ (by decide +kernel), ?_, ?_, ?_, ?_⟩
  all_goals decide +kernel

end VtermDescriptors
