import TunnelPublishers.VtermSignals

/-!
# The children of the terminal service

A child is remembered by the entry of its client and nowhere else. As long as no
client with a terminal is given another one, every child not yet reaped has its
entry. A second terminal takes the place of the first in the tree, or is kept
out of it, and one of the two children is forgotten.
-/
namespace VtermChildren

open ByteOrder FiniteMaps FiniteMap TunnelFraming ExecutionTraces KernelTables VtermService
  VtermTerminals VtermSignals

/-- Unreaped children can be signalled and waited for. -/
abbrev AllEffective : List ℤ → List ProcessCall → Prop :=
  Along ProcessCall.after ProcessCall.Effective

/-- Every child has a terminal. -/
structure Owned (d : Terminals) (children : List ℤ) : Prop where
  positive : ∀ pid ∈ children, 0 < pid
  owner : ∀ pid ∈ children, ∃ c p proc, d c = some (p, proc) ∧ proc.pid = pid

section Moves

variable {d d' : Terminals} {children : List ℤ} {out : List Event} {answers : UInt16 → Answers}
  {c : UInt16} {p : ℕ} {proc : VtermProc} {a : Answers}

/-- Waiting and killing make no children. -/
theorem after_subset {call : ProcessCall} (hcall : ∀ result, call ≠ .fork result) :
    ProcessCall.after children call ⊆ children := by
  cases call with
  | fork result => exact (hcall result rfl).elim
  | waitpid pid nohang result =>
    by_cases hreaped : 0 < result
    · simp [ProcessCall.after, hreaped]
    · simp [ProcessCall.after, hreaped]
  | kill => exact List.Subset.refl _

theorem killCalls_subset (children : List ℤ) (pid : ℤ) (a : Answers) :
    childrenAfter children (killCalls pid a) ⊆ children := by
  unfold killCalls childrenAfter
  split
  · exact List.Subset.refl _
  · exact @after_subset children (.waitpid pid false a.wait) (by simp)

/-- A child killed is a child reaped. -/
theorem killCalls_reap {pid : ℤ} (hpos : ∀ pid ∈ children, 0 < pid)
    (heffective : AllEffective children (killCalls pid a)) :
    pid ∉ childrenAfter children (killCalls pid a) := by
  by_cases hmem : pid ∈ children
  · have hkill : a.kill ≠ -1 := heffective.1 hmem
    simp only [killCalls, if_neg hkill] at heffective ⊢
    have hwait : a.wait = pid := by
      rcases heffective.2.1 hmem with hwait | ⟨hnohang, -⟩
      · exact hwait
      · cases hnohang
    simp [ProcessCall.after, hwait, hpos pid hmem]
  · exact fun h => hmem (killCalls_subset children pid a h)

/-- The entry of a child that is gone can go too. -/
theorem Owned.drop (h : Owned d children) (hd : d c = some (p, proc)) {left : List ℤ}
    (hsub : left ⊆ children) (hgone : proc.pid ∉ left) :
    Owned (Function.update d c none) left where
  positive pid hpid := h.positive pid (hsub hpid)
  owner pid hpid := by
    obtain ⟨c', p', proc', hd', hpid'⟩ := h.owner pid (hsub hpid)
    refine ⟨c', p', proc', ?_, hpid'⟩
    rw [Function.update_of_ne]
    · exact hd'
    · rintro rfl
      rw [hd] at hd'
      obtain ⟨-, rfl⟩ := Prod.mk.inj (Option.some.inj hd')
      exact hgone (hpid' ▸ hpid)

theorem Owned.kill (h : Owned d children) (hd : d c = some (p, proc))
    (hout : calls out = killCalls proc.pid a) (heffective : AllEffective children (calls out)) :
    Owned (Function.update d c none) (childrenAfter children (calls out)) := by
  rw [hout] at heffective ⊢
  exact h.drop hd (killCalls_subset children proc.pid a) (killCalls_reap h.positive heffective)

theorem Owned.silent (h : Owned d children) (hout : calls out = []) :
    Owned d (childrenAfter children (calls out)) := by
  rw [hout]
  exact h

theorem Owned.poll (h : Owned d children) (hmove : Poll answers d out d')
    (heffective : AllEffective children (calls out)) :
    Owned d' (childrenAfter children (calls out)) := by
  cases hmove with
  | @alive c p proc hd hne hle =>
    have hafter : childrenAfter children [.waitpid proc.pid true (answers c).poll] = children :=
      after_running proc.pid hle
    exact hafter.symm ▸ h
  | @exited c p proc channelId hd hw =>
    rw [calls_exited] at heffective ⊢
    have hsub : ProcessCall.after children (.waitpid proc.pid true (answers c).poll) ⊆ children :=
      after_subset (by simp)
    refine h.drop hd (List.Subset.trans (killCalls_subset _ proc.pid (answers c)) hsub) ?_
    exact killCalls_reap (fun pid hpid => h.positive pid (hsub hpid)) heffective.2

theorem Owned.watch (h : Owned d children) (hmove : Watch answers d out d')
    (heffective : AllEffective children (calls out)) :
    Owned d' (childrenAfter children (calls out)) := by
  cases hmove with
  | silent | forwarded | freed => exact h.silent rfl
  | @undelivered c p proc bytes channelId hd =>
    exact h.kill hd (calls_killed p proc (answers c)) heffective
  | @failed c p proc hd => exact h.kill hd (calls_killed p proc (answers c)) heffective

/-- A new child joins with its terminal, unless one of the two is lost. -/
theorem Owned.create (h : Owned d children) {fork : ℤ} (fdm : ℤ)
    (hsingle : ∀ q old, d c = some (q, old) → old.pid ≤ 0 ∧ fork ≤ 0)
    (hd' : d' = Function.update d c (some (p, ⟨fdm, fork, c⟩)) ∨ d c ≠ none ∧ d' = d) :
    Owned d' (ProcessCall.after children (.fork fork)) := by
  have hmem : ∀ pid ∈ ProcessCall.after children (.fork fork),
      0 < fork ∧ pid = fork ∨ pid ∈ children := by
    intro pid hpid
    by_cases hfork : 0 < fork
    · simp only [ProcessCall.after, if_pos hfork, List.mem_cons] at hpid
      exact hpid.imp (fun he => ⟨hfork, he⟩) id
    · simp only [ProcessCall.after, if_neg hfork] at hpid
      exact .inr hpid
  constructor
  · intro pid hpid
    rcases hmem pid hpid with ⟨hfork, rfl⟩ | hold
    · exact hfork
    · exact h.positive pid hold
  · intro pid hpid
    rcases hmem pid hpid with ⟨hfork, rfl⟩ | hold
    · rcases hd' with rfl | ⟨hsome, -⟩
      · exact ⟨c, p, ⟨fdm, pid, c⟩, Function.update_self .., rfl⟩
      · obtain ⟨⟨q, old⟩, hold⟩ := Option.ne_none_iff_exists'.mp hsome
        exact (not_lt.mpr (hsingle q old hold).2 hfork).elim
    · obtain ⟨c', q, old, hd, hpid'⟩ := h.owner pid hold
      refine ⟨c', q, old, ?_, hpid'⟩
      rcases hd' with rfl | ⟨-, rfl⟩
      · rw [Function.update_of_ne]
        · exact hd
        · rintro rfl
          have hpos := h.positive pid hold
          have hle := (hsingle q old hd).1
          omega
      · exact hd

theorem Owned.handle {spawn : Spawn} {i : Input} (h : Owned d children)
    (hmove : Handle spawn a i d out d') (heffective : AllEffective children (calls out))
    (hsingle : i.request.header.type = CHANNEL_SUBSCRIBE → ∀ fdm pid,
      (terminalNew spawn (cString i.memory)).1 = some (fdm, pid) →
      ∀ q old, d i.client = some (q, old) → old.pid ≤ 0 ∧ pid ≤ 0) :
    Owned d' (childrenAfter children (calls out)) := by
  cases hmove with
  | @refused created htype hnew =>
    rcases terminalNew_calls spawn (cString i.memory) with ⟨-, hcalls⟩ | ⟨hsome, -⟩
    · rw [hnew] at hcalls
      refine h.silent ?_
      rw [calls_append, hcalls]
      rfl
    · rw [hnew] at hsome
      cases hsome
  | @created _ p fdm pid _ htype hnew _ hd' =>
    rcases terminalNew_calls spawn (cString i.memory) with ⟨hnone, -⟩ | ⟨hsome, hcalls⟩
    · rw [hnew] at hnone
      cases hnone
    rw [hnew] at hsome hcalls
    obtain ⟨rfl, rfl⟩ : fdm = spawn.openpt ∧ pid = spawn.fork := by simpa using hsome
    rw [hcalls]
    exact h.create spawn.openpt (hsingle htype spawn.openpt spawn.fork (by rw [hnew])) hd'
  | @left p proc htype hd => exact h.kill hd (calls_killed p proc a) heffective
  | @broken p proc htype hd hw =>
    refine h.kill (a := a) hd ?_ heffective
    rw [calls_append, ← List.singleton_append, calls_append, calls_killed]
    exact List.append_nil _
  | stranger | resized | wrote | unwritable | ignored => exact h.silent rfl

end Moves

/-! ### Runs -/

variable {M : Type → Type → Type} [FiniteMap M]

/-- A client that has a terminal is given no other, except when neither has a child. -/
def Single (s : State M) (p : Pass) : Prop :=
  match p.selected with
  | .message i => i.request.header.type = CHANNEL_SUBSCRIBE → ∀ fdm pid,
      (terminalNew p.spawn (cString i.memory)).1 = some (fdm, pid) →
      ∀ q old, terminals (monitorProcesses s p).1 i.client = some (q, old) →
        old.pid ≤ 0 ∧ pid ≤ 0
  | _ => True

theorem owned_preserved :
    Preserved (M := M) Single fun d acts => AllEffective [] (calls (events acts)) →
      Owned d (childrenAfter [] (calls (events acts))) where
  poll s p d past out d' _ h hmove := by
    rw [events_append, events_did, calls_append, childrenAfter_append]
    intro heffective
    obtain ⟨hpast, hout⟩ := along_append.mp heffective
    exact (h hpast).poll hmove hout
  handle s p i past out d' hsingle hsel _ h hmove := by
    rw [events_append, events_received, events_did, calls_append, childrenAfter_append]
    intro heffective
    obtain ⟨hpast, hout⟩ := along_append.mp heffective
    simp only [Single, hsel] at hsingle
    exact (h hpast).handle hmove hout hsingle
  watch s p d past out d' _ _ _ _ h hmove := by
    rw [events_append, events_did, calls_append, childrenAfter_append]
    intro heffective
    obtain ⟨hpast, hout⟩ := along_append.mp heffective
    exact (h hpast).watch hmove hout

/-- In every run in which unreaped children can be killed and waited for, and no client that has a
terminal is given another, every child not yet reaped is the pid of an entry. -/
theorem children_have_entries {A : Antd} {answer : TunnelMsgH} {passes : List Pass}
    {acts : List Act} {s : State M}
    (hrun : Execution (fun s p acts s' => Logged A s p acts s' ∧ Single s p) (initial answer)
      passes acts s)
    (heffective : AllEffective [] (calls (events acts))) {pid : ℤ}
    (hpid : pid ∈ childrenAfter [] (calls (events acts))) :
    ∃ c p proc, find s.processes c = some p ∧ s.heap[p]?.join = some proc ∧ proc.pid = pid := by
  obtain ⟨howned, -⟩ := owned_preserved.run
    (fun _ => ⟨by simp [events, calls], by simp [events, calls]⟩) hrun
  obtain ⟨c, p, proc, hd, hproc⟩ := (howned heffective).owner pid hpid
  obtain ⟨hf, hlive⟩ := terminals_eq_some.mp hd
  exact ⟨c, p, proc, hf, hlive, hproc⟩

/-- Client 1 subscribes with child 7, which is polled once. -/
theorem children_have_entries_one_client : ∃ acts s,
    Execution (fun s p acts s' => Logged firstByteHost s p acts s' ∧ Single s p) start
      [quiet 0 7 (.message (.subscribe 1 97)), quiet 0 7 .timeout] acts s ∧
    childrenAfter [] (calls (events acts)) = [7] ∧
    ∃ c p proc, find s.processes c = some p ∧ s.heap[p]?.join = some proc ∧ proc.pid = 7 := by
  have habsent : terminals (monitorProcesses start
      (quiet 0 7 (.message (.subscribe 1 97)))).1 1 = none := by decide +kernel
  have hrun := execution_of_meets State.going
    (fun s p => ((turn firstByteHost s p).1, log firstByteHost s p)) Single start
    [quiet 0 7 (.message (.subscribe 1 97)), quiet 0 7 .timeout] (by decide +kernel)
    ⟨fun _ _ _ _ q old hd => (by cases habsent.symm.trans hd), trivial, trivial⟩
  exact ⟨_, _, hrun, by decide +kernel,
    children_have_entries hrun (by decide +kernel) (by decide +kernel)⟩

/-- Client 1 subscribes twice, and child 7 is in no entry. -/
theorem first_child_forgotten : ∃ acts s,
    Execution (Logged firstByteHost) start
      [quiet 0 7 (.message (.subscribe 1 97)), quiet 0 8 (.message (.subscribe 1 97))] acts s ∧
    AllPossible [] (calls (events acts)) ∧ AllEffective [] (calls (events acts)) ∧
    7 ∈ childrenAfter [] (calls (events acts)) ∧
    ∀ n ∈ entries s.processes, (s.heap[n.2]?.join).map VtermProc.pid ≠ some 7 := by
  refine ⟨_, _, execution_of_guardedRun _ _ _ _ (by decide +kernel), ?_, ?_, ?_, ?_⟩
  all_goals decide +kernel

end VtermChildren
