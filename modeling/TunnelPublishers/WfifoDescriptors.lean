import TunnelPublishers.WfifoPrivacy

/-!
# The descriptors of the FIFO service

A descriptor is opened for the hash of a path, kept under it for the rest of the
run and shared by the clients mapped to it. What cannot be given to its user is
closed at once, so what is open at the head of the loop is what is kept, and
the sweep at the end closes that.
-/
namespace WfifoDescriptors

open FiniteMaps FiniteMap TunnelFraming ExecutionTraces KernelTables WfifoService WfifoPrivacy

abbrev openAfter (trace : List Event) : List ℤ := (descriptors trace).foldl DescriptorCall.after []

/-- What `open` gives is positive and not in use. -/
abbrev AllFresh : List Event → Prop :=
  fun trace => Along DescriptorCall.after DescriptorCall.Fresh [] (descriptors trace)

theorem mem_descriptors_opened {path : List UInt8} {fd : ℤ} {out : List Event}
    (h : .opened path fd ∈ out) : DescriptorCall.opened fd ∈ descriptors out :=
  List.mem_filterMap.mpr ⟨_, h, rfl⟩

theorem mem_descriptors_closed {fd : ℤ} {out : List Event} (h : .closed fd ∈ out) :
    DescriptorCall.closed fd ∈ descriptors out :=
  List.mem_filterMap.mpr ⟨_, h, rfl⟩

/-- An opening is among the later events or among the earlier ones. -/
theorem opened_suffix {path : List UInt8} {fd : ℤ} {past out post : List Event}
    (h : .opened path fd :: post <:+ past ++ out) :
    .opened path fd :: post <:+ out ∨
      ∃ post', .opened path fd :: post' <:+ past ∧ post = post' ++ out := by
  rcases List.suffix_or_suffix_of_suffix h (List.suffix_append past out) with hout | ⟨t, ht⟩
  · exact Or.inl hout
  · cases t with
    | nil => exact Or.inl (ht ▸ List.suffix_refl _)
    | cons e post' =>
      obtain ⟨rfl, hpost⟩ := List.cons.inj ht
      obtain ⟨before, hb⟩ := h
      rw [← ht, ← List.append_assoc] at hb
      exact Or.inr ⟨post', ⟨before, List.append_cancel_right hb⟩, hpost.symm⟩

variable {M : Type → Type → Type} [FiniteMap M]

/-- The books at the head of the loop, with the whole trace behind it. -/
structure Ledger (clients : M UInt16 ℤ) (handles : M Int32 ℤ) (trace : List Event) : Prop where
  mapped : ∀ c fd, find clients c = some fd → ∃ k, find handles k = some fd
  apart : ∀ k k' fd, find handles k = some fd → find handles k' = some fd → k = k'
  positive : ∀ k fd, find handles k = some fd → 0 < fd
  /-- What is open is what is kept. -/
  listed : ∀ fd, fd ∈ openAfter trace ↔ ∃ k, find handles k = some fd
  paired : Along DescriptorCall.after DescriptorCall.Paired [] (descriptors trace)
  /-- What was opened is kept and was not closed, or was closed right after a failed `chown`. -/
  kept : ∀ path fd post, .opened path fd :: post <:+ trace →
    (∃ k, find handles k = some fd) ∧ .closed fd ∉ post ∨
      ∃ uid rest, post = .owned path uid (-1) :: .closed fd :: rest

section

variable {clients clients' : M UInt16 ℤ} {handles handles' : M Int32 ℤ} {past out : List Event}

theorem Ledger.remap (h : Ledger clients handles past)
    (hclients : ∀ c fd, find clients' c = some fd → ∃ k, find handles k = some fd) :
    Ledger clients' handles past :=
  ⟨hclients, h.apart, h.positive, h.listed, h.paired, h.kept⟩

/-- Openings of the past stay accounted for while what is kept stays open. -/
theorem Ledger.old_kept (h : Ledger clients handles past)
    (hkeep : ∀ k fd, find handles k = some fd → find handles' k = some fd)
    (hopen : ∀ k fd, find handles k = some fd → .closed fd ∉ out) {path : List UInt8} {fd : ℤ}
    {post : List Event} (hpost : .opened path fd :: post <:+ past) :
    (∃ k, find handles' k = some fd) ∧ .closed fd ∉ post ++ out ∨
      ∃ uid rest, post ++ out = .owned path uid (-1) :: .closed fd :: rest := by
  rcases h.kept path fd post hpost with ⟨⟨k, hk⟩, hnot⟩ | ⟨uid, rest, rfl⟩
  · refine Or.inl ⟨⟨k, hkeep k fd hk⟩, fun hc => ?_⟩
    rcases List.mem_append.mp hc with hc | hc
    · exact hnot hc
    · exact hopen k fd hk hc
  · exact Or.inr ⟨uid, rest ++ out, rfl⟩

theorem Ledger.silent (h : Ledger clients handles past) (hout : descriptors out = []) :
    Ledger clients handles (past ++ out) := by
  have hsame : descriptors (past ++ out) = descriptors past := by
    rw [descriptors_append, hout, List.append_nil]
  refine ⟨h.mapped, h.apart, h.positive, ?_, by rw [hsame]; exact h.paired, ?_⟩
  · rw [openAfter, hsame]
    exact h.listed
  · intro path fd post hpost
    rcases opened_suffix hpost with hnew | ⟨post', hold, rfl⟩
    · have hmem := mem_descriptors_opened (hnew.mem List.mem_cons_self)
      rw [hout] at hmem
      cases hmem
    · refine h.old_kept (fun _ _ hk => hk) (fun k fd _ hc => ?_) hold
      have hmem := mem_descriptors_closed hc
      rw [hout] at hmem
      cases hmem

/-- A descriptor opened and kept. -/
theorem Ledger.keep (h : Ledger clients handles past) (path : List UInt8) {k : Int32} {fd : ℤ}
    (hnone : find handles k = none) (hpos : 0 < fd) (hfresh : fd ∉ openAfter past) :
    Ledger clients (insert handles k fd) (past ++ [.opened path fd]) := by
  have hkeep : ∀ k' fd', find handles k' = some fd' → find (insert handles k fd) k' = some fd' := by
    intro k' fd' hk'
    rw [find_insert_ne _ _ fun he => by rw [he, hnone] at hk'; cases hk']
    exact hk'
  have hsame : descriptors (past ++ [.opened path fd]) = descriptors past ++ [.opened fd] :=
    descriptors_append past [.opened path fd]
  have hmem : ∀ fd', fd' ∈ openAfter (past ++ [.opened path fd]) ↔
      fd' = fd ∨ fd' ∈ openAfter past := by
    intro fd'
    rw [openAfter, hsame, List.foldl_append]
    exact List.mem_cons
  have hheld := find_insert_absent fd hnone
  constructor
  · intro c fd' hc
    obtain ⟨k', hk'⟩ := h.mapped c fd' hc
    exact ⟨k', hkeep k' fd' hk'⟩
  · intro k₁ k₂ fd' h₁ h₂
    have hold : ∀ k', find handles k' ≠ some fd :=
      fun k' hk' => hfresh ((h.listed fd).mpr ⟨k', hk'⟩)
    rcases find_insert_some h₁ with he₁ | h₁ <;> rcases find_insert_some h₂ with he₂ | h₂
    · rw [(Prod.mk.inj he₁).1, (Prod.mk.inj he₂).1]
    · exact (hold k₂ ((Prod.mk.inj he₁).2 ▸ h₂)).elim
    · exact (hold k₁ ((Prod.mk.inj he₂).2 ▸ h₁)).elim
    · exact h.apart k₁ k₂ fd' h₁ h₂
  · intro k' fd' hk'
    rcases find_insert_some hk' with he | hk'
    · rw [(Prod.mk.inj he).2]
      exact hpos
    · exact h.positive k' fd' hk'
  · intro fd'
    rw [hmem, h.listed]
    constructor
    · rintro (rfl | ⟨k', hk'⟩)
      · exact ⟨k, hheld⟩
      · exact ⟨k', hkeep k' fd' hk'⟩
    · rintro ⟨k', hk'⟩
      rcases find_insert_some hk' with he | hk'
      · exact Or.inl (Prod.mk.inj he).2
      · exact Or.inr ⟨k', hk'⟩
  · rw [hsame, along_append]
    exact ⟨h.paired, hfresh, trivial⟩
  · intro path' fd' post hpost
    rcases opened_suffix hpost with hnew | ⟨post', hold, rfl⟩
    · obtain ⟨he, rfl⟩ : Event.opened path' fd' = .opened path fd ∧ post = [] := by
        rcases List.suffix_cons_iff.mp hnew with he | hnil
        · exact List.cons.inj he
        · exact absurd (List.suffix_nil.mp hnil) (by simp)
      obtain ⟨rfl, rfl⟩ := Event.opened.inj he
      exact Or.inl ⟨⟨k, hheld⟩, by simp⟩
    · exact h.old_kept hkeep (fun _ _ _ hc => by simp at hc) hold

/-- A descriptor closed because its FIFO could not be given away. -/
theorem Ledger.reject (h : Ledger clients handles past) (path : List UInt8) (uid : UInt32) {fd : ℤ}
    (hfresh : fd ∉ openAfter past) :
    Ledger clients handles (past ++ [.opened path fd, .owned path uid (-1), .closed fd]) := by
  have hsame : descriptors (past ++ [.opened path fd, .owned path uid (-1), .closed fd]) =
      descriptors past ++ [.opened fd, .closed fd] := descriptors_append past _
  have htable : openAfter (past ++ [.opened path fd, .owned path uid (-1), .closed fd]) =
      openAfter past := by
    rw [openAfter, hsame, List.foldl_append]
    have hfilter : (openAfter past).filter (· ≠ fd) = openAfter past := by
      apply List.filter_eq_self.mpr
      intro fd' hfd'
      simp only [ne_eq, decide_not, Bool.not_eq_eq_eq_not, Bool.not_true, decide_eq_false_iff_not]
      rintro rfl
      exact hfresh hfd'
    simpa [DescriptorCall.after] using hfilter
  refine ⟨h.mapped, h.apart, h.positive, by rw [htable]; exact h.listed, ?_, ?_⟩
  · rw [hsame, along_append]
    exact ⟨h.paired, hfresh, List.mem_cons_self, trivial⟩
  · intro path' fd' post hpost
    rcases opened_suffix hpost with hnew | ⟨post', hold, rfl⟩
    · have hne : ∀ l : List Event, .opened path' fd' :: post <:+ l →
          DescriptorCall.opened fd' ∈ descriptors l :=
        fun l hl => mem_descriptors_opened (hl.mem List.mem_cons_self)
      rcases List.suffix_cons_iff.mp hnew with he | hrest
      · obtain ⟨hopened, rfl⟩ := List.cons.inj he
        obtain ⟨rfl, rfl⟩ := Event.opened.inj hopened
        exact Or.inr ⟨uid, [], rfl⟩
      · exact absurd (hne _ hrest) (by simp [descriptors])
    · refine h.old_kept (fun _ _ hk => hk) (fun k fd₀ hk hc => ?_) hold
      have he : fd₀ = fd := by simpa using hc
      exact hfresh ((h.listed fd).mpr ⟨k, he ▸ hk⟩)

end

/-! ### One call of `init_fifo` -/

section

variable {A : Antd} {clients : M UInt16 ℤ} {handles : M Int32 ℤ} {past : List Event}
  {a : Opening} {path : List UInt8} {uid : Option UInt32}

/-- After a call the books are right, and a descriptor returned is one that is kept. -/
structure Booked (clients : M UInt16 ℤ) (past : List Event) (r : ℤ × M Int32 ℤ × List Event) :
    Prop where
  ledger : Ledger clients r.2.1 (past ++ r.2.2)
  returned : r.1 ≠ -1 → ∃ k, find r.2.1 k = some r.1

theorem fresh_opened (pre post : List Event) {path : List UInt8} {fd : ℤ}
    (hpre : descriptors pre = []) (h : AllFresh (past ++ (pre ++ .opened path fd :: post))) :
    0 < fd ∧ fd ∉ openAfter (past ++ pre) := by
  have hsame : descriptors (past ++ pre) = descriptors past := by
    rw [descriptors_append, hpre, List.append_nil]
  rw [AllFresh, ← List.append_assoc, descriptors_append, along_append] at h
  exact h.2.1

theorem openFifo_booked (h : Ledger clients handles past) {k : Int32}
    (hnone : find handles k = none)
    (hfresh : AllFresh (past ++ (openFifo handles a k path uid).2.2)) :
    Booked clients past (openFifo handles a k path uid) := by
  have hmade : Ledger clients handles (past ++ [.unlinked path, .created path a.mkfifo]) :=
    h.silent rfl
  rcases openFifo_cases handles a k path uid with hr | ⟨user, hr⟩ | ⟨owned, howned, hr⟩ <;>
    rw [hr] at hfresh ⊢
  · exact ⟨hmade, fun hr => (hr rfl).elim⟩
  · obtain ⟨-, hnew⟩ := fresh_opened [.unlinked path, .created path a.mkfifo]
      [.owned path user (-1), .closed a.open] rfl hfresh
    refine ⟨?_, fun hr => (hr rfl).elim⟩
    have hbook := hmade.reject path user hnew
    rw [List.append_assoc] at hbook
    exact hbook
  · obtain ⟨hpos, hnew⟩ := fresh_opened [.unlinked path, .created path a.mkfifo] owned rfl hfresh
    have hsilent : descriptors owned = [] := by rcases howned with rfl | ⟨user, rfl⟩ <;> rfl
    refine ⟨?_, fun _ => ⟨k, find_insert_absent a.open hnone⟩⟩
    have hbook := (hmade.keep path hnone hpos hnew).silent hsilent
    rw [List.append_assoc, List.append_assoc] at hbook
    exact hbook

theorem lookupFifo_booked (h : Ledger clients handles past)
    (hfresh : AllFresh (past ++ (lookupFifo A handles a path uid).2.2)) :
    Booked clients past (lookupFifo A handles a path uid) := by
  rcases lookupFifo_cases A handles a path uid with ⟨hzero, hr⟩ | ⟨fd, -, hfind, hr⟩ <;>
    rw [hr] at hfresh ⊢
  · have hnone : find handles (A.simpleHash path) = none := by
      rw [Option.eq_none_iff_forall_ne_some]
      intro fd hfind
      exact (h.positive _ fd hfind).ne' (hzero fd hfind)
    exact openFifo_booked h hnone hfresh
  · exact ⟨h.silent rfl, fun _ => ⟨_, hfind⟩⟩

theorem initFifo_booked {base : List UInt8} {user : Option (List UInt8)}
    (h : Ledger clients handles past)
    (hfresh : AllFresh (past ++ (initFifo A handles a base user).2.2)) :
    Booked clients past (initFifo A handles a base user) := by
  have hquiet : Booked clients past ((-1, handles, []) : ℤ × M Int32 ℤ × List Event) :=
    ⟨h.silent rfl, fun hr => (hr rfl).elim⟩
  rcases initFifo_cases A handles a base user with hr | ⟨path, uid, hr⟩ <;> rw [hr] at hfresh ⊢
  · exact hquiet
  · exact lookupFifo_booked h hfresh

end

/-! ### Turns and runs -/

section

variable {A : Antd} {x : Args} {s : State M} {past : List Event}

theorem channelSubscribe_ledger {p : Pass} {i : Input} (h : Ledger s.clients s.fifoHandles past)
    (hfresh : AllFresh (past ++ (channelSubscribe A x s p i).2)) :
    Ledger (channelSubscribe A x s p i).1.clients (channelSubscribe A x s p i).1.fifoHandles
      (past ++ (channelSubscribe A x s p i).2) := by
  rw [channelSubscribe_out] at hfresh ⊢
  obtain ⟨hbook, hreturned⟩ := initFifo_booked h hfresh
  simp only [channelSubscribe]
  split
  · next hok =>
    refine hbook.remap fun c fd hc => ?_
    rcases find_insert_some hc with he | hc
    · rw [(Prod.mk.inj he).2]
      exact hreturned hok
    · exact hbook.mapped c fd hc
  · exact hbook

theorem turn_ledger (p : Pass) (h : Ledger s.clients s.fifoHandles past)
    (hfresh : AllFresh (past ++ (turn A x s p).2)) :
    Ledger (turn A x s p).1.clients (turn A x s p).1.fifoHandles (past ++ (turn A x s p).2) := by
  rcases turn_cases A x s p with ⟨i, -, -, hhandles, hclients, hout⟩ | ⟨hhandles, hclients, hout⟩
  · rw [hout] at hfresh
    rw [hout, hhandles, hclients]
    exact channelSubscribe_ledger h hfresh
  · rw [hhandles]
    exact (h.silent hout).remap fun c fd hc => h.mapped c fd (hclients c fd hc)

theorem initial_ledger (A : Antd) (x : Args) (answer : TunnelMsgH) {a : Opening}
    (hfresh : AllFresh (initial A x answer a : State M × List Event).2) :
    Ledger (initial A x answer a : State M × List Event).1.clients
      (initial A x answer a : State M × List Event).1.fifoHandles
      (initial A x answer a : State M × List Event).2 := by
  have hempty : Ledger (empty : M UInt16 ℤ) (empty : M Int32 ℤ) [] :=
    ⟨by simp, by simp, by simp, by simp [openAfter, descriptors], trivial, by simp⟩
  exact (initFifo_booked hempty hfresh).ledger

theorem run_ledger {answer : TunnelMsgH} {a : Opening} {passes : List Pass} {trace : List Event}
    (hrun : Execution (Step A x) (initial A x answer a).1 passes trace s)
    (hfresh : AllFresh ((initial A x answer a : State M × List Event).2 ++ trace)) :
    Ledger s.clients s.fifoHandles ((initial A x answer a : State M × List Event).2 ++ trace) := by
  revert hfresh
  refine hrun.history (I := fun s trace =>
    AllFresh ((initial A x answer a : State M × List Event).2 ++ trace) →
    Ledger s.clients s.fifoHandles ((initial A x answer a : State M × List Event).2 ++ trace))
    ?_ ?_
  · rintro u past p out v ih ⟨-, hturn⟩ hfresh
    rw [← List.append_assoc] at hfresh ⊢
    have hpast : AllFresh ((initial A x answer a : State M × List Event).2 ++ past) := by
      rw [AllFresh, descriptors_append, along_append] at hfresh
      exact hfresh.1
    have hledger := turn_ledger (A := A) (x := x) p (ih hpast) (by rw [hturn]; exact hfresh)
    rwa [hturn] at hledger
  · intro hfresh
    rw [List.append_nil] at hfresh ⊢
    exact initial_ledger A x answer hfresh

/-! ### The sweep -/

theorem descriptors_shutdown (s : State M) (stack : TunnelMsgH)
    (hpos : ∀ k fd, find s.fifoHandles k = some fd → 0 < fd) :
    descriptors (shutdown s stack) =
      ((entries s.fifoHandles).map Prod.snd).map DescriptorCall.closed := by
  have hclosed : ∀ nodes : List (Int32 × ℤ), (∀ n ∈ nodes, 0 < n.2) →
      descriptors (nodes.flatMap fun n => if 0 < n.2 then [.closed n.2] else []) =
        (nodes.map Prod.snd).map DescriptorCall.closed := by
    intro nodes
    induction nodes with
    | nil => exact fun _ => rfl
    | cons n nodes ih =>
      intro hnodes
      rw [List.flatMap_cons, descriptors_append,
        ih fun n' hn' => hnodes n' (List.mem_cons_of_mem n hn'),
        if_pos (hnodes n List.mem_cons_self)]
      rfl
  have hsent : descriptors ((entries s.clients).map fun n =>
      .sent (frame CHANNEL_UNSUBSCRIBE stack.channelId n.1 [])) = [] :=
    descriptors_transfer fun e he => by
      obtain ⟨n, -, rfl⟩ := List.mem_map.mp he
      trivial
  rw [shutdown, descriptors_append, descriptors_append, hsent,
    hclosed _ fun n hn => hpos n.1 n.2 (mem_entries.mp hn)]
  simp [descriptors]

/-- At the head of the loop the books are right; after the sweep every opening has its closing. -/
theorem descriptors_accounted {answer : TunnelMsgH} {a : Opening} {passes : List Pass}
    {trace : List Event} (hrun : Execution (Step A x) (initial A x answer a).1 passes trace s)
    (hfresh : AllFresh ((initial A x answer a : State M × List Event).2 ++ trace))
    (stack : TunnelMsgH) :
    Ledger s.clients s.fifoHandles ((initial A x answer a : State M × List Event).2 ++ trace) ∧
      Balanced (descriptors ((initial A x answer a : State M × List Event).2 ++ trace ++
        shutdown s stack)) := by
  have h := run_ledger hrun hfresh
  refine ⟨h, ?_⟩
  generalize (initial A x answer a : State M × List Event).2 ++ trace = past at h
  have hnodup : ((entries s.fifoHandles).map Prod.snd).Nodup := by
    refine (nodup_entries s.fifoHandles).map_on ?_
    rintro ⟨k, fd⟩ hk ⟨k', fd'⟩ hk' rfl
    rw [h.apart k k' fd (mem_entries.mp hk) (mem_entries.mp hk')]
  have hheld : ∀ fd, fd ∈ (entries s.fifoHandles).map Prod.snd ↔ fd ∈ openAfter past := by
    intro fd
    rw [h.listed, List.mem_map]
    constructor
    · rintro ⟨⟨k, fd⟩, hk, rfl⟩
      exact ⟨k, mem_entries.mp hk⟩
    · rintro ⟨k, hk⟩
      exact ⟨(k, fd), mem_entries.mpr hk, rfl⟩
  obtain ⟨hpaired, hleft⟩ := closed_paired hnodup fun fd hfd => (hheld fd).mp hfd
  rw [descriptors_append, descriptors_shutdown s stack h.positive]
  apply balanced_of_paired
  · exact along_append.mpr ⟨h.paired, hpaired⟩
  · rw [List.foldl_append, hleft]
    apply List.filter_eq_nil_iff.mpr
    intro fd hfd
    simpa using (hheld fd).mpr hfd

end

/-- The users `a` and `b` are given a FIFO each, and both are closed at the end. -/
theorem descriptors_accounted_two_users : ∃ trace s,
    Execution (Step thirdByteHost readers) start (twoUsers [97] [98] (by decide) (by decide))
      trace s ∧
    descriptors (trace ++ shutdown s ⟨0, 0, 0, 0⟩) =
      [.opened 5, .opened 6, .closed 6, .closed 5] ∧
    Balanced (descriptors (trace ++ shutdown s ⟨0, 0, 0, 0⟩)) := by
  have hrun := execution_of_guardedRun State.running (turn thirdByteHost readers) start
    (twoUsers [97] [98] (by decide) (by decide)) (by decide +kernel)
  exact ⟨_, _, hrun, by decide +kernel,
    (descriptors_accounted hrun (by decide +kernel) ⟨0, 0, 0, 0⟩).2⟩

end WfifoDescriptors
