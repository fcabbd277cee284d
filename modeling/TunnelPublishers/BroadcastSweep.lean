import TunnelPublishers.BroadcastInvariant

/-!
# The final sweep

At shutdown every entry is visited once and keeps its node, while the last
visit of a handle releases it. A later visit that announces a user's groups
scans all nodes again and reads the handles released before. Which handle goes
first decides whether that happens.
-/
namespace BroadcastSweep

open FiniteMaps FiniteMap TunnelFraming ExecutionTraces BroadcastService BroadcastMachine
  BroadcastHandles BroadcastOutcomes BroadcastInvariant

variable {M : Type → Type → Type}

/-- Handles still to be visited are live, and counted by the visits to come. -/
structure Sweeping (A : Antd) (s : State M) (rest : List (UInt16 × ℕ)) : Prop where
  counted : ∀ n ∈ rest, ∃ bc, Live s.heap n.2 bc ∧ bc.ref = rest.countP fun m => m.2 = n.2
  buffer : s.msgBuffer.length = A.BUFFLEN

/-- The handles after a visit that does not fault. -/
def visited (s : State M) (p : ℕ) (bc : BcClient M) : List (Option (BcClient M)) :=
  s.heap.set p (if bc.ref ≤ 1 then none else some { bc with ref := bc.ref - 1 })

theorem live_visited {s : State M} {p q : ℕ} {bc bq : BcClient M} (hp : Live s.heap p bc)
    (hqp : q ≠ p) : Live (visited s p bc) q bq ↔ Live s.heap q bq := by
  rw [visited, live_set hp, if_neg hqp]

section Visit

variable {A : Antd} {s : State M} {n : UInt16 × ℕ} {rest : List (UInt16 × ℕ)} {bc : BcClient M}

/-- The count of the visited handle is one more than the visits left for it. -/
theorem Sweeping.head (h : Sweeping A s (n :: rest)) (hp : Live s.heap n.2 bc) :
    bc.ref = (rest.countP fun m => m.2 = n.2) + 1 := by
  obtain ⟨bc', hp', href⟩ := h.counted n List.mem_cons_self
  rw [hp.unique hp', href, List.countP_cons]
  simp

theorem Sweeping.last_iff (h : Sweeping A s (n :: rest)) (hp : Live s.heap n.2 bc) :
    bc.ref ≤ 1 ↔ n.2 ∉ rest.map Prod.snd := by
  have href := h.head hp
  have hcount : (rest.countP fun m => m.2 = n.2) = 0 ↔ n.2 ∉ rest.map Prod.snd := by
    rw [List.countP_eq_zero, List.mem_map]
    constructor
    · rintro hnone ⟨m, hm, hmp⟩
      exact hnone m hm (by simp [hmp])
    · intro hno m hm hmp
      exact hno ⟨m, hm, by simpa using hmp⟩
  rw [← hcount]
  omega

theorem Sweeping.next (h : Sweeping A s (n :: rest)) (hp : Live s.heap n.2 bc)
    {buffer : List UInt8} (hbuf : buffer.length = s.msgBuffer.length) :
    Sweeping A { s with heap := visited s n.2 bc, msgBuffer := buffer } rest := by
  have href := h.head hp
  refine ⟨?_, hbuf.trans h.buffer⟩
  intro m hm
  by_cases hmp : m.2 = n.2
  · have hpos : 0 < rest.countP fun m => m.2 = n.2 :=
      List.countP_pos_iff.mpr ⟨m, hm, by simp [hmp]⟩
    refine ⟨{ bc with ref := bc.ref - 1 }, ?_, ?_⟩
    · rw [hmp]
      exact (live_set hp).mpr (by rw [if_pos rfl, if_neg (by omega)])
    · change bc.ref - 1 = _
      rw [hmp]
      omega
  · obtain ⟨bm, hbm, hcount⟩ := h.counted m (List.mem_cons_of_mem n hm)
    refine ⟨bm, (live_visited hp hmp).mpr hbm, ?_⟩
    rw [hcount, List.countP_cons]
    simp [Ne.symm hmp]

end Visit

variable [FiniteMap M]

/-- Whether the handle at an address carries groups. -/
def grouped (heap : List (Option (BcClient M))) (p : ℕ) : Bool :=
  match heap[p]? with
  | some (some bc) => !(entries bc.groups).isEmpty
  | _ => false

theorem grouped_of_live {heap : List (Option (BcClient M))} {p : ℕ} {bc : BcClient M}
    (h : Live heap p bc) : grouped heap p = !(entries bc.groups).isEmpty := by
  unfold Live at h
  simp [grouped, h]

theorem grouped_visited {A : Antd} {s : State M} {n : UInt16 × ℕ} {rest : List (UInt16 × ℕ)}
    {bc : BcClient M} (h : Sweeping A s (n :: rest)) (hp : Live s.heap n.2 bc) {q : ℕ}
    (hq : q ∈ rest.map Prod.snd) : grouped (visited s n.2 bc) q = grouped s.heap q := by
  obtain ⟨m, hm, rfl⟩ := List.mem_map.mp hq
  by_cases hmp : m.2 = n.2
  · have hmore : ¬ bc.ref ≤ 1 := fun hlast => (h.last_iff hp).mp hlast (hmp ▸ hq)
    have hnew : Live (visited s n.2 bc) n.2 { bc with ref := bc.ref - 1 } :=
      (live_set hp).mpr (by rw [if_pos rfl, if_neg hmore])
    rw [hmp, grouped_of_live hp, grouped_of_live hnew]
  · obtain ⟨bm, hbm, -⟩ := h.counted m (List.mem_cons_of_mem n hm)
    rw [grouped_of_live hbm, grouped_of_live ((live_visited hp hmp).mpr hbm)]

/-- A node of the tree whose handle is gone. -/
def Dangling (s : State M) : Prop := ∃ n ∈ entries s.clients, ∀ bc, ¬ Live s.heap n.2 bc

theorem notify_dangling {heap : List (Option (BcClient M))} {nodes : List (UInt16 × ℕ)}
    (h : ∃ n ∈ nodes, ∀ bc, ¬ Live heap n.2 bc) (g : Int32) (msg : TunnelMsg) :
    forEach (bcNotify heap g) msg nodes = .error .releasedHandle := by
  induction nodes generalizing msg with
  | nil =>
    obtain ⟨n, hn, -⟩ := h
    cases hn
  | cons n nodes ih =>
    by_cases hlive : ∃ bc, Live heap n.2 bc
    · obtain ⟨bc, hbc⟩ := hlive
      have hrest : ∃ m ∈ nodes, ∀ bc, ¬ Live heap m.2 bc := by
        obtain ⟨m, hm, hgone⟩ := h
        rcases List.mem_cons.mp hm with rfl | hm
        · exact (hgone bc hbc).elim
        · exact ⟨m, hm, hgone⟩
      cases hf : find bc.groups g <;>
        simp [forEach, bcNotify, deref_eq_ok.mpr hbc, hf, ih hrest, bind, Except.bind, pure,
          Except.pure]
    · have hderef : deref heap n.2 = .error .releasedHandle := by
        unfold deref
        split
        · next bc hbc => exact (hlive ⟨bc, hbc⟩).elim
        · rfl
      exact forEach_cons_error (by simp [bcNotify, hderef, bind, Except.bind]) nodes

/-- Announcing the groups of a user with a dangling node in the tree reads its handle. -/
theorem unsubscribe_dangling {s : State M} {p : ℕ} {bc : BcClient M} (hp : Live s.heap p bc)
    (hlast : bc.ref ≤ 1) (hgroups : grouped s.heap p = true) (hd : Dangling s)
    (stack : TunnelMsgH) (key : UInt16) :
    unsubscribe s stack (some (key, p)) = .error .releasedHandle := by
  have hd' : ∃ n ∈ entries s.clients,
      ∀ bc', ¬ Live (s.heap.set p (some { bc with ref := bc.ref - 1 })) n.2 bc' := by
    obtain ⟨n, hn, hgone⟩ := hd
    refine ⟨n, hn, fun bc' hbc' => ?_⟩
    rw [live_set hp] at hbc'
    split at hbc'
    · next hnp => exact hgone bc (by rw [hnp]; exact hp)
    · exact hgone bc' hbc'
  have hzero : bc.ref - 1 ≤ 0 := by omega
  rw [grouped_of_live hp] at hgroups
  cases he : entries bc.groups with
  | nil => simp [he] at hgroups
  | cons e es =>
    simp [unsubscribe, deref_eq_ok.mpr hp, hzero, he, forEach, bcUnsubscription,
      notify_dangling hd', bind, Except.bind]

/-- A visit that does not announce groups past a dangling node goes through. -/
theorem unsubscribe_visits {A : Antd} {s : State M} {n : UInt16 × ℕ} {rest : List (UInt16 × ℕ)}
    {bc : BcClient M} (h : Sweeping A s (n :: rest)) (hp : Live s.heap n.2 bc)
    (hsafe : bc.ref ≤ 1 → grouped s.heap n.2 = true → ¬ Dangling s) (stack : TunnelMsgH) :
    ∃ buffer out, buffer.length = s.msgBuffer.length ∧ unsubscribe s stack (some n) =
      .ok ({ s with heap := visited s n.2 bc, msgBuffer := buffer }, out) := by
  have hroom := A.room
  have hbuf := h.buffer
  obtain ⟨buffer, hlen, hun⟩ := unsubscribe_spec hp (by omega) stack n.1 (by
    intro hlast hne m hm
    by_contra hgone
    refine hsafe hlast ?_ ⟨m, hm, fun bm hbm => hgone ⟨bm, hbm⟩⟩
    rw [grouped_of_live hp]
    simpa using hne)
  exact ⟨buffer, _, hlen, hun⟩

theorem Dangling.visited {s : State M} {p : ℕ} {bc : BcClient M} (hd : Dangling s)
    (hp : Live s.heap p bc) (buffer : List UInt8) :
    Dangling { s with heap := visited s p bc, msgBuffer := buffer } := by
  obtain ⟨n, hn, hgone⟩ := hd
  refine ⟨n, hn, fun bc' hbc' => ?_⟩
  by_cases hnp : n.2 = p
  · exact hgone bc (by rw [hnp]; exact hp)
  · exact hgone bc' ((live_visited hp hnp).mp hbc')

theorem dangling_released {s : State M} {n : UInt16 × ℕ} {bc : BcClient M}
    (hn : n ∈ entries s.clients) (hp : Live s.heap n.2 bc) (hlast : bc.ref ≤ 1)
    (buffer : List UInt8) :
    Dangling { s with heap := BroadcastSweep.visited s n.2 bc, msgBuffer := buffer } := by
  refine ⟨n, hn, fun bc' hbc' => ?_⟩
  have hcell := (live_set hp).mp hbc'
  rw [if_pos rfl, if_pos hlast] at hcell
  cases hcell

/-! ### Whole sweeps -/

/-- The handles in the order in which a sweep releases them: by their last visits. -/
def releases (order : List (UInt16 × ℕ)) : List ℕ := (order.map Prod.snd).dedup

theorem releases_cons (n : UInt16 × ℕ) (rest : List (UInt16 × ℕ)) :
    releases (n :: rest) =
      if n.2 ∈ rest.map Prod.snd then releases rest else n.2 :: releases rest := by
  unfold releases
  split
  · next h => exact List.dedup_cons_of_mem h
  · next h => exact List.dedup_cons_of_notMem h

theorem mem_releases {order : List (UInt16 × ℕ)} {p : ℕ} :
    p ∈ releases order ↔ p ∈ order.map Prod.snd := List.mem_dedup

/-- What is left of a sweep reads a released handle just when one of some handles has groups. -/
def SweepOutcome (s : State M) (stack : UInt16 → TunnelMsgH) (rest : List (UInt16 × ℕ))
    (handles : List ℕ) : Prop :=
  (∀ p ∈ handles, grouped s.heap p = false) ∧ (∃ r, unsubscribeAll s stack rest = .ok r) ∨
    (∃ p ∈ handles, grouped s.heap p = true) ∧
      unsubscribeAll s stack rest = .error .releasedHandle

theorem SweepOutcome.cons {A : Antd} {s : State M} {stack : UInt16 → TunnelMsgH}
    {n : UInt16 × ℕ} {rest : List (UInt16 × ℕ)} {bc : BcClient M} {buffer : List UInt8}
    {out : List TunnelMsg} {handles : List ℕ} (h : Sweeping A s (n :: rest))
    (hp : Live s.heap n.2 bc)
    (hun : unsubscribe s (stack n.1) (some n) =
      .ok ({ s with heap := visited s n.2 bc, msgBuffer := buffer }, out))
    (hsub : ∀ p ∈ handles, p ∈ rest.map Prod.snd)
    (hrest : SweepOutcome { s with heap := visited s n.2 bc, msgBuffer := buffer } stack rest
      handles) : SweepOutcome s stack (n :: rest) handles := by
  have hsweep := forEach_cons_ok (f := fun s n => unsubscribe s (stack n.1) (some n)) hun rest
  rcases hrest with ⟨hplain, r, hr⟩ | ⟨⟨p, hmem, hgroup⟩, hr⟩
  · refine Or.inl ⟨?_, _, hsweep.trans (by rw [show forEach _ _ rest = .ok r from hr]; rfl)⟩
    intro p hmem
    rw [← grouped_visited h hp (hsub p hmem)]
    exact hplain p hmem
  · refine Or.inr ⟨⟨p, hmem, ?_⟩,
      hsweep.trans (by rw [show forEach _ _ rest = .error .releasedHandle from hr]; rfl)⟩
    rw [← grouped_visited h hp (hsub p hmem)]
    exact hgroup

/-- After the first release, the first user with groups to be released is fatal. -/
theorem sweep_dangling {A : Antd} {stack : UInt16 → TunnelMsgH} {rest : List (UInt16 × ℕ)}
    {s : State M} (h : Sweeping A s rest) (hd : Dangling s) :
    SweepOutcome s stack rest (releases rest) := by
  induction rest generalizing s with
  | nil => exact Or.inl ⟨by simp [releases], _, rfl⟩
  | cons n rest ih =>
    obtain ⟨bc, hp, -⟩ := h.counted n List.mem_cons_self
    by_cases hfatal : bc.ref ≤ 1 ∧ grouped s.heap n.2 = true
    · refine Or.inr ⟨⟨n.2, mem_releases.mpr (by simp), hfatal.2⟩, ?_⟩
      exact forEach_cons_error (unsubscribe_dangling hp hfatal.1 hfatal.2 hd _ _) rest
    · obtain ⟨buffer, out, hlen, hun⟩ := unsubscribe_visits h hp
        (fun hlast hgroup => (hfatal ⟨hlast, hgroup⟩).elim) (stack n.1)
      have hnext := SweepOutcome.cons h hp hun (fun p hmem => mem_releases.mp hmem)
        (ih (h.next hp hlen) (hd.visited hp buffer))
      rw [releases_cons]
      split
      · exact hnext
      · next hlast =>
        have hplain : grouped s.heap n.2 = false := by
          by_contra hgroup
          exact hfatal ⟨(h.last_iff hp).mpr hlast, by simpa using hgroup⟩
        rcases hnext with ⟨hall, hr⟩ | ⟨⟨p, hmem, hgroup⟩, hr⟩
        · exact Or.inl ⟨by simpa [hplain] using hall, hr⟩
        · exact Or.inr ⟨⟨p, List.mem_cons_of_mem _ hmem, hgroup⟩, hr⟩

/-- Until the first release nothing dangles, so the first handle may have groups. -/
theorem sweep_intact {A : Antd} (stack : UInt16 → TunnelMsgH) {rest : List (UInt16 × ℕ)}
    {s : State M} (h : Sweeping A s rest) (hd : ¬ Dangling s)
    (hnodes : ∀ n ∈ rest, n ∈ entries s.clients) :
    SweepOutcome s stack rest (releases rest).tail := by
  induction rest generalizing s with
  | nil => exact Or.inl ⟨by simp [releases], _, rfl⟩
  | cons n rest ih =>
    obtain ⟨bc, hp, -⟩ := h.counted n List.mem_cons_self
    obtain ⟨buffer, out, hlen, hun⟩ := unsubscribe_visits h hp (fun _ _ => hd) (stack n.1)
    rw [releases_cons]
    split
    · next hmore =>
      have hlive : ¬ bc.ref ≤ 1 := fun hlast => (h.last_iff hp).mp hlast hmore
      refine SweepOutcome.cons h hp hun
        (fun p hmem => mem_releases.mp (List.mem_of_mem_tail hmem)) (ih (h.next hp hlen) ?_ ?_)
      · rintro ⟨m, hm, hgone⟩
        by_cases hmp : m.2 = n.2
        · exact hgone _ ((live_set hp).mpr (by rw [if_pos hmp, if_neg hlive]))
        · exact hd ⟨m, hm, fun bm hbm => hgone bm ((live_visited hp hmp).mpr hbm)⟩
      · exact fun m hm => hnodes m (List.mem_cons_of_mem n hm)
    · next hlast =>
      exact SweepOutcome.cons h hp hun (fun p hmem => mem_releases.mp hmem)
        (sweep_dangling (h.next hp hlen) (dangling_released (hnodes n List.mem_cons_self) hp
          ((h.last_iff hp).mpr hlast) buffer))

theorem sweeping_start {A : Antd} {s : State M} (h : Invariant A s) {order : List (UInt16 × ℕ)}
    (horder : order.Perm (entries s.clients)) : Sweeping A s order := by
  refine ⟨?_, h.buffer⟩
  intro n hn
  obtain ⟨bc, hp⟩ := h.nodes_live n (horder.mem_iff.mp hn)
  exact ⟨bc, hp, by rw [h.counted n.2 bc hp, references, horder.countP_eq]⟩

/-- The sweep from a reachable state reads no released handle, in whatever order it visits the
nodes, if and only if every handle with groups is the first one it releases. -/
theorem sweep_reads_live_iff {A : Antd} {s : State M} (hs : Reachable A s)
    {order : List (UInt16 × ℕ)} (horder : order.Perm (entries s.clients))
    (stack : UInt16 → TunnelMsgH) :
    unsubscribeAll s stack order ≠ .error .releasedHandle ↔
      ∀ p ∈ (releases order).tail, grouped s.heap p = false := by
  have hinv := reachable_invariant hs
  have hintact : ¬ Dangling s := by
    rintro ⟨n, hn, hgone⟩
    obtain ⟨bc, hp⟩ := hinv.nodes_live n hn
    exact hgone bc hp
  rcases sweep_intact stack (sweeping_start hinv horder) hintact
    (fun n hn => horder.mem_iff.mp hn) with ⟨hall, r, hr⟩ | ⟨⟨p, hmem, hgroup⟩, hr⟩
  · rw [hr]
    exact iff_of_true (by simp) hall
  · rw [hr]
    refine iff_of_false (by simp) fun hall => ?_
    rw [hall p hmem] at hgroup
    cases hgroup

/-- User `A` is in no group, user `B` in group `G`. -/
def oneGrouped : State AssocList :=
  stateAfter firstByteHost channelOk [.subscribe 1 65, .subscribe 2 66, .ctrl 2 0x0A 71]

/-- The user with a group, visited first: the sweep goes through. -/
theorem sweep_reads_live_grouped_first :
    unsubscribeAll oneGrouped (fun _ => ⟨0, 0, 0, 0⟩) [(2, 1), (1, 0)] ≠ .error .releasedHandle :=
  (sweep_reads_live_iff (stateAfter_reachable _ _ _) (by decide +kernel) _).mpr
    (by decide +kernel)

/-- The same state in key order: the second visit scans the first node, whose handle is gone. -/
theorem sweep_reads_released_handle : Reachable firstByteHost oneGrouped ∧
    [(1, 0), (2, 1)].Perm (entries oneGrouped.clients) ∧
    unsubscribeAll oneGrouped (fun _ => ⟨0, 0, 0, 0⟩) [(1, 0), (2, 1)] =
      .error .releasedHandle :=
  ⟨stateAfter_reachable _ _ _, by decide +kernel, rfl⟩

end BroadcastSweep
