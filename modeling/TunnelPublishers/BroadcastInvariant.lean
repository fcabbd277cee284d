import TunnelPublishers.BroadcastOutcomes

/-!
# The handle invariant over all runs

Each change of an entry or a handle keeps the invariant; an outcome makes one
such change. Reachable states therefore have it, and a handle is released by
the departure of its last client only.
-/
namespace BroadcastInvariant

open FiniteMaps FiniteMap TunnelFraming ExecutionTraces BroadcastService BroadcastMachine
  BroadcastHandles BroadcastOutcomes

variable {M : Type → Type → Type} [FiniteMap M]

theorem references_insert {clients : M UInt16 ℕ} {c : UInt16} (hc : find clients c = none)
    (p q : ℕ) :
    references (insert clients c p) q = references clients q + if q = p then 1 else 0 := by
  rw [references, (entries_insert hc p).countP_eq, List.countP_cons, references]
  by_cases hq : q = p
  · simp [hq]
  · simp [hq, Ne.symm hq]

theorem references_delete {clients : M UInt16 ℕ} {c : UInt16} {p : ℕ}
    (hc : find clients c = some p) (q : ℕ) :
    references clients q = references (delete clients c) q + if q = p then 1 else 0 := by
  rw [references, (entries_delete hc).countP_eq, List.countP_cons, references]
  by_cases hq : q = p
  · simp [hq]
  · simp [hq, Ne.symm hq]

section Preservation

variable {clients : M UInt16 ℕ} {heap : List (Option (BcClient M))} {c : UInt16} {p : ℕ}
  {bc : BcClient M}

/-- Handles are identified by their names, so an update must keep the name. -/
theorem distinct_set (h : HandleInvariant clients heap) (hp : Live heap p bc)
    {cell : Option (BcClient M)} (hname : ∀ bc', cell = some bc' → bc'.name = bc.name) :
    ∀ q r bq br, Live (heap.set p cell) q bq → Live (heap.set p cell) r br →
      bq.name = br.name → q = r := by
  intro q r bq br hq hr hn
  rw [live_set hp] at hq hr
  split at hq <;> split at hr
  · next hqp hrp => rw [hqp, hrp]
  · next hqp _ => rw [hqp]; exact h.distinct p r bc br hp hr (by rw [← hn, hname bq hq])
  · next _ hrp => rw [hrp]; exact h.distinct q p bq bc hq hp (by rw [hn, hname br hr])
  · exact h.distinct q r bq br hq hr hn

theorem update_preserves (h : HandleInvariant clients heap) (hp : Live heap p bc)
    {bc' : BcClient M} (hname : bc'.name = bc.name) (href : bc'.ref = bc.ref) :
    HandleInvariant clients (heap.set p (some bc')) := by
  refine ⟨?_, ?_, ?_, distinct_set h hp fun b hb => by cases hb; exact hname⟩
  · intro c q hc
    obtain ⟨bq, hq⟩ := h.live c q hc
    exact live_update hq hp
  · intro q bq hq
    rw [live_set hp] at hq
    split at hq
    · next hqp => cases hq; rw [hqp, href, h.counted p bc hp]
    · exact h.counted q bq hq
  · intro q bq hq
    rw [live_set hp] at hq
    split at hq
    · cases hq; rw [href]; exact h.shared p bc hp
    · exact h.shared q bq hq

theorem share_preserves (h : HandleInvariant clients heap) (hc : find clients c = none)
    (hp : Live heap p bc) :
    HandleInvariant (insert clients c p)
      (heap.set p (some { bc with ref := bc.ref + 1 })) := by
  have hcount := h.counted p bc hp
  refine ⟨?_, ?_, ?_, distinct_set h hp fun b hb => by cases hb; rfl⟩
  · intro c' q hc'
    rw [find_insert hc] at hc'
    split at hc'
    · cases hc'
      exact live_update hp hp
    · obtain ⟨bq, hq⟩ := h.live c' q hc'
      exact live_update hq hp
  · intro q bq hq
    rw [live_set hp] at hq
    rw [references_insert hc]
    split at hq
    · next hqp => cases hq; subst hqp; rw [if_pos rfl, hcount]; push_cast; rfl
    · next hqp => rw [if_neg hqp]; exact h.counted q bq hq
  · intro q bq hq
    rw [live_set hp] at hq
    split at hq
    · cases hq; have hr := h.shared p bc hp; change 1 ≤ bc.ref + 1; omega
    · exact h.shared q bq hq

theorem create_preserves (h : HandleInvariant clients heap) (hc : find clients c = none)
    {u : Name} (hfree : ∀ p bc, Live heap p bc → bc.name ≠ u) :
    HandleInvariant (insert clients c heap.length) (heap ++ [some ⟨1, u, empty⟩]) := by
  have hunused : references clients heap.length = 0 := by
    by_contra hne
    obtain ⟨c', hc'⟩ := references_pos.mp (Nat.pos_of_ne_zero hne)
    obtain ⟨bc, hbc⟩ := h.live c' _ hc'
    exact absurd hbc.lt (lt_irrefl _)
  refine ⟨?_, ?_, ?_, ?_⟩
  · intro c' q hc'
    rw [find_insert hc] at hc'
    split at hc'
    · cases hc'; exact ⟨_, live_append.mpr (Or.inr ⟨rfl, rfl⟩)⟩
    · obtain ⟨bq, hq⟩ := h.live c' q hc'
      exact ⟨bq, live_append.mpr (Or.inl hq)⟩
  · intro q bq hq
    rw [references_insert hc]
    rcases live_append.mp hq with hq | ⟨rfl, rfl⟩
    · rw [if_neg (Nat.ne_of_lt hq.lt)]; exact h.counted q bq hq
    · rw [if_pos rfl, hunused]; rfl
  · intro q bq hq
    rcases live_append.mp hq with hq | ⟨rfl, rfl⟩
    · exact h.shared q bq hq
    · exact le_refl _
  · intro q r bq br hq hr hn
    rcases live_append.mp hq with hq | ⟨rfl, rfl⟩ <;> rcases live_append.mp hr with hr | ⟨rfl, rfl⟩
    · exact h.distinct q r bq br hq hr hn
    · exact (hfree q bq hq hn).elim
    · exact (hfree r br hr hn.symm).elim
    · rfl

theorem unsubscribe_preserves (h : HandleInvariant clients heap) (hc : find clients c = some p)
    (hp : Live heap p bc) (hmore : 1 < bc.ref) :
    HandleInvariant (delete clients c) (heap.set p (some { bc with ref := bc.ref - 1 })) := by
  have hcount := h.counted p bc hp
  refine ⟨?_, ?_, ?_, distinct_set h hp fun b hb => by cases hb; rfl⟩
  · intro c' q hc'
    rw [find_delete] at hc'
    split at hc'
    · cases hc'
    · obtain ⟨bq, hq⟩ := h.live c' q hc'
      exact live_update hq hp
  · intro q bq hq
    have hrefs := references_delete hc q
    rw [live_set hp] at hq
    split at hq
    · next hqp => cases hq; subst hqp; rw [if_pos rfl] at hrefs; change bc.ref - 1 = _; omega
    · next hqp => rw [if_neg hqp] at hrefs; rw [h.counted q bq hq]; omega
  · intro q bq hq
    rw [live_set hp] at hq
    split at hq
    · cases hq; change 1 ≤ bc.ref - 1; omega
    · exact h.shared q bq hq

/-- With the count at one, the client that leaves is the only one of the handle. -/
theorem last_client (h : HandleInvariant clients heap) (hc : find clients c = some p)
    (hp : Live heap p bc) (hlast : bc.ref ≤ 1) : ∀ c', find clients c' = some p → c' = c := by
  intro c' hc'
  by_contra hne
  have hcount := h.counted p bc hp
  have hrefs := references_delete hc p
  have hother : 0 < references (delete clients c) p :=
    references_pos.mpr ⟨c', by rw [find_delete, if_neg hne, hc']⟩
  rw [if_pos rfl] at hrefs
  omega

theorem other_client (h : HandleInvariant clients heap) (hc : find clients c = some p)
    (hp : Live heap p bc) (hmore : 1 < bc.ref) : ∃ c', c' ≠ c ∧ find clients c' = some p := by
  have hcount := h.counted p bc hp
  have hrefs := references_delete hc p
  rw [if_pos rfl] at hrefs
  obtain ⟨c', hc'⟩ := references_pos.mp (show 0 < references (delete clients c) p by omega)
  rw [find_delete] at hc'
  split at hc'
  · cases hc'
  · next hne => exact ⟨c', hne, hc'⟩

theorem depart_preserves (h : HandleInvariant clients heap) (hc : find clients c = some p)
    (hp : Live heap p bc) (hlast : bc.ref ≤ 1) :
    HandleInvariant (delete clients c) (heap.set p none) := by
  have hold : ∀ q bq, Live (heap.set p none) q bq → q ≠ p ∧ Live heap q bq := by
    intro q bq hq
    rw [live_set hp] at hq
    split at hq
    · cases hq
    · next hqp => exact ⟨hqp, hq⟩
  refine ⟨?_, ?_, ?_, distinct_set h hp fun b hb => by cases hb⟩
  · intro c' q hc'
    rw [find_delete] at hc'
    split at hc'
    · cases hc'
    · next hne =>
      obtain ⟨bq, hq⟩ := h.live c' q hc'
      have hqp : q ≠ p := by
        rintro rfl
        exact hne (last_client h hc hp hlast c' hc')
      exact ⟨bq, (live_set hp).mpr (by rwa [if_neg hqp])⟩
  · intro q bq hq
    obtain ⟨hqp, hq⟩ := hold q bq hq
    have hrefs := references_delete hc q
    rw [if_neg hqp] at hrefs
    rw [h.counted q bq hq, hrefs, Nat.add_zero]
  · intro q bq hq
    exact h.shared q bq (hold q bq hq).2

end Preservation

theorem handled_preserves {A : Antd} {s : State M} {i : Input} {out : List TunnelMsg}
    {clients : M UInt16 ℕ} {heap : List (Option (BcClient M))}
    (h : HandleInvariant s.clients s.heap) (hh : Handled A s i out clients heap) :
    HandleInvariant clients heap := by
  cases hh with
  | share _ _ hc hp _ => exact share_preserves h hc hp
  | create _ _ hc _ hfree => exact create_preserves h hc hfree
  | join _ _ hp _ _ hheap =>
    subst hheap
    exact update_preserves h hp (joined_name _ _ _) (joined_ref _ _ _)
  | leave _ _ hp _ => exact update_preserves h hp rfl rfl
  | unsubscribe _ hc hp hmore => exact unsubscribe_preserves h hc hp hmore
  | depart _ hc hp hlast => exact depart_preserves h hc hp hlast
  | _ => exact h

theorem step_handled {A : Antd} {s s' : State M} {i : Input} {out : List TunnelMsg}
    (h : Invariant A s) (hs : Step A s i out s') : Handled A s i out s'.clients s'.heap := by
  have ho := step_outcome h i
  rw [show step A s i = .ok (s', out) from hs] at ho
  exact ho.1

theorem step_preserves_invariant {A : Antd} {s s' : State M} {i : Input} {out : List TunnelMsg}
    (h : Invariant A s) (hs : Step A s i out s') : Invariant A s' := by
  have ho := step_outcome h i
  rw [show step A s i = .ok (s', out) from hs] at ho
  exact ⟨handled_preserves h.toHandleInvariant ho.1, ho.2⟩

theorem initial_invariant (A : Antd) (answer : TunnelMsg) :
    Invariant A (initial A answer : State M) := by
  have hnone : ∀ p bc, ¬ Live (initial A answer : State M).heap p bc := by
    intro p bc h
    simp [Live, initial] at h
  refine ⟨⟨?_, fun p bc h => (hnone p bc h).elim, fun p bc h => (hnone p bc h).elim,
    fun p q bc bc' h => (hnone p bc h).elim⟩, by simp [initial]⟩
  intro c p hc
  simp [initial] at hc

theorem reachable_invariant {A : Antd} {s : State M} (h : Reachable A s) : Invariant A s := by
  obtain ⟨answer, inputs, out, hrun⟩ := h
  exact hrun.preserves (I := Invariant A) (fun _ _ _ _ h hs => step_preserves_invariant h hs)
    (initial_invariant A answer)

/-! ### Releases -/

theorem ctrl_ne_unsubscribe {m : TunnelMsg} {code : UInt8} (h : IsCtrl m code) :
    m.header.type ≠ CHANNEL_UNSUBSCRIBE := by
  rw [h.1]
  decide

/-- An outcome releases a handle just when its last client unsubscribes. -/
theorem released_iff {A : Antd} {s : State M} {i : Input} {out : List TunnelMsg}
    {clients : M UInt16 ℕ} {heap : List (Option (BcClient M))}
    (h : HandleInvariant s.clients s.heap) (hh : Handled A s i out clients heap) {p : ℕ}
    {bc : BcClient M} (hp : Live s.heap p bc) :
    (¬ ∃ bc', Live heap p bc') ↔ i.request.header.type = CHANNEL_UNSUBSCRIBE ∧
      find s.clients i.client = some p ∧ ∀ c, find s.clients c = some p → c = i.client := by
  have hkept : (∃ bc', Live heap p bc') → i.request.header.type ≠ CHANNEL_UNSUBSCRIBE →
      ((¬ ∃ bc', Live heap p bc') ↔ i.request.header.type = CHANNEL_UNSUBSCRIBE ∧
        find s.clients i.client = some p ∧ ∀ c, find s.clients c = some p → c = i.client) :=
    fun hlive htype => iff_of_false (not_not.mpr hlive) fun hr => htype hr.1
  cases hh with
  | subscribed htype | overlong htype | unmapped htype | badSize htype | data htype =>
    exact hkept ⟨bc, hp⟩ (by rw [htype]; decide)
  | share htype _ _ hq => exact hkept (live_update hp hq) (by rw [htype]; decide)
  | create htype => exact hkept ⟨bc, live_append.mpr (Or.inl hp)⟩ (by rw [htype]; decide)
  | join hctrl _ hq _ _ hheap =>
    subst hheap
    exact hkept (live_update hp hq) (ctrl_ne_unsubscribe hctrl)
  | leave hctrl _ hq => exact hkept (live_update hp hq) (ctrl_ne_unsubscribe hctrl)
  | queryUser hctrl | queryUserRefused hctrl | queryGroup hctrl | unknownCode hctrl =>
    exact hkept ⟨bc, hp⟩ (ctrl_ne_unsubscribe hctrl)
  | other htype => exact hkept ⟨bc, hp⟩ fun he => htype (by rw [he]; simp)
  | unsubscribe _ hc hq hmore =>
    refine iff_of_false (not_not.mpr (live_update hp hq)) ?_
    rintro ⟨-, hcp, honly⟩
    obtain ⟨c', hne, hc'⟩ := other_client h hc hq hmore
    rw [hc] at hcp
    cases hcp
    exact hne (honly c' hc')
  | depart htype hc hq hlast =>
    rename_i q bq
    by_cases hpq : p = q
    · subst hpq
      refine iff_of_true ?_ ⟨htype, hc, last_client h hc hq hlast⟩
      rintro ⟨bc', hbc'⟩
      rw [live_set hq, if_pos rfl] at hbc'
      cases hbc'
    · refine iff_of_false (not_not.mpr ⟨bc, (live_set hq).mpr (by rwa [if_neg hpq])⟩) ?_
      rintro ⟨-, hcp, -⟩
      rw [hc] at hcp
      cases hcp
      exact hpq rfl

/-- Handles of a reachable state: none is dangling, counts are exact, names are unique, and
the next message releases the handle of its sender if it was the last client to leave. -/
theorem handles_tracked {A : Antd} {s : State M} (h : Reachable A s) :
    (∀ c p, find s.clients c = some p → ∃ bc, Live s.heap p bc) ∧
    (∀ p bc, Live s.heap p bc → bc.ref = references s.clients p ∧ 1 ≤ bc.ref) ∧
    (∀ p q bc bc', Live s.heap p bc → Live s.heap q bc' → bc.name = bc'.name → p = q) ∧
    ∀ i s' out, step A s i = .ok (s', out) → ∀ p bc, Live s.heap p bc →
      ((¬ ∃ bc', Live s'.heap p bc') ↔ i.request.header.type = CHANNEL_UNSUBSCRIBE ∧
        find s.clients i.client = some p ∧ ∀ c, find s.clients c = some p → c = i.client) := by
  have hinv := reachable_invariant h
  refine ⟨hinv.live, fun p bc hp => ⟨hinv.counted p bc hp, hinv.shared p bc hp⟩,
    hinv.distinct, ?_⟩
  intro i s' out hs p bc hp
  exact released_iff hinv.toHandleInvariant (step_handled hinv hs) hp

/-- The messages of two clients of one user, and of the first of them leaving. -/
def bothIn : List Input := [.subscribe 1 65, .subscribe 2 65]

def oneOut : List Input := bothIn ++ [.unsubscribe 1]

/-- Two clients of one user share one handle, counted twice; it outlives the first of them that
leaves and is released as the other one does. -/
theorem handles_tracked_two_clients :
    ∃ (s t u : State AssocList) (bc bc' : BcClient AssocList) (out out' : List TunnelMsg),
      Execution (BroadcastService.Step firstByteHost) (initial firstByteHost channelOk)
        bothIn [] s ∧
      find s.clients 1 = some 0 ∧ find s.clients 2 = some 0 ∧ Live s.heap 0 bc ∧ bc.ref = 2 ∧
      step firstByteHost s (.unsubscribe 1) = .ok (t, out) ∧
      Live t.heap 0 bc' ∧ bc'.ref = 1 ∧
      step firstByteHost t (.unsubscribe 2) = .ok (u, out') ∧
      ¬ ∃ bc, Live u.heap 0 bc := by
  have hs : Execution (BroadcastService.Step firstByteHost) (initial firstByteHost channelOk)
      bothIn [] (stateAfter firstByteHost channelOk bothIn : State AssocList) :=
    forEach_execution rfl
  obtain ⟨hlive, hcounted, -, hreleased⟩ := handles_tracked ⟨_, _, _, hs⟩
  obtain ⟨bc, hp⟩ := hlive 1 0 rfl
  have href : bc.ref = 2 := (hcounted 0 bc hp).1.trans rfl
  have hfirst : step firstByteHost (stateAfter firstByteHost channelOk bothIn : State AssocList)
      (.unsubscribe 1) =
        .ok (stateAfter firstByteHost channelOk oneOut, [frame CHANNEL_UNSUBSCRIBE 0 1 []]) := rfl
  obtain ⟨bc', hp'⟩ : ∃ bc',
      Live (stateAfter firstByteHost channelOk oneOut : State AssocList).heap 0 bc' := by
    by_contra hgone
    have honly := ((hreleased _ _ _ hfirst 0 bc hp).mp hgone).2.2 2 rfl
    cases honly
  have ht : Reachable firstByteHost (stateAfter firstByteHost channelOk oneOut : State AssocList) :=
    stateAfter_reachable firstByteHost channelOk oneOut
  obtain ⟨-, hcounted', -, hreleased'⟩ := handles_tracked ht
  obtain ⟨⟨u, out'⟩, hsecond⟩ : ∃ r,
      step firstByteHost (stateAfter firstByteHost channelOk oneOut : State AssocList)
        (.unsubscribe 2) = .ok r := ⟨_, rfl⟩
  have honly : ∀ c, find (stateAfter firstByteHost channelOk oneOut : State AssocList).clients c =
      some 0 → c = 2 := by
    intro c hc
    have hmem : (c, 0) ∈ [((2 : UInt16), 0)] := mem_entries.mpr hc
    exact (Prod.mk.inj (List.mem_singleton.mp hmem)).1
  exact ⟨_, _, u, bc, bc', _, out', hs, rfl, rfl, hp, href, hfirst, hp',
    (hcounted' 0 bc' hp').1.trans rfl, hsecond,
    (hreleased' _ _ _ hsecond 0 bc' hp').mpr ⟨rfl, rfl, honly⟩⟩

end BroadcastInvariant
