import TunnelPublishers.BroadcastInvariant

/-!
# Subscriptions in brackets

A client that alternates SUBSCRIBE and UNSUBSCRIBE has an entry between the two
exactly when the name it sent fits. An over-long name is refused without a word
to the client, and its UNSUBSCRIBE then reads through an absent node.
-/
namespace BroadcastBrackets

open FiniteMaps FiniteMap TunnelFraming ExecutionTraces BroadcastService BroadcastMachine
  BroadcastHandles BroadcastOutcomes BroadcastInvariant

/-- The name size of the SUBSCRIBE that a client has open after one more message. -/
def opened (c : UInt16) (size : Option ℕ) (i : Input) : Option ℕ :=
  if i.client = c then
    if i.request.header.type = CHANNEL_SUBSCRIBE then some i.size
    else if i.request.header.type = CHANNEL_UNSUBSCRIBE then none
    else size
  else size

def pending (c : UInt16) (inputs : List Input) : Option ℕ := inputs.foldl (opened c) none

/-- In every client's messages SUBSCRIBE and UNSUBSCRIBE alternate, SUBSCRIBE first. -/
def WellBracketed (inputs : List Input) : Prop :=
  ∀ before i after, inputs = before ++ i :: after →
    (i.request.header.type = CHANNEL_SUBSCRIBE → pending i.client before = none) ∧
    (i.request.header.type = CHANNEL_UNSUBSCRIBE → pending i.client before ≠ none)

theorem WellBracketed.init {inputs : List Input} {i : Input}
    (h : WellBracketed (inputs ++ [i])) : WellBracketed inputs := by
  intro before j after he
  exact h before j (after ++ [i]) (by rw [he]; simp)

theorem pending_snoc (c : UInt16) (inputs : List Input) (i : Input) :
    pending c (inputs ++ [i]) = opened c (pending c inputs) i := by
  simp [pending]

theorem wellBracketed_pair {i j : Input} (hc : j.client = i.client)
    (hi : i.request.header.type = CHANNEL_SUBSCRIBE)
    (hj : j.request.header.type = CHANNEL_UNSUBSCRIBE) : WellBracketed [i, j] := by
  intro before k after he
  rcases before with _ | ⟨b, _ | ⟨b', before⟩⟩
  · obtain ⟨rfl, -⟩ := List.cons.inj he
    refine ⟨fun _ => rfl, fun hk => absurd (hi.symm.trans hk) (by decide)⟩
  · simp only [List.cons_append, List.nil_append, List.cons.injEq] at he
    obtain ⟨rfl, rfl, -⟩ := he
    refine ⟨fun hk => absurd (hj.symm.trans hk) (by decide), fun _ => ?_⟩
    simp [pending, opened, hc, hi]
  · simp at he

variable {M : Type → Type → Type} [FiniteMap M]

theorem unsubscribe_ne_subscribe : CHANNEL_UNSUBSCRIBE ≠ CHANNEL_SUBSCRIBE := by decide

/-- What one message does to the presence of an entry. -/
theorem handled_entry {A : Antd} {s : State M} {i : Input} {out : List TunnelMsg}
    {clients : M UInt16 ℕ} {heap : List (Option (BcClient M))}
    (hh : Handled A s i out clients heap) (c : UInt16) :
    (find clients c).isSome = if i.client = c then
      if i.request.header.type = CHANNEL_SUBSCRIBE then
        i.size ≤ 254 || (find s.clients c).isSome
      else if i.request.header.type = CHANNEL_UNSUBSCRIBE then false
      else (find s.clients c).isSome
    else (find s.clients c).isSome := by
  have hsame : i.request.header.type ≠ CHANNEL_SUBSCRIBE →
      i.request.header.type ≠ CHANNEL_UNSUBSCRIBE →
      (find s.clients c).isSome = if i.client = c then
        if i.request.header.type = CHANNEL_SUBSCRIBE then
          i.size ≤ 254 || (find s.clients c).isSome
        else if i.request.header.type = CHANNEL_UNSUBSCRIBE then false
        else (find s.clients c).isSome
      else (find s.clients c).isSome := by
    intro hsub hun
    simp [hsub, hun]
  have hctrl : i.request.header.type = CHANNEL_CTRL →
      i.request.header.type ≠ CHANNEL_SUBSCRIBE ∧ i.request.header.type ≠ CHANNEL_UNSUBSCRIBE := by
    intro ht
    rw [ht]
    decide
  cases hh with
  | subscribed htype hsize hc =>
    by_cases hic : i.client = c
    · subst hic
      simp [htype, hc]
    · simp [hic]
  | overlong htype hlong =>
    have hno : ¬ i.size ≤ 254 := by omega
    simp [htype, hno]
  | share htype hsize hc | create htype hsize hc =>
    by_cases hic : i.client = c
    · subst hic
      simp [htype, hsize, find_insert hc]
    · simp [hic, find_insert hc, Ne.symm hic]
  | join hk | leave hk | queryUser hk | queryUserRefused hk | queryGroup hk | unknownCode hk =>
    exact hsame (hctrl hk.1).1 (hctrl hk.1).2
  | unmapped htype | badSize htype => exact hsame (hctrl htype).1 (hctrl htype).2
  | data htype => exact hsame (by rw [htype]; decide) (by rw [htype]; decide)
  | unsubscribe htype | depart htype =>
    have hsub : i.request.header.type ≠ CHANNEL_SUBSCRIBE := htype ▸ unsubscribe_ne_subscribe
    by_cases hic : i.client = c
    · subst hic
      rw [if_pos rfl, if_neg hsub, if_pos htype, find_delete_self]
      rfl
    · rw [if_neg hic, find_delete_ne _ (Ne.symm hic)]
  | other htype =>
    exact hsame (fun he => htype (by rw [he]; simp)) (fun he => htype (by rw [he]; simp))

/-- Along a run without a fault, entries are the open brackets with a name that fits. -/
theorem entry_iff_pending {A : Antd} {answer : TunnelMsg} {inputs : List Input}
    {out : List TunnelMsg} {s : State M}
    (h : Execution (Step A) (initial A answer) inputs out s) (hw : WellBracketed inputs)
    (c : UInt16) :
    (find s.clients c).isSome = (pending c inputs).any fun n => n ≤ 254 := by
  generalize hs₀ : (initial A answer : State M) = s₀ at h
  induction h with
  | refl =>
    subst hs₀
    simp [initial, pending]
  | tail hrun hstep ih =>
    rename_i s u v is i os frames
    subst hs₀
    have hinv : Invariant A u := reachable_invariant ⟨answer, _, _, hrun⟩
    have hbracket := hw is i [] rfl
    rw [handled_entry (step_handled hinv hstep), pending_snoc, ih hw.init]
    by_cases hic : i.client = c
    · subst hic
      by_cases hsub : i.request.header.type = CHANNEL_SUBSCRIBE
      · simp [opened, hsub, hbracket.1 hsub]
      · by_cases hun : i.request.header.type = CHANNEL_UNSUBSCRIBE
        · simp [opened, hun, unsubscribe_ne_subscribe]
        · simp [opened, hsub, hun]
    · simp [opened, hic]

theorem unsubscribe_absent {A : Antd} {s : State M} {i : Input}
    (htype : i.request.header.type = CHANNEL_UNSUBSCRIBE) (hc : find s.clients i.client = none) :
    step A s i = .error .nullNode := by
  simp [step, htype, CHANNEL_SUBSCRIBE, CHANNEL_CTRL, CHANNEL_DATA, CHANNEL_UNSUBSCRIBE,
    channelUnsubscribe, hc, unsubscribe, bind, Except.bind]

theorem unsubscribe_present {A : Antd} {s : State M} (h : Invariant A s) {i : Input} {p : ℕ}
    (htype : i.request.header.type = CHANNEL_UNSUBSCRIBE) (hc : find s.clients i.client = some p) :
    ∃ s' out, step A s i = .ok (s', out) ∧ find s'.clients i.client = none := by
  have ho := step_outcome h i
  cases hstep : step A s i with
  | error f =>
    rw [hstep] at ho
    cases ho with
    | nullNode _ hn => rw [hc] at hn; cases hn
    | dataWord ht => exact absurd (htype.symm.trans ht) (by decide)
    | ctrlWord hk => exact (ctrl_ne_unsubscribe hk htype).elim
    | refusal ht => exact absurd (htype.symm.trans ht) (by decide)
  | ok r =>
    rw [hstep] at ho
    have hsub : i.request.header.type ≠ CHANNEL_SUBSCRIBE := htype ▸ unsubscribe_ne_subscribe
    have hentry := handled_entry ho.1 i.client
    simp only [htype, ↓reduceIte, unsubscribe_ne_subscribe] at hentry
    exact ⟨r.1, r.2, rfl, Option.isSome_eq_false_iff.mp hentry |> Option.isNone_iff_eq_none.mp⟩

/-- An UNSUBSCRIBE that ends a well-bracketed run meets an entry, does not read through an absent
node and removes the entry, if and only if the name of its SUBSCRIBE has at most 254 bytes. -/
theorem bracket_closes_iff {A : Antd} {answer : TunnelMsg} {inputs : List Input}
    {out : List TunnelMsg} {s : State M} {i : Input}
    (h : Execution (Step A) (initial A answer) inputs out s) (hw : WellBracketed (inputs ++ [i]))
    (htype : i.request.header.type = CHANNEL_UNSUBSCRIBE) :
    ((∃ p, find s.clients i.client = some p) ∧ step A s i ≠ .error .nullNode ∧
      ∃ s' frames, step A s i = .ok (s', frames) ∧ find s'.clients i.client = none) ↔
    ∃ n, pending i.client inputs = some n ∧ n ≤ 254 := by
  have hinv : Invariant A s := reachable_invariant ⟨answer, _, _, h⟩
  have hentry := entry_iff_pending h hw.init i.client
  constructor
  · rintro ⟨⟨p, hp⟩, -⟩
    rw [hp, Option.isSome_some, eq_comm, Option.any_eq_true] at hentry
    simpa using hentry
  · rintro ⟨n, hn, hle⟩
    rw [hn, Option.any_some, decide_eq_true hle, Option.isSome_iff_exists] at hentry
    obtain ⟨p, hp⟩ := hentry
    obtain ⟨s', frames, hstep, hgone⟩ := unsubscribe_present hinv htype hp
    exact ⟨⟨p, hp⟩, by rw [hstep]; simp, s', frames, hstep, hgone⟩

/-- A name of one byte: the bracket closes. -/
theorem bracket_closes_short_name : ∃ s : State AssocList,
    Execution (Step firstByteHost) (initial firstByteHost channelOk)
      [.plain CHANNEL_SUBSCRIBE 1 [65]] [] s ∧
    ∃ s' frames, step firstByteHost s (.plain CHANNEL_UNSUBSCRIBE 1 []) = .ok (s', frames) ∧
      find s'.clients 1 = none := by
  obtain ⟨s, hs⟩ := execution_of_outputs (M := AssocList) firstByteHost
    (initial firstByteHost channelOk) [.plain CHANNEL_SUBSCRIBE 1 [65]] [] (by decide +kernel)
  refine ⟨s, hs, ((bracket_closes_iff hs ?_ rfl).mpr ⟨1, by decide, by decide⟩).2.2⟩
  exact wellBracketed_pair (by decide) rfl rfl

theorem subscribe_overlong {A : Antd} {s : State M} {i : Input}
    (htype : i.request.header.type = CHANNEL_SUBSCRIBE) (hlong : 254 < i.size) :
    step A s i = .ok (s, []) := by
  have hsize : MAX_STR_LEN - 1 < i.size := by unfold MAX_STR_LEN; omega
  simp [step, htype, channelSubscribe, hsize]

theorem longName : (List.replicate 255 (65 : UInt8)).length < 2 ^ 32 := by
  rw [List.length_replicate]
  omega

/-- A name of 255 bytes: the client is well-bracketed, has no entry at its UNSUBSCRIBE, and the
service reads through the absent node. -/
theorem bracket_long_name_crashes :
    Execution (Step firstByteHost) (initial firstByteHost channelOk : State AssocList)
      [.plain CHANNEL_SUBSCRIBE 1 (List.replicate 255 65) (by decide) longName] []
      (initial firstByteHost channelOk) ∧
    WellBracketed [.plain CHANNEL_SUBSCRIBE 1 (List.replicate 255 65) (by decide) longName,
      .plain CHANNEL_UNSUBSCRIBE 1 []] ∧
    find (initial firstByteHost channelOk : State AssocList).clients 1 = none ∧
    step firstByteHost (initial firstByteHost channelOk : State AssocList)
      (.plain CHANNEL_UNSUBSCRIBE 1 []) = .error .nullNode := by
  have hnone : find (initial firstByteHost channelOk : State AssocList).clients 1 = none :=
    find_empty 1
  refine ⟨.single (subscribe_overlong rfl ?_), wellBracketed_pair (by rfl) rfl rfl, hnone,
    unsubscribe_absent rfl hnone⟩
  rw [← Input.payload_length, Input.plain_payload, List.length_replicate]
  omega

end BroadcastBrackets
