import TunnelPublishers.BroadcastViews

/-!
# Who reaches a group

Deliveries look at the receivers only. A client outside a group therefore
reaches it with a DATA message, or with a notice of a departure that never
happened, and nothing else; and two groups are as separate as the hashes of
their names.
-/
namespace BroadcastIsolation

open ByteOrder FiniteMaps FiniteMap TunnelFraming ExecutionTraces BroadcastService
  BroadcastMachine BroadcastHandles BroadcastOutcomes BroadcastInvariant BroadcastRefinement
  BroadcastViews

variable {M : Type → Type → Type} [FiniteMap M]

/-! ### Deliveries to a group -/

/-- A DATA frame addressed to a group, or a notice of a join to it or a departure from it. What
lies behind a payload too short for a group id is taken into account. -/
def Concerns (beyond : List UInt8) (g : Int32) (m : TunnelMsg) : Prop :=
  m.header.type = CHANNEL_DATA ∧ be32 g.toUInt32 <+: m.payload ++ beyond ∨
  m.header.type = CHANNEL_CTRL ∧ ∃ a, decodeNotice m.payload = some a ∧
    a.code ∈ [BC_SUBSCRIPTION, BC_UNSUBSCRIPTION] ∧ a.gid = be32 g.toUInt32

/-- A request to join a group whose name has this hash. -/
def Joins (A : Antd) (g : Int32) (i : Input) : Prop :=
  IsCtrl i.request BC_SUBSCRIPTION ∧ A.simpleHash (cString (i.request.payload.drop 1)) = g

/-- The two requests that are passed on to a group without a look at the sender's groups. -/
def Unchecked (s : State M) (g : Int32) (i : Input) : Prop :=
  i.request.header.type = CHANNEL_DATA ∧ readWord i 0 = .ok g ∨
  IsCtrl i.request BC_UNSUBSCRIPTION ∧ (find s.clients i.client).isSome ∧ readWord i 1 = .ok g

theorem error_ne_data : CHANNEL_ERROR ≠ CHANNEL_DATA := by decide

theorem ctrl_ne_data : CHANNEL_CTRL ≠ CHANNEL_DATA := by decide

theorem unsubscribe_ne_data : CHANNEL_UNSUBSCRIBE ≠ CHANNEL_DATA := by decide

theorem not_concerns_silent {m : TunnelMsg} (h : Silent m) (hdata : m.header.type ≠ CHANNEL_DATA)
    (beyond : List UInt8) (g : Int32) : ¬ Concerns beyond g m := by
  rintro (⟨ht, -⟩ | ⟨ht, a, ha, hcode, -⟩)
  · exact hdata ht
  · obtain ⟨code, rest, hpay, hsub, hun⟩ := h ht
    rw [hpay] at ha
    cases rest with
    | nil => cases ha
    | cons n rest =>
      simp only [decodeNotice, Option.ite_none_right_eq_some, Option.some.injEq] at ha
      obtain ⟨-, rfl⟩ := ha
      simp [hsub, hun] at hcode

theorem concerns_notice {beyond : List UInt8} {g g' : Int32} {channelId c : UInt16} {code : UInt8}
    {u : Name} {gname : List UInt8} (hg : gname.length ≤ 254)
    (hcode : code ∈ [BC_SUBSCRIPTION, BC_UNSUBSCRIPTION]) :
    Concerns beyond g (frame CHANNEL_CTRL channelId c (notice code u g' gname)) ↔ g' = g := by
  unfold Concerns
  rw [frame_payload (notice_small code u g' hg), decode_notice]
  constructor
  · rintro (⟨ht, -⟩ | ⟨-, a, ha, -, hgid⟩)
    · exact absurd ht ctrl_ne_data
    · cases ha
      exact gid_injective hgid
  · rintro rfl
    exact Or.inr ⟨rfl, _, rfl, hcode, rfl⟩

theorem recipients_ne_nil {s : State M} (h : HandleInvariant s.clients s.heap) {g : Int32} :
    (∃ o, o ∈ recipients s.heap s.clients g) ↔ ∃ o, listens o g s = true := by
  simp only [listens_iff h, directoryOf, (recipients_enumerates h g).2]

theorem payload_prefix_memory (i : Input) : i.request.payload <+: i.memory := by
  unfold Input.memory
  rw [i.received.payload_eq]
  cases i.request.data with
  | none => exact List.nil_prefix
  | some block => exact List.prefix_append _ _

theorem memory_eq {i : Input} {off : ℕ} {g : Int32} (h : readWord i off = .ok g) :
    i.memory = i.request.payload ++ i.beyond := by
  have hlen := (readWord_eq_ok.mp h).length_le
  rw [be32_length, List.length_drop] at hlen
  unfold Input.memory at hlen ⊢
  rw [i.received.payload_eq]
  cases hd : i.request.data with
  | none => simp [hd] at hlen
  | some block => rfl

theorem refusal_outside {m : TunnelMsg} {out : List TunnelMsg} (h : Refusal m out)
    (beyond : List UInt8) (g : Int32) : ∀ f ∈ out, ¬ Concerns beyond g f := by
  obtain ⟨channelId, reply, rfl⟩ := h
  intro f hf
  rw [List.mem_singleton.mp hf]
  exact not_concerns_silent (silent_of_type (by decide)) error_ne_data beyond g

theorem unsubscribe_outside {channelId c : UInt16} {m : TunnelMsg}
    (hm : m ∈ [frame CHANNEL_UNSUBSCRIBE channelId c []]) (beyond : List UInt8) (g : Int32) :
    ¬ Concerns beyond g m := by
  have hsilent := silent_unsubscribe channelId c m hm
  obtain rfl := List.mem_singleton.mp hm
  exact not_concerns_silent hsilent unsubscribe_ne_data beyond g

/-- The deliveries of one message to a group, over all kinds of messages. -/
theorem handled_concerns {A : Antd} {s : State M} {i : Input} {out : List TunnelMsg}
    {clients : M UInt16 ℕ} {heap : List (Option (BcClient M))}
    (h : HandleInvariant s.clients s.heap) (hh : Handled A s i out clients heap) {g : Int32}
    (hout : listens i.client g s = false) (hjoin : ¬ Joins A g i) :
    (∃ m ∈ out, Concerns i.beyond g m) → Unchecked s g i ∧ ∃ o, listens o g s = true := by
  rintro ⟨m, hm, hc⟩
  cases hh with
  | subscribed | overlong | share | create | other => cases hm
  | queryUserRefused _ _ _ _ _ hr | unknownCode _ _ _ hr | unmapped _ _ hr | badSize _ _ hr =>
    exact (refusal_outside hr _ _ m hm hc).elim
  | unsubscribe =>
    exact (unsubscribe_outside hm _ _ hc).elim
  | join hk hf hp hname hhash hheap =>
    rename_i p bc g' name
    obtain ⟨o, ho, rfl⟩ := List.mem_map.mp hm
    rw [concerns_notice (name_length_le name) (by simp)] at hc
    refine (hjoin ⟨hk, ?_⟩).elim
    rw [← hname, ← hhash, hc]
  | leave hk hf hp hg =>
    rename_i p bc g'
    obtain ⟨o, ho, rfl⟩ := List.mem_map.mp hm
    rw [concerns_notice (by simp) (by simp)] at hc
    subst hc
    exact ⟨Or.inr ⟨hk, by rw [hf]; rfl, hg⟩, (recipients_ne_nil h).mp ⟨o, ho⟩⟩
  | queryUser =>
    obtain ⟨o, -, rfl⟩ := List.mem_map.mp hm
    exact (not_concerns_silent (silent_userAnswer _ _ _ _) ctrl_ne_data _ _ hc).elim
  | queryGroup =>
    obtain ⟨e, -, rfl⟩ := List.mem_map.mp hm
    exact (not_concerns_silent (silent_groupAnswer _ _ _ _) ctrl_ne_data _ _ hc).elim
  | data htype hg =>
    rename_i g'
    obtain ⟨o, ho, rfl⟩ := List.mem_map.mp hm
    rcases hc with ⟨-, hpre⟩ | ⟨ht, -⟩
    · have hword : readWord i 0 = .ok g := by
        rw [readWord_eq_ok, memory_eq hg]
        exact hpre
      rw [hg, Except.ok.injEq] at hword
      subst hword
      exact ⟨Or.inl ⟨htype, hg⟩, (recipients_ne_nil h).mp ⟨o, ho⟩⟩
    · exact absurd (htype.symm.trans ht) (by decide)
  | depart htype hf hp hlast =>
    rename_i p bc
    rcases List.mem_append.mp hm with hm | hm
    · obtain ⟨⟨g', name⟩, he, hm⟩ := List.mem_flatMap.mp hm
      obtain ⟨o, -, rfl⟩ := List.mem_map.mp hm
      rw [concerns_notice (by simp) (by simp)] at hc
      have hc : g' = g := hc
      subst hc
      -- The sender is a member of every group it departs from.
      simp only [listens, hf, Option.any_some, inGroup_of_live hp, mem_entries.mp he] at hout
      cases hout
    · exact (unsubscribe_outside hm _ _ hc).elim

theorem unchecked_no_fault {s : State M} {g : Int32} {i : Input} (h : Unchecked s g i)
    {f : Fault} : ¬ Faulted s i f := by
  have hroom : ∀ off, readWord i off = .ok g → off + 4 ≤ i.memory.length := by
    intro off hg
    have hlen := (readWord_eq_ok.mp hg).length_le
    rw [be32_length, List.length_drop] at hlen
    omega
  rintro hf
  rcases h with ⟨htype, hg⟩ | ⟨hk, hc, hg⟩ <;> have hr := hroom _ hg
  · cases hf with
    | nullNode ht | refusal ht => exact absurd (htype.symm.trans ht) (by decide)
    | dataWord _ hshort => omega
    | ctrlWord hk => exact absurd (htype.symm.trans hk.1) (by decide)
  · cases hf with
    | nullNode ht | dataWord ht => exact absurd (hk.1.symm.trans ht) (by decide)
    | ctrlWord _ _ _ hshort => omega
    | refusal _ hcase =>
      rw [hcase ⟨hk.2.1, hk.2.2.1⟩] at hc
      cases hc

/-- An unchecked request does reach the group's clients. -/
theorem unchecked_delivers {A : Antd} {s : State M} (h : Invariant A s) {g : Int32} {i : Input}
    (hun : Unchecked s g i) {o : UInt16} (ho : listens o g s = true) :
    ∃ s' out, step A s i = .ok (s', out) ∧ ∃ m ∈ out, Concerns i.beyond g m := by
  have hmem := (recipients_ne_nil h.toHandleInvariant).mpr ⟨o, ho⟩
  obtain ⟨c, hc⟩ := hmem
  have hout := step_outcome h i
  cases hstep : step A s i with
  | error f =>
    rw [hstep] at hout
    exact (unchecked_no_fault hun hout).elim
  | ok r =>
    rw [hstep] at hout
    refine ⟨r.1, r.2, rfl, ?_⟩
    rcases hun with ⟨htype, hg⟩ | ⟨hk, hf, hg⟩
    · obtain ⟨g', hg', hr⟩ := handled_data hout.1 htype
      rw [hg, Except.ok.injEq] at hg'
      subst hg'
      rw [hr]
      refine ⟨_, List.mem_map.mpr ⟨c, hc, rfl⟩, Or.inl ⟨htype, ?_⟩⟩
      have hpre := readWord_eq_ok.mp hg
      rw [memory_eq hg] at hpre
      exact hpre
    · obtain ⟨p, hp⟩ := Option.isSome_iff_exists.mp hf
      obtain ⟨g', bc, hg', -, hr⟩ := handled_leave hout.1 hk hp
      rw [hg, Except.ok.injEq] at hg'
      subst hg'
      rw [hr]
      exact ⟨_, List.mem_map.mpr ⟨c, hc, rfl⟩, (concerns_notice (by simp) (by simp)).mpr rfl⟩

/-- A message from outside a group, other than a request to join it, delivers nothing to it,
except in the two unchecked cases when the group has a client. -/
theorem outsider_reaches_group_iff {A : Antd} {s : State M} (hs : Reachable A s) {g : Int32}
    {i : Input} (hout : listens i.client g s = false) (hjoin : ¬ Joins A g i) :
    (∀ s' out, step A s i = .ok (s', out) → ∀ m ∈ out, ¬ Concerns i.beyond g m) ↔
      ¬ (Unchecked s g i ∧ ∃ o, listens o g s = true) := by
  have hinv := reachable_invariant hs
  constructor
  · rintro hclosed ⟨hun, o, ho⟩
    obtain ⟨s', out, hstep, m, hm, hc⟩ := unchecked_delivers hinv hun ho
    exact hclosed s' out hstep m hm hc
  · intro hno s' out hstep m hm hc
    exact hno (handled_concerns hinv.toHandleInvariant (step_handled hinv hstep) hout hjoin
      ⟨m, hm, hc⟩)

/-- Client 2 is in no group; its message to group `H` reaches nobody in `G`, where client 1 is. -/
theorem outsider_reaches_group_other : listens 1 71 meeting = true ∧ ∀ s' out,
    step firstByteHost meeting (.plain CHANNEL_DATA 2 [0, 0, 0, 72, 9]) = .ok (s', out) →
    ∀ m ∈ out, ¬ Concerns [] 71 m := by
  refine ⟨by decide +kernel,
    (outsider_reaches_group_iff (stateAfter_reachable _ _ _) (by decide +kernel) ?_).mpr ?_⟩
  · rintro ⟨⟨ht, -⟩, -⟩
    exact absurd ht (by decide)
  · rintro ⟨⟨-, hg⟩ | ⟨⟨ht, -⟩, -⟩, -⟩
    · exact absurd hg (by decide +kernel)
    · exact absurd ht (by decide)

/-- A client that never subscribed sends to `G`, a subscribed outsider announces its departure
from `G`, and both reach the one client there. -/
theorem outsiders_reach_group : Reachable firstByteHost meeting ∧
    listens 2 71 meeting = false ∧ listens 3 71 meeting = false ∧
    (step firstByteHost meeting (.plain CHANNEL_DATA 3 [0, 0, 0, 71, 9])).map Prod.snd =
      .ok [frame CHANNEL_DATA 1 1 [0, 0, 0, 71, 9]] ∧
    Concerns [] 71 (frame CHANNEL_DATA 1 1 [0, 0, 0, 71, 9]) ∧
    (step firstByteHost meeting (.plain CHANNEL_CTRL 2 [0x0B, 0, 0, 0, 71])).map Prod.snd =
      .ok [frame CHANNEL_CTRL 1 1 [0x0B, 1, 66, 0, 0, 0, 71]] ∧
    Concerns [] 71 (frame CHANNEL_CTRL 1 1 [0x0B, 1, 66, 0, 0, 0, 71]) :=
  ⟨stateAfter_reachable _ _ _, by decide +kernel, by decide +kernel, by decide +kernel,
    Or.inl ⟨rfl, by decide +kernel⟩, by decide +kernel,
    Or.inr ⟨rfl, ⟨BC_UNSUBSCRIPTION, [66], [0, 0, 0, 71]⟩, by decide +kernel, by decide,
      by decide +kernel⟩⟩

end BroadcastIsolation
