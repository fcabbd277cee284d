import TunnelPublishers.BroadcastIsolation

/-!
# One order of events for all members of a group

A message makes at most one event in a group, and all members are told of it, so
what two members are sent about the group is the same list.
-/
namespace BroadcastOrder

open ByteOrder FiniteMaps FiniteMap TunnelFraming ExecutionTraces BroadcastService
  BroadcastMachine BroadcastHandles BroadcastInvariant BroadcastRefinement BroadcastViews
  BroadcastIsolation

/-- Type and payload of a frame. -/
abbrev GroupEvent := UInt8 × List UInt8

def happening (m : TunnelMsg) : GroupEvent := (m.header.type, m.payload)

/-- DATA that carries the id of a group. -/
def Addressed (g : Int32) (m : TunnelMsg) : Prop :=
  m.header.type = CHANNEL_DATA ∧ be32 g.toUInt32 <+: m.payload

instance (g : Int32) : DecidablePred (Addressed g) := fun m =>
  inferInstanceAs (Decidable (m.header.type = CHANNEL_DATA ∧ be32 g.toUInt32 <+: m.payload))

theorem concerns_iff {g : Int32} {m : TunnelMsg} :
    Addressed g m ∨ m.header.type = CHANNEL_CTRL ∧ ((decodeNotice m.payload).any fun a =>
      decide (a.code ∈ [BC_SUBSCRIPTION, BC_UNSUBSCRIPTION] ∧ a.gid = be32 g.toUInt32)) = true ↔
      Concerns [] g m := by
  simp [Concerns, Addressed, Option.any_eq_true]

instance (g : Int32) : DecidablePred (Concerns [] g) := fun _ =>
  decidable_of_iff _ concerns_iff

/-- What a client is told about a group. -/
def told (o : UInt16) (g : Int32) (out : List TunnelMsg) : List GroupEvent :=
  (out.filter fun m => m.header.clientId = o ∧ Concerns [] g m).map happening

section Steps

variable {o : UInt16} {g : Int32} {out : List TunnelMsg}

theorem told_append (o : UInt16) (g : Int32) (a b : List TunnelMsg) :
    told o g (a ++ b) = told o g a ++ told o g b := by
  simp [told]

theorem told_outside (h : ∀ m ∈ out, ¬ Concerns [] g m) : told o g out = [] := by
  rw [told, List.filter_eq_nil_iff.mpr]
  · rfl
  · intro m hm
    simp [h m hm]

/-- An event that some clients are told of, each in one frame. -/
theorem told_each {clients : List UInt16} (hn : clients.Nodup) {f : UInt16 → TunnelMsg}
    {e : GroupEvent} {C : Prop} [Decidable C]
    (hf : ∀ o, (f o).header.clientId = o ∧ happening (f o) = e ∧ (Concerns [] g (f o) ↔ C)) :
    told o g (clients.map f) = if o ∈ clients ∧ C then [e] else [] := by
  induction clients with
  | nil => simp [told]
  | cons c clients ih =>
    obtain ⟨hc, hrest⟩ := List.nodup_cons.mp hn
    obtain ⟨hclient, hevent, hconcerns⟩ := hf c
    have hfirst : told o g [f c] = if c = o ∧ C then [e] else [] := by
      by_cases hboth : c = o ∧ C
      · obtain ⟨rfl, hC⟩ := hboth
        simp [told, hclient, hconcerns, hC, hevent]
      · have hno : ¬ (c = o ∧ Concerns [] g (f c)) := by rwa [hconcerns]
        simp [told, hclient, hno, hboth]
    rw [List.map_cons, ← List.singleton_append, told_append, hfirst, ih hrest]
    by_cases hC : C
    · by_cases ho : c = o
      · subst ho
        simp [hC, hc]
      · simp [hC, ho, Ne.symm ho]
    · simp [hC]

theorem told_notices {clients : List UInt16} (hn : clients.Nodup) {code : UInt8}
    (hcode : code ∈ [BC_SUBSCRIPTION, BC_UNSUBSCRIPTION]) {gname : List UInt8}
    (hg : gname.length ≤ 254) (u : Name) (g' : Int32) (channelId : UInt16) :
    told o g (clients.map fun c => frame CHANNEL_CTRL channelId c (notice code u g' gname)) =
      if o ∈ clients ∧ g' = g then [(CHANNEL_CTRL, notice code u g' gname)] else [] := by
  apply told_each hn
  intro c
  refine ⟨rfl, ?_, concerns_notice hg hcode⟩
  rw [happening, frame_payload (notice_small code u g' hg)]
  rfl

/-- The departures of one user from several groups. -/
theorem told_farewells {u : Name} {clients : Int32 → List UInt16} {held : List Int32}
    (hheld : held.Nodup) (hn : ∀ g' ∈ held, (clients g').Nodup) (channelId : UInt16) :
    told o g (held.flatMap fun g' => (clients g').map fun c =>
        frame CHANNEL_CTRL channelId c (notice BC_UNSUBSCRIPTION u g' [])) =
      if g ∈ held ∧ o ∈ clients g then [(CHANNEL_CTRL, notice BC_UNSUBSCRIPTION u g [])]
      else [] := by
  induction held with
  | nil => rfl
  | cons g' held ih =>
    obtain ⟨hnew, hrest⟩ := List.nodup_cons.mp hheld
    rw [List.flatMap_cons, told_append, told_notices (hn g' List.mem_cons_self) (by simp) (by simp),
      ih hrest fun g' hg' => hn g' (List.mem_cons_of_mem _ hg')]
    by_cases hg : g' = g
    · subst hg
      simp [hnew]
    · simp [hg, Ne.symm hg]

/-- A group id that a payload is long enough to carry. -/
theorem addressed_gid {m : TunnelMsg} {g' : Int32} (h : Addressed g m) (hgid : CarriesGid m 0 g') :
    g' = g := by
  obtain ⟨tail, htail⟩ := hgid
  obtain ⟨rest, hrest⟩ := h.2
  apply gid_injective
  rw [htail, ← hrest, List.drop_zero, List.append_assoc, List.take_left' (be32_length _)]

/-- A message makes one event in a group, or none, and whoever stays a member is told of it. -/
def Notified (g : Int32) (d d' : Directory) (m : TunnelMsg) (out : List TunnelMsg) : Prop :=
  ∃ events : List GroupEvent,
    (events.filter fun e => e.1 = CHANNEL_DATA) = (if Addressed g m then [happening m] else []) ∧
    ∀ o, d.Member o g → d'.Member o g → told o g out = events

variable {hash : List UInt8 → Int32} {d d' : Directory} {m : TunnelMsg}

theorem notified_nothing (htype : m.header.type ≠ CHANNEL_DATA)
    (hout : ∀ f ∈ out, ¬ Concerns [] g f) : Notified g d d' m out :=
  ⟨[], by rw [if_neg fun ha : Addressed g m => htype ha.1]; rfl, fun _ _ _ => told_outside hout⟩

theorem notified_notice (C : Prop) [Decidable C] (payload : List UInt8)
    (htype : m.header.type ≠ CHANNEL_DATA)
    (hout : ∀ o, d.Member o g → d'.Member o g →
      told o g out = if C then [(CHANNEL_CTRL, payload)] else []) : Notified g d d' m out := by
  refine ⟨_, ?_, hout⟩
  rw [if_neg fun ha : Addressed g m => htype ha.1]
  split <;> rfl

theorem notified_data {g' : Int32} {clients : List UInt16}
    (htype : m.header.type = CHANNEL_DATA) (hgid : CarriesGid m 0 g')
    (hclients : Enumerates clients fun o => d.Member o g') :
    Notified g d d' m (clients.map fun c => { m with header.clientId := c }) := by
  refine ⟨if Addressed g m then [happening m] else [], ?_, fun o ho _ => ?_⟩
  · split
    · simp [happening, htype]
    · rfl
  · have hcopies : told o g (clients.map fun c => { m with header.clientId := c }) =
        if o ∈ clients ∧ Addressed g m then [happening m] else [] := by
      refine told_each hclients.1 fun c => ⟨rfl, rfl, ?_⟩
      rw [← concerns_iff]
      exact or_iff_left fun hctrl => absurd (htype.symm.trans hctrl.1) (by decide)
    have hall : Addressed g m → o ∈ clients := by
      intro ha
      rw [hclients.2, addressed_gid ha hgid]
      exact ho
    rw [hcopies]
    exact if_congr (and_iff_right_of_imp hall) rfl rfl

theorem step_notified (h : BroadcastMachine.Step hash d m out d') (g : Int32) :
    Notified g d d' m out := by
  cases h with
  | subscribe htype | subscribed htype | overlong htype =>
    exact notified_nothing (by rw [htype]; decide) (by simp)
  | other htype => exact notified_nothing (fun hdata => htype (by simp [hdata])) (by simp)
  | @join u clients name hctrl hu hname hclients =>
    refine notified_notice (hash name.bytes = g)
      (notice BC_SUBSCRIPTION u (hash name.bytes) name.bytes) (by rw [hctrl.1]; decide)
      fun o _ ho' => ?_
    have hall : hash name.bytes = g → o ∈ clients := by
      rintro rfl
      exact (hclients.2 o).mpr ho'
    rw [told_notices hclients.1 (by simp) (name_length_le name)]
    exact if_congr (and_iff_right_of_imp hall) rfl rfl
  | @leave u g' clients hctrl hu hgid hclients =>
    refine notified_notice (g' = g) (notice BC_UNSUBSCRIPTION u g' []) (by rw [hctrl.1]; decide)
      fun o ho _ => ?_
    have hall : g' = g → o ∈ clients := by
      rintro rfl
      exact (hclients.2 o).mpr ho
    rw [told_notices hclients.1 (by simp) (by simp)]
    exact if_congr (and_iff_right_of_imp hall) rfl rfl
  | queryUser hctrl =>
    refine notified_nothing (by rw [hctrl.1]; decide) fun f hf => ?_
    obtain ⟨c, -, rfl⟩ := List.mem_map.mp hf
    exact not_concerns_silent (silent_userAnswer _ _ _ _) ctrl_ne_data _ _
  | queryGroup hctrl =>
    refine notified_nothing (by rw [hctrl.1]; decide) fun f hf => ?_
    obtain ⟨c, -, rfl⟩ := List.mem_map.mp hf
    exact not_concerns_silent (silent_groupAnswer _ _ _ _) ctrl_ne_data _ _
  | queryUserRefused hctrl _ _ _ hr | unknownCode hctrl _ _ hr =>
    exact notified_nothing (by rw [hctrl.1]; decide) (refusal_outside hr _ _)
  | unmapped htype _ hr | badSize htype _ hr =>
    exact notified_nothing (by rw [htype]; decide) (refusal_outside hr _ _)
  | data htype hgid hclients => exact notified_data htype hgid hclients
  | unsubscribe htype =>
    exact notified_nothing (by rw [htype]; decide) fun f hf => unsubscribe_outside hf _ _
  | @depart u channelId held clients htype hu honly hheld hclients =>
    refine notified_notice (g ∈ held) (notice BC_UNSUBSCRIPTION u g []) (by rw [htype]; decide)
      fun o ho _ => ?_
    rw [told_append, told_outside (fun f hf => unsubscribe_outside hf _ _), List.append_nil,
      told_farewells hheld.1 (fun g' hg' => (hclients g' hg').1)]
    exact if_congr (and_iff_left_of_imp fun hg => ((hclients g hg).2 o).mpr ho) rfl rfl

end Steps

/-! ### Runs -/

theorem run_told {hash : List UInt8 → Int32} {d d' : Directory} {ms out : List TunnelMsg}
    {g : Int32} {P : UInt16 → Prop}
    (h : Execution (Confined (BroadcastMachine.Step hash) fun d => ∀ o, P o → d.Member o g) d ms out
      d') :
    ∃ events : List GroupEvent,
      (events.filter fun e => e.1 = CHANNEL_DATA) =
        (ms.filter fun m => Addressed g m).map happening ∧ ∀ o, P o → told o g out = events := by
  induction h with
  | refl => exact ⟨[], rfl, fun _ _ => rfl⟩
  | @tail u v ms m out sent _ hstep ih =>
    obtain ⟨past, hpast, htold⟩ := ih
    obtain ⟨hstep, hu, hv⟩ := hstep
    obtain ⟨events, hdata, hsent⟩ := step_notified hstep g
    refine ⟨past ++ events, ?_, fun o ho => ?_⟩
    · rw [List.filter_append, hpast, hdata, List.filter_append, List.map_append,
        List.filter_singleton]
      by_cases ha : Addressed g m <;> simp [ha]
    · rw [told_append, htold o ho, hsent o (hu o ho) (hv o ho)]

variable {M : Type → Type → Type} [FiniteMap M]

/-- All members of a group are told of the same events in the same order, over any interval in which
they stay members: joins, departures and DATA. The DATA among them is every message that came for
the group, unchanged. -/
theorem same_order {A : Antd} {s s' : State M} (hs : Reachable A s) {g : Int32}
    {members : List UInt16} {inputs : List Input} {out : List TunnelMsg}
    (h : Execution (Confined (BroadcastService.Step A) fun s => ∀ o ∈ members, listens o g s = true)
      s inputs out s') :
    ∃ events : List GroupEvent, (∀ o ∈ members, told o g out = events) ∧
      (events.filter fun e => e.1 = CHANNEL_DATA) =
        (inputs.filter fun i => Addressed g i.request).map fun i => happening i.request := by
  have hinv := reachable_invariant hs
  have hrun : Execution (Confined (BroadcastMachine.Step A.simpleHash)
      fun d => ∀ o, o ∈ members → d.Member o g) (directoryOf s) (inputs.map Input.request) out
      (directoryOf s') := by
    refine h.simulates (I := Invariant A) Input.request
      (fun _ _ _ _ h hstep => step_preserves_invariant h hstep.1) ?_ hinv
    rintro s i out u h ⟨hstep, hl, hl'⟩
    have h' := step_preserves_invariant h hstep
    exact ⟨step_refines h hstep, fun o ho => (listens_iff h.toHandleInvariant).mp (hl o ho),
      fun o ho => (listens_iff h'.toHandleInvariant).mp (hl' o ho)⟩
  obtain ⟨events, hdata, htold⟩ := run_told hrun
  refine ⟨events, htold, ?_⟩
  rw [hdata, List.filter_map, List.map_map]
  rfl

/-- Users `A` and `B` are in group `G`. -/
def gathering : State AssocList :=
  stateAfter firstByteHost channelOk
    [.subscribe 1 65, .ctrl 1 0x0A 71, .subscribe 2 66, .ctrl 2 0x0A 71, .subscribe 3 67]

/-- A stranger writes to the group, and user `C` joins it. -/
theorem same_order_two_members : ∃ out s', ∃ events : List GroupEvent,
    Execution (Confined (BroadcastService.Step firstByteHost)
      fun s => ∀ o ∈ [1, 2], listens o 71 s = true) gathering
      [.plain CHANNEL_DATA 4 [0, 0, 0, 71, 9], .ctrl 3 0x0A 71] out s' ∧
    (∀ o ∈ [1, 2], told o 71 out = events) ∧
    (events.filter fun e => e.1 = CHANNEL_DATA) = [(CHANNEL_DATA, [0, 0, 0, 71, 9])] := by
  obtain ⟨out, s', hconfined⟩ := execution_of_confinedRun (step firstByteHost)
    (fun s => [1, 2].all fun o => listens o 71 s) (s := gathering)
    [.plain CHANNEL_DATA 4 [0, 0, 0, 71, 9], .ctrl 3 0x0A 71] (by decide +kernel)
  have hrun := hconfined.mono fun _ _ _ _ hstep =>
    (⟨hstep.1, List.all_eq_true.mp hstep.2.1, List.all_eq_true.mp hstep.2.2⟩ :
      Confined (BroadcastService.Step firstByteHost)
        (fun s => ∀ o ∈ [1, 2], listens o 71 s = true) _ _ _ _)
  obtain ⟨events, htold, hdata⟩ := same_order (stateAfter_reachable _ _ _) hrun
  exact ⟨out, s', events, hrun, htold, hdata.trans (by decide +kernel)⟩

end BroadcastOrder
