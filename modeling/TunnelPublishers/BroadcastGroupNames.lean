import TunnelPublishers.BroadcastIsolation

/-!
# Groups under their names

The service files a group under the hash of its name and compares no names. Two
names are therefore kept apart exactly when their hashes differ, and no hash
keeps all names apart.
-/
namespace BroadcastGroupNames

open ByteOrder FiniteMaps FiniteMap TunnelFraming ExecutionTraces BroadcastService
  BroadcastMachine BroadcastHandles BroadcastOutcomes BroadcastInvariant BroadcastRefinement
  BroadcastViews BroadcastIsolation

/-- A request to join the group of a name. -/
def JoinsName (n : Name) (m : TunnelMsg) : Prop :=
  IsCtrl m BC_SUBSCRIPTION ∧ cString (m.payload.drop 1) = n.bytes

/-- A join notice or a DATA message directed at the group of a name. -/
def Directs (hash : List UInt8 → Int32) (n : Name) (m : TunnelMsg) : Prop :=
  JoinsName n m ∨
    m.header.type = CHANNEL_DATA ∧ be32 (hash n.bytes).toUInt32 <+: m.payload

/-- What user `u` joins, if anything, is the group of `n`. -/
def OnlyJoins (u n : Name) (user : UInt16 → Option Name) (m : TunnelMsg) : Prop :=
  IsCtrl m BC_SUBSCRIPTION → user m.header.clientId = some u → JoinsName n m

/-! ### The directory machine -/

section Machine

variable {hash : List UInt8 → Int32} {d d' : Directory} {m : TunnelMsg} {out : List TunnelMsg}
  {u n₁ n₂ : Name}

/-- All groups of `u` lie under one hash. -/
def Confines (u : Name) (g : Int32) (d : Directory) : Prop := ∀ g', d.InGroup u g' → g' = g

theorem step_confines (h : BroadcastMachine.Step hash d m out d') (hj : OnlyJoins u n₁ d.user m)
    (hd : Confines u (hash n₁.bytes) d) : Confines u (hash n₁.bytes) d' := by
  intro g hg
  cases h with
  | join hk hu hname =>
    rcases inGroup_join.mp hg with ⟨rfl, rfl⟩ | hold
    · rw [hname, (hj hk hu).2]
    · exact hd g hold
  | leave | depart =>
    refine hd g fun hnone => hg ?_
    simp only [Directory.leave, Directory.depart]
    split
    · rfl
    · exact hnone
  | _ => exact hd g hg

theorem carriesGid_unique {g : Int32} (hg : CarriesGid m 0 g)
    (hpre : be32 (hash n₂.bytes).toUInt32 <+: m.payload) : g = hash n₂.bytes := by
  obtain ⟨tail, ht⟩ := hg
  obtain ⟨rest, hrest⟩ := hpre
  apply gid_injective
  rw [ht, ← hrest, List.drop_zero, List.append_assoc, List.take_append_of_le_length (by simp),
    List.take_of_length_le (by simp)]

theorem step_apart (h : BroadcastMachine.Step hash d m out d')
    (hd : Confines u (hash n₁.bytes) d) (hne : hash n₁.bytes ≠ hash n₂.bytes)
    (hdir : Directs hash n₂ m) (hother : d.user m.header.clientId ≠ some u) :
    ∀ f ∈ out, d.user f.header.clientId ≠ some u := by
  intro f hf hu
  rcases hdir with ⟨hk, hname⟩ | ⟨ht, hpre⟩
  · cases hv : d.user m.header.clientId with
    | none =>
      obtain ⟨channelId, reply, rfl⟩ := step_unmapped h hk hv
      rw [List.mem_singleton.mp hf] at hu
      exact hother hu
    | some v =>
      obtain ⟨name, clients, hb, hclients, rfl, -⟩ := step_join h hk hv
      obtain ⟨o, ho, rfl⟩ := List.mem_map.mp hf
      obtain ⟨w, hw, hin⟩ := (hclients.2 o).mp ho
      have hw : d.user o = some w := hw
      have huw : u = w := Option.some.inj (hu.symm.trans hw)
      subst huw
      rcases inGroup_join.mp hin with ⟨rfl, -⟩ | hold
      · exact hother hv
      · rw [hb, hname] at hold
        exact hne (hd _ hold).symm
  · obtain ⟨g, clients, hg, hclients, rfl, -⟩ := step_data h ht
    obtain ⟨o, ho, rfl⟩ := List.mem_map.mp hf
    obtain ⟨w, hw, hin⟩ := (hclients.2 o).mp ho
    have huw : u = w := Option.some.inj (hu.symm.trans hw)
    subst huw
    rw [carriesGid_unique hg hpre] at hin
    exact hne (hd _ hin).symm

theorem step_answered {d'' : Directory} {q : TunnelMsg} {answers : List TunnelMsg}
    (h : BroadcastMachine.Step hash d m out d') (hd : Confines u (hash n₁.bytes) d)
    (hne : hash n₁.bytes ≠ hash n₂.bytes) (hu : d.user m.header.clientId = some u)
    (hjoin : JoinsName n₂ m) (hq : BroadcastMachine.Step hash d' q answers d'')
    (hk : IsCtrl q BC_QUERY_GROUP) (huq : d'.user q.header.clientId = some u) :
    ∃ f ∈ answers, f.payload = groupAnswer (hash n₂.bytes) n₂ := by
  obtain ⟨name, clients, hb, -, -, rfl⟩ := step_join h hjoin.1 hu
  have hname : name = n₂ := CStr.ext (hb.trans hjoin.2)
  subst hname
  have hfree : d.groups u (hash name.bytes) = none := by
    by_contra hin
    exact hne (hd _ hin).symm
  obtain ⟨held, hheld, rfl, -⟩ := step_queryGroup hq hk huq
  have hmem : (hash name.bytes, name) ∈ held :=
    (hheld.2 _).mpr (by simp [Directory.join, hfree])
  exact ⟨_, List.mem_map.mpr ⟨_, hmem, rfl⟩, frame_payload (groupAnswer_small _ _)⟩

end Machine

/-! ### The service -/

variable {M : Type → Type → Type} [FiniteMap M]

abbrev userIn (s : State M) : UInt16 → Option Name := userOf s.clients s.heap

/-- Runs in which `u` joins no group but that of `n`. -/
def Joining (A : Antd) (u n : Name) (s : State M) (i : Input) (out : List TunnelMsg)
    (s' : State M) : Prop :=
  BroadcastService.Step A s i out s' ∧ OnlyJoins u n (userIn s) i.request

variable (M) in
/-- A user that joined only `n₁` is not sent what others direct at `n₂`, and finds `n₂` among its
groups once it has joined it as well. -/
structure KeptApart (A : Antd) (n₁ n₂ : Name) : Prop where
  unsent : ∀ answer inputs out (s : State M) u,
    Execution (Joining A u n₁) (initial A answer) inputs out s →
    ∀ i s' frames, BroadcastService.Step A s i frames s' →
      Directs A.simpleHash n₂ i.request → userIn s i.client ≠ some u →
      ∀ f ∈ frames, userIn s f.header.clientId ≠ some u
  listed : ∀ answer inputs out (s : State M) u,
    Execution (Joining A u n₁) (initial A answer) inputs out s →
    ∀ i s' frames, BroadcastService.Step A s i frames s' →
      JoinsName n₂ i.request → userIn s i.client = some u →
      ∀ q s'' answers, BroadcastService.Step A s' q answers s'' →
        IsCtrl q.request BC_QUERY_GROUP → userIn s' q.client = some u →
        ∃ f ∈ answers, f.payload = groupAnswer (A.simpleHash n₂.bytes) n₂

theorem joining_confines {A : Antd} {answer : TunnelMsg} {inputs : List Input}
    {out : List TunnelMsg} {s : State M} {u n : Name}
    (h : Execution (Joining A u n) (initial A answer) inputs out s) :
    Invariant A s ∧ Confines u (A.simpleHash n.bytes) (directoryOf s) := by
  refine h.preserves (I := fun s => Invariant A s ∧
    Confines u (A.simpleHash n.bytes) (directoryOf s)) ?_ ⟨initial_invariant A answer, ?_⟩
  · rintro s i out s' ⟨hinv, hd⟩ ⟨hstep, hj⟩
    exact ⟨step_preserves_invariant hinv hstep, step_confines (step_refines hinv hstep) hj hd⟩
  · rw [directory_initial]
    intro g hg
    exact (hg rfl).elim

theorem kept_apart {A : Antd} {n₁ n₂ : Name}
    (hne : A.simpleHash n₁.bytes ≠ A.simpleHash n₂.bytes) : KeptApart M A n₁ n₂ := by
  constructor
  · intro answer inputs out s u h i s' frames hstep hdir hother
    obtain ⟨hinv, hd⟩ := joining_confines h
    exact step_apart (step_refines hinv hstep) hd hne hdir hother
  · intro answer inputs out s u h i s' frames hstep hjoin hu q s'' answers hq hk huq
    obtain ⟨hinv, hd⟩ := joining_confines h
    exact step_answered (step_refines hinv hstep) hd hne hu hjoin
      (step_refines (step_preserves_invariant hinv hstep) hq) hk huq

/-! ### Names with one hash -/

theorem step_total {A : Antd} {s : State M} (h : Invariant A s) {i : Input}
    (hf : ∀ f, ¬ Faulted s i f) : ∃ out s', BroadcastService.Step A s i out s' := by
  have ho := step_outcome h i
  cases hstep : step A s i with
  | error f => rw [hstep] at ho; exact (hf f ho).elim
  | ok r => exact ⟨r.2, r.1, hstep⟩

theorem subscribe_no_fault {s : State M} {i : Input}
    (htype : i.request.header.type = CHANNEL_SUBSCRIBE) (f : Fault) : ¬ Faulted s i f := by
  intro hf
  cases hf with
  | nullNode ht | dataWord ht | refusal ht => exact absurd (htype.symm.trans ht) (by decide)
  | ctrlWord hk => exact absurd (htype.symm.trans hk.1) (by decide)

theorem join_no_fault {s : State M} {i : Input} (hk : IsCtrl i.request BC_SUBSCRIPTION)
    (hc : find s.clients i.client ≠ none) (f : Fault) : ¬ Faulted s i f := by
  intro hf
  cases hf with
  | nullNode ht | dataWord ht => exact absurd (hk.1.symm.trans ht) (by decide)
  | ctrlWord hk' hcode => rw [← hk.code_eq hk'] at hcode; exact absurd hcode (by decide)
  | refusal _ hcase => exact hc (hcase ⟨hk.2.1, hk.2.2.1⟩)

/-- A name in a request, as the service reads it back. -/
theorem plain_joinsName (c : UInt16) (n : Name) (hsmall : (BC_SUBSCRIPTION :: n.bytes).length <
    2 ^ 32) : JoinsName n (Input.plain CHANNEL_CTRL c (BC_SUBSCRIPTION :: n.bytes) (by decide)
      hsmall).request := by
  have hlen := name_length_le n
  have hsize := Input.payload_length (Input.plain CHANNEL_CTRL c (BC_SUBSCRIPTION :: n.bytes)
    (by decide) hsmall)
  rw [Input.plain_payload, List.length_cons] at hsize
  refine ⟨⟨rfl, ?_, ?_, ?_⟩, ?_⟩
  · exact (Nat.succ_pos _).trans_eq hsize
  · refine hsize.symm.le.trans ?_
    unfold MAX_STR_LEN
    omega
  · rw [Input.plain_payload]
    rfl
  · rw [Input.plain_payload, List.drop_one, List.tail_cons, cString_of_notMem n.noNul]

/-- User `A` joins the group of `n₁`; a client outside the channel sends to that of `n₂`. -/
theorem collision_mixes {A : Antd} {n₁ n₂ : Name}
    (heq : A.simpleHash n₁.bytes = A.simpleHash n₂.bytes) : ¬ KeptApart M A n₁ n₂ := by
  intro hapart
  have hname := name_length_le n₁
  have h₀ : Invariant A (initial A channelOk : State M) := initial_invariant A channelOk
  -- SUBSCRIBE
  obtain ⟨out₁, s₁, hs₁⟩ := step_total h₀ (i := .plain CHANNEL_SUBSCRIBE 1 [65])
    (subscribe_no_fault rfl)
  have h₁ := step_preserves_invariant h₀ hs₁
  obtain ⟨u, hu, -, hd₁⟩ := step_subscribe (step_refines h₀ hs₁) rfl (by decide)
    (by rw [directory_initial]; rfl)
  have hu₁ : userIn s₁ 1 = some u := by
    change (directoryOf s₁).user 1 = some u
    rw [hd₁]
    simp [Directory.subscribe, Input.plain, frame]
  -- CTRL 0x0A
  have hsmall : (BC_SUBSCRIPTION :: n₁.bytes).length < 2 ^ 32 := by
    rw [List.length_cons]
    omega
  have hjoins := plain_joinsName 1 n₁ hsmall
  have hc₁ : find s₁.clients 1 ≠ none := by
    intro hnone
    rw [show userIn s₁ 1 = none from (userOf_eq_none h₁.toHandleInvariant).mpr hnone] at hu₁
    cases hu₁
  obtain ⟨out₂, s₂, hs₂⟩ := step_total h₁ (join_no_fault hjoins.1 hc₁)
  have h₂ := step_preserves_invariant h₁ hs₂
  obtain ⟨name, clients, hb, hclients, -, hd₂⟩ := step_join (step_refines h₁ hs₂) hjoins.1 hu₁
  have hin : (directoryOf s₂).Member 1 (A.simpleHash n₁.bytes) := by
    refine ⟨u, by rw [hd₂]; exact hu₁, ?_⟩
    rw [hd₂, ← hjoins.2, ← hb]
    exact inGroup_join.mpr (Or.inl ⟨rfl, rfl⟩)
  -- DATA
  have hpre : be32 (A.simpleHash n₂.bytes).toUInt32 <+: (Input.plain CHANNEL_DATA 2
      (be32 (A.simpleHash n₂.bytes).toUInt32) (by decide) (by simp)).request.payload := by
    rw [Input.plain_payload]
  have hword := (readWord_eq_ok (k := 0)).mpr
    (by rw [List.drop_zero]; exact hpre.trans (payload_prefix_memory _))
  obtain ⟨out₃, s₃, hs₃⟩ := step_total h₂ fun _ => unchecked_no_fault (Or.inl ⟨rfl, hword⟩)
  obtain ⟨g, receivers, hg, hreceivers, rfl, -⟩ := step_data (step_refines h₂ hs₃) rfl
  have hgid := carriesGid_unique hg hpre
  have hone : 1 ∈ receivers := (hreceivers.2 1).mpr (by rw [hgid, ← heq]; exact hin)
  have hu₂ : userIn s₂ 1 = some u := by
    change (directoryOf s₂).user 1 = some u
    rw [hd₂]
    exact hu₁
  have hout : userIn s₂ 2 ≠ some u := by
    change (directoryOf s₂).user 2 ≠ some u
    rw [hd₂, hd₁, directory_initial]
    simp [Directory.join, Directory.subscribe, Directory.vacant, Input.plain, frame]
  have hrun : Execution (Joining A u n₁) (initial A channelOk) _ _ s₂ :=
    .tail (.single ⟨hs₁, fun hk => absurd hk.1 (by decide)⟩) ⟨hs₂, fun _ _ => hjoins⟩
  exact hapart.unsent _ _ _ _ u hrun _ _ _ hs₃ (Or.inr ⟨rfl, hpre⟩) hout _
    (List.mem_map.mpr ⟨1, hone, rfl⟩) hu₂

/-- Two groups are kept apart in every run if and only if their names have different hashes. -/
theorem group_names_kept_apart_iff (A : Antd) (n₁ n₂ : Name) :
    KeptApart M A n₁ n₂ ↔ A.simpleHash n₁.bytes ≠ A.simpleHash n₂.bytes :=
  ⟨fun hapart heq => collision_mixes heq hapart, kept_apart⟩

/-- The groups `Ga` and `Gb` under the hash of their first byte. -/
theorem group_names_mixed : (⟨[71, 97], by decide, by decide⟩ : Name) ≠
      ⟨[71, 98], by decide, by decide⟩ ∧
    ¬ KeptApart AssocList firstByteHost ⟨[71, 97], by decide, by decide⟩
      ⟨[71, 98], by decide, by decide⟩ :=
  ⟨by decide, collision_mixes rfl⟩

/-- No hash of 32 bits keeps all names apart. -/
theorem some_names_mixed (A : Antd) : ∃ n₁ n₂ : Name, n₁ ≠ n₂ ∧ ¬ KeptApart M A n₁ n₂ := by
  have hfits : ∀ x, (fiveBytes x).length < MAX_STR_LEN := fun x => by simp [fiveBytes, MAX_STR_LEN]
  obtain ⟨x, y, hne, heq⟩ := hash_collides A.simpleHash
  refine ⟨⟨fiveBytes x, zero_notMem_fiveBytes x, hfits x⟩,
    ⟨fiveBytes y, zero_notMem_fiveBytes y, hfits y⟩, ?_, collision_mixes heq⟩
  intro he
  exact hne (fiveBytes_injective (congrArg CStr.bytes he))

end BroadcastGroupNames
