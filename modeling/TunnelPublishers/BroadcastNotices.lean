import TunnelPublishers.BroadcastReplies
import TunnelPublishers.BroadcastIsolation

/-!
# Notices and group answers on the wire

The layout is written by offsets over a buffer that keeps older bytes. What is
written is cut out exactly by the length it carries, the group id is the key the
service files the group under, and it survives the trip through a later request.
-/
namespace BroadcastNotices

open ByteOrder FiniteMaps FiniteMap TunnelFraming ExecutionTraces BroadcastService
  BroadcastMachine BroadcastHandles BroadcastOutcomes BroadcastInvariant BroadcastRefinement
  BroadcastViews BroadcastIsolation BroadcastReplies

/-! ### Reading them back -/

/-- All fields of a notice: the announcement, and the group name behind it. -/
def decodeNamed (bytes : List UInt8) : Option (Announcement × List UInt8) :=
  (decodeNotice bytes).map fun a => (a, bytes.drop (2 + a.user.length + 4))

theorem decodeNamed_notice (code : UInt8) (u : Name) (g : Int32) (gname : List UInt8) :
    decodeNamed (notice code u g gname) = some (⟨code, u.bytes, be32 g.toUInt32⟩, gname) := by
  have hgname : (notice code u g gname).drop (2 + u.bytes.length + 4) = gname := by
    rw [notice, ← List.append_assoc, ← List.append_assoc]
    apply List.drop_left'
    simp
    omega
  rw [decodeNamed, decode_notice, Option.map_some, hgname]

theorem notice_gid (code : UInt8) (u : Name) (g : Int32) (gname : List UInt8) :
    ((notice code u g gname).drop (2 + u.bytes.length)).take 4 = be32 g.toUInt32 := by
  have hdrop : (notice code u g gname).drop (2 + u.bytes.length) = be32 g.toUInt32 ++ gname := by
    rw [notice, ← List.append_assoc]
    apply List.drop_left'
    simp
    omega
  rw [hdrop]
  apply List.take_left'
  rw [be32_length]

theorem groupAnswer_gid (g : Int32) (name : Name) :
    ((groupAnswer g name).drop 1).take 4 = be32 g.toUInt32 := by
  rw [groupAnswer, List.drop_one, List.tail_cons]
  apply List.take_left'
  rw [be32_length]

/-- A request that holds the bytes of a group id selects that group. -/
theorem readWord_of_gid {j : Input} {off : ℕ} {g : Int32}
    (h : (j.request.payload.drop off).take 4 = be32 g.toUInt32) : readWord j off = .ok g := by
  rw [readWord_eq_ok, ← h]
  exact (List.take_prefix _ _).trans ((payload_prefix_memory j).drop off)

/-- What a reader of a notice relies on. -/
structure WellFormed (A : Antd) (code : UInt8) (u : Name) (g : Int32) (gname : List UInt8) :
    Prop where
  name : u.bytes.length ≤ 254
  counted : ((notice code u g gname)[1]?).map UInt8.toNat = some u.bytes.length
  total : (notice code u g gname).length ≤ 514
  decoded : decodeNamed (notice code u g gname) =
    some (⟨code, u.bytes, be32 g.toUInt32⟩, gname)
  hashed : code = BC_SUBSCRIPTION → g = A.simpleHash gname
  reused : ∀ (j : Input) off, (j.request.payload.drop off).take 4 =
    ((notice code u g gname).drop (2 + u.bytes.length)).take 4 → readWord j off = .ok g

theorem notice_wellFormed {A : Antd} {code : UInt8} {u : Name} {g : Int32} {gname : List UInt8}
    (hg : gname.length ≤ 254) (hhash : code = BC_SUBSCRIPTION → g = A.simpleHash gname) :
    WellFormed A code u g gname := by
  have hname := name_length_le u
  refine ⟨hname, ?_, ?_, decodeNamed_notice code u g gname, hhash, ?_⟩
  · have hn : (UInt8.ofNat u.bytes.length).toNat = u.bytes.length := by
      rw [UInt8.toNat_ofNat', Nat.mod_eq_of_lt (by omega)]
    simp [notice, hn]
  · rw [notice_length]
    omega
  · intro j off h
    apply readWord_of_gid
    rw [h, notice_gid]

variable {M : Type → Type → Type} [FiniteMap M]

/-! ### What is announced -/

/-- What a message announces to the members of a group: the code, the acting user, the group and
the group's name. -/
inductive Announces (A : Antd) (s : State M) (i : Input) :
    UInt8 → Name → Int32 → List UInt8 → Prop where
  | join {p bc} {name : Name} : IsCtrl i.request BC_SUBSCRIPTION →
      find s.clients i.client = some p → Live s.heap p bc →
      name.bytes = cString (i.request.payload.drop 1) →
      Announces A s i BC_SUBSCRIPTION bc.name (A.simpleHash name.bytes) name.bytes
  | leave {p bc g} : IsCtrl i.request BC_UNSUBSCRIPTION → find s.clients i.client = some p →
      Live s.heap p bc → readWord i 1 = .ok g → Announces A s i BC_UNSUBSCRIPTION bc.name g []
  | depart {p bc g} : i.request.header.type = CHANNEL_UNSUBSCRIBE →
      find s.clients i.client = some p → Live s.heap p bc → bc.ref ≤ 1 →
      find bc.groups g ≠ none → Announces A s i BC_UNSUBSCRIPTION bc.name g []

theorem announces_wellFormed {A : Antd} {s : State M} {i : Input} {code : UInt8} {u : Name}
    {g : Int32} {gname : List UInt8} (h : Announces A s i code u g gname) :
    WellFormed A code u g gname := by
  cases h with
  | join _ _ _ _ => exact notice_wellFormed (name_length_le _) fun _ => rfl
  | leave | depart => exact notice_wellFormed (by simp) fun hc => absurd hc (by decide)

/-! ### The buffer -/

theorem ctrlNotice_buffer {s s' : State M} {bc : BcClient M} {g : Int32} {gname : List UInt8}
    {out : List TunnelMsg} {code : UInt8} (h : ctrlNotice s bc g gname = .ok (s', out))
    (hcode : [code] <+: s.msgBuffer) :
    notice code bc.name g gname <+: s'.msgBuffer := by
  have h₁ := memcpyAt_known hcode 1 rfl [UInt8.ofNat bc.name.bytes.length]
  have h₂ := memcpyAt_known h₁ 2 rfl bc.name.bytes
  have h₃ := memcpyAt_known h₂ (bc.name.bytes.length + 2) (by simp) (be32 g.toUInt32)
  have h₄ := memcpyAt_known h₃ (bc.name.bytes.length + 2 + 4) (by simp) gname
  simp only [ctrlNotice, bind, Except.bind, pure, Except.pure, mem32_htonl] at h
  split at h
  · cases h
  · cases h
    simpa [notice] using h₄

omit [FiniteMap M] in
theorem prepared_code (s : State M) {i : Input} {code : UInt8} (h : IsCtrl i.request code) :
    [code] <+: (prepared s i).msgBuffer := by
  rw [prepared, isCtrl_headD h]
  exact memcpyAt_known List.nil_prefix 0 rfl _

theorem join_buffer {A : Antd} {s s' : State M} {i : Input} {out : List TunnelMsg} {p : ℕ}
    {bc : BcClient M} {name : Name} (h : BroadcastService.Step A s i out s')
    (hctrl : IsCtrl i.request BC_SUBSCRIPTION) (hp : find s.clients i.client = some p)
    (hlive : Live s.heap p bc) (hname : name.bytes = cString (i.request.payload.drop 1)) :
    notice BC_SUBSCRIPTION bc.name (A.simpleHash name.bytes) name.bytes <+: s'.msgBuffer := by
  have hstep : step A s i = .ok (s', out) := h
  have hhandle : deref (prepared s i).heap p = .ok bc := deref_eq_ok.mpr hlive
  rw [step_ctrl hctrl hp, if_pos rfl] at hstep
  simp only [ctrlSubscription, hhandle, bind, Except.bind] at hstep
  have hbuf := ctrlNotice_buffer hstep (prepared_code s hctrl)
  change notice BC_SUBSCRIPTION (joined bc _ _).name _ _ <+: _ at hbuf
  rw [joined_name] at hbuf
  rw [hname]
  exact hbuf

theorem leave_buffer {A : Antd} {s s' : State M} {i : Input} {out : List TunnelMsg} {p : ℕ}
    {bc : BcClient M} {g : Int32} (h : BroadcastService.Step A s i out s')
    (hctrl : IsCtrl i.request BC_UNSUBSCRIPTION) (hp : find s.clients i.client = some p)
    (hlive : Live s.heap p bc) (hg : readWord i 1 = .ok g) :
    notice BC_UNSUBSCRIPTION bc.name g [] <+: s'.msgBuffer := by
  have hstep : step A s i = .ok (s', out) := h
  have hjoin : ¬ BC_UNSUBSCRIPTION = BC_SUBSCRIPTION := by decide
  have hhandle : deref (prepared s i).heap p = .ok bc := deref_eq_ok.mpr hlive
  rw [step_ctrl hctrl hp, if_neg hjoin, if_pos rfl] at hstep
  simp only [ctrlUnsubscription, hg, hhandle, bind, Except.bind, pure, Except.pure] at hstep
  split at hstep
  · cases hstep
  · next hnotice =>
    cases hstep
    have hbuf := ctrlNotice_buffer hnotice (prepared_code s hctrl)
    exact hbuf

/-! ### The frames -/

/-- The last client of a user is sent every notice of the departure itself. -/
theorem depart_sent {A : Antd} {s : State M} {i : Input} {out : List TunnelMsg}
    {clients : M UInt16 ℕ} {heap : List (Option (BcClient M))} {p : ℕ} {bc : BcClient M}
    {g : Int32} (h : HandleInvariant s.clients s.heap) (hh : Handled A s i out clients heap)
    (htype : i.request.header.type = CHANNEL_UNSUBSCRIBE)
    (hp : find s.clients i.client = some p) (hlive : Live s.heap p bc) (hlast : bc.ref ≤ 1)
    (hg : find bc.groups g ≠ none) :
    frame CHANNEL_CTRL i.stack.channelId i.client
      (notice BC_UNSUBSCRIPTION bc.name g []) ∈ out := by
  cases hh with
  | depart _ hp' hlive' _ =>
    rw [hp, Option.some.injEq] at hp'
    subst hp'
    cases hlive'.unique hlive
    obtain ⟨name, hname⟩ := Option.ne_none_iff_exists'.mp hg
    apply List.mem_append_left
    rw [farewells, List.mem_flatMap]
    refine ⟨(g, name), mem_entries.mpr hname, List.mem_map.mpr ⟨i.client, ?_, rfl⟩⟩
    exact ((recipients_enumerates h g).2 _).mpr ((member_iff h).mpr ⟨p, bc, hp, hlive, hg⟩)
  | unsubscribe _ hp' hlive' hmore =>
    rw [hp, Option.some.injEq] at hp'
    subst hp'
    rw [hlive'.unique hlive] at hmore
    omega
  | join hk | leave hk | queryUser hk | queryUserRefused hk | queryGroup hk | unknownCode hk =>
    exact absurd (htype.symm.trans hk.1) (by decide)
  | subscribed ht | overlong ht | share ht | create ht | unmapped ht | badSize ht | data ht =>
    exact absurd (htype.symm.trans ht) (by decide)
  | other ht => exact (ht (by simp [htype])).elim

theorem notice_payload (type : UInt8) (channelId o : UInt16) (code : UInt8) (u : Name) (g : Int32)
    {gname : List UInt8} (hg : gname.length ≤ 254) :
    (frame type channelId o (notice code u g gname)).payload = notice code u g gname :=
  frame_payload (notice_small code u g hg)

theorem announced_built {A : Antd} {s s' : State M} {i : Input} {out : List TunnelMsg}
    {code : UInt8} {u : Name} {g : Int32} {gname : List UInt8} (hinv : Invariant A s)
    (h : BroadcastService.Step A s i out s') (ha : Announces A s i code u g gname) :
    notice code u g gname <+: s'.msgBuffer ∨ ∃ f ∈ out, f.payload = notice code u g gname := by
  cases ha with
  | join hctrl hp hlive hname => exact Or.inl (join_buffer h hctrl hp hlive hname)
  | leave hctrl hp hlive hg => exact Or.inl (leave_buffer h hctrl hp hlive hg)
  | depart htype hp hlive hlast hg =>
    exact Or.inr ⟨_, depart_sent hinv.toHandleInvariant (step_handled hinv h) htype hp hlive hlast
      hg, notice_payload _ _ _ _ _ _ (by simp)⟩

/-- The control frames of a message: notices of what it announces, and answers to a query. -/
inductive ControlPayload (A : Antd) (s : State M) (i : Input) : List UInt8 → Prop where
  | notice {code u g gname} : Announces A s i code u g gname →
      ControlPayload A s i (notice code u g gname)
  | user (g : Int32) (u : Name) : ControlPayload A s i (userAnswer g u)
  | group {p bc g name} : Live s.heap p bc → find bc.groups g = some name →
      ControlPayload A s i (groupAnswer g name)

theorem handled_control {A : Antd} {s : State M} {i : Input} {out : List TunnelMsg}
    {clients : M UInt16 ℕ} {heap : List (Option (BcClient M))}
    (hh : Handled A s i out clients heap) {f : TunnelMsg} (hf : f ∈ out)
    (htype : f.header.type = CHANNEL_CTRL) : ControlPayload A s i f.payload := by
  cases hh with
  | subscribed | overlong | share | create | other => cases hf
  | join hctrl hp hlive hname hg =>
    obtain ⟨o, -, rfl⟩ := List.mem_map.mp hf
    rw [notice_payload _ _ _ _ _ _ (name_length_le _), hg]
    exact .notice (.join hctrl hp hlive hname)
  | leave hctrl hp hlive hg =>
    obtain ⟨o, -, rfl⟩ := List.mem_map.mp hf
    rw [notice_payload _ _ _ _ _ _ (by simp)]
    exact .notice (.leave hctrl hp hlive hg)
  | queryUser =>
    obtain ⟨o, -, rfl⟩ := List.mem_map.mp hf
    rw [frame_payload (userAnswer_small _ _)]
    exact .user _ _
  | queryGroup _ _ hlive =>
    obtain ⟨⟨g, name⟩, he, rfl⟩ := List.mem_map.mp hf
    rw [frame_payload (groupAnswer_small _ _)]
    exact .group hlive (mem_entries.mp he)
  | queryUserRefused _ _ _ _ _ hr | unknownCode _ _ _ hr | unmapped _ _ hr | badSize _ _ hr =>
    obtain ⟨channelId, reply, rfl⟩ := hr
    rw [List.mem_singleton.mp hf] at htype
    have herror : CHANNEL_ERROR = CHANNEL_CTRL := htype
    exact absurd herror (by decide)
  | data ht =>
    obtain ⟨o, -, rfl⟩ := List.mem_map.mp hf
    exact absurd (htype.symm.trans ht) (by decide)
  | unsubscribe =>
    rw [List.mem_singleton.mp hf] at htype
    have hun : CHANNEL_UNSUBSCRIBE = CHANNEL_CTRL := htype
    exact absurd hun (by decide)
  | depart ht hp hlive hlast =>
    rcases List.mem_append.mp hf with hf | hf
    · rw [farewells, List.mem_flatMap] at hf
      obtain ⟨⟨g, name⟩, he, hf⟩ := hf
      obtain ⟨o, -, rfl⟩ := List.mem_map.mp hf
      rw [notice_payload _ _ _ _ _ _ (by simp)]
      exact .notice (.depart ht hp hlive hlast (by rw [mem_entries.mp he]; simp))
    · rw [List.mem_singleton.mp hf] at htype
      have hun : CHANNEL_UNSUBSCRIBE = CHANNEL_CTRL := htype
      exact absurd hun (by decide)

/-! ### Groups are filed under the hash of their name -/

def Filed (hash : List UInt8 → Int32) (d : Directory) : Prop :=
  ∀ u g name, d.groups u g = some name → g = hash name.bytes

theorem step_filed {hash : List UInt8 → Int32} {d d' : Directory} {m : TunnelMsg}
    {out : List TunnelMsg} (h : BroadcastMachine.Step hash d m out d') (hd : Filed hash d) :
    Filed hash d' := by
  intro u g name hg
  cases h with
  | join _ _ _ _ =>
    simp only [Directory.join] at hg
    split at hg
    · next hnew =>
      rw [hnew.2.1, Option.some.inj hg]
    · exact hd u g name hg
  | leave | depart =>
    simp only [Directory.leave, Directory.depart] at hg
    split at hg
    · cases hg
    · exact hd u g name hg
  | _ => exact hd u g name hg

theorem reachable_filed {A : Antd} {s : State M} (h : Reachable A s) :
    Filed A.simpleHash (directoryOf s) := by
  obtain ⟨answer, inputs, out, hrun⟩ := h
  refine (service_refines_directory hrun).1.preserves (I := Filed A.simpleHash)
    (fun _ _ _ _ hd hstep => step_filed hstep hd) ?_
  intro u g name hg
  cases hg

theorem group_filed {A : Antd} {s : State M} (hs : Reachable A s) {p : ℕ} {bc : BcClient M}
    (hlive : Live s.heap p bc) {g : Int32} {name : Name} (hg : find bc.groups g = some name) :
    g = A.simpleHash name.bytes := by
  apply reachable_filed hs bc.name g name
  rw [← hg]
  exact groupsOf_of_live (reachable_invariant hs).toHandleInvariant hlive g

/-- Joins, leaves and departures are announced in notices that can be taken apart again, and the
groups a query lists stand under the hash of the name sent with them; the group id of either
selects the same group when it is copied into a later request. -/
theorem notices_decodable {A : Antd} {s s' : State M} {i : Input} {out : List TunnelMsg}
    (hs : Reachable A s) (h : BroadcastService.Step A s i out s') :
    (∀ code u g gname, Announces A s i code u g gname → WellFormed A code u g gname ∧
      (notice code u g gname <+: s'.msgBuffer ∨
        ∃ f ∈ out, f.payload = notice code u g gname)) ∧
    (∀ f ∈ out, f.header.type = CHANNEL_CTRL →
      f.payload.head? ∈ [some BC_SUBSCRIPTION, some BC_UNSUBSCRIPTION] →
      ∃ code u g gname, Announces A s i code u g gname ∧ f.payload = notice code u g gname) ∧
    ∀ f ∈ out, f.header.type = CHANNEL_CTRL → f.payload.head? = some BC_QUERY_GROUP →
      ∃ g name, f.payload = groupAnswer g name ∧ g = A.simpleHash name.bytes ∧
        ∀ (j : Input) off, (j.request.payload.drop off).take 4 = (f.payload.drop 1).take 4 →
          readWord j off = .ok g := by
  have hinv := reachable_invariant hs
  have hcontrol : ∀ f ∈ out, f.header.type = CHANNEL_CTRL → ControlPayload A s i f.payload :=
    fun f hf htype => handled_control (step_handled hinv h) hf htype
  refine ⟨?_, ?_, ?_⟩
  · intro code u g gname ha
    exact ⟨announces_wellFormed ha, announced_built hinv h ha⟩
  · intro f hf htype hhead
    have hpayload := hcontrol f hf htype
    generalize f.payload = payload at hhead hpayload
    cases hpayload with
    | notice ha => exact ⟨_, _, _, _, ha, rfl⟩
    | user => exact absurd hhead (by simp [userAnswer]; decide)
    | group => exact absurd hhead (by simp [groupAnswer]; decide)
  · intro f hf htype hhead
    have hpayload := hcontrol f hf htype
    generalize f.payload = payload at hhead hpayload
    cases hpayload with
    | notice ha => cases ha <;> exact absurd hhead (by simp [notice]; decide)
    | user => exact absurd hhead (by simp [userAnswer]; decide)
    | group hlive hg =>
      refine ⟨_, _, rfl, group_filed hs hlive hg, fun j off hcopy => ?_⟩
      apply readWord_of_gid
      rw [hcopy, groupAnswer_gid]

/-- User `B` joins group `G` where `A` is: both are sent the notice that was built. -/
theorem notices_decodable_join : ∃ (u : Name) (t : State AssocList) (out : List TunnelMsg),
    u.bytes = [66] ∧ step firstByteHost meeting (.ctrl 2 0x0A 71) = .ok (t, out) ∧
    out = [frame CHANNEL_CTRL 1 2 (notice BC_SUBSCRIPTION u 71 [71]),
      frame CHANNEL_CTRL 1 1 (notice BC_SUBSCRIPTION u 71 [71])] ∧
    WellFormed firstByteHost BC_SUBSCRIPTION u 71 [71] ∧
    (notice BC_SUBSCRIPTION u 71 [71] <+: t.msgBuffer ∨
      ∃ f ∈ out, f.payload = notice BC_SUBSCRIPTION u 71 [71]) ∧
    ∀ f ∈ out, ∃ code u g gname, Announces firstByteHost meeting (.ctrl 2 0x0A 71) code u g gname ∧
      f.payload = notice code u g gname := by
  have hs : Reachable firstByteHost meeting := stateAfter_reachable _ _ _
  obtain ⟨bc, hlive⟩ := (reachable_invariant hs).live 2 1 (by decide)
  have hname : (meeting.heap[1]?.bind id).map (fun bc => bc.name.bytes) = some [66] := by decide
  have hcell : meeting.heap[1]? = some (some bc) := hlive
  rw [hcell] at hname
  have hu : bc.name.bytes = [66] := Option.some.inj hname
  obtain ⟨⟨t, out⟩, hstep⟩ : ∃ r, step firstByteHost meeting (.ctrl 2 0x0A 71) = .ok r := ⟨_, rfl⟩
  have hsent : (step firstByteHost meeting (.ctrl 2 0x0A 71)).map Prod.snd =
      .ok [frame CHANNEL_CTRL 1 2 [0x0A, 1, 66, 0, 0, 0, 71, 71],
        frame CHANNEL_CTRL 1 1 [0x0A, 1, 66, 0, 0, 0, 71, 71]] := rfl
  rw [hstep] at hsent
  obtain rfl := Except.ok.inj hsent
  have hnotice : notice BC_SUBSCRIPTION bc.name 71 [71] = [0x0A, 1, 66, 0, 0, 0, 71, 71] := by
    rw [notice, hu]
    rfl
  obtain ⟨gname, hgname⟩ : ∃ gname : Name, gname.bytes = [71] :=
    ⟨⟨[71], by decide, by decide⟩, rfl⟩
  have ha : Announces firstByteHost meeting (.ctrl 2 0x0A 71) BC_SUBSCRIPTION bc.name 71 [71] := by
    have hjoin : Announces firstByteHost meeting (.ctrl 2 0x0A 71) BC_SUBSCRIPTION bc.name
        (firstByteHost.simpleHash gname.bytes) gname.bytes :=
      .join ⟨rfl, by decide, by decide, rfl⟩ rfl hlive (by rw [hgname]; decide)
    rw [hgname] at hjoin
    exact hjoin
  obtain ⟨hbuilt, hsaid, -⟩ := notices_decodable hs hstep
  obtain ⟨hformed, hfound⟩ := hbuilt _ _ _ _ ha
  refine ⟨bc.name, t, _, hu, hstep, by rw [hnotice], hformed, hfound, ?_⟩
  intro f hf
  have hframe : f.header.type = CHANNEL_CTRL ∧ f.payload.head? = some BC_SUBSCRIPTION := by
    rcases List.mem_pair.mp hf with rfl | rfl
    all_goals exact ⟨rfl, rfl⟩
  exact hsaid f hf hframe.1 (by simp [hframe.2])

end BroadcastNotices
