import TunnelPublishers.BroadcastQueries
import TunnelPublishers.BroadcastViews

/-!
# Clients that learn who is in a group

A client that starts from anything it once knew, or from nothing, and takes in the
notices and the answers to its own queries in the order they are delivered.
-/
namespace BroadcastReplicas

open ByteOrder FiniteMaps FiniteMap TunnelFraming ExecutionTraces BroadcastService
  BroadcastMachine BroadcastHandles BroadcastOutcomes BroadcastInvariant BroadcastRefinement
  BroadcastViews BroadcastQueries

/-- An answer to a query about the group. -/
def Answers (o : UInt16) (g : Int32) (m : TunnelMsg) : Prop :=
  m.header.type = CHANNEL_CTRL ∧ m.header.clientId = o ∧
    m.payload.take 5 = BC_QUERY_USER :: be32 g.toUInt32

open Classical in
/-- An answer names one more user; the rest is as for a client that only observes. -/
noncomputable def learn (o : UInt16) (g : Int32) (view : Set (List UInt8)) (m : TunnelMsg) :
    Set (List UInt8) :=
  if Answers o g m then insert (m.payload.drop 5) view else observe o g view m

section Frames

variable {o : UInt16} {g : Int32} {view view' : Set (List UInt8)} {m : TunnelMsg}

theorem change_mono (a : Announcement) (h : view ⊆ view') : change a view ⊆ change a view' := by
  unfold change
  split_ifs
  · exact Set.insert_subset_insert h
  · exact Set.sdiff_subset_sdiff_left h
  · exact h

theorem learn_mono (o : UInt16) (g : Int32) (m : TunnelMsg) (h : view ⊆ view') :
    learn o g view m ⊆ learn o g view' m := by
  unfold learn
  split
  · exact Set.insert_subset_insert h
  · unfold observe
    split
    · cases decodeNotice m.payload with
      | none => exact h
      | some a =>
        dsimp only
        split
        · exact change_mono a h
        · exact h
    · exact h

/-- Who knows less before knows no more after. -/
theorem replay_mono (o : UInt16) (g : Int32) (out : List TunnelMsg) (h : view ⊆ view') :
    out.foldl (learn o g) view ⊆ out.foldl (learn o g) view' := by
  induction out generalizing view view' with
  | nil => exact h
  | cons m out ih => exact ih (learn_mono o g m h)

/-- A frame that answers no query about members. -/
def Plain (m : TunnelMsg) : Prop :=
  m.header.type = CHANNEL_CTRL → m.payload.head? ≠ some BC_QUERY_USER

theorem learn_plain (h : Plain m) (view : Set (List UInt8)) :
    learn o g view m = observe o g view m := by
  refine if_neg ?_
  rintro ⟨htype, -, hpayload⟩
  apply h htype
  cases hm : m.payload with
  | nil => simp [hm] at hpayload
  | cons b rest =>
    rw [hm, List.take_succ_cons, List.cons.injEq] at hpayload
    rw [List.head?_cons, hpayload.1]

theorem replay_plain {out : List TunnelMsg} (h : ∀ m ∈ out, Plain m) (view : Set (List UInt8)) :
    out.foldl (learn o g) view = out.foldl (observe o g) view := by
  induction out generalizing view with
  | nil => rfl
  | cons m out ih =>
    obtain ⟨hm, hout⟩ := List.forall_mem_cons.mp h
    rw [List.foldl_cons, List.foldl_cons, learn_plain hm, ih hout]

theorem learn_answer (channelId c : UInt16) (g' : Int32) (u : Name) :
    learn o g view (frame CHANNEL_CTRL channelId c (userAnswer g' u)) =
      if c = o ∧ g' = g then insert u.bytes view else view := by
  have hpayload : (frame CHANNEL_CTRL channelId c (userAnswer g' u)).payload = userAnswer g' u :=
    frame_payload (userAnswer_small g' u)
  have htake : (userAnswer g' u).take 5 = BC_QUERY_USER :: be32 g'.toUInt32 := by
    simp [userAnswer, be32]
  have hdrop : (userAnswer g' u).drop 5 = u.bytes := by
    simp [userAnswer, be32]
  have hanswers :
      Answers o g (frame CHANNEL_CTRL channelId c (userAnswer g' u)) ↔ c = o ∧ g' = g := by
    rw [Answers, hpayload, htake]
    constructor
    · rintro ⟨-, hc, hg⟩
      exact ⟨hc, gid_injective (List.cons.inj hg).2⟩
    · rintro ⟨rfl, rfl⟩
      exact ⟨rfl, rfl, rfl⟩
  unfold learn
  by_cases hmine : c = o ∧ g' = g
  · rw [if_pos (hanswers.mpr hmine), if_pos hmine, hpayload, hdrop]
  · rw [if_neg (mt hanswers.mp hmine), if_neg hmine]
    exact observe_silent (silent_userAnswer _ _ _ _) o g view

/-- The answers to one query. -/
theorem replay_answers (o channelId c : UInt16) (g g' : Int32) (users : UInt16 → Name)
    (clients : List UInt16) (view : Set (List UInt8)) :
    (clients.map fun x => frame CHANNEL_CTRL channelId c (userAnswer g' (users x))).foldl
        (learn o g) view =
      if c = o ∧ g' = g then view ∪ {b | ∃ x ∈ clients, (users x).bytes = b} else view := by
  induction clients generalizing view with
  | nil => split <;> simp
  | cons x clients ih =>
    rw [List.map_cons, List.foldl_cons, learn_answer, ih]
    split_ifs
    · ext b
      simp only [Set.mem_union, Set.mem_insert_iff, Set.mem_ofPred_eq, List.mem_cons,
        exists_eq_or_imp]
      tauto
    · rfl

end Frames

/-! ### One message -/

theorem plain_notice {type : UInt8} {channelId c : UInt16} {code : UInt8} {u : Name} {g : Int32}
    {gname : List UInt8} (hg : gname.length ≤ 254) (hcode : code ≠ BC_QUERY_USER) :
    Plain (frame type channelId c (notice code u g gname)) := by
  intro _
  rw [frame_payload (notice_small code u g hg)]
  simpa [notice] using hcode

theorem plain_refusal {m : TunnelMsg} {out : List TunnelMsg} (h : Refusal m out) :
    ∀ f ∈ out, Plain f := by
  obtain ⟨channelId, reply, rfl⟩ := h
  intro f hf
  rw [List.mem_singleton.mp hf]
  exact fun htype => absurd htype (by decide : CHANNEL_ERROR ≠ CHANNEL_CTRL)

theorem plain_unsubscribe (channelId c : UInt16) :
    ∀ f ∈ [frame CHANNEL_UNSUBSCRIBE channelId c []], Plain f := by
  intro f hf
  rw [List.mem_singleton.mp hf]
  exact fun htype => absurd htype (by decide : CHANNEL_UNSUBSCRIBE ≠ CHANNEL_CTRL)

/-- Only a query about members is answered by names. -/
theorem step_plain {hash : List UInt8 → Int32} {d d' : Directory} {m : TunnelMsg}
    {out : List TunnelMsg} (h : BroadcastMachine.Step hash d m out d') :
    (∀ f ∈ out, Plain f) ∨ d' = d ∧ ∃ (c : UInt16) (g : Int32) (clients : List UInt16)
      (users : UInt16 → Name), (∀ x ∈ clients, d.Member x g ∧ d.user x = some (users x)) ∧
        out = clients.map fun x =>
          frame CHANNEL_CTRL m.header.channelId c (userAnswer g (users x)) := by
  cases h with
  | subscribe | subscribed | overlong | other => exact .inl (by simp)
  | queryUser _ _ _ _ hclients husers =>
    exact .inr ⟨rfl, _, _, _, _, fun x hx => ⟨(hclients.2 x).mp hx, husers x hx⟩, rfl⟩
  | join hctrl hu hname hclients =>
    left
    intro f hf
    obtain ⟨c, -, rfl⟩ := List.mem_map.mp hf
    exact plain_notice (name_length_le _) (by decide)
  | leave hctrl hu hgid hclients =>
    left
    intro f hf
    obtain ⟨c, -, rfl⟩ := List.mem_map.mp hf
    exact plain_notice (by simp) (by decide)
  | queryGroup =>
    left
    intro f hf
    obtain ⟨e, -, rfl⟩ := List.mem_map.mp hf
    intro _
    rw [frame_payload (groupAnswer_small _ _)]
    exact (by decide : some BC_QUERY_GROUP ≠ some BC_QUERY_USER)
  | queryUserRefused _ _ _ _ hr | unknownCode _ _ _ hr | unmapped _ _ hr | badSize _ _ hr =>
    exact .inl (plain_refusal hr)
  | data htype =>
    left
    intro f hf
    obtain ⟨c, -, rfl⟩ := List.mem_map.mp hf
    exact fun ht => absurd (htype.symm.trans ht) (by decide)
  | unsubscribe => exact .inl (plain_unsubscribe _ _)
  | depart =>
    left
    intro f hf
    rcases List.mem_append.mp hf with hf | hf
    · obtain ⟨g, -, hf⟩ := List.mem_flatMap.mp hf
      obtain ⟨c, -, rfl⟩ := List.mem_map.mp hf
      exact plain_notice (by simp) (by decide)
    · exact plain_unsubscribe _ _ f hf

/-- Who knows the membership knows it after the next message. -/
theorem step_learn {hash : List UInt8 → Int32} {d d' : Directory} {m : TunnelMsg}
    {out : List TunnelMsg} {o : UInt16} {g : Int32} (h : BroadcastMachine.Step hash d m out d')
    (hd : d.Member o g) (hd' : d'.Member o g) :
    out.foldl (learn o g) (names d g) = names d' g := by
  rcases step_plain h with hplain | ⟨rfl, c, g', clients, users, hclients, rfl⟩
  · rw [replay_plain hplain]
    exact step_view h hd hd'
  · rw [replay_answers]
    split
    · next hmine =>
      obtain ⟨rfl, rfl⟩ := hmine
      apply Set.union_eq_self_of_subset_right
      rintro b ⟨x, hx, rfl⟩
      obtain ⟨⟨u, hu, hin⟩, husers⟩ := hclients x hx
      obtain rfl := Option.some.inj (hu.symm.trans husers)
      exact ⟨_, rfl, hin⟩
    · rfl

/-! ### Queries -/

/-- A query of the client for the users of the group. -/
def Asks (o : UInt16) (g : Int32) (m : TunnelMsg) : Prop :=
  IsCtrl m BC_QUERY_USER ∧ m.header.clientId = o ∧ (m.payload.drop 1).take 4 = be32 g.toUInt32

theorem Asks.gid_unique {o : UInt16} {g g' : Int32} {m : TunnelMsg} (h : Asks o g m)
    (hg : CarriesGid m 1 g') : g' = g := by
  obtain ⟨tail, ht⟩ := hg
  have hlen : 4 ≤ (m.payload.drop 1).length := by
    have htake := congrArg List.length h.2.2
    rw [List.length_take, be32_length] at htake
    omega
  have hdrop : (m.payload ++ tail).drop 1 = m.payload.drop 1 ++ tail :=
    List.drop_append_of_le_length (by rw [List.length_drop] at hlen; omega)
  apply gid_injective
  rw [ht, hdrop, List.take_append_of_le_length hlen, h.2.2]

theorem step_queryUser {hash : List UInt8 → Int32} {d d' : Directory} {m : TunnelMsg}
    {out : List TunnelMsg} {o : UInt16} {g : Int32} (h : BroadcastMachine.Step hash d m out d')
    (hasks : Asks o g m) (hin : d.Member o g) :
    d' = d ∧ ∃ (clients : List UInt16) (users : UInt16 → Name),
      Enumerates clients (fun x => d.Member x g) ∧ (∀ x ∈ clients, d.user x = some (users x)) ∧
      out = clients.map fun x =>
        frame CHANNEL_CTRL m.header.channelId o (userAnswer g (users x)) := by
  obtain ⟨u, hu, hgroup⟩ := hin
  have hctrl := hasks.1
  rw [← hasks.2.1] at hu ⊢
  cases h with
  | queryUser _ hu' hg' _ hclients husers =>
    rw [hasks.gid_unique hg'] at hclients ⊢
    exact ⟨rfl, _, _, hclients, husers, rfl⟩
  | queryUserRefused _ hu' hg' hout =>
    rw [hasks.gid_unique hg', Option.some.inj (hu'.symm.trans hu)] at hout
    exact (hout hgroup).elim
  | join hk | leave hk | queryGroup hk => exact absurd (hctrl.code_eq hk) (by decide)
  | unknownCode hk _ hcode => exact (hcode (by simp [← hctrl.code_eq hk])).elim
  | unmapped _ hnone => rw [hu] at hnone; cases hnone
  | badSize _ hsize => exact (hsize ⟨hctrl.2.1, hctrl.2.2.1⟩).elim
  | subscribe ht | subscribed ht | overlong ht | data ht | unsubscribe ht | depart ht =>
    exact absurd (hctrl.1.symm.trans ht) (by decide)
  | other ht => exact (ht (by simp [hctrl.1])).elim

/-- Every user of the group has a client, so the answers to one query name them all. -/
theorem step_complete {hash : List UInt8 → Int32} {d d' : Directory} {m : TunnelMsg}
    {out : List TunnelMsg} {o : UInt16} {g : Int32} {view : Set (List UInt8)}
    (h : BroadcastMachine.Step hash d m out d') (hasks : Asks o g m) (hin : d.Member o g)
    (hclient : ∀ u, d.InGroup u g → ∃ x, d.user x = some u) (hview : view ⊆ names d g) :
    out.foldl (learn o g) view = names d' g := by
  obtain ⟨rfl, clients, users, hclients, husers, rfl⟩ := step_queryUser h hasks hin
  rw [replay_answers, if_pos ⟨rfl, rfl⟩]
  apply Set.Subset.antisymm
  · rintro b (hb | ⟨x, hx, rfl⟩)
    · exact hview hb
    · obtain ⟨u, hu, hin⟩ := (hclients.2 x).mp hx
      obtain rfl := Option.some.inj (hu.symm.trans (husers x hx))
      exact ⟨_, rfl, hin⟩
  · rintro b ⟨u, rfl, hin⟩
    obtain ⟨x, hu⟩ := hclient u hin
    have hx := (hclients.2 x).mpr ⟨u, hu, hin⟩
    exact .inr ⟨x, hx, by rw [Option.some.inj ((husers x hx).symm.trans hu)]⟩

/-! ### Runs -/

variable {M : Type → Type → Type} [FiniteMap M]

/-- One message, for a client that is in the group before and after it. -/
theorem replica_step {A : Antd} {s s' : State M} {i : Input} {out : List TunnelMsg} {o : UInt16}
    {g : Int32} {view : Set (List UInt8)} (h : Invariant A s)
    (hstep : Confined (BroadcastService.Step A) (fun s => listens o g s = true) s i out s')
    (hview : view ⊆ members s g) :
    out.foldl (learn o g) view ⊆ members s' g ∧
      (view = members s g ∨ Asks o g i.request → out.foldl (learn o g) view = members s' g) := by
  obtain ⟨hstep, hin, hin'⟩ := hstep
  have h' := step_preserves_invariant h hstep
  have hrefines := step_refines h hstep
  rw [members_eq_names h.toHandleInvariant] at hview ⊢
  rw [members_eq_names h'.toHandleInvariant]
  have hd := (listens_iff h.toHandleInvariant).mp hin
  have hknown := step_learn hrefines hd ((listens_iff h'.toHandleInvariant).mp hin')
  constructor
  · rw [← hknown]
    exact replay_mono o g out hview
  · rintro (rfl | hasks)
    · exact hknown
    · exact step_complete hrefines hasks hd
        (fun _ hu => client_of_inGroup h.toHandleInvariant hu) hview

/-- A client of a group that starts from nothing, or from some of the users, never takes anyone for
a member who is not one, and knows the members exactly from its first query on. -/
theorem replica_exact {A : Antd} {s s' : State M} (hs : Reachable A s) {o : UInt16} {g : Int32}
    {inputs : List Input} {out : List TunnelMsg} {view : Set (List UInt8)}
    (h : Execution (Confined (BroadcastService.Step A) fun s => listens o g s = true)
      s inputs out s') (hview : view ⊆ members s g) :
    out.foldl (learn o g) view ⊆ members s' g ∧
      ((∃ i ∈ inputs, Asks o g i.request) → out.foldl (learn o g) view = members s' g) := by
  have hinv := reachable_invariant hs
  induction h with
  | refl => exact ⟨hview, fun ⟨_, hi, _⟩ => (List.not_mem_nil hi).elim⟩
  | tail hprev hstep ih =>
    obtain ⟨hsub, hexact⟩ := ih
    have hmid := (hprev.mono fun _ _ _ _ hstep => hstep.1).preserves (I := Invariant A)
      (fun _ _ _ _ h hstep => step_preserves_invariant h hstep) hinv
    obtain ⟨hsub', hexact'⟩ := replica_step hmid hstep hsub
    rw [List.foldl_append]
    refine ⟨hsub', ?_⟩
    rintro ⟨i, hi, hasks⟩
    apply hexact'
    rcases List.mem_append.mp hi with hi | hi
    · exact .inl (hexact ⟨i, hi, hasks⟩)
    · rw [List.mem_singleton.mp hi] at hasks
      exact .inr hasks

/-- User `A` knows nobody, asks who is in `G` and then sees `B` join it. -/
theorem replica_exact_one_query : ∃ out s',
    Execution (Confined (BroadcastService.Step firstByteHost) fun s => listens 1 71 s = true)
      meeting [.plain CHANNEL_CTRL 1 [0x0C, 0, 0, 0, 71], .plain CHANNEL_CTRL 2 [0x0A, 71]]
      out s' ∧
    out.foldl (learn 1 71) ∅ = members s' 71 := by
  obtain ⟨out, s', hrun⟩ := execution_of_confinedRun (step firstByteHost)
    (listens 1 71) (s := meeting)
    [.plain CHANNEL_CTRL 1 [0x0C, 0, 0, 0, 71], .plain CHANNEL_CTRL 2 [0x0A, 71]]
    (by decide +kernel)
  refine ⟨out, s', hrun,
    (replica_exact (stateAfter_reachable _ _ _) hrun (Set.empty_subset _)).2 ?_⟩
  exact ⟨_, List.mem_cons_self, ⟨rfl, by decide, by decide, rfl⟩, rfl, by decide⟩

end BroadcastReplicas
