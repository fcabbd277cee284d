import TunnelPublishers.BroadcastRefinement

/-!
# Membership as the clients see it

A client that only replays the join and leave notices it receives knows the
users of its groups exactly. The step lemma is about the directory machine; the
service inherits it through the refinement.
-/
namespace BroadcastViews

open ByteOrder FiniteMaps FiniteMap TunnelFraming ExecutionTraces BroadcastService
  BroadcastMachine BroadcastHandles BroadcastOutcomes BroadcastInvariant BroadcastRefinement

/-! ### Reading notices -/

structure Announcement where
  code : UInt8
  user : List UInt8
  gid : List UInt8
  deriving DecidableEq

/-- The fields of a notice, cut by the length it carries. -/
def decodeNotice : List UInt8 → Option Announcement
  | code :: n :: rest =>
    if n.toNat + 4 ≤ rest.length then
      some ⟨code, rest.take n.toNat, (rest.drop n.toNat).take 4⟩
    else none
  | _ => none

/-- The set of users after an announcement. -/
def change (a : Announcement) (view : Set (List UInt8)) : Set (List UInt8) :=
  if a.code = BC_SUBSCRIPTION then insert a.user view
  else if a.code = BC_UNSUBSCRIPTION then view \ {a.user} else view

open Classical in
/-- What client `o` makes of a frame, as far as group `g` is concerned. -/
noncomputable def observe (o : UInt16) (g : Int32) (view : Set (List UInt8)) (m : TunnelMsg) :
    Set (List UInt8) :=
  if m.header.type = CHANNEL_CTRL ∧ m.header.clientId = o then
    match decodeNotice m.payload with
    | some a => if a.gid = be32 g.toUInt32 then change a view else view
    | none => view
  else view

theorem decode_notice (code : UInt8) (u : Name) (g : Int32) (gname : List UInt8) :
    decodeNotice (notice code u g gname) = some ⟨code, u.bytes, be32 g.toUInt32⟩ := by
  have hname := name_length_le u
  have hn : (UInt8.ofNat u.bytes.length).toNat = u.bytes.length := by
    rw [UInt8.toNat_ofNat', Nat.mod_eq_of_lt (by omega)]
  simp [decodeNotice, notice, hn]

theorem gid_injective {g g' : Int32} (h : be32 g.toUInt32 = be32 g'.toUInt32) : g = g' := by
  have hw := be32_injective h
  rw [← Int32.toInt32_toUInt32 g, ← Int32.toInt32_toUInt32 g', hw]

theorem observe_notice {o c channelId : UInt16} {g g' : Int32} {code : UInt8} {u : Name}
    {gname : List UInt8} (hg : gname.length ≤ 254) (view : Set (List UInt8)) :
    observe o g view (frame CHANNEL_CTRL channelId c (notice code u g' gname)) =
      if c = o ∧ g' = g then change ⟨code, u.bytes, be32 g'.toUInt32⟩ view else view := by
  unfold observe
  rw [frame_payload (notice_small code u g' hg), decode_notice]
  have hgid : be32 g'.toUInt32 = be32 g.toUInt32 ↔ g' = g := ⟨gid_injective, fun h => h ▸ rfl⟩
  by_cases hc : c = o <;> by_cases hgg : g' = g <;> simp [frame, hc, hgg, hgid]

/-- Frames that say nothing about membership. -/
def Silent (m : TunnelMsg) : Prop :=
  m.header.type = CHANNEL_CTRL → ∃ code rest, m.payload = code :: rest ∧
    code ≠ BC_SUBSCRIPTION ∧ code ≠ BC_UNSUBSCRIPTION

theorem observe_silent {m : TunnelMsg} (h : Silent m) (o : UInt16) (g : Int32)
    (view : Set (List UInt8)) : observe o g view m = view := by
  unfold observe
  split
  · next hm =>
    obtain ⟨code, rest, hpay, hsub, hun⟩ := h hm.1
    rw [hpay]
    cases rest with
    | nil => simp [decodeNotice]
    | cons n rest =>
      simp only [decodeNotice]
      by_cases hn : n.toNat + 4 ≤ rest.length <;> simp [hn, change, hsub, hun]
  · rfl

theorem replay_silent {out : List TunnelMsg} (h : ∀ m ∈ out, Silent m) (o : UInt16) (g : Int32)
    (view : Set (List UInt8)) : out.foldl (observe o g) view = view := by
  induction out generalizing view with
  | nil => rfl
  | cons m out ih =>
    rw [List.foldl_cons, observe_silent (h m List.mem_cons_self),
      ih fun m' hm' => h m' (List.mem_cons_of_mem m hm')]

theorem silent_of_type {type : UInt8} {channelId c : UInt16} {payload : List UInt8}
    (h : type ≠ CHANNEL_CTRL) : Silent (frame type channelId c payload) :=
  fun ht => (h ht).elim

theorem silent_refusal {m : TunnelMsg} {out : List TunnelMsg} (h : Refusal m out) :
    ∀ f ∈ out, Silent f := by
  obtain ⟨channelId, reply, rfl⟩ := h
  intro f hf
  rw [List.mem_singleton.mp hf]
  exact silent_of_type (by decide)

theorem silent_unsubscribe (channelId c : UInt16) :
    ∀ f ∈ [frame CHANNEL_UNSUBSCRIBE channelId c []], Silent f := by
  intro f hf
  rw [List.mem_singleton.mp hf]
  exact silent_of_type (by decide)

theorem silent_userAnswer (channelId c : UInt16) (g : Int32) (u : Name) :
    Silent (frame CHANNEL_CTRL channelId c (userAnswer g u)) := by
  intro _
  exact ⟨BC_QUERY_USER, be32 g.toUInt32 ++ u.bytes, frame_payload (userAnswer_small g u),
    by decide, by decide⟩

theorem silent_groupAnswer (channelId c : UInt16) (g : Int32) (u : Name) :
    Silent (frame CHANNEL_CTRL channelId c (groupAnswer g u)) := by
  intro _
  exact ⟨BC_QUERY_GROUP, be32 g.toUInt32 ++ u.bytes, frame_payload (groupAnswer_small g u),
    by decide, by decide⟩

theorem change_change (a : Announcement) (view : Set (List UInt8)) :
    change a (change a view) = change a view := by
  unfold change
  split
  · exact Set.insert_eq_of_mem (Set.mem_insert _ _)
  · split
    · ext b
      simp
    · rfl

/-- A notice sent to any number of clients changes the view once, if the observer is addressed
and the group is the one observed. -/
theorem replay_notices {code : UInt8} {u : Name} {gname : List UInt8} (hg : gname.length ≤ 254)
    (o channelId : UInt16) (g g' : Int32) (clients : List UInt16) (view : Set (List UInt8)) :
    (clients.map fun c => frame CHANNEL_CTRL channelId c (notice code u g' gname)).foldl
        (observe o g) view =
      if o ∈ clients ∧ g' = g then change ⟨code, u.bytes, be32 g'.toUInt32⟩ view else view := by
  induction clients generalizing view with
  | nil => simp
  | cons c clients ih =>
    rw [List.map_cons, List.foldl_cons, observe_notice hg, ih]
    by_cases hgg : g' = g
    · by_cases hc : c = o
      · by_cases ho : o ∈ clients <;> simp [hgg, hc, ho, change_change]
      · simp [hgg, hc, Ne.symm hc]
    · simp [hgg]

/-- The departures of one user from several groups; only the observed group matters. -/
theorem replay_farewells {u : Name} {clients : Int32 → List UInt16} (o channelId : UInt16)
    (g : Int32) (held : List Int32) (view : Set (List UInt8)) :
    (held.flatMap fun g' => (clients g').map fun c =>
        frame CHANNEL_CTRL channelId c (notice BC_UNSUBSCRIPTION u g' [])).foldl (observe o g)
        view =
      if g ∈ held ∧ o ∈ clients g then view \ {u.bytes} else view := by
  have hchange : ∀ v, change ⟨BC_UNSUBSCRIPTION, u.bytes, be32 g.toUInt32⟩ v = v \ {u.bytes} :=
    fun v => by simp [change, BC_UNSUBSCRIPTION, BC_SUBSCRIPTION]
  induction held generalizing view with
  | nil => simp
  | cons g' held ih =>
    rw [List.flatMap_cons, List.foldl_append, replay_notices (by simp), ih]
    by_cases hgg : g' = g
    · subst hgg
      by_cases ho : o ∈ clients g'
      · by_cases hh : g' ∈ held <;> simp [ho, hh, hchange]
      · simp [ho]
    · simp [hgg, Ne.symm hgg]

/-! ### Membership -/

/-- The names of the users in a group. -/
def names (d : Directory) (g : Int32) : Set (List UInt8) :=
  {b | ∃ u : Name, u.bytes = b ∧ d.InGroup u g}

theorem inGroup_join {d : Directory} {u v : Name} {g g' : Int32} {name : Name} :
    (d.join u g' name).InGroup v g ↔ v = u ∧ g = g' ∨ d.InGroup v g := by
  unfold Directory.InGroup Directory.join
  by_cases hv : v = u ∧ g = g'
  · obtain ⟨rfl, rfl⟩ := hv
    cases hf : d.groups v g <;> simp [hf]
  · have hno : ¬ (v = u ∧ g = g' ∧ d.groups u g' = none) := fun h => hv ⟨h.1, h.2.1⟩
    simp [hv, hno]

theorem names_join (d : Directory) (u : Name) (g g' : Int32) (name : Name) :
    names (d.join u g' name) g = if g' = g then insert u.bytes (names d g) else names d g := by
  ext b
  by_cases hgg : g' = g
  · subst hgg
    simp only [names, Set.mem_ofPred_eq, inGroup_join, ↓reduceIte, Set.mem_insert_iff]
    constructor
    · rintro ⟨v, rfl, ⟨rfl, -⟩ | hv⟩
      · exact Or.inl rfl
      · exact Or.inr ⟨v, rfl, hv⟩
    · rintro (rfl | ⟨v, rfl, hv⟩)
      · exact ⟨u, rfl, Or.inl ⟨rfl, trivial⟩⟩
      · exact ⟨v, rfl, Or.inr hv⟩
  · simp [names, inGroup_join, hgg, Ne.symm hgg]

theorem names_without {d d' : Directory} {u : Name} {g : Int32}
    (hin : ∀ v, d'.InGroup v g ↔ v ≠ u ∧ d.InGroup v g) :
    names d' g = names d g \ {u.bytes} := by
  ext b
  simp only [names, Set.mem_ofPred_eq, hin, Set.mem_sdiff, Set.mem_singleton_iff]
  constructor
  · rintro ⟨v, rfl, hv, hg⟩
    exact ⟨⟨v, rfl, hg⟩, fun he => hv (CStr.ext he)⟩
  · rintro ⟨⟨v, rfl, hg⟩, hne⟩
    exact ⟨v, rfl, fun he => hne (by rw [he]), hg⟩

theorem names_leave (d : Directory) (u : Name) (g g' : Int32) :
    names (d.leave u g') g = if g' = g then names d g \ {u.bytes} else names d g := by
  by_cases hgg : g' = g
  · subst hgg
    rw [if_pos rfl]
    apply names_without
    intro v
    by_cases hv : v = u <;> simp [Directory.InGroup, Directory.leave, hv]
  · simp [names, Directory.InGroup, Directory.leave, hgg, Ne.symm hgg]

theorem names_depart (d : Directory) (c : UInt16) (u : Name) (g : Int32) :
    names (d.depart c u) g = names d g \ {u.bytes} := by
  apply names_without
  intro v
  by_cases hv : v = u <;> simp [Directory.InGroup, Directory.depart, hv]

/-- One message moves the view of a member exactly as it moves the membership. -/
theorem step_view {hash : List UInt8 → Int32} {d d' : Directory} {m : TunnelMsg}
    {out : List TunnelMsg} {o : UInt16} {g : Int32} (h : BroadcastMachine.Step hash d m out d')
    (hd : d.Member o g) (hd' : d'.Member o g) :
    out.foldl (observe o g) (names d g) = names d' g := by
  cases h with
  | subscribe | subscribed | overlong | other => rfl
  | join hctrl hu hname hclients =>
    rename_i u clients name
    rw [replay_notices (name_length_le name), names_join]
    by_cases hg : hash name.bytes = g
    · subst hg
      simp [(hclients.2 o).mpr hd', change]
    · simp [hg]
  | leave hctrl hu hgid hclients =>
    rename_i u g' clients
    rw [replay_notices (by simp), names_leave]
    by_cases hg : g' = g
    · subst hg
      simp [(hclients.2 o).mpr hd, change, BC_UNSUBSCRIPTION, BC_SUBSCRIPTION]
    · simp [hg]
  | queryUser =>
    apply replay_silent
    intro m' hm'
    obtain ⟨c, -, rfl⟩ := List.mem_map.mp hm'
    exact silent_userAnswer _ _ _ _
  | queryGroup =>
    apply replay_silent
    intro m' hm'
    obtain ⟨e, -, rfl⟩ := List.mem_map.mp hm'
    exact silent_groupAnswer _ _ _ _
  | queryUserRefused _ _ _ _ hr | unknownCode _ _ _ hr | unmapped _ _ hr | badSize _ _ hr =>
    exact replay_silent (silent_refusal hr) _ _ _
  | data htype =>
    apply replay_silent
    intro m' hm'
    obtain ⟨c, -, rfl⟩ := List.mem_map.mp hm'
    intro ht
    exact absurd (htype.symm.trans ht) (by decide)
  | unsubscribe => exact replay_silent (silent_unsubscribe _ _) _ _ _
  | depart htype hu honly hheld hclients =>
    rename_i u channelId held clients
    rw [List.foldl_append, replay_farewells, names_depart,
      replay_silent (silent_unsubscribe _ _)]
    by_cases hg : g ∈ held
    · simp [hg, ((hclients g hg).2 o).mpr hd]
    · have hout : u.bytes ∉ names d g := by
        rintro ⟨v, hv, hin⟩
        rw [CStr.ext hv] at hin
        exact hg ((hheld.2 g).mpr hin)
      simp [hg, Set.sdiff_singleton_eq_self hout]

theorem views_follow (hash : List UInt8 → Int32) {d d' : Directory} {ms : List TunnelMsg}
    {out : List TunnelMsg} {o : UInt16} {g : Int32}
    (h : Execution (Confined (BroadcastMachine.Step hash) fun d => d.Member o g) d ms out d') :
    out.foldl (observe o g) (names d g) = names d' g := by
  induction h with
  | refl => rfl
  | tail _ hstep ih =>
    obtain ⟨hstep, hd, hd'⟩ := hstep
    rw [List.foldl_append, ih, step_view hstep hd hd']

/-! ### The service -/

variable {M : Type → Type → Type} [FiniteMap M]

/-- Whether a client is in the channel and its user in the group. -/
def listens (o : UInt16) (g : Int32) (s : State M) : Bool :=
  (find s.clients o).any (inGroup s.heap g)

theorem listens_iff {s : State M} (h : HandleInvariant s.clients s.heap) {o : UInt16}
    {g : Int32} : listens o g s = true ↔ (directoryOf s).Member o g := by
  rw [directoryOf, member_iff h]
  cases hf : find s.clients o with
  | none => simp [listens, hf]
  | some p =>
    obtain ⟨bc, hp⟩ := h.live o p hf
    simp only [listens, hf, Option.any_some, inGroup_of_live hp, Option.some.injEq]
    rw [Option.isSome_iff_ne_none]
    constructor
    · intro hg
      exact ⟨p, bc, rfl, hp, hg⟩
    · rintro ⟨q, bq, rfl, hq, hg⟩
      rwa [hp.unique hq]

def members (s : State M) (g : Int32) : Set (List UInt8) :=
  {b | ∃ p bc, Live s.heap p bc ∧ bc.name.bytes = b ∧ find bc.groups g ≠ none}

theorem members_eq_names {s : State M} (h : HandleInvariant s.clients s.heap) (g : Int32) :
    members s g = names (directoryOf s) g := by
  ext b
  constructor
  · rintro ⟨p, bc, hp, rfl, hg⟩
    refine ⟨bc.name, rfl, ?_⟩
    change groupsOf s.heap bc.name g ≠ none
    rwa [groupsOf_of_live h hp]
  · rintro ⟨u, rfl, hg⟩
    have hin : groupsOf s.heap u g ≠ none := hg
    by_cases hu : ∃ p bc, Live s.heap p bc ∧ bc.name = u
    · obtain ⟨p, bc, hp, rfl⟩ := hu
      rw [groupsOf_of_live h hp] at hin
      exact ⟨p, bc, hp, rfl, hin⟩
    · exact (hin (groupsOf_of_absent (fun p bc hp hn => hu ⟨p, bc, hp, hn⟩) g)).elim

/-- Over any interval in which `o` stays a listener of `g`, replaying the frames delivered to it
turns the members at the beginning into the members at the end. -/
theorem membership_views_exact {A : Antd} {s s' : State M} (hs : Reachable A s) {o : UInt16}
    {g : Int32} {inputs : List Input} {out : List TunnelMsg}
    (h : Execution (Confined (BroadcastService.Step A) fun s => listens o g s = true)
      s inputs out s') :
    out.foldl (observe o g) (members s g) = members s' g := by
  have hinv := reachable_invariant hs
  have hrun := h.mono fun _ _ _ _ hstep => hstep.1
  have hinv' := hrun.preserves (I := Invariant A)
    (fun _ _ _ _ h hstep => step_preserves_invariant h hstep) hinv
  rw [members_eq_names hinv.toHandleInvariant, members_eq_names hinv'.toHandleInvariant]
  refine views_follow A.simpleHash (h.simulates (I := Invariant A)
    Input.request (fun _ _ _ _ h hstep => step_preserves_invariant h hstep.1) ?_ hinv)
  rintro s i out u h ⟨hstep, hl, hl'⟩
  have h' := step_preserves_invariant h hstep
  exact ⟨step_refines h hstep, (listens_iff h.toHandleInvariant).mp hl,
    (listens_iff h'.toHandleInvariant).mp hl'⟩

/-- User `A` is in group `G`, user `B` in no group. -/
def meeting : State AssocList :=
  stateAfter firstByteHost channelOk [.subscribe 1 65, .ctrl 1 0x0A 71, .subscribe 2 66]

/-- User `A` watches group `G` while `B` joins it and leaves it twice. -/
theorem membership_views_exact_one_visitor : ∃ out s',
    Execution (Confined (BroadcastService.Step firstByteHost) fun s => listens 1 71 s = true)
      meeting [.plain CHANNEL_CTRL 2 [0x0A, 71], .plain CHANNEL_CTRL 2 [0x0B, 0, 0, 0, 71],
        .plain CHANNEL_CTRL 2 [0x0B, 0, 0, 0, 71]] out s' ∧
    out.foldl (observe 1 71) (members meeting 71) = members s' 71 := by
  obtain ⟨out, s', hrun⟩ := execution_of_confinedRun (step firstByteHost)
    (listens 1 71) (s := meeting)
    [.plain CHANNEL_CTRL 2 [0x0A, 71], .plain CHANNEL_CTRL 2 [0x0B, 0, 0, 0, 71],
      .plain CHANNEL_CTRL 2 [0x0B, 0, 0, 0, 71]] (by decide +kernel)
  exact ⟨out, s', hrun, membership_views_exact (stateAfter_reachable _ _ _) hrun⟩

end BroadcastViews
