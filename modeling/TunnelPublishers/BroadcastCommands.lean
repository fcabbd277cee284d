import TunnelPublishers.BroadcastReplies
import TunnelPublishers.BroadcastRefinement

/-!
# What a message asks of the broadcast service

A message is a command to the directory of users and groups. The command fixes
the next directory and how often each thing is said, so what clients are told
depends on the dictionaries of the service only in the order of the frames with
which one message is answered.
-/
namespace BroadcastCommands

open ByteOrder FiniteMaps FiniteMap TunnelFraming ExecutionTraces BroadcastService
  BroadcastMachine BroadcastHandles BroadcastOutcomes BroadcastInvariant BroadcastRefinement
  BroadcastReplies

/-- What a client is told: the channel id and the place in the stream do not count. -/
structure Said where
  type : UInt8
  client : UInt16
  payload : List UInt8
  deriving DecidableEq, Repr

def said (m : TunnelMsg) : Said := ⟨m.header.type, m.header.clientId, m.payload⟩

theorem said_frame {type : UInt8} {channelId client : UInt16} {payload : List UInt8}
    (h : payload.length < 2 ^ 32) :
    said (frame type channelId client payload) = ⟨type, client, payload⟩ := by
  rw [said, frame_payload h]
  rfl

theorem said_empty (type : UInt8) (channelId client : UInt16) :
    said (frame type channelId client []) = ⟨type, client, []⟩ :=
  said_frame (by decide)

/-- The group id behind an offset of the request, in network order. -/
def gidAt (i : Input) (off : ℕ) : Int32 := (ntohl (word32 ((i.memory.drop off).take 4))).toInt32

theorem gidAt_eq {i : Input} {off : ℕ} {g : Int32} (h : readWord i off = .ok g) :
    gidAt i off = g := by
  unfold readWord at h
  split at h
  · exact Except.ok.inj h
  · cases h

/-! ### Commands -/

inductive Command where
  | idle
  | subscribe (u : Name)
  | refuse (reply : String)
  | join (u name : Name)
  | leave (u : Name) (g : Int32)
  | queryUser (g : Int32)
  | queryGroup (u : Name)
  | data (g : Int32)
  | unsubscribe (u : Name)

/-- The name from an offset of the payload on. -/
def nameAt (i : Input) (off : ℕ) (h : i.size < MAX_STR_LEN + off) : Name :=
  terminate (i.request.payload.drop off)
    (by rw [List.length_drop, i.payload_length]; unfold MAX_STR_LEN at *; omega)

theorem user_fits {i : Input} (h : ¬ MAX_STR_LEN - 1 < i.size) : i.size < MAX_STR_LEN + 0 := by
  unfold MAX_STR_LEN at *
  omega

/-- A control request of the user of a client. -/
def ctrlCommand (d : Directory) (i : Input) (u : Name) (h : 0 < i.size ∧ i.size ≤ MAX_STR_LEN) :
    Command :=
  let code := i.request.payload.headD 0
  if code = BC_SUBSCRIPTION then
    .join u (nameAt i 1 (Nat.lt_succ_of_le h.2))
  else if code = BC_UNSUBSCRIPTION then .leave u (gidAt i 1)
  else if code = BC_QUERY_USER then
    if d.groups u (gidAt i 1) = none then .refuse (foreignGroup i.client)
    else .queryUser (gidAt i 1)
  else if code = BC_QUERY_GROUP then .queryGroup u
  else .refuse (invalidCode code)

def command (d : Directory) (i : Input) : Command :=
  let type := i.request.header.type
  if type = CHANNEL_SUBSCRIBE then
    if h : MAX_STR_LEN - 1 < i.size then .idle
    else
      match d.user i.client with
      | some _ => .idle
      | none => .subscribe (nameAt i 0 (user_fits h))
  else if type = CHANNEL_CTRL then
    if h : 0 < i.size ∧ i.size ≤ MAX_STR_LEN then
      match d.user i.client with
      | none => .refuse (notSubscribed i.client)
      | some u => ctrlCommand d i u h
    else .refuse (invalidSize i.request.header.size)
  else if type = CHANNEL_DATA then .data (gidAt i 0)
  else if type = CHANNEL_UNSUBSCRIBE then
    match d.user i.client with
    | none => .idle
    | some u => .unsubscribe u
  else .idle

/-- No other client belongs to the user. -/
def Lone (d : Directory) (c : UInt16) (u : Name) : Prop := ∀ o, o ≠ c → d.user o ≠ some u

open Classical in
noncomputable def after (hash : List UInt8 → Int32) (d : Directory) (c : UInt16) :
    Command → Directory
  | .subscribe u => d.subscribe c u
  | .join u name => d.join u (hash name.bytes) name
  | .leave u g => d.leave u g
  | .unsubscribe u => if Lone d c u then d.depart c u else d.unmap c
  | _ => d

/-- The text of an error reply, as it fits into the buffer. -/
def errorText (A : Antd) (reply : String) : List UInt8 :=
  cString ((text reply).take (A.BUFFLEN - 1))

/-- The members a notice goes to, counted where it is this one. -/
noncomputable def told (d : Directory) (g : Int32) (f : UInt16 → Said) (x : Said) : ℕ :=
  Set.ncard {o | d.Member o g ∧ f o = x}

/-- The groups of a leaving user with the members to be told. -/
def Parting (d : Directory) (u : Name) (e : Int32 × UInt16) : Prop :=
  d.InGroup u e.1 ∧ d.Member e.2 e.1

open Classical in
/-- How often a message with this command and payload makes the service say something. -/
noncomputable def answered (A : Antd) (d : Directory) (c : UInt16) (payload : List UInt8)
    (x : Said) : Command → ℕ
  | .idle => 0
  | .subscribe _ => 0
  | .refuse reply => if ⟨CHANNEL_ERROR, c, errorText A reply⟩ = x then 1 else 0
  | .join u name =>
    let g := A.simpleHash name.bytes
    told (d.join u g name) g (fun o => ⟨CHANNEL_CTRL, o, notice BC_SUBSCRIPTION u g name.bytes⟩) x
  | .leave u g => told d g (fun o => ⟨CHANNEL_CTRL, o, notice BC_UNSUBSCRIPTION u g []⟩) x
  | .queryUser g => Set.ncard {o | d.Member o g ∧
      (d.user o).map (fun v => Said.mk CHANNEL_CTRL c (userAnswer g v)) = some x}
  | .queryGroup u => Set.ncard {e : Int32 × Name | d.groups u e.1 = some e.2 ∧
      ⟨CHANNEL_CTRL, c, groupAnswer e.1 e.2⟩ = x}
  | .data g => told d g (fun o => ⟨CHANNEL_DATA, o, payload⟩) x
  | .unsubscribe u =>
    (if Lone d c u then Set.ncard {e : Int32 × UInt16 | Parting d u e ∧
      ⟨CHANNEL_CTRL, e.2, notice BC_UNSUBSCRIPTION u e.1 []⟩ = x} else 0) +
      if ⟨CHANNEL_UNSUBSCRIBE, c, []⟩ = x then 1 else 0

/-! ### Counting frames -/

section Counting

variable {α : Type} {l : List α} {P : α → Prop}

/-- Frames that go to listed elements, counted on the elements. -/
theorem count_said (h : Enumerates l P) {f : α → TunnelMsg} {g : α → Said}
    (hfg : ∀ a ∈ l, said (f a) = g a) (x : Said) :
    ((l.map f).map said).count x = Set.ncard {a | P a ∧ g a = x} := by
  have hmap : (l.map f).map said = l.map g := by
    rw [List.map_map]
    exact List.map_congr_left hfg
  rw [hmap]
  exact h.count_map g x

theorem count_singleton (y x : Said) : [y].count x = if y = x then 1 else 0 := by
  rw [List.count_singleton, beq_eq_decide]
  simp [eq_comm]

end Counting

variable {M : Type → Type → Type} [FiniteMap M] {A : Antd} {s s' : State M} {i : Input}
  {out : List TunnelMsg}

theorem errorText_small (A : Antd) (reply : String) : (errorText A reply).length < 2 ^ 32 := by
  have hle := cString_length_le ((text reply).take (A.BUFFLEN - 1))
  have htake := List.length_take_le (A.BUFFLEN - 1) (text reply)
  have hsmall := A.small
  unfold errorText
  omega

/-- An error reply is one frame with the text, on the channel `response` was last set up for. -/
theorem raises_framed {reply : String} (h : Raises s i reply)
    (hstep : BroadcastService.Step A s i out s') :
    out = [frame CHANNEL_ERROR (replyChannel s i) i.client (errorText A reply)] := by
  obtain ⟨t, ht, hsets⟩ := raises_step (A := A) h
  have hout := ht.symm.trans hstep
  unfold bcError at hout
  split at hout
  · obtain ⟨-, rfl⟩ := Prod.mk.inj (Except.ok.inj hout)
    have hdata : cString (memcpyAt t.msgBuffer 0 ((text reply).take (A.BUFFLEN - 1) ++ [0])) =
        errorText A reply := by
      rw [memcpyAt_zero, List.append_assoc, List.singleton_append, cString_append_zero]
      rfl
    have hpre := List.prefix_iff_eq_take.mp (List.takeWhile_prefix (p := (· ≠ 0))
      (l := memcpyAt t.msgBuffer 0 ((text reply).take (A.BUFFLEN - 1) ++ [0])))
    have htake : (memcpyAt t.msgBuffer 0 ((text reply).take (A.BUFFLEN - 1) ++ [0])).take
        (errorText A reply).length = errorText A reply := by
      rw [← hdata]
      exact hpre.symm
    rw [received_eq_frame (errorText_small A reply) (by rw [hdata]) htake, hsets.channel]
  · cases hout

theorem raises_said {reply : String} (h : Raises s i reply)
    (hstep : BroadcastService.Step A s i out s') :
    out.map said = [⟨CHANNEL_ERROR, i.client, errorText A reply⟩] := by
  rw [raises_framed h hstep, List.map_singleton, said_frame (errorText_small A reply)]

/-! ### Which command a message is -/

section Reading

variable {d : Directory} {u : Name}

theorem command_subscribe (htype : i.request.header.type = CHANNEL_SUBSCRIBE)
    (hsize : i.size ≤ 254) (hnone : d.user i.client = none)
    (hu : u.bytes = cString i.request.payload) : command d i = .subscribe u := by
  have hfits : ¬ MAX_STR_LEN - 1 < i.size := by
    unfold MAX_STR_LEN
    omega
  have hname : u = nameAt i 0 (user_fits hfits) := CStr.ext hu
  simp only [command, htype, ↓reduceIte, hfits, ↓reduceDIte, hnone, hname]

theorem command_subscribed (htype : i.request.header.type = CHANNEL_SUBSCRIBE)
    (hu : d.user i.client = some u) : command d i = .idle := by
  simp only [command, htype, ↓reduceIte, hu, dite_eq_ite, ite_self]

theorem command_overlong (htype : i.request.header.type = CHANNEL_SUBSCRIBE)
    (hsize : 254 < i.size) : command d i = .idle := by
  have hlong : MAX_STR_LEN - 1 < i.size := hsize
  simp only [command, htype, ↓reduceIte, hlong, ↓reduceDIte]

theorem ctrl_ne_subscribe : ¬ CHANNEL_CTRL = CHANNEL_SUBSCRIBE := by decide

theorem command_ctrl {code : UInt8} (hctrl : IsCtrl i.request code)
    (hu : d.user i.client = some u) : command d i = ctrlCommand d i u ⟨hctrl.2.1, hctrl.2.2.1⟩ := by
  have hsize : 0 < i.size ∧ i.size ≤ MAX_STR_LEN := ⟨hctrl.2.1, hctrl.2.2.1⟩
  simp only [command, hctrl.1, ctrl_ne_subscribe, ↓reduceIte, hsize, and_self, ↓reduceDIte, hu]

theorem command_badSize (htype : i.request.header.type = CHANNEL_CTRL)
    (hsize : ¬ (0 < i.size ∧ i.size ≤ MAX_STR_LEN)) :
    command d i = .refuse (invalidSize i.request.header.size) := by
  simp only [command, htype, ctrl_ne_subscribe, ↓reduceIte, hsize, ↓reduceDIte]

theorem command_unmapped (htype : i.request.header.type = CHANNEL_CTRL)
    (hsize : 0 < i.size ∧ i.size ≤ MAX_STR_LEN) (hnone : d.user i.client = none) :
    command d i = .refuse (notSubscribed i.client) := by
  simp only [command, htype, ctrl_ne_subscribe, ↓reduceIte, hsize, and_self, ↓reduceDIte, hnone]

theorem command_data (htype : i.request.header.type = CHANNEL_DATA) :
    command d i = .data (gidAt i 0) := by
  have hsub : ¬ CHANNEL_DATA = CHANNEL_SUBSCRIBE := by decide
  have hctrl : ¬ CHANNEL_DATA = CHANNEL_CTRL := by decide
  simp only [command, htype, hsub, hctrl, ↓reduceIte]

theorem command_unsubscribe (htype : i.request.header.type = CHANNEL_UNSUBSCRIBE)
    (hu : d.user i.client = some u) : command d i = .unsubscribe u := by
  have hsub : ¬ CHANNEL_UNSUBSCRIBE = CHANNEL_SUBSCRIBE := by decide
  have hctrl : ¬ CHANNEL_UNSUBSCRIBE = CHANNEL_CTRL := by decide
  have hdata : ¬ CHANNEL_UNSUBSCRIBE = CHANNEL_DATA := by decide
  simp only [command, htype, hsub, hctrl, hdata, ↓reduceIte, hu]

theorem command_other (htype : i.request.header.type ∉
    [CHANNEL_SUBSCRIBE, CHANNEL_CTRL, CHANNEL_DATA, CHANNEL_UNSUBSCRIBE]) :
    command d i = .idle := by
  simp only [List.mem_cons, List.not_mem_nil, or_false, not_or] at htype
  simp only [command, htype, ↓reduceIte]

theorem ctrlCommand_join (hctrl : IsCtrl i.request BC_SUBSCRIPTION) {name : Name}
    (hname : name.bytes = cString (i.request.payload.drop 1))
    (hsize : 0 < i.size ∧ i.size ≤ MAX_STR_LEN) : ctrlCommand d i u hsize = .join u name := by
  have hterm : name = nameAt i 1 (Nat.lt_succ_of_le hsize.2) := CStr.ext hname
  simp only [ctrlCommand, isCtrl_headD hctrl, ↓reduceIte, hterm]

theorem ctrlCommand_leave (hctrl : IsCtrl i.request BC_UNSUBSCRIPTION)
    (hsize : 0 < i.size ∧ i.size ≤ MAX_STR_LEN) :
    ctrlCommand d i u hsize = .leave u (gidAt i 1) := by
  have hjoin : ¬ BC_UNSUBSCRIPTION = BC_SUBSCRIPTION := by decide
  simp only [ctrlCommand, isCtrl_headD hctrl, hjoin, ↓reduceIte]

theorem ctrlCommand_queryUser (hctrl : IsCtrl i.request BC_QUERY_USER)
    (hsize : 0 < i.size ∧ i.size ≤ MAX_STR_LEN) : ctrlCommand d i u hsize =
      if d.groups u (gidAt i 1) = none then .refuse (foreignGroup i.client)
      else .queryUser (gidAt i 1) := by
  have hjoin : ¬ BC_QUERY_USER = BC_SUBSCRIPTION := by decide
  have hleave : ¬ BC_QUERY_USER = BC_UNSUBSCRIPTION := by decide
  simp only [ctrlCommand, isCtrl_headD hctrl, hjoin, hleave, ↓reduceIte]

theorem ctrlCommand_queryGroup (hctrl : IsCtrl i.request BC_QUERY_GROUP)
    (hsize : 0 < i.size ∧ i.size ≤ MAX_STR_LEN) : ctrlCommand d i u hsize = .queryGroup u := by
  have hjoin : ¬ BC_QUERY_GROUP = BC_SUBSCRIPTION := by decide
  have hleave : ¬ BC_QUERY_GROUP = BC_UNSUBSCRIPTION := by decide
  have huser : ¬ BC_QUERY_GROUP = BC_QUERY_USER := by decide
  simp only [ctrlCommand, isCtrl_headD hctrl, hjoin, hleave, huser, ↓reduceIte]

theorem ctrlCommand_unknown {code : UInt8} (hctrl : IsCtrl i.request code)
    (hcode : code ∉ [BC_SUBSCRIPTION, BC_UNSUBSCRIPTION, BC_QUERY_USER, BC_QUERY_GROUP])
    (hsize : 0 < i.size ∧ i.size ≤ MAX_STR_LEN) :
    ctrlCommand d i u hsize = .refuse (invalidCode code) := by
  simp only [List.mem_cons, List.not_mem_nil, or_false, not_or] at hcode
  simp only [ctrlCommand, isCtrl_headD hctrl, hcode, ↓reduceIte]

end Reading

/-! ### What a handled message does -/

/-- A message did what its command says. -/
structure Carried (A : Antd) (d d' : Directory) (i : Input) (out : List TunnelMsg) : Prop where
  directory : d' = after A.simpleHash d i.client (command d i)
  frames : ∀ x, (out.map said).count x =
    answered A d i.client i.request.payload x (command d i)

theorem carried_of {d d' : Directory} {c : Command} (hcmd : command d i = c)
    (hdir : d' = after A.simpleHash d i.client c)
    (hframes : ∀ x, (out.map said).count x = answered A d i.client i.request.payload x c) :
    Carried A d d' i out := by
  subst hcmd
  exact ⟨hdir, hframes⟩

theorem carried_silent {d : Directory} (hcmd : command d i = .idle) : Carried A d d i [] :=
  carried_of hcmd rfl fun _ => rfl

theorem carried_refusal {d : Directory} {reply : String} (hcmd : command d i = .refuse reply)
    (h : Raises s i reply) (hstep : BroadcastService.Step A s i out s') : Carried A d d i out := by
  apply carried_of hcmd rfl
  intro x
  rw [raises_said h hstep, count_singleton]
  rfl

theorem lone_iff (h : HandleInvariant s.clients s.heap) {p : ℕ} {bc : BcClient M}
    (hp : find s.clients i.client = some p) (hlive : Live s.heap p bc) :
    Lone (directoryOf s) i.client bc.name ↔ bc.ref ≤ 1 := by
  constructor
  · intro hlone
    by_contra hmore
    obtain ⟨o, hne, ho⟩ := other_client h hp hlive (not_le.mp hmore)
    exact hlone o hne (userOf_of_live ho hlive)
  · intro hlast o hne ho
    obtain ⟨q, bq, hf, hq, hn⟩ := (userOf_eq_some h).mp ho
    rw [h.distinct q p bq bc hq hlive hn] at hf
    exact hne (last_client h hp hlive hlast o hf)

theorem farewells_said (h : HandleInvariant s.clients s.heap) {p : ℕ} {bc : BcClient M}
    (hlive : Live s.heap p bc) (channelId : UInt16) (x : Said) :
    ((farewells s bc channelId).map said).count x =
      Set.ncard {e : Int32 × UInt16 | Parting (directoryOf s) bc.name e ∧
        ⟨CHANNEL_CTRL, e.2, notice BC_UNSUBSCRIPTION bc.name e.1 []⟩ = x} := by
  have hpairs := (gids_enumerate h hlive).pairs
    (m := fun g => recipients s.heap s.clients g) (Q := fun g o => (directoryOf s).Member o g)
    fun g _ => recipients_enumerates h g
  have hlist : farewells s bc channelId = (((entries bc.groups).map Prod.fst).flatMap fun g =>
      (recipients s.heap s.clients g).map (Prod.mk g)).map fun e =>
        frame CHANNEL_CTRL channelId e.2 (notice BC_UNSUBSCRIPTION bc.name e.1 []) := by
    simp only [farewells, List.map_flatMap, List.map_map, List.flatMap_map, Function.comp_def]
  rw [hlist]
  exact count_said hpairs (fun e _ => said_frame (notice_small _ _ _ (Nat.zero_le _))) x

theorem said_forwarded (i : Input) (htype : i.request.header.type = CHANNEL_DATA) (o : UInt16) :
    said { i.request with header.clientId := o } = ⟨CHANNEL_DATA, o, i.request.payload⟩ := by
  rw [said, htype]
  rfl

/-- The names sent for the members of a group are those of the directory. -/
theorem userAnswers_said (h : HandleInvariant s.clients s.heap) (g : Int32)
    (channelId c : UInt16) {users : UInt16 → Name}
    (husers : ∀ n ∈ entries s.clients, ∀ bc, Live s.heap n.2 bc → users n.1 = bc.name)
    (x : Said) :
    (((recipients s.heap s.clients g).map fun o =>
        frame CHANNEL_CTRL channelId c (userAnswer g (users o))).map said).count x =
      Set.ncard {o | (directoryOf s).Member o g ∧
        ((directoryOf s).user o).map (fun v => Said.mk CHANNEL_CTRL c (userAnswer g v)) =
          some x} := by
  have hname : ∀ o, (directoryOf s).Member o g → (directoryOf s).user o = some (users o) := by
    intro o ho
    obtain ⟨v, hv, -⟩ := ho
    obtain ⟨q, bc, hf, hq, rfl⟩ := (userOf_eq_some h).mp hv
    rw [husers (o, q) (mem_entries.mpr hf) bc hq]
    exact hv
  rw [count_said (recipients_enumerates h g)
    (g := fun o => ⟨CHANNEL_CTRL, c, userAnswer g (users o)⟩)
    (fun o _ => said_frame (userAnswer_small _ _))]
  congr 1
  ext o
  refine and_congr_right fun ho => ?_
  rw [hname o ho, Option.map_some, Option.some.injEq]

/-- A client that is not the last of its user only loses its entry. -/
theorem carried_unsubscribe (h : HandleInvariant s.clients s.heap) {d' : Directory}
    {p : ℕ} {bc : BcClient M} (htype : i.request.header.type = CHANNEL_UNSUBSCRIBE)
    (hc : find s.clients i.client = some p) (hp : Live s.heap p bc) (hmore : 1 < bc.ref)
    (hdir : d' = (directoryOf s).unmap i.client) (channelId : UInt16) :
    Carried A (directoryOf s) d' i [frame CHANNEL_UNSUBSCRIBE channelId i.client []] := by
  have hlone : ¬ Lone (directoryOf s) i.client bc.name :=
    (not_congr (lone_iff h hc hp)).mpr (not_le.mpr hmore)
  apply carried_of (command_unsubscribe htype (userOf_of_live hc hp))
  · exact hdir.trans (if_neg hlone).symm
  · intro x
    simp only [answered, if_neg hlone, Nat.zero_add, List.map_singleton]
    rw [said_empty, count_singleton]

/-- The last client of a user takes it along, and the members of its groups hear of it. -/
theorem carried_depart (h : HandleInvariant s.clients s.heap) {d' : Directory}
    {p : ℕ} {bc : BcClient M} (htype : i.request.header.type = CHANNEL_UNSUBSCRIBE)
    (hc : find s.clients i.client = some p) (hp : Live s.heap p bc) (hlast : bc.ref ≤ 1)
    (hdir : d' = (directoryOf s).depart i.client bc.name) (channelId : UInt16) :
    Carried A (directoryOf s) d' i (farewells s bc channelId ++
      [frame CHANNEL_UNSUBSCRIBE channelId i.client []]) := by
  have hlone : Lone (directoryOf s) i.client bc.name := (lone_iff h hc hp).mpr hlast
  apply carried_of (command_unsubscribe htype (userOf_of_live hc hp))
  · exact hdir.trans (if_pos hlone).symm
  · intro x
    simp only [answered, if_pos hlone, List.map_append, List.count_append, List.map_singleton]
    rw [farewells_said h hp, said_empty, count_singleton]

theorem handled_carried {clients : M UInt16 ℕ} {heap : List (Option (BcClient M))}
    (h : HandleInvariant s.clients s.heap) (hstep : BroadcastService.Step A s i out s')
    (hh : Handled A s i out clients heap) :
    Carried A (directoryOf s) (directory clients heap) i out := by
  have h' := handled_preserves h hh
  have huser : ∀ {p bc}, find s.clients i.client = some p → Live s.heap p bc →
      (directoryOf s).user i.client = some bc.name := userOf_of_live
  have hnone : find s.clients i.client = none → (directoryOf s).user i.client = none :=
    (userOf_eq_none h).mpr
  cases hh with
  | subscribed htype hsize hc =>
    obtain ⟨bc, hp⟩ := h.live _ _ hc
    exact carried_silent (command_subscribed htype (huser hc hp))
  | overlong htype hsize => exact carried_silent (command_overlong htype hsize)
  | share htype hsize hc hp hu =>
    exact carried_of (command_subscribe htype hsize (hnone hc) hu) (directory_share h hc hp h')
      fun _ => rfl
  | create htype hsize hc hu hfree =>
    exact carried_of (command_subscribe htype hsize (hnone hc) hu)
      (directory_create h hc hfree h') fun _ => rfl
  | join hctrl hc hp hname hg hheap =>
    rename_i p bc g name
    subst hg hheap
    have hcmd := (command_ctrl hctrl (huser hc hp)).trans (ctrlCommand_join hctrl hname _)
    have hmembers := recipients_enumerates h' (A.simpleHash name.bytes)
    rw [directory_join h hp h'] at hmembers ⊢
    exact carried_of hcmd rfl
      (count_said hmembers fun o _ => said_frame (notice_small _ _ _ (name_length_le name)))
  | leave hctrl hc hp hg =>
    have hcmd := (command_ctrl hctrl (huser hc hp)).trans (ctrlCommand_leave hctrl _)
    rw [gidAt_eq hg] at hcmd
    exact carried_of hcmd (directory_leave h hp h') (count_said (recipients_enumerates h _)
      fun o _ => said_frame (notice_small _ _ _ (Nat.zero_le _)))
  | queryUser hctrl hc hp hg hin husers =>
    rename_i p bc g users
    have hcmd := (command_ctrl hctrl (huser hc hp)).trans (ctrlCommand_queryUser hctrl _)
    have hheld : (directoryOf s).groups bc.name g ≠ none := by
      change groupsOf s.heap _ _ ≠ none
      rwa [groupsOf_of_live h hp]
    rw [gidAt_eq hg, if_neg hheld] at hcmd
    exact carried_of hcmd rfl (userAnswers_said h _ _ _ husers)
  | queryUserRefused hctrl hc hp hg hout hrefusal =>
    have hcmd := (command_ctrl hctrl (huser hc hp)).trans (ctrlCommand_queryUser hctrl _)
    have hfree : (directoryOf s).groups _ _ = none := (groupsOf_of_live h hp _).trans hout
    rw [gidAt_eq hg, if_pos hfree] at hcmd
    exact carried_refusal hcmd (.group hctrl hc hp hg hout) hstep
  | queryGroup hctrl hc hp =>
    have hcmd := (command_ctrl hctrl (huser hc hp)).trans (ctrlCommand_queryGroup hctrl _)
    exact carried_of hcmd rfl
      (count_said (groups_enumerates h hp) fun e _ => said_frame (groupAnswer_small _ _))
  | unknownCode hctrl hc hcode hrefusal =>
    obtain ⟨bc, hp⟩ := h.live _ _ hc
    have hcmd := (command_ctrl hctrl (huser hc hp)).trans (ctrlCommand_unknown hctrl hcode _)
    exact carried_refusal hcmd (.code hctrl hc hcode) hstep
  | unmapped htype hc hrefusal =>
    by_cases hsize : 0 < i.size ∧ i.size ≤ MAX_STR_LEN
    · exact carried_refusal (command_unmapped htype hsize (hnone hc)) (.client htype hsize hc) hstep
    · exact carried_refusal (command_badSize htype hsize) (.size htype hsize) hstep
  | badSize htype hsize hrefusal =>
    exact carried_refusal (command_badSize htype hsize) (.size htype hsize) hstep
  | data htype hg =>
    have hcmd : command (directoryOf s) i = .data _ := command_data htype
    rw [gidAt_eq hg] at hcmd
    exact carried_of hcmd rfl
      (count_said (recipients_enumerates h _) fun o _ => said_forwarded i htype o)
  | unsubscribe htype hc hp hmore =>
    exact carried_unsubscribe h htype hc hp hmore (directory_unmap h hp h') _
  | depart htype hc hp hlast =>
    exact carried_depart h htype hc hp hlast
      (directory_depart h hp (last_client h hc hp hlast) h') _
  | other htype => exact carried_silent (command_other htype)

/-- Every message that is handled does what its command says. -/
theorem step_carried (h : Invariant A s) (hs : BroadcastService.Step A s i out s') :
    Carried A (directoryOf s) (directoryOf s') i out :=
  handled_carried h.toHandleInvariant hs (step_handled h hs)

end BroadcastCommands
