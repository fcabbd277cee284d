import TunnelPublishers.BroadcastCommands

/-!
# The frames of an answer

What is said fixes the frame that says it. The request decides the channel id, save
for an error reply, whose struct may hold the id of an earlier request. Whether a
message faults is decided in the same way, so services over different dictionaries
go through the same run.
-/
namespace BroadcastFrames

open ByteOrder FiniteMaps FiniteMap TunnelFraming ExecutionTraces BroadcastService
  BroadcastMachine BroadcastHandles BroadcastOutcomes BroadcastInvariant BroadcastRefinement
  BroadcastReplies BroadcastCommands

/-- The channel id of the frames a message is answered with, error replies aside. -/
def channelFor (i : Input) : UInt16 :=
  if i.request.header.type = CHANNEL_UNSUBSCRIBE then i.stack.channelId
  else i.request.header.channelId

variable {M : Type → Type → Type} [FiniteMap M]

/-- The frame by which something is said in answer to a message. -/
def framed (s : State M) (i : Input) (x : Said) : TunnelMsg :=
  frame x.type (if x.type = CHANNEL_ERROR then replyChannel s i else channelFor i) x.client
    x.payload

section Framing

variable {A : Antd} {s s' : State M} {i : Input} {out : List TunnelMsg} {type : UInt8}
  {client : UInt16} {payload : List UInt8}

theorem framed_frame (hsmall : payload.length < 2 ^ 32) (htype : type ≠ CHANNEL_ERROR) :
    frame type (channelFor i) client payload =
      framed s i (said (frame type (channelFor i) client payload)) := by
  simp only [said_frame hsmall, framed, htype, ↓reduceIte]

theorem framed_ctrl (htype : i.request.header.type = CHANNEL_CTRL)
    (hsmall : payload.length < 2 ^ 32) (c : UInt16) :
    frame CHANNEL_CTRL i.request.header.channelId c payload =
      framed s i (said (frame CHANNEL_CTRL i.request.header.channelId c payload)) := by
  have hchannel : i.request.header.channelId = channelFor i :=
    (if_neg (by rw [htype]; decide)).symm
  rw [hchannel]
  exact framed_frame hsmall (by decide)

theorem framed_forwarded (htype : i.request.header.type = CHANNEL_DATA) (o : UInt16) :
    { i.request with header.clientId := o } =
      framed s i (said { i.request with header.clientId := o }) := by
  have hreceived : TunnelMsg.Received { i.request with header.clientId := o } :=
    ⟨i.received.type, i.received.block, i.received.null⟩
  have hchannel : channelFor i = i.request.header.channelId := if_neg (by rw [htype]; decide)
  have hdata : ¬ CHANNEL_DATA = CHANNEL_ERROR := by decide
  simp only [framed, said, htype, hdata, ↓reduceIte, hchannel]
  rw [← htype]
  exact hreceived.eq_frame

/-- The notices and the answer to a departure are built in one struct. -/
theorem framed_farewell (htype : i.request.header.type = CHANNEL_UNSUBSCRIBE)
    (hsmall : payload.length < 2 ^ 32) (herror : type ≠ CHANNEL_ERROR) (c : UInt16) :
    frame type i.stack.channelId c payload =
      framed s i (said (frame type i.stack.channelId c payload)) := by
  have hchannel : i.stack.channelId = channelFor i := (if_pos htype).symm
  rw [hchannel]
  exact framed_frame hsmall herror

theorem framed_reply {reply : String} (h : Raises s i reply)
    (hstep : BroadcastService.Step A s i out s') : ∀ m ∈ out, m = framed s i (said m) := by
  rw [raises_framed h hstep]
  intro m hm
  rw [List.mem_singleton.mp hm, said_frame (errorText_small A reply), framed, if_pos rfl]

theorem handled_framed {clients : M UInt16 ℕ} {heap : List (Option (BcClient M))}
    (hstep : BroadcastService.Step A s i out s') (hh : Handled A s i out clients heap) :
    ∀ m ∈ out, m = framed s i (said m) := by
  cases hh with
  | subscribed | overlong | share | create | other => exact fun m hm => absurd hm List.not_mem_nil
  | join hctrl =>
    simp only [List.forall_mem_map]
    exact fun o _ => framed_ctrl hctrl.1 (notice_small _ _ _ (name_length_le _)) o
  | leave hctrl =>
    simp only [List.forall_mem_map]
    exact fun o _ => framed_ctrl hctrl.1 (notice_small _ _ _ (Nat.zero_le _)) o
  | queryUser hctrl =>
    simp only [List.forall_mem_map]
    exact fun o _ => framed_ctrl hctrl.1 (userAnswer_small _ _) i.client
  | queryGroup hctrl =>
    simp only [List.forall_mem_map]
    exact fun e _ => framed_ctrl hctrl.1 (groupAnswer_small _ _) i.client
  | queryUserRefused hctrl hc hp hg hout => exact framed_reply (.group hctrl hc hp hg hout) hstep
  | unknownCode hctrl hc hcode => exact framed_reply (.code hctrl hc hcode) hstep
  | unmapped htype hc =>
    by_cases hsize : 0 < i.size ∧ i.size ≤ MAX_STR_LEN
    · exact framed_reply (.client htype hsize hc) hstep
    · exact framed_reply (.size htype hsize) hstep
  | badSize htype hsize => exact framed_reply (.size htype hsize) hstep
  | data htype =>
    simp only [List.forall_mem_map]
    exact fun o _ => framed_forwarded htype o
  | unsubscribe htype =>
    simp only [List.forall_mem_singleton]
    exact framed_farewell htype (by decide) (by decide) i.client
  | depart htype =>
    simp only [farewells, List.forall_mem_append, List.forall_mem_flatMap, List.forall_mem_map,
      List.forall_mem_singleton]
    exact ⟨fun e _ o _ => framed_farewell htype (notice_small _ _ _ (Nat.zero_le _)) (by decide) o,
      framed_farewell htype (by decide) (by decide) i.client⟩

/-- A message is answered by the frames of what it says. -/
theorem step_framed (h : Invariant A s) (hs : BroadcastService.Step A s i out s') :
    out = (out.map said).map (framed s i) := by
  rw [List.map_map]
  have hframed := handled_framed hs (step_handled h hs)
  calc out = out.map id := (List.map_id out).symm
    _ = out.map (framed s i ∘ said) := List.map_congr_left hframed

end Framing

/-! ### When a message faults -/

/-- The conditions under which a message can fault do make it fault. -/
theorem faulted_step {A : Antd} {s : State M} {i : Input} {f : Fault} (h : Faulted s i f) :
    step A s i = .error f := by
  have hdata : ¬ CHANNEL_DATA = CHANNEL_SUBSCRIBE ∧ ¬ CHANNEL_DATA = CHANNEL_CTRL := by decide
  have hun : ¬ CHANNEL_UNSUBSCRIBE = CHANNEL_SUBSCRIBE ∧ ¬ CHANNEL_UNSUBSCRIBE = CHANNEL_CTRL ∧
      ¬ CHANNEL_UNSUBSCRIBE = CHANNEL_DATA := by decide
  cases h with
  | nullNode htype hnone =>
    simp only [step, htype, hun, ↓reduceIte, channelUnsubscribe, hnone, Option.map_none,
      BroadcastService.unsubscribe, bind, Except.bind]
  | dataWord htype hshort =>
    have hread : readWord i 0 = .error .outOfPayload := if_neg (by omega)
    simp only [step, htype, hdata, ↓reduceIte, channelData, hread, bind, Except.bind]
  | ctrlWord hctrl hcode hp hshort =>
    have hread : readWord i 1 = .error .outOfPayload := if_neg (by omega)
    have hjoin : ¬ BC_UNSUBSCRIPTION = BC_SUBSCRIPTION := by decide
    have hquery : ¬ BC_QUERY_USER = BC_SUBSCRIPTION ∧ ¬ BC_QUERY_USER = BC_UNSUBSCRIPTION := by
      decide
    rw [step_ctrl hctrl hp]
    simp only [List.mem_cons, List.not_mem_nil, or_false] at hcode
    rcases hcode with rfl | rfl
    · simp only [hjoin, ↓reduceIte, ctrlUnsubscription, hread, bind, Except.bind]
    · simp only [hquery, ↓reduceIte, ctrlQueryUser, hread, bind, Except.bind]
  | refusal htype hnone hpointer =>
    have hnot : ¬ Accepted s i := fun ha => ha.2.2 (hnone ha.2.1)
    obtain ⟨reply, hraises⟩ : ∃ reply, Raises s i reply := by
      by_cases hsize : 0 < i.size ∧ i.size ≤ MAX_STR_LEN
      · exact ⟨_, .client htype hsize (hnone hsize)⟩
      · exact ⟨_, .size htype hsize⟩
    obtain ⟨t, hstep, hsets⟩ := raises_step (A := A) hraises
    have hkept : t.responseData = s.responseData := by rw [hsets.data, replyBlock, if_neg hnot]
    rw [← hkept] at hpointer
    rw [hstep]
    unfold bcError
    split
    · next hbuffer => exact absurd hbuffer hpointer
    · rfl

theorem step_error {A : Antd} {s : State M} {i : Input} {f : Fault} (h : Invariant A s)
    (hs : step A s i = .error f) : Faulted s i f := by
  have hout := step_outcome h i
  rw [hs] at hout
  exact hout

/-! ### Two implementations of the dictionaries -/

section Two

variable {N : Type → Type → Type} [FiniteMap N] {A : Antd} {s : State M} {t : State N} {i : Input}

/-- Two services at the same directory, with the same `response`. -/
structure Corresponds (A : Antd) (s : State M) (t : State N) : Prop where
  left : Invariant A s
  right : Invariant A t
  directory : directoryOf s = directoryOf t
  data : s.responseData = t.responseData
  channel : s.response.channelId = t.response.channelId

theorem Corresponds.symm (h : Corresponds A s t) : Corresponds A t s :=
  ⟨h.right, h.left, h.directory.symm, h.data.symm, h.channel.symm⟩

theorem Corresponds.absent (h : Corresponds A s t) (c : UInt16) :
    find s.clients c = none ↔ find t.clients c = none := by
  have huser : (directoryOf s).user c = none ↔ (directoryOf t).user c = none := by
    rw [h.directory]
  exact (userOf_eq_none h.left.toHandleInvariant).symm.trans
    (huser.trans (userOf_eq_none h.right.toHandleInvariant))

theorem Corresponds.accepted (h : Corresponds A s t) : Accepted s i ↔ Accepted t i :=
  and_congr_right fun _ => and_congr_right fun _ => not_congr (h.absent i.client)

theorem Corresponds.replies (h : Corresponds A s t) :
    replyBlock s i = replyBlock t i ∧ replyChannel s i = replyChannel t i := by
  simp only [replyBlock, replyChannel, h.accepted, h.data, h.channel, and_self]

theorem Corresponds.faulted (h : Corresponds A s t) {f : Fault} (hf : Faulted s i f) :
    Faulted t i f := by
  cases hf with
  | nullNode htype hnone => exact .nullNode htype ((h.absent _).mp hnone)
  | dataWord htype hshort => exact .dataWord htype hshort
  | ctrlWord hctrl hcode hp hshort =>
    obtain ⟨q, hq⟩ : ∃ q, find t.clients i.client = some q := by
      apply Option.ne_none_iff_exists'.mp
      exact (h.absent _).not.mp (by simp [hp])
    exact .ctrlWord hctrl hcode hq hshort
  | refusal htype hnone hpointer =>
    exact .refusal htype (fun hsize => (h.absent _).mp (hnone hsize)) (h.data ▸ hpointer)

/-- A message that faults in one service does so in the other. -/
theorem Corresponds.step_faulted (h : Corresponds A s t) {f : Fault}
    (hs : step A s i = .error f) : step A t i = .error f :=
  faulted_step (h.faulted (step_error h.left hs))

theorem Corresponds.step_answered (h : Corresponds A s t) {s' : State M} {t' : State N}
    {out out' : List TunnelMsg} (hs : BroadcastService.Step A s i out s')
    (ht : BroadcastService.Step A t i out' t') : Corresponds A s' t' ∧ out.Perm out' := by
  have hcarried := step_carried h.left hs
  have hcarried' := step_carried h.right ht
  rw [← h.directory] at hcarried'
  have hsaid : (out.map said).Perm (out'.map said) := by
    apply List.perm_iff_count.mpr
    intro x
    rw [hcarried.frames, hcarried'.frames]
  have hframed : framed s i = framed t i := by
    funext x
    rw [framed, framed, h.replies.2]
  have hset := step_sets hs
  have hset' := step_sets ht
  have hleft := step_preserves_invariant h.left hs
  have hright := step_preserves_invariant h.right ht
  refine ⟨⟨hleft, hright, ?_, ?_, ?_⟩, ?_⟩
  · rw [hcarried.directory, hcarried'.directory]
  · rw [hset.data, hset'.data, h.replies.1]
  · rw [hset.channel, hset'.channel, h.replies.2]
  · rw [step_framed h.left hs, step_framed h.right ht, hframed]
    exact hsaid.map _

theorem Corresponds.step_agree (h : Corresponds A s t) (i : Input) :
    Agree (fun a b => Corresponds A a.1 b.1 ∧ a.2.Perm b.2) (step A s i) (step A t i) := by
  cases hs : step A s i with
  | error f => rw [h.step_faulted hs]; rfl
  | ok a =>
    cases ht : step A t i with
    | error f =>
      rw [h.symm.step_faulted ht] at hs
      cases hs
    | ok b => exact h.step_answered hs ht

end Two

/-- One message, with its frames beside it. -/
def answer (A : Antd) (s : State M) (i : Input) :
    Except Fault (State M × List (Input × List TunnelMsg)) :=
  (step A s i).map fun r => (r.1, [(i, r.2)])

theorem answer_eq_ok {A : Antd} {s u : State M} {i : Input}
    {os : List (Input × List TunnelMsg)} :
    answer A s i = .ok (u, os) ↔ ∃ out, os = [(i, out)] ∧ BroadcastService.Step A s i out u := by
  unfold answer BroadcastService.Step Succeeds
  cases step A s i with
  | error f => simp [Except.map]
  | ok r =>
    obtain ⟨s', out⟩ := r
    simp only [Except.map, Except.ok.injEq, Prod.mk.injEq]
    constructor
    · rintro ⟨rfl, rfl⟩
      exact ⟨out, rfl, rfl, rfl⟩
    · rintro ⟨out', rfl, rfl, rfl⟩
      exact ⟨rfl, rfl⟩

theorem answer_eq_error {A : Antd} {s : State M} {i : Input} {f : Fault}
    (h : step A s i = .error f) : answer A s i = .error f := by
  rw [answer, h]
  rfl

/-- The same message is answered by the same frames, up to their order. -/
def Alike (a b : Input × List TunnelMsg) : Prop := a.1 = b.1 ∧ a.2.Perm b.2

/-- Two users in one group. -/
def visit : List Input :=
  [.subscribe 1 65, .subscribe 2 66, .ctrl 1 0x0A 71, .ctrl 2 0x0A 71]

/-- The clients each message is answered to. -/
def addressed (outs : List (Input × List TunnelMsg)) : List (List UInt16) :=
  outs.map fun a => a.2.map fun m => m.header.clientId

theorem visit_newest_first :
    (runAll (answer firstByteHost) (initial firstByteHost channelOk : State AssocList) visit).map
      (fun r => addressed r.2) = .ok [[], [], [1], [2, 1]] := by decide +kernel

theorem visit_oldest_first :
    (runAll (answer firstByteHost) (initial firstByteHost channelOk : State KeepList) visit).map
      (fun r => addressed r.2) = .ok [[], [], [1], [1, 2]] := by decide +kernel

end BroadcastFrames
