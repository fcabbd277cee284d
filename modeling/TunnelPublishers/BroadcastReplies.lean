import TunnelPublishers.BroadcastInvariant

/-!
# Where error replies are written

`BC_ERROR` formats its text through `response.data`, a pointer that outlives the
message. Only a control request the service accepts points it at the message
buffer; which block it denotes later depends on the run. The channel id of the
reply outlives messages in the same way.
-/
namespace BroadcastReplies

open ByteOrder FiniteMaps FiniteMap TunnelFraming ExecutionTraces BroadcastService
  BroadcastMachine BroadcastHandles BroadcastOutcomes BroadcastInvariant

variable {M : Type → Type → Type} [FiniteMap M]

/-- A control request that gets past the checks on its size and its client. -/
def Accepted (s : State M) (i : Input) : Prop :=
  i.request.header.type = CHANNEL_CTRL ∧ (0 < i.size ∧ i.size ≤ MAX_STR_LEN) ∧
    find s.clients i.client ≠ none

instance (s : State M) (i : Input) : Decidable (Accepted s i) :=
  inferInstanceAs (Decidable (_ ∧ _ ∧ _))

/-- The messages that lead to `BC_ERROR`, with the text they are answered with. -/
inductive Raises (s : State M) (i : Input) : String → Prop where
  | size : i.request.header.type = CHANNEL_CTRL → ¬ (0 < i.size ∧ i.size ≤ MAX_STR_LEN) →
      Raises s i (invalidSize i.request.header.size)
  | client : i.request.header.type = CHANNEL_CTRL → 0 < i.size ∧ i.size ≤ MAX_STR_LEN →
      find s.clients i.client = none → Raises s i (notSubscribed i.client)
  | code {p code} : IsCtrl i.request code → find s.clients i.client = some p →
      code ∉ [BC_SUBSCRIPTION, BC_UNSUBSCRIPTION, BC_QUERY_USER, BC_QUERY_GROUP] →
      Raises s i (invalidCode code)
  | group {p bc g} : IsCtrl i.request BC_QUERY_USER → find s.clients i.client = some p →
      Live s.heap p bc → readWord i 1 = .ok g → find bc.groups g = none →
      Raises s i (foreignGroup i.client)

/-- What `response.data` denotes once a message has been looked at. -/
def replyBlock (s : State M) (i : Input) : Block :=
  if Accepted s i then .msgBuffer else s.responseData

/-- The channel id an error reply to a message carries. -/
def replyChannel (s : State M) (i : Input) : UInt16 :=
  if Accepted s i then i.request.header.channelId else s.response.channelId

/-- `response` keeps its pointer and its channel id. -/
structure KeepsReply (s s' : State M) : Prop where
  data : s'.responseData = s.responseData
  channel : s'.response.channelId = s.response.channelId

/-- A message leaves `response` as the reply to it would be made. -/
structure SetsReply (s : State M) (i : Input) (s' : State M) : Prop where
  data : s'.responseData = replyBlock s i
  channel : s'.response.channelId = replyChannel s i

/-- The state in which the code of an accepted request is looked at. -/
def prepared (s : State M) (i : Input) : State M :=
  { s with
    response := { s.response with
      channelId := i.request.header.channelId, type := CHANNEL_CTRL }
    responseData := .msgBuffer
    msgBuffer := memcpyAt s.msgBuffer 0 [i.request.payload.headD 0] }

theorem step_ctrl {A : Antd} {s : State M} {i : Input} {code : UInt8} {p : ℕ}
    (hctrl : IsCtrl i.request code) (hp : find s.clients i.client = some p) :
    step A s i =
      if code = BC_SUBSCRIPTION then ctrlSubscription A (prepared s i) i p hctrl.2.2.1
      else if code = BC_UNSUBSCRIPTION then ctrlUnsubscription (prepared s i) i p
      else if code = BC_QUERY_USER then ctrlQueryUser A (prepared s i) i p
      else if code = BC_QUERY_GROUP then ctrlQueryGroup (prepared s i) i p
      else bcError A (prepared s i) i.client (invalidCode code) := by
  have hsub : ¬ CHANNEL_CTRL = CHANNEL_SUBSCRIBE := by decide
  have hsize : 0 < i.size ∧ i.size ≤ MAX_STR_LEN := ⟨hctrl.2.1, hctrl.2.2.1⟩
  simp only [step, hctrl.1, hsub, ↓reduceIte, channelCtrl, hsize, and_self, ↓reduceDIte, hp,
    isCtrl_headD hctrl, prepared]

/-- Before a request is accepted nothing of `response` changes. -/
theorem sets_of_not_accepted {s s' : State M} {i : Input} (hno : ¬ Accepted s i)
    (h : KeepsReply s s') : SetsReply s i s' := by
  constructor
  · rw [h.data, replyBlock, if_neg hno]
  · rw [h.channel, replyChannel, if_neg hno]

theorem sets_of_accepted {s s' : State M} {i : Input} (hacc : Accepted s i)
    (h : KeepsReply (prepared s i) s') : SetsReply s i s' := by
  constructor
  · rw [h.data, replyBlock, if_pos hacc, prepared]
  · rw [h.channel, replyChannel, if_pos hacc, prepared]

omit [FiniteMap M] in
theorem keeps_refl (s : State M) : KeepsReply s s := ⟨rfl, rfl⟩

theorem queryUser_refused {A : Antd} {s : State M} {i : Input} {p : ℕ} {bc : BcClient M}
    {g : Int32} (hlive : Live s.heap p bc) (hg : readWord i 1 = .ok g)
    (hout : find bc.groups g = none) :
    ∃ t, ctrlQueryUser A s i p = bcError A t i.client (foreignGroup i.client) ∧
      KeepsReply s t := by
  refine ⟨{ s with
    msgBuffer := memcpyAt s.msgBuffer 1 (mem32 (htonl g.toUInt32))
    response := { s.response with clientId := i.client } }, ?_, rfl, rfl⟩
  simp only [ctrlQueryUser, hg, deref_eq_ok.mpr hlive, hout, Option.isNone_none, ↓reduceIte, bind,
    Except.bind]

/-- Each of these messages ends in `BC_ERROR`, with `response` as the message left it. -/
theorem raises_step {A : Antd} {s : State M} {i : Input} {reply : String}
    (h : Raises s i reply) :
    ∃ t, step A s i = bcError A t i.client reply ∧ SetsReply s i t := by
  have hsub : ¬ CHANNEL_CTRL = CHANNEL_SUBSCRIBE := by decide
  cases h with
  | size htype hsize =>
    refine ⟨s, ?_, sets_of_not_accepted (fun ha => hsize ha.2.1) (keeps_refl s)⟩
    simp only [step, htype, hsub, ↓reduceIte, channelCtrl, hsize, ↓reduceDIte]
  | client htype hsize hnone =>
    refine ⟨s, ?_, sets_of_not_accepted (fun ha => ha.2.2 hnone) (keeps_refl s)⟩
    simp only [step, htype, hsub, ↓reduceIte, channelCtrl, hsize, and_self, ↓reduceDIte, hnone]
  | code hctrl hp hcode =>
    simp only [List.mem_cons, List.not_mem_nil, or_false, not_or] at hcode
    have hacc : Accepted s i := ⟨hctrl.1, ⟨hctrl.2.1, hctrl.2.2.1⟩, by simp [hp]⟩
    refine ⟨prepared s i, ?_, sets_of_accepted hacc (keeps_refl _)⟩
    simp only [step_ctrl hctrl hp, hcode, ↓reduceIte]
  | group hctrl hp hlive hg hout =>
    have hjoin : ¬ BC_QUERY_USER = BC_SUBSCRIPTION := by decide
    have hleave : ¬ BC_QUERY_USER = BC_UNSUBSCRIPTION := by decide
    have hacc : Accepted s i := ⟨hctrl.1, ⟨hctrl.2.1, hctrl.2.2.1⟩, by simp [hp]⟩
    obtain ⟨t, hstep, hkept⟩ := @queryUser_refused M _ A (prepared s i) _ _ _ _ hlive hg hout
    refine ⟨t, ?_, sets_of_accepted hacc hkept⟩
    rw [← hstep, step_ctrl hctrl hp]
    simp only [hjoin, hleave, ↓reduceIte]

/-! ### What a message does to the struct of the reply -/

/-- What every call of a callback leaves alone, its traversal leaves alone. -/
theorem forEach_keeps {γ β κ : Type} {f : γ → β → Except Fault (γ × List TunnelMsg)} (k : γ → κ)
    (hf : ∀ x e out y, f x e = .ok (y, out) → k y = k x) {l : List β} {x y : γ}
    {out : List TunnelMsg} (h : forEach f x l = .ok (y, out)) : k y = k x :=
  (forEach_execution h).preserves (I := fun z => k z = k x)
    (fun z e out' u hz hstep => (hf z e out' u hstep).trans hz) rfl

theorem bcNotify_channel {heap : List (Option (BcClient M))} {g : Int32} {node : UInt16 × ℕ}
    {msg msg' : TunnelMsg} {out : List TunnelMsg} (h : bcNotify heap g msg node = .ok (msg', out)) :
    msg'.header.channelId = msg.header.channelId := by
  obtain ⟨bc, -, h⟩ := ok_of_bind h
  split at h
  · cases h
    rfl
  · cases h
    rfl

theorem bcSendQueryUser_channel {heap : List (Option (BcClient M))} {g : Int32} {len : ℕ}
    {node : UInt16 × ℕ} {msg msg' : TunnelMsg} {out : List TunnelMsg}
    (h : bcSendQueryUser heap g len msg node = .ok (msg', out)) :
    msg'.header.channelId = msg.header.channelId := by
  obtain ⟨bc, -, h⟩ := ok_of_bind h
  split at h
  · cases h
    rfl
  · cases h
    rfl

theorem bcSendQueryGroup_channel {node : Int32 × Name} {msg msg' : TunnelMsg}
    {out : List TunnelMsg} (h : bcSendQueryGroup msg node = .ok (msg', out)) :
    msg'.header.channelId = msg.header.channelId := by
  cases h
  rfl

omit [FiniteMap M] in
theorem bcError_keeps {A : Antd} {s s' : State M} {client : UInt16} {reply : String}
    {out : List TunnelMsg} (h : bcError A s client reply = .ok (s', out)) : KeepsReply s s' := by
  unfold bcError at h
  split at h
  · cases h
    exact ⟨rfl, rfl⟩
  · cases h

theorem ctrlNotice_keeps {s s' : State M} {bc : BcClient M} {hash : Int32} {gname : List UInt8}
    {out : List TunnelMsg} (h : ctrlNotice s bc hash gname = .ok (s', out)) : KeepsReply s s' := by
  obtain ⟨response, hnotify, h⟩ := ok_of_bind h
  cases h
  have hchannel := forEach_keeps (fun msg => msg.header.channelId)
    (fun _ _ _ _ h => bcNotify_channel h) hnotify
  exact ⟨rfl, hchannel⟩

theorem unsubscribe_keeps {s s' : State M} {stack : TunnelMsgH} {node : Option (UInt16 × ℕ)}
    {out : List TunnelMsg} (h : BroadcastService.unsubscribe s stack node = .ok (s', out)) :
    KeepsReply s s' := by
  rcases node with _ | ⟨key, p⟩
  · cases h
  · obtain ⟨bc, -, h⟩ := ok_of_bind h
    dsimp only at h
    split at h
    · obtain ⟨told, -, h⟩ := ok_of_bind h
      cases h
      exact ⟨rfl, rfl⟩
    · cases h
      exact ⟨rfl, rfl⟩

theorem channelSubscribe_keeps {s s' : State M} {i : Input} {out : List TunnelMsg}
    (h : channelSubscribe s i = .ok (s', out)) : KeepsReply s s' := by
  unfold channelSubscribe at h
  split at h
  · cases h
    exact keeps_refl s
  · split at h
    · cases h
      exact keeps_refl s
    · obtain ⟨found, -, h⟩ := ok_of_bind h
      split at h
      · obtain ⟨handle, -, h⟩ := ok_of_bind h
        cases h
        exact ⟨rfl, rfl⟩
      · cases h
        exact ⟨rfl, rfl⟩

theorem channelData_keeps {s s' : State M} {i : Input} {out : List TunnelMsg}
    (h : channelData s i = .ok (s', out)) : KeepsReply s s' := by
  obtain ⟨hash, -, h⟩ := ok_of_bind h
  obtain ⟨notified, -, h⟩ := ok_of_bind h
  cases h
  exact keeps_refl s

theorem channelUnsubscribe_keeps {s s' : State M} {i : Input} {out : List TunnelMsg}
    (h : channelUnsubscribe s i = .ok (s', out)) : KeepsReply s s' := by
  obtain ⟨left, hleft, h⟩ := ok_of_bind h
  cases h
  have hkept := unsubscribe_keeps hleft
  exact ⟨hkept.data, hkept.channel⟩

section

variable {A : Antd} {s s' : State M} {i : Input} {p : ℕ} {out : List TunnelMsg}

theorem ctrlSubscription_keeps {hsize : i.size ≤ MAX_STR_LEN}
    (h : ctrlSubscription A s i p hsize = .ok (s', out)) : KeepsReply s s' := by
  obtain ⟨bc, -, h⟩ := ok_of_bind h
  have hkept := ctrlNotice_keeps h
  exact ⟨hkept.data, hkept.channel⟩

theorem ctrlUnsubscription_keeps (h : ctrlUnsubscription s i p = .ok (s', out)) :
    KeepsReply s s' := by
  obtain ⟨hash, -, h⟩ := ok_of_bind h
  obtain ⟨bc, -, h⟩ := ok_of_bind h
  obtain ⟨noticed, hnotice, h⟩ := ok_of_bind h
  cases h
  have hkept := ctrlNotice_keeps hnotice
  exact ⟨hkept.data, hkept.channel⟩

theorem ctrlQueryUser_keeps (h : ctrlQueryUser A s i p = .ok (s', out)) : KeepsReply s s' := by
  obtain ⟨hash, -, h⟩ := ok_of_bind h
  obtain ⟨bc, -, h⟩ := ok_of_bind h
  split at h
  · have hkept := bcError_keeps h
    exact ⟨hkept.data, hkept.channel⟩
  · obtain ⟨answered, hsend, h⟩ := ok_of_bind h
    cases h
    have hchannel := forEach_keeps (fun msg => msg.header.channelId)
      (fun _ _ _ _ h => bcSendQueryUser_channel h) hsend
    exact ⟨rfl, hchannel⟩

theorem ctrlQueryGroup_keeps (h : ctrlQueryGroup s i p = .ok (s', out)) : KeepsReply s s' := by
  obtain ⟨bc, -, h⟩ := ok_of_bind h
  split at h
  · cases h
    exact keeps_refl s
  · obtain ⟨answered, hsend, h⟩ := ok_of_bind h
    cases h
    have hchannel := forEach_keeps (fun msg => msg.header.channelId)
      (fun _ _ _ _ h => bcSendQueryGroup_channel h) hsend
    exact ⟨rfl, hchannel⟩

/-- `response` is set up when a request is accepted and never anywhere else. -/
theorem channelCtrl_sets (htype : i.request.header.type = CHANNEL_CTRL)
    (h : channelCtrl A s i = .ok (s', out)) : SetsReply s i s' := by
  unfold channelCtrl at h
  split at h
  · next hsize =>
    split at h
    · next hnone => exact sets_of_not_accepted (fun ha => ha.2.2 hnone) (bcError_keeps h)
    · next p hp =>
      apply sets_of_accepted ⟨htype, hsize, by simp [hp]⟩
      dsimp only at h
      split_ifs at h
      · exact ctrlSubscription_keeps h
      · exact ctrlUnsubscription_keeps h
      · exact ctrlQueryUser_keeps h
      · exact ctrlQueryGroup_keeps h
      · exact bcError_keeps h
  · next hsize => exact sets_of_not_accepted (fun ha => hsize ha.2.1) (bcError_keeps h)

theorem step_sets (h : BroadcastService.Step A s i out s') : SetsReply s i s' := by
  have hother : i.request.header.type ≠ CHANNEL_CTRL → KeepsReply s s' → SetsReply s i s' :=
    fun hne => sets_of_not_accepted fun ha => hne ha.1
  have hstep : step A s i = .ok (s', out) := h
  unfold step at hstep
  dsimp only at hstep
  split_ifs at hstep with h₁ h₂ h₃ h₄
  · exact hother (by rw [h₁]; decide) (channelSubscribe_keeps hstep)
  · exact channelCtrl_sets h₂ hstep
  · exact hother (by rw [h₃]; decide) (channelData_keeps hstep)
  · exact hother (by rw [h₄]; decide) (channelUnsubscribe_keeps hstep)
  · cases hstep
    exact hother h₂ (keeps_refl s)

end

/-! ### Runs -/

/-- Some message of a run was an accepted control request. -/
def AcceptedBefore (M : Type → Type → Type) [FiniteMap M] (A : Antd) (answer : TunnelMsg)
    (inputs : List Input) : Prop :=
  ∃ before i after out, ∃ s : State M, inputs = before ++ i :: after ∧
    Execution (BroadcastService.Step A) (initial A answer) before out s ∧ Accepted s i

theorem acceptedBefore_snoc {A : Antd} {answer : TunnelMsg} {inputs : List Input} {i : Input}
    {out : List TunnelMsg} {s : State M}
    (h : Execution (BroadcastService.Step A) (initial A answer) inputs out s) :
    AcceptedBefore M A answer (inputs ++ [i]) ↔
      AcceptedBefore M A answer inputs ∨ Accepted s i := by
  constructor
  · rintro ⟨before, j, after, out', u, heq, hrun, hacc⟩
    rcases List.eq_nil_or_concat after with rfl | ⟨rest, last, rfl⟩
    · obtain ⟨rfl, hj⟩ := List.append_inj' heq rfl
      rw [List.singleton_inj] at hj
      obtain ⟨-, rfl⟩ := h.unique hrun
      exact Or.inr (hj ▸ hacc)
    · rw [List.concat_eq_append, ← List.cons_append, ← List.append_assoc] at heq
      obtain ⟨hinputs, -⟩ := List.append_inj' heq rfl
      exact Or.inl ⟨before, j, rest, out', u, hinputs, hrun, hacc⟩
  · rintro (⟨before, j, after, out', u, rfl, hrun, hacc⟩ | hacc)
    · exact ⟨before, j, after ++ [i], out', u, by simp, hrun, hacc⟩
    · exact ⟨inputs, i, [], out, s, rfl, h, hacc⟩

theorem acceptedBefore_nil (A : Antd) (answer : TunnelMsg) :
    ¬ AcceptedBefore M A answer [] := by
  rintro ⟨before, i, after, out, u, heq, -, -⟩
  simp at heq

/-- The pointer denotes the message buffer from the first accepted request on. -/
theorem pointer_set_iff {A : Antd} {answer : TunnelMsg} {inputs : List Input}
    {out : List TunnelMsg} {s : State M}
    (h : Execution (BroadcastService.Step A) (initial A answer) inputs out s) :
    s.responseData = .msgBuffer ↔ AcceptedBefore M A answer inputs := by
  generalize hinit : (initial A answer : State M) = s₀ at h
  induction h with
  | refl =>
    subst hinit
    simp only [acceptedBefore_nil, iff_false, initial]
    split <;> simp
  | tail hrun hstep ih =>
    subst hinit
    rw [acceptedBefore_snoc hrun, (step_sets hstep).data, replyBlock]
    split
    · next hacc => simp [hacc]
    · next hacc => simp [hacc, ih]

/-- An error reply goes to the message buffer exactly when its own message or an earlier one of
the run was an accepted control request. -/
theorem reply_buffered_iff {A : Antd} {answer : TunnelMsg} {inputs : List Input}
    {out : List TunnelMsg} {s : State M}
    (h : Execution (BroadcastService.Step A) (initial A answer) inputs out s) {i : Input}
    {reply : String} (hraises : Raises s i reply) :
    ∃ t, step A s i = bcError A t i.client reply ∧
      (t.responseData = .msgBuffer ↔ Accepted s i ∨ AcceptedBefore M A answer inputs) := by
  obtain ⟨t, hstep, hsets⟩ := raises_step hraises
  refine ⟨t, hstep, ?_⟩
  rw [hsets.data, replyBlock]
  split
  · next hacc => simp [hacc]
  · next hacc => simp [hacc, pointer_set_iff h]

/-- The channel after user `A` has subscribed as client 1. -/
def oneUser : State AssocList := stateAfter firstByteHost channelOk [.subscribe 1 65]

theorem oneUser_run : Execution (BroadcastService.Step firstByteHost)
    (initial firstByteHost channelOk) [.subscribe 1 65] [] oneUser :=
  forEach_execution rfl

/-- An unknown code from a subscribed client is answered out of the buffer. -/
theorem reply_buffered_iff_unknown_code : ∃ t,
    step firstByteHost oneUser (.ctrl 1 0x20 7) =
      bcError firstByteHost t 1 (invalidCode 0x20) ∧ t.responseData = .msgBuffer := by
  have hraises : Raises oneUser (.ctrl 1 0x20 7) (invalidCode 0x20) :=
    .code ⟨rfl, by decide, by decide, rfl⟩ (show find oneUser.clients 1 = some 0 by decide)
      (by decide)
  obtain ⟨t, hstep, hiff⟩ := reply_buffered_iff oneUser_run hraises
  exact ⟨t, hstep, hiff.mpr (Or.inl (by decide))⟩

/-- The first message of a run is a control request without a payload: the error text goes
through a null pointer. -/
theorem reply_through_null :
    Raises (initial firstByteHost channelOk : State AssocList) (.plain CHANNEL_CTRL 1 [])
        (invalidSize 0) ∧
      ∃ t : State AssocList, step firstByteHost (initial firstByteHost channelOk)
          (.plain CHANNEL_CTRL 1 []) = bcError firstByteHost t 1 (invalidSize 0) ∧
        t.responseData = .null := by
  have hraises : Raises (initial firstByteHost channelOk : State AssocList)
      (.plain CHANNEL_CTRL 1 []) (invalidSize 0) := .size rfl (by decide)
  obtain ⟨t, hstep, hsets⟩ := raises_step hraises
  exact ⟨hraises, t, hstep, hsets.data⟩

end BroadcastReplies
