import TunnelPublishers.BroadcastHandles

/-!
# Outcomes of one message

Everything a message can do to the clients, the handles and the wire, and every
way it can fault, stated once. All later developments split on these outcomes
and never look into a handler again.
-/
namespace BroadcastOutcomes

open ByteOrder FiniteMaps FiniteMap TunnelFraming BroadcastService BroadcastMachine
  BroadcastHandles

variable {M : Type → Type → Type} [FiniteMap M]

/-- The handle of a user that joined; a group already joined keeps its name. -/
def joined (bc : BcClient M) (g : Int32) (name : Name) : BcClient M :=
  if (find bc.groups g).isNone then { bc with groups := insert bc.groups g name } else bc

inductive Handled (A : Antd) (s : State M) (i : Input) :
    List TunnelMsg → M UInt16 ℕ → List (Option (BcClient M)) → Prop where
  | subscribed {p} : i.request.header.type = CHANNEL_SUBSCRIBE → i.size ≤ 254 →
      find s.clients i.client = some p → Handled A s i [] s.clients s.heap
  | overlong : i.request.header.type = CHANNEL_SUBSCRIBE → 254 < i.size →
      Handled A s i [] s.clients s.heap
  | share {p bc} : i.request.header.type = CHANNEL_SUBSCRIBE → i.size ≤ 254 →
      find s.clients i.client = none → Live s.heap p bc →
      bc.name.bytes = cString i.request.payload →
      Handled A s i [] (insert s.clients i.client p)
        (s.heap.set p (some { bc with ref := bc.ref + 1 }))
  | create {u : Name} : i.request.header.type = CHANNEL_SUBSCRIBE → i.size ≤ 254 →
      find s.clients i.client = none → u.bytes = cString i.request.payload →
      (∀ p bc, Live s.heap p bc → bc.name ≠ u) →
      Handled A s i [] (insert s.clients i.client s.heap.length) (s.heap ++ [some ⟨1, u, empty⟩])
  | join {p bc g heap} {name : Name} : IsCtrl i.request BC_SUBSCRIPTION →
      find s.clients i.client = some p → Live s.heap p bc →
      name.bytes = cString (i.request.payload.drop 1) → g = A.simpleHash name.bytes →
      heap = s.heap.set p (some (joined bc g name)) →
      Handled A s i ((recipients heap s.clients g).map fun o =>
        frame CHANNEL_CTRL i.request.header.channelId o
          (notice BC_SUBSCRIPTION bc.name g name.bytes)) s.clients heap
  | leave {p bc g} : IsCtrl i.request BC_UNSUBSCRIPTION → find s.clients i.client = some p →
      Live s.heap p bc → readWord i 1 = .ok g →
      Handled A s i ((recipients s.heap s.clients g).map fun o =>
        frame CHANNEL_CTRL i.request.header.channelId o (notice BC_UNSUBSCRIPTION bc.name g []))
        s.clients (s.heap.set p (some { bc with groups := delete bc.groups g }))
  | queryUser {p bc g} {users : UInt16 → Name} : IsCtrl i.request BC_QUERY_USER →
      find s.clients i.client = some p → Live s.heap p bc → readWord i 1 = .ok g →
      find bc.groups g ≠ none →
      (∀ n ∈ entries s.clients, ∀ bc, Live s.heap n.2 bc → users n.1 = bc.name) →
      Handled A s i ((recipients s.heap s.clients g).map fun o =>
        frame CHANNEL_CTRL i.request.header.channelId i.client (userAnswer g (users o)))
        s.clients s.heap
  | queryUserRefused {p bc g out} : IsCtrl i.request BC_QUERY_USER →
      find s.clients i.client = some p → Live s.heap p bc → readWord i 1 = .ok g →
      find bc.groups g = none → Refusal i.request out → Handled A s i out s.clients s.heap
  | queryGroup {p bc} : IsCtrl i.request BC_QUERY_GROUP → find s.clients i.client = some p →
      Live s.heap p bc →
      Handled A s i ((entries bc.groups).map fun e =>
        frame CHANNEL_CTRL i.request.header.channelId i.client (groupAnswer e.1 e.2))
        s.clients s.heap
  | unknownCode {p code out} : IsCtrl i.request code → find s.clients i.client = some p →
      code ∉ [BC_SUBSCRIPTION, BC_UNSUBSCRIPTION, BC_QUERY_USER, BC_QUERY_GROUP] →
      Refusal i.request out → Handled A s i out s.clients s.heap
  | unmapped {out} : i.request.header.type = CHANNEL_CTRL → find s.clients i.client = none →
      Refusal i.request out → Handled A s i out s.clients s.heap
  | badSize {out} : i.request.header.type = CHANNEL_CTRL →
      ¬ (1 ≤ i.size ∧ i.size ≤ MAX_STR_LEN) → Refusal i.request out →
      Handled A s i out s.clients s.heap
  | data {g} : i.request.header.type = CHANNEL_DATA → readWord i 0 = .ok g →
      Handled A s i ((recipients s.heap s.clients g).map fun o =>
        { i.request with header.clientId := o }) s.clients s.heap
  | unsubscribe {p bc} : i.request.header.type = CHANNEL_UNSUBSCRIBE →
      find s.clients i.client = some p → Live s.heap p bc → 1 < bc.ref →
      Handled A s i [frame CHANNEL_UNSUBSCRIBE i.stack.channelId i.client []]
        (delete s.clients i.client) (s.heap.set p (some { bc with ref := bc.ref - 1 }))
  | depart {p bc} : i.request.header.type = CHANNEL_UNSUBSCRIBE →
      find s.clients i.client = some p → Live s.heap p bc → bc.ref ≤ 1 →
      Handled A s i (farewells s bc i.stack.channelId ++
        [frame CHANNEL_UNSUBSCRIBE i.stack.channelId i.client []])
        (delete s.clients i.client) (s.heap.set p none)
  | other : i.request.header.type ∉ [CHANNEL_SUBSCRIBE, CHANNEL_CTRL, CHANNEL_DATA,
      CHANNEL_UNSUBSCRIBE] → Handled A s i [] s.clients s.heap

inductive Faulted (s : State M) (i : Input) : Fault → Prop where
  | nullNode : i.request.header.type = CHANNEL_UNSUBSCRIBE → find s.clients i.client = none →
      Faulted s i .nullNode
  | dataWord : i.request.header.type = CHANNEL_DATA → i.memory.length < 4 →
      Faulted s i .outOfPayload
  | ctrlWord {code p} : IsCtrl i.request code → code ∈ [BC_UNSUBSCRIPTION, BC_QUERY_USER] →
      find s.clients i.client = some p → i.memory.length < 5 → Faulted s i .outOfPayload
  | refusal : i.request.header.type = CHANNEL_CTRL →
      ((1 ≤ i.size ∧ i.size ≤ MAX_STR_LEN) → find s.clients i.client = none) →
      s.responseData ≠ .msgBuffer → Faulted s i .responseData

/-- A DATA message has one outcome. -/
theorem handled_data {A : Antd} {s : State M} {i : Input} {out : List TunnelMsg}
    {clients : M UInt16 ℕ} {heap : List (Option (BcClient M))}
    (h : Handled A s i out clients heap) (htype : i.request.header.type = CHANNEL_DATA) :
    ∃ g, readWord i 0 = .ok g ∧
      out = (recipients s.heap s.clients g).map fun o =>
        { i.request with header.clientId := o } := by
  cases h with
  | data _ hg => exact ⟨_, hg, rfl⟩
  | join hk | leave hk | queryUser hk | queryUserRefused hk | queryGroup hk | unknownCode hk =>
    exact absurd (htype.symm.trans hk.1) (by decide)
  | subscribed ht | overlong ht | share ht | create ht | unmapped ht | badSize ht
  | unsubscribe ht | depart ht =>
    exact absurd (htype.symm.trans ht) (by decide)
  | other ht => exact (ht (by simp [htype])).elim

/-- A leave request of a client with an entry has one outcome. -/
theorem handled_leave {A : Antd} {s : State M} {i : Input} {out : List TunnelMsg}
    {clients : M UInt16 ℕ} {heap : List (Option (BcClient M))} {p : ℕ}
    (h : Handled A s i out clients heap) (hctrl : IsCtrl i.request BC_UNSUBSCRIPTION)
    (hp : find s.clients i.client = some p) :
    ∃ g bc, readWord i 1 = .ok g ∧ Live s.heap p bc ∧
      out = (recipients s.heap s.clients g).map fun o =>
        frame CHANNEL_CTRL i.request.header.channelId o
          (notice BC_UNSUBSCRIPTION bc.name g []) := by
  cases h with
  | leave _ hp' hlive hg =>
    rw [hp, Option.some.injEq] at hp'
    subst hp'
    exact ⟨_, _, hg, hlive, rfl⟩
  | join hk | queryUser hk | queryUserRefused hk | queryGroup hk =>
    exact absurd (hctrl.code_eq hk) (by decide)
  | unknownCode hk _ hcode => exact (hcode (by simp [← hctrl.code_eq hk])).elim
  | unmapped _ hnone => rw [hp] at hnone; cases hnone
  | badSize _ hsize => exact (hsize ⟨hctrl.2.1, hctrl.2.2.1⟩).elim
  | subscribed ht | overlong ht | share ht | create ht | data ht | unsubscribe ht | depart ht =>
    exact absurd (hctrl.1.symm.trans ht) (by decide)
  | other ht => exact (ht (by simp [hctrl.1])).elim

def Outcome (A : Antd) (s : State M) (i : Input) : Except Fault (State M × List TunnelMsg) → Prop
  | .ok (s', out) => Handled A s i out s'.clients s'.heap ∧ s'.msgBuffer.length = A.BUFFLEN
  | .error f => Faulted s i f

theorem joined_name (bc : BcClient M) (g : Int32) (name : Name) :
    (joined bc g name).name = bc.name := by
  unfold joined
  split <;> rfl

theorem joined_ref (bc : BcClient M) (g : Int32) (name : Name) :
    (joined bc g name).ref = bc.ref := by
  unfold joined
  split <;> rfl

theorem readWord_eq_ok {i : Input} {k : ℕ} {g : Int32} :
    readWord i k = .ok g ↔ be32 g.toUInt32 <+: i.memory.drop k := by
  unfold readWord
  constructor
  · intro h
    split at h
    · next hroom =>
      have hbytes : ((i.memory.drop k).take 4).length = 4 := by
        rw [List.length_take, List.length_drop]
        omega
      rw [← Except.ok.inj h, show ∀ w : UInt32, w.toInt32.toUInt32 = w from fun w => by simp,
        be32_ntohl_word32 hbytes]
      exact List.take_prefix 4 _
    · cases h
  · intro h
    have hlen := h.length_le
    rw [be32_length, List.length_drop] at hlen
    have htake := List.prefix_iff_eq_take.mp h
    rw [be32_length] at htake
    rw [if_pos (by omega), ← htake, ntohl_word32_be32]
    simp

theorem readWord_total (i : Input) (off : ℕ) :
    (∃ g, readWord i off = .ok g) ∨
      readWord i off = .error .outOfPayload ∧ i.memory.length < off + 4 := by
  unfold readWord
  split
  · exact Or.inl ⟨_, rfl⟩
  · exact Or.inr ⟨rfl, by omega⟩

theorem channelSubscribe_outcome {A : Antd} {s : State M} (h : Invariant A s) {i : Input}
    (htype : i.request.header.type = CHANNEL_SUBSCRIBE) :
    Outcome A s i (channelSubscribe s i) := by
  unfold channelSubscribe
  split
  · next hlong => exact ⟨.overlong htype (by unfold MAX_STR_LEN at hlong; omega), h.buffer⟩
  · next hlong =>
    have hsize : i.size ≤ 254 := by unfold MAX_STR_LEN at hlong; omega
    split
    · next p hp => exact ⟨.subscribed htype hsize hp, h.buffer⟩
    · next hnone =>
      obtain ⟨u, hu⟩ : ∃ u : Name, u = terminate i.request.payload (by
        rw [i.payload_length]; unfold MAX_STR_LEN at *; omega) := ⟨_, rfl⟩
      have hbytes : u.bytes = cString i.request.payload := by rw [hu]; rfl
      obtain ⟨found, hfold, hfound⟩ := getHandle_spec h.nodes_live u none
      rw [← hu]
      simp only [hfold, bind, Except.bind]
      rcases hfound with ⟨n, -, bc, hbc, hname, rfl⟩ | ⟨rfl, hfree⟩
      · simp only [deref_eq_ok.mpr hbc, pure, Except.pure]
        exact ⟨.share htype hsize hnone hbc (by rw [hname, hbytes]), h.buffer⟩
      · refine ⟨.create htype hsize hnone hbytes ?_, h.buffer⟩
        intro p bc hbc
        obtain ⟨c, hc⟩ := h.client hbc
        exact hfree (c, p) (mem_entries.mpr hc) bc hbc

theorem channelData_outcome {A : Antd} {s : State M} (h : Invariant A s) {i : Input}
    (htype : i.request.header.type = CHANNEL_DATA) : Outcome A s i (channelData s i) := by
  rcases readWord_total i 0 with ⟨g, hg⟩ | ⟨herror, hshort⟩
  · obtain ⟨c, hnotify⟩ := notify_all h.nodes_live g i.request
    simp only [channelData, hg, hnotify, bind, Except.bind, pure, Except.pure]
    have hout : ∀ o, TunnelMsg.received { i.request with header.clientId := o } =
        { i.request with header.clientId := o } := by
      intro o
      exact TunnelMsg.Received.received_eq ⟨i.received.type, i.received.block, i.received.null⟩
    simp only [hout]
    exact ⟨.data htype hg, h.buffer⟩
  · simp only [channelData, herror, bind, Except.bind]
    exact .dataWord htype hshort

theorem channelUnsubscribe_outcome {A : Antd} {s : State M} (h : Invariant A s) {i : Input}
    (htype : i.request.header.type = CHANNEL_UNSUBSCRIBE) :
    Outcome A s i (channelUnsubscribe s i) := by
  have hroom := A.room
  have hbuf := h.buffer
  cases hf : find s.clients i.client with
  | none =>
    simp only [channelUnsubscribe, hf, Option.map_none, BroadcastService.unsubscribe, bind,
      Except.bind]
    exact .nullNode htype hf
  | some p =>
    obtain ⟨bc, hbc⟩ := h.live i.client p hf
    obtain ⟨buffer, hlen, hun⟩ := unsubscribe_spec hbc (by omega) i.stack i.client
      fun _ _ => h.nodes_live
    simp only [channelUnsubscribe, hf, Option.map_some, hun, bind, Except.bind, pure,
      Except.pure]
    by_cases hlast : bc.ref ≤ 1
    · simp only [hlast, ↓reduceIte]
      exact ⟨.depart htype hf hbc hlast, hlen.trans h.buffer⟩
    · simp only [hlast, ↓reduceIte, List.nil_append]
      exact ⟨.unsubscribe htype hf hbc (by omega), hlen.trans h.buffer⟩

/-! ### Control requests -/

/-- The state in which the control handlers run: the answer is set up over the buffer. -/
structure Prepared (A : Antd) (s t : State M) (i : Input) (code : UInt8) : Prop where
  clients : t.clients = s.clients
  heap : t.heap = s.heap
  type : t.response.type = CHANNEL_CTRL
  channel : t.response.channelId = i.request.header.channelId
  data : t.responseData = .msgBuffer
  buffer : t.msgBuffer.length = A.BUFFLEN
  code : [code] <+: t.msgBuffer

theorem bcError_outcome {A : Antd} {s t : State M} {i : Input} {reply : String}
    (hclients : t.clients = s.clients) (hheap : t.heap = s.heap)
    (hbuf : t.msgBuffer.length = A.BUFFLEN) (hdata : t.responseData = .msgBuffer)
    (h : ∀ out, Refusal i.request out → Handled A s i out s.clients s.heap) :
    Outcome A s i (bcError A t i.client reply) := by
  obtain ⟨buffer, response, text, hlen, he⟩ := bcError_spec hbuf hdata i.client reply
  rw [he]
  refine ⟨?_, hlen.trans hbuf⟩
  simp only [hclients, hheap]
  exact h _ ⟨_, _, rfl⟩

theorem ctrlSubscription_outcome {A : Antd} {s t : State M} {i : Input} {p : ℕ}
    (h : Invariant A s) (ht : Prepared A s t i BC_SUBSCRIPTION)
    (hctrl : IsCtrl i.request BC_SUBSCRIPTION) (hp : find s.clients i.client = some p)
    (hsize : i.size ≤ MAX_STR_LEN) : Outcome A s i (ctrlSubscription A t i p hsize) := by
  have hroom := A.room
  have hbuf := ht.buffer
  obtain ⟨bc, hbc⟩ := h.live i.client p hp
  obtain ⟨name, hname⟩ : ∃ name : Name, name = terminate (i.request.payload.drop 1) (by
    rw [List.length_drop, i.payload_length]; unfold MAX_STR_LEN at *; omega) := ⟨_, rfl⟩
  have hbytes : name.bytes = cString (i.request.payload.drop 1) := by rw [hname]; rfl
  obtain ⟨heap, hheap⟩ : ∃ heap, heap =
    s.heap.set p (some (joined bc (A.simpleHash name.bytes) name)) := ⟨_, rfl⟩
  have hsame := joined_name bc (A.simpleHash name.bytes) name
  have hlive : ∀ n ∈ entries t.clients, ∃ bc, Live heap n.2 bc := by
    intro n hn
    rw [ht.clients] at hn
    obtain ⟨bc', hbc'⟩ := h.nodes_live n hn
    exact hheap ▸ live_update hbc' hbc
  obtain ⟨buffer, response, hlen, hnotice⟩ := ctrlNotice_spec (s := { t with heap := heap })
    (joined bc (A.simpleHash name.bytes) name) name.bytes hlive
    (by change 514 ≤ t.msgBuffer.length; omega) ht.code (name_length_le name)
    (A.simpleHash name.bytes)
  have hstep : ctrlSubscription A t i p hsize = ctrlNotice { t with heap := heap }
      (joined bc (A.simpleHash name.bytes) name) (A.simpleHash name.bytes) name.bytes := by
    simp only [ctrlSubscription, ht.heap, deref_eq_ok.mpr hbc, ← hname, bind, Except.bind]
    rw [hheap]
    rfl
  rw [hstep, hnotice]
  simp only [ht.type, ht.channel, ht.clients, hsame]
  exact ⟨.join hctrl hp hbc hbytes rfl hheap, hlen.trans ht.buffer⟩

theorem ctrlUnsubscription_outcome {A : Antd} {s t : State M} {i : Input} {p : ℕ}
    (h : Invariant A s) (ht : Prepared A s t i BC_UNSUBSCRIPTION)
    (hctrl : IsCtrl i.request BC_UNSUBSCRIPTION) (hp : find s.clients i.client = some p) :
    Outcome A s i (ctrlUnsubscription t i p) := by
  have hroom := A.room
  have hbuf := ht.buffer
  obtain ⟨bc, hbc⟩ := h.live i.client p hp
  rcases readWord_total i 1 with ⟨g, hg⟩ | ⟨herror, hshort⟩
  · obtain ⟨buffer, response, hlen, hnotice⟩ := ctrlNotice_spec (s := t) bc []
      (by rw [ht.clients, ht.heap]; exact h.nodes_live) (by omega) ht.code (by simp) g
    simp only [ctrlUnsubscription, hg, ht.heap, deref_eq_ok.mpr hbc, hnotice, bind, Except.bind,
      pure, Except.pure, ht.type, ht.channel, ht.clients]
    exact ⟨.leave hctrl hp hbc hg, hlen.trans ht.buffer⟩
  · simp only [ctrlUnsubscription, herror, bind, Except.bind]
    exact .ctrlWord hctrl (by simp) hp hshort

theorem ctrlQueryGroup_outcome {A : Antd} {s t : State M} {i : Input} {p : ℕ}
    (h : Invariant A s) (ht : Prepared A s t i BC_QUERY_GROUP)
    (hctrl : IsCtrl i.request BC_QUERY_GROUP) (hp : find s.clients i.client = some p) :
    Outcome A s i (ctrlQueryGroup t i p) := by
  have hroom := A.room
  have hbuf := ht.buffer
  obtain ⟨bc, hbc⟩ := h.live i.client p hp
  have hquery := Handled.queryGroup (A := A) hctrl hp hbc
  simp only [ctrlQueryGroup, ht.heap, deref_eq_ok.mpr hbc, bind, Except.bind, pure, Except.pure]
  split
  · next hempty =>
    rw [hempty] at hquery
    refine ⟨?_, ht.buffer⟩
    simp only [ht.clients, ht.heap]
    exact hquery
  · obtain ⟨msg, ⟨data, size, hlen, -, rfl⟩, hsend⟩ := sendQueryGroup_all bc.groups
      ⟨CHANNEL_CTRL, i.request.header.channelId, i.client, t.response.size⟩
      (by omega) ht.code
    simp only [hsend, ht.type, ht.channel, ht.clients]
    exact ⟨hquery, hlen.trans ht.buffer⟩

theorem ctrlQueryUser_outcome {A : Antd} {s t : State M} {i : Input} {p : ℕ}
    (h : Invariant A s) (ht : Prepared A s t i BC_QUERY_USER)
    (hctrl : IsCtrl i.request BC_QUERY_USER) (hp : find s.clients i.client = some p) :
    Outcome A s i (ctrlQueryUser A t i p) := by
  have hroom := A.room
  have hbuf := ht.buffer
  obtain ⟨bc, hbc⟩ := h.live i.client p hp
  rcases readWord_total i 1 with ⟨g, hg⟩ | ⟨herror, hshort⟩
  · have hpre : [BC_QUERY_USER] ++ be32 g.toUInt32 <+:
        memcpyAt t.msgBuffer 1 (be32 g.toUInt32) := memcpyAt_known ht.code 1 rfl _
    have hlen : (memcpyAt t.msgBuffer 1 (be32 g.toUInt32)).length = A.BUFFLEN :=
      memcpyAt_length ht.buffer 1 _ (by rw [be32_length]; omega)
    simp only [ctrlQueryUser, hg, ht.heap, deref_eq_ok.mpr hbc, bind, Except.bind, mem32_htonl]
    cases hf : find bc.groups g with
    | none =>
      simp only [Option.isNone_none, ↓reduceIte]
      exact bcError_outcome ht.clients rfl hlen ht.data
        fun out hout => .queryUserRefused hctrl hp hbc hg hf hout
    | some name =>
      have husers : ∀ n ∈ entries s.clients, ∀ bc', Live s.heap n.2 bc' →
          (userOf s.clients s.heap n.1).getD bc.name = bc'.name := by
        rintro ⟨c, q⟩ hn bc' hbc'
        rw [userOf_of_live (mem_entries.mp hn) hbc', Option.getD_some]
      obtain ⟨msg, ⟨data, size, hdata, -, rfl⟩, hsend⟩ := sendQueryUser_all h.nodes_live g
        ⟨CHANNEL_CTRL, i.request.header.channelId, i.client, t.response.size⟩ (by omega) hpre
        (fun c => (userOf s.clients s.heap c).getD bc.name) husers
      simp only [ht.clients, hsend, ht.type, ht.channel, Option.isNone_some, Bool.false_eq_true,
        ↓reduceIte, pure, Except.pure]
      exact ⟨.queryUser hctrl hp hbc hg (by rw [hf]; simp) husers, hdata.trans hlen⟩
  · simp only [ctrlQueryUser, herror, bind, Except.bind]
    exact .ctrlWord hctrl (by simp) hp hshort

theorem channelCtrl_outcome {A : Antd} {s : State M} (h : Invariant A s) {i : Input}
    (htype : i.request.header.type = CHANNEL_CTRL) : Outcome A s i (channelCtrl A s i) := by
  have hroom := A.room
  have hbuf := h.buffer
  -- The two refusals that come before the answer is set up.
  have hrefuse : ∀ reply, ((1 ≤ i.size ∧ i.size ≤ MAX_STR_LEN) → find s.clients i.client = none) →
      (∀ out, Refusal i.request out → Handled A s i out s.clients s.heap) →
      Outcome A s i (bcError A s i.client reply) := by
    intro reply hcase hhandled
    cases hd : s.responseData with
    | msgBuffer => exact bcError_outcome rfl rfl h.buffer hd hhandled
    | null | released =>
      simp only [bcError, hd]
      exact .refusal htype hcase (by simp [hd])
  unfold channelCtrl
  split
  · next hsize =>
    split
    · next hnone => exact hrefuse _ (fun _ => hnone) fun out hout => .unmapped htype hnone hout
    · next p hp =>
      have hctrl := isCtrl_head htype hsize
      have ht : Prepared A s { s with
          response := { s.response with
            channelId := i.request.header.channelId, type := CHANNEL_CTRL }
          responseData := .msgBuffer
          msgBuffer := memcpyAt s.msgBuffer 0 [i.request.payload.headD 0] } i
          (i.request.payload.headD 0) :=
        ⟨rfl, rfl, rfl, rfl, rfl, memcpyAt_length h.buffer 0 _ (by simp; omega),
          memcpyAt_known List.nil_prefix 0 rfl _⟩
      dsimp only
      generalize i.request.payload.headD 0 = code at hctrl ht ⊢
      split
      · next hc => subst hc; exact ctrlSubscription_outcome h ht hctrl hp hsize.2
      · split
        · next hc => subst hc; exact ctrlUnsubscription_outcome h ht hctrl hp
        · split
          · next hc => subst hc; exact ctrlQueryUser_outcome h ht hctrl hp
          · split
            · next hc => subst hc; exact ctrlQueryGroup_outcome h ht hctrl hp
            · next h₁ h₂ h₃ h₄ =>
              refine bcError_outcome rfl rfl ht.buffer rfl fun out hout =>
                .unknownCode hctrl hp ?_ hout
              simp [h₁, h₂, h₃, h₄]
  · next hsize =>
    exact hrefuse _ (fun hs => (hsize hs).elim) fun out hout => .badSize htype hsize hout

/-- Under the invariant a step has one of the outcomes, and no other fault than those named. -/
theorem step_outcome {A : Antd} {s : State M} (h : Invariant A s) (i : Input) :
    Outcome A s i (step A s i) := by
  unfold step
  dsimp only
  split
  · next htype => exact channelSubscribe_outcome h htype
  · split
    · next htype => exact channelCtrl_outcome h htype
    · split
      · next htype => exact channelData_outcome h htype
      · split
        · next htype => exact channelUnsubscribe_outcome h htype
        · next h₁ h₂ h₃ h₄ =>
          exact ⟨.other (by simp [h₁, h₂, h₃, h₄]), h.buffer⟩

end BroadcastOutcomes
