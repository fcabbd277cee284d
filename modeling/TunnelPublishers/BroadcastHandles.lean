import TunnelPublishers.BroadcastMachine

/-!
# Handles of the broadcast service

Client entries alias one handle for each user name. The invariant ties together
liveness, the hand-kept count and the uniqueness of names; under it every
traversal meets live handles only, so each handler has one exact outcome. These
outcomes are the specifications the other developments use.
-/
namespace BroadcastHandles

open ByteOrder FiniteMaps FiniteMap TunnelFraming ExecutionTraces BroadcastService BroadcastMachine

variable {M : Type → Type → Type}

/-- The handle at an address, not released. -/
def Live (heap : List (Option (BcClient M))) (p : ℕ) (bc : BcClient M) : Prop :=
  heap[p]? = some (some bc)

theorem deref_eq_ok {heap : List (Option (BcClient M))} {p : ℕ} {bc : BcClient M} :
    deref heap p = .ok bc ↔ Live heap p bc := by
  unfold deref Live
  split
  · next h => simp [h]
  · next h =>
    refine ⟨fun he => (by cases he), fun he => (h bc he).elim⟩

theorem Live.unique {heap : List (Option (BcClient M))} {p : ℕ} {bc bc' : BcClient M}
    (h : Live heap p bc) (h' : Live heap p bc') : bc = bc' := by
  unfold Live at h h'
  simpa [h] using h'

theorem Live.lt {heap : List (Option (BcClient M))} {p : ℕ} {bc : BcClient M}
    (h : Live heap p bc) : p < heap.length :=
  (List.getElem?_eq_some_iff.mp h).1

theorem live_set {heap : List (Option (BcClient M))} {p q : ℕ} {bc bc' : BcClient M}
    {cell : Option (BcClient M)} (h : Live heap p bc) :
    Live (heap.set p cell) q bc' ↔ if q = p then cell = some bc' else Live heap q bc' := by
  unfold Live
  by_cases hq : q = p
  · subst q
    simp [List.getElem?_set_self h.lt]
  · simp [List.getElem?_set_ne (Ne.symm hq), hq]

/-- Overwriting a live handle with another leaves every live handle live. -/
theorem live_update {heap : List (Option (BcClient M))} {p q : ℕ} {bc bq bq' : BcClient M}
    (hp : Live heap p bc) (hq : Live heap q bq) :
    ∃ bc', Live (heap.set q (some bq')) p bc' := by
  by_cases hpq : p = q
  · exact ⟨bq', (live_set hq).mpr (by rw [if_pos hpq])⟩
  · exact ⟨bc, (live_set hq).mpr (by rwa [if_neg hpq])⟩

theorem live_append {heap : List (Option (BcClient M))} {q : ℕ} {bc bc' : BcClient M} :
    Live (heap ++ [some bc]) q bc' ↔ Live heap q bc' ∨ q = heap.length ∧ bc = bc' := by
  unfold Live
  rcases lt_trichotomy q heap.length with h | h | h
  · rw [List.getElem?_append_left h]
    simp [Nat.ne_of_lt h]
  · subst h
    simp
  · rw [List.getElem?_eq_none (by simp; omega), List.getElem?_eq_none (by omega)]
    simp [Nat.ne_of_gt h]

/-- The name search returns a live handle with the name, if a node has one. -/
theorem getHandle_spec {heap : List (Option (BcClient M))} {nodes : List (UInt16 × ℕ)}
    (hlive : ∀ n ∈ nodes, ∃ bc, Live heap n.2 bc) (name : Name) (init : Option ℕ) :
    ∃ found, nodes.foldlM (bcGetHandle heap name) init = .ok found ∧
      ((∃ n ∈ nodes, ∃ bc, Live heap n.2 bc ∧ bc.name = name ∧ found = some n.2) ∨
        found = init ∧ ∀ n ∈ nodes, ∀ bc, Live heap n.2 bc → bc.name ≠ name) := by
  induction nodes generalizing init with
  | nil => exact ⟨init, rfl, Or.inr ⟨rfl, by simp⟩⟩
  | cons n ns ih =>
    obtain ⟨bc, hbc⟩ := hlive n List.mem_cons_self
    have hrest : ∀ m ∈ ns, ∃ bc, Live heap m.2 bc :=
      fun m hm => hlive m (List.mem_cons_of_mem n hm)
    obtain ⟨found, hfold, hfound⟩ := ih hrest (if name = bc.name then some n.2 else init)
    refine ⟨found, ?_, ?_⟩
    · simp only [List.foldlM_cons, bcGetHandle, deref_eq_ok.mpr hbc, bind, Except.bind, pure,
        Except.pure]
      exact hfold
    · rcases hfound with ⟨m, hm, h⟩ | ⟨hinit, hnone⟩
      · exact Or.inl ⟨m, List.mem_cons_of_mem n hm, h⟩
      · by_cases hname : name = bc.name
        · rw [if_pos hname] at hinit
          exact Or.inl ⟨n, List.mem_cons_self, bc, hbc, hname.symm, hinit⟩
        · rw [if_neg hname] at hinit
          refine Or.inr ⟨hinit, ?_⟩
          intro m hm bc' hbc'
          rcases List.mem_cons.mp hm with rfl | hm
          · rw [hbc'.unique hbc]
            exact fun h => hname h.symm
          · exact hnone m hm bc' hbc'

theorem isCtrl_head {i : Input} (htype : i.request.header.type = CHANNEL_CTRL)
    (hsize : 0 < i.size ∧ i.size ≤ MAX_STR_LEN) :
    IsCtrl i.request (i.request.payload.headD 0) := by
  refine ⟨htype, hsize.1, hsize.2, ?_⟩
  have hlen := i.payload_length
  cases hpay : i.request.payload with
  | nil =>
    rw [hpay, List.length_nil] at hlen
    omega
  | cons b bs => rfl

theorem isCtrl_headD {i : Input} {code : UInt8} (h : IsCtrl i.request code) :
    i.request.payload.headD 0 = code := by
  rw [List.headD_eq_head?_getD, h.2.2.2]
  rfl

theorem bcError_spec {A : Antd} {s : State M} (hbuf : s.msgBuffer.length = A.BUFFLEN)
    (hdata : s.responseData = .msgBuffer) (client : UInt16) (reply : String) :
    ∃ buffer response text, buffer.length = s.msgBuffer.length ∧
      bcError A s client reply = .ok ({ s with msgBuffer := buffer, response := response },
        [frame CHANNEL_ERROR s.response.channelId client text]) := by
  have hroom := A.room
  obtain ⟨buffer, hb⟩ : ∃ buffer, buffer =
    memcpyAt s.msgBuffer 0 ((text reply).take (A.BUFFLEN - 1) ++ [0]) := ⟨_, rfl⟩
  have hblen : buffer.length = s.msgBuffer.length := by
    rw [hb]
    apply memcpyAt_length rfl
    rw [List.length_append, List.length_take, List.length_singleton]
    omega
  have hsize : (UInt32.ofNat (cString buffer).length).toNat ≤ buffer.length := by
    rw [UInt32.toNat_ofNat']
    exact (Nat.mod_le _ _).trans (cString_length_le buffer)
  refine ⟨buffer, ⟨CHANNEL_ERROR, s.response.channelId, client,
    UInt32.ofNat (cString buffer).length⟩,
    buffer.take (UInt32.ofNat (cString buffer).length).toNat, hblen, ?_⟩
  simp only [bcError, hdata, ← hb]
  congr 3
  have hlt := (UInt32.ofNat (cString buffer).length).toNat_lt
  refine received_eq_frame ?_ ?_ ?_
  · rw [List.length_take]
    omega
  · rw [List.length_take, Nat.min_eq_left hsize, UInt32.ofNat_toNat]
  · rw [List.length_take, Nat.min_eq_left hsize]

variable [FiniteMap M]

/-- Client entries that point to an address. -/
def references (clients : M UInt16 ℕ) (p : ℕ) : ℕ := (entries clients).countP fun e => e.2 = p

structure HandleInvariant (clients : M UInt16 ℕ) (heap : List (Option (BcClient M))) : Prop where
  live : ∀ c p, find clients c = some p → ∃ bc, Live heap p bc
  counted : ∀ p bc, Live heap p bc → bc.ref = references clients p
  shared : ∀ p bc, Live heap p bc → 1 ≤ bc.ref
  distinct : ∀ p q bc bc', Live heap p bc → Live heap q bc' → bc.name = bc'.name → p = q

structure Invariant (A : Antd) (s : State M) : Prop extends
    HandleInvariant s.clients s.heap where
  buffer : s.msgBuffer.length = A.BUFFLEN

theorem references_pos {clients : M UInt16 ℕ} {p : ℕ} :
    0 < references clients p ↔ ∃ c, find clients c = some p := by
  rw [references, List.countP_pos_iff]
  constructor
  · rintro ⟨⟨c, q⟩, hm, hq⟩
    simp only [decide_eq_true_eq] at hq
    subst hq
    exact ⟨c, mem_entries.mp hm⟩
  · rintro ⟨c, hc⟩
    exact ⟨(c, p), mem_entries.mpr hc, by simp⟩

/-- A live handle has a client. -/
theorem HandleInvariant.client {clients : M UInt16 ℕ} {heap : List (Option (BcClient M))}
    (h : HandleInvariant clients heap) {p : ℕ} {bc : BcClient M} (hp : Live heap p bc) :
    ∃ c, find clients c = some p := by
  have hc := h.counted p bc hp
  have hr := h.shared p bc hp
  exact references_pos.mp (by omega)

theorem HandleInvariant.nodes_live {clients : M UInt16 ℕ} {heap : List (Option (BcClient M))}
    (h : HandleInvariant clients heap) : ∀ n ∈ entries clients, ∃ bc, Live heap n.2 bc := by
  rintro ⟨c, p⟩ hn
  exact h.live c p (mem_entries.mp hn)

/-- The user name behind a client entry. -/
def userOf (clients : M UInt16 ℕ) (heap : List (Option (BcClient M))) (c : UInt16) :
    Option Name :=
  (find clients c).bind fun p => heap[p]?.join.map BcClient.name

theorem userOf_of_live {clients : M UInt16 ℕ} {heap : List (Option (BcClient M))} {c : UInt16}
    {p : ℕ} {bc : BcClient M} (hc : find clients c = some p) (hp : Live heap p bc) :
    userOf clients heap c = some bc.name := by
  unfold Live at hp
  simp [userOf, hc, hp]

/-! ### Traversals -/

/-- A traversal whose callback keeps a property of the shared value, and whose output for a
node does not depend on the nodes before it, emits the outputs of the nodes in order. -/
theorem forEach_spec {γ β : Type} {f : γ → β → Except Fault (γ × List TunnelMsg)}
    {I : γ → Prop} {g : β → List TunnelMsg} {l : List β}
    (h : ∀ x e, I x → e ∈ l → ∃ x', I x' ∧ f x e = .ok (x', g e)) {x : γ} (hx : I x) :
    ∃ x', I x' ∧ forEach f x l = .ok (x', l.flatMap g) := by
  induction l generalizing x with
  | nil => exact ⟨x, hx, rfl⟩
  | cons e es ih =>
    obtain ⟨x₁, hx₁, hf⟩ := h x e hx List.mem_cons_self
    obtain ⟨x₂, hx₂, hrest⟩ :=
      ih (fun x e' hx he => h x e' hx (List.mem_cons_of_mem e he)) hx₁
    exact ⟨x₂, hx₂, by simp [forEach, hf, hrest, bind, Except.bind, pure, Except.pure]⟩

theorem flatMap_select {β γ : Type} (l : List β) (p : β → Bool) (f : β → γ) :
    (l.flatMap fun e => if p e then [f e] else []) = (l.filter p).map f := by
  induction l with
  | nil => rfl
  | cons e es ih => by_cases h : p e <;> simp [h, ih]

/-- Whether the handle at an address is in a group. -/
def inGroup (heap : List (Option (BcClient M))) (g : Int32) (p : ℕ) : Bool :=
  match heap[p]? with
  | some (some bc) => (find bc.groups g).isSome
  | _ => false

theorem inGroup_of_live {heap : List (Option (BcClient M))} {p : ℕ} {bc : BcClient M}
    (h : Live heap p bc) (g : Int32) : inGroup heap g p = (find bc.groups g).isSome := by
  unfold Live at h
  simp [inGroup, h]

/-- The clients a delivery to a group reaches, in the order of the traversal. -/
def recipients (heap : List (Option (BcClient M))) (clients : M UInt16 ℕ) (g : Int32) :
    List UInt16 :=
  ((entries clients).filter fun n => inGroup heap g n.2).map Prod.fst

theorem notify_all {heap : List (Option (BcClient M))} {clients : M UInt16 ℕ}
    (hlive : ∀ n ∈ entries clients, ∃ bc, Live heap n.2 bc) (g : Int32) (msg : TunnelMsg) :
    ∃ c, forEach (bcNotify heap g) msg (entries clients) =
      .ok ({ msg with header.clientId := c }, (recipients heap clients g).map fun o =>
        TunnelMsg.received { msg with header.clientId := o }) := by
  obtain ⟨x, ⟨c, rfl⟩, h⟩ := forEach_spec (f := bcNotify heap g) (l := entries clients)
    (I := fun x => ∃ c, x = { msg with header.clientId := c })
    (g := fun n => if inGroup heap g n.2 then
      [TunnelMsg.received { msg with header.clientId := n.1 }] else [])
    (x := msg) (by
      rintro x n ⟨c, rfl⟩ hn
      obtain ⟨bc, hbc⟩ := hlive n hn
      rw [inGroup_of_live hbc]
      simp only [bcNotify, deref_eq_ok.mpr hbc, bind, Except.bind]
      cases hf : find bc.groups g with
      | none => exact ⟨_, ⟨c, rfl⟩, by simp [pure, Except.pure]⟩
      | some name => exact ⟨_, ⟨n.1, rfl⟩, by simp [pure, Except.pure]⟩)
    ⟨msg.header.clientId, rfl⟩
  refine ⟨c, ?_⟩
  rw [h, flatMap_select, recipients, List.map_map]
  rfl

/-! ### Handlers -/

/-- The fields of a notice, stored one after another over the code byte. -/
theorem notice_prefix {buffer : List UInt8} {code : UInt8} (hcode : [code] <+: buffer)
    (u : Name) (g : Int32) (gname : List UInt8) :
    notice code u g gname <+: memcpyAt (memcpyAt (memcpyAt (memcpyAt buffer 1
      [UInt8.ofNat u.bytes.length]) 2 u.bytes) (u.bytes.length + 2)
      (mem32 (htonl g.toUInt32))) (u.bytes.length + 2 + 4) gname := by
  have h₁ := memcpyAt_known hcode 1 rfl [UInt8.ofNat u.bytes.length]
  have h₂ := memcpyAt_known h₁ 2 rfl u.bytes
  have h₃ := memcpyAt_known h₂ (u.bytes.length + 2) (by simp)
    (mem32 (htonl g.toUInt32))
  have h₄ := memcpyAt_known h₃ (u.bytes.length + 2 + 4) (by simp) gname
  simpa only [notice, mem32_htonl, List.append_assoc, List.cons_append, List.nil_append] using h₄

theorem notice_length (code : UInt8) (u : Name) (g : Int32) (gname : List UInt8) :
    (notice code u g gname).length = u.bytes.length + 2 + 4 + gname.length := by
  simp only [notice, List.length_append, List.length_cons, List.length_nil, be32_length]
  omega

theorem name_length_le (u : Name) : u.bytes.length ≤ 254 := by
  have h := u.fits
  unfold MAX_STR_LEN at h
  omega

theorem userAnswer_small (g : Int32) (u : Name) : (userAnswer g u).length < 2 ^ 32 := by
  have hname := name_length_le u
  simp only [userAnswer, List.length_cons, List.length_append, be32_length]
  omega

theorem groupAnswer_small (g : Int32) (u : Name) : (groupAnswer g u).length < 2 ^ 32 := by
  have hname := name_length_le u
  simp only [groupAnswer, List.length_cons, List.length_append, be32_length]
  omega

theorem notice_small (code : UInt8) (u : Name) (g : Int32) {gname : List UInt8}
    (hg : gname.length ≤ 254) : (notice code u g gname).length < 2 ^ 32 := by
  have hname := name_length_le u
  rw [notice_length]
  omega

theorem ctrlNotice_spec {s : State M} (bc : BcClient M) {code : UInt8} (gname : List UInt8)
    (hlive : ∀ n ∈ entries s.clients, ∃ bc, Live s.heap n.2 bc)
    (hbuf : 514 ≤ s.msgBuffer.length) (hcode : [code] <+: s.msgBuffer)
    (hg : gname.length ≤ 254) (hash : Int32) :
    ∃ buffer response, buffer.length = s.msgBuffer.length ∧
      ctrlNotice s bc hash gname = .ok ({ s with msgBuffer := buffer, response := response },
        (recipients s.heap s.clients hash).map fun o =>
          frame s.response.type s.response.channelId o (notice code bc.name hash gname)) := by
  have hname := name_length_le bc.name
  have hlen := notice_length code bc.name hash gname
  have hpre := notice_prefix hcode bc.name hash gname
  obtain ⟨buffer, hb⟩ : ∃ buffer, buffer = memcpyAt (memcpyAt (memcpyAt (memcpyAt s.msgBuffer 1
    [UInt8.ofNat bc.name.bytes.length]) 2 bc.name.bytes) (bc.name.bytes.length + 2)
    (mem32 (htonl hash.toUInt32))) (bc.name.bytes.length + 2 + 4) gname := ⟨_, rfl⟩
  have hblen : buffer.length = s.msgBuffer.length := by
    have h₁ := memcpyAt_length (Eq.refl s.msgBuffer.length) 1 [UInt8.ofNat bc.name.bytes.length]
      (by simp; omega)
    have h₂ := memcpyAt_length h₁ 2 bc.name.bytes (by omega)
    have h₃ := memcpyAt_length h₂ (bc.name.bytes.length + 2) (mem32 (htonl hash.toUInt32))
      (by rw [mem32_length]; omega)
    rw [hb, memcpyAt_length h₃ _ _ (by omega)]
  rw [← hb] at hpre
  obtain ⟨c, hnotify⟩ := notify_all hlive hash ⟨⟨s.response.type, s.response.channelId,
    s.response.clientId, UInt32.ofNat (bc.name.bytes.length + 2 + 4 + gname.length)⟩, some buffer⟩
  refine ⟨buffer, ⟨s.response.type, s.response.channelId, c,
    UInt32.ofNat (bc.name.bytes.length + 2 + 4 + gname.length)⟩, hblen, ?_⟩
  simp only [ctrlNotice, ← hb, hnotify, bind, Except.bind, pure, Except.pure]
  congr 2
  apply List.map_congr_left
  intro o _
  exact received_eq_frame (by omega) (by rw [hlen]) (List.prefix_iff_eq_take.mp hpre).symm

/-- A buffer of fixed length that begins with known fields, under a header whose size varies. -/
def Filled (n : ℕ) (known : List UInt8) (h : TunnelMsgH) (msg : TunnelMsg) : Prop :=
  ∃ data size, data.length = n ∧ known <+: data ∧ msg = ⟨{ h with size := size }, some data⟩

/-- A message sent with one more field stored after the known ones, which stay for the next. -/
theorem received_stored {data known : List UInt8} (hpre : known <+: data) {size : ℕ}
    (off : ℕ) (hoff : known.length = off) {bytes : List UInt8} (hsize : off + bytes.length = size)
    (hsmall : size < 2 ^ 32) (type : UInt8) (channelId clientId : UInt16) :
    TunnelMsg.received ⟨⟨type, channelId, clientId, UInt32.ofNat size⟩,
      some (memcpyAt data off bytes)⟩ = frame type channelId clientId (known ++ bytes) := by
  have hlen : (known ++ bytes).length = size := by rw [List.length_append, hoff, hsize]
  have hnext := memcpyAt_known hpre off hoff bytes
  exact received_eq_frame (by omega) (by rw [hlen]) (List.prefix_iff_eq_take.mp hnext).symm

theorem filled_stored {n : ℕ} {data known : List UInt8} (hlen : data.length = n)
    (hpre : known <+: data) {off : ℕ} (hoff : known.length = off) (bytes : List UInt8)
    (hfit : off + bytes.length ≤ n) (h : TunnelMsgH) (size : UInt32) :
    Filled n known h ⟨{ h with size := size }, some (memcpyAt data off bytes)⟩ :=
  ⟨_, size, memcpyAt_length hlen off bytes hfit,
    (List.prefix_append _ _).trans (memcpyAt_known hpre off hoff bytes), rfl⟩

theorem sendQueryUser_all {heap : List (Option (BcClient M))} {clients : M UInt16 ℕ}
    (hlive : ∀ n ∈ entries clients, ∃ bc, Live heap n.2 bc) (g : Int32) (h : TunnelMsgH)
    {buffer : List UInt8} (hbuf : 514 ≤ buffer.length)
    (hpre : BC_QUERY_USER :: be32 g.toUInt32 <+: buffer) (users : UInt16 → Name)
    (husers : ∀ n ∈ entries clients, ∀ bc, Live heap n.2 bc → users n.1 = bc.name) :
    ∃ msg, Filled buffer.length (BC_QUERY_USER :: be32 g.toUInt32) h msg ∧
      forEach (bcSendQueryUser heap g 5) ⟨h, some buffer⟩ (entries clients) =
        .ok (msg, (recipients heap clients g).map fun o =>
          frame h.type h.channelId h.clientId (userAnswer g (users o))) := by
  obtain ⟨msg, hmsg, hsend⟩ := forEach_spec (f := bcSendQueryUser heap g 5)
    (l := entries clients) (I := Filled buffer.length (BC_QUERY_USER :: be32 g.toUInt32) h)
    (g := fun n => if inGroup heap g n.2 then
      [frame h.type h.channelId h.clientId (userAnswer g (users n.1))] else [])
    (x := ⟨h, some buffer⟩) (by
      rintro x n ⟨data, size, hlen, hknown, rfl⟩ hn
      obtain ⟨bc, hbc⟩ := hlive n hn
      have hname := name_length_le bc.name
      rw [inGroup_of_live hbc, husers n hn bc hbc]
      simp only [bcSendQueryUser, deref_eq_ok.mpr hbc, bind, Except.bind]
      cases hf : find bc.groups g with
      | none => exact ⟨_, ⟨data, size, hlen, hknown, rfl⟩, by simp [pure, Except.pure]⟩
      | some name =>
        refine ⟨_, filled_stored hlen hknown rfl bc.name.bytes (by simp; omega)
           h (UInt32.ofNat (5 + bc.name.bytes.length)), ?_⟩
        simp [-UInt32.ofNat_add, pure, Except.pure, received_stored hknown 5 (by simp) rfl
          (show 5 + bc.name.bytes.length < 2 ^ 32 by omega), userAnswer])
    ⟨buffer, h.size, rfl, hpre, rfl⟩
  refine ⟨msg, hmsg, ?_⟩
  rw [hsend, flatMap_select, recipients, List.map_map]
  rfl

theorem sendQueryGroup_all (groups : M Int32 Name) (h : TunnelMsgH) {buffer : List UInt8}
    (hbuf : 514 ≤ buffer.length) (hpre : [BC_QUERY_GROUP] <+: buffer) :
    ∃ msg, Filled buffer.length [BC_QUERY_GROUP] h msg ∧
      forEach bcSendQueryGroup ⟨h, some buffer⟩ (entries groups) =
        .ok (msg, (entries groups).map fun e =>
          frame h.type h.channelId h.clientId (groupAnswer e.1 e.2)) := by
  obtain ⟨msg, hmsg, hsend⟩ := forEach_spec (f := bcSendQueryGroup) (l := entries groups)
    (I := Filled buffer.length [BC_QUERY_GROUP] h)
    (g := fun e => [frame h.type h.channelId h.clientId (groupAnswer e.1 e.2)])
    (x := ⟨h, some buffer⟩) (by
      rintro x ⟨g, name⟩ ⟨data, size, hlen, hknown, rfl⟩ -
      have hname := name_length_le name
      have hgid : [BC_QUERY_GROUP] ++ be32 g.toUInt32 <+:
          memcpyAt data 1 (be32 g.toUInt32) := memcpyAt_known hknown 1 rfl _
      have hglen : (memcpyAt data 1 (be32 g.toUInt32)).length = buffer.length :=
        memcpyAt_length hlen 1 _ (by rw [be32_length]; omega)
      obtain ⟨data', size', hlen', hknown', hmsg'⟩ := filled_stored hglen hgid rfl
        name.bytes (by simp; omega) h (UInt32.ofNat (5 + name.bytes.length))
      refine ⟨_, ⟨data', size', hlen', (List.prefix_append _ _).trans hknown', hmsg'⟩, ?_⟩
      simp [-UInt32.ofNat_add, bcSendQueryGroup, received_stored hgid 5 (by simp) rfl
        (show 5 + name.bytes.length < 2 ^ 32 by omega), groupAnswer])
    ⟨buffer, h.size, rfl, hpre, rfl⟩
  refine ⟨msg, hmsg, ?_⟩
  rw [hsend, ← List.map_eq_flatMap]

/-- The notices of a user that leaves all its groups. -/
def farewells (s : State M) (bc : BcClient M) (channelId : UInt16) : List TunnelMsg :=
  (entries bc.groups).flatMap fun e => (recipients s.heap s.clients e.1).map fun o =>
    frame CHANNEL_CTRL channelId o (notice BC_UNSUBSCRIPTION bc.name e.1 [])

theorem unsubscription_all {heap : List (Option (BcClient M))} {clients : M UInt16 ℕ}
    {groups : M Int32 Name}
    (hlive : entries groups ≠ [] → ∀ n ∈ entries clients, ∃ bc, Live heap n.2 bc) (u : Name)
    (h : TunnelMsgH) {buffer : List UInt8} (hbuf : 514 ≤ buffer.length)
    (hpre : [BC_UNSUBSCRIPTION, UInt8.ofNat u.bytes.length] ++ u.bytes <+: buffer) :
    ∃ size c data, data.length = buffer.length ∧
      forEach (bcUnsubscription heap (entries clients) u.bytes.length) ⟨h, some buffer⟩
        (entries groups) = .ok (⟨⟨h.type, h.channelId, c, size⟩, some data⟩,
          (entries groups).flatMap fun e => (recipients heap clients e.1).map fun o =>
            frame h.type h.channelId o (notice BC_UNSUBSCRIPTION u e.1 [])) := by
  have hname := name_length_le u
  obtain ⟨msg, ⟨c, data, size, hlen, -, rfl⟩, hsend⟩ := forEach_spec
    (f := bcUnsubscription heap (entries clients) u.bytes.length) (l := entries groups)
    (I := fun msg => ∃ c, Filled buffer.length ([BC_UNSUBSCRIPTION,
      UInt8.ofNat u.bytes.length] ++ u.bytes) { h with clientId := c } msg)
    (g := fun e => (recipients heap clients e.1).map fun o =>
      frame h.type h.channelId o (notice BC_UNSUBSCRIPTION u e.1 []))
    (x := ⟨h, some buffer⟩) (by
      rintro x ⟨g, name⟩ ⟨c, data, size, hlen, hknown, rfl⟩ he
      obtain ⟨c', hnotify⟩ := notify_all (hlive (List.ne_nil_of_mem he)) g
        ⟨⟨h.type, h.channelId, c, UInt32.ofNat (u.bytes.length + 2 + 4)⟩,
          some (memcpyAt data (u.bytes.length + 2) (be32 g.toUInt32))⟩
      have hoff : ([BC_UNSUBSCRIPTION, UInt8.ofNat u.bytes.length] ++ u.bytes).length =
          u.bytes.length + 2 := by simp
      refine ⟨_, ⟨c', filled_stored hlen hknown hoff (be32 g.toUInt32)
        (by rw [be32_length]; omega) { h with clientId := c' }
        (UInt32.ofNat (u.bytes.length + 2 + 4))⟩, ?_⟩
      simp only [bcUnsubscription, mem32_htonl, Option.getD_some, hnotify]
      congr 2
      apply List.map_congr_left
      intro o _
      rw [received_stored hknown _ hoff (by rw [be32_length])
        (show u.bytes.length + 2 + 4 < 2 ^ 32 by omega)]
      simp [notice])
    ⟨h.clientId, buffer, h.size, rfl, hpre, rfl⟩
  exact ⟨size, c, data, hlen, hsend⟩

theorem inGroup_set {heap : List (Option (BcClient M))} {p : ℕ} {bc : BcClient M}
    (hp : Live heap p bc) (bc' : BcClient M) (hgroups : bc'.groups = bc.groups) (g : Int32)
    (q : ℕ) : inGroup (heap.set p (some bc')) g q = inGroup heap g q := by
  by_cases hq : q = p
  · subst q
    rw [inGroup_of_live hp, inGroup_of_live ((live_set hp).mpr (by rw [if_pos rfl])), hgroups]
  · simp [inGroup, List.getElem?_set_ne (Ne.symm hq)]

theorem unsubscribe_spec {s : State M} {p : ℕ} {bc : BcClient M} (hp : Live s.heap p bc)
    (hbuf : 514 ≤ s.msgBuffer.length) (stack : TunnelMsgH) (key : UInt16)
    (hlive : bc.ref ≤ 1 → entries bc.groups ≠ [] →
      ∀ n ∈ entries s.clients, ∃ bc, Live s.heap n.2 bc) :
    ∃ buffer, buffer.length = s.msgBuffer.length ∧ unsubscribe s stack (some (key, p)) = .ok
      ({ s with
        heap := s.heap.set p (if bc.ref ≤ 1 then none else some { bc with ref := bc.ref - 1 })
        msgBuffer := buffer },
      (if bc.ref ≤ 1 then farewells s bc stack.channelId else []) ++
        [frame CHANNEL_UNSUBSCRIBE stack.channelId key []]) := by
  have hname := name_length_le bc.name
  have h₀ : [BC_UNSUBSCRIPTION] <+: memcpyAt s.msgBuffer 0 [BC_UNSUBSCRIPTION] :=
    memcpyAt_known List.nil_prefix 0 rfl _
  have h₁ := memcpyAt_known h₀ 1 rfl [UInt8.ofNat bc.name.bytes.length]
  have h₂ := memcpyAt_known h₁ 2 rfl bc.name.bytes
  obtain ⟨buffer, hb⟩ : ∃ buffer, buffer = memcpyAt (memcpyAt (memcpyAt s.msgBuffer 0
    [BC_UNSUBSCRIPTION]) 1 [UInt8.ofNat bc.name.bytes.length]) 2 bc.name.bytes := ⟨_, rfl⟩
  have hblen : buffer.length = s.msgBuffer.length := by
    have hl₀ := memcpyAt_length (Eq.refl s.msgBuffer.length) 0 [BC_UNSUBSCRIPTION]
      (by simp; omega)
    have hl₁ := memcpyAt_length hl₀ 1 [UInt8.ofNat bc.name.bytes.length] (by simp; omega)
    rw [hb, memcpyAt_length hl₁ _ _ (by omega)]
  rw [← hb] at h₂
  by_cases hlast : bc.ref ≤ 1
  · have hlive' : entries bc.groups ≠ [] → ∀ n ∈ entries s.clients,
        ∃ bc', Live (s.heap.set p (some { bc with ref := bc.ref - 1 })) n.2 bc' := by
      intro hne n hn
      obtain ⟨bc', hbc'⟩ := hlive hlast hne n hn
      exact live_update hbc' hp
    obtain ⟨size, c, data, hlen, hsend⟩ := unsubscription_all hlive' bc.name
      ⟨CHANNEL_CTRL, stack.channelId, stack.clientId, stack.size⟩ (by omega) h₂
    refine ⟨data, hlen.trans hblen, ?_⟩
    have hzero : bc.ref - 1 ≤ 0 := by omega
    simp only [unsubscribe, deref_eq_ok.mpr hp, bind, Except.bind, ← hb, hsend, hlast, hzero,
      ↓reduceIte, pure, Except.pure, List.set_set, Option.getD_some, farewells, recipients,
      inGroup_set hp { bc with ref := bc.ref - 1 } rfl]
    rfl
  · have hmore : ¬ bc.ref - 1 ≤ 0 := by omega
    refine ⟨buffer, hblen, ?_⟩
    simp only [unsubscribe, deref_eq_ok.mpr hp, bind, Except.bind, ← hb, hlast, hmore,
      ↓reduceIte, pure, Except.pure, Option.getD_some]
    rfl

end BroadcastHandles
