import TunnelPublishers.WfifoService

/-!
# Who shares a FIFO

With a directory as base path every user has a path of its own, but a path is
looked up by its hash alone. Two clients share a descriptor exactly when the
hashes of their users' paths agree.
-/
namespace WfifoPrivacy

open ByteOrder FiniteMaps FiniteMap TunnelFraming ExecutionTraces KernelTables WfifoService

/-! ### What flows -/

/-- The payloads of the DATA frames to a client. -/
def dataTo (c : UInt16) (trace : List Event) : List (List UInt8) :=
  trace.filterMap fun
    | .sent m =>
      if m.header.type = CHANNEL_DATA ∧ m.header.clientId = c then some m.payload else none
    | _ => none

/-- The chunks read from a descriptor. -/
def readsOf (fd : ℤ) (trace : List Event) : List (List UInt8) :=
  trace.filterMap fun
    | .read fd' (some bytes) => if fd' = fd then some bytes else none
    | _ => none

theorem dataTo_append (c : UInt16) (a b : List Event) :
    dataTo c (a ++ b) = dataTo c a ++ dataTo c b :=
  List.filterMap_append

theorem readsOf_append (fd : ℤ) (a b : List Event) :
    readsOf fd (a ++ b) = readsOf fd a ++ readsOf fd b :=
  List.filterMap_append

variable {M : Type → Type → Type} [FiniteMap M]

/-- A chunk is sent once to each client whose node holds the descriptor it came from. -/
theorem sendData_out {ffd : ℤ} (hffd : ffd ≠ 0) (bytes : List UInt8) (msg : TunnelMsgH)
    (nodes : List (UInt16 × ℤ)) :
    (visitAll (sendData ffd bytes) msg nodes).1.type = msg.type ∧
      (visitAll (sendData ffd bytes) msg nodes).1.channelId = msg.channelId ∧
      (visitAll (sendData ffd bytes) msg nodes).2 = (nodes.filter (·.2 = ffd)).map
        fun n => Event.sent (frame msg.type msg.channelId n.1 bytes) := by
  induction nodes generalizing msg with
  | nil => exact ⟨rfl, rfl, rfl⟩
  | cons n nodes ih =>
    by_cases hn : n.2 = ffd
    · have hx : sendData ffd bytes msg n = ({ msg with clientId := n.1 },
          [.sent (frame msg.type msg.channelId n.1 bytes)]) := by
        simp [sendData, hn, hffd]
      obtain ⟨htype, hchannel, hout⟩ := ih { msg with clientId := n.1 }
      simp only [visitAll, hx]
      exact ⟨htype, hchannel, by rw [hout, List.filter_cons_of_pos (by simpa using hn)]; rfl⟩
    · have hx : sendData ffd bytes msg n = (msg, []) := by simp [sendData, hn]
      obtain ⟨htype, hchannel, hout⟩ := ih msg
      simp only [visitAll, hx]
      exact ⟨htype, hchannel, by rw [hout, List.filter_cons_of_neg (by simpa using hn)]; rfl⟩

theorem readsOf_sent (fd : ℤ) {β : Type} (f : β → TunnelMsg) (nodes : List β) :
    readsOf fd (nodes.map fun n => Event.sent (f n)) = [] := by
  simp [readsOf]

theorem dataTo_sent (c : UInt16) (channel : UInt16) {bytes : List UInt8}
    (hsmall : bytes.length < 2 ^ 32) (ffd : ℤ) (clients : M UInt16 ℤ) :
    dataTo c (((entries clients).filter (·.2 = ffd)).map
        fun n => Event.sent (frame CHANNEL_DATA channel n.1 bytes)) =
      if find clients c = some ffd then [bytes] else [] := by
  have hcount : ∀ nodes : List (UInt16 × ℤ),
      dataTo c ((nodes.filter (·.2 = ffd)).map
        fun n => Event.sent (frame CHANNEL_DATA channel n.1 bytes)) =
      List.replicate (nodes.count (c, ffd)) bytes := by
    intro nodes
    induction nodes with
    | nil => rfl
    | cons n nodes ih =>
      obtain ⟨k, fd⟩ := n
      by_cases hfd : fd = ffd
      · by_cases hk : k = c
        · subst hfd hk
          rw [List.filter_cons_of_pos (by simp), List.count_cons_self, List.replicate_succ, ← ih]
          have hhead : (frame CHANNEL_DATA channel k bytes).payload = bytes := frame_payload hsmall
          simp only [frame] at hhead
          simp [dataTo, frame, hhead]
        · have hne : (k, fd) ≠ (c, ffd) := fun he => hk (congrArg Prod.fst he)
          rw [List.filter_cons_of_pos (by simpa using hfd), List.count_cons_of_ne hne, ← ih]
          simp [dataTo, frame, hk]
      · have hne : (k, fd) ≠ (c, ffd) := fun he => hfd (congrArg Prod.snd he)
        rw [List.filter_cons_of_neg (by simpa using hfd), List.count_cons_of_ne hne, ih]
  rw [hcount]
  by_cases hf : find clients c = some ffd
  · rw [if_pos hf, List.count_eq_one_of_mem (nodup_entries clients) (mem_entries.mpr hf)]
    rfl
  · rw [if_neg hf, List.count_eq_zero_of_not_mem fun hm => hf (mem_entries.mp hm)]
    rfl

/-- What one FIFO gives in a pass: a client is sent its chunk if mapped to it. -/
theorem monitorFifoHandles_flow (A : Antd) (answers : Int32 → Answers) {clients : M UInt16 ℤ}
    {msg : TunnelMsgH} (hmsg : msg.type = CHANNEL_DATA) (node : Int32 × ℤ) {c : UInt16} {fd : ℤ}
    (hc : find clients c = some fd) :
    (monitorFifoHandles A answers clients msg node).1.type = CHANNEL_DATA ∧
      dataTo c (monitorFifoHandles A answers clients msg node).2 =
        readsOf fd (monitorFifoHandles A answers clients msg node).2 := by
  by_cases hskip : node.2 = 0 ∨ (answers node.1).ready = false
  · simp only [monitorFifoHandles, hskip, ↓reduceIte]
    exact ⟨hmsg, rfl⟩
  simp only [monitorFifoHandles, hskip, ↓reduceIte]
  cases hread : (answers node.1).read with
  | none => exact ⟨hmsg, rfl⟩
  | some bytes =>
    have hsmall := A.take_small bytes
    obtain ⟨htype, -, hout⟩ := sendData_out (not_or.mp hskip).1 (bytes.take A.BUFFLEN)
      { msg with size := UInt32.ofNat (bytes.take A.BUFFLEN).length } (entries clients)
    refine ⟨htype.trans hmsg, ?_⟩
    dsimp only
    rw [hout, hmsg]
    calc dataTo c (.read node.2 (some (bytes.take A.BUFFLEN)) ::
          ((entries clients).filter (·.2 = node.2)).map
            fun n => Event.sent (frame CHANNEL_DATA msg.channelId n.1 (bytes.take A.BUFFLEN)))
        = if find clients c = some node.2 then [bytes.take A.BUFFLEN] else [] :=
          dataTo_sent c msg.channelId hsmall node.2 clients
      _ = readsOf fd [.read node.2 (some (bytes.take A.BUFFLEN))] := by
          by_cases hfd : node.2 = fd
          · simp [hc, readsOf, hfd]
          · simp [hc, readsOf, hfd, Ne.symm hfd]
      _ = _ := by
          rw [← List.append_nil (readsOf fd [_]), ← readsOf_sent fd
            (fun n : UInt16 × ℤ => frame CHANNEL_DATA msg.channelId n.1 (bytes.take A.BUFFLEN))
            ((entries clients).filter (·.2 = node.2)), ← readsOf_append]
          rfl

theorem monitorFifos_flow {A : Antd} {x : Args} {s : State M} (p : Pass) {c : UInt16} {fd : ℤ}
    (hc : find s.clients c = some fd) :
    dataTo c (monitorFifos A x s p).2 = readsOf fd (monitorFifos A x s p).2 := by
  have hvisit : ∀ (nodes : List (Int32 × ℤ)) (msg : TunnelMsgH), msg.type = CHANNEL_DATA →
      dataTo c (visitAll (monitorFifoHandles A p.answers s.clients) msg nodes).2 =
        readsOf fd (visitAll (monitorFifoHandles A p.answers s.clients) msg nodes).2 := by
    intro nodes
    induction nodes with
    | nil => exact fun _ _ => rfl
    | cons n nodes ih =>
      intro msg hmsg
      obtain ⟨htype, hflow⟩ :=
        monitorFifoHandles_flow A p.answers hmsg n hc
      simp only [visitAll, dataTo_append, readsOf_append, hflow, ih _ htype]
  unfold monitorFifos
  split
  · exact hvisit _ _ rfl
  · rfl

/-- Bytes cross the process boundary, to or from a FIFO or to the hotline. -/
def Transfer : Event → Prop
  | .wrote _ _ _ => True
  | .read _ _ => True
  | .sent _ => True
  | _ => False

theorem openFifo_no_transfer (handles : M Int32 ℤ) (a : Opening) (hash : Int32)
    (path : List UInt8) (uid : Option UInt32) :
    ∀ e ∈ (openFifo handles a hash path uid).2.2, ¬ Transfer e := by
  rcases openFifo_cases handles a hash path uid with hr | ⟨user, hr⟩ |
    ⟨owned, rfl | ⟨user, rfl⟩, hr⟩ <;> simp [hr, Transfer]

theorem initFifo_no_transfer {A : Antd} (handles : M Int32 ℤ) (a : Opening) (base : List UInt8)
    (user : Option (List UInt8)) :
    ∀ e ∈ (initFifo A handles a base user).2.2, ¬ Transfer e := by
  rcases initFifo_cases A handles a base user with hr | ⟨path, uid, hr⟩
  · simp [hr]
  rw [hr]
  rcases lookupFifo_cases A handles a path uid with ⟨-, hr⟩ | ⟨fd, -, -, hr⟩
  · rw [hr]
    exact openFifo_no_transfer _ _ _ _ _
  · simp [hr]

theorem no_transfer_flow {out : List Event} (h : ∀ e ∈ out, ¬ Transfer e) (c : UInt16) (fd : ℤ) :
    dataTo c out = [] ∧ readsOf fd out = [] := by
  constructor <;> refine List.filterMap_eq_nil_iff.mpr fun e he => ?_ <;>
    cases e <;> first | rfl | exact (h _ he trivial).elim

theorem channelSubscribe_out (A : Antd) (x : Args) (s : State M) (p : Pass) (i : Input) :
    (channelSubscribe A x s p i).2 =
      (initFifo A s.fifoHandles p.opening x.base (user i)).2.2 := by
  rw [channelSubscribe]
  dsimp only
  split <;> rfl

/-- What happens on a message: no client is sent FIFO data, and a FIFO is written only for a
client mapped to it. -/
theorem handleMessage_flow {A : Antd} {x : Args} {s : State M} (p : Pass) (i : Input) :
    (∀ c fd, dataTo c (handleMessage A x s p i).2 = readsOf fd (handleMessage A x s p i).2) ∧
      ∀ fd bytes r, .wrote fd bytes r ∈ (handleMessage A x s p i).2 →
        find s.clients i.client = some fd := by
  unfold handleMessage
  dsimp only
  split_ifs with hsub hunsub hdata
  · have hquiet := initFifo_no_transfer s.fifoHandles p.opening x.base (user i) (A := A)
    rw [channelSubscribe_out]
    refine ⟨fun c fd => ?_, fun fd bytes r he => (hquiet _ he trivial).elim⟩
    rw [(no_transfer_flow hquiet c fd).1, (no_transfer_flow hquiet c fd).2]
  · simp [dataTo, readsOf]
  · unfold channelData
    split
    · cases hc : find s.clients i.client with
      | none => simp [dataTo, readsOf]
      | some fd =>
        dsimp only
        split_ifs
        · refine ⟨fun _ _ => rfl, fun fd' bytes r he => ?_⟩
          rw [Option.some.injEq]
          exact (Event.wrote.inj (List.mem_singleton.mp he)).1.symm
        · simp [dataTo, readsOf]
    · simp [dataTo, readsOf, frame, CHANNEL_ERROR, CHANNEL_DATA]
  · simp [dataTo, readsOf]

theorem turn_flow {A : Antd} {x : Args} {s : State M} (p : Pass) {c : UInt16} {fd : ℤ}
    (hc : find s.clients c = some fd) :
    dataTo c (turn A x s p).2 = readsOf fd (turn A x s p).2 := by
  unfold turn
  cases p.selected with
  | failed => rfl
  | timeout => rfl
  | unreadable left => rfl
  | message i => exact (handleMessage_flow p i).1 c fd
  | fifos => exact monitorFifos_flow p hc

/-! ### Who is mapped where -/

/-- Each hash holds an open descriptor of its own. -/
structure HandleInvariant (handles : M Int32 ℤ) (table : List ℤ) : Prop where
  held : ∀ h fd, find handles h = some fd → 0 < fd ∧ fd ∈ table
  apart : ∀ h h' fd, find handles h = some fd → find handles h' = some fd → h = h'

/-- A call of `init_fifo` with some path: what was held stays held, and a descriptor returned is
the one held for the path's hash. -/
structure Opened (handles : M Int32 ℤ) (table : List ℤ) (hash : Int32)
    (r : ℤ × M Int32 ℤ × List Event) : Prop where
  invariant : HandleInvariant r.2.1 ((descriptors r.2.2).foldl DescriptorCall.after table)
  kept : ∀ h fd, find handles h = some fd → find r.2.1 h = some fd
  returned : r.1 ≠ -1 → find r.2.1 hash = some r.1

theorem handleInvariant_insert {handles : M Int32 ℤ} {table : List ℤ} {hash : Int32} {fd : ℤ}
    (h : HandleInvariant handles table) (hpos : 0 < fd) (hfresh : fd ∉ table) :
    HandleInvariant (insert handles hash fd) (fd :: table) := by
  -- A descriptor held before is open, so it is not the fresh one.
  have hold : ∀ k, find handles k ≠ some fd := fun k hk => hfresh (h.held k fd hk).2
  constructor
  · intro k fd' hk
    rcases find_insert_some hk with he | hk
    · rw [(Prod.mk.inj he).2]
      exact ⟨hpos, List.mem_cons_self⟩
    · exact ⟨(h.held k fd' hk).1, List.mem_cons_of_mem fd (h.held k fd' hk).2⟩
  · intro k k' fd' hk hk'
    rcases find_insert_some hk with he | hk <;> rcases find_insert_some hk' with he' | hk'
    · rw [(Prod.mk.inj he).1, (Prod.mk.inj he').1]
    · exact (hold k' ((Prod.mk.inj he).2 ▸ hk')).elim
    · exact (hold k ((Prod.mk.inj he').2 ▸ hk)).elim
    · exact h.apart k k' fd' hk hk'

theorem openFifo_opened {handles : M Int32 ℤ} {table : List ℤ} {hash : Int32} {a : Opening}
    {path : List UInt8} {uid : Option UInt32} (h : HandleInvariant handles table)
    (hnone : find handles hash = none)
    (hfresh : Along DescriptorCall.after DescriptorCall.Fresh table
      (descriptors (openFifo handles a hash path uid).2.2)) :
    Opened handles table hash (openFifo handles a hash path uid) := by
  have hkept : ∀ fd k fd', find handles k = some fd' →
      find (insert handles hash fd) k = some fd' := by
    intro fd k fd' hk
    rw [find_insert_ne _ _ fun he => by rw [he, hnone] at hk; cases hk]
    exact hk
  rcases openFifo_cases handles a hash path uid with hr | ⟨user, hr⟩ | ⟨owned, howned, hr⟩ <;>
    rw [hr] at hfresh ⊢
  · exact ⟨h, fun _ _ hk => hk, fun hr => (hr rfl).elim⟩
  · refine ⟨⟨fun k fd hk => ⟨(h.held k fd hk).1, ?_⟩, h.apart⟩, fun _ _ hk => hk,
      fun hr => (hr rfl).elim⟩
    have hmem := (h.held k fd hk).2
    have hne : fd ≠ a.open := fun he => hfresh.1.2 (he ▸ hmem)
    simp [descriptors, DescriptorCall.after, hmem, hne]
  · have hout : descriptors (.unlinked path :: .created path a.mkfifo :: .opened path a.open ::
        owned) = [.opened a.open] := by
      rcases howned with rfl | ⟨user, rfl⟩ <;> rfl
    rw [hout] at hfresh
    refine ⟨?_, hkept a.open, fun _ => find_insert_absent a.open hnone⟩
    rw [hout]
    exact handleInvariant_insert h hfresh.1.1 hfresh.1.2

theorem lookupFifo_opened {A : Antd} {handles : M Int32 ℤ} {table : List ℤ} {a : Opening}
    {path : List UInt8} {uid : Option UInt32} (h : HandleInvariant handles table)
    (hfresh : Along DescriptorCall.after DescriptorCall.Fresh table
      (descriptors (lookupFifo A handles a path uid).2.2)) :
    Opened handles table (A.simpleHash path) (lookupFifo A handles a path uid) := by
  rcases lookupFifo_cases A handles a path uid with ⟨hzero, hr⟩ | ⟨fd, -, hfind, hr⟩ <;>
    rw [hr] at hfresh ⊢
  · have hnone : find handles (A.simpleHash path) = none := by
      rw [Option.eq_none_iff_forall_ne_some]
      intro fd hfind
      exact (h.held _ fd hfind).1.ne' (hzero fd hfind)
    exact openFifo_opened h hnone hfresh
  · exact ⟨h, fun _ _ hk => hk, fun _ => hfind⟩

/-- The pass brings a SUBSCRIBE of a client for a user that exists. -/
def Subscribes (p : Pass) (c : UInt16) (u : List UInt8) : Prop :=
  ∃ i, p.selected = .message i ∧ i.request.header.type = CHANNEL_SUBSCRIBE ∧ i.client = c ∧
    user i = some u ∧ p.opening.pwd ≠ none

/-- No client id stands for two users. -/
def NotReused (passes : List Pass) : Prop :=
  ∀ p ∈ passes, ∀ q ∈ passes, ∀ c u v, Subscribes p c u → Subscribes q c v → u = v

/-- Clients are mapped to the descriptor held for the path of a user they subscribed with. -/
structure Mapped (A : Antd) (x : Args) (passes : List Pass) (s : State M) (table : List ℤ) : Prop
    extends HandleInvariant s.fifoHandles table where
  owned : ∀ c fd, find s.clients c = some fd → ∃ p ∈ passes, ∃ u, Subscribes p c u ∧
    find s.fifoHandles (A.simpleHash (fifoPath A x.base u)) = some fd

/-- A pass that opens nothing and maps nobody. -/
theorem Mapped.quiet {A : Antd} {x : Args} {passes : List Pass} {s s' : State M}
    {table : List ℤ} {out : List Event} (h : Mapped A x passes s table) (p : Pass)
    (hhandles : s'.fifoHandles = s.fifoHandles)
    (hclients : ∀ c fd, find s'.clients c = some fd → find s.clients c = some fd)
    (hout : descriptors out = []) :
    Mapped A x (passes ++ [p]) s' ((descriptors out).foldl DescriptorCall.after table) := by
  rw [hout]
  constructor
  · rw [hhandles]
    exact h.toHandleInvariant
  · intro c fd hc
    obtain ⟨q, hq, u, hu, hfd⟩ := h.owned c fd (hclients c fd hc)
    exact ⟨q, List.mem_append_left _ hq, u, hu, hhandles ▸ hfd⟩

theorem channelSubscribe_mapped {A : Antd} {x : Args} {passes : List Pass} {s : State M}
    {table : List ℤ} {p : Pass} {i : Input} (h : Mapped A x passes s table)
    (hselected : p.selected = .message i) (htype : i.request.header.type = CHANNEL_SUBSCRIBE)
    (hdir : p.opening.stat = .directory)
    (hfresh : Along DescriptorCall.after DescriptorCall.Fresh table
      (descriptors (channelSubscribe A x s p i).2)) :
    Mapped A x (passes ++ [p]) (channelSubscribe A x s p i).1
      ((descriptors (channelSubscribe A x s p i).2).foldl DescriptorCall.after table) := by
  rcases initFifo_user A s.fifoHandles hdir x.base (user i) with
    hr | ⟨u, uid, hu, hpwd, hr⟩
  · simp only [channelSubscribe, hr, ne_eq, not_true_eq_false, ↓reduceIte]
    exact h.quiet p rfl (fun _ _ hc => hc) rfl
  have hsubscribes : Subscribes p i.client u :=
    ⟨i, hselected, htype, rfl, hu, by rw [hpwd]; exact Option.some_ne_none uid⟩
  simp only [channelSubscribe, hr] at hfresh ⊢
  generalize hlookup : lookupFifo A s.fifoHandles p.opening (fifoPath A x.base u) (some uid) = r
    at hfresh ⊢
  have hout : descriptors (if r.1 ≠ -1 then
      ({ s with fifoHandles := r.2.1, clients := insert s.clients i.client r.1 }, r.2.2)
      else ({ s with fifoHandles := r.2.1 }, r.2.2) : State M × List Event).2 =
        descriptors r.2.2 := by
    split <;> rfl
  rw [hout] at hfresh ⊢
  have hopened := lookupFifo_opened h.toHandleInvariant (hlookup ▸ hfresh)
  rw [hlookup] at hopened
  have hkeep : ∀ c fd, find s.clients c = some fd → ∃ q ∈ passes ++ [p], ∃ u, Subscribes q c u ∧
      find r.2.1 (A.simpleHash (fifoPath A x.base u)) = some fd := by
    intro c fd hc
    obtain ⟨q, hq, v, hv, hfd⟩ := h.owned c fd hc
    exact ⟨q, List.mem_append_left _ hq, v, hv, hopened.kept _ _ hfd⟩
  by_cases hfail : r.1 = -1
  · rw [if_neg (not_not.mpr hfail)]
    exact ⟨hopened.invariant, hkeep⟩
  · rw [if_pos hfail]
    refine ⟨hopened.invariant, fun c fd hc => ?_⟩
    rcases find_insert_some hc with he | hc
    · obtain ⟨rfl, rfl⟩ := Prod.mk.inj he
      exact ⟨p, List.mem_append_right _ (List.mem_singleton_self p), u, hsubscribes,
        hopened.returned hfail⟩
    · exact hkeep c fd hc

theorem descriptors_append (a b : List Event) :
    descriptors (a ++ b) = descriptors a ++ descriptors b :=
  List.filterMap_append

theorem descriptors_transfer {out : List Event} (h : ∀ e ∈ out, Transfer e) :
    descriptors out = [] := by
  refine List.filterMap_eq_nil_iff.mpr fun e he => ?_
  cases e <;> first | rfl | exact (h _ he).elim

theorem monitorFifos_transfer {A : Antd} {x : Args} (s : State M) (p : Pass) :
    ∀ e ∈ (monitorFifos A x s p).2, Transfer e := by
  have hsend : ∀ ffd bytes msg node, ∀ e ∈ (sendData ffd bytes msg node).2, Transfer e := by
    intro ffd bytes msg node
    unfold sendData
    split <;> simp [Transfer]
  unfold monitorFifos
  split
  · refine forall_mem_visitAll (fun msg node => ?_) _ _
    unfold monitorFifoHandles
    split
    · simp
    · split
      · simp [Transfer]
      · intro e he
        rcases List.mem_cons.mp he with rfl | he
        · trivial
        · exact forall_mem_visitAll (hsend _ _) _ _ e he
  · simp

/-- A turn subscribes a client, or it leaves the handles alone and maps no client. -/
theorem turn_cases (A : Antd) (x : Args) (s : State M) (p : Pass) :
    (∃ i, p.selected = .message i ∧ i.request.header.type = CHANNEL_SUBSCRIBE ∧
      (turn A x s p).1.fifoHandles = (channelSubscribe A x s p i).1.fifoHandles ∧
      (turn A x s p).1.clients = (channelSubscribe A x s p i).1.clients ∧
      (turn A x s p).2 = (channelSubscribe A x s p i).2) ∨
    (turn A x s p).1.fifoHandles = s.fifoHandles ∧
      (∀ c fd, find (turn A x s p).1.clients c = some fd → find s.clients c = some fd) ∧
      descriptors (turn A x s p).2 = [] := by
  unfold turn
  cases hselected : p.selected with
  | failed | timeout | unreadable => exact .inr ⟨rfl, fun _ _ hc => hc, rfl⟩
  | fifos =>
    refine .inr ⟨?_, ?_, descriptors_transfer (monitorFifos_transfer s p)⟩
    · simp only [monitorFifos]
      split <;> rfl
    · simp only [monitorFifos]
      split <;> exact fun _ _ hc => hc
  | message i =>
    simp only [handleMessage]
    split_ifs with hsub hunsub hdata
    · refine .inl ⟨i, rfl, hsub, ?_⟩
      simp only [channelSubscribe]
      split <;> exact ⟨rfl, rfl, rfl⟩
    · exact .inr ⟨rfl, fun c fd hc => (find_delete_some hc).2, rfl⟩
    · simp only [channelData]
      split
      · split
        · exact .inr ⟨rfl, fun _ _ hc => hc, rfl⟩
        · split <;> exact .inr ⟨rfl, fun _ _ hc => hc, rfl⟩
      · exact .inr ⟨rfl, fun _ _ hc => hc, rfl⟩
    · exact .inr ⟨rfl, fun _ _ hc => hc, rfl⟩

theorem turn_mapped {A : Antd} {x : Args} {passes : List Pass} {s : State M} {table : List ℤ}
    {p : Pass} (h : Mapped A x passes s table) (hdir : p.opening.stat = .directory)
    (hfresh : Along DescriptorCall.after DescriptorCall.Fresh table
      (descriptors (turn A x s p).2)) :
    Mapped A x (passes ++ [p]) (turn A x s p).1
      ((descriptors (turn A x s p).2).foldl DescriptorCall.after table) := by
  rcases turn_cases A x s p with
    ⟨i, hselected, hsub, hhandles, hclients, hout⟩ | ⟨hhandles, hclients, hout⟩
  · rw [hout] at hfresh ⊢
    have hm := channelSubscribe_mapped h hselected hsub hdir hfresh
    exact ⟨hhandles ▸ hm.toHandleInvariant, by rw [hhandles, hclients]; exact hm.owned⟩
  · exact h.quiet p hhandles hclients hout

/-! ### Whole runs -/

theorem run_mapped {A : Antd} {x : Args} {answer : TunnelMsgH} {a : Opening}
    (hbase : a.stat = .directory) {passes : List Pass} {trace : List Event} {s : State M}
    (hrun : Execution (Step A x) (initial A x answer a).1 passes trace s)
    (hdir : ∀ p ∈ passes, p.opening.stat = .directory)
    (hfresh : Along DescriptorCall.after DescriptorCall.Fresh [] (descriptors trace)) :
    Mapped A x passes s ((descriptors trace).foldl DescriptorCall.after []) := by
  have hstart : (initial A x answer a : State M × List Event).1 =
      ⟨empty, empty, answer, answer.type = CHANNEL_OK⟩ := by
    simp [initial, initFifo, hbase]
  generalize (initial A x answer a : State M × List Event).1 = s₀ at hrun hstart
  induction hrun with
  | refl =>
    subst hstart
    exact ⟨⟨by simp, by simp⟩, by simp⟩
  | @tail u v passes p trace out _ hstep ih =>
    simp only [List.mem_append, List.mem_singleton] at hdir
    rw [descriptors_append, along_append] at hfresh
    have hu := ih (fun q hq => hdir q (.inl hq)) hfresh.1
    have hpass := turn_mapped hu (hdir p (.inr rfl)) (by rw [hstep.2]; exact hfresh.2)
    rw [hstep.2] at hpass
    rwa [descriptors_append, List.foldl_append]

/-- Two clients kept apart: no descriptor serves both, the second is sent in every pass exactly
what is read from its own FIFO, and what the first writes does not go there. -/
structure Private (A : Antd) (x : Args) (s : State M) (c₁ c₂ : UInt16) : Prop where
  apart : ∀ fd, find s.clients c₁ = some fd → find s.clients c₂ ≠ some fd
  reads : ∀ p out s' fd, Step A x s p out s' → find s.clients c₂ = some fd →
    dataTo c₂ out = readsOf fd out
  writes : ∀ p i out s' fd bytes r, Step A x s p out s' → p.selected = .message i →
    i.client = c₁ → .wrote fd bytes r ∈ out → find s.clients c₂ ≠ some fd

theorem private_of_apart {A : Antd} {x : Args} {s : State M} {c₁ c₂ : UInt16}
    (h : ∀ fd, find s.clients c₁ = some fd → find s.clients c₂ ≠ some fd) :
    Private A x s c₁ c₂ := by
  refine ⟨h, ?_, ?_⟩
  · intro p out s' fd hstep hfd
    have hflow := turn_flow (A := A) (x := x) p hfd
    rwa [hstep.2] at hflow
  · intro p i out s' fd bytes r hstep hselected hclient he
    have hout : out = (handleMessage A x { s with msg := i.request.header } p i).2 := by
      have hsnd := congrArg Prod.snd hstep.2
      simpa only [turn, hselected] using hsnd.symm
    rw [hout] at he
    have hfd := (handleMessage_flow p i).2 fd bytes r he
    exact h fd (hclient ▸ hfd)

/-- In every run with a directory as base path and descriptors as the kernel gives them, two
mapped clients are kept apart exactly if the hashes of their users' paths differ. -/
theorem private_iff_hash_ne {A : Antd} {x : Args} {answer : TunnelMsgH} {a : Opening}
    {passes : List Pass} {trace : List Event} {s : State M}
    (hrun : Execution (Step A x) (initial A x answer a).1 passes trace s)
    (hbase : a.stat = .directory) (hdir : ∀ p ∈ passes, p.opening.stat = .directory)
    (hfresh : Along DescriptorCall.after DescriptorCall.Fresh [] (descriptors trace))
    (hreuse : NotReused passes) {c₁ c₂ : UInt16} {u₁ u₂ : List UInt8}
    (h₁ : ∃ p ∈ passes, Subscribes p c₁ u₁) (h₂ : ∃ p ∈ passes, Subscribes p c₂ u₂)
    (hmapped₁ : find s.clients c₁ ≠ none) (hmapped₂ : find s.clients c₂ ≠ none) :
    Private A x s c₁ c₂ ↔
      A.simpleHash (fifoPath A x.base u₁) ≠ A.simpleHash (fifoPath A x.base u₂) := by
  have hm := run_mapped hbase hrun hdir hfresh
  -- A client's descriptor is the one held for the path of its only user.
  have hheld : ∀ c u fd, (∃ p ∈ passes, Subscribes p c u) → find s.clients c = some fd →
      find s.fifoHandles (A.simpleHash (fifoPath A x.base u)) = some fd := by
    rintro c u fd ⟨p, hp, hu⟩ hc
    obtain ⟨q, hq, v, hv, hfd⟩ := hm.owned c fd hc
    rwa [hreuse p hp q hq c u v hu hv]
  obtain ⟨fd₁, hc₁⟩ := Option.ne_none_iff_exists'.mp hmapped₁
  obtain ⟨fd₂, hc₂⟩ := Option.ne_none_iff_exists'.mp hmapped₂
  have hfd₁ := hheld c₁ u₁ fd₁ h₁ hc₁
  have hfd₂ := hheld c₂ u₂ fd₂ h₂ hc₂
  constructor
  · intro hp he
    rw [he, hfd₂, Option.some.injEq] at hfd₁
    exact hp.apart fd₁ hc₁ (hfd₁ ▸ hc₂)
  · intro hne
    refine private_of_apart fun fd hfd hfd' => hne ?_
    rw [hc₁, Option.some.injEq] at hfd
    rw [hc₂, Option.some.injEq] at hfd'
    subst hfd hfd'
    exact hm.apart _ _ _ hfd₁ hfd₂

/-- Every hash into 32 bits gives two users one FIFO. -/
theorem some_users_share (A : Antd) (base : List UInt8) : ∃ u₁ u₂ : List UInt8, u₁ ≠ u₂ ∧
    A.simpleHash (fifoPath A base u₁) = A.simpleHash (fifoPath A base u₂) := by
  obtain ⟨v, w, hne, heq⟩ := hash_collides fun u => A.simpleHash (fifoPath A base u)
  exact ⟨fiveBytes v, fiveBytes w, fun he => hne (fiveBytes_injective he), heq⟩

/-! ### Two clients -/

/-- A host that hashes a path to its third byte. -/
def thirdByteHost : Antd := .smallest fun path => Int32.ofNat (path.getD 2 0).toNat

/-- FIFOs under `f`, to be read. -/
def readers : Args := ⟨text "f", 114⟩

/-- The base path is a directory, the user exists, and a FIFO is opened as `fd`. -/
def opening (fd : ℤ) : Opening := ⟨.directory, some 1000, 0, fd, 0⟩

/-- A pass in which every FIFO has a byte to read. -/
def quiet (fd : ℤ) (selected : Selected) : Pass :=
  ⟨opening fd, fun _ => ⟨true, some [120]⟩, 0, true, selected, false⟩

theorem subscribe_known : CHANNEL_SUBSCRIBE ≤ 7 := by decide

def subscribe (c : UInt16) (u : List UInt8) (hsmall : u.length < 2 ^ 32) : Selected :=
  .message (.plain CHANNEL_SUBSCRIBE c u subscribe_known hsmall)

/-- Clients 1 and 2 subscribe, each with a user of its own, and the FIFOs are read once. -/
def twoUsers (u₁ u₂ : List UInt8) (h₁ : u₁.length < 2 ^ 32) (h₂ : u₂.length < 2 ^ 32) : List Pass :=
  [quiet 5 (subscribe 1 u₁ h₁), quiet 6 (subscribe 2 u₂ h₂), quiet 7 .fifos]

/-- What `main` starts from. -/
def start : State AssocList := (initial thirdByteHost readers ⟨CHANNEL_OK, 1, 0, 0⟩ (opening 4)).1

theorem twoUsers_subscribes {u₁ u₂ : List UInt8} {h₁ : u₁.length < 2 ^ 32}
    {h₂ : u₂.length < 2 ^ 32} {p : Pass} (hp : p ∈ twoUsers u₁ u₂ h₁ h₂) {c : UInt16}
    {u : List UInt8} (h : Subscribes p c u) :
    1 = c ∧ user (.plain CHANNEL_SUBSCRIBE 1 u₁ subscribe_known h₁) = some u ∨
      2 = c ∧ user (.plain CHANNEL_SUBSCRIBE 2 u₂ subscribe_known h₂) = some u := by
  obtain ⟨i, hi, -, hc, hu, -⟩ := h
  simp only [twoUsers, List.mem_cons, List.not_mem_nil, or_false] at hp
  rcases hp with rfl | rfl | rfl
  · obtain rfl := Selected.message.inj hi
    exact .inl ⟨hc, hu⟩
  · obtain rfl := Selected.message.inj hi
    exact .inr ⟨hc, hu⟩
  · cases hi

theorem twoUsers_notReused (u₁ u₂ : List UInt8) (h₁ : u₁.length < 2 ^ 32)
    (h₂ : u₂.length < 2 ^ 32) : NotReused (twoUsers u₁ u₂ h₁ h₂) := by
  intro p hp q hq c u v hu hv
  rcases twoUsers_subscribes hp hu with ⟨rfl, hu'⟩ | ⟨rfl, hu'⟩ <;>
    rcases twoUsers_subscribes hq hv with ⟨hc, hv'⟩ | ⟨hc, hv'⟩
  · exact Option.some.inj (hu'.symm.trans hv')
  · cases hc
  · cases hc
  · exact Option.some.inj (hu'.symm.trans hv')

/-- The users `a` and `b`, whose paths hash apart. -/
theorem private_iff_hash_ne_two_users : ∃ trace s,
    Execution (Step thirdByteHost readers) start (twoUsers [97] [98] (by decide) (by decide))
      trace s ∧
    Private thirdByteHost readers s 1 2 := by
  have hrun := execution_of_guardedRun State.running (turn thirdByteHost readers) start
    (twoUsers [97] [98] (by decide) (by decide)) (by decide +kernel)
  refine ⟨_, _, hrun, (private_iff_hash_ne hrun rfl (by decide) (by decide +kernel)
    (twoUsers_notReused [97] [98] (by decide) (by decide))
    ⟨_, List.mem_cons_self, _, rfl, rfl, rfl, rfl, by decide⟩
    ⟨_, List.mem_cons_of_mem _ List.mem_cons_self, _, rfl, rfl, rfl, rfl, by decide⟩
    (by decide +kernel) (by decide +kernel)).mpr (by decide +kernel)⟩

/-- The users `ab` and `ac`, whose paths hash together: the second client is mapped to the first
user's FIFO and is sent what comes out of it. -/
theorem users_share_fifo : ∃ trace s,
    Execution (Step thirdByteHost readers) start
      (twoUsers [97, 98] [97, 99] (by decide) (by decide)) trace s ∧
    Along DescriptorCall.after DescriptorCall.Fresh [] (descriptors trace) ∧
    NotReused (twoUsers [97, 98] [97, 99] (by decide) (by decide)) ∧
    find s.clients 1 = some 5 ∧ find s.clients 2 = some 5 ∧ dataTo 2 trace = [[120]] := by
  refine ⟨_, _, execution_of_guardedRun _ _ _ _ (by decide +kernel), ?_, twoUsers_notReused _ _ _ _,
    ?_, ?_, ?_⟩
  all_goals decide +kernel

end WfifoPrivacy
