import TunnelPublishers.WfifoFanout

/-!
# Everything the FIFO service says and writes

From the messages and the chunks of a run, with the mode, follow all the frames to
each client and all the writes to FIFOs. Messages other than SUBSCRIBE and
UNSUBSCRIBE matter here too, so a run is logged with all of them.
-/
namespace WfifoTranscripts

open ByteOrder FiniteMaps FiniteMap TunnelFraming ExecutionTraces KernelTables WfifoService
  WfifoPrivacy WfifoFanout

/-- A message comes with the descriptor that `init_fifo` gives for it, if it is a SUBSCRIBE. -/
inductive Deed where
  | message (m : TunnelMsg) (ffd : ℤ)
  | did (event : Event)
  deriving DecidableEq, Repr

/-- What a deed means for who is mapped where. -/
def Deed.acts : Deed → List Act
  | .message m ffd =>
    if m.header.type = CHANNEL_SUBSCRIBE then [.subscribed m.header.clientId ffd]
    else if m.header.type = CHANNEL_UNSUBSCRIBE then [.left m.header.clientId]
    else []
  | .did e => [.did e]

variable {M : Type → Type → Type} [FiniteMap M]

def arrival (A : Antd) (x : Args) (s : State M) (p : Pass) : List Deed :=
  match p.selected with
  | .message i => [.message i.request (initFifo A s.fifoHandles p.opening x.base (user i)).1]
  | _ => []

/-- What happens in a turn, in order. -/
def deeds (A : Antd) (x : Args) (s : State M) (p : Pass) : List Deed :=
  arrival A x s p ++ (turn A x s p).2.map .did

theorem acts_did (out : List Event) : (out.map Deed.did).flatMap Deed.acts = out.map .did := by
  rw [List.flatMap_map, List.map_eq_flatMap]
  rfl

theorem acts_deeds (A : Antd) (x : Args) (s : State M) (p : Pass) :
    (deeds A x s p).flatMap Deed.acts = log A x s p := by
  rw [deeds, List.flatMap_append, acts_did, log]
  congr 1
  unfold arrival taken
  cases p.selected with
  | message i => exact List.append_nil _
  | failed | timeout | unreadable | fifos => rfl

/-- Where the clients are mapped after one more deed. -/
def mapping (table : UInt16 → Bool × Option ℤ) (deed : Deed) (c : UInt16) : Bool × Option ℤ :=
  deed.acts.foldl (follow c) (table c)

theorem foldl_mapping (table : UInt16 → Bool × Option ℤ) (ds : List Deed) (c : UInt16) :
    ds.foldl mapping table c = (ds.flatMap Deed.acts).foldl (follow c) (table c) := by
  induction ds generalizing table with
  | nil => rfl
  | cons d ds ih => rw [List.foldl_cons, ih, List.flatMap_cons, List.foldl_append, mapping]

/-! ### What is due -/

/-- The frames a deed owes a client: a chunk of the FIFO it is mapped to, and the answer to DATA
that may not be written. -/
def owed (mode : UInt8) (c : UInt16) (table : UInt16 → Bool × Option ℤ) :
    Deed → List (UInt8 × List UInt8)
  | .message m _ =>
    if m.header.type = CHANNEL_DATA ∧ m.header.clientId = c ∧ mode ≠ 119 then
      [(CHANNEL_ERROR, text "Channel is read only")]
    else []
  | .did (.read fd (some bytes)) => if (table c).2 = some fd then [(CHANNEL_DATA, bytes)] else []
  | .did _ => []

/-- The writes a deed owes: the bytes of DATA, to the FIFO its client is mapped to. -/
def fed (mode : UInt8) (table : UInt16 → Bool × Option ℤ) : Deed → List (ℤ × List UInt8)
  | .message m _ =>
    if m.header.type = CHANNEL_DATA ∧ mode = 119 then
      match (table m.header.clientId).2 with
      | none => []
      | some fd => if fd ≠ 0 ∧ 0 < m.header.size.toNat then [(fd, m.payload)] else []
    else []
  | .did _ => []

/-- The frames to a client but for CLOSE, which goes to the hotline itself. -/
def framesTo (c : UInt16) (trace : List Event) : List (UInt8 × List UInt8) :=
  trace.filterMap fun
    | .sent m =>
      if m.header.type ≠ CHANNEL_CLOSE ∧ m.header.clientId = c then some (m.header.type, m.payload)
      else none
    | _ => none

def writes (trace : List Event) : List (ℤ × List UInt8) :=
  trace.filterMap fun
    | .wrote fd bytes _ => some (fd, bytes)
    | _ => none

section Tables

variable {mode : UInt8} {c : UInt16} {table : UInt16 → Bool × Option ℤ}

theorem due_owed (mode : UInt8) (c : UInt16) (table : UInt16 → Bool × Option ℤ)
    (out : List Event) :
    due mapping (owed mode c) table (out.map .did) =
      match (table c).2 with
      | none => []
      | some fd => (readsOf fd out).map fun bytes => (CHANNEL_DATA, bytes) := by
  induction out with
  | nil => cases (table c).2 <;> rfl
  | cons e out ih =>
    have hnext : mapping table (.did e) = table := rfl
    rw [List.map_cons, due, hnext, ih]
    cases hfd : (table c).2 with
    | none =>
      cases e with
      | read fd bytes => cases bytes <;> simp [owed, hfd]
      | _ => rfl
    | some fd =>
      cases e with
      | read fd' bytes =>
        cases bytes with
        | none => rfl
        | some bytes =>
          by_cases he : fd' = fd
          · subst he
            simp [owed, hfd, readsOf]
          · simp [owed, hfd, readsOf, he, Ne.symm he]
      | _ => rfl

theorem due_fed (mode : UInt8) (table : UInt16 → Bool × Option ℤ) (out : List Event) :
    due mapping (fed mode) table (out.map .did) = [] := by
  induction out with
  | nil => rfl
  | cons e out ih => exact ih

end Tables

/-! ### Turns -/

/-- What a turn takes in and puts out, as far as bytes cross the process boundary. -/
inductive Spoken (x : Args) (s : State M) : List Deed → List Event → Prop where
  | quiet {arrived out} : (∀ d ∈ arrived, ∃ m ffd, d = .message m ffd ∧
      m.header.type ≠ CHANNEL_DATA) → (∀ e ∈ out, ¬ Transfer e) → Spoken x s arrived out
  | wrote {m ffd fd result} : x.mode = 119 → m.header.type = CHANNEL_DATA →
      find s.clients m.header.clientId = some fd → fd ≠ 0 → 0 < m.header.size.toNat →
      Spoken x s [.message m ffd] [.wrote fd m.payload result]
  | ignored {m ffd} : x.mode = 119 → m.header.type = CHANNEL_DATA →
      (∀ fd, find s.clients m.header.clientId = some fd → ¬ (fd ≠ 0 ∧ 0 < m.header.size.toNat)) →
      Spoken x s [.message m ffd] []
  | refused {m ffd channelId} : x.mode ≠ 119 → m.header.type = CHANNEL_DATA →
      Spoken x s [.message m ffd]
        [.sent (frame CHANNEL_ERROR channelId m.header.clientId (text "Channel is read only"))]
  | forwarded {out} : x.mode = 114 →
      (∀ e ∈ out, (∃ fd bytes, e = .read fd bytes) ∨
        ∃ m : TunnelMsg, e = .sent m ∧ m.header.type = CHANNEL_DATA) →
      (∀ c, dataTo c out = match find s.clients c with
        | none => []
        | some fd => readsOf fd out) →
      Spoken x s [] out

section Turns

variable {A : Antd} {x : Args} {s : State M}

theorem monitorFifoHandles_kinds (A : Antd) (answers : Int32 → Answers) (clients : M UInt16 ℤ)
    {msg : TunnelMsgH} (hmsg : msg.type = CHANNEL_DATA) (node : Int32 × ℤ) :
    (monitorFifoHandles A answers clients msg node).1.type = CHANNEL_DATA ∧
      ∀ e ∈ (monitorFifoHandles A answers clients msg node).2, (∃ fd bytes, e = .read fd bytes) ∨
        ∃ m : TunnelMsg, e = .sent m ∧ m.header.type = CHANNEL_DATA := by
  by_cases hskip : node.2 = 0 ∨ (answers node.1).ready = false
  · simp [monitorFifoHandles, hskip, hmsg]
  simp only [monitorFifoHandles, hskip, ↓reduceIte]
  cases hread : (answers node.1).read with
  | none => exact ⟨hmsg, fun e he => .inl ⟨node.2, none, List.mem_singleton.mp he⟩⟩
  | some bytes =>
    obtain ⟨htype, -, hout⟩ := sendData_out (not_or.mp hskip).1 (bytes.take A.BUFFLEN)
      { msg with size := UInt32.ofNat (bytes.take A.BUFFLEN).length } (entries clients)
    refine ⟨htype.trans hmsg, fun e he => ?_⟩
    rcases List.mem_cons.mp he with rfl | he
    · exact .inl ⟨_, _, rfl⟩
    · rw [hout] at he
      obtain ⟨n, -, rfl⟩ := List.mem_map.mp he
      exact .inr ⟨_, rfl, hmsg⟩

theorem monitorFifos_kinds (A : Antd) (x : Args) (s : State M) (p : Pass) :
    ∀ e ∈ (monitorFifos A x s p).2, (∃ fd bytes, e = .read fd bytes) ∨
      ∃ m : TunnelMsg, e = .sent m ∧ m.header.type = CHANNEL_DATA := by
  have hvisit : ∀ (nodes : List (Int32 × ℤ)) (msg : TunnelMsgH), msg.type = CHANNEL_DATA →
      ∀ e ∈ (visitAll (monitorFifoHandles A p.answers s.clients) msg nodes).2,
        (∃ fd bytes, e = .read fd bytes) ∨
          ∃ m : TunnelMsg, e = .sent m ∧ m.header.type = CHANNEL_DATA := by
    intro nodes
    induction nodes with
    | nil => simp [visitAll]
    | cons n nodes ih =>
      intro msg hmsg e he
      obtain ⟨htype, hkinds⟩ := monitorFifoHandles_kinds A p.answers s.clients hmsg n
      rcases List.mem_append.mp he with he | he
      · exact hkinds e he
      · exact ih _ htype e he
  unfold monitorFifos
  split
  · exact hvisit _ _ rfl
  · simp

theorem turn_spoken (A : Antd) (x : Args) (s : State M) (p : Pass) :
    Spoken x s (arrival A x s p) (turn A x s p).2 := by
  have hdata := turn_dataTo (A := A) (x := x) (s := s) p
  simp only [turn, arrival] at hdata ⊢
  cases hsel : p.selected with
  | failed | timeout | unreadable => exact .quiet (by simp) (by simp)
  | fifos =>
    simp only [hsel, monitorFifos_clients] at hdata ⊢
    by_cases hmode : x.mode = 114
    · exact .forwarded hmode (monitorFifos_kinds A x s p) hdata
    · refine .quiet (by simp) ?_
      simp [monitorFifos, hmode]
  | message i =>
    simp only [handleMessage]
    split_ifs with hsub hun hdat
    · refine .quiet ?_ ?_
      · intro d hd
        exact ⟨_, _, List.mem_singleton.mp hd, by rw [hsub]; decide⟩
      · rw [channelSubscribe_out]
        exact initFifo_no_transfer s.fifoHandles p.opening x.base (user i)
    · refine .quiet ?_ (by simp)
      intro d hd
      exact ⟨_, _, List.mem_singleton.mp hd, by rw [hun]; decide⟩
    · rw [channelData]
      split
      · next hmode =>
        cases hc : find s.clients i.client with
        | none =>
          dsimp only
          exact .ignored hmode hdat (fun fd hfd => by rw [hc] at hfd; cases hfd)
        | some fd =>
          dsimp only
          split_ifs with hfd
          · exact .wrote hmode hdat hc hfd.1 hfd.2
          · refine .ignored hmode hdat fun fd' hfd' => ?_
            rw [hc] at hfd'
            rwa [← Option.some.inj hfd']
      · next hmode => exact .refused hmode hdat
    · refine .quiet ?_ (by simp)
      intro d hd
      exact ⟨_, _, List.mem_singleton.mp hd, hdat⟩

variable {arrived : List Deed} {out : List Event} {table : UInt16 → Bool × Option ℤ}

theorem framesTo_quiet (h : ∀ e ∈ out, ¬ Transfer e) (c : UInt16) : framesTo c out = [] := by
  apply List.filterMap_eq_nil_iff.mpr
  intro e he
  cases e with
  | sent m => exact (h _ he trivial).elim
  | _ => rfl

theorem framesTo_sent (c : UInt16) {f : TunnelMsg} (h : f.header.type ≠ CHANNEL_CLOSE) :
    framesTo c [.sent f] = if f.header.clientId = c then [(f.header.type, f.payload)] else [] := by
  by_cases hc : f.header.clientId = c <;> simp [framesTo, h, hc]

theorem writes_quiet (h : ∀ e ∈ out, ¬ Transfer e) : writes out = [] := by
  apply List.filterMap_eq_nil_iff.mpr
  intro e he
  cases e with
  | wrote fd bytes result => exact (h _ he trivial).elim
  | _ => rfl

/-- Messages that are no DATA owe nothing. -/
theorem due_quiet {β : Type} {owes : (UInt16 → Bool × Option ℤ) → Deed → List β}
    (howes : ∀ table m ffd, m.header.type ≠ CHANNEL_DATA → owes table (.message m ffd) = [])
    (h : ∀ d ∈ arrived, ∃ m ffd, d = .message m ffd ∧ m.header.type ≠ CHANNEL_DATA)
    (table : UInt16 → Bool × Option ℤ) : due mapping owes table arrived = [] := by
  induction arrived generalizing table with
  | nil => rfl
  | cons d arrived ih =>
    obtain ⟨m, ffd, rfl, hm⟩ := h d List.mem_cons_self
    rw [due, howes table m ffd hm, ih (fun d hd => h d (List.mem_cons_of_mem _ hd)),
      List.nil_append]

/-- The frames to a client among frames that all carry chunks. -/
theorem framesTo_chunks (h : ∀ e ∈ out, (∃ fd bytes, e = .read fd bytes) ∨
    ∃ m : TunnelMsg, e = .sent m ∧ m.header.type = CHANNEL_DATA) (c : UInt16) :
    framesTo c out = (dataTo c out).map fun bytes => (CHANNEL_DATA, bytes) := by
  rw [framesTo, dataTo, List.map_filterMap]
  apply List.filterMap_congr
  intro e he
  rcases h e he with ⟨fd, bytes, rfl⟩ | ⟨m, rfl, htype⟩
  · rfl
  · have hclose : CHANNEL_DATA ≠ CHANNEL_CLOSE := by decide
    by_cases hc : m.header.clientId = c <;> simp [htype, hc, hclose]

theorem mapping_data {m : TunnelMsg} (h : m.header.type = CHANNEL_DATA) (ffd : ℤ)
    (table : UInt16 → Bool × Option ℤ) : mapping table (.message m ffd) = table := by
  funext c
  rw [mapping, Deed.acts, if_neg (by rw [h]; decide), if_neg (by rw [h]; decide)]
  rfl

/-- What a DATA message owes, before what is done about it. -/
theorem due_data {β : Type} {owes : (UInt16 → Bool × Option ℤ) → Deed → List β} {m : TunnelMsg}
    (h : m.header.type = CHANNEL_DATA) (ffd : ℤ) (table : UInt16 → Bool × Option ℤ)
    (ds : List Deed) :
    due mapping owes table (.message m ffd :: ds) =
      owes table (.message m ffd) ++ due mapping owes table ds := by
  rw [due, mapping_data h]

theorem spoken_frames (h : Spoken x s arrived out)
    (ht : ∀ c, find s.clients c = (table c).2) (c : UInt16) :
    framesTo c out = due mapping (owed x.mode c) table (arrived ++ out.map .did) := by
  cases h with
  | quiet harrived hout =>
    rw [framesTo_quiet hout, due_append,
      due_quiet (fun table m ffd hm => if_neg fun hd => hm hd.1) harrived, due_owed]
    cases hfd : (List.foldl mapping table arrived c).2 with
    | none => rfl
    | some fd =>
      dsimp only
      rw [(no_transfer_flow hout c fd).2]
      rfl
  | @wrote m ffd fd result hmode htype =>
    have hnone : owed x.mode c table (.message m ffd) = [] := if_neg fun hd => hd.2.2 hmode
    rw [List.singleton_append, due_data htype, hnone, due_owed]
    cases (table c).2 <;> rfl
  | @ignored m ffd hmode htype =>
    have hnone : owed x.mode c table (.message m ffd) = [] := if_neg fun hd => hd.2.2 hmode
    rw [List.singleton_append, due_data htype, hnone]
    rfl
  | @refused m ffd channelId hmode htype =>
    have hsent : framesTo c [.sent (frame CHANNEL_ERROR channelId m.header.clientId
        (text "Channel is read only"))] = owed x.mode c table (.message m ffd) := by
      rw [framesTo_sent c (by simp [frame, CHANNEL_ERROR, CHANNEL_CLOSE]),
        frame_payload (by decide)]
      by_cases hc : m.header.clientId = c <;> simp [owed, htype, hmode, hc, frame]
    rw [List.singleton_append, due_data htype, hsent, due_owed]
    cases (table c).2 <;> exact (List.append_nil _).symm
  | forwarded hmode hkinds hdata =>
    rw [List.nil_append, due_owed, framesTo_chunks hkinds, hdata c, ht c]
    cases (table c).2 <;> rfl

theorem spoken_writes (h : Spoken x s arrived out)
    (ht : ∀ c, find s.clients c = (table c).2) :
    writes out = due mapping (fed x.mode) table (arrived ++ out.map .did) := by
  cases h with
  | quiet harrived hout =>
    rw [writes_quiet hout, due_append,
      due_quiet (fun table m ffd hm => if_neg fun hd => hm hd.1) harrived, due_fed]
    rfl
  | @wrote m ffd fd result hmode htype hc hfd hsize =>
    rw [List.singleton_append, due_data htype, due_fed]
    simp [fed, htype, hmode, ← ht, hc, hfd, hsize, writes]
  | @ignored m ffd hmode htype hno =>
    rw [List.singleton_append, due_data htype, due_fed]
    cases hc : (table m.header.clientId).2 with
    | none => simp [fed, htype, hmode, hc, writes]
    | some fd =>
      have hnot := hno fd ((ht _).trans hc)
      simp only [fed, htype, hmode, hc, hnot]
      rfl
  | @refused m ffd channelId hmode htype =>
    rw [List.singleton_append, due_data htype, due_fed]
    simp [fed, hmode, writes]
  | forwarded hmode hkinds hdata =>
    rw [List.nil_append, due_fed]
    apply List.filterMap_eq_nil_iff.mpr
    intro e he
    rcases hkinds e he with ⟨fd, bytes, rfl⟩ | ⟨m, rfl, -⟩ <;> rfl

theorem spoken_reads (h : Spoken x s arrived out) (hmode : x.mode ≠ 114) (fd : ℤ)
    (bytes : Option (List UInt8)) : .read fd bytes ∉ out := by
  cases h with
  | quiet _ hout => exact fun hmem => hout _ hmem trivial
  | wrote | ignored | refused => simp
  | forwarded hread => exact (hmode hread).elim

end Turns

/-! ### Runs to the exit -/

theorem framesTo_append (c : UInt16) (a b : List Event) :
    framesTo c (a ++ b) = framesTo c a ++ framesTo c b :=
  List.filterMap_append

theorem writes_append (a b : List Event) : writes (a ++ b) = writes a ++ writes b :=
  List.filterMap_append

theorem framesTo_farewells (c channelId : UInt16) {clients : List UInt16} (h : clients.Nodup) :
    framesTo c (clients.map fun k => .sent (frame CHANNEL_UNSUBSCRIBE channelId k [])) =
      if c ∈ clients then [(CHANNEL_UNSUBSCRIBE, [])] else [] := by
  induction clients with
  | nil => rfl
  | cons k clients ih =>
    obtain ⟨hk, hrest⟩ := List.nodup_cons.mp h
    rw [List.map_cons, ← List.singleton_append, framesTo_append, ih hrest,
      framesTo_sent c (by simp [frame, CHANNEL_UNSUBSCRIBE, CHANNEL_CLOSE]),
      frame_payload (by simp)]
    by_cases hc : k = c
    · subst hc
      simp [frame, hk]
    · simp [frame, hc, Ne.symm hc]

/-- Who is mapped is told at the exit, once, and nothing is written any more. -/
theorem shutdown_said (s : State M) (stack : TunnelMsgH) :
    (∀ c, framesTo c (shutdown s stack) =
      if (find s.clients c).isSome then [(CHANNEL_UNSUBSCRIBE, [])] else []) ∧
    writes (shutdown s stack) = [] := by
  have hclosed : ∀ e ∈ (entries s.fifoHandles).flatMap
      (fun n => if 0 < n.2 then [Event.closed n.2] else []), ¬ Transfer e := by
    intro e he
    obtain ⟨n, -, he⟩ := List.mem_flatMap.mp he
    split at he
    · rw [List.mem_singleton.mp he]
      exact id
    · cases he
  constructor
  · intro c
    have hmem : c ∈ (entries s.clients).map Prod.fst ↔ (find s.clients c).isSome := by
      rw [List.mem_map, Option.isSome_iff_exists]
      constructor
      · rintro ⟨⟨c, fd⟩, hn, rfl⟩
        exact ⟨fd, mem_entries.mp hn⟩
      · rintro ⟨fd, hf⟩
        exact ⟨(c, fd), mem_entries.mpr hf, rfl⟩
    have hfarewells := framesTo_farewells c stack.channelId (nodup_keys s.clients)
    rw [List.map_map] at hfarewells
    rw [shutdown, framesTo_append, framesTo_append, framesTo_quiet hclosed]
    simp only [← hmem, ← hfarewells, List.append_nil]
    exact List.append_nil _
  · rw [shutdown, writes_append, writes_append, writes_quiet hclosed, List.append_nil]
    have hsent : writes ((entries s.clients).map
        fun n => .sent (frame CHANNEL_UNSUBSCRIBE stack.channelId n.1 [])) = [] := by
      apply List.filterMap_eq_nil_iff.mpr
      intro e he
      obtain ⟨n, -, rfl⟩ := List.mem_map.mp he
      rfl
    rw [hsent]
    rfl

abbrev Told (A : Antd) (x : Args) : State M → Pass → List Deed → State M → Prop :=
  Guarded State.running fun s p => ((turn A x s p).1, deeds A x s p)

def happened (ds : List Deed) : List Event :=
  ds.filterMap fun
    | .did e => some e
    | .message _ _ => none

theorem happened_append (a b : List Deed) : happened (a ++ b) = happened a ++ happened b :=
  List.filterMap_append

theorem happened_deeds (A : Antd) (x : Args) (s : State M) (p : Pass) :
    happened (deeds A x s p) = (turn A x s p).2 := by
  have harrival : happened (arrival A x s p) = [] := by
    unfold arrival
    cases p.selected <;> rfl
  rw [deeds, happened_append, harrival]
  simp [happened, List.filterMap_map]

/-- Nobody is mapped. -/
def nowhere : UInt16 → Bool × Option ℤ := fun _ => (false, none)

/-- A client subscribes again only after an UNSUBSCRIBE. -/
abbrev Orderly (ds : List Deed) : Prop := ∀ c, Once c (ds.flatMap Deed.acts)

theorem turn_mapping {A : Antd} {x : Args} {u : State M} {past : List Deed} (p : Pass)
    (hshows : ∀ c, find u.clients c = (past.foldl mapping nowhere c).2)
    (horderly : Orderly (past ++ deeds A x u p)) (c : UInt16) :
    find (turn A x u p).1.clients c =
      ((deeds A x u p).foldl mapping (past.foldl mapping nowhere) c).2 := by
  have hanew := horderly c
  rw [List.flatMap_append, Once, along_append, acts_deeds] at hanew
  have hoff := mapped_subscribed (past.flatMap Deed.acts) c
  have hclient := hshows c
  rw [foldl_mapping] at hclient
  rw [foldl_mapping, acts_deeds, foldl_mapping]
  change find u.clients c = ((past.flatMap Deed.acts).foldl (follow c) (false, none)).2 at hclient
  change _ = ((log A x u p).foldl (follow c)
    ((past.flatMap Deed.acts).foldl (follow c) (false, none))).2
  generalize (past.flatMap Deed.acts).foldl (follow c) (false, none) = table at hanew hoff hclient ⊢
  obtain ⟨on, fd⟩ := table
  subst hclient
  exact (turn_due p hoff hanew.2).1

/-- Whatever else is owed and seen of the turns, it is seen of a run if each turn shows it. -/
theorem run_owed {β : Type} {A : Antd} {x : Args} {answer : TunnelMsgH} {a : Opening}
    {passes : List Pass} {ds : List Deed} {s : State M}
    (hrun : Execution (Told A x) (initial A x answer a).1 passes ds s) (horderly : Orderly ds)
    (seen : List Event → List β) (owes : (UInt16 → Bool × Option ℤ) → Deed → List β)
    (happend : ∀ a b, seen (a ++ b) = seen a ++ seen b)
    (hturn : ∀ (u : State M) (p : Pass) table, (∀ c, find u.clients c = (table c).2) →
      seen (turn A x u p).2 = due mapping owes table (deeds A x u p)) :
    (∀ c, find s.clients c = (ds.foldl mapping nowhere c).2) ∧
      seen (happened ds) = due mapping owes nowhere ds := by
  refine hrun.delivers (fun (s : State M) table => ∀ c, find s.clients c = (table c).2)
    (fun ds => seen (happened ds)) mapping owes Orderly
    (fun a b => by rw [happened_append, happend]) ?_ ?_ ?_ horderly
  · intro a b h c
    have hboth := h c
    rw [List.flatMap_append] at hboth
    exact (along_append.mp hboth).1
  · rintro u past p out v hshows horderly ⟨-, hstep⟩
    obtain ⟨rfl, rfl⟩ := Prod.mk.inj hstep
    refine ⟨turn_mapping p hshows horderly, ?_⟩
    rw [happened_deeds]
    exact hturn u p _ hshows
  · intro c
    simp [initial, nowhere]

/-- In every run to the exit in which clients subscribe only anew, the messages, the chunks read and
the mode decide everything the service says and writes. Each client is sent the chunks of the FIFO
it is mapped to, an error for each DATA message where writing is off, and one farewell if it is
still mapped. What is written is the payloads of DATA messages where writing is on, each to the
FIFO of its client. Nothing is read unless the mode is to read. -/
theorem transcripts_exact {A : Antd} {x : Args} {answer : TunnelMsgH} {a : Opening}
    {passes : List Pass} {ds : List Deed} {s : State M}
    (hrun : Execution (Told A x) (initial A x answer a).1 passes ds s) (horderly : Orderly ds)
    (stack : TunnelMsgH) :
    (∀ c, framesTo c (happened ds ++ shutdown s stack) =
      due mapping (owed x.mode c) nowhere ds ++
        if (ds.foldl mapping nowhere c).2.isSome then [(CHANNEL_UNSUBSCRIBE, [])] else []) ∧
    writes (happened ds ++ shutdown s stack) = due mapping (fed x.mode) nowhere ds ∧
    (x.mode ≠ 114 → ∀ fd bytes, .read fd bytes ∉ happened ds) := by
  obtain ⟨hbye, hquiet⟩ := shutdown_said s stack
  obtain ⟨hmapped, hwrites⟩ := run_owed hrun horderly writes (fed x.mode) writes_append
    fun u p table h => spoken_writes (turn_spoken A x u p) h
  refine ⟨fun c => ?_, ?_, fun hmode => ?_⟩
  · have hframes := (run_owed hrun horderly (framesTo c) (owed x.mode c) (framesTo_append c)
      fun u p table h => spoken_frames (turn_spoken A x u p) h c).2
    rw [framesTo_append, hframes, hbye, hmapped]
  · rw [writes_append, hwrites, hquiet, List.append_nil]
  · refine hrun.history (I := fun _ ds => ∀ fd bytes, .read fd bytes ∉ happened ds) ?_
      (by simp [happened])
    rintro u past p out v hpast ⟨-, hstep⟩ fd bytes hmem
    obtain ⟨rfl, rfl⟩ := Prod.mk.inj hstep
    rw [happened_append, happened_deeds] at hmem
    rcases List.mem_append.mp hmem with hmem | hmem
    · exact hpast fd bytes hmem
    · exact spoken_reads (turn_spoken A x u p) hmode fd bytes hmem

/-- Only who subscribes can do so twice. -/
theorem once_of_absent {c : UInt16} {acts : List Act} (h : ∀ ffd, .subscribed c ffd ∉ acts)
    (table : Bool × Option ℤ) : Along (follow c) (Anew c) table acts := by
  induction acts generalizing table with
  | nil => trivial
  | cons act acts ih =>
    refine ⟨?_, ih (fun ffd hmem => h ffd (List.mem_cons_of_mem _ hmem)) _⟩
    cases act with
    | subscribed c' ffd =>
      rintro rfl
      exact (h ffd List.mem_cons_self).elim
    | left | did => trivial

theorem data_known : CHANNEL_DATA ≤ 7 := by decide

theorem user_small : [(97 : UInt8)].length < 2 ^ 32 := one_small

theorem letter_small : [(98 : UInt8)].length < 2 ^ 32 := one_small

/-- Client 1 subscribes, sends a letter although the FIFOs are to read, and is sent a chunk. -/
def onlyReading : List Pass :=
  [quiet 5 (subscribe 1 [97] user_small),
    quiet 6 (.message (.plain CHANNEL_DATA 1 [98] data_known letter_small)), quiet 7 .fifos]

def onlyRead : State AssocList × List Deed :=
  visitAll (fun s p => ((turn thirdByteHost readers s p).1, deeds thirdByteHost readers s p)) start
    onlyReading

theorem onlyRead_orderly : Orderly onlyRead.2 := by
  intro c
  by_cases hc : c = 1
  · subst hc
    decide +kernel
  · have hacts : onlyRead.2.flatMap Deed.acts =
        .subscribed 1 5 :: (happened onlyRead.2).map .did := by decide +kernel
    refine once_of_absent (fun ffd hmem => hc ?_) _
    rw [hacts] at hmem
    rcases List.mem_cons.mp hmem with hact | hact
    · exact (Act.subscribed.inj hact).1
    · obtain ⟨e, -, he⟩ := List.mem_map.mp hact
      cases he

theorem transcripts_exact_one_client :
    Execution (Told thirdByteHost readers) start onlyReading onlyRead.2 onlyRead.1 ∧
    framesTo 1 (happened onlyRead.2 ++ shutdown onlyRead.1 ⟨0, 0, 0, 0⟩) =
      [(CHANNEL_ERROR, text "Channel is read only"), (CHANNEL_DATA, [120]),
        (CHANNEL_UNSUBSCRIBE, [])] := by
  have hrun : Execution (Told thirdByteHost readers) start onlyReading onlyRead.2 onlyRead.1 :=
    execution_of_guardedRun State.running _ start onlyReading (by decide +kernel)
  exact ⟨hrun, ((transcripts_exact hrun onlyRead_orderly ⟨0, 0, 0, 0⟩).1 1).trans
    (by decide +kernel)⟩

end WfifoTranscripts
