import TunnelPublishers.WfifoDescriptors

/-!
# Who gets what is read from a FIFO

A client that subscribes anew is mapped to the descriptor `init_fifo` gives it
and is sent every chunk read from there until it leaves, once and in order.
-/
namespace WfifoFanout

open ByteOrder FiniteMaps FiniteMap TunnelFraming ExecutionTraces KernelTables WfifoService
  WfifoPrivacy WfifoDescriptors

/-- A client subscribes and `init_fifo` answers, a client leaves, or an event happens. -/
inductive Act where
  | subscribed (c : UInt16) (ffd : ℤ)
  | left (c : UInt16)
  | did (event : Event)
  deriving DecidableEq, Repr

def events (acts : List Act) : List Event :=
  acts.filterMap fun
    | .did event => some event
    | _ => none

theorem events_append (a b : List Act) : events (a ++ b) = events a ++ events b :=
  List.filterMap_append

@[simp] theorem events_did (out : List Event) : events (out.map .did) = out := by
  simp [events, List.filterMap_map]

variable {M : Type → Type → Type} [FiniteMap M]

/-- What a turn takes from the hotline. -/
def taken (A : Antd) (x : Args) (s : State M) (p : Pass) : List Act :=
  match p.selected with
  | .message i =>
    if i.request.header.type = CHANNEL_SUBSCRIBE then
      [.subscribed i.client (initFifo A s.fifoHandles p.opening x.base (user i)).1]
    else if i.request.header.type = CHANNEL_UNSUBSCRIBE then [.left i.client]
    else []
  | _ => []

/-- What happens in a turn, in order. -/
def log (A : Antd) (x : Args) (s : State M) (p : Pass) : List Act :=
  taken A x s p ++ (turn A x s p).2.map .did

abbrev Logged (A : Antd) (x : Args) : State M → Pass → List Act → State M → Prop :=
  Guarded State.running fun s p => ((turn A x s p).1, log A x s p)

theorem events_log (A : Antd) (x : Args) (s : State M) (p : Pass) :
    events (log A x s p) = (turn A x s p).2 := by
  have htaken : events (taken A x s p) = [] := by
    unfold taken
    split
    · split_ifs <;> rfl
    · rfl
  rw [log, events_append, htaken, events_did, List.nil_append]

/-- Logged runs are runs of the loop. -/
theorem execution_events {A : Antd} {x : Args} {s s' : State M} {passes : List Pass}
    {acts : List Act} (h : Execution (Logged A x) s passes acts s') :
    Execution (Step A x) s passes (events acts) s' :=
  h.unlogged (events_log A x)

/-- Every run of the loop has a log with its events. -/
theorem execution_logged {A : Antd} {x : Args} {s s' : State M} {passes : List Pass}
    {trace : List Event} (h : Execution (Step A x) s passes trace s') :
    ∃ acts, Execution (Logged A x) s passes acts s' ∧ events acts = trace :=
  h.logged (events_log A x)

/-! ### What is due -/

/-- Whether the client has subscribed and not left since, and where it is mapped, after one more
act. -/
def follow (c : UInt16) (table : Bool × Option ℤ) : Act → Bool × Option ℤ
  | .subscribed c' ffd =>
    if c' = c then (true, if ffd ≠ -1 then some ffd else table.2) else table
  | .left c' => if c' = c then (false, none) else table
  | .did _ => table

/-- The client subscribes only if it has not, or has left since. -/
def Anew (c : UInt16) (table : Bool × Option ℤ) : Act → Prop
  | .subscribed c' _ => c' = c → table.1 = false
  | _ => True

instance (c : UInt16) (table : Bool × Option ℤ) : DecidablePred (Anew c table)
  | .subscribed c' _ => inferInstanceAs (Decidable (c' = c → table.1 = false))
  | .left _ => instDecidableTrue
  | .did _ => instDecidableTrue

/-- The client subscribes again only after an UNSUBSCRIBE. -/
abbrev Once (c : UInt16) (acts : List Act) : Prop := Along (follow c) (Anew c) (false, none) acts

/-- A chunk is due, under its size, to who is mapped to the descriptor it was read from. -/
def chunk (table : Bool × Option ℤ) : Act → List (ℕ × List UInt8)
  | .did (.read fd (some bytes)) => if table.2 = some fd then [(bytes.length, bytes)] else []
  | _ => []

/-- The sizes in the headers and the payloads of the DATA frames to a client. -/
def framesTo (c : UInt16) (trace : List Event) : List (ℕ × List UInt8) :=
  trace.filterMap fun
    | .sent m =>
      if m.header.type = CHANNEL_DATA ∧ m.header.clientId = c then
        some (m.header.size.toNat, m.payload)
      else none
    | _ => none

section Tables

variable {c : UInt16} {table : Bool × Option ℤ}

/-- Events leave the table alone, and owe what is read from the client's descriptor. -/
theorem due_did (c : UInt16) (table : Bool × Option ℤ) (out : List Event) :
    (out.map Act.did).foldl (follow c) table = table ∧
      due (follow c) chunk table (out.map .did) =
        match table.2 with
        | none => []
        | some fd => (readsOf fd out).map fun bytes => (bytes.length, bytes) := by
  induction out with
  | nil =>
    refine ⟨rfl, ?_⟩
    cases table.2 <;> rfl
  | cons e out ih =>
    refine ⟨ih.1, ?_⟩
    rw [List.map_cons, due, follow, ih.2]
    cases hfd : table.2 with
    | none =>
      cases e with
      | read fd bytes => cases bytes <;> simp [chunk, hfd]
      | _ => rfl
    | some fd =>
      cases e with
      | read fd' bytes =>
        cases bytes with
        | none => rfl
        | some bytes =>
          by_cases he : fd' = fd
          · subst he
            simp [chunk, hfd, readsOf]
          · simp [chunk, hfd, readsOf, he, Ne.symm he]
      | _ => rfl

/-- Who has left or never subscribed is mapped nowhere. -/
theorem mapped_subscribed (acts : List Act) (c : UInt16) :
    (acts.foldl (follow c) (false, none)).1 = false →
      (acts.foldl (follow c) (false, none)).2 = none := by
  have hstep : ∀ (table : Bool × Option ℤ), (table.1 = false → table.2 = none) →
      (acts.foldl (follow c) table).1 = false → (acts.foldl (follow c) table).2 = none := by
    induction acts with
    | nil => exact fun _ h => h
    | cons act acts ih =>
      intro table h
      apply ih
      cases act with
      | subscribed c' ffd =>
        simp only [follow]
        split
        · simp
        · exact h
      | left c' =>
        simp only [follow]
        split
        · simp
        · exact h
      | did => exact h
  exact hstep (false, none) fun _ => rfl

end Tables

/-! ### Turns -/

section Turns

variable {A : Antd} {x : Args} {s : State M} {c : UInt16}

theorem frame_size {type : UInt8} {channelId clientId : UInt16} {bytes : List UInt8}
    (hsmall : bytes.length < 2 ^ 32) :
    (frame type channelId clientId bytes).header.size.toNat =
      (frame type channelId clientId bytes).payload.length := by
  rw [frame_payload hsmall]
  exact Nat.mod_eq_of_lt hsmall

/-- Chunks go to mapped clients, under their sizes. -/
theorem monitorFifoHandles_sent (A : Antd) (answers : Int32 → Answers) (clients : M UInt16 ℤ)
    (msg : TunnelMsgH) (node : Int32 × ℤ) {m : TunnelMsg}
    (h : .sent m ∈ (monitorFifoHandles A answers clients msg node).2) :
    m.header.size.toNat = m.payload.length ∧ find clients m.header.clientId ≠ none := by
  by_cases hskip : node.2 = 0 ∨ (answers node.1).ready = false
  · simp [monitorFifoHandles, hskip] at h
  simp only [monitorFifoHandles, hskip, ↓reduceIte] at h
  cases hread : (answers node.1).read with
  | none => simp [hread] at h
  | some bytes =>
    have hsmall := A.take_small bytes
    obtain ⟨-, -, hout⟩ := sendData_out (not_or.mp hskip).1 (bytes.take A.BUFFLEN)
      { msg with size := UInt32.ofNat (bytes.take A.BUFFLEN).length } (entries clients)
    simp only [hread, hout, List.mem_cons, reduceCtorEq, false_or, List.mem_map,
      Event.sent.injEq] at h
    obtain ⟨⟨c, fd⟩, hn, rfl⟩ := h
    refine ⟨frame_size hsmall, ?_⟩
    have hfind : find clients c = some fd := mem_entries.mp (List.mem_filter.mp hn).1
    exact hfind ▸ Option.some_ne_none fd

/-- Replies to messages are no DATA frames. -/
theorem handleMessage_sent (p : Pass) (i : Input) {m : TunnelMsg}
    (h : .sent m ∈ (handleMessage A x s p i).2) : m.header.type ≠ CHANNEL_DATA := by
  rw [handleMessage] at h
  split_ifs at h with hsub hun hdata
  · rw [channelSubscribe_out] at h
    exact absurd trivial (initFifo_no_transfer s.fifoHandles p.opening x.base (user i) _ h)
  · cases h
  · rw [channelData] at h
    split at h
    · cases hc : find s.clients i.client with
      | none => simp [hc] at h
      | some fd =>
        simp only [hc] at h
        split_ifs at h <;> simp at h
    · obtain rfl := Event.sent.inj (List.mem_singleton.mp h)
      simp [frame, CHANNEL_ERROR, CHANNEL_DATA]
  · cases h

theorem monitorFifos_clients (A : Antd) (x : Args) (s : State M) (p : Pass) :
    (monitorFifos A x s p).1.clients = s.clients := by
  rw [monitorFifos]
  split <;> rfl

theorem turn_sent (p : Pass) {m : TunnelMsg} (h : .sent m ∈ (turn A x s p).2)
    (htype : m.header.type = CHANNEL_DATA) :
    m.header.size.toNat = m.payload.length ∧
      find (turn A x s p).1.clients m.header.clientId ≠ none := by
  rw [turn] at h ⊢
  cases hsel : p.selected with
  | failed | timeout | unreadable => simp [hsel] at h
  | message i =>
    simp only [hsel] at h
    exact absurd htype (handleMessage_sent p i h)
  | fifos =>
    simp only [hsel] at h ⊢
    rw [monitorFifos_clients]
    simp only [monitorFifos] at h
    split at h
    · have hnode : ∀ msg node, ∀ e ∈ (monitorFifoHandles A p.answers s.clients msg node).2,
          ∀ m : TunnelMsg, e = .sent m →
            m.header.size.toNat = m.payload.length ∧ find s.clients m.header.clientId ≠ none := by
        rintro msg node - he m rfl
        exact monitorFifoHandles_sent A p.answers s.clients msg node he
      exact forall_mem_visitAll hnode _ _ _ h m rfl
    · cases h

theorem framesTo_sized {out : List Event}
    (h : ∀ m, .sent m ∈ out → m.header.type = CHANNEL_DATA → m.header.size.toNat = m.payload.length)
    (c : UInt16) :
    framesTo c out = (dataTo c out).map fun bytes => (bytes.length, bytes) := by
  rw [framesTo, dataTo, List.map_filterMap]
  apply List.filterMap_congr
  intro e he
  cases e with
  | sent m =>
    dsimp only
    split_ifs with hm
    · rw [h m he hm.1]
      rfl
    · rfl
  | _ => rfl

/-- Where the client is mapped after a turn decides what it is sent in it. -/
theorem turn_dataTo (p : Pass) (c : UInt16) :
    dataTo c (turn A x s p).2 =
      match find (turn A x s p).1.clients c with
      | none => []
      | some fd => readsOf fd (turn A x s p).2 := by
  cases hc : find (turn A x s p).1.clients c with
  | none =>
    apply List.filterMap_eq_nil_iff.mpr
    intro e he
    cases e with
    | sent m =>
      dsimp only
      rw [if_neg]
      rintro ⟨htype, rfl⟩
      exact (turn_sent p he htype).2 hc
    | _ => rfl
  | some fd =>
    rw [turn] at hc ⊢
    cases hsel : p.selected with
    | failed | timeout | unreadable => rfl
    | message i => exact (handleMessage_flow p i).1 c fd
    | fifos =>
      simp only [hsel] at hc
      rw [monitorFifos_clients] at hc
      exact monitorFifos_flow p hc

/-- The table follows the client: who is mapped nowhere has never subscribed or has left. -/
theorem turn_follow (p : Pass) {on : Bool} (hoff : on = false → find s.clients c = none)
    (hanew : Along (follow c) (Anew c) (on, find s.clients c) (taken A x s p)) :
    ((taken A x s p).foldl (follow c) (on, find s.clients c)).2 =
      find (turn A x s p).1.clients c := by
  rw [taken, turn]
  cases hsel : p.selected with
  | failed | timeout | unreadable => rfl
  | fifos =>
    simp only [monitorFifos]
    split <;> rfl
  | message i =>
    simp only [taken, hsel] at hanew
    simp only [handleMessage]
    split_ifs at hanew ⊢ with hsub hun hdata
    · have hclient : i.client = c → find s.clients c = none := fun hc => hoff (hanew.1 hc)
      simp only [channelSubscribe, List.foldl_cons, List.foldl_nil, follow]
      by_cases hc : i.client = c
      · have hnone := hclient hc
        rw [if_pos hc]
        split
        · rw [hc, find_insert_absent _ hnone]
        · rfl
      · rw [if_neg hc]
        split
        · exact (find_insert_ne s.clients _ (Ne.symm hc)).symm
        · rfl
    · simp only [List.foldl_cons, List.foldl_nil, follow, find_delete, @eq_comm _ c]
      split <;> rfl
    · simp only [channelData]
      split
      · cases find s.clients i.client with
        | none => rfl
        | some fd =>
          dsimp only
          split <;> rfl
      · rfl
    · rfl

/-- Messages owe nothing by themselves. -/
theorem due_taken (table : Bool × Option ℤ) (s : State M) (p : Pass) :
    due (follow c) chunk table (taken A x s p) = [] := by
  rw [taken]
  split
  · split_ifs <;> rfl
  · rfl

/-- A turn does to the client what its log says, and sends it what is due. -/
theorem turn_due (p : Pass) {on : Bool} (hoff : on = false → find s.clients c = none)
    (hanew : Along (follow c) (Anew c) (on, find s.clients c) (log A x s p)) :
    find (turn A x s p).1.clients c =
        ((log A x s p).foldl (follow c) (on, find s.clients c)).2 ∧
      framesTo c (turn A x s p).2 =
        due (follow c) chunk (on, find s.clients c) (log A x s p) := by
  have htaken := turn_follow (A := A) (x := x) p hoff (along_append.mp hanew).1
  rw [log, List.foldl_append, due_append, due_taken, List.nil_append, (due_did _ _ _).1,
    (due_did _ _ _).2, htaken, framesTo_sized (fun m hm htype => (turn_sent p hm htype).1),
    turn_dataTo]
  refine ⟨rfl, ?_⟩
  cases find (turn A x s p).1.clients c <;> rfl

end Turns

/-- In every run in which a client subscribes only anew, the DATA frames to it are the chunks read
from the descriptor it is mapped to, while it is mapped there, each once, in order and under its
size. If `open` gives fresh descriptors, that descriptor is of one FIFO. -/
theorem chunks_delivered {A : Antd} {x : Args} {answer : TunnelMsgH} {a : Opening}
    {passes : List Pass} {acts : List Act} {s : State M} {c : UInt16}
    (hrun : Execution (Logged A x) (initial A x answer a).1 passes acts s) (honce : Once c acts) :
    framesTo c (events acts) = due (follow c) chunk (false, none) acts ∧
      find s.clients c = (acts.foldl (follow c) (false, none)).2 ∧
      (AllFresh ((initial A x answer a : State M × List Event).2 ++ events acts) →
        ∀ fd, find s.clients c = some fd → ∃! hash, find s.fifoHandles hash = some fd) := by
  have hdelivered := hrun.delivers (fun (s : State M) table => find s.clients c = table.2)
    (fun acts => framesTo c (events acts)) (follow c) chunk (Once c)
    (fun a b => by rw [events_append, framesTo, List.filterMap_append]; rfl)
    (fun a b h => (along_append.mp h).1)
    (fun u past p out v hshows honce hstep => by
      obtain ⟨-, hturn⟩ := hstep
      obtain ⟨rfl, rfl⟩ := Prod.mk.inj hturn
      have hanew := (along_append.mp honce).2
      have hoff := mapped_subscribed past c
      generalize past.foldl (follow c) (false, none) = table at hshows hanew hoff ⊢
      obtain ⟨on, fd⟩ := table
      subst hshows
      rw [events_log]
      exact turn_due p hoff hanew)
    (by simp [initial]) honce
  refine ⟨hdelivered.2, hdelivered.1, fun hfresh fd hfd => ?_⟩
  have hbooks := run_ledger (execution_events hrun) hfresh
  obtain ⟨hash, hhash⟩ := hbooks.mapped c fd hfd
  exact ⟨hash, hhash, fun hash' hhash' => hbooks.apart hash' hash fd hhash' hhash⟩

theorem unsubscribe_known : CHANNEL_UNSUBSCRIBE ≤ 7 := by decide

theorem one_small {b : UInt8} : [b].length < 2 ^ 32 := by simp

theorem nothing_small : ([] : List UInt8).length < 2 ^ 32 := by decide

/-- Both users are read for once, client 1 leaves, and both FIFOs are read again. -/
def oneLeaves : List Pass :=
  twoUsers [97] [98] one_small one_small ++
    [quiet 7 (.message (.plain CHANNEL_UNSUBSCRIBE 1 [] unsubscribe_known nothing_small)),
      quiet 7 .fifos]

/-- Client 1 is sent one chunk, and client 2 both of its own. -/
theorem chunks_delivered_two_clients : ∃ acts s,
    Execution (Logged thirdByteHost readers) start oneLeaves acts s ∧
    framesTo 1 (events acts) = [(1, [120])] ∧
    framesTo 2 (events acts) = [(1, [120]), (1, [120])] := by
  have hrun := execution_of_guardedRun State.running
    (fun s p => ((turn thirdByteHost readers s p).1, log thirdByteHost readers s p)) start oneLeaves
    (by decide +kernel)
  refine ⟨_, _, hrun, ?_, ?_⟩
  · exact (chunks_delivered hrun (by decide +kernel)).1.trans (by decide +kernel)
  · exact (chunks_delivered hrun (by decide +kernel)).1.trans (by decide +kernel)

end WfifoFanout
