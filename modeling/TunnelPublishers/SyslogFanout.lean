import TunnelPublishers.SyslogService

/-!
# Who gets the log

A client is sent every datagram that arrives while its last word was a
SUBSCRIBE, once and in order, and is told at the end if it is still subscribed.
-/
namespace SyslogFanout

open ByteOrder FiniteMaps FiniteMap TunnelFraming ExecutionTraces SyslogService

/-- A client joins or leaves, a datagram arrives, or a message goes out. -/
inductive Act where
  | subscribed (c : UInt16)
  | left (c : UInt16)
  | received (bytes : List UInt8)
  | sent (msg : TunnelMsg)
  deriving DecidableEq, Repr

/-- What a turn takes in. -/
def taken : Selected → List Act
  | .message i =>
    if i.request.header.type = CHANNEL_SUBSCRIBE then [.subscribed i.client]
    else if i.request.header.type = CHANNEL_UNSUBSCRIBE then [.left i.client]
    else []
  | .datagram (some bytes) => [.received bytes]
  | _ => []

variable {M : Type → Type → Type} [FiniteMap M]

/-- What happens in a turn, in order. -/
def log (A : Antd) (s : State M) (p : Pass) : List Act :=
  taken p.selected ++ (turn A s p).2.map .sent

abbrev Logged (A : Antd) : State M → Pass → List Act → State M → Prop :=
  Guarded State.running fun s p => ((turn A s p).1, log A s p)

def messages (acts : List Act) : List TunnelMsg :=
  acts.filterMap fun
    | .sent msg => some msg
    | _ => none

theorem messages_append (a b : List Act) : messages (a ++ b) = messages a ++ messages b :=
  List.filterMap_append

theorem messages_log (A : Antd) (s : State M) (p : Pass) :
    messages (log A s p) = (turn A s p).2 := by
  have htaken : messages (taken p.selected) = [] := by
    unfold taken
    split
    · split_ifs <;> rfl
    · rfl
    · rfl
  have hsent : ∀ out : List TunnelMsg, messages (out.map .sent) = out := fun out => by
    simp [messages, List.filterMap_map]
  rw [log, messages_append, htaken, hsent, List.nil_append]

/-- Every run of the loop has a log with its messages. -/
theorem execution_logged {A : Antd} {s s' : State M} {passes : List Pass}
    {trace : List TunnelMsg} (h : Execution (Step A) s passes trace s') :
    ∃ acts, Execution (Logged A) s passes acts s' ∧ messages acts = trace :=
  h.logged (messages_log A)

/-! ### What is due -/

section Clients

variable {c : UInt16}

/-- Whether the client is subscribed after one more act. -/
def joined (c : UInt16) (on : Bool) : Act → Bool
  | .subscribed c' => if c' = c then true else on
  | .left c' => if c' = c then false else on
  | _ => on

/-- The last membership message of the client is a SUBSCRIBE. -/
abbrev subscribed (c : UInt16) (acts : List Act) : Bool := acts.foldl (joined c) false

/-- A datagram is due to who is subscribed, as far as the buffer takes it. -/
def datagram (A : Antd) (on : Bool) : Act → List (List UInt8)
  | .received bytes => if on then [bytes.take A.BUFFLEN] else []
  | _ => []

/-- The payloads of the DATA frames to a client. -/
def dataTo (c : UInt16) (msgs : List TunnelMsg) : List (List UInt8) :=
  (msgs.filter fun m => m.header.type = CHANNEL_DATA ∧ m.header.clientId = c).map
    TunnelMsg.payload

/-- The number of UNSUBSCRIBE frames to a client. -/
def noticesTo (c : UInt16) (msgs : List TunnelMsg) : ℕ :=
  msgs.countP fun m => m.header.type = CHANNEL_UNSUBSCRIBE ∧ m.header.clientId = c

theorem dataTo_append (a b : List TunnelMsg) : dataTo c (a ++ b) = dataTo c a ++ dataTo c b := by
  simp [dataTo]

/-- One frame for each entry is one for each client that has an entry. -/
theorem count_client (clients : M UInt16 Unit) (c : UInt16) :
    (entries clients).countP (fun n => n.1 = c) = if (find clients c).isSome then 1 else 0 := by
  have hcount : (entries clients).countP (fun n => n.1 = c) = (entries clients).count (c, ()) := by
    rw [List.count]
    apply List.countP_congr
    rintro ⟨c', -⟩ -
    simp
  rw [hcount]
  cases hf : find clients c with
  | none =>
    rw [List.count_eq_zero_of_not_mem fun hm => by rw [mem_entries, hf] at hm; cases hm]
    rfl
  | some u =>
    rw [List.count_eq_one_of_mem (nodup_entries clients) (mem_entries.mpr hf)]
    rfl

theorem count_client_replicate (clients : M UInt16 Unit) (c : UInt16) (chunk : List UInt8) :
    List.replicate ((entries clients).countP fun n => n.1 = c) chunk =
      if (find clients c).isSome then [chunk] else [] := by
  rw [count_client]
  split <;> rfl

theorem dataTo_forward (A : Antd) (s : State M) (bytes : List UInt8) :
    dataTo c (forward A s bytes).2 =
      if (find s.clients c).isSome then [bytes.take A.BUFFLEN] else [] := by
  have hsmall := A.take_small bytes
  rw [forward_out, ← count_client_replicate]
  generalize bytes.take A.BUFFLEN = chunk at hsmall ⊢
  induction entries s.clients with
  | nil => rfl
  | cons n nodes ih =>
    rw [List.map_cons, ← List.singleton_append, dataTo_append, ih]
    have hpayload := @frame_payload CHANNEL_DATA s.msg.channelId n.1 _ hsmall
    by_cases hn : n.1 = c
    · rw [List.countP_cons_of_pos (by simpa using hn), List.replicate_succ]
      simp only [dataTo, frame] at hpayload ⊢
      subst hn
      simp [hpayload]
    · rw [List.countP_cons_of_neg (by simpa using hn)]
      simp [dataTo, frame, hn]

end Clients

/-! ### Turns -/

section Turns

variable {A : Antd} {c : UInt16}

theorem handleMessage_joined (s : State M) (i : Input) :
    (find (handleMessage s i).clients c).isSome =
      (taken (.message i)).foldl (joined c) (find s.clients c).isSome := by
  unfold handleMessage taken
  dsimp only
  split_ifs with hsub hun
  · by_cases hc : i.client = c
    · subst hc
      have hpresent : (find (insert s.clients i.client ()) i.client).isSome = true := by
        cases hf : find s.clients i.client with
        | none => rw [find_insert_absent () hf]; rfl
        | some u => rcases find_insert_present () hf with h | h <;> rw [h] <;> rfl
      simpa [joined] using hpresent
    · rw [find_insert_ne s.clients () (Ne.symm hc)]
      simp [joined, hc]
  · rw [find_delete]
    by_cases hc : i.client = c
    · simp [joined, hc]
    · simp [joined, hc, Ne.symm hc]
  · rfl

/-- A turn does to a client what its log says, and sends it what is due. -/
theorem turn_due (A : Antd) (s : State M) (p : Pass) (c : UInt16) :
    (find (turn A s p).1.clients c).isSome =
        (log A s p).foldl (joined c) (find s.clients c).isSome ∧
      dataTo c (turn A s p).2 =
        due (joined c) (datagram A) (find s.clients c).isSome (log A s p) := by
  -- Messages sent are due to nobody.
  have hsent : ∀ (on : Bool) (out : List TunnelMsg),
      (out.map Act.sent).foldl (joined c) on = on ∧
        due (joined c) (datagram A) on (out.map .sent) = [] := by
    intro on out
    apply due_eq_nil
    intro act hact
    obtain ⟨m, -, rfl⟩ := List.mem_map.mp hact
    exact ⟨rfl, rfl⟩
  rw [log, List.foldl_append, (hsent _ _).1, due_append, (hsent _ _).2, List.append_nil]
  unfold turn
  cases p.selected with
  | failed | timeout | unreadable => exact ⟨rfl, rfl⟩
  | message i =>
    refine ⟨handleMessage_joined { s with msg := i.request.header } i, ?_⟩
    unfold taken
    dsimp only
    split_ifs <;> rfl
  | datagram bytes =>
    cases bytes with
    | none => exact ⟨rfl, rfl⟩
    | some bytes =>
      refine ⟨rfl, ?_⟩
      rw [show dataTo c _ = _ from dataTo_forward A s bytes]
      simp [taken, due, datagram]

theorem noticesTo_shutdown (s : State M) (stack : TunnelMsgH) (c : UInt16) :
    noticesTo c (shutdown s stack) = if (find s.clients c).isSome then 1 else 0 := by
  rw [← count_client, noticesTo, shutdown, List.countP_append, List.countP_map]
  have hclose : ([frame CHANNEL_CLOSE s.msg.channelId s.msg.clientId []].countP fun m =>
      m.header.type = CHANNEL_UNSUBSCRIBE ∧ m.header.clientId = c) = 0 := by
    simp [frame, CHANNEL_CLOSE, CHANNEL_UNSUBSCRIBE]
  rw [hclose, Nat.add_zero]
  apply List.countP_congr
  rintro n -
  simp [frame]

end Turns

/-- In every run a client is sent the datagrams received while its last membership message was a
SUBSCRIBE, cut to the buffer, each once and in order, and at shutdown exactly those subscribed
then are sent an UNSUBSCRIBE, one each. -/
theorem datagrams_delivered {A : Antd} {answer : TunnelMsgH} {passes : List Pass} {acts : List Act}
    {s : State M} (stack : TunnelMsgH)
    (hrun : Execution (Logged A) (initial answer) passes acts s) (c : UInt16) :
    dataTo c (messages acts) = due (joined c) (datagram A) false acts ∧
      noticesTo c (shutdown s stack) = if subscribed c acts then 1 else 0 := by
  have hstart : (find (initial answer : State M).clients c).isSome = false := by simp [initial]
  obtain ⟨hmember, hdata⟩ := hrun.delivers
    (fun (s : State M) on => (find s.clients c).isSome = on)
    (fun acts => dataTo c (messages acts)) (joined c) (datagram A) (fun _ => True)
    (fun a b => by rw [messages_append, dataTo_append]) (fun _ _ _ => trivial)
    (fun u past p out v hshows _ hstep => by
      obtain ⟨-, hturn⟩ := hstep
      obtain ⟨rfl, rfl⟩ := Prod.mk.inj hturn
      rw [messages_log, ← hshows]
      exact turn_due A u p c)
    hstart trivial
  exact ⟨hdata, by rw [noticesTo_shutdown, hmember]⟩

/-- Client 1 subscribes twice and leaves once, with a datagram before and after it leaves. -/
theorem datagrams_delivered_one_client : ∃ acts, ∃ s : State AssocList,
    Execution (Logged firstByteHost) (initial ⟨CHANNEL_OK, 1, 0, 0⟩)
      [⟨.message (.subscribe 1 97), false⟩, ⟨.message (.subscribe 1 97), false⟩,
        ⟨.datagram (some [7]), false⟩, ⟨.message (.plain CHANNEL_UNSUBSCRIBE 1 []), false⟩,
        ⟨.datagram (some [8]), false⟩] acts s ∧
    dataTo 1 (messages acts) = [[7]] ∧ noticesTo 1 (shutdown s ⟨0, 0, 0, 0⟩) = 0 := by
  have hrun := execution_of_guardedRun State.running
    (fun s p => ((turn firstByteHost s p).1, log firstByteHost s p))
    (initial ⟨CHANNEL_OK, 1, 0, 0⟩ : State AssocList)
    [⟨.message (.subscribe 1 97), false⟩, ⟨.message (.subscribe 1 97), false⟩,
      ⟨.datagram (some [7]), false⟩, ⟨.message (.plain CHANNEL_UNSUBSCRIBE 1 []), false⟩,
      ⟨.datagram (some [8]), false⟩] (by decide +kernel)
  have h := datagrams_delivered ⟨0, 0, 0, 0⟩ hrun 1
  exact ⟨_, _, hrun, h.1.trans (by decide +kernel), h.2.trans (by decide +kernel)⟩

end SyslogFanout
