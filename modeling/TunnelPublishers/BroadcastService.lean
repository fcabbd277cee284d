import TunnelPublishers.TunnelFraming
import TunnelPublishers.FiniteMap
import TunnelPublishers.ExecutionTraces

/-!
# The broadcast service

One channel, its clients and the groups their users are in. Client entries
point to one handle per user name; a handle counts the entries that share it
and carries the groups of the user. The machine state is what is live at the
head of the message loop, a step handles one message, and every call of
`msg_write` is an output. Log texts are left out.
-/
namespace BroadcastService

open ByteOrder FiniteMaps FiniteMap TunnelFraming ExecutionTraces

def BC_SUBSCRIPTION : UInt8 := 0x0A
def BC_UNSUBSCRIPTION : UInt8 := 0x0B
def BC_QUERY_USER : UInt8 := 0x0C
def BC_QUERY_GROUP : UInt8 := 0x0D

def MAX_STR_LEN : ℕ := 255

/-- A NUL-terminated string in a block of `cap` bytes. -/
@[ext] structure CStr (cap : ℕ) where
  bytes : List UInt8
  noNul : (0 : UInt8) ∉ bytes
  fits : bytes.length < cap
  deriving DecidableEq

/-- Copying a block that leaves room for the terminator, and terminating it. -/
def terminate {cap : ℕ} (block : List UInt8) (h : block.length < cap) : CStr cap :=
  ⟨cString block, zero_notMem_cString block, lt_of_le_of_lt (cString_length_le block) h⟩

abbrev Name := CStr MAX_STR_LEN

structure BcClient (M : Type → Type → Type) where
  ref : ℤ
  name : Name
  groups : M Int32 Name

/-- What a `data` pointer of the long-lived response can denote. -/
inductive Block where
  | null
  | released
  | msgBuffer
  deriving DecidableEq, Repr

/-- Handles are addressed by position; a released one leaves `none` behind. -/
structure State (M : Type → Type → Type) where
  clients : M UInt16 ℕ
  heap : List (Option (BcClient M))
  msgBuffer : List UInt8
  response : TunnelMsgH
  responseData : Block

inductive Fault where
  /-- `unsubscribe` reads the data of an absent node. -/
  | nullNode
  /-- A handle is used after its release. -/
  | releasedHandle
  /-- A read runs past the memory behind `request.data`. -/
  | outOfPayload
  /-- An error text is written through a pointer that is not the message buffer. -/
  | responseData
  deriving DecidableEq, Repr

/-- A 32-bit word copied from `request.data[off]` and converted from network order. -/
def readWord (i : Input) (off : ℕ) : Except Fault Int32 :=
  if off + 4 ≤ i.memory.length then
    .ok (ntohl (word32 ((i.memory.drop off).take 4))).toInt32
  else .error .outOfPayload

variable {M : Type → Type → Type} [FiniteMap M]

def deref (heap : List (Option (BcClient M))) (p : ℕ) : Except Fault (BcClient M) :=
  match heap[p]? with
  | some (some bcClient) => .ok bcClient
  | _ => .error .releasedHandle

/-- What comes after a call that may fault. -/
theorem ok_of_bind {α β : Type} {x : Except Fault α} {f : α → Except Fault β} {b : β}
    (h : x >>= f = .ok b) : ∃ a, x = .ok a ∧ f a = .ok b := by
  cases x with
  | error e => cases h
  | ok a => exact ⟨a, rfl, h⟩

/-- A traversal whose callback updates a shared value and writes messages. -/
def forEach {γ β : Type} (f : γ → β → Except Fault (γ × List TunnelMsg)) :
    γ → List β → Except Fault (γ × List TunnelMsg)
  | x, [] => .ok (x, [])
  | x, e :: es => do
    let (x, out) ← f x e
    let (x, rest) ← forEach f x es
    return (x, out ++ rest)

theorem forEach_cons_ok {γ β : Type} {f : γ → β → Except Fault (γ × List TunnelMsg)} {x y : γ}
    {e : β} {out : List TunnelMsg} (h : f x e = .ok (y, out)) (es : List β) :
    forEach f x (e :: es) = (forEach f y es).map fun r => (r.1, out ++ r.2) := by
  simp only [forEach, h, bind, Except.bind, pure, Except.pure]
  cases forEach f y es <;> rfl

theorem forEach_cons_error {γ β : Type} {f : γ → β → Except Fault (γ × List TunnelMsg)} {x : γ}
    {e : β} {fault : Fault} (h : f x e = .error fault) (es : List β) :
    forEach f x (e :: es) = .error fault := by
  simp only [forEach, h, bind, Except.bind]

/-- A traversal that succeeds is an execution of its callback. -/
theorem forEach_execution {γ β : Type} {f : γ → β → Except Fault (γ × List TunnelMsg)}
    {l : List β} {x y : γ} {out : List TunnelMsg} (h : forEach f x l = .ok (y, out)) :
    Execution (Succeeds f) x l out y := by
  induction l generalizing x out with
  | nil =>
    cases h
    exact .refl _
  | cons e es ih =>
    simp only [forEach, bind, Except.bind] at h
    split at h
    · cases h
    · next r hr =>
      split at h
      · cases h
      · next r' hr' =>
        cases h
        exact (Execution.single hr).trans (ih hr')

/-! ### Callbacks -/

def bcGetHandle (heap : List (Option (BcClient M))) (name : Name) (found : Option ℕ)
    (node : UInt16 × ℕ) : Except Fault (Option ℕ) := do
  let nodeClient ← deref heap node.2
  return if name = nodeClient.name then some node.2 else found

def bcNotify (heap : List (Option (BcClient M))) (group : Int32) (msg : TunnelMsg)
    (node : UInt16 × ℕ) : Except Fault (TunnelMsg × List TunnelMsg) := do
  let bcClient ← deref heap node.2
  if (find bcClient.groups group).isNone then return (msg, [])
  let msg := { msg with header.clientId := node.1 }
  return (msg, [msg.received])

/-- Announces one group of a leaving user. The group's name is freed; the whole tree follows. -/
def bcUnsubscription (heap : List (Option (BcClient M))) (clients : List (UInt16 × ℕ)) (len : ℕ)
    (msg : TunnelMsg) (node : Int32 × Name) : Except Fault (TunnelMsg × List TunnelMsg) :=
  let len := len + 2
  let hash := node.1
  let data := memcpyAt (msg.data.getD []) len (mem32 (htonl hash.toUInt32))
  let msg : TunnelMsg := ⟨{ msg.header with size := UInt32.ofNat (len + 4) }, some data⟩
  forEach (bcNotify heap hash) msg clients

def unsubscribe (s : State M) (stack : TunnelMsgH) (node : Option (UInt16 × ℕ)) :
    Except Fault (State M × List TunnelMsg) :=
  match node with
  | none => .error .nullNode
  | some (key, p) => do
    let bcClient ← deref s.heap p
    let bcClient := { bcClient with ref := bcClient.ref - 1 }
    let heap := s.heap.set p (some bcClient)
    let len := bcClient.name.bytes.length
    let data := memcpyAt s.msgBuffer 0 [BC_UNSUBSCRIPTION]
    let data := memcpyAt data 1 [UInt8.ofNat len]
    let data := memcpyAt data 2 bcClient.name.bytes
    let msg : TunnelMsg := ⟨{ stack with type := CHANNEL_CTRL }, some data⟩
    let (msg, out, heap) ←
      if bcClient.ref ≤ 0 then do
        let (msg, out) ← forEach (bcUnsubscription heap (entries s.clients) len) msg
          (entries bcClient.groups)
        pure (msg, out, heap.set p none)
      else pure (msg, [], heap)
    let last : TunnelMsg :=
      ⟨{ msg.header with type := CHANNEL_UNSUBSCRIBE, clientId := key, size := 0 }, none⟩
    return ({ s with heap := heap, msgBuffer := msg.data.getD [] }, out ++ [last])

def bcSendQueryGroup (msg : TunnelMsg) (node : Int32 × Name) :
    Except Fault (TunnelMsg × List TunnelMsg) :=
  let data := memcpyAt (msg.data.getD []) 1 (mem32 (htonl node.1.toUInt32))
  let data := memcpyAt data 5 node.2.bytes
  let msg : TunnelMsg :=
    ⟨{ msg.header with size := UInt32.ofNat (5 + node.2.bytes.length) }, some data⟩
  .ok (msg, [msg.received])

def bcSendQueryUser (heap : List (Option (BcClient M))) (group : Int32) (len : ℕ)
    (msg : TunnelMsg) (node : UInt16 × ℕ) : Except Fault (TunnelMsg × List TunnelMsg) := do
  let bcClient ← deref heap node.2
  if (find bcClient.groups group).isNone then return (msg, [])
  let data := memcpyAt (msg.data.getD []) len bcClient.name.bytes
  let msg : TunnelMsg :=
    ⟨{ msg.header with size := UInt32.ofNat (len + bcClient.name.bytes.length) }, some data⟩
  return (msg, [msg.received])

/-! ### Error replies -/

/-- `%.2X` of a byte. -/
def hex2 (b : UInt8) : String :=
  String.ofList [Nat.digitChar (b.toNat / 16), Nat.digitChar (b.toNat % 16)] |>.toUpper

/-- `BC_ERROR`: the text goes through `response.data`, whatever that denotes. -/
def bcError (A : Antd) (s : State M) (client : UInt16) (reply : String) :
    Except Fault (State M × List TunnelMsg) :=
  match s.responseData with
  | .msgBuffer =>
    let data := memcpyAt s.msgBuffer 0 ((text reply).take (A.BUFFLEN - 1) ++ [0])
    let response := { s.response with
      clientId := client, type := CHANNEL_ERROR, size := UInt32.ofNat (cString data).length }
    .ok ({ s with msgBuffer := data, response := response },
      [TunnelMsg.received ⟨response, some data⟩])
  | _ => .error .responseData

def invalidSize (size : UInt32) : String :=
  "Invalid CTRL message size: " ++ toString (cInt size.toNat)

def notSubscribed (client : UInt16) : String :=
  "Client " ++ toString client.toNat ++ " does not previously subscribe to the channel"

def foreignGroup (client : UInt16) : String :=
  "Client " ++ toString client.toNat ++ " query a group that it does not belong to"

def invalidCode (code : UInt8) : String :=
  "Invalid client control message: 0x" ++ hex2 code

/-! ### Message handlers -/

def channelSubscribe (s : State M) (i : Input) : Except Fault (State M × List TunnelMsg) :=
  if h : MAX_STR_LEN - 1 < i.size then .ok (s, [])
  else
    match find s.clients i.client with
    | some _ => .ok (s, [])
    | none => do
      let name : Name := terminate i.request.payload
        (by rw [i.payload_length]; unfold MAX_STR_LEN at *; omega)
      let bcClient ← (entries s.clients).foldlM (bcGetHandle s.heap name) none
      match bcClient with
      | some p => do
        let handle ← deref s.heap p
        return ({ s with
          heap := s.heap.set p (some { handle with ref := handle.ref + 1 })
          clients := insert s.clients i.client p }, [])
      | none =>
        return ({ s with
          heap := s.heap ++ [some ⟨1, name, empty⟩]
          clients := insert s.clients i.client s.heap.length }, [])

/-- The notice of a join or a leave, built over the code byte already in the buffer. -/
def ctrlNotice (s : State M) (bcClient : BcClient M) (hash : Int32) (gname : List UInt8) :
    Except Fault (State M × List TunnelMsg) := do
  let len := bcClient.name.bytes.length
  let data := memcpyAt s.msgBuffer 1 [UInt8.ofNat len]
  let data := memcpyAt data 2 bcClient.name.bytes
  let len := len + 2
  let data := memcpyAt data len (mem32 (htonl hash.toUInt32))
  let len := len + 4
  let data := memcpyAt data len gname
  let response : TunnelMsg :=
    ⟨{ s.response with size := UInt32.ofNat (len + gname.length) }, some data⟩
  let (response, out) ← forEach (bcNotify s.heap hash) response (entries s.clients)
  return ({ s with msgBuffer := data, response := response.header }, out)

def ctrlSubscription (A : Antd) (s : State M) (i : Input) (p : ℕ)
    (h : i.size ≤ MAX_STR_LEN) : Except Fault (State M × List TunnelMsg) := do
  let bcClient ← deref s.heap p
  let name : Name := terminate (i.request.payload.drop 1)
    (by rw [List.length_drop, i.payload_length]; unfold MAX_STR_LEN at *; omega)
  let hash := A.simpleHash name.bytes
  let bcClient := if (find bcClient.groups hash).isNone then
    { bcClient with groups := insert bcClient.groups hash name } else bcClient
  ctrlNotice { s with heap := s.heap.set p (some bcClient) } bcClient hash name.bytes

def ctrlUnsubscription (s : State M) (i : Input) (p : ℕ) :
    Except Fault (State M × List TunnelMsg) := do
  let hash ← readWord i 1
  let bcClient ← deref s.heap p
  let (s, out) ← ctrlNotice s bcClient hash []
  let bcClient := { bcClient with groups := delete bcClient.groups hash }
  return ({ s with heap := s.heap.set p (some bcClient) }, out)

def ctrlQueryUser (A : Antd) (s : State M) (i : Input) (p : ℕ) :
    Except Fault (State M × List TunnelMsg) := do
  let hash ← readWord i 1
  let data := memcpyAt s.msgBuffer 1 (mem32 (htonl hash.toUInt32))
  let s := { s with msgBuffer := data, response := { s.response with clientId := i.client } }
  let bcClient ← deref s.heap p
  if (find bcClient.groups hash).isNone then bcError A s i.client (foreignGroup i.client)
  else do
    let (msg, out) ← forEach (bcSendQueryUser s.heap hash 5) ⟨s.response, some s.msgBuffer⟩
      (entries s.clients)
    return ({ s with msgBuffer := msg.data.getD [], response := msg.header }, out)

def ctrlQueryGroup (s : State M) (i : Input) (p : ℕ) :
    Except Fault (State M × List TunnelMsg) := do
  let bcClient ← deref s.heap p
  if entries bcClient.groups = [] then return (s, [])
  let response := { s.response with clientId := i.client }
  let (msg, out) ← forEach bcSendQueryGroup ⟨response, some s.msgBuffer⟩
    (entries bcClient.groups)
  return ({ s with msgBuffer := msg.data.getD [], response := msg.header }, out)

def channelCtrl (A : Antd) (s : State M) (i : Input) : Except Fault (State M × List TunnelMsg) :=
  if h : 0 < i.size ∧ i.size ≤ MAX_STR_LEN then
    match find s.clients i.client with
    | none => bcError A s i.client (notSubscribed i.client)
    | some p =>
      let code := i.request.payload.headD 0
      let s := { s with
        response := { s.response with
          channelId := i.request.header.channelId, type := CHANNEL_CTRL }
        responseData := .msgBuffer
        msgBuffer := memcpyAt s.msgBuffer 0 [code] }
      if code = BC_SUBSCRIPTION then ctrlSubscription A s i p h.2
      else if code = BC_UNSUBSCRIPTION then ctrlUnsubscription s i p
      else if code = BC_QUERY_USER then ctrlQueryUser A s i p
      else if code = BC_QUERY_GROUP then ctrlQueryGroup s i p
      else bcError A s i.client (invalidCode code)
  else bcError A s i.client (invalidSize i.request.header.size)

def channelData (s : State M) (i : Input) : Except Fault (State M × List TunnelMsg) := do
  let hash ← readWord i 0
  let (_, out) ← forEach (bcNotify s.heap hash) i.request (entries s.clients)
  return (s, out)

def channelUnsubscribe (s : State M) (i : Input) : Except Fault (State M × List TunnelMsg) := do
  let node := (find s.clients i.client).map fun p => (i.client, p)
  let (s, out) ← unsubscribe s i.stack node
  return ({ s with clients := delete s.clients i.client }, out)

/-- One message of the loop. -/
def step (A : Antd) (s : State M) (i : Input) : Except Fault (State M × List TunnelMsg) :=
  let type := i.request.header.type
  if type = CHANNEL_SUBSCRIBE then channelSubscribe s i
  else if type = CHANNEL_CTRL then channelCtrl A s i
  else if type = CHANNEL_DATA then channelData s i
  else if type = CHANNEL_UNSUBSCRIBE then channelUnsubscribe s i
  else .ok (s, [])

/-- The loop head after the channel-open answer, whose payload has been freed. -/
def initial (A : Antd) (answer : TunnelMsg) : State M where
  clients := empty
  heap := []
  msgBuffer := List.replicate A.BUFFLEN 0
  response := answer.header
  responseData := if answer.data = none then .null else .released

/-- The final sweep, over the nodes in the order visited. -/
def unsubscribeAll (s : State M) (stack : UInt16 → TunnelMsgH) (order : List (UInt16 × ℕ)) :
    Except Fault (State M × List TunnelMsg) :=
  forEach (fun s node => unsubscribe s (stack node.1) (some node)) s order

/-- From the end of the loop on, up to the first visit that faults. `request` is the header of
the request struct of `main`. -/
def shutdown (stack : UInt16 → TunnelMsgH) (request : TunnelMsgH) :
    State M → List (UInt16 × ℕ) → List TunnelMsg
  | _, [] => [frame CHANNEL_CLOSE request.channelId request.clientId []]
  | s, node :: order =>
    match unsubscribe s (stack node.1) (some node) with
    | .ok (s, out) => out ++ shutdown stack request s order
    | .error _ => []

abbrev Step (A : Antd) : State M → Input → List TunnelMsg → State M → Prop := Succeeds (step A)

/-- States at the head of the loop, after any messages handled without a fault. -/
def Reachable (A : Antd) (s : State M) : Prop :=
  ∃ answer inputs out, Execution (Step A) (initial A answer) inputs out s

/-- The state after handling some messages, the initial state if one of them faults. -/
def stateAfter (A : Antd) (answer : TunnelMsg) (inputs : List Input) : State M :=
  match forEach (step A) (initial A answer) inputs with
  | .ok (s, _) => s
  | .error _ => initial A answer

theorem stateAfter_reachable (A : Antd) (answer : TunnelMsg) (inputs : List Input) :
    Reachable A (stateAfter A answer inputs : State M) := by
  unfold stateAfter
  split
  · next h => exact ⟨answer, inputs, _, forEach_execution h⟩
  · exact ⟨answer, [], [], .refl _⟩

/-- A run computed message by message, known by its frames. -/
theorem execution_of_outputs (A : Antd) (s : State M) (inputs : List Input)
    (out : List TunnelMsg) (h : (forEach (step A) s inputs).map Prod.snd = .ok out) :
    ∃ s', Execution (Step A) s inputs out s' := by
  cases hrun : forEach (step A) s inputs with
  | error f => simp [hrun, Except.map] at h
  | ok r =>
    simp only [hrun, Except.map, Except.ok.injEq] at h
    subst h
    exact ⟨r.1, forEach_execution hrun⟩

def channelOk : TunnelMsg := frame CHANNEL_OK 1 0 []

end BroadcastService
