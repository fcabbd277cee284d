import TunnelPublishers.TunnelFraming
import TunnelPublishers.FiniteMap
import TunnelPublishers.ExecutionTraces

/-!
# The log service

Datagrams from a local socket are passed on to all clients. The state is what is
live at the head of the main loop, a pass is one turn of the loop, and what
leaves the process are the messages handed to `msg_write`.
-/
namespace SyslogService

open ByteOrder FiniteMaps FiniteMap TunnelFraming ExecutionTraces

/-- The nodes of the clients hold NULL. `msg` is the header of the message struct of `main`. -/
structure State (M : Type → Type → Type) where
  clients : M UInt16 Unit
  msg : TunnelMsgH
  running : Bool

inductive Selected where
  | failed
  | timeout
  /-- `msg_read` fails and leaves this header in the struct. -/
  | unreadable (left : TunnelMsgH)
  | message (i : Input)
  /-- `recvfrom`: the datagram, if it can be read. -/
  | datagram (bytes : Option (List UInt8))

structure Pass where
  selected : Selected
  /-- Whether SIGINT arrives. -/
  interrupted : Bool

variable {M : Type → Type → Type} [FiniteMap M]

/-- The callback sets the client in the header it is handed. -/
def sendData (bytes : List UInt8) (msg : TunnelMsgH) (node : UInt16 × Unit) :
    TunnelMsgH × List TunnelMsg :=
  ({ msg with clientId := node.1 }, [frame msg.type msg.channelId node.1 bytes])

def handleMessage (s : State M) (i : Input) : State M :=
  let type := i.request.header.type
  if type = CHANNEL_SUBSCRIBE then { s with clients := insert s.clients i.client () }
  else if type = CHANNEL_UNSUBSCRIBE then { s with clients := delete s.clients i.client }
  else s

/-- The buffer takes the first `BUFFLEN` bytes of a datagram. -/
def forward (A : Antd) (s : State M) (bytes : List UInt8) : State M × List TunnelMsg :=
  let bytes := bytes.take A.BUFFLEN
  let msg := { s.msg with type := CHANNEL_DATA, size := UInt32.ofNat bytes.length }
  let (msg, out) := visitAll (sendData bytes) msg (entries s.clients)
  ({ s with msg := msg }, out)

/-- One turn of the loop. -/
def turn (A : Antd) (s : State M) (p : Pass) : State M × List TunnelMsg :=
  let (s, out) :=
    match p.selected with
    | .failed => ({ s with running := false }, [])
    | .timeout => (s, [])
    | .unreadable left => ({ s with msg := left, running := false }, [])
    | .message i => (handleMessage { s with msg := i.request.header } i, [])
    | .datagram none => ({ s with running := false }, [])
    | .datagram (some bytes) => forward A s bytes
  ({ s with running := s.running && !p.interrupted }, out)

/-- The loop head after the channel-open answer. -/
def initial (answer : TunnelMsgH) : State M := ⟨empty, answer, answer.type = CHANNEL_OK⟩

/-- From the end of the loop on; `stack` is what `unsubscribe` finds in its local header. -/
def shutdown (s : State M) (stack : TunnelMsgH) : List TunnelMsg :=
  (entries s.clients).map (fun n => frame CHANNEL_UNSUBSCRIBE stack.channelId n.1 []) ++
    [frame CHANNEL_CLOSE s.msg.channelId s.msg.clientId []]

abbrev Step (A : Antd) : State M → Pass → List TunnelMsg → State M → Prop :=
  Guarded State.running (turn A)

/-- A datagram goes once to every client. -/
theorem forward_out (A : Antd) (s : State M) (bytes : List UInt8) :
    (forward A s bytes).2 = (entries s.clients).map fun n =>
      frame CHANNEL_DATA s.msg.channelId n.1 (bytes.take A.BUFFLEN) := by
  have hvisit : ∀ (nodes : List (UInt16 × Unit)) (msg : TunnelMsgH),
      (visitAll (sendData (bytes.take A.BUFFLEN)) msg nodes).2 = nodes.map fun n =>
        frame msg.type msg.channelId n.1 (bytes.take A.BUFFLEN) := by
    intro nodes
    induction nodes with
    | nil => exact fun _ => rfl
    | cons n nodes ih =>
      intro msg
      simp only [visitAll, sendData, ih, List.map_cons]
      rfl
  exact hvisit _ _

end SyslogService
