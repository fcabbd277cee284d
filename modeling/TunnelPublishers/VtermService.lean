import TunnelPublishers.TunnelFraming
import TunnelPublishers.FiniteMap
import TunnelPublishers.ExecutionTraces
import TunnelPublishers.KernelTables

/-!
# The terminal service

One login process on a pseudo terminal for each client. The state is what is
live at the head of the main loop, a pass is one turn of the loop, and the calls
that matter outside the process are events. The kernel's answers are given for
each client, since a pass asks each question about a client at most once. The
nodes of the process tree keep their keys while others are deleted; log texts
are left out, but not the records they read.
-/
namespace VtermService

open ByteOrder FiniteMaps FiniteMap TunnelFraming ExecutionTraces KernelTables

structure VtermProc where
  fdm : ℤ
  pid : ℤ
  cid : UInt16
  deriving DecidableEq, Repr

inductive Event where
  | process (call : ProcessCall)
  /-- The shell command of a new child. -/
  | login (command : List UInt8)
  | opened (fd : ℤ)
  | closed (fd : ℤ)
  | wrote (fd : ℤ) (bytes : List UInt8) (result : ℤ)
  | read (fd : ℤ) (bytes : Option (List UInt8))
  | resized (fd : ℤ) (row col : UInt16)
  | sent (msg : TunnelMsg)
  /-- A record is freed. -/
  | released (p : ℕ)
  /-- A record is read after it was freed. -/
  | stale (p : ℕ)
  deriving DecidableEq, Repr

/-- The calls on child processes in a trace. -/
def calls (trace : List Event) : List ProcessCall :=
  trace.filterMap fun
    | .process call => some call
    | _ => none

/-- Nodes point to records; a freed record leaves `none` behind. `msg` is the header of the
message struct of `main`. -/
structure State (M : Type → Type → Type) where
  processes : M UInt16 ℕ
  heap : List (Option VtermProc)
  msg : TunnelMsgH
  running : Bool
  /-- No record was freed twice. -/
  intact : Bool

/-! ### The kernel's answers -/

structure Spawn where
  openpt : ℤ
  grantpt : ℤ
  unlockpt : ℤ
  «open» : ℤ
  fork : ℤ
  deriving DecidableEq, Repr

/-- About the terminal of one client, in one pass. -/
structure Answers where
  /-- `waitpid(pid, NULL, WNOHANG)`. -/
  poll : ℤ
  /-- `kill(pid, SIGKILL)`. -/
  kill : ℤ
  /-- `waitpid(pid, NULL, 0)`. -/
  wait : ℤ
  write : ℤ
  ready : Bool
  /-- The bytes of a successful read, none of them at end of file. -/
  read : Option (List UInt8)
  /-- Whether `msg_write` succeeds. -/
  send : Bool
  /-- The rows and columns of the terminal, or whether asking for them fails with EINVAL. -/
  winsize : Bool ⊕ UInt16 × UInt16
  deriving DecidableEq, Repr

inductive Selected where
  | failed
  | timeout
  /-- `msg_read` fails and leaves this header in the struct. -/
  | unreadable (left : TunnelMsgH)
  | message (i : Input)
  | terminals

structure Pass where
  answers : UInt16 → Answers
  spawn : Spawn
  selected : Selected
  /-- What the stack holds where the callbacks put their local message headers. -/
  stack : TunnelMsgH
  /-- Whether SIGINT arrives. -/
  interrupted : Bool

/-! ### Terminals -/

/-- The login command, cut to the 64 bytes of its buffer. -/
def loginCommand (user : List UInt8) : List UInt8 :=
  if user = [] then text "TERM=linux login" else (text "TERM=linux su -l " ++ user).take 63

/-- Returns the master descriptor and the pid, or NULL; the child runs the command. -/
def terminalNew (a : Spawn) (user : List UInt8) : Option (ℤ × ℤ) × List Event :=
  if a.openpt < 0 then (none, [])
  else if a.grantpt ≠ 0 then (none, [.opened a.openpt])
  else if a.unlockpt ≠ 0 then (none, [.opened a.openpt])
  else
    let slave := if a.open < 0 then [] else [Event.opened a.open]
    let child := if 0 < a.fork then [Event.login (loginCommand user)] else []
    (some (a.openpt, a.fork), .opened a.openpt :: slave ++ .process (.fork a.fork) :: child)

variable {M : Type → Type → Type} [FiniteMap M]

def terminalKill (s : State M) (a : Answers) (clientId : UInt16) (shouldDelete : Bool) :
    State M × List Event :=
  match find s.processes clientId with
  | none => (s, [])
  | some p =>
    match s.heap[p]?.join with
    | none => (s, [.stale p])
    | some proc =>
      let reaped := if a.kill = -1 then [] else [Event.process (.waitpid proc.pid false a.wait)]
      ({ s with
          heap := s.heap.set p none
          processes := if shouldDelete then delete s.processes clientId else s.processes },
        .closed proc.fdm :: .process (.kill proc.pid a.kill) :: reaped ++ [.released p])

def terminalWrite (s : State M) (a : Answers) (msg : TunnelMsg) : ℤ × List Event :=
  match find s.processes msg.header.clientId with
  | none => (-1, [])
  | some p =>
    match s.heap[p]?.join with
    | none => (-1, [.stale p])
    | some proc =>
      (if a.write = -1 then -1 else 0, [.wrote proc.fdm msg.payload a.write])

/-- A negative size keeps what the terminal has. -/
def terminalResize (s : State M) (a : Answers) (cid : UInt16) (col row : Int32) : List Event :=
  match find s.processes cid with
  | none => []
  | some p =>
    match s.heap[p]?.join with
    | none => [.stale p]
    | some proc =>
      let resize (win : UInt16 × UInt16) := Event.resized proc.fdm
        (if 0 ≤ row then row.toUInt32.toUInt16 else win.1)
        (if 0 ≤ col then col.toUInt32.toUInt16 else win.2)
      match a.winsize with
      | .inl false => []
      | .inl true => [resize (0, 0)]
      | .inr win => [resize win]

/-! ### Callbacks -/

def unsubscribe (answers : UInt16 → Answers) (stack : TunnelMsgH) (s : State M)
    (node : UInt16 × ℕ) : State M × List Event :=
  match s.heap[node.2]?.join with
  | none => (s, [.stale node.2])
  | some proc =>
    let (s, out) := terminalKill s (answers proc.cid) proc.cid false
    let reply := Event.sent (frame CHANNEL_UNSUBSCRIBE stack.channelId proc.cid [])
    -- The error log of a failed send reads the record again.
    (s, out ++ reply :: if (answers proc.cid).send then [] else [.stale node.2])

/-- The list collects the nodes to delete. -/
def setSockFd (answers : UInt16 → Answers) (stack : TunnelMsgH)
    (x : State M × List (UInt16 × ℕ)) (node : UInt16 × ℕ) :
    (State M × List (UInt16 × ℕ)) × List Event :=
  let (s, list) := x
  match s.heap[node.2]?.join with
  | none => ((s, list), [.stale node.2])
  | some proc =>
    let wpid := (answers node.1).poll
    let polled := Event.process (.waitpid proc.pid true wpid)
    if wpid = -1 ∨ wpid > 0 then
      let (s, out) := unsubscribe answers stack s node
      ((s, list ++ [node]), polled :: out)
    else ((s, list), [polled])

def terminalMonitor (A : Antd) (answers : UInt16 → Answers) (stack : TunnelMsgH)
    (x : State M × List (UInt16 × ℕ)) (node : UInt16 × ℕ) :
    (State M × List (UInt16 × ℕ)) × List Event :=
  let (s, list) := x
  match s.heap[node.2]?.join with
  | none => ((s, list), [.stale node.2])
  | some proc =>
    let a := answers node.1
    if a.ready then
      match a.read with
      | some bytes =>
        let bytes := bytes.take A.BUFFLEN
        let received := Event.read proc.fdm (some bytes)
        if bytes = [] then ((s, list), [received])
        else
          let data := Event.sent (frame CHANNEL_DATA stack.channelId node.1 bytes)
          if a.send then ((s, list), [received, data])
          else
            let (s, out) := terminalKill s a node.1 false
            ((s, list ++ [node]), received :: data :: out)
      | none =>
        let (s, out) := terminalKill s a node.1 false
        ((s, list ++ [node]), .read proc.fdm none :: out)
    else ((s, list), [])

/-! ### The loop -/

def deleteNodes (s : State M) (list : List (UInt16 × ℕ)) : State M :=
  { s with processes := list.foldl (fun m node => delete m node.1) s.processes }

def monitorProcesses (s : State M) (p : Pass) : State M × List Event :=
  let ((s, list), out) := visitAll (setSockFd p.answers p.stack) (s, []) (entries s.processes)
  (deleteNodes s list, out)

/-- `free` of the record of a node. What follows a second one is undefined. -/
def release (s : State M) (node : UInt16 × ℕ) : State M :=
  match s.heap[node.2]?.join with
  | none => { s with intact := false }
  | some _ => { s with heap := s.heap.set node.2 none }

/-- The records of the deleted nodes are freed here too, although `terminal_kill` did it. -/
def monitorTerminals (A : Antd) (s : State M) (p : Pass) : State M × List Event :=
  let ((s, list), out) :=
    visitAll (terminalMonitor A p.answers p.stack) (s, []) (entries s.processes)
  (list.foldl release (deleteNodes s list), out ++ list.map fun node => .released node.2)

/-- The reply to a client whose terminal could not be made or written. -/
def refuse (msg : TunnelMsgH) : Event :=
  .sent (frame CHANNEL_UNSUBSCRIBE msg.channelId msg.clientId [])

def channelSubscribe (s : State M) (p : Pass) (i : Input) : State M × List Event :=
  match terminalNew p.spawn (cString i.memory) with
  | (none, out) => (s, out ++ [refuse i.request.header])
  | (some (fdm, pid), out) =>
    ({ s with
        heap := s.heap ++ [some ⟨fdm, pid, i.client⟩]
        processes := insert s.processes i.client s.heap.length }, out)

/-- A 32-bit word of the payload, in network order. -/
def word (i : Input) (off : ℕ) : Int32 :=
  (ntohl (word32 ((i.request.payload.drop off).take 4))).toInt32

def channelCtrl (s : State M) (p : Pass) (i : Input) : State M × List Event :=
  if i.size = 8 then
    (s, terminalResize s (p.answers i.client) i.client (word i 0) (word i 4))
  else (s, [])

def channelData (s : State M) (p : Pass) (i : Input) : State M × List Event :=
  let (rc, out) := terminalWrite s (p.answers i.client) i.request
  if rc = -1 then
    let (s, killed) := terminalKill s (p.answers i.client) i.client true
    (s, out ++ killed ++ [refuse i.request.header])
  else (s, out)

def handleMessage (s : State M) (p : Pass) (i : Input) : State M × List Event :=
  let type := i.request.header.type
  if type = CHANNEL_SUBSCRIBE then channelSubscribe s p i
  else if type = CHANNEL_UNSUBSCRIBE then terminalKill s (p.answers i.client) i.client true
  else if type = CHANNEL_CTRL then channelCtrl s p i
  else if type = CHANNEL_DATA then channelData s p i
  else (s, [])

/-- One turn of the loop. -/
def turn (A : Antd) (s : State M) (p : Pass) : State M × List Event :=
  let (s, polled) := monitorProcesses s p
  let (s, out) :=
    match p.selected with
    | .failed => ({ s with running := false }, [])
    | .timeout => (s, [])
    | .unreadable left => ({ s with msg := left, running := false }, [])
    | .message i => handleMessage { s with msg := i.request.header } p i
    | .terminals => monitorTerminals A s p
  ({ s with running := s.running && !p.interrupted }, polled ++ out)

/-- The loop head after the channel-open answer. -/
def initial (answer : TunnelMsgH) : State M :=
  ⟨empty, [], answer, answer.type = CHANNEL_OK, true⟩

/-- From the end of the loop on. -/
def shutdown (s : State M) (answers : UInt16 → Answers) (stack : TunnelMsgH) : List Event :=
  (visitAll (unsubscribe answers stack) s (entries s.processes)).2 ++
    [.sent (frame CHANNEL_CLOSE s.msg.channelId s.msg.clientId [])]

/-- The exit of a run that gets there. -/
def exit (s : State M) (answers : UInt16 → Answers) (stack : TunnelMsgH) : List Event :=
  if s.intact then shutdown s answers stack else []

/-- Whether there is a next turn. A run ends where a record is freed for the second time. -/
def State.going (s : State M) : Bool := s.running && s.intact

abbrev Step (A : Antd) : State M → Pass → List Event → State M → Prop :=
  Guarded State.going (turn A)

end VtermService
