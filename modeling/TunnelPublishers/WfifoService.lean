import TunnelPublishers.TunnelFraming
import TunnelPublishers.FiniteMap
import TunnelPublishers.ExecutionTraces
import TunnelPublishers.KernelTables

/-!
# The FIFO service

Clients read from or write to named pipes, one for each user when the base path
is a directory. The state is what is live at the head of the main loop, a pass
is one turn of the loop, and the calls that matter outside the process are
events. Both trees hold descriptors, 0 standing for none.
-/
namespace WfifoService

open ByteOrder FiniteMaps FiniteMap TunnelFraming ExecutionTraces KernelTables

inductive Event where
  | unlinked (path : List UInt8)
  | created (path : List UInt8) (result : ℤ)
  | opened (path : List UInt8) (fd : ℤ)
  | owned (path : List UInt8) (uid : UInt32) (result : ℤ)
  | closed (fd : ℤ)
  | wrote (fd : ℤ) (bytes : List UInt8) (result : ℤ)
  | read (fd : ℤ) (bytes : Option (List UInt8))
  | sent (msg : TunnelMsg)
  deriving DecidableEq, Repr

/-- The openings and closings in a trace. -/
def descriptors (trace : List Event) : List DescriptorCall :=
  trace.filterMap fun
    | .opened _ fd => some (.opened fd)
    | .closed fd => some (.closed fd)
    | _ => none

/-- The base path and the first letter of the mode, from the command line. -/
structure Args where
  base : List UInt8
  mode : UInt8

/-- `msg` is the header of the message struct of `main`. -/
structure State (M : Type → Type → Type) where
  clients : M UInt16 ℤ
  fifoHandles : M Int32 ℤ
  msg : TunnelMsgH
  running : Bool

/-! ### The kernel's answers -/

inductive FileKind where
  | missing
  | directory
  | other
  deriving DecidableEq, Repr

/-- To one call of `init_fifo`. -/
structure Opening where
  /-- What `stat` finds at the base path. -/
  stat : FileKind
  /-- `getpwnam`: the user's id, if the user exists. -/
  pwd : Option UInt32
  mkfifo : ℤ
  «open» : ℤ
  chown : ℤ
  deriving DecidableEq, Repr

/-- About one FIFO, in one pass. -/
structure Answers where
  ready : Bool
  read : Option (List UInt8)
  deriving DecidableEq, Repr

inductive Selected where
  | failed
  | timeout
  /-- `msg_read` fails and leaves this header in the struct. -/
  | unreadable (left : TunnelMsgH)
  | message (i : Input)
  | fifos

structure Pass where
  opening : Opening
  answers : Int32 → Answers
  /-- `write` to a FIFO. -/
  write : ℤ
  /-- Whether `msg_write` of the error reply succeeds. -/
  send : Bool
  selected : Selected
  /-- Whether SIGINT arrives. -/
  interrupted : Bool

/-! ### FIFOs -/

/-- What `snprintf` leaves in the buffer. -/
def cut (A : Antd) (path : List UInt8) : List UInt8 := path.take (A.BUFFLEN - 1)

def fifoPath (A : Antd) (base user : List UInt8) : List UInt8 :=
  cut A (base ++ text "/" ++ user ++ text ".fifo")

variable {M : Type → Type → Type} [FiniteMap M]

/-- The end of `init_fifo`, for a path not held yet. A FIFO of a user is given to that user. -/
def openFifo (handles : M Int32 ℤ) (a : Opening) (hash : Int32) (path : List UInt8)
    (uid : Option UInt32) : ℤ × M Int32 ℤ × List Event :=
  let made := [Event.unlinked path, .created path a.mkfifo]
  if a.mkfifo = -1 then (-1, handles, made)
  else if a.open = -1 then (-1, handles, made)
  else
    let made := made ++ [.opened path a.open]
    match uid with
    | none => (a.open, insert handles hash a.open, made)
    | some uid =>
      let made := made ++ [.owned path uid a.chown]
      if a.chown = -1 then (-1, handles, made ++ [.closed a.open])
      else (a.open, insert handles hash a.open, made)

/-- `init_fifo` from the hash on. -/
def lookupFifo (A : Antd) (handles : M Int32 ℤ) (a : Opening) (path : List UInt8)
    (uid : Option UInt32) : ℤ × M Int32 ℤ × List Event :=
  let hash := A.simpleHash path
  match find handles hash with
  | some fd => if fd ≠ 0 then (fd, handles, []) else openFifo handles a hash path uid
  | none => openFifo handles a hash path uid

/-- Returns the descriptor or -1. -/
def initFifo (A : Antd) (handles : M Int32 ℤ) (a : Opening) (base : List UInt8)
    (user : Option (List UInt8)) : ℤ × M Int32 ℤ × List Event :=
  match a.stat, user with
  | .directory, none => (-1, handles, [])
  | .directory, some user =>
    match a.pwd with
    | none => (-1, handles, [])
    | some uid => lookupFifo A handles a (fifoPath A base user) (some uid)
  | _, _ => lookupFifo A handles a (cut A base) none

/-- What the end of `init_fifo` comes to: no FIFO, a FIFO closed again because it could not be given
to its user, or a FIFO that is held under the hash. -/
theorem openFifo_cases (handles : M Int32 ℤ) (a : Opening) (hash : Int32) (path : List UInt8)
    (uid : Option UInt32) :
    openFifo handles a hash path uid =
        (-1, handles, [.unlinked path, .created path a.mkfifo]) ∨
      (∃ user, openFifo handles a hash path uid =
        (-1, handles, [.unlinked path, .created path a.mkfifo, .opened path a.open,
          .owned path user (-1), .closed a.open])) ∨
      ∃ owned, (owned = [] ∨ ∃ user, owned = [.owned path user a.chown]) ∧
        openFifo handles a hash path uid = (a.open, insert handles hash a.open,
          .unlinked path :: .created path a.mkfifo :: .opened path a.open :: owned) := by
  by_cases hmade : a.mkfifo = -1
  · exact .inl (by simp only [openFifo, hmade, ↓reduceIte])
  by_cases hopen : a.open = -1
  · exact .inl (by simp only [openFifo, hmade, hopen, ↓reduceIte])
  cases uid with
  | none => exact .inr (.inr ⟨[], .inl rfl, by simp only [openFifo, hmade, hopen, ↓reduceIte]; rfl⟩)
  | some user =>
    by_cases hown : a.chown = -1
    · exact .inr (.inl ⟨user, by simp only [openFifo, hmade, hopen, hown, ↓reduceIte]; rfl⟩)
    · exact .inr (.inr ⟨[.owned path user a.chown], .inr ⟨user, rfl⟩,
        by simp only [openFifo, hmade, hopen, hown, ↓reduceIte]; rfl⟩)

theorem lookupFifo_cases (A : Antd) (handles : M Int32 ℤ) (a : Opening) (path : List UInt8)
    (uid : Option UInt32) :
    ((∀ fd, find handles (A.simpleHash path) = some fd → fd = 0) ∧
      lookupFifo A handles a path uid = openFifo handles a (A.simpleHash path) path uid) ∨
    ∃ fd, fd ≠ 0 ∧ find handles (A.simpleHash path) = some fd ∧
      lookupFifo A handles a path uid = (fd, handles, []) := by
  cases hfind : find handles (A.simpleHash path) with
  | none => exact .inl ⟨by simp, by simp only [lookupFifo, hfind]⟩
  | some fd =>
    by_cases hzero : fd = 0
    · exact .inl ⟨by simp [hzero], by simp [lookupFifo, hfind, hzero]⟩
    · exact .inr ⟨fd, hzero, rfl, by simp [lookupFifo, hfind, hzero]⟩

theorem initFifo_cases (A : Antd) (handles : M Int32 ℤ) (a : Opening) (base : List UInt8)
    (user : Option (List UInt8)) :
    initFifo A handles a base user = (-1, handles, []) ∨
      ∃ path uid, initFifo A handles a base user = lookupFifo A handles a path uid := by
  unfold initFifo
  split
  · exact .inl rfl
  · cases a.pwd with
    | none => exact .inl rfl
    | some uid => exact .inr ⟨_, _, rfl⟩
  · exact .inr ⟨_, _, rfl⟩

/-- With a directory as base path, the path is that of the user. -/
theorem initFifo_user (A : Antd) (handles : M Int32 ℤ) {a : Opening} (hdir : a.stat = .directory)
    (base : List UInt8) (user : Option (List UInt8)) :
    initFifo A handles a base user = (-1, handles, []) ∨
      ∃ u uid, user = some u ∧ a.pwd = some uid ∧
        initFifo A handles a base user = lookupFifo A handles a (fifoPath A base u) (some uid) := by
  cases user with
  | none => exact .inl (by simp [initFifo, hdir])
  | some u =>
    cases hpwd : a.pwd with
    | none => exact .inl (by simp [initFifo, hdir, hpwd])
    | some uid => exact .inr ⟨u, uid, rfl, rfl, by simp [initFifo, hdir, hpwd]⟩

/-! ### Callbacks -/

def sendData (ffd : ℤ) (bytes : List UInt8) (msg : TunnelMsgH) (node : UInt16 × ℤ) :
    TunnelMsgH × List Event :=
  if node.2 = 0 ∨ node.2 ≠ ffd then (msg, [])
  else ({ msg with clientId := node.1 }, [.sent (frame msg.type msg.channelId node.1 bytes)])

def monitorFifoHandles (A : Antd) (answers : Int32 → Answers) (clients : M UInt16 ℤ)
    (msg : TunnelMsgH) (node : Int32 × ℤ) : TunnelMsgH × List Event :=
  if node.2 = 0 ∨ (answers node.1).ready = false then (msg, [])
  else
    match (answers node.1).read with
    | none => (msg, [.read node.2 none])
    | some bytes =>
      let bytes := bytes.take A.BUFFLEN
      let msg := { msg with size := UInt32.ofNat bytes.length }
      let (msg, out) := visitAll (sendData node.2 bytes) msg (entries clients)
      (msg, .read node.2 (some bytes) :: out)

/-! ### The loop -/

/-- The C string that stands for the user: the payload and, past its end, what follows it. -/
def user (i : Input) : Option (List UInt8) :=
  i.request.data.map fun _ => cString i.memory

def channelSubscribe (A : Antd) (x : Args) (s : State M) (p : Pass) (i : Input) :
    State M × List Event :=
  let (ffd, handles, out) := initFifo A s.fifoHandles p.opening x.base (user i)
  if ffd ≠ -1 then
    ({ s with fifoHandles := handles, clients := insert s.clients i.client ffd }, out)
  else ({ s with fifoHandles := handles }, out)

def channelData (x : Args) (s : State M) (p : Pass) (i : Input) : State M × List Event :=
  if x.mode = 119 then
    match find s.clients i.client with
    | none => (s, [])
    | some fd =>
      if fd ≠ 0 ∧ 0 < i.size then
        ({ s with running := s.running && p.write ≠ -1 },
          [.wrote fd i.request.payload p.write])
      else (s, [])
  else
    let reply := text "Channel is read only"
    ({ s with
        msg := { s.msg with type := CHANNEL_ERROR, size := UInt32.ofNat reply.length }
        running := s.running && p.send },
      [.sent (frame CHANNEL_ERROR s.msg.channelId s.msg.clientId reply)])

/-- `s.msg` is the header of the request. -/
def handleMessage (A : Antd) (x : Args) (s : State M) (p : Pass) (i : Input) :
    State M × List Event :=
  let type := i.request.header.type
  if type = CHANNEL_SUBSCRIBE then channelSubscribe A x s p i
  else if type = CHANNEL_UNSUBSCRIBE then
    ({ s with clients := delete s.clients i.client }, [])
  else if type = CHANNEL_DATA then channelData x s p i
  else (s, [])

def monitorFifos (A : Antd) (x : Args) (s : State M) (p : Pass) : State M × List Event :=
  if x.mode = 114 then
    let (msg, out) := visitAll (monitorFifoHandles A p.answers s.clients)
      { s.msg with type := CHANNEL_DATA } (entries s.fifoHandles)
    ({ s with msg := msg }, out)
  else (s, [])

/-- One turn of the loop. -/
def turn (A : Antd) (x : Args) (s : State M) (p : Pass) : State M × List Event :=
  let (s, out) :=
    match p.selected with
    | .failed => ({ s with running := false }, [])
    | .timeout => (s, [])
    | .unreadable left => ({ s with msg := left, running := false }, [])
    | .message i => handleMessage A x { s with msg := i.request.header } p i
    | .fifos => monitorFifos A x s p
  ({ s with running := s.running && !p.interrupted }, out)

/-- The loop head after the channel-open answer and the attempt to open a FIFO for all. -/
def initial (A : Antd) (x : Args) (answer : TunnelMsgH) (a : Opening) : State M × List Event :=
  let (_, handles, out) := initFifo A (empty : M Int32 ℤ) a x.base none
  (⟨empty, handles, answer, answer.type = CHANNEL_OK⟩, out)

/-- From the end of the loop on; `stack` is what `unsubscribe` finds in its local header. -/
def shutdown (s : State M) (stack : TunnelMsgH) : List Event :=
  (entries s.clients).map (fun n => .sent (frame CHANNEL_UNSUBSCRIBE stack.channelId n.1 [])) ++
    (entries s.fifoHandles).flatMap (fun n => if 0 < n.2 then [.closed n.2] else []) ++
    [.sent (frame CHANNEL_CLOSE s.msg.channelId s.msg.clientId [])]

abbrev Step (A : Antd) (x : Args) : State M → Pass → List Event → State M → Prop :=
  Guarded State.running (turn A x)

end WfifoService
