import TunnelPublishers.TunnelFraming
import TunnelPublishers.FiniteMap
import TunnelPublishers.CallOutcomes

/-!
# The camera service

One capture device with one mapped buffer, streamed to all clients as JPEG
frames. Every call to the kernel is logged with its result and with the setting
at the time of the call. A round of the program is its set-up, one turn of its
loop, or its shutdown. `cam_grab_frame`, which nothing calls, and log texts are
left out.
-/
namespace CamService

open ByteOrder FiniteMaps FiniteMap TunnelFraming ExecutionTraces CallOutcomes

/-- `raw_buffer`: NULL, MAP_FAILED, or the mapped frame. -/
inductive RawBuffer where
  | null
  | failed
  | mapped
  deriving DecidableEq, Repr

structure CamSetting where
  width : UInt16
  height : UInt16
  fps : UInt8
  jpegQuality : UInt8
  rawBuffer : RawBuffer
  fd : ℤ
  timerfd : ℤ
  rawSize : ℤ
  devName : List UInt8
  queued : UInt8
  deriving DecidableEq, Repr

/-- The variables that hold descriptors. -/
inductive Field where
  | camera
  | timer
  | sock
  deriving DecidableEq, Repr

inductive Call where
  | «open» (path : List UInt8) (result : ℤ)
  | timerfdCreate (result : ℤ)
  | openSocket (result : ℤ)
  | close (field : Field) (fd : ℤ)
  | setFormat (fd : ℤ) (width height : UInt16) (ok : Bool)
  | setParm (fd : ℤ) (fps : UInt8) (ok : Bool)
  | requestBuffers (fd : ℤ) (count : ℕ) (ok : Bool)
  /-- The length of the buffer, or nothing when the ioctl fails. -/
  | queryBuffer (fd : ℤ) (length : Option UInt32)
  | streamOn (fd : ℤ) (ok : Bool)
  /-- The field `bytesused` the driver fills in. -/
  | queueBuffer (fd : ℤ) (bytesused : Option UInt32)
  | dequeueBuffer (fd : ℤ) (bytesused : Option UInt32)
  | mmap (fd : ℤ) (length : UInt32) (ok : Bool)
  | munmap (buffer : RawBuffer) (size : ℕ) (ok : Bool)
  | timerfdSettime (fd : ℤ) (nsec : ℤ) (ok : Bool)
  | read (fd : ℤ) (expirations : Option UInt64)
  /-- Rows of the frame are read at these offsets. -/
  | scanlines (offsets : List UInt32)
  | sent (msg : TunnelMsg)
  deriving DecidableEq, Repr

structure Event where
  opts : CamSetting
  call : Call
  deriving DecidableEq, Repr

/-! ### The kernel's answers -/

structure Cleanup where
  dequeue : Option UInt32
  streamOn : Bool
  munmap : Bool
  deriving DecidableEq, Repr

structure Timer where
  create : ℤ
  settime : Bool
  /-- What the conversion to `long` makes of an infinite period. -/
  infinite : ℤ
  deriving DecidableEq, Repr

structure Apply where
  cleanup : Cleanup
  «open» : ℤ
  format : Bool
  parm : Bool
  request : Bool
  query : Option UInt32
  mmap : Bool
  timer : Timer
  deriving DecidableEq, Repr

/-! ### The device -/

def camSetFormat (opts : CamSetting) (a : Apply) : Outcome CamSetting Event :=
  Outcome.andThen ⟨a.format, opts, [⟨opts, .setFormat opts.fd opts.width opts.height a.format⟩]⟩
    fun opts => ⟨a.parm, opts, [⟨opts, .setParm opts.fd opts.fps a.parm⟩]⟩

def camRequestBuffer (opts : CamSetting) (count : ℕ) (ok : Bool) : Outcome CamSetting Event :=
  ⟨ok, opts, [⟨opts, .requestBuffers opts.fd count ok⟩]⟩

/-- The length is returned as an `int`, and -1 stands for a failure. -/
def camQueryBuffer (opts : CamSetting) (query : Option UInt32) (mmap : Bool) :
    Outcome CamSetting Event :=
  let queried : Event := ⟨opts, .queryBuffer opts.fd query⟩
  match query with
  | none => ⟨false, opts, [queried]⟩
  | some length =>
    ⟨cInt length.toNat ≠ -1,
      { opts with
          rawBuffer := if mmap then .mapped else .failed
          rawSize := cInt length.toNat },
      [queried, ⟨opts, .mmap opts.fd length mmap⟩]⟩

def camReleaseBuffer (opts : CamSetting) (munmap : Bool) : Outcome CamSetting Event :=
  if opts.rawBuffer = .null then .done opts
  else
    Outcome.andThen
      ⟨munmap, opts, [⟨opts, .munmap opts.rawBuffer (sizeT opts.rawSize) munmap⟩]⟩
      fun opts => .done { opts with rawBuffer := .null, rawSize := 0 }

def camStartStreaming (opts : CamSetting) (ok : Bool) : Outcome CamSetting Event :=
  ⟨ok, opts, [⟨opts, .streamOn opts.fd ok⟩]⟩

/-- `bytesused` as the `int` that is returned; -1 stands for a failure. -/
def returned (bytesused : Option UInt32) : ℤ :=
  match bytesused with
  | none => -1
  | some bytes => cInt bytes.toNat

def camQueueBuffer (opts : CamSetting) (bytesused : Option UInt32) : Outcome CamSetting Event :=
  ⟨returned bytesused ≠ -1, opts, [⟨opts, .queueBuffer opts.fd bytesused⟩]⟩

def camDequeueBuffer (opts : CamSetting) (bytesused : Option UInt32) : Outcome CamSetting Event :=
  ⟨returned bytesused ≠ -1, opts, [⟨opts, .dequeueBuffer opts.fd bytesused⟩]⟩

/-- The source asks for STREAMON here too. -/
def camStopStreaming (opts : CamSetting) (ok : Bool) : Outcome CamSetting Event :=
  ⟨ok, opts, [⟨opts, .streamOn opts.fd ok⟩]⟩

/-- The fields keep the numbers that are closed. -/
def closeAll (opts : CamSetting) : Outcome CamSetting Event :=
  ⟨true, opts, (if opts.fd > 0 then [⟨opts, .close .camera opts.fd⟩] else []) ++
    if opts.timerfd > 0 then [⟨opts, .close .timer opts.timerfd⟩] else []⟩

def camCleanup (opts : CamSetting) (closeFd : Bool) (a : Cleanup) : Outcome CamSetting Event :=
  let dequeued :=
    if opts.queued = 1 then
      (camDequeueBuffer opts a.dequeue).andThen fun opts => .done { opts with queued := 0 }
    else .done opts
  dequeued.andThen fun opts =>
    (camStopStreaming opts a.streamOn).andThen fun opts =>
      (camReleaseBuffer opts a.munmap).andThen fun opts =>
        if closeFd then closeAll opts else .done opts

/-- `(long) (1e9 / opts->fps)`. -/
def framePeriod (fps : UInt8) (infinite : ℤ) : ℤ :=
  if fps = 0 then infinite else 10 ^ 9 / fps.toNat

def camInitTimer (opts : CamSetting) (a : Timer) : Outcome CamSetting Event :=
  let closed : Outcome CamSetting Event :=
    if opts.timerfd ≠ -1 then ⟨true, opts, [⟨opts, .close .timer opts.timerfd⟩]⟩ else .done opts
  closed.andThen fun opts =>
    Outcome.andThen
      ⟨a.create ≠ -1, { opts with timerfd := a.create }, [⟨opts, .timerfdCreate a.create⟩]⟩
      fun opts =>
        let armed : Event :=
          ⟨opts, .timerfdSettime opts.timerfd (framePeriod opts.fps a.infinite) a.settime⟩
        if a.settime then ⟨true, opts, [armed]⟩
        else ⟨false, { opts with timerfd := -1 }, [armed, ⟨opts, .close .timer opts.timerfd⟩]⟩

/-- From `open` to the mapped buffer. -/
def openDevice (opts : CamSetting) (a : Apply) : Outcome CamSetting Event :=
  Outcome.andThen ⟨a.open ≠ -1, { opts with fd := a.open }, [⟨opts, .open opts.devName a.open⟩]⟩
    fun opts => (camSetFormat opts a).andThen fun opts =>
      (camRequestBuffer opts 1 a.request).andThen fun opts => camQueryBuffer opts a.query a.mmap

def camApplySetting (opts : CamSetting) (a : Apply) : Outcome CamSetting Event :=
  let cleaned := if opts.rawBuffer ≠ .null then camCleanup opts true a.cleanup else .done opts
  cleaned.andThen fun opts =>
    (openDevice opts a).andThen fun opts => (camInitTimer opts a.timer).ignored

/-! ### Frames -/

/-- The offsets of the rows, in the 32-bit arithmetic of the scanline counter. -/
def rowOffsets (opts : CamSetting) : List UInt32 :=
  (List.range opts.height.toNat).map fun k => UInt32.ofNat k * opts.width.toUInt32 * 3

/-- The header of the local message keeps the channel the stack holds. -/
def camSendFrameClient (opts : CamSetting) (clients : List UInt16) (stack : TunnelMsgH)
    (jpeg : List UInt8) (dequeue : Option UInt32) : Outcome CamSetting Event :=
  if opts.queued = 0 then .done opts
  else
    let frames : List Event := clients.map fun client =>
      ⟨opts, .sent (frame CHANNEL_DATA stack.channelId client jpeg)⟩
    Outcome.andThen
      ⟨true, opts, if clients ≠ [] then ⟨opts, .scanlines (rowOffsets opts)⟩ :: frames else []⟩
      fun opts => (camDequeueBuffer opts dequeue).andThen fun opts =>
        .done { opts with queued := 0 }

/-- The payload of a CTRL message: the setting in network order. -/
def ctrlBytes (opts : CamSetting) : List UInt8 :=
  mem16 (htons opts.width) ++ mem16 (htons opts.height) ++ [opts.fps, opts.jpegQuality]

/-- The setting a CTRL message of six bytes asks for. -/
def requested (opts : CamSetting) (payload : List UInt8) : CamSetting :=
  { opts with
      width := ntohs (word16 (payload.take 2))
      height := ntohs (word16 ((payload.drop 2).take 2))
      fps := payload.getD 4 0
      jpegQuality := payload.getD 5 0 }

/-! ### The main program -/

/-- `msg` is the header of the message struct of `main`. -/
structure State (M : Type → Type → Type) where
  opts : CamSetting
  clients : M UInt16 Unit
  msg : TunnelMsgH
  sock : ℤ
  running : Bool

/-- The arguments, and what the memory at `buff` holds before `main` writes it. -/
structure Args where
  name : List UInt8
  device : List UInt8
  buff : List UInt8
  deriving DecidableEq, Repr

structure Setup where
  apply : Apply
  socket : ℤ
  /-- Whether the CHANNEL_OPEN message can be written. -/
  send : Bool
  /-- The header of the answer, if it can be read. -/
  answer : Option TunnelMsgH
  streamOn : Bool
  cleanup : Cleanup
  /-- Whether SIGINT arrives. -/
  interrupted : Bool

inductive Selected where
  | failed
  | timeout
  /-- `msg_read` fails and leaves this header in the struct. -/
  | unreadable (left : TunnelMsgH)
  | message (i : Input)
  /-- Only the camera is ready. The compressor ends the process, or gives the frame. -/
  | frame (jpeg : Option (List UInt8))
  | neither

structure Pass where
  queue : Option UInt32
  selected : Selected
  dequeue : Option UInt32
  timer : Timer
  /-- The expirations read from the timer, eight bytes or an error. -/
  read : Option UInt64
  apply : Apply
  /-- For the clean-up after a failed change of the setting. -/
  cleanup : Cleanup
  streamOn : Bool
  /-- Whether the answer to a subscriber can be written. -/
  send : Bool
  /-- What the stack holds where local message headers are put. -/
  stack : TunnelMsgH
  /-- Whether SIGINT arrives. -/
  interrupted : Bool

variable {M : Type → Type → Type} [FiniteMap M]

/-- What a function does to the setting; a failure ends the loop if it is looked at. -/
def State.with (s : State M) (r : Outcome CamSetting Event) : Outcome (State M) Event :=
  ⟨true, { s with opts := r.state, running := s.running && r.ok }, r.out⟩

def subscribers (s : State M) : List UInt16 := (entries s.clients).map Prod.fst

/-- A client is waiting for a frame, and no buffer is queued. -/
def queueNext (s : State M) (queue : Option UInt32) : Outcome (State M) Event :=
  if subscribers s ≠ [] ∧ s.opts.queued = 0 then
    s.with ((camQueueBuffer s.opts queue).andThen fun opts => .done { opts with queued := 1 })
  else .done s

/-- Without clients there is no timer. -/
def stopTimer (s : State M) : Outcome (State M) Event :=
  if subscribers s = [] ∧ s.opts.timerfd ≠ -1 then
    s.with ⟨true, { s.opts with timerfd := -1 }, [⟨s.opts, .close .timer s.opts.timerfd⟩]⟩
  else .done s

def channelSubscribe (s : State M) (p : Pass) (i : Input) : Outcome (State M) Event :=
  let timed :=
    if subscribers s = [] then s.with (camInitTimer s.opts p.timer).ignored else .done s
  timed.andThen fun s =>
    let reply := Event.mk s.opts
      (.sent (frame CHANNEL_CTRL i.request.header.channelId i.client (ctrlBytes s.opts)))
    ⟨true, { s with
        clients := insert s.clients i.client ()
        msg := { s.msg with type := CHANNEL_CTRL, size := 6 }
        running := s.running && p.send }, [reply]⟩

/-- All clients learn of the new setting. -/
def announce (s : State M) : Outcome (State M) Event :=
  ⟨true, { s with
      msg := { s.msg with
        type := CHANNEL_CTRL
        clientId := (subscribers s).getLast?.getD s.msg.clientId
        size := 6 } },
    (subscribers s).map fun client =>
      ⟨s.opts, .sent (frame CHANNEL_CTRL s.msg.channelId client (ctrlBytes s.opts))⟩⟩

def channelCtrl (s : State M) (p : Pass) (i : Input) : Outcome (State M) Event :=
  if i.size = 6 then
    let applied := camApplySetting (requested s.opts i.request.payload) p.apply
    (s.with applied).andThen fun s =>
      if applied.ok = false then s.with (camCleanup s.opts false p.cleanup).ignored
      else
        (s.with (camStartStreaming s.opts p.streamOn)).andThen fun s =>
          if p.streamOn then announce s else .done s
  else .done s

def handleMessage (s : State M) (p : Pass) (i : Input) : Outcome (State M) Event :=
  let type := i.request.header.type
  if type = CHANNEL_SUBSCRIBE then channelSubscribe s p i
  else if type = CHANNEL_UNSUBSCRIBE then .done { s with clients := delete s.clients i.client }
  else if type = CHANNEL_CTRL then channelCtrl s p i
  else .done s

/-- The read of the timer holds the next frame back. -/
def readTimer (opts : CamSetting) (read : Option UInt64) : Outcome CamSetting Event :=
  if opts.timerfd > 0 then ⟨true, opts, [⟨opts, .read opts.timerfd read⟩]⟩ else .done opts

/-- Not successful when the compressor ends the process. -/
def sendFrame (s : State M) (p : Pass) (jpeg : Option (List UInt8)) : Outcome (State M) Event :=
  if jpeg = none ∧ s.opts.queued ≠ 0 then ⟨false, s, []⟩
  else
    s.with ((camSendFrameClient s.opts (subscribers s) p.stack (jpeg.getD []) p.dequeue).andThen
      fun opts => readTimer opts p.read)

def select (s : State M) (p : Pass) : Outcome (State M) Event :=
  match p.selected with
  | .failed => .done { s with running := false }
  | .timeout => .done s
  | .unreadable left => .done { s with msg := left, running := false }
  | .message i => handleMessage { s with msg := i.request.header } p i
  | .frame jpeg => if subscribers s ≠ [] then sendFrame s p jpeg else .done s
  | .neither => .done s

/-- One turn of the loop. -/
def turn (s : State M) (p : Pass) : Outcome (State M) Event :=
  (queueNext s p.queue).andThen fun s =>
    (stopTimer s).andThen fun s =>
      (select s p).andThen fun s => .done { s with running := s.running && !p.interrupted }

/-- The setting in static storage, and what `main` puts into it first. -/
def defaults (device : List UInt8) : CamSetting where
  width := 640
  height := 480
  fps := 5
  jpegQuality := 60
  rawBuffer := .null
  fd := 0
  timerfd := 0
  rawSize := 0
  devName := (cString device).take 31
  queued := 0

/-- The name of the channel as `strlen` finds it in the buffer `strncpy` wrote. -/
def openName (args : Args) : List UInt8 :=
  cString (memcpyAt args.buff 0 (strncpy args.name 64))

/-- The camera is released and the program ends. -/
def abandon (s : State M) (a : Cleanup) : Outcome (State M) Event :=
  (s.with (camCleanup s.opts true a).ignored).andThen fun s =>
    ⟨false, s, if s.sock ≠ -1 then [⟨s.opts, .close .sock s.sock⟩] else []⟩

/-- Up to the head of the loop. -/
def setup (args : Args) (a : Setup) : Outcome (State M) Event :=
  let applied := camApplySetting (defaults args.device) a.apply
  let openMsg := frame CHANNEL_OPEN 0 0 (openName args)
  Outcome.andThen ⟨applied.ok, ⟨applied.state, empty, openMsg.header, a.socket, true⟩, applied.out⟩
    fun s => Outcome.andThen ⟨true, s, [⟨s.opts, .openSocket a.socket⟩]⟩ fun s =>
      if s.sock = -1 then abandon s a.cleanup
      else
        Outcome.andThen ⟨true, s, [⟨s.opts, .sent openMsg⟩]⟩ fun s =>
          if a.send = false then abandon s a.cleanup
          else
            match a.answer with
            | none => abandon s a.cleanup
            | some header =>
              let running := header.type = CHANNEL_OK && !a.interrupted
              State.with { s with msg := header, running } (camStartStreaming s.opts a.streamOn)

def unsubscribe (s : State M) (stack : TunnelMsgH) : List Event :=
  (subscribers s).map fun client =>
    ⟨s.opts, .sent (frame CHANNEL_UNSUBSCRIBE stack.channelId client [])⟩

/-- From the end of the loop on. -/
def shutdown (s : State M) (a : Cleanup) (stack : TunnelMsgH) : Outcome (State M) Event :=
  (s.with (camCleanup s.opts true a).ignored).andThen fun s =>
    ⟨false, s, unsubscribe s stack ++
      [⟨s.opts, .sent (frame CHANNEL_CLOSE s.msg.channelId s.msg.clientId [])⟩,
        ⟨s.opts, .close .sock s.sock⟩]⟩

/-! ### Runs -/

inductive Program (M : Type → Type → Type) where
  | start
  | loop (s : State M)
  | exited (opts : CamSetting)

/-- The answers in one round, of which it needs those of its part of the program. -/
structure Round where
  setup : Setup
  pass : Pass
  cleanup : Cleanup
  stack : TunnelMsgH

def Program.of (r : Outcome (State M) Event) : Program M × List Event :=
  (if r.ok then .loop r.state else .exited r.state.opts, r.out)

def next (args : Args) : Program M → Round → Program M × List Event
  | .start, a => Program.of (setup args a.setup)
  | .loop s, a => Program.of (if s.running then turn s a.pass else shutdown s a.cleanup a.stack)
  | .exited opts, _ => (.exited opts, [])

def Program.opts (args : Args) : Program M → CamSetting
  | start => defaults args.device
  | loop s => s.opts
  | exited opts => opts

abbrev Step (args : Args) : Program M → Round → List Event → Program M → Prop :=
  Guarded (fun _ => true) (next args)

end CamService
