import TunnelPublishers.PublisherProgram
import TunnelPublishers.FrameStreams
import TunnelPublishers.SyslogFanout
import TunnelPublishers.ChannelOpening

/-!
# The log program

`main` over the bytes of the hotline, with the local socket that the datagrams come
from. Every client is told on the wire what came in while its last word was SUBSCRIBE.
-/
namespace SyslogProgram

open ByteOrder FiniteMaps FiniteMap TunnelFraming ExecutionTraces SyslogService SyslogFanout
  PublisherProgram

/-- What a turn brings besides the bytes of the hotline. -/
structure Round where
  /-- What `select` returns, and which of the two descriptors it leaves in the set. -/
  status : ℤ
  hotline : Bool
  socket : Bool
  /-- `recvfrom`: the datagram, if it can be read. -/
  received : Option (List UInt8)
  /-- The memory behind the payload. -/
  beyond : List UInt8
  /-- Whether SIGINT arrives. -/
  interrupted : Bool

/-- The hotline is looked at before the socket. -/
def selected (r : Round) : Heard → Selected
  | .unreadable left => .unreadable left
  | .message m received => .message ⟨m, r.beyond, ⟨0, 0, 0, 0⟩, received⟩
  | .nothing =>
    if r.status = -1 then .failed
    else if r.status = 0 ∨ r.socket = false then .timeout
    else .datagram r.received

def pass (p : Round × Heard) : Pass := ⟨selected p.1 p.2, p.1.interrupted⟩

variable {M : Type → Type → Type} [FiniteMap M]

/-- Whether `select` leaves the hotline in the set. -/
def readable (r : Round) : Bool := r.status ≠ -1 && r.status ≠ 0 && r.hotline

/-- Whether a turn leaves the loop running. -/
def goesOn (p : Round × Heard) : Bool :=
  !p.1.interrupted &&
    match selected p.1 p.2 with
    | .failed | .unreadable _ | .datagram none => false
    | .timeout | .message _ | .datagram (some _) => true

def publisher (A : Antd) (stack : TunnelMsgH) : Publisher (State M) Round Empty where
  running := State.running
  request := State.msg
  readable := readable
  turn s r heard := .ok (turn A s (pass (r, heard)))
  shutdown s := .ok (shutdown s stack)
  response s := { s.msg with type := CHANNEL_CLOSE, size := 0 }

/-- What the program finds before its loop. -/
structure Setup where
  socket : ℤ
  bind : ℤ
  /-- `open_socket`: the descriptor of the hotline and its two directions. -/
  hotline : Option (ℤ × Hotline)

/-- The exit status, the descriptors closed, and the hotline; nothing if `strlen` of the channel's
name runs past the buffer. -/
def main (M : Type → Type → Type) [FiniteMap M] (A : Antd) (name : ChannelOpening.Argument)
    (buff : ChannelOpening.LineBuffer A) (stack : TunnelMsgH) (a : Setup) (rounds : List Round) :
    Option (ℤ × List ℤ × Option Hotline) :=
  if a.socket < 0 then some (-1, [], none)
  else if a.bind ≠ 0 then some (-1, [a.socket], none)
  else
    match a.hotline with
    | none => some (-1, [a.socket], none)
    | some (fd, hotline) => do
      let named ← ChannelOpening.openChannel buff name
      match (publisher A stack : Publisher (State M) Round Empty).main named named
          (fun answer => initial answer.header) hotline rounds with
      | .ok (st, hotline) => some (st, [fd, a.socket], some hotline)

/-! ### What the service is sent and sends -/

section Service

variable {A : Antd} {s : State M} {stack : TunnelMsgH}

theorem turn_sendable (A : Antd) (s : State M) (p : Pass) : ∀ m ∈ (turn A s p).2, m.Sendable := by
  intro m hm
  unfold turn at hm
  cases hsel : p.selected with
  | failed | timeout | unreadable | message => simp [hsel] at hm
  | datagram bytes =>
    cases bytes with
    | none => simp [hsel] at hm
    | some bytes =>
      simp only [hsel, forward_out] at hm
      obtain ⟨n, -, rfl⟩ := List.mem_map.mp hm
      apply frame_sendable
      have hsmall := A.small
      rw [List.length_take]
      omega

theorem shutdown_sendable (s : State M) (stack : TunnelMsgH) :
    ∀ m ∈ shutdown s stack, m.Sendable := by
  intro m hm
  rcases List.mem_append.mp hm with hm | hm
  · obtain ⟨n, -, rfl⟩ := List.mem_map.mp hm
    exact frame_sendable (by simp)
  · rw [List.mem_singleton.mp hm]
    exact frame_sendable (by simp)

theorem turn_running (A : Antd) (hs : s.running = true) (r : Round) (heard : Heard) :
    (turn A s (pass (r, heard))).1.running = goesOn (r, heard) := by
  rw [goesOn, Bool.and_comm]
  unfold turn pass
  cases selected r heard with
  | failed => rfl
  | timeout => simp [hs]
  | unreadable left => rfl
  | message i =>
    have hkept : (handleMessage { s with msg := i.request.header } i).running = true := by
      simp only [handleMessage]
      split_ifs
      all_goals exact hs
    simp [hkept]
  | datagram bytes =>
    cases bytes with
    | none => rfl
    | some bytes =>
      have hkept : (forward A s bytes).1.running = true := hs
      simp [hkept]

theorem publisher_sound :
    Sound (publisher A stack : Publisher (State M) Round Empty) goesOn (fun _ => True) where
  step := by
    rintro s p out u - - ⟨-, -, hturn⟩
    have hout : (turn A s (pass p)).2 = out := (Prod.mk.inj (Except.ok.inj hturn)).2
    exact ⟨trivial, hout ▸ turn_sendable A s _⟩
  running := by
    rintro s ⟨r, heard⟩ out u ⟨hrunning, -, hturn⟩
    obtain ⟨rfl, -⟩ := Prod.mk.inj (Except.ok.inj hturn)
    exact turn_running A hrunning r heard
  shutdown := by
    rintro s out - hout
    rw [← Except.ok.inj hout]
    exact shutdown_sendable s stack

theorem run_service {u : State M} {passes : List (Round × Heard)} {out : List TunnelMsg}
    (h : Execution (publisher A stack).Step s passes out u) :
    Execution (SyslogService.Step A) s (passes.map pass) out u := by
  have hstep : ∀ (s : State M) p out u, True → (publisher A stack).Step s p out u →
      SyslogService.Step A s (pass p) out u := by
    rintro s p out u - ⟨hrunning, -, hturn⟩
    exact ⟨hrunning, Except.ok.inj hturn⟩
  have hrun : Execution (SyslogService.Step A) (id s) (passes.map pass) out (id u) :=
    h.simulates pass (fun _ _ _ _ _ _ => trivial) hstep trivial
  exact hrun

/-- What a run sends a client is read off what comes in. -/
theorem service_due {answer : TunnelMsgH} {passes : List Pass} {out : List TunnelMsg}
    (h : Execution (SyslogService.Step A) (initial answer) passes out s) (c : UInt16) :
    (find s.clients c).isSome = subscribed c (passes.flatMap fun p => taken p.selected) ∧
      dataTo c out =
        due (joined c) (datagram A) false (passes.flatMap fun p => taken p.selected) := by
  generalize hstart : (initial answer : State M) = start at h
  induction h with
  | refl =>
    subst hstart
    exact ⟨by simp [initial], rfl⟩
  | @tail v w passes p out sent _ hstep ih =>
    obtain ⟨hmember, hdata⟩ := ih
    obtain ⟨-, hturn⟩ := hstep
    obtain ⟨hnext, hsent⟩ := turn_due A v p c
    rw [hturn] at hnext hsent
    have hquiet : ∀ (on : Bool) (out : List TunnelMsg),
        (out.map Act.sent).foldl (joined c) on = on ∧
          due (joined c) (datagram A) on (out.map .sent) = [] := by
      intro on out
      apply due_eq_nil
      intro act hact
      obtain ⟨m, -, rfl⟩ := List.mem_map.mp hact
      exact ⟨rfl, rfl⟩
    rw [log, List.foldl_append, (hquiet _ _).1, hmember] at hnext
    rw [log, due_append, (hquiet _ _).2, List.append_nil, hmember] at hsent
    rw [List.flatMap_append, List.flatMap_singleton]
    constructor
    · rw [hnext, subscribed, subscribed, List.foldl_append]
    · rw [dataTo_append, hdata, hsent, due_append]

end Service

/-! ### From datagrams to frames -/

section Program

variable {A : Antd} {stack : TunnelMsgH}

/-- What counts of what comes in, in order: the membership frames and the datagrams. -/
def heardOf (passes : List (Round × Heard)) : List Act :=
  passes.flatMap fun p => taken (selected p.1 p.2)

theorem dataTo_silent {c : UInt16} {msgs : List TunnelMsg}
    (h : ∀ m ∈ msgs, m.header.type ≠ CHANNEL_DATA) : dataTo c msgs = [] := by
  have hnone :
      msgs.filter (fun m => m.header.type = CHANNEL_DATA ∧ m.header.clientId = c) = [] := by
    rw [List.filter_eq_nil_iff]
    intro m hm
    simp [h m hm]
  rw [dataTo, hnone]
  rfl

theorem noticesTo_silent {c : UInt16} {msgs : List TunnelMsg}
    (h : ∀ m ∈ msgs, m.header.type ≠ CHANNEL_UNSUBSCRIBE) : noticesTo c msgs = 0 := by
  rw [noticesTo, List.countP_eq_zero]
  intro m hm
  simp [h m hm]

theorem openChannel_sendable {name : ChannelOpening.Argument} {buff : ChannelOpening.LineBuffer A}
    {named : TunnelMsg} (h : ChannelOpening.openChannel buff name = some named) :
    named.Sendable ∧ named.header.type = CHANNEL_OPEN := by
  have hsize := ChannelOpening.openChannel_size h
  have hlt := ChannelOpening.strlen_named_lt buff name hsize
  have hblock := strlen_lt hsize
  obtain ⟨n, -, rfl⟩ := Option.map_eq_some_iff.mp h
  exact ⟨⟨hlt, hblock.le⟩, rfl⟩

theorem turn_type (A : Antd) (s : State M) (p : Pass) :
    ∀ m ∈ (turn A s p).2, m.header.type = CHANNEL_DATA := by
  intro m hm
  unfold turn at hm
  cases hsel : p.selected with
  | failed | timeout | unreadable | message => simp [hsel] at hm
  | datagram bytes =>
    cases bytes with
    | none => simp [hsel] at hm
    | some bytes =>
      simp only [hsel, forward_out] at hm
      obtain ⟨n, -, rfl⟩ := List.mem_map.mp hm
      rfl

theorem shutdown_type (s : State M) (stack : TunnelMsgH) :
    ∀ m ∈ shutdown s stack, m.header.type ≠ CHANNEL_DATA := by
  intro m hm
  rcases List.mem_append.mp hm with hm | hm
  · obtain ⟨n, -, rfl⟩ := List.mem_map.mp hm
    exact (by decide : CHANNEL_UNSUBSCRIBE ≠ CHANNEL_DATA)
  · rw [List.mem_singleton.mp hm]
    exact (by decide : CHANNEL_CLOSE ≠ CHANNEL_DATA)

theorem service_type {answer : TunnelMsgH} {passes : List Pass} {out : List TunnelMsg} {s : State M}
    (h : Execution (SyslogService.Step A) (initial answer) passes out s) :
    ∀ m ∈ out, m.header.type = CHANNEL_DATA := by
  have hkeep : ∀ (s : State M) past p sent u, (∀ m ∈ past, m.header.type = CHANNEL_DATA) →
      SyslogService.Step A s p sent u → ∀ m ∈ past ++ sent, m.header.type = CHANNEL_DATA := by
    rintro s past p sent u hpast ⟨-, hturn⟩ m hm
    have hsent : (turn A s p).2 = sent := (Prod.mk.inj hturn).2
    rcases List.mem_append.mp hm with hm | hm
    · exact hpast m hm
    · exact turn_type A s p m (hsent ▸ hm)
  exact h.history hkeep (by simp)

/-- The messages of a whole run, for one client. -/
theorem program_due {named : TunnelMsg} (hopen : named.header.type = CHANNEL_OPEN)
    {answer : TunnelMsgH} {passes : List Pass} {out : List TunnelMsg} {s : State M}
    (h : Execution (SyslogService.Step A) (initial answer) passes out s) (c : UInt16) :
    dataTo c (named :: out ++ shutdown s stack) =
        due (joined c) (datagram A) false (passes.flatMap fun p => taken p.selected) ∧
      noticesTo c (named :: out ++ shutdown s stack) =
        if subscribed c (passes.flatMap fun p => taken p.selected) then 1 else 0 := by
  obtain ⟨hmember, hdata⟩ := service_due h c
  have hnamed : dataTo c [named] = [] := by
    apply dataTo_silent
    intro m hm
    rw [List.mem_singleton.mp hm, hopen]
    decide
  have hquiet : noticesTo c (named :: out) = 0 := by
    apply noticesTo_silent
    intro m hm
    rcases List.mem_cons.mp hm with rfl | hm
    · rw [hopen]
      decide
    · rw [service_type h m hm]
      decide
  constructor
  · rw [← List.singleton_append, List.append_assoc, dataTo_append, dataTo_append, hnamed, hdata,
      dataTo_silent (shutdown_type s stack), List.append_nil, List.nil_append]
  · have hcount : noticesTo c (named :: out ++ shutdown s stack) =
        noticesTo c (named :: out) + noticesTo c (shutdown s stack) := List.countP_append
    rw [hcount, hquiet, noticesTo_shutdown, hmember, Nat.zero_add]

/-- In every run that gets as far as its loop, for any bytes of the peer and however the kernel cuts
them: the program reads an answer and what its rounds hear of the bytes behind it, nothing in a
round without bytes and everything up to the round that ends the loop; what is written are the
frames of messages of which each client's DATA are the datagrams of these rounds that came in while
the last membership frame from it was a SUBSCRIBE, each once, in order and cut to the buffer; who
is subscribed at the end is sent one UNSUBSCRIBE; the answer to the last message, CLOSE, is looked
for in what is left; and both descriptors are closed. -/
theorem main_delivers {name : ChannelOpening.Argument} {buff : ChannelOpening.LineBuffer A}
    {socket bind fd : ℤ} {cuts short : List IoResult} (hcuts : AllPositive cuts)
    (hshort : AllPositive short) {stream : List UInt8} {rounds : List Round} {closed : List ℤ}
    {hotline : Hotline}
    (h : main M A name buff stack ⟨socket, bind, some (fd, ⟨⟨cuts, stream⟩, ⟨short, []⟩⟩)⟩ rounds =
      some (0, closed, some hotline)) :
    ∃ answer rest heard left msgs, ∃ closing : TunnelMsgH,
      answer.Received ∧ stream = encode answer ++ rest ∧
      Hears readable goesOn (answer.header.type = CHANNEL_OK) rounds rest heard left ∧
      hotline.output.wire = msgs.flatMap encode ∧
      (∀ c, dataTo c msgs = due (joined c) (datagram A) false (heardOf (rounds.zip heard)) ∧
        noticesTo c msgs = if subscribed c (heardOf (rounds.zip heard)) then 1 else 0) ∧
      msgs.getLast? = some (frame CHANNEL_CLOSE closing.channelId closing.clientId []) ∧
      hotline.input.stream =
        (msgRead ⟨[], left⟩ ⟨{ closing with type := CHANNEL_CLOSE, size := 0 }, none⟩).2.2.stream ∧
      closed = [fd, socket] := by
  unfold main at h
  dsimp only at h
  split at h
  · cases h
  split at h
  · cases h
  obtain ⟨named, hnamed, hrest⟩ := Option.bind_eq_some_iff.mp h
  split at hrest
  next st end_ hmain =>
  obtain ⟨rfl, rfl, rfl⟩ : st = 0 ∧ [fd, socket] = closed ∧ end_ = hotline := by simpa using hrest
  obtain ⟨hsendable, hopen⟩ := openChannel_sendable hnamed
  obtain ⟨answer, rest, heard, left, out, bye, s, hanswer, hstream, hheard, hrun, hbye, hinput,
    hwire⟩ := PublisherProgram.program_serves publisher_sound hsendable (fun _ => trivial) hcuts
      hshort hmain
  obtain rfl : shutdown s stack = bye := Except.ok.inj hbye
  have hservice := run_service hrun
  have hacts : ((rounds.zip heard).map pass).flatMap (fun p => taken p.selected) =
      heardOf (rounds.zip heard) := List.flatMap_map _ _ _
  refine ⟨answer, rest, heard, left, named :: out ++ shutdown s stack, s.msg, hanswer, hstream,
    hheard, ?_, ?_, ?_, hinput, rfl⟩
  · rw [hwire]
    simp [List.flatMap_append]
  · intro c
    rw [← hacts]
    exact program_due hopen hservice c
  · rw [shutdown, ← List.append_assoc, List.getLast?_concat]

end Program

theorem blank_size : (List.replicate 515 (0 : UInt8)).length = firstByteHost.BUFFLEN + 1 :=
  List.length_replicate

def blank : ChannelOpening.LineBuffer firstByteHost := ⟨List.replicate 515 0, blank_size⟩

theorem lettered : (0 : UInt8) ∉ [(0x6c : UInt8)] := by decide

def logChannel : ChannelOpening.Argument := ⟨[0x6c], lettered⟩

def subscribing : Round × Heard :=
  (⟨1, true, false, none, [], false⟩,
    .message (Input.subscribe 1 97).request (Input.subscribe 1 97).received)

def bringing : Round × Heard := (⟨1, false, true, some [7], [], false⟩, .nothing)

def oneDatagramBytes : List UInt8 :=
  encode (frame CHANNEL_OK 1 0 []) ++ (([subscribing, bringing].flatMap fun p => p.2.bytes) ++ [])

def oneDatagram : Setup :=
  ⟨4, 0, some (5, ⟨⟨[.count 1, .count 3], oneDatagramBytes⟩, ⟨[.count 2], []⟩⟩)⟩

/-- Client 1 subscribes, and then a datagram comes in: it is sent the datagram, and at the end that
it is dismissed. -/
theorem main_delivers_one_datagram : ∃ hotline, ∃ msgs : List TunnelMsg,
    main AssocList firstByteHost logChannel blank ⟨0, 0, 0, 0⟩ oneDatagram
      [subscribing.1, bringing.1] = some (0, [5, 4], some hotline) ∧
    hotline.output.wire = msgs.flatMap encode ∧ dataTo 1 msgs = [[7]] ∧ noticesTo 1 msgs = 1 := by
  obtain ⟨s, hs⟩ : ∃ s : State AssocList, s = initial ⟨CHANNEL_OK, 1, 0, 0⟩ := ⟨_, rfl⟩
  obtain ⟨u, hu⟩ : ∃ u, u = (turn firstByteHost s (pass subscribing)).1 := ⟨_, rfl⟩
  have hfirst : (publisher firstByteHost ⟨0, 0, 0, 0⟩).Step s subscribing
      (turn firstByteHost s (pass subscribing)).2 u :=
    ⟨by rw [hs]; rfl, by simp [publisher, readable, subscribing], by rw [hu]; rfl⟩
  have hsecond : (publisher firstByteHost ⟨0, 0, 0, 0⟩).Step u bringing
      (turn firstByteHost u (pass bringing)).2 (turn firstByteHost u (pass bringing)).1 :=
    ⟨by rw [hu, hs]; rfl, by simp [publisher, readable, bringing], rfl⟩
  have hrun := (Execution.single hfirst).trans (Execution.single hsecond)
  rw [hs] at hrun
  have hpasses : ∀ p ∈ [subscribing, bringing], Legible p.2 ∧
      (readable p.1 = false ↔ p.2 = .nothing) ∧ goesOn p = true :=
    List.forall_mem_cons.mpr ⟨⟨legible_message _ (by decide), by simp [readable, subscribing], rfl⟩,
      List.forall_mem_singleton.mpr ⟨legible_nothing, by simp [readable, bringing], rfl⟩⟩
  have hbye : (publisher firstByteHost ⟨0, 0, 0, 0⟩).shutdown
      (turn firstByteHost u (pass bringing)).1 = .ok _ := rfl
  obtain ⟨named, hnamed⟩ : ∃ named, ChannelOpening.openChannel blank logChannel = some named :=
    ⟨_, ChannelOpening.openChannel_eq
      ((ChannelOpening.strlen_named_iff _ _).mpr (.inl (by decide)))⟩
  have hanswer : (frame CHANNEL_OK 1 0 []).Received := by decide
  obtain ⟨hotline, hmain⟩ : ∃ hotline,
      (publisher firstByteHost ⟨0, 0, 0, 0⟩ : Publisher (State AssocList) Round Empty).main named
        named (fun answer => initial answer.header)
        ⟨⟨[.count 1, .count 3], oneDatagramBytes⟩, ⟨[.count 2], []⟩⟩ [subscribing.1, bringing.1] =
          .ok (0, hotline) :=
    @main_returns _ _ _ _ _ _ (fun answer => initial answer.header) _ _ [subscribing, bringing]
      _ _ _ (openChannel_sendable hnamed).1 hanswer (by decide) (by decide) (by decide) hrun hbye
      (fun p hp => (hpasses p hp).1) rfl named
  have hall : main AssocList firstByteHost logChannel blank ⟨0, 0, 0, 0⟩ oneDatagram
      [subscribing.1, bringing.1] = some (0, [5, 4], some hotline) := by
    simp [main, oneDatagram, hnamed, hmain]
  obtain ⟨answer, rest, heard, left, msgs, -, hreceived, hstream, hheard, hwire, hdue, -⟩ :=
    main_delivers (by decide) (by decide) hall
  obtain ⟨rfl, rfl⟩ : frame CHANNEL_OK 1 0 [] = answer ∧
      ([subscribing, bringing].flatMap fun p => p.2.bytes) ++ [] = rest :=
    encode_received_inj hanswer hreceived hstream
  obtain ⟨rfl, rfl⟩ : heard = [subscribing, bringing].map Prod.snd ∧ left = [] :=
    hears_passes hpasses hheard
  obtain ⟨hdata, hnotices⟩ := hdue 1
  exact ⟨hotline, msgs, hall, hwire, hdata.trans rfl, hnotices.trans rfl⟩

end SyslogProgram
