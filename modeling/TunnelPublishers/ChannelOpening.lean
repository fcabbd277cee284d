import TunnelPublishers.CamService

/-!
# The name under which a channel is opened

The FIFO service, the log service and the camera service open their channel with
the same lines. The name is copied into the line buffer on the stack with
`strncpy`, which writes no terminator behind 64 bytes, and measured there with
`strlen`.
-/
namespace ChannelOpening

open ByteOrder TunnelFraming

def MAX_CHANNEL_NAME : ℕ := 64

/-- A C string, without its terminator. -/
structure Argument where
  bytes : List UInt8
  noNul : (0 : UInt8) ∉ bytes

/-- `char buff[BUFFLEN + 1]`, with what the stack holds there. -/
structure LineBuffer (A : Antd) where
  bytes : List UInt8
  size : bytes.length = A.BUFFLEN + 1

variable {A : Antd}

/-- The buffer after the call of `strncpy`. -/
def LineBuffer.named (buff : LineBuffer A) (name : Argument) : List UInt8 :=
  memcpyAt buff.bytes 0 (strncpy name.bytes MAX_CHANNEL_NAME)

/-- The message handed to `msg_write`, unless `strlen` leaves the buffer. -/
def openChannel (buff : LineBuffer A) (name : Argument) : Option TunnelMsg :=
  (strlen (buff.named name)).map fun size =>
    ⟨⟨CHANNEL_OPEN, 0, 0, UInt32.ofNat size⟩, some (buff.named name)⟩

/-- The programs that take the channel name from their second argument. -/
inductive Publisher where
  | wfifo
  | syslog
  | v4l2cam
  deriving DecidableEq

/-- What each `main` sends first. -/
def Publisher.main : Publisher → LineBuffer A → Argument → Option TunnelMsg
  | .wfifo => openChannel
  | .syslog => openChannel
  | .v4l2cam => openChannel

/-- A message that names the channel by the first 64 bytes of its name, on the wire too. -/
structure Names (m : TunnelMsg) (name : Argument) : Prop where
  payload : m.payload = name.bytes.take MAX_CHANNEL_NAME
  size : m.header.size.toNat = min name.bytes.length MAX_CHANNEL_NAME
  wire : ∀ script wire, AllPositive script → ∃ rest, msgWrite ⟨script, wire⟩ m =
    (0, ⟨rest, wire ++ encode (frame CHANNEL_OPEN 0 0 (name.bytes.take MAX_CHANNEL_NAME))⟩)

/-! ### The buffer -/

section Buffer

variable (buff : LineBuffer A) (name : Argument)

theorem LineBuffer.named_eq : buff.named name =
    strncpy name.bytes MAX_CHANNEL_NAME ++ buff.bytes.drop MAX_CHANNEL_NAME := by
  rw [named, memcpyAt_zero, strncpy_length]

theorem LineBuffer.named_length : (buff.named name).length = A.BUFFLEN + 1 := by
  have hroom := A.room
  apply memcpyAt_length buff.size
  rw [strncpy_length, MAX_CHANNEL_NAME]
  omega

theorem LineBuffer.named_take : (buff.named name).take (min name.bytes.length MAX_CHANNEL_NAME) =
    name.bytes.take MAX_CHANNEL_NAME := by
  rw [named_eq]
  rcases Nat.lt_or_ge name.bytes.length MAX_CHANNEL_NAME with hlt | hge
  · rw [strncpy_of_length_lt name.noNul hlt, Nat.min_eq_left hlt.le, List.append_assoc,
      List.take_left, List.take_of_length_le hlt.le]
  · have hlen : (name.bytes.take MAX_CHANNEL_NAME).length = MAX_CHANNEL_NAME :=
      List.length_take_of_le hge
    rw [strncpy_of_le_length name.noNul hge, Nat.min_eq_right hge]
    exact List.take_left' hlen

theorem strlen_named_lt {n : ℕ} (h : strlen (buff.named name) = some n) : n < 2 ^ 31 := by
  have hlt := strlen_lt h
  have hsmall := A.small
  rw [LineBuffer.named_length] at hlt
  omega

/-- A name of 64 bytes is measured as long as it is only if the next byte is a NUL. -/
theorem strlen_named_iff :
    strlen (buff.named name) = some (min name.bytes.length MAX_CHANNEL_NAME) ↔
      name.bytes.length < MAX_CHANNEL_NAME ∨ buff.bytes[MAX_CHANNEL_NAME]? = some 0 := by
  rw [LineBuffer.named_eq]
  rcases Nat.lt_or_ge name.bytes.length MAX_CHANNEL_NAME with hlt | hge
  · obtain ⟨k, hk⟩ := Nat.exists_eq_add_of_lt hlt
    have hfill : MAX_CHANNEL_NAME - name.bytes.length = k + 1 := by omega
    have hzero : ∀ rest, strlen (List.replicate (k + 1) 0 ++ rest) = some 0 := by
      intro rest
      rw [strlen_eq_zero]
      rfl
    rw [strncpy_of_length_lt name.noNul hlt, hfill, List.append_assoc,
      strlen_append name.noNul, hzero, Nat.min_eq_left hlt.le]
    simp [hlt]
  · have hnone : (0 : UInt8) ∉ name.bytes.take MAX_CHANNEL_NAME :=
      fun hmem => name.noNul (List.mem_of_mem_take hmem)
    have hlen : (name.bytes.take MAX_CHANNEL_NAME).length = MAX_CHANNEL_NAME :=
      List.length_take_of_le hge
    have hdrop : strlen (buff.bytes.drop MAX_CHANNEL_NAME) = some 0 ↔
        buff.bytes[MAX_CHANNEL_NAME]? = some 0 := by
      rw [strlen_eq_zero, List.head?_drop]
    rw [strncpy_of_le_length name.noNul hge, strlen_append hnone, hlen, Nat.min_eq_right hge,
      ← hdrop, Option.map_eq_some_iff]
    constructor
    · rintro ⟨n, hn, hsum⟩
      obtain rfl : n = 0 := by omega
      exact Or.inr hn
    · rintro (hlt | hzero)
      · omega
      · exact ⟨0, hzero, rfl⟩

end Buffer

/-! ### The message -/

section Message

variable {buff : LineBuffer A} {name : Argument}

theorem openChannel_eq {n : ℕ} (h : strlen (buff.named name) = some n) :
    openChannel buff name =
      some ⟨⟨CHANNEL_OPEN, 0, 0, UInt32.ofNat n⟩, some (buff.named name)⟩ := by
  rw [openChannel, h]
  rfl

theorem openChannel_size {m : TunnelMsg} (h : openChannel buff name = some m) :
    strlen (buff.named name) = some m.header.size.toNat := by
  obtain ⟨n, hn, rfl⟩ := Option.map_eq_some_iff.mp h
  have hlt := strlen_named_lt buff name hn
  rw [hn, UInt32.toNat_ofNat', Nat.mod_eq_of_lt (by omega)]

/-- The size is the length of the name exactly when the message is right as a whole. -/
theorem names_iff {m : TunnelMsg} (h : openChannel buff name = some m) :
    Names m name ↔ m.header.size.toNat = min name.bytes.length MAX_CHANNEL_NAME := by
  constructor
  · intro hn
    exact hn.size
  · intro hsize
    have hstrlen := openChannel_size h
    have hlt := strlen_lt hstrlen
    have hsmall := strlen_named_lt buff name hstrlen
    obtain ⟨n, -, rfl⟩ := Option.map_eq_some_iff.mp h
    have hpayload : (buff.named name).take (UInt32.ofNat n).toNat =
        name.bytes.take MAX_CHANNEL_NAME := by
      rw [hsize]
      exact buff.named_take name
    have hlength : (name.bytes.take MAX_CHANNEL_NAME).length = (UInt32.ofNat n).toNat := by
      rw [hsize, List.length_take, Nat.min_comm]
    have hfits : (name.bytes.take MAX_CHANNEL_NAME).length < 2 ^ 32 := by
      rw [hlength]
      exact UInt32.toNat_lt _
    refine ⟨hpayload, hsize, ?_⟩
    intro script wire hp
    obtain ⟨rest, -, hwrite⟩ := msgWrite_full hp ⟨hsmall, hlt.le⟩
    refine ⟨rest, ?_⟩
    rw [hwrite, encode, encode, TunnelMsg.payload, frame_payload hfits]
    simp only [Option.getD_some, hpayload, frame, hlength, UInt32.ofNat_toNat]

/-- The camera service announces the name its model reads from the same buffer. -/
theorem openChannel_received {args : CamService.Args} {m : TunnelMsg}
    (hname : args.name = name.bytes) (hbuff : args.buff = buff.bytes)
    (h : openChannel buff name = some m) :
    m.received = frame CHANNEL_OPEN 0 0 (CamService.openName args) := by
  have hopen : CamService.openName args = cString (buff.named name) := by
    rw [CamService.openName, hname, hbuff]
    rfl
  have hlt := strlen_named_lt buff name (openChannel_size h)
  obtain ⟨n, hn, rfl⟩ := Option.map_eq_some_iff.mp h
  have hlen : (cString (buff.named name)).length = n := (strlen_eq_some.mp hn).2
  have hsmall := strlen_named_lt buff name hn
  rw [hopen]
  refine received_eq_frame (by omega) ?_ ?_
  · rw [hlen]
  · exact List.prefix_iff_eq_take.mp (List.takeWhile_prefix _) |>.symm

end Message

/-- The channel is opened under its name exactly when the name is shorter than the field, or the
byte of the buffer behind the field happens to be a NUL. -/
theorem main_names_iff (p : Publisher) (buff : LineBuffer A) (name : Argument) :
    (∃ m, p.main buff name = some m ∧ Names m name) ↔
      name.bytes.length < MAX_CHANNEL_NAME ∨ buff.bytes[MAX_CHANNEL_NAME]? = some 0 := by
  have hmain : p.main buff name = openChannel buff name := by cases p <;> rfl
  rw [hmain, ← strlen_named_iff]
  constructor
  · rintro ⟨m, hm, hnames⟩
    rw [openChannel_size hm, hnames.size]
  · intro h
    have hm := openChannel_eq h
    have hlt := strlen_named_lt buff name h
    refine ⟨_, hm, (names_iff hm).mpr ?_⟩
    rw [UInt32.toNat_ofNat', Nat.mod_eq_of_lt (by omega)]

theorem longName_noNul : (0 : UInt8) ∉ List.replicate 64 (0x61 : UInt8) := by decide

theorem oneLeft_size :
    (List.replicate 64 (0 : UInt8) ++ 0x78 :: List.replicate 450 0).length =
      firstByteHost.BUFFLEN + 1 := by
  rw [List.length_append, List.length_cons, List.length_replicate, List.length_replicate]
  rfl

/-- 64 letters, and a buffer that is zero but for the byte behind them. -/
def longName : Argument := ⟨List.replicate 64 0x61, longName_noNul⟩
def oneLeft : LineBuffer firstByteHost :=
  ⟨List.replicate 64 0 ++ 0x78 :: List.replicate 450 0, oneLeft_size⟩

theorem oneLeft_named :
    oneLeft.named longName = (longName.bytes ++ [0x78]) ++ List.replicate 450 0 := by
  have hlen : (List.replicate 64 (0 : UInt8)).length = MAX_CHANNEL_NAME := List.length_replicate
  rw [LineBuffer.named_eq, strncpy_of_le_length longName.noNul (by decide), oneLeft,
    List.drop_left' hlen, List.append_assoc]
  rfl

/-- The leftover byte becomes the 65th of the name. -/
theorem main_renames_channel :
    ((Publisher.wfifo.main oneLeft longName).map fun m => (m.header.size, m.payload)) =
        some (65, longName.bytes ++ [0x78]) ∧
      ¬ ∀ (p : Publisher) (A : Antd) (buff : LineBuffer A) (name : Argument),
        ∃ m, p.main buff name = some m ∧ Names m name := by
  have hlength : strlen (oneLeft.named longName) = some 65 := by
    have hzero : strlen (List.replicate 450 0) = some 0 := strlen_eq_zero.mpr rfl
    rw [oneLeft_named, strlen_append (by decide), hzero]
    rfl
  have hsent : Publisher.wfifo.main oneLeft longName =
      some ⟨⟨CHANNEL_OPEN, 0, 0, 65⟩, some (oneLeft.named longName)⟩ := openChannel_eq hlength
  constructor
  · rw [hsent, oneLeft_named]
    rfl
  · intro hall
    obtain ⟨m, hm, hnames⟩ := hall .wfifo firstByteHost oneLeft longName
    obtain rfl := Option.some.inj (hsent.symm.trans hm)
    exact absurd hnames.size (by decide)

end ChannelOpening
