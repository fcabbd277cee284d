import TunnelPublishers.ByteOrder

/-!
# Tunnel messages over a byte stream

The framing layer of the tunnel API: two resumable transfer loops around
read(2) and write(2), and the message reader and writer built on them. The
kernel's answers are a script, one entry for each call. The syslog texts of the
error paths are left out; malloc succeeds.
-/
namespace TunnelFraming

open ByteOrder

def MSG_MAGIC_BEGIN : UInt16 := 0x414e
def MSG_MAGIC_END : UInt16 := 0x5444

def CHANNEL_OK : UInt8 := 0x0
def CHANNEL_ERROR : UInt8 := 0x1
def CHANNEL_SUBSCRIBE : UInt8 := 0x2
def CHANNEL_UNSUBSCRIBE : UInt8 := 0x3
def CHANNEL_OPEN : UInt8 := 0x4
def CHANNEL_CLOSE : UInt8 := 0x5
def CHANNEL_DATA : UInt8 := 0x6
def CHANNEL_CTRL : UInt8 := 0x7

structure TunnelMsgH where
  type : UInt8
  channelId : UInt16
  clientId : UInt16
  size : UInt32
  deriving DecidableEq, Repr

/-- `data` is NULL or points to a block, of which `header.size` bytes belong to the message. -/
structure TunnelMsg where
  header : TunnelMsgH
  data : Option (List UInt8)
  deriving DecidableEq, Repr

def TunnelMsg.payload (m : TunnelMsg) : List UInt8 := (m.data.getD []).take m.header.size.toNat

/-! ### The kernel's side of a descriptor -/

/-- The answer of one read(2) or write(2): -1, or at most `n` bytes transferred. -/
inductive IoResult where
  | error
  | count (n : ℕ)
  deriving DecidableEq, Repr

/-- Linux transfers at most this many bytes in one call. -/
def MAX_RW_COUNT : ℕ := 0x7ffff000

/-- A count beyond this one is negative as an `ssize_t`, and the call fails. -/
def SSIZE_MAX : ℕ := 0x7fffffffffffffff

/-- Every call consumes one answer; after the script each call transfers what it asks for. -/
def answer (request : ℕ) : List IoResult → IoResult × List IoResult
  | [] => (.count request, [])
  | r :: rest => (r, rest)

/-- The bytes still to arrive on a descriptor, followed by end of file. -/
structure ReadEnd where
  script : List IoResult
  stream : List UInt8
  deriving DecidableEq, Repr

/-- The bytes that reached the wire of a descriptor. -/
structure WriteEnd where
  script : List IoResult
  wire : List UInt8
  deriving DecidableEq, Repr

def ReadEnd.read (fd : ReadEnd) (request : ℕ) : Option (List UInt8) × ReadEnd :=
  match answer request fd.script with
  | (.error, rest) => (none, { fd with script := rest })
  | (.count k, rest) =>
    let st := min k (min request MAX_RW_COUNT)
    if SSIZE_MAX < request then (none, { fd with script := rest })
    else (some (fd.stream.take st), ⟨rest, fd.stream.drop st⟩)

/-- A write from memory that is not there fails with EFAULT. -/
def WriteEnd.write (fd : WriteEnd) (memory : List UInt8) (request : ℕ) : Option ℕ × WriteEnd :=
  match answer request fd.script with
  | (.error, rest) => (none, { fd with script := rest })
  | (.count k, rest) =>
    let bytes := memory.take (min k (min request MAX_RW_COUNT))
    if memory = [] ∨ SSIZE_MAX < request then (none, { fd with script := rest })
    else (some bytes.length, ⟨rest, fd.wire ++ bytes⟩)

theorem ReadEnd.read_stream {fd fd' : ReadEnd} {request : ℕ} {bs : List UInt8}
    (h : fd.read request = (some bs, fd')) : fd.stream = bs ++ fd'.stream := by
  unfold ReadEnd.read at h
  split at h
  · simp at h
  · dsimp only at h
    split at h
    · simp at h
    · simp only [Prod.mk.injEq, Option.some.injEq] at h
      obtain ⟨rfl, rfl⟩ := h
      simp

theorem WriteEnd.write_pos {fd fd' : WriteEnd} {memory : List UInt8} {request st : ℕ}
    (h : fd.write memory request = (some st, fd')) : memory ≠ [] := by
  unfold WriteEnd.write at h
  split at h
  · simp at h
  · intro he
    simp [he] at h

/-! ### Transfer loops -/

/-- `n` and `size` are C ints; `stored` are the bytes put in the buffer so far. -/
def guardReadLoop (size : ℤ) (fd : ReadEnd) (n : ℤ) (stored : List UInt8) :
    ℤ × List UInt8 × ReadEnd :=
  if n = size then (n, stored, fd)
  else
    match h : fd.read (sizeT (cInt (size - n))) with
    | (none, fd') => (-1, stored, fd')
    | (some bs, fd') =>
      if hb : bs = [] then (-1, stored, fd')
      else guardReadLoop size fd' (cInt (n + bs.length)) (stored ++ bs)
termination_by fd.stream.length
decreasing_by
  have hl := List.length_pos_iff.mpr hb
  rw [ReadEnd.read_stream h, List.length_append]
  omega

/-- Returns the count or -1, and the buffer with the bytes read stored over its start. -/
def guardRead (fd : ReadEnd) (buffer : List UInt8) (size : ℕ) : ℤ × List UInt8 × ReadEnd :=
  let (n, stored, fd) := guardReadLoop (cInt size) fd 0 []
  (n, memcpyAt buffer 0 stored, fd)

theorem guardReadLoop_more {size n : ℤ} {fd fd' : ReadEnd} {stored bs : List UInt8}
    (hn : n ≠ size) (h : fd.read (sizeT (cInt (size - n))) = (some bs, fd')) (hb : bs ≠ []) :
    guardReadLoop size fd n stored =
      guardReadLoop size fd' (cInt (n + bs.length)) (stored ++ bs) := by
  rw [guardReadLoop, if_neg hn]
  split
  · next h' => simp [h] at h'
  · next h' =>
    rw [h] at h'
    simp only [Prod.mk.injEq, Option.some.injEq] at h'
    obtain ⟨rfl, rfl⟩ := h'
    rw [dif_neg hb]

/-- `memory` is what lies at `buffer + n`. -/
def guardWriteLoop (size : ℤ) (fd : WriteEnd) (n : ℤ) (memory : List UInt8) : ℤ × WriteEnd :=
  if n = size then (n, fd)
  else
    match h : fd.write memory (sizeT (cInt (size - n))) with
    | (none, fd') => (-1, fd')
    | (some st, fd') =>
      if hz : st = 0 then (-1, fd')
      else guardWriteLoop size fd' (cInt (n + st)) (memory.drop st)
termination_by memory.length
decreasing_by
  have hl := List.length_pos_iff.mpr (WriteEnd.write_pos h)
  rw [List.length_drop]
  omega

theorem guardWriteLoop_more {size n : ℤ} {fd fd' : WriteEnd} {memory : List UInt8} {st : ℕ}
    (hn : n ≠ size) (h : fd.write memory (sizeT (cInt (size - n))) = (some st, fd'))
    (hst : st ≠ 0) :
    guardWriteLoop size fd n memory =
      guardWriteLoop size fd' (cInt (n + st)) (memory.drop st) := by
  rw [guardWriteLoop, if_neg hn]
  split
  · next h' => simp [h] at h'
  · next h' =>
    rw [h] at h'
    simp only [Prod.mk.injEq, Option.some.injEq] at h'
    obtain ⟨rfl, rfl⟩ := h'
    rw [dif_neg hst]

def guardWrite (fd : WriteEnd) (buffer : List UInt8) (size : ℕ) : ℤ × WriteEnd :=
  guardWriteLoop (cInt size) fd 0 buffer

/-! ### Messages -/

def msgCheckNumber (fd : ReadEnd) (number : UInt16) : ℤ × ReadEnd :=
  let (st, value, fd) := guardRead fd [] 2
  if st = -1 then (-1, fd)
  else if number ≠ ntohs (word16 value) then (-1, fd)
  else (0, fd)

/-- Returns the fresh block or NULL, and the caller's size field. -/
def msgReadPayload (fd : ReadEnd) (size : UInt32) : Option (List UInt8) × UInt32 × ReadEnd :=
  let (st, mem, fd) := guardRead fd (mem32 size) 4
  if st = -1 then (none, word32 mem, fd)
  else
    let size := ntohl (word32 mem)
    if size = 0 then (none, size, fd)
    else
      let (st, data, fd) := guardRead fd [] size.toNat
      if st = -1 then (none, size, fd) else (some data, size, fd)

/-- `msg` is the caller's struct; on failure it keeps what was stored before the failure. -/
def msgRead (fd : ReadEnd) (msg : TunnelMsg) : ℤ × TunnelMsg × ReadEnd :=
  let (st, fd) := msgCheckNumber fd MSG_MAGIC_BEGIN
  if st = -1 then (-1, msg, fd)
  else
    let (st, mem, fd) := guardRead fd [msg.header.type] 1
    let msg := { msg with header.type := mem.headD 0 }
    if st = -1 then (-1, msg, fd)
    else if 0x7 < msg.header.type then (-1, msg, fd)
    else
      let (st, mem, fd) := guardRead fd (mem16 msg.header.channelId) 2
      if st = -1 then (-1, { msg with header.channelId := word16 mem }, fd)
      else
        let msg := { msg with header.channelId := ntohs (word16 mem) }
        let (st, mem, fd) := guardRead fd (mem16 msg.header.clientId) 2
        if st = -1 then (-1, { msg with header.clientId := word16 mem }, fd)
        else
          let msg := { msg with header.clientId := ntohs (word16 mem) }
          let (data, size, fd) := msgReadPayload fd msg.header.size
          let msg : TunnelMsg := ⟨{ msg.header with size := size }, data⟩
          if msg.data = none ∧ msg.header.size ≠ 0 then (-1, msg, fd)
          else
            let (st, fd) := msgCheckNumber fd MSG_MAGIC_END
            if st = -1 then (-1, msg, fd) else (0, msg, fd)

def msgWrite (fd : WriteEnd) (msg : TunnelMsg) : ℤ × WriteEnd :=
  let (st, fd) := guardWrite fd (mem16 (htons MSG_MAGIC_BEGIN)) 2
  if st = -1 then (-1, fd)
  else
    let (st, fd) := guardWrite fd [msg.header.type] 1
    if st = -1 then (-1, fd)
    else
      let (st, fd) := guardWrite fd (mem16 (htons msg.header.channelId)) 2
      if st = -1 then (-1, fd)
      else
        let (st, fd) := guardWrite fd (mem16 (htons msg.header.clientId)) 2
        if st = -1 then (-1, fd)
        else
          let (st, fd) := guardWrite fd (mem32 (htonl msg.header.size)) 4
          if st = -1 then (-1, fd)
          else
            let (st, fd) := if msg.header.size > 0 then
              guardWrite fd (msg.data.getD []) msg.header.size.toNat else (0, fd)
            if st = -1 then (-1, fd)
            else
              let (st, fd) := guardWrite fd (mem16 (htons MSG_MAGIC_END)) 2
              if st = -1 then (-1, fd) else (0, fd)

/-- Successive calls on one descriptor; the reader reuses one struct. -/
def msgReads : ℕ → ReadEnd → TunnelMsg → List (ℤ × TunnelMsg) × ReadEnd
  | 0, fd, _ => ([], fd)
  | k + 1, fd, msg =>
    let (st, msg, fd) := msgRead fd msg
    let (rest, fd) := msgReads k fd msg
    ((st, msg) :: rest, fd)

def msgWrites : List TunnelMsg → WriteEnd → List ℤ × WriteEnd
  | [], fd => ([], fd)
  | m :: ms, fd =>
    let (st, fd) := msgWrite fd m
    let (rest, fd) := msgWrites ms fd
    (st :: rest, fd)

/-! ### Transfers under positive short counts -/

def IoResult.Positive : IoResult → Prop
  | .error => False
  | .count k => 0 < k

instance (r : IoResult) : Decidable r.Positive := by
  cases r <;> simp only [IoResult.Positive] <;> infer_instance

def AllPositive (script : List IoResult) : Prop := ∀ r ∈ script, r.Positive

instance (script : List IoResult) : Decidable (AllPositive script) :=
  inferInstanceAs (Decidable (∀ r ∈ script, r.Positive))

theorem answer_positive {script : List IoResult} {request : ℕ} (hp : AllPositive script)
    (hr : 0 < request) : ∃ k rest, answer request script = (.count k, rest) ∧
      0 < k ∧ AllPositive rest := by
  cases script with
  | nil => exact ⟨request, [], rfl, hr, hp⟩
  | cons r rest =>
    have hrest : AllPositive rest := fun x hx => hp x (List.mem_cons_of_mem r hx)
    have hhead := hp r List.mem_cons_self
    cases r with
    | error => exact hhead.elim
    | count k => exact ⟨k, rest, rfl, hhead, hrest⟩

/-- A request for what is missing is refused if it went negative as an `int`. -/
theorem request_refused {missing : ℕ} (h : missing < 2 ^ 32) :
    SSIZE_MAX < sizeT (cInt missing) ↔ 2 ^ 31 ≤ missing := by
  unfold SSIZE_MAX
  by_cases hs : missing < 2 ^ 31
  · rw [sizeT_cInt_small hs]
    omega
  · have hlarge := lt_sizeT_cInt (not_lt.mp hs) h
    omega

/-- The bytes one call moves and the answers left; `none` when the loop gives up after it. -/
def moved (script : List IoResult) (available missing : ℕ) : Option ℕ × List IoResult :=
  match answer missing script with
  | (.error, rest) => (none, rest)
  | (.count k, rest) =>
    let st := min (min k (min missing MAX_RW_COUNT)) available
    (if st = 0 ∨ 2 ^ 31 ≤ missing then none else some st, rest)

theorem moved_none {script rest : List IoResult} {available missing : ℕ}
    (h : moved script available missing = (none, rest)) :
    answer missing script = (.error, rest) ∨ ∃ k, answer missing script = (.count k, rest) ∧
      (min (min k (min missing MAX_RW_COUNT)) available = 0 ∨ 2 ^ 31 ≤ missing) := by
  unfold moved at h
  split at h
  · next ha =>
    simp only [Prod.mk.injEq, true_and] at h
    exact Or.inl (h ▸ ha)
  · next k _ ha =>
    simp only [Prod.mk.injEq, ite_eq_left_iff, reduceCtorEq, imp_false, not_not] at h
    obtain ⟨hst, rfl⟩ := h
    exact Or.inr ⟨k, ha, hst⟩

theorem moved_some {script rest : List IoResult} {available missing st : ℕ}
    (h : moved script available missing = (some st, rest)) :
    st ≠ 0 ∧ missing < 2 ^ 31 ∧ ∃ k, answer missing script = (.count k, rest) ∧
      min (min k (min missing MAX_RW_COUNT)) available = st := by
  unfold moved at h
  split at h
  · simp at h
  · next k _ ha =>
    simp only [Prod.mk.injEq, Option.ite_none_left_eq_some, Option.some.injEq, not_or, not_le] at h
    obtain ⟨⟨⟨hne, hmissing⟩, rfl⟩, rfl⟩ := h
    exact ⟨hne, hmissing, k, ha, rfl⟩

theorem moved_bounds {script rest : List IoResult} {available missing st : ℕ}
    (h : moved script available missing = (some st, rest)) :
    0 < st ∧ st ≤ missing ∧ st ≤ available := by
  obtain ⟨hne, -, k, -, hst⟩ := moved_some h
  omega

theorem moved_positive {script : List IoResult} {available missing : ℕ}
    (hp : AllPositive script) (ha : 0 < available) (hm : 0 < missing) (hsmall : missing < 2 ^ 31) :
    ∃ st rest, moved script available missing = (some st, rest) ∧ AllPositive rest := by
  obtain ⟨k, rest, hk, hpos, hrest⟩ := answer_positive hp hm
  have hst : ¬ (min (min k (min missing MAX_RW_COUNT)) available = 0 ∨ 2 ^ 31 ≤ missing) := by
    unfold MAX_RW_COUNT
    omega
  exact ⟨min (min k (min missing MAX_RW_COUNT)) available, rest,
    by simp only [moved, hk, if_neg hst], hrest⟩

/-- How far a transfer of `missing` bytes gets when `available` are there: the bytes moved and
the answers left. -/
def transfers (script : List IoResult) (available missing : ℕ) : ℕ × List IoResult :=
  if missing = 0 then (0, script)
  else
    match _h : moved script available missing with
    | (none, rest) => (0, rest)
    | (some st, rest) =>
      let t := transfers rest (available - st) (missing - st)
      (st + t.1, t.2)
termination_by missing
decreasing_by
  have hst := moved_bounds _h
  omega

theorem transfers_zero (script : List IoResult) (available : ℕ) :
    transfers script available 0 = (0, script) := by
  rw [transfers, if_pos rfl]

theorem transfers_stop {script rest : List IoResult} {available missing : ℕ} (hm : missing ≠ 0)
    (h : moved script available missing = (none, rest)) :
    transfers script available missing = (0, rest) := by
  rw [transfers, if_neg hm]
  split
  · simp_all
  · simp_all

theorem transfers_more {script rest : List IoResult} {available missing st : ℕ} (hm : missing ≠ 0)
    (h : moved script available missing = (some st, rest)) :
    transfers script available missing =
      (st + (transfers rest (available - st) (missing - st)).1,
        (transfers rest (available - st) (missing - st)).2) := by
  rw [transfers, if_neg hm]
  split
  · simp_all
  · simp_all

theorem transfers_le (script : List IoResult) (available missing : ℕ) :
    (transfers script available missing).1 ≤ min available missing := by
  induction missing using Nat.strong_induction_on generalizing script available with
  | h missing ih =>
    by_cases hm : missing = 0
    · subst hm
      simp [transfers_zero]
    · match h : moved script available missing with
      | (none, rest) => simp [transfers_stop hm h]
      | (some st, rest) =>
        obtain ⟨hpos, hmiss, havail⟩ := moved_bounds h
        have hrest := ih (missing - st) (by omega) rest (available - st)
        rw [transfers_more hm h]
        omega

/-- Of a stream no more is transferred than there is. -/
theorem length_take_transfers (script : List IoResult) (stream : List UInt8) (missing : ℕ) :
    (stream.take (transfers script stream.length missing).1).length =
      (transfers script stream.length missing).1 := by
  have hle := transfers_le script stream.length missing
  rw [List.length_take]
  omega

/-- What lies behind the bytes asked for does not matter. -/
theorem transfers_enough {available missing : ℕ} (h : missing ≤ available)
    (script : List IoResult) :
    transfers script available missing = transfers script missing missing := by
  induction missing using Nat.strong_induction_on generalizing script available with
  | h missing ih =>
    have hmoved : moved script available missing = moved script missing missing := by
      have hmin : ∀ k, min (min k (min missing MAX_RW_COUNT)) available =
          min (min k (min missing MAX_RW_COUNT)) missing := by omega
      unfold moved
      simp only [hmin]
    by_cases hm : missing = 0
    · simp only [hm, transfers_zero]
    · match hst : moved script missing missing with
      | (none, rest) => rw [transfers_stop hm hst, transfers_stop hm (hmoved.trans hst)]
      | (some st, rest) =>
        obtain ⟨hpos, hle, -⟩ := moved_bounds hst
        rw [transfers_more hm hst, transfers_more hm (hmoved.trans hst),
          ih (missing - st) (by omega) (by omega)]

/-- Positive answers move all there is of what is asked for. -/
theorem transfers_positive {script : List IoResult} (hp : AllPositive script)
    (available : ℕ) {missing : ℕ} (hsmall : missing < 2 ^ 31) :
    ∃ rest, transfers script available missing = (min available missing, rest) ∧
      (missing ≤ available → AllPositive rest) := by
  induction missing using Nat.strong_induction_on generalizing script available with
  | h missing ih =>
    by_cases hm : missing = 0
    · exact ⟨script, by simp [hm, transfers_zero], fun _ => hp⟩
    · by_cases ha : available = 0
      · match h : moved script available missing with
        | (none, rest) => exact ⟨rest, by rw [transfers_stop hm h, ha, Nat.zero_min], by omega⟩
        | (some st, rest) =>
          have hst := moved_bounds h
          omega
      · obtain ⟨st, rest, h, hrest⟩ := moved_positive hp (Nat.pos_of_ne_zero ha)
          (Nat.pos_of_ne_zero hm) hsmall
        obtain ⟨hpos, hmiss, havail⟩ := moved_bounds h
        obtain ⟨last, hlast, hlp⟩ := ih (missing - st) (by omega) hrest (available - st) (by omega)
        refine ⟨last, ?_, fun hle => hlp (by omega)⟩
        rw [transfers_more hm h, hlast]
        congr 1
        omega

theorem transfers_all {script : List IoResult} (hp : AllPositive script) {missing : ℕ}
    (hsmall : missing < 2 ^ 31) :
    ∃ rest, AllPositive rest ∧ transfers script missing missing = (missing, rest) := by
  obtain ⟨rest, h, hrest⟩ := transfers_positive hp missing hsmall
  rw [Nat.min_self] at h
  exact ⟨rest, hrest le_rfl, h⟩

/-! ### The loops under any script -/

/-- The loop asks for exactly what is missing, unless its request is refused. -/
theorem answer_count (request : ℕ) {missing k : ℕ} {script rest : List IoResult}
    (ha : answer missing script = (.count k, rest)) :
    ∃ k', answer request script = (.count k', rest) ∧ (request = missing → k' = k) := by
  cases script with
  | nil =>
    simp only [answer, Prod.mk.injEq, IoResult.count.injEq] at ha
    obtain ⟨rfl, rfl⟩ := ha
    exact ⟨_, rfl, id⟩
  | cons r _ =>
    simp only [answer, Prod.mk.injEq] at ha
    obtain ⟨rfl, rfl⟩ := ha
    exact ⟨k, rfl, fun _ => rfl⟩

theorem answer_error {missing request : ℕ} {script rest : List IoResult}
    (ha : answer missing script = (.error, rest)) : answer request script = (.error, rest) := by
  cases script with
  | nil => simp [answer] at ha
  | cons r _ => exact ha

/-- What the loop's request is answered when its call moves nothing. -/
theorem request_stop {script rest : List IoResult} {available missing : ℕ}
    (hm : missing < 2 ^ 32) (h : moved script available missing = (none, rest)) :
    answer (sizeT (cInt missing)) script = (.error, rest) ∨
      ∃ k, answer (sizeT (cInt missing)) script = (.count k, rest) ∧
        (min (min k (min (sizeT (cInt missing)) MAX_RW_COUNT)) available = 0 ∨
          SSIZE_MAX < sizeT (cInt missing)) := by
  rcases moved_none h with herror | ⟨k, hk, hstop⟩
  · exact Or.inl (answer_error herror)
  · obtain ⟨k', hk', hsame⟩ := answer_count (sizeT (cInt missing)) hk
    refine Or.inr ⟨k', hk', ?_⟩
    by_cases hlarge : 2 ^ 31 ≤ missing
    · exact Or.inr ((request_refused hm).mpr hlarge)
    · have hrequest := sizeT_cInt_small (not_le.mp hlarge)
      rw [hsame hrequest, hrequest]
      exact Or.inl (hstop.resolve_right hlarge)

theorem request_more {script rest : List IoResult} {available missing st : ℕ}
    (h : moved script available missing = (some st, rest)) :
    ¬ SSIZE_MAX < sizeT (cInt missing) ∧
      ∃ k, answer (sizeT (cInt missing)) script = (.count k, rest) ∧
        min (min k (min (sizeT (cInt missing)) MAX_RW_COUNT)) available = st := by
  obtain ⟨-, hsmall, k, hk, hst⟩ := moved_some h
  rw [request_refused (by omega), sizeT_cInt_small hsmall]
  exact ⟨not_le.mpr hsmall, k, hk, hst⟩

/-- A call that moves nothing ends a read loop: it failed or met the end of the file. -/
theorem read_stop {script rest : List IoResult} {stream : List UInt8} {missing : ℕ}
    (hm : missing < 2 ^ 32) (h : moved script stream.length missing = (none, rest)) :
    ReadEnd.read ⟨script, stream⟩ (sizeT (cInt missing)) = (none, ⟨rest, stream⟩) ∨
      ReadEnd.read ⟨script, stream⟩ (sizeT (cInt missing)) = (some [], ⟨rest, stream⟩) := by
  rcases request_stop hm h with herror | ⟨k, hk, hstop⟩
  · apply Or.inl
    simp only [ReadEnd.read, herror]
  · by_cases hrefused : SSIZE_MAX < sizeT (cInt missing)
    · apply Or.inl
      simp only [ReadEnd.read, hk, hrefused, ↓reduceIte]
    · apply Or.inr
      simp only [ReadEnd.read, hk, hrefused, ↓reduceIte]
      rw [List.take_eq_take_min, List.drop_eq_drop_min, hstop.resolve_right hrefused,
        List.take_zero, List.drop_zero]

theorem read_more {script rest : List IoResult} {stream : List UInt8} {missing st : ℕ}
    (h : moved script stream.length missing = (some st, rest)) :
    ReadEnd.read ⟨script, stream⟩ (sizeT (cInt missing)) =
      (some (stream.take st), ⟨rest, stream.drop st⟩) := by
  obtain ⟨hserved, k, hk, rfl⟩ := request_more h
  simp only [ReadEnd.read, hk, hserved, ↓reduceIte]
  rw [← List.take_eq_take_min, ← List.drop_eq_drop_min]

/-- Memory that ran out counts as a failure like any other. -/
theorem write_stop {script rest : List IoResult} {memory : List UInt8} {missing : ℕ}
    (wire : List UInt8) (hm : missing < 2 ^ 32)
    (h : moved script memory.length missing = (none, rest)) :
    WriteEnd.write ⟨script, wire⟩ memory (sizeT (cInt missing)) = (none, ⟨rest, wire⟩) ∨
      WriteEnd.write ⟨script, wire⟩ memory (sizeT (cInt missing)) = (some 0, ⟨rest, wire⟩) := by
  rcases request_stop hm h with herror | ⟨k, hk, hstop⟩
  · apply Or.inl
    simp only [WriteEnd.write, herror]
  · by_cases hfailed : memory = [] ∨ SSIZE_MAX < sizeT (cInt missing)
    · apply Or.inl
      simp only [WriteEnd.write, hk, hfailed, ↓reduceIte]
    · apply Or.inr
      simp only [WriteEnd.write, hk, hfailed, ↓reduceIte]
      rw [List.take_eq_take_min, hstop.resolve_right fun hlarge => hfailed (.inr hlarge),
        List.take_zero, List.append_nil, List.length_nil]

theorem write_more {script rest : List IoResult} {memory : List UInt8} {missing st : ℕ}
    (wire : List UInt8) (h : moved script memory.length missing = (some st, rest)) :
    WriteEnd.write ⟨script, wire⟩ memory (sizeT (cInt missing)) =
      (some st, ⟨rest, wire ++ memory.take st⟩) := by
  have hst := moved_bounds h
  have hne : memory ≠ [] := by
    rintro rfl
    simp only [List.length_nil] at hst
    omega
  obtain ⟨hserved, k, hk, rfl⟩ := request_more h
  simp only [WriteEnd.write, hk, hne, hserved, or_self, ↓reduceIte, List.length_take]
  rw [← List.take_eq_take_min]

theorem guardReadLoop_stop {size n : ℤ} {fd : ReadEnd} {stored : List UInt8} {fd' : ReadEnd}
    (hn : n ≠ size) (h : fd.read (sizeT (cInt (size - n))) = (none, fd') ∨
      fd.read (sizeT (cInt (size - n))) = (some [], fd')) :
    guardReadLoop size fd n stored = (-1, stored, fd') := by
  rw [guardReadLoop, if_neg hn]
  split
  · next h' =>
    rw [h'] at h
    simp_all
  · next h' =>
    rw [h'] at h
    simp_all

theorem guardReadLoop_transfers {size : ℕ} (hsize : size < 2 ^ 32) (missing : ℕ) :
    ∀ (script : List IoResult) (stream stored : List UInt8) (n : ℕ), n + missing = size →
      guardReadLoop (cInt size) ⟨script, stream⟩ (cInt n) stored =
        let t := transfers script stream.length missing
        (if t.1 = missing then cInt size else -1, stored ++ stream.take t.1,
          ⟨t.2, stream.drop t.1⟩) := by
  induction missing using Nat.strong_induction_on with
  | h missing ih =>
    intro script stream stored n hn
    have hreq : cInt (cInt size - cInt n) = cInt missing := by
      rw [cInt_sub_cInt]
      congr 1
      omega
    by_cases hm : missing = 0
    · have he : n = size := by omega
      rw [guardReadLoop, if_pos (by rw [he]), hm, transfers_zero, he]
      simp
    · have hne : cInt (n : ℤ) ≠ cInt size := by
        rw [Ne, cInt_natCast_inj (by omega) hsize]
        omega
      match h : moved script stream.length missing with
      | (none, rest) =>
        have hread := read_stop (by omega) h
        rw [← hreq] at hread
        rw [guardReadLoop_stop hne hread, transfers_stop hm h]
        simp [Ne.symm hm]
      | (some st, rest) =>
        obtain ⟨hpos, hle, havail⟩ := moved_bounds h
        have hread := read_more h
        rw [← hreq] at hread
        have htake : (stream.take st).length = st := by
          rw [List.length_take]
          omega
        have hbs : stream.take st ≠ [] := by
          intro he
          simp only [he, List.length_nil] at htake
          omega
        have hnext : cInt (cInt n + (stream.take st).length) = cInt (n + st : ℕ) := by
          rw [htake, cInt_cInt_add, Nat.cast_add]
        rw [guardReadLoop_more hne hread hbs, hnext,
          ih (missing - st) (by omega) rest _ _ (n + st) (by omega), transfers_more hm h]
        have hfull : ∀ d, d = missing - st ↔ st + d = missing := by omega
        simp only [List.length_drop, List.append_assoc, List.take_add, List.drop_drop, hfull]

theorem guardWriteLoop_stop {size n : ℤ} {fd fd' : WriteEnd} {memory : List UInt8}
    (hn : n ≠ size) (h : fd.write memory (sizeT (cInt (size - n))) = (none, fd') ∨
      fd.write memory (sizeT (cInt (size - n))) = (some 0, fd')) :
    guardWriteLoop size fd n memory = (-1, fd') := by
  rw [guardWriteLoop, if_neg hn]
  split
  · next h' =>
    rw [h'] at h
    simp_all
  · next h' =>
    rw [h'] at h
    simp_all

theorem guardWriteLoop_transfers {size : ℕ} (hsize : size < 2 ^ 32) (missing : ℕ) :
    ∀ (script : List IoResult) (wire memory : List UInt8) (n : ℕ), n + missing = size →
      guardWriteLoop (cInt size) ⟨script, wire⟩ (cInt n) memory =
        let t := transfers script memory.length missing
        (if t.1 = missing then cInt size else -1, ⟨t.2, wire ++ memory.take t.1⟩) := by
  induction missing using Nat.strong_induction_on with
  | h missing ih =>
    intro script wire memory n hn
    have hreq : cInt (cInt size - cInt n) = cInt missing := by
      rw [cInt_sub_cInt]
      congr 1
      omega
    by_cases hm : missing = 0
    · have he : n = size := by omega
      rw [guardWriteLoop, if_pos (by rw [he]), hm, transfers_zero, he]
      simp
    · have hne : cInt (n : ℤ) ≠ cInt size := by
        rw [Ne, cInt_natCast_inj (by omega) hsize]
        omega
      match h : moved script memory.length missing with
      | (none, rest) =>
        have hwrite := write_stop wire (by omega) h
        rw [← hreq] at hwrite
        rw [guardWriteLoop_stop hne hwrite, transfers_stop hm h]
        simp [Ne.symm hm]
      | (some st, rest) =>
        obtain ⟨hpos, hle, havail⟩ := moved_bounds h
        have hwrite := write_more wire h
        rw [← hreq] at hwrite
        have hnext : cInt (cInt n + st) = cInt (n + st : ℕ) := by
          rw [cInt_cInt_add, Nat.cast_add]
        have hfull : ∀ d, d = missing - st ↔ st + d = missing := by omega
        rw [guardWriteLoop_more hne hwrite (by omega), hnext,
          ih (missing - st) (by omega) rest _ _ (n + st) (by omega), transfers_more hm h]
        simp only [List.length_drop, List.append_assoc, List.take_add, hfull]

/-- What a guarded read does on any descriptor. -/
theorem guardRead_eq {size : ℕ} (hsize : size < 2 ^ 32) (script : List IoResult)
    (stream buffer : List UInt8) :
    guardRead ⟨script, stream⟩ buffer size =
      let t := transfers script stream.length size
      (if t.1 = size then cInt size else -1, memcpyAt buffer 0 (stream.take t.1),
        ⟨t.2, stream.drop t.1⟩) := by
  have h := guardReadLoop_transfers hsize size script stream [] 0 (by omega)
  have h0 : cInt ((0 : ℕ) : ℤ) = 0 := rfl
  rw [h0] at h
  simp only [guardRead, h, List.nil_append]

/-- A size that is negative as an `int` is refused at once. -/
theorem guardRead_refused {size : ℕ} (hsize : size < 2 ^ 32) (hlarge : 2 ^ 31 ≤ size)
    (fd : ReadEnd) (buffer : List UInt8) : (guardRead fd buffer size).1 = -1 := by
  obtain ⟨script, stream⟩ := fd
  have hne : (transfers script stream.length size).1 ≠ size := by
    match h : moved script stream.length size with
    | (none, rest) =>
      rw [transfers_stop (by omega) h]
      omega
    | (some st, rest) =>
      have hsmall := (moved_some h).2.1
      omega
  rw [guardRead_eq hsize]
  exact if_neg hne

theorem guardWrite_eq {size : ℕ} (hsize : size < 2 ^ 32) (script : List IoResult)
    (wire buffer : List UInt8) :
    guardWrite ⟨script, wire⟩ buffer size =
      let t := transfers script buffer.length size
      (if t.1 = size then cInt size else -1, ⟨t.2, wire ++ buffer.take t.1⟩) := by
  have h := guardWriteLoop_transfers hsize size script wire buffer 0 (by omega)
  have h0 : cInt ((0 : ℕ) : ℤ) = 0 := rfl
  rw [h0] at h
  exact h

/-- A guarded read consumes exactly the bytes asked for, however they are cut. -/
theorem guardRead_full (buffer : List UInt8) {script : List IoResult} {bytes : List UInt8}
    {size : ℕ} (hp : AllPositive script) (hl : bytes.length = size) (hsize : size < 2 ^ 31)
    (hb : buffer.length ≤ size) :
    ∃ rest, AllPositive rest ∧ ∀ following,
      guardRead ⟨script, bytes ++ following⟩ buffer size =
        ((size : ℤ), bytes, ⟨rest, following⟩) := by
  subst hl
  obtain ⟨rest, hrest, hall⟩ := transfers_all hp hsize
  refine ⟨rest, hrest, ?_⟩
  intro following
  have hc : cInt (bytes.length : ℤ) = bytes.length := cInt_of_bounds (by omega) (by omega)
  have henough : bytes.length ≤ (bytes ++ following).length := by simp
  rw [guardRead_eq (by omega), transfers_enough henough, hall]
  simp only [↓reduceIte, hc, List.take_left, List.drop_left, memcpyAt_zero,
    List.drop_eq_nil_of_le hb, List.append_nil]

/-- A guarded write puts exactly the first `size` bytes of the buffer on the wire. -/
theorem guardWrite_full (buffer : List UInt8) {script : List IoResult} {size : ℕ}
    (hp : AllPositive script) (hsize : size < 2 ^ 31) (hb : size ≤ buffer.length) :
    ∃ rest, AllPositive rest ∧ ∀ wire, guardWrite ⟨script, wire⟩ buffer size =
      ((size : ℤ), ⟨rest, wire ++ buffer.take size⟩) := by
  obtain ⟨rest, hrest, hall⟩ := transfers_all hp hsize
  refine ⟨rest, hrest, ?_⟩
  intro wire
  have hc : cInt (size : ℤ) = size := cInt_of_bounds (by omega) (by omega)
  rw [guardWrite_eq (by omega), transfers_enough hb, hall]
  simp only [↓reduceIte, hc]

/-- A field goes out whole, in the bytes it has in memory. -/
theorem guardWrite_field {script : List IoResult} {bytes : List UInt8} {size : ℕ}
    (hp : AllPositive script) (hl : bytes.length = size) (hsize : size < 2 ^ 31) :
    ∃ rest, AllPositive rest ∧ ∀ wire, guardWrite ⟨script, wire⟩ bytes size =
      ((size : ℤ), ⟨rest, wire ++ bytes⟩) := by
  have h := guardWrite_full bytes hp hsize (by omega)
  rwa [List.take_of_length_le (by omega)] at h

/-! ### Frames -/

/-- The frame of a message: magic, header in network order, payload, magic. -/
def encode (m : TunnelMsg) : List UInt8 :=
  be16 MSG_MAGIC_BEGIN ++ ([m.header.type] ++ (be16 m.header.channelId ++
    (be16 m.header.clientId ++ (be32 m.header.size ++ (m.payload ++ be16 MSG_MAGIC_END)))))

/-- The block behind `data` holds at least the payload, and the size fits a C int. -/
structure TunnelMsg.Sendable (m : TunnelMsg) : Prop where
  small : m.header.size.toNat < 2 ^ 31
  block : m.header.size.toNat ≤ (m.data.getD []).length

/-- What a receiver holds after the frame of `m`: the payload, NULL exactly when it is empty. -/
def TunnelMsg.received (m : TunnelMsg) : TunnelMsg :=
  { m with data := if m.header.size = 0 then none else some m.payload }

/-- The message with a given payload, as a receiver holds it. -/
def frame (type : UInt8) (channelId clientId : UInt16) (payload : List UInt8) : TunnelMsg :=
  ⟨⟨type, channelId, clientId, UInt32.ofNat payload.length⟩,
    if payload = [] then none else some payload⟩

theorem received_eq_frame {h : TunnelMsgH} {data payload : List UInt8}
    (hsmall : payload.length < 2 ^ 32) (hsize : h.size = UInt32.ofNat payload.length)
    (htake : data.take payload.length = payload) :
    TunnelMsg.received ⟨h, some data⟩ = frame h.type h.channelId h.clientId payload := by
  obtain ⟨type, channelId, clientId, size⟩ := h
  subst hsize
  have hn : (UInt32.ofNat payload.length).toNat = payload.length := by
    rw [UInt32.toNat_ofNat', Nat.mod_eq_of_lt hsmall]
  have hz : UInt32.ofNat payload.length = 0 ↔ payload = [] := by
    rw [← UInt32.toNat_inj, hn]
    simp
  simp [TunnelMsg.received, TunnelMsg.payload, frame, hn, hz, htake]

/-- What a successful `msgRead` leaves in the caller's struct. -/
structure TunnelMsg.Received (m : TunnelMsg) : Prop where
  type : m.header.type ≤ 7
  block : (m.data.getD []).length = m.header.size.toNat
  null : m.data = none ↔ m.header.size = 0

instance (m : TunnelMsg) : Decidable m.Received :=
  decidable_of_iff (m.header.type ≤ 7 ∧ (m.data.getD []).length = m.header.size.toNat ∧
      (m.data = none ↔ m.header.size = 0))
    ⟨fun ⟨ht, hb, hn⟩ => ⟨ht, hb, hn⟩, fun ⟨ht, hb, hn⟩ => ⟨ht, hb, hn⟩⟩

theorem frame_payload {type : UInt8} {channelId clientId : UInt16} {payload : List UInt8}
    (hsmall : payload.length < 2 ^ 32) :
    (frame type channelId clientId payload).payload = payload := by
  have hn : (UInt32.ofNat payload.length).toNat = payload.length := by
    rw [UInt32.toNat_ofNat', Nat.mod_eq_of_lt hsmall]
  by_cases hp : payload = [] <;> simp [frame, TunnelMsg.payload, hn, hp]

theorem frame_received {type : UInt8} {channelId clientId : UInt16} {payload : List UInt8}
    (htype : type ≤ 7) (hsmall : payload.length < 2 ^ 32) :
    (frame type channelId clientId payload).Received := by
  have hn : (UInt32.ofNat payload.length).toNat = payload.length := by
    rw [UInt32.toNat_ofNat', Nat.mod_eq_of_lt hsmall]
  refine ⟨htype, ?_, ?_⟩
  · by_cases hp : payload = [] <;> simp [frame, hn, hp]
  · rw [← UInt32.toNat_inj]
    simp only [frame, hn]
    by_cases hp : payload = [] <;> simp [hp]

theorem TunnelMsg.Received.payload_eq {m : TunnelMsg} (h : m.Received) :
    m.payload = m.data.getD [] := by
  rw [TunnelMsg.payload, List.take_of_length_le h.block.le]

theorem TunnelMsg.Received.received_eq {m : TunnelMsg} (h : m.Received) : m.received = m := by
  obtain ⟨header, data⟩ := m
  cases data with
  | none =>
    have hz : header.size = 0 := h.null.mp rfl
    simp [TunnelMsg.received, hz]
  | some block =>
    have hz : header.size ≠ 0 := fun he => by simpa using h.null.mpr he
    have hp := h.payload_eq
    simp only [Option.getD_some] at hp
    simp [TunnelMsg.received, hz, hp]

/-- A received message is the frame of its payload. -/
theorem TunnelMsg.Received.eq_frame {m : TunnelMsg} (h : m.Received) :
    m = frame m.header.type m.header.channelId m.header.clientId m.payload := by
  have hlen : m.payload.length = m.header.size.toNat := h.payload_eq ▸ h.block
  have hmsg := h.received_eq
  obtain ⟨header, data⟩ := m
  cases data with
  | none =>
    have hz : header.size = 0 := h.null.mp rfl
    obtain ⟨type, channelId, clientId, size⟩ := header
    obtain rfl : size = 0 := hz
    rfl
  | some block =>
    rw [h.payload_eq] at hlen ⊢
    have hblock : block.length = header.size.toNat := hlen
    have hframe : TunnelMsg.received ⟨header, some block⟩ =
        frame header.type header.channelId header.clientId block :=
      received_eq_frame (by rw [hblock]; exact UInt32.toNat_lt _)
        (by rw [hblock, UInt32.ofNat_toNat]) (by simp)
    exact hmsg.symm.trans hframe

theorem TunnelMsg.Sendable.payload_length {m : TunnelMsg} (h : m.Sendable) :
    m.payload.length = m.header.size.toNat := by
  simp only [TunnelMsg.payload, List.length_take, Nat.min_eq_left h.block]

/-- Receiving normalises the block, never the message. -/
theorem TunnelMsg.received_payload (m : TunnelMsg) : m.received.payload = m.payload := by
  by_cases hz : m.header.size = 0
  · simp [TunnelMsg.received, TunnelMsg.payload, hz]
  · simp [TunnelMsg.received, TunnelMsg.payload, hz, List.take_take]

theorem TunnelMsg.payload_nil {m : TunnelMsg} (h : m.header.size = 0) : m.payload = [] := by
  simp [TunnelMsg.payload, h]

theorem count_ne_failure (k : ℕ) : (k : ℤ) ≠ -1 := by omega

theorem msgWrite_full {script : List IoResult} {m : TunnelMsg} (hp : AllPositive script)
    (hm : m.Sendable) :
    ∃ rest, AllPositive rest ∧ ∀ wire,
      msgWrite ⟨script, wire⟩ m = (0, ⟨rest, wire ++ encode m⟩) := by
  obtain ⟨r₁, hr₁, h₁⟩ := guardWrite_field hp (be16_length MSG_MAGIC_BEGIN) (by omega)
  obtain ⟨r₂, hr₂, h₂⟩ := guardWrite_field hr₁ (List.length_singleton (a := m.header.type))
    (by omega)
  obtain ⟨r₃, hr₃, h₃⟩ := guardWrite_field hr₂ (be16_length m.header.channelId) (by omega)
  obtain ⟨r₄, hr₄, h₄⟩ := guardWrite_field hr₃ (be16_length m.header.clientId) (by omega)
  obtain ⟨r₅, hr₅, h₅⟩ := guardWrite_field hr₄ (be32_length m.header.size) (by omega)
  -- The payload is skipped when the size is zero, and is then empty.
  obtain ⟨r₆, hr₆, st, hst, h₆⟩ : ∃ r₆, AllPositive r₆ ∧ ∃ st : ℤ, st ≠ -1 ∧ ∀ wire,
      (if m.header.size > 0 then
        guardWrite ⟨r₅, wire⟩ (m.data.getD []) m.header.size.toNat
      else (0, ⟨r₅, wire⟩)) = (st, ⟨r₆, wire ++ m.payload⟩) := by
    by_cases hz : m.header.size > 0
    · obtain ⟨r₆, hr₆, h₆⟩ := guardWrite_full _ hr₅ hm.small hm.block
      exact ⟨r₆, hr₆, _, count_ne_failure _, fun wire => by rw [if_pos hz, h₆]; rfl⟩
    · have hpay := TunnelMsg.payload_nil (m := m) (by simpa using hz)
      exact ⟨r₅, hr₅, 0, by omega, fun wire => by rw [if_neg hz, hpay, List.append_nil]⟩
  obtain ⟨r₇, hr₇, h₇⟩ := guardWrite_field hr₆ (be16_length MSG_MAGIC_END) (by omega)
  refine ⟨r₇, hr₇, ?_⟩
  intro wire
  simp only [msgWrite, mem16_htons, mem32_htonl, h₁, h₂, h₃, h₄, h₅, h₆, h₇, count_ne_failure,
    hst, ↓reduceIte]
  simp only [encode, List.append_assoc]

theorem msgCheckNumber_full {script : List IoResult} (hp : AllPositive script)
    (number : UInt16) :
    ∃ rest, AllPositive rest ∧ ∀ following,
      msgCheckNumber ⟨script, be16 number ++ following⟩ number = (0, ⟨rest, following⟩) := by
  obtain ⟨rest, hrest, h⟩ :=
    guardRead_full [] hp (be16_length number) (by omega) (by simp)
  refine ⟨rest, hrest, ?_⟩
  intro following
  simp only [msgCheckNumber, h, count_ne_failure, ↓reduceIte, ntohs_word16_be16, ne_eq,
    not_true_eq_false]

theorem msgReadPayload_full {script : List IoResult} {payload : List UInt8} {size : UInt32}
    (hp : AllPositive script) (hl : payload.length = size.toNat) (hs : size.toNat < 2 ^ 31)
    (prev : UInt32) :
    ∃ rest, AllPositive rest ∧ ∀ following,
      msgReadPayload ⟨script, be32 size ++ (payload ++ following)⟩ prev =
        (if size = 0 then none else some payload, size, ⟨rest, following⟩) := by
  obtain ⟨r₁, hr₁, h₁⟩ :=
    guardRead_full (mem32 prev) hp (be32_length size) (by omega) (by simp)
  by_cases hz : size = 0
  · subst hz
    have hnil : payload = [] := by simpa using hl
    refine ⟨r₁, hr₁, ?_⟩
    intro following
    simp only [msgReadPayload, h₁, count_ne_failure, ↓reduceIte, ntohl_word32_be32, hnil,
      List.nil_append]
  · obtain ⟨r₂, hr₂, h₂⟩ := guardRead_full [] hr₁ hl hs (by simp)
    refine ⟨r₂, hr₂, ?_⟩
    intro following
    simp only [msgReadPayload, h₁, count_ne_failure, ↓reduceIte, ntohl_word32_be32, hz, h₂]

/-- One frame is read back whole, whatever the caller's struct held before. -/
theorem msgRead_full {script : List IoResult} {m : TunnelMsg} (hp : AllPositive script)
    (hm : m.Sendable) (ht : m.header.type ≤ 7) (prev : TunnelMsg) :
    ∃ rest, AllPositive rest ∧ ∀ following,
      msgRead ⟨script, encode m ++ following⟩ prev = (0, m.received, ⟨rest, following⟩) := by
  obtain ⟨r₁, hr₁, h₁⟩ := msgCheckNumber_full hp MSG_MAGIC_BEGIN
  obtain ⟨r₂, hr₂, h₂⟩ := guardRead_full [prev.header.type] hr₁
    (List.length_singleton (a := m.header.type)) (by omega) (by simp)
  obtain ⟨r₃, hr₃, h₃⟩ := guardRead_full (mem16 prev.header.channelId) hr₂
    (be16_length m.header.channelId) (by omega) (by simp)
  obtain ⟨r₄, hr₄, h₄⟩ := guardRead_full (mem16 prev.header.clientId) hr₃
    (be16_length m.header.clientId) (by omega) (by simp)
  obtain ⟨r₅, hr₅, h₅⟩ := msgReadPayload_full hr₄ hm.payload_length hm.small prev.header.size
  obtain ⟨r₆, hr₆, h₆⟩ := msgCheckNumber_full hr₅ MSG_MAGIC_END
  refine ⟨r₆, hr₆, ?_⟩
  intro following
  have hknown : ¬ 0x7 < m.header.type := UInt8.not_lt.mpr ht
  have hdata : ¬ ((if m.header.size = 0 then none else some m.payload) = none ∧
      m.header.size ≠ 0) := by
    rintro ⟨hn, hz⟩
    simp [hz] at hn
  simp only [encode, List.append_assoc, msgRead, h₁, h₂, h₃, h₄, h₅, h₆, count_ne_failure,
    ↓reduceIte, List.headD_cons, hknown, ntohs_word16_be16, hdata]
  simp [TunnelMsg.received]

theorem msgWrites_full {script : List IoResult} (hp : AllPositive script)
    (msgs : List TunnelMsg) (hm : ∀ m ∈ msgs, m.Sendable) :
    ∃ rest, AllPositive rest ∧ ∀ wire, msgWrites msgs ⟨script, wire⟩ =
      (msgs.map fun _ => 0, ⟨rest, wire ++ msgs.flatMap encode⟩) := by
  induction msgs generalizing script with
  | nil => exact ⟨script, hp, fun wire => by simp [msgWrites]⟩
  | cons m ms ih =>
    obtain ⟨r₁, hr₁, h₁⟩ := msgWrite_full hp (hm m List.mem_cons_self)
    obtain ⟨r₂, hr₂, h₂⟩ := ih hr₁ (fun x hx => hm x (List.mem_cons_of_mem m hx))
    refine ⟨r₂, hr₂, ?_⟩
    intro wire
    simp only [msgWrites, h₁, h₂, List.map_cons, List.flatMap_cons, List.append_assoc]

theorem msgReads_full {script : List IoResult} (hp : AllPositive script)
    (msgs : List TunnelMsg) (hm : ∀ m ∈ msgs, m.Sendable) (ht : ∀ m ∈ msgs, m.header.type ≤ 7)
    (prev : TunnelMsg) :
    ∃ rest, AllPositive rest ∧ ∀ following,
      msgReads msgs.length ⟨script, msgs.flatMap encode ++ following⟩ prev =
        (msgs.map fun m => (0, m.received), ⟨rest, following⟩) := by
  induction msgs generalizing script prev with
  | nil => exact ⟨script, hp, fun following => by simp [msgReads]⟩
  | cons m ms ih =>
    obtain ⟨r₁, hr₁, h₁⟩ :=
      msgRead_full hp (hm m List.mem_cons_self) (ht m List.mem_cons_self) prev
    obtain ⟨r₂, hr₂, h₂⟩ := ih hr₁ (fun x hx => hm x (List.mem_cons_of_mem m hx))
      (fun x hx => ht x (List.mem_cons_of_mem m hx)) m.received
    refine ⟨r₂, hr₂, ?_⟩
    intro following
    simp only [List.flatMap_cons, List.append_assoc, List.length_cons, msgReads, h₁, h₂,
      List.map_cons]

/-- Every stream of messages survives the trip: `short` are the counts write(2) returns,
`cuts` the counts read(2) returns, and neither side sees the other's. -/
theorem framing_round_trip (msgs : List TunnelMsg)
    (htype : ∀ m ∈ msgs, m.header.type ≤ 7)
    (hsize : ∀ m ∈ msgs, m.header.size.toNat < 2 ^ 31)
    (hdata : ∀ m ∈ msgs, (m.data.getD []).length = m.header.size.toNat)
    (short cuts : List IoResult) (hshort : AllPositive short) (hcuts : AllPositive cuts)
    (prev : TunnelMsg) (following : List UInt8) :
    ∃ wire restShort restCuts,
      msgWrites msgs ⟨short, []⟩ = (msgs.map fun _ => 0, ⟨restShort, wire⟩) ∧
      msgReads msgs.length ⟨cuts, wire ++ following⟩ prev =
        (msgs.map fun m => (0, m.received), ⟨restCuts, following⟩) ∧
      ∀ m ∈ msgs, m.received.header = m.header ∧ m.received.payload = m.payload ∧
        (m.received.data = none ↔ m.header.size = 0) := by
  have hsend : ∀ m ∈ msgs, m.Sendable := fun m hm => ⟨hsize m hm, (hdata m hm).ge⟩
  obtain ⟨restShort, -, hwrite⟩ := msgWrites_full hshort msgs hsend
  obtain ⟨restCuts, -, hread⟩ := msgReads_full hcuts msgs hsend htype prev
  refine ⟨msgs.flatMap encode, restShort, restCuts, ?_, hread following, ?_⟩
  · simpa using hwrite []
  · intro m hm
    refine ⟨rfl, m.received_payload, ?_⟩
    by_cases hz : m.header.size = 0 <;> simp [TunnelMsg.received, hz]

/-- One message with a payload and one without, cut differently on the two sides. -/
theorem framing_round_trip_two_messages :
    ∃ wire restShort restCuts,
      msgWrites [⟨⟨6, 1, 2, 3⟩, some [7, 8, 9]⟩, ⟨⟨3, 1, 2, 0⟩, none⟩]
          ⟨[.count 1, .count 5], []⟩ = ([0, 0], ⟨restShort, wire⟩) ∧
      msgReads 2 ⟨[.count 2, .count 1, .count 1], wire ++ [65]⟩ ⟨⟨0, 0, 0, 0⟩, none⟩ =
        ([(0, ⟨⟨6, 1, 2, 3⟩, some [7, 8, 9]⟩), (0, ⟨⟨3, 1, 2, 0⟩, none⟩)],
          ⟨restCuts, [65]⟩) := by
  obtain ⟨wire, restShort, restCuts, hwrite, hread, -⟩ := framing_round_trip
    [⟨⟨6, 1, 2, 3⟩, some [7, 8, 9]⟩, ⟨⟨3, 1, 2, 0⟩, none⟩] (by decide) (by decide) (by decide)
    [.count 1, .count 5] [.count 2, .count 1, .count 1] (by decide) (by decide)
    ⟨⟨0, 0, 0, 0⟩, none⟩ [65]
  exact ⟨wire, restShort, restCuts, hwrite, hread⟩

/-! ### What the services share -/

/-- The host library: its line buffer size, an `int` constant, and its string hash, an `int` of
32 bits. -/
structure Antd where
  BUFFLEN : ℕ
  simpleHash : List UInt8 → Int32
  room : 514 ≤ BUFFLEN
  small : BUFFLEN < 2 ^ 31

/-- What fits into the buffer has a size that fits into a header. -/
theorem Antd.take_small (A : Antd) (bytes : List UInt8) :
    (bytes.take A.BUFFLEN).length < 2 ^ 32 := by
  have hle := List.length_take_le A.BUFFLEN bytes
  have hlt := A.small
  omega

/-- The host with the smallest buffer and a given hash. -/
def Antd.smallest (simpleHash : List UInt8 → Int32) : Antd :=
  ⟨514, simpleHash, by decide, by decide⟩

/-- A host that hashes a string to its first byte. -/
def firstByteHost : Antd := .smallest fun name => Int32.ofNat (name.headD 0).toNat

/-- The message read, the memory that happens to follow its payload, and what the stack
holds where the service puts a local message header. -/
structure Input where
  request : TunnelMsg
  beyond : List UInt8
  stack : TunnelMsgH
  received : request.Received

abbrev Input.client (i : Input) : UInt16 := i.request.header.clientId
abbrev Input.size (i : Input) : ℕ := i.request.header.size.toNat

theorem Input.payload_length (i : Input) : i.request.payload.length = i.size := by
  rw [i.received.payload_eq, i.received.block]

/-- The bytes that can be read from `request.data` on. -/
def Input.memory (i : Input) : List UInt8 :=
  match i.request.data with
  | none => []
  | some block => block ++ i.beyond

/-- A request with nothing readable behind its payload. -/
def Input.plain (type : UInt8) (client : UInt16) (payload : List UInt8)
    (htype : type ≤ 7 := by decide) (hsmall : payload.length < 2 ^ 32 := by decide) : Input where
  request := frame type 1 client payload
  beyond := []
  stack := ⟨0, 0, 0, 0⟩
  received := frame_received htype hsmall

theorem Input.plain_payload {type : UInt8} {client : UInt16} {payload : List UInt8}
    {htype : type ≤ 7} {hsmall : payload.length < 2 ^ 32} :
    (Input.plain type client payload htype hsmall).request.payload = payload :=
  frame_payload hsmall

/-- A client subscribes under a name of one letter. -/
def Input.subscribe (client : UInt16) (letter : UInt8) : Input :=
  .plain CHANNEL_SUBSCRIBE client [letter] (by decide) (by simp)

/-- A client leaves. -/
def Input.unsubscribe (client : UInt16) : Input :=
  .plain CHANNEL_UNSUBSCRIBE client [] (by decide) (Nat.two_pow_pos 32)

/-- A CTRL message of an action and one letter. -/
def Input.ctrl (client : UInt16) (action letter : UInt8) : Input :=
  .plain CHANNEL_CTRL client [action, letter] (by decide) (by simp)

/-- A CTRL message of two words of two bytes and two single bytes. -/
def Input.words (client : UInt16) (w h : UInt8 × UInt8) (a b : UInt8) : Input :=
  .plain CHANNEL_CTRL client [w.1, w.2, h.1, h.2, a, b] (by decide) (by simp)

/-- A DATA message of one letter. -/
def Input.data (client : UInt16) (letter : UInt8) : Input :=
  .plain CHANNEL_DATA client [letter] (by decide) (by simp)

end TunnelFraming
