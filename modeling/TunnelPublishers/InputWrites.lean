import TunnelPublishers.VtermReleases
import TunnelPublishers.WfifoPrivacy

/-!
# What becomes of input

Terminals and FIFOs are written with one call of write. A failed call is noticed
and a full one is all there is to do, but the rest of a payload of which only a
part was taken is neither written nor missed.
-/
namespace InputWrites

open ByteOrder FiniteMaps FiniteMap TunnelFraming ExecutionTraces KernelTables

/-- A result `write` can have. -/
def Possible (bytes : List UInt8) (result : ℤ) : Prop :=
  result = -1 ∨ 0 ≤ result ∧ result ≤ bytes.length

/-- The bytes a call of `write` took. -/
def taken (bytes : List UInt8) (result : ℤ) : List UInt8 := bytes.take result.toNat

/-- All bytes are taken when the call says so, and only then. -/
theorem taken_eq_iff {bytes : List UInt8} {result : ℤ} (h : Possible bytes result)
    (hok : result ≠ -1) : taken bytes result = bytes ↔ result = bytes.length := by
  obtain ⟨hnonneg, hle⟩ := h.resolve_left hok
  rw [taken, List.take_eq_self_iff]
  omega

variable {M : Type → Type → Type} [FiniteMap M]

/-! ### Terminals -/

section Vterm

open VtermService VtermTerminals

/-- What a descriptor took. -/
def terminalTook (fd : ℤ) (out : List VtermService.Event) : List UInt8 :=
  out.flatMap fun
    | .wrote fd' bytes result => if fd' = fd then taken bytes result else []
    | _ => []

/-- The payload is written to the client's terminal, or the terminal is killed and its client
told to leave. -/
def TerminalInputKept (u : VtermService.State M) (p : VtermService.Pass) (i : Input)
    (proc : VtermProc) : Prop :=
  terminalTook proc.fdm (VtermService.handleMessage u p i).2 = i.request.payload ∨
    .process (.kill proc.pid (p.answers i.client).kill) ∈ (VtermService.handleMessage u p i).2 ∧
      refuse i.request.header ∈ (VtermService.handleMessage u p i).2 ∧
      find (VtermService.handleMessage u p i).1.processes i.client = none

theorem terminal_input_iff {u : VtermService.State M} (h : Records u []) {p : VtermService.Pass}
    {i : Input} {q : ℕ} {proc : VtermProc} (htype : i.request.header.type = CHANNEL_DATA)
    (hd : terminals u i.client = some (q, proc))
    (hpossible : Possible i.request.payload (p.answers i.client).write) :
    TerminalInputKept u p i proc ↔
      (p.answers i.client).write = -1 ∨ (p.answers i.client).write = i.size := by
  obtain ⟨hmove, hrecords⟩ := handleMessage_handles h p i
  have hgone := terminals_eq_none hrecords (c := i.client)
  rw [TerminalInputKept, ← hgone]
  generalize (VtermService.handleMessage u p i).2 = out at hmove ⊢
  generalize terminals (VtermService.handleMessage u p i).1 = d' at hmove ⊢
  generalize terminals u = d at hd hmove
  cases hmove with
  | refused hsub | created hsub | left hsub | stranger hsub | resized hsub =>
    rw [htype] at hsub
    exact absurd hsub (by decide)
  | ignored _ _ hdata => exact (hdata htype).elim
  | unwritable _ hnone =>
    rw [hd] at hnone
    cases hnone
  | wrote _ hd' hok =>
    rw [hd, Option.some.injEq, Prod.mk.injEq] at hd'
    obtain ⟨rfl, rfl⟩ := hd'
    have htook := taken_eq_iff hpossible hok
    rw [i.payload_length] at htook
    simp [terminalTook, htook, hok, refuse]
  | broken _ hd' hfail =>
    rw [hd, Option.some.injEq, Prod.mk.injEq] at hd'
    obtain ⟨rfl, rfl⟩ := hd'
    simp [hfail, killed]

end Vterm

/-! ### FIFOs -/

section Wfifo

open WfifoService

def fifoTook (fd : ℤ) (out : List WfifoService.Event) : List UInt8 :=
  out.flatMap fun
    | .wrote fd' bytes result => if fd' = fd then taken bytes result else []
    | _ => []

/-- The payload is written to the client's FIFO, or the loop stops. -/
def FifoInputKept (A : Antd) (x : Args) (s : WfifoService.State M) (p : WfifoService.Pass)
    (i : Input) (fd : ℤ) : Prop :=
  fifoTook fd (WfifoService.handleMessage A x s p i).2 = i.request.payload ∨
    (WfifoService.handleMessage A x s p i).1.running = false

theorem fifo_input_iff {A : Antd} {x : Args} {s : WfifoService.State M} {p : WfifoService.Pass}
    {i : Input} {fd : ℤ} (hmode : x.mode = 119) (hrunning : s.running = true)
    (htype : i.request.header.type = CHANNEL_DATA) (hc : find s.clients i.client = some fd)
    (hfd : fd ≠ 0) (hpossible : 0 < i.size → Possible i.request.payload p.write) :
    FifoInputKept A x s p i fd ↔ i.size = 0 ∨ p.write = -1 ∨ p.write = i.size := by
  have hhandle : WfifoService.handleMessage A x s p i = WfifoService.channelData x s p i := by
    simp only [WfifoService.handleMessage, htype]
    rfl
  rw [FifoInputKept, hhandle]
  by_cases hsize : i.size = 0
  · have hnil : i.request.payload = [] := by
      rw [← List.length_eq_zero_iff, i.payload_length, hsize]
    simp [WfifoService.channelData, hmode, hc, hsize, hnil, fifoTook]
  · have hpos : 0 < i.size := Nat.pos_of_ne_zero hsize
    by_cases hfail : p.write = -1
    · simp [WfifoService.channelData, hmode, hc, hfd, hpos, hfail]
    · have htook := taken_eq_iff (hpossible hpos) hfail
      rw [i.payload_length] at htook
      simp [WfifoService.channelData, hmode, hc, hfd, hpos, hfail, hrunning, fifoTook, htook, hsize]

end Wfifo

/-- The state in which a terminal service that has polled its children handles a message. -/
abbrev handling (s : VtermService.State M) (p : VtermService.Pass) (i : Input) :
    VtermService.State M :=
  { (VtermService.monitorProcesses s p).1 with msg := i.request.header }

/-- In every run input to a terminal is kept if and only if the write fails or takes the whole
payload, and input to a FIFO in write mode if there is none, or likewise. -/
theorem input_kept_iff {A : Antd} {answer : TunnelMsgH} {passes : List VtermService.Pass}
    {trace : List VtermService.Event} {s : VtermService.State M} {p : VtermService.Pass} {i : Input}
    {q : ℕ} {proc : VtermService.VtermProc}
    (hrun : Execution (VtermService.Step A) (VtermService.initial answer) passes trace s)
    (htype : i.request.header.type = CHANNEL_DATA)
    (hd : VtermTerminals.terminals (handling s p i) i.client = some (q, proc))
    (hpossible : Possible i.request.payload (p.answers i.client).write)
    {x : WfifoService.Args} {f : WfifoService.State M} {r : WfifoService.Pass} {j : Input} {fd : ℤ}
    (hmode : x.mode = 119) (hrunning : f.running = true)
    (htype' : j.request.header.type = CHANNEL_DATA) (hc : find f.clients j.client = some fd)
    (hfd : fd ≠ 0) (hpossible' : 0 < j.size → Possible j.request.payload r.write) :
    (TerminalInputKept (handling s p i) p i proc ↔
      (p.answers i.client).write = -1 ∨ (p.answers i.client).write = i.size) ∧
    (FifoInputKept A x f r j fd ↔ j.size = 0 ∨ r.write = -1 ∨ r.write = j.size) := by
  have hpolled := (VtermTerminals.monitorProcesses_polls (VtermReleases.run_records hrun) p).2
  have hrecords : VtermTerminals.Records (handling s p i) [] := ⟨hpolled.live, hpolled.gone⟩
  exact ⟨terminal_input_iff hrecords htype hd hpossible,
    fifo_input_iff hmode hrunning htype' hc hfd hpossible'⟩

/-! ### Two bytes -/

theorem data_known : CHANNEL_DATA ≤ 7 := by decide

theorem typed_small : ([104, 105] : List UInt8).length < 2 ^ 32 := by decide

/-- Client 1 types two bytes. -/
def typed : Input := .plain CHANNEL_DATA 1 [104, 105] data_known typed_small

/-- A turn in which this many bytes are taken. -/
def typing (result : ℤ) : VtermService.Pass :=
  { VtermSignals.quiet 0 7 (.message typed) with
    answers := fun _ => { VtermSignals.childSeven 0 with write := result } }

/-- Client 1 has subscribed with child 7. -/
def subscribed : VtermService.State AssocList :=
  (VtermService.turn firstByteHost VtermSignals.start
    (VtermSignals.quiet 0 7 (.message (.subscribe 1 97)))).1

theorem subscribed_run : ∃ trace, Execution (VtermService.Step firstByteHost) VtermSignals.start
    [VtermSignals.quiet 0 7 (.message (.subscribe 1 97))] trace subscribed :=
  ⟨_, .single ⟨by decide +kernel, rfl⟩⟩

def writers : WfifoService.Args := ⟨text "f", 119⟩

/-- Client 1 has subscribed and is mapped to FIFO 5. -/
def mapped : WfifoService.State AssocList :=
  (WfifoService.turn firstByteHost writers
    (WfifoService.initial firstByteHost writers ⟨CHANNEL_OK, 1, 0, 0⟩ (WfifoPrivacy.opening 4)).1
    (WfifoPrivacy.quiet 5 (.message (.subscribe 1 97)))).1

def feeding (result : ℤ) : WfifoService.Pass :=
  ⟨WfifoPrivacy.opening 5, fun _ => ⟨false, none⟩, result, true, .message typed, false⟩

/-- Both bytes are taken. -/
theorem input_kept_iff_two_bytes :
    TerminalInputKept (handling subscribed (typing 2) typed) (typing 2) typed ⟨5, 7, 1⟩ ∧
      FifoInputKept firstByteHost writers mapped (feeding 2) typed 5 := by
  obtain ⟨trace, hrun⟩ := subscribed_run
  have hd : VtermTerminals.terminals (handling subscribed (typing 2) typed) typed.client =
      some (0, ⟨5, 7, 1⟩) := by decide +kernel
  have hc : find mapped.clients typed.client = some 5 := by decide +kernel
  have h := @input_kept_iff _ _ _ _ _ _ _ (typing 2) _ _ _ hrun rfl hd (.inr (by decide)) writers
    mapped (feeding 2) typed 5 rfl (by decide +kernel) rfl hc (by decide) fun _ => .inr (by decide)
  exact ⟨h.1.mpr (.inr rfl), h.2.mpr (.inr (.inr rfl))⟩

/-- One of two bytes is taken: the terminal lives on, the loop goes on, and the other byte is
lost. -/
theorem input_lost :
    (∃ trace, Execution (VtermService.Step firstByteHost) VtermSignals.start
      [VtermSignals.quiet 0 7 (.message (.subscribe 1 97))] trace subscribed) ∧
    ¬ TerminalInputKept (handling subscribed (typing 1) typed) (typing 1) typed ⟨5, 7, 1⟩ ∧
    ¬ FifoInputKept firstByteHost writers mapped (feeding 1) typed 5 := by
  refine ⟨subscribed_run, ?_, ?_⟩
  · unfold TerminalInputKept
    decide +kernel
  · unfold FifoInputKept
    decide +kernel

end InputWrites
