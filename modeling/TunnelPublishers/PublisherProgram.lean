import TunnelPublishers.FrameGrammar
import TunnelPublishers.ExecutionTraces

/-!
# Publishers over the bytes of the hotline

The shape of `main` where the results of `msg_write` are only logged: the channel is
opened, every turn of the loop reads at most one message, and the channel is closed.
The kernel may cut every transfer, and nothing is assumed of the bytes that come in.
-/
namespace PublisherProgram

open ByteOrder TunnelFraming ExecutionTraces

structure Hotline where
  input : ReadEnd
  output : WriteEnd

/-- What a turn has from the hotline. -/
inductive Heard where
  | nothing
  /-- `msg_read` fails and leaves this header in the struct. -/
  | unreadable (left : TunnelMsgH)
  | message (m : TunnelMsg) (received : m.Received)

def Heard.bytes : Heard → List UInt8
  | .message m _ => encode m
  | _ => []

/-- Whatever the reads return, an accepted message holds as many bytes as its header says. -/
theorem msgRead_received {fd : ReadEnd} {prev : TunnelMsg} (h : ¬ (msgRead fd prev).1 = -1) :
    (msgRead fd prev).2.1.Received := by
  have hzero : msgRead fd prev = (0, (msgRead fd prev).2.1, (msgRead fd prev).2.2) := by
    have hst := (msgRead_result fd prev).resolve_right h
    exact Prod.ext hst rfl
  obtain ⟨fd₄, fd₅, hheader, hpayload, -⟩ := msgRead_eq_zero_iff.mp hzero
  generalize (msgRead fd prev).2.1 = m at hheader hpayload
  obtain ⟨header, data⟩ := m
  obtain ⟨type, channelId, clientId, size⟩ := header
  refine ⟨hheader.known, ?_, ?_⟩
  · cases hpayload with
    | empty field => rfl
    | lost field zero => rfl
    | block field nonempty read passed =>
      exact (guardRead_filled (UInt32.toNat_lt _) (by simp) read passed).2.1
  · cases hpayload with
    | empty field => simp
    | lost field zero => simp
    | block field nonempty read passed => simpa using nonempty

def hear (fd : ReadEnd) (prev : TunnelMsgH) : Heard × ReadEnd :=
  let r := msgRead fd ⟨prev, none⟩
  if h : r.1 = -1 then (.unreadable r.2.1.header, r.2.2)
  else (.message r.2.1 (msgRead_received h), r.2.2)

/-- A publisher at the level of messages, with states `σ` and what a turn brings besides the hotline
in `ρ`. -/
structure Publisher (σ ρ ε : Type) where
  running : σ → Bool
  /-- What `msg_read` finds in the struct it fills. -/
  request : σ → TunnelMsgH
  /-- Whether `select` returns and the hotline is readable. -/
  readable : ρ → Bool
  turn : σ → ρ → Heard → Except ε (σ × List TunnelMsg)
  /-- From the end of the loop to the request that the channel be closed. -/
  shutdown : σ → Except ε (List TunnelMsg)
  /-- The struct that takes the answer to this request. -/
  response : σ → TunnelMsgH

variable {σ ρ ε : Type}

def Publisher.serve (P : Publisher σ ρ ε) (s : σ) (fd : Hotline) (r : ρ) :
    Except ε (σ × Hotline) := do
  let (heard, input) :=
    if P.readable r then hear fd.input (P.request s) else (.nothing, fd.input)
  let (s, out) ← P.turn s r heard
  return (s, ⟨input, (msgWrites out fd.output).2⟩)

/-- The rounds end with SIGINT, if nothing else ends the loop before. -/
def Publisher.loop (P : Publisher σ ρ ε) : σ → Hotline → List ρ → Except ε (σ × Hotline)
  | s, fd, [] => .ok (s, fd)
  | s, fd, r :: rounds => do
    if P.running s then
      let (s, fd) ← P.serve s fd r
      P.loop s fd rounds
    else return (s, fd)

/-- From the request for the channel on; `prev` is the struct that takes the answer. -/
def Publisher.main (P : Publisher σ ρ ε) (named prev : TunnelMsg) (start : TunnelMsg → σ)
    (fd : Hotline) (rounds : List ρ) : Except ε (ℤ × Hotline) := do
  let (st, output) := msgWrite fd.output named
  if st = -1 then return (-1, ⟨fd.input, output⟩)
  else
    let (st, answer, input) := msgRead fd.input prev
    if st = -1 then return (-1, ⟨input, output⟩)
    else
      let (s, fd) ← P.loop (start answer) ⟨input, output⟩ rounds
      let out ← P.shutdown s
      let (_, _, input) := msgRead fd.input ⟨P.response s, none⟩
      return (0, ⟨input, (msgWrites out fd.output).2⟩)

/-! ### However the kernel cuts -/

theorem moved_rest {script rest : List IoResult} {available missing : ℕ} {r : Option ℕ}
    (hp : AllPositive script) (h : moved script available missing = (r, rest)) :
    AllPositive rest := by
  cases script with
  | nil =>
    simp only [moved, answer, Prod.mk.injEq] at h
    exact h.2 ▸ hp
  | cons first script =>
    have hrest : AllPositive script := fun r hr => hp r (List.mem_cons_of_mem _ hr)
    cases first with
    | error => exact absurd (hp _ List.mem_cons_self) id
    | count k =>
      simp only [moved, answer, Prod.mk.injEq] at h
      exact h.2 ▸ hrest

/-- How much a transfer moves does not depend on the cuts. -/
theorem transfers_whole {script : List IoResult} (hp : AllPositive script)
    (available missing : ℕ) :
    ∃ rest, transfers script available missing =
        (if missing < 2 ^ 31 then min available missing else 0, rest) ∧ AllPositive rest := by
  induction missing using Nat.strong_induction_on generalizing script available with
  | h missing ih =>
    by_cases hm : missing = 0
    · exact ⟨script, by simp [hm, transfers_zero], hp⟩
    · match h : moved script available missing with
      | (none, rest) =>
        refine ⟨rest, ?_, moved_rest hp h⟩
        rw [transfers_stop hm h]
        split
        · next hsmall =>
          obtain ⟨last, hlast, -⟩ := transfers_positive hp available hsmall
          rw [transfers_stop hm h] at hlast
          rw [(Prod.mk.inj hlast).1]
        · rfl
      | (some st, rest) =>
        have hbounds := moved_bounds h
        have hsmall := (moved_some h).2.1
        obtain ⟨last, hlast, hpos⟩ :=
          ih (missing - st) (by omega) (moved_rest hp h) (available - st)
        refine ⟨last, ?_, hpos⟩
        rw [if_pos (by omega)] at hlast
        rw [transfers_more hm h, hlast, if_pos hsmall]
        congr 1
        omega

/-- Two read ends before the same bytes. -/
structure SameInput (fd fd' : ReadEnd) : Prop where
  stream : fd.stream = fd'.stream
  left : AllPositive fd.script
  right : AllPositive fd'.script

structure SameOutput (fd fd' : WriteEnd) : Prop where
  wire : fd.wire = fd'.wire
  left : AllPositive fd.script
  right : AllPositive fd'.script

theorem guardRead_same {fd fd' : ReadEnd} (h : SameInput fd fd') (buffer : List UInt8) (size : ℕ)
    (hsize : size < 2 ^ 32) : ∃ st mem e e', guardRead fd buffer size = (st, mem, e) ∧
      guardRead fd' buffer size = (st, mem, e') ∧ SameInput e e' := by
  obtain ⟨script, stream⟩ := fd
  obtain ⟨script', stream'⟩ := fd'
  obtain rfl : stream = stream' := h.stream
  obtain ⟨rest, hall, hrest⟩ := transfers_whole h.left stream.length size
  obtain ⟨rest', hall', hrest'⟩ := transfers_whole h.right stream.length size
  have hread := guardRead_eq hsize script stream buffer
  have hread' := guardRead_eq hsize script' stream buffer
  simp only [hall] at hread
  simp only [hall'] at hread'
  exact ⟨_, _, _, _, hread, hread', rfl, hrest, hrest'⟩

theorem guardWrite_same {fd fd' : WriteEnd} (h : SameOutput fd fd') (buffer : List UInt8) (size : ℕ)
    (hsize : size < 2 ^ 32) : ∃ st e e', guardWrite fd buffer size = (st, e) ∧
      guardWrite fd' buffer size = (st, e') ∧ SameOutput e e' := by
  obtain ⟨script, wire⟩ := fd
  obtain ⟨script', wire'⟩ := fd'
  obtain rfl : wire = wire' := h.wire
  obtain ⟨rest, hall, hrest⟩ := transfers_whole h.left buffer.length size
  obtain ⟨rest', hall', hrest'⟩ := transfers_whole h.right buffer.length size
  have hwrite := guardWrite_eq hsize script wire buffer
  have hwrite' := guardWrite_eq hsize script' wire buffer
  simp only [hall] at hwrite
  simp only [hall'] at hwrite'
  exact ⟨_, _, _, hwrite, hwrite', rfl, hrest, hrest'⟩

theorem msgCheckNumber_same {fd fd' : ReadEnd} (h : SameInput fd fd') (number : UInt16) :
    ∃ st e e', msgCheckNumber fd number = (st, e) ∧ msgCheckNumber fd' number = (st, e') ∧
      SameInput e e' := by
  obtain ⟨st, mem, e, e', hread, hread', hend⟩ := guardRead_same h [] 2 (by omega)
  simp only [msgCheckNumber, hread, hread']
  split_ifs
  all_goals exact ⟨_, _, _, rfl, rfl, hend⟩

theorem msgReadPayload_same {fd fd' : ReadEnd} (h : SameInput fd fd') (size : UInt32) :
    ∃ data length e e', msgReadPayload fd size = (data, length, e) ∧
      msgReadPayload fd' size = (data, length, e') ∧ SameInput e e' := by
  obtain ⟨st, mem, e, e', hsize, hsize', hend⟩ :=
    guardRead_same h (mem32 size) 4 (by omega)
  obtain ⟨st', block, e₁, e₁', hread, hread', hlast⟩ :=
    guardRead_same hend [] _ (UInt32.toNat_lt (ntohl (word32 mem)))
  simp only [msgReadPayload, hsize, hsize', hread, hread']
  split_ifs
  · exact ⟨_, _, _, _, rfl, rfl, hend⟩
  · exact ⟨_, _, _, _, rfl, rfl, hend⟩
  · exact ⟨_, _, _, _, rfl, rfl, hlast⟩
  · exact ⟨_, _, _, _, rfl, rfl, hlast⟩

theorem msgRead_same {fd fd' : ReadEnd} (h : SameInput fd fd') (prev : TunnelMsg) :
    ∃ st m e e', msgRead fd prev = (st, m, e) ∧ msgRead fd' prev = (st, m, e') ∧
      SameInput e e' := by
  obtain ⟨st₁, e₁, e₁', h₁, h₁', s₁⟩ := msgCheckNumber_same h MSG_MAGIC_BEGIN
  obtain ⟨st₂, mem₂, e₂, e₂', h₂, h₂', s₂⟩ :=
    guardRead_same s₁ [prev.header.type] 1 (by omega)
  obtain ⟨st₃, mem₃, e₃, e₃', h₃, h₃', s₃⟩ :=
    guardRead_same s₂ (mem16 prev.header.channelId) 2 (by omega)
  obtain ⟨st₄, mem₄, e₄, e₄', h₄, h₄', s₄⟩ :=
    guardRead_same s₃ (mem16 prev.header.clientId) 2 (by omega)
  obtain ⟨data, size, e₅, e₅', h₅, h₅', s₅⟩ := msgReadPayload_same s₄ prev.header.size
  obtain ⟨st₆, e₆, e₆', h₆, h₆', s₆⟩ := msgCheckNumber_same s₅ MSG_MAGIC_END
  simp only [msgRead, h₁, h₁', h₂, h₂', h₃, h₃', h₄, h₄', h₅, h₅', h₆, h₆']
  split_ifs
  · exact ⟨_, _, _, _, rfl, rfl, s₁⟩
  · exact ⟨_, _, _, _, rfl, rfl, s₂⟩
  · exact ⟨_, _, _, _, rfl, rfl, s₂⟩
  · exact ⟨_, _, _, _, rfl, rfl, s₃⟩
  · exact ⟨_, _, _, _, rfl, rfl, s₄⟩
  · exact ⟨_, _, _, _, rfl, rfl, s₅⟩
  · exact ⟨_, _, _, _, rfl, rfl, s₆⟩
  · exact ⟨_, _, _, _, rfl, rfl, s₆⟩

theorem msgWrite_same {fd fd' : WriteEnd} (h : SameOutput fd fd') (m : TunnelMsg) :
    ∃ st e e', msgWrite fd m = (st, e) ∧ msgWrite fd' m = (st, e') ∧ SameOutput e e' := by
  obtain ⟨st₁, e₁, e₁', h₁, h₁', s₁⟩ :=
    guardWrite_same h (mem16 (htons MSG_MAGIC_BEGIN)) 2 (by omega)
  obtain ⟨st₂, e₂, e₂', h₂, h₂', s₂⟩ := guardWrite_same s₁ [m.header.type] 1 (by omega)
  obtain ⟨st₃, e₃, e₃', h₃, h₃', s₃⟩ :=
    guardWrite_same s₂ (mem16 (htons m.header.channelId)) 2 (by omega)
  obtain ⟨st₄, e₄, e₄', h₄, h₄', s₄⟩ :=
    guardWrite_same s₃ (mem16 (htons m.header.clientId)) 2 (by omega)
  obtain ⟨st₅, e₅, e₅', h₅, h₅', s₅⟩ :=
    guardWrite_same s₄ (mem32 (htonl m.header.size)) 4 (by omega)
  obtain ⟨st₆, e₆, e₆', h₆, h₆', s₆⟩ : ∃ st e e',
      (if m.header.size > 0 then guardWrite e₅ (m.data.getD []) m.header.size.toNat else (0, e₅)) =
        (st, e) ∧
      (if m.header.size > 0 then guardWrite e₅' (m.data.getD []) m.header.size.toNat
        else (0, e₅')) = (st, e') ∧ SameOutput e e' := by
    split_ifs
    · exact guardWrite_same s₅ _ _ (UInt32.toNat_lt m.header.size)
    · exact ⟨_, _, _, rfl, rfl, s₅⟩
  obtain ⟨st₇, e₇, e₇', h₇, h₇', s₇⟩ :=
    guardWrite_same s₆ (mem16 (htons MSG_MAGIC_END)) 2 (by omega)
  simp only [msgWrite, h₁, h₁', h₂, h₂', h₃, h₃', h₄, h₄', h₅, h₅', h₆, h₆', h₇, h₇']
  split_ifs
  · exact ⟨_, _, _, rfl, rfl, s₁⟩
  · exact ⟨_, _, _, rfl, rfl, s₂⟩
  · exact ⟨_, _, _, rfl, rfl, s₃⟩
  · exact ⟨_, _, _, rfl, rfl, s₄⟩
  · exact ⟨_, _, _, rfl, rfl, s₅⟩
  · exact ⟨_, _, _, rfl, rfl, s₆⟩
  · exact ⟨_, _, _, rfl, rfl, s₇⟩
  · exact ⟨_, _, _, rfl, rfl, s₇⟩

theorem msgWrites_same (msgs : List TunnelMsg) {fd fd' : WriteEnd} (h : SameOutput fd fd') :
    SameOutput (msgWrites msgs fd).2 (msgWrites msgs fd').2 := by
  induction msgs generalizing fd fd' with
  | nil => exact h
  | cons m msgs ih =>
    obtain ⟨st, e, e', hwrite, hwrite', hend⟩ := msgWrite_same h m
    simp only [msgWrites, hwrite, hwrite']
    exact ih hend

theorem hear_same {fd fd' : ReadEnd} (h : SameInput fd fd') (prev : TunnelMsgH) :
    ∃ heard e e', hear fd prev = (heard, e) ∧ hear fd' prev = (heard, e') ∧ SameInput e e' := by
  obtain ⟨st, m, e, e', hread, hread', hend⟩ := msgRead_same h ⟨prev, none⟩
  by_cases hst : st = -1
  · exact ⟨.unreadable m.header, e, e', by simp [hear, hread, hst],
      by simp [hear, hread', hst], hend⟩
  · have hm : m.Received := by
      have hreceived : (msgRead fd ⟨prev, none⟩).2.1.Received :=
        msgRead_received (by simp [hread, hst])
      simpa [hread] using hreceived
    exact ⟨.message m hm, e, e', by simp [hear, hread, hst], by simp [hear, hread', hst], hend⟩

structure Alike (x y : Hotline) : Prop where
  input : SameInput x.input y.input
  output : SameOutput x.output y.output

/-- The same state, and hotlines alike. -/
def AlikeAt {α : Type} (a b : α × Hotline) : Prop := a.1 = b.1 ∧ Alike a.2 b.2

variable (P : Publisher σ ρ ε) {x y : Hotline}

theorem serve_same (h : Alike x y) (s : σ) (r : ρ) :
    Agree AlikeAt (P.serve s x r) (P.serve s y r) := by
  obtain ⟨heard, e, e', hx, hy, hend⟩ : ∃ heard e e',
      (if P.readable r then hear x.input (P.request s) else (.nothing, x.input)) = (heard, e) ∧
      (if P.readable r then hear y.input (P.request s) else (.nothing, y.input)) = (heard, e') ∧
      SameInput e e' := by
    split
    · exact hear_same h.input _
    · exact ⟨_, _, _, rfl, rfl, h.input⟩
  simp only [Publisher.serve, hx, hy]
  refine (Agree.refl _).bind ?_
  rintro a _ rfl
  exact ⟨rfl, hend, msgWrites_same _ h.output⟩

theorem loop_same (rounds : List ρ) (h : Alike x y) (s : σ) :
    Agree AlikeAt (P.loop s x rounds) (P.loop s y rounds) := by
  induction rounds generalizing x y s with
  | nil => exact ⟨rfl, h⟩
  | cons r rounds ih =>
    simp only [Publisher.loop]
    split
    · refine (serve_same P h s r).bind ?_
      rintro ⟨u, x'⟩ ⟨_, y'⟩ ⟨rfl, h'⟩
      exact ih h' u
    · exact ⟨rfl, h⟩

/-- Nothing depends on how the kernel cuts what is read and what is written. -/
theorem main_same (h : Alike x y) (named prev : TunnelMsg) (start : TunnelMsg → σ)
    (rounds : List ρ) :
    Agree AlikeAt (P.main named prev start x rounds) (P.main named prev start y rounds) := by
  obtain ⟨st, e, e', hwrite, hwrite', hnamed⟩ := msgWrite_same h.output named
  obtain ⟨st', answer, i, i', hread, hread', hanswer⟩ := msgRead_same h.input prev
  simp only [Publisher.main, hwrite, hwrite', hread, hread']
  split_ifs
  · exact ⟨rfl, h.input, hnamed⟩
  · exact ⟨rfl, hanswer, hnamed⟩
  · refine (loop_same P rounds ⟨hanswer, hnamed⟩ _).bind ?_
    rintro ⟨s, x'⟩ ⟨_, y'⟩ ⟨rfl, h'⟩
    refine (Agree.refl _).bind ?_
    rintro out _ rfl
    obtain ⟨st, closed, j, j', hclosed, hclosed', hlast⟩ :=
      msgRead_same h'.input ⟨P.response s, none⟩
    simp only [hclosed, hclosed']
    exact ⟨rfl, hlast, msgWrites_same _ h'.output⟩

/-! ### The messages behind the bytes -/

theorem msgWrites_full (msgs : List TunnelMsg) {fd : WriteEnd} (hp : AllPositive fd.script)
    (hm : ∀ m ∈ msgs, m.Sendable) :
    (msgWrites msgs fd).2.wire = fd.wire ++ msgs.flatMap encode ∧
      AllPositive (msgWrites msgs fd).2.script := by
  induction msgs generalizing fd with
  | nil => exact ⟨(List.append_nil _).symm, hp⟩
  | cons m msgs ih =>
    obtain ⟨hfirst, hmsgs⟩ := List.forall_mem_cons.mp hm
    obtain ⟨rest, hrest, hwrite⟩ := msgWrite_full hp hfirst
    have hnext : AllPositive (⟨rest, fd.wire ++ encode m⟩ : WriteEnd).script := hrest
    obtain ⟨hwire, hscript⟩ := ih hnext hmsgs
    simp only [msgWrites, hwrite fd.wire, List.flatMap_cons]
    rw [hwire, List.append_assoc]
    exact ⟨rfl, hscript⟩

theorem frame_sendable {type : UInt8} {channelId clientId : UInt16} {payload : List UInt8}
    (h : payload.length < 2 ^ 31) : (frame type channelId clientId payload).Sendable := by
  have hsize : (UInt32.ofNat payload.length).toNat = payload.length :=
    UInt32.toNat_ofNat_of_lt' (lt_trans h (by decide))
  constructor
  · simpa only [frame, hsize] using h
  · simp only [frame, hsize]
    split
    · next hnil => simp [hnil]
    · simp

/-- A message that was read can be passed on. -/
theorem msgRead_sendable {fd fd' : ReadEnd} {prev m : TunnelMsg} (hp : AllPositive fd.script)
    (h : msgRead fd prev = (0, m, fd')) :
    m.Received ∧ m.Sendable ∧ fd.stream = encode m ++ fd'.stream ∧ AllPositive fd'.script := by
  obtain ⟨hm, hstream⟩ := msgRead_positive hp h
  obtain ⟨st, m', e, e', hread, -, hend⟩ := msgRead_same ⟨rfl, hp, hp⟩ prev
  rw [h] at hread
  obtain ⟨-, -, rfl⟩ : 0 = st ∧ m = m' ∧ fd' = e := by simpa using hread
  refine ⟨hm, ⟨?_, hm.block.ge⟩, hstream, hend.left⟩
  obtain ⟨fd₄, fd₅, -, hpayload, -⟩ := msgRead_eq_zero_iff.mp h
  obtain ⟨⟨type, channelId, clientId, size⟩, data⟩ := m
  dsimp only at hpayload ⊢
  cases hpayload with
  | empty field => decide
  | lost field zero => decide
  | @block size after fd' block field nonempty read passed =>
    by_contra hlarge
    have hrefused := guardRead_refused (UInt32.toNat_lt size) (not_lt.mp hlarge) after []
    rw [read] at hrefused
    dsimp only at hrefused
    exact passed hrefused

/-- A turn of the loop, as far as messages go. -/
def Publisher.Step (P : Publisher σ ρ ε) (s : σ) (p : ρ × Heard) (out : List TunnelMsg) (u : σ) :
    Prop :=
  P.running s = true ∧ (P.readable p.1 = false ↔ p.2 = .nothing) ∧ P.turn s p.1 p.2 = .ok (u, out)

def Heard.Sendable (heard : Heard) : Prop := ∀ m h, heard = .message m h → m.Sendable

/-- What the theorems on the loop need to know of a publisher: its messages go out whole, and
whether the loop goes on is seen from what a turn brings and hears. -/
structure Sound (P : Publisher σ ρ ε) (goesOn : ρ × Heard → Bool) (I : σ → Prop) : Prop where
  step : ∀ s p out u, I s → p.2.Sendable → P.Step s p out u → I u ∧ ∀ m ∈ out, m.Sendable
  running : ∀ s p out u, P.Step s p out u → P.running u = goesOn p
  shutdown : ∀ s out, I s → P.shutdown s = .ok out → ∀ m ∈ out, m.Sendable

/-- What a turn has of the bytes, if the hotline is readable, and the bytes it leaves. -/
inductive Yields : Bool → List UInt8 → Heard → List UInt8 → Prop where
  | nothing {stream} : Yields false stream .nothing stream
  | message {m received rest} : m.header.size.toNat < 2 ^ 31 →
      Yields true (encode m ++ rest) (.message m received) rest
  | unreadable {stream prev m fd} : msgRead ⟨[], stream⟩ ⟨prev, none⟩ = (-1, m, fd) →
      Yields true stream (.unreadable m.header) fd.stream

/-- What the loop hears of the bytes: every round has its turn, up to the first after which the loop
does not go on. The rest of the bytes is left. -/
inductive Hears (readable : ρ → Bool) (goesOn : ρ × Heard → Bool) :
    Bool → List ρ → List UInt8 → List Heard → List UInt8 → Prop where
  | stopped {rounds stream} : Hears readable goesOn false rounds stream [] stream
  | interrupted {stream} : Hears readable goesOn true [] stream [] stream
  | turn {r rounds stream first after heard left} : Yields (readable r) stream first after →
      Hears readable goesOn (goesOn (r, first)) rounds after heard left →
      Hears readable goesOn true (r :: rounds) stream (first :: heard) left

theorem Yields.sendable {readable : Bool} {stream after : List UInt8} {heard : Heard}
    (h : Yields readable stream heard after) : heard.Sendable := by
  rintro m hm rfl
  cases h with
  | message hsmall => exact ⟨hsmall, hm.block.ge⟩

theorem Yields.readable {readable : Bool} {stream after : List UInt8} {heard : Heard}
    (h : Yields readable stream heard after) : readable = false ↔ heard = .nothing := by
  cases h <;> simp

/-- A message is heard as on a hotline that delivers all at once. -/
theorem hear_yields {fd fd' : ReadEnd} {prev : TunnelMsgH} {heard : Heard}
    (hp : AllPositive fd.script) (h : hear fd prev = (heard, fd')) :
    Yields true fd.stream heard fd'.stream ∧ AllPositive fd'.script := by
  have hsame : SameInput fd ⟨[], fd.stream⟩ := ⟨rfl, hp, by simp [AllPositive]⟩
  obtain ⟨st, m, e, e', hread, hread', hend⟩ := msgRead_same hsame ⟨prev, none⟩
  unfold hear at h
  simp only [hread] at h
  split at h
  · next hst =>
    obtain ⟨rfl, rfl⟩ := Prod.mk.inj h
    subst hst
    rw [hend.stream]
    exact ⟨.unreadable hread', hend.left⟩
  · next hst =>
    obtain ⟨rfl, rfl⟩ := Prod.mk.inj h
    have hzero : st = 0 := by
      have hresult := (msgRead_result fd ⟨prev, none⟩).resolve_right (by simpa [hread] using hst)
      simpa [hread] using hresult
    subst hzero
    obtain ⟨-, hsendable, hstream, hscript⟩ := msgRead_sendable hp hread
    rw [hstream]
    exact ⟨.message hsendable.small, hscript⟩

variable {P : Publisher σ ρ ε} {goesOn : ρ × Heard → Bool} {I : σ → Prop}

theorem loop_stopped {s : σ} {fd : Hotline} (h : P.running s = false) (rounds : List ρ) :
    P.loop s fd rounds = .ok (s, fd) := by
  cases rounds with
  | nil => rfl
  | cons r rounds =>
    simp only [Publisher.loop, h]
    rfl

theorem serve_step {s u : σ} {x y : Hotline} {r : ρ} (hrunning : P.running s = true)
    (hin : AllPositive x.input.script) (h : P.serve s x r = .ok (u, y)) :
    ∃ heard out, P.Step s (r, heard) out u ∧
      Yields (P.readable r) x.input.stream heard y.input.stream ∧ AllPositive y.input.script ∧
      y.output = (msgWrites out x.output).2 := by
  obtain ⟨heard, e, hheard, hyields, hscript⟩ : ∃ heard e,
      (if P.readable r then hear x.input (P.request s) else (.nothing, x.input)) = (heard, e) ∧
      Yields (P.readable r) x.input.stream heard e.stream ∧ AllPositive e.script := by
    split
    · next hreadable =>
      have hheard : hear x.input (P.request s) = (_, _) := rfl
      obtain ⟨hyields, hscript⟩ := hear_yields hin hheard
      exact ⟨_, _, hheard, hreadable ▸ hyields, hscript⟩
    · next hreadable =>
      rw [Bool.not_eq_true] at hreadable
      exact ⟨_, _, rfl, hreadable ▸ .nothing, hin⟩
  simp only [Publisher.serve, hheard] at h
  obtain ⟨⟨u', out⟩, hturn, hend⟩ := ok_bind h
  obtain ⟨rfl, rfl⟩ := Prod.mk.inj (Except.ok.inj hend)
  exact ⟨heard, out, ⟨hrunning, hyields.readable, hturn⟩, hyields, hscript, rfl⟩

/-- Every run of the loop over bytes is a run over the messages that the bytes stand for. -/
theorem loop_serves (hP : Sound P goesOn I) {rounds : List ρ} {s u : σ} {x y : Hotline} (hs : I s)
    (hin : AllPositive x.input.script) (hout : AllPositive x.output.script)
    (h : P.loop s x rounds = .ok (u, y)) :
    ∃ heard out,
      Hears P.readable goesOn (P.running s) rounds x.input.stream heard y.input.stream ∧
      Execution P.Step s (rounds.zip heard) out u ∧
      y.output.wire = x.output.wire ++ out.flatMap encode ∧
      AllPositive y.input.script ∧ AllPositive y.output.script ∧ I u := by
  induction rounds generalizing s x with
  | nil =>
    obtain ⟨rfl, rfl⟩ := Prod.mk.inj (Except.ok.inj h)
    refine ⟨[], [], ?_, .refl s, by simp, hin, hout, hs⟩
    cases P.running s
    · exact .stopped
    · exact .interrupted
  | cons r rounds ih =>
    by_cases hrunning : P.running s = true
    · simp only [Publisher.loop, hrunning, ↓reduceIte] at h
      obtain ⟨⟨v, z⟩, hserve, hloop⟩ := ok_bind h
      obtain ⟨first, out, hstep, hyields, hin', houtput⟩ := serve_step hrunning hin hserve
      obtain ⟨hv, hsent⟩ := hP.step _ _ _ _ hs hyields.sendable hstep
      obtain ⟨hwire, hscript⟩ := msgWrites_full out hout hsent
      rw [← houtput] at hwire hscript
      obtain ⟨heard, later, hheard, hrun, hlast, hend⟩ := ih hv hin' hscript hloop
      rw [hP.running _ _ _ _ hstep] at hheard
      refine ⟨first :: heard, out ++ later, ?_, (Execution.single hstep).trans hrun, ?_, hend⟩
      · rw [hrunning]
        exact .turn hyields hheard
      · rw [hlast, hwire, List.flatMap_append, List.append_assoc]
    · rw [Bool.not_eq_true] at hrunning
      rw [loop_stopped hrunning] at h
      obtain ⟨rfl, rfl⟩ := Prod.mk.inj (Except.ok.inj h)
      exact ⟨[], [], hrunning ▸ .stopped, .refl s, by simp, hin, hout, hs⟩

/-- The same for a whole run of the program: what comes in is an answer and what the loop hears,
what goes out the request for the channel and the frames that the service sends. -/
theorem program_serves (hP : Sound P goesOn I) {named prev : TunnelMsg} {start : TunnelMsg → σ}
    (hnamed : named.Sendable) (hstart : ∀ answer, I (start answer)) {x y : Hotline}
    (hin : AllPositive x.input.script) (hout : AllPositive x.output.script) {rounds : List ρ}
    (h : P.main named prev start x rounds = .ok (0, y)) :
    ∃ answer rest heard left out bye s, answer.Received ∧ x.input.stream = encode answer ++ rest ∧
      Hears P.readable goesOn (P.running (start answer)) rounds rest heard left ∧
      Execution P.Step (start answer) (rounds.zip heard) out s ∧ P.shutdown s = .ok bye ∧
      y.input.stream = (msgRead ⟨[], left⟩ ⟨P.response s, none⟩).2.2.stream ∧
      y.output.wire = x.output.wire ++ (encode named ++ (out ++ bye).flatMap encode) := by
  obtain ⟨script, hscript, hwrite⟩ := msgWrite_full hout hnamed
  have hfirst : ¬ (0 : ℤ) = -1 := by omega
  have hnamed' : msgWrite x.output named = (0, ⟨script, x.output.wire ++ encode named⟩) :=
    hwrite x.output.wire
  simp only [Publisher.main, hnamed', hfirst, ↓reduceIte] at h
  split at h
  · cases h
  · next hst =>
    have hread : msgRead x.input prev =
        (0, (msgRead x.input prev).2.1, (msgRead x.input prev).2.2) := by
      have hresult := (msgRead_result x.input prev).resolve_right hst
      exact Prod.ext hresult rfl
    obtain ⟨hanswer, -, hstream, hin'⟩ := msgRead_sendable hin hread
    obtain ⟨⟨s, z⟩, hloop, hrest⟩ := ok_bind h
    obtain ⟨bye, hbye, hend⟩ := ok_bind hrest
    obtain ⟨heard, out, hheard, hrun, hwire, hinput, hlast, hs⟩ :=
      loop_serves hP (hstart _) hin' hscript hloop
    obtain ⟨-, rfl⟩ := Prod.mk.inj (Except.ok.inj hend)
    refine ⟨_, _, heard, _, out, bye, s, hanswer, hstream, hheard, hrun, hbye, ?_, ?_⟩
    · have hsame : SameInput z.input ⟨[], z.input.stream⟩ := ⟨rfl, hinput, by simp [AllPositive]⟩
      obtain ⟨st, m, e, e', hclosed, hclosed', hleft⟩ :=
        msgRead_same hsame ⟨P.response s, none⟩
      rw [hclosed, hclosed']
      exact hleft.stream
    · rw [(msgWrites_full bye hlast (hP.shutdown _ _ hs hbye)).1, hwire, List.flatMap_append,
        List.append_assoc, List.append_assoc]

/-! ### And back -/

/-- What the frames of a peer that keeps to the sizes of a C int can be heard as. -/
def Legible (heard : Heard) : Prop :=
  (∀ left, heard ≠ .unreadable left) ∧
    ∀ m received, heard = .message m received → m.header.size.toNat < 2 ^ 31

theorem legible_nothing : Legible .nothing := ⟨by simp, by simp⟩

theorem legible_message {m : TunnelMsg} (received : m.Received)
    (hsmall : m.header.size.toNat < 2 ^ 31) : Legible (.message m received) := by
  refine ⟨by simp, ?_⟩
  rintro _ _ ⟨⟩
  exact hsmall

theorem hear_message {fd : ReadEnd} {m : TunnelMsg} {rest : List UInt8} (hp : AllPositive fd.script)
    (hm : m.Received) (hsmall : m.header.size.toNat < 2 ^ 31)
    (hstream : fd.stream = encode m ++ rest) (prev : TunnelMsgH) :
    ∃ script, AllPositive script ∧ hear fd prev = (.message m hm, ⟨script, rest⟩) := by
  obtain ⟨script, stream⟩ := fd
  obtain rfl : stream = encode m ++ rest := hstream
  obtain ⟨after, hafter, hread⟩ := msgRead_full hp ⟨hsmall, hm.block.ge⟩ hm.type ⟨prev, none⟩
  refine ⟨after, hafter, ?_⟩
  simp [hear, hread, hm.received_eq]

/-- A frame at the head of the bytes is heard as the message it stands for. -/
theorem Yields.frame {m : TunnelMsg} {rest after : List UInt8} {heard : Heard} (hm : m.Received)
    (hsmall : m.header.size.toNat < 2 ^ 31) (h : Yields true (encode m ++ rest) heard after) :
    heard = .message m hm ∧ after = rest := by
  generalize hbytes : encode m ++ rest = bytes at h
  cases h with
  | @message m' hm' rest' =>
    obtain ⟨rfl, rfl⟩ := encode_received_inj hm hm' hbytes
    exact ⟨rfl, rfl⟩
  | @unreadable _ prev m' fd hfailed =>
    have hwhole : AllPositive [] := by simp [AllPositive]
    obtain ⟨script, -, hread⟩ := msgRead_full hwhole ⟨hsmall, hm.block.ge⟩ hm.type ⟨prev, none⟩
    rw [← hbytes, hread] at hfailed
    simp at hfailed

/-- The loop hears what a peer sends that keeps to the sizes, as far as the loop goes on. -/
theorem hears_passes {readable : ρ → Bool} {passes : List (ρ × Heard)}
    (hpasses : ∀ p ∈ passes, Legible p.2 ∧ (readable p.1 = false ↔ p.2 = .nothing) ∧
      goesOn p = true) {rest left : List UInt8} {heard : List Heard}
    (h : Hears readable goesOn true (passes.map Prod.fst)
      ((passes.flatMap fun p => p.2.bytes) ++ rest) heard left) :
    heard = passes.map Prod.snd ∧ left = rest := by
  induction passes generalizing heard with
  | nil =>
    cases h
    exact ⟨rfl, rfl⟩
  | cons p passes ih =>
    obtain ⟨⟨hlegible, hreadable, hgoes⟩, hrest⟩ := List.forall_mem_cons.mp hpasses
    obtain ⟨r, first⟩ := p
    simp only [List.flatMap_cons, List.append_assoc] at h
    cases h with
    | @turn _ _ _ said after later _ hyields hlater =>
      obtain ⟨hsaid, hafter⟩ : said = first ∧
          after = (passes.flatMap fun p => p.2.bytes) ++ rest := by
        cases first with
        | nothing =>
          rw [hreadable.mpr rfl] at hyields
          cases hyields
          exact ⟨rfl, rfl⟩
        | unreadable left => exact absurd rfl (hlegible.1 left)
        | message m hm =>
          have hready : readable r = true := by
            rw [← Bool.not_eq_false, hreadable]
            simp
          rw [hready] at hyields
          exact hyields.frame hm (hlegible.2 m hm rfl)
      rw [hsaid, hafter, hgoes] at hlater
      obtain ⟨rfl, rfl⟩ := ih hrest hlater
      rw [hsaid]
      exact ⟨rfl, rfl⟩

theorem loop_snoc (s : σ) (fd : Hotline) (rounds : List ρ) (r : ρ) :
    P.loop s fd (rounds ++ [r]) = (P.loop s fd rounds).bind fun x => P.loop x.1 x.2 [r] := by
  induction rounds generalizing s fd with
  | nil => rfl
  | cons first rounds ih =>
    by_cases hrunning : P.running s = true
    · simp only [List.cons_append, Publisher.loop, hrunning, ↓reduceIte]
      cases hserve : P.serve s fd first with
      | error e => rfl
      | ok x => exact ih x.1 x.2
    · have hstopped : P.running s = false := by simpa using hrunning
      rw [loop_stopped hstopped, loop_stopped hstopped]
      exact (loop_stopped hstopped _).symm

/-- A run over messages is one over the bytes of their frames. -/
theorem loop_returns {s u : σ} {passes : List (ρ × Heard)} {out : List TunnelMsg}
    (h : Execution P.Step s passes out u) (hlegible : ∀ p ∈ passes, Legible p.2) :
    ∀ (x : Hotline) (rest : List UInt8), AllPositive x.input.script →
      x.input.stream = (passes.flatMap fun p => p.2.bytes) ++ rest →
      ∃ y, P.loop s x (passes.map Prod.fst) = .ok (u, y) ∧ y.input.stream = rest ∧
        AllPositive y.input.script := by
  induction h with
  | refl => exact fun x rest hp hstream => ⟨x, rfl, hstream, hp⟩
  | @tail v w passes p out sent hrun hstep ih =>
    intro x rest hp hstream
    obtain ⟨hbefore, hlast⟩ := List.forall_mem_append.mp hlegible
    rw [List.flatMap_append, List.append_assoc] at hstream
    obtain ⟨y, hloop, hy, hscript⟩ := ih hbefore x _ hp hstream
    obtain ⟨hrunning, hreadable, hturn⟩ := hstep
    obtain ⟨e, hheard, he, hend⟩ : ∃ e,
        (if P.readable p.1 then hear y.input (P.request v) else (.nothing, y.input)) = (p.2, e) ∧
        e.stream = rest ∧ AllPositive e.script := by
      obtain ⟨hread, hsmall⟩ := hlast p (List.mem_singleton_self p)
      cases hp2 : p.2 with
      | nothing =>
        rw [if_neg (by simp [hreadable.mpr hp2])]
        exact ⟨_, rfl, by simpa [hp2, Heard.bytes] using hy, hscript⟩
      | unreadable left => exact absurd hp2 (hread left)
      | message m hm =>
        have hready : P.readable p.1 = true := by
          by_contra hno
          have hnothing := hreadable.mp (by simpa using hno)
          rw [hp2] at hnothing
          cases hnothing
        obtain ⟨script, hpos, hhear⟩ := hear_message hscript hm (hsmall m hm hp2)
          (by simpa [hp2, Heard.bytes] using hy) (P.request v)
        exact ⟨_, by rw [if_pos hready, hhear], rfl, hpos⟩
    refine ⟨⟨e, (msgWrites sent y.output).2⟩, ?_, he, hend⟩
    rw [List.map_append, List.map_singleton, loop_snoc, hloop]
    simp only [Except.bind, Publisher.loop, hrunning, ↓reduceIte, Publisher.serve, hheard, hturn]
    rfl

theorem main_returns {named answer : TunnelMsg} {start : TunnelMsg → σ} {x : Hotline} {s : σ}
    {passes : List (ρ × Heard)} {out bye : List TunnelMsg} {rest : List UInt8}
    (hnamed : named.Sendable) (hanswer : answer.Received)
    (hsmall : answer.header.size.toNat < 2 ^ 31)
    (hin : AllPositive x.input.script) (hout : AllPositive x.output.script)
    (hrun : Execution P.Step (start answer) passes out s) (hbye : P.shutdown s = .ok bye)
    (hlegible : ∀ p ∈ passes, Legible p.2)
    (hstream : x.input.stream = encode answer ++ ((passes.flatMap fun p => p.2.bytes) ++ rest))
    (prev : TunnelMsg) :
    ∃ y, P.main named prev start x (passes.map Prod.fst) = .ok (0, y) := by
  obtain ⟨⟨cuts, stream⟩, output⟩ := x
  obtain rfl := hstream
  obtain ⟨script, hscript, hwrite⟩ := msgWrite_full hout hnamed
  obtain ⟨after, hafter, hread⟩ := msgRead_full hin ⟨hsmall, hanswer.block.ge⟩ hanswer.type prev
  obtain ⟨y, hloop, -, -⟩ := loop_returns hrun hlegible ⟨⟨after, _⟩, ⟨script, _⟩⟩ rest hafter rfl
  have hzero : ¬ (0 : ℤ) = -1 := by omega
  simp only [Publisher.main, hwrite, hread, hzero, ↓reduceIte, hanswer.received_eq]
  rw [hloop]
  simp only [bind, Except.bind, hbye, pure, Except.pure]
  exact ⟨_, rfl⟩

end PublisherProgram
