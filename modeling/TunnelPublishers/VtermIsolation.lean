import Mathlib.Data.List.Forall2
import TunnelPublishers.VtermDescriptors

/-!
# Whose bytes reach a terminal

A ledger kept from the log alone says for which client each descriptor was
opened. Every write directly follows a message of that client, and every DATA
frame a read of that client's terminal, so the two sequences can be compared.
-/
namespace VtermIsolation

open ByteOrder FiniteMaps FiniteMap TunnelFraming ExecutionTraces KernelTables VtermService
  VtermTerminals VtermSignals VtermMembership VtermDescriptors

structure Ledger where
  /-- The client whose SUBSCRIBE is being handled. -/
  asking : Option UInt16
  /-- The client for which a descriptor was opened, until it is closed. -/
  holder : ℤ → Option UInt16
  last : Option Act

def hold (asking : Option UInt16) (holder : ℤ → Option UInt16) :
    DescriptorCall → ℤ → Option UInt16
  | .opened fd => Function.update holder fd asking
  | .closed fd => Function.update holder fd none

def Ledger.after (l : Ledger) (act : Act) : Ledger :=
  match act with
  | .received m _ =>
    { l with
      asking := if m.header.type = CHANNEL_SUBSCRIBE then some m.header.clientId else none
      last := some act }
  | .did (.opened fd) => { l with holder := hold l.asking l.holder (.opened fd), last := some act }
  | .did (.closed fd) => { l with holder := hold l.asking l.holder (.closed fd), last := some act }
  | .did _ => { l with last := some act }

def blank : Ledger := ⟨none, fun _ => none, none⟩

/-- The ledger of a log. -/
def ledger (acts : List Act) : Ledger := acts.foldl Ledger.after blank

/-- A descriptor opened is in nobody's hands. A write goes to the terminal of the client whose
DATA message was just received, and a DATA frame to the client whose terminal was just read. -/
def Kept (l : Ledger) : Act → Prop
  | .did (.opened fd) => l.holder fd = none
  | .did (.wrote fd bytes _) => ∃ m, l.last = some (.received m (some fd)) ∧
      m.header.type = CHANNEL_DATA ∧ m.payload = bytes ∧ l.holder fd = some m.header.clientId
  | .did (.sent m) => m.header.type = CHANNEL_DATA →
      ∃ fd, l.last = some (.did (.read fd (some m.payload))) ∧
        l.holder fd = some m.header.clientId
  | _ => True

abbrev AllKept : Ledger → List Act → Prop := Along Ledger.after Kept

/-! ### From steps to sequences -/

/-- The bytes that each write to a descriptor transfers. -/
def chunks (fd : ℤ) (acts : List Act) : List (List UInt8) :=
  (events acts).filterMap fun
    | .wrote fd' bytes n => if fd' = fd then some (bytes.take n.toNat) else none
    | _ => none

def fedBy (fd : ℤ) (c : UInt16) : Act → List (List UInt8)
  | .received m registered =>
    if m.header.type = CHANNEL_DATA ∧ m.header.clientId = c ∧ registered = some fd then [m.payload]
    else []
  | .did _ => []

/-- The DATA payloads of a client received while the descriptor was registered for it. -/
def fed (fd : ℤ) (c : UInt16) (acts : List Act) : List (List UInt8) := acts.flatMap (fedBy fd c)

/-- The payloads of the DATA frames to a client. -/
def dataTo (c : UInt16) (acts : List Act) : List (List UInt8) :=
  (events acts).filterMap fun
    | .sent m =>
      if m.header.type = CHANNEL_DATA ∧ m.header.clientId = c then some m.payload else none
    | _ => none

def readBy (c : UInt16) (holder : ℤ → Option UInt16) : Act → List (List UInt8)
  | .did (.read fd (some bytes)) => if holder fd = some c then [bytes] else []
  | _ => []

/-- What is read from descriptors opened for a client. -/
def readsFor (c : UInt16) : Ledger → List Act → List (List UInt8)
  | _, [] => []
  | l, act :: acts => readBy c l.holder act ++ readsFor c (l.after act) acts

section Sequences

variable {l : Ledger} {acts : List Act} {act : Act} {c : UInt16} {fd : ℤ}

theorem after_last (l : Ledger) (act : Act) : (l.after act).last = some act := by
  unfold Ledger.after
  split <;> rfl

/-- What is in a client's hands stays there until it is closed. -/
theorem after_holder (hact : Kept l act) (hheld : l.holder fd = some c)
    (hopen : act ≠ .did (.closed fd)) : (l.after act).holder fd = some c := by
  unfold Ledger.after
  split
  · exact hheld
  · next fd' =>
    have hne : fd ≠ fd' := by
      rintro rfl
      rw [show l.holder fd = none from hact] at hheld
      cases hheld
    simpa [hold, hne] using hheld
  · next fd' =>
    have hne : fd ≠ fd' := by
      rintro rfl
      exact hopen rfl
    simpa [hold, hne] using hheld
  · exact hheld

theorem sublistForall₂_append {α β : Type} {R : α → β → Prop} {xs : List α} {ys : List β}
    (zs : List β) (h : List.SublistForall₂ R xs ys) : List.SublistForall₂ R xs (zs ++ ys) := by
  induction zs with
  | nil => exact h
  | cons z zs ih => exact .cons_right ih

/-- The chunks written while a descriptor is in a client's hands are the beginnings of payloads
that the client sent while it was registered, the message in hand included. -/
theorem chunks_fed (hkept : AllKept l acts) (hheld : l.holder fd = some c)
    (hopen : .did (.closed fd) ∉ acts) :
    List.SublistForall₂ (· <+: ·) (chunks fd acts)
      (l.last.toList.flatMap (fedBy fd c) ++ fed fd c acts) := by
  induction acts generalizing l with
  | nil => exact .nil
  | cons act acts ih =>
    obtain ⟨hact, hkept⟩ := hkept
    rw [List.mem_cons, not_or] at hopen
    have hrest := ih hkept (after_holder hact hheld (Ne.symm hopen.1)) hopen.2
    rw [after_last, Option.toList_some, List.flatMap_singleton] at hrest
    change List.SublistForall₂ _ (chunks fd ([act] ++ acts))
      (_ ++ (fedBy fd c act ++ fed fd c acts))
    have hchunks : chunks fd ([act] ++ acts) = chunks fd [act] ++ chunks fd acts := by
      rw [chunks, events_append, List.filterMap_append]
      rfl
    rw [hchunks]
    by_cases hwrote : ∃ bytes n, act = .did (.wrote fd bytes n)
    · -- A write takes the message in hand.
      obtain ⟨bytes, n, rfl⟩ := hwrote
      obtain ⟨m, hlast, htype, rfl, hholder⟩ := hact
      have hclient : m.header.clientId = c := by
        rw [hheld] at hholder
        exact (Option.some.inj hholder).symm
      rw [hlast]
      have hhand : fedBy fd c (.received m (some fd)) = [m.payload] := by
        simp [fedBy, htype, hclient]
      have hchunk : chunks fd [.did (.wrote fd m.payload n)] = [m.payload.take n.toNat] := by
        simp [chunks, events]
      rw [Option.toList_some, List.flatMap_singleton, hhand, hchunk]
      exact .cons (List.take_prefix _ _) hrest
    · have hnone : chunks fd [act] = [] := by
        cases act with
        | received => rfl
        | did e =>
          cases e with
          | wrote fd' bytes n =>
            have hne : fd' ≠ fd := by
              rintro rfl
              exact hwrote ⟨bytes, n, rfl⟩
            simp [chunks, events, hne]
          | _ => rfl
      rw [hnone]
      exact sublistForall₂_append _ hrest

/-- The DATA frames to a client are reads of its terminals, the read in hand included. -/
theorem dataTo_reads (hkept : AllKept l acts) :
    (dataTo c acts).Sublist (l.last.toList.flatMap (readBy c l.holder) ++ readsFor c l acts) := by
  induction acts generalizing l with
  | nil => exact List.nil_sublist _
  | cons act acts ih =>
    obtain ⟨hact, hkept⟩ := hkept
    have hrest := ih hkept
    rw [after_last, Option.toList_some, List.flatMap_singleton] at hrest
    -- A read changes no hands.
    have hread : readBy c (l.after act).holder act = readBy c l.holder act := by
      cases act with
      | received => rfl
      | did e => cases e <;> rfl
    rw [hread] at hrest
    have hsplit : dataTo c (act :: acts) = dataTo c [act] ++ dataTo c acts := by
      rw [← List.singleton_append, dataTo, events_append, List.filterMap_append]
      rfl
    rw [hsplit, readsFor]
    by_cases hsent : ∃ m, act = .did (.sent m) ∧ m.header.type = CHANNEL_DATA ∧
        m.header.clientId = c
    · -- A frame takes the read in hand.
      obtain ⟨m, rfl, htype, rfl⟩ := hsent
      obtain ⟨fd, hlast, hholder⟩ := hact htype
      rw [hlast]
      have hhand : readBy m.header.clientId l.holder (.did (.read fd (some m.payload))) =
          [m.payload] := by
        simp [readBy, hholder]
      have hdata : dataTo m.header.clientId [.did (.sent m)] = [m.payload] := by
        simp [dataTo, events, htype]
      rw [Option.toList_some, List.flatMap_singleton, hhand, hdata]
      exact (List.Sublist.refl _).append hrest
    · have hnone : dataTo c [act] = [] := by
        cases act with
        | received => rfl
        | did e =>
          cases e with
          | sent m =>
            have hne : ¬ (m.header.type = CHANNEL_DATA ∧ m.header.clientId = c) :=
              fun h => hsent ⟨m, rfl, h⟩
            simp [dataTo, events, hne]
          | _ => rfl
      rw [hnone]
      exact hrest.trans (List.sublist_append_right _ _)

end Sequences

/-! ### Moves -/

/-- No write and no DATA frame. -/
def Plain : Event → Prop
  | .wrote .. => False
  | .sent m => m.header.type ≠ CHANNEL_DATA
  | _ => True

/-- What is in somebody's hands is open. -/
def Covers (holder : ℤ → Option UInt16) (table : List ℤ) : Prop :=
  ∀ fd, holder fd ≠ none → fd ∈ table

/-- Every master is in the hands of its client. -/
def Held (d : Terminals) (holder : ℤ → Option UInt16) : Prop :=
  ∀ c fd, master d c = some fd → holder fd = some c

section Moves

variable {l : Ledger} {table : List ℤ} {holder : ℤ → Option UInt16} {d d' : Terminals}
  {out : List Event} {answers : UInt16 → Answers} {c : UInt16} {p : ℕ} {proc : VtermProc}
  {a : Answers}

theorem foldl_did (l : Ledger) (out : List Event) :
    ((out.map .did).foldl Ledger.after l).asking = l.asking ∧
      ((out.map .did).foldl Ledger.after l).holder =
        (descriptors out).foldl (hold l.asking) l.holder := by
  induction out generalizing l with
  | nil => exact ⟨rfl, rfl⟩
  | cons e out ih => cases e <;> exact ih _

theorem Covers.after (h : Covers holder table) (asking : Option UInt16) (call : DescriptorCall) :
    Covers (hold asking holder call) (DescriptorCall.after table call) := by
  intro fd hfd
  cases call with
  | opened fd' =>
    by_cases he : fd = fd'
    · simp [DescriptorCall.after, he]
    · rw [hold, Function.update_of_ne he] at hfd
      exact List.mem_cons_of_mem fd' (h fd hfd)
  | closed fd' =>
    by_cases he : fd = fd'
    · simp [hold, he] at hfd
    · rw [hold, Function.update_of_ne he] at hfd
      simpa [DescriptorCall.after, he] using h fd hfd

theorem covers_ledger (acts : List Act) :
    Covers (ledger acts).holder (openAfter [] (descriptors (events acts))) := by
  have hall : ∀ l table, Covers l.holder table → ∀ acts : List Act,
      Covers (acts.foldl Ledger.after l).holder
        (openAfter table (descriptors (events acts))) := by
    intro l table h acts
    induction acts generalizing l table with
    | nil => exact h
    | cons act acts ih =>
      cases act with
      | received m registered => exact ih _ _ h
      | did e =>
        cases e with
        | opened fd => exact ih _ _ (h.after l.asking (.opened fd))
        | closed fd => exact ih _ _ (h.after l.asking (.closed fd))
        | _ => exact ih _ _ h
  exact hall blank [] (fun _ h => (h rfl).elim) acts

/-- Events that neither write nor send keep to the rules as far as the kernel does. -/
theorem kept_plain (hplain : ∀ e ∈ out, Plain e) (hcovers : Covers l.holder table)
    (hunused : AllUnused table (descriptors out)) : AllKept l (out.map .did) := by
  induction out generalizing l table with
  | nil => trivial
  | cons e out ih =>
    have hplain' := fun e' he' => hplain e' (List.mem_cons_of_mem e he')
    have he := hplain e List.mem_cons_self
    cases e with
    | opened fd =>
      refine ⟨?_, ih hplain' (hcovers.after l.asking (.opened fd)) hunused.2⟩
      by_contra hne
      exact hunused.1 (hcovers fd hne)
    | closed fd => exact ⟨trivial, ih hplain' (hcovers.after l.asking (.closed fd)) hunused.2⟩
    | wrote => exact he.elim
    | sent m => exact ⟨fun htype => (he htype).elim, ih hplain' hcovers hunused⟩
    | _ => exact ⟨trivial, ih hplain' hcovers hunused⟩

theorem Held.close (h : Held d holder) (asking : Option UInt16) (hd : d c = some (p, proc)) :
    Held (Function.update d c none) (hold asking holder (.closed proc.fdm)) := by
  intro c' fd hfd
  rw [master_update] at hfd
  split at hfd
  · cases hfd
  · next hne =>
    have hheld := h c' fd hfd
    rw [hold, Function.update_of_ne]
    · exact hheld
    · rintro rfl
      rw [h c proc.fdm (master_eq hd)] at hheld
      exact hne (Option.some.inj hheld).symm

/-- What is opened is no master. -/
theorem Held.opened (h : Held d holder) (asking : Option UInt16) {fd : ℤ}
    (hcovers : Covers holder table) (hfresh : fd ∉ table) :
    Held d (hold asking holder (.opened fd)) := by
  intro c fd' hfd
  have hheld := h c fd' hfd
  rw [hold, Function.update_of_ne]
  · exact hheld
  · rintro rfl
    exact hfresh (hcovers fd' (by rw [hheld]; simp))

/-- What is opened for a client becomes its master. -/
theorem Held.adopt (h : Held d holder) (hcovers : Covers holder table)
    (hfresh : proc.fdm ∉ table) :
    Held (Function.update d c (some (p, proc))) (hold (some c) holder (.opened proc.fdm)) := by
  intro c' fd hfd
  rw [master_update] at hfd
  split at hfd
  · next he =>
    obtain rfl : proc.fdm = fd := Option.some.inj hfd
    rw [he]
    exact Function.update_self ..
  · exact h.opened (some c) hcovers hfresh c' fd hfd

/-- Events after which the ledger is kept and every master is still in the right hands. -/
def Keeps (l : Ledger) (table : List ℤ) (out : List Event) (d' : Terminals) : Prop :=
  Covers l.holder table → AllUnused table (descriptors out) →
    AllKept l (out.map .did) ∧ Held d' ((out.map .did).foldl Ledger.after l).holder

theorem keeps_silent (h : Held d l.holder) (hplain : ∀ e ∈ out, Plain e)
    (hout : descriptors out = []) : Keeps l table out d := by
  intro hcovers hunused
  refine ⟨kept_plain hplain hcovers hunused, ?_⟩
  rw [(foldl_did l out).2, hout]
  exact h

theorem keeps_killed (h : Held d l.holder) (hd : d c = some (p, proc))
    (hplain : ∀ e ∈ out, Plain e) (hout : descriptors out = [.closed proc.fdm]) :
    Keeps l table out (Function.update d c none) := by
  intro hcovers hunused
  refine ⟨kept_plain hplain hcovers hunused, ?_⟩
  rw [(foldl_did l out).2, hout]
  exact h.close l.asking hd

theorem killed_plain (p : ℕ) (proc : VtermProc) (a : Answers) : ∀ e ∈ killed p proc a, Plain e := by
  unfold killed
  split <;> simp [Plain]

theorem dismissed_plain (p : ℕ) (proc : VtermProc) (c channelId : UInt16) (a : Answers) :
    ∀ e ∈ dismissed p proc c channelId a, Plain e := by
  have hnotice : Plain (.sent (frame CHANNEL_UNSUBSCRIBE channelId c [])) := by
    simp [Plain, frame, CHANNEL_UNSUBSCRIBE, CHANNEL_DATA]
  intro e he
  rcases List.mem_append.mp he with he | he
  · exact killed_plain p proc a e he
  · rcases List.mem_cons.mp he with rfl | he
    · exact hnotice
    · split at he
      · cases he
      · rw [List.mem_singleton.mp he]
        trivial

theorem refuse_plain (msg : TunnelMsgH) : Plain (refuse msg) := by
  simp [Plain, refuse, frame, CHANNEL_UNSUBSCRIBE, CHANNEL_DATA]

theorem plain_refuse (msg : TunnelMsgH) (h : ∀ e ∈ out, Plain e) :
    ∀ e ∈ out ++ [refuse msg], Plain e := by
  intro e he
  rcases List.mem_append.mp he with he | he
  · exact h e he
  · rw [List.mem_singleton.mp he]
    exact refuse_plain msg

theorem terminalNew_plain (spawn : Spawn) (user : List UInt8) :
    ∀ e ∈ (terminalNew spawn user).2, Plain e := by
  rcases terminalNew_cases spawn user with ⟨-, hnew⟩ | ⟨-, -, hnew⟩ | ⟨-, -, hnew⟩ <;> rw [hnew]
  · simp
  · simp [Plain]
  · split <;> split <;> simp [Plain]

theorem Poll.keeps (h : Held d l.holder) (hmove : Poll answers d out d') :
    Keeps l table out d' := by
  cases hmove with
  | alive => exact keeps_silent h (by simp [Plain]) rfl
  | @exited c p proc channelId hd =>
    refine keeps_killed h hd ?_ (descriptors_dismissed p proc c channelId (answers c))
    intro e he
    rcases List.mem_cons.mp he with rfl | he
    · trivial
    · exact dismissed_plain p proc c channelId (answers c) e he

/-- A read and the frame that carries it. -/
theorem forward_kept (h : Held d l.holder) (hd : d c = some (p, proc)) {bytes : List UInt8}
    (hsmall : bytes.length < 2 ^ 32) (channelId : UInt16) :
    AllKept l ([Event.read proc.fdm (some bytes),
      .sent (frame CHANNEL_DATA channelId c bytes)].map .did) := by
  refine ⟨trivial, fun _ => ⟨proc.fdm, ?_, h c proc.fdm (master_eq hd)⟩, trivial⟩
  rw [after_last, frame_payload hsmall]

theorem Watch.keeps (h : Held d l.holder) (hmove : Watch answers d out d') :
    Keeps l table out d' := by
  cases hmove with
  | silent | freed => exact keeps_silent h (by simp [Plain]) rfl
  | @forwarded c p proc bytes channelId hd _ hsmall =>
    exact fun _ _ => ⟨forward_kept h hd hsmall channelId, h⟩
  | @undelivered c p proc bytes channelId hd _ hsmall =>
    intro hcovers hunused
    obtain ⟨hkept, hheld⟩ := keeps_killed
      (l := ([Event.read proc.fdm (some bytes), .sent (frame CHANNEL_DATA channelId c bytes)].map
        Act.did).foldl Ledger.after l) h hd
      (killed_plain p proc (answers c)) (descriptors_killed p proc (answers c)) hcovers hunused
    exact ⟨along_append.mpr ⟨forward_kept h hd hsmall channelId, hkept⟩, hheld⟩
  | @failed c p proc hd =>
    refine keeps_killed h hd ?_ (descriptors_killed p proc (answers c))
    intro e he
    rcases List.mem_cons.mp he with rfl | he
    · trivial
    · exact killed_plain p proc (answers c) e he

/-- Descriptors opened are no masters. -/
theorem Held.opens (h : Held d holder) (asking : Option UInt16) {fds : List ℤ}
    (hcovers : Covers holder table) (hunused : AllUnused table (fds.map .opened)) :
    Held d ((fds.map .opened).foldl (hold asking) holder) := by
  induction fds generalizing holder table with
  | nil => exact h
  | cons fd fds ih =>
    exact ih (h.opened asking hcovers hunused.1) (hcovers.after asking (.opened fd)) hunused.2

theorem keeps_refused {spawn : Spawn} {user : List UInt8} {msg : TunnelMsgH}
    (h : Held d l.holder) (hnew : terminalNew spawn user = (none, out)) :
    Keeps l table (out ++ [refuse msg]) d := by
  intro hcovers hunused
  have hplain := terminalNew_plain spawn user
  rw [hnew] at hplain
  have hcalls : ∃ fds : List ℤ, descriptors (out ++ [refuse msg]) = fds.map .opened := by
    rcases terminalNew_cases spawn user with ⟨-, hcase⟩ | ⟨-, -, hcase⟩ | ⟨-, -, hcase⟩ <;>
      rw [hnew] at hcase <;> obtain ⟨hsome, rfl⟩ := Prod.mk.inj hcase
    · exact ⟨[], rfl⟩
    · exact ⟨[spawn.openpt], rfl⟩
    · cases hsome
  obtain ⟨fds, hcalls⟩ := hcalls
  refine ⟨kept_plain (plain_refuse msg hplain) hcovers hunused, ?_⟩
  rw [(foldl_did l _).2, hcalls]
  rw [hcalls] at hunused
  exact h.opens l.asking hcovers hunused

theorem keeps_created {spawn : Spawn} {user : List UInt8} {fdm pid : ℤ}
    (h : Held d l.holder) (hnew : terminalNew spawn user = (some (fdm, pid), out))
    (hasking : l.asking = some c)
    (hd' : d' = Function.update d c (some (p, ⟨fdm, pid, c⟩)) ∨ d c ≠ none ∧ d' = d) :
    Keeps l table out d' := by
  intro hcovers hunused
  have hplain := terminalNew_plain spawn user
  rw [hnew] at hplain
  refine ⟨kept_plain hplain hcovers hunused, ?_⟩
  obtain ⟨-, -, -, hcalls⟩ := terminalNew_created hnew
  obtain ⟨fds, hfds⟩ : ∃ fds : List ℤ,
      (if spawn.open < 0 then [] else [DescriptorCall.opened spawn.open]) = fds.map .opened := by
    split
    · exact ⟨[], rfl⟩
    · exact ⟨[spawn.open], rfl⟩
  rw [hfds] at hcalls
  rw [(foldl_did l _).2, hcalls, hasking]
  rw [hcalls] at hunused
  rcases hd' with rfl | ⟨-, rfl⟩
  · have hadopt : Held (Function.update d c (some (p, ⟨fdm, pid, c⟩)))
        (hold (some c) l.holder (.opened fdm)) := h.adopt hcovers hunused.1
    exact hadopt.opens (some c) (hcovers.after (some c) (.opened fdm)) hunused.2
  · exact @Held.opens _ _ _ h (some c) (fdm :: fds) hcovers hunused

theorem Handle.keeps {spawn : Spawn} {i : Input} (h : Held d l.holder)
    (hmove : Handle spawn a i d out d')
    (hlast : l.last = some (.received i.request (master d i.client)))
    (hasking : i.request.header.type = CHANNEL_SUBSCRIBE → l.asking = some i.client) :
    Keeps l table out d' := by
  -- A write to a terminal answers the message in hand.
  have hwrote : ∀ p proc, i.request.header.type = CHANNEL_DATA → d i.client = some (p, proc) →
      Kept l (.did (.wrote proc.fdm i.request.payload a.write)) := by
    intro p proc htype hd
    rw [master_eq hd] at hlast
    exact ⟨i.request, hlast, htype, rfl, h i.client proc.fdm (master_eq hd)⟩
  cases hmove with
  | refused htype hnew => exact keeps_refused h hnew
  | created htype hnew _ hd' => exact keeps_created h hnew (hasking htype) hd'
  | @left p proc htype hd =>
    exact keeps_killed h hd (killed_plain p proc a) (descriptors_killed p proc a)
  | @wrote p proc htype hd => exact fun _ _ => ⟨⟨hwrote p proc htype hd, trivial⟩, h⟩
  | @broken p proc htype hd =>
    intro hcovers hunused
    have hrest : descriptors (killed p proc a ++ [refuse i.request.header]) =
        [.closed proc.fdm] := by
      rw [descriptors_append, descriptors_killed]
      rfl
    have hplain := plain_refuse i.request.header (killed_plain p proc a)
    obtain ⟨hkept, hheld⟩ := keeps_killed
      (l := l.after (.did (.wrote proc.fdm i.request.payload a.write))) h hd hplain hrest hcovers
      hunused
    exact ⟨⟨hwrote p proc htype hd, hkept⟩, hheld⟩
  | resized | stranger | ignored => exact keeps_silent h (by simp [Plain]) rfl
  | unwritable => exact keeps_silent h (@plain_refuse [] i.request.header (by simp)) rfl

end Moves

/-! ### Runs -/

variable {M : Type → Type → Type} [FiniteMap M]

/-- So far the ledger was kept, and every master is in the hands of its client. -/
def Isolated (d : Terminals) (acts : List Act) : Prop :=
  AllUnused [] (descriptors (events acts)) → AllKept blank acts ∧ Held d (ledger acts).holder

theorem Isolated.append {d d' : Terminals} {past : List Act} {out : List Event}
    (h : Isolated d past) (hmove : Held d (ledger past).holder →
      Keeps (ledger past) (openAfter [] (descriptors (events past))) out d') :
    Isolated d' (past ++ out.map .did) := by
  intro hunused
  rw [events_append, events_did, descriptors_append] at hunused
  obtain ⟨hpast, hout⟩ := along_append.mp hunused
  obtain ⟨hkept, hheld⟩ := h hpast
  obtain ⟨hkept', hheld'⟩ := hmove hheld (covers_ledger past) hout
  refine ⟨along_append.mpr ⟨hkept, hkept'⟩, ?_⟩
  rw [ledger, List.foldl_append]
  exact hheld'

theorem isolated_preserved : Preserved (M := M) (fun _ _ => True) Isolated where
  poll s p d past out d' _ h hmove := h.append fun hheld => Poll.keeps hheld hmove
  handle s p i past out d' _ _ _ h hmove := by
    have hreceived : Isolated (terminals (monitorProcesses s p).1)
        (past ++ [.received i.request
          (master (terminals (monitorProcesses s p).1) i.client)]) := by
      intro hunused
      rw [events_append, events_received] at hunused
      obtain ⟨hkept, hheld⟩ := h (by simpa [events] using hunused)
      refine ⟨along_append.mpr ⟨hkept, trivial, trivial⟩, ?_⟩
      rw [ledger, List.foldl_append]
      exact hheld
    rw [← List.singleton_append, ← List.append_assoc]
    refine hreceived.append fun hheld => Handle.keeps hheld hmove ?_ ?_
    · rw [ledger, List.foldl_append, List.foldl_cons, List.foldl_nil]
      exact after_last _ _
    · intro htype
      rw [ledger, List.foldl_append]
      exact if_pos htype
  watch s p d past out d' _ _ _ _ h hmove := h.append fun hheld => Watch.keeps hheld hmove

/-- The sweep at shutdown writes to no terminal and sends no DATA frame. -/
theorem shutdown_plain {s : State M} (h : Records s []) (answers : UInt16 → Answers)
    (stack : TunnelMsgH) : ∀ e ∈ shutdown s answers stack, Plain e := by
  obtain ⟨out, d', hquits, hshutdown⟩ := shutdown_quits h answers stack
  rw [hshutdown]
  have hout : ∀ e ∈ out, Plain e := by
    refine Runs.invariant (I := fun _ out => ∀ e ∈ out, Plain e) ?_ hquits (by simp)
    intro d past out d' hpast hmove e he
    rcases List.mem_append.mp he with he | he
    · exact hpast e he
    · cases hmove with
      | @quit c p proc channelId hd => exact dismissed_plain p proc c channelId (answers c) e he
  intro e he
  rcases List.mem_append.mp he with he | he
  · exact hout e he
  · rw [List.mem_singleton.mp he]
    simp [Plain, frame, CHANNEL_CLOSE, CHANNEL_DATA]

/-- In every run to its exit in which the kernel opens no descriptor that is open: what is
written to a descriptor opened for a client, until it is closed, begins payloads which that client
sent in order while it was registered; and the DATA frames to a client carry in order reads of
descriptors opened for that client. -/
theorem terminals_isolated {A : Antd} {answer : TunnelMsgH} {passes : List Pass}
    {acts : List Act} {s : State M} {answers : UInt16 → Answers} {stack : TunnelMsgH}
    (hrun : Execution (Logged A) (initial answer) passes acts s)
    {whole : List Act} (hwhole : whole = acts ++ (exit s answers stack).map .did)
    (hunused : AllUnused [] (descriptors (events whole))) :
    (∀ before fd window rest c, whole = before ++ .did (.opened fd) :: (window ++ rest) →
      (ledger before).asking = some c → .did (.closed fd) ∉ window →
      List.SublistForall₂ (· <+: ·) (chunks fd window) (fed fd c window)) ∧
    ∀ c, (dataTo c whole).Sublist (readsFor c blank whole) := by
  obtain ⟨hisolated, hrecords⟩ := isolated_preserved.run
    (fun _ => ⟨trivial, fun c fd hfd => by cases hfd⟩)
    (hrun.mono fun _ _ _ _ hstep => ⟨hstep, trivial⟩)
  have hkept : AllKept blank whole := by
    rw [hwhole, events_append, descriptors_append, events_did] at hunused
    obtain ⟨hacts, hend⟩ := along_append.mp hunused
    rw [hwhole]
    exact along_append.mpr ⟨(hisolated hacts).1,
      kept_plain (fun e he => shutdown_plain hrecords answers stack e (mem_exit he))
        (covers_ledger acts) hend⟩
  constructor
  · rintro before fd window rest c hsplit hasking hopen
    rw [hsplit] at hkept
    obtain ⟨-, -, hafter⟩ := along_append.mp hkept
    have hheld : ((ledger before).after (.did (.opened fd))).holder fd = some c := by
      simp [Ledger.after, hold, hasking]
    exact chunks_fed (along_append.mp hafter).1 hheld hopen
  · intro c
    exact dataTo_reads hkept

/-- Client 1 subscribes, its terminal takes a letter and prints a byte. -/
def conversation : List Pass :=
  [quiet 0 7 (.message (.subscribe 1 97)),
    { quiet 0 7 (.message (.data 1 98)) with answers := fun _ => { childSeven 0 with write := 1 } },
    reading (some [9])]

theorem terminals_isolated_one_client : ∃ acts s window whole,
    Execution (Logged firstByteHost) start conversation acts s ∧
    whole = acts ++ (exit s (fun _ => childSeven 0) ⟨0, 0, 0, 0⟩).map .did ∧
    chunks 5 window = [[98]] ∧
    List.SublistForall₂ (· <+: ·) (chunks 5 window) (fed 5 1 window) ∧
    dataTo 1 whole = [[9]] ∧ (dataTo 1 whole).Sublist (readsFor 1 blank whole) := by
  have hrun := execution_of_guardedRun State.going
    (fun s p => ((turn firstByteHost s p).1, log firstByteHost s p)) start conversation
    (by decide +kernel)
  have hisolated := terminals_isolated hrun
    (show _ = _ ++ (exit _ (fun _ => childSeven 0) ⟨0, 0, 0, 0⟩).map Act.did from rfl)
    (by decide +kernel)
  generalize hacts : (visitAll (fun s p => ((turn firstByteHost s p).1, log firstByteHost s p))
    start conversation).2 = acts at hrun hisolated
  generalize hs : (visitAll (fun s p => ((turn firstByteHost s p).1, log firstByteHost s p))
    start conversation).1 = s at hrun hisolated
  refine ⟨acts, s, acts.drop 2, _, hrun, rfl, ?_, ?_, ?_, hisolated.2 1⟩
  · rw [← hacts]
    decide +kernel
  · refine hisolated.1 (acts.take 1) 5 (acts.drop 2)
      ((exit s (fun _ => childSeven 0) ⟨0, 0, 0, 0⟩).map .did) 1 ?_ ?_ ?_
    · rw [← hacts, ← hs]
      decide +kernel
    · rw [← hacts]
      decide +kernel
    · rw [← hacts]
      decide +kernel
  · rw [← hacts, ← hs]
    decide +kernel

end VtermIsolation
