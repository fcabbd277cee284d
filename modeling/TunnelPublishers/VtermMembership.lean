import TunnelPublishers.VtermSignals

/-!
# Who is subscribed to a terminal

Clients and service agree on who has a terminal as long as no terminal fails to
be read and none fails to be made for a client that has one. A read error
destroys a terminal without a word, and a failed second request is answered
with a notice although the first terminal lives on.
-/
namespace VtermMembership

open ByteOrder FiniteMaps FiniteMap TunnelFraming ExecutionTraces KernelTables VtermService
  VtermTerminals VtermSignals

/-- Whether a client counts as subscribed after one more act. -/
def heard (c : UInt16) (on : Bool) : Act → Bool
  | .received m _ =>
    if m.header.clientId = c then
      if m.header.type = CHANNEL_SUBSCRIBE then true
      else if m.header.type = CHANNEL_UNSUBSCRIBE then false
      else on
    else on
  | .did (.sent m) =>
    if m.header.type = CHANNEL_UNSUBSCRIBE ∧ m.header.clientId = c then false else on
  | .did _ => on

/-- A SUBSCRIBE came from the client, and since the last one no UNSUBSCRIBE from it or to it. -/
def subscribed (c : UInt16) (acts : List Act) : Bool := acts.foldl (heard c) false

section Hearing

variable {c : UInt16} {on : Bool}

theorem subscribed_append (acts acts' : List Act) :
    subscribed c (acts ++ acts') = acts'.foldl (heard c) (subscribed c acts) :=
  List.foldl_append

/-- Events that are no messages say nothing about subscriptions. -/
theorem heard_silent {out : List Event} (h : ∀ m, Event.sent m ∉ out) :
    (out.map .did).foldl (heard c) on = on := by
  induction out generalizing on with
  | nil => rfl
  | cons e out ih =>
    rw [List.map_cons, List.foldl_cons]
    rw [ih fun m hm => h m (List.mem_cons_of_mem e hm)]
    cases e with
    | sent m => exact (h m List.mem_cons_self).elim
    | _ => rfl

theorem killed_silent (p : ℕ) (proc : VtermProc) (a : Answers) (m : TunnelMsg) :
    Event.sent m ∉ killed p proc a := by
  unfold killed
  split <;> simp

theorem killed_silent_after {e : Event} (he : ∀ m, e ≠ .sent m) (p : ℕ) (proc : VtermProc)
    (a : Answers) (m : TunnelMsg) : Event.sent m ∉ e :: killed p proc a := by
  rw [List.mem_cons, not_or]
  exact ⟨Ne.symm (he m), killed_silent p proc a m⟩

theorem terminalNew_silent (a : Spawn) (user : List UInt8) (m : TunnelMsg) :
    Event.sent m ∉ (terminalNew a user).2 := by
  rcases terminalNew_cases a user with ⟨-, hnew⟩ | ⟨-, -, hnew⟩ | ⟨-, -, hnew⟩ <;> rw [hnew]
  · simp
  · simp
  · split <;> split <;> simp

/-- A notice to a client, among events that are no messages. -/
theorem heard_notice {m : TunnelMsg} {before after : List Event}
    (hbefore : ∀ m, Event.sent m ∉ before) (hafter : ∀ m, Event.sent m ∉ after) :
    ((before ++ .sent m :: after).map .did).foldl (heard c) on = heard c on (.did (.sent m)) := by
  rw [List.map_append, List.foldl_append, heard_silent hbefore, List.map_cons, List.foldl_cons,
    heard_silent hafter]

theorem heard_unsubscribe (channelId c' : UInt16) :
    heard c on (.did (.sent (frame CHANNEL_UNSUBSCRIBE channelId c' []))) =
      if c' = c then false else on := by
  simp [heard, frame]

theorem heard_subscribe {m : TunnelMsg} (h : m.header.type = CHANNEL_SUBSCRIBE)
    (registered : Option ℤ) :
    heard c on (.received m registered) = if m.header.clientId = c then true else on := by
  simp only [heard, h, ↓reduceIte]

theorem heard_leave {m : TunnelMsg} (h : m.header.type = CHANNEL_UNSUBSCRIBE)
    (registered : Option ℤ) :
    heard c on (.received m registered) = if m.header.clientId = c then false else on := by
  simp only [heard, h]
  rfl

theorem heard_other {m : TunnelMsg} (hsub : m.header.type ≠ CHANNEL_SUBSCRIBE)
    (hun : m.header.type ≠ CHANNEL_UNSUBSCRIBE) (registered : Option ℤ) :
    heard c on (.received m registered) = on := by
  simp only [heard, hsub, hun, ↓reduceIte, ite_self]

theorem heard_refuse {msg : TunnelMsgH} {before : List Event} (h : ∀ m, Event.sent m ∉ before) :
    ((before ++ [refuse msg]).map .did).foldl (heard c) on =
      if msg.clientId = c then false else on :=
  (heard_notice h (by simp)).trans (heard_unsubscribe msg.channelId msg.clientId)

end Hearing

/-! ### Agreement -/

def Agree (d : Terminals) (acts : List Act) : Prop := ∀ c, (d c).isSome = subscribed c acts

section Moves

variable {d d' : Terminals} {past : List Act} {out : List Event} {answers : UInt16 → Answers}
  {R : Bool → Bool → Prop}

theorem isSome_update_none (d : Terminals) (c c' : UInt16) :
    (Function.update d c none c').isSome = if c = c' then false else (d c').isSome := by
  by_cases h : c = c'
  · subst h
    simp
  · rw [if_neg h, Function.update_of_ne (Ne.symm h)]

/-- Both sides change alike, or not at all. -/
theorem relate_ite {P : Prop} [Decidable P] (hR : ∀ b, R b b) {x y : Bool} (h : R x y) (b : Bool) :
    R (if P then b else x) (if P then b else y) := by
  split
  · exact hR b
  · exact h

/-- A poll keeps any reflexive relation of terminals and subscriptions. -/
theorem poll_agrees (hR : ∀ b, R b b) (h : ∀ c, R (d c).isSome (subscribed c past))
    (hmove : Poll answers d out d') (c : UInt16) :
    R (d' c).isSome (subscribed c (past ++ out.map .did)) := by
  rw [subscribed_append]
  cases hmove with
  | alive =>
    rw [heard_silent (by simp)]
    exact h c
  | @exited c' p proc channelId hd hw =>
    rw [dismissed, ← List.cons_append, heard_notice, heard_unsubscribe, isSome_update_none]
    · exact relate_ite hR (h c) false
    · exact killed_silent_after (by simp) p proc (answers c')
    · split <;> simp

/-- A message whose client keeps or loses its terminal as the message says. -/
theorem handle_agrees {spawn : Spawn} {a : Answers} {i : Input} {registered : Option ℤ}
    (hR : ∀ b, R b b) (h : ∀ c, R (d c).isSome (subscribed c past))
    (hmove : Handle spawn a i d out d')
    (hmade : i.request.header.type = CHANNEL_SUBSCRIBE →
      (terminalNew spawn (cString i.memory)).1 = none → d i.client = none) (c : UInt16) :
    R (d' c).isSome
      (subscribed c (past ++ .received i.request registered :: out.map .did)) := by
  rw [subscribed_append, List.foldl_cons]
  -- The client has no terminal and is told so.
  have habsent : d i.client = none →
      R (d c).isSome (if i.client = c then false else subscribed c past) := by
    intro hd
    by_cases hc : i.client = c
    · subst hc
      rw [if_pos rfl, hd]
      exact hR false
    · rw [if_neg hc]
      exact h c
  cases hmove with
  | @refused created htype hnew =>
    have hsilent : ∀ m, Event.sent m ∉ created := by
      have hs := terminalNew_silent spawn (cString i.memory)
      rwa [hnew] at hs
    rw [heard_refuse hsilent, heard_subscribe htype]
    have hthen := habsent (hmade htype (by rw [hnew]))
    by_cases hc : i.request.header.clientId = c
    · rwa [if_pos hc] at hthen ⊢
    · rw [if_neg hc] at hthen
      rwa [if_neg hc, if_neg hc]
  | @created _ p fdm pid _ htype hnew _ hd' =>
    have hsilent := terminalNew_silent spawn (cString i.memory)
    rw [hnew] at hsilent
    rw [heard_silent hsilent, heard_subscribe htype]
    by_cases hc : i.client = c
    · subst hc
      have hsome : (d' i.client).isSome = true := by
        rcases hd' with rfl | ⟨hsome, rfl⟩
        · simp
        · simpa [Option.isSome_iff_ne_none] using hsome
      rw [if_pos rfl, hsome]
      exact hR true
    · rw [if_neg hc]
      rcases hd' with rfl | ⟨-, rfl⟩
      · rw [Function.update_of_ne (Ne.symm hc)]
        exact h c
      · exact h c
  | @left p proc htype hd =>
    rw [heard_silent (killed_silent p proc a), heard_leave htype, isSome_update_none]
    exact relate_ite hR (h c) false
  | stranger htype hd =>
    rw [List.map_nil, List.foldl_nil, heard_leave htype]
    exact habsent hd
  | resized htype | wrote htype =>
    rw [heard_silent (by simp), heard_other (by rw [htype]; decide) (by rw [htype]; decide)]
    exact h c
  | @broken p proc htype hd hw =>
    rw [heard_refuse, heard_other (by rw [htype]; decide) (by rw [htype]; decide),
      isSome_update_none]
    · exact relate_ite hR (h c) false
    · exact killed_silent_after (by simp) p proc a
  | unwritable htype hd =>
    rw [← List.nil_append [refuse _], heard_refuse (by simp),
      heard_other (by rw [htype]; decide) (by rw [htype]; decide)]
    exact habsent hd
  | ignored hsub hun hdata =>
    rw [List.map_nil, List.foldl_nil, heard_other hsub hun]
    exact h c

/-- What ready terminals print is no UNSUBSCRIBE. -/
theorem watch_heard {c : UInt16} {on : Bool} (hmove : Watch answers d out d') :
    (out.map .did).foldl (heard c) on = on := by
  have hdata : ∀ (proc : VtermProc) channelId c' bytes,
      ([Event.read proc.fdm (some bytes), .sent (frame CHANNEL_DATA channelId c' bytes)].map
        .did).foldl (heard c) on = on := by
    intro proc channelId c' bytes
    simp [heard, frame, CHANNEL_DATA, CHANNEL_UNSUBSCRIBE]
  cases hmove with
  | silent | freed => exact heard_silent (by simp)
  | @forwarded c' p proc bytes channelId => exact hdata proc channelId c' bytes
  | @undelivered c' p proc bytes channelId =>
    have hrest : ((killed p proc (answers c')).map .did).foldl (heard c) on = on :=
      heard_silent (killed_silent p proc (answers c'))
    rw [← List.nil_append (killed p proc (answers c')), ← List.cons_append, ← List.cons_append,
      List.map_append, List.foldl_append, hdata, hrest]
  | @failed c' p proc =>
    exact heard_silent (killed_silent_after (by simp) p proc (answers c'))

theorem watch_agrees (h : Agree d past) (hmove : Watch answers d out d')
    (hsend : ∀ c, (answers c).send = true)
    (hread : ∀ c, d c ≠ none → (answers c).ready = true → (answers c).read ≠ none) :
    Agree d' (past ++ out.map .did) := by
  intro c
  rw [subscribed_append, watch_heard hmove]
  cases hmove with
  | silent | freed | forwarded => exact h c
  | @undelivered c' _ _ _ _ _ _ _ hfail => rw [hsend c'] at hfail; cases hfail
  | @failed c' p proc hd hready hnone => exact (hread c' (by rw [hd]; simp) hready hnone).elim

end Moves

/-! ### Subscribing once -/

/-- Who counts as subscribed after one more act. -/
def hearing (on : UInt16 → Bool) (act : Act) (c : UInt16) : Bool := heard c (on c) act

/-- A SUBSCRIBE comes from a client that does not count as subscribed. -/
def Anew (on : UInt16 → Bool) : Act → Prop
  | .received m _ => m.header.type = CHANNEL_SUBSCRIBE → on m.header.clientId = false
  | .did _ => True

instance (on : UInt16 → Bool) : DecidablePred (Anew on)
  | .received m _ =>
    inferInstanceAs (Decidable (m.header.type = CHANNEL_SUBSCRIBE → on m.header.clientId = false))
  | .did _ => instDecidableTrue

/-- No client subscribes twice without an UNSUBSCRIBE from it or to it in between. -/
abbrev Once : List Act → Prop := Along hearing Anew fun _ => false

theorem foldl_hearing (on : UInt16 → Bool) (acts : List Act) :
    acts.foldl hearing on = fun c => acts.foldl (heard c) (on c) := by
  induction acts generalizing on with
  | nil => rfl
  | cons act acts ih => exact ih (hearing on act)

theorem once_append {acts acts' : List Act} :
    Once (acts ++ acts') ↔ Once acts ∧ Along hearing Anew (fun c => subscribed c acts) acts' := by
  rw [Once, along_append, foldl_hearing]
  rfl

/-- A client with a terminal counts as subscribed. -/
def Heeded (d : Terminals) (acts : List Act) : Prop :=
  ∀ c, (d c).isSome = true → subscribed c acts = true

/-- A client that subscribes anew has no terminal. -/
theorem Heeded.absent {d : Terminals} {past acts : List Act} {m : TunnelMsg}
    {registered : Option ℤ} (h : Heeded d past)
    (honce : Once (past ++ .received m registered :: acts))
    (htype : m.header.type = CHANNEL_SUBSCRIBE) : d m.header.clientId = none := by
  have hanew : subscribed m.header.clientId past = false := (once_append.mp honce).2.1 htype
  cases hd : d m.header.clientId with
  | none => rfl
  | some r =>
    rw [h m.header.clientId (by rw [hd]; rfl)] at hanew
    cases hanew

/-! ### Runs -/

variable {M : Type → Type → Type} [FiniteMap M]

/-- No terminal fails to be made for a client that has one, and no ready terminal to be read. -/
def Unbroken (s : State M) (p : Pass) : Prop :=
  match p.selected with
  | .message i => i.request.header.type = CHANNEL_SUBSCRIBE →
      (terminalNew p.spawn (cString i.memory)).1 = none →
      find (monitorProcesses s p).1.processes i.client = none
  | .terminals => ∀ c, find (monitorProcesses s p).1.processes c ≠ none →
      (p.answers c).ready = true → (p.answers c).read ≠ none
  | _ => True

/-- Every `msg_write` to a client succeeds. -/
def Delivers (p : Pass) : Prop := ∀ c, (p.answers c).send = true

theorem agree_preserved :
    Preserved (M := M) (fun s p => Delivers p ∧ Unbroken s p) Agree where
  poll s p d past out d' _ h hmove := poll_agrees (fun _ => rfl) h hmove
  handle s p i past out d' hC hsel hrecords h hmove := by
    refine handle_agrees (fun _ => rfl) h hmove fun htype hnew => ?_
    have hunbroken := hC.2
    simp only [Unbroken, hsel] at hunbroken
    exact (terminals_eq_none (monitorProcesses_polls hrecords p).2).mpr (hunbroken htype hnew)
  watch s p d past out d' hC hsel hrecords hsub h hmove := by
    refine watch_agrees h hmove hC.1 fun c hc => ?_
    have hunbroken := hC.2
    simp only [Unbroken, hsel] at hunbroken
    refine hunbroken c fun hnone => hsub c hc ?_
    exact (terminals_eq_none (monitorProcesses_polls hrecords p).2).mpr hnone

theorem heeded_preserved :
    Preserved (M := M) (fun _ _ => True) fun d acts => Once acts → Heeded d acts where
  poll s p d past out d' _ h hmove honce := by
    have hpast := h (once_append.mp honce).1
    exact poll_agrees (R := fun x y => x = true → y = true) (fun _ hb => hb) hpast hmove
  handle s p i past out d' _ _ _ h hmove honce := by
    have hpast := h (once_append.mp honce).1
    exact handle_agrees (R := fun x y => x = true → y = true) (fun _ hb => hb) hpast hmove
      fun htype _ => hpast.absent honce htype
  watch s p d past out d' _ _ _ _ h hmove honce := by
    intro c hc
    rw [subscribed_append, watch_heard hmove]
    refine h (once_append.mp honce).1 c ?_
    rw [Option.isSome_iff_ne_none] at hc ⊢
    exact hmove.shrinks hc

/-- In every run in which messages to clients are delivered, no ready terminal fails to be read
and none fails to be made for a client that has one, the entries are those of the clients that
subscribed and have neither left nor been told to leave since. -/
theorem entries_agree {A : Antd} {answer : TunnelMsgH} {passes : List Pass} {acts : List Act}
    {s : State M}
    (hrun : Execution (fun s p acts s' => Logged A s p acts s' ∧ Delivers p ∧ Unbroken s p)
      (initial answer) passes acts s) (c : UInt16) :
    (find s.processes c).isSome = subscribed c acts := by
  obtain ⟨hagree, hrecords⟩ := agree_preserved.run (fun _ => rfl) hrun
  rw [← hagree c, terminals_isSome hrecords]

/-- A turn in which the terminals are ready and this is what their reads give. -/
def reading (read : Option (List UInt8)) : Pass :=
  { quiet 0 7 .terminals with
    answers := fun _ => { childSeven 0 with ready := true, read := read } }

/-- Client 1 subscribes and its terminal prints a byte. -/
theorem entries_agree_one_client : ∃ acts s,
    Execution (fun s p acts s' => Logged firstByteHost s p acts s' ∧ Delivers p ∧ Unbroken s p)
      start [quiet 0 7 (.message (.subscribe 1 97)), reading (some [9])] acts s ∧
    subscribed 1 acts = true ∧ (find s.processes 1).isSome = subscribed 1 acts := by
  have hrun := execution_of_meets State.going
    (fun s p => ((turn firstByteHost s p).1, log firstByteHost s p))
    (fun s p => Delivers p ∧ Unbroken s p) start
    [quiet 0 7 (.message (.subscribe 1 97)), reading (some [9])] (by decide +kernel)
    ⟨⟨fun _ => rfl, fun _ _ => rfl⟩, ⟨fun _ => rfl, fun _ _ _ => by simp [reading]⟩, trivial⟩
  exact ⟨_, _, hrun, by decide +kernel, entries_agree hrun 1⟩

/-- A turn in which client 1 asks for a terminal and the pseudo terminals are used up. -/
def exhausted : Pass :=
  { quiet 0 7 (.message (.subscribe 1 97)) with spawn := ⟨-1, 0, 0, 6, 8⟩ }

/-- A terminal that fails to be read is gone, and client 1 is not told. A client that asks again
in vain is told to leave, and its terminal lives. -/
theorem entries_disagree :
    (∃ acts s, Execution (fun s p acts s' => Logged firstByteHost s p acts s' ∧ Delivers p) start
        [quiet 0 7 (.message (.subscribe 1 97)), reading none] acts s ∧
      find s.processes 1 = none ∧ subscribed 1 acts = true) ∧
    ∃ acts s, Execution (fun s p acts s' => Logged firstByteHost s p acts s' ∧ Delivers p) start
        [quiet 0 7 (.message (.subscribe 1 97)), exhausted] acts s ∧
      find s.processes 1 = some 0 ∧ subscribed 1 acts = false := by
  refine ⟨⟨_, _, execution_of_meets _ _ (fun _ p => Delivers p) _ _ (by decide +kernel) ?_, ?_, ?_⟩,
    ⟨_, _, execution_of_meets _ _ (fun _ p => Delivers p) _ _ (by decide +kernel) ?_, ?_, ?_⟩⟩
  · exact ⟨fun _ => rfl, fun _ => rfl, trivial⟩
  · decide +kernel
  · decide +kernel
  · exact ⟨fun _ => rfl, fun _ => rfl, trivial⟩
  · decide +kernel
  · decide +kernel

end VtermMembership
