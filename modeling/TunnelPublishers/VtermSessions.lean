import TunnelPublishers.VtermChildren
import TunnelPublishers.VtermIsolation

/-!
# Sessions of the terminal service, from the first turn to the exit

The sweep at the end takes every terminal from its client, so an invariant of
the loop that a kill keeps says at the exit what is left when nobody has a
terminal.
-/
namespace VtermSessions

open ByteOrder FiniteMaps FiniteMap TunnelFraming ExecutionTraces KernelTables VtermService
  VtermTerminals VtermSignals VtermMembership VtermDescriptors VtermChildren VtermIsolation

variable {M : Type → Type → Type} [FiniteMap M]

/-! ### The exit -/

theorem sweepNode_list (answers : UInt16 → Answers) (stack : TunnelMsgH) (s : State M)
    (list visit : List (UInt16 × ℕ)) :
    (visitAll (sweepNode answers stack) (s, list) visit).1.2 = list ++ visit := by
  induction visit generalizing s list with
  | nil => simp [visitAll]
  | cons n visit ih => simp [visitAll, sweepNode, ih]

/-- The sweep leaves no terminal. -/
theorem shutdown_clears {s : State M} (h : Records s []) (answers : UInt16 → Answers)
    (stack : TunnelMsgH) : ∃ out, Runs (Quit answers) (terminals s) out (fun _ => none) ∧
      shutdown s answers stack =
        out ++ [.sent (frame CHANNEL_CLOSE s.msg.channelId s.msg.clientId [])] := by
  obtain ⟨hrun, hlast⟩ := visitAll_attends (sweepNode_attends answers stack) h.visiting
  have hnone : terminals (visitAll (sweepNode answers stack) (s, []) (entries s.processes)).1.1 =
      fun _ => none := by
    funext c
    by_contra hc
    have hshrinks := Runs.invariant
      (I := fun d _ => ∀ c, d c ≠ none → terminals s c ≠ none)
      (fun d _ _ d' hd hmove c hc => by
        cases hmove with
        | @quit c' =>
          by_cases he : c = c'
          · simp [he] at hc
          · exact hd c (by rwa [Function.update_of_ne he] at hc))
      hrun fun _ hc => hc
    obtain ⟨⟨p, proc⟩, hd⟩ := Option.ne_none_iff_exists'.mp (hshrinks c hc)
    have hmem : (c, p) ∈ entries s.processes := mem_entries.mpr (terminals_eq_some.mp hd).1
    rw [← List.nil_append (entries s.processes), ← sweepNode_list answers stack s] at hmem
    apply hc
    simp [terminals, hlast.listed _ hmem, hlast.records.gone c p hmem]
  rw [hnone, visitAll_sweepNode] at hrun
  exact ⟨_, hrun, rfl⟩

/-- What the loop and the sweep preserve holds at the exit, when no client has a terminal. -/
theorem preserved_exit (answers : UInt16 → Answers) (stack : TunnelMsgH)
    {C : State M → Pass → Prop} {I : Terminals → List Act → Prop} (hI : Preserved C I)
    (hquit : ∀ d past out d', I d past → Quit answers d out d' → I d' (past ++ out.map .did))
    (h₀ : I (fun _ => none) []) {A : Antd} {answer : TunnelMsgH} {passes : List Pass}
    {acts : List Act} {s : State M}
    (hrun : Execution (fun s p acts s' => Logged A s p acts s' ∧ C s p) (initial answer) passes
      acts s) :
    ∃ out : List Event, I (fun _ => none) (acts ++ out.map .did) ∧
      shutdown s answers stack =
        out ++ [.sent (frame CHANNEL_CLOSE s.msg.channelId s.msg.clientId [])] := by
  obtain ⟨hs, hrecords⟩ := hI.run h₀ hrun
  obtain ⟨out, hsweep, hout⟩ := shutdown_clears hrecords answers stack
  exact ⟨out, Runs.logged hquit hsweep hs, hout⟩

/-! ### The events of an end -/

/-- What a property of events has to allow for a terminal to end under it. -/
structure Ending (P : Event → Prop) : Prop where
  closed : ∀ fd, P (.closed fd)
  process : ∀ call, P (.process call)
  released : ∀ p, P (.released p)
  stale : ∀ p, P (.stale p)

section Ending

variable {P : Event → Prop}

theorem ending_killed (h : Ending P) (p : ℕ) (proc : VtermProc) (a : Answers) :
    ∀ e ∈ killed p proc a, P e := by
  have hwait : ∀ e ∈ (if a.kill = -1 then [] else
      [Event.process (.waitpid proc.pid false a.wait)]) ++ [.released p], P e := by
    split <;> simp [h.process, h.released]
  exact List.forall_mem_cons.mpr ⟨h.closed _, List.forall_mem_cons.mpr ⟨h.process _, hwait⟩⟩

theorem ending_dismissed (h : Ending P) (p : ℕ) (proc : VtermProc) {c channelId : UInt16}
    (hnotice : P (.sent (frame CHANNEL_UNSUBSCRIBE channelId c []))) (a : Answers) :
    ∀ e ∈ dismissed p proc c channelId a, P e := by
  have hstale : ∀ e ∈ (if a.send then [] else [Event.stale p]), P e := by
    split <;> simp [h.stale]
  exact List.forall_mem_append.mpr
    ⟨ending_killed h p proc a, List.forall_mem_cons.mpr ⟨hnotice, hstale⟩⟩

end Ending

/-! ### What is sent to whom -/

/-- A frame the loop may send: output and the end of a session go to a subscribed client, and the
only other frame is the answer to DATA from a client without a terminal. -/
def Admitted (past : List Act) (m : TunnelMsg) : Prop :=
  (m.header.type = CHANNEL_DATA ∨ m.header.type = CHANNEL_UNSUBSCRIBE) ∧
      subscribed m.header.clientId past = true ∨
    m.header.type = CHANNEL_UNSUBSCRIBE ∧ ∃ request, past.getLast? = some (.received request none) ∧
      request.header.type = CHANNEL_DATA ∧ request.header.clientId = m.header.clientId

/-- Every frame of a log is admitted by what was logged before it. -/
def Proper (acts : List Act) : Prop :=
  ∀ before m after, acts = before ++ .did (.sent m) :: after → Admitted before m

section Frames

variable {past acts : List Act} {out before : List Event} {m : TunnelMsg}
  {d d' : Terminals} {answers : UInt16 → Answers}

theorem proper_append (h : Proper past)
    (hnew : ∀ before m after, acts = before ++ .did (.sent m) :: after →
      Admitted (past ++ before) m) : Proper (past ++ acts) := by
  intro before m after heq
  rcases List.append_eq_append_iff.mp heq with ⟨middle, rfl, hacts⟩ | ⟨middle, hpast, hafter⟩
  · exact hnew middle m after hacts
  · cases middle with
    | nil =>
      rw [List.append_nil] at hpast
      have hfirst := hnew [] m after (by simpa using hafter.symm)
      rwa [List.append_nil, hpast] at hfirst
    | cons act middle =>
      obtain ⟨rfl, -⟩ := List.cons.inj hafter
      exact h before m middle hpast

theorem proper_silent (h : Proper past) (hout : ∀ m, Event.sent m ∉ out) :
    Proper (past ++ out.map .did) := by
  apply proper_append h
  intro before m after heq
  have hmem : Act.did (.sent m) ∈ out.map Act.did := by
    rw [heq]
    exact List.mem_append_right _ List.mem_cons_self
  obtain ⟨e, he, hact⟩ := List.mem_map.mp hmem
  rw [Act.did.inj hact] at he
  exact (hout m he).elim

theorem proper_received (h : Proper past) (request : TunnelMsg) (registered : Option ℤ) :
    Proper (past ++ [.received request registered]) := by
  apply proper_append h
  intro before m after heq
  cases before with
  | nil => cases heq
  | cons act before => simp at heq

/-- One frame among events that are no messages. -/
theorem proper_notice (before after : List Event) (h : Proper past)
    (hbefore : ∀ m, Event.sent m ∉ before) (hafter : ∀ m, Event.sent m ∉ after)
    (hm : Admitted (past ++ before.map .did) m) :
    Proper (past ++ (before ++ .sent m :: after).map .did) := by
  have hstart := proper_silent h hbefore
  have hnext : Proper (past ++ before.map .did ++ [.did (.sent m)]) := by
    apply proper_append hstart
    intro before' m' after' heq
    cases before' with
    | nil =>
      obtain ⟨hact, -⟩ := List.cons.inj heq
      rw [List.append_nil, ← Event.sent.inj (Act.did.inj hact)]
      exact hm
    | cons act before' => simp at heq
  simpa using proper_silent hnext hafter

theorem subscribed_silent {c : UInt16} (h : ∀ m, Event.sent m ∉ before) :
    subscribed c (past ++ before.map .did) = subscribed c past := by
  rw [subscribed_append, heard_silent h]

/-- The end of the session of a client that has a terminal. -/
theorem admitted_end {c : UInt16} {r : ℕ × VtermProc} (hheeded : Heeded d past)
    (hd : d c = some r) (hbefore : ∀ m, Event.sent m ∉ before) (channelId : UInt16) :
    Admitted (past ++ before.map .did) (frame CHANNEL_UNSUBSCRIBE channelId c []) := by
  refine .inl ⟨.inr rfl, ?_⟩
  rw [subscribed_silent hbefore]
  exact hheeded c (by rw [hd]; rfl)

theorem poll_proper (h : Proper past) (hheeded : Heeded d past) (hmove : Poll answers d out d') :
    Proper (past ++ out.map .did) := by
  cases hmove with
  | alive => exact proper_silent h (by simp)
  | @exited c p proc channelId hd =>
    have hkilled := killed_silent_after (e := .process (.waitpid proc.pid true (answers c).poll))
      (by simp) p proc (answers c)
    exact proper_notice _ _ h hkilled (by split <;> simp)
      (admitted_end hheeded hd hkilled channelId)

theorem quit_proper (h : Proper past) (hheeded : Heeded d past) (hmove : Quit answers d out d') :
    Proper (past ++ out.map .did) := by
  cases hmove with
  | @quit c p proc channelId hd =>
    have hkilled := killed_silent p proc (answers c)
    exact proper_notice _ _ h hkilled (by split <;> simp)
      (admitted_end hheeded hd hkilled channelId)

theorem watch_proper (h : Proper past) (hheeded : Heeded d past)
    (hmove : Watch answers d out d') : Proper (past ++ out.map .did) := by
  have hdata : ∀ (c : UInt16) (p : ℕ) (proc : VtermProc) (channelId : UInt16) bytes,
      d c = some (p, proc) → Admitted (past ++ [Event.read proc.fdm (some bytes)].map .did)
        (frame CHANNEL_DATA channelId c bytes) := by
    intro c p proc channelId bytes hd
    refine .inl ⟨.inl rfl, ?_⟩
    rw [subscribed_silent (by simp)]
    exact hheeded c (by rw [hd]; rfl)
  cases hmove with
  | silent | freed => exact proper_silent h (by simp)
  | @forwarded c p proc bytes channelId hd =>
    exact proper_notice [_] [] h (by simp) (by simp) (hdata c p proc channelId bytes hd)
  | @undelivered c p proc bytes channelId hd =>
    exact proper_notice [_] _ h (by simp) (killed_silent p proc (answers c))
      (hdata c p proc channelId bytes hd)
  | @failed c p proc => exact proper_silent h (killed_silent_after (by simp) p proc (answers c))

theorem handle_proper {spawn : Spawn} {a : Answers} {i : Input} (h : Proper past)
    (hheeded : Heeded d past) (hmove : Handle spawn a i d out d') :
    Proper (past ++ .received i.request (master d i.client) :: out.map .did) := by
  have hreceived := proper_received h i.request (master d i.client)
  rw [List.append_cons]
  cases hmove with
  | @refused out htype hnew =>
    have hsilent := terminalNew_silent spawn (cString i.memory)
    rw [hnew] at hsilent
    refine proper_notice _ [] hreceived hsilent (by simp) (.inl ⟨.inr rfl, ?_⟩)
    rw [subscribed_silent hsilent, subscribed_append, List.foldl_cons, List.foldl_nil,
      heard_subscribe htype]
    exact if_pos rfl
  | created htype hnew =>
    have hsilent := terminalNew_silent spawn (cString i.memory)
    rw [hnew] at hsilent
    exact proper_silent hreceived hsilent
  | @left p proc => exact proper_silent hreceived (killed_silent p proc a)
  | stranger | resized | wrote | ignored => exact proper_silent hreceived (by simp)
  | @broken p proc htype hd hw =>
    have hsilent := killed_silent_after (e := .wrote proc.fdm i.request.payload a.write)
      (by simp) p proc a
    refine proper_notice _ [] hreceived hsilent (by simp) (.inl ⟨.inr rfl, ?_⟩)
    rw [subscribed_silent hsilent, subscribed_append, List.foldl_cons, List.foldl_nil,
      heard_other (by rw [htype]; decide) (by rw [htype]; decide)]
    exact hheeded i.client (by rw [hd]; rfl)
  | unwritable htype hd =>
    refine proper_notice [] [] hreceived (by simp) (by simp)
      (.inr ⟨rfl, i.request, ?_, htype, rfl⟩)
    simp [master, hd]

end Frames

/-- Like a poll, the sweep keeps any reflexive relation of terminals and subscriptions. -/
theorem quit_agrees {R : Bool → Bool → Prop} {past : List Act} {out : List Event}
    {d d' : Terminals} {answers : UInt16 → Answers} (hR : ∀ b, R b b)
    (h : ∀ c, R (d c).isSome (subscribed c past)) (hmove : Quit answers d out d') (c : UInt16) :
    R (d' c).isSome (subscribed c (past ++ out.map .did)) := by
  cases hmove with
  | @quit c' p proc channelId =>
    rw [subscribed_append, dismissed, heard_notice (killed_silent p proc (answers c'))
      (by split <;> simp), heard_unsubscribe, isSome_update_none]
    exact relate_ite hR (h c) false

theorem proper_preserved :
    Preserved (M := M) (fun _ _ => True) fun d acts => Once acts → Heeded d acts ∧ Proper acts where
  poll s p d past out d' hC h hmove honce := by
    obtain ⟨hheeded, hproper⟩ := h (once_append.mp honce).1
    exact ⟨heeded_preserved.poll s p d past out d' hC (fun _ => hheeded) hmove honce,
      poll_proper hproper hheeded hmove⟩
  handle s p i past out d' hC hsel hrecords h hmove honce := by
    obtain ⟨hheeded, hproper⟩ := h (once_append.mp honce).1
    exact ⟨heeded_preserved.handle s p i past out d' hC hsel hrecords (fun _ => hheeded) hmove
      honce, handle_proper hproper hheeded hmove⟩
  watch s p d past out d' hC hsel hrecords hsub h hmove honce := by
    obtain ⟨hheeded, hproper⟩ := h (once_append.mp honce).1
    exact ⟨heeded_preserved.watch s p d past out d' hC hsel hrecords hsub (fun _ => hheeded) hmove
      honce, watch_proper hproper hheeded hmove⟩

theorem once_did {acts : List Act} (h : Once acts) (out : List Event) :
    Once (acts ++ out.map .did) := by
  refine once_append.mpr ⟨h, ?_⟩
  generalize (fun c => subscribed c acts) = on
  induction out generalizing on with
  | nil => trivial
  | cons e out ih => exact ⟨trivial, ih (hearing on (.did e))⟩

/-- In a run to the exit in which no client subscribes twice, output and ends of sessions go only to
clients that are subscribed, whatever the order of messages, output and exits. The other frames are
answers to DATA from clients without a terminal, and the CLOSE message at the very end. -/
theorem frames_in_session {A : Antd} {answer : TunnelMsgH} {passes : List Pass} {acts : List Act}
    {s : State M} {answers : UInt16 → Answers} {stack : TunnelMsgH}
    (hrun : Execution (Logged A) (initial answer) passes acts s) (honce : Once acts)
    {before after : List Act} {m : TunnelMsg}
    (hsent : acts ++ (exit s answers stack).map .did = before ++ .did (.sent m) :: after) :
    Admitted before m ∨ m.header.type = CHANNEL_CLOSE ∧ after = [] := by
  have hlogged := hrun.mono (S := fun s p acts s' => Logged A s p acts s' ∧ True)
    fun _ _ _ _ hstep => ⟨hstep, trivial⟩
  have hfirst : Once ([] : List Act) → Heeded (fun _ => none) [] ∧ Proper [] :=
    fun _ => ⟨fun c hc => (by cases hc), fun before m after heq => by simp at heq⟩
  by_cases hintact : s.intact = true
  · rw [exit, if_pos hintact] at hsent
    obtain ⟨out, hexit, hout⟩ := preserved_exit answers stack proper_preserved
      (fun d past out d' h hmove honce => by
        obtain ⟨hheeded, hproper⟩ := h (once_append.mp honce).1
        exact ⟨quit_agrees (R := fun x y => x = true → y = true) (fun _ hb => hb) hheeded hmove,
          quit_proper hproper hheeded hmove⟩)
      hfirst hlogged
    have hproper := (hexit (once_did honce out)).2
    rw [hout, List.map_append, ← List.append_assoc] at hsent
    rcases List.eq_nil_or_concat after with rfl | ⟨rest, act, rfl⟩
    · obtain ⟨-, hlast⟩ := List.append_inj' hsent rfl
      rw [← Event.sent.inj (Act.did.inj (List.cons.inj hlast).1)]
      exact .inr ⟨rfl, rfl⟩
    · rw [List.concat_eq_append, ← List.cons_append, ← List.append_assoc] at hsent
      exact .inl (hproper before m rest (List.append_inj' hsent rfl).1)
  · -- The run ends in its last turn.
    rw [exit, if_neg hintact, List.map_nil, List.append_nil] at hsent
    have hproper := ((proper_preserved.run hfirst hlogged).1 honce).2
    exact .inl (hproper before m after hsent)

/-- The run of client 1's conversation. -/
def conversed : State AssocList × List Act :=
  visitAll (fun s p => ((turn firstByteHost s p).1, log firstByteHost s p)) start conversation

theorem conversed_run :
    Execution (Logged firstByteHost) start conversation conversed.2 conversed.1 :=
  execution_of_guardedRun State.going _ start conversation (by decide +kernel)

/-- What client 1's conversation comes to, with the exit. -/
def conversedWhole : List Act :=
  conversed.2 ++ (exit conversed.1 (fun _ => childSeven 0) ⟨0, 0, 0, 0⟩).map .did

/-- Client 1's terminal prints a byte, and the byte is sent in the client's session. -/
theorem frames_in_session_one_client : ∃ before after,
    conversedWhole = before ++ .did (.sent (frame CHANNEL_DATA 0 1 [9])) :: after ∧
    (Admitted before (frame CHANNEL_DATA 0 1 [9]) ∨ CHANNEL_DATA = CHANNEL_CLOSE ∧ after = []) := by
  have hsent : Act.did (.sent (frame CHANNEL_DATA 0 1 [9])) ∈ conversedWhole := by
    decide +kernel
  obtain ⟨before, after, hsent⟩ := List.append_of_mem hsent
  exact ⟨before, after, hsent, frames_in_session conversed_run (by decide +kernel) hsent⟩

/-! ### The end of every session -/

def frameOf : Event → List TunnelMsg
  | .sent m => [m]
  | _ => []

def frames (trace : List Event) : List TunnelMsg := trace.flatMap frameOf

theorem frames_silent {out : List Event} (h : ∀ m, Event.sent m ∉ out) : frames out = [] := by
  apply List.flatMap_eq_nil_iff.mpr
  intro e he
  cases e with
  | sent m => exact (h m he).elim
  | _ => rfl

theorem frames_append (a b : List Event) : frames (a ++ b) = frames a ++ frames b :=
  List.flatMap_append

theorem frames_dismissed (p : ℕ) (proc : VtermProc) (c channelId : UInt16) (a : Answers) :
    frames (dismissed p proc c channelId a) = [frame CHANNEL_UNSUBSCRIBE channelId c []] := by
  rw [dismissed, frames_append, frames_silent (killed_silent p proc a)]
  cases a.send <;> rfl

theorem frames_shutdown {s : State M} (h : Records s []) (answers : UInt16 → Answers)
    (stack : TunnelMsgH) : frames (shutdown s answers stack) =
      ((entries s.processes).map Prod.fst).map
          (fun c => frame CHANNEL_UNSUBSCRIBE stack.channelId c []) ++
        [frame CHANNEL_CLOSE s.msg.channelId s.msg.clientId []] := by
  have hsweep := visitAll_observed
    (g := fun n => [frame CHANNEL_UNSUBSCRIBE stack.channelId n.1 []])
    (sweepNode_attends answers stack)
    (fun s list c p proc hf hproc hcid => by
      rw [sweepNode, unsubscribe_live answers stack hf hproc hcid]
      exact frames_dismissed p proc c stack.channelId (answers c)) h.visiting
  rw [visitAll_sweepNode, ← List.map_eq_flatMap] at hsweep
  rw [shutdown, frames_append, frames, hsweep, List.map_map]
  rfl

/-- If every message is delivered and no terminal breaks, the exit tells exactly the clients that
are still subscribed, each once, closes the channel last, and leaves nobody subscribed. -/
theorem everyone_dismissed {A : Antd} {answer : TunnelMsgH} {passes : List Pass} {acts : List Act}
    {s : State M} {answers : UInt16 → Answers} {stack : TunnelMsgH}
    (hrun : Execution (fun s p acts s' => Logged A s p acts s' ∧ Delivers p ∧ Unbroken s p)
      (initial answer) passes acts s) : ∃ clients : List UInt16,
      clients.Nodup ∧ (∀ c, c ∈ clients ↔ subscribed c acts = true) ∧
      frames (shutdown s answers stack) =
        clients.map (fun c => frame CHANNEL_UNSUBSCRIBE stack.channelId c []) ++
          [frame CHANNEL_CLOSE s.msg.channelId s.msg.clientId []] ∧
      ∀ c, subscribed c (acts ++ (shutdown s answers stack).map .did) = false := by
  have hagree₀ : Agree (fun _ => none) [] := fun c => rfl
  obtain ⟨hagree, hrecords⟩ := agree_preserved.run hagree₀ hrun
  obtain ⟨out, hexit, hout⟩ := preserved_exit answers stack agree_preserved
    (fun d past out d' h hmove => quit_agrees (fun _ => rfl) h hmove) hagree₀ hrun
  refine ⟨(entries s.processes).map Prod.fst, nodup_keys _, ?_,
    frames_shutdown hrecords answers stack, ?_⟩
  · intro c
    rw [← hagree c, terminals_isSome hrecords, Option.isSome_iff_exists, List.mem_map]
    constructor
    · rintro ⟨⟨c, p⟩, hmem, rfl⟩
      exact ⟨p, mem_entries.mp hmem⟩
    · rintro ⟨p, hf⟩
      exact ⟨(c, p), mem_entries.mpr hf, rfl⟩
  · intro c
    rw [hout, List.map_append, ← List.append_assoc, subscribed_append, ← hexit c]
    simp [heard, frame, CHANNEL_CLOSE, CHANNEL_UNSUBSCRIBE]

theorem conversed_delivered :
    Execution (fun s p acts s' => Logged firstByteHost s p acts s' ∧ Delivers p ∧ Unbroken s p)
      start conversation conversed.2 conversed.1 := by
  apply execution_of_meets State.going
    (fun s p => ((turn firstByteHost s p).1, log firstByteHost s p))
    (fun s p => Delivers p ∧ Unbroken s p) start conversation (by decide +kernel)
  refine ⟨⟨fun _ => rfl, fun _ _ => rfl⟩, ⟨fun _ => rfl, fun htype => absurd htype (by decide)⟩,
    ⟨fun _ => rfl, ?_⟩, trivial⟩
  intro _ _ _
  simp [reading]

/-- Client 1 is still subscribed, and is told. -/
theorem everyone_dismissed_one_client : subscribed 1 conversed.2 = true ∧
    ∃ clients : List UInt16, clients.Nodup ∧ (∀ c, c ∈ clients ↔ subscribed c conversed.2 = true) ∧
      frames (shutdown conversed.1 (fun _ => childSeven 0) ⟨0, 0, 0, 0⟩) =
        clients.map (fun c => frame CHANNEL_UNSUBSCRIBE 0 c []) ++
          [frame CHANNEL_CLOSE conversed.1.msg.channelId conversed.1.msg.clientId []] ∧
      ∀ c, subscribed c conversedWhole = false :=
  ⟨by decide +kernel, everyone_dismissed conversed_delivered⟩

/-! ### Children and descriptors -/

section Moves

variable {past : List Act} {out : List Event} {d d' : Terminals} {answers : UInt16 → Answers}

/-- At most one child for each terminal, as long as nobody subscribes twice. -/
def Heired (d : Terminals) (acts : List Act) : Prop :=
  Heeded d acts ∧ (AllEffective [] (calls (events acts)) →
    Owned d (childrenAfter [] (calls (events acts))))

theorem owned_append {acts : List Act} (hevents : events acts = out)
    (h : AllEffective [] (calls (events past)) → Owned d (childrenAfter [] (calls (events past))))
    (hmove : ∀ children, Owned d children → AllEffective children (calls out) →
      Owned d' (childrenAfter children (calls out)))
    (heffective : AllEffective [] (calls (events (past ++ acts)))) :
    Owned d' (childrenAfter [] (calls (events (past ++ acts)))) := by
  rw [events_append, hevents, calls_append] at heffective ⊢
  rw [childrenAfter_append]
  obtain ⟨hpast, hout⟩ := along_append.mp heffective
  exact hmove _ (h hpast) hout

theorem quit_owned {children : List ℤ} (h : Owned d children) (hmove : Quit answers d out d')
    (heffective : AllEffective children (calls out)) :
    Owned d' (childrenAfter children (calls out)) := by
  cases hmove with
  | @quit c p proc channelId hd =>
    exact h.kill hd (calls_dismissed p proc c channelId (answers c)) heffective

theorem quit_accounts {table left : List ℤ} (h : Accounts d table left)
    (hmove : Quit answers d out d') : Accounts d' (openAfter table (descriptors out)) left := by
  cases hmove with
  | @quit c p proc channelId hd =>
    exact h.kill hd (descriptors_dismissed p proc c channelId (answers c))

end Moves

theorem heired_preserved :
    Preserved (M := M) (fun _ _ => True) fun d acts => Once acts → Heired d acts where
  poll s p d past out d' hC h hmove honce := by
    obtain ⟨hheeded, howned⟩ := h (once_append.mp honce).1
    exact ⟨heeded_preserved.poll s p d past out d' hC (fun _ => hheeded) hmove honce,
      owned_append (events_did out) howned fun _ h => h.poll hmove⟩
  handle s p i past out d' hC hsel hrecords h hmove honce := by
    obtain ⟨hheeded, howned⟩ := h (once_append.mp honce).1
    refine ⟨heeded_preserved.handle s p i past out d' hC hsel hrecords (fun _ => hheeded) hmove
      honce, owned_append (events_did out) howned fun _ h heffective =>
        h.handle hmove heffective ?_⟩
    intro htype _ _ _ q old hold
    rw [hheeded.absent honce htype] at hold
    cases hold
  watch s p d past out d' hC hsel hrecords hsub h hmove honce := by
    obtain ⟨hheeded, howned⟩ := h (once_append.mp honce).1
    exact ⟨heeded_preserved.watch s p d past out d' hC hsel hrecords hsub (fun _ => hheeded) hmove
      honce, owned_append (events_did out) howned fun _ h => h.watch hmove⟩

/-- A run that gets to its exit and in which no client subscribes twice leaves nothing behind but
what creating a terminal forgets: every child is reaped, and what is open is the slaves and the
masters that could not be granted or unlocked. -/
theorem nothing_left_behind {A : Antd} {answer : TunnelMsgH} {passes : List Pass} {acts : List Act}
    {s : State M} {answers : UInt16 → Answers} {stack : TunnelMsgH} {trace : List Event}
    (hrun : Execution (Logged A) (initial answer) passes acts s) (hintact : s.intact = true)
    (honce : Once acts) (htrace : trace = events acts ++ exit s answers stack)
    (heffective : AllEffective [] (calls trace)) (hunused : AllUnused [] (descriptors trace)) :
    childrenAfter [] (calls trace) = [] ∧
      ∀ fd, fd ∈ openAfter [] (descriptors trace) ↔ fd ∈ passes.flatMap lost := by
  have hfirst : Once ([] : List Act) → Heired (fun _ => none) [] :=
    fun _ => ⟨fun c hc => (by cases hc),
      fun _ => ⟨by simp [events, calls], by simp [events, calls]⟩⟩
  obtain ⟨hheired, hrecords⟩ := heired_preserved.run hfirst
    (hrun.mono fun _ _ _ _ hstep => ⟨hstep, trivial⟩)
  obtain ⟨out, hsweep, hout⟩ := shutdown_clears hrecords answers stack
  rw [exit, if_pos hintact] at htrace
  have hcalls : calls trace = calls (events acts ++ out) := by
    rw [htrace, hout, ← List.append_assoc, calls_append]
    exact List.append_nil _
  have hopen : descriptors trace = descriptors (events acts ++ out) := by
    rw [htrace, hout, ← List.append_assoc, descriptors_append]
    exact List.append_nil _
  rw [hcalls] at heffective ⊢
  rw [hopen] at hunused ⊢
  constructor
  · -- Every child left has a terminal, and nobody has one.
    have howned := Runs.history
      (I := fun d trace => AllEffective [] (calls trace) →
        Owned d (childrenAfter [] (calls trace)))
      (fun d past out d' h hmove heffective => by
        rw [calls_append] at heffective ⊢
        rw [childrenAfter_append]
        obtain ⟨hpast, hend⟩ := along_append.mp heffective
        exact quit_owned (h hpast) hmove hend)
      hsweep (hheired honce).2
    apply List.eq_nil_iff_forall_not_mem.mpr
    intro pid hpid
    obtain ⟨c, p, proc, hd, -⟩ := (howned heffective).owner pid hpid
    cases hd
  · rw [descriptors_append] at hunused
    have haccounts := Runs.history
      (I := fun d trace => Accounts d (openAfter [] (descriptors trace)) (passes.flatMap lost))
      (fun d past out d' h hmove => by
        rw [descriptors_append, openAfter, List.foldl_append]
        exact quit_accounts h hmove)
      hsweep (accounts_run hrun (along_append.mp hunused).1 honce)
    intro fd
    rw [haccounts.known fd]
    simp [master]

/-- Client 1's child is killed at the exit, its master closed, and its slave is still open. -/
theorem nothing_left_behind_one_client :
    childrenAfter [] (calls (events conversed.2)) = [7] ∧
    childrenAfter [] (calls (events conversed.2 ++
      exit conversed.1 (fun _ => childSeven 0) ⟨0, 0, 0, 0⟩)) = [] ∧
    ∀ fd, fd ∈ openAfter [] (descriptors (events conversed.2 ++
      exit conversed.1 (fun _ => childSeven 0) ⟨0, 0, 0, 0⟩)) ↔
        fd ∈ conversation.flatMap lost :=
  ⟨by decide +kernel, nothing_left_behind conversed_run (by decide +kernel) (by decide +kernel) rfl
    (by decide +kernel) (by decide +kernel)⟩

end VtermSessions
