import TunnelPublishers.HiddenInputs
import TunnelPublishers.BroadcastInvariant
import TunnelPublishers.VtermSignals
import TunnelPublishers.WfifoService
import TunnelPublishers.SyslogService

/-!
# Stack contents on the wire

Each service writes some frames from a local header of which it never sets the
channel. What a run writes to the hotline is compared between runs with the
same inputs and other contents of those headers; the writes are complete, and
what lies behind a payload counts as an input.
-/
namespace StackContents

open ByteOrder FiniteMaps FiniteMap TunnelFraming ExecutionTraces HiddenInputs

/-- Frames of a type, a client and a payload each, with the channel left to the stack. -/
def stamps (channelId : UInt16) (frames : List (UInt8 × UInt16 × List UInt8)) : List UInt8 :=
  frames.flatMap fun f => encode (frame f.1 channelId f.2.1 f.2.2)

section Stamps

variable {channelId channelId' : UInt16} {frames : List (UInt8 × UInt16 × List UInt8)}
  {rest rest' : List UInt8}

/-- The channel of a frame stands at a fixed place. -/
theorem encode_channelId {m m' : TunnelMsg} (h : encode m ++ rest = encode m' ++ rest') :
    m.header.channelId = m'.header.channelId := by
  simp only [encode, List.append_assoc] at h
  obtain ⟨-, h⟩ := List.append_inj h rfl
  obtain ⟨-, h⟩ := List.append_inj h rfl
  exact be16_injective (List.append_inj h (by simp)).1

theorem stamps_channelId (hne : frames ≠ [])
    (h : stamps channelId frames ++ rest = stamps channelId' frames ++ rest') :
    channelId = channelId' := by
  obtain ⟨f, frames, rfl⟩ := List.exists_cons_of_ne_nil hne
  simp only [stamps, List.flatMap_cons, List.append_assoc] at h
  exact encode_channelId h

theorem stamps_nil (channelId : UInt16) : stamps channelId [] = [] := rfl

theorem stamps_append (channelId : UInt16) (a b : List (UInt8 × UInt16 × List UInt8)) :
    stamps channelId (a ++ b) = stamps channelId a ++ stamps channelId b :=
  List.flatMap_append

theorem stamps_flatMap {β : Type} (channelId : UInt16) (l : List β)
    (f : β → List (UInt8 × UInt16 × List UInt8)) :
    stamps channelId (l.flatMap f) = l.flatMap fun b => stamps channelId (f b) :=
  List.flatMap_assoc

/-- A header with another channel. -/
def other (stack : TunnelMsgH) : TunnelMsgH := { stack with channelId := stack.channelId + 1 }

theorem other_channelId (stack : TunnelMsgH) : (other stack).channelId ≠ stack.channelId := by
  simp [other]

/-- Bytes do not show the stack exactly if none of them is stamped. -/
theorem stamps_fixed_iff (stack : TunnelMsgH) :
    (∀ stack' : TunnelMsgH,
      stamps stack'.channelId frames ++ rest = stamps stack.channelId frames ++ rest) ↔
      frames = [] := by
  constructor
  · intro hsame
    by_contra hne
    exact other_channelId stack (stamps_channelId hne (hsame (other stack)))
  · rintro rfl stack'
    rfl

end Stamps

variable {M : Type → Type → Type} [FiniteMap M]

/-- An unsubscription for every node. -/
def farewell {α : Type} (clients : M UInt16 α) : List (UInt8 × UInt16 × List UInt8) :=
  (entries clients).map fun n => (CHANNEL_UNSUBSCRIBE, n.1, [])

theorem farewell_eq_nil {α : Type} {clients : M UInt16 α} :
    farewell clients = [] ↔ ∀ c, find clients c = none := by
  rw [farewell, List.map_eq_nil_iff, entries_eq_nil]

/-! ### The broadcast service -/

section Broadcast

open BroadcastService BroadcastMachine BroadcastHandles BroadcastInvariant

variable {A : Antd} {s : State M}

/-- What a callback leaves in the buffer does not depend on the header it is handed. -/
def Headless {β : Type} (f : TunnelMsg → β → Except Fault (TunnelMsg × List TunnelMsg)) : Prop :=
  ∀ m m' b, m.data = m'.data → (f m b).map (·.1.data) = (f m' b).map (·.1.data)

theorem Headless.forEach {β : Type} {f : TunnelMsg → β → Except Fault (TunnelMsg × List TunnelMsg)}
    (hf : Headless f) (l : List β) {m m' : TunnelMsg} (h : m.data = m'.data) :
    (forEach f m l).map (·.1.data) = (forEach f m' l).map (·.1.data) := by
  induction l generalizing m m' with
  | nil => simp [BroadcastService.forEach, Except.map, h]
  | cons b l ih =>
    have hhead := hf m m' b h
    cases hx : f m b with
    | error e =>
      cases hy : f m' b with
      | error e' =>
        rw [hx, hy] at hhead
        rw [forEach_cons_error hx, forEach_cons_error hy]
        simpa [Except.map] using hhead
      | ok y => simp [hx, hy, Except.map] at hhead
    | ok x =>
      cases hy : f m' b with
      | error e' => simp [hx, hy, Except.map] at hhead
      | ok y =>
        obtain ⟨x, out⟩ := x
        obtain ⟨y, out'⟩ := y
        have hdata : x.data = y.data := by simpa [hx, hy, Except.map] using hhead
        have hrest := ih hdata
        rw [forEach_cons_ok hx, forEach_cons_ok hy]
        cases hr : BroadcastService.forEach f x l <;>
          cases hr' : BroadcastService.forEach f y l <;>
          simp_all [Except.map]

theorem bcNotify_headless (heap : List (Option (BcClient M))) (group : Int32) :
    Headless (bcNotify heap group) := by
  intro m m' n h
  cases hd : deref heap n.2 with
  | error e => simp [bcNotify, hd, bind, Except.bind, Except.map]
  | ok bc =>
    cases hg : find bc.groups group <;>
      simp [bcNotify, hd, hg, h, bind, Except.bind, pure, Except.pure, Except.map]

theorem bcUnsubscription_headless (heap : List (Option (BcClient M)))
    (clients : List (UInt16 × ℕ)) (len : ℕ) : Headless (bcUnsubscription heap clients len) := by
  intro m m' n h
  apply (bcNotify_headless heap n.1).forEach
  simp only [h]

theorem unsubscribe_state (s : State M) (stack stack' : TunnelMsgH) (node : Option (UInt16 × ℕ)) :
    (unsubscribe s stack node).map Prod.fst = (unsubscribe s stack' node).map Prod.fst := by
  rcases node with _ | ⟨key, p⟩
  · rfl
  cases hd : deref s.heap p with
  | error e => simp [unsubscribe, hd, bind, Except.bind, Except.map]
  | ok bc =>
    by_cases hlast : bc.ref - 1 ≤ 0
    · have hstate : ∀ stack, (unsubscribe s stack (some (key, p))).map Prod.fst =
          ((forEach (bcUnsubscription (s.heap.set p (some { bc with ref := bc.ref - 1 }))
              (entries s.clients) bc.name.bytes.length)
            ⟨{ stack with type := CHANNEL_CTRL }, some (memcpyAt (memcpyAt (memcpyAt s.msgBuffer 0
              [BC_UNSUBSCRIPTION]) 1 [UInt8.ofNat bc.name.bytes.length]) 2 bc.name.bytes)⟩
            (entries bc.groups)).map (·.1.data)).map fun data =>
              { s with heap := s.heap.set p none, msgBuffer := data.getD [] } := by
        intro stack
        simp only [unsubscribe, hd, hlast, bind, Except.bind, pure, Except.pure, ↓reduceIte,
          List.set_set]
        split <;> next hx => simp [hx, Except.map]
      rw [hstate, hstate]
      congr 1
      exact (bcUnsubscription_headless _ _ _).forEach (entries bc.groups) rfl
    · simp [unsubscribe, hd, hlast, bind, Except.bind, pure, Except.pure, Except.map]

/-- What a step may depend on. -/
def seen (i : Input) : TunnelMsg × List UInt8 := (i.request, i.beyond)

/-- Only an unsubscription reads the stack. -/
theorem step_seen (s : State M) {i j : Input} (h : seen j = seen i)
    (htype : i.request.header.type ≠ CHANNEL_UNSUBSCRIBE) : step A s j = step A s i := by
  obtain ⟨request, beyond, stack, received⟩ := i
  obtain ⟨request', beyond', stack', received'⟩ := j
  obtain ⟨rfl, rfl⟩ := Prod.mk.inj h
  simp only [step, if_neg htype]
  rfl

theorem channelUnsubscribe_state (s : State M) {i j : Input} (h : seen j = seen i) :
    (channelUnsubscribe s j).map Prod.fst = (channelUnsubscribe s i).map Prod.fst := by
  obtain ⟨request, beyond, stack, received⟩ := i
  obtain ⟨request', beyond', stack', received'⟩ := j
  obtain ⟨rfl, rfl⟩ := Prod.mk.inj h
  have hsame := unsubscribe_state s stack stack'
    ((find s.clients request'.header.clientId).map fun p => (request'.header.clientId, p))
  simp only [channelUnsubscribe, bind, Except.bind, pure, Except.pure]
  split <;> split <;> simp_all [Except.map]

theorem step_visible (A : Antd) : Visible (Step A : State M → _) seen where
  unique h k := by
    have heq := Eq.trans (Eq.symm h) k
    simp only [Except.ok.injEq, Prod.mk.injEq] at heq
    exact ⟨heq.2, heq.1⟩
  carried := by
    intro s i j os u h hseen
    by_cases htype : i.request.header.type = CHANNEL_UNSUBSCRIBE
    · have htype' : j.request.header.type = CHANNEL_UNSUBSCRIBE := by
        rw [(Prod.mk.inj hseen).1, htype]
      have hsame : (step A s j).map Prod.fst = (step A s i).map Prod.fst := by
        simp only [step, htype, htype']
        exact channelUnsubscribe_state s hseen
      rw [show step A s i = .ok (u, os) from h] at hsame
      cases hj : step A s j with
      | error e => simp [hj, Except.map] at hsame
      | ok r =>
        obtain rfl : r.1 = u := by simpa [hj, Except.map] using hsame
        exact ⟨r.2, hj⟩
    · exact ⟨os, (step_seen s hseen htype).trans h⟩

/-- What a leaving client causes to be sent. -/
def leaving (s : State M) (bc : BcClient M) (c : UInt16) : List (UInt8 × UInt16 × List UInt8) :=
  (if bc.ref ≤ 1 then
    (entries bc.groups).flatMap fun e => (recipients s.heap s.clients e.1).map fun o =>
      (CHANNEL_CTRL, o, notice BC_UNSUBSCRIPTION bc.name e.1 [])
  else []) ++ [(CHANNEL_UNSUBSCRIBE, c, [])]

theorem unsubscribe_stamps (h : Invariant A s) {p : ℕ} {bc : BcClient M} (hp : Live s.heap p bc)
    (stack : TunnelMsgH) (c : UInt16) :
    ∃ s' out, unsubscribe s stack (some (c, p)) = .ok (s', out) ∧
      out.flatMap encode = stamps stack.channelId (leaving s bc c) := by
  have hroom := A.room
  have hbuf := h.buffer
  obtain ⟨buffer, -, hun⟩ := unsubscribe_spec hp (by omega) stack c fun _ _ => h.nodes_live
  refine ⟨_, _, hun, ?_⟩
  rw [leaving, stamps_append, List.flatMap_append]
  congr 1
  split
  · simp only [farewells, List.flatMap_assoc, List.flatMap_map, stamps]
  · rfl

theorem channelUnsubscribe_stamps (h : Invariant A s) {i : Input}
    (htype : i.request.header.type = CHANNEL_UNSUBSCRIBE) {p : ℕ} {bc : BcClient M}
    (hc : find s.clients i.client = some p) (hp : Live s.heap p bc) :
    ∃ u out, Step A s i out u ∧
      out.flatMap encode = stamps i.stack.channelId (leaving s bc i.client) := by
  obtain ⟨s', out, hun, hbytes⟩ := unsubscribe_stamps h hp i.stack i.client
  refine ⟨{ s' with clients := delete s'.clients i.client }, out, ?_, hbytes⟩
  simp only [Succeeds, step, htype]
  simp only [channelUnsubscribe, hc, Option.map_some, hun, bind, Except.bind, pure, Except.pure]
  rfl

/-- The messages that show the stack are the unsubscriptions. -/
theorem step_unaffected_iff {i : Input} {out : List TunnelMsg} {u : State M} (h : Invariant A s)
    (hs : Step A s i out u) : Unaffected (Step A) seen encode s i out u ↔
      i.request.header.type ≠ CHANNEL_UNSUBSCRIBE := by
  constructor
  · rintro ⟨-, hsame⟩ htype
    cases hc : find s.clients i.client with
    | none =>
      have hfault : step A s i = .error .nullNode := by
        simp only [step, htype, channelUnsubscribe, hc]
        rfl
      rw [show step A s i = .ok (u, out) from hs] at hfault
      cases hfault
    | some p =>
      obtain ⟨bc, hp⟩ := h.live i.client p hc
      obtain ⟨v, ps, hv, hbytes⟩ := channelUnsubscribe_stamps h htype hc hp
      obtain ⟨w, qs, hw, hbytes'⟩ := channelUnsubscribe_stamps
        (i := { i with stack := other i.stack }) h htype hc hp
      obtain ⟨rfl, -⟩ := (step_visible A).unique hs hv
      have heq := hsame { i with stack := other i.stack } qs w rfl hw
      rw [hbytes, hbytes', ← List.append_nil (stamps _ _),
        ← List.append_nil (stamps i.stack.channelId _)] at heq
      exact other_channelId i.stack (stamps_channelId (by simp [leaving]) heq)
  · intro htype
    refine ⟨hs, fun j ps v hseen k => ?_⟩
    have hj : Step A s j out u := (step_seen s hseen htype).trans hs
    rw [((step_visible A).unique k hj).1]

theorem shutdown_unaffected_iff (h : Invariant A s) (request : TunnelMsgH)
    (stack : UInt16 → TunnelMsgH) :
    (∀ stack', (shutdown stack' request s (entries s.clients)).flatMap encode =
      (shutdown stack request s (entries s.clients)).flatMap encode) ↔
      ∀ c, find s.clients c = none := by
  rw [← entries_eq_nil]
  constructor
  · intro hsame
    cases he : entries s.clients with
    | nil => rfl
    | cons n order =>
      obtain ⟨bc, hp⟩ := h.nodes_live n (by rw [he]; exact List.mem_cons_self)
      obtain ⟨v, ps, hv, hbytes⟩ := unsubscribe_stamps h hp (stack n.1) n.1
      obtain ⟨w, qs, hw, hbytes'⟩ := unsubscribe_stamps h hp (other (stack n.1)) n.1
      have heq := hsame fun _ => other (stack n.1)
      simp only [he, shutdown, hv, hw, List.flatMap_append, hbytes, hbytes'] at heq
      exact (other_channelId _ (stamps_channelId (by simp [leaving]) heq)).elim
  · intro hnone stack'
    simp only [hnone, shutdown]

theorem broadcast_independent_iff {answer : TunnelMsg} {inputs : List Input}
    {out : List TunnelMsg} (hrun : Execution (Step A) (initial A answer) inputs out s)
    (request : TunnelMsgH) :
    Independent (Step A) seen encode
        (fun (s : State M) stack => shutdown stack request s (entries s.clients))
        (initial A answer) inputs ↔
      (∀ i ∈ inputs, i.request.header.type ≠ CHANNEL_UNSUBSCRIBE) ∧
        ∀ c, find s.clients c = none := by
  have hinv : Invariant A s := reachable_invariant ⟨answer, inputs, out, hrun⟩
  have hsteps : Execution (Unaffected (Step A) seen encode) (initial A answer) inputs out s ↔
      Execution (fun s i os u => Step A s i os u ∧ i.request.header.type ≠ CHANNEL_UNSUBSCRIBE)
        (initial A answer) inputs out s :=
    unaffected_iff (I := Invariant A) (fun _ _ _ _ => step_preserves_invariant)
      (fun _ _ _ _ => step_unaffected_iff) (initial_invariant A answer)
  rw [(step_visible A).independent_iff (fun _ => ⟨0, 0, 0, 0⟩) hrun,
    shutdown_unaffected_iff hinv request, hsteps, execution_and_iff]
  simp [hrun]

end Broadcast

/-! ### The terminal service -/

section Vterm

open VtermService VtermTerminals

variable {A : Antd} {s : State M}

/-- The bytes an event of the terminal service puts on the hotline. -/
def hotline : Event → List UInt8
  | .sent msg => encode msg
  | _ => []

/-- What a turn may depend on. -/
def looked (p : Pass) : Pass := { p with stack := ⟨0, 0, 0, 0⟩ }

theorem looked_eq {p q : Pass} (h : looked q = looked p) : q = { p with stack := q.stack } := by
  cases p
  cases q
  simp only [looked, Pass.mk.injEq] at h
  simp [h]

theorem visitAll_state {γ β ο : Type*} {f g : γ → β → γ × List ο}
    (h : ∀ x b, (f x b).1 = (g x b).1) (x : γ) (l : List β) :
    (visitAll f x l).1 = (visitAll g x l).1 := by
  induction l generalizing x with
  | nil => rfl
  | cons b l ih => simp only [visitAll, h, ih]

theorem unsubscribe_stack (answers : UInt16 → Answers) (stack stack' : TunnelMsgH) (s : State M)
    (n : UInt16 × ℕ) : (unsubscribe answers stack s n).1 = (unsubscribe answers stack' s n).1 := by
  simp only [unsubscribe]
  split <;> rfl

theorem setSockFd_stack (answers : UInt16 → Answers) (stack stack' : TunnelMsgH)
    (x : State M × List (UInt16 × ℕ)) (n : UInt16 × ℕ) :
    (setSockFd answers stack x n).1 = (setSockFd answers stack' x n).1 := by
  simp only [setSockFd]
  split
  · rfl
  · split
    · simp only [unsubscribe_stack answers stack stack']
    · rfl

theorem terminalMonitor_stack (A : Antd) (answers : UInt16 → Answers) (stack stack' : TunnelMsgH)
    (x : State M × List (UInt16 × ℕ)) (n : UInt16 × ℕ) :
    (terminalMonitor A answers stack x n).1 = (terminalMonitor A answers stack' x n).1 := by
  simp only [terminalMonitor]
  split
  · rfl
  · split
    · split
      · split
        · rfl
        · split <;> rfl
      · rfl
    · rfl

theorem attend_stack (A : Antd) (s : State M) (p : Pass) (stack : TunnelMsgH) :
    (attend A s { p with stack := stack }).1 = (attend A s p).1 := by
  have hwatched : (monitorTerminals A s { p with stack := stack }).1 =
      (monitorTerminals A s p).1 := by
    simp only [monitorTerminals, visitAll_state (terminalMonitor_stack A p.answers stack p.stack)]
  simp only [attend]
  split
  · rfl
  · rfl
  · rfl
  · rfl
  · exact hwatched

theorem monitorProcesses_stack (s : State M) (p : Pass) (stack : TunnelMsgH) :
    (monitorProcesses s { p with stack := stack }).1 = (monitorProcesses s p).1 := by
  simp only [monitorProcesses, visitAll_state (setSockFd_stack p.answers stack p.stack)]

/-- The state after a turn does not depend on the stack. -/
theorem turn_stack (A : Antd) (s : State M) (p : Pass) (stack : TunnelMsgH) :
    (turn A s { p with stack := stack }).1 = (turn A s p).1 := by
  rw [turn_eq, turn_eq]
  simp only [monitorProcesses_stack, attend_stack]

theorem turn_visible (A : Antd) : Visible (Step A : State M → _) looked where
  unique h k := by
    have heq := Eq.trans (Eq.symm h.2) k.2
    exact ⟨congrArg Prod.snd heq, congrArg Prod.fst heq⟩
  carried := by
    intro s p q os u h hlooked
    rw [looked_eq hlooked]
    refine ⟨(turn A s { p with stack := q.stack }).2, h.1, Prod.ext ?_ rfl⟩
    rw [turn_stack, h.2]

theorem killed_bytes (p : ℕ) (proc : VtermProc) (a : Answers) :
    (killed p proc a).flatMap hotline = [] := by
  unfold killed
  split <;> rfl

theorem dismissed_bytes (p : ℕ) (proc : VtermProc) (c channelId : UInt16) (a : Answers) :
    (dismissed p proc c channelId a).flatMap hotline =
      stamps channelId [(CHANNEL_UNSUBSCRIBE, c, [])] := by
  rw [dismissed, List.flatMap_append, killed_bytes, List.nil_append]
  split <;> rfl

/-- The clients whose terminals are found to have exited. -/
def departures (s : State M) (answers : UInt16 → Answers) : List (UInt8 × UInt16 × List UInt8) :=
  (entries s.processes).flatMap fun n =>
    if (answers n.1).poll = -1 ∨ (answers n.1).poll > 0 then [(CHANNEL_UNSUBSCRIBE, n.1, [])]
    else []

/-- What a terminal has to say. -/
def output (A : Antd) (a : Answers) : List UInt8 :=
  if a.ready then (a.read.getD []).take A.BUFFLEN else []

def outputs (A : Antd) (s : State M) (answers : UInt16 → Answers) :
    List (UInt8 × UInt16 × List UInt8) :=
  (entries s.processes).flatMap fun n =>
    if output A (answers n.1) = [] then [] else [(CHANNEL_DATA, n.1, output A (answers n.1))]

theorem monitorProcesses_bytes (h : Records s []) (p : Pass) :
    (monitorProcesses s p).2.flatMap hotline =
      stamps p.stack.channelId (departures s p.answers) := by
  rw [departures, stamps_flatMap]
  refine visitAll_observed (setSockFd_attends p.answers p.stack) ?_ h.visiting
  intro s list c q proc hf hproc hcid
  simp only [setSockFd, hproc]
  split
  · simp only [unsubscribe_live p.answers p.stack hf hproc hcid, List.flatMap_cons,
      dismissed_bytes]
    rfl
  · rfl

theorem monitorTerminals_bytes (A : Antd) (h : Records s []) (p : Pass) :
    (monitorTerminals A s p).2.flatMap hotline =
      stamps p.stack.channelId (outputs A s p.answers) := by
  have hreleased : ∀ list : List (UInt16 × ℕ),
      (list.map fun node => Event.released node.2).flatMap hotline = [] := by
    intro list
    simp [List.flatMap_map, hotline]
  simp only [monitorTerminals, List.flatMap_append, hreleased, List.append_nil]
  rw [outputs, stamps_flatMap]
  refine visitAll_observed (terminalMonitor_attends A p.answers p.stack) ?_ h.visiting
  intro s list c q proc hf hproc _
  have hkill := terminalKill_live hf hproc (p.answers c) false
  simp only [terminalMonitor, hproc, output]
  cases hready : (p.answers c).ready with
  | false => rfl
  | true =>
    cases hread : (p.answers c).read with
    | none => simp [hkill, killed_bytes, stamps, hotline]
    | some bytes =>
      by_cases hbytes : bytes.take A.BUFFLEN = []
      · simp only [↓reduceIte, hbytes, Option.getD_some]
        rfl
      · cases hsend : (p.answers c).send <;>
          simp [hbytes, hkill, killed_bytes, stamps, hotline]

theorem vterm_shutdown_bytes (h : Records s []) (answers : UInt16 → Answers) (stack : TunnelMsgH) :
    (shutdown s answers stack).flatMap hotline =
      stamps stack.channelId (farewell s.processes) ++
        encode (frame CHANNEL_CLOSE s.msg.channelId s.msg.clientId []) := by
  rw [shutdown, List.flatMap_append, ← visitAll_sweepNode answers stack s []]
  congr 1
  rw [farewell, List.map_eq_flatMap, stamps_flatMap]
  refine visitAll_observed (sweepNode_attends answers stack) ?_ h.visiting
  intro s list c q proc hf hproc hcid
  simp only [sweepNode, unsubscribe_live answers stack hf hproc hcid, dismissed_bytes]

theorem departures_eq_nil {answers : UInt16 → Answers} :
    departures s answers = [] ↔
      ∀ c, find s.processes c ≠ none → (answers c).poll ≠ -1 ∧ (answers c).poll ≤ 0 := by
  simp only [departures, List.flatMap_eq_nil_iff, ite_eq_right_iff, List.cons_ne_nil, imp_false,
    not_or, not_lt, gt_iff_lt]
  exact forall_entries_key (m := s.processes)
    (P := fun c => (answers c).poll ≠ -1 ∧ (answers c).poll ≤ 0)

theorem output_eq_nil {a : Answers} :
    output A a = [] ↔ (a.ready = true → ∀ bytes, a.read = some bytes → bytes = []) := by
  have hroom := A.room
  have hbuff : A.BUFFLEN ≠ 0 := by omega
  cases hready : a.ready <;> cases hread : a.read <;> simp [output, hready, hread, hbuff]

theorem outputs_eq_nil {answers : UInt16 → Answers} :
    outputs A s answers = [] ↔ ∀ c, find s.processes c ≠ none → (answers c).ready = true →
      ∀ bytes, (answers c).read = some bytes → bytes = [] := by
  simp only [outputs, List.flatMap_eq_nil_iff, ite_eq_left_iff, List.cons_ne_nil, imp_false,
    not_not, output_eq_nil]
  exact forall_entries_key (m := s.processes) (P := fun c => (answers c).ready = true →
    ∀ bytes, (answers c).read = some bytes → bytes = [])

/-- While no child exits, the pass over the children leaves everything in place. -/
theorem monitorProcesses_alive {p : Pass} (h : departures s p.answers = []) :
    (monitorProcesses s p).1 = s := by
  have hstill : ∀ visit : List (UInt16 × ℕ),
      (∀ n ∈ visit, ¬ ((p.answers n.1).poll = -1 ∨ (p.answers n.1).poll > 0)) →
      (visitAll (setSockFd p.answers p.stack) (s, []) visit).1 = (s, []) := by
    intro visit hvisit
    induction visit with
    | nil => rfl
    | cons n visit ih =>
      have hhead : (setSockFd p.answers p.stack (s, []) n).1 = (s, []) := by
        simp only [setSockFd, if_neg (hvisit n List.mem_cons_self)]
        split <;> rfl
      simp only [visitAll, hhead]
      exact ih fun m hm => hvisit m (List.mem_cons_of_mem n hm)
  have hall := hstill (entries s.processes) fun n hn => by
    have hn' := departures_eq_nil.mp h n.1 (by simp [mem_entries.mp hn])
    omega
  simp only [monitorProcesses, hall]
  rfl

/-- No terminal is found to have exited, and none that is looked at has anything to say. -/
structure Idle (s : State M) (p : Pass) : Prop where
  alive : ∀ c, find s.processes c ≠ none → (p.answers c).poll ≠ -1 ∧ (p.answers c).poll ≤ 0
  silent : p.selected = .terminals → ∀ c, find s.processes c ≠ none →
    (p.answers c).ready = true → ∀ bytes, (p.answers c).read = some bytes → bytes = []

theorem idle_iff (A : Antd) {p : Pass} : Idle s p ↔ departures s p.answers = [] ∧
    (p.selected = .terminals → outputs A (monitorProcesses s p).1 p.answers = []) := by
  constructor
  · intro h
    have halive := departures_eq_nil.mpr h.alive
    rw [monitorProcesses_alive halive, outputs_eq_nil]
    exact ⟨halive, h.silent⟩
  · rintro ⟨halive, hsilent⟩
    rw [monitorProcesses_alive halive, outputs_eq_nil] at hsilent
    exact ⟨departures_eq_nil.mp halive, hsilent⟩

theorem attend_terminals (h : Records s []) (A : Antd) {p : Pass} (hsel : p.selected = .terminals)
    (stack : TunnelMsgH) :
    (attend A s { p with stack := stack }).2.flatMap hotline =
      stamps stack.channelId (outputs A s p.answers) := by
  simp only [attend, hsel]
  exact monitorTerminals_bytes A h { p with stack := stack }

theorem attend_other (A : Antd) {p : Pass} (hsel : p.selected ≠ .terminals) (stack : TunnelMsgH) :
    attend A s { p with stack := stack } = attend A s p := by
  simp only [attend]
  split <;> first | rfl | exact absurd ‹_› hsel

theorem turn_bytes (h : Records s []) (A : Antd) (p : Pass) (stack : TunnelMsgH) :
    (turn A s { p with stack := stack }).2.flatMap hotline =
      stamps stack.channelId (departures s p.answers) ++
        (attend A (monitorProcesses s p).1 { p with stack := stack }).2.flatMap hotline := by
  rw [turn_eq, List.flatMap_append, monitorProcesses_bytes h, monitorProcesses_stack]

/-- A turn shows the stack unless it is idle. -/
theorem turn_unaffected_iff {p : Pass} {out : List Event} {u : State M} (h : Records s [])
    (hs : Step A s p out u) :
    Unaffected (Step A) looked hotline s p out u ↔ Idle s p := by
  obtain ⟨hrunning, hturn⟩ := hs
  have hout : out.flatMap hotline = (turn A s { p with stack := p.stack }).2.flatMap hotline := by
    rw [show turn A s { p with stack := p.stack } = turn A s p from rfl, hturn]
  have hrecords := (monitorProcesses_polls h p).2
  rw [idle_iff A]
  constructor
  · rintro ⟨-, hsame⟩
    have heq := hsame { p with stack := other p.stack }
      (turn A s { p with stack := other p.stack }).2 (turn A s { p with stack := other p.stack }).1
      rfl ⟨hrunning, rfl⟩
    rw [hout, turn_bytes h, turn_bytes h] at heq
    have halive : departures s p.answers = [] := by
      by_contra hne
      exact other_channelId p.stack (stamps_channelId hne heq)
    refine ⟨halive, fun hsel => ?_⟩
    by_contra hne
    rw [halive, stamps_nil, stamps_nil, attend_terminals hrecords A hsel,
      attend_terminals hrecords A hsel, List.nil_append, List.nil_append, ← List.append_nil
      (stamps _ _), ← List.append_nil (stamps p.stack.channelId _)] at heq
    exact other_channelId p.stack (stamps_channelId hne heq)
  · rintro ⟨halive, hsilent⟩
    refine ⟨⟨hrunning, hturn⟩, fun q ps v hlooked hq => ?_⟩
    have hps : ps = (turn A s q).2 := (congrArg Prod.snd hq.2).symm
    rw [hout, hps, looked_eq hlooked, turn_bytes h, turn_bytes h, halive, stamps_nil, stamps_nil]
    by_cases hsel : p.selected = .terminals
    · rw [attend_terminals hrecords A hsel, attend_terminals hrecords A hsel, hsilent hsel]
      rfl
    · rw [attend_other A hsel, attend_other A hsel]

theorem vterm_shutdown_unaffected_iff (h : Records s []) (answers : UInt16 → Answers)
    (stack : TunnelMsgH) :
    (∀ stack', (shutdown s answers stack').flatMap hotline =
      (shutdown s answers stack).flatMap hotline) ↔ ∀ c, find s.processes c = none := by
  simp only [vterm_shutdown_bytes h]
  rw [stamps_fixed_iff, farewell_eq_nil]

theorem initial_records (answer : TunnelMsgH) : Records (initial answer : State M) [] :=
  ⟨by simp [initial], by simp⟩

theorem vterm_independent_iff {answer : TunnelMsgH} {passes : List Pass} {trace : List Event}
    (hrun : Execution (Step A) (initial answer) passes trace s) (answers : UInt16 → Answers) :
    Independent (Step A) looked hotline (fun (s : State M) stack => shutdown s answers stack)
        (initial answer) passes ↔
      Execution (fun s p out s' => Step A s p out s' ∧ Idle s p) (initial answer) passes trace
          s ∧
        ∀ c, find s.processes c = none := by
  have hpreserved : ∀ (s : State M) p out u, Records s [] → Step A s p out u → Records u [] := by
    rintro s p out u h ⟨-, hturn⟩
    have hafter := turn_records A h p
    rwa [hturn] at hafter
  have hrecords := hrun.preserves hpreserved (initial_records answer)
  have hsteps : Execution (Unaffected (Step A) looked hotline) (initial answer) passes trace s ↔
      Execution (fun s p out s' => Step A s p out s' ∧ Idle s p) (initial answer) passes trace
        s :=
    unaffected_iff (I := fun s => Records s []) hpreserved
      (fun _ _ _ _ => turn_unaffected_iff) (initial_records answer)
  rw [(turn_visible A).independent_iff ⟨0, 0, 0, 0⟩ hrun,
    vterm_shutdown_unaffected_iff hrecords answers, hsteps]

end Vterm

/-! ### The FIFO and log services -/

/-- The bytes an event of the FIFO service puts on the hotline. -/
def shown : WfifoService.Event → List UInt8
  | .sent msg => encode msg
  | _ => []

theorem wfifo_shutdown_bytes (s : WfifoService.State M) (stack : TunnelMsgH) :
    (WfifoService.shutdown s stack).flatMap shown =
      stamps stack.channelId (farewell s.clients) ++
        encode (frame CHANNEL_CLOSE s.msg.channelId s.msg.clientId []) := by
  have hclosed : ((entries s.fifoHandles).flatMap fun n =>
      if 0 < n.2 then [WfifoService.Event.closed n.2] else []).flatMap shown = [] := by
    rw [List.flatMap_assoc, List.flatMap_eq_nil_iff]
    intro n _
    split <;> rfl
  rw [WfifoService.shutdown, List.flatMap_append, List.flatMap_append, hclosed, List.append_nil]
  simp [farewell, stamps, shown, List.flatMap_map]

theorem syslog_shutdown_bytes (s : SyslogService.State M) (stack : TunnelMsgH) :
    (SyslogService.shutdown s stack).flatMap encode =
      stamps stack.channelId (farewell s.clients) ++
        encode (frame CHANNEL_CLOSE s.msg.channelId s.msg.clientId []) := by
  rw [SyslogService.shutdown, List.flatMap_append]
  simp [farewell, stamps, List.flatMap_map]

/-! ### Whole runs -/

/-- From the channel answer to the end, what a service writes is fixed by its inputs exactly if
no frame is stamped: for broadcast, no client unsubscribes and none is left; for vterm, every
turn is idle and no terminal is left; for wfifo and syslog, no client is left. -/
theorem bytes_ignore_stack_iff :
    (∀ (A : Antd) answer inputs out (s : BroadcastService.State M) (request : TunnelMsgH),
      Execution (BroadcastService.Step A) (BroadcastService.initial A answer) inputs out s →
      (Independent (BroadcastService.Step A) seen encode
          (fun (s : BroadcastService.State M) stack =>
            BroadcastService.shutdown stack request s (entries s.clients))
          (BroadcastService.initial A answer) inputs ↔
        (∀ i ∈ inputs, i.request.header.type ≠ CHANNEL_UNSUBSCRIBE) ∧
          ∀ c, find s.clients c = none)) ∧
    (∀ (A : Antd) answer passes trace (s : VtermService.State M) answers,
      Execution (VtermService.Step A) (VtermService.initial answer) passes trace s →
      (Independent (VtermService.Step A) looked hotline
          (fun (s : VtermService.State M) stack => VtermService.shutdown s answers stack)
          (VtermService.initial answer) passes ↔
        Execution (fun s p out s' => VtermService.Step A s p out s' ∧ Idle s p)
            (VtermService.initial answer) passes trace s ∧
          ∀ c, find s.processes c = none)) ∧
    (∀ (A : Antd) x answer opening passes trace (s : WfifoService.State M),
      Execution (WfifoService.Step A x) (WfifoService.initial A x answer opening).1 passes trace
        s →
      (Independent (WfifoService.Step A x) id shown (WfifoService.shutdown (M := M))
          (WfifoService.initial A x answer opening).1 passes ↔
        ∀ c, find s.clients c = none)) ∧
    ∀ (A : Antd) answer passes out (s : SyslogService.State M),
      Execution (SyslogService.Step A) (SyslogService.initial answer) passes out s →
      (Independent (SyslogService.Step A) id encode (SyslogService.shutdown (M := M))
          (SyslogService.initial answer) passes ↔
        ∀ c, find s.clients c = none) := by
  refine ⟨fun A answer inputs out s request hrun => broadcast_independent_iff hrun request,
    fun A answer passes trace s answers hrun => vterm_independent_iff hrun answers,
    fun A x answer opening passes trace s hrun => ?_, fun A answer passes out s hrun => ?_⟩
  · rw [guarded_independent_iff ⟨0, 0, 0, 0⟩ hrun]
    simp only [wfifo_shutdown_bytes]
    exact (stamps_fixed_iff ⟨0, 0, 0, 0⟩).trans farewell_eq_nil
  · rw [guarded_independent_iff ⟨0, 0, 0, 0⟩ hrun]
    simp only [syslog_shutdown_bytes]
    exact (stamps_fixed_iff ⟨0, 0, 0, 0⟩).trans farewell_eq_nil

/-- Client 1 of the terminal service subscribes and leaves again. -/
theorem bytes_ignore_stack_iff_brief_visit :
    Independent (VtermService.Step firstByteHost) looked hotline
      (fun (s : VtermService.State AssocList) stack =>
        VtermService.shutdown s (fun _ => VtermSignals.childSeven 0) stack) VtermSignals.start
      [VtermSignals.quiet 0 7 (.message (.subscribe 1 97)),
        VtermSignals.quiet 0 7 (.message (.plain CHANNEL_UNSUBSCRIBE 1 []))] := by
  have hrun := execution_of_guardedRun VtermService.State.going (VtermService.turn firstByteHost)
    VtermSignals.start
    [VtermSignals.quiet 0 7 (.message (.subscribe 1 97)),
      VtermSignals.quiet 0 7 (.message (.plain CHANNEL_UNSUBSCRIBE 1 []))] (by decide +kernel)
  have hidle : ∀ (s : VtermService.State AssocList) i,
      Idle s (VtermSignals.quiet 0 7 (.message i)) :=
    fun s i => ⟨fun c _ => ⟨by simp [VtermSignals.quiet, VtermSignals.childSeven], le_refl 0⟩,
      fun h => by cases h⟩
  have hsteps := execution_of_meets VtermService.State.going (VtermService.turn firstByteHost) Idle
    VtermSignals.start
    [VtermSignals.quiet 0 7 (.message (.subscribe 1 97)),
      VtermSignals.quiet 0 7 (.message (.plain CHANNEL_UNSUBSCRIBE 1 []))] (by decide +kernel)
    ⟨hidle _ _, hidle _ _, trivial⟩
  refine (bytes_ignore_stack_iff.2.1 firstByteHost _ _ _ _ _ hrun).mpr
    ⟨hsteps, entries_eq_nil.mp (by decide +kernel)⟩

/-- Client 1 leaves a service whose stack holds this channel. -/
def leaver (channelId : UInt16) : Input :=
  { Input.unsubscribe 1 with stack := ⟨0, channelId, 0, 0⟩ }

/-- The answer to a client of the broadcast service carries channel 1 or channel 2. -/
theorem unsubscription_shows_stack :
    ¬ Independent (BroadcastService.Step firstByteHost) seen encode
      (fun (s : BroadcastService.State AssocList) stack =>
        BroadcastService.shutdown stack ⟨0, 1, 0, 0⟩ s (entries s.clients))
      (BroadcastService.initial firstByteHost BroadcastService.channelOk)
      [.subscribe 1 65, leaver 1] := by
  intro h
  obtain ⟨s, hs⟩ := BroadcastService.execution_of_outputs (M := AssocList) firstByteHost
    (BroadcastService.initial firstByteHost BroadcastService.channelOk)
    [.subscribe 1 65, leaver 1] [frame CHANNEL_UNSUBSCRIBE 1 1 []] (by decide +kernel)
  obtain ⟨s', hs'⟩ := BroadcastService.execution_of_outputs (M := AssocList) firstByteHost
    (BroadcastService.initial firstByteHost BroadcastService.channelOk)
    [.subscribe 1 65, leaver 2] [frame CHANNEL_UNSUBSCRIBE 2 1 []] (by decide +kernel)
  have hsame := h [.subscribe 1 65, leaver 1] [.subscribe 1 65, leaver 2] _ _ s s'
    (fun _ => ⟨0, 0, 0, 0⟩) (fun _ => ⟨0, 0, 0, 0⟩) rfl rfl hs hs'
  simp only [List.flatMap_append, List.flatMap_singleton] at hsame
  have hchannel := encode_channelId hsame
  revert hchannel
  decide

end StackContents
