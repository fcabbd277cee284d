import Mathlib.Logic.Function.Basic
import TunnelPublishers.VtermService

/-!
# The terminals of the clients

The terminal service without its tree and its heap: which client has which
terminal. What one look at a terminal or one message can do is said here once,
and a turn of the loop is taken apart into such moves.
-/
namespace VtermTerminals

open ByteOrder FiniteMaps FiniteMap TunnelFraming ExecutionTraces KernelTables VtermService

/-- The record of each client that has a terminal, with its place in the heap. -/
abbrev Terminals := UInt16 → Option (ℕ × VtermProc)

def master (d : Terminals) (c : UInt16) : Option ℤ := (d c).map fun r => r.2.fdm

/-- What `terminal_kill` does outside the process. -/
def killed (p : ℕ) (proc : VtermProc) (a : Answers) : List Event :=
  .closed proc.fdm :: .process (.kill proc.pid a.kill) ::
    (if a.kill = -1 then [] else [Event.process (.waitpid proc.pid false a.wait)]) ++ [.released p]

/-- A terminal is killed and its client told so. -/
def dismissed (p : ℕ) (proc : VtermProc) (c channelId : UInt16) (a : Answers) : List Event :=
  killed p proc a ++ .sent (frame CHANNEL_UNSUBSCRIBE channelId c []) ::
    if a.send then [] else [.stale p]

/-- One terminal in the pass that asks for exits. -/
inductive Poll (answers : UInt16 → Answers) : Terminals → List Event → Terminals → Prop where
  | alive {d c p proc} : d c = some (p, proc) → (answers c).poll ≠ -1 → (answers c).poll ≤ 0 →
      Poll answers d [.process (.waitpid proc.pid true (answers c).poll)] d
  | exited {d c p proc channelId} : d c = some (p, proc) →
      (answers c).poll = -1 ∨ (answers c).poll > 0 →
      Poll answers d
        (.process (.waitpid proc.pid true (answers c).poll) ::
          dismissed p proc c channelId (answers c))
        (Function.update d c none)

/-- One message. -/
inductive Handle (spawn : Spawn) (a : Answers) (i : Input) :
    Terminals → List Event → Terminals → Prop where
  | refused {d out} : i.request.header.type = CHANNEL_SUBSCRIBE →
      terminalNew spawn (cString i.memory) = (none, out) →
      Handle spawn a i d (out ++ [refuse i.request.header]) d
  /-- The tree may keep the terminal a client has already. -/
  | created {d d' p fdm pid out} : i.request.header.type = CHANNEL_SUBSCRIBE →
      terminalNew spawn (cString i.memory) = (some (fdm, pid), out) →
      (∀ c q proc, d c = some (q, proc) → q < p) →
      d' = Function.update d i.client (some (p, ⟨fdm, pid, i.client⟩)) ∨
        d i.client ≠ none ∧ d' = d →
      Handle spawn a i d out d'
  | left {d p proc} : i.request.header.type = CHANNEL_UNSUBSCRIBE →
      d i.client = some (p, proc) →
      Handle spawn a i d (killed p proc a) (Function.update d i.client none)
  | stranger {d} : i.request.header.type = CHANNEL_UNSUBSCRIBE → d i.client = none →
      Handle spawn a i d [] d
  | resized {d p proc row col} : i.request.header.type = CHANNEL_CTRL →
      d i.client = some (p, proc) → Handle spawn a i d [.resized proc.fdm row col] d
  | wrote {d p proc} : i.request.header.type = CHANNEL_DATA → d i.client = some (p, proc) →
      a.write ≠ -1 → Handle spawn a i d [.wrote proc.fdm i.request.payload a.write] d
  | broken {d p proc} : i.request.header.type = CHANNEL_DATA → d i.client = some (p, proc) →
      a.write = -1 →
      Handle spawn a i d
        (.wrote proc.fdm i.request.payload a.write :: killed p proc a ++
          [refuse i.request.header])
        (Function.update d i.client none)
  | unwritable {d} : i.request.header.type = CHANNEL_DATA → d i.client = none →
      Handle spawn a i d [refuse i.request.header] d
  | ignored {d} : i.request.header.type ≠ CHANNEL_SUBSCRIBE →
      i.request.header.type ≠ CHANNEL_UNSUBSCRIBE → i.request.header.type ≠ CHANNEL_DATA →
      Handle spawn a i d [] d

/-- One terminal in the pass over those that are ready. -/
inductive Watch (answers : UInt16 → Answers) : Terminals → List Event → Terminals → Prop where
  | silent {d c p proc} : d c = some (p, proc) →
      Watch answers d [.read proc.fdm (some [])] d
  | forwarded {d c p proc bytes channelId} : d c = some (p, proc) → bytes ≠ [] →
      bytes.length < 2 ^ 32 → (answers c).send = true →
      Watch answers d
        [.read proc.fdm (some bytes), .sent (frame CHANNEL_DATA channelId c bytes)] d
  | undelivered {d c p proc bytes channelId} : d c = some (p, proc) → bytes ≠ [] →
      bytes.length < 2 ^ 32 → (answers c).send = false →
      Watch answers d
        (.read proc.fdm (some bytes) :: .sent (frame CHANNEL_DATA channelId c bytes) ::
          killed p proc (answers c))
        (Function.update d c none)
  | failed {d c p proc} : d c = some (p, proc) → (answers c).ready = true →
      (answers c).read = none →
      Watch answers d (.read proc.fdm none :: killed p proc (answers c))
        (Function.update d c none)
  /-- The second release, after the pass. -/
  | freed {d} (p) : Watch answers d [.released p] d

/-- One terminal at shutdown. -/
inductive Quit (answers : UInt16 → Answers) : Terminals → List Event → Terminals → Prop where
  | quit {d c p proc channelId} : d c = some (p, proc) →
      Quit answers d (dismissed p proc c channelId (answers c)) (Function.update d c none)

theorem Watch.shrinks {answers : UInt16 → Answers} {d d' : Terminals} {out : List Event}
    (h : Watch answers d out d') {c : UInt16} (hc : d' c ≠ none) : d c ≠ none := by
  cases h with
  | silent | forwarded | freed => exact hc
  | @undelivered c' | @failed c' =>
    by_cases he : c = c'
    · simp [he] at hc
    · rwa [Function.update_of_ne he] at hc

/-- The creation fails, with or without an open master, or it gives the master and the pid. -/
theorem terminalNew_cases (a : Spawn) (user : List UInt8) :
    a.openpt < 0 ∧ terminalNew a user = (none, []) ∨
      ¬ a.openpt < 0 ∧ (a.grantpt ≠ 0 ∨ a.unlockpt ≠ 0) ∧
        terminalNew a user = (none, [.opened a.openpt]) ∨
      ¬ a.openpt < 0 ∧ ¬ (a.grantpt ≠ 0 ∨ a.unlockpt ≠ 0) ∧
        terminalNew a user = (some (a.openpt, a.fork),
          .opened a.openpt :: (if a.open < 0 then [] else [Event.opened a.open]) ++
            .process (.fork a.fork) ::
              if 0 < a.fork then [Event.login (loginCommand user)] else []) := by
  unfold terminalNew
  by_cases hopen : a.openpt < 0
  · exact .inl ⟨hopen, if_pos hopen⟩
  by_cases hgrant : a.grantpt ≠ 0
  · exact .inr (.inl ⟨hopen, .inl hgrant, by rw [if_neg hopen, if_pos hgrant]⟩)
  by_cases hunlock : a.unlockpt ≠ 0
  · exact .inr (.inl ⟨hopen, .inr hunlock, by rw [if_neg hopen, if_neg hgrant, if_pos hunlock]⟩)
  exact .inr (.inr ⟨hopen, not_or.mpr ⟨hgrant, hunlock⟩,
    by rw [if_neg hopen, if_neg hgrant, if_neg hunlock]⟩)

/-! ### Records in the middle of a traversal -/

variable {M : Type → Type → Type} [FiniteMap M]

def terminals (s : State M) : Terminals := fun c =>
  (find s.processes c).bind fun p => (s.heap[p]?.join).map fun proc => (p, proc)

/-- Nodes on the list have lost their records, every other node points to a record of its key. -/
structure Records (s : State M) (list : List (UInt16 × ℕ)) : Prop where
  live : ∀ c p, find s.processes c = some p → (c, p) ∉ list →
    ∃ proc, s.heap[p]?.join = some proc ∧ proc.cid = c
  gone : ∀ c p, (c, p) ∈ list → s.heap[p]?.join = none

section Killing

variable {s : State M} {list : List (UInt16 × ℕ)} {c : UInt16} {p : ℕ} {proc : VtermProc}

theorem terminals_eq_some :
    terminals s c = some (p, proc) ↔
      find s.processes c = some p ∧ s.heap[p]?.join = some proc := by
  simp only [terminals, Option.bind_eq_some_iff, Option.map_eq_some_iff, Prod.mk.injEq]
  constructor
  · rintro ⟨q, hf, proc', hproc, rfl, rfl⟩
    exact ⟨hf, hproc⟩
  · rintro ⟨hf, hproc⟩
    exact ⟨p, hf, proc, hproc, rfl, rfl⟩

theorem terminals_eq_none (h : Records s []) :
    terminals s c = none ↔ find s.processes c = none := by
  cases hf : find s.processes c with
  | none => simp [terminals, hf]
  | some p =>
    obtain ⟨proc, hproc, -⟩ := h.live c p hf (by simp)
    simp [terminals, hf, hproc]

theorem terminals_isSome (h : Records s []) :
    (terminals s c).isSome = (find s.processes c).isSome := by
  have hnone := terminals_eq_none h (c := c)
  cases hf : find s.processes c with
  | none =>
    rw [hnone.mpr hf]
    rfl
  | some p =>
    rw [hf] at hnone
    simpa [Option.isSome_iff_ne_none] using hnone

/-- Two nodes with records have different ones, since a record knows its key. -/
theorem Records.apart (h : Records s list) (hf : find s.processes c = some p) (hn : (c, p) ∉ list)
    {c' : UInt16} {p' : ℕ} (hf' : find s.processes c' = some p') (hne : c' ≠ c)
    (hlive : s.heap[p']?.join ≠ none) : p' ≠ p := by
  rintro rfl
  obtain ⟨proc, hproc, hcid⟩ := h.live c p' hf hn
  have hn' : (c', p') ∉ list := fun hg => hlive (h.gone c' p' hg)
  obtain ⟨proc', hproc', hcid'⟩ := h.live c' p' hf' hn'
  rw [hproc, Option.some.injEq] at hproc'
  subst hproc'
  exact hne (hcid'.symm.trans hcid)

theorem join_set_none (heap : List (Option VtermProc)) (p q : ℕ) :
    ((heap.set p none)[q]?).join = if q = p then none else heap[q]?.join := by
  by_cases hq : q = p
  · subst hq
    rw [if_pos rfl, List.getElem?_set_self']
    cases heap[q]? <;> rfl
  · rw [if_neg hq, List.getElem?_set_ne (Ne.symm hq)]

theorem Records.kill (h : Records s list) (hf : find s.processes c = some p)
    (hn : (c, p) ∉ list) :
    Records { s with heap := s.heap.set p none } (list ++ [(c, p)]) where
  live c' p' hf' hn' := by
    simp only [List.mem_append, List.mem_singleton, not_or] at hn'
    obtain ⟨proc', hproc', hcid'⟩ := h.live c' p' hf' hn'.1
    have hne : c' ≠ c := by
      rintro rfl
      rw [hf, Option.some.injEq] at hf'
      exact hn'.2 (by rw [hf'])
    have hp := h.apart hf hn hf' hne (by rw [hproc']; simp)
    exact ⟨proc', by rw [join_set_none, if_neg hp]; exact hproc', hcid'⟩
  gone c' p' hg := by
    rw [join_set_none]
    split
    · rfl
    · next hp =>
      rcases List.mem_append.mp hg with hg | hg
      · exact h.gone c' p' hg
      · exact (hp (Prod.mk.inj (List.mem_singleton.mp hg)).2).elim

/-- Killing a terminal takes it from its client and from no other. -/
theorem terminals_kill (h : Records s list) (hf : find s.processes c = some p)
    (hn : (c, p) ∉ list) :
    terminals { s with heap := s.heap.set p none } = Function.update (terminals s) c none := by
  funext c'
  by_cases hc : c' = c
  · subst hc
    simp [terminals, hf, join_set_none]
  · rw [Function.update_of_ne hc]
    cases hf' : find s.processes c' with
    | none => simp [terminals, hf']
    | some p' =>
      by_cases hlive : s.heap[p']?.join = none
      · simp [terminals, hf', join_set_none, hlive]
      · simp [terminals, hf', join_set_none, h.apart hf hn hf' hc hlive]

theorem find_deleteNodes (list : List (UInt16 × ℕ)) (c : UInt16) :
    find (deleteNodes s list).processes c =
      if c ∈ list.map Prod.fst then none else find s.processes c := by
  induction list generalizing s with
  | nil => simp [deleteNodes]
  | cons n list ih =>
    have hrest := ih (s := { s with processes := delete s.processes n.1 })
    simp only [deleteNodes, List.foldl_cons] at hrest ⊢
    rw [hrest, find_delete]
    by_cases hc : c ∈ list.map Prod.fst <;> by_cases hn : c = n.1 <;> simp [hc, hn]

/-- What is left after the nodes on the list are deleted too. -/
theorem Records.delete (h : Records s list)
    (hlist : ∀ n ∈ list, find s.processes n.1 = some n.2) :
    Records (deleteNodes s list) [] ∧ terminals (deleteNodes s list) = terminals s := by
  have hgone : ∀ c, c ∈ list.map Prod.fst → terminals s c = none := by
    intro c hc
    obtain ⟨n, hn, rfl⟩ := List.mem_map.mp hc
    simp [terminals, hlist n hn, h.gone n.1 n.2 hn]
  refine ⟨⟨?_, by simp⟩, ?_⟩
  · intro c p hf _
    rw [find_deleteNodes] at hf
    split at hf
    · cases hf
    · next hc =>
      exact h.live c p hf fun hn => hc (List.mem_map.mpr ⟨(c, p), hn, rfl⟩)
  · funext c
    by_cases hc : c ∈ list.map Prod.fst
    · rw [hgone c hc, terminals, find_deleteNodes, if_pos hc]
      rfl
    · rw [terminals, find_deleteNodes, if_neg hc]
      rfl

omit [FiniteMap M] in
theorem foldl_release (hgone : ∀ n ∈ list, s.heap[n.2]?.join = none) :
    list.foldl release s = { s with intact := s.intact && list.isEmpty } := by
  induction list generalizing s with
  | nil => simp
  | cons n list ih =>
    obtain ⟨hn, hrest⟩ := List.forall_mem_cons.mp hgone
    have hfirst : release s n = { s with intact := false } := by simp only [release, hn]
    have hlater := ih (s := { s with intact := false }) hrest
    rw [List.foldl_cons, hfirst, hlater]
    simp

/-- The records of listed nodes are gone, so that freeing one is the second time. -/
theorem Records.free (h : Records s list) :
    list.foldl release (deleteNodes s list) =
      { deleteNodes s list with intact := s.intact && list.isEmpty } :=
  foldl_release fun n hn => h.gone n.1 n.2 hn

end Killing

/-! ### The two traversals -/

theorem terminalKill_live {s : State M} {c : UInt16} {p : ℕ} {proc : VtermProc}
    (hf : find s.processes c = some p) (hproc : s.heap[p]?.join = some proc) (a : Answers)
    (shouldDelete : Bool) :
    terminalKill s a c shouldDelete =
      ({ s with
          heap := s.heap.set p none
          processes := if shouldDelete then delete s.processes c else s.processes },
        killed p proc a) := by
  simp only [terminalKill, hf, hproc, killed]

theorem unsubscribe_live (answers : UInt16 → Answers) (stack : TunnelMsgH) {s : State M}
    {c : UInt16} {p : ℕ} {proc : VtermProc} (hf : find s.processes c = some p)
    (hproc : s.heap[p]?.join = some proc) (hcid : proc.cid = c) :
    unsubscribe answers stack s (c, p) =
      ({ s with heap := s.heap.set p none },
        dismissed p proc c stack.channelId (answers c)) := by
  subst hcid
  simp only [unsubscribe, hproc, terminalKill_live hf hproc]
  rfl

/-- A callback whose visit to a node is a run of moves, and which lists the nodes it kills. -/
def Attends (R : Terminals → List Event → Terminals → Prop)
    (f : State M × List (UInt16 × ℕ) → UInt16 × ℕ →
      (State M × List (UInt16 × ℕ)) × List Event) : Prop :=
  ∀ s list c p proc, Records s list → (c, p) ∉ list → find s.processes c = some p →
    s.heap[p]?.join = some proc → proc.cid = c →
    Runs R (terminals s) (f (s, list) (c, p)).2 (terminals (f (s, list) (c, p)).1.1) ∧
      ((f (s, list) (c, p)).1 = (s, list) ∨
        (f (s, list) (c, p)).1 = ({ s with heap := s.heap.set p none }, list ++ [(c, p)]))

theorem setSockFd_attends (answers : UInt16 → Answers) (stack : TunnelMsgH) :
    Attends (Poll answers) (setSockFd (M := M) answers stack) := by
  intro s list c p proc h hn hf hproc hcid
  have hd : terminals s c = some (p, proc) := terminals_eq_some.mpr ⟨hf, hproc⟩
  by_cases hw : (answers c).poll = -1 ∨ (answers c).poll > 0
  · have hx : setSockFd answers stack (s, list) (c, p) =
        (({ s with heap := s.heap.set p none }, list ++ [(c, p)]),
          .process (.waitpid proc.pid true (answers c).poll) ::
            dismissed p proc c stack.channelId (answers c)) := by
      simp only [setSockFd, hproc, hw, ↓reduceIte, unsubscribe_live answers stack hf hproc hcid]
    rw [hx]
    refine ⟨?_, .inr rfl⟩
    rw [terminals_kill h hf hn]
    exact .single (.exited hd hw)
  · have hx : setSockFd answers stack (s, list) (c, p) =
        ((s, list), [.process (.waitpid proc.pid true (answers c).poll)]) := by
      simp only [setSockFd, hproc, hw, ↓reduceIte]
    rw [hx]
    rw [not_or, not_lt] at hw
    exact ⟨.single (.alive hd hw.1 hw.2), .inl rfl⟩

theorem terminalMonitor_attends (A : Antd) (answers : UInt16 → Answers) (stack : TunnelMsgH) :
    Attends (Watch answers) (terminalMonitor (M := M) A answers stack) := by
  intro s list c p proc h hn hf hproc _
  have hd : terminals s c = some (p, proc) := terminals_eq_some.mpr ⟨hf, hproc⟩
  have hkill := terminalKill_live hf hproc (answers c) false
  simp only [Bool.false_eq_true, ↓reduceIte] at hkill
  simp only [terminalMonitor, hproc]
  cases hready : (answers c).ready with
  | false => exact ⟨.refl _, .inl rfl⟩
  | true =>
    cases hread : (answers c).read with
    | none =>
      simp only [↓reduceIte, hkill]
      refine ⟨?_, .inr trivial⟩
      rw [terminals_kill h hf hn]
      exact .single (.failed hd hready hread)
    | some bytes =>
      by_cases hbytes : bytes.take A.BUFFLEN = []
      · simp only [↓reduceIte, hbytes]
        exact ⟨.single (.silent hd), .inl trivial⟩
      · have hsmall := A.take_small bytes
        cases hsend : (answers c).send with
        | true =>
          simp only [↓reduceIte, hbytes]
          exact ⟨.single (.forwarded hd hbytes hsmall hsend), .inl trivial⟩
        | false =>
          simp only [↓reduceIte, hbytes, Bool.false_eq_true, hkill]
          refine ⟨?_, .inr trivial⟩
          rw [terminals_kill h hf hn]
          exact .single (.undelivered hd hbytes hsmall hsend)

/-- A traversal with the nodes listed so far and the nodes still to visit. -/
structure Visiting (s : State M) (list visit : List (UInt16 × ℕ)) : Prop where
  records : Records s list
  listed : ∀ n ∈ list, find s.processes n.1 = some n.2
  nodup : visit.Nodup
  ahead : ∀ n ∈ visit, find s.processes n.1 = some n.2 ∧ n ∉ list

theorem Records.visiting {s : State M} (h : Records s []) :
    Visiting s [] (entries s.processes) where
  records := h
  listed := by simp
  nodup := nodup_entries s.processes
  ahead n hn := ⟨mem_entries.mp hn, by simp⟩

/-- The next node to visit has a record, and has not been listed. -/
theorem Visiting.head {s : State M} {list visit : List (UInt16 × ℕ)} {c : UInt16} {p : ℕ}
    (h : Visiting s list ((c, p) :: visit)) :
    find s.processes c = some p ∧ (c, p) ∉ list ∧
      ∃ proc, s.heap[p]?.join = some proc ∧ proc.cid = c := by
  obtain ⟨hfind, hout⟩ := h.ahead (c, p) List.mem_cons_self
  obtain ⟨proc, hproc, hcid⟩ := h.records.live c p hfind hout
  exact ⟨hfind, hout, proc, hproc, hcid⟩

section Visits

variable {R : Terminals → List Event → Terminals → Prop}
  {f : State M × List (UInt16 × ℕ) → UInt16 × ℕ → (State M × List (UInt16 × ℕ)) × List Event}
  {s : State M} {list visit : List (UInt16 × ℕ)}

theorem Attends.next (hf : Attends R f) {n : UInt16 × ℕ} (h : Visiting s list (n :: visit)) :
    Visiting (f (s, list) n).1.1 (f (s, list) n).1.2 visit := by
  obtain ⟨c, p⟩ := n
  obtain ⟨hn, hrest⟩ := List.nodup_cons.mp h.nodup
  obtain ⟨hfind, hout, proc, hproc, hcid⟩ := h.head
  rcases (hf s list c p proc h.records hout hfind hproc hcid).2 with hx | hx
  · rw [hx]
    exact ⟨h.records, h.listed, hrest, fun m hm => h.ahead m (List.mem_cons_of_mem _ hm)⟩
  · rw [hx]
    refine ⟨h.records.kill hfind hout, fun m hm => ?_, hrest, fun m hm => ?_⟩
    · rcases List.mem_append.mp hm with hm | hm
      · exact h.listed m hm
      · rw [List.mem_singleton.mp hm]
        exact hfind
    · obtain ⟨hmf, hml⟩ := h.ahead m (List.mem_cons_of_mem _ hm)
      refine ⟨hmf, ?_⟩
      simp only [List.mem_append, List.mem_singleton, not_or]
      exact ⟨hml, fun he => hn (he ▸ hm)⟩

theorem visitAll_attends (hf : Attends R f) (h : Visiting s list visit) :
    Runs R (terminals s) (visitAll f (s, list) visit).2
        (terminals (visitAll f (s, list) visit).1.1) ∧
      Visiting (visitAll f (s, list) visit).1.1 (visitAll f (s, list) visit).1.2 [] := by
  induction visit generalizing s list with
  | nil => exact ⟨.refl _, h⟩
  | cons n visit ih =>
    obtain ⟨c, p⟩ := n
    obtain ⟨hfind, hout, proc, hproc, hcid⟩ := h.head
    have hrun := (hf s list c p proc h.records hout hfind hproc hcid).1
    obtain ⟨hrest, hlast⟩ := ih (hf.next h)
    exact ⟨hrun.trans hrest, hlast⟩

/-- What an observer sees of a traversal is what it sees of each node. -/
theorem visitAll_observed {β : Type} {obs : Event → List β} {g : UInt16 × ℕ → List β}
    (hf : Attends R f)
    (hg : ∀ s list c p proc, find s.processes c = some p → s.heap[p]?.join = some proc →
      proc.cid = c → (f (s, list) (c, p)).2.flatMap obs = g (c, p))
    (h : Visiting s list visit) :
    (visitAll f (s, list) visit).2.flatMap obs = visit.flatMap g := by
  induction visit generalizing s list with
  | nil => rfl
  | cons n visit ih =>
    obtain ⟨c, p⟩ := n
    obtain ⟨hfind, hout, proc, hproc, hcid⟩ := h.head
    have hhead := hg s list c p proc hfind hproc hcid
    have hrest := ih (hf.next h)
    simp only [visitAll, List.flatMap_append, List.flatMap_cons, hhead, hrest]

end Visits

theorem monitorProcesses_polls {s : State M} (h : Records s []) (p : Pass) :
    Runs (Poll p.answers) (terminals s) (monitorProcesses s p).2
        (terminals (monitorProcesses s p).1) ∧
      Records (monitorProcesses s p).1 [] := by
  obtain ⟨hrun, hlast⟩ := visitAll_attends (setSockFd_attends p.answers p.stack) h.visiting
  obtain ⟨hafter, hsame⟩ := hlast.records.delete hlast.listed
  refine ⟨?_, hafter⟩
  rw [← hsame] at hrun
  exact hrun

theorem monitorTerminals_watches (A : Antd) {s : State M} (h : Records s []) (p : Pass) :
    Runs (Watch p.answers) (terminals s) (monitorTerminals A s p).2
        (terminals (monitorTerminals A s p).1) ∧
      Records (monitorTerminals A s p).1 [] := by
  obtain ⟨hrun, hlast⟩ := visitAll_attends (terminalMonitor_attends A p.answers p.stack) h.visiting
  obtain ⟨hafter, hsame⟩ := hlast.records.delete hlast.listed
  simp only [monitorTerminals, hlast.records.free]
  refine ⟨?_, hafter.live, hafter.gone⟩
  rw [← hsame] at hrun
  refine hrun.trans (.stay fun e he => ?_)
  obtain ⟨n, -, rfl⟩ := List.mem_map.mp he
  exact .freed n.2

/-- A visit of the sweep at shutdown, with the nodes visited so far. -/
def sweepNode (answers : UInt16 → Answers) (stack : TunnelMsgH)
    (x : State M × List (UInt16 × ℕ)) (n : UInt16 × ℕ) :
    (State M × List (UInt16 × ℕ)) × List Event :=
  (((unsubscribe answers stack x.1 n).1, x.2 ++ [n]), (unsubscribe answers stack x.1 n).2)

theorem sweepNode_attends (answers : UInt16 → Answers) (stack : TunnelMsgH) :
    Attends (Quit answers) (sweepNode (M := M) answers stack) := by
  intro s list c p proc h hn hf hproc hcid
  have hd : terminals s c = some (p, proc) := terminals_eq_some.mpr ⟨hf, hproc⟩
  simp only [sweepNode, unsubscribe_live answers stack hf hproc hcid]
  refine ⟨?_, .inr trivial⟩
  rw [terminals_kill h hf hn]
  exact .single (.quit hd)

theorem visitAll_sweepNode (answers : UInt16 → Answers) (stack : TunnelMsgH) (s : State M)
    (list visit : List (UInt16 × ℕ)) :
    (visitAll (sweepNode answers stack) (s, list) visit).2 =
      (visitAll (unsubscribe answers stack) s visit).2 := by
  induction visit generalizing s list with
  | nil => rfl
  | cons n visit ih =>
    simp only [visitAll, sweepNode] at ih ⊢
    rw [← ih]

/-- The shutdown is a run of moves and the CLOSE message. -/
theorem shutdown_quits {s : State M} (h : Records s []) (answers : UInt16 → Answers)
    (stack : TunnelMsgH) : ∃ out d', Runs (Quit answers) (terminals s) out d' ∧
      shutdown s answers stack =
        out ++ [.sent (frame CHANNEL_CLOSE s.msg.channelId s.msg.clientId [])] := by
  have hrun := (visitAll_attends (sweepNode_attends answers stack) h.visiting).1
  rw [visitAll_sweepNode] at hrun
  exact ⟨_, _, hrun, rfl⟩

/-- What happens at the exit happens in the shutdown. -/
theorem mem_exit {s : State M} {answers : UInt16 → Answers} {stack : TunnelMsgH} {e : Event}
    (h : e ∈ exit s answers stack) : e ∈ shutdown s answers stack := by
  unfold exit at h
  split at h
  · exact h
  · cases h

theorem exit_quits {s : State M} (h : Records s []) (answers : UInt16 → Answers)
    (stack : TunnelMsgH) : ∃ out d' last, Runs (Quit answers) (terminals s) out d' ∧
      exit s answers stack = out ++ last ∧
      ∀ e ∈ last, e = .sent (frame CHANNEL_CLOSE s.msg.channelId s.msg.clientId []) := by
  unfold exit
  split
  · obtain ⟨out, d', hrun, hout⟩ := shutdown_quits h answers stack
    exact ⟨out, d', _, hrun, hout, by simp⟩
  · exact ⟨[], _, [], .refl _, rfl, by simp⟩

/-! ### One message -/

theorem lt_of_live {heap : List (Option VtermProc)} {p : ℕ} {proc : VtermProc}
    (h : heap[p]?.join = some proc) : p < heap.length := by
  by_contra hge
  simp [List.getElem?_eq_none (not_lt.mp hge)] at h

section Creating

variable {s : State M} {c : UInt16} {proc : VtermProc}

/-- The state after a new record and its insertion, whichever node the tree shows. -/
theorem Records.create (h : Records s []) (hcid : proc.cid = c) :
    Records { s with heap := s.heap ++ [some proc],
                     processes := insert s.processes c s.heap.length } [] where
  live c' p hf _ := by
    rcases find_insert_some hf with he | hf
    · obtain ⟨rfl, rfl⟩ := Prod.mk.inj he
      exact ⟨proc, by simp, hcid⟩
    · obtain ⟨proc', hproc', hcid'⟩ := h.live c' p hf (by simp)
      refine ⟨proc', ?_, hcid'⟩
      rw [List.getElem?_append_left (lt_of_live hproc')]
      exact hproc'
  gone := by simp

theorem terminals_create (h : Records s []) :
    terminals { s with heap := s.heap ++ [some proc],
                       processes := insert s.processes c s.heap.length } =
        Function.update (terminals s) c (some (s.heap.length, proc)) ∨
      terminals s c ≠ none ∧
        terminals { s with heap := s.heap ++ [some proc],
                           processes := insert s.processes c s.heap.length } = terminals s := by
  -- Nodes the tree had before keep their records.
  have hold : ∀ c' p, find s.processes c' = some p →
      ((s.heap ++ [some proc])[p]?).join = s.heap[p]?.join := by
    intro c' p hf
    obtain ⟨proc', hproc', -⟩ := h.live c' p hf (by simp)
    rw [List.getElem?_append_left (lt_of_live hproc')]
  have hother : ∀ c', c' ≠ c →
      terminals { s with heap := s.heap ++ [some proc],
                         processes := insert s.processes c s.heap.length } c' =
        terminals s c' := by
    intro c' hc
    simp only [terminals, find_insert_ne s.processes s.heap.length hc]
    cases hf : find s.processes c' with
    | none => rfl
    | some p => simp [hold c' p hf]
  have hnew : find (insert s.processes c s.heap.length) c = some s.heap.length →
      terminals { s with heap := s.heap ++ [some proc],
                         processes := insert s.processes c s.heap.length } =
        Function.update (terminals s) c (some (s.heap.length, proc)) := by
    intro hf
    funext c'
    by_cases hc : c' = c
    · subst hc
      simp [terminals, hf]
    · rw [hother c' hc, Function.update_of_ne hc]
  cases hf : find s.processes c with
  | none => exact .inl (hnew (find_insert_absent _ hf))
  | some p =>
    rcases find_insert_present s.heap.length hf with hi | hi
    · exact .inl (hnew hi)
    · refine .inr ⟨by rw [Ne, terminals_eq_none h, hf]; simp, ?_⟩
      funext c'
      by_cases hc : c' = c
      · subst hc
        simp [terminals, hi, hf, hold c' p hf]
      · exact hother c' hc

end Creating

theorem channelSubscribe_handles {s : State M} (h : Records s []) (p : Pass) (i : Input)
    (htype : i.request.header.type = CHANNEL_SUBSCRIBE) :
    Handle p.spawn (p.answers i.client) i (terminals s) (channelSubscribe s p i).2
        (terminals (channelSubscribe s p i).1) ∧
      Records (channelSubscribe s p i).1 [] := by
  rcases hterm : terminalNew p.spawn (cString i.memory) with ⟨_ | ⟨fdm, pid⟩, out⟩
  · simp only [channelSubscribe, hterm]
    exact ⟨.refused htype hterm, h⟩
  · simp only [channelSubscribe, hterm]
    refine ⟨.created htype hterm ?_ (terminals_create h), h.create rfl⟩
    intro c q proc hd
    exact lt_of_live (terminals_eq_some.mp hd).2

/-- A kill with deletion, at the head of the loop. -/
theorem terminalKill_delete {s : State M} (h : Records s []) {c : UInt16} {p : ℕ}
    {proc : VtermProc} (hd : terminals s c = some (p, proc)) (a : Answers) :
    (terminalKill s a c true).2 = killed p proc a ∧
      terminals (terminalKill s a c true).1 = Function.update (terminals s) c none ∧
      Records (terminalKill s a c true).1 [] := by
  obtain ⟨hf, hproc⟩ := terminals_eq_some.mp hd
  have hlist : ∀ n ∈ [(c, p)], find s.processes n.1 = some n.2 := by simpa using hf
  obtain ⟨hrecords, hsame⟩ := (h.kill hf (by simp)).delete hlist
  rw [terminalKill_live hf hproc a true]
  refine ⟨rfl, ?_, hrecords⟩
  rw [← terminals_kill h hf (by simp)]
  exact hsame

theorem terminalKill_absent {s : State M} (h : Records s []) {c : UInt16}
    (hd : terminals s c = none) (a : Answers) : terminalKill s a c true = (s, []) := by
  simp only [terminalKill, (terminals_eq_none h).mp hd]

theorem channelUnsubscribe_handles {s : State M} (h : Records s []) (p : Pass) (i : Input)
    (htype : i.request.header.type = CHANNEL_UNSUBSCRIBE) :
    Handle p.spawn (p.answers i.client) i (terminals s)
        (terminalKill s (p.answers i.client) i.client true).2
        (terminals (terminalKill s (p.answers i.client) i.client true).1) ∧
      Records (terminalKill s (p.answers i.client) i.client true).1 [] := by
  rcases hd : terminals s i.client with _ | ⟨q, proc⟩
  · rw [terminalKill_absent h hd]
    exact ⟨.stranger htype hd, h⟩
  · obtain ⟨hout, hafter, hrecords⟩ := terminalKill_delete h hd (p.answers i.client)
    rw [hout, hafter]
    exact ⟨.left htype hd, hrecords⟩

theorem channelCtrl_handles {s : State M} (h : Records s []) (p : Pass) (i : Input)
    (htype : i.request.header.type = CHANNEL_CTRL) :
    Handle p.spawn (p.answers i.client) i (terminals s) (channelCtrl s p i).2
        (terminals (channelCtrl s p i).1) ∧
      Records (channelCtrl s p i).1 [] := by
  have hquiet : Handle p.spawn (p.answers i.client) i (terminals s) [] (terminals s) :=
    .ignored (by rw [htype]; decide) (by rw [htype]; decide) (by rw [htype]; decide)
  unfold channelCtrl
  by_cases hsize : i.size = 8
  · simp only [hsize, ↓reduceIte]
    refine ⟨?_, h⟩
    rcases hd : terminals s i.client with _ | ⟨q, proc⟩
    · simpa only [terminalResize, (terminals_eq_none h).mp hd] using hquiet
    · obtain ⟨hf, hproc⟩ := terminals_eq_some.mp hd
      simp only [terminalResize, hf, hproc]
      split
      · exact hquiet
      · exact .resized htype hd
      · exact .resized htype hd
  · simp only [hsize, ↓reduceIte]
    exact ⟨hquiet, h⟩

theorem channelData_handles {s : State M} (h : Records s []) (p : Pass) (i : Input)
    (htype : i.request.header.type = CHANNEL_DATA) :
    Handle p.spawn (p.answers i.client) i (terminals s) (channelData s p i).2
        (terminals (channelData s p i).1) ∧
      Records (channelData s p i).1 [] := by
  rcases hd : terminals s i.client with _ | ⟨q, proc⟩
  · have hwrite : terminalWrite s (p.answers i.client) i.request = (-1, []) := by
      simp only [terminalWrite, show i.request.header.clientId = i.client from rfl,
        (terminals_eq_none h).mp hd]
    simp only [channelData, hwrite, ↓reduceIte, terminalKill_absent h hd, List.nil_append]
    exact ⟨.unwritable htype hd, h⟩
  · obtain ⟨hf, hproc⟩ := terminals_eq_some.mp hd
    have hwrite : terminalWrite s (p.answers i.client) i.request =
        (if (p.answers i.client).write = -1 then -1 else 0,
          [.wrote proc.fdm i.request.payload (p.answers i.client).write]) := by
      simp only [terminalWrite, show i.request.header.clientId = i.client from rfl, hf, hproc]
    by_cases hfail : (p.answers i.client).write = -1
    · obtain ⟨hout, hafter, hrecords⟩ := terminalKill_delete h hd (p.answers i.client)
      simp only [channelData, hwrite, hfail, ↓reduceIte, hout, hafter]
      refine ⟨?_, hrecords⟩
      rw [← hfail]
      exact .broken htype hd hfail
    · simp only [channelData, hwrite, hfail, ↓reduceIte]
      exact ⟨.wrote htype hd hfail, h⟩

theorem handleMessage_handles {s : State M} (h : Records s []) (p : Pass) (i : Input) :
    Handle p.spawn (p.answers i.client) i (terminals s) (handleMessage s p i).2
        (terminals (handleMessage s p i).1) ∧
      Records (handleMessage s p i).1 [] := by
  unfold handleMessage
  dsimp only
  split_ifs with hsub hun hctrl hdata
  · exact channelSubscribe_handles h p i hsub
  · exact channelUnsubscribe_handles h p i hun
  · exact channelCtrl_handles h p i hctrl
  · exact channelData_handles h p i hdata
  · exact ⟨.ignored hsub hun hdata, h⟩

/-! ### Turns and their logs -/

/-- A message arrives, while this is the master of its client's terminal, or an event happens. -/
inductive Act where
  | received (msg : TunnelMsg) (master : Option ℤ)
  | did (event : Event)
  deriving DecidableEq, Repr

def events (acts : List Act) : List Event :=
  acts.filterMap fun
    | .did event => some event
    | .received _ _ => none

theorem events_append (a b : List Act) : events (a ++ b) = events a ++ events b :=
  List.filterMap_append

@[simp] theorem events_did (out : List Event) : events (out.map .did) = out := by
  simp [events, List.filterMap_map]

@[simp] theorem events_received (msg : TunnelMsg) (registered : Option ℤ) (acts : List Act) :
    events (.received msg registered :: acts) = events acts :=
  rfl

/-- A turn after the poll for exits. -/
def attend (A : Antd) (s : State M) (p : Pass) : State M × List Event :=
  match p.selected with
  | .failed => ({ s with running := false }, [])
  | .timeout => (s, [])
  | .unreadable left => ({ s with msg := left, running := false }, [])
  | .message i => handleMessage { s with msg := i.request.header } p i
  | .terminals => monitorTerminals A s p

theorem turn_eq (A : Antd) (s : State M) (p : Pass) :
    turn A s p =
      ({ (attend A (monitorProcesses s p).1 p).1 with
          running := (attend A (monitorProcesses s p).1 p).1.running && !p.interrupted },
        (monitorProcesses s p).2 ++ (attend A (monitorProcesses s p).1 p).2) := by
  unfold turn attend
  cases p.selected <;> rfl

theorem attend_records (A : Antd) {s : State M} (h : Records s []) (p : Pass) :
    Records (attend A s p).1 [] := by
  simp only [attend]
  cases p.selected with
  | failed | timeout | unreadable => exact ⟨h.live, h.gone⟩
  | message i =>
    exact (handleMessage_handles (s := { s with msg := i.request.header }) ⟨h.live, h.gone⟩ p i).2
  | terminals => exact (monitorTerminals_watches A h p).2

theorem turn_records (A : Antd) {s : State M} (h : Records s []) (p : Pass) :
    Records (turn A s p).1 [] := by
  have hattend := attend_records A (monitorProcesses_polls h p).2 p
  rw [turn_eq]
  exact ⟨hattend.live, hattend.gone⟩

def receipt (d : Terminals) : Selected → List Act
  | .message i => [.received i.request (master d i.client)]
  | _ => []

/-- What happens in a turn, in order. -/
def log (A : Antd) (s : State M) (p : Pass) : List Act :=
  (monitorProcesses s p).2.map .did ++
    (receipt (terminals (monitorProcesses s p).1) p.selected ++
      (attend A (monitorProcesses s p).1 p).2.map .did)

theorem events_log (A : Antd) (s : State M) (p : Pass) : events (log A s p) = (turn A s p).2 := by
  have hreceipt : events (receipt (terminals (monitorProcesses s p).1) p.selected) = [] := by
    cases p.selected <;> rfl
  rw [log, events_append, events_append, events_did, events_did, hreceipt, turn_eq]
  rfl

abbrev Logged (A : Antd) : State M → Pass → List Act → State M → Prop :=
  Guarded State.going fun s p => ((turn A s p).1, log A s p)

/-- Logged runs are runs of the loop. -/
theorem execution_events {A : Antd} {s s' : State M} {passes : List Pass} {acts : List Act}
    (h : Execution (Logged A) s passes acts s') :
    Execution (Step A) s passes (events acts) s' :=
  h.unlogged (events_log A)

/-- Every run of the loop has a log with its events. -/
theorem execution_logged {A : Antd} {s s' : State M} {passes : List Pass} {trace : List Event}
    (h : Execution (Step A) s passes trace s') :
    ∃ acts, Execution (Logged A) s passes acts s' ∧ events acts = trace :=
  h.logged (events_log A)

/-- An invariant of terminals and logs, with what each kind of move has to preserve. `C` is what
every turn is assumed to meet. -/
structure Preserved (C : State M → Pass → Prop) (I : Terminals → List Act → Prop) : Prop where
  poll : ∀ s p d past out d', C s p → I d past → Poll p.answers d out d' →
    I d' (past ++ out.map .did)
  handle : ∀ s p i past out d', C s p → p.selected = .message i → Records s [] →
    I (terminals (monitorProcesses s p).1) past →
    Handle p.spawn (p.answers i.client) i (terminals (monitorProcesses s p).1) out d' →
    I d' (past ++ .received i.request
      (master (terminals (monitorProcesses s p).1) i.client) :: out.map .did)
  watch : ∀ s p d past out d', C s p → p.selected = .terminals → Records s [] →
    (∀ c, d c ≠ none → terminals (monitorProcesses s p).1 c ≠ none) → I d past →
    Watch p.answers d out d' → I d' (past ++ out.map .did)

section Invariants

variable {C : State M → Pass → Prop} {I : Terminals → List Act → Prop} {s : State M}

/-- Runs of moves whose events are logged. -/
theorem Runs.logged {R : Terminals → List Event → Terminals → Prop}
    {J : Terminals → List Act → Prop}
    (hJ : ∀ d past out d', J d past → R d out d' → J d' (past ++ out.map .did))
    {d d' : Terminals} {out : List Event} (h : Runs R d out d') {past : List Act} (hd : J d past) :
    J d' (past ++ out.map .did) := by
  induction h with
  | refl => simpa using hd
  | tail _ hstep ih =>
    rw [List.map_append, ← List.append_assoc]
    exact hJ _ _ _ _ ih hstep

theorem Preserved.after_attend (A : Antd) (hI : Preserved C I) {p : Pass} (hC : C s p)
    (h : Records s []) {past : List Act} (hs : I (terminals (monitorProcesses s p).1) past) :
    I (terminals (attend A (monitorProcesses s p).1 p).1)
      (past ++ (receipt (terminals (monitorProcesses s p).1) p.selected ++
        (attend A (monitorProcesses s p).1 p).2.map .did)) := by
  have h₁ := (monitorProcesses_polls h p).2
  unfold attend
  cases hsel : p.selected with
  | failed | timeout | unreadable =>
    simp only [receipt, List.map_nil, List.append_nil]
    exact hs
  | message i =>
    have hmove := (handleMessage_handles
      (s := { (monitorProcesses s p).1 with msg := i.request.header }) ⟨h₁.live, h₁.gone⟩ p i).1
    exact hI.handle s p i past _ _ hC hsel h hs hmove
  | terminals =>
    have hrun := (monitorTerminals_watches A h₁ p).1
    simp only [receipt, List.nil_append]
    have hboth := Runs.logged
      (J := fun d past => (∀ c, d c ≠ none → terminals (monitorProcesses s p).1 c ≠ none) ∧
        I d past)
      (fun d past out d' hd hmove =>
        ⟨fun c hc => hd.1 c (hmove.shrinks hc),
          hI.watch s p d past out d' hC hsel h hd.1 hd.2 hmove⟩)
      hrun ⟨fun _ hc => hc, hs⟩
    exact hboth.2

theorem Preserved.after_turn (A : Antd) (hI : Preserved C I) {p : Pass} (hC : C s p)
    (h : Records s []) {past : List Act} (hs : I (terminals s) past) :
    I (terminals (turn A s p).1) (past ++ log A s p) := by
  have hpolled := Runs.logged (fun d past out d' => hI.poll s p d past out d' hC)
    (monitorProcesses_polls h p).1 hs
  have hafter := hI.after_attend A hC h hpolled
  rw [turn_eq, log, ← List.append_assoc]
  exact hafter

/-- What every move preserves holds at the head of the loop, in every run whose turns meet the
assumption. -/
theorem Preserved.run {A : Antd} (hI : Preserved C I) (h₀ : I (fun _ => none) [])
    {answer : TunnelMsgH} {passes : List Pass} {acts : List Act}
    (hrun : Execution (fun s p acts s' => Logged A s p acts s' ∧ C s p) (initial answer) passes
      acts s) : I (terminals s) acts ∧ Records s [] := by
  refine hrun.history (I := fun s acts => I (terminals s) acts ∧ Records s []) ?_ ?_
  · rintro s past p acts s' ⟨hs, h⟩ ⟨⟨-, hturn⟩, hC⟩
    obtain ⟨rfl, rfl⟩ := Prod.mk.inj hturn
    exact ⟨hI.after_turn A hC h hs, turn_records A h p⟩
  · have hnone : terminals (initial answer : State M) = fun _ => none := by
      funext c
      simp [terminals, initial]
    rw [hnone]
    exact ⟨h₀, by simp [initial], by simp⟩

end Invariants

end VtermTerminals
