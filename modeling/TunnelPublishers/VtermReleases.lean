import TunnelPublishers.VtermMembership

/-!
# Who frees a record

Every way out of a terminal frees its record, and each but one leaves it at
that. A terminal that fails to be read, or whose output cannot be sent, has its
record freed once more when its node goes. A notice that cannot be sent is
logged from the record just freed.
-/
namespace VtermReleases

open ByteOrder FiniteMaps FiniteMap TunnelFraming ExecutionTraces KernelTables VtermService
  VtermTerminals VtermSignals VtermMembership

/-- What a trace says about records. -/
def fate : Event → List Event
  | .released p => [.released p]
  | .stale p => [.stale p]
  | _ => []

/-- The records freed, in order. -/
def releases (trace : List Event) : List ℕ :=
  trace.filterMap fun
    | .released p => some p
    | _ => none

/-- No record is freed twice, and none is read after it was freed. -/
structure ReleasedOnce (trace : List Event) : Prop where
  once : (releases trace).Nodup
  unread : ∀ p, Event.stale p ∉ trace

section Traces

variable {a b out : List Event} {p : ℕ}

theorem releases_append (a b : List Event) : releases (a ++ b) = releases a ++ releases b :=
  List.filterMap_append

theorem mem_releases : p ∈ releases out ↔ Event.released p ∈ out := by
  simp only [releases, List.mem_filterMap]
  constructor
  · rintro ⟨e, he, hp⟩
    cases e with
    | released q =>
      obtain rfl : q = p := by simpa using hp
      exact he
    | _ => cases hp
  · intro h
    exact ⟨_, h, rfl⟩

theorem releases_fates (out : List Event) : releases (out.flatMap fate) = releases out := by
  induction out with
  | nil => rfl
  | cons e out ih =>
    rw [List.flatMap_cons, releases_append, ih]
    cases e <;> rfl

theorem stale_mem_fates : Event.stale p ∈ out.flatMap fate ↔ Event.stale p ∈ out := by
  rw [List.mem_flatMap]
  constructor
  · rintro ⟨e, he, hp⟩
    cases e with
    | stale q =>
      obtain rfl : p = q := by simpa [fate] using hp
      exact he
    | _ => simp [fate] at hp
  · intro h
    exact ⟨_, h, by simp [fate]⟩

theorem releasedOnce_append :
    ReleasedOnce (a ++ b) ↔
      ReleasedOnce a ∧ ReleasedOnce b ∧ ∀ p ∈ releases a, p ∉ releases b := by
  constructor
  · rintro ⟨honce, hunread⟩
    rw [releases_append, List.nodup_append'] at honce
    refine ⟨⟨honce.1, fun p hp => hunread p (List.mem_append_left b hp)⟩,
      ⟨honce.2.1, fun p hp => hunread p (List.mem_append_right a hp)⟩, ?_⟩
    intro p hp hq
    exact honce.2.2 hp hq
  · rintro ⟨ha, hb, hapart⟩
    constructor
    · rw [releases_append, List.nodup_append']
      exact ⟨ha.once, hb.once, fun p hp hq => hapart p hp hq⟩
    · intro p hp
      rcases List.mem_append.mp hp with hp | hp
      · exact ha.unread p hp
      · exact hb.unread p hp

theorem fates_killed (p : ℕ) (proc : VtermProc) (a : Answers) :
    (killed p proc a).flatMap fate = [.released p] := by
  unfold killed
  split <;> rfl

theorem fates_dismissed (p : ℕ) (proc : VtermProc) (c channelId : UInt16) (a : Answers) :
    (dismissed p proc c channelId a).flatMap fate =
      .released p :: if a.send then [] else [.stale p] := by
  rw [dismissed, List.flatMap_append, fates_killed]
  cases a.send <;> rfl

end Traces

/-! ### A ledger of records -/

variable {M : Type → Type → Type}

def Freed (s : State M) (p : ℕ) : Prop := p < s.heap.length ∧ s.heap[p]?.join = none

/-- Records stay freed, and a trace frees no record but those it says, each once. -/
structure Settles (s : State M) (out : List Event) (s' : State M) : Prop where
  kept : ∀ p, Freed s p → Freed s' p
  freed : ∀ p ∈ releases out, ¬ Freed s p ∧ Freed s' p
  once : ReleasedOnce out

section Ledger

variable {s u v : State M} {out out' : List Event}

theorem Settles.trans (h : Settles s out u) (k : Settles u out' v) :
    Settles s (out ++ out') v where
  kept p hp := k.kept p (h.kept p hp)
  freed p hp := by
    rw [releases_append] at hp
    rcases List.mem_append.mp hp with hp | hp
    · exact ⟨(h.freed p hp).1, k.kept p (h.freed p hp).2⟩
    · exact ⟨fun hs => (k.freed p hp).1 (h.kept p hs), (k.freed p hp).2⟩
  once := by
    refine releasedOnce_append.mpr ⟨h.once, k.once, ?_⟩
    intro p hp hq
    exact (k.freed p hq).1 (h.freed p hp).2

/-- Events that free nothing. -/
theorem Settles.silent (hkept : ∀ p, Freed s p → Freed u p) (hout : out.flatMap fate = []) :
    Settles s out u where
  kept := hkept
  freed p hp := by
    rw [← releases_fates, hout] at hp
    cases hp
  once := by
    refine ⟨?_, fun p hp => ?_⟩
    · rw [← releases_fates, hout]
      exact List.nodup_nil
    · rw [← stale_mem_fates, hout] at hp
      cases hp

/-- One record is freed. -/
theorem Settles.one {p : ℕ} {proc : VtermProc} (hp : s.heap[p]?.join = some proc)
    (hu : u.heap = s.heap.set p none) (hout : out.flatMap fate = [.released p]) :
    Settles s out u := by
  have hreleases : releases out = [p] := by
    rw [← releases_fates, hout]
    rfl
  constructor
  · rintro q ⟨hlt, hq⟩
    refine ⟨by rwa [hu, List.length_set], ?_⟩
    rw [hu, join_set_none]
    split
    · rfl
    · exact hq
  · intro q hq
    rw [hreleases, List.mem_singleton] at hq
    subst hq
    refine ⟨fun hfreed => ?_, by rw [hu, List.length_set]; exact lt_of_live hp, ?_⟩
    · rw [hfreed.2] at hp
      cases hp
    · rw [hu, join_set_none, if_pos rfl]
  · refine ⟨by rw [hreleases]; exact List.nodup_singleton p, fun q hq => ?_⟩
    rw [← stale_mem_fates, hout] at hq
    simp at hq

end Ledger

/-! ### Traversals -/

variable [FiniteMap M]

section Visits

variable {R : Terminals → List Event → Terminals → Prop}
  {f : State M × List (UInt16 × ℕ) → UInt16 × ℕ → (State M × List (UInt16 × ℕ)) × List Event}
  {s : State M} {list visit : List (UInt16 × ℕ)}

/-- A traversal leaves the tree alone and frees records for good. -/
theorem visitAll_frame (hf : Attends R f) (h : Visiting s list visit) :
    (visitAll f (s, list) visit).1.1.processes = s.processes ∧
      (visitAll f (s, list) visit).1.1.heap.length = s.heap.length ∧
      ∀ p : ℕ, s.heap[p]?.join = none →
        (visitAll f (s, list) visit).1.1.heap[p]?.join = none := by
  induction visit generalizing s list with
  | nil => exact ⟨rfl, rfl, fun _ hp => hp⟩
  | cons n visit ih =>
    obtain ⟨c, p⟩ := n
    obtain ⟨hfind, hout, proc, hproc, hcid⟩ := h.head
    have hrest := ih (hf.next h)
    simp only [visitAll]
    rcases (hf s list c p proc h.records hout hfind hproc hcid).2 with hx | hx
    · rw [hx] at hrest ⊢
      exact hrest
    · rw [hx] at hrest ⊢
      obtain ⟨hprocesses, hlength, hkept⟩ := hrest
      refine ⟨hprocesses, hlength.trans List.length_set, fun q hq => hkept q ?_⟩
      rw [join_set_none]
      split
      · rfl
      · exact hq

/-- A callback lists the nodes it is known to list. -/
theorem visitAll_listed {g : UInt16 × ℕ → Bool} (hf : Attends R f)
    (hg : ∀ s list c p proc, find s.processes c = some p → s.heap[p]?.join = some proc →
      proc.cid = c →
      (f (s, list) (c, p)).1.2 = if g (c, p) then list ++ [(c, p)] else list)
    (h : Visiting s list visit) :
    (visitAll f (s, list) visit).1.2 = list ++ visit.filter g := by
  induction visit generalizing s list with
  | nil => simp [visitAll]
  | cons n visit ih =>
    obtain ⟨c, p⟩ := n
    obtain ⟨hfind, hout, proc, hproc, hcid⟩ := h.head
    have hhead := hg s list c p proc hfind hproc hcid
    have hrest : (visitAll f (f (s, list) (c, p)).1 visit).1.2 = _ := ih (hf.next h)
    rw [hhead] at hrest
    simp only [visitAll]
    rw [hrest]
    by_cases hn : g (c, p) = true
    · simp [hn]
    · simp [hn]

/-- During a traversal no record is freed for the second time. -/
theorem visitAll_intact (hf : Attends R f) (h : Visiting s list visit) :
    (visitAll f (s, list) visit).1.1.intact = s.intact := by
  induction visit generalizing s list with
  | nil => rfl
  | cons n visit ih =>
    obtain ⟨c, p⟩ := n
    obtain ⟨hfind, hout, proc, hproc, hcid⟩ := h.head
    have hrest := ih (hf.next h)
    simp only [visitAll]
    rcases (hf s list c p proc h.records hout hfind hproc hcid).2 with hx | hx
    · rw [hx] at hrest ⊢
      exact hrest
    · rw [hx] at hrest ⊢
      exact hrest

end Visits

/-- The poll says that the child is gone. -/
def exits (a : Answers) : Bool := decide (a.poll = -1 ∨ a.poll > 0)

/-- A ready terminal fails to be read, or what it printed fails to be sent. -/
def breaks (A : Antd) (a : Answers) : Bool :=
  a.ready && match a.read with
    | none => true
    | some bytes => decide (bytes.take A.BUFFLEN ≠ []) && !a.send

section Callbacks

variable {s : State M} {list : List (UInt16 × ℕ)} {c : UInt16} {p : ℕ} {proc : VtermProc}

theorem setSockFd_fates (answers : UInt16 → Answers) (stack : TunnelMsgH)
    (hf : find s.processes c = some p) (hproc : s.heap[p]?.join = some proc)
    (hcid : proc.cid = c) :
    (setSockFd answers stack (s, list) (c, p)).2.flatMap fate =
      (if exits (answers c) then
        .released p :: if (answers c).send then [] else [.stale p] else []) ∧
    (setSockFd answers stack (s, list) (c, p)).1.2 =
      if exits (answers c) then list ++ [(c, p)] else list := by
  by_cases hw : (answers c).poll = -1 ∨ (answers c).poll > 0
  · simp only [setSockFd, hproc, hw, ↓reduceIte, unsubscribe_live answers stack hf hproc hcid,
      exits, decide_true]
    exact ⟨fates_dismissed p proc c stack.channelId (answers c), trivial⟩
  · simp only [setSockFd, hproc, hw, ↓reduceIte, exits, decide_false]
    exact ⟨rfl, rfl⟩

theorem terminalMonitor_fates (A : Antd) (answers : UInt16 → Answers) (stack : TunnelMsgH)
    (hf : find s.processes c = some p) (hproc : s.heap[p]?.join = some proc) :
    (terminalMonitor A answers stack (s, list) (c, p)).2.flatMap fate =
      (if breaks A (answers c) then [.released p] else []) ∧
    (terminalMonitor A answers stack (s, list) (c, p)).1.2 =
      if breaks A (answers c) then list ++ [(c, p)] else list := by
  have hkill := terminalKill_live hf hproc (answers c) false
  simp only [terminalMonitor, hproc]
  cases hready : (answers c).ready with
  | false =>
    have hb : breaks A (answers c) = false := by simp only [breaks, hready, Bool.false_and]
    rw [hb]
    exact ⟨rfl, rfl⟩
  | true =>
    cases hread : (answers c).read with
    | none =>
      have hb : breaks A (answers c) = true := by simp only [breaks, hready, hread, Bool.and_self]
      rw [hb, hkill]
      exact ⟨fates_killed p proc (answers c), rfl⟩
    | some bytes =>
      have hb : breaks A (answers c) =
          (decide (bytes.take A.BUFFLEN ≠ []) && !(answers c).send) := by
        simp only [breaks, hready, hread, Bool.true_and]
      rw [hb]
      by_cases hbytes : bytes.take A.BUFFLEN = []
      · simp only [↓reduceIte, hbytes, ne_eq, not_true_eq_false, decide_false, Bool.false_and,
          Bool.false_eq_true]
        exact ⟨rfl, trivial⟩
      · cases hsend : (answers c).send with
        | true =>
          simp only [↓reduceIte, hbytes, Bool.not_true, Bool.and_false, Bool.false_eq_true]
          exact ⟨rfl, trivial⟩
        | false =>
          simp only [↓reduceIte, hbytes, ne_eq, not_false_eq_true, decide_true, Bool.not_false,
            Bool.and_self, Bool.false_eq_true, hkill]
          exact ⟨fates_killed p proc (answers c), trivial⟩

theorem sweepNode_fates (answers : UInt16 → Answers) (stack : TunnelMsgH)
    (hf : find s.processes c = some p) (hproc : s.heap[p]?.join = some proc)
    (hcid : proc.cid = c) :
    (sweepNode answers stack (s, list) (c, p)).2.flatMap fate =
      .released p :: if (answers c).send then [] else [.stale p] := by
  simp only [sweepNode, unsubscribe_live answers stack hf hproc hcid]
  exact fates_dismissed p proc c stack.channelId (answers c)

end Callbacks

/-! ### Passes -/

section Passes

variable {s : State M} {p : Pass} {c : UInt16}

theorem monitorProcesses_fates (h : Records s []) (p : Pass) :
    (monitorProcesses s p).2.flatMap fate =
      (entries s.processes).flatMap fun n =>
        if exits (p.answers n.1) then
          .released n.2 :: if (p.answers n.1).send then [] else [.stale n.2] else [] :=
  visitAll_observed (setSockFd_attends p.answers p.stack)
    (fun _ _ _ _ _ hf hproc hcid => (setSockFd_fates p.answers p.stack hf hproc hcid).1)
    h.visiting

/-- The clients whose children are gone lose their entries. -/
theorem find_monitorProcesses (h : Records s []) (p : Pass) (c : UInt16) :
    find (monitorProcesses s p).1.processes c =
      if exits (p.answers c) then none else find s.processes c := by
  have hattends := setSockFd_attends (M := M) p.answers p.stack
  have hlist := visitAll_listed (g := fun n => exits (p.answers n.1)) hattends
    (fun _ _ _ _ _ hf hproc hcid => (setSockFd_fates p.answers p.stack hf hproc hcid).2)
    h.visiting
  rw [List.nil_append] at hlist
  have hframe := (visitAll_frame hattends h.visiting).1
  have hdeleted : find (monitorProcesses s p).1.processes c = _ := find_deleteNodes
    (visitAll (setSockFd p.answers p.stack) (s, []) (entries s.processes)).1.2 c
  rw [hlist, hframe] at hdeleted
  apply hdeleted.trans
  cases hf : find s.processes c with
  | none => simp
  | some q =>
    have hmem : c ∈ ((entries s.processes).filter fun n => exits (p.answers n.1)).map Prod.fst ↔
        exits (p.answers c) = true := by
      simp only [List.mem_map, List.mem_filter]
      constructor
      · rintro ⟨n, ⟨-, hn⟩, rfl⟩
        exact hn
      · intro hc
        exact ⟨(c, q), ⟨mem_entries.mpr hf, hc⟩, rfl⟩
    simp only [hmem]

theorem monitorTerminals_fates (A : Antd) (h : Records s []) (p : Pass) :
    (monitorTerminals A s p).2.flatMap fate =
      ((entries s.processes).flatMap fun n =>
        if breaks A (p.answers n.1) then [.released n.2] else []) ++
      ((entries s.processes).filter fun n => breaks A (p.answers n.1)).map
        fun n => .released n.2 := by
  have hattends := terminalMonitor_attends (M := M) A p.answers p.stack
  have hlist := visitAll_listed (g := fun n => breaks A (p.answers n.1)) hattends
    (fun _ _ _ _ _ hf hproc _ => (terminalMonitor_fates A p.answers p.stack hf hproc).2)
    h.visiting
  have hfates :
      (visitAll (terminalMonitor A p.answers p.stack) (s, []) (entries s.processes)).2.flatMap
        fate = (entries s.processes).flatMap fun n =>
          if breaks A (p.answers n.1) then [.released n.2] else [] :=
    visitAll_observed hattends
      (fun _ _ _ _ _ hf hproc _ => (terminalMonitor_fates A p.answers p.stack hf hproc).1)
      h.visiting
  simp only [monitorTerminals, List.flatMap_append, hfates, hlist, List.nil_append]
  congr 1
  rw [List.flatMap_map, List.map_eq_flatMap]
  rfl

/-- Two clients never share a record. -/
theorem records_nodup (h : Records s []) : ((entries s.processes).map Prod.snd).Nodup := by
  apply List.Nodup.map_on _ (nodup_entries s.processes)
  rintro ⟨c, q⟩ hn ⟨c', q'⟩ hn' (rfl : q = q')
  rw [mem_entries] at hn hn'
  by_cases hc : c' = c
  · rw [hc]
  · obtain ⟨proc, hproc, -⟩ := h.live c' q hn' (by simp)
    exact (h.apart hn (by simp) hn' hc (by rw [hproc]; simp) rfl).elim

/-- Some nodes of the tree have their records freed, each once. -/
theorem Settles.visited {u : State M} {out : List Event} {g : UInt16 × ℕ → Bool}
    (h : Records s []) (hlength : u.heap.length = s.heap.length)
    (hkept : ∀ q : ℕ, s.heap[q]?.join = none → u.heap[q]?.join = none)
    (hgone : ∀ n ∈ (entries s.processes).filter g, u.heap[n.2]?.join = none)
    (hout : out.flatMap fate = ((entries s.processes).filter g).map fun n => .released n.2) :
    Settles s out u := by
  have hreleases : releases out = ((entries s.processes).filter g).map Prod.snd := by
    rw [← releases_fates, hout, releases, List.filterMap_map]
    exact congrFun (List.filterMap_eq_map (f := Prod.snd)) _
  constructor
  · rintro q ⟨hlt, hq⟩
    exact ⟨hlength ▸ hlt, hkept q hq⟩
  · intro q hq
    rw [hreleases, List.mem_map] at hq
    obtain ⟨⟨c, q⟩, hn, rfl⟩ := hq
    obtain ⟨proc, hproc, -⟩ := h.live c q (mem_entries.mp (List.mem_filter.mp hn).1) (by simp)
    refine ⟨fun hfreed => ?_, by rw [hlength]; exact lt_of_live hproc, hgone (c, q) hn⟩
    rw [hfreed.2] at hproc
    cases hproc
  · constructor
    · rw [hreleases]
      exact (records_nodup h).sublist (List.filter_sublist.map Prod.snd)
    · intro q hq
      rw [← stale_mem_fates, hout] at hq
      simp at hq

/-- Nodes whose clients are told that they are gone. -/
def notices (g : UInt16 × ℕ → Bool) (answers : UInt16 → Answers) (nodes : List (UInt16 × ℕ)) :
    List Event :=
  nodes.flatMap fun n =>
    if g n then .released n.2 :: if (answers n.1).send then [] else [.stale n.2] else []

theorem notices_sent {g : UInt16 × ℕ → Bool} {answers : UInt16 → Answers}
    {nodes : List (UInt16 × ℕ)} (h : ∀ n ∈ nodes, g n = true → (answers n.1).send = true) :
    notices g answers nodes = (nodes.filter g).map fun n => .released n.2 := by
  induction nodes with
  | nil => rfl
  | cons n nodes ih =>
    have hrest := ih fun m hm => h m (List.mem_cons_of_mem n hm)
    rw [notices, List.flatMap_cons, ← notices, hrest]
    by_cases hn : g n = true
    · simp [hn, h n List.mem_cons_self hn]
    · simp [hn]

theorem notices_unsent {g : UInt16 × ℕ → Bool} {answers : UInt16 → Answers}
    {nodes : List (UInt16 × ℕ)} {n : UInt16 × ℕ} (hn : n ∈ nodes) (hg : g n = true)
    (hsend : (answers n.1).send = false) : Event.stale n.2 ∈ notices g answers nodes := by
  rw [notices, List.mem_flatMap]
  exact ⟨n, hn, by simp [hg, hsend]⟩

/-- All clients whose children are gone can be told. -/
def Told (s : State M) (p : Pass) : Prop :=
  ∀ c, find s.processes c ≠ none → exits (p.answers c) = true → (p.answers c).send = true

theorem monitorProcesses_settles (h : Records s []) (htold : Told s p) :
    Settles s (monitorProcesses s p).2 (monitorProcesses s p).1 := by
  have hattends := setSockFd_attends (M := M) p.answers p.stack
  obtain ⟨-, hlength, hkept⟩ := visitAll_frame hattends h.visiting
  have hlast := (visitAll_attends hattends h.visiting).2.records
  have hlist := visitAll_listed (g := fun n => exits (p.answers n.1)) hattends
    (fun _ _ _ _ _ hf hproc hcid => (setSockFd_fates p.answers p.stack hf hproc hcid).2)
    h.visiting
  apply Settles.visited (u := (monitorProcesses s p).1) h hlength hkept
  · intro n hn
    apply hlast.gone n.1 n.2
    rw [hlist, List.nil_append]
    exact hn
  · apply (monitorProcesses_fates h p).trans
    apply notices_sent
    rintro ⟨c, q⟩ hn hexits
    exact htold c (by rw [mem_entries.mp hn]; simp) hexits

theorem monitorProcesses_untold (h : Records s []) (htold : ¬ Told s p) :
    ¬ ReleasedOnce (monitorProcesses s p).2 := by
  simp only [Told, not_forall, Bool.not_eq_true] at htold
  obtain ⟨c, hc, hexits, hsend⟩ := htold
  obtain ⟨q, hq⟩ := Option.ne_none_iff_exists'.mp hc
  intro honce
  apply honce.unread q
  rw [← stale_mem_fates, monitorProcesses_fates h p]
  exact notices_unsent (g := fun n => exits (p.answers n.1)) (mem_entries.mpr hq) hexits hsend

/-- No ready terminal fails to be read and its output to be sent. -/
def Heard (A : Antd) (s : State M) (p : Pass) : Prop :=
  ∀ c, find s.processes c ≠ none → breaks A (p.answers c) = false

theorem monitorTerminals_settles {A : Antd} (h : Records s []) (hheard : Heard A s p) :
    Settles s (monitorTerminals A s p).2 (monitorTerminals A s p).1 := by
  have hattends := terminalMonitor_attends (M := M) A p.answers p.stack
  obtain ⟨-, hlength, hkept⟩ := visitAll_frame hattends h.visiting
  have hfreed := (visitAll_attends hattends h.visiting).2.records.free
  have hnone : ∀ n ∈ entries s.processes, breaks A (p.answers n.1) = false := by
    rintro ⟨c, q⟩ hn
    exact hheard c (by rw [mem_entries.mp hn]; simp)
  apply Settles.silent (u := (monitorTerminals A s p).1)
  · rintro q ⟨hlt, hq⟩
    simp only [monitorTerminals, hfreed]
    exact ⟨hlt.trans_eq hlength.symm, hkept q hq⟩
  · rw [monitorTerminals_fates A h p, List.append_eq_nil_iff]
    constructor
    · rw [List.flatMap_eq_nil_iff]
      intro n hn
      simp [hnone n hn]
    · rw [List.map_eq_nil_iff, List.filter_eq_nil_iff]
      intro n hn
      simp [hnone n hn]

theorem monitorTerminals_unheard {A : Antd} (h : Records s []) (hheard : ¬ Heard A s p) :
    ¬ ReleasedOnce (monitorTerminals A s p).2 := by
  simp only [Heard, not_forall, Bool.not_eq_false] at hheard
  obtain ⟨c, hc, hbreaks⟩ := hheard
  obtain ⟨q, hq⟩ := Option.ne_none_iff_exists'.mp hc
  intro honce
  have htwice := honce.once
  rw [← releases_fates, monitorTerminals_fates A h p, releases_append, List.nodup_append'] at htwice
  have hfirst : q ∈ releases ((entries s.processes).flatMap fun n =>
      if breaks A (p.answers n.1) then [.released n.2] else []) := by
    rw [mem_releases, List.mem_flatMap]
    exact ⟨(c, q), mem_entries.mpr hq, by simp [hbreaks]⟩
  refine htwice.2.2 hfirst ?_
  rw [mem_releases, List.mem_map]
  exact ⟨(c, q), List.mem_filter.mpr ⟨mem_entries.mpr hq, hbreaks⟩, rfl⟩

end Passes

/-! ### Messages -/

section Messages

variable {s : State M}

theorem fates_terminalNew (a : Spawn) (user : List UInt8) :
    (terminalNew a user).2.flatMap fate = [] := by
  rcases terminalNew_cases a user with ⟨-, hnew⟩ | ⟨-, -, hnew⟩ | ⟨-, -, hnew⟩ <;> rw [hnew]
  · rfl
  · rfl
  · split <;> split <;> rfl

theorem channelSubscribe_settles (s : State M) (p : Pass) (i : Input) :
    Settles s (channelSubscribe s p i).2 (channelSubscribe s p i).1 := by
  have hfates := fates_terminalNew p.spawn (cString i.memory)
  rcases hterm : terminalNew p.spawn (cString i.memory) with ⟨_ | ⟨fdm, pid⟩, out⟩
  · rw [hterm] at hfates
    simp only [channelSubscribe, hterm]
    apply Settles.silent (fun _ hq => hq)
    rw [List.flatMap_append, hfates]
    rfl
  · rw [hterm] at hfates
    simp only [channelSubscribe, hterm]
    refine Settles.silent ?_ hfates
    rintro q ⟨hlt, hq⟩
    refine ⟨by rw [List.length_append]; omega, ?_⟩
    rw [List.getElem?_append_left hlt]
    exact hq

theorem terminalKill_settles (h : Records s []) (a : Answers) (c : UInt16) :
    Settles s (terminalKill s a c true).2 (terminalKill s a c true).1 := by
  cases hf : find s.processes c with
  | none =>
    rw [terminalKill_absent h ((terminals_eq_none h).mpr hf)]
    exact Settles.silent (fun _ hq => hq) rfl
  | some q =>
    obtain ⟨proc, hproc, -⟩ := h.live c q hf (by simp)
    rw [terminalKill_live hf hproc]
    exact Settles.one hproc rfl (fates_killed q proc a)

theorem channelCtrl_settles (h : Records s []) (p : Pass) (i : Input) :
    Settles s (channelCtrl s p i).2 (channelCtrl s p i).1 := by
  unfold channelCtrl
  split
  · apply Settles.silent (fun _ hq => hq)
    cases hf : find s.processes i.client with
    | none => simp only [terminalResize, hf, List.flatMap_nil]
    | some q =>
      obtain ⟨proc, hproc, -⟩ := h.live i.client q hf (by simp)
      simp only [terminalResize, hf, hproc]
      split <;> rfl
  · exact Settles.silent (fun _ hq => hq) rfl

theorem channelData_settles (h : Records s []) (p : Pass) (i : Input) :
    Settles s (channelData s p i).2 (channelData s p i).1 := by
  have hwrite : (terminalWrite s (p.answers i.client) i.request).2.flatMap fate = [] := by
    cases hf : find s.processes i.request.header.clientId with
    | none => simp only [terminalWrite, hf, List.flatMap_nil]
    | some q =>
      obtain ⟨proc, hproc, -⟩ := h.live i.request.header.clientId q hf (by simp)
      simp only [terminalWrite, hf, hproc]
      rfl
  have hwritten : Settles s (terminalWrite s (p.answers i.client) i.request).2 s :=
    Settles.silent (fun _ hq => hq) hwrite
  unfold channelData
  dsimp only
  split
  · have hkilled := terminalKill_settles h (p.answers i.client) i.client
    have hrefused : Settles (terminalKill s (p.answers i.client) i.client true).1
        [refuse i.request.header] (terminalKill s (p.answers i.client) i.client true).1 :=
      Settles.silent (fun _ hq => hq) rfl
    exact (hwritten.trans hkilled).trans hrefused
  · exact hwritten

theorem handleMessage_settles (h : Records s []) (p : Pass) (i : Input) :
    Settles s (handleMessage s p i).2 (handleMessage s p i).1 := by
  unfold handleMessage
  dsimp only
  split_ifs
  · exact channelSubscribe_settles s p i
  · exact terminalKill_settles h (p.answers i.client) i.client
  · exact channelCtrl_settles h p i
  · exact channelData_settles h p i
  · exact Settles.silent (fun _ hq => hq) rfl

end Messages

/-! ### Turns and runs -/

section Runs

variable {A : Antd} {s : State M} {p : Pass}

/-- In this turn every client whose child is gone can be told, and no other ready terminal fails
to be read and its output to be sent. -/
def Sound (A : Antd) (s : State M) (p : Pass) : Prop :=
  ∀ c, find s.processes c ≠ none →
    if exits (p.answers c) then (p.answers c).send = true
    else p.selected = .terminals → breaks A (p.answers c) = false

theorem sound_iff (h : Records s []) :
    Sound A s p ↔
      Told s p ∧ (p.selected = .terminals → Heard A (monitorProcesses s p).1 p) := by
  simp only [Heard, find_monitorProcesses h p]
  constructor
  · intro hsound
    refine ⟨fun c hc hexits => ?_, fun hsel c hc => ?_⟩
    · have hc' := hsound c hc
      rwa [if_pos hexits] at hc'
    · by_cases hexits : exits (p.answers c) = true
      · simp [hexits] at hc
      · rw [if_neg hexits] at hc
        have hc' := hsound c hc
        rw [if_neg hexits] at hc'
        exact hc' hsel
  · rintro ⟨htold, hheard⟩ c hc
    split
    · next hexits => exact htold c hc hexits
    · next hexits =>
      intro hsel
      exact hheard hsel c (by rwa [if_neg hexits])

theorem attend_settles (h : Records s [])
    (hheard : p.selected = .terminals → Heard A s p) :
    Settles s (attend A s p).2 (attend A s p).1 := by
  simp only [attend]
  cases hsel : p.selected with
  | failed | timeout | unreadable => exact Settles.silent (fun _ hq => hq) rfl
  | message i =>
    have hmessage := handleMessage_settles (s := { s with msg := i.request.header })
      ⟨h.live, h.gone⟩ p i
    exact ⟨hmessage.kept, hmessage.freed, hmessage.once⟩
  | terminals => exact monitorTerminals_settles h (hheard hsel)

theorem turn_settles (h : Records s []) (hsound : Sound A s p) :
    Settles s (turn A s p).2 (turn A s p).1 := by
  obtain ⟨htold, hheard⟩ := (sound_iff h).mp hsound
  have hpolled := monitorProcesses_settles h htold
  have hattended := attend_settles (monitorProcesses_polls h p).2 hheard
  rw [turn_eq]
  exact hpolled.trans ⟨hattended.kept, hattended.freed, hattended.once⟩

theorem turn_unsound (h : Records s []) (hsound : ¬ Sound A s p) :
    ¬ ReleasedOnce (turn A s p).2 := by
  rw [sound_iff h, not_and_or, Classical.not_imp] at hsound
  rw [turn_eq, releasedOnce_append]
  rintro ⟨hpolled, hattended, -⟩
  rcases hsound with htold | ⟨hsel, hheard⟩
  · exact monitorProcesses_untold h htold hpolled
  · simp only [attend, hsel] at hattended
    exact monitorTerminals_unheard (monitorProcesses_polls h p).2 hheard hattended

theorem monitorTerminals_intact (A : Antd) (h : Records s []) (p : Pass) :
    (monitorTerminals A s p).1.intact = true ↔ s.intact = true ∧ Heard A s p := by
  have hattends := terminalMonitor_attends (M := M) A p.answers p.stack
  have hlist := visitAll_listed (g := fun n => breaks A (p.answers n.1)) hattends
    (fun _ _ _ _ _ hf hproc _ => (terminalMonitor_fates A p.answers p.stack hf hproc).2)
    h.visiting
  have hfreed : (monitorTerminals A s p).1.intact = _ :=
    congrArg State.intact (visitAll_attends hattends h.visiting).2.records.free
  rw [hfreed, visitAll_intact hattends h.visiting, hlist]
  simp only [List.nil_append, Bool.and_eq_true, List.isEmpty_iff, List.filter_eq_nil_iff,
    Bool.not_eq_true]
  refine and_congr_right fun _ => ⟨fun hall c hc => ?_, fun hheard n hn => ?_⟩
  · obtain ⟨q, hq⟩ := Option.ne_none_iff_exists'.mp hc
    exact hall (c, q) (mem_entries.mpr hq)
  · exact hheard n.1 (by rw [mem_entries.mp hn]; simp)

theorem terminalKill_intact (s : State M) (a : Answers) (c : UInt16)
    (shouldDelete : Bool) : (terminalKill s a c shouldDelete).1.intact = s.intact := by
  unfold terminalKill
  split
  · rfl
  · split <;> rfl

theorem handleMessage_intact (s : State M) (p : Pass) (i : Input) :
    (handleMessage s p i).1.intact = s.intact := by
  unfold handleMessage
  dsimp only
  split_ifs
  · unfold channelSubscribe
    split <;> rfl
  · exact terminalKill_intact s _ _ _
  · unfold channelCtrl
    split <;> rfl
  · simp only [channelData]
    split
    · exact terminalKill_intact s _ _ _
    · rfl
  · rfl

/-- A turn is the last one if and only if a ready terminal fails to be read or its output to be
sent. -/
theorem turn_intact (h : Records s []) :
    (turn A s p).1.intact = true ↔
      s.intact = true ∧ (p.selected = .terminals → Heard A (monitorProcesses s p).1 p) := by
  have hpolled : (monitorProcesses s p).1.intact = s.intact :=
    visitAll_intact (setSockFd_attends p.answers p.stack) h.visiting
  rw [turn_eq, ← hpolled]
  unfold attend
  cases hsel : p.selected with
  | failed | timeout | unreadable => simp
  | message i => simp [handleMessage_intact]
  | terminals => simpa using monitorTerminals_intact A (monitorProcesses_polls h p).2 p

theorem shutdown_fates (h : Records s []) (answers : UInt16 → Answers) (stack : TunnelMsgH) :
    (shutdown s answers stack).flatMap fate =
      notices (fun _ => true) answers (entries s.processes) := by
  have hquit := visitAll_observed (g := fun n => Event.released n.2 ::
      if (answers n.1).send then [] else [.stale n.2]) (sweepNode_attends answers stack)
    (fun _ _ _ _ _ hf hproc hcid => sweepNode_fates answers stack hf hproc hcid) h.visiting
  rw [visitAll_sweepNode] at hquit
  rw [shutdown, List.flatMap_append, hquit]
  simp [notices, fate]

theorem shutdown_settles (stack : TunnelMsgH) (h : Records s []) {answers : UInt16 → Answers}
    (htold : ∀ c, find s.processes c ≠ none → (answers c).send = true) :
    ∃ u : State M, Settles s (shutdown s answers stack) u := by
  have hattends := sweepNode_attends (M := M) answers stack
  obtain ⟨-, hlength, hkept⟩ := visitAll_frame hattends h.visiting
  have hlast := (visitAll_attends hattends h.visiting).2.records
  have hlist := visitAll_listed (g := fun _ => true) hattends (fun _ _ _ _ _ _ _ _ => rfl)
    h.visiting
  refine ⟨_, Settles.visited (g := fun _ => true) h hlength hkept ?_ ?_⟩
  · intro n hn
    apply hlast.gone n.1 n.2
    rw [hlist, List.nil_append]
    exact hn
  · apply (shutdown_fates h answers stack).trans
    apply notices_sent
    rintro ⟨c, q⟩ hn -
    exact htold c (by rw [mem_entries.mp hn]; simp)

theorem shutdown_untold (h : Records s []) {answers : UInt16 → Answers} {stack : TunnelMsgH}
    {c : UInt16} (hc : find s.processes c ≠ none) (hsend : (answers c).send = false) :
    ¬ ReleasedOnce (shutdown s answers stack) := by
  obtain ⟨q, hq⟩ := Option.ne_none_iff_exists'.mp hc
  intro honce
  apply honce.unread q
  rw [← stale_mem_fates, shutdown_fates h]
  exact notices_unsent (mem_entries.mpr hq) rfl hsend

theorem run_records {answer : TunnelMsgH} {passes : List Pass} {trace : List Event}
    (hrun : Execution (Step A) (initial answer) passes trace s) : Records s [] := by
  refine hrun.preserves (I := fun s => Records s []) ?_ ⟨by simp [initial], by simp⟩
  rintro u p out v h ⟨-, hturn⟩
  obtain ⟨rfl, rfl⟩ := Prod.mk.inj hturn
  exact turn_records A h p

/-- A run gets to its exit if and only if in none of its turns a ready terminal fails to be read or
its output to be sent. -/
theorem run_intact {answer : TunnelMsgH} {passes : List Pass} {trace : List Event}
    (hrun : Execution (Step A) (initial answer) passes trace s) :
    s.intact = true ↔ Execution (fun s p out s' => Step A s p out s' ∧
      (p.selected = .terminals → Heard A (monitorProcesses s p).1 p)) (initial answer) passes trace
      s := by
  constructor
  · intro hintact
    induction hrun with
    | refl => exact .refl _
    | tail hrun hstep ih =>
      have hturn := hstep.2
      obtain ⟨rfl, rfl⟩ := Prod.mk.inj hturn
      obtain ⟨hbefore, hheard⟩ := (turn_intact (run_records hrun)).mp hintact
      exact .tail (ih hbefore) ⟨hstep, hheard⟩
  · intro hheard
    clear hrun
    induction hheard with
    | refl => rfl
    | tail hrun hstep ih =>
      obtain ⟨⟨-, hturn⟩, hheard⟩ := hstep
      obtain ⟨rfl, rfl⟩ := Prod.mk.inj hturn
      have hrecords := run_records (hrun.mono fun _ _ _ _ hstep => hstep.1)
      exact (turn_intact hrecords).mpr ⟨ih, hheard⟩

/-- A run of sound turns frees each record at most once. -/
theorem run_settles {answer : TunnelMsgH} {passes : List Pass} {trace : List Event}
    (hrun : Execution (fun s p out s' => Step A s p out s' ∧ Sound A s p) (initial answer) passes
      trace s) : Settles (initial answer) trace s := by
  induction hrun with
  | refl => exact Settles.silent (fun _ hq => hq) rfl
  | tail hrun hstep ih =>
    obtain ⟨⟨-, hturn⟩, hsound⟩ := hstep
    obtain ⟨rfl, rfl⟩ := Prod.mk.inj hturn
    have hrecords := run_records (hrun.mono fun _ _ _ _ hstep => hstep.1)
    exact ih.trans (turn_settles hrecords hsound)

/-- In a run with shutdown no record is freed twice or read after that if and only if in every
turn the clients whose children are gone can be told, the other ready terminals can be read and
their output sent, and at shutdown the clients that are left can be told. -/
theorem released_once_iff {answer : TunnelMsgH} {passes : List Pass} {trace : List Event}
    (answers : UInt16 → Answers) (stack : TunnelMsgH)
    (hrun : Execution (Step A) (initial answer) passes trace s) :
    ReleasedOnce (trace ++ shutdown s answers stack) ↔
      Execution (fun s p out s' => Step A s p out s' ∧ Sound A s p) (initial answer) passes
          trace s ∧
        ∀ c, find s.processes c ≠ none → (answers c).send = true := by
  have hrecords := run_records hrun
  constructor
  · intro honce
    obtain ⟨htrace, hend, -⟩ := releasedOnce_append.mp honce
    constructor
    · clear honce hend hrecords
      induction hrun with
      | refl => exact .refl _
      | @tail u v passes p trace out hrun hstep ih =>
        obtain ⟨hpast, hout, -⟩ := releasedOnce_append.mp htrace
        refine .tail (ih hpast) ⟨hstep, ?_⟩
        by_contra hsound
        have hturn : (turn A u p).2 = out := congrArg Prod.snd hstep.2
        rw [← hturn] at hout
        exact turn_unsound (run_records hrun) hsound hout
    · intro c hc
      by_contra hsend
      exact shutdown_untold hrecords hc (Bool.eq_false_of_not_eq_true hsend) hend
  · rintro ⟨hsound, htold⟩
    obtain ⟨u, hend⟩ := shutdown_settles stack hrecords htold
    exact ((run_settles hsound).trans hend).once

end Runs

/-- Client 1 subscribes, its terminal prints a byte, and its child exits. -/
theorem released_once_iff_one_client : ∃ trace s,
    Execution (Step firstByteHost) start
      [quiet 0 7 (.message (.subscribe 1 97)), reading (some [9]), quiet 7 7 .timeout] trace s ∧
    releases trace = [0] ∧
    ReleasedOnce (trace ++ shutdown s (fun _ => childSeven 0) ⟨0, 0, 0, 0⟩) := by
  have hsound := execution_of_meets State.going (turn firstByteHost) (Sound firstByteHost) start
    [quiet 0 7 (.message (.subscribe 1 97)), reading (some [9]), quiet 7 7 .timeout]
    (by decide +kernel)
    ⟨fun _ _ => by simp [exits, quiet, childSeven], fun _ _ _ => rfl,
      fun _ _ => by simp [exits, quiet, childSeven], trivial⟩
  have hrun := hsound.mono fun _ _ _ _ hstep => hstep.1
  exact ⟨_, _, hrun, by decide +kernel,
    (released_once_iff (fun _ => childSeven 0) ⟨0, 0, 0, 0⟩ hrun).mpr ⟨hsound, fun _ _ => rfl⟩⟩

/-- Client 1 subscribes once. Its terminal fails to be read and record 0 is freed twice; its child
exits, the client cannot be told, and record 0 is read after it was freed. -/
theorem record_released_twice :
    (∃ acts s, Execution (Logged firstByteHost) start
        [quiet 0 7 (.message (.subscribe 1 97)), reading none] acts s ∧ Once acts ∧
      ¬ ReleasedOnce (events acts)) ∧
    ∃ acts s, Execution (Logged firstByteHost) start
        [quiet 0 7 (.message (.subscribe 1 97)),
          { quiet 7 7 .timeout with answers := fun _ => { childSeven 7 with send := false } }]
        acts s ∧ Once acts ∧ ¬ ReleasedOnce (events acts) := by
  refine ⟨⟨_, _, execution_of_guardedRun _ _ _ _ (by decide +kernel), by decide +kernel, ?_⟩,
    ⟨_, _, execution_of_guardedRun _ _ _ _ (by decide +kernel), by decide +kernel, ?_⟩⟩
  · intro honce
    exact absurd honce.once (by decide +kernel)
  · intro honce
    exact honce.unread 0 (by decide +kernel)

end VtermReleases
