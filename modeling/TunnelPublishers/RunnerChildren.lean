import TunnelPublishers.RunnerMonitor

/-!
# Which children the runner reaps

An item marked -1 may reap the child of an item that was polled before it in the
same pass. The next pass would mark that item too, so the loop does not end by
itself while a child runs; but when SIGINT keeps the next pass from happening,
the child is killed after it was reaped.
-/
namespace RunnerChildren

open ExecutionTraces KernelTables RunnerMonitor

/-- The polls of the pass at hand, after one more event. -/
def passing (polls : List (ℕ × ℤ × ℤ)) : Event → List (ℕ × ℤ × ℤ)
  | .pass => []
  | .polled i pid result => polls ++ [(i, pid, result)]
  | .killed _ _ => polls
  | .waited _ _ => polls

/-- The polls of the last pass. -/
def lastPass (trace : List Event) : List (ℕ × ℤ × ℤ) := trace.foldl passing []

/-- In the last pass, the poll of a marked item reaped this child after its own item was polled. -/
def Strayed (pids : List ℤ) (trace : List Event) (pid : ℤ) : Prop :=
  ∃ k j, k < j ∧ pids[k]? = some pid ∧ (j, -1, pid) ∈ lastPass trace

def Unreaped (s : State) (pid : ℤ) : Prop := pid ∈ s.alive ∨ pid ∈ s.zombies

/-- How far the pass at hand has come. -/
def reached (s : State) : ℕ :=
  match s.control with
  | .poll i => i
  | _ => s.items.length

abbrev AllAimed (pids : List ℤ) (trace : List Event) : Prop :=
  Along ProcessCall.after ProcessCall.Aimed pids (calls trace)

abbrev childrenAfter (pids : List ℤ) (trace : List Event) : List ℤ :=
  (calls trace).foldl ProcessCall.after pids

/-- What holds throughout: items are launched pids or marked, an item that is marked has no child
left, and the kernel's children are those the calls so far have not reaped. -/
structure Tracks (pids : List ℤ) (s : State) (trace : List Event) : Prop where
  length : s.items.length = pids.length
  item : ∀ (k : ℕ) (pid : ℤ), s.items[k]? = some pid → pid = -1 ∨ pids[k]? = some pid
  marked : ∀ (k : ℕ) (pid : ℤ), s.items[k]? = some (-1) → pids[k]? = some pid → ¬ Unreaped s pid
  apart : ∀ pid ∈ s.zombies, pid ∉ s.alive
  table : ∀ pid, pid ∈ childrenAfter pids trace ↔ Unreaped s pid
  launched : ∀ pid, Unreaped s pid → pid ∈ pids

/-- What holds in the monitor loop. -/
structure Watching (pids : List ℤ) (s : State) (trace : List Event) : Prop where
  tracks : Tracks pids s trace
  early : ∀ (k j : ℕ) (pid result : ℤ), s.control = .poll k → (j, pid, result) ∈ lastPass trace →
    j < k
  seen : ∀ (k : ℕ) (pid : ℤ), k < reached s → pids[k]? = some pid → s.items[k]? = some pid →
    ¬ Unreaped s pid → Strayed pids trace pid
  strayed : ∀ (k j : ℕ) (pid : ℤ), k < j → pids[k]? = some pid → (j, -1, pid) ∈ lastPass trace →
    s.items[k]? = some pid ∧ ¬ Unreaped s pid
  counted : ∀ (k : ℕ) (pid : ℤ), k < reached s → pids[k]? = some pid → Unreaped s pid →
    0 < s.pidCount
  quiet : AllAimed pids trace

/-- What holds in the final loop, before its item `k`. -/
structure Sweeping (pids : List ℤ) (s : State) (trace : List Event) (k : ℕ) : Prop where
  tracks : Tracks pids s trace
  ahead : ∀ (m : ℕ) (pid : ℤ), k ≤ m → s.items[m]? = some pid → pid ≠ -1 →
    (Unreaped s pid ↔ ¬ Strayed pids trace pid)
  behind : AllAimed pids trace ↔
    ∀ (m : ℕ) (pid : ℤ), m < k → s.items[m]? = some pid → pid ≠ -1 → ¬ Strayed pids trace pid
  unmarked : ∀ pid, Strayed pids trace pid → pid ∈ s.items

/-- The invariant for each place of the program. -/
def Kept (pids : List ℤ) (s : State) (trace : List Event) : Prop :=
  match s.control with
  | .head | .poll _ => Watching pids s trace
  | .kill k => Sweeping pids s trace k
  | .wait k => k < pids.length ∧ Sweeping pids s trace (k + 1)
  | .finished => ∃ k, pids.length ≤ k ∧ Sweeping pids s trace k

/-- Pids as `fork` gives them to one process without a `wait` in between. -/
structure Launched (pids : List ℤ) : Prop where
  positive : ∀ pid ∈ pids, 0 < pid
  nodup : pids.Nodup

section Traces

variable {pids : List ℤ} {trace : List Event}

theorem calls_append (a b : List Event) : calls (a ++ b) = calls a ++ calls b :=
  List.flatMap_append

theorem childrenAfter_append (a b : List Event) :
    childrenAfter pids (a ++ b) = (calls b).foldl ProcessCall.after (childrenAfter pids a) := by
  rw [childrenAfter, calls_append, List.foldl_append]

theorem allAimed_append {a b : List Event} : AllAimed pids (a ++ b) ↔ AllAimed pids a ∧
    Along ProcessCall.after ProcessCall.Aimed (childrenAfter pids a) (calls b) := by
  rw [AllAimed, calls_append, along_append]

@[simp] theorem lastPass_append (trace : List Event) (e : Event) :
    lastPass (trace ++ [e]) = passing (lastPass trace) e := by
  rw [lastPass, List.foldl_append]
  rfl

/-- Killing and waiting leave the last pass as it was. -/
theorem strayed_append {e : Event} (he : passing (lastPass trace) e = lastPass trace) (pid : ℤ) :
    Strayed pids (trace ++ [e]) pid ↔ Strayed pids trace pid := by
  simp only [Strayed, lastPass_append, he]

/-- Whatever waiting gives is no child any more. -/
theorem mem_after_waitpid {children : List ℤ} (hpos : ∀ pid ∈ children, 0 < pid)
    {target result : ℤ} {nohang : Bool} (pid : ℤ) :
    pid ∈ ProcessCall.after children (.waitpid target nohang result) ↔
      pid ∈ children ∧ pid ≠ result := by
  by_cases hresult : 0 < result
  · simp [ProcessCall.after, hresult]
  · simp only [ProcessCall.after, if_neg hresult, iff_self_and]
    rintro hpid rfl
    exact hresult (hpos pid hpid)

/-- Only `waitpid` takes a child out of the table. -/
theorem reaped_of_not_mem {children : List ℤ} {cs : List ProcessCall} {pid : ℤ}
    (hpid : pid ∈ children) (hgone : pid ∉ cs.foldl ProcessCall.after children) :
    ∃ target nohang, .waitpid target nohang pid ∈ cs := by
  induction cs generalizing children with
  | nil => exact (hgone hpid).elim
  | cons call cs ih =>
    by_cases hafter : pid ∈ ProcessCall.after children call
    · obtain ⟨target, nohang, hmem⟩ := ih hafter hgone
      exact ⟨target, nohang, List.mem_cons_of_mem call hmem⟩
    · cases call with
      | fork result =>
        refine (hafter ?_).elim
        simp only [ProcessCall.after]
        split
        · exact List.mem_cons_of_mem result hpid
        · exact hpid
      | kill => exact (hafter hpid).elim
      | waitpid target nohang result =>
        refine ⟨target, nohang, ?_⟩
        simp only [ProcessCall.after] at hafter
        split at hafter
        · have hresult : pid = result := by simpa [hpid] using hafter
          simp [hresult]
        · exact (hafter hpid).elim

end Traces

section Lists

variable {pids : List ℤ} {s : State} {trace : List Event} {pid answer : ℤ} {k : ℕ}

theorem Launched.index (h : Launched pids) {j : ℕ} (hk : pids[k]? = some pid)
    (hj : pids[j]? = some pid) : k = j := by
  obtain ⟨hlt, -⟩ := List.getElem?_eq_some_iff.mp hk
  exact (List.getElem?_inj hlt h.nodup).mp (hk.trans hj.symm)

theorem Launched.pos (h : Launched pids) (hk : pids[k]? = some pid) : 0 < pid :=
  h.positive pid (List.mem_of_getElem? hk)

/-- An item that is not marked is the pid launched there. -/
theorem Tracks.own (h : Tracks pids s trace) (hk : s.items[k]? = some pid) (hne : pid ≠ -1) :
    pids[k]? = some pid :=
  (h.item k pid hk).resolve_left hne

/-- At a place of the list there is the launched pid or the mark. -/
theorem Tracks.own_or_marked (h : Tracks pids s trace) (hk : pids[k]? = some pid) :
    s.items[k]? = some pid ∨ s.items[k]? = some (-1) := by
  obtain ⟨hlt, -⟩ := List.getElem?_eq_some_iff.mp hk
  obtain ⟨item, hitem⟩ : ∃ item, s.items[k]? = some item :=
    ⟨_, List.getElem?_eq_getElem (h.length.symm ▸ hlt)⟩
  rcases h.item k item hitem with rfl | hown
  · exact .inr hitem
  · exact .inl (hitem.trans (hown.symm.trans hk))

/-- A child not reaped has an item that is not marked. -/
theorem Tracks.item_of_unreaped (h : Tracks pids s trace) (hk : pids[k]? = some pid)
    (hu : Unreaped s pid) : s.items[k]? = some pid := by
  rcases h.own_or_marked hk with hown | hmark
  · exact hown
  · exact (h.marked k pid hmark hk hu).elim

theorem Tracks.positive (h : Tracks pids s trace) (hl : Launched pids) (hu : Unreaped s pid) :
    0 < pid :=
  hl.positive pid (h.launched pid hu)

end Lists

section Steps

variable {pids : List ℤ} {s s' : State} {trace : List Event} {pid answer : ℤ} {k : ℕ} {e : Event}

/-- The children that are left are all a state's invariant says of the kernel. -/
theorem Tracks.congr (h : Tracks pids s trace) (hitems : s'.items = s.items)
    (hu : ∀ pid, Unreaped s' pid ↔ Unreaped s pid) (hapart : ∀ pid ∈ s'.zombies, pid ∉ s'.alive) :
    Tracks pids s' trace where
  length := hitems ▸ h.length
  item := hitems ▸ h.item
  marked k pid hk hpid := by
    rw [hu]
    exact h.marked k pid (hitems ▸ hk) hpid
  apart := hapart
  table pid := (h.table pid).trans (hu pid).symm
  launched pid hpid := h.launched pid ((hu pid).mp hpid)

theorem Watching.congr (h : Watching pids s trace) (hitems : s'.items = s.items)
    (hcount : s'.pidCount = s.pidCount) (hcontrol : s'.control = s.control)
    (hu : ∀ pid, Unreaped s' pid ↔ Unreaped s pid) (htracks : Tracks pids s' trace) :
    Watching pids s' trace := by
  have hreached : reached s' = reached s := by rw [reached, reached, hcontrol, hitems]
  refine ⟨htracks, hcontrol ▸ h.early, ?_, ?_, ?_, h.quiet⟩
  · intro k pid hk hpid hitem hgone
    exact h.seen k pid (hreached ▸ hk) hpid (hitems ▸ hitem) (mt (hu pid).mpr hgone)
  · intro k j pid hkj hpid hj
    rw [hitems, hu]
    exact h.strayed k j pid hkj hpid hj
  · intro k pid hk hpid hleft
    exact hcount ▸ h.counted k pid (hreached ▸ hk) hpid ((hu pid).mp hleft)

theorem Sweeping.congr (h : Sweeping pids s trace k) (hitems : s'.items = s.items)
    (hu : ∀ pid, Unreaped s' pid ↔ Unreaped s pid) (htracks : Tracks pids s' trace) :
    Sweeping pids s' trace k where
  tracks := htracks
  ahead m pid hm hitem hne := (hu pid).trans (h.ahead m pid hm (hitems ▸ hitem) hne)
  behind := hitems ▸ h.behind
  unmarked := hitems ▸ h.unmarked

theorem Kept.congr (h : Kept pids s trace) (hitems : s'.items = s.items)
    (hcount : s'.pidCount = s.pidCount) (hcontrol : s'.control = s.control)
    (hu : ∀ pid, Unreaped s' pid ↔ Unreaped s pid) (hapart : ∀ pid ∈ s'.zombies, pid ∉ s'.alive) :
    Kept pids s' trace := by
  have htracks {trace} (h : Tracks pids s trace) : Tracks pids s' trace := h.congr hitems hu hapart
  unfold Kept at h ⊢
  rw [hcontrol]
  cases hc : s.control with
  | head | poll =>
    rw [hc] at h
    exact h.congr hitems hcount hcontrol hu (htracks h.tracks)
  | kill =>
    rw [hc] at h
    exact h.congr hitems hu (htracks h.tracks)
  | wait =>
    rw [hc] at h
    exact ⟨h.1, h.2.congr hitems hu (htracks h.2.tracks)⟩
  | finished =>
    rw [hc] at h
    obtain ⟨k, hk, h⟩ := h
    exact ⟨k, hk, h.congr hitems hu (htracks h.tracks)⟩

theorem Kept.tracks (h : Kept pids s trace) : Tracks pids s trace := by
  unfold Kept at h
  split at h
  · exact h.tracks
  · exact h.tracks
  · exact h.tracks
  · exact h.2.tracks
  · obtain ⟨k, -, h⟩ := h
    exact h.tracks

/-- A child that exits is not yet reaped. -/
theorem Kept.exit (h : Kept pids s trace) (hpid : pid ∈ s.alive) :
    Kept pids (next s (.exit pid)).1 trace := by
  refine h.congr rfl rfl rfl (fun q => ?_) (fun q hq => ?_)
  · by_cases hq : q = pid
    · simp [Unreaped, next, hq, hpid]
    · simp [Unreaped, next, hq]
  · simp only [next, List.mem_cons, List.mem_filter, decide_eq_true_eq, not_and, not_not] at hq ⊢
    intro halive
    rcases hq with rfl | hq
    · rfl
    · exact (h.tracks.apart q hq halive).elim

theorem unreaped_reap (halive : answer ∉ s.alive) (pid : ℤ) :
    Unreaped (reap s answer) pid ↔ Unreaped s pid ∧ pid ≠ answer := by
  by_cases hpid : pid = answer
  · subst hpid
    simp [Unreaped, reap, halive]
  · simp [Unreaped, reap, hpid]

/-- What a `waitpid` keeps, when an item is marked only if its child is the one reaped. -/
theorem Tracks.waitpid (h : Tracks pids s trace) (hl : Launched pids) {target : ℤ} {nohang : Bool}
    (he : e.calls = [.waitpid target nohang answer]) (halive : answer ∉ s.alive)
    (hkernel : s'.alive = s.alive ∧ s'.zombies = (reap s answer).zombies)
    (hitems : s'.items = s.items ∨ ∃ k, s'.items = s.items.set k (-1) ∧
      ∀ pid, pids[k]? = some pid → Unreaped s pid → pid = answer) :
    Tracks pids s' (trace ++ [e]) := by
  have hu (pid : ℤ) : Unreaped s' pid ↔ Unreaped s pid ∧ pid ≠ answer := by
    rw [← unreaped_reap halive, Unreaped, hkernel.1, hkernel.2]
    rfl
  have hsmall (pid : ℤ) (hpid : pid ∈ s'.zombies) : pid ∈ s.zombies := by
    rw [hkernel.2] at hpid
    exact List.mem_of_mem_filter hpid
  refine ⟨?_, ?_, ?_, fun pid hpid => ?_, fun pid => ?_, fun pid hpid => ?_⟩
  · rcases hitems with hitems | ⟨k, hitems, -⟩
    · rw [hitems, h.length]
    · rw [hitems, List.length_set, h.length]
  · intro m pid hm
    rcases hitems with hitems | ⟨k, hitems, -⟩
    · exact h.item m pid (hitems ▸ hm)
    · rw [hitems, List.getElem?_set] at hm
      split_ifs at hm with hkm hlt
      · exact .inl (Option.some.inj hm).symm
      · exact h.item m pid hm
  · intro m pid hm hpid
    rw [hu]
    rintro ⟨hleft, hne⟩
    rcases hitems with hitems | ⟨k, hitems, hmark⟩
    · exact h.marked m pid (hitems ▸ hm) hpid hleft
    · rw [hitems, List.getElem?_set] at hm
      split_ifs at hm with hkm hlt
      · subst hkm
        exact hne (hmark pid hpid hleft)
      · exact h.marked m pid hm hpid hleft
  · rw [hkernel.1]
    exact h.apart pid (hsmall pid hpid)
  · have hcalls : calls [e] = [.waitpid target nohang answer] := by simp [calls, he]
    have hpos : ∀ q ∈ childrenAfter pids trace, 0 < q := fun q hq =>
      h.positive hl ((h.table q).mp hq)
    rw [childrenAfter_append, hcalls, List.foldl_cons, List.foldl_nil, mem_after_waitpid hpos, hu,
      h.table]
  · exact h.launched pid ((hu pid).mp hpid).1

theorem not_alive_of_pollable (h : Tracks pids s trace) (hl : Launched pids)
    (hanswer : Pollable s pid answer) : answer ∉ s.alive := by
  intro halive
  have hpos := h.positive hl (.inl halive)
  rcases hanswer.given with hzombie | rfl | rfl
  · exact h.apart answer hzombie halive
  · omega
  · omega

theorem zero_of_pollable (h : Tracks pids s trace) (hl : Launched pids)
    (hanswer : Pollable s pid answer) (hgone : ¬ (answer = -1 ∨ answer > 0)) : answer = 0 := by
  rcases hanswer.given with hzombie | hzero | hminus
  · exact (hgone (.inr (h.positive hl (.inr hzombie)))).elim
  · exact hzero
  · exact (hgone (.inl hminus)).elim

/-- An item is marked only when its own child is reaped, now or before. -/
theorem reaped_of_pollable (h : Tracks pids s trace) (hl : Launched pids)
    (hitem : s.items[k]? = some pid) (hanswer : Pollable s pid answer) (hne : answer ≠ 0) (q : ℤ)
    (hq : pids[k]? = some q) (hleft : Unreaped s q) : q = answer := by
  have hown := h.item_of_unreaped hq hleft
  obtain rfl : q = pid := Option.some.inj (hown.symm.trans hitem)
  have hpos := hl.pos hq
  rcases hanswer.own (by omega) with ⟨-, hself⟩ | ⟨-, hzero⟩ | ⟨hzombie, halive, -⟩
  · exact hself.symm
  · exact (hne hzero).elim
  · exact (hleft.elim halive hzombie).elim

theorem mem_passing {polls : List (ℕ × ℤ × ℤ)} {i j : ℕ} {target result : ℤ} :
    (j, target, result) ∈ passing polls (.polled i pid answer) ↔
      (j, target, result) ∈ polls ∨ j = i ∧ target = pid ∧ result = answer := by
  simp [passing]

theorem Strayed.polled (h : Strayed pids trace pid) (i : ℕ) (target result : ℤ) :
    Strayed pids (trace ++ [.polled i target result]) pid := by
  obtain ⟨k, j, hkj, hpid, hj⟩ := h
  exact ⟨k, j, hkj, hpid, by rw [lastPass_append, mem_passing]; exact .inl hj⟩

theorem AllAimed.waitpid (h : AllAimed pids trace) {target : ℤ} {nohang : Bool}
    (he : e.calls = [.waitpid target nohang answer]) : AllAimed pids (trace ++ [e]) := by
  rw [allAimed_append]
  refine ⟨h, ?_⟩
  simp [calls, he, Along, ProcessCall.Aimed]

/-- The polls of a pass come in the order of the items. -/
theorem Watching.early_polled (h : Watching pids s trace) (hcontrol : s.control = .poll k) {j : ℕ}
    {target result : ℤ}
    (hj : (j, target, result) ∈ lastPass (trace ++ [.polled k pid answer])) : j < k + 1 := by
  rw [lastPass_append, mem_passing] at hj
  rcases hj with hj | ⟨rfl, -, -⟩
  · exact Nat.lt_succ_of_lt (h.early k j target result hcontrol hj)
  · exact Nat.lt_succ_self j

/-- The child of an item is there no more: the item is marked. -/
theorem Watching.mark (h : Watching pids s trace) (hl : Launched pids)
    (hcontrol : s.control = .poll k) (hitem : s.items[k]? = some pid)
    (hanswer : Pollable s pid answer) (hne : answer ≠ 0) :
    Watching pids { reap s answer with items := s.items.set k (-1), control := .poll (k + 1) }
      (trace ++ [.polled k pid answer]) := by
  have halive := not_alive_of_pollable h.tracks hl hanswer
  have howner := reaped_of_pollable h.tracks hl hitem hanswer hne
  have hreached : reached s = k := by rw [reached, hcontrol]
  have hu := unreaped_reap halive
  constructor
  · exact h.tracks.waitpid hl rfl halive ⟨rfl, rfl⟩ (.inr ⟨k, rfl, howner⟩)
  · intro _ j target result hk hj
    obtain rfl := Control.poll.inj hk
    exact h.early_polled hcontrol hj
  · intro m q hm hq hitem' hgone
    have hpos := hl.pos hq
    have hmk : m ≠ k := by
      rintro rfl
      rw [List.getElem?_set_self' , hitem] at hitem'
      simp at hitem'
      omega
    have hlt : m < k := by
      simp only [reached] at hm
      omega
    rw [List.getElem?_set_ne hmk.symm] at hitem'
    by_cases hleft : Unreaped s q
    · obtain rfl : q = answer := by
        by_contra hqa
        exact hgone ((hu q).mpr ⟨hleft, hqa⟩)
      refine ⟨m, k, hlt, hq, ?_⟩
      rw [lastPass_append, mem_passing]
      refine .inr ⟨rfl, ?_, rfl⟩
      -- the poll of an item of its own would have been that of item m
      rcases hanswer.reaped hpos with hmark | rfl
      · exact hmark.symm
      · exact (hmk (hl.index hq (h.tracks.own hitem (by omega)))).elim
    · exact (h.seen m q (hreached ▸ hlt) hq hitem' hleft).polled k pid answer
  · intro m j q hmj hq hj
    rw [lastPass_append, mem_passing] at hj
    have hkept (hmk : m < k) (hown : s.items[m]? = some q) : (s.items.set k (-1))[m]? = some q := by
      rw [List.getElem?_set_ne (by omega)]
      exact hown
    rcases hj with hj | ⟨rfl, rfl, rfl⟩
    · obtain ⟨hown, hgone⟩ := h.strayed m j q hmj hq hj
      have hjk := h.early k j (-1) q hcontrol hj
      exact ⟨hkept (by omega) hown, fun hleft => hgone ((hu q).mp hleft).1⟩
    · have hpos := hl.pos hq
      have hzombie : q ∈ s.zombies := hanswer.given.resolve_right (by omega)
      exact ⟨hkept hmj (h.tracks.item_of_unreaped hq (.inr hzombie)),
        fun hleft => ((hu q).mp hleft).2 rfl⟩
  · intro m q hm hq hleft
    obtain ⟨hold, hqa⟩ := (hu q).mp hleft
    rcases Nat.lt_succ_iff_lt_or_eq.mp hm with hlt | rfl
    · exact h.counted m q (hreached ▸ hlt) hq hold
    · exact (hqa (howner q hq hold)).elim
  · exact h.quiet.waitpid rfl

/-- A child that still runs is counted, and so is an item marked before while any child runs. -/
theorem Watching.count (h : Watching pids s trace) (hl : Launched pids)
    (hcontrol : s.control = .poll k) (hitem : s.items[k]? = some pid)
    (hanswer : Pollable s pid 0) :
    Watching pids { s with pidCount := s.pidCount + 1, control := .poll (k + 1) }
      (trace ++ [.polled k pid 0]) := by
  have halive := not_alive_of_pollable h.tracks hl hanswer
  have hreached : reached s = k := by rw [reached, hcontrol]
  have hzombies : s.zombies = (reap s 0).zombies := by
    refine (List.filter_eq_self.mpr fun q hq => ?_).symm
    have hpos := h.tracks.positive hl (.inr hq)
    simp only [decide_eq_true_eq]
    omega
  constructor
  · exact h.tracks.waitpid hl rfl halive ⟨rfl, hzombies⟩ (.inl rfl)
  · intro _ j target result hk hj
    obtain rfl := Control.poll.inj hk
    exact h.early_polled hcontrol hj
  · intro m q hm hq hitem' hgone
    rcases Nat.lt_succ_iff_lt_or_eq.mp hm with hlt | rfl
    · exact (h.seen m q (hreached ▸ hlt) hq hitem' hgone).polled k pid 0
    · obtain rfl : q = pid := Option.some.inj (hitem'.symm.trans hitem)
      have hpos := hl.pos hq
      rcases hanswer.own (by omega) with ⟨-, hzero⟩ | ⟨hruns, -⟩ | ⟨-, -, hminus⟩
      · omega
      · exact (hgone (.inl hruns)).elim
      · omega
  · intro m j q hmj hq hj
    rw [lastPass_append, mem_passing] at hj
    rcases hj with hj | ⟨-, -, rfl⟩
    · exact h.strayed m j q hmj hq hj
    · exact (Int.lt_irrefl 0 (hl.pos hq)).elim
  · exact fun _ _ _ _ _ => Nat.succ_pos _
  · exact h.quiet.waitpid rfl

/-- A pass ends, and the next test comes. -/
theorem Watching.pause (h : Watching pids s trace) (hcontrol : s.control = .poll k)
    (hitem : s.items[k]? = none) : Watching pids { s with control := .head } trace := by
  have hlength : s.items.length ≤ k := List.getElem?_eq_none_iff.mp hitem
  have hreached : reached s = k := by rw [reached, hcontrol]
  have hlt {m : ℕ} (hm : m < s.items.length) : m < reached s := by
    rw [hreached]
    exact Nat.lt_of_lt_of_le hm hlength
  constructor
  · exact h.tracks.congr rfl (fun _ => Iff.rfl) h.tracks.apart
  · nofun
  · exact fun m q hm => h.seen m q (hlt hm)
  · exact h.strayed
  · exact fun m q hm => h.counted m q (hlt hm)
  · exact h.quiet

/-- Another pass begins, and what the last one missed will be seen. -/
theorem Watching.again (h : Watching pids s trace) :
    Watching pids { s with pidCount := 0, control := .poll 0 } (trace ++ [.pass]) := by
  have htracks : Tracks pids s (trace ++ [.pass]) :=
    ⟨h.tracks.length, h.tracks.item, h.tracks.marked, h.tracks.apart,
      by simpa [childrenAfter_append, calls, Event.calls] using h.tracks.table, h.tracks.launched⟩
  constructor
  · exact htracks.congr rfl (fun _ => Iff.rfl) h.tracks.apart
  · intro k j target result _ hj
    simp [passing] at hj
  · exact fun m q hm => (Nat.not_lt_zero m hm).elim
  · intro m j q _ _ hj
    simp [passing] at hj
  · exact fun m q hm => (Nat.not_lt_zero m hm).elim
  · rw [allAimed_append]
    exact ⟨h.quiet, trivial⟩

/-- Items that are not marked when the loop ends have their child, unless it strayed. -/
theorem Watching.stop (h : Watching pids s trace) (hcontrol : s.control = .head) :
    Sweeping pids { s with control := .kill 0 } trace 0 := by
  have hreached : reached s = s.items.length := by rw [reached, hcontrol]
  constructor
  · exact h.tracks.congr rfl (fun _ => Iff.rfl) h.tracks.apart
  · intro m q _ hitem hne
    have hown := h.tracks.own hitem hne
    constructor
    · rintro hleft ⟨k, j, hkj, hpid, hj⟩
      exact (h.strayed k j q hkj hpid hj).2 hleft
    · intro hstray
      by_contra hgone
      obtain ⟨hlt, -⟩ := List.getElem?_eq_some_iff.mp hitem
      exact hstray (h.seen m q (hreached ▸ hlt) hown hitem hgone)
  · exact ⟨fun _ m _ hm => (Nat.not_lt_zero m hm).elim, fun _ => h.quiet⟩
  · rintro q ⟨k, j, hkj, hpid, hj⟩
    exact List.mem_of_getElem? (h.strayed k j q hkj hpid hj).1

/-- Going on in the final loop without a call. -/
theorem Sweeping.skip (h : Sweeping pids s trace k)
    (hmark : ∀ pid, s.items[k]? = some pid → pid = -1) (control : Control) :
    Sweeping pids { s with control } trace (k + 1) where
  tracks := h.tracks.congr rfl (fun _ => Iff.rfl) h.tracks.apart
  ahead m pid hm := h.ahead m pid (Nat.le_of_succ_le hm)
  behind := by
    rw [h.behind]
    refine ⟨fun hall m pid hm hitem hne => ?_, fun hall m pid hm => hall m pid (by omega)⟩
    rcases Nat.lt_succ_iff_lt_or_eq.mp hm with hlt | rfl
    · exact hall m pid hlt hitem hne
    · exact (hne (hmark pid hitem)).elim
  unmarked := h.unmarked

/-- A kill hits a child exactly when the item's child did not stray. -/
theorem Sweeping.kill (h : Sweeping pids s trace k) (hl : Launched pids)
    (hitem : s.items[k]? = some pid) (hne : pid ≠ -1) (control : Control) :
    Sweeping pids { s with control } (trace ++ [.killed pid answer]) (k + 1) := by
  have hstrayed (q : ℤ) : Strayed pids (trace ++ [.killed pid answer]) q ↔ Strayed pids trace q :=
    strayed_append rfl q
  have hlaunched := h.tracks.own hitem hne
  have hpos := hl.pos hlaunched
  have htable : childrenAfter pids (trace ++ [.killed pid answer]) = childrenAfter pids trace := by
    rw [childrenAfter_append]
    rfl
  constructor
  · exact ⟨h.tracks.length, h.tracks.item, h.tracks.marked, h.tracks.apart,
      htable ▸ h.tracks.table, h.tracks.launched⟩
  · intro m q hm hq hqne
    rw [hstrayed]
    exact h.ahead m q (Nat.le_of_succ_le hm) hq hqne
  · have haimed : Along ProcessCall.after ProcessCall.Aimed (childrenAfter pids trace)
        (calls [.killed pid answer]) ↔ ¬ Strayed pids trace pid := by
      rw [← h.ahead k pid (Nat.le_refl k) hitem hne, ← h.tracks.table]
      simp [calls, Event.calls, Along, ProcessCall.Aimed, hpos]
    rw [allAimed_append, haimed, h.behind]
    simp only [hstrayed]
    constructor
    · rintro ⟨hall, hself⟩ m q hm hq hqne
      rcases Nat.lt_succ_iff_lt_or_eq.mp hm with hlt | rfl
      · exact hall m q hlt hq hqne
      · obtain rfl : q = pid := Option.some.inj (hq.symm.trans hitem)
        exact hself
    · exact fun hall => ⟨fun m q hm => hall m q (Nat.lt_succ_of_lt hm),
        hall k pid (Nat.lt_succ_self k) hitem hne⟩
  · intro q hq
    exact h.unmarked q ((hstrayed q).mp hq)

theorem Sweeping.wait (h : Sweeping pids s trace (k + 1)) (hl : Launched pids)
    (hitem : s.items[k]? = some pid) (hanswer : Waitable s pid answer) (control : Control) :
    Sweeping pids { reap s answer with control } (trace ++ [.waited pid answer]) (k + 1) := by
  have hstrayed (q : ℤ) : Strayed pids (trace ++ [.waited pid answer]) q ↔ Strayed pids trace q :=
    strayed_append rfl q
  have halive : answer ∉ s.alive := by
    intro halive
    have hpos := h.tracks.positive hl (.inl halive)
    rcases hanswer with rfl | ⟨rfl, hzombie⟩
    · omega
    · exact h.tracks.apart answer hzombie halive
  constructor
  · exact h.tracks.waitpid hl rfl halive ⟨rfl, rfl⟩ (.inl rfl)
  · intro m q hm hq hqne
    rw [hstrayed, ← h.ahead m q hm hq hqne]
    refine (unreaped_reap halive q).trans (and_iff_left ?_)
    rintro rfl
    rcases hanswer with rfl | ⟨rfl, -⟩
    · exact hqne rfl
    · have hmk := hl.index (h.tracks.own hq hqne) (h.tracks.own hitem hqne)
      omega
  · have haimed : Along ProcessCall.after ProcessCall.Aimed (childrenAfter pids trace)
        (calls [.waited pid answer]) := ⟨trivial, trivial⟩
    rw [allAimed_append, and_iff_left haimed, h.behind]
    simp only [hstrayed]
    rfl
  · intro q hq
    exact h.unmarked q ((hstrayed q).mp hq)

theorem kept_start (hl : Launched pids) : Kept pids (start pids) [] := by
  have hall (pid : ℤ) : Unreaped (start pids) pid ↔ pid ∈ pids := by simp [Unreaped, start]
  constructor
  · refine ⟨rfl, fun k pid hk => .inr hk, fun k pid hk _ _ => ?_, nofun, fun pid => (hall pid).symm,
      fun pid => (hall pid).mp⟩
    exact absurd (hl.pos hk) (by omega)
  · nofun
  · exact fun k pid _ hpid _ hgone => (hgone ((hall pid).mpr (List.mem_of_getElem? hpid))).elim
  · nofun
  · exact fun k pid hk _ _ => Nat.zero_lt_of_lt hk
  · trivial

/-- The program's own steps. -/
theorem kept_advance (h : Kept pids s trace) (hl : Launched pids)
    (hanswer : Possible s (.advance answer)) :
    Kept pids (advance s answer).1 (trace ++ (advance s answer).2) := by
  unfold Kept at h
  unfold advance Possible at *
  cases hcontrol : s.control with
  | head =>
    simp only [hcontrol] at h ⊢
    split
    · exact h.again
    · rw [List.append_nil]
      exact h.stop hcontrol
  | poll k =>
    simp only [hcontrol] at h hanswer ⊢
    cases hitem : s.items[k]? with
    | none =>
      rw [List.append_nil]
      exact h.pause hcontrol hitem
    | some pid =>
      have hpoll : Pollable s pid answer := hanswer pid hitem
      simp only [poll]
      split
      · exact h.mark hl hcontrol hitem hpoll (by omega)
      · rename_i hgone
        obtain rfl := zero_of_pollable h.tracks hl hpoll hgone
        exact h.count hl hcontrol hitem hpoll
  | kill k =>
    simp only [hcontrol] at h ⊢
    cases hitem : s.items[k]? with
    | none =>
      rw [List.append_nil]
      have hlength : s.items.length ≤ k := List.getElem?_eq_none_iff.mp hitem
      exact ⟨k + 1, Nat.le_succ_of_le (h.tracks.length ▸ hlength),
        h.skip (by simp [hitem]) .finished⟩
    | some pid =>
      by_cases hmark : pid = -1
      · simp only [hmark, if_true, List.append_nil]
        exact h.skip (by simp [hitem, hmark]) (.kill (k + 1))
      · simp only [if_neg hmark]
        by_cases hfailed : answer = -1
        · simp only [if_pos hfailed]
          exact h.kill hl hitem hmark (.kill (k + 1))
        · simp only [if_neg hfailed]
          obtain ⟨hlt, -⟩ := List.getElem?_eq_some_iff.mp hitem
          exact ⟨h.tracks.length ▸ hlt, h.kill hl hitem hmark (.wait k)⟩
  | wait k =>
    simp only [hcontrol] at h hanswer ⊢
    obtain ⟨hlt, h⟩ := h
    cases hitem : s.items[k]? with
    | none =>
      have hlength : s.items.length ≤ k := List.getElem?_eq_none_iff.mp hitem
      exact (Nat.not_lt.mpr (h.tracks.length ▸ hlength) hlt).elim
    | some pid => exact h.wait hl hitem (hanswer pid hitem) (.kill (k + 1))
  | finished =>
    simp only [hcontrol] at h ⊢
    rw [List.append_nil, Kept, hcontrol]
    exact h

theorem kept_step {i : Input} {out : List Event} (hl : Launched pids) (h : Kept pids s trace)
    (hstep : Step s i out s') : Kept pids s' (trace ++ out) := by
  obtain ⟨hpossible, hnext⟩ := hstep
  obtain ⟨rfl, rfl⟩ := Prod.mk.inj hnext
  cases i with
  | exit pid =>
    have hkept := h.exit hpossible
    rwa [← List.append_nil trace] at hkept
  | interrupt =>
    have hkept : Kept pids { s with running := false } trace :=
      h.congr rfl rfl rfl (fun _ => Iff.rfl) h.tracks.apart
    rwa [← List.append_nil trace] at hkept
  | advance answer => exact kept_advance h hl hpossible

theorem kept_of_execution {is : List Input} (hl : Launched pids)
    (run : Execution Step (start pids) is trace s) : Kept pids s trace :=
  run.history (fun _ _ _ _ _ h hstep => kept_step hl h hstep) (kept_start hl)

end Steps

section Runs

variable {pids : List ℤ} {s : State} {is : List Input} {trace : List Event}

/-- As long as no marked item's poll takes another item's child after that item was polled in the
last pass, the runner kills children of its own only; and a whole run does so only then. -/
theorem kills_aimed_iff (hl : Launched pids) (run : Execution Step (start pids) is trace s) :
    ((∀ pid, ¬ Strayed pids trace pid) → AllAimed pids trace) ∧
      (s.control = .finished → AllAimed pids trace → ∀ pid, ¬ Strayed pids trace pid) := by
  have h := kept_of_execution hl run
  unfold Kept at h
  constructor
  · intro hstray
    split at h
    · exact h.quiet
    · exact h.quiet
    · exact h.behind.mpr fun _ pid _ _ _ => hstray pid
    · exact h.2.behind.mpr fun _ pid _ _ _ => hstray pid
    · obtain ⟨k, -, h⟩ := h
      exact h.behind.mpr fun _ pid _ _ _ => hstray pid
  · intro hfinished haimed pid hstray
    simp only [hfinished] at h
    obtain ⟨k, hk, h⟩ := h
    obtain ⟨m, hm⟩ := List.mem_iff_getElem?.mp (h.unmarked pid hstray)
    obtain ⟨hlt, -⟩ := List.getElem?_eq_some_iff.mp hm
    have hpos : 0 < pid := by
      obtain ⟨j, -, -, hpid, -⟩ := hstray
      exact hl.pos hpid
    rw [h.tracks.length] at hlt
    exact h.behind.mp haimed m pid (Nat.lt_of_lt_of_le hlt hk) hm (by omega) hstray

/-- One child is killed and reaped after SIGINT; none strayed. -/
def killed : List Input :=
  [.advance 0, .advance 0, .interrupt, .advance 0, .advance 0, .advance 0, .exit 7, .advance 7,
    .advance 0]

theorem kills_aimed_one_child : ∃ trace s, Execution Step (start [7]) killed trace s ∧
    s.control = .finished ∧ (.killed 7 0) ∈ trace ∧ AllAimed [7] trace ∧
    ∀ pid, ¬ Strayed [7] trace pid := by
  have hrun := execution_of_allowed Possible next (start [7]) killed (by decide +kernel)
  have haimed : AllAimed [7] (visitAll next (start [7]) killed).2 := by decide +kernel
  exact ⟨_, _, hrun, by decide +kernel, by decide +kernel, haimed,
    (kills_aimed_iff ⟨by decide, by decide⟩ hrun).2 (by decide +kernel) haimed⟩

/-- The second child exits and is marked. In the next pass the first one runs when it is polled,
exits, and is reaped by the poll of the mark. Then SIGINT comes. -/
def straying : List Input :=
  [.advance 0, .exit 8, .advance 0, .advance 8, .advance 0, .advance 0, .advance 0, .exit 7,
    .advance 7, .advance 0, .interrupt, .advance 0, .advance (-1), .advance 0, .advance 0]

theorem reaped_child_killed : Launched [7, 8] ∧
    ∃ trace s, Execution Step (start [7, 8]) straying trace s ∧ ¬ AllAimed [7, 8] trace :=
  ⟨⟨by decide, by decide⟩, _, _,
    execution_of_allowed Possible next (start [7, 8]) straying (by decide +kernel),
    by decide +kernel⟩

/-- When the loop ends by itself, every child has exited and some `waitpid` reaped it. -/
theorem all_reaped (hl : Launched pids) (run : Execution Step (start pids) is trace s)
    (hcontrol : s.control = .head) (hends : ¬ (s.running = true ∧ s.pidCount ≠ 0))
    (hrunning : s.running = true) : s.alive = [] ∧ s.zombies = [] ∧
      ∀ pid ∈ pids, ∃ target nohang, .waitpid target nohang pid ∈ calls trace := by
  have hcount : s.pidCount = 0 := by
    by_contra hne
    exact hends ⟨hrunning, hne⟩
  have h : Watching pids s trace := by
    have h := kept_of_execution hl run
    rwa [Kept, hcontrol] at h
  have hreached : reached s = pids.length := by rw [reached, hcontrol, ← h.tracks.length]
  have hgone (pid : ℤ) : ¬ Unreaped s pid := by
    intro hleft
    obtain ⟨k, hk⟩ := List.mem_iff_getElem?.mp (h.tracks.launched pid hleft)
    obtain ⟨hlt, -⟩ := List.getElem?_eq_some_iff.mp hk
    have hpositive := h.counted k pid (hreached ▸ hlt) hk hleft
    omega
  refine ⟨List.eq_nil_iff_forall_not_mem.mpr fun pid hpid => hgone pid (.inl hpid),
    List.eq_nil_iff_forall_not_mem.mpr fun pid hpid => hgone pid (.inr hpid), fun pid hpid => ?_⟩
  exact reaped_of_not_mem hpid (mt (h.tracks.table pid).mp (hgone pid))

/-- Both children exit, one of them reaped by the poll of the other's mark. -/
def strayingHome : List Input :=
  [.advance 0, .exit 8, .advance 0, .advance 8, .advance 0, .advance 0, .advance 0, .exit 7,
    .advance 7, .advance 0, .advance 0, .advance (-1), .advance (-1), .advance 0]

theorem all_reaped_two_children : ∃ trace s,
    Execution Step (start [7, 8]) strayingHome trace s ∧ s.alive = [] ∧ s.zombies = [] ∧
    ∀ pid ∈ [7, 8], ∃ target nohang, .waitpid target nohang pid ∈ calls trace := by
  have hrun := execution_of_allowed Possible next (start [7, 8]) strayingHome (by decide +kernel)
  exact ⟨_, _, hrun, all_reaped ⟨by decide, by decide⟩ hrun (by decide +kernel) (by decide +kernel)
    (by decide +kernel)⟩

end Runs

end RunnerChildren
