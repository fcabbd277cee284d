import TunnelPublishers.RunnerConfig
import TunnelPublishers.RunnerChildren

/-!
# How the runner ends

After SIGINT, or once every child has exited, the runner comes to its end in a
bounded number of its own steps, whatever happens in between, and leaves no
child behind that it has neither reaped nor killed.
-/
namespace RunnerShutdown

open ByteOrder ExecutionTraces KernelTables RunnerMonitor RunnerChildren

def isAdvance : Input → Bool
  | .exit _ => false
  | .interrupt => false
  | .advance _ => true

/-- Nothing keeps the program in its monitor loop. -/
def Stopping (s : State) : Prop := s.running = false ∨ s.alive = []

/-- The steps of the last loop, from its item `i` on. -/
def sweepRank (n i : ℕ) : ℕ := 2 * (n - i) + 1

/-- The steps from the head of the monitor loop on: another pass if children were counted. -/
def headRank (s : State) : ℕ :=
  sweepRank s.items.length 0 + 1 +
    if s.running = true ∧ s.pidCount ≠ 0 then s.items.length + 2 else 0

/-- How many steps the program still makes at most. -/
def rank (s : State) : ℕ :=
  match s.control with
  | .head => headRank s
  | .poll i => s.items.length - i + 1 + headRank s
  | .kill i => sweepRank s.items.length i
  | .wait i => sweepRank s.items.length (i + 1) + 1
  | .finished => 0

theorem headRank_le (s : State) : headRank s ≤ 3 * s.items.length + 4 := by
  unfold headRank sweepRank
  split <;> omega

theorem rank_le (s : State) : rank s ≤ 4 * s.items.length + 5 := by
  have hhead := headRank_le s
  unfold rank sweepRank
  split <;> omega

theorem finished_of_rank {s : State} (h : rank s = 0) : s.control = .finished := by
  unfold rank sweepRank headRank at h
  split at h
  case h_5 hcontrol => exact hcontrol
  all_goals omega

section Steps

variable {pids : List ℤ} {s s' : State} {trace : List Event} {pid answer : ℤ} {k : ℕ}
  {i : Input} {out : List Event}

/-- With no child alive, a poll counts nothing. -/
theorem poll_gone (h : Tracks pids s trace) (hl : Launched pids) (halive : s.alive = [])
    (hanswer : Pollable s pid answer) : answer = -1 ∨ answer > 0 := by
  by_contra hgone
  obtain rfl := zero_of_pollable h hl hanswer hgone
  have hzero : (0 : ℤ) ∉ s.zombies := fun hz => absurd (h.positive hl (.inr hz)) (lt_irrefl 0)
  by_cases hpid : pid = -1
  · subst hpid
    rcases hanswer.any with hz | ⟨-, hsome, -⟩ | ⟨-, -, hfail⟩
    · exact hzero hz
    · exact hsome halive
    · omega
  · rcases hanswer.own hpid with ⟨hz, rfl⟩ | ⟨hrun, -⟩ | ⟨-, -, hfail⟩
    · exact hzero hz
    · rw [halive] at hrun
      cases hrun
    · omega

theorem advance_rank (h : Kept pids s trace) (hl : Launched pids) (hstop : Stopping s)
    (hanswer : Possible s (.advance answer)) : rank (advance s answer).1 ≤ rank s - 1 := by
  unfold advance Possible at *
  cases hcontrol : s.control with
  | head =>
    simp only [rank, hcontrol]
    by_cases hagain : s.running = true ∧ s.pidCount ≠ 0
    · simp [hagain, headRank]
      omega
    · simp [hagain, headRank]
  | poll k =>
    simp only [hcontrol] at hanswer ⊢
    cases hitem : s.items[k]? with
    | none => simp [rank, hcontrol, headRank]
    | some pid =>
      obtain ⟨hlt, -⟩ := List.getElem?_eq_some_iff.mp hitem
      by_cases hgone : answer = -1 ∨ answer > 0
      · simp only [poll, hgone, ↓reduceIte, rank, hcontrol, headRank, reap, List.length_set]
        omega
      · -- A child that is counted is alive, so the loop ends because of SIGINT.
        have hquit : s.running = false := by
          rcases hstop with hquit | halive
          · exact hquit
          · exact absurd (poll_gone h.tracks hl halive (hanswer pid hitem)) hgone
        simp only [poll, hgone, ↓reduceIte, rank, hcontrol, headRank, hquit, Bool.false_eq_true,
          false_and]
        omega
  | kill k =>
    simp only
    cases hitem : s.items[k]? with
    | none => simp [rank, hcontrol]
    | some pid =>
      obtain ⟨hlt, -⟩ := List.getElem?_eq_some_iff.mp hitem
      have hnext : rank s - 1 = 2 * (s.items.length - (k + 1)) + 2 := by
        simp only [rank, hcontrol, sweepRank]
        omega
      rw [hnext]
      by_cases hmark : pid = -1
      · simp [hmark, rank, sweepRank]
      · by_cases hfailed : answer = -1
        · simp [hmark, hfailed, rank, sweepRank]
        · simp [hmark, hfailed, rank, sweepRank]
  | wait k =>
    simp only
    cases hitem : s.items[k]? with
    | none => simp [rank]
    | some pid => simp [rank, hcontrol, reap]
  | finished => simp [rank, hcontrol]

theorem step_rank (h : Kept pids s trace) (hl : Launched pids) (hstop : Stopping s)
    (hstep : Step s i out s') : rank s' ≤ rank s - if isAdvance i then 1 else 0 := by
  obtain ⟨hpossible, hnext⟩ := hstep
  obtain ⟨rfl, -⟩ := Prod.mk.inj hnext
  cases i with
  | exit pid =>
    -- An exit moves a child between the kernel's tables only.
    exact le_refl (rank s)
  | interrupt =>
    simp only [isAdvance, Bool.false_eq_true, ↓reduceIte, Nat.sub_zero, rank, headRank]
    split <;> simp
  | advance answer => exact advance_rank h hl hstop hpossible

/-! ### What becomes of the children -/

/-- The child was killed and waited for, or could not be killed. -/
def Ended (trace : List Event) (pid : ℤ) : Prop :=
  .killed pid (-1) ∈ trace ∨ (∃ result, .killed pid result ∈ trace) ∧ ∃ w, .waited pid w ∈ trace

/-- The items that the last loop has been through. -/
def swept (s : State) : ℕ :=
  match s.control with
  | .head => 0
  | .poll _ => 0
  | .kill k => k
  | .wait k => k
  | .finished => s.items.length

structure Accounted (s : State) (trace : List Event) : Prop where
  done : ∀ (m : ℕ) (pid : ℤ), m < swept s → s.items[m]? = some pid → pid ≠ -1 → Ended trace pid
  waiting : ∀ (k : ℕ) (pid : ℤ), s.control = .wait k → s.items[k]? = some pid →
    ∃ result, .killed pid result ∈ trace

theorem Ended.append (h : Ended trace pid) (out : List Event) : Ended (trace ++ out) pid := by
  rcases h with hfailed | ⟨⟨result, hkilled⟩, w, hwaited⟩
  · exact .inl (List.mem_append_left _ hfailed)
  · exact .inr ⟨⟨result, List.mem_append_left _ hkilled⟩, w, List.mem_append_left _ hwaited⟩

/-- One more item is through. -/
theorem Accounted.item (h : Accounted s trace) (hswept : swept s = k) (hitems : s'.items = s.items)
    (hcontrol : s'.control = .kill (k + 1))
    (hk : ∀ pid, s.items[k]? = some pid → pid ≠ -1 → Ended (trace ++ out) pid) :
    Accounted s' (trace ++ out) := by
  constructor
  · intro m pid hm hitem hne
    rw [swept, hcontrol] at hm
    rw [hitems] at hitem
    rcases Nat.lt_succ_iff_lt_or_eq.mp hm with hlt | rfl
    · exact (h.done m pid (hswept ▸ hlt) hitem hne).append out
    · exact hk pid hitem hne
  · intro j pid hj
    simp [hcontrol] at hj

theorem Accounted.idle (h : Accounted s trace) (hitems : s'.items = s.items)
    (hcontrol : s'.control = s.control) : Accounted s' trace := by
  have hswept : swept s' = swept s := by simp only [swept, hcontrol, hitems]
  constructor
  · rw [hswept, hitems]
    exact h.done
  · rw [hcontrol, hitems]
    exact h.waiting

/-- The last loop ends behind the last item. -/
theorem Accounted.finish (h : Accounted s trace) (hswept : swept s = k)
    (hend : s.items[k]? = none) : Accounted { s with control := .finished } trace := by
  have hlength := List.getElem?_eq_none_iff.mp hend
  constructor
  · intro m pid hm hitem hne
    exact h.done m pid (hswept ▸ lt_of_lt_of_le hm hlength) hitem hne
  · intro j pid hj
    cases hj

theorem accounted_unswept (hswept : swept s = 0) (hwait : ∀ k, s.control ≠ .wait k) :
    Accounted s trace := by
  constructor
  · intro m pid hm
    omega
  · intro k pid hk
    exact absurd hk (hwait k)

theorem accounted_advance (h : Accounted s trace) (answer : ℤ) :
    Accounted (advance s answer).1 (trace ++ (advance s answer).2) := by
  unfold advance
  cases hcontrol : s.control with
  | head =>
    simp only
    split
    · exact accounted_unswept rfl (by simp)
    · exact accounted_unswept rfl (by simp)
  | poll k =>
    simp only
    cases hitem : s.items[k]? with
    | none => exact accounted_unswept rfl (by simp)
    | some pid =>
      simp only [poll]
      split
      · exact accounted_unswept rfl (by simp)
      · exact accounted_unswept rfl (by simp)
  | kill k =>
    have hswept : swept s = k := by simp only [swept, hcontrol]
    simp only
    cases hitem : s.items[k]? with
    | none =>
      rw [List.append_nil]
      exact h.finish hswept hitem
    | some pid =>
      by_cases hmark : pid = -1
      · simp only [hmark, ↓reduceIte]
        refine h.item hswept rfl rfl ?_
        intro pid' hpid' hne
        rw [hitem, hmark, Option.some.injEq] at hpid'
        exact absurd hpid'.symm hne
      · simp only [hmark, ↓reduceIte]
        by_cases hfailed : answer = -1
        · simp only [hfailed, ↓reduceIte]
          refine h.item hswept rfl rfl ?_
          intro pid' hpid' hne
          obtain rfl := Option.some.inj (hitem.symm.trans hpid')
          exact .inl (by simp)
        · simp only [hfailed, ↓reduceIte]
          constructor
          · intro m pid' hm hitem' hne
            exact (h.done m pid' (hswept ▸ hm) hitem' hne).append _
          · intro j pid' hj hitem'
            cases hj
            obtain rfl := Option.some.inj (hitem.symm.trans hitem')
            exact ⟨answer, by simp⟩
  | wait k =>
    have hswept : swept s = k := by simp only [swept, hcontrol]
    simp only
    cases hitem : s.items[k]? with
    | none =>
      rw [List.append_nil]
      exact h.finish hswept hitem
    | some pid =>
      refine h.item hswept rfl rfl ?_
      intro pid' hpid' hne
      obtain rfl := Option.some.inj (hitem.symm.trans hpid')
      obtain ⟨result, hkilled⟩ := h.waiting k pid hcontrol hitem
      exact .inr ⟨⟨result, List.mem_append_left _ hkilled⟩, answer, by simp⟩
  | finished =>
    rw [List.append_nil]
    exact h

theorem accounted_step (h : Accounted s trace) (hstep : Step s i out s') :
    Accounted s' (trace ++ out) := by
  obtain ⟨-, hnext⟩ := hstep
  obtain ⟨rfl, rfl⟩ := Prod.mk.inj hnext
  cases i with
  | exit pid =>
    simp only [List.append_nil]
    exact h.idle rfl rfl
  | interrupt =>
    simp only [List.append_nil]
    exact h.idle rfl rfl
  | advance answer => exact accounted_advance h answer

end Steps

/-! ### Runs -/

section Runs

variable {pids : List ℤ} {s u : State} {trace rest : List Event} {before later : List Input}

theorem stopping_step {i : Input} {out : List Event} (h : Stopping s) (hstep : Step s i out u) :
    Stopping u := by
  obtain ⟨hpossible, hnext⟩ := hstep
  obtain ⟨rfl, -⟩ := Prod.mk.inj hnext
  cases i with
  | exit pid =>
    rcases h with hquit | halive
    · exact .inl hquit
    · have hpid : pid ∈ s.alive := hpossible
      rw [halive] at hpid
      cases hpid
  | interrupt => exact .inl rfl
  | advance answer =>
    have hkeeps : (advance s answer).1.running = s.running ∧
        (advance s answer).1.alive = s.alive := by
      unfold advance
      split
      · split <;> exact ⟨rfl, rfl⟩
      · split
        · exact ⟨rfl, rfl⟩
        · unfold poll
          split <;> exact ⟨rfl, rfl⟩
      · split
        · exact ⟨rfl, rfl⟩
        · split <;> exact ⟨rfl, rfl⟩
      · split <;> exact ⟨rfl, rfl⟩
      · exact ⟨rfl, rfl⟩
    simpa only [next, Stopping, hkeeps.1, hkeeps.2] using h

/-- The program is at its end once it has made its last steps. -/
theorem finished_of_steps (hl : Launched pids) (hkept : Kept pids s trace) (hstop : Stopping s)
    (run : Execution Step s later rest u) (hmany : 4 * pids.length + 5 ≤ later.countP isAdvance) :
    u.control = .finished := by
  let I : State → Prop := fun s => Stopping s ∧ ∃ trace, Kept pids s trace
  have hI : ∀ s i out u, I s → Step s i out u → I u := by
    rintro s i out u ⟨hs, trace, hk⟩ hstep
    exact ⟨stopping_step hs hstep, trace ++ out, kept_step hl hk hstep⟩
  have hrank : ∀ s i out u, I s → Step s i out u →
      rank u ≤ rank s - if isAdvance i then 1 else 0 := by
    rintro s i out u ⟨hs, trace, hk⟩ hstep
    exact step_rank hk hl hs hstep
  have hdown := run.countdown (p := isAdvance) hI hrank ⟨hstop, trace, hkept⟩
  have hstart := rank_le s
  have hlength := hkept.tracks.length
  apply finished_of_rank
  omega

/-- A child is gone when the program ends: reaped, or killed and waited for, or out of reach. -/
theorem child_ended (hl : Launched pids) (run : Execution Step (start pids) before trace s)
    (hfinished : s.control = .finished) {pid : ℤ} (hpid : pid ∈ pids) :
    (∃ target nohang, .waitpid target nohang pid ∈ calls trace) ∨ Ended trace pid := by
  have hkept := kept_of_execution hl run
  have haccounted : Accounted s trace := run.history (fun _ _ _ _ _ => accounted_step)
    (accounted_unswept rfl (by simp [start]))
  obtain ⟨k, hk⟩ := List.mem_iff_getElem?.mp hpid
  obtain ⟨hlt, -⟩ := List.getElem?_eq_some_iff.mp hk
  rcases hkept.tracks.own_or_marked hk with hitem | hmark
  · right
    have hne : pid ≠ -1 := by
      have := hl.positive pid hpid
      omega
    refine haccounted.done k pid ?_ hitem hne
    rw [swept, hfinished, hkept.tracks.length]
    exact hlt
  · left
    exact reaped_of_not_mem hpid
      (mt (hkept.tracks.table pid).mp (hkept.tracks.marked k pid hmark hk))

end Runs

/-! ### From the configuration file to the end -/

section Loading

open RunnerConfig

variable {host : Host} {r r' : RunnerConfig.State} {l : Line} {past launched : List Launch}

/-- Nothing is waited for while the file is read, so `fork` gives no pid twice. -/
structure Forks (host : Host) : Prop where
  positive : ∀ k, host.fork k = -1 ∨ 0 < host.fork k
  distinct : ∀ k j, host.fork k ≠ -1 → host.fork k = host.fork j → k = j

/-- The pids noted are those of the launches, in order. -/
structure Forked (host : Host) (r : RunnerConfig.State) (launched : List Launch) : Prop where
  pids : r.pids = (List.range launched.length).map host.fork
  success : ∀ k < launched.length, host.fork k ≠ -1

theorem forked_zero (host : Host) : Forked host ⟨.zero, []⟩ [] := by
  constructor <;> simp

theorem Forked.cmd (h : Forked host r past) (cmd : RunnerCmd) :
    Forked host { r with cmd := cmd } (past ++ []) := by
  rw [List.append_nil]
  exact ⟨h.pids, h.success⟩

theorem Forked.execute (h : Forked host r past)
    (hexec : executeCommand host r = .ok (r', launched)) : Forked host r' (past ++ launched) := by
  have hlength : r.pids.length = past.length := by rw [h.pids, List.length_map, List.length_range]
  unfold executeCommand at hexec
  split at hexec
  · cases hexec
  dsimp only at hexec
  split at hexec
  · cases hexec
  rename_i hfork
  obtain ⟨rfl, rfl⟩ := Prod.mk.inj (Except.ok.inj hexec)
  rw [hlength] at hfork
  constructor
  · rw [h.pids, List.length_append, List.length_singleton, List.range_succ, List.map_append,
      List.length_map, List.length_range]
    rfl
  · intro k hk
    rw [List.length_append, List.length_singleton] at hk
    rcases Nat.lt_succ_iff_lt_or_eq.mp hk with hlt | rfl
    · exact h.success k hlt
    · exact hfork

theorem Forked.enter (h : Forked host r past)
    (henter : enterSection host r l = .ok (r', launched)) : Forked host r' (past ++ launched) := by
  unfold enterSection at henter
  split at henter
  · obtain ⟨rfl, rfl⟩ := Prod.mk.inj (Except.ok.inj henter)
    exact h.cmd r.cmd
  · dsimp only at henter
    split at henter
    · obtain ⟨⟨q, out⟩, hq, henter⟩ := ok_bind henter
      obtain ⟨cmd, -, henter⟩ := ok_bind henter
      obtain ⟨rfl, rfl⟩ := Prod.mk.inj (Except.ok.inj henter)
      have hforked := h.execute hq
      exact ⟨hforked.pids, hforked.success⟩
    · obtain ⟨q, hq, henter⟩ := ok_bind henter
      obtain ⟨cmd, -, henter⟩ := ok_bind henter
      obtain rfl := Except.ok.inj hq
      obtain ⟨rfl, rfl⟩ := Prod.mk.inj (Except.ok.inj henter)
      exact h.cmd _

theorem Forked.handle (h : Forked host r past) (hstep : iniHandle host r l = .ok (r', launched)) :
    Forked host r' (past ++ launched) := by
  unfold iniHandle at hstep
  split at hstep
  · obtain ⟨⟨q, out⟩, hq, hstep⟩ := ok_bind hstep
    obtain ⟨cmd, -, hstep⟩ := ok_bind hstep
    obtain ⟨cmd', -, hstep⟩ := ok_bind hstep
    obtain ⟨rfl, rfl⟩ := Prod.mk.inj (Except.ok.inj hstep)
    have hforked := h.enter hq
    exact ⟨hforked.pids, hforked.success⟩
  · cases hstep

theorem load_forked {file : List Entry} (hload : load host file = .ok (r, launched)) :
    Forked host r launched := by
  unfold load at hload
  obtain ⟨⟨q, out⟩, hq, hload⟩ := ok_bind hload
  have hforked : Forked host q out := (execution_of_runAll hq).history
    (fun _ _ _ _ _ h hstep => h.handle hstep) (forked_zero host)
  dsimp only at hload
  split at hload
  · obtain ⟨⟨q', last⟩, hq', hload⟩ := ok_bind hload
    obtain ⟨rfl, rfl⟩ := Prod.mk.inj (Except.ok.inj hload)
    exact hforked.execute hq'
  · obtain ⟨rfl, rfl⟩ := Prod.mk.inj (Except.ok.inj hload)
    exact hforked

theorem Forked.all_launched (h : Forked host r launched) (hforks : Forks host) :
    Launched r.pids := by
  constructor
  · intro pid hpid
    rw [h.pids, List.mem_map] at hpid
    obtain ⟨k, hk, rfl⟩ := hpid
    rcases hforks.positive k with hfailed | hpos
    · exact absurd hfailed (h.success k (List.mem_range.mp hk))
    · exact hpos
  · rw [h.pids]
    apply List.Nodup.map_on _ List.nodup_range
    intro k hk j hj heq
    exact hforks.distinct k j (h.success k (List.mem_range.mp hk)) heq

/-- The runner ends: once SIGINT has arrived or every child has exited, a number of its own steps
that only depends on the number of services brings it to its end, however the remaining exits,
further signals and the kernel's answers fall in between. Every service launched has then been
reaped, or killed and waited for, or could not be killed. -/
theorem runner_ends (hforks : Forks host) {file : List Entry}
    (hload : load host file = .ok (r, launched)) {before later : List RunnerMonitor.Input}
    {trace rest : List Event} {s u : RunnerMonitor.State}
    (run : Execution RunnerMonitor.Step (start r.pids) before trace s) (hstop : Stopping s)
    (run' : Execution RunnerMonitor.Step s later rest u)
    (hmany : 4 * launched.length + 5 ≤ later.countP isAdvance) :
    u.control = .finished ∧ ∀ k < launched.length,
      (∃ target nohang, .waitpid target nohang (host.fork k) ∈ calls (trace ++ rest)) ∨
        Ended (trace ++ rest) (host.fork k) := by
  have hforked := load_forked hload
  have hl := hforked.all_launched hforks
  have hlength : r.pids.length = launched.length := by
    rw [hforked.pids, List.length_map, List.length_range]
  have hfinished := finished_of_steps hl (kept_of_execution hl run) hstop run' (hlength ▸ hmany)
  refine ⟨hfinished, ?_⟩
  intro k hk
  apply child_ended hl (run.trans run') hfinished
  rw [hforked.pids]
  exact List.mem_map.mpr ⟨k, List.mem_range.mpr hk, rfl⟩

end Loading

def oneService : List RunnerConfig.Entry := [⟨text "a", text "exec", text "/a"⟩]

def host : RunnerConfig.Host := ⟨[], fun n => n + 7⟩

theorem host_forks : Forks host := by
  constructor
  · intro k
    right
    change (0 : ℤ) < k + 7
    omega
  · intro k j _ heq
    have hsum : (k : ℤ) + 7 = j + 7 := heq
    omega

theorem oneService_loaded :
    (RunnerConfig.load host oneService).map (fun r => (r.1.pids, r.2.length)) = .ok ([7], 1) := by
  decide +kernel

/-- SIGINT comes while the only service is polled, which is killed and waited for. -/
theorem runner_ends_one_service : ∃ (launched : List RunnerConfig.Launch) (trace : List Event)
    (u : State), launched.length = 1 ∧ u.control = .finished ∧ ∀ k < launched.length,
      (∃ target nohang, .waitpid target nohang (host.fork k) ∈ calls trace) ∨
        Ended trace (host.fork k) := by
  cases hload : RunnerConfig.load host oneService with
  | error e =>
    have hloaded := oneService_loaded
    rw [hload] at hloaded
    cases hloaded
  | ok result =>
    obtain ⟨r, launched⟩ := result
    have hloaded := oneService_loaded
    rw [hload] at hloaded
    obtain ⟨hpids, hone⟩ := Prod.mk.inj (Except.ok.inj hloaded)
    have hpids : r.pids = [7] := hpids
    have hone : launched.length = 1 := hone
    have run := execution_of_allowed Possible next (start [7]) [.advance 0, .interrupt]
      (by decide +kernel)
    have run' := execution_of_allowed Possible next (visitAll next (start [7])
      [.advance 0, .interrupt]).1 [.advance 0, .advance 0, .advance 0, .advance 0, .exit 7,
        .advance 7, .advance 0, .advance 0, .advance 0, .advance 0] (by decide +kernel)
    rw [← hpids] at run run'
    exact ⟨launched, _, _, hone, runner_ends host_forks hload run (.inl (by rw [hpids]; rfl)) run'
      (by rw [hone]; decide)⟩

end RunnerShutdown
