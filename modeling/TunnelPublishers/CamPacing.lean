import TunnelPublishers.CamRows

/-!
# What holds the frames back

After each frame the loop reads the timer, if it takes the number in the field
for one. So two frames under one setting are kept apart exactly if the timer
was there when the first one was sent, under a number above 0, with a period
below a second, and could be read.
-/
namespace CamPacing

open TunnelFraming ExecutionTraces CallOutcomes FiniteMaps FiniteMap CamService CamCalls
  CamDescriptors CamBuffer CamRows

/-- The periods of the timers, the setting of the last frame, and whether a timer with its period
was read since. -/
structure Clock where
  armed : ℤ → Option ℤ
  last : Option CamSetting
  waited : Bool

/-- The timer has the period of the frame rate, and it is one a timer can have. -/
def Paces (armed : ℤ → Option ℤ) (fps : UInt8) (fd : ℤ) : Prop :=
  fps ≠ 0 ∧ armed fd = some (10 ^ 9 / fps.toNat : ℤ) ∧ (10 ^ 9 / fps.toNat : ℤ) < 10 ^ 9

instance (armed : ℤ → Option ℤ) (fps : UInt8) (fd : ℤ) : Decidable (Paces armed fps fd) :=
  inferInstanceAs (Decidable (fps ≠ 0 ∧ armed fd = some (10 ^ 9 / fps.toNat : ℤ) ∧
    (10 ^ 9 / fps.toNat : ℤ) < 10 ^ 9))

def clock (t : Clock) (e : Event) : Clock :=
  match e.call with
  | .open _ fd | .timerfdCreate fd | .openSocket fd | .close _ fd =>
    { t with armed := Function.update t.armed fd none }
  | .timerfdSettime fd nsec true => { t with armed := Function.update t.armed fd (some nsec) }
  | .scanlines _ => { t with last := some e.opts, waited := false }
  | .read fd (some _) =>
    { t with waited := t.waited || t.last.any fun opts => Paces t.armed opts.fps fd }
  | _ => t

/-- The same size, rate and quality. -/
def SameSetting (opts opts' : CamSetting) : Prop :=
  opts.width = opts'.width ∧ opts.height = opts'.height ∧ opts.fps = opts'.fps ∧
    opts.jpegQuality = opts'.jpegQuality

instance (opts opts' : CamSetting) : Decidable (SameSetting opts opts') :=
  inferInstanceAs (Decidable (opts.width = opts'.width ∧ opts.height = opts'.height ∧
    opts.fps = opts'.fps ∧ opts.jpegQuality = opts'.jpegQuality))

/-- A frame under the setting of the last one comes after a read of the timer. -/
def Paced (t : Clock) (e : Event) : Prop :=
  match e.call with
  | .scanlines _ => ∀ opts ∈ t.last, SameSetting opts e.opts → t.waited = true
  | _ => True

instance (t : Clock) : DecidablePred (Paced t)
  | ⟨opts, .scanlines _⟩ =>
    inferInstanceAs (Decidable (∀ l ∈ t.last, SameSetting l opts → t.waited = true))
  | ⟨_, .open _ _⟩ | ⟨_, .timerfdCreate _⟩ | ⟨_, .openSocket _⟩ | ⟨_, .close _ _⟩
  | ⟨_, .setFormat _ _ _ _⟩ | ⟨_, .setParm _ _ _⟩ | ⟨_, .requestBuffers _ _ _⟩
  | ⟨_, .queryBuffer _ _⟩ | ⟨_, .streamOn _ _⟩ | ⟨_, .queueBuffer _ _⟩ | ⟨_, .dequeueBuffer _ _⟩
  | ⟨_, .mmap _ _ _⟩ | ⟨_, .munmap _ _ _⟩ | ⟨_, .timerfdSettime _ _ _⟩ | ⟨_, .read _ _⟩
  | ⟨_, .sent _⟩ => instDecidableTrue

/-! ### Frames as the states show them -/

/-- A frame, with the setting it is sent under, and whether the timer holds the next one back. -/
structure Shot where
  opts : CamSetting
  held : Bool

/-- The timer's field is taken for a timer, and the read succeeds; no timer can be armed for less
than two frames a second. -/
def held (opts : CamSetting) (read : Option UInt64) : Bool :=
  2 ≤ opts.fps.toNat && 0 < opts.timerfd && read.isSome

variable {M : Type → Type → Type} [FiniteMap M]

/-- The frame sent in a round, if one is. -/
def shots : Program M → Round → List Shot
  | .loop s, a =>
    let s' := (stopTimer (queueNext s a.pass.queue).state).state
    match a.pass.selected with
    | .frame (some _) =>
      if s.running = true ∧ subscribers s' ≠ [] ∧ s'.opts.queued ≠ 0 then
        [⟨s'.opts, held s'.opts a.pass.read⟩]
      else []
    | _ => []
  | _, _ => []

/-- A frame under the setting of the last one is sent only if the timer held it back. -/
def Held (last : Option Shot) (shot : Shot) : Prop :=
  ∀ l ∈ last, SameSetting l.opts shot.opts → l.held = true

instance (last : Option Shot) : DecidablePred (Held last) := fun shot =>
  inferInstanceAs (Decidable (∀ l ∈ last, SameSetting l.opts shot.opts → l.held = true))

/-! ### The timer -/

/-- A timer in the field is armed with the period of the setting. -/
def Timed (opts : CamSetting) (armed : ℤ → Option ℤ) : Prop :=
  opts.timerfd = -1 ∨ (opts.fps ≠ 0 → armed opts.timerfd = some (10 ^ 9 / opts.fps.toNat : ℤ))

/-- What a function leaves in the state and on the clock, under any answers. -/
abbrev Leaves {σ : Type} (t : Clock) (r : Outcome σ Event) (Q : Bool → σ → Clock → Prop) : Prop :=
  Ensures clock (fun _ _ => True) (fun _ _ => True) t r Q

section

variable {t : Clock} {opts : CamSetting}

theorem leaves_any {σ : Type} (t : Clock) (r : Outcome σ Event) : Leaves t r fun _ _ _ => True :=
  fun _ => ⟨along_trivial _ _, trivial⟩

/-- Messages do nothing to the clock. -/
theorem clock_sent {out : List Event} (h : ∀ e ∈ out, ∃ opts msg, e = ⟨opts, .sent msg⟩)
    (t : Clock) : out.foldl clock t = t := by
  refine (along_of_invariant (P := fun _ _ => True) (I := fun u => u = t) rfl
    fun e he u hu => ⟨trivial, ?_⟩).2
  obtain ⟨opts, msg, rfl⟩ := h e he
  exact hu

/-- A frame rate of at least two is a period below a second. -/
theorem period_lt_iff {fps : UInt8} (hfps : fps ≠ 0) :
    (10 ^ 9 / fps.toNat : ℤ) < 10 ^ 9 ↔ 2 ≤ fps.toNat := by
  have hpos : fps.toNat ≠ 0 := fun h => hfps (UInt8.toNat_inj.mp h)
  have hcast : (10 ^ 9 / fps.toNat : ℤ) = ((10 ^ 9 / fps.toNat : ℕ) : ℤ) := by norm_cast
  constructor
  · intro hlt
    by_contra hone
    have h1 : fps.toNat = 1 := by omega
    rw [h1] at hlt
    norm_num at hlt
  · intro htwo
    have hlt : 10 ^ 9 / fps.toNat < 10 ^ 9 := Nat.div_lt_self (by norm_num) htwo
    rw [hcast]
    exact_mod_cast hlt

theorem Timed.paces_iff (h : Timed opts t.armed) (hpos : 0 < opts.timerfd) :
    Paces t.armed opts.fps opts.timerfd ↔ 2 ≤ opts.fps.toNat := by
  constructor
  · exact fun hpaces => (period_lt_iff hpaces.1).mp hpaces.2.2
  · intro htwo
    have hfps : opts.fps ≠ 0 := by
      rintro h0
      rw [h0] at htwo
      exact absurd htwo (by decide)
    rcases h with hnone | harmed
    · omega
    · exact ⟨hfps, harmed hfps, (period_lt_iff hfps).mpr htwo⟩

/-- Whatever the timer was before, after the call there is none or one with the period at hand. -/
theorem camInitTimer_timed (opts : CamSetting) (a : Timer) (t : Clock) :
    Leaves t (camInitTimer opts a) fun _ s u => Timed s u.armed := by
  have hclosed : Leaves t (if opts.timerfd ≠ -1 then
      ⟨true, opts, [⟨opts, .close .timer opts.timerfd⟩]⟩ else .done opts)
      fun ok _ _ => ok = true := by
    split
    · exact .call fun _ => ⟨trivial, rfl⟩
    · exact .done rfl
  rw [camInitTimer]
  refine hclosed.andThen (fun _ _ h => Bool.noConfusion h) fun s u _ => ?_
  have hcreated : Leaves u
      ⟨a.create ≠ -1, { s with timerfd := a.create }, [⟨s, .timerfdCreate a.create⟩]⟩
      fun ok s _ => ok = false → s.timerfd = -1 :=
    .call fun _ => ⟨trivial, fun hfailed => by simpa using hfailed⟩
  refine hcreated.andThen (fun s u hs => .inl (hs rfl)) fun s u _ => ?_
  dsimp only
  split
  · next hset =>
    refine .call fun _ => ⟨trivial, .inr fun hfps => ?_⟩
    simp [clock, hset, framePeriod, hfps]
  · exact fun _ => ⟨along_trivial _ _, .inl rfl⟩

theorem camApplySetting_timed (opts : CamSetting) (a : Apply) (t : Clock) :
    Leaves t (camApplySetting opts a) fun ok s u => ok = true → Timed s u.armed := by
  rw [camApplySetting]
  refine (leaves_any t _).andThen (fun _ _ _ h => Bool.noConfusion h) fun s u _ => ?_
  refine (leaves_any u _).andThen (fun _ _ _ h => Bool.noConfusion h) fun s u _ => ?_
  exact (camInitTimer_timed s a.timer u).ignored fun _ _ _ hs _ => hs

/-! ### Calls outside the sending of frames -/

/-- They are always in time, and leave the last frame and the wait after it alone. -/
theorem frameless_clock {out : List Event} (h : ∀ e ∈ out, Frameless e) (t : Clock) :
    Along clock Paced t out ∧ (out.foldl clock t).last = t.last ∧
      (out.foldl clock t).waited = t.waited := by
  have hone : ∀ e, Frameless e → ∀ u : Clock,
      Paced u e ∧ (clock u e).last = u.last ∧ (clock u e).waited = u.waited := by
    rintro ⟨opts, call⟩ he u
    cases call with
    | scanlines | read => exact he.elim
    | timerfdSettime fd nsec ok => cases ok <;> exact ⟨trivial, rfl, rfl⟩
    | _ => exact ⟨trivial, rfl, rfl⟩
  exact along_of_invariant (I := fun u => u.last = t.last ∧ u.waited = t.waited) ⟨rfl, rfl⟩
    fun e he u hu => ⟨(hone e (h e he) u).1, (hone e (h e he) u).2.1.trans hu.1,
      (hone e (h e he) u).2.2.trans hu.2⟩

theorem camInitTimer_frameless (opts : CamSetting) (a : Timer) :
    Within Frameless (fun _ => True) (camInitTimer opts a) :=
  ⟨(camInitTimer_calls (fun _ _ => trivial) (fun _ _ => trivial) (fun _ _ _ _ => trivial) opts
    a).calls, trivial⟩

theorem openDevice_frameless (opts : CamSetting) (a : Apply) :
    Within Frameless (fun _ => True) (openDevice opts a) := by
  have hquery : ∀ opts : CamSetting,
      Within Frameless (fun _ => True) (camQueryBuffer opts a.query a.mmap) := by
    refine fun opts => ⟨fun e he => ?_, trivial⟩
    cases hquery : a.query with
    | none =>
      rw [hquery] at he
      rw [List.mem_singleton.mp he]
      trivial
    | some length =>
      rw [hquery] at he
      rcases List.mem_pair.mp he with rfl | rfl <;> trivial
  exact Within.andThen (.call trivial trivial) fun opts _ =>
    Within.andThen (Within.andThen (.call trivial trivial) fun opts _ => .call trivial trivial)
      fun opts _ => Within.andThen (.call trivial trivial) fun opts _ => hquery opts

theorem camApplySetting_frameless (opts : CamSetting) (a : Apply) :
    Within Frameless (fun _ => True) (camApplySetting opts a) := by
  rw [camApplySetting]
  apply Within.andThen
  · split
    · exact camCleanup_frameless opts true a.cleanup
    · exact .done trivial
  · exact fun opts _ => (openDevice_frameless opts a).andThen
      fun opts _ => (camInitTimer_frameless opts a.timer).ignored

end

section Main

variable {t : Clock} {s : State M}

theorem channelCtrl_frameless (s : State M) (p : Pass) (i : Input) :
    Within Frameless (fun _ => True) (channelCtrl s p i) := by
  rw [channelCtrl]
  split
  · refine (with_calls (camApplySetting_frameless _ p.apply)).andThen fun s _ => ?_
    split
    · exact with_calls (camCleanup_frameless s.opts false p.cleanup).ignored
    · have hstart : Within Frameless (fun _ => True) (camStartStreaming s.opts p.streamOn) :=
        .call trivial trivial
      refine (with_calls hstart).andThen fun s _ => ?_
      split
      · exact ⟨(announce_calls (fun _ _ => trivial) s).calls, trivial⟩
      · exact .done trivial
  · exact .done trivial

theorem handleMessage_frameless (s : State M) (p : Pass) (i : Input) :
    Within Frameless (fun _ => True) (handleMessage s p i) := by
  rw [handleMessage]
  split_ifs
  · exact channelSubscribe_calls (fun _ _ => trivial) (fun _ _ => trivial) (fun _ _ _ _ => trivial)
      (fun _ _ => trivial) s p i
  · exact .done trivial
  · exact channelCtrl_frameless s p i
  · exact .done trivial

theorem abandon_within (h : subscribers s = []) (a : Cleanup) :
    Within Frameless (fun s => subscribers s = []) (abandon s a) :=
  ⟨abandon_frameless s a, h⟩

/-- Nobody has subscribed when the loop begins. -/
theorem setup_frameless (args : Args) (a : Setup) :
    Within Frameless (fun s => subscribers s = []) (setup args a : Outcome (State M) Event) := by
  rw [setup]
  apply Within.andThen
  · refine ⟨(camApplySetting_frameless (defaults args.device) a.apply).calls, ?_⟩
    have hnone : entries (FiniteMap.empty : M UInt16 Unit) = [] :=
      entries_eq_nil.mpr fun k => find_empty k
    simp [subscribers, hnone]
  intro s hs
  apply Within.andThen
  · exact .call trivial hs
  intro s hs
  split
  · exact abandon_within hs a.cleanup
  apply Within.andThen
  · exact .call trivial hs
  intro s hs
  split
  · exact abandon_within hs a.cleanup
  split
  · exact abandon_within hs a.cleanup
  · have hstart : Within Frameless (fun _ => True) (camStartStreaming s.opts a.streamOn) :=
      .call trivial trivial
    exact ⟨hstart.calls, hs⟩

/-! ### The timer in the loop -/

/-- While the loop runs and has clients, the timer is theirs. -/
def Ticking (s : State M) (t : Clock) : Prop :=
  s.running = true → subscribers s ≠ [] → Timed s.opts t.armed

omit [FiniteMap M] in
theorem leaves_with {r : Outcome CamSetting Event} {Q : Bool → CamSetting → Clock → Prop}
    (h : Leaves t r Q) :
    Leaves t (s.with r) fun ok s' u => ok = true ∧ Q r.ok s'.opts u ∧
      s'.running = (s.running && r.ok) ∧ s'.clients = s.clients :=
  fun hanswers => ⟨(h hanswers).1, rfl, (h hanswers).2, rfl, rfl⟩

/-- With clients, the loop goes on only with a queued buffer. -/
theorem queueNext_leaves (h : s.running = true) (hticking : Ticking s t) (queue : Option UInt32) :
    Leaves t (queueNext s queue) fun ok s u => ok = true ∧
      (subscribers s ≠ [] → Timed s.opts u.armed ∧
        (s.running = true → s.opts.queued ≠ 0)) := by
  rw [queueNext]
  split
  · next hnext =>
    have hqueue : Leaves t ((camQueueBuffer s.opts queue).andThen fun opts =>
        .done { opts with queued := 1 }) fun ok opts u => Timed opts u.armed ∧
          (ok = true → opts.queued ≠ 0) := by
      have hcall : Leaves t (camQueueBuffer s.opts queue) fun _ opts u => Timed opts u.armed :=
        .call fun _ => ⟨trivial, hticking h hnext.1⟩
      exact hcall.andThen (fun _ _ hs => ⟨hs, fun h => Bool.noConfusion h⟩)
        fun _ _ hs => .done ⟨hs, fun _ => by simp⟩
    refine (leaves_with hqueue).mono fun ok s' u hs =>
      ⟨hs.1, fun _ => ⟨hs.2.1.1, fun hrunning => ?_⟩⟩
    rw [hs.2.2.1, h, Bool.true_and] at hrunning
    exact hs.2.1.2 hrunning
  · next hnext =>
    exact .done ⟨rfl, fun hclients => ⟨hticking h hclients, fun _ hzero => hnext ⟨hclients, hzero⟩⟩⟩

/-- Without clients the timer is gone, with clients it stays. -/
theorem stopTimer_leaves (hticking : subscribers s ≠ [] → Timed s.opts t.armed ∧
      (s.running = true → s.opts.queued ≠ 0)) :
    Leaves t (stopTimer s) fun ok s u => ok = true ∧ Timed s.opts u.armed ∧
      (subscribers s ≠ [] → s.running = true → s.opts.queued ≠ 0) := by
  rw [stopTimer]
  split
  · next hstop =>
    exact .call fun _ => ⟨trivial, rfl, .inl rfl, fun hclients => (hclients hstop.1).elim⟩
  · next hstop =>
    by_cases hclients : subscribers s = []
    · exact .done ⟨rfl, .inl (not_not.mp fun hne => hstop ⟨hclients, hne⟩),
        fun hne => (hne hclients).elim⟩
    · exact .done ⟨rfl, (hticking hclients).1, fun hne => (hticking hne).2⟩

theorem channelSubscribe_leaves (h : Timed s.opts t.armed) (p : Pass) (i : Input) :
    Leaves t (channelSubscribe s p i) fun _ s u => Timed s.opts u.armed := by
  have htimed : Leaves t (if subscribers s = [] then s.with (camInitTimer s.opts p.timer).ignored
      else .done s) fun ok s u => ok = true ∧ Timed s.opts u.armed := by
    split
    · have hinit : Leaves t (camInitTimer s.opts p.timer).ignored fun _ opts u =>
          Timed opts u.armed := (camInitTimer_timed s.opts p.timer t).ignored fun _ _ _ hs => hs
      exact (leaves_with hinit).mono fun _ _ _ hs => ⟨hs.1, hs.2.1⟩
    · exact .done ⟨rfl, h⟩
  rw [channelSubscribe]
  refine htimed.andThen (fun _ _ h => Bool.noConfusion h.1) fun s u hs => ?_
  exact .call fun _ => ⟨trivial, hs.2⟩

theorem channelCtrl_leaves (h : Timed s.opts t.armed) (p : Pass) (i : Input) :
    Leaves t (channelCtrl s p i) fun _ s u => s.running = true → Timed s.opts u.armed := by
  rw [channelCtrl]
  split
  · have happlied := camApplySetting_timed (requested s.opts i.request.payload) p.apply t
    refine (leaves_with happlied).andThen (fun _ _ h => Bool.noConfusion h.1) fun s' u hs => ?_
    obtain ⟨-, htimed, hrunning, -⟩ := hs
    split
    · next hfailed =>
      refine (leaves_with (leaves_any u _)).mono fun _ s'' _ hs hstill => ?_
      simp [hs.2.2.1, hrunning, hfailed] at hstill
    · next hok =>
      have htimed := htimed (Bool.not_eq_false _ ▸ hok)
      have hstart : Leaves u (camStartStreaming s'.opts p.streamOn) fun _ opts u =>
          Timed opts u.armed := .call fun _ => ⟨trivial, htimed⟩
      refine (leaves_with hstart).andThen (fun _ _ h => Bool.noConfusion h.1) fun s'' u' hs => ?_
      split
      · refine fun _ => ⟨along_trivial _ _, fun _ => ?_⟩
        rw [clock_sent fun e he => ?_]
        · exact hs.2.1
        · obtain ⟨client, -, rfl⟩ := List.mem_map.mp he
          exact ⟨_, _, rfl⟩
      · exact .done fun _ => hs.2.1
  · exact .done fun _ => h

/-! ### Frames -/

theorem camSendFrameClient_leaves {opts : CamSetting} (h : Timed opts t.armed)
    (hqueued : opts.queued ≠ 0) {clients : List UInt16} (hclients : clients ≠ [])
    (stack : TunnelMsgH) (jpeg : List UInt8) (dequeue : Option UInt32) :
    Leaves t (camSendFrameClient opts clients stack jpeg dequeue) fun _ s u =>
      Timed s u.armed ∧ s.fps = opts.fps ∧ s.timerfd = opts.timerfd ∧ u.last = some opts ∧
        u.waited = false := by
  rw [camSendFrameClient, if_neg hqueued]
  have hsent : Leaves t ⟨true, opts, if clients ≠ [] then ⟨opts, .scanlines (rowOffsets opts)⟩ ::
      clients.map fun client => ⟨opts, .sent (frame CHANNEL_DATA stack.channelId client jpeg)⟩
      else []⟩ fun _ s u => s = opts ∧ u = { t with last := some opts, waited := false } := by
    refine fun _ => ⟨along_trivial _ _, rfl, ?_⟩
    rw [if_pos hclients, List.foldl_cons, clock_sent fun e he => ?_]
    · rfl
    · obtain ⟨client, -, rfl⟩ := List.mem_map.mp he
      exact ⟨_, _, rfl⟩
  refine hsent.andThen ?_ ?_
  · rintro s u ⟨rfl, rfl⟩
    exact ⟨h, rfl, rfl, rfl, rfl⟩
  · rintro s u ⟨rfl, rfl⟩
    have hdequeue : Leaves { t with last := some s, waited := false } (camDequeueBuffer s dequeue)
        fun _ opts u => opts = s ∧ u = { t with last := some s, waited := false } :=
      .call fun _ => ⟨trivial, rfl, rfl⟩
    refine hdequeue.andThen ?_ ?_
    · rintro opts u ⟨rfl, rfl⟩
      exact ⟨h, rfl, rfl, rfl, rfl⟩
    · rintro opts u ⟨rfl, rfl⟩
      exact .done ⟨h, rfl, rfl, rfl, rfl⟩

/-- The read after a frame is the wait before the next one. -/
theorem readTimer_leaves {opts opts' : CamSetting} (h : Timed opts' t.armed)
    (hfps : opts'.fps = opts.fps) (htimer : opts'.timerfd = opts.timerfd)
    (hlast : t.last = some opts) (hwaited : t.waited = false) (read : Option UInt64) :
    Leaves t (readTimer opts' read) fun _ s u =>
      Timed s u.armed ∧ u.last = some opts ∧ u.waited = held opts read := by
  rw [readTimer]
  split
  · next hpos =>
    have hpaces := h.paces_iff hpos
    rw [hfps, htimer] at hpaces
    rw [htimer] at hpos
    refine .call fun _ => ⟨trivial, ?_⟩
    cases read with
    | none => exact ⟨h, hlast, by simp [clock, hwaited, held]⟩
    | some n =>
      refine ⟨h, hlast, ?_⟩
      simp [clock, hwaited, hlast, held, hpaces, htimer, hpos]
  · next hpos =>
    rw [htimer] at hpos
    exact .done ⟨h, hlast, by simp [hwaited, held, hpos]⟩

theorem sendFrame_leaves (h : Timed s.opts t.armed) (hclients : subscribers s ≠ [])
    (hqueued : s.opts.queued ≠ 0) (p : Pass) (jpeg : List UInt8) :
    Leaves t (sendFrame s p (some jpeg)) fun _ s' u => s'.running = true →
      Timed s'.opts u.armed ∧ u.last = some s.opts ∧ u.waited = held s.opts p.read := by
  have hsent := camSendFrameClient_leaves h hqueued hclients p.stack jpeg p.dequeue
  have hread : Leaves t ((camSendFrameClient s.opts (subscribers s) p.stack jpeg p.dequeue).andThen
      fun opts => readTimer opts p.read) fun ok opts u => ok = true →
        Timed opts u.armed ∧ u.last = some s.opts ∧ u.waited = held s.opts p.read :=
    hsent.andThen (fun _ _ _ h => Bool.noConfusion h) fun opts u hs =>
      (readTimer_leaves hs.1 hs.2.1 hs.2.2.1 hs.2.2.2.1 hs.2.2.2.2 p.read).mono fun _ _ _ hs _ => hs
  rw [sendFrame, if_neg (by simp)]
  refine (leaves_with hread).mono fun _ s' u hs hrunning => hs.2.1 ?_
  rw [hs.2.2.1] at hrunning
  exact (Bool.and_eq_true _ _ ▸ hrunning).2

omit [FiniteMap M] in
theorem readTimer_paced (opts : CamSetting) (read : Option UInt64) :
    Along clock Paced t (readTimer opts read).out := by
  rw [readTimer]
  split
  · exact ⟨trivial, trivial⟩
  · trivial

/-- Of all calls that send a frame only the reading of its rows can come too early. -/
theorem sendFrame_paced (hclients : subscribers s ≠ []) (hqueued : s.opts.queued ≠ 0) (p : Pass)
    (jpeg : List UInt8) : Along clock Paced t (sendFrame s p (some jpeg)).out ↔
      ∀ opts ∈ t.last, SameSetting opts s.opts → t.waited = true := by
  have hdequeue : ∀ (u : Clock) (opts : CamSetting), Along clock Paced u
      ((camDequeueBuffer opts p.dequeue).andThen fun opts => .done { opts with queued := 0 }).out :=
    fun u opts => along_andThen.mpr ⟨⟨trivial, trivial⟩, fun _ => trivial⟩
  have hframes : ∀ (u : Clock), Along clock Paced u ((subscribers s).map fun client =>
      ⟨s.opts, .sent (frame CHANNEL_DATA p.stack.channelId client jpeg)⟩) := by
    refine fun u => (frameless_clock (fun e he => ?_) u).1
    obtain ⟨client, -, rfl⟩ := List.mem_map.mp he
    trivial
  have hsent : Along clock Paced t ((camSendFrameClient s.opts (subscribers s) p.stack jpeg
      p.dequeue).andThen fun opts => readTimer opts p.read).out ↔
        ∀ opts ∈ t.last, SameSetting opts s.opts → t.waited = true := by
    rw [along_andThen, and_iff_left fun _ => readTimer_paced _ p.read, camSendFrameClient,
      if_neg hqueued, along_andThen, and_iff_left fun _ => hdequeue _ _]
    dsimp only
    rw [if_pos hclients]
    exact and_iff_left (hframes _)
  rw [sendFrame, if_neg (by simp)]
  exact hsent

theorem sendFrame_unqueued (hqueued : s.opts.queued = 0) (p : Pass) (jpeg : Option (List UInt8)) :
    Along clock Paced t (sendFrame s p jpeg).out ∧
      (s.running = false → (sendFrame s p jpeg).state.running = false) := by
  rw [sendFrame, if_neg fun h => h.2 hqueued]
  refine ⟨?_, fun hstopped => by simp [State.with, hstopped]⟩
  have hsent : Along clock Paced t ((camSendFrameClient s.opts (subscribers s) p.stack
      (jpeg.getD []) p.dequeue).andThen fun opts => readTimer opts p.read).out := by
    rw [along_andThen, and_iff_left fun _ => readTimer_paced _ p.read, camSendFrameClient,
      if_pos hqueued]
    trivial
  exact hsent

/-! ### Turns and runs -/

/-- The state and the clock agree on the last frame. -/
structure Matches (s : State M) (t : Clock) (last : Option Shot) : Prop where
  ticking : Ticking s t
  recent : s.running = true → t.last = last.map Shot.opts
  waited : s.running = true → ∀ shot ∈ last, t.waited = shot.held

theorem Matches.stopped {last : Option Shot} (h : s.running = false) : Matches s t last :=
  ⟨fun hrunning => by simp [h] at hrunning, fun hrunning => by simp [h] at hrunning,
    fun hrunning => by simp [h] at hrunning⟩

theorem handleMessage_leaves (h : Timed s.opts t.armed) (p : Pass) (i : Input) :
    Leaves t (handleMessage s p i) fun _ s u => s.running = true → Timed s.opts u.armed := by
  rw [handleMessage]
  split_ifs
  · exact (channelSubscribe_leaves h p i).mono fun _ _ _ hs _ => hs
  · exact .done fun _ => h
  · exact channelCtrl_leaves h p i
  · exact .done fun _ => h

/-- Messages leave the last frame alone. -/
theorem handleMessage_matches (h : Timed s.opts t.armed) {last : Option Shot}
    (hlast : t.last = last.map Shot.opts) (hwaited : ∀ shot ∈ last, t.waited = shot.held) (p : Pass)
    (i : Input) : Along clock Paced t (handleMessage s p i).out ∧
      Matches (handleMessage s p i).state ((handleMessage s p i).out.foldl clock t) last := by
  obtain ⟨halong, hrecent, hwait⟩ := frameless_clock (handleMessage_frameless s p i).calls t
  have htimed := (handleMessage_leaves h p i (along_trivial _ _)).2
  exact ⟨halong, fun hrunning _ => htimed hrunning, fun _ => hrecent.trans hlast,
    fun _ shot hs => hwait.trans (hwaited shot hs)⟩

/-- The frame is the next shot. -/
theorem sendFrame_matches (h : Timed s.opts t.armed) (hclients : subscribers s ≠ [])
    (hqueued : s.opts.queued ≠ 0) {last : Option Shot} (hlast : t.last = last.map Shot.opts)
    (hwaited : ∀ shot ∈ last, t.waited = shot.held) (p : Pass) (jpeg : List UInt8) :
    (Along clock Paced t (sendFrame s p (some jpeg)).out ↔
        Along (fun _ shot => some shot) Held last [⟨s.opts, held s.opts p.read⟩]) ∧
      Matches (sendFrame s p (some jpeg)).state ((sendFrame s p (some jpeg)).out.foldl clock t)
        (some ⟨s.opts, held s.opts p.read⟩) := by
  have hleaves := (sendFrame_leaves h hclients hqueued p jpeg (along_trivial _ _)).2
  refine ⟨(sendFrame_paced hclients hqueued p jpeg).trans ?_,
    fun hrunning _ => (hleaves hrunning).1, fun hrunning => (hleaves hrunning).2.1,
    fun hrunning shot hs => ?_⟩
  · rw [hlast]
    cases last with
    | none => simp [Along, Held]
    | some l => simp [Along, Held, hwaited l rfl]
  · obtain rfl := Option.some.inj hs
    exact (hleaves hrunning).2.2

/-- Without a queued buffer the loop has failed, and no frame is sent. -/
theorem sendFrame_starved (hstopped : s.running = false) (hzero : s.opts.queued = 0)
    {last : Option Shot} (p : Pass) (jpeg : Option (List UInt8)) :
    Along clock Paced t (sendFrame s p jpeg).out ∧
      Matches (sendFrame s p jpeg).state ((sendFrame s p jpeg).out.foldl clock t) last := by
  obtain ⟨halong, hstill⟩ := sendFrame_unqueued (t := t) hzero p jpeg
  exact ⟨halong, .stopped (hstill hstopped)⟩

/-- What `select` sends, given what the state and the clock agree on. -/
theorem select_paced (h : Timed s.opts t.armed)
    (hqueued : subscribers s ≠ [] → s.running = true → s.opts.queued ≠ 0) {last : Option Shot}
    (hlast : t.last = last.map Shot.opts) (hwaited : ∀ shot ∈ last, t.waited = shot.held)
    (p : Pass) (shot : List Shot)
    (hshot : shot = match p.selected with
      | .frame (some _) => if subscribers s ≠ [] ∧ s.opts.queued ≠ 0 then
          [⟨s.opts, held s.opts p.read⟩] else []
      | _ => []) :
    (Along clock Paced t (select s p).out ↔ Along (fun _ shot => some shot) Held last shot) ∧
      Matches (select s p).state ((select s p).out.foldl clock t)
        (shot.foldl (fun _ shot => some shot) last) := by
  have hsame : Matches s t last := ⟨fun _ _ => h, fun _ => hlast, fun _ => hwaited⟩
  rw [select]
  cases hsel : p.selected with
  | failed | unreadable =>
    rw [hsel] at hshot
    subst hshot
    exact ⟨Iff.rfl, .stopped rfl⟩
  | timeout | neither =>
    rw [hsel] at hshot
    subst hshot
    exact ⟨Iff.rfl, hsame⟩
  | message i =>
    rw [hsel] at hshot
    subst hshot
    obtain ⟨halong, hmatches⟩ :=
      handleMessage_matches (s := { s with msg := i.request.header }) h hlast hwaited p i
    exact ⟨iff_of_true halong trivial, hmatches⟩
  | frame jpeg =>
    rw [hsel] at hshot
    by_cases hclients : subscribers s = []
    · have hnone : shot = [] := by
        rw [hshot]
        cases jpeg <;> simp [hclients]
      subst hnone
      simp only [hclients, ne_eq, not_true_eq_false, ↓reduceIte]
      exact ⟨Iff.rfl, hsame⟩
    simp only [hclients, ne_eq, not_false_eq_true, ↓reduceIte]
    by_cases hzero : s.opts.queued = 0
    · have hnone : shot = [] := by
        rw [hshot]
        cases jpeg <;> simp [hzero]
      subst hnone
      have hstopped : s.running = false := by
        by_contra hrunning
        exact hqueued hclients (Bool.not_eq_false _ ▸ hrunning) hzero
      obtain ⟨halong, hmatches⟩ := sendFrame_starved hstopped hzero p jpeg
      exact ⟨iff_of_true halong trivial, hmatches⟩
    cases jpeg with
    | none =>
      subst hshot
      rw [sendFrame, if_pos ⟨rfl, hzero⟩]
      exact ⟨Iff.rfl, hsame⟩
    | some jpeg =>
      obtain rfl : shot = [⟨s.opts, held s.opts p.read⟩] := by simpa [hclients, hzero] using hshot
      exact sendFrame_matches h hclients hzero hlast hwaited p jpeg

theorem Matches.mono {s' : State M} {last : Option Shot} (h : Matches s t last)
    (hopts : s'.opts = s.opts) (hclients : s'.clients = s.clients)
    (hrunning : s'.running = true → s.running = true) : Matches s' t last := by
  refine ⟨fun hr hc => ?_, fun hr => h.recent (hrunning hr), fun hr => h.waited (hrunning hr)⟩
  rw [hopts]
  refine h.ticking (hrunning hr) ?_
  rwa [subscribers, hclients] at hc

/-- The end of a turn is silent, and may only stop the loop. -/
theorem turn_end (r : Outcome (State M) Event) (interrupted : Bool) {last : Option Shot}
    (h : Matches r.state t last) :
    (r.andThen fun s => .done { s with running := s.running && !interrupted }).out = r.out ∧
      Matches (r.andThen fun s => .done { s with running := s.running && !interrupted }).state t
        last := by
  obtain ⟨ok, s, out⟩ := r
  cases ok with
  | false => exact ⟨rfl, h⟩
  | true =>
    refine ⟨List.append_nil out, h.mono rfl rfl fun hrunning => ?_⟩
    exact (Bool.and_eq_true _ _ ▸ hrunning).1

theorem turn_paced (hrunning : s.running = true) {last : Option Shot} (h : Matches s t last)
    (a : Round) :
    (Along clock Paced t (turn s a.pass).out ↔
        Along (fun _ shot => some shot) Held last (shots (.loop s) a)) ∧
      Matches (turn s a.pass).state ((turn s a.pass).out.foldl clock t)
        ((shots (.loop s) a).foldl (fun _ shot => some shot) last) := by
  obtain ⟨-, hqueued, hticking⟩ := queueNext_leaves hrunning h.ticking a.pass.queue
    (along_trivial t _)
  obtain ⟨hfirst, hrecent, hwaited⟩ := frameless_clock
    (queueNext_calls (fun _ _ _ => trivial) s a.pass.queue).calls t
  obtain ⟨-, hstopped, htimed, hnext⟩ := stopTimer_leaves hticking (along_trivial _ _)
  obtain ⟨hsecond, hrecent', hwaited'⟩ := frameless_clock
    (stopTimer_calls (fun _ _ => trivial) (queueNext s a.pass.queue).state).calls
    ((queueNext s a.pass.queue).out.foldl clock t)
  obtain ⟨hiff, hmatches⟩ := select_paced htimed hnext
    (hrecent'.trans (hrecent.trans (h.recent hrunning)))
    (fun shot hs => hwaited'.trans (hwaited.trans (h.waited hrunning shot hs))) a.pass
    (shots (.loop s) a) (by simp only [shots, hrunning, true_and])
  obtain ⟨hout, hend⟩ := turn_end _ a.pass.interrupted hmatches
  rw [turn, Outcome.andThen_of_ok hqueued, Outcome.andThen_of_ok hstopped]
  simp only [hout, along_append, List.foldl_append]
  exact ⟨(and_iff_right hfirst).trans ((and_iff_right hsecond).trans hiff), hend⟩

/-- What is known in each part of the program. -/
def Agrees (p : Program M) (t : Clock) (last : Option Shot) : Prop :=
  match p with
  | .start => t.last = none ∧ last = none
  | .loop s => Matches s t last
  | .exited _ => True

theorem next_paced {args : Args} {p : Program M} {last : Option Shot} (h : Agrees p t last)
    (a : Round) :
    (Along clock Paced t (next args p a).2 ↔
        Along (fun _ shot => some shot) Held last (shots p a)) ∧
      Agrees (next args p a).1 ((next args p a).2.foldl clock t)
        ((shots p a).foldl (fun _ shot => some shot) last) := by
  have hof : ∀ r : Outcome (State M) Event, ∀ u last, Matches r.state u last →
      Agrees (Program.of r).1 u last := by
    intro r u last hr
    rw [Program.of]
    dsimp only
    split
    · exact hr
    · trivial
  cases p with
  | start =>
    obtain ⟨hlast, rfl⟩ := h
    obtain ⟨hcalls, hclients⟩ := setup_frameless (M := M) args a.setup
    obtain ⟨halong, hrecent, -⟩ := frameless_clock hcalls t
    refine ⟨iff_of_true halong trivial, hof _ _ _ ⟨fun _ hne => (hne hclients).elim,
      fun _ => hrecent.trans hlast, fun _ shot hs => by cases hs⟩⟩
  | loop s =>
    by_cases hrunning : s.running = true
    · simp only [next, if_pos hrunning]
      obtain ⟨hiff, hmatches⟩ := turn_paced hrunning h a
      exact ⟨hiff, hof _ _ _ hmatches⟩
    · have hnone : shots (.loop s) a = [] := by
        simp only [shots, hrunning, Bool.false_eq_true, false_and, ↓reduceIte]
        split <;> rfl
      simp only [next, if_neg hrunning, hnone]
      have hcalls := shutdown_frameless s a.cleanup a.stack
      refine ⟨iff_of_true (frameless_clock hcalls t).1 trivial, ?_⟩
      simp [Program.of, shutdown, State.with, Agrees]
  | exited opts => exact ⟨Iff.rfl, trivial⟩

/-- Before the program starts no timer is armed and no frame was sent. -/
def stopped : Clock := ⟨fun _ => none, none, false⟩

/-- In every run, between two frames in a row under one setting a timer with the period of its
frame rate is read, exactly if the timer holds each frame back that one under the same setting
follows. -/
theorem paced_iff {args : Args} {is : List Round} {trace : List Event} {p : Program M}
    (run : Execution (Step args) .start is trace p) :
    Along clock Paced stopped trace ↔
      Along (fun _ shot => some shot) Held none (views shots (next args) (.start : Program M) is) :=
  run.along_iff_views (I := Agrees) (fun _ a _ _ h => next_paced h a) ⟨rfl, rfl⟩

end Main

/-! ### Three starts -/

/-- A turn that may set up the device and a timer under these numbers, the latter of which can be
read. -/
def timing (fd timer : ℤ) (settime : Bool) (selected : Selected) : Round :=
  { turning selected with
    pass := { (turning selected).pass with
      timer := ⟨timer, settime, 0⟩
      read := some 1
      apply := { working fd timer with
        cleanup := ⟨some 0, true, true⟩
        timer := ⟨timer, settime, 0⟩ } } }

/-- A setting applied before there are clients gives the camera the number 0, and the timer one that
is taken for a timer. -/
def paced : List Round :=
  [boot (working 3 0) 4, timing 0 3 true (.message (.words 1 (2, 128) (1, 224) 5 60)),
    timing 0 3 true (.message (.subscribe 1 97)), timing 0 3 true (.frame (some [9])),
    timing 0 3 true (.frame (some [9]))]

theorem paced_iff_two_frames : ∃ trace p, Execution (Step arguments) starting paced trace p ∧
    Along CamDevices.after CamDevices.LowestFree (CamDevices.inheriting [0, 1, 2]) trace ∧
    trace.countP (fun e => e.call = .sent (frame CHANNEL_DATA 0 1 [9])) = 2 ∧
    Along clock Paced stopped trace := by
  have hrun := execution_of_guardedRun (fun _ => true) (next arguments) starting paced
    (by decide +kernel)
  exact ⟨_, _, hrun, by decide +kernel, by decide +kernel,
    (paced_iff hrun).mpr (by decide +kernel)⟩

/-- Client 1 subscribes and is sent two frames under the first setting, or first asks for one frame
a second, for which no timer can be armed. -/
def unpaced (ctrl : List Round) : List Round :=
  [boot (working 3 0) 4, timing 3 0 true (.message (.subscribe 1 97))] ++ ctrl ++
    [timing 3 0 true (.frame (some [9])), timing 3 0 true (.frame (some [9]))]

theorem frames_unpaced :
    (∃ trace p, Execution (Step arguments) starting (unpaced []) trace p ∧
      Along CamDevices.after CamDevices.LowestFree (CamDevices.inheriting [0, 1, 2]) trace ∧
      ¬ Along clock Paced stopped trace) ∧
    ∃ trace p, Execution (Step arguments) starting
        (unpaced [timing 3 0 false (.message (.words 1 (2, 128) (1, 224) 1 60))]) trace p ∧
      Along CamDevices.after CamDevices.LowestFree (CamDevices.inheriting [0, 1, 2]) trace ∧
      ¬ Along clock Paced stopped trace := by
  have hrun := execution_of_guardedRun (fun _ => true) (next arguments) starting (unpaced [])
    (by decide +kernel)
  have hrun' := execution_of_guardedRun (fun _ => true) (next arguments) starting
    (unpaced [timing 3 0 false (.message (.words 1 (2, 128) (1, 224) 1 60))]) (by decide +kernel)
  refine ⟨⟨_, _, hrun, ?_, ?_⟩, _, _, hrun', ?_, ?_⟩
  all_goals decide +kernel

end CamPacing
