import TunnelPublishers.CamBuffer

/-!
# What is done to a streaming camera

`cam_stop_streaming` asks for STREAMON like its sibling, and nothing else turns
a device off. So the buffer is unmapped under a streaming device whenever
`cam_cleanup` gets that far, while a format is only set on a device just opened.
-/
namespace CamStreaming

open TunnelFraming ExecutionTraces CallOutcomes FiniteMaps CamService CamCalls CamDescriptors
  CamBuffer

/-- The descriptors whose device was turned on since it was opened. No call turns one off. -/
def streaming (t : List ℤ) (e : Event) : List ℤ :=
  match e.call with
  | .open _ fd => t.filter (· ≠ fd)
  | .close _ fd => t.filter (· ≠ fd)
  | .streamOn fd true => fd :: t
  | _ => t

/-- The device of the buffer that is unmapped, or of a format or buffers asked for. -/
def reconfigured (e : Event) : Option ℤ :=
  match e.call with
  | .munmap _ _ true => some e.opts.fd
  | .setFormat fd _ _ _ => some fd
  | .requestBuffers fd _ _ => some fd
  | _ => none

def Stopped (t : List ℤ) (e : Event) : Prop := ∀ fd ∈ reconfigured e, fd ∉ t

instance (t : List ℤ) : DecidablePred (Stopped t) := fun e =>
  inferInstanceAs (Decidable (∀ fd ∈ reconfigured e, fd ∉ t))

/-! ### Cleaning up -/

/-- The buffer that is queued can be dequeued, the device answers to the request to stop, and the
buffer is unmapped. -/
def Releases (opts : CamSetting) (a : Cleanup) : Prop :=
  opts.rawBuffer ≠ .null ∧ (opts.queued = 1 → returned a.dequeue ≠ -1) ∧ a.streamOn = true ∧
    a.munmap = true

instance (opts : CamSetting) (a : Cleanup) : Decidable (Releases opts a) :=
  inferInstanceAs (Decidable (opts.rawBuffer ≠ .null ∧
    (opts.queued = 1 → returned a.dequeue ≠ -1) ∧ a.streamOn = true ∧ a.munmap = true))

section

variable {t : List ℤ} {opts : CamSetting}

/-- Calls that reconfigure nothing. -/
def Harmless (e : Event) : Prop := reconfigured e = none

theorem along_harmless {out : List Event} (h : ∀ e ∈ out, Harmless e) :
    Along streaming Stopped t out :=
  (along_of_invariant (I := fun _ => True) trivial fun e he _ _ => by
    simp [Stopped, show reconfigured e = none from h e he]).1

theorem camReleaseBuffer_stopped (munmap : Bool) :
    Along streaming Stopped t (camReleaseBuffer opts munmap).out ↔
      (opts.rawBuffer ≠ .null → munmap = true → opts.fd ∉ t) := by
  rw [camReleaseBuffer]
  split
  · next hnull => exact ⟨fun _ h => (h hnull).elim, fun _ => trivial⟩
  · next hbuffer =>
    rw [along_andThen]
    cases munmap <;> simp [Along, Stopped, reconfigured, Outcome.done, hbuffer]

/-- The rest of the clean-up after the buffer is dequeued, if it was queued. -/
theorem camStopStreaming_stopped (opts : CamSetting) (closeFd : Bool) (a : Cleanup) :
    Along streaming Stopped t ((camStopStreaming opts a.streamOn).andThen fun opts =>
        (camReleaseBuffer opts a.munmap).andThen fun opts =>
          if closeFd then closeAll opts else .done opts).out ↔
      ¬ (opts.rawBuffer ≠ .null ∧ a.streamOn = true ∧ a.munmap = true) := by
  have hclose : ∀ u (opts : CamSetting), Along streaming Stopped u
      (if closeFd then closeAll opts else .done opts).out := by
    intro u opts
    split
    · exact along_harmless (closeAll_calls (fun _ _ _ => rfl) opts)
    · trivial
  rw [along_andThen, and_iff_right ⟨by simp [Stopped, reconfigured], trivial⟩]
  simp only [along_andThen, camReleaseBuffer_stopped, hclose, implies_true, and_true]
  cases hon : a.streamOn <;> simp [camStopStreaming, streaming]

theorem camCleanup_stopped (opts : CamSetting) (closeFd : Bool) (a : Cleanup) :
    Along streaming Stopped t (camCleanup opts closeFd a).out ↔ ¬ Releases opts a := by
  rw [camCleanup, along_andThen]
  by_cases hqueued : opts.queued = 1
  · rw [if_pos hqueued]
    have hdequeue : Within Harmless (fun _ => True) ((camDequeueBuffer opts a.dequeue).andThen
        fun opts => .done { opts with queued := 0 }) :=
      Within.andThen (Within.call (K := Harmless) rfl trivial) fun _ _ => .done trivial
    refine (and_iff_right (along_harmless hdequeue.calls)).trans ?_
    by_cases hfailed : returned a.dequeue = -1
    · simp [camDequeueBuffer, Releases, hqueued, hfailed]
    · have hok : (camDequeueBuffer opts a.dequeue).ok = true := by simpa [camDequeueBuffer]
      rw [Outcome.andThen_of_ok hok]
      refine (forall_prop_of_true rfl).trans ((camStopStreaming_stopped _ closeFd a).trans ?_)
      simp [camDequeueBuffer, Outcome.done, Releases, hqueued, hfailed]
  · rw [if_neg hqueued]
    refine (and_iff_right trivial).trans ((forall_prop_of_true rfl).trans ?_)
    refine (camStopStreaming_stopped opts closeFd a).trans ?_
    simp [Releases, hqueued]

/-! ### Applying a setting -/

/-- A format is set and buffers are asked for on a device that was just opened. -/
theorem openDevice_stopped (opts : CamSetting) (a : Apply) (t : List ℤ) :
    Along streaming Stopped t (openDevice opts a).out := by
  have hopen : Ensures streaming (fun _ _ => True) Stopped t
      ⟨a.open ≠ -1, { opts with fd := a.open }, [⟨opts, .open opts.devName a.open⟩]⟩
      fun _ s u => s.fd ∉ u := .call fun _ => ⟨by simp [Stopped, reconfigured], by simp [streaming]⟩
  have hformat : ∀ (s : CamSetting) u, s.fd ∉ u → Ensures streaming (fun _ _ => True) Stopped u
      (camSetFormat s a) fun _ s u => s.fd ∉ u := by
    intro s u hs
    have hset : Ensures streaming (fun _ _ => True) Stopped u
        ⟨a.format, s, [⟨s, .setFormat s.fd s.width s.height a.format⟩]⟩ fun _ s u => s.fd ∉ u :=
      .call fun _ => ⟨by simpa [Stopped, reconfigured] using hs, hs⟩
    refine hset.andThen (fun _ _ hs => hs) fun s u hs => ?_
    exact .call fun _ => ⟨by simp [Stopped, reconfigured], hs⟩
  have hrequest : ∀ (s : CamSetting) u, s.fd ∉ u → Ensures streaming (fun _ _ => True) Stopped u
      (camRequestBuffer s 1 a.request) fun _ s u => s.fd ∉ u := fun s u hs =>
    .call fun _ => ⟨by simpa [Stopped, reconfigured] using hs, hs⟩
  have hquery : ∀ (s : CamSetting) u, Ensures streaming (fun _ _ => True) Stopped u
      (camQueryBuffer s a.query a.mmap) fun _ _ _ => True := by
    refine fun s u _ => ⟨along_harmless fun e he => ?_, trivial⟩
    cases hquery : a.query with
    | none =>
      rw [hquery] at he
      rw [List.mem_singleton.mp he, Harmless, reconfigured]
    | some length =>
      rw [hquery] at he
      rcases List.mem_pair.mp he with rfl | rfl <;> rfl
  have hdevice := hopen.andThen (Q := fun _ _ _ => True) (fun _ _ _ => trivial) fun s u hs =>
    (hformat s u hs).andThen (Q := fun _ _ _ => True) (fun _ _ _ => trivial) fun s u hs =>
      (hrequest s u hs).andThen (fun _ _ _ => trivial) fun s u _ => hquery s u
  exact (hdevice (along_trivial t _)).1

theorem camInitTimer_harmless (opts : CamSetting) (a : Timer) :
    ∀ e ∈ (camInitTimer opts a).out, Harmless e :=
  (camInitTimer_calls (fun _ _ => rfl) (fun _ _ => rfl) (fun _ _ _ _ => rfl) opts a).calls

theorem camApplySetting_stopped (opts : CamSetting) (a : Apply) :
    Along streaming Stopped t (camApplySetting opts a).out ↔ ¬ Releases opts a.cleanup := by
  have hrest : ∀ (u : List ℤ) (opts : CamSetting), Along streaming Stopped u
      ((openDevice opts a).andThen fun opts => (camInitTimer opts a.timer).ignored).out :=
    fun u opts => along_andThen.mpr ⟨openDevice_stopped opts a u,
      fun _ => along_harmless (camInitTimer_harmless _ a.timer)⟩
  rw [camApplySetting, along_andThen, and_iff_left fun _ => hrest _ _]
  split
  · exact camCleanup_stopped opts true a.cleanup
  · next hnull => simp [Outcome.done, Along, Releases, not_not.mp hnull]

end

/-! ### Turns -/

/-- The clean-ups that a CTRL message leads to, each with the setting it starts from. -/
def ctrlCleanups (opts : CamSetting) (p : Pass) : List (CamSetting × Cleanup) :=
  let applied := camApplySetting opts p.apply
  (if opts.rawBuffer ≠ .null then [(opts, p.apply.cleanup)] else []) ++
    if applied.ok = false then [(applied.state, p.cleanup)] else []

variable {M : Type → Type → Type} [FiniteMap M]

/-- The clean-ups of a round. -/
def cleanups (args : Args) : Program M → Round → List (CamSetting × Cleanup)
  | .start, a =>
    let applied := camApplySetting (defaults args.device) a.setup.apply
    if applied.ok = true ∧ (a.setup.socket = -1 ∨ a.setup.send = false ∨ a.setup.answer = none) then
      [(applied.state, a.setup.cleanup)]
    else []
  | .loop s, a =>
    if s.running then
      match a.pass.selected with
      | .message i =>
        if i.request.header.type = CHANNEL_CTRL ∧ i.size = 6 then
          let s := (stopTimer (queueNext s a.pass.queue).state).state
          ctrlCleanups (requested s.opts i.request.payload) a.pass
        else []
      | _ => []
    else [(s.opts, a.cleanup)]
  | .exited _, _ => []

section

variable {t : List ℤ} {s : State M}

theorem sendFrame_harmless (s : State M) (p : Pass) (jpeg : Option (List UInt8)) :
    Within Harmless (fun _ => True) (sendFrame s p jpeg) := by
  have hread (opts : CamSetting) : Within Harmless (fun _ => True) (readTimer opts p.read) :=
    ⟨(readTimer_calls (fun _ _ _ => rfl) opts p.read).calls, trivial⟩
  have hsend : Within Harmless (fun _ => True)
      (camSendFrameClient s.opts (subscribers s) p.stack (jpeg.getD []) p.dequeue) := by
    rw [camSendFrameClient]
    split
    · exact .done trivial
    · refine Within.andThen ⟨fun e he => ?_, trivial⟩ fun opts _ =>
        Within.andThen (Within.call (K := Harmless) rfl trivial) fun _ _ => .done trivial
      dsimp only at he
      split at he
      · rcases List.mem_cons.mp he with rfl | he
        · rfl
        · obtain ⟨client, -, rfl⟩ := List.mem_map.mp he
          rfl
      · cases he
  rw [sendFrame]
  split
  · exact ⟨fun _ he => (List.not_mem_nil he).elim, trivial⟩
  · exact ⟨(hsend.andThen fun opts _ => hread opts).calls, trivial⟩

theorem channelCtrl_stopped (s : State M) (p : Pass) (i : Input) (hsize : i.size = 6) :
    Along streaming Stopped t (channelCtrl s p i).out ↔
      ∀ c ∈ ctrlCleanups (requested s.opts i.request.payload) p, ¬ Releases c.1 c.2 := by
  generalize hopts : requested s.opts i.request.payload = opts
  have hannounce : ∀ (u : List ℤ) (s : State M), Along streaming Stopped u
      ((s.with (camStartStreaming s.opts p.streamOn)).andThen fun s =>
        if p.streamOn then announce s else .done s).out := by
    intro u s
    have hstart : Within Harmless (fun _ => True) (camStartStreaming s.opts p.streamOn) :=
      .call rfl trivial
    refine along_andThen.mpr ⟨along_harmless hstart.calls, fun _ => ?_⟩
    split
    · exact along_harmless (announce_calls (fun _ _ => rfl) _).calls
    · trivial
  have hfirst : (∀ c ∈ (if opts.rawBuffer ≠ .null then [(opts, p.apply.cleanup)] else []),
      ¬ Releases c.1 c.2) ↔ ¬ Releases opts p.apply.cleanup := by
    split
    · simp
    · next hnull => simp [Releases, not_not.mp hnull]
  rw [channelCtrl, if_pos hsize, hopts, along_andThen, ctrlCleanups, List.forall_mem_append, hfirst]
  refine and_congr (camApplySetting_stopped opts p.apply) ((forall_prop_of_true rfl).trans ?_)
  split
  · rw [List.forall_mem_singleton]
    exact camCleanup_stopped (camApplySetting opts p.apply).state false p.cleanup
  · simpa using hannounce _ _

theorem handleMessage_stopped (s : State M) (p : Pass) (i : Input) :
    Along streaming Stopped t (handleMessage s p i).out ↔
      (i.request.header.type = CHANNEL_CTRL ∧ i.size = 6 →
        ∀ c ∈ ctrlCleanups (requested s.opts i.request.payload) p, ¬ Releases c.1 c.2) := by
  rw [handleMessage]
  split_ifs with hsub hun hctrl
  · refine iff_of_true (along_harmless (channelSubscribe_calls (fun _ _ => rfl) (fun _ _ => rfl)
      (fun _ _ _ _ => rfl) (fun _ _ => rfl) s p i).calls) fun h => ?_
    exact absurd (hsub.symm.trans h.1) (by decide)
  · exact iff_of_true trivial fun h => absurd (hun.symm.trans h.1) (by decide)
  · by_cases hsize : i.size = 6
    · simpa [hctrl, hsize] using channelCtrl_stopped s p i hsize
    · rw [channelCtrl, if_neg hsize]
      exact iff_of_true trivial fun h => (hsize h.2).elim
  · exact iff_of_true trivial fun h => (hctrl h.1).elim

theorem turn_stopped (args : Args) (s : State M) (hrunning : s.running = true) (a : Round) :
    Along streaming Stopped t (turn s a.pass).out ↔
      ∀ c ∈ cleanups args (.loop s) a, ¬ Releases c.1 c.2 := by
  have hqueue : ∀ e ∈ (queueNext s a.pass.queue).out, Harmless e :=
    (queueNext_calls (fun _ _ _ => rfl) s a.pass.queue).calls
  have hstop : ∀ e ∈ (stopTimer (queueNext s a.pass.queue).state).out, Harmless e :=
    (stopTimer_calls (fun _ _ => rfl) _).calls
  have hdone : ∀ u (s : State M), Along streaming Stopped u (Outcome.done s).out :=
    fun _ _ => trivial
  rw [turn, along_andThen, and_iff_right (along_harmless hqueue),
    forall_prop_of_true (queueNext_ok s a.pass.queue), along_andThen,
    and_iff_right (along_harmless hstop), forall_prop_of_true (stopTimer_ok _),
    along_andThen, and_iff_left fun _ => hdone _ _, cleanups, if_pos hrunning, select]
  cases a.pass.selected with
  | message i =>
    refine (handleMessage_stopped _ a.pass i).trans ?_
    dsimp only
    split_ifs with hctrl
    · exact forall_prop_of_true hctrl
    · exact iff_of_true (fun h => (hctrl h).elim) (by simp)
  | frame jpeg =>
    refine iff_of_true ?_ (by simp)
    dsimp only
    split
    · exact along_harmless (sendFrame_harmless _ a.pass jpeg).calls
    · trivial
  | _ => exact iff_of_true trivial (by simp)

/-! ### Runs -/

omit [FiniteMap M] in
theorem abandon_stopped (s : State M) (a : Cleanup) :
    Along streaming Stopped t (abandon s a).out ↔ ¬ Releases s.opts a := by
  rw [abandon, along_andThen, and_iff_left]
  · exact camCleanup_stopped s.opts true a
  · intro _
    dsimp only
    split
    · exact along_harmless fun e he => by rw [List.mem_singleton.mp he, Harmless, reconfigured]
    · trivial

theorem shutdown_stopped (s : State M) (a : Cleanup) (stack : TunnelMsgH) :
    Along streaming Stopped t (shutdown s a stack).out ↔ ¬ Releases s.opts a := by
  rw [shutdown, along_andThen, and_iff_left]
  · exact camCleanup_stopped s.opts true a
  · refine fun _ => along_harmless fun e he => ?_
    rcases List.mem_append.mp he with he | he
    · obtain ⟨client, -, rfl⟩ := List.mem_map.mp he
      rfl
    · rcases List.mem_pair.mp he with rfl | rfl <;> rfl

theorem setup_stopped (args : Args) (a : Round) :
    Along streaming Stopped t (setup args a.setup : Outcome (State M) Event).out ↔
      ∀ c ∈ cleanups args (.start : Program M) a, ¬ Releases c.1 c.2 := by
  have happly : Along streaming Stopped t
      (camApplySetting (defaults args.device) a.setup.apply).out := by
    rw [camApplySetting_stopped]
    simp [Releases, defaults]
  rw [setup, along_andThen, and_iff_right happly, cleanups]
  by_cases hok : (camApplySetting (defaults args.device) a.setup.apply).ok = true
  · rw [forall_prop_of_true hok, along_andThen, and_iff_right (along_harmless ?_),
      forall_prop_of_true rfl]
    · dsimp only
      split
      · next hsock =>
        rw [abandon_stopped, if_pos ⟨hok, .inl hsock⟩, List.forall_mem_singleton]
      next hsock =>
      rw [along_andThen, and_iff_right (along_harmless ?_), forall_prop_of_true rfl]
      · split
        · next hsend =>
          rw [abandon_stopped, if_pos ⟨hok, .inr (.inl hsend)⟩, List.forall_mem_singleton]
        next hsend =>
        cases hanswer : a.setup.answer with
        | none =>
          rw [abandon_stopped, if_pos ⟨hok, .inr (.inr rfl)⟩, List.forall_mem_singleton]
        | some header =>
          refine iff_of_true (along_harmless fun e he => ?_) (by simp [hsock, hsend])
          rw [List.mem_singleton.mp he, Harmless, reconfigured]
      · exact fun e he => by rw [List.mem_singleton.mp he, Harmless, reconfigured]
    · exact fun e he => by rw [List.mem_singleton.mp he, Harmless, reconfigured]
  · exact iff_of_true (fun h => (hok h).elim) (by simp [hok])

theorem next_stopped (args : Args) (p : Program M) (a : Round) :
    Along streaming Stopped t (next args p a).2 ↔
      ∀ c ∈ cleanups args p a, ¬ Releases c.1 c.2 := by
  cases p with
  | start => exact setup_stopped args a
  | loop s =>
    by_cases hrunning : s.running = true
    · simp only [next, if_pos hrunning]
      exact turn_stopped args s hrunning a
    · simp only [next, if_neg hrunning, cleanups, List.forall_mem_singleton]
      exact shutdown_stopped s a.cleanup a.stack
  | exited opts => exact iff_of_true trivial (by simp [cleanups])

/-- No buffer is unmapped and no format set or buffer asked for on a device that streams, exactly
in the runs in which no clean-up gets to unmap the buffer. -/
theorem reconfigured_stopped_iff {args : Args} {is : List Round} {trace : List Event}
    {p : Program M} (run : Execution (Step args) .start is trace p) :
    Along streaming Stopped [] trace ↔
      Meets (fun (p : Program M) a => ∀ c ∈ cleanups args p a, ¬ Releases c.1 c.2) (next args)
        .start is :=
  run.along_iff_meets fun p a _ => next_stopped args p a

end

/-- A last round, in which the device answers that it cannot be stopped. -/
def unstoppable : Round :=
  { turning .neither with cleanup := ⟨some 0, false, true⟩ }

/-- A client gets a frame and the socket fails; the buffer stays mapped to the end. -/
theorem reconfigured_stopped_unstoppable : ∃ trace p,
    Execution (Step arguments) starting [boot (working 3 0) 4,
      turning (.message (.subscribe 1 97)), turning (.frame (some [9])), turning .failed,
      unstoppable] trace p ∧
    Along streaming Stopped [] trace := by
  have hrun := execution_of_guardedRun (fun _ => true) (next arguments) starting
    [boot (working 3 0) 4, turning (.message (.subscribe 1 97)), turning (.frame (some [9])),
      turning .failed, unstoppable] (by decide +kernel)
  exact ⟨_, _, hrun, (reconfigured_stopped_iff hrun).mpr (by decide +kernel)⟩

/-- A new setting and the shutdown both unmap the buffer under a streaming device. -/
theorem unmapped_while_streaming : ∃ trace p,
    Execution (Step arguments) starting oneClient trace p ∧
    ¬ Along streaming Stopped [] trace := by
  have hrun := execution_of_guardedRun (fun _ => true) (next arguments) starting oneClient
    (by decide +kernel)
  exact ⟨_, _, hrun, by decide +kernel⟩

end CamStreaming
