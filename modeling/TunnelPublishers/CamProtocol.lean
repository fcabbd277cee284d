import TunnelPublishers.CamBuffer

/-!
# The order of the calls on the capture device

The driver expects its calls in order: open, format, frame rate, buffers, the
length of the buffer, the mapping, the stream, and only then the exchange of the
buffer. A close of the device's number ends this, from whichever variable the
number is taken; `cam_init_timer` may take it from the timer's.
-/
namespace CamProtocol

open ByteOrder FiniteMaps FiniteMap TunnelFraming ExecutionTraces CallOutcomes CamService CamCalls
  CamDevices CamDescriptors CamBuffer

/-- How far the device has been set up since it was opened. -/
inductive Phase where
  | opened
  | formatted
  | paced
  | requested
  | queried
  | mapped
  | streaming
  deriving DecidableEq, Repr

/-- The last descriptor of the device, until its number is closed. -/
abbrev Session := Option (ℤ × Phase)

/-- The number is that of the open device. -/
def Open (t : Session) (fd : ℤ) : Prop := t.map Prod.fst = some fd

instance (t : Session) : DecidablePred (Open t) :=
  fun fd => inferInstanceAs (Decidable (t.map Prod.fst = some fd))

def shut (t : Session) (fd : ℤ) : Session := if Open t fd then none else t

/-- A call that succeeds takes the device from one phase to the next. -/
def advance (t : Session) (fd : ℤ) (ok : Bool) (source target : Phase) : Session :=
  if ok = true ∧ t = some (fd, source) then some (fd, target) else t

def after (t : Session) (e : Event) : Session :=
  match e.call with
  | .open _ fd => if fd = -1 then t else some (fd, .opened)
  | .close _ fd => shut t fd
  | .setFormat fd _ _ ok => advance t fd ok .opened .formatted
  | .setParm fd _ ok => advance t fd ok .formatted .paced
  | .requestBuffers fd _ ok => advance t fd ok .paced .requested
  | .queryBuffer fd length => advance t fd length.isSome .requested .queried
  | .mmap fd _ _ => advance t fd true .queried .mapped
  | .streamOn fd ok => advance t fd ok .mapped .streaming
  | _ => t

/-- The phase in which a call belongs. Asking for the stream is also how it is stopped. -/
def Ordered (t : Session) (e : Event) : Prop :=
  match e.call with
  | .setFormat fd _ _ _ => t = some (fd, .opened)
  | .setParm fd _ _ => t = some (fd, .formatted)
  | .requestBuffers fd _ _ => t = some (fd, .paced)
  | .queryBuffer fd _ => t = some (fd, .requested)
  | .mmap fd _ _ => t = some (fd, .queried)
  | .queueBuffer fd _ => t = some (fd, .streaming)
  | .dequeueBuffer fd _ => t = some (fd, .streaming)
  | _ => True

/-- The descriptor on which the driver has carried out a call. -/
def served : Call → Option ℤ
  | .setFormat fd _ _ ok => if ok then some fd else none
  | .setParm fd _ ok => if ok then some fd else none
  | .requestBuffers fd _ ok => if ok then some fd else none
  | .queryBuffer fd length => length.map fun _ => fd
  | .mmap fd _ ok => if ok then some fd else none
  | .streamOn fd ok => if ok then some fd else none
  | .queueBuffer fd bytesused => bytesused.map fun _ => fd
  | .dequeueBuffer fd bytesused => bytesused.map fun _ => fd
  | _ => none

/-- What the kernel may answer: it does not give out the number of the open device again, and the
driver serves no other. -/
def Answerable (t : Session) (e : Event) : Prop :=
  (∀ result ∈ granted e.call, ¬ Open t result) ∧ ∀ fd ∈ served e.call, Open t fd

instance (t : Session) : DecidablePred (Answerable t) := fun e =>
  inferInstanceAs (Decidable ((∀ result ∈ granted e.call, ¬ Open t result) ∧
    ∀ fd ∈ served e.call, Open t fd))

abbrev Orders (t : Session) (r : Outcome CamSetting Event)
    (Q : Bool → CamSetting → Session → Prop) : Prop :=
  Ensures after Answerable Ordered t r Q

/-- A buffer that is queued was queued on the streaming device. -/
def Exchanging (opts : CamSetting) (t : Session) : Prop :=
  opts.queued = 0 ∨ opts.queued = 1 ∧ t = some (opts.fd, .streaming)

/-- A close of the timer leaves the device open. -/
def Clear (opts : CamSetting) (t : Session) : Prop :=
  opts.timerfd = -1 ∨ ¬ Open t opts.timerfd

/-- What a setting that was applied leaves behind: a device with its buffer mapped, if the close of
the old timer has not closed it. -/
structure Mounted (opts : CamSetting) (t : Session) : Prop where
  idle : opts.queued = 0
  mapped : t = some (opts.fd, .mapped) ∨ t = none
  clear : Clear opts t
  buffer : opts.rawBuffer ≠ .null

section Device

variable {t : Session} {opts : CamSetting}

theorem advance_eq (fd : ℤ) (source target : Phase) :
    advance (some (fd, source)) fd true source target = some (fd, target) := by
  simp [advance]

theorem shut_of_not_open {fd : ℤ} (h : ¬ Open t fd) : shut t fd = t := if_neg h

theorem shut_cases (t : Session) (fd : ℤ) : shut t fd = t ∨ shut t fd = none := by
  unfold shut
  split
  · exact .inr rfl
  · exact .inl rfl

/-- The device after the old timer has been closed. -/
def untimed (opts : CamSetting) (t : Session) : Session :=
  if opts.timerfd = -1 then t else shut t opts.timerfd

theorem Clear.untimed (h : Clear opts t) : untimed opts t = t := by
  unfold CamProtocol.untimed
  split
  · rfl
  · next htimer => exact shut_of_not_open (h.resolve_left htimer)

theorem untimed_cases (opts : CamSetting) (t : Session) :
    untimed opts t = t ∨ untimed opts t = none := by
  unfold untimed
  split
  · exact .inl rfl
  · exact shut_cases t _

/-- Closing what the timer's field holds may close the device; the new timer is another number. -/
theorem camInitTimer_orders (a : Timer) : Orders t (camInitTimer opts a) fun _ s u =>
    (∃ fd, s = { opts with timerfd := fd }) ∧ Clear s u ∧ u = untimed opts t := by
  rw [camInitTimer]
  have hclosed : Orders t (if opts.timerfd ≠ -1 then
      ⟨true, opts, [⟨opts, .close .timer opts.timerfd⟩]⟩ else .done opts)
      fun ok s u => ok = true ∧ s = opts ∧ u = untimed opts t := by
    split
    · next htimer => exact .call fun _ => ⟨trivial, rfl, rfl, (if_neg htimer).symm⟩
    · next htimer => exact .done ⟨rfl, rfl, (if_pos (not_not.mp htimer)).symm⟩
  refine hclosed.andThen (by simp) ?_
  rintro s u ⟨-, rfl, rfl⟩
  have hcreated : Orders (untimed s t)
      ⟨a.create ≠ -1, { s with timerfd := a.create }, [⟨s, .timerfdCreate a.create⟩]⟩
      fun _ s' u => s' = { s with timerfd := a.create } ∧ ¬ Open u a.create ∧ u = untimed s t :=
    .call fun hG => ⟨trivial, rfl, hG.1 _ rfl, rfl⟩
  refine hcreated.andThen ?_ ?_
  · rintro s' u ⟨rfl, hfresh, rfl⟩
    exact ⟨⟨_, rfl⟩, .inr hfresh, rfl⟩
  · rintro s' u ⟨rfl, hfresh, rfl⟩
    dsimp only
    split
    · exact .call fun _ => ⟨trivial, ⟨_, rfl⟩, .inr hfresh, rfl⟩
    · intro _
      exact ⟨⟨trivial, trivial, trivial⟩, ⟨-1, rfl⟩, .inl rfl, shut_of_not_open hfresh⟩

theorem readTimer_orders (read : Option UInt64) :
    Orders t (readTimer opts read) fun _ s u => s = opts ∧ u = t := by
  have hcalls := readTimer_calls (K := fun e => ∀ u, Ordered u e ∧ after u e = u)
    (fun _ _ _ u => ⟨trivial, rfl⟩) opts read
  exact hcalls.ensures fun e u he => he u

theorem camReleaseBuffer_orders (munmap : Bool) :
    Orders t (camReleaseBuffer opts munmap) fun _ s u => s.queued = opts.queued ∧ s.fd = opts.fd ∧
      u = t := by
  rw [camReleaseBuffer]
  split
  · exact .done ⟨rfl, rfl, rfl⟩
  · have hcall : Orders t
        ⟨munmap, opts, [⟨opts, .munmap opts.rawBuffer (sizeT opts.rawSize) munmap⟩]⟩
        fun _ s u => s = opts ∧ u = t := .call fun _ => ⟨trivial, rfl, rfl⟩
    refine hcall.andThen ?_ ?_
    · rintro s u ⟨rfl, rfl⟩
      exact ⟨rfl, rfl, rfl⟩
    · rintro s u ⟨rfl, rfl⟩
      exact .done ⟨rfl, rfl, rfl⟩

theorem closeAll_orders (hnone : opts.queued = 0) :
    Orders t (closeAll opts) fun _ s _ => s.queued = 0 := by
  intro _
  refine ⟨?_, hnone⟩
  have hclose : ∀ e ∈ (closeAll opts).out, ∀ u : Session, True → Ordered u e ∧ True := by
    intro e he u _
    exact closeAll_calls (K := fun e => Ordered u e ∧ True) (fun _ _ _ => ⟨trivial, trivial⟩)
      opts e he
  exact (along_of_invariant (I := fun _ => True) trivial hclose).1

theorem dequeue_orders (h : Exchanging opts t) (hqueued : opts.queued = 1)
    (bytesused : Option UInt32) :
    Orders t ((camDequeueBuffer opts bytesused).andThen fun opts => .done { opts with queued := 0 })
      fun ok s u => s.fd = opts.fd ∧ s.timerfd = opts.timerfd ∧ s.rawBuffer = opts.rawBuffer ∧
        u = t ∧ Exchanging s u ∧ (ok = true → s.queued = 0) := by
  have hstreaming : t = some (opts.fd, .streaming) := by
    rcases h with hnone | ⟨-, hstreaming⟩
    · rw [hqueued] at hnone
      cases hnone
    · exact hstreaming
  have hcall : Orders t (camDequeueBuffer opts bytesused) fun _ s u => s = opts ∧ u = t :=
    .call fun _ => ⟨hstreaming, rfl, rfl⟩
  refine hcall.andThen ?_ ?_
  · rintro s u ⟨rfl, rfl⟩
    exact ⟨rfl, rfl, rfl, rfl, h, by simp⟩
  · rintro s u ⟨rfl, rfl⟩
    exact .done ⟨rfl, rfl, rfl, rfl, .inl rfl, fun _ => rfl⟩

/-- The device is stopped and released only after its buffer has come back. -/
theorem camCleanup_orders (h : Exchanging opts t) (closeFd : Bool) (a : Cleanup) :
    Orders t (camCleanup opts closeFd a) fun ok s u =>
      Exchanging s u ∧ (ok = true → s.queued = 0) := by
  rw [camCleanup]
  have hdequeued : Orders t (if opts.queued = 1 then
      (camDequeueBuffer opts a.dequeue).andThen fun opts => .done { opts with queued := 0 }
      else .done opts) fun ok s u => Exchanging s u ∧ (ok = true → s.queued = 0) := by
    split
    · next hqueued =>
      exact (dequeue_orders h hqueued a.dequeue).mono fun _ _ _ ⟨_, _, _, _, hs, hok⟩ => ⟨hs, hok⟩
    · next hqueued => exact .done ⟨h, fun _ => h.resolve_right fun hq => hqueued hq.1⟩
  refine hdequeued.andThen (fun _ _ hs => hs) ?_
  rintro s u ⟨-, hnone⟩
  have hnone := hnone rfl
  have hstop : Orders u (camStopStreaming s a.streamOn) fun _ s' _ => s' = s :=
    .call fun _ => ⟨trivial, rfl⟩
  refine hstop.andThen (fun s' u' hs => ⟨.inl (hs ▸ hnone), by simp⟩) ?_
  rintro s' u' rfl
  refine (camReleaseBuffer_orders a.munmap).andThen ?_ ?_
  · rintro s'' u'' ⟨hqueued, -, -⟩
    exact ⟨.inl (hqueued.trans hnone), by simp⟩
  · rintro s'' u'' ⟨hqueued, -, -⟩
    split
    · exact (closeAll_orders (hqueued.trans hnone)).mono fun _ _ _ hq => ⟨.inl hq, fun _ => hq⟩
    · exact .done ⟨.inl (hqueued.trans hnone), fun _ => hqueued.trans hnone⟩

/-- The set-up of the device, from `open` to the mapping. -/
theorem openDevice_orders (hnone : opts.queued = 0) (a : Apply) :
    Orders t (openDevice opts a) fun ok s u => s.queued = 0 ∧
      (ok = true → u = some (s.fd, .mapped) ∧ s.rawBuffer ≠ .null) := by
  rw [openDevice]
  have hopen : Orders t
      ⟨a.open ≠ -1, { opts with fd := a.open }, [⟨opts, .open opts.devName a.open⟩]⟩
      fun ok s u => s.queued = 0 ∧ (ok = true → u = some (s.fd, .opened)) := by
    refine .call fun _ => ⟨trivial, hnone, ?_⟩
    intro hok
    have hne : ¬ a.open = -1 := by simpa using hok
    simp only [after, hne, ↓reduceIte]
  refine hopen.andThen (fun s u hs => ⟨hs.1, by simp⟩) ?_
  rintro s u ⟨hnone, hu⟩
  obtain rfl := hu rfl
  have hformat : Orders (some (s.fd, .opened)) (camSetFormat s a) fun ok s' u =>
      s'.queued = 0 ∧ (ok = true → u = some (s'.fd, .paced)) := by
    have hset : Orders (some (s.fd, .opened))
        ⟨a.format, s, [⟨s, .setFormat s.fd s.width s.height a.format⟩]⟩
        fun ok s' u => s' = s ∧ (ok = true → u = some (s.fd, .formatted)) :=
      .call fun _ => ⟨rfl, rfl, fun hok => by rw [hok]; exact advance_eq _ _ _⟩
    refine hset.andThen ?_ ?_
    · rintro s' u ⟨rfl, -⟩
      exact ⟨hnone, by simp⟩
    · rintro s' u ⟨rfl, hu⟩
      obtain rfl := hu rfl
      exact .call fun _ => ⟨rfl, hnone, fun hok => by rw [hok]; exact advance_eq _ _ _⟩
  refine hformat.andThen (fun s u hs => ⟨hs.1, by simp⟩) ?_
  rintro s u ⟨hnone, hu⟩
  obtain rfl := hu rfl
  have hrequest : Orders (some (s.fd, .paced)) (camRequestBuffer s 1 a.request) fun ok s' u =>
      s' = s ∧ (ok = true → u = some (s.fd, .requested)) :=
    .call fun _ => ⟨rfl, rfl, fun hok => by rw [hok]; exact advance_eq _ _ _⟩
  refine hrequest.andThen ?_ ?_
  · rintro s' u ⟨rfl, -⟩
    exact ⟨hnone, by simp⟩
  · rintro s' u ⟨rfl, hu⟩
    obtain rfl := hu rfl
    cases hquery : a.query with
    | none => exact .call fun _ => ⟨rfl, hnone, by simp⟩
    | some length =>
      have hmapped : after (after (some (s'.fd, .requested)) ⟨s', .queryBuffer s'.fd (some length)⟩)
          ⟨s', .mmap s'.fd length a.mmap⟩ = some (s'.fd, .mapped) := by
        simp [after, advance]
      have hqueried : after (some (s'.fd, .requested)) ⟨s', .queryBuffer s'.fd (some length)⟩ =
          some (s'.fd, .queried) := by
        simp [after, advance]
      intro _
      refine ⟨⟨rfl, hqueried, trivial⟩, hnone, fun _ => ⟨hmapped, ?_⟩⟩
      simp only [camQueryBuffer]
      split <;> simp

theorem camApplySetting_orders (h : Exchanging opts t) (hnull : opts.rawBuffer = .null →
    opts.queued = 0) (a : Apply) :
    Orders t (camApplySetting opts a) fun ok s u => Exchanging s u ∧ (ok = true → Mounted s u) := by
  rw [camApplySetting]
  have hcleaned : Orders t (if opts.rawBuffer ≠ .null then camCleanup opts true a.cleanup
      else .done opts) fun ok s u => Exchanging s u ∧ (ok = true → s.queued = 0) := by
    split
    · exact camCleanup_orders h true a.cleanup
    · next hbuffer => exact .done ⟨h, fun _ => hnull (not_not.mp hbuffer)⟩
  refine hcleaned.andThen (fun s u hs => ⟨hs.1, by simp⟩) ?_
  rintro s u ⟨-, hnone⟩
  refine (openDevice_orders (hnone rfl) a).andThen (fun s u hs => ⟨.inl hs.1, by simp⟩) ?_
  rintro s u ⟨hnone, hok⟩
  obtain ⟨rfl, hbuffer⟩ := hok rfl
  refine (camInitTimer_orders a.timer).ignored ?_
  rintro ok s' u ⟨⟨fd, rfl⟩, hclear, rfl⟩
  exact ⟨.inl hnone, fun _ => ⟨hnone, untimed_cases s _, hclear, hbuffer⟩⟩

/-- The device streams once it has been asked to, since only an open one can. -/
theorem camStartStreaming_orders (h : Mounted opts t) (ok : Bool) :
    Orders t (camStartStreaming opts ok) fun ok' s u => s = opts ∧ ok' = ok ∧
      (ok = true → u = some (opts.fd, .streaming) ∧ Clear opts u) := by
  refine .call fun hG => ⟨trivial, rfl, rfl, ?_⟩
  rintro rfl
  have hopen : Open t opts.fd := hG.2 _ rfl
  rcases h.mapped with rfl | rfl
  · have hstreams : after (some (opts.fd, .mapped)) ⟨opts, .streamOn opts.fd true⟩ =
        some (opts.fd, .streaming) := advance_eq _ _ _
    rw [hstreams]
    exact ⟨rfl, h.clear⟩
  · cases hopen

end Device

/-! ### The program -/

section Program

variable {M : Type → Type → Type} {t : Session} {s : State M}

structure Streaming (s : State M) (t : Session) : Prop where
  exchanging : Exchanging s.opts t
  stream : t = some (s.opts.fd, .streaming)
  clear : Clear s.opts t
  buffer : s.opts.rawBuffer ≠ .null

/-- While the program runs, its device streams. -/
structure Steady (s : State M) (t : Session) : Prop where
  exchanging : Exchanging s.opts t
  streaming : s.running = true → Streaming s t

abbrev Steadies (t : Session) (r : Outcome (State M) Event) : Prop :=
  Ensures after Answerable Ordered t r fun _ s u => Steady s u

theorem Streaming.steady (h : Streaming s t) : Steady s t := ⟨h.exchanging, fun _ => h⟩

/-- Only the fields that the device depends on count. -/
theorem Streaming.neutral {s' : State M} (h : Streaming s t)
    (hqueued : s'.opts.queued = s.opts.queued) (hfd : s'.opts.fd = s.opts.fd)
    (htimer : s'.opts.timerfd = s.opts.timerfd)
    (hbuffer : s'.opts.rawBuffer = s.opts.rawBuffer) : Streaming s' t := by
  refine ⟨?_, ?_, ?_, ?_⟩
  · simpa only [Exchanging, hqueued, hfd] using h.exchanging
  · rw [hfd]
    exact h.stream
  · simpa only [Clear, htimer] using h.clear
  · rw [hbuffer]
    exact h.buffer

theorem Steady.neutral {s' : State M} (h : Steady s t) (hqueued : s'.opts.queued = s.opts.queued)
    (hfd : s'.opts.fd = s.opts.fd) (htimer : s'.opts.timerfd = s.opts.timerfd)
    (hbuffer : s'.opts.rawBuffer = s.opts.rawBuffer)
    (hrunning : s'.running = true → s.running = true) : Steady s' t := by
  constructor
  · simpa only [Exchanging, hqueued, hfd] using h.exchanging
  · exact fun hr => (h.streaming (hrunning hr)).neutral hqueued hfd htimer hbuffer

theorem Steady.stopped (h : Exchanging s.opts t) (hrunning : s.running = false) : Steady s t := by
  refine ⟨h, ?_⟩
  intro hr
  rw [hrunning] at hr
  cases hr

/-- A function of the device inside the program. -/
theorem steadies_with {r : Outcome CamSetting Event} {Q : Bool → CamSetting → Session → Prop}
    (hr : Orders t r Q) (hQ : ∀ ok opts u, Q ok opts u → Exchanging opts u ∧
      (s.running = true → ok = true → Streaming { s with opts := opts } u)) :
    Steadies t (s.with r) := by
  intro hG
  obtain ⟨halong, hstate⟩ := hr hG
  obtain ⟨hex, hrun⟩ := hQ _ _ _ hstate
  refine ⟨halong, hex, ?_⟩
  intro hrunning
  obtain ⟨hs, hok⟩ := Bool.and_eq_true_iff.mp hrunning
  exact (hrun hs hok).neutral rfl rfl rfl rfl

/-- One that leaves the device streaming, whether it succeeds or not. -/
theorem streams_with {r : Outcome CamSetting Event} {Q : Bool → CamSetting → Session → Prop}
    (hr : Orders t r Q) (hQ : ∀ ok opts u, Q ok opts u → Streaming { s with opts := opts } u) :
    Ensures after Answerable Ordered t (s.with r) fun ok s u =>
      ok = true ∧ Streaming s u := by
  intro hG
  obtain ⟨halong, hstate⟩ := hr hG
  exact ⟨halong, rfl, (hQ _ _ _ hstate).neutral rfl rfl rfl rfl⟩

variable [FiniteMap M]

theorem queueNext_streams (h : Streaming s t) (queue : Option UInt32) :
    Ensures after Answerable Ordered t (queueNext s queue)
      fun ok s u => ok = true ∧ Streaming s u := by
  obtain rfl := h.stream
  rw [queueNext]
  split
  · have hqueue : Orders (some (s.opts.fd, .streaming)) (camQueueBuffer s.opts queue)
        fun _ opts u => opts = s.opts ∧ u = some (s.opts.fd, .streaming) :=
      .call fun _ => ⟨rfl, rfl, rfl⟩
    have hqueued : Orders (some (s.opts.fd, .streaming)) ((camQueueBuffer s.opts queue).andThen
        fun opts => .done { opts with queued := 1 })
          fun _ opts u => Streaming { s with opts := opts } u := by
      refine hqueue.andThen ?_ ?_
      · rintro opts u ⟨rfl, rfl⟩
        exact h
      · rintro opts u ⟨rfl, rfl⟩
        exact .done ⟨.inr ⟨rfl, rfl⟩, rfl, h.clear, h.buffer⟩
    exact streams_with hqueued fun _ _ _ hs => hs
  · exact .done ⟨rfl, h⟩

theorem stopTimer_streams (h : Streaming s t) :
    Ensures after Answerable Ordered t (stopTimer s) fun ok s u => ok = true ∧ Streaming s u := by
  rw [stopTimer]
  split
  · next hidle =>
    have hsame : shut t s.opts.timerfd = t := shut_of_not_open (h.clear.resolve_left hidle.2)
    refine .call fun _ => ⟨trivial, rfl, ?_⟩
    change Streaming _ (shut t s.opts.timerfd)
    rw [hsame]
    exact ⟨h.exchanging, h.stream, .inl rfl, h.buffer⟩
  · exact .done ⟨rfl, h⟩

/-- Messages belong anywhere. -/
theorem along_sent {out : List Event} (hout : ∀ e ∈ out, ∃ msg, e.call = .sent msg) :
    Along after Ordered t out ∧ out.foldl after t = t := by
  have hstep : ∀ e ∈ out, ∀ u, u = t → Ordered u e ∧ after u e = t := by
    rintro e he u rfl
    obtain ⟨msg, hmsg⟩ := hout e he
    simp [Ordered, after, hmsg]
  exact along_of_invariant (I := fun u => u = t) rfl hstep

theorem channelSubscribe_steadies (h : Streaming s t) (p : Pass) (i : Input) :
    Steadies t (channelSubscribe s p i) := by
  have htimed : Steadies t (if subscribers s = [] then s.with (camInitTimer s.opts p.timer).ignored
      else .done s) := by
    split
    · have htimer : Orders t (camInitTimer s.opts p.timer).ignored fun _ opts u =>
          (∃ fd, opts = { s.opts with timerfd := fd }) ∧ Clear opts u ∧ u = untimed s.opts t :=
        (camInitTimer_orders p.timer).ignored fun _ _ _ hs => hs
      apply steadies_with htimer
      rintro ok opts u ⟨⟨fd, rfl⟩, hclear, rfl⟩
      rw [h.clear.untimed] at hclear ⊢
      exact ⟨h.exchanging, fun _ _ => ⟨h.exchanging, h.stream, hclear, h.buffer⟩⟩
    · exact .done h.steady
  rw [channelSubscribe]
  refine htimed.andThen (fun _ _ hs => hs) ?_
  intro s' u hs
  refine .call fun _ => ⟨trivial, ?_⟩
  exact hs.neutral rfl rfl rfl rfl fun hr => (Bool.and_eq_true_iff.mp hr).1

theorem announce_steadies (h : Steady s t) : Steadies t (announce s) := by
  intro _
  have hout : ∀ e ∈ (announce s).out, ∃ msg, e.call = .sent msg := by
    intro e he
    obtain ⟨client, -, rfl⟩ := List.mem_map.mp he
    exact ⟨_, rfl⟩
  obtain ⟨halong, hfold⟩ := along_sent hout
  rw [hfold]
  exact ⟨halong, h.neutral rfl rfl rfl rfl id⟩

/-- The state behind a setting that was applied, or not. -/
structure Applied (ok : Bool) (s : State M) (t : Session) : Prop where
  exchanging : Exchanging s.opts t
  running : s.running = true → ok = true
  mounted : ok = true → Mounted s.opts t

omit [FiniteMap M] in
theorem cleanup_steadies (h : Exchanging s.opts t) (hstopped : s.running = false) (closeFd : Bool)
    (a : Cleanup) : Steadies t (s.with (camCleanup s.opts closeFd a).ignored) := by
  have hclean : Orders t (camCleanup s.opts closeFd a).ignored fun _ opts u => Exchanging opts u :=
    (camCleanup_orders h closeFd a).ignored fun _ _ _ hs => hs.1
  refine steadies_with hclean fun _ _ _ hex => ⟨hex, fun hr => ?_⟩
  rw [hstopped] at hr
  cases hr

theorem channelCtrl_steadies (h : Streaming s t) (p : Pass) (i : Input) :
    Steadies t (channelCtrl s p i) := by
  obtain rfl := h.stream
  unfold channelCtrl
  by_cases hsize : i.size = 6
  · simp only [hsize, ↓reduceIte]
    have hdevice : Exchanging (requested s.opts i.request.payload)
        (some (s.opts.fd, .streaming)) := h.exchanging
    have happlied := camApplySetting_orders hdevice (fun hnull => absurd hnull h.buffer) p.apply
    generalize camApplySetting (requested s.opts i.request.payload) p.apply = applied
      at happlied ⊢
    have hwith : Ensures after Answerable Ordered (some (s.opts.fd, .streaming))
        (s.with applied) fun ok s' u => ok = true ∧ Applied applied.ok s' u := by
      intro hG
      obtain ⟨halong, hex, hok⟩ := happlied hG
      exact ⟨halong, rfl, hex, fun hr => (Bool.and_eq_true_iff.mp hr).2, hok⟩
    refine hwith.andThen (by simp) ?_
    rintro s' u ⟨-, hs⟩
    cases hok : applied.ok with
    | false =>
      have hstopped : s'.running = false := by
        rw [← Bool.not_eq_true]
        intro hr
        have htrue := hs.running hr
        rw [hok] at htrue
        cases htrue
      simp only [↓reduceIte]
      exact cleanup_steadies hs.exchanging hstopped false p.cleanup
    | true =>
      have hmounted := hs.mounted hok
      simp only [Bool.true_eq_false, ↓reduceIte]
      have hstarted : Steadies u (s'.with (camStartStreaming s'.opts p.streamOn)) := by
        apply steadies_with (camStartStreaming_orders hmounted p.streamOn)
        rintro ok opts u ⟨rfl, rfl, hu⟩
        exact ⟨.inl hmounted.idle,
          fun _ hon => ⟨.inl hmounted.idle, (hu hon).1, (hu hon).2, hmounted.buffer⟩⟩
      refine hstarted.andThen (fun _ _ hs => hs) ?_
      intro s'' u hs
      split
      · exact announce_steadies hs
      · exact .done hs
  · simp only [hsize, ↓reduceIte]
    exact .done h.steady

theorem camSendFrameClient_orders {opts : CamSetting} (h : Exchanging opts t)
    (hstreaming : t = some (opts.fd, .streaming)) (clients : List UInt16) (stack : TunnelMsgH)
    (jpeg : List UInt8) (bytesused : Option UInt32) :
    Orders t (camSendFrameClient opts clients stack jpeg bytesused) fun _ s u =>
      s.fd = opts.fd ∧ s.timerfd = opts.timerfd ∧ s.rawBuffer = opts.rawBuffer ∧ u = t ∧
        Exchanging s u := by
  rw [camSendFrameClient]
  split
  · exact .done ⟨rfl, rfl, rfl, rfl, h⟩
  · next hqueued =>
    have hone : opts.queued = 1 := (h.resolve_left hqueued).1
    have hframes : Orders t ⟨true, opts, if clients ≠ [] then
        ⟨opts, .scanlines (rowOffsets opts)⟩ :: clients.map fun client =>
          ⟨opts, .sent (frame CHANNEL_DATA stack.channelId client jpeg)⟩ else []⟩
        fun _ s u => s = opts ∧ u = t := by
      intro _
      split
      · have hout : ∀ e ∈ clients.map fun client => (⟨opts, .sent (frame CHANNEL_DATA
            stack.channelId client jpeg)⟩ : Event), ∃ msg, e.call = .sent msg := by
          intro e he
          obtain ⟨client, -, rfl⟩ := List.mem_map.mp he
          exact ⟨_, rfl⟩
        obtain ⟨halong, hfold⟩ := along_sent (t := t) hout
        exact ⟨⟨trivial, halong⟩, rfl, hfold⟩
      · exact ⟨trivial, rfl, rfl⟩
    refine hframes.andThen ?_ ?_
    · rintro s u ⟨rfl, rfl⟩
      exact ⟨rfl, rfl, rfl, rfl, h⟩
    · rintro s u ⟨rfl, rfl⟩
      exact (dequeue_orders h hone bytesused).mono fun _ _ _ ⟨hfd, htimer, hraw, hu, hex, _⟩ =>
        ⟨hfd, htimer, hraw, hu, hex⟩

theorem sendFrame_steadies (h : Streaming s t) (p : Pass) (jpeg : Option (List UInt8)) :
    Steadies t (sendFrame s p jpeg) := by
  rw [sendFrame]
  split
  · exact fun _ => ⟨trivial, h.steady⟩
  · have hsent := camSendFrameClient_orders h.exchanging h.stream (subscribers s) p.stack
      (jpeg.getD []) p.dequeue
    have hboth : Orders t ((camSendFrameClient s.opts (subscribers s) p.stack (jpeg.getD [])
        p.dequeue).andThen fun opts => readTimer opts p.read) fun _ opts u =>
          opts.fd = s.opts.fd ∧ opts.timerfd = s.opts.timerfd ∧
            opts.rawBuffer = s.opts.rawBuffer ∧ u = t ∧ Exchanging opts u := by
      refine hsent.andThen (fun _ _ hs => hs) ?_
      rintro opts u ⟨hfd, htimer, hraw, rfl, hex⟩
      refine (readTimer_orders p.read).mono ?_
      rintro ok opts' u' ⟨rfl, rfl⟩
      exact ⟨hfd, htimer, hraw, rfl, hex⟩
    apply steadies_with hboth
    rintro ok opts u ⟨hfd, htimer, hraw, rfl, hex⟩
    have hclear : Clear opts u := by
      rw [Clear, htimer]
      exact h.clear
    exact ⟨hex, fun _ _ => ⟨hex, h.stream.trans (by rw [hfd]), hclear, hraw ▸ h.buffer⟩⟩

theorem handleMessage_steadies (h : Streaming s t) (p : Pass) (i : Input) :
    Steadies t (handleMessage s p i) := by
  unfold handleMessage
  dsimp only
  split_ifs
  · exact channelSubscribe_steadies h p i
  · have hgone : Streaming { s with clients := delete s.clients i.client } t :=
      h.neutral rfl rfl rfl rfl
    exact .done hgone.steady
  · exact channelCtrl_steadies h p i
  · exact .done h.steady

theorem select_steadies (h : Streaming s t) (p : Pass) : Steadies t (CamService.select s p) := by
  unfold CamService.select
  split
  · exact .done (.stopped h.exchanging rfl)
  · exact .done h.steady
  · exact .done (.stopped h.exchanging rfl)
  · next i _ =>
    have hmsg : Streaming { s with msg := i.request.header } t := h.neutral rfl rfl rfl rfl
    exact handleMessage_steadies hmsg p i
  · split
    · exact sendFrame_steadies h p _
    · exact .done h.steady
  · exact .done h.steady

/-- A turn keeps the order, also when queueing has just failed. -/
theorem turn_steadies (h : Streaming s t) (p : Pass) : Steadies t (turn s p) := by
  unfold turn
  refine (queueNext_streams h p.queue).andThen (by simp) ?_
  rintro s u ⟨-, h⟩
  refine (stopTimer_streams h).andThen (by simp) ?_
  rintro s u ⟨-, h⟩
  refine (select_steadies h p).andThen (fun _ _ hs => hs) ?_
  intro s u hs
  exact .done (hs.neutral rfl rfl rfl rfl fun hr => (Bool.and_eq_true_iff.mp hr).1)

/-! ### From start to end -/

omit [FiniteMap M] in
theorem abandon_exchanging (h : Exchanging s.opts t) (a : Cleanup) :
    Ensures after Answerable Ordered t (abandon s a) fun ok _ _ => ok = false := by
  have hclean : Ensures after Answerable Ordered t
      (s.with (camCleanup s.opts true a).ignored) fun ok _ _ => ok = true := by
    intro hG
    exact ⟨(((camCleanup_orders h true a).ignored (Q := fun _ _ _ => True) fun _ _ _ _ => trivial)
      hG).1, rfl⟩
  refine hclean.andThen (by simp) ?_
  intro s' u _ _
  dsimp only
  split
  · exact ⟨⟨trivial, trivial⟩, rfl⟩
  · exact ⟨trivial, rfl⟩

theorem setup_steadies (args : Args) (a : Setup) :
    Ensures after Answerable Ordered none (setup args a : Outcome (State M) Event)
      fun ok s u => ok = true → Steady s u := by
  have hdevice : Exchanging (defaults args.device) none := .inl rfl
  have happlied := camApplySetting_orders hdevice (fun _ => rfl) a.apply
  unfold setup
  dsimp only
  generalize camApplySetting (defaults args.device) a.apply = applied at happlied ⊢
  have hfirst : Ensures after Answerable Ordered none
      (⟨applied.ok, ⟨applied.state, empty, (frame CHANNEL_OPEN 0 0 (openName args)).header,
        a.socket, true⟩, applied.out⟩ : Outcome (State M) Event) fun ok s u =>
          ok = true → Mounted s.opts u := by
    intro hG
    obtain ⟨halong, -, hok⟩ := happlied hG
    exact ⟨halong, hok⟩
  refine hfirst.andThen (by simp) ?_
  intro s u hs
  have hmounted := hs rfl
  have hsocket : Ensures after Answerable Ordered u
      ⟨true, s, [⟨s.opts, .openSocket a.socket⟩]⟩ fun ok s' u' => ok = true ∧ s' = s ∧ u' = u :=
    .call fun _ => ⟨trivial, rfl, rfl, rfl⟩
  refine hsocket.andThen (by simp) ?_
  rintro s' u' ⟨-, rfl, rfl⟩
  have habandon : ∀ {s : State M} {u : Session}, s.opts.queued = 0 →
      Ensures after Answerable Ordered u (abandon s a.cleanup)
        fun ok s u => ok = true → Steady s u := by
    intro s u hnone
    refine (abandon_exchanging (.inl hnone) a.cleanup).mono ?_
    rintro ok s u rfl
    simp
  split
  · exact habandon hmounted.idle
  have hopen : Ensures after Answerable Ordered u'
      ⟨true, s', [⟨s'.opts, .sent (frame CHANNEL_OPEN 0 0 (openName args))⟩]⟩
      fun ok s u => ok = true ∧ s = s' ∧ u = u' :=
    .call fun _ => ⟨trivial, rfl, rfl, rfl⟩
  refine hopen.andThen (by simp) ?_
  rintro s u ⟨-, rfl, rfl⟩
  split
  · exact habandon hmounted.idle
  cases a.answer with
  | none => exact habandon hmounted.idle
  | some header =>
    have hstarted : Steadies u (State.with
        { s with msg := header, running := header.type = CHANNEL_OK && !a.interrupted }
        (camStartStreaming s.opts a.streamOn)) := by
      apply steadies_with (camStartStreaming_orders hmounted a.streamOn)
      rintro ok opts u ⟨rfl, rfl, hu⟩
      exact ⟨.inl hmounted.idle,
        fun _ hon => ⟨.inl hmounted.idle, (hu hon).1, (hu hon).2, hmounted.buffer⟩⟩
    exact hstarted.mono fun _ _ _ hs _ => hs

theorem shutdown_ordered (h : Exchanging s.opts t) (a : Cleanup) (stack : TunnelMsgH)
    (hkernel : Along after Answerable t (shutdown s a stack).out) :
    Along after Ordered t (shutdown s a stack).out := by
  have hclean : Ensures after Answerable Ordered t
      (s.with (camCleanup s.opts true a).ignored) fun ok _ _ => ok = true := by
    intro hG
    exact ⟨(((camCleanup_orders h true a).ignored (Q := fun _ _ _ => True) fun _ _ _ _ => trivial)
      hG).1, rfl⟩
  have hrest : Ensures after Answerable Ordered t (shutdown s a stack)
      fun _ _ _ => True := by
    refine hclean.andThen (by simp) ?_
    intro s' u _ _
    refine ⟨?_, trivial⟩
    have hsent : ∀ e ∈ unsubscribe s' stack ++
        [⟨s'.opts, .sent (frame CHANNEL_CLOSE s'.msg.channelId s'.msg.clientId [])⟩],
        ∃ msg, e.call = .sent msg := by
      intro e he
      rcases List.mem_append.mp he with he | he
      · obtain ⟨client, -, rfl⟩ := List.mem_map.mp he
        exact ⟨_, rfl⟩
      · rw [List.mem_singleton.mp he]
        exact ⟨_, rfl⟩
    obtain ⟨halong, hfold⟩ := along_sent (t := u) hsent
    have hclose : Along after Ordered (List.foldl after u (unsubscribe s' stack ++
        [⟨s'.opts, .sent (frame CHANNEL_CLOSE s'.msg.channelId s'.msg.clientId [])⟩]))
        [⟨s'.opts, .close .sock s'.sock⟩] := ⟨trivial, trivial⟩
    have hend := along_append.mpr ⟨halong, hclose⟩
    rwa [List.append_assoc] at hend
  exact (hrest hkernel).1

/-- What holds between the rounds. -/
def Between (p : Program M) (t : Session) : Prop :=
  match p with
  | .start => t = none
  | .loop s => Steady s t
  | .exited _ => True

omit [FiniteMap M] in
theorem between_of {r : Outcome (State M) Event} (h : r.ok = true → Steady r.state t) :
    Between (Program.of r).1 t := by
  unfold Program.of
  split
  · next hok => exact h hok
  · trivial

theorem next_ordered (args : Args) {p : Program M} (h : Between p t) (a : Round)
    (hkernel : Along after Answerable t (next args p a).2) :
    Along after Ordered t (next args p a).2 ∧
      Between (next args p a).1 ((next args p a).2.foldl after t) := by
  cases p with
  | start =>
    obtain rfl : t = none := h
    obtain ⟨halong, hs⟩ := setup_steadies (M := M) args a.setup hkernel
    exact ⟨halong, between_of hs⟩
  | loop s =>
    have hs : Steady s t := h
    by_cases hrunning : s.running = true
    · simp only [next, hrunning, ↓reduceIte] at hkernel ⊢
      obtain ⟨halong, hs⟩ := turn_steadies (hs.streaming hrunning) a.pass hkernel
      exact ⟨halong, between_of fun _ => hs⟩
    · have hended : (shutdown s a.cleanup a.stack).ok = false := rfl
      simp only [next, hrunning, Bool.false_eq_true, ↓reduceIte] at hkernel ⊢
      exact ⟨shutdown_ordered hs.exchanging a.cleanup a.stack hkernel,
        between_of (by simp [hended])⟩
  | exited opts => exact ⟨trivial, trivial⟩

end Program

end CamProtocol
