import TunnelPublishers.CamCalls
import TunnelPublishers.CamDescriptors

/-!
# The capture buffer of the camera service

The flag in the setting says whether the buffer of the open device is queued, at
every call of every run. In the loop the device, if it is a camera, has a buffer
whose length is no failure as an `int`, and the timer's field is no longer in
use or a timer; so a frame size is never taken for a failure, and no close of
the timer hits the device.
-/
namespace CamBuffer

open ByteOrder FiniteMaps TunnelFraming ExecutionTraces CallOutcomes CamService CamCalls
  CamDevices CamDescriptors

def Queued (t : Table) (fd : ℤ) : Prop := ∃ length, t fd = some (.camera length true)

/-- The flag is set exactly when the buffer of the device at hand is queued, and no other is. -/
structure Tells (opts : CamSetting) (t : Table) : Prop where
  flag : opts.queued = 0 ∨ opts.queued = 1
  queued : ∀ fd, Queued t fd ↔ opts.queued = 1 ∧ fd = opts.fd

/-- Buffers are queued when they are not and dequeued when they are, and nothing is unmapped or
closed while its buffer is queued. -/
def Proper (t : Table) (e : Event) : Prop :=
  Tells e.opts t ∧
    match e.call with
    | .queueBuffer fd _ => ¬ Queued t fd
    | .dequeueBuffer fd _ => Queued t fd
    | .munmap _ _ _ => ∀ fd, ¬ Queued t fd
    | .close _ fd => ¬ Queued t fd
    | _ => True

abbrev Sound (t : Table) (r : Outcome CamSetting Event)
    (Q : Bool → CamSetting → Table → Prop) : Prop :=
  Ensures after Possible Proper t r Q

/-- The length of the device's buffer is no failure. -/
def Known (opts : CamSetting) (t : Table) : Prop :=
  ∀ length queued, t opts.fd = some (.camera length queued) → length ≠ 0xffffffff

/-- The field of the timer is a timer, if it is anything. -/
def Timed (opts : CamSetting) (t : Table) : Prop := opts.timerfd = -1 ∨ t opts.timerfd = some .timer

/-- The socket, if there is one, stays open: neither the timer nor a camera that can be closed has
its number. -/
structure Linked (sock : Option ℤ) (opts : CamSetting) (t : Table) : Prop where
  socket : ∀ x ∈ sock, x ≠ -1 ∧ t x = some .other
  timer : opts.timerfd ∉ sock
  camera : opts.fd ∈ sock → opts.fd ≤ 0

/-- What holds wherever the program is. -/
structure Agree (sock : Option ℤ) (opts : CamSetting) (t : Table) : Prop where
  tells : Tells opts t
  known : opts.queued = 1 → Known opts t
  linked : Linked sock opts t

/-- What holds in the loop. -/
structure Ready (sock : Option ℤ) (opts : CamSetting) (t : Table) : Prop where
  tells : Tells opts t
  known : Known opts t
  timed : Timed opts t
  buffer : opts.rawBuffer ≠ .null
  linked : Linked sock opts t

/-- Nothing is queued. -/
structure Idle (sock : Option ℤ) (opts : CamSetting) (t : Table) : Prop where
  flag : opts.queued = 0
  queued : ∀ fd, ¬ Queued t fd
  linked : Linked sock opts t

section Calls

variable {t : Table} {sock : Option ℤ} {opts : CamSetting} {e : Event} {fd x result : ℤ}

theorem Idle.tells (h : Idle sock opts t) : Tells opts t :=
  ⟨.inl h.flag, fun fd => ⟨fun hq => (h.queued fd hq).elim, fun hq => by simp [h.flag] at hq⟩⟩

theorem Tells.idle (h : Tells opts t) (hlinked : Linked sock opts t) (hflag : opts.queued ≠ 1) :
    Idle sock opts t :=
  ⟨h.flag.resolve_right hflag, fun fd hq => hflag ((h.queued fd).mp hq).1, hlinked⟩

theorem Idle.agree (h : Idle sock opts t) : Agree sock opts t :=
  ⟨h.tells, fun hflag => by simp [h.flag] at hflag, h.linked⟩

theorem Ready.agree (h : Ready sock opts t) : Agree sock opts t :=
  ⟨h.tells, fun _ => h.known, h.linked⟩

theorem queued_opened {node : Node} (hnode : ∀ length, node ≠ .camera length true)
    (hunused : Unused t result) : Queued (opened t result node) fd ↔ Queued t fd := by
  rw [opened]
  split_ifs with hresult
  · rfl
  · by_cases hfd : fd = result
    · have hnone := (hunused.resolve_left hresult).2
      subst hfd
      simp [Queued, hnone, hnode]
    · rw [Queued, Queued, Function.update_of_ne hfd]

theorem queued_closed : Queued (Function.update t x none) fd ↔ fd ≠ x ∧ Queued t fd := by
  by_cases hfd : fd = x
  · subst hfd
    simp [Queued]
  · simp [Queued, hfd]

theorem Tells.opened (h : Tells opts t) {node : Node}
    (hnode : ∀ length, node ≠ .camera length true) (hunused : Unused t result) :
    Tells opts (opened t result node) :=
  ⟨h.flag, fun fd => (queued_opened hnode hunused).trans (h.queued fd)⟩

theorem Tells.closed (h : Tells opts t) (hnot : ¬ Queued t x) :
    Tells opts (Function.update t x none) := by
  refine ⟨h.flag, fun fd => ?_⟩
  rw [queued_closed, ← h.queued, and_iff_right_iff_imp]
  rintro hq rfl
  exact hnot hq

theorem queued_exchanged (b : Bool) : Queued (onCamera t x fun c => (c.1, b)) fd ↔
    if fd = x then IsCamera t x ∧ b = true else Queued t fd := by
  rw [Queued, onCamera_apply, isCamera_iff]
  split_ifs with hfd
  · cases ht : t x with
    | none => simp
    | some node => cases node <;> simp
  · rfl

theorem queued_measured (length : UInt32) :
    Queued (onCamera t x fun c => (length, c.2)) fd ↔ Queued t fd := by
  rw [Queued, Queued, onCamera_apply]
  split_ifs with hfd
  · subst hfd
    cases ht : t fd with
    | none => simp
    | some node => cases node <;> simp
  · rfl

/-- Calls that leave the table alone and are right at any time. -/
def Neutral : Call → Prop
  | .setFormat _ _ _ _ | .setParm _ _ _ | .requestBuffers _ _ _ | .streamOn _ _ | .mmap _ _ _
  | .timerfdSettime _ _ _ | .read _ _ | .scanlines _ | .sent _ => True
  | _ => False

theorem sound_neutral (h : Tells e.opts t) (hcall : Neutral e.call) :
    Proper t e ∧ after t e = t := by
  obtain ⟨opts, call⟩ := e
  cases call with
  | setFormat | setParm | requestBuffers | streamOn | mmap | timerfdSettime | read | scanlines
  | sent => exact ⟨⟨h, trivial⟩, rfl⟩
  | _ => exact hcall.elim

/-- Calls leave the socket alone, unless they close it. -/
theorem Linked.call (h : Linked sock opts t) (hanswer : Possible t e)
    (hclose : ∀ field fd, e.call = .close field fd → fd ∉ sock) : Linked sock opts (after t e) := by
  refine ⟨fun x hx => ⟨(h.socket x hx).1, ?_⟩, h.timer, h.camera⟩
  have hother := (h.socket x hx).2
  rcases after_cases t e with hsame | ⟨result, hresult, node, hopened⟩ |
    ⟨field, fd, hcall, hclosed⟩ | ⟨fd, f, hcamera⟩
  · rw [hsame, hother]
  · have hunused : Unused t result := hanswer.1 result hresult
    rw [hopened, opened]
    split_ifs with hfailed
    · exact hother
    · rw [Function.update_of_ne, hother]
      rintro rfl
      simp [(hunused.resolve_left hfailed).2] at hother
  · rw [hclosed, Function.update_of_ne, hother]
    rintro rfl
    exact hclose field x hcall hx
  · rw [hcamera, onCamera_apply]
    split_ifs with hfd
    · simp [← hfd, hother]
    · exact hother

/-- What the kernel gives is not the socket, nor is -1. -/
theorem Linked.granted (h : Linked sock opts t) (hunused : Unused t result) : result ∉ sock := by
  intro hmem
  obtain ⟨hne, hother⟩ := h.socket result hmem
  simp [(hunused.resolve_left hne).2] at hother

/-- While nothing is queued, every call but the exchange of the buffer is right, and nothing gets
queued. -/
theorem Idle.call (h : Idle sock e.opts t) (hanswer : Possible t e)
    (hcall : ∀ fd bytesused, e.call ≠ .queueBuffer fd bytesused ∧
      e.call ≠ .dequeueBuffer fd bytesused) :
    Proper t e ∧ ∀ fd, ¬ Queued (after t e) fd := by
  obtain ⟨opts, call⟩ := e
  have htells : Tells opts t := h.tells
  have hopened {result : ℤ} {node : Node} (hresult : result ∈ granted call)
      (hnode : ∀ length, node ≠ .camera length true) (fd : ℤ) :
      ¬ Queued (opened t result node) fd :=
    mt (queued_opened hnode (hanswer.1 result hresult)).mp (h.queued fd)
  cases call with
  | queueBuffer fd bytesused => exact ((hcall fd bytesused).1 rfl).elim
  | dequeueBuffer fd bytesused => exact ((hcall fd bytesused).2 rfl).elim
  | «open» path result => exact ⟨⟨htells, trivial⟩, hopened rfl (by simp)⟩
  | timerfdCreate result => exact ⟨⟨htells, trivial⟩, hopened rfl (by simp)⟩
  | openSocket result => exact ⟨⟨htells, trivial⟩, hopened rfl (by simp)⟩
  | close field x =>
    exact ⟨⟨htells, h.queued x⟩, fun fd hq => h.queued fd (queued_closed.mp hq).2⟩
  | munmap => exact ⟨⟨htells, h.queued⟩, h.queued⟩
  | queryBuffer x length =>
    refine ⟨⟨htells, trivial⟩, fun fd hq => h.queued fd ?_⟩
    cases length with
    | none => exact hq
    | some length => exact (queued_measured length).mp hq
  | _ => exact ⟨⟨htells, trivial⟩, h.queued⟩

/-- A frame fits into its buffer, so its size is no failure. -/
theorem returned_of_fits {bytesused : UInt32} (hknown : Known opts t)
    (hfits : Fits t opts.fd bytesused) : returned (some bytesused) ≠ -1 := by
  unfold Fits at hfits
  split at hfits
  · rename_i length queued hcamera
    have hlength := hknown length queued hcamera
    rw [returned, ne_eq, cInt_eq_failure]
    rintro rfl
    refine hlength (UInt32.le_antisymm ?_ hfits)
    exact UInt32.le_iff_toNat_le.mpr (Nat.le_of_lt_succ length.toNat_lt)
  · exact hfits.elim

theorem isCamera_of_fits {bytesused : UInt32} (hfits : Fits t fd bytesused) : IsCamera t fd := by
  unfold Fits at hfits
  unfold IsCamera
  split at hfits
  · simp_all
  · exact hfits.elim

theorem Known.exchanged (h : Known opts t) (b : Bool) :
    Known opts (onCamera t opts.fd fun c => (c.1, b)) := by
  intro length queued hcamera
  rw [onCamera_apply, if_pos rfl] at hcamera
  cases ht : t opts.fd with
  | none => simp [ht] at hcamera
  | some node =>
    cases node with
    | camera length' queued' =>
      have hlength : length' = length := by simp [ht] at hcamera; exact hcamera.1
      exact hlength ▸ h length' queued' ht
    | timer => simp [ht] at hcamera
    | other => simp [ht] at hcamera

theorem Known.opened (h : Known opts t) (result : ℤ) {node : Node}
    (hnode : ∀ length queued, node ≠ .camera length queued) :
    Known opts (opened t result node) := by
  intro length queued hcamera
  rw [CamDevices.opened] at hcamera
  split_ifs at hcamera with hfailed
  · exact h length queued hcamera
  · by_cases hfd : opts.fd = result
    · rw [hfd, Function.update_self] at hcamera
      exact (hnode length queued (Option.some.inj hcamera)).elim
    · rw [Function.update_of_ne hfd] at hcamera
      exact h length queued hcamera

theorem Known.closed (h : Known opts t) (x : ℤ) : Known opts (Function.update t x none) := by
  intro length queued hcamera
  by_cases hfd : opts.fd = x
  · simp [hfd] at hcamera
  · rw [Function.update_of_ne hfd] at hcamera
    exact h length queued hcamera

theorem Timed.exchanged (h : Timed opts t) (b : Bool) :
    Timed opts (onCamera t opts.fd fun c => (c.1, b)) := by
  refine h.imp id fun htimer => ?_
  rw [onCamera_apply]
  split_ifs with hfd
  · rw [← hfd, htimer]
    rfl
  · exact htimer

end Calls

section Functions

variable {t : Table} {sock : Option ℤ} {opts : CamSetting}

/-- A single call that is right at any time. -/
theorem sound_call (h : Tells opts t) {call : Call} (hcall : Neutral call) (ok : Bool) :
    Sound t ⟨ok, opts, [⟨opts, call⟩]⟩ fun _ s u => s = opts ∧ u = t :=
  .call fun _ => ⟨(sound_neutral h hcall).1, rfl, (sound_neutral h hcall).2⟩

/-- The buffer is dequeued and the flag cleared, or both stay as they are. -/
theorem dequeue_sound (h : Agree sock opts t) (hflag : opts.queued = 1) (a : Option UInt32) :
    Sound t ((camDequeueBuffer opts a).andThen fun opts => .done { opts with queued := 0 })
      fun ok s u => (ok = false → s = opts ∧ u = t) ∧
        (ok = true → s = { opts with queued := 0 } ∧ Idle sock s u ∧
          u = onCamera t opts.fd fun c => (c.1, false)) := by
  have hcall : Sound t (camDequeueBuffer opts a) fun ok s u => s = opts ∧ Linked sock s u ∧
      (ok = false → u = t) ∧ (ok = true → u = onCamera t opts.fd fun c => (c.1, false)) := by
    refine .call fun hanswer => ⟨⟨h.tells, (h.tells.queued opts.fd).mpr ⟨hflag, rfl⟩⟩, rfl,
      h.linked.call hanswer (by simp), ?_⟩
    cases a with
    | none => exact ⟨fun _ => rfl, by simp [returned]⟩
    | some bytesused =>
      have hok := returned_of_fits (h.known hflag) (hanswer.2 (opts.fd, bytesused) rfl)
      exact ⟨fun hfailed => by simp [hok] at hfailed, fun _ => rfl⟩
  refine hcall.andThen (fun s u hs => ⟨fun _ => ⟨hs.1, hs.2.2.1 rfl⟩, by simp⟩) fun s u hs => ?_
  obtain ⟨rfl, hlinked, -, hu⟩ := hs
  refine .done ⟨by simp, fun _ => ⟨rfl, ⟨rfl, fun fd => ?_, ?_⟩, hu rfl⟩⟩
  · rw [hu rfl, queued_exchanged, h.tells.queued]
    split_ifs with hfd
    · simp
    · exact fun hq => hfd hq.2
  · exact ⟨hlinked.socket, hlinked.timer, hlinked.camera⟩

/-- The buffer is queued and the flag set, or both stay as they are. -/
theorem queue_sound (h : Ready sock opts t) (hflag : opts.queued = 0) (a : Option UInt32) :
    Sound t ((camQueueBuffer opts a).andThen fun opts => .done { opts with queued := 1 })
      fun _ s u => Ready sock s u := by
  have hidle := h.tells.idle h.linked (by simp [hflag])
  have hcall : Sound t (camQueueBuffer opts a) fun ok s u => s = opts ∧ Linked sock s u ∧
      (ok = false → u = t) ∧
      (ok = true → IsCamera t opts.fd ∧ u = onCamera t opts.fd fun c => (c.1, true)) := by
    refine .call fun hanswer => ⟨⟨h.tells, hidle.queued opts.fd⟩, rfl,
      h.linked.call hanswer (by simp), ?_⟩
    cases a with
    | none => exact ⟨fun _ => rfl, by simp [returned]⟩
    | some bytesused =>
      have hfits : Fits t opts.fd bytesused := hanswer.2 (opts.fd, bytesused) rfl
      have hok := returned_of_fits h.known hfits
      exact ⟨fun hfailed => by simp [hok] at hfailed, fun _ => ⟨isCamera_of_fits hfits, rfl⟩⟩
  refine hcall.andThen (fun s u hs => ?_) fun s u hs => ?_
  · obtain ⟨rfl, -, hu, -⟩ := hs
    exact hu rfl ▸ h
  · obtain ⟨rfl, hlinked, -, hu⟩ := hs
    obtain ⟨hcamera, rfl⟩ := hu rfl
    refine .done ⟨⟨.inr rfl, fun fd => ?_⟩, h.known.exchanged true, h.timed.exchanged true,
      h.buffer, ⟨hlinked.socket, hlinked.timer, hlinked.camera⟩⟩
    rw [queued_exchanged]
    split_ifs with hfd
    · simp [hcamera, hfd]
    · simp [hidle.queued fd, hfd]

/-- A call while nothing is queued. -/
theorem idle_call (h : Idle sock opts t) {call : Call}
    (hcall : ∀ fd bytesused, call ≠ .queueBuffer fd bytesused ∧
      call ≠ .dequeueBuffer fd bytesused)
    (hclose : ∀ field fd, call = .close field fd → fd ∉ sock) (ok : Bool) :
    Sound t ⟨ok, opts, [⟨opts, call⟩]⟩ fun ok' s u =>
      ok' = ok ∧ s = opts ∧ u = after t ⟨opts, call⟩ ∧ Idle sock s u :=
  .call fun hanswer =>
    have hright := Idle.call (e := ⟨opts, call⟩) h hanswer hcall
    ⟨hright.1, rfl, rfl, rfl, h.flag, hright.2, h.linked.call hanswer hclose⟩

theorem camReleaseBuffer_sound (h : Idle sock opts t) (ok : Bool) :
    Sound t (camReleaseBuffer opts ok) fun _ s u => Idle sock s u := by
  unfold camReleaseBuffer
  split
  · exact .done h
  · refine (idle_call h (by simp) (by simp) ok).andThen (fun _ _ hs => hs.2.2.2) fun s u hs => ?_
    have hidle := hs.2.2.2
    exact .done ⟨hidle.flag, hidle.queued, hidle.linked.socket, hidle.linked.timer,
      hidle.linked.camera⟩

theorem closeAll_sound (h : Idle sock opts t) :
    Sound t (closeAll opts) fun _ s u => Idle sock s u := by
  intro _
  have hall : ∀ e ∈ (closeAll opts).out, ∀ u, Idle sock opts u →
      Proper u e ∧ Idle sock opts (after u e) := by
    intro e he u hu
    obtain ⟨field, fd, rfl, hfd⟩ : ∃ field fd, e = ⟨opts, .close field fd⟩ ∧ fd ∉ sock := by
      rcases List.mem_append.mp he with he | he
      · split_ifs at he with hpos
        · exact ⟨.camera, opts.fd, List.mem_singleton.mp he,
            fun hmem => absurd (h.linked.camera hmem) (by omega)⟩
        · cases he
      · split_ifs at he with hpos
        · exact ⟨.timer, opts.timerfd, List.mem_singleton.mp he, h.linked.timer⟩
        · cases he
    have hanswer : Possible u ⟨opts, .close field fd⟩ := ⟨by simp [granted], by simp [exchanged]⟩
    have hright := Idle.call (e := ⟨opts, .close field fd⟩) hu hanswer (by simp)
    exact ⟨hright.1, h.flag, hright.2, hu.linked.call hanswer (by simp_all)⟩
  exact along_of_invariant h hall

theorem camCleanup_sound (h : Agree sock opts t) (closeFd : Bool) (a : Cleanup) :
    Sound t (camCleanup opts closeFd a) fun ok s u =>
      Agree sock s u ∧ (ok = true → Idle sock s u) := by
  have hdequeued : Sound t
      (if opts.queued = 1 then
        (camDequeueBuffer opts a.dequeue).andThen fun opts => .done { opts with queued := 0 }
      else .done opts) fun ok s u => Agree sock s u ∧ (ok = true → Idle sock s u) := by
    split
    · rename_i hflag
      refine (dequeue_sound h hflag a.dequeue).mono fun ok s u hs => ?_
      cases ok with
      | false =>
        obtain ⟨rfl, rfl⟩ := hs.1 rfl
        exact ⟨h, by simp⟩
      | true => exact ⟨(hs.2 rfl).2.1.agree, fun _ => (hs.2 rfl).2.1⟩
    · rename_i hflag
      have hidle := h.tells.idle h.linked hflag
      exact .done ⟨hidle.agree, fun _ => hidle⟩
  unfold camCleanup
  refine hdequeued.andThen (fun s u hs => ⟨hs.1, by simp⟩) fun s u hs => ?_
  have hidle := hs.2 rfl
  refine (sound_call hidle.tells (by trivial) a.streamOn).andThen ?_ ?_
  · rintro s u ⟨rfl, rfl⟩
    exact ⟨hidle.agree, by simp⟩
  rintro s u ⟨rfl, rfl⟩
  refine (camReleaseBuffer_sound hidle a.munmap).andThen (fun s u hs => ⟨hs.agree, by simp⟩)
    fun s u hs => ?_
  split
  · exact (closeAll_sound hs).mono fun _ s u hs => ⟨hs.agree, fun _ => hs⟩
  · exact .done ⟨hs.agree, fun _ => hs⟩

theorem camCleanup_agrees (h : Agree sock opts t) (closeFd : Bool) (a : Cleanup) :
    Sound t (camCleanup opts closeFd a).ignored fun _ s u => Agree sock s u :=
  (camCleanup_sound h closeFd a).ignored fun _ _ _ hs => hs.1

theorem camQueryBuffer_sound (h : Idle sock opts t) (query : Option UInt32) (mmap : Bool) :
    Sound t (camQueryBuffer opts query mmap) fun ok s u =>
      Idle sock s u ∧ (ok = true → Known s u ∧ s.rawBuffer ≠ .null) := by
  unfold camQueryBuffer
  cases query with
  | none =>
    refine .call fun hanswer => ?_
    have hquery := Idle.call (e := ⟨opts, _⟩) h hanswer (by simp)
    exact ⟨hquery.1, ⟨h.flag, hquery.2, h.linked.call hanswer (by simp)⟩, by simp⟩
  | some length =>
    intro hanswers
    have hquery :=
      Idle.call (e := ⟨opts, .queryBuffer opts.fd (some length)⟩) h hanswers.1 (by simp)
    have hlinked := h.linked.call hanswers.1 (by simp)
    have hidle : Idle sock opts (onCamera t opts.fd fun c => (length, c.2)) :=
      ⟨h.flag, hquery.2, hlinked⟩
    refine ⟨⟨hquery.1, ⟨hidle.tells, trivial⟩, trivial⟩,
      ⟨h.flag, hidle.queued, hlinked.socket, hlinked.timer, hlinked.camera⟩, ?_⟩
    refine fun hok => ⟨fun length' queued hcamera => ?_, by cases mmap <;> simp⟩
    have hmeasured : (onCamera t opts.fd fun c => (length, c.2)) opts.fd =
        some (.camera length' queued) := hcamera
    have hlength : length' = length := by
      rw [onCamera_apply, if_pos rfl] at hmeasured
      cases ht : t opts.fd with
      | none => simp [ht] at hmeasured
      | some node => cases node <;> simp_all
    rw [hlength]
    simpa [cInt_eq_failure] using hok

theorem openDevice_sound (h : Idle sock opts t) (a : Apply) :
    Sound t (openDevice opts a) fun ok s u =>
      Idle sock s u ∧ (ok = true → Known s u ∧ s.rawBuffer ≠ .null) := by
  have hopened : Sound t
      ⟨a.open ≠ -1, { opts with fd := a.open }, [⟨opts, .open opts.devName a.open⟩]⟩
      fun _ s u => Idle sock s u := by
    refine .call fun hanswer => ?_
    have hright := Idle.call (e := ⟨opts, .open opts.devName a.open⟩) h hanswer (by simp)
    have hlinked := h.linked.call hanswer (by simp)
    refine ⟨hright.1, h.flag, hright.2, hlinked.socket, hlinked.timer, fun hmem => ?_⟩
    exact (h.linked.granted (hanswer.1 a.open rfl) hmem).elim
  refine hopened.andThen (fun s u hs => ⟨hs, by simp⟩) fun s u hs => ?_
  have hformat : Sound u (camSetFormat s a) fun _ s' u' => Idle sock s' u' :=
    (idle_call hs (by simp) (by simp) _).andThen (fun _ _ hs => hs.2.2.2) fun s u hs =>
      (idle_call hs.2.2.2 (by simp) (by simp) _).mono fun _ _ _ hs => hs.2.2.2
  refine hformat.andThen (fun s u hs => ⟨hs, by simp⟩) fun s u hs => ?_
  refine (idle_call hs (by simp) (by simp) a.request).andThen (fun s u hs => ⟨hs.2.2.2, by simp⟩)
    fun s u hs => ?_
  exact camQueryBuffer_sound hs.2.2.2 a.query a.mmap

/-- The field of the timer and the table change together when a timer is made. -/
theorem Ready.created (h : Tells opts t) (hknown : Known opts t) (hbuffer : opts.rawBuffer ≠ .null)
    (hlinked : Linked sock opts t) {a : ℤ} (hanswer : Possible t ⟨opts, .timerfdCreate a⟩) :
    Ready sock { opts with timerfd := a } (opened t a .timer) := by
  have hunused : Unused t a := hanswer.1 a rfl
  have htells : Tells opts (opened t a .timer) := h.opened (by simp) hunused
  have hsocket := (hlinked.call hanswer (by simp)).socket
  refine ⟨⟨htells.flag, htells.queued⟩, hknown.opened a (by simp), ?_, hbuffer, hsocket,
    hlinked.granted hunused, hlinked.camera⟩
  rw [Timed, CamDevices.opened]
  split_ifs with hfailed
  · exact .inl hfailed
  · exact .inr (Function.update_self ..)

/-- A timer that is closed is forgotten. -/
theorem Ready.stopped (h : Ready sock opts t) (hne : opts.timerfd ≠ -1) :
    Proper t ⟨opts, .close .timer opts.timerfd⟩ ∧
      Ready sock { opts with timerfd := -1 } (Function.update t opts.timerfd none) := by
  have htimer : t opts.timerfd = some .timer := h.timed.resolve_left hne
  have hnot : ¬ Queued t opts.timerfd := by simp [Queued, htimer]
  have hlinked := h.linked.call (e := ⟨opts, .close .timer opts.timerfd⟩)
    ⟨by simp [granted], by simp [exchanged]⟩ (by rintro _ _ ⟨⟩; exact h.linked.timer)
  have htells := h.tells.closed hnot
  exact ⟨⟨h.tells, hnot⟩, ⟨htells.flag, htells.queued⟩, h.known.closed opts.timerfd, .inl rfl,
    h.buffer, hlinked.socket, fun hmem => (h.linked.socket _ hmem).1 rfl, h.linked.camera⟩

/-- A timer is closed only while nothing is queued, and the new one takes a descriptor that is not
open. -/
theorem camInitTimer_sound (h : Agree sock opts t) (hknown : Known opts t)
    (hbuffer : opts.rawBuffer ≠ .null) (hclose : opts.timerfd = -1 ∨ opts.queued = 0) (a : Timer) :
    Sound t (camInitTimer opts a) fun _ s u => Ready sock s u := by
  have hclosed : Sound t
      (if opts.timerfd ≠ -1 then ⟨true, opts, [⟨opts, .close .timer opts.timerfd⟩]⟩
        else .done opts)
      fun ok s u => ok = true ∧ Agree sock s u ∧ Known s u ∧ s.rawBuffer ≠ .null := by
    split
    · rename_i hne
      have hidle := h.tells.idle h.linked (by simp [hclose.resolve_left hne])
      have hnot : ∀ field fd, Call.close .timer opts.timerfd = .close field fd → fd ∉ sock := by
        rintro _ _ ⟨⟩
        exact h.linked.timer
      refine (idle_call hidle (by simp) hnot true).mono fun _ s u hs => ?_
      obtain ⟨hok, rfl, rfl, hs⟩ := hs
      exact ⟨hok, hs.agree, hknown.closed s.timerfd, hbuffer⟩
    · exact .done ⟨rfl, h, hknown, hbuffer⟩
  unfold camInitTimer
  refine hclosed.andThen (fun s u hs => by simp at hs) fun s u hs => ?_
  obtain ⟨-, hagree, hknown, hbuffer⟩ := hs
  have hcreated : Sound u
      ⟨a.create ≠ -1, { s with timerfd := a.create }, [⟨s, .timerfdCreate a.create⟩]⟩
      fun ok s' u' => Ready sock s' u' ∧ (ok = true → s'.timerfd ≠ -1) :=
    .call fun hanswer => ⟨⟨hagree.tells, trivial⟩,
      Ready.created hagree.tells hknown hbuffer hagree.linked hanswer, by simp⟩
  refine hcreated.andThen (fun _ _ hs => hs.1) fun s u hs => ?_
  obtain ⟨hready, hne⟩ := hs
  split
  · exact (sound_call hready.tells (by trivial) true).mono fun _ _ _ hs => by
      obtain ⟨rfl, rfl⟩ := hs
      exact hready
  · intro _
    obtain ⟨hright, hstopped⟩ := hready.stopped (hne rfl)
    exact ⟨⟨⟨hready.tells, trivial⟩, hright, trivial⟩, hstopped⟩

/-- The device is reopened only after its buffer is back; then the loop can go on. -/
theorem camApplySetting_sound (h : Agree sock opts t)
    (hnull : opts.rawBuffer = .null → Idle sock opts t) (a : Apply) :
    Sound t (camApplySetting opts a) fun ok s u =>
      Agree sock s u ∧ (ok = true → Ready sock s u) := by
  have hcleaned : Sound t
      (if opts.rawBuffer ≠ .null then camCleanup opts true a.cleanup else .done opts)
      fun ok s u => Agree sock s u ∧ (ok = true → Idle sock s u) := by
    split
    · exact camCleanup_sound h true a.cleanup
    · rename_i hbuffer
      exact .done ⟨h, fun _ => hnull (not_not.mp hbuffer)⟩
  unfold camApplySetting
  refine hcleaned.andThen (fun s u hs => ⟨hs.1, by simp⟩) fun s u hs => ?_
  refine (openDevice_sound (hs.2 rfl) a).andThen (fun s u hs => ⟨hs.1.agree, by simp⟩)
    fun s u hs => ?_
  obtain ⟨hidle, hopened⟩ := hs
  obtain ⟨hknown, hbuffer⟩ := hopened rfl
  exact (camInitTimer_sound hidle.agree hknown hbuffer (.inr hidle.flag) a.timer).ignored
    fun _ s u hs => ⟨hs.agree, fun _ => hs⟩

theorem camSendFrameClient_sound (h : Ready sock opts t) (clients : List UInt16)
    (stack : TunnelMsgH) (jpeg : List UInt8) (dequeue : Option UInt32) :
    Sound t (camSendFrameClient opts clients stack jpeg dequeue) fun _ s u => Ready sock s u := by
  unfold camSendFrameClient
  split
  · exact .done h
  rename_i hflag
  have hone : opts.queued = 1 := h.tells.flag.resolve_left hflag
  have hframes : Sound t ⟨true, opts, if clients ≠ [] then ⟨opts, .scanlines (rowOffsets opts)⟩ ::
        clients.map fun client => ⟨opts, .sent (frame CHANNEL_DATA stack.channelId client jpeg)⟩
      else []⟩ fun _ s u => s = opts ∧ u = t := by
    intro _
    refine (along_of_invariant (I := fun u => u = t) rfl fun e he u hu => ?_).imp id
      fun hu => ⟨rfl, hu⟩
    subst hu
    split_ifs at he
    · rcases List.mem_cons.mp he with rfl | he
      · exact sound_neutral h.tells trivial
      · obtain ⟨client, -, rfl⟩ := List.mem_map.mp he
        exact sound_neutral h.tells trivial
    · cases he
  refine hframes.andThen ?_ ?_
  · rintro s u ⟨rfl, rfl⟩
    exact h
  rintro s u ⟨rfl, rfl⟩
  refine (dequeue_sound h.agree hone dequeue).mono fun ok s u hs => ?_
  cases ok with
  | false =>
    obtain ⟨rfl, rfl⟩ := hs.1 rfl
    exact h
  | true =>
    obtain ⟨rfl, hidle, rfl⟩ := hs.2 rfl
    exact ⟨hidle.tells, h.known.exchanged false, h.timed.exchanged false, h.buffer, hidle.linked⟩

theorem readTimer_sound (h : Ready sock opts t) (read : Option UInt64) :
    Sound t (readTimer opts read) fun _ s u => Ready sock s u := by
  unfold readTimer
  split
  · refine (sound_call h.tells (by trivial) true).mono fun _ _ _ hs => ?_
    obtain ⟨rfl, rfl⟩ := hs
    exact h
  · exact .done h

end Functions

section Main

variable {M : Type → Type → Type} {t : Table} {s : State M}

/-- While the loop runs, the device is ready. -/
structure Steady (s : State M) (t : Table) : Prop where
  agree : Agree (some s.sock) s.opts t
  ready : s.running = true → Ready (some s.sock) s.opts t

theorem Ready.steady (h : Ready (some s.sock) s.opts t) : Steady s t := ⟨h.agree, fun _ => h⟩

/-- What a function guarantees about the setting, in the state it is called from. -/
theorem sound_with {r : Outcome CamSetting Event} {Q : Bool → CamSetting → Table → Prop}
    (h : Sound t r Q) : Ensures after Possible Proper t (s.with r) fun ok s' u =>
      ok = true ∧ Q r.ok s'.opts u ∧ s'.sock = s.sock ∧ s'.running = (s.running && r.ok) :=
  fun hanswers => ⟨(h hanswers).1, rfl, (h hanswers).2, rfl, rfl⟩

/-- A function that leaves the device ready leaves it ready for the loop. -/
theorem ready_with {r : Outcome CamSetting Event}
    (h : Sound t r fun _ opts u => Ready (some s.sock) opts u) :
    Ensures after Possible Proper t (s.with r) fun ok s' u =>
      ok = true ∧ Ready (some s'.sock) s'.opts u := by
  refine (sound_with h).mono fun _ s' u hs => ?_
  obtain ⟨hok, hready, hsock, -⟩ := hs
  exact ⟨hok, hsock.symm ▸ hready⟩

/-- The socket is closed as the last thing, and it is no camera. -/
theorem Agree.hangUp {opts : CamSetting} {x : ℤ} (h : Agree (some x) opts t) :
    Proper t ⟨opts, .close .sock x⟩ ∧ Tells opts (Function.update t x none) := by
  have hother : t x = some .other := (h.linked.socket x rfl).2
  have hnot : ¬ Queued t x := by simp [Queued, hother]
  exact ⟨⟨h.tells, hnot⟩, h.tells.closed hnot⟩

/-- What the program leaves when it has ended. -/
abbrev Ended (ok : Bool) (s : State M) (t : Table) : Prop :=
  Tells s.opts t ∧ (ok = true → Steady s t)

theorem abandon_sound {sock : Option ℤ} (h : Agree sock s.opts t)
    (hsock : s.sock ≠ -1 → sock = some s.sock) (a : Cleanup) :
    Ensures after Possible Proper t (abandon s a) Ended := by
  refine (sound_with (camCleanup_agrees h true a)).andThen (fun _ _ hs => by simp at hs)
    fun s' u hs => ?_
  obtain ⟨-, hagree, hsame, -⟩ := hs
  split
  · rename_i hne
    rw [hsame] at hne
    rw [hsock hne, ← hsame] at hagree
    exact .call fun _ => ⟨hagree.hangUp.1, hagree.hangUp.2, by simp⟩
  · exact fun _ => ⟨trivial, hagree.tells, by simp⟩

variable [FiniteMap M]

theorem queueNext_sound (h : Ready (some s.sock) s.opts t) (queue : Option UInt32) :
    Ensures after Possible Proper t (queueNext s queue) fun ok s u =>
      ok = true ∧ Ready (some s.sock) s.opts u := by
  unfold queueNext
  split
  · rename_i hnext
    exact ready_with (queue_sound h hnext.2 queue)
  · exact .done ⟨rfl, h⟩

/-- Without clients there is no timer after this. -/
theorem stopTimer_sound (h : Ready (some s.sock) s.opts t) :
    Ensures after Possible Proper t (stopTimer s) fun ok s u =>
      ok = true ∧ Ready (some s.sock) s.opts u ∧ (subscribers s = [] → s.opts.timerfd = -1) := by
  unfold stopTimer
  split
  · rename_i hstop
    obtain ⟨hright, hstopped⟩ := h.stopped hstop.2
    exact .call fun _ => ⟨hright, rfl, hstopped, fun _ => rfl⟩
  · rename_i hstop
    exact .done ⟨rfl, h, fun hnone => by_contra fun hne => hstop ⟨hnone, hne⟩⟩

/-- Messages sent from one setting. -/
theorem along_sent {opts : CamSetting} (h : Tells opts t) (out : List Event)
    (hout : ∀ e ∈ out, ∃ msg, e = ⟨opts, .sent msg⟩) :
    Along after Proper t out ∧ out.foldl after t = t := by
  refine along_of_invariant (I := fun u => u = t) rfl fun e he u hu => ?_
  subst hu
  obtain ⟨msg, rfl⟩ := hout e he
  exact sound_neutral h trivial

theorem channelSubscribe_sound (h : Ready (some s.sock) s.opts t)
    (hnone : subscribers s = [] → s.opts.timerfd = -1) (p : Pass) (i : Input) :
    Ensures after Possible Proper t (channelSubscribe s p i) fun _ s u => Steady s u := by
  have htimed : Ensures after Possible Proper t
      (if subscribers s = [] then s.with (camInitTimer s.opts p.timer).ignored else .done s)
      fun ok s u => ok = true ∧ Ready (some s.sock) s.opts u := by
    split
    · rename_i hempty
      have htimer := camInitTimer_sound h.agree h.known h.buffer (.inl (hnone hempty)) p.timer
      exact ready_with (htimer.ignored fun _ _ _ hs => hs)
    · exact .done ⟨rfl, h⟩
  unfold channelSubscribe
  refine htimed.andThen (fun _ _ hs => by simp at hs) fun s u hs => ?_
  exact .call fun _ => ⟨⟨hs.2.tells, trivial⟩, hs.2.agree, fun _ => hs.2⟩

theorem channelCtrl_sound (h : Ready (some s.sock) s.opts t) (p : Pass) (i : Input) :
    Ensures after Possible Proper t (channelCtrl s p i) fun _ s u => Steady s u := by
  unfold channelCtrl
  split
  · have hagree : Agree (some s.sock) (requested s.opts i.request.payload) t :=
      ⟨⟨h.tells.flag, h.tells.queued⟩, fun _ => h.known,
        h.linked.socket, h.linked.timer, h.linked.camera⟩
    have happlied := sound_with (s := s)
      (camApplySetting_sound hagree (fun hnull => (h.buffer hnull).elim) p.apply)
    refine happlied.andThen (fun _ _ hs => by simp at hs) fun s' u hs => ?_
    obtain ⟨-, hs, hsock, hrunning⟩ := hs
    split
    · rename_i hfailed
      refine (sound_with (camCleanup_agrees hs.1 false p.cleanup)).mono fun _ s'' u' hs' => ?_
      obtain ⟨-, hagree', hsock', hrunning'⟩ := hs'
      refine ⟨by rw [hsock', hsock]; exact hagree', fun hstill => ?_⟩
      simp [hrunning', hrunning, hfailed] at hstill
    · rename_i hok
      have hready := hs.2 (Bool.not_eq_false _ ▸ hok)
      refine (sound_with (sound_call hready.tells (by trivial) p.streamOn)).andThen
        (fun _ _ hs => by simp at hs) fun s'' u' hs' => ?_
      obtain ⟨-, ⟨hopts, rfl⟩, hsock', -⟩ := hs'
      have hready' : Ready (some s''.sock) s''.opts u' := by
        rw [hsock', hsock, hopts]
        exact hready
      split
      · intro _
        obtain ⟨hright, htable⟩ := along_sent hready'.tells (announce s'').out
          fun e he => (List.mem_map.mp he).imp' _ fun _ he => he.2.symm
        exact ⟨hright, htable.symm ▸ ⟨hready'.agree, fun _ => hready'⟩⟩
      · exact .done hready'.steady
  · exact .done h.steady

theorem handleMessage_sound (h : Ready (some s.sock) s.opts t)
    (hnone : subscribers s = [] → s.opts.timerfd = -1) (p : Pass) (i : Input) :
    Ensures after Possible Proper t (handleMessage s p i) fun _ s u => Steady s u := by
  simp only [handleMessage]
  split_ifs
  · exact channelSubscribe_sound h hnone p i
  · exact .done ⟨h.agree, fun _ => h⟩
  · exact channelCtrl_sound h p i
  · exact .done h.steady

theorem sendFrame_sound (h : Ready (some s.sock) s.opts t) (p : Pass)
    (jpeg : Option (List UInt8)) :
    Ensures after Possible Proper t (sendFrame s p jpeg) fun _ s u => Steady s u := by
  unfold sendFrame
  split
  · exact fun _ => ⟨trivial, h.steady⟩
  · have hsent := camSendFrameClient_sound h (subscribers s) p.stack (jpeg.getD []) p.dequeue
    have hread := hsent.andThen (fun _ _ hs => hs) fun _ _ hs => readTimer_sound hs p.read
    exact (ready_with hread).mono fun _ _ _ hs => hs.2.steady

theorem select_sound (h : Ready (some s.sock) s.opts t)
    (hnone : subscribers s = [] → s.opts.timerfd = -1) (p : Pass) :
    Ensures after Possible Proper t (select s p) fun _ s u => Steady s u := by
  unfold select
  split
  · exact .done ⟨h.agree, fun _ => h⟩
  · exact .done h.steady
  · exact .done ⟨h.agree, fun _ => h⟩
  · rename_i i _
    exact handleMessage_sound (s := { s with msg := i.request.header }) h hnone p i
  · split
    · exact sendFrame_sound h p _
    · exact .done h.steady
  · exact .done h.steady

theorem turn_sound (h : Ready (some s.sock) s.opts t) (p : Pass) :
    Ensures after Possible Proper t (turn s p) fun _ s u => Steady s u := by
  refine (queueNext_sound h p.queue).andThen (fun _ _ hs => by simp at hs) fun s u hs => ?_
  refine (stopTimer_sound hs.2).andThen (fun _ _ hs => by simp at hs) fun s u hs => ?_
  refine (select_sound hs.2.1 hs.2.2 p).andThen (fun _ _ hs => hs) fun s u hs => .done ?_
  refine ⟨hs.agree, fun hrunning => hs.ready ?_⟩
  simp only [Bool.and_eq_true] at hrunning
  exact hrunning.1

theorem shutdown_sound (h : Agree (some s.sock) s.opts t) (a : Cleanup) (stack : TunnelMsgH) :
    Ensures after Possible Proper t (shutdown s a stack) Ended := by
  refine (sound_with (camCleanup_agrees h true a)).andThen (fun _ _ hs => by simp at hs)
    fun s' u hs _ => ?_
  obtain ⟨-, hagree, hsame, -⟩ := hs
  rw [← hsame] at hagree
  obtain ⟨hright, htable⟩ := along_sent hagree.tells (unsubscribe s' stack)
    fun e he => (List.mem_map.mp he).imp' _ fun _ he => he.2.symm
  have hclose := hagree.hangUp
  rw [along_append, List.foldl_append, htable]
  exact ⟨⟨hright, ⟨hagree.tells, trivial⟩, hclose.1, trivial⟩, hclose.2, by simp⟩

end Main

section Start

variable {t : Table} {opts : CamSetting} {a : Apply} {x : ℤ}

/-- What is open stays open until it is closed. -/
theorem after_ne_none {e : Event} (hx : t x ≠ none) (hclose : ∀ field, e.call ≠ .close field x) :
    after t e x ≠ none := by
  rcases after_cases t e with hsame | ⟨result, -, node, hopened⟩ | ⟨field, fd, hcall, hclosed⟩ |
    ⟨fd, f, hcamera⟩
  · rwa [hsame]
  · rw [hopened, opened]
    split_ifs with hfailed
    · exact hx
    · by_cases hfd : x = result <;> simp [hfd, hx]
  · rw [hclosed, Function.update_of_ne]
    · exact hx
    · rintro rfl
      exact hclose field hcall
  · rw [hcamera, onCamera_apply]
    split_ifs with hfd
    · simpa [← hfd] using hx
    · exact hx

/-- The device is open when its set-up succeeds. -/
theorem openDevice_stands (hok : (openDevice opts a).ok = true) :
    ((openDevice opts a).out.foldl after t) a.open ≠ none := by
  have hne : a.open ≠ -1 := fun he => openDevice_ok.mp hok (.inl he)
  obtain ⟨rest, hrest⟩ : ∃ rest, (openDevice opts a).out =
      [⟨opts, .open opts.devName a.open⟩] ++ rest := Outcome.andThen_out _ _
  have hfirst : after t ⟨opts, .open opts.devName a.open⟩ a.open ≠ none := by
    simp [after, opened, hne]
  have hstays : ∀ e ∈ rest, ∀ u : Table, u a.open ≠ none → True ∧ after u e a.open ≠ none := by
    refine fun e he u hu => ⟨trivial, after_ne_none hu fun field => ?_⟩
    have hmem : e ∈ (openDevice opts a).out := by
      rw [hrest]
      exact List.mem_append_right _ he
    exact (openDevice_setsUp hmem).closed field a.open
  rw [hrest, List.foldl_append]
  exact (along_of_invariant (P := fun _ _ => True) (I := fun u : Table => u a.open ≠ none)
    hfirst hstays).2

theorem camInitTimer_fd (a : Timer) : (camInitTimer opts a).state.fd = opts.fd := by
  obtain ⟨fd, hstate⟩ := (camInitTimer_calls (K := fun _ => True) (fun _ _ => trivial)
    (fun _ _ => trivial) (fun _ _ _ _ => trivial) opts a).state
  rw [hstate]

/-- A first timer closes nothing but the number 0 and itself. -/
theorem camInitTimer_stands (hfd : t opts.fd ≠ none) (hne : opts.timerfd ≠ opts.fd) (a : Timer) :
    Ensures after Possible (fun _ _ => True) t (camInitTimer opts a) fun _ s u =>
      u s.fd ≠ none := by
  have hclosed : Ensures after Possible (fun _ _ => True) t
      (if opts.timerfd ≠ -1 then ⟨true, opts, [⟨opts, .close .timer opts.timerfd⟩]⟩
        else .done opts) fun ok s u => ok = true ∧ s = opts ∧ u s.fd ≠ none := by
    split
    · refine .call fun _ => ⟨trivial, rfl, rfl, after_ne_none hfd fun field he => ?_⟩
      exact hne (Call.close.inj he).2
    · exact .done ⟨rfl, rfl, hfd⟩
  unfold camInitTimer
  refine hclosed.andThen (fun s u hs => by simp at hs) fun s u hs => ?_
  obtain ⟨-, rfl, hstands⟩ := hs
  have hcreated : Ensures after Possible (fun _ _ => True) u
      ⟨a.create ≠ -1, { s with timerfd := a.create }, [⟨s, .timerfdCreate a.create⟩]⟩
      fun ok s u => u s.fd ≠ none ∧ (ok = true → s.timerfd ≠ s.fd) := by
    refine .call fun hanswer => ⟨trivial, after_ne_none hstands (by simp), fun hok heq => ?_⟩
    have hunused : Unused u a.create := hanswer.1 a.create rfl
    have hsame : a.create = s.fd := heq
    rcases hunused with hfailed | ⟨-, hnone⟩
    · simp [hfailed] at hok
    · exact hstands (hsame ▸ hnone)
  refine hcreated.andThen (fun _ _ hs => hs.1) fun s u hs => ?_
  split
  · exact .call fun _ => ⟨trivial, hs.1⟩
  · refine fun _ => ⟨⟨trivial, trivial, trivial⟩, ?_⟩
    have hclose (field : Field) : Call.close .timer s.timerfd ≠ .close field s.fd :=
      fun he => hs.2 rfl (Call.close.inj he).2
    exact after_ne_none (e := ⟨s, .close .timer s.timerfd⟩) hs.1 hclose

/-- After the set-up the camera is open, unless it had the number 0. -/
theorem camApplySetting_stands (device : List UInt8) (a : Apply) :
    Ensures after Possible (fun _ _ => True) t (camApplySetting (defaults device) a) fun ok s u =>
      ok = true → s.fd ≤ 0 ∨ u s.fd ≠ none := by
  rw [camApplySetting_defaults]
  have hdevice : Ensures after Possible (fun _ _ => True) t (openDevice (defaults device) a)
      fun ok s u => s.timerfd = 0 ∧ (ok = true → u s.fd ≠ none) := by
    intro _
    obtain ⟨hfd, htimer⟩ := openDevice_state (defaults device) a
    exact ⟨along_trivial t _, htimer, fun hok => hfd ▸ openDevice_stands hok⟩
  refine hdevice.andThen (fun _ _ _ => by simp) fun s u hs => ?_
  by_cases hfd : s.fd ≤ 0
  · exact fun _ => ⟨along_trivial u _, fun _ => .inl (by rwa [Outcome.ignored, camInitTimer_fd])⟩
  · have hne : s.timerfd ≠ s.fd := by
      rw [hs.1]
      omega
    exact ((camInitTimer_stands (hs.2 rfl) hne a.timer).ignored
      (Q := fun _ s u => u s.fd ≠ none) fun _ _ _ hs => hs).mono fun _ _ _ hs _ => .inr hs

/-- The socket takes a descriptor of its own. -/
theorem Ready.connected (h : Ready none opts t) (hstands : opts.fd ≤ 0 ∨ t opts.fd ≠ none)
    (hunused : Unused t x) (hne : x ≠ -1) : Ready (some x) opts (opened t x .other) := by
  have hnone : t x = none := (hunused.resolve_left hne).2
  have htimer : opts.timerfd ≠ x := by
    rintro rfl
    rcases h.timed with hminus | htimer
    · exact hne hminus
    · simp [hnone] at htimer
  refine ⟨h.tells.opened (by simp) hunused, h.known.opened x (by simp),
    h.timed.imp id fun htimed => ?_, h.buffer, fun y hy => ?_, by simpa using Ne.symm htimer,
    fun hmem => ?_⟩
  · rw [opened, if_neg hne, Function.update_of_ne htimer, htimed]
  · obtain rfl : x = y := Option.some.inj hy
    rw [opened, if_neg hne]
    exact ⟨hne, Function.update_self ..⟩
  · obtain rfl : x = opts.fd := Option.some.inj hmem
    exact hstands.resolve_right (fun hopen => hopen hnone)

end Start

section Runs

variable {M : Type → Type → Type} {t : Table} {args : Args}

/-- The invariant for each part of the program. -/
def Kept (args : Args) (t : Table) : Program M → Prop
  | .start => Idle none (defaults args.device) t
  | .loop s => Steady s t
  | .exited opts => Tells opts t

theorem Kept.tells {p : Program M} (h : Kept args t p) : Tells (p.opts args) t := by
  cases p with
  | start => exact Idle.tells h
  | loop s => exact Steady.agree h |>.tells
  | exited opts => exact h

theorem kept_of {r : Outcome (State M) Event} (h : Ensures after Possible Proper t r Ended)
    (hanswers : Along after Possible t r.out) :
    Along after Proper t (Program.of r).2 ∧
      Kept args ((Program.of r).2.foldl after t) (Program.of r).1 := by
  obtain ⟨hright, htells, hsteady⟩ := h hanswers
  refine ⟨hright, ?_⟩
  unfold Program.of
  split
  · rename_i hok
    exact hsteady hok
  · exact htells

variable [FiniteMap M]

theorem setup_sound (h : Idle none (defaults args.device) t) (a : Setup) :
    Ensures after Possible Proper t (setup args a : Outcome (State M) Event) Ended := by
  have hset := (camApplySetting_sound h.agree (fun _ => h) a.apply).and
    (camApplySetting_stands args.device a.apply)
  have happlied : Ensures after Possible Proper t
      (⟨(camApplySetting (defaults args.device) a.apply).ok,
        ⟨(camApplySetting (defaults args.device) a.apply).state, FiniteMap.empty,
          (frame CHANNEL_OPEN 0 0 (openName args)).header, a.socket, true⟩,
        (camApplySetting (defaults args.device) a.apply).out⟩ : Outcome (State M) Event)
      fun ok s u => Agree none s.opts u ∧ s.sock = a.socket ∧
        (ok = true → Ready none s.opts u ∧ (s.opts.fd ≤ 0 ∨ u s.opts.fd ≠ none)) :=
    fun hanswers => ⟨(hset hanswers).1, (hset hanswers).2.1.1, rfl,
      fun hok => ⟨(hset hanswers).2.1.2 hok, (hset hanswers).2.2 hok⟩⟩
  unfold setup
  refine happlied.andThen (fun s u hs => ⟨hs.1.tells, by simp⟩) fun s u hs => ?_
  obtain ⟨-, hsock, hready⟩ := hs
  obtain ⟨hready, hstands⟩ := hready rfl
  have hconnected : Ensures after Possible Proper u
      (⟨true, s, [⟨s.opts, .openSocket a.socket⟩]⟩ : Outcome (State M) Event)
      fun ok s u => ok = true ∧ Agree none s.opts u ∧
        (s.sock ≠ -1 → Ready (some s.sock) s.opts u) := by
    refine .call fun hanswer => ⟨⟨hready.tells, trivial⟩, rfl, ?_⟩
    have hunused : Unused u a.socket := hanswer.1 a.socket rfl
    rw [hsock, after]
    by_cases hne : a.socket = -1
    · rw [opened, if_pos hne]
      exact ⟨hready.agree, fun h => (h hne).elim⟩
    · have hopen := hready.connected hstands hunused hne
      exact ⟨⟨hopen.tells, fun _ => hopen.known, by simp, by simp, by simp⟩, fun _ => hopen⟩
  refine hconnected.andThen (fun s u hs => by simp at hs) fun s u hs => ?_
  obtain ⟨-, hagree, hready⟩ := hs
  split
  · rename_i hfailed
    exact abandon_sound hagree (fun hne => (hne hfailed).elim) a.cleanup
  rename_i hsock
  have hready := hready hsock
  have hsent : Ensures after Possible Proper u
      (⟨true, s, [⟨s.opts, .sent (frame CHANNEL_OPEN 0 0 (openName args))⟩]⟩ :
        Outcome (State M) Event) fun ok s' u' => ok = true ∧ s' = s ∧ u' = u :=
    .call fun _ => ⟨⟨hready.tells, trivial⟩, rfl, rfl, rfl⟩
  refine hsent.andThen (fun s u hs => by simp at hs) ?_
  rintro s' u' ⟨-, rfl, rfl⟩
  split
  · exact abandon_sound hready.agree (fun _ => rfl) a.cleanup
  split
  · exact abandon_sound hready.agree (fun _ => rfl) a.cleanup
  · refine (sound_with (sound_call hready.tells (by trivial) a.streamOn)).mono fun _ s u hs => ?_
    obtain ⟨-, ⟨hopts, rfl⟩, hsame, -⟩ := hs
    have hend : Ready (some s.sock) s.opts u := by
      rw [hopts, hsame]
      exact hready
    exact ⟨hend.tells, fun _ => hend.steady⟩

theorem kept_next {p : Program M} (h : Kept args t p) (a : Round)
    (hanswers : Along after Possible t (next args p a).2) :
    Along after Proper t (next args p a).2 ∧
      Kept args ((next args p a).2.foldl after t) (next args p a).1 := by
  cases p with
  | start => exact kept_of (setup_sound h a.setup) hanswers
  | loop s =>
    simp only [next] at hanswers ⊢
    by_cases hrunning : s.running = true
    · simp only [if_pos hrunning] at hanswers ⊢
      have hturn := turn_sound (Steady.ready h hrunning) a.pass
      exact kept_of (hturn.mono fun _ _ _ hs => ⟨hs.agree.tells, fun _ => hs⟩) hanswers
    · simp only [if_neg hrunning] at hanswers ⊢
      exact kept_of (shutdown_sound (Steady.agree h) a.cleanup a.stack) hanswers
  | exited opts => exact ⟨trivial, h⟩

/-- The flag tells whether the buffer is queued, at every call and at the end of every run; the
buffer is queued and dequeued in turn, and nothing is unmapped or closed while it is queued. -/
theorem buffer_protocol {inherited : List ℤ} {is : List Round} {trace : List Event} {p : Program M}
    (run : Execution (Step args) .start is trace p)
    (hanswers : Along after Possible (inheriting inherited) trace) :
    Along after Proper (inheriting inherited) trace ∧
      Tells (p.opts args) (trace.foldl after (inheriting inherited)) := by
  have hkept := run.history (I := fun p past => Along after Possible (inheriting inherited) past →
      Along after Proper (inheriting inherited) past ∧
        Kept args (past.foldl after (inheriting inherited)) p) ?_ ?_ hanswers
  · exact ⟨hkept.1, hkept.2.tells⟩
  · rintro p past a out q hp ⟨-, hnext⟩ hanswers
    obtain ⟨rfl, rfl⟩ := Prod.mk.inj hnext
    obtain ⟨hpast, hout⟩ := along_append.mp hanswers
    obtain ⟨hright, hkept⟩ := hp hpast
    have hstep := kept_next hkept a hout
    rw [along_append, List.foldl_append]
    exact ⟨⟨hright, hstep.1⟩, hstep.2⟩
  · exact fun _ => ⟨trivial, rfl, by simp [Queued, inheriting], by simp, by simp, by simp⟩

end Runs

/-- A turn in which the buffer can be queued, dequeued with a frame in it, and the device be
reopened. -/
def turning (selected : Selected) : Round where
  setup := (boot (working 3 0) 4).setup
  pass := ⟨some 0, selected, some 614400, ⟨0, true, 0⟩, none,
    { working 3 0 with cleanup := ⟨some 0, true, true⟩ }, ⟨none, true, true⟩, true, true,
    ⟨0, 0, 0, 0⟩, false⟩
  cleanup := ⟨some 0, true, true⟩
  stack := ⟨0, 0, 0, 0⟩

/-- Client 1 subscribes, gets a frame, and asks for another setting while the buffer is queued. Then
the socket fails, and the program ends. -/
def oneClient : List Round :=
  [boot (working 3 0) 4, turning (.message (.subscribe 1 97)), turning (.frame (some [9])),
    turning (.message (.words 1 (1, 64) (0, 240) 10 80)),
    turning .failed, turning .neither]

theorem buffer_protocol_one_client : ∃ trace p,
    Execution (Step arguments) starting oneClient trace p ∧
    (∃ e ∈ trace, e.call = .dequeueBuffer 3 (some 614400)) ∧
    Along after Proper (inheriting [0, 1, 2]) trace ∧
    Tells (p.opts arguments) (trace.foldl after (inheriting [0, 1, 2])) := by
  have hrun := execution_of_guardedRun (fun _ => true) (next arguments) starting oneClient
    (by decide +kernel)
  exact ⟨_, _, hrun, by decide +kernel, buffer_protocol hrun (by decide +kernel)⟩

end CamBuffer
