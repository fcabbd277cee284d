import TunnelPublishers.CamBuffer

/-!
# The rows a frame is read from

The setting a client asks for decides how many rows are read and how long they
are; how much is mapped is up to the driver, and nothing compares the two. The
rows of a frame lie in the mapped buffer, at offsets that fit into 32 bits,
exactly if the buffer is as large as the frame asked for.
-/
namespace CamRows

open ByteOrder TunnelFraming ExecutionTraces CallOutcomes FiniteMaps CamService CamCalls
  CamDescriptors CamBuffer

/-- What the driver was last asked for, and the length of what is mapped. -/
structure Frame where
  width : UInt16
  height : UInt16
  mapped : Option UInt32
  deriving DecidableEq, Repr

def asked (t : Frame) (e : Event) : Frame :=
  match e.call with
  | .setFormat _ width height _ => { t with width, height }
  | .mmap _ length ok => { t with mapped := if ok then some length else none }
  | .munmap _ _ true => { t with mapped := none }
  | _ => t

/-- Row `k` is read at its own offset, and its last byte is one of the `raw_size` mapped bytes. -/
def RowInside (opts : CamSetting) (k : ℕ) (offset : UInt32) : Prop :=
  offset.toNat = k * opts.width.toNat * 3 ∧ opts.rawBuffer = .mapped ∧
    (offset.toNat + opts.width.toNat * 3 : ℤ) ≤ opts.rawSize

def RowsInside (e : Event) : Prop :=
  match e.call with
  | .scanlines offsets => ∀ k offset, offsets[k]? = some offset → RowInside e.opts k offset
  | _ => True

/-- The driver's buffer has room for the frame, and its length is an `int`. -/
def Room (t : Frame) : Prop :=
  t.height = 0 ∨ ∃ length ∈ t.mapped, length.toNat < 2 ^ 31 ∧
    t.height.toNat * t.width.toNat * 3 ≤ length.toNat

instance (t : Frame) : Decidable (Room t) :=
  inferInstanceAs (Decidable (t.height = 0 ∨ ∃ length ∈ t.mapped, length.toNat < 2 ^ 31 ∧
    t.height.toNat * t.width.toNat * 3 ≤ length.toNat))

/-- Frames are read only where the driver's buffer has room for them. -/
def Roomy (t : Frame) (e : Event) : Prop :=
  match e.call with
  | .scanlines _ => Room t
  | _ => True

instance (t : Frame) : DecidablePred (Roomy t)
  | ⟨_, .scanlines _⟩ => inferInstanceAs (Decidable (Room t))
  | ⟨_, .open _ _⟩ | ⟨_, .timerfdCreate _⟩ | ⟨_, .openSocket _⟩ | ⟨_, .close _ _⟩
  | ⟨_, .setFormat _ _ _ _⟩ | ⟨_, .setParm _ _ _⟩ | ⟨_, .requestBuffers _ _ _⟩
  | ⟨_, .queryBuffer _ _⟩ | ⟨_, .streamOn _ _⟩ | ⟨_, .queueBuffer _ _⟩ | ⟨_, .dequeueBuffer _ _⟩
  | ⟨_, .mmap _ _ _⟩ | ⟨_, .munmap _ _ _⟩ | ⟨_, .timerfdSettime _ _ _⟩ | ⟨_, .read _ _⟩
  | ⟨_, .sent _⟩ => instDecidableTrue

/-! ### One frame -/

/-- The setting is what the driver was asked for, and the buffer is what it mapped. -/
structure Follows (opts : CamSetting) (t : Frame) : Prop where
  width : opts.width = t.width
  height : opts.height = t.height
  buffer : match t.mapped with
    | none => opts.rawBuffer ≠ .mapped
    | some length => opts.rawBuffer = .mapped ∧ opts.rawSize = cInt length.toNat

section

variable {opts : CamSetting} {t : Frame} {e : Event}

theorem rowOffset_toNat (k : ℕ) (w : UInt16) :
    (UInt32.ofNat k * w.toUInt32 * 3).toNat = k * w.toNat * 3 % 2 ^ 32 := by
  have hw : w.toUInt32.toNat = w.toNat := by simp
  have h3 : (3 : UInt32).toNat = 3 := rfl
  rw [UInt32.toNat_mul, UInt32.toNat_mul, UInt32.toNat_ofNat', hw, h3]
  simp only [Nat.mul_mod, Nat.mod_mod]

theorem rowOffsets_getElem? (opts : CamSetting) (k : ℕ) : (rowOffsets opts)[k]? =
    if k < opts.height.toNat then some (UInt32.ofNat k * opts.width.toUInt32 * 3) else none := by
  rw [rowOffsets, List.getElem?_map]
  split_ifs with hk
  · rw [List.getElem?_range hk]
    rfl
  · rw [List.getElem?_eq_none (by simpa using hk)]
    rfl

theorem length_of_nonneg {length : UInt32} (h : 0 ≤ cInt length.toNat) :
    length.toNat < 2 ^ 31 ∧ cInt length.toNat = length.toNat := by
  have hlt := length.toNat_lt
  simp only [cInt, Int.bmod_def] at h ⊢
  omega

theorem Follows.mapped {length : UInt32} (h : Follows opts t) (hm : t.mapped = some length) :
    opts.rawBuffer = .mapped ∧ opts.rawSize = cInt length.toNat := by
  have hbuffer := h.buffer
  rwa [hm] at hbuffer

/-- The last row decides: if it lies inside, the frame does. -/
theorem room_of_rowsInside (h : Follows opts t)
    (hrows : RowsInside ⟨opts, .scanlines (rowOffsets opts)⟩) : Room t := by
  have hwidth : opts.width.toNat = t.width.toNat := by rw [h.width]
  have hheight : opts.height.toNat = t.height.toNat := by rw [h.height]
  by_cases hzero : t.height = 0
  · exact .inl hzero
  have hpos : 0 < t.height.toNat := Nat.pos_of_ne_zero fun h0 => hzero (UInt16.toNat_inj.mp h0)
  have hlast := rowOffsets_getElem? opts (t.height.toNat - 1)
  rw [if_pos (by omega)] at hlast
  obtain ⟨hexact, hmapped, hend⟩ : RowInside opts _ _ := hrows _ _ hlast
  cases hm : t.mapped with
  | none =>
    have hbuffer := h.buffer
    rw [hm] at hbuffer
    exact absurd hmapped hbuffer
  | some length =>
    rw [hexact, (h.mapped hm).2] at hend
    have hnonneg : 0 ≤ cInt length.toNat := by omega
    obtain ⟨hint, hlength⟩ := length_of_nonneg hnonneg
    refine .inr ⟨length, hm, hint, ?_⟩
    rw [hlength] at hend
    have hend : (t.height.toNat - 1) * opts.width.toNat * 3 + opts.width.toNat * 3 ≤
        length.toNat := by exact_mod_cast hend
    have hframe : (t.height.toNat - 1) * opts.width.toNat * 3 + opts.width.toNat * 3 =
        t.height.toNat * t.width.toNat * 3 := by
      rw [← Nat.add_mul, ← Nat.succ_mul, hwidth, Nat.succ_eq_add_one, Nat.sub_add_cancel hpos]
    rwa [hframe] at hend

/-- A row and the rows before it are part of the frame, so no offset wraps around. -/
theorem rowInside_of_room {length : UInt32} (h : Follows opts t) (hm : t.mapped = some length)
    (hint : length.toNat < 2 ^ 31) (hroom : t.height.toNat * t.width.toNat * 3 ≤ length.toNat)
    {k : ℕ} (hlt : k < t.height.toNat) :
    RowInside opts k (UInt32.ofNat k * opts.width.toUInt32 * 3) := by
  have hwidth : opts.width.toNat = t.width.toNat := by rw [h.width]
  obtain ⟨hmapped, hsize⟩ := h.mapped hm
  have hend : k * opts.width.toNat * 3 + opts.width.toNat * 3 ≤ length.toNat := by
    calc k * opts.width.toNat * 3 + opts.width.toNat * 3
        = (k + 1) * t.width.toNat * 3 := by rw [hwidth]; ring
      _ ≤ t.height.toNat * t.width.toNat * 3 :=
        Nat.mul_le_mul_right 3 (Nat.mul_le_mul_right _ hlt)
      _ ≤ length.toNat := hroom
  have hoffset : (UInt32.ofNat k * opts.width.toUInt32 * 3).toNat = k * opts.width.toNat * 3 := by
    rw [rowOffset_toNat, Nat.mod_eq_of_lt (by omega)]
  refine ⟨hoffset, hmapped, ?_⟩
  rw [hoffset, hsize, cInt_of_bounds (by omega) (by omega)]
  exact_mod_cast hend

theorem rowsInside_iff_room (h : Follows opts t) :
    RowsInside ⟨opts, .scanlines (rowOffsets opts)⟩ ↔ Room t := by
  have hheight : opts.height.toNat = t.height.toNat := by rw [h.height]
  constructor
  · exact room_of_rowsInside h
  · intro hroom k offset hk
    rw [rowOffsets_getElem?, hheight] at hk
    split at hk
    · next hlt =>
      obtain rfl := Option.some.inj hk
      rcases hroom with hzero | ⟨length, hm, hint, hlength⟩
      · simp [hzero] at hlt
      · exact rowInside_of_room h hm hint hlength hlt
    · cases hk

end

/-! ### The device -/

/-- The rows of a frame are right to be read exactly where there is room for the frame. -/
def Right (t : Frame) (e : Event) : Prop := RowsInside e ↔ Roomy t e

/-- What a function guarantees under any answers. -/
abbrev Told {σ : Type} (t : Frame) (r : Outcome σ Event) (Q : Bool → σ → Frame → Prop) : Prop :=
  Ensures asked (fun _ _ => True) Right t r Q

/-- Calls outside the sending of frames. -/
def Frameless (e : Event) : Prop :=
  match e.call with
  | .scanlines _ | .read _ _ => False
  | _ => True

/-- Calls that have to do neither with the format nor with what is mapped. -/
def Aside (e : Event) : Prop :=
  match e.call with
  | .setFormat _ _ _ _ | .mmap _ _ _ | .munmap _ _ _ | .scanlines _ => False
  | _ => True

section

variable {opts opts' : CamSetting} {t : Frame} {e : Event} {r : Outcome CamSetting Event}

theorem Frameless.right (h : Frameless e) (t : Frame) : Right t e := by
  obtain ⟨opts, call⟩ := e
  cases call with
  | scanlines offsets => exact h.elim
  | _ => exact Iff.rfl

theorem Aside.right (h : Aside e) (t : Frame) : Right t e ∧ asked t e = t := by
  obtain ⟨opts, call⟩ := e
  cases call with
  | setFormat | mmap | munmap | scanlines => exact h.elim
  | _ => exact ⟨Iff.rfl, rfl⟩

/-- The fields that frames are read by. -/
structure SameFrame (opts opts' : CamSetting) : Prop where
  width : opts'.width = opts.width
  height : opts'.height = opts.height
  rawBuffer : opts'.rawBuffer = opts.rawBuffer
  rawSize : opts'.rawSize = opts.rawSize

theorem SameFrame.refl (opts : CamSetting) : SameFrame opts opts := ⟨rfl, rfl, rfl, rfl⟩

theorem Follows.same (h : Follows opts t) (hsame : SameFrame opts opts') : Follows opts' t := by
  refine ⟨hsame.width.trans h.width, hsame.height.trans h.height, ?_⟩
  rw [hsame.rawBuffer, hsame.rawSize]
  exact h.buffer

theorem along_constant {out : List Event} (h : ∀ e ∈ out, Right t e ∧ asked t e = t) :
    Along asked Right t out ∧ out.foldl asked t = t :=
  along_of_invariant (I := fun u => u = t) rfl fun e he _ hu => hu ▸ h e he

theorem told_aside (h : Follows opts t) (hr : Within Aside (SameFrame opts) r) :
    Told t r fun _ s u => Follows s u :=
  (hr.ensures fun _ u he => he.right u).mono fun _ _ _ hs => hs.2 ▸ h.same hs.1

theorem camInitTimer_aside (opts : CamSetting) (a : Timer) :
    Within Aside (SameFrame opts) (camInitTimer opts a) := by
  refine (camInitTimer_calls ?_ ?_ ?_ opts a).mono (fun _ h => h) ?_
  · exact fun _ _ => trivial
  · exact fun _ _ => trivial
  · exact fun _ _ _ _ => trivial
  · rintro s ⟨fd, rfl⟩
    exact ⟨rfl, rfl, rfl, rfl⟩

theorem camQueueBuffer_aside (opts : CamSetting) (a : Option UInt32) :
    Within Aside (SameFrame opts) (camQueueBuffer opts a) :=
  .call trivial (.refl opts)

theorem camDequeueBuffer_aside (opts : CamSetting) (a : Option UInt32) :
    Within Aside (SameFrame opts) (camDequeueBuffer opts a) :=
  .call trivial (.refl opts)

theorem readTimer_aside (opts : CamSetting) (read : Option UInt64) :
    Within Aside (SameFrame opts) (readTimer opts read) :=
  (readTimer_calls (fun _ _ _ => trivial) opts read).mono (fun _ h => h) fun _ hs => hs ▸ .refl opts

theorem camCleanup_frameless (opts : CamSetting) (closeFd : Bool) (a : Cleanup) :
    Within Frameless (fun _ => True) (camCleanup opts closeFd a) := by
  rw [camCleanup]
  apply Within.andThen
  · split
    · exact Within.andThen (.call trivial trivial) fun _ _ => .done trivial
    · exact .done trivial
  intro s _
  apply Within.andThen (.call trivial trivial)
  intro s _
  apply Within.andThen
  · rw [camReleaseBuffer]
    split
    · exact .done trivial
    · exact Within.andThen (.call trivial trivial) fun _ _ => .done trivial
  intro s _
  split
  · exact ⟨closeAll_calls (fun _ _ _ => trivial) s, trivial⟩
  · exact .done trivial

theorem told_frameless {σ : Type} {r : Outcome σ Event} (hr : ∀ e ∈ r.out, Frameless e) :
    Told t r fun _ _ _ => True :=
  fun _ => ⟨(along_of_invariant (I := fun _ => True) trivial
    fun e he u _ => ⟨(hr e he).right u, trivial⟩).1, trivial⟩

/-- The driver has been asked for the size at hand. -/
abbrev Asked (ok : Bool) (opts : CamSetting) (t : Frame) : Prop :=
  ok = true → opts.width = t.width ∧ opts.height = t.height

theorem camSetFormat_told (opts : CamSetting) (a : Apply) (t : Frame) :
    Told t (camSetFormat opts a) Asked := by
  have hformat : Told t
      ⟨a.format, opts, [⟨opts, .setFormat opts.fd opts.width opts.height a.format⟩]⟩ Asked :=
    .call fun _ => ⟨Iff.rfl, fun _ => ⟨rfl, rfl⟩⟩
  refine hformat.andThen (fun _ _ _ h => Bool.noConfusion h) fun s u hs => ?_
  exact .call fun _ => ⟨Iff.rfl, fun _ => hs rfl⟩

theorem camQueryBuffer_told (query : Option UInt32) (mmap : Bool) (hwidth : opts.width = t.width)
    (hheight : opts.height = t.height) :
    Told t (camQueryBuffer opts query mmap) fun ok s u => ok = true → Follows s u := by
  cases query with
  | none => exact .call fun _ => ⟨Iff.rfl, fun h => Bool.noConfusion h⟩
  | some length =>
    refine fun _ => ⟨⟨Iff.rfl, Iff.rfl, trivial⟩, fun _ => ⟨hwidth, hheight, ?_⟩⟩
    cases mmap <;> simp [camQueryBuffer, asked]

theorem openDevice_told (opts : CamSetting) (a : Apply) (t : Frame) :
    Told t (openDevice opts a) fun ok s u => ok = true → Follows s u := by
  have hopen : Told t ⟨a.open ≠ -1, { opts with fd := a.open }, [⟨opts, .open opts.devName a.open⟩]⟩
      fun _ _ _ => True := .call fun _ => ⟨Iff.rfl, trivial⟩
  refine hopen.andThen (fun _ _ _ h => Bool.noConfusion h) fun s u _ => ?_
  refine (camSetFormat_told s a u).andThen (fun _ _ _ h => Bool.noConfusion h) fun s u hs => ?_
  have hrequest : Told u (camRequestBuffer s 1 a.request) Asked :=
    .call fun _ => ⟨Iff.rfl, fun _ => hs rfl⟩
  refine hrequest.andThen (fun _ _ _ h => Bool.noConfusion h) fun s u hs => ?_
  exact camQueryBuffer_told a.query a.mmap (hs rfl).1 (hs rfl).2

/-- After the setting is applied the driver has been asked for it, and the buffer is its answer. -/
theorem camApplySetting_told (opts : CamSetting) (a : Apply) (t : Frame) :
    Told t (camApplySetting opts a) fun ok s u => ok = true → Follows s u := by
  have hcleaned : Told t (if opts.rawBuffer ≠ .null then camCleanup opts true a.cleanup
      else .done opts) fun _ _ _ => True := by
    split_ifs
    · exact told_frameless (camCleanup_frameless opts true a.cleanup).calls
    · exact .done trivial
  rw [camApplySetting]
  refine hcleaned.andThen (fun _ _ _ h => Bool.noConfusion h) fun s u _ => ?_
  refine (openDevice_told s a u).andThen (fun _ _ _ h => Bool.noConfusion h) fun s u hs => ?_
  exact (told_aside (hs rfl) (camInitTimer_aside s a.timer)).ignored fun _ _ _ hs _ => hs

theorem camSendFrameClient_told (h : Follows opts t) (clients : List UInt16) (stack : TunnelMsgH)
    (jpeg : List UInt8) (dequeue : Option UInt32) :
    Told t (camSendFrameClient opts clients stack jpeg dequeue) fun _ s u => Follows s u := by
  rw [camSendFrameClient]
  split
  · exact .done h
  have hrows : Told t ⟨true, opts, if clients ≠ [] then ⟨opts, .scanlines (rowOffsets opts)⟩ ::
      clients.map fun client => ⟨opts, .sent (frame CHANNEL_DATA stack.channelId client jpeg)⟩
      else []⟩ fun _ s u => s = opts ∧ u = t := by
    have hcalls : ∀ e ∈ (if clients ≠ [] then (⟨opts, .scanlines (rowOffsets opts)⟩ : Event) ::
        clients.map fun client => ⟨opts, .sent (frame CHANNEL_DATA stack.channelId client jpeg)⟩
        else []), Right t e ∧ asked t e = t := by
      intro e he
      split at he
      · rcases List.mem_cons.mp he with rfl | he
        · exact ⟨rowsInside_iff_room h, rfl⟩
        · obtain ⟨client, -, rfl⟩ := List.mem_map.mp he
          exact ⟨Iff.rfl, rfl⟩
      · cases he
    obtain ⟨halong, hsame⟩ := along_constant hcalls
    exact fun _ => ⟨halong, rfl, hsame⟩
  refine hrows.andThen ?_ ?_
  · rintro s u ⟨rfl, rfl⟩
    exact h
  · rintro s u ⟨rfl, rfl⟩
    refine (told_aside h (camDequeueBuffer_aside s dequeue)).andThen (fun _ _ hs => hs) ?_
    exact fun s u hs => .done ⟨hs.width, hs.height, hs.buffer⟩

end

/-! ### Turns and runs -/

section Main

variable {M : Type → Type → Type} {t : Frame} {s : State M}

/-- While the loop runs, the buffer is what the driver made for the setting. -/
def Steady (s : State M) (t : Frame) : Prop := s.running = true → Follows s.opts t

theorem told_with {r : Outcome CamSetting Event} {Q : Bool → CamSetting → Frame → Prop}
    (h : Told t r Q) :
    Told t (s.with r) fun ok s' u => ok = true ∧ Q r.ok s'.opts u ∧
      s'.running = (s.running && r.ok) :=
  fun hanswers => ⟨(h hanswers).1, rfl, (h hanswers).2, rfl⟩

/-- After a failure that ends the loop nothing is asked of the setting. -/
theorem stopped_with {r : Outcome CamSetting Event} (hstop : s.running = false)
    (h : Told t r fun _ _ _ => True) : Told t (s.with r) fun _ s' u => Steady s' u :=
  (told_with h).mono fun _ s' _ hs hrunning => by
    rw [hs.2.2, hstop] at hrunning
    cases hrunning

theorem follows_with {r : Outcome CamSetting Event} (h : Told t r fun _ s u => Follows s u) :
    Told t (s.with r) fun ok s' u => ok = true ∧ Follows s'.opts u :=
  (told_with h).mono fun _ _ _ hs => ⟨hs.1, hs.2.1⟩

variable [FiniteMap M]

theorem queueNext_told (h : Follows s.opts t) (queue : Option UInt32) :
    Told t (queueNext s queue) fun ok s u => ok = true ∧ Follows s.opts u := by
  rw [queueNext]
  split
  · apply follows_with
    apply told_aside h
    exact (camQueueBuffer_aside s.opts queue).andThen fun _ hs =>
      .done ⟨hs.width, hs.height, hs.rawBuffer, hs.rawSize⟩
  · exact .done ⟨rfl, h⟩

theorem stopTimer_told (h : Follows s.opts t) :
    Told t (stopTimer s) fun ok s u => ok = true ∧ Follows s.opts u := by
  rw [stopTimer]
  split
  · exact .call fun _ => ⟨Iff.rfl, rfl, h.width, h.height, h.buffer⟩
  · exact .done ⟨rfl, h⟩

theorem channelSubscribe_told (h : Follows s.opts t) (p : Pass) (i : Input) :
    Told t (channelSubscribe s p i) fun _ s u => Steady s u := by
  have htimed : Told t (if subscribers s = [] then s.with (camInitTimer s.opts p.timer).ignored
      else .done s) fun ok s u => ok = true ∧ Follows s.opts u := by
    split
    · exact follows_with (told_aside h (camInitTimer_aside s.opts p.timer).ignored)
    · exact .done ⟨rfl, h⟩
  rw [channelSubscribe]
  refine htimed.andThen (fun _ _ h => Bool.noConfusion h.1) fun s u hs => ?_
  exact .call fun _ => ⟨Iff.rfl, fun _ => hs.2⟩

theorem announce_told (h : Follows s.opts t) :
    Told t (announce s) fun _ s u => Steady s u := by
  obtain ⟨halong, hsame⟩ := along_constant (t := t)
    (announce_calls (fun _ _ => ⟨Iff.rfl, rfl⟩) s).calls
  refine fun _ => ⟨halong, fun _ => ?_⟩
  rw [hsame]
  exact h

theorem channelCtrl_told (h : Follows s.opts t) (p : Pass) (i : Input) :
    Told t (channelCtrl s p i) fun _ s u => Steady s u := by
  rw [channelCtrl]
  split
  · refine (told_with (camApplySetting_told (requested s.opts i.request.payload) p.apply t)).andThen
      (fun _ _ h => Bool.noConfusion h.1) fun s' u hs => ?_
    obtain ⟨-, hfollows, hrunning⟩ := hs
    split
    · next hfailed =>
      apply stopped_with
      · rw [hrunning, hfailed, Bool.and_false]
      · exact told_frameless (camCleanup_frameless s'.opts false p.cleanup).calls
    · next hok =>
      have hfollows := hfollows (Bool.not_eq_false _ ▸ hok)
      have hstart : Told u (s'.with (camStartStreaming s'.opts p.streamOn)) fun ok s u =>
          ok = true ∧ Follows s.opts u :=
        follows_with (.call fun _ => ⟨Iff.rfl, hfollows⟩)
      refine hstart.andThen (fun _ _ h => Bool.noConfusion h.1) fun s u hs => ?_
      split
      · exact announce_told hs.2
      · exact .done fun _ => hs.2
  · exact .done fun _ => h

theorem sendFrame_told (h : Follows s.opts t) (p : Pass) (jpeg : Option (List UInt8)) :
    Told t (sendFrame s p jpeg) fun _ s u => Steady s u := by
  rw [sendFrame]
  split
  · exact fun _ => ⟨trivial, fun _ => h⟩
  · refine (follows_with ?_).mono fun _ _ _ hs _ => hs.2
    refine (camSendFrameClient_told h _ p.stack _ p.dequeue).andThen (fun _ _ hs => hs)
      fun s u hs => ?_
    exact told_aside hs (readTimer_aside s p.read)

theorem select_told (h : Follows s.opts t) (p : Pass) :
    Told t (select s p) fun _ s u => Steady s u := by
  rw [select]
  split
  · exact .done fun _ => h
  · exact .done fun _ => h
  · exact .done fun _ => h
  · next i _ =>
    rw [handleMessage]
    dsimp only
    split_ifs
    · exact channelSubscribe_told (s := { s with msg := i.request.header }) h p i
    · exact .done fun _ => h
    · exact channelCtrl_told (s := { s with msg := i.request.header }) h p i
    · exact .done fun _ => h
  · split
    · exact sendFrame_told h p _
    · exact .done fun _ => h
  · exact .done fun _ => h

theorem turn_told (h : Follows s.opts t) (p : Pass) :
    Told t (turn s p) fun _ s u => Steady s u := by
  refine (queueNext_told h p.queue).andThen (fun _ _ h => Bool.noConfusion h.1) fun s u hs => ?_
  refine (stopTimer_told hs.2).andThen (fun _ _ h => Bool.noConfusion h.1) fun s u hs => ?_
  refine (select_told hs.2 p).andThen (fun _ _ hs => hs) fun s u hs => .done fun hrunning => hs ?_
  exact (Bool.and_eq_true _ _ ▸ hrunning).1

/-! ### Start and end -/

omit [FiniteMap M] in
theorem abandon_frameless (s : State M) (a : Cleanup) : ∀ e ∈ (abandon s a).out, Frameless e := by
  intro e he
  rcases Outcome.mem_andThen he with he | he
  · exact (camCleanup_frameless s.opts true a).calls e he
  · dsimp only at he
    split at he <;> simp_all [Frameless]

theorem shutdown_frameless (s : State M) (a : Cleanup) (stack : TunnelMsgH) :
    ∀ e ∈ (shutdown s a stack).out, Frameless e := by
  intro e he
  rcases Outcome.mem_andThen he with he | he
  · exact (camCleanup_frameless s.opts true a).calls e he
  · rcases List.mem_append.mp he with he | he
    · obtain ⟨client, -, rfl⟩ := List.mem_map.mp he
      trivial
    · rcases List.mem_pair.mp he with rfl | rfl <;> trivial

omit [FiniteMap M] in
theorem abandon_told (s : State M) (a : Cleanup) :
    Told t (abandon s a) fun ok s u => ok = true → Steady s u := by
  intro hanswers
  refine ⟨(told_frameless (abandon_frameless s a) hanswers).1, fun hok => ?_⟩
  simp [abandon, State.with] at hok

theorem setup_told (args : Args) (a : Setup) (t : Frame) :
    Told t (setup args a : Outcome (State M) Event) fun ok s u => ok = true → Steady s u := by
  have hset := camApplySetting_told (defaults args.device) a.apply t
  have happlied : Told t
      (⟨(camApplySetting (defaults args.device) a.apply).ok,
        ⟨(camApplySetting (defaults args.device) a.apply).state, FiniteMap.empty,
          (frame CHANNEL_OPEN 0 0 (openName args)).header, a.socket, true⟩,
        (camApplySetting (defaults args.device) a.apply).out⟩ : Outcome (State M) Event)
      fun ok s u => ok = true → Follows s.opts u := hset
  rw [setup]
  refine happlied.andThen (fun _ _ _ h => Bool.noConfusion h) fun s u hs => ?_
  have hsocket : Told u (⟨true, s, [⟨s.opts, .openSocket a.socket⟩]⟩ : Outcome (State M) Event)
      fun _ s u => Follows s.opts u := .call fun _ => ⟨Iff.rfl, hs rfl⟩
  refine hsocket.andThen (fun _ _ _ h => Bool.noConfusion h) fun s u hs => ?_
  split
  · exact abandon_told s a.cleanup
  have hsent : Told u (⟨true, s, [⟨s.opts, .sent (frame CHANNEL_OPEN 0 0 (openName args))⟩]⟩ :
      Outcome (State M) Event) fun _ s u => Follows s.opts u := .call fun _ => ⟨Iff.rfl, hs⟩
  refine hsent.andThen (fun _ _ _ h => Bool.noConfusion h) fun s u hs => ?_
  split
  · exact abandon_told s a.cleanup
  split
  · exact abandon_told s a.cleanup
  · have hstart : Told u (camStartStreaming s.opts a.streamOn) fun _ s u => Follows s u :=
      .call fun _ => ⟨Iff.rfl, hs⟩
    exact (follows_with hstart).mono fun _ _ _ hs _ _ => hs.2

/-- The invariant for each part of the program. -/
def Kept (t : Frame) : Program M → Prop
  | .loop s => Steady s t
  | _ => True

omit [FiniteMap M] in
theorem kept_of {r : Outcome (State M) Event} (h : Told t r fun ok s u => ok = true → Steady s u) :
    Along asked Right t (Program.of r).2 ∧
      Kept ((Program.of r).2.foldl asked t) (Program.of r).1 := by
  obtain ⟨hright, hsteady⟩ := h (along_trivial t r.out)
  refine ⟨hright, ?_⟩
  rw [Program.of]
  dsimp only
  split
  · next hok => exact hsteady hok
  · trivial

theorem kept_next {args : Args} {p : Program M} (h : Kept t p) (a : Round) :
    Along asked Right t (next args p a).2 ∧
      Kept ((next args p a).2.foldl asked t) (next args p a).1 := by
  cases p with
  | start => exact kept_of (setup_told args a.setup t)
  | loop s =>
    rw [next]
    by_cases hrunning : s.running = true
    · rw [if_pos hrunning]
      exact kept_of ((turn_told (h hrunning) a.pass).mono fun _ _ _ hs _ => hs)
    · rw [if_neg hrunning]
      have hcalls := shutdown_frameless s a.cleanup a.stack
      refine kept_of fun hanswers => ⟨(told_frameless hcalls hanswers).1, fun hok => ?_⟩
      simp [shutdown, State.with] at hok
  | exited opts => exact ⟨trivial, trivial⟩

/-- Before the program starts nothing was asked of a driver. -/
def untouched : Frame := ⟨0, 0, none⟩

theorem run_right {args : Args} {is : List Round} {trace : List Event} {p : Program M}
    (run : Execution (Step args) .start is trace p) : Along asked Right untouched trace :=
  (run.along (I := fun p t => Kept t p) (fun p t a out q hp hstep => by
    obtain ⟨rfl, rfl⟩ := Prod.mk.inj hstep.2
    exact kept_next hp a) trivial).1

/-- In every run, the rows of all frames lie in the mapped buffer at offsets without wrap-around,
exactly if the driver's last buffer has room for the last size it was asked for at every frame. -/
theorem rows_inside_iff {args : Args} {is : List Round} {trace : List Event} {p : Program M}
    (run : Execution (Step args) .start is trace p) :
    (∀ e ∈ trace, RowsInside e) ↔ Along asked Roomy untouched trace :=
  forall_iff_along (run_right run)

end Main

/-! ### Two clients that ask for too much -/

/-- Client 1 subscribes and asks for frames of this size, and the driver maps as much as it did for
the first setting. -/
def asksFor (w h : UInt8 × UInt8) : List Round :=
  [boot (working 3 0) 4, turning (.message (.subscribe 1 97)),
    turning (.message (.words 1 w h 10 80)), turning (.frame (some [9]))]

/-- Frames of 320 by 240 pixels fit. -/
theorem rows_inside_small : ∃ trace p,
    Execution (Step arguments) starting (asksFor (1, 64) (0, 240)) trace p ∧
    (∃ e ∈ trace, e.call = .sent (frame CHANNEL_DATA 0 1 [9])) ∧ ∀ e ∈ trace, RowsInside e := by
  have hrun := execution_of_guardedRun (fun _ => true) (next arguments) starting
    (asksFor (1, 64) (0, 240)) (by decide +kernel)
  exact ⟨_, _, hrun, by decide +kernel, (rows_inside_iff hrun).mpr (by decide +kernel)⟩

/-- Frames of 1280 by 720 pixels do not fit into a buffer for 640 by 480, and of frames of 65500 by
65500 pixels not even the offsets fit into 32 bits. -/
theorem rows_beyond_buffer :
    (∃ trace p, Execution (Step arguments) starting (asksFor (5, 0) (2, 208)) trace p ∧
      ¬ ∀ e ∈ trace, RowsInside e) ∧
    ∃ trace p, Execution (Step arguments) starting (asksFor (255, 220) (255, 220)) trace p ∧
      ¬ ∀ e ∈ trace, RowsInside e := by
  have hrun := execution_of_guardedRun (fun _ => true) (next arguments) starting
    (asksFor (5, 0) (2, 208)) (by decide +kernel)
  have hrun' := execution_of_guardedRun (fun _ => true) (next arguments) starting
    (asksFor (255, 220) (255, 220)) (by decide +kernel)
  refine ⟨⟨_, _, hrun, fun h => ?_⟩, _, _, hrun', fun h => ?_⟩
  · exact absurd ((forall_iff_along (run_right hrun)).mp h) (by decide +kernel)
  · exact absurd ((forall_iff_along (run_right hrun')).mp h) (by decide +kernel)

end CamRows
