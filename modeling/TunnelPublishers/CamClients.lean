import TunnelPublishers.CamBuffer

/-!
# What the clients of the camera see

A client is told the setting when it subscribes and whenever it changes, and is
sent every frame while it is subscribed. Its last word about the setting is
compared with the setting in force at the head of the loop.
-/
namespace CamClients

open ByteOrder FiniteMaps FiniteMap TunnelFraming ExecutionTraces CallOutcomes CamService CamCalls
  CamDescriptors CamBuffer

/-- The size field of a frame counts 32 bits. -/
def fitting (jpeg : List UInt8) : List UInt8 := jpeg.take (UInt32.ofNat jpeg.length).toNat

/-- What a client has heard: the last setting it was told, and the frames. -/
structure Heard where
  setting : Option (List UInt8)
  frames : List (List UInt8)

def hear (c : UInt16) (h : Heard) (e : Event) : Heard :=
  match e.call with
  | .sent msg =>
    if msg.header.clientId = c then
      { setting := if msg.header.type = CHANNEL_CTRL then some msg.payload else h.setting
        frames := if msg.header.type = CHANNEL_DATA then h.frames ++ [msg.payload] else h.frames }
    else h
  | _ => h

/-- Nothing is told to anybody. -/
def Quiet (e : Event) : Prop := ∀ msg, e.call ≠ .sent msg

theorem Quiet.hear {e : Event} (h : Quiet e) (c : UInt16) (x : Heard) : hear c x e = x := by
  rcases e with ⟨opts, call⟩
  cases call with
  | sent msg => exact absurd rfl (h msg)
  | _ => rfl

/-- The part of the setting that clients are told. -/
def SameSetting (opts opts' : CamSetting) : Prop :=
  opts'.width = opts.width ∧ opts'.height = opts.height ∧ opts'.fps = opts.fps ∧
    opts'.jpegQuality = opts.jpegQuality

theorem SameSetting.ctrlBytes {opts opts' : CamSetting} (h : SameSetting opts opts') :
    ctrlBytes opts' = ctrlBytes opts := by
  simp only [CamService.ctrlBytes, h.1, h.2.1, h.2.2.1, h.2.2.2]

/-! ### The device -/

section Device

variable {opts : CamSetting}

/-- A function of the device talks to the kernel only and leaves the setting alone. -/
abbrev Silent (opts : CamSetting) (r : Outcome CamSetting Event) : Prop :=
  Within Quiet (SameSetting opts) r

theorem SameSetting.refl : SameSetting opts opts := ⟨rfl, rfl, rfl, rfl⟩

theorem SameSetting.trans {s t : CamSetting} (h : SameSetting opts s) (k : SameSetting s t) :
    SameSetting opts t :=
  ⟨k.1.trans h.1, k.2.1.trans h.2.1, k.2.2.1.trans h.2.2.1, k.2.2.2.trans h.2.2.2⟩

theorem Silent.andThen {r : Outcome CamSetting Event} {f : CamSetting → Outcome CamSetting Event}
    (h : Silent opts r) (hf : ∀ s, Silent s (f s)) : Silent opts (r.andThen f) :=
  Within.andThen h fun s hs => (hf s).mono (fun _ => id) fun _ => hs.trans

theorem silent_done {s : CamSetting} (h : SameSetting opts s) : Silent opts (.done s) := .done h

theorem silent_call {ok : Bool} {s : CamSetting} {e : Event} (he : Quiet e)
    (h : SameSetting opts s) : Silent opts ⟨ok, s, [e]⟩ := .call he h

theorem camDequeueBuffer_silent (bytesused : Option UInt32) :
    Silent opts ((camDequeueBuffer opts bytesused).andThen fun opts =>
      .done { opts with queued := 0 }) :=
  Silent.andThen (silent_call (by simp [Quiet]) .refl) fun _ => silent_done ⟨rfl, rfl, rfl, rfl⟩

theorem closeAll_silent : Silent opts (closeAll opts) :=
  ⟨closeAll_calls (by simp [Quiet]) opts, .refl⟩

theorem camReleaseBuffer_silent (munmap : Bool) : Silent opts (camReleaseBuffer opts munmap) := by
  rw [camReleaseBuffer]
  split
  · exact silent_done .refl
  · exact Silent.andThen (silent_call (by simp [Quiet]) .refl)
      fun _ => silent_done ⟨rfl, rfl, rfl, rfl⟩

theorem camCleanup_silent (closeFd : Bool) (a : Cleanup) :
    Silent opts (camCleanup opts closeFd a) := by
  rw [camCleanup]
  apply Silent.andThen
  · split
    · exact camDequeueBuffer_silent a.dequeue
    · exact silent_done .refl
  intro s
  refine Silent.andThen (silent_call (by simp [Quiet]) .refl) fun s => ?_
  refine Silent.andThen (camReleaseBuffer_silent a.munmap) fun s => ?_
  split
  · exact closeAll_silent
  · exact silent_done .refl

theorem camInitTimer_silent (a : Timer) : Silent opts (camInitTimer opts a) := by
  refine (camInitTimer_calls (K := Quiet) (by simp [Quiet]) (by simp [Quiet]) (by simp [Quiet])
    opts a).mono (fun _ => id) ?_
  rintro s ⟨fd, rfl⟩
  exact ⟨rfl, rfl, rfl, rfl⟩

theorem readTimer_silent (read : Option UInt64) : Silent opts (readTimer opts read) := by
  refine (readTimer_calls (K := Quiet) (by simp [Quiet]) opts read).mono (fun _ => id) ?_
  rintro s rfl
  exact .refl

theorem camQueryBuffer_silent (query : Option UInt32) (mmap : Bool) :
    Silent opts (camQueryBuffer opts query mmap) := by
  cases query with
  | none => exact silent_call (by simp [Quiet]) .refl
  | some length =>
    refine ⟨fun e he => ?_, rfl, rfl, rfl, rfl⟩
    rcases List.mem_pair.mp he with rfl | rfl <;> simp [Quiet]

theorem openDevice_silent (a : Apply) : Silent opts (openDevice opts a) := by
  rw [openDevice]
  refine Silent.andThen (silent_call (by simp [Quiet]) ⟨rfl, rfl, rfl, rfl⟩) fun s => ?_
  refine Silent.andThen ?_ fun s => ?_
  · exact Silent.andThen (silent_call (by simp [Quiet]) .refl)
      fun s => silent_call (by simp [Quiet]) .refl
  refine Silent.andThen (silent_call (by simp [Quiet]) .refl) fun s => ?_
  exact camQueryBuffer_silent a.query a.mmap

theorem camApplySetting_silent (a : Apply) : Silent opts (camApplySetting opts a) := by
  rw [camApplySetting]
  apply Silent.andThen
  · split
    · exact camCleanup_silent true a.cleanup
    · exact silent_done .refl
  intro s
  exact Silent.andThen (openDevice_silent a) fun s => (camInitTimer_silent a.timer).ignored

end Device

/-! ### One client -/

variable {M : Type → Type → Type} [FiniteMap M]

/-- While the program runs, a client has last been told the setting in force. -/
def Informed (c : UInt16) (s : State M) (h : Heard) : Prop :=
  s.running = true → (find s.clients c).isSome = true → h.setting = some (ctrlBytes s.opts)

/-- What a function makes of a client that was informed before: it stays so, is subscribed or
not, and hears these frames. -/
abbrev Hears (c : UInt16) (h : Heard) (r : Outcome (State M) Event) (on : Bool)
    (frames : List (List UInt8)) : Prop :=
  Ensures (hear c) (fun _ _ => True) (fun _ _ => True) h r fun _ s h' =>
    Informed c s h' ∧ (find s.clients c).isSome = on ∧ h'.frames = h.frames ++ frames

/-- The clients and what they are told of stay. -/
structure Steady (s s' : State M) : Prop where
  clients : s'.clients = s.clients
  setting : SameSetting s.opts s'.opts
  running : s'.running = true → s.running = true

section Client

variable {c : UInt16} {s s' : State M} {h : Heard}

theorem Steady.informed (hs : Steady s s') (hi : Informed c s h) : Informed c s' h := by
  intro hrunning hin
  rw [hs.setting.ctrlBytes]
  exact hi (hs.running hrunning) (hs.clients ▸ hin)

omit [FiniteMap M] in
theorem steady_refl (s : State M) : Steady s s := ⟨rfl, .refl, id⟩

omit [FiniteMap M] in
theorem steady_with {r : Outcome CamSetting Event} (hr : Silent s.opts r) :
    Within Quiet (Steady s) (s.with r) := by
  refine ⟨hr.calls, rfl, hr.state, ?_⟩
  intro hrunning
  exact (Bool.and_eq_true_iff.mp hrunning).1

theorem queueNext_steady (s : State M) (queue : Option UInt32) :
    Within Quiet (Steady s) (queueNext s queue) := by
  rw [queueNext]
  split
  · apply steady_with
    exact Silent.andThen (silent_call (by simp [Quiet]) .refl)
      fun s => silent_done ⟨rfl, rfl, rfl, rfl⟩
  · exact .done (steady_refl s)

theorem stopTimer_steady (s : State M) : Within Quiet (Steady s) (stopTimer s) := by
  rw [stopTimer]
  split
  · exact steady_with (silent_call (by simp [Quiet]) ⟨rfl, rfl, rfl, rfl⟩)
  · exact .done (steady_refl s)

theorem hear_quiet {out : List Event} (hout : ∀ e ∈ out, Quiet e) (h : Heard) :
    out.foldl (hear c) h = h := by
  induction out with
  | nil => rfl
  | cons e out ih =>
    obtain ⟨he, hrest⟩ := List.forall_mem_cons.mp hout
    rw [List.foldl_cons, he.hear, ih hrest]

/-- What follows a function that no client notices. -/
theorem hears_behind {r : Outcome (State M) Event} {f : State M → Outcome (State M) Event}
    {I : State M → Prop} {on : Bool} {frames : List (List UInt8)} (hr : Within Quiet I r)
    (hok : r.ok = true) (hf : ∀ s', I s' → Hears c h (f s') on frames) :
    Hears c h (r.andThen f) on frames := by
  intro _
  obtain ⟨-, hrest⟩ := hf r.state hr.state (along_trivial _ _)
  rw [Outcome.andThen_of_ok hok, List.foldl_append, hear_quiet hr.calls]
  exact ⟨along_trivial _ _, hrest⟩

/-- A function that no client notices. -/
theorem hears_quiet {r : Outcome (State M) Event} (hr : Within Quiet (Steady s) r)
    (hi : Informed c s h) : Hears c h r (find s.clients c).isSome [] := by
  intro _
  rw [hear_quiet hr.calls]
  exact ⟨along_trivial _ _, hr.state.informed hi, by rw [hr.state.clients], by simp⟩

omit [FiniteMap M] in
theorem stopped_informed [FiniteMap M] (h : Heard) (hstopped : s.running = false) :
    Informed c s h := by
  intro hrunning
  rw [hstopped] at hrunning
  cases hrunning

theorem mem_subscribers : c ∈ subscribers s ↔ (find s.clients c).isSome = true := by
  simp only [subscribers, List.mem_map, Prod.exists, exists_and_right, exists_eq_right,
    mem_entries, Option.isSome_iff_exists]

theorem count_subscribers (s : State M) (c : UInt16) :
    (subscribers s).count c = if (find s.clients c).isSome then 1 else 0 := by
  have hnodup : (subscribers s).Nodup := nodup_keys s.clients
  split
  · next hin => exact List.count_eq_one_of_mem hnodup (mem_subscribers.mpr hin)
  · next hout => exact List.count_eq_zero_of_not_mem (mt mem_subscribers.mp hout)

theorem frame_fitting (type : UInt8) (channelId client : UInt16) (payload : List UInt8) :
    (frame type channelId client payload).payload = fitting payload := by
  by_cases hp : payload = [] <;> simp [frame, TunnelMsg.payload, fitting, hp]

theorem ctrlBytes_fitting (opts : CamSetting) : fitting (ctrlBytes opts) = ctrlBytes opts := by
  have hlength : (ctrlBytes opts).length = 6 := rfl
  simp [fitting, hlength]

/-! ### What goes to all clients -/

/-- One message of a type and payload to each of some clients. -/
def toEach (opts : CamSetting) (type : UInt8) (channelId : UInt16) (payload : List UInt8)
    (clients : List UInt16) : List Event :=
  clients.map fun client => ⟨opts, .sent (frame type channelId client payload)⟩

theorem hear_setting (opts : CamSetting) (channelId : UInt16) (payload : List UInt8)
    (clients : List UInt16) (h : Heard) :
    (toEach opts CHANNEL_CTRL channelId payload clients).foldl (hear c) h =
      if c ∈ clients then { h with setting := some (fitting payload) } else h := by
  induction clients generalizing h with
  | nil => rfl
  | cons client clients ih =>
    have hctrl : ¬ CHANNEL_CTRL = CHANNEL_DATA := by decide
    have hone : hear c h ⟨opts, .sent (frame CHANNEL_CTRL channelId client payload)⟩ =
        if client = c then { h with setting := some (fitting payload) } else h := by
      simp only [hear, frame_fitting]
      simp only [frame, hctrl, ↓reduceIte]
    simp only [toEach, List.map_cons, List.foldl_cons, hone]
    rw [← toEach, ih]
    by_cases hc : client = c
    · simp [hc]
    · simp [hc, Ne.symm hc]

theorem hear_frame (opts : CamSetting) (channelId : UInt16) (payload : List UInt8)
    (clients : List UInt16) (h : Heard) :
    (toEach opts CHANNEL_DATA channelId payload clients).foldl (hear c) h =
      { h with frames := h.frames ++ List.replicate (clients.count c) (fitting payload) } := by
  induction clients generalizing h with
  | nil => simp [toEach]
  | cons client clients ih =>
    have hdata : ¬ CHANNEL_DATA = CHANNEL_CTRL := by decide
    have hone : hear c h ⟨opts, .sent (frame CHANNEL_DATA channelId client payload)⟩ =
        if client = c then { h with frames := h.frames ++ [fitting payload] } else h := by
      simp only [hear, frame_fitting]
      simp only [frame, hdata, ↓reduceIte]
    simp only [toEach, List.map_cons, List.foldl_cons, hone]
    rw [← toEach, ih]
    by_cases hc : client = c
    · subst hc
      simp [List.replicate_succ]
    · simp [hc]

/-- Frames of other types say nothing of the setting and show nothing. -/
theorem hear_other {type : UInt8} (hctrl : type ≠ CHANNEL_CTRL) (hdata : type ≠ CHANNEL_DATA)
    (opts : CamSetting) (channelId client : UInt16) (payload : List UInt8) (h : Heard) :
    hear c h ⟨opts, .sent (frame type channelId client payload)⟩ = h := by
  simp [hear, frame, hctrl, hdata]

/-! ### Messages -/

theorem channelSubscribe_hears (hi : Informed c s h) (p : Pass) (i : Input) :
    Hears c h (channelSubscribe s p i) (if i.client = c then true else (find s.clients c).isSome)
      [] := by
  have htimed : Within Quiet (Steady s) (if subscribers s = [] then
      s.with (camInitTimer s.opts p.timer).ignored else .done s) := by
    split
    · exact steady_with (camInitTimer_silent p.timer).ignored
    · exact .done (steady_refl s)
  refine hears_behind htimed (by split <;> rfl) ?_
  intro s' hs _
  have hi' := hs.informed hi
  have hheard := hear_setting (c := c) s'.opts i.request.header.channelId (ctrlBytes s'.opts)
    [i.client] h
  refine ⟨along_trivial _ _, ?_, ?_, ?_⟩
  · intro hrunning hin
    rw [isSome_find_insert] at hin
    change ((toEach s'.opts CHANNEL_CTRL i.request.header.channelId (ctrlBytes s'.opts)
      [i.client]).foldl (hear c) h).setting = some (ctrlBytes s'.opts)
    rw [hheard, ctrlBytes_fitting]
    by_cases hc : i.client = c
    · simp [hc]
    · rw [if_neg hc] at hin
      rw [if_neg (by simpa using Ne.symm hc)]
      exact hi' (Bool.and_eq_true_iff.mp hrunning).1 hin
  · rw [isSome_find_insert, hs.clients]
  · change ((toEach s'.opts CHANNEL_CTRL i.request.header.channelId (ctrlBytes s'.opts)
      [i.client]).foldl (hear c) h).frames = h.frames ++ []
    rw [hheard, List.append_nil]
    split <;> rfl

theorem announce_hears (s : State M) (h : Heard) :
    Hears c h (announce s) (find s.clients c).isSome [] := by
  have hheard := hear_setting (c := c) s.opts s.msg.channelId (ctrlBytes s.opts) (subscribers s) h
  refine fun _ => ⟨along_trivial _ _, ?_, rfl, ?_⟩
  · intro _ hin
    change ((toEach s.opts CHANNEL_CTRL s.msg.channelId (ctrlBytes s.opts)
      (subscribers s)).foldl (hear c) h).setting = some (ctrlBytes s.opts)
    have hin : (find s.clients c).isSome = true := hin
    rw [hheard, ctrlBytes_fitting, if_pos (mem_subscribers.mpr hin)]
  · change ((toEach s.opts CHANNEL_CTRL s.msg.channelId (ctrlBytes s.opts)
      (subscribers s)).foldl (hear c) h).frames = h.frames ++ []
    rw [hheard, List.append_nil]
    split <;> rfl

theorem channelCtrl_hears (hi : Informed c s h) (p : Pass) (i : Input) :
    Hears c h (channelCtrl s p i) (find s.clients c).isSome [] := by
  unfold channelCtrl
  by_cases hsize : i.size = 6
  · simp only [hsize, ↓reduceIte]
    have happlied : Silent (requested s.opts i.request.payload)
        (camApplySetting (requested s.opts i.request.payload) p.apply) :=
      camApplySetting_silent p.apply
    generalize camApplySetting (requested s.opts i.request.payload) p.apply = applied at happlied ⊢
    have hwith : Within Quiet (fun s' => s'.clients = s.clients ∧
        s'.running = (s.running && applied.ok)) (s.with applied) := ⟨happlied.calls, rfl, rfl⟩
    refine hears_behind hwith rfl ?_
    rintro s' ⟨hclients, hrunning⟩
    rw [← hclients]
    cases hok : applied.ok with
    | false =>
      have hstopped : s'.running = false := by rw [hrunning, hok, Bool.and_false]
      simp only [↓reduceIte]
      exact hears_quiet (steady_with (camCleanup_silent false p.cleanup).ignored)
        (stopped_informed h hstopped)
    | true =>
      simp only [Bool.true_eq_false, ↓reduceIte]
      have hstreamed : Within Quiet (fun s'' => s''.clients = s'.clients ∧
          s''.running = (s'.running && p.streamOn))
          (s'.with (camStartStreaming s'.opts p.streamOn)) :=
        ⟨by simp [State.with, camStartStreaming, Quiet], rfl, rfl⟩
      refine hears_behind hstreamed rfl ?_
      rintro s'' ⟨hclients', hrunning'⟩
      rw [← hclients']
      cases hon : p.streamOn with
      | true =>
        simp only [↓reduceIte]
        exact announce_hears s'' h
      | false =>
        -- The loop ends when the stream cannot be started.
        have hstopped : s''.running = false := by rw [hrunning', hon, Bool.and_false]
        simp only [Bool.false_eq_true, ↓reduceIte]
        exact hears_quiet (.done (steady_refl s'')) (stopped_informed h hstopped)
  · simp only [hsize, ↓reduceIte]
    exact hears_quiet (.done (steady_refl s)) hi

omit [FiniteMap M] in
theorem camSendFrameClient_queued {opts : CamSetting} {clients : List UInt16} {stack : TunnelMsgH}
    {jpeg : List UInt8} {dequeue : Option UInt32} (hqueued : opts.queued ≠ 0)
    (hclients : clients ≠ []) :
    camSendFrameClient opts clients stack jpeg dequeue = Outcome.andThen
      ⟨true, opts, ⟨opts, .scanlines (rowOffsets opts)⟩ ::
        toEach opts CHANNEL_DATA stack.channelId jpeg clients⟩
      fun opts => (camDequeueBuffer opts dequeue).andThen fun opts =>
        .done { opts with queued := 0 } := by
  simp only [camSendFrameClient, hqueued, hclients, ne_eq, not_false_eq_true, ↓reduceIte]
  rfl

theorem sendFrame_hears (hi : Informed c s h) (hclients : subscribers s ≠ []) (p : Pass)
    (jpeg : Option (List UInt8)) :
    Hears c h (sendFrame s p jpeg) (find s.clients c).isSome
      (if s.opts.queued ≠ 0 ∧ (find s.clients c).isSome then
        jpeg.toList.map fitting else []) := by
  by_cases hqueued : s.opts.queued = 0
  · have hquiet : Silent s.opts ((camSendFrameClient s.opts (subscribers s) p.stack
        (jpeg.getD []) p.dequeue).andThen fun opts => readTimer opts p.read) := by
      simp only [camSendFrameClient, hqueued, ↓reduceIte]
      exact Silent.andThen (silent_done .refl) fun _ => readTimer_silent p.read
    simp only [sendFrame, hqueued, ne_eq, not_true_eq_false, and_false, ↓reduceIte, false_and]
    exact hears_quiet (steady_with hquiet) hi
  · cases jpeg with
    | none =>
      simp only [sendFrame, hqueued, ne_eq, not_false_eq_true, and_self, ↓reduceIte,
        Option.toList_none, List.map_nil, ite_self]
      exact fun _ => ⟨along_trivial _ _, hi, rfl, by simp⟩
    | some jpeg =>
      have hrest : Silent s.opts (((camDequeueBuffer s.opts p.dequeue).andThen fun opts =>
          .done { opts with queued := 0 }).andThen fun opts => readTimer opts p.read) :=
        Silent.andThen (camDequeueBuffer_silent p.dequeue) fun _ => readTimer_silent p.read
      have hframes := hear_frame (c := c) s.opts p.stack.channelId jpeg (subscribers s) h
      have hform : sendFrame s p (some jpeg) = s.with (Outcome.andThen
          ⟨true, s.opts, ⟨s.opts, .scanlines (rowOffsets s.opts)⟩ ::
            toEach s.opts CHANNEL_DATA p.stack.channelId jpeg (subscribers s)⟩
          fun opts => ((camDequeueBuffer opts p.dequeue).andThen fun opts =>
            .done { opts with queued := 0 }).andThen fun opts => readTimer opts p.read) := by
        simp only [sendFrame, reduceCtorEq, false_and, ↓reduceIte]
        rw [Option.getD_some, camSendFrameClient_queued hqueued hclients, Outcome.andThen_assoc]
      have hsteady := steady_with hrest
      rw [hform, Outcome.andThen_success]
      simp only [hqueued, ne_eq, not_false_eq_true, true_and, Option.toList_some,
        List.map_singleton]
      intro _
      have hheard : ∀ out, (∀ e ∈ out, Quiet e) →
          ((⟨s.opts, .scanlines (rowOffsets s.opts)⟩ ::
            toEach s.opts CHANNEL_DATA p.stack.channelId jpeg (subscribers s)) ++ out).foldl
              (hear c) h =
            { h with
              frames := h.frames ++ List.replicate ((subscribers s).count c) (fitting jpeg) } := by
        intro out hout
        rw [List.foldl_append, List.foldl_cons, ← hframes, hear_quiet hout]
        rfl
      refine ⟨along_trivial _ _, ?_, rfl, ?_⟩
      · rw [State.with, hheard _ hrest.calls]
        exact hsteady.state.informed hi
      · rw [State.with, hheard _ hrest.calls, count_subscribers]
        split <;> rfl

end Client

/-! ### Histories -/

/-- A client joins or leaves, the driver hands over a frame, or an event of the program. -/
inductive Act where
  | subscribed (c : UInt16)
  | left (c : UInt16)
  | captured (jpeg : List UInt8)
  | event (e : Event)

def membership (i : Input) : List Act :=
  if i.request.header.type = CHANNEL_SUBSCRIBE then [.subscribed i.client]
  else if i.request.header.type = CHANNEL_UNSUBSCRIBE then [.left i.client]
  else []

/-- What a turn takes in. There is a frame to take only if the buffer is queued. -/
def selected (s : State M) (p : Pass) : List Act :=
  match p.selected with
  | .message i => membership i
  | .frame (some jpeg) =>
    if (queueNext s p.queue).state.opts.queued ≠ 0 then [.captured jpeg] else []
  | _ => []

def taken : Program M → Round → List Act
  | .start, _ => []
  | .loop s, a => if s.running then selected s a.pass else []
  | .exited _, _ => []

/-- What happens in a round, in order. -/
def log (args : Args) (p : Program M) (a : Round) : List Act :=
  taken p a ++ (next args p a).2.map .event

abbrev Logged (args : Args) : Program M → Round → List Act → Program M → Prop :=
  Guarded (fun _ => true) fun p a => ((next args p a).1, log args p a)

/-- Whether the client is subscribed after one more act. -/
def joined (c : UInt16) (on : Bool) : Act → Bool
  | .subscribed c' => if c' = c then true else on
  | .left c' => if c' = c then false else on
  | _ => on

/-- A frame is due to who is subscribed. -/
def owed (on : Bool) : Act → List (List UInt8)
  | .captured jpeg => if on then [fitting jpeg] else []
  | _ => []

def hearAct (c : UInt16) (h : Heard) : Act → Heard
  | .event e => hear c h e
  | _ => h

/-- What the client has heard in a history. -/
def heard (c : UInt16) (acts : List Act) : Heard := acts.foldl (hearAct c) ⟨none, []⟩

/-- The last membership message of the client is a SUBSCRIBE. -/
abbrev subscribed (c : UInt16) (acts : List Act) : Bool := acts.foldl (joined c) false

section Turns

variable {c : UInt16} {s s' : State M} {h : Heard} {p : Pass}

theorem foldl_events (on : Bool) (h : Heard) (out : List Event) :
    (out.map Act.event).foldl (joined c) on = on ∧
      due (joined c) owed on (out.map .event) = [] ∧
      (out.map Act.event).foldl (hearAct c) h = out.foldl (hear c) h := by
  have hnone : ∀ act ∈ out.map Act.event, joined c on act = on ∧ owed on act = [] := by
    intro act hact
    obtain ⟨e, -, rfl⟩ := List.mem_map.mp hact
    exact ⟨rfl, rfl⟩
  obtain ⟨hon, hdue⟩ := due_eq_nil hnone
  refine ⟨hon, hdue, ?_⟩
  rw [List.foldl_map]
  rfl

theorem foldl_selected (s : State M) (p : Pass) (h : Heard) :
    (selected s p).foldl (hearAct c) h = h := by
  unfold selected membership
  split
  · split_ifs <;> rfl
  · split_ifs <;> rfl
  · rfl

theorem due_membership (on : Bool) (i : Input) : due (joined c) owed on (membership i) = [] := by
  unfold membership
  split_ifs <;> rfl

theorem handleMessage_hears (hi : Informed c s h) (p : Pass) (i : Input) :
    Hears c h (handleMessage s p i) ((membership i).foldl (joined c) (find s.clients c).isSome)
      [] := by
  unfold handleMessage membership
  dsimp only
  split_ifs with hsub hunsub hctrl
  · exact channelSubscribe_hears hi p i
  · refine fun _ => ⟨along_trivial _ _, ?_, ?_, by simp [Outcome.done]⟩
    · intro hrunning hin
      simp only [Outcome.done, isSome_find_delete] at hin
      split at hin
      · cases hin
      · exact hi hrunning hin
    · exact isSome_find_delete s.clients i.client c
  · exact channelCtrl_hears hi p i
  · exact hears_quiet (.done (steady_refl s)) hi

/-- The selected part of a turn, behind the parts that no client notices. -/
theorem select_hears {s₀ : State M} (hs : Steady s₀ s)
    (hqueued : s.opts.queued = (queueNext s₀ p.queue).state.opts.queued) (hi : Informed c s h) :
    Hears c h (CamService.select s p)
      ((selected s₀ p).foldl (joined c) (find s₀.clients c).isSome)
      (due (joined c) owed (find s₀.clients c).isSome (selected s₀ p)) := by
  have hstop : ∀ msg : TunnelMsgH, Hears c h (.done { s with msg := msg, running := false })
      (find s.clients c).isSome [] :=
    fun msg => .done ⟨stopped_informed h rfl, rfl, by simp⟩
  rw [← hs.clients]
  unfold CamService.select selected
  cases p.selected with
  | failed => exact hstop s.msg
  | unreadable left => exact hstop left
  | timeout | neither => exact hears_quiet (.done (steady_refl s)) hi
  | message i =>
    simp only [due_membership]
    exact handleMessage_hears (s := { s with msg := i.request.header }) hi p i
  | frame jpeg =>
    simp only [← hqueued]
    by_cases hclients : subscribers s = []
    · have hout : (find s.clients c).isSome = false := by
        rw [← Bool.not_eq_true, ← mem_subscribers, hclients]
        simp
      have hquiet := hears_quiet (c := c) (.done (steady_refl s)) hi
      simp only [hclients, ne_eq, not_true_eq_false, ↓reduceIte]
      cases jpeg with
      | none => exact hquiet
      | some jpeg =>
        rw [hout] at hquiet ⊢
        dsimp only
        split_ifs <;> exact hquiet
    · have hsent := sendFrame_hears hi hclients p jpeg
      simp only [hclients, ne_eq, not_false_eq_true, ↓reduceIte]
      cases jpeg with
      | none => simpa [due] using hsent
      | some jpeg =>
        dsimp only
        by_cases hqueue : s.opts.queued = 0
        · simpa [hqueue, due] using hsent
        · simpa [hqueue, due, owed, joined] using hsent

theorem stopTimer_queued (s : State M) : (stopTimer s).state.opts.queued = s.opts.queued := by
  unfold stopTimer
  split <;> rfl

theorem turn_hears (hi : Informed c s h) (p : Pass) :
    Hears c h (turn s p) ((selected s p).foldl (joined c) (find s.clients c).isSome)
      (due (joined c) owed (find s.clients c).isSome (selected s p)) := by
  have hqueue := queueNext_steady s p.queue
  unfold turn
  refine hears_behind (I := fun s' => s' = (queueNext s p.queue).state) ⟨hqueue.calls, rfl⟩
    (queueNext_ok s p.queue) ?_
  rintro s' rfl
  have htimer := stopTimer_steady (queueNext s p.queue).state
  refine hears_behind (I := fun s' => s' = (stopTimer (queueNext s p.queue).state).state)
    ⟨htimer.calls, rfl⟩ (stopTimer_ok _) ?_
  rintro s' rfl
  have hsteady : Steady s (stopTimer (queueNext s p.queue).state).state :=
    ⟨htimer.state.clients.trans hqueue.state.clients,
      hqueue.state.setting.trans htimer.state.setting,
      fun hrunning => hqueue.state.running (htimer.state.running hrunning)⟩
  have hselect := select_hears hsteady (stopTimer_queued _) (hsteady.informed hi)
  refine hselect.andThen (fun _ _ h => h) ?_
  rintro s' h' ⟨hi', hon, hframes⟩
  refine .done ⟨?_, hon, hframes⟩
  intro hrunning hin
  exact hi' (Bool.and_eq_true_iff.mp hrunning).1 hin

end Turns

/-! ### Runs -/

section Runs

variable {c : UInt16} {s : State M} {h : Heard}

/-- What the program says before its loop and after it is neither a setting nor a frame. -/
def Unheard (c : UInt16) (e : Event) : Prop := ∀ h, hear c h e = h

theorem Quiet.unheard {e : Event} (he : Quiet e) (c : UInt16) : Unheard c e := fun h => he.hear c h

theorem unheard_sent {type : UInt8} (htype : type ∉ [CHANNEL_CTRL, CHANNEL_DATA])
    (opts : CamSetting) (channelId client : UInt16) (payload : List UInt8) :
    Unheard c ⟨opts, .sent (frame type channelId client payload)⟩ := by
  intro h
  simp only [List.mem_cons, List.not_mem_nil, or_false, not_or] at htype
  exact hear_other htype.1 htype.2 opts channelId client payload h

theorem hear_unheard {out : List Event} (hout : ∀ e ∈ out, Unheard c e) (h : Heard) :
    out.foldl (hear c) h = h := by
  induction out with
  | nil => rfl
  | cons e out ih =>
    obtain ⟨he, hrest⟩ := List.forall_mem_cons.mp hout
    rw [List.foldl_cons, he, ih hrest]

/-- The program has nobody subscribed and says nothing that is heard. -/
abbrev Mute (c : UInt16) (r : Outcome (State M) Event) : Prop :=
  Within (Unheard c) (fun s => find s.clients c = none) r

theorem mute_with {r : Outcome CamSetting Event} (hr : Silent s.opts r)
    (hnone : find s.clients c = none) : Mute c (s.with r) :=
  ⟨fun e he => (hr.calls e he).unheard c, hnone⟩

theorem abandon_mute (hnone : find s.clients c = none) (a : Cleanup) : Mute c (abandon s a) := by
  refine Within.andThen (mute_with (camCleanup_silent true a).ignored hnone) fun s hs => ⟨?_, hs⟩
  intro e he
  split at he
  · rw [List.mem_singleton.mp he]
    exact Quiet.unheard (by simp [Quiet]) c
  · cases he

theorem setup_mute (args : Args) (a : Setup) : Mute c (setup args a : Outcome (State M) Event) := by
  have hopen : CHANNEL_OPEN ∉ [CHANNEL_CTRL, CHANNEL_DATA] := by decide
  have happlied : Silent (defaults args.device) (camApplySetting (defaults args.device) a.apply) :=
    camApplySetting_silent a.apply
  unfold setup
  refine Within.andThen ⟨fun e he => (happlied.calls e he).unheard c, by simp⟩ fun s hs => ?_
  refine Within.andThen (.call (Quiet.unheard (by simp [Quiet]) c) hs) fun s hs => ?_
  split
  · exact abandon_mute hs a.cleanup
  refine Within.andThen (.call (unheard_sent hopen _ _ _ _) hs) fun s hs => ?_
  split
  · exact abandon_mute hs a.cleanup
  cases a.answer with
  | none => exact abandon_mute hs a.cleanup
  | some header =>
    exact mute_with (s := { s with msg := header, running := _ })
      (silent_call (by simp [Quiet]) .refl) hs

theorem shutdown_unheard (s : State M) (a : Cleanup) (stack : TunnelMsgH) :
    ∀ e ∈ (shutdown s a stack).out, Unheard c e := by
  have hleave : CHANNEL_UNSUBSCRIBE ∉ [CHANNEL_CTRL, CHANNEL_DATA] := by decide
  have hclose : CHANNEL_CLOSE ∉ [CHANNEL_CTRL, CHANNEL_DATA] := by decide
  intro e he
  rcases Outcome.mem_andThen he with he | he
  · exact ((camCleanup_silent true a).calls e he).unheard c
  · rcases List.mem_append.mp he with he | he
    · obtain ⟨client, -, rfl⟩ := List.mem_map.mp he
      exact unheard_sent hleave _ _ _ _
    · rcases List.mem_pair.mp he with rfl | rfl
      · exact unheard_sent hclose _ _ _ _
      · exact Quiet.unheard (by simp [Quiet]) c

/-- What is kept of a client at the head of the loop. -/
def Kept (c : UInt16) (on : Bool) (h : Heard) : Program M → Prop
  | .start => on = false
  | .loop s => (find s.clients c).isSome = on ∧ Informed c s h
  | .exited _ => True

theorem kept_of {r : Outcome (State M) Event} {on : Bool}
    (hon : (find r.state.clients c).isSome = on) (hi : Informed c r.state h) :
    Kept c on h (Program.of r).1 := by
  unfold Program.of
  split
  · exact ⟨hon, hi⟩
  · trivial

theorem next_kept (args : Args) {p : Program M} {on : Bool} (hk : Kept c on h p) (a : Round) :
    Kept c ((taken p a).foldl (joined c) on) ((next args p a).2.foldl (hear c) h)
        (next args p a).1 ∧
      ((next args p a).2.foldl (hear c) h).frames =
        h.frames ++ due (joined c) owed on (taken p a) := by
  cases p with
  | start =>
    have hmute := setup_mute (M := M) (c := c) args a.setup
    have hon : on = false := hk
    have hheard : (next args .start a).2.foldl (hear c) h = h := hear_unheard hmute.calls h
    rw [hheard]
    refine ⟨kept_of (by rw [hmute.state, hon]; rfl) ?_, by simp [taken, due]⟩
    intro _ hin
    rw [hmute.state] at hin
    cases hin
  | loop s =>
    obtain ⟨rfl, hi⟩ := hk
    by_cases hrunning : s.running = true
    · obtain ⟨-, hi', hon, hframes⟩ := turn_hears hi a.pass (along_trivial _ _)
      have hnext : next args (.loop s) a = Program.of (turn s a.pass) := by
        simp only [next, hrunning, ↓reduceIte]
      rw [hnext]
      simp only [taken, hrunning, ↓reduceIte]
      exact ⟨kept_of hon hi', hframes⟩
    · have hheard : (next args (.loop s) a).2.foldl (hear c) h = h := by
        simp only [next, hrunning]
        exact hear_unheard (shutdown_unheard s a.cleanup a.stack) h
      have hexit : Kept c (find s.clients c).isSome h (next args (.loop s) a).1 := by
        have hended : (shutdown s a.cleanup a.stack).ok = false := rfl
        simp only [next, hrunning, Bool.false_eq_true, ↓reduceIte, Program.of, hended]
        trivial
      rw [hheard]
      simp only [taken, hrunning, Bool.false_eq_true, ↓reduceIte]
      exact ⟨hexit, by simp [due]⟩
  | exited opts => exact ⟨trivial, by simp [taken, next, due]⟩

theorem run_kept {args : Args} {rounds : List Round} {acts : List Act} {p : Program M}
    (run : Execution (Logged args) .start rounds acts p) (c : UInt16) :
    Kept c (subscribed c acts) (heard c acts) p ∧
      (heard c acts).frames = due (joined c) owed false acts := by
  let I : Program M → List Act → Prop := fun p acts =>
    Kept c (subscribed c acts) (heard c acts) p ∧
      (heard c acts).frames = due (joined c) owed false acts
  have hstep : ∀ p past a out q, I p past → Logged args p a out q → I q (past ++ out) := by
    rintro p past a out q ⟨hkept, hframes⟩ ⟨-, hnext⟩
    obtain ⟨rfl, rfl⟩ := Prod.mk.inj hnext
    obtain ⟨hkept', hframes'⟩ := next_kept args hkept a
    obtain ⟨hon, hdue, hheard⟩ :=
      foldl_events (c := c) ((taken p a).foldl (joined c) (subscribed c past)) (heard c past)
        (next args p a).2
    have htaken : (taken p a).foldl (hearAct c) (heard c past) = heard c past := by
      unfold taken
      split
      · rfl
      · split
        · exact foldl_selected _ _ _
        · rfl
      · rfl
    have hon' : subscribed c (past ++ log args p a) =
        (taken p a).foldl (joined c) (subscribed c past) := by
      rw [subscribed, log, List.foldl_append, List.foldl_append, hon]
    have hheard' : heard c (past ++ log args p a) =
        (next args p a).2.foldl (hear c) (heard c past) := by
      rw [heard, log, List.foldl_append, List.foldl_append, ← heard, htaken, hheard]
    refine ⟨?_, ?_⟩
    · rw [hon', hheard']
      exact hkept'
    · rw [hheard', hframes', hframes, log, due_append, due_append, hdue, List.append_nil]
  exact run.history (I := I) hstep ⟨rfl, rfl⟩

/-- In every run a client is sent the frames that the driver hands over, with a buffer queued, while
the client's last membership message is a SUBSCRIBE, each once and in order, and nothing else. -/
theorem frames_delivered {args : Args} {rounds : List Round} {acts : List Act} {p : Program M}
    (run : Execution (Logged args) .start rounds acts p) (c : UInt16) :
    (heard c acts).frames = due (joined c) owed false acts := (run_kept run c).2

/-- In every run, at the head of the loop while the program runs, the last setting that a subscribed
client was told is the one in force. -/
theorem setting_current {args : Args} {rounds : List Round} {acts : List Act} {s : State M}
    (run : Execution (Logged args) .start rounds acts (.loop s)) (hrunning : s.running = true)
    {c : UInt16} (hon : subscribed c acts = true) :
    (heard c acts).setting = some (ctrlBytes s.opts) := by
  obtain ⟨⟨hin, hinformed⟩, -⟩ := run_kept run c
  exact hinformed hrunning (hin.trans hon)

end Runs

/-- Client 1 gets a frame and asks for another setting. -/
def oneFrame : List Round :=
  [boot (working 3 0) 4, turning (.message (.subscribe 1 97)), turning (.frame (some [9])),
    turning (.message (.words 1 (1, 64) (0, 240) 10 80))]

theorem oneFrame_run : Execution (Logged arguments) starting oneFrame
    (visitAll (fun p a => ((next arguments p a).1, log arguments p a)) starting oneFrame).2
    (visitAll (fun p a => ((next arguments p a).1, log arguments p a)) starting oneFrame).1 :=
  execution_of_guardedRun (fun _ => true)
    (fun p a => ((next arguments p a).1, log arguments p a)) starting oneFrame (by decide +kernel)

theorem frames_delivered_one_frame : ∃ acts p,
    Execution (Logged arguments) starting oneFrame acts p ∧ (heard 1 acts).frames = [[9]] :=
  ⟨_, _, oneFrame_run, (frames_delivered oneFrame_run 1).trans (by decide +kernel)⟩

theorem setting_current_one_frame : ∃ acts s,
    Execution (Logged arguments) starting oneFrame acts (.loop s) ∧
    (heard 1 acts).setting = some (ctrlBytes s.opts) ∧
    ctrlBytes s.opts = [1, 64, 0, 240, 10, 80] := by
  have hrun := oneFrame_run
  have hon : subscribed 1 (visitAll (fun p a => ((next arguments p a).1, log arguments p a))
      starting oneFrame).2 = true := by decide +kernel
  have hseen : (fun p : Program AssocList => match p with
      | .loop s => (s.running, ctrlBytes s.opts)
      | _ => (false, [])) (visitAll (fun p a => ((next arguments p a).1, log arguments p a))
      starting oneFrame).1 = (true, [1, 64, 0, 240, 10, 80]) := by decide +kernel
  generalize (visitAll (fun p a => ((next arguments p a).1, log arguments p a))
    starting oneFrame).1 = p at hrun hseen
  cases p with
  | start => cases hseen
  | exited opts => cases hseen
  | loop s =>
    obtain ⟨hrunning, hbytes⟩ := Prod.mk.inj hseen
    exact ⟨_, s, hrun, setting_current hrun hrunning hon, hbytes⟩

end CamClients
