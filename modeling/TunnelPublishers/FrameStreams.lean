import TunnelPublishers.FrameGrammar

/-!
# Streams of frames behind failed sends

A call of msg_write that fails leaves on the wire what its guarded writes moved
before the failure. The next frame is written right behind these bytes.
-/
namespace TunnelFraming

open ByteOrder

/-! ### A call as a chain of guarded writes -/

/-- The parts go out one after another until one of them fails. -/
def guardWrites : List (List UInt8) → WriteEnd → ℤ × WriteEnd
  | [], fd => (0, fd)
  | part :: parts, fd =>
    let (st, fd) := guardWrite fd part part.length
    if st = -1 then (-1, fd) else guardWrites parts fd

/-- The bytes moved by transfers of these sizes up to the first one cut short. -/
def transfersFields : List IoResult → List ℕ → ℕ × List IoResult
  | script, [] => (0, script)
  | script, size :: sizes =>
    let t := transfers script size size
    if t.1 = size then
      (size + (transfersFields t.2 sizes).1, (transfersFields t.2 sizes).2)
    else t

theorem transfersFields_le (script : List IoResult) (sizes : List ℕ) :
    (transfersFields script sizes).1 ≤ sizes.sum := by
  induction sizes generalizing script with
  | nil => exact le_rfl
  | cons size sizes ih =>
    have hle := transfers_le script size size
    have hrest := ih (transfers script size size).2
    rw [transfersFields, List.sum_cons]
    split
    · simp only
      omega
    · omega

theorem guardWrites_eq (parts : List (List UInt8)) (hsmall : ∀ part ∈ parts, part.length < 2 ^ 31)
    (script : List IoResult) (wire : List UInt8) :
    guardWrites parts ⟨script, wire⟩ =
      let t := transfersFields script (parts.map List.length)
      (if t.1 = parts.flatten.length then 0 else -1, ⟨t.2, wire ++ parts.flatten.take t.1⟩) := by
  induction parts generalizing script wire with
  | nil => simp [guardWrites, transfersFields]
  | cons part parts ih =>
    have hpart := hsmall part List.mem_cons_self
    have hle := transfers_le script part.length part.length
    rw [guardWrites, guardWrite_eq (by omega), List.map_cons, transfersFields]
    by_cases hfull : (transfers script part.length part.length).1 = part.length
    · have hst : cInt (part.length : ℤ) ≠ -1 := by
        rw [cInt_of_bounds (by omega) (by omega)]
        omega
      simp only [hfull, ↓reduceIte, hst]
      rw [ih fun p hp => hsmall p (List.mem_cons_of_mem part hp)]
      simp [List.take_append]
    · have hshort : (transfers script part.length part.length).1 ≠
          (part :: parts).flatten.length := by
        simp only [List.flatten_cons, List.length_append]
        omega
      simp only [hfull, ↓reduceIte, hshort]
      rw [List.flatten_cons, List.take_append_of_le_length (by omega)]

def frameParts (m : TunnelMsg) : List (List UInt8) :=
  [be16 MSG_MAGIC_BEGIN, [m.header.type], be16 m.header.channelId, be16 m.header.clientId,
    be32 m.header.size, m.payload, be16 MSG_MAGIC_END]

theorem frameParts_flatten (m : TunnelMsg) : (frameParts m).flatten = encode m := by
  simp [frameParts, encode]

/-- The block may be longer than the payload; only the payload is written. -/
theorem guardWrite_payload {m : TunnelMsg} (hm : m.Sendable) (fd : WriteEnd) :
    guardWrite fd (m.data.getD []) m.header.size.toNat =
      guardWrite fd m.payload m.payload.length := by
  obtain ⟨script, wire⟩ := fd
  have hsmall := hm.small
  have hle := transfers_le script m.header.size.toNat m.header.size.toNat
  rw [hm.payload_length, guardWrite_eq (by omega), guardWrite_eq (by omega), hm.payload_length,
    transfers_enough hm.block, TunnelMsg.payload]
  simp only [List.take_take, Nat.min_eq_left (hle.trans (Nat.min_le_left _ _))]

theorem msgWrite_eq_guardWrites {m : TunnelMsg} (hm : m.Sendable) (fd : WriteEnd) :
    msgWrite fd m = guardWrites (frameParts m) fd := by
  have hpayload : ∀ fd : WriteEnd, (if m.header.size > 0 then
      guardWrite fd (m.data.getD []) m.header.size.toNat else (0, fd)) =
      guardWrite fd m.payload m.payload.length := by
    intro fd
    split
    · exact guardWrite_payload hm fd
    · next hz =>
      have hnil := TunnelMsg.payload_nil (m := m) (by simpa using hz)
      rw [hnil, guardWrite, guardWriteLoop]
      rfl
  simp only [msgWrite, mem16_htons, mem32_htonl, hpayload, frameParts, guardWrites,
    be16_length, be32_length, List.length_singleton]

/-- The sizes of the guarded writes behind one call. -/
def frameSizes (m : TunnelMsg) : List ℕ := [2, 1, 2, 2, 4, m.header.size.toNat, 2]

theorem frameSizes_sum {m : TunnelMsg} (hm : m.Sendable) :
    (encode m).length = (frameSizes m).sum := by
  simp [encode, frameSizes, hm.payload_length]
  omega

/-- What a call does under any answers: it returns 0 exactly when all of the frame went out,
and otherwise leaves the beginning of it. -/
theorem msgWrite_eq {m : TunnelMsg} (hm : m.Sendable) (script : List IoResult)
    (wire : List UInt8) :
    msgWrite ⟨script, wire⟩ m =
      let t := transfersFields script (frameSizes m)
      (if t.1 = (encode m).length then 0 else -1, ⟨t.2, wire ++ (encode m).take t.1⟩) := by
  have hsizes : (frameParts m).map List.length = frameSizes m := by
    simp [frameParts, frameSizes, hm.payload_length]
  have hsmall : ∀ part ∈ frameParts m, part.length < 2 ^ 31 := by
    have hpay := hm.payload_length
    have hlt := hm.small
    intro part hpart
    simp only [frameParts, List.mem_cons, List.not_mem_nil, or_false] at hpart
    rcases hpart with rfl | rfl | rfl | rfl | rfl | rfl | rfl <;> simp
    omega
  rw [msgWrite_eq_guardWrites hm, guardWrites_eq _ hsmall, hsizes, frameParts_flatten]

/-! ### Histories of calls -/

/-- The messages whose call returned 0. -/
def delivered (msgs : List TunnelMsg) (statuses : List ℤ) : List TunnelMsg :=
  ((msgs.zip statuses).filter fun call => call.2 = 0).map Prod.fst

/-- The answers of write(2) carry the whole frame of a call or refuse its first byte. -/
def FailsClean : List TunnelMsg → List IoResult → Prop
  | [], _ => True
  | m :: ms, script =>
    let t := transfersFields script (frameSizes m)
    (t.1 = 0 ∨ t.1 = (frameSizes m).sum) ∧ FailsClean ms t.2

theorem delivered_cons_written (m : TunnelMsg) (msgs : List TunnelMsg) (statuses : List ℤ) :
    delivered (m :: msgs) (0 :: statuses) = m :: delivered msgs statuses := by
  simp [delivered]

theorem delivered_cons_failed (m : TunnelMsg) (msgs : List TunnelMsg) (statuses : List ℤ) :
    delivered (m :: msgs) (-1 :: statuses) = delivered msgs statuses := by
  simp [delivered]

theorem msgWrites_eq (msgs : List TunnelMsg) (hm : ∀ m ∈ msgs, m.Sendable)
    (script : List IoResult) (wire : List UInt8) :
    ∃ statuses rest sent, msgWrites msgs ⟨script, wire⟩ = (statuses, ⟨rest, wire ++ sent⟩) ∧
      ((delivered msgs statuses).flatMap encode).length ≤ sent.length ∧
      (FailsClean msgs script → sent = (delivered msgs statuses).flatMap encode) ∧
      (¬ FailsClean msgs script →
        ((delivered msgs statuses).flatMap encode).length < sent.length) := by
  induction msgs generalizing script wire with
  | nil => exact ⟨[], script, [], by simp [msgWrites], by simp [delivered], by simp [delivered],
      by simp [FailsClean]⟩
  | cons m ms ih =>
    have hsend := hm m List.mem_cons_self
    have hle := transfersFields_le script (frameSizes m)
    have hsum := frameSizes_sum hsend
    have hwrite := msgWrite_eq hsend script wire
    simp only at hwrite
    generalize ht : transfersFields script (frameSizes m) = t at hwrite hle
    obtain ⟨statuses, rest, sent, hrest, hlen, hclean, hdirty⟩ :=
      ih (fun x hx => hm x (List.mem_cons_of_mem m hx)) t.2 (wire ++ (encode m).take t.1)
    by_cases hfull : t.1 = (encode m).length
    · have hcond : FailsClean (m :: ms) script ↔ FailsClean ms t.2 := by
        simp only [FailsClean, ht, hfull, hsum, or_true, true_and]
      have hwritten : (delivered (m :: ms) (0 :: statuses)).flatMap encode =
          encode m ++ (delivered ms statuses).flatMap encode := by
        rw [delivered_cons_written, List.flatMap_cons]
      rw [if_pos hfull, hfull, List.take_length] at hwrite
      rw [hfull, List.take_length, List.append_assoc] at hrest
      refine ⟨0 :: statuses, rest, encode m ++ sent, ?_, ?_, ?_, ?_⟩
      · simp only [msgWrites, hwrite, hrest]
      · rw [hwritten, List.length_append, List.length_append]
        omega
      · intro h
        rw [hwritten, hclean (hcond.mp h)]
      · intro h
        have hlt := hdirty (fun h' => h (hcond.mpr h'))
        rw [hwritten, List.length_append, List.length_append]
        omega
    · rw [if_neg hfull] at hwrite
      rw [List.append_assoc] at hrest
      have htake : ((encode m).take t.1).length = t.1 := by
        rw [List.length_take]
        omega
      have hfail := delivered_cons_failed m ms statuses
      refine ⟨-1 :: statuses, rest, (encode m).take t.1 ++ sent, ?_, ?_, ?_, ?_⟩
      · simp only [msgWrites, hwrite, hrest]
      · rw [hfail, List.length_append]
        omega
      · rintro ⟨h | h, hms⟩
        · rw [ht] at h hms
          rw [hfail, h, List.take_zero, List.nil_append, hclean hms]
        · rw [ht] at h
          omega
      · intro h
        rw [hfail, List.length_append, htake]
        by_cases hzero : t.1 = 0
        · have hms : ¬ FailsClean ms t.2 := fun hms => h ⟨Or.inl (ht ▸ hzero), ht ▸ hms⟩
          have hlt := hdirty hms
          omega
        · omega

/-! ### What a reader makes of the wire -/

/-- Repeated calls with one struct return these messages, and then one fails. -/
def Reads : ReadEnd → TunnelMsg → List TunnelMsg → Prop
  | fd, prev, [] => (msgRead fd prev).1 = -1
  | fd, prev, m :: ms => ∃ fd', msgRead fd prev = (0, m.received, fd') ∧ Reads fd' m.received ms

/-- However the stream is cut, a reader that meets no failure gets exactly these messages. -/
def Decodes (stream : List UInt8) (ms : List TunnelMsg) : Prop :=
  ∀ cuts prev, AllPositive cuts → Reads ⟨cuts, stream⟩ prev ms

theorem decodes_frames (ms : List TunnelMsg) (hm : ∀ m ∈ ms, m.Sendable)
    (ht : ∀ m ∈ ms, m.header.type ≤ 7) : Decodes (ms.flatMap encode) ms := by
  induction ms with
  | nil =>
    intro cuts prev hcuts
    rcases msgRead_result ⟨cuts, []⟩ prev with h | h
    · have hread : msgRead ⟨cuts, []⟩ prev = (0, _) := Prod.ext h rfl
      have hlen := congrArg List.length (msgRead_positive hcuts hread).2
      simp only [List.length_nil, encode, List.length_append, be16_length] at hlen
      omega
    · exact h
  | cons m ms ih =>
    intro cuts prev hcuts
    obtain ⟨rest, hrest, hread⟩ :=
      msgRead_full hcuts (hm m List.mem_cons_self) (ht m List.mem_cons_self) prev
    rw [List.flatMap_cons]
    exact ⟨_, hread _, ih (fun x hx => hm x (List.mem_cons_of_mem m hx))
      (fun x hx => ht x (List.mem_cons_of_mem m hx)) rest m.received hrest⟩

theorem encode_received (m : TunnelMsg) : encode m.received = encode m := by
  rw [encode, m.received_payload]
  rfl

/-- What decodes into a list of messages starts with their frames. -/
theorem Reads.leads {fd : ReadEnd} {prev : TunnelMsg} {ms : List TunnelMsg}
    (hm : ∀ m ∈ ms, m.Sendable) (ht : ∀ m ∈ ms, m.header.type ≤ 7) (hp : AllPositive fd.script)
    (h : Reads fd prev ms) : ms.flatMap encode <+: fd.stream := by
  induction ms generalizing fd prev with
  | nil => exact List.nil_prefix
  | cons m ms ih =>
    obtain ⟨fd', hread, hrest⟩ := h
    obtain ⟨-, hstream⟩ := msgRead_positive hp hread
    rw [encode_received] at hstream
    obtain ⟨script, stream⟩ := fd
    obtain rfl : stream = encode m ++ fd'.stream := hstream
    -- The answers left behind a frame do not depend on what follows it.
    obtain ⟨rest, hpos, hfull⟩ :=
      msgRead_full hp (hm m List.mem_cons_self) (ht m List.mem_cons_self) prev
    have hfd := (hfull fd'.stream).symm.trans hread
    simp only [Prod.mk.injEq, true_and] at hfd
    have hpos' : AllPositive fd'.script := by
      rw [← hfd]
      exact hpos
    rw [List.flatMap_cons]
    exact (List.prefix_append_right_inj _).mpr
      (ih (fun x hx => hm x (List.mem_cons_of_mem m hx))
        (fun x hx => ht x (List.mem_cons_of_mem m hx)) hpos' hrest)

/-- A message without a payload. -/
def emptyFrame (type : UInt8) : TunnelMsg := ⟨⟨type, 0, 0, 0⟩, none⟩

theorem emptyFrame_bytes (type : UInt8) : encode (emptyFrame type) =
    [0x41, 0x4e, type, 0, 0, 0, 0, 0, 0, 0, 0, 0x54, 0x44] := by
  have hbegin : be16 MSG_MAGIC_BEGIN = [0x41, 0x4e] := rfl
  have hend : be16 MSG_MAGIC_END = [0x54, 0x44] := rfl
  have hid : be16 0 = [0, 0] := rfl
  have hsize : be32 0 = [0, 0, 0, 0] := rfl
  simp [encode, emptyFrame, TunnelMsg.payload, hbegin, hend, hid, hsize]

/-- No bytes can stand in front of every frame unnoticed: an empty message of one type or of
another tells them apart from its own beginning. -/
theorem garbage_noticed {garbage : List UInt8}
    (h : ∀ type ≤ 1, encode (emptyFrame type) <+: garbage ++ encode (emptyFrame type)) :
    garbage = [] := by
  have h₀ := h 0 (by decide)
  have h₁ := h 1 (by decide)
  rw [emptyFrame_bytes] at h₀ h₁
  match garbage with
  | [] => rfl
  | [a] => simp [List.cons_prefix_cons] at h₀
  | [a, b] => simp [List.cons_prefix_cons] at h₀
  | a :: b :: c :: rest =>
    simp only [List.cons_append, List.cons_prefix_cons] at h₀ h₁
    have hc := h₀.2.2.1.trans h₁.2.2.1.symm
    exact absurd hc (by decide)

/-- After a history of calls, whatever is sent from then on without failures is read back right
behind the messages delivered so far. -/
def StreamIntact (msgs : List TunnelMsg) (script : List IoResult) : Prop :=
  ∀ statuses fd, msgWrites msgs ⟨script, []⟩ = (statuses, fd) →
    ∀ later short, (∀ m ∈ later, m.Sendable ∧ m.header.type ≤ 7) → AllPositive short →
      Decodes (msgWrites later { fd with script := short }).2.wire
        (delivered msgs statuses ++ later)

theorem mem_of_mem_delivered {m : TunnelMsg} {msgs : List TunnelMsg} {statuses : List ℤ}
    (h : m ∈ delivered msgs statuses) : m ∈ msgs := by
  obtain ⟨⟨m', st⟩, hcall, rfl⟩ := List.mem_map.mp h
  exact (List.of_mem_zip (List.mem_filter.mp hcall).1).1

/-- Later calls that meet no failure put their frames behind what is on the wire. -/
theorem later_wire {later : List TunnelMsg} (hm : ∀ m ∈ later, m.Sendable) {short : List IoResult}
    (hp : AllPositive short) (wire : List UInt8) :
    (msgWrites later ⟨short, wire⟩).2.wire = wire ++ later.flatMap encode := by
  obtain ⟨rest, -, h⟩ := msgWrites_full hp later hm
  rw [h wire]

theorem emptyFrame_sendable (type : UInt8) : (emptyFrame type).Sendable :=
  ⟨by simp [emptyFrame], by simp [emptyFrame]⟩

/-- Failed sends leave the stream intact exactly when none of them has put a byte on the wire. -/
theorem stream_intact_iff (msgs : List TunnelMsg) (hsend : ∀ m ∈ msgs, m.Sendable)
    (htype : ∀ m ∈ msgs, m.header.type ≤ 7) (script : List IoResult) :
    StreamIntact msgs script ↔ FailsClean msgs script := by
  obtain ⟨statuses, rest, sent, hrun, -, hclean, hdirty⟩ := msgWrites_eq msgs hsend script []
  rw [List.nil_append] at hrun
  have hD : ∀ m ∈ delivered msgs statuses, m.Sendable ∧ m.header.type ≤ 7 := fun m hm =>
    ⟨hsend m (mem_of_mem_delivered hm), htype m (mem_of_mem_delivered hm)⟩
  constructor
  · intro h
    by_contra hfail
    have hlt := hdirty hfail
    -- What is on the wire starts with the delivered frames; the rest is garbage.
    have hpre : ∀ later, (∀ m ∈ later, m.Sendable ∧ m.header.type ≤ 7) →
        (delivered msgs statuses ++ later).flatMap encode <+: sent ++ later.flatMap encode := by
      intro later hlater
      have hdecodes := h statuses _ hrun later [] hlater (by simp [AllPositive])
      rw [later_wire (fun m hm => (hlater m hm).1) (by simp [AllPositive])] at hdecodes
      have hall : ∀ m ∈ delivered msgs statuses ++ later, m.Sendable ∧ m.header.type ≤ 7 := by
        intro m hm
        rcases List.mem_append.mp hm with hm | hm
        · exact hD m hm
        · exact hlater m hm
      exact (hdecodes [] (emptyFrame 0) (by simp [AllPositive])).leads (fun m hm => (hall m hm).1)
        (fun m hm => (hall m hm).2) (by simp [AllPositive])
    obtain ⟨garbage, hsent⟩ := hpre [] (by simp)
    simp only [List.append_nil, List.flatMap_nil] at hsent
    have hgarbage : garbage = [] := by
      apply garbage_noticed
      intro type ht
      have hone := hpre [emptyFrame type] (by
        simp only [List.mem_singleton, forall_eq]
        exact ⟨emptyFrame_sendable type, UInt8.le_trans ht (by decide : (1 : UInt8) ≤ 7)⟩)
      rw [← hsent, List.flatMap_append, List.append_assoc,
        List.prefix_append_right_inj, List.flatMap_singleton] at hone
      exact hone
    rw [hgarbage, List.append_nil] at hsent
    rw [hsent] at hlt
    exact lt_irrefl _ hlt
  · intro h statuses' fd hrun' later short hlater hshort
    rw [hrun] at hrun'
    simp only [Prod.mk.injEq] at hrun'
    obtain ⟨rfl, rfl⟩ := hrun'
    rw [later_wire (fun m hm => (hlater m hm).1) hshort, hclean h, ← List.flatMap_append]
    apply decodes_frames
    · intro m hm
      rcases List.mem_append.mp hm with hm | hm
      · exact (hD m hm).1
      · exact (hlater m hm).1
    · intro m hm
      rcases List.mem_append.mp hm with hm | hm
      · exact (hD m hm).2
      · exact (hlater m hm).2

/-- A first call that is refused at once does not disturb what follows. -/
theorem stream_intact_iff_refused : StreamIntact [emptyFrame 6] [.error] := by
  have hrefused : transfersFields [.error] (frameSizes (emptyFrame 6)) = (0, []) := by
    have hstop : transfers [.error] 2 2 = (0, []) := transfers_stop (by decide) rfl
    simp [transfersFields, frameSizes, hstop]
  have hclean : FailsClean [emptyFrame 6] [.error] := ⟨Or.inl (by rw [hrefused]), trivial⟩
  exact (stream_intact_iff [emptyFrame 6] (by simpa using emptyFrame_sendable 6) (by decide)
    [.error]).mpr hclean

/-- An empty message is sent twice; the first time a single byte goes out before an error. -/
theorem stream_broken_by_one_byte : ∃ rest wire,
    msgWrites [emptyFrame 6, emptyFrame 6] ⟨[.count 1, .error], []⟩ =
      ([-1, 0], ⟨rest, wire⟩) ∧
    ¬ Decodes wire (delivered [emptyFrame 6, emptyFrame 6] [-1, 0]) := by
  have hcut : transfersFields [.count 1, .error] (frameSizes (emptyFrame 6)) = (1, []) := by
    have hone : transfers [.count 1, .error] 2 2 = (1, []) :=
      transfers_cut (by decide) (by decide) (by decide) (by decide) (by decide)
    simp [transfersFields, frameSizes, hone]
  have hfirst := msgWrite_eq (emptyFrame_sendable 6) [.count 1, .error] []
  rw [hcut, emptyFrame_bytes] at hfirst
  have hnone : AllPositive [] := by simp [AllPositive]
  obtain ⟨rest, -, hsecond⟩ := msgWrite_full hnone (emptyFrame_sendable 6)
  refine ⟨rest, [0x41] ++ encode (emptyFrame 6), ?_, ?_⟩
  · simp only [msgWrites, hfirst, hsecond]
    rfl
  · intro h
    have hread := h [] (emptyFrame 0) (by simp [AllPositive])
    have hone : delivered [emptyFrame 6, emptyFrame 6] [-1, 0] = [emptyFrame 6] := rfl
    rw [hone] at hread
    have hpre := hread.leads (by simpa using emptyFrame_sendable 6) (by decide)
      (by simp [AllPositive])
    simp [emptyFrame_bytes, List.cons_prefix_cons] at hpre

end TunnelFraming
