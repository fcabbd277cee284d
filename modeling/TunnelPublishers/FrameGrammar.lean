import TunnelPublishers.TunnelFraming

/-!
# The frames a reader accepts

The grammar of a frame is stated on bytes alone. A reader that meets no failure
accepts exactly this grammar; where read(2) may fail, it can also mistake a lost
size field for an empty payload.
-/
namespace TunnelFraming

open ByteOrder

/-- Magic, type, channel, client, payload size in network order, payload, magic. -/
def IsFrame (bytes : List UInt8) : Prop :=
  ∃ (type c₁ c₀ k₁ k₀ s₃ s₂ s₁ s₀ : UInt8) (payload : List UInt8),
    bytes = 0x41 :: 0x4e :: type :: c₁ :: c₀ :: k₁ :: k₀ :: s₃ :: s₂ :: s₁ :: s₀ ::
      (payload ++ [0x54, 0x44]) ∧ type ≤ 7 ∧
    payload.length = s₃.toNat * 2 ^ 24 + s₂.toNat * 2 ^ 16 + s₁.toNat * 2 ^ 8 + s₀.toNat

theorem two_bytes {bs : List UInt8} (h : bs.length = 2) : ∃ b₁ b₀, bs = [b₁, b₀] :=
  List.length_eq_two.mp h

theorem four_bytes {bs : List UInt8} (h : bs.length = 4) :
    ∃ b₃ b₂ b₁ b₀, bs = [b₃, b₂, b₁, b₀] := by
  match bs, h with
  | [b₃, b₂, b₁, b₀], _ => exact ⟨b₃, b₂, b₁, b₀, rfl⟩

theorem encode_isFrame {m : TunnelMsg} (ht : m.header.type ≤ 7)
    (hp : m.payload.length = m.header.size.toNat) : IsFrame (encode m) := by
  obtain ⟨c₁, c₀, hc⟩ := two_bytes (be16_length m.header.channelId)
  obtain ⟨k₁, k₀, hk⟩ := two_bytes (be16_length m.header.clientId)
  obtain ⟨s₃, s₂, s₁, s₀, hs⟩ := four_bytes (be32_length m.header.size)
  refine ⟨m.header.type, c₁, c₀, k₁, k₀, s₃, s₂, s₁, s₀, m.payload, ?_, ht, ?_⟩
  · have hbegin : be16 MSG_MAGIC_BEGIN = [0x41, 0x4e] := rfl
    have hend : be16 MSG_MAGIC_END = [0x54, 0x44] := rfl
    simp only [encode, hbegin, hc, hk, hs, hend, List.cons_append, List.nil_append]
  · rw [← ntohl_word32_toNat, ← hs, ntohl_word32_be32, hp]

theorem encode_bytes {type c₁ c₀ k₁ k₀ s₃ s₂ s₁ s₀ : UInt8} {payload : List UInt8}
    (hl : payload.length = (ntohl (word32 [s₃, s₂, s₁, s₀])).toNat) :
    encode (frame type (ntohs (word16 [c₁, c₀])) (ntohs (word16 [k₁, k₀])) payload) =
      0x41 :: 0x4e :: type :: c₁ :: c₀ :: k₁ :: k₀ :: s₃ :: s₂ :: s₁ :: s₀ ::
        (payload ++ [0x54, 0x44]) := by
  have hbegin : be16 MSG_MAGIC_BEGIN = [0x41, 0x4e] := rfl
  have hend : be16 MSG_MAGIC_END = [0x54, 0x44] := rfl
  have hsmall : payload.length < 2 ^ 32 := hl ▸ UInt32.toNat_lt _
  have hsize : UInt32.ofNat payload.length = ntohl (word32 [s₃, s₂, s₁, s₀]) := by
    rw [hl, UInt32.ofNat_toNat]
  rw [encode, frame_payload hsmall, hbegin, hend]
  simp only [frame, hsize, @be16_ntohs_word16 [c₁, c₀] rfl,
    @be16_ntohs_word16 [k₁, k₀] rfl, @be32_ntohl_word32 [s₃, s₂, s₁, s₀] rfl,
    List.cons_append, List.nil_append]

/-- Every frame is the frame of a message a reader can hold. -/
theorem isFrame_iff (bytes : List UInt8) :
    IsFrame bytes ↔ ∃ m : TunnelMsg, m.Received ∧ encode m = bytes := by
  constructor
  · rintro ⟨type, c₁, c₀, k₁, k₀, s₃, s₂, s₁, s₀, payload, rfl, ht, hl⟩
    rw [← ntohl_word32_toNat] at hl
    exact ⟨_, frame_received ht (hl ▸ UInt32.toNat_lt _), encode_bytes hl⟩
  · rintro ⟨m, hm, rfl⟩
    have hp : m.payload.length = m.header.size.toNat := by rw [hm.payload_eq, hm.block]
    exact encode_isFrame hm.type hp

/-- Where one frame ends is decided by the frame alone. -/
theorem encode_append_inj {m m' : TunnelMsg} {rest rest' : List UInt8}
    (hm : m.payload.length = m.header.size.toNat) (hm' : m'.payload.length = m'.header.size.toNat)
    (h : encode m ++ rest = encode m' ++ rest') :
    m.header = m'.header ∧ m.payload = m'.payload ∧ rest = rest' := by
  simp only [encode, List.append_assoc] at h
  obtain ⟨-, h⟩ := List.append_inj h rfl
  obtain ⟨htype, h⟩ := List.append_inj h rfl
  obtain ⟨hchannel, h⟩ := List.append_inj h (by simp)
  obtain ⟨hclient, h⟩ := List.append_inj h (by simp)
  obtain ⟨hsize, h⟩ := List.append_inj h (by simp)
  have hsize := be32_injective hsize
  obtain ⟨hpayload, h⟩ := List.append_inj h (by rw [hm, hm', hsize])
  obtain ⟨-, h⟩ := List.append_inj h rfl
  refine ⟨?_, hpayload, h⟩
  have hchannel := be16_injective hchannel
  have hclient := be16_injective hclient
  rw [List.singleton_inj] at htype
  rw [TunnelMsgH.mk.injEq]
  exact ⟨htype, hchannel, hclient, hsize⟩

/-- Nor do two received messages begin the same bytes. -/
theorem encode_received_inj {m m' : TunnelMsg} {rest rest' : List UInt8} (hm : m.Received)
    (hm' : m'.Received) (h : encode m ++ rest = encode m' ++ rest') : m = m' ∧ rest = rest' := by
  have hl : m.payload.length = m.header.size.toNat := by rw [hm.payload_eq, hm.block]
  have hl' : m'.payload.length = m'.header.size.toNat := by rw [hm'.payload_eq, hm'.block]
  obtain ⟨hheader, hpayload, hrest⟩ := encode_append_inj hl hl' h
  refine ⟨?_, hrest⟩
  rw [hm.eq_frame, hm'.eq_frame, hheader, hpayload]

/-! ### What one accepted call consumed -/

/-- A guarded read that did not fail filled the field from the stream. -/
theorem guardRead_filled {fd fd' : ReadEnd} {buffer mem : List UInt8} {size : ℕ} {st : ℤ}
    (hsize : size < 2 ^ 32) (hb : buffer.length ≤ size)
    (h : guardRead fd buffer size = (st, mem, fd')) (hst : st ≠ -1) :
    st = cInt size ∧ mem.length = size ∧ fd.stream = mem ++ fd'.stream := by
  obtain ⟨script, stream⟩ := fd
  rw [guardRead_eq hsize] at h
  simp only [Prod.mk.injEq] at h
  obtain ⟨rfl, rfl, rfl⟩ := h
  split at hst
  · next hfull =>
    have hlen := (length_take_transfers script stream size).trans hfull
    rw [memcpyAt_zero, hlen, List.drop_eq_nil_of_le hb, List.append_nil]
    exact ⟨if_pos hfull, hlen, by simp⟩
  · exact absurd rfl hst

/-- A field of at most four bytes is filled by the whole count. -/
theorem guardRead_field {fd fd' : ReadEnd} {buffer mem : List UInt8} {size : ℕ} {st : ℤ}
    (hsize : size < 2 ^ 31) (hb : buffer.length ≤ size)
    (h : guardRead fd buffer size = (st, mem, fd')) (hst : st ≠ -1) :
    guardRead fd buffer size = ((size : ℤ), mem, fd') ∧ mem.length = size := by
  obtain ⟨hcount, hlen, -⟩ := guardRead_filled (by omega) hb h hst
  rw [cInt_of_bounds (by omega) (by omega)] at hcount
  exact ⟨hcount ▸ h, hlen⟩

/-- Every early return answers -1, so a call that returns 0 passed all the checks. -/
theorem of_early_return {α : Type} {failed : Prop} [Decidable failed] {a b : α} {rest : ℤ × α}
    (h : (if failed then (-1, a) else rest) = (0, b)) : ¬ failed ∧ rest = (0, b) := by
  by_cases hfailed : failed
  · rw [if_pos hfailed] at h
    cases h
  · rw [if_neg hfailed] at h
    exact ⟨hfailed, h⟩

theorem msgCheckNumber_eq_zero_iff {fd fd' : ReadEnd} {number : UInt16} :
    msgCheckNumber fd number = (0, fd') ↔ guardRead fd [] 2 = (2, be16 number, fd') := by
  constructor
  · intro h
    match hr : guardRead fd [] 2 with
    | (st, value, fd₁) =>
      simp only [msgCheckNumber, hr] at h
      obtain ⟨hst, h⟩ := of_early_return h
      obtain ⟨hvalue, h⟩ := of_early_return h
      obtain ⟨hr', hlen⟩ := guardRead_field (by omega) (by simp) hr hst
      simp only [ne_eq, not_not] at hvalue
      simp only [Prod.mk.injEq, true_and] at h
      rw [← hr, hr', hvalue, be16_ntohs_word16 hlen, h]
      rfl
  · intro h
    simp [msgCheckNumber, h]

/-- How the reader came past the payload: an empty one, a block read to its last byte, or a
size field that was lost while the caller's struct read zero. -/
inductive PayloadPassed (fd : ReadEnd) (prev : UInt32) :
    Option (List UInt8) → UInt32 → ReadEnd → Prop where
  | empty {fd' : ReadEnd} (field : guardRead fd (mem32 prev) 4 = (4, be32 0, fd')) :
    PayloadPassed fd prev none 0 fd'
  | block {size : UInt32} {after fd' : ReadEnd} {block : List UInt8}
    (field : guardRead fd (mem32 prev) 4 = (4, be32 size, after)) (nonempty : size ≠ 0)
    (read : guardRead after [] size.toNat = (cInt size.toNat, block, fd'))
    (passed : cInt size.toNat ≠ -1) : PayloadPassed fd prev (some block) size fd'
  | lost {mem : List UInt8} {fd' : ReadEnd}
    (field : guardRead fd (mem32 prev) 4 = (-1, mem, fd')) (zero : word32 mem = 0) :
    PayloadPassed fd prev none 0 fd'

theorem msgReadPayload_passed_iff {fd fd' : ReadEnd} {prev size : UInt32}
    {data : Option (List UInt8)} :
    (msgReadPayload fd prev = (data, size, fd') ∧ ¬ (data = none ∧ size ≠ 0)) ↔
      PayloadPassed fd prev data size fd' := by
  constructor
  · rintro ⟨h, hpass⟩
    match hr : guardRead fd (mem32 prev) 4 with
    | (st, mem, after) =>
      simp only [msgReadPayload, hr] at h
      split at h
      · next hst =>
        simp only [Prod.mk.injEq] at h
        obtain ⟨rfl, rfl, rfl⟩ := h
        simp only [ne_eq, true_and, not_not] at hpass
        rw [hpass]
        exact .lost (hst ▸ hr) hpass
      · next hst =>
        obtain ⟨hfield, hlen⟩ := guardRead_field (by omega) (by simp) hr hst
        rw [← be32_ntohl_word32 hlen] at hfield
        split at h
        · next hz =>
          simp only [Prod.mk.injEq] at h
          obtain ⟨rfl, rfl, rfl⟩ := h
          rw [hz] at hfield ⊢
          exact .empty hfield
        · next hz =>
          match hd : guardRead after [] (ntohl (word32 mem)).toNat with
          | (st, block, last) =>
            simp only [hd] at h
            split at h
            · simp only [Prod.mk.injEq] at h
              obtain ⟨rfl, rfl, rfl⟩ := h
              exact absurd ⟨rfl, hz⟩ hpass
            · next hst' =>
              simp only [Prod.mk.injEq] at h
              obtain ⟨rfl, rfl, rfl⟩ := h
              obtain ⟨hcount, -, -⟩ := guardRead_filled (UInt32.toNat_lt _) (by simp) hd hst'
              exact .block hfield hz (hcount ▸ hd) (hcount ▸ hst')
  · intro h
    cases h with
    | empty field => simp [msgReadPayload, field]
    | block field nonempty read passed => simp [msgReadPayload, field, nonempty, read, passed]
    | lost field zero => simp [msgReadPayload, field, zero]

/-- The four guarded reads before the payload, each of them full. -/
structure HeaderPassed (fd : ReadEnd) (prev header : TunnelMsgH) (fd' : ReadEnd) : Prop where
  reads : ∃ fd₁ fd₂ fd₃,
    guardRead fd [] 2 = (2, be16 MSG_MAGIC_BEGIN, fd₁) ∧
    guardRead fd₁ [prev.type] 1 = (1, [header.type], fd₂) ∧
    guardRead fd₂ (mem16 prev.channelId) 2 = (2, be16 header.channelId, fd₃) ∧
    guardRead fd₃ (mem16 prev.clientId) 2 = (2, be16 header.clientId, fd')
  known : header.type ≤ 7

theorem msgCheckNumber_failed {fd fd' : ReadEnd} {number : UInt16} {st : ℤ}
    (h : msgCheckNumber fd number = (st, fd')) (hst : st ≠ -1) : st = 0 := by
  unfold msgCheckNumber at h
  split at h
  split at h
  · simp_all
  · split at h
    · simp_all
    · simp_all

/-- A call returns 0 when the header, the payload and the end magic passed, and only then. -/
theorem msgRead_eq_zero_iff {fd fd' : ReadEnd} {prev m : TunnelMsg} :
    msgRead fd prev = (0, m, fd') ↔ ∃ fd₄ fd₅, HeaderPassed fd prev.header m.header fd₄ ∧
      PayloadPassed fd₄ prev.header.size m.data m.header.size fd₅ ∧
      guardRead fd₅ [] 2 = (2, be16 MSG_MAGIC_END, fd') := by
  constructor
  · intro h
    match h₁ : msgCheckNumber fd MSG_MAGIC_BEGIN with
    | (st₁, fd₁) =>
    match h₂ : guardRead fd₁ [prev.header.type] 1 with
    | (st₂, mem₂, fd₂) =>
    match h₃ : guardRead fd₂ (mem16 prev.header.channelId) 2 with
    | (st₃, mem₃, fd₃) =>
    match h₄ : guardRead fd₃ (mem16 prev.header.clientId) 2 with
    | (st₄, mem₄, fd₄) =>
    match h₅ : msgReadPayload fd₄ prev.header.size with
    | (data, size, fd₅) =>
    match h₆ : msgCheckNumber fd₅ MSG_MAGIC_END with
    | (st₆, fd₆) =>
    simp only [msgRead, h₁, h₂, h₃, h₄, h₅, h₆] at h
    obtain ⟨hst₁, h⟩ := of_early_return h
    obtain ⟨hst₂, h⟩ := of_early_return h
    obtain ⟨hknown, h⟩ := of_early_return h
    obtain ⟨hst₃, h⟩ := of_early_return h
    obtain ⟨hst₄, h⟩ := of_early_return h
    obtain ⟨hpass, h⟩ := of_early_return h
    obtain ⟨hst₆, h⟩ := of_early_return h
    simp only [Prod.mk.injEq, true_and] at h
    obtain ⟨rfl, rfl⟩ := h
    rw [msgCheckNumber_failed h₁ hst₁] at h₁
    rw [msgCheckNumber_failed h₆ hst₆] at h₆
    obtain ⟨f₂, l₂⟩ := guardRead_field (by omega) (by simp) h₂ hst₂
    obtain ⟨f₃, l₃⟩ := guardRead_field (by omega) (by simp) h₃ hst₃
    obtain ⟨f₄, l₄⟩ := guardRead_field (by omega) (by simp) h₄ hst₄
    obtain ⟨type, rfl⟩ := List.length_eq_one_iff.mp l₂
    refine ⟨fd₄, fd₅, ⟨⟨fd₁, fd₂, fd₃, ?_, f₂, ?_, ?_⟩, ?_⟩, ?_, ?_⟩
    · exact msgCheckNumber_eq_zero_iff.mp h₁
    · rw [f₃, be16_ntohs_word16 l₃]
      rfl
    · rw [f₄, be16_ntohs_word16 l₄]
      rfl
    · exact UInt8.not_lt.mp hknown
    · exact msgReadPayload_passed_iff.mp ⟨h₅, hpass⟩
    · exact msgCheckNumber_eq_zero_iff.mp h₆
  · rintro ⟨fd₄, fd₅, ⟨⟨fd₁, fd₂, fd₃, h₁, h₂, h₃, h₄⟩, hknown⟩, hpayload, h₆⟩
    obtain ⟨h₅, hpass⟩ := msgReadPayload_passed_iff.mpr hpayload
    have h₁ := msgCheckNumber_eq_zero_iff.mpr h₁
    have h₆ := msgCheckNumber_eq_zero_iff.mpr h₆
    have hknown : ¬ 7 < m.header.type := UInt8.not_lt.mpr hknown
    simp [msgRead, h₁, h₂, h₃, h₄, h₅, h₆, hknown, hpass]

theorem msgRead_result (fd : ReadEnd) (prev : TunnelMsg) :
    (msgRead fd prev).1 = 0 ∨ (msgRead fd prev).1 = -1 := by
  fun_cases msgRead fd prev <;> simp_all

theorem HeaderPassed.stream {fd fd' : ReadEnd} {prev header : TunnelMsgH}
    (h : HeaderPassed fd prev header fd') :
    fd.stream = be16 MSG_MAGIC_BEGIN ++ ([header.type] ++ (be16 header.channelId ++
      (be16 header.clientId ++ fd'.stream))) := by
  obtain ⟨⟨fd₁, fd₂, fd₃, h₁, h₂, h₃, h₄⟩, -⟩ := h
  obtain ⟨-, -, s₁⟩ := guardRead_filled (by omega) (by simp) h₁ (count_ne_failure 2)
  obtain ⟨-, -, s₂⟩ := guardRead_filled (by omega) (by simp) h₂ (count_ne_failure 1)
  obtain ⟨-, -, s₃⟩ := guardRead_filled (by omega) (by simp) h₃ (count_ne_failure 2)
  obtain ⟨-, -, s₄⟩ := guardRead_filled (by omega) (by simp) h₄ (count_ne_failure 2)
  rw [s₁, s₂, s₃, s₄]

theorem PayloadPassed.cases {fd fd' : ReadEnd} {prev size : UInt32} {data : Option (List UInt8)}
    (h : PayloadPassed fd prev data size fd') :
    (fd.stream = be32 size ++ (data.getD [] ++ fd'.stream) ∧
      (data.getD []).length = size.toNat ∧ (data = none ↔ size = 0)) ∨
    ∃ mem, guardRead fd (mem32 prev) 4 = (-1, mem, fd') ∧ word32 mem = 0 := by
  cases h with
  | empty field =>
    obtain ⟨-, -, hstream⟩ := guardRead_filled (by omega) (by simp) field (count_ne_failure 4)
    exact Or.inl ⟨hstream, rfl, by simp⟩
  | block field nonempty read passed =>
    obtain ⟨-, -, hfield⟩ := guardRead_filled (by omega) (by simp) field (count_ne_failure 4)
    obtain ⟨-, hlen, hread⟩ := guardRead_filled (UInt32.toNat_lt _) (by simp) read passed
    refine Or.inl ⟨?_, hlen, by simp [nonempty]⟩
    rw [hfield, hread, Option.getD_some]
  | lost field zero => exact Or.inr ⟨_, field, zero⟩

/-- A call that returns 0 consumed the frame of the message it reports, or lost the size field. -/
theorem msgRead_zero_cases {fd fd' : ReadEnd} {prev m : TunnelMsg}
    (h : msgRead fd prev = (0, m, fd')) :
    (m.Received ∧ fd.stream = encode m ++ fd'.stream) ∨
    ∃ fd₄ fd₅ mem, HeaderPassed fd prev.header m.header fd₄ ∧
      guardRead fd₄ (mem32 prev.header.size) 4 = (-1, mem, fd₅) ∧ word32 mem = 0 ∧
      guardRead fd₅ [] 2 = (2, be16 MSG_MAGIC_END, fd') := by
  obtain ⟨fd₄, fd₅, hheader, hpayload, hend⟩ := msgRead_eq_zero_iff.mp h
  rcases hpayload.cases with ⟨hstream, hblock, hnull⟩ | ⟨mem, hfield, hzero⟩
  · have hm : m.Received := ⟨hheader.known, hblock, hnull⟩
    obtain ⟨-, -, hlast⟩ := guardRead_filled (by omega) (by simp) hend (count_ne_failure 2)
    refine Or.inl ⟨hm, ?_⟩
    rw [hheader.stream, hstream, hlast, ← hm.payload_eq]
    simp only [encode, List.append_assoc]
  · exact Or.inr ⟨fd₄, fd₅, mem, hheader, hfield, hzero, hend⟩

/-! ### Reading without failures -/

/-- A positive script stays one over a filled field, and a field fails only at end of file. -/
theorem guardRead_positive {fd fd' : ReadEnd} {buffer mem : List UInt8} {size : ℕ} {st : ℤ}
    (hsize : size < 2 ^ 31) (hp : AllPositive fd.script)
    (h : guardRead fd buffer size = (st, mem, fd')) :
    (st ≠ -1 → AllPositive fd'.script) ∧ (st = -1 → fd'.stream = []) := by
  obtain ⟨script, stream⟩ := fd
  obtain ⟨rest, hall, hrest⟩ := transfers_positive hp stream.length hsize
  rw [guardRead_eq (by omega), hall] at h
  simp only [Prod.mk.injEq] at h
  obtain ⟨rfl, -, rfl⟩ := h
  split
  · next hfull => exact ⟨fun _ => hrest (by omega), fun hst => by
      rw [cInt_of_bounds (by omega) (by omega)] at hst
      omega⟩
  · next hshort =>
    refine ⟨fun hst => absurd rfl hst, fun _ => ?_⟩
    apply List.drop_eq_nil_of_le
    omega

theorem HeaderPassed.positive {fd fd' : ReadEnd} {prev header : TunnelMsgH}
    (h : HeaderPassed fd prev header fd') (hp : AllPositive fd.script) :
    AllPositive fd'.script := by
  obtain ⟨⟨fd₁, fd₂, fd₃, h₁, h₂, h₃, h₄⟩, -⟩ := h
  have p₁ := (guardRead_positive (by omega) hp h₁).1 (count_ne_failure 2)
  have p₂ := (guardRead_positive (by omega) p₁ h₂).1 (count_ne_failure 1)
  have p₃ := (guardRead_positive (by omega) p₂ h₃).1 (count_ne_failure 2)
  exact (guardRead_positive (by omega) p₃ h₄).1 (count_ne_failure 2)

/-- At end of file the magic that closes a frame is missing, so no size field gets lost. -/
theorem msgRead_positive {fd fd' : ReadEnd} {prev m : TunnelMsg} (hp : AllPositive fd.script)
    (h : msgRead fd prev = (0, m, fd')) : m.Received ∧ fd.stream = encode m ++ fd'.stream := by
  rcases msgRead_zero_cases h with hwhole | ⟨fd₄, fd₅, mem, hheader, hfield, -, hend⟩
  · exact hwhole
  · have hempty := (guardRead_positive (by omega) (hheader.positive hp) hfield).2 rfl
    obtain ⟨-, -, hlast⟩ := guardRead_filled (by omega) (by simp) hend (count_ne_failure 2)
    have hlen := congrArg List.length hlast
    simp only [hempty, List.length_nil, List.length_append, be16_length] at hlen
    omega

theorem IsFrame.prefix_eq {bytes bytes' : List UInt8} (h : IsFrame bytes) (h' : IsFrame bytes')
    (hp : bytes <+: bytes') : bytes = bytes' := by
  obtain ⟨m, hm, rfl⟩ := (isFrame_iff bytes).mp h
  obtain ⟨m', hm', rfl⟩ := (isFrame_iff bytes').mp h'
  obtain ⟨rest, hrest⟩ := hp
  obtain ⟨-, hnil⟩ := encode_received_inj hm hm' (hrest.trans (List.append_nil _).symm)
  rw [← hrest, hnil, List.append_nil]

theorem size_field_leads {m : TunnelMsg} {stream : List UInt8} (h : encode m <+: stream) :
    be32 m.header.size <+: stream.drop 7 := by
  obtain ⟨rest, rfl⟩ := h
  obtain ⟨c₁, c₀, hc⟩ := two_bytes (be16_length m.header.channelId)
  obtain ⟨k₁, k₀, hk⟩ := two_bytes (be16_length m.header.clientId)
  refine ⟨m.payload ++ be16 MSG_MAGIC_END ++ rest, ?_⟩
  have hbegin : be16 MSG_MAGIC_BEGIN = [0x41, 0x4e] := rfl
  simp [encode, hc, hk, hbegin]

/-- A reader that meets no failure accepts the grammar and nothing else, consumes the frame it
reports, and takes nothing for a frame that was cut off. -/
theorem msgRead_accepts_frames {cuts : List IoResult} (hcuts : AllPositive cuts)
    {stream : List UInt8} (hsize : ∀ size, be32 size <+: stream.drop 7 → size.toNat < 2 ^ 31)
    (prev : TunnelMsg) :
    ((msgRead ⟨cuts, stream⟩ prev).1 = 0 ↔ ∃ bytes, IsFrame bytes ∧ bytes <+: stream) ∧
    (∀ m fd, msgRead ⟨cuts, stream⟩ prev = (0, m, fd) →
      ∃ bytes, IsFrame bytes ∧ stream = bytes ++ fd.stream ∧
        ∀ short, AllPositive short → ∃ rest, ∀ wire,
          msgWrite ⟨short, wire⟩ m = (0, ⟨rest, wire ++ bytes⟩)) ∧
    (∀ bytes, IsFrame bytes → stream <+: bytes → stream ≠ bytes →
      (msgRead ⟨cuts, stream⟩ prev).1 = -1) := by
  have hconsumed : ∀ m fd, msgRead ⟨cuts, stream⟩ prev = (0, m, fd) →
      m.Received ∧ stream = encode m ++ fd.stream := fun m fd h => msgRead_positive hcuts h
  have hframe : (msgRead ⟨cuts, stream⟩ prev).1 = 0 →
      ∃ bytes, IsFrame bytes ∧ bytes <+: stream := by
    intro h
    obtain ⟨hm, hstream⟩ := hconsumed _ _ (Prod.ext h rfl)
    exact ⟨_, (isFrame_iff _).mpr ⟨_, hm, rfl⟩, ⟨_, hstream.symm⟩⟩
  refine ⟨⟨hframe, ?_⟩, ?_, ?_⟩
  · rintro ⟨bytes, hbytes, hpre⟩
    obtain ⟨m, hm, rfl⟩ := (isFrame_iff bytes).mp hbytes
    have hsend : m.Sendable := ⟨hsize _ (size_field_leads hpre), hm.block.ge⟩
    obtain ⟨rest, -, hread⟩ := msgRead_full hcuts hsend hm.type prev
    obtain ⟨following, rfl⟩ := hpre
    rw [hread following]
  · intro m fd h
    obtain ⟨hm, hstream⟩ := hconsumed m fd h
    refine ⟨encode m, (isFrame_iff _).mpr ⟨m, hm, rfl⟩, hstream, ?_⟩
    intro short hshort
    have hpre : encode m <+: stream := ⟨fd.stream, hstream.symm⟩
    have hsend : m.Sendable := ⟨hsize _ (size_field_leads hpre), hm.block.ge⟩
    obtain ⟨rest, -, hwrite⟩ := msgWrite_full hshort hsend
    exact ⟨rest, hwrite⟩
  · intro bytes hbytes hpre hne
    rcases msgRead_result ⟨cuts, stream⟩ prev with h | h
    · obtain ⟨consumed, hc, hcp⟩ := hframe h
      have heq := hc.prefix_eq hbytes (hcp.trans hpre)
      exact absurd (hpre.eq_of_length_le (heq ▸ hcp.length_le)) hne
    · exact h

/-- A frame of one byte of payload behind a stale struct, followed by the start of the next. -/
theorem msgRead_accepts_frames_one_byte :
    (msgRead ⟨[.count 1, .count 5],
      [0x41, 0x4e, 6, 0, 1, 0, 2, 0, 0, 0, 1, 7, 0x54, 0x44, 0x41]⟩
      ⟨⟨3, 9, 9, 9⟩, none⟩).1 = 0 := by
  have hsize : ∀ size, be32 size <+: List.drop 7
      [0x41, 0x4e, 6, 0, 1, 0, 2, 0, 0, 0, 1, 7, 0x54, 0x44, 0x41] → size.toNat < 2 ^ 31 := by
    intro size h
    have hbytes := List.prefix_iff_eq_take.mp h
    rw [be32_length] at hbytes
    have hone : be32 size = be32 1 := hbytes.trans (by decide)
    rw [be32_injective hone]
    decide
  have hcuts : AllPositive [.count 1, .count 5] := by decide
  exact (msgRead_accepts_frames hcuts hsize ⟨⟨3, 9, 9, 9⟩, none⟩).1.mpr
    ⟨[0x41, 0x4e, 6, 0, 1, 0, 2, 0, 0, 0, 1, 7, 0x54, 0x44],
      ⟨6, 0, 1, 0, 2, 0, 0, 0, 1, [7], rfl, by decide, by decide⟩, by decide⟩

/-! ### Reading with failures -/

/-- One guarded read of a call: what it was asked for and what it returned. -/
structure GuardedRead where
  asked : ℕ
  returned : ℤ
  deriving DecidableEq, Repr

def GuardedRead.Full (r : GuardedRead) : Prop := r.returned ≠ -1 ∧ r.returned = cInt r.asked

def msgCheckNumberReads (fd : ReadEnd) (number : UInt16) : List GuardedRead × ℤ × ReadEnd :=
  let (st, value, fd) := guardRead fd [] 2
  if st = -1 then ([⟨2, st⟩], -1, fd)
  else if number ≠ ntohs (word16 value) then ([⟨2, st⟩], -1, fd)
  else ([⟨2, st⟩], 0, fd)

def msgReadPayloadReads (fd : ReadEnd) (size : UInt32) :
    List GuardedRead × Option (List UInt8) × UInt32 × ReadEnd :=
  let (st, mem, fd) := guardRead fd (mem32 size) 4
  if st = -1 then ([⟨4, st⟩], none, word32 mem, fd)
  else
    let size := ntohl (word32 mem)
    if size = 0 then ([⟨4, st⟩], none, size, fd)
    else
      let (st', data, fd) := guardRead fd [] size.toNat
      if st' = -1 then ([⟨4, st⟩, ⟨size.toNat, st'⟩], none, size, fd)
      else ([⟨4, st⟩, ⟨size.toNat, st'⟩], some data, size, fd)

/-- `msgRead` with the guarded reads it makes, in order. -/
def msgReadReads (fd : ReadEnd) (msg : TunnelMsg) :
    List GuardedRead × ℤ × TunnelMsg × ReadEnd :=
  let (magic, st, fd) := msgCheckNumberReads fd MSG_MAGIC_BEGIN
  if st = -1 then (magic, -1, msg, fd)
  else
    let (st, mem, fd) := guardRead fd [msg.header.type] 1
    let reads := magic ++ [⟨1, st⟩]
    let msg := { msg with header.type := mem.headD 0 }
    if st = -1 then (reads, -1, msg, fd)
    else if 0x7 < msg.header.type then (reads, -1, msg, fd)
    else
      let (st, mem, fd) := guardRead fd (mem16 msg.header.channelId) 2
      let reads := reads ++ [⟨2, st⟩]
      if st = -1 then (reads, -1, { msg with header.channelId := word16 mem }, fd)
      else
        let msg := { msg with header.channelId := ntohs (word16 mem) }
        let (st, mem, fd) := guardRead fd (mem16 msg.header.clientId) 2
        let reads := reads ++ [⟨2, st⟩]
        if st = -1 then (reads, -1, { msg with header.clientId := word16 mem }, fd)
        else
          let msg := { msg with header.clientId := ntohs (word16 mem) }
          let (payload, data, size, fd) := msgReadPayloadReads fd msg.header.size
          let reads := reads ++ payload
          let msg : TunnelMsg := ⟨{ msg.header with size := size }, data⟩
          if msg.data = none ∧ msg.header.size ≠ 0 then (reads, -1, msg, fd)
          else
            let (magic, st, fd) := msgCheckNumberReads fd MSG_MAGIC_END
            let reads := reads ++ magic
            if st = -1 then (reads, -1, msg, fd) else (reads, 0, msg, fd)

theorem msgCheckNumberReads_result (fd : ReadEnd) (number : UInt16) :
    (msgCheckNumberReads fd number).2 = msgCheckNumber fd number := by
  fun_cases msgCheckNumber fd number <;> simp_all [msgCheckNumberReads]

theorem msgReadPayloadReads_result (fd : ReadEnd) (size : UInt32) :
    (msgReadPayloadReads fd size).2 = msgReadPayload fd size := by
  match h₁ : guardRead fd (mem32 size) 4 with
  | (st₁, mem, fd₁) =>
  match h₂ : guardRead fd₁ [] (ntohl (word32 mem)).toNat with
  | (st₂, data, fd₂) =>
  simp only [msgReadPayloadReads, msgReadPayload, h₁, h₂, apply_ite Prod.snd]

/-- The log does not change what the call does. -/
theorem msgReadReads_result (fd : ReadEnd) (msg : TunnelMsg) :
    (msgReadReads fd msg).2 = msgRead fd msg := by
  match r₁ : msgCheckNumberReads fd MSG_MAGIC_BEGIN with
  | (l₁, st₁, fd₁) =>
  match r₂ : guardRead fd₁ [msg.header.type] 1 with
  | (st₂, mem₂, fd₂) =>
  match r₃ : guardRead fd₂ (mem16 msg.header.channelId) 2 with
  | (st₃, mem₃, fd₃) =>
  match r₄ : guardRead fd₃ (mem16 msg.header.clientId) 2 with
  | (st₄, mem₄, fd₄) =>
  match r₅ : msgReadPayloadReads fd₄ msg.header.size with
  | (l₅, data, size, fd₅) =>
  match r₆ : msgCheckNumberReads fd₅ MSG_MAGIC_END with
  | (l₆, st₆, fd₆) =>
  have h₁ := msgCheckNumberReads_result fd MSG_MAGIC_BEGIN
  have h₅ := msgReadPayloadReads_result fd₄ msg.header.size
  have h₆ := msgCheckNumberReads_result fd₅ MSG_MAGIC_END
  rw [r₁] at h₁
  rw [r₅] at h₅
  rw [r₆] at h₆
  simp only [msgReadReads, msgRead, r₁, ← h₁, r₂, r₃, r₄, r₅, ← h₅, r₆, ← h₆, apply_ite Prod.snd]

/-- A call that returns 0 had nothing but full reads behind it, and the message it reports
is made of the bytes they took. -/
def NoHiddenFailure (fd : ReadEnd) (prev : TunnelMsg) : Prop :=
  ∀ m fd', msgRead fd prev = (0, m, fd') →
    (∀ r ∈ (msgReadReads fd prev).1, r.Full) ∧ fd.stream = encode m ++ fd'.stream

/-- Guarded reads of the sizes `asked`, one after another, get the counts `got`. -/
def Delivers : List IoResult → ℕ → List (ℕ × ℕ) → Prop
  | _, _, [] => True
  | script, available, (asked, got) :: fields =>
    (transfers script available asked).1 = got ∧
      Delivers (transfers script available asked).2 (available - got) fields

/-- The header of a frame arrives; the read of the size field fails behind `j` zero bytes, and
the caller's struct holds zeros in the bytes behind them; then the end magic arrives. -/
def SizeFieldLost (fd : ReadEnd) (prev : TunnelMsg) : Prop :=
  ∃ (type : UInt8) (channelId clientId : UInt16) (j : ℕ) (following : List UInt8),
    type ≤ 7 ∧ j < 4 ∧ prev.header.size.toNat < 256 ^ j ∧
    fd.stream = be16 MSG_MAGIC_BEGIN ++ ([type] ++ (be16 channelId ++ (be16 clientId ++
      (List.replicate j 0 ++ (be16 MSG_MAGIC_END ++ following))))) ∧
    Delivers fd.script fd.stream.length [(2, 2), (1, 1), (2, 2), (2, 2), (4, j), (2, 2)]

section

variable {fd fd' : ReadEnd} {buffer mem bytes rest : List UInt8} {size : ℕ} {st : ℤ}
  {fields : List (ℕ × ℕ)}

theorem delivers_full (fields : List (ℕ × ℕ)) (hsize : size < 2 ^ 31)
    (h : guardRead fd buffer size = (st, mem, fd')) (hst : st ≠ -1)
    (hrest : Delivers fd'.script fd'.stream.length fields) :
    Delivers fd.script fd.stream.length ((size, size) :: fields) := by
  obtain ⟨script, stream⟩ := fd
  rw [guardRead_eq (by omega)] at h
  simp only [Prod.mk.injEq] at h
  obtain ⟨rfl, -, rfl⟩ := h
  split at hst
  · next hfull =>
    refine ⟨hfull, ?_⟩
    simpa only [List.length_drop, hfull] using hrest
  · exact absurd rfl hst

theorem Delivers.full (hsize : size < 2 ^ 31) (buffer : List UInt8) (hb : buffer.length ≤ size)
    (h : Delivers fd.script fd.stream.length ((size, size) :: fields))
    (hstream : fd.stream = bytes ++ rest) (hl : bytes.length = size) :
    ∃ fd', guardRead fd buffer size = ((size : ℤ), bytes, fd') ∧ fd'.stream = rest ∧
      Delivers fd'.script fd'.stream.length fields := by
  obtain ⟨script, stream⟩ := fd
  obtain ⟨hfull, hrest⟩ := h
  simp only at hstream hfull hrest
  subst hl
  refine ⟨⟨(transfers script stream.length bytes.length).2, rest⟩, ?_, rfl, ?_⟩
  · rw [guardRead_eq (by omega)]
    simp only [hfull, ↓reduceIte, cInt_of_bounds (x := (bytes.length : ℤ)) (by omega) (by omega)]
    rw [memcpyAt_zero, hstream, List.take_left, List.drop_left, List.drop_eq_nil_of_le hb,
      List.append_nil]
  · have hlen : stream.length - bytes.length = rest.length := by
      rw [hstream, List.length_append, Nat.add_sub_cancel_left]
    rwa [hlen] at hrest

/-- A failed read leaves the bytes it stored over the start of the old ones. -/
theorem delivers_short (hsize : size < 2 ^ 31) (h : guardRead fd buffer size = (-1, mem, fd'))
    (hrest : Delivers fd'.script fd'.stream.length fields) :
    ∃ bytes, bytes.length < size ∧ fd.stream = bytes ++ fd'.stream ∧
      mem = bytes ++ buffer.drop bytes.length ∧
      Delivers fd.script fd.stream.length ((size, bytes.length) :: fields) := by
  obtain ⟨script, stream⟩ := fd
  have hle := transfers_le script stream.length size
  have hlen := length_take_transfers script stream size
  rw [guardRead_eq (by omega)] at h
  simp only [Prod.mk.injEq] at h
  obtain ⟨hst, rfl, rfl⟩ := h
  split at hst
  · rw [cInt_of_bounds (by omega) (by omega)] at hst
    omega
  · next hshort =>
    refine ⟨stream.take (transfers script stream.length size).1, by omega, by simp, ?_,
      hlen.symm, ?_⟩
    · rw [memcpyAt_zero]
    · rw [hlen]
      simpa only [List.length_drop] using hrest

theorem Delivers.short (hsize : size < 2 ^ 31) (buffer : List UInt8) (hl : bytes.length < size)
    (h : Delivers fd.script fd.stream.length ((size, bytes.length) :: fields))
    (hstream : fd.stream = bytes ++ rest) :
    ∃ fd', guardRead fd buffer size = (-1, bytes ++ buffer.drop bytes.length, fd') ∧
      fd'.stream = rest ∧ Delivers fd'.script fd'.stream.length fields := by
  obtain ⟨script, stream⟩ := fd
  obtain ⟨hshort, hrest⟩ := h
  simp only at hstream hshort hrest
  refine ⟨⟨(transfers script stream.length size).2, rest⟩, ?_, rfl, ?_⟩
  · rw [guardRead_eq (by omega)]
    simp only [hshort, hl.ne, ↓reduceIte]
    rw [memcpyAt_zero, hstream, List.take_left, List.drop_left]
  · have hlen : stream.length - bytes.length = rest.length := by
      rw [hstream, List.length_append, Nat.add_sub_cancel_left]
    rwa [hlen] at hrest

end

/-- The log of a call whose header and end magic passed. -/
theorem msgReadReads_passed {fd fd₄ fd₅ fd' : ReadEnd} {prev m : TunnelMsg}
    (hheader : HeaderPassed fd prev.header m.header fd₄)
    (hpayload : PayloadPassed fd₄ prev.header.size m.data m.header.size fd₅)
    (hend : guardRead fd₅ [] 2 = (2, be16 MSG_MAGIC_END, fd')) :
    (msgReadReads fd prev).1 = [⟨2, 2⟩, ⟨1, 1⟩, ⟨2, 2⟩, ⟨2, 2⟩] ++
      (msgReadPayloadReads fd₄ prev.header.size).1 ++ [⟨2, 2⟩] := by
  obtain ⟨⟨fd₁, fd₂, fd₃, h₁, h₂, h₃, h₄⟩, hknown⟩ := hheader
  obtain ⟨h₅, hpass⟩ := msgReadPayload_passed_iff.mpr hpayload
  have hknown : ¬ 7 < m.header.type := UInt8.not_lt.mpr hknown
  match r₅ : msgReadPayloadReads fd₄ prev.header.size with
  | (l₅, data, size, fd₆) =>
    have hresult := msgReadPayloadReads_result fd₄ prev.header.size
    rw [r₅, h₅] at hresult
    simp only [Prod.mk.injEq] at hresult
    obtain ⟨rfl, rfl, rfl⟩ := hresult
    simp [msgReadReads, msgCheckNumberReads, h₁, h₂, h₃, h₄, hknown, hpass, hend, r₅]

theorem guardedRead_counted {n : ℕ} (h : cInt n ≠ -1) : (⟨n, cInt n⟩ : GuardedRead).Full := by
  simpa only [GuardedRead.Full, ne_eq, and_true] using h

theorem guardedRead_full {n : ℕ} (hn : n < 2 ^ 31) : (⟨n, n⟩ : GuardedRead).Full :=
  ⟨count_ne_failure n, (cInt_of_bounds (x := (n : ℤ)) (by omega) (by omega)).symm⟩

theorem PayloadPassed.reads {fd fd' : ReadEnd} {prev size : UInt32}
    {data : Option (List UInt8)} (h : PayloadPassed fd prev data size fd') :
    (∀ r ∈ (msgReadPayloadReads fd prev).1, r.Full) ∨
      ∃ mem, guardRead fd (mem32 prev) 4 = (-1, mem, fd') ∧ word32 mem = 0 := by
  have hfour : (⟨4, 4⟩ : GuardedRead).Full := guardedRead_full (n := 4) (by omega)
  cases h with
  | empty field => exact Or.inl (by simpa [msgReadPayloadReads, field] using hfour)
  | block field nonempty read passed =>
    have hlog : (msgReadPayloadReads fd prev).1 =
        [⟨4, 4⟩, ⟨size.toNat, cInt size.toNat⟩] := by
      simp [msgReadPayloadReads, field, nonempty, read, passed]
    apply Or.inl
    rw [hlog]
    intro r hr
    simp only [List.mem_cons, List.not_mem_nil, or_false] at hr
    rcases hr with rfl | rfl
    · exact hfour
    · exact guardedRead_counted passed
  | lost field zero => exact Or.inr ⟨_, field, zero⟩

theorem sizeFieldLost_of_passed {fd fd₄ fd₅ fd' : ReadEnd} {prev : TunnelMsg}
    {header : TunnelMsgH} {mem : List UInt8} (hheader : HeaderPassed fd prev.header header fd₄)
    (hfield : guardRead fd₄ (mem32 prev.header.size) 4 = (-1, mem, fd₅)) (hzero : word32 mem = 0)
    (hend : guardRead fd₅ [] 2 = (2, be16 MSG_MAGIC_END, fd')) : SizeFieldLost fd prev := by
  have hstream := hheader.stream
  obtain ⟨⟨fd₁, fd₂, fd₃, h₁, h₂, h₃, h₄⟩, hknown⟩ := hheader
  obtain ⟨-, -, hlast⟩ := guardRead_filled (by omega) (by simp) hend (count_ne_failure 2)
  have d₆ := delivers_full [] (by omega) hend (count_ne_failure 2) trivial
  obtain ⟨bytes, hl, hbytes, rfl, d₅⟩ := delivers_short (by omega) hfield d₆
  have d₄ := delivers_full _ (by omega) h₄ (count_ne_failure 2) d₅
  have d₃ := delivers_full _ (by omega) h₃ (count_ne_failure 2) d₄
  have d₂ := delivers_full _ (by omega) h₂ (count_ne_failure 1) d₃
  have d₁ := delivers_full _ (by omega) h₁ (count_ne_failure 2) d₂
  obtain ⟨hzeros, hstale⟩ := (word32_overwritten_zero hl.le).mp hzero
  refine ⟨header.type, header.channelId, header.clientId, bytes.length, fd'.stream, hknown, hl,
    hstale, ?_, d₁⟩
  rw [hstream, hbytes, hlast, ← hzeros]

theorem SizeFieldLost.passed {fd : ReadEnd} {prev : TunnelMsg} (h : SizeFieldLost fd prev) :
    ∃ fd₄ fd₅ fd' header mem, header.size = 0 ∧ HeaderPassed fd prev.header header fd₄ ∧
      guardRead fd₄ (mem32 prev.header.size) 4 = (-1, mem, fd₅) ∧ word32 mem = 0 ∧
      guardRead fd₅ [] 2 = (2, be16 MSG_MAGIC_END, fd') := by
  obtain ⟨type, channelId, clientId, j, following, hknown, hj, hstale, hstream, d⟩ := h
  obtain ⟨fd₁, h₁, s₁, d⟩ := d.full (by omega) [] (by simp) hstream (be16_length _)
  obtain ⟨fd₂, h₂, s₂, d⟩ := d.full (by omega) [prev.header.type] (by simp) s₁ rfl
  obtain ⟨fd₃, h₃, s₃, d⟩ := d.full (by omega) (mem16 prev.header.channelId) (by simp)
    s₂ (be16_length _)
  obtain ⟨fd₄, h₄, s₄, d⟩ := d.full (by omega) (mem16 prev.header.clientId) (by simp)
    s₃ (be16_length _)
  have hl : (List.replicate j (0 : UInt8)).length = j := List.length_replicate
  rw [← hl] at hj hstale d
  obtain ⟨fd₅, h₅, s₅, d⟩ := d.short (by omega) (mem32 prev.header.size) hj s₄
  obtain ⟨fd', h₆, -, -⟩ := d.full (by omega) [] (by simp) s₅ (be16_length _)
  refine ⟨fd₄, fd₅, fd', ⟨type, channelId, clientId, 0⟩, _, rfl,
    ⟨⟨fd₁, fd₂, fd₃, h₁, h₂, h₃, h₄⟩, hknown⟩, h₅, ?_, h₆⟩
  rw [word32_overwritten_zero hj.le]
  exact ⟨by rw [hl], hstale⟩

theorem hidden_of_lost {fd : ReadEnd} {prev : TunnelMsg} (h : SizeFieldLost fd prev) :
    ¬ NoHiddenFailure fd prev := by
  obtain ⟨fd₄, fd₅, fd', header, mem, hsize, hheader, hfield, hzero, hend⟩ := h.passed
  obtain ⟨type, channelId, clientId, size⟩ := header
  obtain rfl : size = 0 := hsize
  have hpayload : PayloadPassed fd₄ prev.header.size none 0 fd₅ := .lost hfield hzero
  have hread : msgRead fd prev = (0, ⟨⟨type, channelId, clientId, 0⟩, none⟩, fd') :=
    msgRead_eq_zero_iff.mpr ⟨fd₄, fd₅, hheader, hpayload, hend⟩
  intro hall
  have hlog := msgReadReads_passed (m := ⟨⟨type, channelId, clientId, 0⟩, none⟩) hheader hpayload
    hend
  have hfailed : (msgReadPayloadReads fd₄ prev.header.size).1 = [⟨4, -1⟩] := by
    simp [msgReadPayloadReads, hfield]
  have hfull := (hall _ _ hread).1 ⟨4, -1⟩ (by simp [hlog, hfailed])
  exact hfull.1 rfl

theorem noHiddenFailure_of_not_lost {fd : ReadEnd} {prev : TunnelMsg}
    (h : ¬ SizeFieldLost fd prev) : NoHiddenFailure fd prev := by
  intro m fd' hread
  obtain ⟨fd₄, fd₅, hheader, hpayload, hend⟩ := msgRead_eq_zero_iff.mp hread
  rcases msgRead_zero_cases hread with ⟨-, hstream⟩ | ⟨_, _, mem, hh, hfield, hzero, hlast⟩
  · rcases hpayload.reads with hpay | ⟨mem, hfield, hzero⟩
    · have hone : (⟨1, 1⟩ : GuardedRead).Full := guardedRead_full (n := 1) (by omega)
      have htwo : (⟨2, 2⟩ : GuardedRead).Full := guardedRead_full (n := 2) (by omega)
      refine ⟨?_, hstream⟩
      rw [msgReadReads_passed hheader hpayload hend]
      intro r hr
      simp only [List.mem_append, List.mem_cons, List.not_mem_nil, or_false] at hr
      rcases hr with ((rfl | rfl | rfl | rfl) | hr) | rfl
      · exact htwo
      · exact hone
      · exact htwo
      · exact htwo
      · exact hpay r hr
      · exact htwo
    · exact absurd (sizeFieldLost_of_passed hheader hfield hzero hend) h
  · exact absurd (sizeFieldLost_of_passed hh hfield hzero hlast) h

/-- A stale size whose highest byte in memory is not zero never reads as an empty payload. -/
theorem not_lost_of_large {fd : ReadEnd} {prev : TunnelMsg}
    (h : 2 ^ 24 ≤ prev.header.size.toNat) : ¬ SizeFieldLost fd prev := by
  rintro ⟨type, channelId, clientId, j, following, -, hj, hstale, -⟩
  have hpow : 256 ^ j ≤ 256 ^ 3 := Nat.pow_le_pow_right (by omega) (by omega)
  omega

theorem moved_count {rest : List IoResult} {k available missing : ℕ} (hk : 0 < k)
    (hm : k ≤ missing) (hmissing : missing < 2 ^ 31) (ha : k ≤ available)
    (hsmall : k ≤ MAX_RW_COUNT) :
    moved (.count k :: rest) available missing = (some k, rest) := by
  have hst : min (min k (min missing MAX_RW_COUNT)) available = k := by omega
  have hserved : ¬ (k = 0 ∨ 2 ^ 31 ≤ missing) := by omega
  simp only [moved, answer, hst, if_neg hserved]

theorem transfers_cut {rest : List IoResult} {k available missing : ℕ} (hk : 0 < k)
    (hm : k < missing) (hmissing : missing < 2 ^ 31) (ha : k ≤ available)
    (hsmall : k ≤ MAX_RW_COUNT) :
    transfers (.count k :: .error :: rest) available missing = (k, rest) := by
  have hstop : transfers (.error :: rest) (available - k) (missing - k) = (0, rest) :=
    transfers_stop (by omega) rfl
  rw [transfers_more (by omega) (moved_count hk hm.le hmissing ha hsmall), hstop, Nat.add_zero]

theorem delivers_once {rest : List IoResult} {k available : ℕ} {fields : List (ℕ × ℕ)}
    (hk : 0 < k) (ha : k ≤ available) (hsmall : k ≤ MAX_RW_COUNT)
    (h : Delivers rest (available - k) fields) :
    Delivers (.count k :: rest) available ((k, k) :: fields) := by
  have hone : transfers (.count k :: rest) available k = (k, rest) := by
    have hless : k < 2 ^ 31 := lt_of_le_of_lt hsmall (by decide)
    rw [transfers_more hk.ne' (moved_count hk le_rfl hless ha hsmall), Nat.sub_self, transfers_zero]
    rfl
  rw [Delivers, hone]
  exact ⟨rfl, h⟩

theorem delivers_cut {rest : List IoResult} {k available missing : ℕ} {fields : List (ℕ × ℕ)}
    (hk : 0 < k) (hm : k < missing) (hmissing : missing < 2 ^ 31) (ha : k ≤ available)
    (hsmall : k ≤ MAX_RW_COUNT) (h : Delivers rest (available - k) fields) :
    Delivers (.count k :: .error :: rest) available ((missing, k) :: fields) := by
  rw [Delivers, transfers_cut hk hm hmissing ha hsmall]
  exact ⟨rfl, h⟩

/-- Three zero bytes of the size field, a failed read, and the end magic. -/
def lostSizeField : ReadEnd where
  script := [.count 2, .count 1, .count 2, .count 2, .count 3, .error, .count 2]
  stream := be16 MSG_MAGIC_BEGIN ++ ([6] ++ (be16 1 ++ (be16 2 ++
    (List.replicate 3 0 ++ (be16 MSG_MAGIC_END ++ [])))))

theorem lostSizeField_lost {prev : TunnelMsg} (h : prev.header.size.toNat < 2 ^ 24) :
    SizeFieldLost lostSizeField prev := by
  have hlen : lostSizeField.stream.length = 12 := rfl
  refine ⟨6, 1, 2, 3, [], by decide, by omega, by omega, rfl, ?_⟩
  rw [hlen]
  apply delivers_once (by decide) (by decide) (by decide)
  apply delivers_once (by decide) (by decide) (by decide)
  apply delivers_once (by decide) (by decide) (by decide)
  apply delivers_once (by decide) (by decide) (by decide)
  apply delivers_cut (by decide) (by decide) (by decide) (by decide) (by decide)
  exact delivers_once (by decide) (by decide) (by decide) trivial

/-- A call hides a failed read exactly on the inputs where a size field is lost, and for a
given stale size there is such an input exactly when its byte at the highest address is zero. -/
theorem msgRead_hides_no_failure_iff (prev : TunnelMsg) :
    (∀ fd, NoHiddenFailure fd prev ↔ ¬ SizeFieldLost fd prev) ∧
      ((∀ fd, NoHiddenFailure fd prev) ↔ 2 ^ 24 ≤ prev.header.size.toNat) := by
  refine ⟨fun fd => ⟨fun h hl => hidden_of_lost hl h, noHiddenFailure_of_not_lost⟩, ?_, ?_⟩
  · intro h
    by_contra hsmall
    exact hidden_of_lost (lostSizeField_lost (not_le.mp hsmall)) (h lostSizeField)
  · intro h fd
    exact noHiddenFailure_of_not_lost (not_lost_of_large h)

/-- A reader whose struct last held an empty message takes a lost size field for another. -/
theorem lostSizeField_hidden :
    ¬ NoHiddenFailure lostSizeField ⟨⟨3, 1, 2, 0⟩, none⟩ :=
  hidden_of_lost (lostSizeField_lost (by decide))

end TunnelFraming
