import TunnelPublishers.TunnelFraming

/-!
# What the payload read asks for

The transfer loop of guard_read keeps its request in an `int`. Next to the loop
stands the list of its requests, and with it the question whether a read of the
payload can ask for more than the block behind it holds.
-/
namespace TunnelFraming

open ByteOrder

/-- One read(2) of the loop: the bytes stored before it and the count it asks for. -/
structure Request where
  stored : ℕ
  asked : ℕ
  deriving DecidableEq, Repr

/-- The request ends inside a block of `size` bytes. -/
def Request.Inside (size : ℕ) (r : Request) : Prop :=
  r.stored ≤ size ∧ r.asked ≤ size - r.stored

instance (size : ℕ) (r : Request) : Decidable (r.Inside size) :=
  inferInstanceAs (Decidable (_ ∧ _))

/-- The loop of guard_read with the requests it makes. -/
def guardReadRequests (size : ℤ) (fd : ReadEnd) (n : ℤ) (stored : List UInt8) :
    List Request × ℤ × List UInt8 × ReadEnd :=
  if n = size then ([], n, stored, fd)
  else
    let request := sizeT (cInt (size - n))
    match h : fd.read request with
    | (none, fd') => ([⟨stored.length, request⟩], -1, stored, fd')
    | (some bs, fd') =>
      if hb : bs = [] then ([⟨stored.length, request⟩], -1, stored, fd')
      else
        let (rest, result) := guardReadRequests size fd' (cInt (n + bs.length)) (stored ++ bs)
        (⟨stored.length, request⟩ :: rest, result)
termination_by fd.stream.length
decreasing_by
  have hl := List.length_pos_iff.mpr hb
  rw [ReadEnd.read_stream h, List.length_append]
  omega

/-- The log does not change what the loop does. -/
theorem guardReadRequests_result (size : ℤ) (fd : ReadEnd) (n : ℤ) (stored : List UInt8) :
    (guardReadRequests size fd n stored).2 = guardReadLoop size fd n stored := by
  fun_induction guardReadRequests size fd n stored with
  | case1 => rw [guardReadLoop, if_pos rfl]
  | case2 fd n stored hn request fd' h => rw [guardReadLoop_stop hn (Or.inl h)]
  | case3 fd n stored hn request fd' h => rw [guardReadLoop_stop hn (Or.inr h)]
  | case4 fd n stored hn request bs fd' h hb rest result hrec ih =>
    rw [guardReadLoop_more hn h hb, ← ih, hrec]

theorem read_length_le {fd fd' : ReadEnd} {request : ℕ} {bs : List UInt8}
    (h : fd.read request = (some bs, fd')) : bs.length ≤ request := by
  unfold ReadEnd.read at h
  split at h
  · simp at h
  · dsimp only at h
    split at h
    · simp at h
    · simp only [Prod.mk.injEq, Option.some.injEq] at h
      rw [← h.1, List.length_take]
      omega

/-- Below 2^31 the request is what is missing. -/
theorem request_small {size stored : ℕ} (hsize : size < 2 ^ 31) (hle : stored ≤ size) :
    sizeT (cInt ((size : ℤ) - stored)) = size - stored := by
  rw [← Nat.cast_sub hle, sizeT_cInt_small (by omega)]

theorem guardReadRequests_inside {size : ℕ} (hsize : size < 2 ^ 31) (fd : ReadEnd) (n : ℤ)
    (stored : List UInt8) (hn : n = stored.length) (hle : stored.length ≤ size) :
    ∀ r ∈ (guardReadRequests size fd n stored).1, r.Inside size := by
  fun_induction guardReadRequests size fd n stored with
  | case1 => simp
  | case2 fd n stored hne request fd' h =>
    subst hn
    simp [Request.Inside, request, request_small hsize hle, hle]
  | case3 fd n stored hne request fd' h =>
    subst hn
    simp [Request.Inside, request, request_small hsize hle, hle]
  | case4 fd n stored hne request bs fd' h hb rest result hrec ih =>
    subst hn
    have hread := read_length_le h
    have hrequest := request_small hsize hle
    have hnext : cInt ((stored.length : ℤ) + bs.length) = (stored ++ bs).length := by
      rw [cInt_of_bounds (by omega) (by omega), List.length_append, Nat.cast_add]
    have hrest := ih hnext (by rw [List.length_append]; omega)
    rw [hrec] at hrest
    intro r hr
    rcases List.mem_cons.mp hr with rfl | hr
    · exact ⟨hle, hrequest.le⟩
    · exact hrest r hr

theorem guardReadRequests_first {size : ℤ} {n : ℤ} (hn : n ≠ size) (fd : ReadEnd)
    (stored : List UInt8) :
    ⟨stored.length, sizeT (cInt (size - n))⟩ ∈ (guardReadRequests size fd n stored).1 := by
  fun_cases guardReadRequests size fd n stored with
  | case1 => contradiction
  | case2 => exact List.mem_singleton_self _
  | case3 => exact List.mem_singleton_self _
  | case4 => exact List.mem_cons_self

/-- `msgReadPayload` with the requests of its second guarded read, the one into the block. -/
def msgReadPayloadRequests (fd : ReadEnd) (size : UInt32) :
    List Request × Option (List UInt8) × UInt32 × ReadEnd :=
  let (st, mem, fd) := guardRead fd (mem32 size) 4
  if st = -1 then ([], none, word32 mem, fd)
  else
    let size := ntohl (word32 mem)
    if size = 0 then ([], none, size, fd)
    else
      let (requests, st, data, fd) := guardReadRequests (cInt size.toNat) fd 0 []
      if st = -1 then (requests, none, size, fd) else (requests, some data, size, fd)

theorem msgReadPayloadRequests_result (fd : ReadEnd) (size : UInt32) :
    (msgReadPayloadRequests fd size).2 = msgReadPayload fd size := by
  unfold msgReadPayloadRequests msgReadPayload
  simp only [guardRead, ← guardReadRequests_result, memcpyAt_zero]
  split
  · rfl
  · split
    · rfl
    · split <;> simp

theorem msgReadPayloadRequests_payload {fd after : ReadEnd} {prev size : UInt32} {st : ℤ}
    {mem : List UInt8} (hfield : guardRead fd (mem32 prev) 4 = (st, mem, after)) (hst : st ≠ -1)
    (hsize : ntohl (word32 mem) = size) (hpos : 0 < size) :
    (msgReadPayloadRequests fd prev).1 = (guardReadRequests (cInt size.toNat) after 0 []).1 := by
  have hne : size ≠ 0 := UInt32.pos_iff_ne_zero.mp hpos
  simp only [msgReadPayloadRequests, hfield, hst, ↓reduceIte, hsize, hne]
  split <;> rfl

/-- The read of a payload of `size` bytes from `after`, the descriptor behind the size field that
`msgReadPayload` found on `fd`: no request ends past the block, no byte is stored there, and
the loop returns -1 or after the last byte. -/
structure PayloadReadsInside (fd after : ReadEnd) (prev size : UInt32) : Prop where
  requests : ∀ r ∈ (msgReadPayloadRequests fd prev).1, r.Inside size.toNat
  stored : (guardRead after [] size.toNat).2.1.length ≤ size.toNat
  outcome : (guardRead after [] size.toNat).1 = -1 ∨
    (guardRead after [] size.toNat).2.1.length = size.toNat

/-- What is stored never leaves the block; a request that would allow it is refused. -/
theorem guardRead_stored {size : ℕ} (hsize : size < 2 ^ 32) (fd : ReadEnd) :
    (guardRead fd [] size).2.1.length ≤ size ∧
      ((guardRead fd [] size).1 = -1 ∨ (guardRead fd [] size).2.1.length = size) := by
  obtain ⟨script, stream⟩ := fd
  have hle := transfers_le script stream.length size
  have hlen := length_take_transfers script stream size
  rw [guardRead_eq hsize]
  simp only [memcpyAt_zero, List.drop_nil, List.append_nil, hlen]
  refine ⟨by omega, ?_⟩
  split
  · next hfull => exact Or.inr hfull
  · exact Or.inl rfl

section

variable {fd after : ReadEnd} {prev size : UInt32} {st : ℤ} {mem : List UInt8}

theorem payload_reads_inside_small (hfield : guardRead fd (mem32 prev) 4 = (st, mem, after))
    (hst : st ≠ -1) (hsize : ntohl (word32 mem) = size) (hpos : 0 < size)
    (hsmall : size.toNat < 2 ^ 31) : PayloadReadsInside fd after prev size := by
  obtain ⟨hstored, hout⟩ := guardRead_stored size.toNat_lt after
  refine ⟨?_, hstored, hout⟩
  rw [msgReadPayloadRequests_payload hfield hst hsize hpos,
    cInt_of_bounds (by omega) (by omega)]
  exact guardReadRequests_inside hsmall after 0 [] rfl (Nat.zero_le _)

/-- From 2^31 on the count of the first request goes negative and reads as a huge one. -/
theorem payload_reads_outside (hfield : guardRead fd (mem32 prev) 4 = (st, mem, after))
    (hst : st ≠ -1) (hsize : ntohl (word32 mem) = size) (hlarge : 2 ^ 31 ≤ size.toNat) :
    ¬ PayloadReadsInside fd after prev size := by
  intro h
  have hlt := size.toNat_lt
  have h0 : (0 : ℤ) = cInt ((0 : ℕ) : ℤ) := rfl
  have hpos : 0 < size := by
    rw [UInt32.lt_iff_toNat_lt, UInt32.toNat_zero]
    omega
  have hne : (0 : ℤ) ≠ cInt size.toNat := by
    rw [h0, Ne, cInt_natCast_inj (by omega) hlt]
    omega
  have hfirst := guardReadRequests_first hne after []
  rw [← msgReadPayloadRequests_payload hfield hst hsize hpos] at hfirst
  obtain ⟨-, hasked⟩ := h.requests _ hfirst
  have hhuge := lt_sizeT_cInt hlarge hlt
  have hrequest : cInt (cInt size.toNat - 0) = cInt size.toNat := by
    rw [h0, cInt_sub_cInt, Nat.cast_zero, sub_zero]
  simp only [hrequest, List.length_nil, Nat.sub_zero] at hasked
  omega

/-- The payload read keeps to the block exactly for the sizes a C `int` can hold, whatever
read(2) answers. -/
theorem payload_reads_inside_iff (hfield : guardRead fd (mem32 prev) 4 = (st, mem, after))
    (hst : st ≠ -1) (hsize : ntohl (word32 mem) = size) (hpos : 0 < size) :
    PayloadReadsInside fd after prev size ↔ size.toNat < 2 ^ 31 := by
  constructor
  · intro h
    by_contra hlarge
    exact payload_reads_outside hfield hst hsize (not_lt.mp hlarge) h
  · exact payload_reads_inside_small hfield hst hsize hpos

end

/-- A peer announces three bytes and sends them in two pieces. -/
theorem payload_reads_inside_iff_three : ∃ rest,
    PayloadReadsInside ⟨[.count 4, .count 1], be32 3 ++ [7, 8, 9]⟩ ⟨rest, [7, 8, 9]⟩ 5 3 := by
  have hcuts : AllPositive [.count 4, .count 1] := by decide
  obtain ⟨rest, -, hfield⟩ := guardRead_full (mem32 5) hcuts (be32_length 3) (by omega) (by simp)
  exact ⟨rest, (payload_reads_inside_iff (hfield [7, 8, 9]) (count_ne_failure 4)
    (ntohl_word32_be32 3) (by decide)).mpr (by decide)⟩

/-- A peer announces 2^31 bytes: the first read asks for more than the block holds. -/
theorem payload_reads_outside_half : ∃ after,
    guardRead ⟨[], be32 0x80000000⟩ (mem32 0) 4 = (4, be32 0x80000000, after) ∧
      ¬ PayloadReadsInside ⟨[], be32 0x80000000⟩ after 0 0x80000000 := by
  have hcuts : AllPositive [] := by decide
  obtain ⟨rest, -, hfield⟩ :=
    guardRead_full (mem32 0) hcuts (be32_length 0x80000000) (by omega) (by simp)
  have hfield := hfield []
  rw [List.append_nil] at hfield
  exact ⟨⟨rest, []⟩, hfield, payload_reads_outside hfield (count_ne_failure 4)
    (ntohl_word32_be32 _) (by decide)⟩

end TunnelFraming
