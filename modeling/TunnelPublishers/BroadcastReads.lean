import TunnelPublishers.BroadcastHandles

/-!
# What the broadcast handlers read of a request

Each handler reads its own part of `request.data`. The reads are listed beside
the handlers, and a step depends on the memory behind the request through these
reads alone.
-/
namespace BroadcastReads

open ByteOrder FiniteMaps FiniteMap TunnelFraming ExecutionTraces BroadcastService
  BroadcastMachine BroadcastHandles

variable {M : Type → Type → Type} [FiniteMap M]

/-- A block copied out of `request.data`. -/
structure PayloadRead where
  offset : ℕ
  length : ℕ
  deriving DecidableEq, Repr

def PayloadRead.Covers (r : PayloadRead) (k : ℕ) : Prop := r.offset ≤ k ∧ k < r.offset + r.length

/-- Every byte read lies below `size`. -/
def PayloadRead.Inside (r : PayloadRead) (size : ℕ) : Prop := ∀ k, r.Covers k → k < size

theorem inside_iff {r : PayloadRead} {size : ℕ} :
    r.Inside size ↔ r.length = 0 ∨ r.offset + r.length ≤ size := by
  constructor
  · intro h
    by_contra hno
    have hlast := h (r.offset + r.length - 1) (by unfold PayloadRead.Covers; omega)
    omega
  · rintro h k ⟨hl, hu⟩
    omega

/-! ### The reads of each handler -/

def subscribeReads (s : State M) (i : Input) : List PayloadRead :=
  if MAX_STR_LEN - 1 < i.size then []
  else
    match find s.clients i.client with
    | some _ => []
    | none => [⟨0, i.size⟩]

def ctrlReads (s : State M) (i : Input) : List PayloadRead :=
  if 0 < i.size ∧ i.size ≤ MAX_STR_LEN then
    match find s.clients i.client with
    | none => []
    | some _ =>
      let code := i.request.payload.headD 0
      if code = BC_SUBSCRIPTION then [⟨0, 1⟩, ⟨1, i.size - 1⟩]
      else if code = BC_UNSUBSCRIPTION then [⟨0, 1⟩, ⟨1, 4⟩]
      else if code = BC_QUERY_USER then [⟨0, 1⟩, ⟨1, 4⟩]
      else [⟨0, 1⟩]
  else []

/-- The group id; then the whole payload once for each client it is sent to. -/
def dataReads (s : State M) (i : Input) : List PayloadRead :=
  match readWord i 0 with
  | .error _ => [⟨0, 4⟩]
  | .ok hash =>
    ⟨0, 4⟩ :: (recipients s.heap s.clients hash).map fun _ => ⟨0, i.size⟩

def requestReads (s : State M) (i : Input) : List PayloadRead :=
  let type := i.request.header.type
  if type = CHANNEL_SUBSCRIBE then subscribeReads s i
  else if type = CHANNEL_CTRL then ctrlReads s i
  else if type = CHANNEL_DATA then dataReads s i
  else []

theorem mem_dataReads (s : State M) (i : Input) : ⟨0, 4⟩ ∈ dataReads s i := by
  rw [dataReads]
  split <;> simp

/-! ### A step depends on these reads only -/

/-- Two memories hold the same bytes where a block is read. -/
def SameAt (i i' : Input) (r : PayloadRead) : Prop :=
  ∀ k, r.Covers k → i.memory[k]? = i'.memory[k]?

theorem payload_eq_memory (i : Input) : i.request.payload = i.memory.take i.size := by
  have hblock := i.received.block
  rw [i.received.payload_eq]
  cases hd : i.request.data with
  | none => simp [Input.memory, hd]
  | some block =>
    simp only [hd, Option.getD_some] at hblock
    have hsize : i.size = block.length := hblock.symm
    simp only [Input.memory, hd, Option.getD_some, hsize, List.take_left]

theorem payload_getElem? (i : Input) {k : ℕ} (h : k < i.size) :
    i.request.payload[k]? = i.memory[k]? := by
  rw [payload_eq_memory, List.getElem?_take_of_lt h]

/-- A received request is its header and its payload. -/
theorem request_eq {i i' : Input} (hheader : i.request.header = i'.request.header)
    (hpayload : i.request.payload = i'.request.payload) : i.request = i'.request := by
  have h := i.received
  have h' := i'.received
  rw [h.payload_eq, h'.payload_eq] at hpayload
  have hnull : i.request.data = none ↔ i'.request.data = none := by
    rw [h.null, h'.null, hheader]
  generalize i.request = m at *
  generalize i'.request = m' at *
  obtain ⟨header, data⟩ := m
  obtain ⟨header', data'⟩ := m'
  simp only at hheader hpayload hnull
  cases data <;> cases data' <;> simp_all

section

variable {i i' : Input}

theorem same_payload (hheader : i.request.header = i'.request.header)
    (h : SameAt i i' ⟨0, i.size⟩) : i.request = i'.request := by
  have hsize : i.size = i'.size := by rw [Input.size, hheader]
  apply request_eq hheader
  apply List.ext_getElem?
  intro k
  by_cases hk : k < i.size
  · rw [payload_getElem? i hk, payload_getElem? i' (hsize ▸ hk)]
    exact h k ⟨Nat.zero_le k, by simpa using hk⟩
  · rw [List.getElem?_eq_none (by rw [i.payload_length]; omega),
      List.getElem?_eq_none (by rw [i'.payload_length]; omega)]

theorem same_word {off : ℕ} (h : SameAt i i' ⟨off, 4⟩) : readWord i off = readWord i' off := by
  have hread : ∀ k < 4, (i.memory.drop off)[k]? = (i'.memory.drop off)[k]? := by
    intro k hk
    rw [List.getElem?_drop, List.getElem?_drop]
    exact h (off + k) ⟨by simp, by simpa using hk⟩
  have hroom : off + 4 ≤ i.memory.length ↔ off + 4 ≤ i'.memory.length := by
    have hlast := h (off + 3) ⟨by simp, by simp⟩
    have hend : i.memory.length ≤ off + 3 ↔ i'.memory.length ≤ off + 3 := by
      rw [← List.getElem?_eq_none_iff, hlast, List.getElem?_eq_none_iff]
    omega
  have htake : (i.memory.drop off).take 4 = (i'.memory.drop off).take 4 := by
    apply List.ext_getElem?
    intro k
    by_cases hk : k < 4
    · rw [List.getElem?_take_of_lt hk, List.getElem?_take_of_lt hk, hread k hk]
    · rw [List.getElem?_eq_none (by rw [List.length_take]; omega),
        List.getElem?_eq_none (by rw [List.length_take]; omega)]
  simp only [readWord, hroom, htake]

theorem same_code (hpos : 0 < i.size) (hsize : i.size = i'.size) (h : SameAt i i' ⟨0, 1⟩) :
    i.request.payload.headD 0 = i'.request.payload.headD 0 := by
  have hfirst := h 0 ⟨le_rfl, by simp⟩
  rw [← payload_getElem? i hpos, ← payload_getElem? i' (hsize ▸ hpos)] at hfirst
  rw [List.headD_eq_head?_getD, List.headD_eq_head?_getD, List.head?_eq_getElem?,
    List.head?_eq_getElem?, hfirst]

end

section

variable {A : Antd} {s : State M} {i i' : Input}

theorem subscribe_stable (hheader : i.request.header = i'.request.header)
    (h : ∀ r ∈ subscribeReads s i, SameAt i i' r) :
    channelSubscribe s i = channelSubscribe s i' := by
  have hsize : i.size = i'.size := by rw [Input.size, hheader]
  have hclient : i.client = i'.client := by rw [Input.client, hheader]
  by_cases hlong : MAX_STR_LEN - 1 < i.size
  · simp only [channelSubscribe, hlong, ← hsize, ↓reduceDIte]
  · cases hc : find s.clients i.client with
    | some p => simp only [channelSubscribe, hlong, ← hsize, ↓reduceDIte, hc, ← hclient]
    | none =>
      simp only [subscribeReads, hlong, ↓reduceIte, hc, List.mem_singleton, forall_eq] at h
      have hrequest := same_payload hheader h
      obtain ⟨request, beyond, stack, received⟩ := i
      obtain ⟨request', beyond', stack', received'⟩ := i'
      simp only at hrequest
      subst hrequest
      rfl

theorem ctrlSubscription_stable {p : ℕ} (hrequest : i.request = i'.request)
    (h : i.size ≤ MAX_STR_LEN) (h' : i'.size ≤ MAX_STR_LEN) :
    ctrlSubscription A s i p h = ctrlSubscription A s i' p h' := by
  obtain ⟨request, beyond, stack, received⟩ := i
  obtain ⟨request', beyond', stack', received'⟩ := i'
  simp only at hrequest
  subst hrequest
  rfl

theorem ctrl_stable (hheader : i.request.header = i'.request.header)
    (h : ∀ r ∈ ctrlReads s i, SameAt i i' r) : channelCtrl A s i = channelCtrl A s i' := by
  have hsize : i.size = i'.size := by rw [Input.size, hheader]
  have hclient : i.client = i'.client := by rw [Input.client, hheader]
  by_cases hs : 0 < i.size ∧ i.size ≤ MAX_STR_LEN
  · have hs' := hs
    rw [hsize] at hs'
    cases hc : find s.clients i.client with
    | none => simp only [channelCtrl, hs, hs', and_self, ↓reduceDIte, ← hclient, hc]
    | some p =>
      have hfirst : SameAt i i' ⟨0, 1⟩ := by
        apply h
        simp only [ctrlReads, hs, and_self, ↓reduceIte, hc]
        split_ifs <;> simp
      have hcode := same_code hs.1 hsize hfirst
      simp only [ctrlReads, hs, and_self, ↓reduceIte, hc] at h
      simp only [channelCtrl, hs, hs', and_self, ↓reduceDIte, ← hclient, hc, ← hcode, ← hheader]
      split_ifs at h ⊢ with h₁ h₂ h₃ h₄
      · -- The name of the group is the rest of the payload.
        apply ctrlSubscription_stable
        apply same_payload hheader
        intro k hk
        by_cases hz : k = 0
        · exact h ⟨0, 1⟩ (by simp) k ⟨by simp, by simp [hz]⟩
        · have hlt : k < 0 + i.size := hk.2
          exact h ⟨1, i.size - 1⟩ (by simp) k
            ⟨show 1 ≤ k by omega, show k < 1 + (i.size - 1) by omega⟩
      · have hword : readWord i 1 = readWord i' 1 := same_word (h ⟨1, 4⟩ (by simp))
        simp only [ctrlUnsubscription, hword]
      · have hword : readWord i 1 = readWord i' 1 := same_word (h ⟨1, 4⟩ (by simp))
        simp only [ctrlQueryUser, hword, ← hclient]
      · simp only [ctrlQueryGroup, ← hclient]
      · rfl
  · have hs' := hs
    rw [hsize] at hs'
    simp only [channelCtrl, hs, hs', ↓reduceDIte, ← hclient, ← hheader]

theorem notify_skip {heap : List (Option (BcClient M))} {g : Int32} {n : UInt16 × ℕ}
    (h : inGroup heap g n.2 = false) (msg : TunnelMsg) :
    bcNotify heap g msg n = (deref heap n.2).map fun _ => (msg, []) := by
  unfold bcNotify deref
  unfold inGroup at h
  split
  · next bc hp =>
    simp only [hp, Option.isSome_eq_false_iff] at h
    simp [bind, Except.bind, Except.map, h, pure, Except.pure]
  · rfl

/-- With no recipient the message notified does not matter. -/
theorem notify_none {heap : List (Option (BcClient M))} {g : Int32} {nodes : List (UInt16 × ℕ)}
    (h : ∀ n ∈ nodes, inGroup heap g n.2 = false) (msg msg' : TunnelMsg) :
    (forEach (bcNotify heap g) msg nodes).map Prod.snd =
      (forEach (bcNotify heap g) msg' nodes).map Prod.snd := by
  induction nodes with
  | nil => rfl
  | cons n ns ih =>
    have hn := h n List.mem_cons_self
    have hrest := ih fun m hm => h m (List.mem_cons_of_mem n hm)
    cases hp : deref heap n.2 with
    | error f =>
      have hstop : ∀ msg, bcNotify heap g msg n = .error f := fun msg => by
        rw [notify_skip hn, hp]
        rfl
      rw [forEach_cons_error (hstop msg), forEach_cons_error (hstop msg')]
    | ok bc =>
      have hskip : ∀ msg, bcNotify heap g msg n = .ok (msg, []) := fun msg => by
        rw [notify_skip hn, hp]
        rfl
      have hsnd : ∀ r : Except Fault (TunnelMsg × List TunnelMsg),
          (r.map fun x => (x.1, [] ++ x.2)).map Prod.snd = r.map Prod.snd := by
        intro r
        cases r <;> rfl
      rw [forEach_cons_ok (hskip msg), forEach_cons_ok (hskip msg'), hsnd, hsnd, hrest]

theorem channelData_eq (s : State M) (i : Input) :
    channelData s i = match readWord i 0 with
      | .error f => .error f
      | .ok hash => ((forEach (bcNotify s.heap hash) i.request (entries s.clients)).map
          Prod.snd).map fun out => (s, out) := by
  simp only [channelData, bind, Except.bind, pure, Except.pure]
  cases readWord i 0 with
  | error f => rfl
  | ok hash =>
    dsimp only
    cases forEach (bcNotify s.heap hash) i.request (entries s.clients) <;> rfl

theorem data_stable (hheader : i.request.header = i'.request.header)
    (h : ∀ r ∈ dataReads s i, SameAt i i' r) : channelData s i = channelData s i' := by
  have hfirst : SameAt i i' ⟨0, 4⟩ := by
    apply h
    apply mem_dataReads
  have hword := same_word hfirst
  rw [channelData_eq, channelData_eq, ← hword]
  cases hg : readWord i 0 with
  | error f => rfl
  | ok g =>
    simp only [dataReads, hg] at h
    simp only
    by_cases hnone : ∀ n ∈ entries s.clients, inGroup s.heap g n.2 = false
    · rw [notify_none hnone i.request i'.request]
    · push Not at hnone
      obtain ⟨n, hn, hin⟩ := hnone
      rw [ne_eq, Bool.not_eq_false] at hin
      have hmem : n.1 ∈ recipients s.heap s.clients g :=
        List.mem_map.mpr ⟨n, List.mem_filter.mpr ⟨hn, hin⟩, rfl⟩
      have hall : SameAt i i' ⟨0, i.size⟩ :=
        h _ (List.mem_cons_of_mem _ (List.mem_map.mpr ⟨n.1, hmem, rfl⟩))
      rw [same_payload hheader hall]

/-- Two requests with one header that agree on the bytes listed are handled alike, whatever lies
in memory elsewhere. -/
theorem step_stable (hheader : i.request.header = i'.request.header) (hstack : i.stack = i'.stack)
    (h : ∀ r ∈ requestReads s i, SameAt i i' r) : step A s i = step A s i' := by
  unfold requestReads at h
  unfold step
  dsimp only at h ⊢
  rw [← hheader]
  split_ifs at h ⊢ with h₁ h₂ h₃ h₄
  · exact subscribe_stable hheader h
  · exact ctrl_stable hheader h
  · exact data_stable hheader h
  · have hclient : i.client = i'.client := by rw [Input.client, hheader]
    simp only [channelUnsubscribe, hclient, hstack]
  · rfl

end

/-! ### Reads inside the payload -/

/-- The requests that carry a group id are long enough for it. -/
structure LongEnough (s : State M) (i : Input) : Prop where
  data : i.request.header.type = CHANNEL_DATA → 4 ≤ i.size
  ctrl : ∀ code ∈ [BC_UNSUBSCRIPTION, BC_QUERY_USER], IsCtrl i.request code →
    find s.clients i.client ≠ none → 5 ≤ i.size

theorem subscribe_inside (s : State M) (i : Input) :
    ∀ r ∈ subscribeReads s i, r.Inside i.size := by
  intro r hr
  unfold subscribeReads at hr
  split at hr
  · simp at hr
  · split at hr
    · simp at hr
    · rw [List.mem_singleton] at hr
      rw [hr, inside_iff]
      exact Or.inr (by simp)

theorem inside_word (off size : ℕ) :
    PayloadRead.Inside ⟨off, 4⟩ size ↔ off + 4 ≤ size := by
  rw [inside_iff]
  simp

theorem data_inside_iff (s : State M) (i : Input) :
    (∀ r ∈ dataReads s i, r.Inside i.size) ↔ 4 ≤ i.size := by
  constructor
  · intro h
    have hfirst := h ⟨0, 4⟩ (mem_dataReads s i)
    rwa [inside_word, Nat.zero_add] at hfirst
  · intro hsize r hr
    have hword : PayloadRead.Inside ⟨0, 4⟩ i.size := (inside_word 0 i.size).mpr (by omega)
    unfold dataReads at hr
    split at hr
    · rw [List.mem_singleton.mp hr]
      exact hword
    · rcases List.mem_cons.mp hr with rfl | hr
      · exact hword
      · obtain ⟨o, -, rfl⟩ := List.mem_map.mp hr
        exact inside_iff.mpr (Or.inr (by simp))

theorem ctrl_inside_iff (s : State M) (i : Input) (htype : i.request.header.type = CHANNEL_CTRL) :
    (∀ r ∈ ctrlReads s i, r.Inside i.size) ↔
      ∀ code ∈ [BC_UNSUBSCRIPTION, BC_QUERY_USER], IsCtrl i.request code →
        find s.clients i.client ≠ none → 5 ≤ i.size := by
  by_cases hsize : 0 < i.size ∧ i.size ≤ MAX_STR_LEN
  · cases hc : find s.clients i.client with
    | none => simp [ctrlReads, hsize, hc]
    | some p =>
      have hcode := isCtrl_head htype hsize
      have hfirst : PayloadRead.Inside ⟨0, 1⟩ i.size := inside_iff.mpr (Or.inr (by simp; omega))
      have hrest : PayloadRead.Inside ⟨1, i.size - 1⟩ i.size :=
        inside_iff.mpr (Or.inr (by simp; omega))
      have hword := inside_word 1 i.size
      simp only [ctrlReads, hsize, and_self, ↓reduceIte, hc]
      constructor
      · intro h code hmem hk _
        have heq := hk.code_eq hcode
        simp only [List.mem_cons, List.not_mem_nil, or_false] at hmem
        rcases hmem with rfl | rfl
        · simp only [← heq] at h
          exact hword.mp (h ⟨1, 4⟩ (by simp [BC_UNSUBSCRIPTION, BC_SUBSCRIPTION]))
        · simp only [← heq] at h
          exact hword.mp (h ⟨1, 4⟩ (by simp [BC_QUERY_USER, BC_SUBSCRIPTION]))
      · intro h
        have hlong : ∀ code ∈ [BC_UNSUBSCRIPTION, BC_QUERY_USER],
            i.request.payload.headD 0 = code → PayloadRead.Inside ⟨1, 4⟩ i.size :=
          fun code hmem heq => hword.mpr (h code hmem (heq ▸ hcode) (by simp))
        split_ifs with h₁ h₂ h₃
        · simpa using ⟨hfirst, hrest⟩
        · simpa using ⟨hfirst, hlong _ (by simp) h₂⟩
        · simpa using ⟨hfirst, hlong _ (by simp) h₃⟩
        · simpa using hfirst
  · have hnone : ∀ code, ¬ IsCtrl i.request code := fun code hk => hsize ⟨hk.2.1, hk.2.2.1⟩
    simp [ctrlReads, hsize, hnone]

/-- A message reads its own payload only, exactly when a group id it carries is all there. -/
theorem reads_inside_iff (s : State M) (i : Input) :
    (∀ r ∈ requestReads s i, r.Inside i.size) ↔ LongEnough s i := by
  unfold requestReads
  dsimp only
  split_ifs with h₁ h₂ h₃
  · refine ⟨fun _ => ⟨?_, ?_⟩, fun _ => subscribe_inside s i⟩
    · exact fun hd => absurd (h₁.symm.trans hd) (by decide)
    · exact fun code _ hk => absurd (h₁.symm.trans hk.1) (by decide)
  · rw [ctrl_inside_iff s i h₂]
    exact ⟨fun h => ⟨fun hd => absurd (h₂.symm.trans hd) (by decide), h⟩, fun h => h.ctrl⟩
  · rw [data_inside_iff]
    exact ⟨fun h => ⟨fun _ => h, fun code _ hk => absurd (h₃.symm.trans hk.1) (by decide)⟩,
      fun h => h.data h₃⟩
  · exact ⟨fun _ => ⟨fun hd => (h₃ hd).elim, fun code _ hk => (h₂ hk.1).elim⟩,
      fun _ r hr => by simp at hr⟩

/-- The first message of a run is a DATA message of one byte: four bytes are read. -/
theorem data_reads_past_payload :
    Reachable firstByteHost (initial firstByteHost channelOk : State AssocList) ∧
      ¬ ∀ r ∈ requestReads (initial firstByteHost channelOk : State AssocList) (.data 1 7),
        r.Inside (Input.data 1 7).size := by
  refine ⟨⟨channelOk, [], [], .refl _⟩, ?_⟩
  intro h
  have hsize : (Input.data 1 7).size = 1 := by decide
  have hread : requestReads (initial firstByteHost channelOk : State AssocList) (.data 1 7) =
      dataReads (initial firstByteHost channelOk : State AssocList) (.data 1 7) := rfl
  rw [hread, data_inside_iff, hsize] at h
  omega

end BroadcastReads
