import TunnelPublishers.PublisherProgram
import TunnelPublishers.BroadcastSweep
import TunnelPublishers.BroadcastReplies
import TunnelPublishers.ChannelOpening

/-!
# The broadcast program

`main` from the connected hotline on, over bytes. What it reads and writes is what the
service does message by message, up to and including the final sweep.
-/
namespace BroadcastProgram

open ByteOrder FiniteMaps FiniteMap TunnelFraming ExecutionTraces BroadcastService BroadcastMachine
  BroadcastHandles BroadcastOutcomes BroadcastInvariant BroadcastReplies BroadcastSweep
  PublisherProgram

/-- What a turn brings besides the bytes of the hotline. -/
structure Round where
  /-- What `select` returns. -/
  status : ℤ
  /-- The memory behind the payload. -/
  beyond : List UInt8
  /-- What `unsubscribe` finds in its local header. -/
  stack : TunnelMsgH
  /-- Whether SIGINT arrives. -/
  interrupted : Bool

structure Loop (M : Type → Type → Type) where
  service : State M
  request : TunnelMsgH
  running : Bool

variable {M : Type → Type → Type} [FiniteMap M]

/-- `bc_notify` sets the client in the message it is handed, which is the request of
CHANNEL_DATA. -/
def requestAfter (s : State M) (i : Input) : Except Fault TunnelMsgH := do
  if i.request.header.type = CHANNEL_DATA then
    let hash ← readWord i 0
    let (msg, _) ← forEach (bcNotify s.heap hash) i.request (entries s.clients)
    return msg.header
  else return i.request.header

def handle (A : Antd) (s : Loop M) (i : Input) : Except Fault (Loop M × List TunnelMsg) := do
  let request ← requestAfter s.service i
  let (service, out) ← step A s.service i
  return (⟨service, request, s.running⟩, out)

def attend (A : Antd) (s : Loop M) (r : Round) : Heard → Except Fault (Loop M × List TunnelMsg)
  | .nothing => .ok (if r.status = -1 then { s with running := false } else s, [])
  | .unreadable left => .ok ({ s with request := left, running := false }, [])
  | .message m received => handle A s ⟨m, r.beyond, r.stack, received⟩

def turn (A : Antd) (s : Loop M) (r : Round) (heard : Heard) :
    Except Fault (Loop M × List TunnelMsg) := do
  let (s, out) ← attend A s r heard
  return ({ s with running := s.running && !r.interrupted }, out)

/-- The sweep over the clients, and the request to close the channel. -/
def finish (stack : UInt16 → TunnelMsgH) (s : Loop M) : Except Fault (List TunnelMsg) := do
  let (_, out) ← unsubscribeAll s.service stack (entries s.service.clients)
  return out ++ [frame CHANNEL_CLOSE s.request.channelId s.request.clientId []]

/-- Whether `select` finds the hotline readable. -/
def readable (r : Round) : Bool := r.status ≠ -1 && r.status ≠ 0

def publisher (A : Antd) (stack : UInt16 → TunnelMsgH) : Publisher (Loop M) Round Fault where
  running := Loop.running
  request := Loop.request
  readable := readable
  turn := turn A
  shutdown := finish stack
  response s := s.service.response

/-- Whether a turn leaves the loop running. -/
def goesOn (p : Round × Heard) : Bool :=
  !p.1.interrupted &&
    match p.2 with
    | .nothing => p.1.status ≠ -1
    | .unreadable _ => false
    | .message _ _ => true

/-- A name that fills the buffer is not terminated, and `strlen` runs past it. -/
def openChannel (name : ChannelOpening.Argument) : Option TunnelMsg :=
  let name := strncpy name.bytes (MAX_STR_LEN + 1)
  (strlen name).map fun size => ⟨⟨CHANNEL_OPEN, 0, 0, UInt32.ofNat size⟩, some name⟩

/-- The head of the loop; the request still holds what the channel was asked for with. -/
def loopHead (A : Antd) (named answer : TunnelMsg) : Loop M :=
  ⟨initial A answer, named.header, answer.header.type = CHANNEL_OK⟩

/-- `response` is uninitialised; `stack` is what each call of `unsubscribe` in the sweep finds. -/
def main (M : Type → Type → Type) [FiniteMap M] (A : Antd) (name : ChannelOpening.Argument)
    (response : TunnelMsg) (stack : UInt16 → TunnelMsgH) (fd : Hotline) (rounds : List Round) :
    Option (Except Fault (ℤ × Hotline)) :=
  (openChannel name).map fun named =>
    (publisher A stack : Publisher (Loop M) Round Fault).main named response (loopHead A named) fd
      rounds

/-! ### The final sweep -/

/-- The notices that a user leaves its groups, when the handle behind this node goes. -/
def leavings (s : State M) (stack : TunnelMsgH) (n : UInt16 × ℕ) : List TunnelMsg :=
  match s.heap[n.2]? with
  | some (some bc) => farewells s bc stack.channelId
  | _ => []

/-- What a sweep sends that reads no released handle: the groups of a user are left at the last of
its clients. -/
def goodbyes (s : State M) (stack : UInt16 → TunnelMsgH) : List (UInt16 × ℕ) → List TunnelMsg
  | [] => []
  | n :: rest =>
    (if n.2 ∈ rest.map Prod.snd then [] else leavings s (stack n.1) n) ++
      frame CHANNEL_UNSUBSCRIBE (stack n.1).channelId n.1 [] :: goodbyes s stack rest

section Sweep

variable {A : Antd} {s s' : State M} {stack : UInt16 → TunnelMsgH} {rest : List (UInt16 × ℕ)}
  {out : List TunnelMsg}

theorem leavings_of_live {n : UInt16 × ℕ} {bc : BcClient M} (h : Live s.heap n.2 bc)
    (stack : TunnelMsgH) : leavings s stack n = farewells s bc stack.channelId := by
  have hcell : s.heap[n.2]? = some (some bc) := h
  simp only [leavings, hcell]

theorem leavings_of_plain {n : UInt16 × ℕ} (h : grouped s.heap n.2 = false) (stack : TunnelMsgH) :
    leavings s stack n = [] := by
  unfold grouped at h
  unfold leavings
  split
  · next bc hcell =>
    rw [hcell] at h
    have hnone : entries bc.groups = [] := by simpa using h
    simp [farewells, hnone]
  · rfl

theorem goodbyes_congr (h : ∀ n ∈ rest, ∀ stack, leavings s' stack n = leavings s stack n) :
    goodbyes s' stack rest = goodbyes s stack rest := by
  induction rest with
  | nil => rfl
  | cons n rest ih =>
    obtain ⟨hfirst, hrest⟩ := List.forall_mem_cons.mp h
    simp only [goodbyes, hfirst, ih hrest]

/-- A visit that leaves the handle in place changes no notice. -/
theorem leavings_visited {n m : UInt16 × ℕ} {bc : BcClient M} (h : Sweeping A s (n :: rest))
    (hp : Live s.heap n.2 bc) (hmore : ¬ bc.ref ≤ 1) (hm : m ∈ rest) (buffer : List UInt8)
    (stack : TunnelMsgH) :
    leavings { s with heap := visited s n.2 bc, msgBuffer := buffer } stack m =
      leavings s stack m := by
  have hvisited : visited s n.2 bc = s.heap.set n.2 (some { bc with ref := bc.ref - 1 }) := by
    rw [visited, if_neg hmore]
  have hrecipients : ∀ g, recipients (visited s n.2 bc) s.clients g =
      recipients s.heap s.clients g := by
    intro g
    rw [hvisited]
    simp only [recipients, inGroup_set hp { bc with ref := bc.ref - 1 } rfl]
  obtain ⟨bm, hbm, -⟩ := h.counted m (List.mem_cons_of_mem n hm)
  rw [leavings_of_live hbm]
  by_cases hmp : m.2 = n.2
  · rw [hmp] at hbm
    obtain rfl := hbm.unique hp
    have hnew : Live (visited s n.2 bm) m.2 { bm with ref := bm.ref - 1 } := by
      rw [hvisited, hmp]
      exact (live_set hp).mpr (by rw [if_pos rfl])
    rw [leavings_of_live hnew]
    simp only [farewells, hrecipients]
  · have hnew : Live (visited s n.2 bc) m.2 bm := (live_visited hp hmp).mpr hbm
    rw [leavings_of_live hnew]
    simp only [farewells, hrecipients]

/-- A visit of a sweep that goes through. -/
theorem unsubscribe_sends {n : UInt16 × ℕ} {bc : BcClient M} (h : Sweeping A s (n :: rest))
    (hp : Live s.heap n.2 bc) (hstep : unsubscribe s (stack n.1) (some n) = .ok (s', out)) :
    ∃ buffer, buffer.length = s.msgBuffer.length ∧
      s' = { s with heap := visited s n.2 bc, msgBuffer := buffer } ∧
      out = (if n.2 ∈ rest.map Prod.snd then [] else leavings s (stack n.1) n) ++
        [frame CHANNEL_UNSUBSCRIBE (stack n.1).channelId n.1 []] := by
  have hroom := A.room
  have hbuf := h.buffer
  have hlive : bc.ref ≤ 1 → entries bc.groups ≠ [] →
      ∀ m ∈ entries s.clients, ∃ bm, Live s.heap m.2 bm := by
    intro hlast hne m hm
    by_contra hgone
    have hgroups : grouped s.heap n.2 = true := by
      rw [grouped_of_live hp]
      simpa using hne
    have hd : Dangling s := ⟨m, hm, fun bm hbm => hgone ⟨bm, hbm⟩⟩
    have hfault : unsubscribe s (stack n.1) (some n) = .error .releasedHandle :=
      unsubscribe_dangling hp hlast hgroups hd _ _
    rw [hfault] at hstep
    cases hstep
  obtain ⟨buffer, hlen, hun⟩ := unsubscribe_spec hp (by omega) (stack n.1) n.1 hlive
  obtain ⟨rfl, rfl⟩ := Prod.mk.inj (Except.ok.inj (hun.symm.trans hstep))
  refine ⟨buffer, hlen, rfl, ?_⟩
  rw [leavings_of_live hp]
  by_cases hmore : n.2 ∈ rest.map Prod.snd
  · rw [if_pos hmore, if_neg (mt (h.last_iff hp).mp (not_not.mpr hmore))]
  · rw [if_neg hmore, if_pos ((h.last_iff hp).mpr hmore)]

/-- A sweep that reads no released handle says goodbye to every client. -/
theorem sweep_sends (h : Sweeping A s rest) (hnodes : ∀ n ∈ rest, n ∈ entries s.clients)
    (hsweep : unsubscribeAll s stack rest = .ok (s', out)) : out = goodbyes s stack rest := by
  induction rest generalizing s out with
  | nil => exact (Prod.mk.inj (Except.ok.inj hsweep)).2.symm
  | cons n rest ih =>
    obtain ⟨bc, hp, -⟩ := h.counted n List.mem_cons_self
    obtain ⟨⟨t, first⟩, hvisit, hbind⟩ := ok_bind hsweep
    obtain ⟨⟨u, later⟩, hrest, hend⟩ := ok_bind hbind
    obtain ⟨rfl, rfl⟩ := Prod.mk.inj (Except.ok.inj hend)
    obtain ⟨buffer, hlen, rfl, rfl⟩ := unsubscribe_sends h hp hvisit
    have hnext := h.next hp hlen
    have hlater := ih hnext (fun m hm => hnodes m (List.mem_cons_of_mem _ hm)) hrest
    have hsame : ∀ m ∈ rest, ∀ stack,
        leavings { s with heap := visited s n.2 bc, msgBuffer := buffer } stack m =
          leavings s stack m := by
      intro m hm st
      by_cases hlast : bc.ref ≤ 1
      · -- With the first handle gone, no later one may have groups.
        have hd := dangling_released (hnodes n List.mem_cons_self) hp hlast buffer
        have hplain : grouped (visited s n.2 bc) m.2 = false := by
          rcases sweep_dangling hnext hd with ⟨hall, -⟩ | ⟨-, hfault⟩
          · exact hall m.2 (mem_releases.mpr (List.mem_map_of_mem hm))
          · have hrest' : unsubscribeAll { s with heap := visited s n.2 bc, msgBuffer := buffer }
              stack rest = .ok (u, later) := hrest
            rw [hfault] at hrest'
            cases hrest'
        rw [leavings_of_plain hplain]
        rw [grouped_visited h hp (List.mem_map_of_mem hm)] at hplain
        exact (leavings_of_plain hplain st).symm
      · exact leavings_visited h hp hlast hm buffer st
    rw [hlater, goodbyes_congr hsame]
    simp only [goodbyes, List.append_assoc, List.singleton_append]

end Sweep

/-! ### What is sent goes out whole -/

section Sent

variable {A : Antd} {s s' : State M} {i : Input} {out : List TunnelMsg}

omit [FiniteMap M] in
/-- An error text is shorter than the message buffer. -/
theorem bcError_sendable {client : UInt16} {reply : String}
    (h : bcError A s client reply = .ok (s', out)) : ∀ m ∈ out, m.Sendable := by
  have hsmall := A.small
  unfold bcError at h
  split at h
  · obtain ⟨-, rfl⟩ := Prod.mk.inj (Except.ok.inj h)
    intro m hm
    rw [List.mem_singleton.mp hm]
    obtain ⟨data, hdata⟩ : ∃ data, data = memcpyAt s.msgBuffer 0
        ((text reply).take (A.BUFFLEN - 1) ++ [0]) := ⟨_, rfl⟩
    have hshort : (cString data).length < 2 ^ 31 := by
      have htext := cString_length_le ((text reply).take (A.BUFFLEN - 1))
      rw [List.length_take] at htext
      rw [hdata, memcpyAt_zero, List.append_assoc, List.singleton_append, cString_append_zero]
      omega
    rw [← hdata, received_eq_frame (lt_trans hshort (by decide)) rfl
      (List.prefix_iff_eq_take.mp (List.takeWhile_prefix _)).symm]
    exact frame_sendable hshort
  · cases h

theorem raises_sendable {reply : String} (h : Raises s i reply)
    (hs : BroadcastService.Step A s i out s') : ∀ m ∈ out, m.Sendable := by
  obtain ⟨t, hstep, -⟩ := raises_step (A := A) h
  exact bcError_sendable (hstep.symm.trans hs)

theorem notice_sendable {type : UInt8} {channelId o : UInt16} {code : UInt8} {u : Name} {g : Int32}
    {gname : List UInt8} (hg : gname.length ≤ 254) :
    (frame type channelId o (notice code u g gname)).Sendable := by
  apply frame_sendable
  have hu := name_length_le u
  rw [notice_length]
  omega

theorem farewells_sendable {bc : BcClient M} {channelId : UInt16} :
    ∀ m ∈ farewells s bc channelId, m.Sendable := by
  intro m hm
  obtain ⟨e, -, hm⟩ := List.mem_flatMap.mp hm
  obtain ⟨o, -, rfl⟩ := List.mem_map.mp hm
  exact notice_sendable (by simp)

theorem goodbyes_sendable {stack : UInt16 → TunnelMsgH} (rest : List (UInt16 × ℕ)) :
    ∀ m ∈ goodbyes s stack rest, m.Sendable := by
  induction rest with
  | nil => simp [goodbyes]
  | cons n rest ih =>
    intro m hm
    rcases List.mem_append.mp hm with hm | hm
    · split at hm
      · cases hm
      · unfold leavings at hm
        split at hm
        · exact farewells_sendable m hm
        · cases hm
    · rcases List.mem_cons.mp hm with rfl | hm
      · exact frame_sendable (by simp)
      · exact ih m hm

theorem step_sendable (h : Invariant A s) (hi : i.request.Sendable)
    (hs : BroadcastService.Step A s i out s') : ∀ m ∈ out, m.Sendable := by
  have hanswer : ∀ (g : Int32) (u : Name), (userAnswer g u).length < 2 ^ 31 ∧
      (groupAnswer g u).length < 2 ^ 31 := by
    intro g u
    have hu := name_length_le u
    simp only [userAnswer, groupAnswer, List.length_cons, List.length_append, be32_length]
    omega
  have hhandled := step_handled h hs
  generalize s'.clients = clients at hhandled
  generalize s'.heap = heap at hhandled
  intro m hm
  cases hhandled with
  | subscribed => cases hm
  | overlong => cases hm
  | share => cases hm
  | create => cases hm
  | other => cases hm
  | join hctrl hp hlive hname hg hheap =>
    obtain ⟨o, -, rfl⟩ := List.mem_map.mp hm
    exact notice_sendable (name_length_le _)
  | leave =>
    obtain ⟨o, -, rfl⟩ := List.mem_map.mp hm
    exact notice_sendable (by simp)
  | queryUser =>
    obtain ⟨o, -, rfl⟩ := List.mem_map.mp hm
    exact frame_sendable (hanswer _ _).1
  | queryGroup =>
    obtain ⟨e, -, rfl⟩ := List.mem_map.mp hm
    exact frame_sendable (hanswer _ _).2
  | data =>
    obtain ⟨o, -, rfl⟩ := List.mem_map.mp hm
    exact ⟨hi.small, hi.block⟩
  | unsubscribe =>
    rw [List.mem_singleton.mp hm]
    exact frame_sendable (by simp)
  | depart =>
    rcases List.mem_append.mp hm with hm | hm
    · exact farewells_sendable m hm
    · rw [List.mem_singleton.mp hm]
      exact frame_sendable (by simp)
  | queryUserRefused hctrl hp hlive hg hnone hrefusal =>
    exact raises_sendable (.group hctrl hp hlive hg hnone) hs m hm
  | unknownCode hctrl hp hcode hrefusal => exact raises_sendable (.code hctrl hp hcode) hs m hm
  | unmapped htype hnone hrefusal =>
    by_cases hsize : 0 < i.size ∧ i.size ≤ MAX_STR_LEN
    · exact raises_sendable (.client htype hsize hnone) hs m hm
    · exact raises_sendable (.size htype hsize) hs m hm
  | badSize htype hsize hrefusal => exact raises_sendable (.size htype hsize) hs m hm

end Sent

/-! ### The program against the service -/

section Program

variable {A : Antd} {stack : UInt16 → TunnelMsgH}

def input (p : Round × Heard) : Option Input :=
  match p.2 with
  | .message m received => some ⟨m, p.1.beyond, p.1.stack, received⟩
  | _ => none

/-- A turn handles what it has read, or nothing. -/
theorem turn_step {s u : Loop M} {r : Round} {heard : Heard} {out : List TunnelMsg}
    (h : turn A s r heard = .ok (u, out)) :
    (input (r, heard) = none ∧ out = [] ∧ u.service = s.service) ∨
      ∃ i, input (r, heard) = some i ∧ BroadcastService.Step A s.service i out u.service := by
  obtain ⟨⟨v, sent⟩, hheard, hend⟩ := ok_bind h
  obtain ⟨rfl, rfl⟩ := Prod.mk.inj (Except.ok.inj hend)
  cases heard with
  | nothing =>
    obtain ⟨rfl, rfl⟩ := Prod.mk.inj (Except.ok.inj hheard)
    exact .inl ⟨rfl, rfl, by split <;> rfl⟩
  | unreadable left =>
    obtain ⟨rfl, rfl⟩ := Prod.mk.inj (Except.ok.inj hheard)
    exact .inl ⟨rfl, rfl, rfl⟩
  | message m received =>
    obtain ⟨request, -, hstep⟩ := ok_bind hheard
    obtain ⟨⟨service, replies⟩, hservice, hlast⟩ := ok_bind hstep
    obtain ⟨rfl, rfl⟩ := Prod.mk.inj (Except.ok.inj hlast)
    exact .inr ⟨_, rfl, hservice⟩

theorem publisher_sound :
    Sound (publisher A stack) goesOn fun s : Loop M => Invariant A s.service where
  step := by
    rintro s ⟨r, heard⟩ out u hs hsendable ⟨-, -, hturn⟩
    rcases turn_step hturn with ⟨-, rfl, hsame⟩ | ⟨i, hi, hstep⟩
    · rw [hsame]
      exact ⟨hs, by simp⟩
    · refine ⟨step_preserves_invariant hs hstep, step_sendable hs ?_ hstep⟩
      cases heard with
      | message m received =>
        obtain rfl := Option.some.inj hi
        exact hsendable m received rfl
      | nothing => cases hi
      | unreadable left => cases hi
  running := by
    rintro s ⟨r, heard⟩ out u ⟨hrunning, -, hturn⟩
    have hs : s.running = true := hrunning
    obtain ⟨⟨v, sent⟩, hattend, hend⟩ := ok_bind hturn
    obtain ⟨rfl, -⟩ := Prod.mk.inj (Except.ok.inj hend)
    change (v.running && !r.interrupted) = goesOn (r, heard)
    rw [goesOn, Bool.and_comm]
    congr 1
    cases heard with
    | nothing =>
      obtain ⟨rfl, -⟩ := Prod.mk.inj (Except.ok.inj hattend)
      by_cases hfailed : r.status = -1 <;> simp [hfailed, hs]
    | unreadable left =>
      obtain ⟨rfl, -⟩ := Prod.mk.inj (Except.ok.inj hattend)
      rfl
    | message m received =>
      obtain ⟨request, -, hstep⟩ := ok_bind hattend
      obtain ⟨⟨service, replies⟩, -, hlast⟩ := ok_bind hstep
      obtain ⟨rfl, -⟩ := Prod.mk.inj (Except.ok.inj hlast)
      exact hs
  shutdown := by
    intro s out hs hout m hm
    obtain ⟨⟨t, sent⟩, hsweep, hend⟩ := ok_bind hout
    obtain rfl := Except.ok.inj hend
    rw [sweep_sends (sweeping_start hs (List.Perm.refl _)) (fun n hn => hn) hsweep] at hm
    rcases List.mem_append.mp hm with hm | hm
    · exact goodbyes_sendable _ m hm
    · rw [List.mem_singleton.mp hm]
      exact frame_sendable (by simp)

theorem run_service {s u : Loop M} {passes : List (Round × Heard)} {out : List TunnelMsg}
    (h : Execution (publisher A stack).Step s passes out u) :
    Execution (BroadcastService.Step A) s.service (passes.filterMap input) out u.service := by
  induction h with
  | refl => exact .refl _
  | @tail v w passes p out sent _ hstep ih =>
    obtain ⟨-, -, hturn⟩ := hstep
    rw [List.filterMap_append]
    rcases turn_step hturn with ⟨hnone, rfl, hsame⟩ | ⟨i, hi, hservice⟩
    · rw [List.filterMap_cons_none hnone, List.filterMap_nil, List.append_nil, List.append_nil,
        hsame]
      exact ih
    · rw [List.filterMap_cons_some hi, List.filterMap_nil]
      exact ih.tail hservice

theorem openChannel_eq {name : ChannelOpening.Argument} {named : TunnelMsg}
    (h : openChannel name = some named) :
    named.Sendable ∧ encode named = encode (frame CHANNEL_OPEN 0 0 name.bytes) := by
  have hshort : name.bytes.length < MAX_STR_LEN + 1 := by
    by_contra hlong
    have hnone : strlen (strncpy name.bytes (MAX_STR_LEN + 1)) = none := by
      rw [strncpy_of_le_length name.noNul (by omega), strlen, if_neg]
      exact fun hmem => name.noNul (List.mem_of_mem_take hmem)
    simp [openChannel, hnone] at h
  obtain ⟨k, hk⟩ : ∃ k, MAX_STR_LEN + 1 - name.bytes.length = k + 1 :=
    ⟨MAX_STR_LEN - name.bytes.length, by omega⟩
  have hbuffer : strncpy name.bytes (MAX_STR_LEN + 1) = name.bytes ++ List.replicate (k + 1) 0 := by
    rw [strncpy_of_length_lt name.noNul hshort, hk]
  have hlen : strlen (strncpy name.bytes (MAX_STR_LEN + 1)) = some name.bytes.length := by
    rw [hbuffer, List.replicate_succ, strlen_append name.noNul]
    simp [strlen, cString]
  have hmax : name.bytes.length < 2 ^ 31 := by
    unfold MAX_STR_LEN at hshort
    omega
  have hsize : (UInt32.ofNat name.bytes.length).toNat = name.bytes.length :=
    UInt32.toNat_ofNat_of_lt' (lt_trans hmax (by decide))
  simp only [openChannel, hlen, Option.map_some, Option.some.injEq] at h
  subst h
  rw [hbuffer]
  refine ⟨⟨?_, ?_⟩, ?_⟩
  · simpa [hsize] using hmax
  · simp [hsize]
  · rw [encode, encode, frame_payload (by omega)]
    simp [frame, TunnelMsg.payload, hsize]

/-- What a run of the program sends and receives, for any bytes of the peer and however the kernel
cuts them. If it ends without a fault, it has read an answer and what its rounds hear of the bytes
behind it, nothing in a round without bytes and everything up to the round that ends the loop; the
service has handled exactly the messages among this; the frames written are those of the request
for the channel, of what the service sends, of the goodbyes to the clients that are left, and of
the request to close the channel; and the answer to this is looked for in what is left. -/
theorem main_serves {name : ChannelOpening.Argument} {response : TunnelMsg}
    {cuts short : List IoResult} (hcuts : AllPositive cuts) (hshort : AllPositive short)
    {stream : List UInt8} {rounds : List Round} {fd : Hotline}
    (h : main M A name response stack ⟨⟨cuts, stream⟩, ⟨short, []⟩⟩ rounds = some (.ok (0, fd))) :
    ∃ answer rest heard left out, ∃ closing : TunnelMsgH, ∃ s : State M,
      answer.Received ∧ stream = encode answer ++ rest ∧
      Hears readable goesOn (answer.header.type = CHANNEL_OK) rounds rest heard left ∧
      Execution (BroadcastService.Step A) (initial A answer) ((rounds.zip heard).filterMap input)
        out s ∧
      fd.output.wire = (frame CHANNEL_OPEN 0 0 name.bytes :: out ++
        goodbyes s stack (entries s.clients) ++
        [frame CHANNEL_CLOSE closing.channelId closing.clientId []]).flatMap encode ∧
      fd.input.stream = (msgRead ⟨[], left⟩ ⟨s.response, none⟩).2.2.stream := by
  obtain ⟨named, hnamed, hmain⟩ := Option.map_eq_some_iff.mp h
  obtain ⟨hsendable, hopen⟩ := openChannel_eq hnamed
  obtain ⟨answer, rest, heard, left, out, bye, s, hanswer, hstream, hheard, hrun, hbye, hinput,
    hwire⟩ := PublisherProgram.program_serves publisher_sound hsendable
      (fun answer => initial_invariant A answer) hcuts hshort hmain
  obtain ⟨⟨t, sent⟩, hsweep, hend⟩ := ok_bind hbye
  obtain rfl := Except.ok.inj hend
  have hservice := run_service hrun
  have hs : Invariant A s.service := reachable_invariant ⟨_, _, _, hservice⟩
  have hsent := sweep_sends (sweeping_start hs (List.Perm.refl _)) (fun n hn => hn) hsweep
  refine ⟨answer, rest, heard, left, out, s.request, s.service, hanswer, hstream, hheard, hservice,
    ?_, hinput⟩
  rw [hwire, hopen, hsent]
  simp [List.flatMap_append, List.append_assoc]

/-- The bytes of the hotline, and nothing else of it. -/
def visible (r : ℤ × Hotline) : ℤ × List UInt8 × List UInt8 :=
  (r.1, r.2.input.stream, r.2.output.wire)

/-- The turn that reads this message. -/
def pass (i : Input) : Round × Heard :=
  (⟨1, i.beyond, i.stack, false⟩, .message i.request i.received)

theorem service_run {s : State M} {inputs : List Input} {out : List TunnelMsg} {u : State M}
    (h : Execution (BroadcastService.Step A) s inputs out u) (request : TunnelMsgH) :
    ∃ request', Execution (publisher A stack).Step ⟨s, request, true⟩ (inputs.map pass) out
      ⟨u, request', true⟩ := by
  induction h with
  | refl => exact ⟨request, .refl _⟩
  | @tail v w inputs i out sent _ hstep ih =>
    obtain ⟨request', hrun⟩ := ih
    obtain ⟨left, hleft⟩ : ∃ left, requestAfter v i = .ok left := by
      unfold requestAfter
      split
      · next htype =>
        have hdata : channelData v i = .ok (w, sent) := by
          have hstep' : step A v i = .ok (w, sent) := hstep
          simpa [step, htype, CHANNEL_DATA, CHANNEL_SUBSCRIBE, CHANNEL_CTRL] using hstep'
        obtain ⟨hash, hword, hnotify⟩ := ok_bind hdata
        obtain ⟨⟨msg, replies⟩, hsent, -⟩ := ok_bind hnotify
        exact ⟨msg.header, by rw [hword]; simp [bind, Except.bind, hsent, pure, Except.pure]⟩
      · exact ⟨_, rfl⟩
    refine ⟨left, ?_⟩
    rw [List.map_append, List.map_singleton]
    refine hrun.tail ⟨rfl, by simp [publisher, pass, readable], ?_⟩
    have hhandled : step A v ⟨i.request, i.beyond, i.stack, i.received⟩ = .ok (w, sent) := hstep
    simp [publisher, pass, turn, attend, handle, hleft, hhandled, bind, Except.bind, pure,
      Except.pure]

/-- A run of the service that goes through, and its sweep, is what the program does on the bytes of
its messages. -/
theorem main_returns {name : ChannelOpening.Argument} (hname : name.bytes.length ≤ MAX_STR_LEN)
    (response : TunnelMsg) {cuts short : List IoResult} (hcuts : AllPositive cuts)
    (hshort : AllPositive short) {answer : TunnelMsg} (hanswer : answer.Received)
    (hok : answer.header.type = CHANNEL_OK) (hsmall : answer.header.size.toNat < 2 ^ 31)
    {inputs : List Input} (hinputs : ∀ i ∈ inputs, i.size < 2 ^ 31) {out : List TunnelMsg}
    {s : State M} (hrun : Execution (BroadcastService.Step A) (initial A answer) inputs out s)
    {t : State M} {bye : List TunnelMsg}
    (hsweep : unsubscribeAll s stack (entries s.clients) = .ok (t, bye)) (rest : List UInt8) :
    ∃ fd, main M A name response stack
      ⟨⟨cuts, encode answer ++ ((inputs.flatMap fun i => encode i.request) ++ rest)⟩, ⟨short, []⟩⟩
      (inputs.map fun i => (pass i).1) = some (.ok (0, fd)) := by
  obtain ⟨named, hnamed⟩ : ∃ named, openChannel name = some named := by
    have hmem : (0 : UInt8) ∈ strncpy name.bytes (MAX_STR_LEN + 1) := by
      rw [strncpy_of_length_lt name.noNul (by omega)]
      simp
      omega
    simp [openChannel, strlen, hmem]
  obtain ⟨request, hpasses⟩ := service_run hrun named.header
  have hbye : (publisher A stack).shutdown (⟨s, request, true⟩ : Loop M) =
      .ok (bye ++ [frame CHANNEL_CLOSE request.channelId request.clientId []]) := by
    simp [publisher, finish, hsweep, bind, Except.bind, pure, Except.pure]
  have hlegible : ∀ p ∈ inputs.map pass, Legible p.2 := by
    intro p hp
    obtain ⟨i, hi, rfl⟩ := List.mem_map.mp hp
    exact legible_message i.received (hinputs i hi)
  have hstart : (loopHead A named answer : Loop M) = ⟨initial A answer, named.header, true⟩ := by
    simp [loopHead, hok]
  rw [← hstart] at hpasses
  obtain ⟨fd, hmain⟩ := PublisherProgram.main_returns (openChannel_eq hnamed).1 hanswer hsmall
    (x := ⟨⟨cuts, encode answer ++ (((inputs.map pass).flatMap fun p => p.2.bytes) ++ rest)⟩,
      ⟨short, []⟩⟩) hcuts hshort hpasses hbye hlegible rfl response
  refine ⟨fd, ?_⟩
  simp only [main, hnamed, Option.map_some, Option.some.injEq]
  rw [List.map_map, List.flatMap_map] at hmain
  exact hmain

end Program

theorem nameless : (0 : UInt8) ∉ [(0x62 : UInt8)] := by decide

def board : ChannelOpening.Argument := ⟨[0x62], nameless⟩

def visit : List Input := [.subscribe 1 65, .ctrl 1 0x0A 71]

def visitRounds : List Round := visit.map fun i => (pass i).1

def visitBytes : List UInt8 :=
  encode channelOk ++ ((visit.flatMap fun i => encode i.request) ++ [])

theorem visit_returns : ∃ fd, main AssocList firstByteHost board channelOk
    (fun _ => ⟨0, 0, 0, 0⟩) ⟨⟨[.count 1, .count 5], visitBytes⟩, ⟨[.count 3], []⟩⟩ visitRounds =
      some (.ok (0, fd)) := by
  have hrun : Execution (BroadcastService.Step firstByteHost) (initial firstByteHost channelOk)
      visit _ (stateAfter firstByteHost channelOk visit : State AssocList) := forEach_execution rfl
  obtain ⟨⟨t, bye⟩, hsweep⟩ : ∃ r, unsubscribeAll
      (stateAfter firstByteHost channelOk visit : State AssocList) (fun _ => ⟨0, 0, 0, 0⟩)
      (entries (stateAfter firstByteHost channelOk visit : State AssocList).clients) = .ok r :=
    ⟨_, rfl⟩
  exact main_returns (by decide) channelOk (by decide) (by decide) (by decide) rfl (by decide)
    (by decide) hrun hsweep []

/-- Client 1 comes in as A and joins G: it is told so, and at the end dismissed from both. -/
theorem main_serves_one_client : ∃ fd out, ∃ closing : TunnelMsgH, ∃ s : State AssocList,
    main AssocList firstByteHost board channelOk (fun _ => ⟨0, 0, 0, 0⟩)
      ⟨⟨[.count 1, .count 5], visitBytes⟩, ⟨[.count 3], []⟩⟩ visitRounds = some (.ok (0, fd)) ∧
    Execution (BroadcastService.Step firstByteHost) (initial firstByteHost channelOk) visit out s ∧
    out = [frame CHANNEL_CTRL 1 1 [0x0A, 1, 65, 0, 0, 0, 71, 71]] ∧
    fd.output.wire = (frame CHANNEL_OPEN 0 0 [0x62] :: out ++
      [frame CHANNEL_CTRL 0 1 [0x0B, 1, 65, 0, 0, 0, 71], frame CHANNEL_UNSUBSCRIBE 0 1 []] ++
      [frame CHANNEL_CLOSE closing.channelId closing.clientId []]).flatMap encode := by
  obtain ⟨fd, hmain⟩ := visit_returns
  obtain ⟨answer, rest, heard, left, out, closing, s, hanswer, hstream, hheard, hrun, hwire, -⟩ :=
    main_serves (by decide) (by decide) hmain
  obtain ⟨rfl, rfl⟩ : channelOk = answer ∧ (visit.flatMap fun i => encode i.request) ++ [] = rest :=
    encode_received_inj (by decide) hanswer hstream
  have hsmall : ∀ i ∈ visit, i.size < 2 ^ 31 := by decide
  have hpasses : ∀ p ∈ visit.map pass, Legible p.2 ∧
      (readable p.1 = false ↔ p.2 = .nothing) ∧ goesOn p = true := by
    intro p hp
    obtain ⟨i, hi, rfl⟩ := List.mem_map.mp hp
    exact ⟨legible_message i.received (hsmall i hi), by simp [readable, pass], rfl⟩
  obtain ⟨rfl, rfl⟩ : heard = (visit.map pass).map Prod.snd ∧ left = [] :=
    hears_passes hpasses hheard
  have hvisit : Execution (BroadcastService.Step firstByteHost) (initial firstByteHost channelOk)
      visit out s := hrun
  obtain ⟨rfl, rfl⟩ := hvisit.unique (forEach_execution rfl :
    Execution (BroadcastService.Step firstByteHost) (initial firstByteHost channelOk) visit
      [frame CHANNEL_CTRL 1 1 [0x0A, 1, 65, 0, 0, 0, 71, 71]]
      (stateAfter firstByteHost channelOk visit : State AssocList))
  exact ⟨fd, _, closing, _, hmain, hvisit, rfl, hwire⟩

end BroadcastProgram
