import TunnelPublishers.VtermSessions

/-!
# Both directions of a terminal

A write directly follows the message it is for, and a frame the read it carries, so
the sequences on the two sides can be compared over a whole run.
-/
namespace VtermStreams

open ByteOrder FiniteMaps FiniteMap TunnelFraming ExecutionTraces KernelTables VtermService
  VtermTerminals VtermSignals VtermMembership VtermDescriptors VtermIsolation VtermSessions

variable {M : Type → Type → Type} [FiniteMap M]

/-! ### Output -/

/-- No output is read and none is sent. -/
def Mute : Event → Prop
  | .read _ (some _) => False
  | .sent m => m.header.type ≠ CHANNEL_DATA
  | _ => True

section Output

variable {c : UInt16} {l : Ledger} {out : List Event} {d d' : Terminals}
  {answers : UInt16 → Answers} {table : List ℤ}

theorem readsFor_append (l : Ledger) (a b : List Act) :
    readsFor c l (a ++ b) = readsFor c l a ++ readsFor c (a.foldl Ledger.after l) b := by
  induction a generalizing l with
  | nil => rfl
  | cons act a ih =>
    rw [List.cons_append, readsFor, readsFor, ih, List.append_assoc, List.foldl_cons]

theorem dataTo_append (a b : List Act) : dataTo c (a ++ b) = dataTo c a ++ dataTo c b := by
  rw [dataTo, events_append, List.filterMap_append]
  rfl

/-- What the terminals of a client print is sent to it as it is read. -/
def Relayed (c : UInt16) (l : Ledger) (acts : List Act) : Prop :=
  dataTo c acts = (readsFor c l acts).filter (· ≠ [])

theorem relayed_append {a b : List Act} (ha : Relayed c l a)
    (hb : Relayed c (a.foldl Ledger.after l) b) : Relayed c l (a ++ b) := by
  rw [Relayed, dataTo_append, readsFor_append, List.filter_append, ha, hb]

theorem relayed_mute (h : ∀ e ∈ out, Mute e) : Relayed c l (out.map .did) := by
  induction out generalizing l with
  | nil => rfl
  | cons e out ih =>
    obtain ⟨he, hout⟩ := List.forall_mem_cons.mp h
    refine relayed_append (a := [.did e]) ?_ (ih hout)
    cases e with
    | sent m => simp [Relayed, dataTo, events, readsFor, readBy, show m.header.type ≠ _ from he]
    | read fd bytes =>
      cases bytes with
      | none => rfl
      | some bytes => exact he.elim
    | _ => rfl

/-- A chunk is sent to the client that holds the terminal. -/
theorem relayed_chunk {c' : UInt16} {p : ℕ} {proc : VtermProc} (hheld : Held d l.holder)
    (hd : d c' = some (p, proc)) {bytes : List UInt8} (hne : bytes ≠ [])
    (hsmall : bytes.length < 2 ^ 32) (channelId : UInt16) :
    Relayed c l ([Event.read proc.fdm (some bytes),
      .sent (frame CHANNEL_DATA channelId c' bytes)].map .did) := by
  have hholder := hheld c' proc.fdm (master_eq hd)
  have hpayload : (frame CHANNEL_DATA channelId c' bytes).payload = bytes := frame_payload hsmall
  have htype : (frame CHANNEL_DATA channelId c' bytes).header.type = CHANNEL_DATA := rfl
  have hclient : (frame CHANNEL_DATA channelId c' bytes).header.clientId = c' := rfl
  by_cases hc : c' = c
  · subst hc
    simp [Relayed, dataTo, events, readsFor, readBy, hholder, htype, hclient, hpayload, hne]
  · simp [Relayed, dataTo, events, readsFor, readBy, hholder, hclient, hc]

theorem mute_ending : Ending Mute where
  closed _ := trivial
  process _ := trivial
  released _ := trivial
  stale _ := trivial

/-- The end of a session carries no data. -/
theorem mute_notice (channelId c : UInt16) :
    Mute (.sent (frame CHANNEL_UNSUBSCRIBE channelId c [])) :=
  (by decide : CHANNEL_UNSUBSCRIBE ≠ CHANNEL_DATA)

theorem terminalNew_mute (spawn : Spawn) (user : List UInt8) :
    ∀ e ∈ (terminalNew spawn user).2, Mute e := by
  rcases terminalNew_cases spawn user with ⟨-, hnew⟩ | ⟨-, -, hnew⟩ | ⟨-, -, hnew⟩ <;> rw [hnew]
  · simp
  · simp [Mute]
  · split <;> split <;> simp [Mute]

theorem handle_mute {spawn : Spawn} {a : Answers} {i : Input} (hmove : Handle spawn a i d out d') :
    ∀ e ∈ out, Mute e := by
  have hlast : ∀ before : List Event, (∀ e ∈ before, Mute e) →
      ∀ e ∈ before ++ [refuse i.request.header], Mute e := fun before h =>
    List.forall_mem_append.mpr ⟨h, List.forall_mem_singleton.mpr (mute_notice _ _)⟩
  have hnew := terminalNew_mute spawn (cString i.memory)
  cases hmove with
  | refused _ heq =>
    rw [heq] at hnew
    exact hlast _ hnew
  | created _ heq =>
    rw [heq] at hnew
    exact hnew
  | @left p proc => exact ending_killed mute_ending p proc a
  | stranger | resized | wrote | ignored => simp [Mute]
  | @broken p proc =>
    exact hlast _ (List.forall_mem_cons.mpr ⟨trivial, ending_killed mute_ending p proc a⟩)
  | unwritable => exact hlast [] (by simp)

theorem watch_relayed (hheld : Held d l.holder) (hmove : Watch answers d out d') :
    Relayed c l (out.map .did) := by
  cases hmove with
  | @silent c' p proc =>
    simp only [Relayed, dataTo, events, readsFor, readBy, List.map_cons, List.map_nil]
    split <;> rfl
  | forwarded hd hne hsmall => exact relayed_chunk hheld hd hne hsmall _
  | @undelivered c' p proc bytes channelId hd hne hsmall =>
    have hkilled : Relayed c ([Act.did (.read proc.fdm (some bytes)),
        .did (.sent (frame CHANNEL_DATA channelId c' bytes))].foldl Ledger.after l)
        ((killed p proc (answers c')).map .did) :=
      relayed_mute (ending_killed mute_ending p proc (answers c'))
    exact relayed_append (relayed_chunk hheld hd hne hsmall channelId) hkilled
  | @failed c' p proc =>
    exact relayed_mute (List.forall_mem_cons.mpr
      ⟨trivial, ending_killed mute_ending p proc (answers c')⟩)
  | freed p => exact relayed_mute (by simp [Mute])

theorem poll_mute (hmove : Poll answers d out d') : ∀ e ∈ out, Mute e := by
  cases hmove with
  | alive => simp [Mute]
  | @exited c p proc channelId =>
    exact List.forall_mem_cons.mpr
      ⟨trivial, ending_dismissed mute_ending p proc (mute_notice _ _) (answers c)⟩

end Output

theorem shutdown_mute {s : State M} (h : Records s []) (answers : UInt16 → Answers)
    (stack : TunnelMsgH) : ∀ e ∈ shutdown s answers stack, Mute e := by
  obtain ⟨out, hsweep, hout⟩ := shutdown_clears h answers stack
  have hmute : ∀ e ∈ out, Mute e := by
    refine Runs.invariant (I := fun _ out => ∀ e ∈ out, Mute e) ?_ hsweep (by simp)
    intro d past out d' hpast hmove
    cases hmove with
    | @quit c p proc channelId =>
      exact List.forall_mem_append.mpr
        ⟨hpast, ending_dismissed mute_ending p proc (mute_notice _ _) (answers c)⟩
  have hclose : CHANNEL_CLOSE ≠ CHANNEL_DATA := by decide
  rw [hout]
  exact List.forall_mem_append.mpr ⟨hmute, List.forall_mem_singleton.mpr hclose⟩

/-- The terminals are in the right hands, and what was read of them so far is sent. -/
def Relays (d : Terminals) (acts : List Act) : Prop :=
  Isolated d acts ∧
    (AllUnused [] (descriptors (events acts)) → ∀ c, Relayed c blank acts)

theorem Relays.append {d d' : Terminals} {past acts : List Act} (h : Relays d past)
    (hisolated : Isolated d' (past ++ acts))
    (hmove : Held d (ledger past).holder → ∀ c, Relayed c (ledger past) acts) :
    Relays d' (past ++ acts) := by
  refine ⟨hisolated, fun hunused c => ?_⟩
  rw [events_append, descriptors_append] at hunused
  have hpast := (along_append.mp hunused).1
  exact relayed_append (h.2 hpast c) (hmove (h.1 hpast).2 c)

theorem relays_preserved : Preserved (M := M) (fun _ _ => True) Relays where
  poll s p d past out d' hC h hmove :=
    h.append (isolated_preserved.poll s p d past out d' hC h.1 hmove)
      fun _ _ => relayed_mute (poll_mute hmove)
  handle s p i past out d' hC hsel hrecords h hmove :=
    h.append (isolated_preserved.handle s p i past out d' hC hsel hrecords h.1 hmove)
      fun _ _ => relayed_append (a := [_]) rfl (relayed_mute (handle_mute hmove))
  watch s p d past out d' hC hsel hrecords hsub h hmove :=
    h.append (isolated_preserved.watch s p d past out d' hC hsel hrecords hsub h.1 hmove)
      fun hheld _ => watch_relayed hheld hmove

/-! ### Input -/

/-- What is handed to `write` on a descriptor. -/
def handed (fd : ℤ) (acts : List Act) : List (List UInt8) :=
  (events acts).filterMap fun
    | .wrote fd' bytes _ => if fd' = fd then some bytes else none
    | _ => none

/-- The payloads of the DATA messages for which a descriptor is registered when they come. -/
def addressed (fd : ℤ) (acts : List Act) : List (List UInt8) :=
  acts.filterMap fun
    | .received m registered =>
      if m.header.type = CHANNEL_DATA ∧ registered = some fd then some m.payload else none
    | .did _ => none

section Input

variable {fd : ℤ} {out : List Event}

theorem handed_append (a b : List Act) : handed fd (a ++ b) = handed fd a ++ handed fd b := by
  rw [handed, events_append, List.filterMap_append]
  rfl

theorem addressed_append (a b : List Act) :
    addressed fd (a ++ b) = addressed fd a ++ addressed fd b :=
  List.filterMap_append

theorem addressed_did (out : List Event) : addressed fd (out.map .did) = [] := by
  simp [addressed, List.filterMap_map]

theorem handed_plain (h : ∀ e ∈ out, Plain e) : handed fd (out.map .did) = [] := by
  rw [handed, events_did]
  apply List.filterMap_eq_nil_iff.mpr
  intro e he
  cases e with
  | wrote => exact (h _ he).elim
  | _ => rfl

theorem watch_handed {answers : UInt16 → Answers} {d d' : Terminals}
    (hmove : Watch answers d out d') : handed fd (out.map .did) = [] := by
  cases hmove with
  | silent | forwarded | freed => rfl
  | @undelivered c p proc | @failed c p proc =>
    have hkilled : handed fd ((killed p proc (answers c)).map .did) = [] :=
      handed_plain (killed_plain p proc (answers c))
    exact hkilled

/-- A message leads to one write of its payload, if it is DATA for a registered descriptor. -/
theorem handle_handed {spawn : Spawn} {a : Answers} {i : Input} {d d' : Terminals}
    (hmove : Handle spawn a i d out d') :
    handed fd (out.map .did) = addressed fd [.received i.request (master d i.client)] := by
  have hother : i.request.header.type ≠ CHANNEL_DATA →
      addressed fd [.received i.request (master d i.client)] = [] := by
    intro h
    simp [addressed, h]
  have hnew := terminalNew_plain spawn (cString i.memory)
  cases hmove with
  | refused htype heq =>
    rw [heq] at hnew
    rw [handed_plain (plain_refuse i.request.header hnew), hother (by rw [htype]; decide)]
  | created htype heq =>
    rw [heq] at hnew
    rw [handed_plain hnew, hother (by rw [htype]; decide)]
  | @left p proc htype =>
    rw [handed_plain (killed_plain p proc a), hother (by rw [htype]; decide)]
  | stranger htype | resized htype => exact (hother (by rw [htype]; decide)).symm
  | @wrote p proc htype hd =>
    by_cases hfd : proc.fdm = fd <;>
      simp [handed, addressed, events, htype, master_eq hd, hfd]
  | @broken p proc htype hd =>
    have hrest : handed fd ((killed p proc a ++ [refuse i.request.header]).map .did) = [] :=
      handed_plain (plain_refuse i.request.header (killed_plain p proc a))
    rw [List.cons_append, List.map_cons, ← List.singleton_append, handed_append, hrest]
    by_cases hfd : proc.fdm = fd <;>
      simp [handed, addressed, events, htype, master_eq hd, hfd]
  | unwritable htype hd => simp [handed, addressed, events, refuse, master, hd]
  | ignored _ _ hdata => exact (hother hdata).symm

end Input

theorem handed_preserved (fd : ℤ) :
    Preserved (M := M) (fun _ _ => True) fun _ acts => handed fd acts = addressed fd acts where
  poll s p d past out d' _ h hmove := by
    have hout : handed fd (out.map .did) = [] := by
      cases hmove with
      | alive => rfl
      | @exited c p proc channelId =>
        exact handed_plain (List.forall_mem_cons.mpr
          ⟨trivial, dismissed_plain p proc c channelId _⟩)
    rw [handed_append, addressed_append, h, hout, addressed_did]
  handle s p i past out d' _ _ _ h hmove := by
    rw [List.append_cons, handed_append, handed_append, addressed_append, addressed_append, h,
      handle_handed hmove, addressed_did]
    simp [handed, events]
  watch s p d past out d' _ _ _ _ h hmove := by
    rw [handed_append, addressed_append, h, watch_handed hmove, addressed_did]

/-- Neither direction drops or reorders anything: in every run to the exit, what is handed to a
descriptor is the DATA payloads that came while it was registered for their clients; and if the
kernel opens no descriptor that is open, the DATA frames to a client carry all the chunks read of
its terminals, up to empty reads. -/
theorem streams_complete {A : Antd} {answer : TunnelMsgH} {passes : List Pass} {acts : List Act}
    {s : State M} {answers : UInt16 → Answers} {stack : TunnelMsgH} {whole : List Act}
    (hrun : Execution (Logged A) (initial answer) passes acts s)
    (hwhole : whole = acts ++ (exit s answers stack).map .did) :
    (∀ fd, handed fd whole = addressed fd whole) ∧
      (AllUnused [] (descriptors (events acts)) →
        ∀ c, dataTo c whole = (readsFor c blank whole).filter (· ≠ [])) := by
  have hlogged := hrun.mono (S := fun s p acts s' => Logged A s p acts s' ∧ True)
    fun _ _ _ _ hstep => ⟨hstep, trivial⟩
  obtain ⟨hrelays, hrecords⟩ := relays_preserved.run
    ⟨fun _ => ⟨trivial, fun c fd hfd => (by cases hfd)⟩, fun _ _ => rfl⟩ hlogged
  rw [hwhole]
  constructor
  · intro fd
    rw [handed_append, addressed_append, ((handed_preserved fd).run rfl hlogged).1,
      handed_plain (fun e he => shutdown_plain hrecords answers stack e (mem_exit he)),
      addressed_did]
  · intro hunused c
    exact relayed_append (hrelays.2 hunused c)
      (relayed_mute fun e he => shutdown_mute hrecords answers stack e (mem_exit he))

/-- Client 1 types a letter, and its terminal prints a byte. -/
theorem streams_complete_one_client :
    addressed 5 conversedWhole = [[98]] ∧ readsFor 1 blank conversedWhole = [[9]] ∧
    (∀ fd, handed fd conversedWhole = addressed fd conversedWhole) ∧
    ∀ c, dataTo c conversedWhole = (readsFor c blank conversedWhole).filter (· ≠ []) :=
  ⟨by decide +kernel, by decide +kernel, (streams_complete conversed_run rfl).1,
    (streams_complete conversed_run rfl).2 (by decide +kernel)⟩

end VtermStreams
