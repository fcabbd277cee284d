import TunnelPublishers.VtermSessions

/-!
# The size of a terminal

The kernel keeps a size for every terminal, and a change of size asks it for the
old one first. What a client asks for is read off its messages alone.
-/
namespace VtermSizes

open ByteOrder FiniteMaps FiniteMap TunnelFraming ExecutionTraces KernelTables VtermService
  VtermTerminals VtermSignals VtermMembership VtermDescriptors VtermSessions

variable {M : Type → Type → Type} [FiniteMap M]

/-- Rows and columns. -/
abbrev Size := UInt16 × UInt16

/-! ### What a client asks for -/

/-- Of a number in network order the low half counts, unless it is negative. -/
def override (bytes : List UInt8) (old : UInt16) : UInt16 :=
  match bytes with
  | [top, _, high, low] => if top < 128 then word16 [low, high] else old
  | _ => old

/-- The columns come before the rows. -/
def overrideBoth (payload : List UInt8) (old : Size) : Size :=
  (override (payload.drop 4) old.1, override (payload.take 4) old.2)

/-- What a client has asked for after one more act. -/
def heardSize (c : UInt16) (size : Size) : Act → Size
  | .received m _ =>
    if m.header.clientId = c then
      if m.header.type = CHANNEL_SUBSCRIBE then (0, 0)
      else if m.header.type = CHANNEL_CTRL ∧ m.header.size.toNat = 8 then
        overrideBoth m.payload size
      else size
    else size
  | .did _ => size

/-- The size that the messages of a client come to since its last SUBSCRIBE. -/
def asked (c : UInt16) (acts : List Act) : Size := acts.foldl (heardSize c) (0, 0)

theorem override_word {bytes : List UInt8} (h : bytes.length = 4) (old : UInt16) :
    (if 0 ≤ (ntohl (word32 bytes)).toInt32 then (ntohl (word32 bytes)).toInt32.toUInt32.toUInt16
      else old) = override bytes old := by
  have hmem := mem32_word32 h
  match bytes, h with
  | [a, b, c, d], _ =>
    have hword : ntohl (word32 [a, b, c, d]) = word32 [d, c, b, a] := by
      simp [ntohl, htonl, hmem]
    rw [hword]
    have ha := a.toNat_lt
    have hb := b.toNat_lt
    have hc := c.toNat_lt
    have hd := d.toNat_lt
    have hnat : (word32 [d, c, b, a]).toNat =
        d.toNat + 256 * (c.toNat + 256 * (b.toNat + 256 * a.toNat)) := by
      rw [word32, UInt32.toNat_ofNat']
      simp only [ofLE]
      omega
    have hsign : 0 ≤ (word32 [d, c, b, a]).toInt32 ↔ a < 128 := by
      have hint : (word32 [d, c, b, a]).toInt32.toInt =
          (word32 [d, c, b, a]).toBitVec.toInt := rfl
      have htop : (128 : UInt8).toNat = 128 := rfl
      have hzero : (0 : Int32).toInt = 0 := rfl
      rw [Int32.le_iff_toInt_le, hint, BitVec.toInt_eq_toNat_cond, UInt32.toNat_toBitVec, hnat,
        UInt8.lt_iff_toNat_lt, htop, hzero]
      split <;> omega
    have hlow : (word32 [d, c, b, a]).toUInt16 = word16 [d, c] := by
      apply UInt16.toNat_inj.mp
      rw [UInt32.toNat_toUInt16, hnat, word16, UInt16.toNat_ofNat']
      simp only [ofLE]
      omega
    simp only [override, hsign, UInt32.toUInt32_toInt32, hlow]

/-! ### What the kernel has -/

abbrev Windows := ℤ → Size

def unsized : Windows := fun _ => (0, 0)

/-- The sizes after one more event. A new terminal has none. -/
def sized (table : Windows) : Event → Windows
  | .opened fd => Function.update table fd (0, 0)
  | .resized fd row col => Function.update table fd (row, col)
  | _ => table

/-- The size of a terminal that has one is what the service gave it last. -/
def Answered (table : Windows) (s : State M) (p : Pass) : Prop :=
  ∀ i, p.selected = .message i → i.request.header.type = CHANNEL_CTRL →
    ∀ fd, master (terminals (monitorProcesses s p).1) i.client = some fd →
      (p.answers i.client).winsize = .inr (table fd) ∨
        (p.answers i.client).winsize = .inl true ∧ table fd = (0, 0)

/-- A turn, and what it does to the kernel's sizes. -/
def windowTurn (A : Antd) (x : State M × Windows) (p : Pass) : (State M × Windows) × List Act :=
  (((turn A x.1 p).1, (turn A x.1 p).2.foldl sized x.2), log A x.1 p)

def Windowed (A : Antd) (x : State M × Windows) (p : Pass) (acts : List Act)
    (y : State M × Windows) : Prop :=
  Guarded (fun x => x.1.going) (windowTurn A) x p acts y ∧ Answered x.2 x.1 p

/-- Every terminal has the size its client asked for. -/
def Fits (d : Terminals) (table : Windows) (acts : List Act) : Prop :=
  ∀ c fd, master d c = some fd → table fd = asked c acts

section Moves

variable {d d' : Terminals} {table : Windows} {past : List Act} {out : List Event}
  {answers : UInt16 → Answers} {c : UInt16}

/-- No size changes. -/
def Inert : Event → Prop
  | .opened _ => False
  | .resized .. => False
  | _ => True

theorem sized_inert (h : ∀ e ∈ out, Inert e) (table : Windows) : out.foldl sized table = table := by
  induction out with
  | nil => rfl
  | cons e out ih =>
    obtain ⟨he, hout⟩ := List.forall_mem_cons.mp h
    have hstay : sized table e = table := by
      cases e with
      | opened | resized => exact he.elim
      | _ => rfl
    rw [List.foldl_cons, hstay, ih hout]

theorem asked_did (past : List Act) (out : List Event) :
    asked c (past ++ out.map .did) = asked c past := by
  rw [asked, asked, List.foldl_append, List.foldl_map]
  generalize past.foldl (heardSize c) (0, 0) = size
  induction out with
  | nil => rfl
  | cons e out ih => exact ih

theorem asked_received (past : List Act) (m : TunnelMsg) (registered : Option ℤ) :
    asked c (past ++ [.received m registered]) =
      heardSize c (asked c past) (.received m registered) := by
  rw [asked, List.foldl_append]
  rfl

/-- Terminals are lost at most, and no size changes. -/
def Settles (d : Terminals) (out : List Event) (d' : Terminals) : Prop :=
  (∀ e ∈ out, Inert e) ∧ ∀ c fd, master d' c = some fd → master d c = some fd

theorem Fits.settle (h : Fits d table past) (hmove : Settles d out d') :
    Fits d' (out.foldl sized table) (past ++ out.map .did) := by
  intro c fd hfd
  rw [sized_inert hmove.1, asked_did]
  exact h c fd (hmove.2 c fd hfd)

theorem settles_stay (h : ∀ e ∈ out, Inert e) : Settles d out d :=
  ⟨h, fun _ _ hfd => hfd⟩

theorem settles_lost (h : ∀ e ∈ out, Inert e) : Settles d out (Function.update d c none) := by
  refine ⟨h, fun c' fd hfd => ?_⟩
  rw [master_update] at hfd
  split at hfd
  · cases hfd
  · exact hfd

theorem settles_runs {R : Terminals → List Event → Terminals → Prop}
    (hR : ∀ d out d', R d out d' → Settles d out d') (h : Runs R d out d') : Settles d out d' := by
  induction h with
  | refl => exact settles_stay (by simp)
  | tail _ hstep ih =>
    obtain ⟨hinert, hshrinks⟩ := hR _ _ _ hstep
    exact ⟨List.forall_mem_append.mpr ⟨ih.1, hinert⟩,
      fun c fd hfd => ih.2 c fd (hshrinks c fd hfd)⟩

theorem inert_ending : Ending Inert where
  closed _ := trivial
  process _ := trivial
  released _ := trivial
  stale _ := trivial

theorem poll_settles (hmove : Poll answers d out d') : Settles d out d' := by
  cases hmove with
  | alive => exact settles_stay (by simp [Inert])
  | @exited c p proc channelId =>
    exact settles_lost (List.forall_mem_cons.mpr
      ⟨trivial, ending_dismissed inert_ending p proc trivial (answers c)⟩)

theorem watch_settles (hmove : Watch answers d out d') : Settles d out d' := by
  cases hmove with
  | silent | forwarded | freed => exact settles_stay (by simp [Inert])
  | @undelivered c p proc =>
    exact settles_lost (List.forall_mem_cons.mpr ⟨trivial, List.forall_mem_cons.mpr
      ⟨trivial, ending_killed inert_ending p proc (answers c)⟩⟩)
  | @failed c p proc =>
    exact settles_lost (List.forall_mem_cons.mpr
      ⟨trivial, ending_killed inert_ending p proc (answers c)⟩)

/-! ### Messages -/

variable {spawn : Spawn} {a : Answers} {i : Input} {left : List ℤ} {opened : List ℤ}

theorem handle_settles (hmove : Handle spawn a i d out d')
    (hsub : i.request.header.type ≠ CHANNEL_SUBSCRIBE)
    (hctrl : i.request.header.type ≠ CHANNEL_CTRL) : Settles d out d' := by
  have hlast : ∀ before : List Event, (∀ e ∈ before, Inert e) →
      ∀ e ∈ before ++ [refuse i.request.header], Inert e := fun before h =>
    List.forall_mem_append.mpr ⟨h, List.forall_mem_singleton.mpr trivial⟩
  cases hmove with
  | refused htype | created htype => exact (hsub htype).elim
  | resized htype => exact (hctrl htype).elim
  | @left p proc => exact settles_lost (ending_killed inert_ending p proc a)
  | stranger | wrote | ignored => exact settles_stay (by simp [Inert])
  | @broken p proc =>
    exact settles_lost (hlast _ (List.forall_mem_cons.mpr
      ⟨trivial, ending_killed inert_ending p proc a⟩))
  | unwritable => exact settles_stay (hlast [] (by simp))

/-- A creation changes no size of a terminal there is, and the new terminal has none. -/
theorem sized_terminalNew {user : List UInt8} {result : Option (ℤ × ℤ)}
    (hnew : terminalNew spawn user = (result, out))
    (hunused : AllUnused opened (descriptors out)) (table : Windows) :
    (∀ fd ∈ opened, out.foldl sized table fd = table fd) ∧
      ∀ fdm pid, result = some (fdm, pid) → out.foldl sized table fdm = (0, 0) := by
  rcases terminalNew_cases spawn user with ⟨-, hcase⟩ | ⟨-, -, hcase⟩ | ⟨-, -, hcase⟩ <;>
    rw [hnew] at hcase <;> obtain ⟨rfl, rfl⟩ := Prod.mk.inj hcase
  · exact ⟨fun _ _ => rfl, by simp⟩
  · refine ⟨fun fd hfd => Function.update_of_ne ?_ _ _, by simp⟩
    rintro rfl
    exact hunused.1 hfd
  · have htail : ∀ e ∈ Event.process (.fork spawn.fork) ::
        (if 0 < spawn.fork then [Event.login (loginCommand user)] else []), Inert e := by
      split <;> simp [Inert]
    rw [List.cons_append, List.foldl_cons, List.foldl_append, sized_inert htail]
    have hmaster : spawn.openpt ∉ opened := hunused.1
    by_cases hslave : spawn.open < 0
    · rw [if_pos hslave]
      refine ⟨fun fd hfd => Function.update_of_ne ?_ _ _, ?_⟩
      · rintro rfl
        exact hmaster hfd
      · rintro fdm pid ⟨⟩
        exact Function.update_self ..
    · rw [if_neg hslave] at hunused ⊢
      -- The slave side is opened while the master is open.
      have hfresh : spawn.open ∉ spawn.openpt :: opened := hunused.2.1
      rw [List.mem_cons, not_or] at hfresh
      simp only [List.foldl_cons, List.foldl_nil, sized]
      refine ⟨fun fd hfd => ?_, ?_⟩
      · rw [Function.update_of_ne, Function.update_of_ne]
        · rintro rfl
          exact hmaster hfd
        · rintro rfl
          exact hfresh.2 hfd
      · rintro fdm pid ⟨⟩
        rw [Function.update_of_ne (Ne.symm hfresh.1), Function.update_self]

theorem heardSize_stranger (hc : i.client ≠ c) (size : Size) (registered : Option ℤ) :
    heardSize c size (.received i.request registered) = size :=
  if_neg hc

/-- A subscription of a client that has no terminal. -/
theorem subscribe_fits (h : Fits d table past) (haccounts : Accounts d opened left)
    (hmove : Handle spawn a i d out d') (htype : i.request.header.type = CHANNEL_SUBSCRIBE)
    (habsent : d i.client = none) (hunused : AllUnused opened (descriptors out)) :
    Fits d' (out.foldl sized table)
      (past ++ .received i.request (master d i.client) :: out.map .did) := by
  have hopen : ∀ c fd, master d c = some fd → fd ∈ opened :=
    fun c fd hfd => (haccounts.known fd).mpr (.inr ⟨c, hfd⟩)
  have hother : ∀ c fd, master d c = some fd → c ≠ i.client := by
    rintro c fd hfd rfl
    rw [master, habsent] at hfd
    cases hfd
  intro c fd hfd
  rw [List.append_cons, asked_did, asked_received]
  cases hmove with
  | @refused created _ hnew =>
    rw [descriptors_append] at hunused
    have hcreated := (sized_terminalNew hnew (along_append.mp hunused).1 table).1
    rw [heardSize_stranger (Ne.symm (hother c fd hfd)), List.foldl_append]
    exact (hcreated fd (hopen c fd hfd)).trans (h c fd hfd)
  | created _ hnew _ hd' =>
    obtain ⟨hold, hfirst⟩ := sized_terminalNew hnew hunused table
    rcases hd' with rfl | ⟨hsome, -⟩
    · rw [master_update] at hfd
      split at hfd
      · next hc =>
        obtain rfl := Option.some.inj hfd
        rw [hfirst _ _ rfl]
        simp [heardSize, hc, htype]
      · next hc =>
        rw [heardSize_stranger (Ne.symm hc), hold fd (hopen c fd hfd)]
        exact h c fd hfd
    · exact (hsome habsent).elim
  | left hne | stranger hne | resized hne | wrote hne | broken hne | unwritable hne =>
    rw [htype] at hne
    cases hne
  | ignored hne => exact (hne htype).elim

end Moves

/-- What a CTRL message does to the client's terminal, if it has one. -/
theorem channelCtrl_resizes {s : State M} {p : Pass} {i : Input}
    {table : Windows} {fd : ℤ} (hfd : master (terminals s) i.client = some fd) (hsize : i.size = 8)
    (hanswer : (p.answers i.client).winsize = .inr (table fd) ∨
      (p.answers i.client).winsize = .inl true ∧ table fd = (0, 0)) :
    channelCtrl s p i = (s, [.resized fd (overrideBoth i.request.payload (table fd)).1
      (overrideBoth i.request.payload (table fd)).2]) := by
  obtain ⟨⟨q, proc⟩, hd, rfl⟩ := Option.map_eq_some_iff.mp hfd
  obtain ⟨hf, hproc⟩ := terminals_eq_some.mp hd
  have hlength : i.request.payload.length = 8 := by rw [i.payload_length, hsize]
  have hrow : ∀ old, (if 0 ≤ word i 4 then (word i 4).toUInt32.toUInt16 else old) =
      override (i.request.payload.drop 4) old := by
    intro old
    have hall : (i.request.payload.drop 4).take 4 = i.request.payload.drop 4 :=
      List.take_of_length_le (by simp [hlength])
    rw [← hall]
    exact override_word (by simp [hlength]) old
  have hcol : ∀ old, (if 0 ≤ word i 0 then (word i 0).toUInt32.toUInt16 else old) =
      override (i.request.payload.take 4) old := by
    intro old
    have htake : (i.request.payload.take 4).length = 4 := by simp [hlength]
    exact override_word htake old
  simp only [channelCtrl, hsize, ↓reduceIte, terminalResize, hf, hproc]
  rcases hanswer with hanswer | ⟨hanswer, hnone⟩
  · simp only [hanswer, hrow, hcol]
    rfl
  · simp only [hanswer, hrow, hcol, hnone]
    rfl

theorem heardSize_ctrl {m : TunnelMsg} (htype : m.header.type = CHANNEL_CTRL) (c : UInt16)
    (size : Size) (registered : Option ℤ) :
    heardSize c size (.received m registered) =
      if m.header.clientId = c ∧ m.header.size.toNat = 8 then overrideBoth m.payload size
      else size := by
  have hsub : ¬ CHANNEL_CTRL = CHANNEL_SUBSCRIBE := by decide
  simp only [heardSize, htype, hsub, ↓reduceIte, true_and]
  split_ifs <;> first | rfl | tauto

/-- A request for another size reaches the terminal of the client that makes it, and no other. -/
theorem ctrl_fits {s : State M} {p : Pass} {i : Input} {table : Windows} {past : List Act}
    {opened left : List ℤ} (hrecords : Records s []) (h : Fits (terminals s) table past)
    (haccounts : Accounts (terminals s) opened left)
    (htype : i.request.header.type = CHANNEL_CTRL)
    (hanswer : ∀ fd, master (terminals s) i.client = some fd →
      (p.answers i.client).winsize = .inr (table fd) ∨
        (p.answers i.client).winsize = .inl true ∧ table fd = (0, 0)) :
    Fits (terminals (channelCtrl s p i).1) ((channelCtrl s p i).2.foldl sized table)
      (past ++ .received i.request (master (terminals s) i.client) ::
        (channelCtrl s p i).2.map .did) := by
  by_cases hsize : i.size = 8
  · cases hown : master (terminals s) i.client with
    | none =>
      have hd : terminals s i.client = none := Option.map_eq_none_iff.mp hown
      have hquiet : channelCtrl s p i = (s, []) := by
        simp only [channelCtrl, hsize, ↓reduceIte, terminalResize,
          (terminals_eq_none hrecords).mp hd]
      rw [hquiet]
      intro c fd hfd
      have hc : i.client ≠ c := by
        rintro rfl
        rw [hown] at hfd
        cases hfd
      rw [List.append_cons, asked_did, asked_received, heardSize_stranger hc]
      exact h c fd hfd
    | some fd₀ =>
      rw [channelCtrl_resizes hown hsize (hanswer fd₀ hown)]
      intro c fd hfd
      rw [List.append_cons, asked_did, asked_received, heardSize_ctrl htype]
      simp only [List.foldl_cons, List.foldl_nil, sized]
      by_cases hc : i.client = c
      · rw [← hc, hown] at hfd
        obtain rfl := Option.some.inj hfd
        rw [Function.update_self, if_pos ⟨hc, hsize⟩, h i.client fd₀ hown, hc]
      · rw [Function.update_of_ne, if_neg fun hboth => hc hboth.1]
        · exact h c fd hfd
        · rintro rfl
          exact hc (haccounts.apart _ _ _ hown hfd)
  · have hquiet : channelCtrl s p i = (s, []) := by
      simp only [channelCtrl, hsize, ↓reduceIte]
    rw [hquiet]
    intro c fd hfd
    rw [List.append_cons, asked_did, asked_received, heardSize_ctrl htype,
      if_neg fun hboth => hsize hboth.2]
    exact h c fd hfd

/-! ### Runs -/

/-- The terminals after the poll for exits, with the sizes they have. -/
theorem polls_fit {s : State M} (hrecords : Records s []) {p : Pass} {table : Windows}
    {past : List Act} (h : Fits (terminals s) table past) :
    (monitorProcesses s p).2.foldl sized table = table ∧
      Fits (terminals (monitorProcesses s p).1) table
        (past ++ (monitorProcesses s p).2.map .did) := by
  have hsettles := settles_runs (fun d out d' hmove => poll_settles hmove)
    (monitorProcesses_polls hrecords p).1
  have hsame := sized_inert hsettles.1 table
  have hfits := h.settle hsettles
  rw [hsame] at hfits
  exact ⟨hsame, hfits⟩

theorem attend_fits (A : Antd) {s : State M} {p : Pass} {table : Windows} {past : List Act}
    {opened left : List ℤ} (hrecords : Records s []) (h : Fits (terminals s) table past)
    (haccounts : Accounts (terminals s) opened left)
    (hunused : AllUnused opened (descriptors (attend A s p).2))
    (habsent : ∀ i, p.selected = .message i → i.request.header.type = CHANNEL_SUBSCRIBE →
      terminals s i.client = none)
    (hanswered : ∀ i, p.selected = .message i → i.request.header.type = CHANNEL_CTRL →
      ∀ fd, master (terminals s) i.client = some fd →
        (p.answers i.client).winsize = .inr (table fd) ∨
          (p.answers i.client).winsize = .inl true ∧ table fd = (0, 0)) :
    Fits (terminals (attend A s p).1) ((attend A s p).2.foldl sized table)
      (past ++ (receipt (terminals s) p.selected ++ (attend A s p).2.map .did)) := by
  unfold attend at hunused ⊢
  cases hsel : p.selected with
  | failed | timeout | unreadable =>
    simp only [receipt, List.map_nil, List.append_nil, List.foldl_nil]
    exact h
  | message i =>
    simp only [hsel] at hunused ⊢
    have hmove := (handleMessage_handles
      (s := { s with msg := i.request.header }) ⟨hrecords.live, hrecords.gone⟩ p i).1
    by_cases hsub : i.request.header.type = CHANNEL_SUBSCRIBE
    · exact subscribe_fits h haccounts hmove hsub (habsent i hsel hsub) hunused
    by_cases hctrl : i.request.header.type = CHANNEL_CTRL
    · have heq : handleMessage { s with msg := i.request.header } p i =
          channelCtrl { s with msg := i.request.header } p i := by
        simp [handleMessage, hctrl, CHANNEL_CTRL, CHANNEL_SUBSCRIBE, CHANNEL_UNSUBSCRIBE]
      rw [heq]
      exact ctrl_fits (s := { s with msg := i.request.header }) ⟨hrecords.live, hrecords.gone⟩ h
        haccounts hctrl (hanswered i hsel hctrl)
    · have hkept : Fits (terminals s) table
          (past ++ [.received i.request (master (terminals s) i.client)]) := by
        intro c fd hfd
        rw [asked_received, heardSize]
        simp only [hsub, hctrl, ↓reduceIte, false_and, ite_self]
        exact h c fd hfd
      have hfits := hkept.settle (handle_settles hmove hsub hctrl)
      rw [List.append_assoc] at hfits
      exact hfits
  | terminals =>
    have hsettles := settles_runs (fun d out d' hmove => watch_settles hmove)
      (monitorTerminals_watches A hrecords p).1
    exact h.settle hsettles

theorem windowed_logged {A : Antd} {x y : State M × Windows} {passes : List Pass} {acts : List Act}
    (h : Execution (Windowed A) x passes acts y) : Execution (Logged A) x.1 passes acts y.1 := by
  induction h with
  | refl => exact .refl _
  | tail _ hstep ih =>
    obtain ⟨⟨hrunning, hturn⟩, -⟩ := hstep
    obtain ⟨rfl, rfl⟩ := Prod.mk.inj hturn
    exact .tail ih ⟨hrunning, rfl⟩

theorem fits_run {A : Antd} {answer : TunnelMsgH} {passes : List Pass} {acts : List Act}
    {x y : State M × Windows} (hrun : Execution (Windowed A) x passes acts y)
    (hx : x = (initial answer, unsized)) (honce : Once acts)
    (hunused : AllUnused [] (descriptors (events acts))) : Fits (terminals y.1) y.2 acts := by
  induction hrun with
  | refl =>
    intro c fd hfd
    simp [hx, master, terminals, initial] at hfd
  | @tail u v passes p past acts hpast hstep ih =>
    subst hx
    obtain ⟨⟨-, hturn⟩, hanswered⟩ := hstep
    obtain ⟨rfl, rfl⟩ := Prod.mk.inj hturn
    rw [events_append, descriptors_append] at hunused
    obtain ⟨hbefore, hturn⟩ := along_append.mp hunused
    have hlogged := windowed_logged hpast
    obtain ⟨hheed, hrecords⟩ := heeded_preserved.run (fun _ _ => by simp)
      (hlogged.mono fun _ _ _ _ hstep => ⟨hstep, trivial⟩)
    have haccounts := polls_account hrecords p
      (accounts_run hlogged hbefore (once_append.mp honce).1)
    have hmid := Runs.logged (J := fun d acts => Once acts → Heeded d acts)
      (fun d past out d' hd hmove => heeded_preserved.poll u.1 p d past out d' trivial hd hmove)
      (monitorProcesses_polls hrecords p).1 hheed
    obtain ⟨hsame, hfits⟩ := polls_fit hrecords (p := p) (ih (once_append.mp honce).1 hbefore)
    have hpolled := (monitorProcesses_polls hrecords p).2
    rw [events_log, turn_eq, descriptors_append] at hturn
    rw [log, ← List.append_assoc] at honce
    have hattend := attend_fits A hpolled hfits haccounts (along_append.mp hturn).2
      (fun i hsel htype => by
        rw [hsel] at honce
        exact (hmid (once_append.mp honce).1).absent honce htype)
      hanswered
    simp only [turn_eq, log, List.foldl_append, hsame]
    rw [← List.append_assoc]
    exact hattend

/-- Whatever else happens, every terminal has exactly the size that its own client asked for since
it subscribed: each CTRL message of eight bytes sets what it gives a non-negative value for. -/
theorem window_sizes {A : Antd} {answer : TunnelMsgH} {passes : List Pass} {acts : List Act}
    {s : State M} {table : Windows}
    (hrun : Execution (Windowed A) (initial answer, unsized) passes acts (s, table))
    (honce : Once acts) (hunused : AllUnused [] (descriptors (events acts))) {c : UInt16} {fd : ℤ}
    (hfd : master (terminals s) c = some fd) : table fd = asked c acts :=
  fits_run hrun rfl honce hunused c fd hfd

theorem ctrl_known : CHANNEL_CTRL ≤ 7 := by decide

/-- Client 1 asks for another size; the upper bytes of the columns are all the same. -/
def sizing (high cols rows : UInt8) : Input :=
  .plain CHANNEL_CTRL 1 [high, high, high, cols, 0, 0, 0, rows] ctrl_known (by simp)

/-- Client 1 asks for 80 columns and 24 rows, then for 50 rows with the columns as they are. -/
def resizing : List Pass :=
  [quiet 0 7 (.message (.subscribe 1 97)), quiet 0 7 (.message (sizing 0 80 24)),
    { quiet 0 7 (.message (sizing 255 255 50)) with
      answers := fun _ => { childSeven 0 with winsize := .inr (24, 80) } }]

def resized : (State AssocList × Windows) × List Act :=
  visitAll (windowTurn firstByteHost) (start, unsized) resizing

theorem resized_run :
    Execution (Windowed firstByteHost) (start, unsized) resizing resized.2 resized.1 := by
  apply execution_of_meets (fun x : State AssocList × Windows => x.1.going)
    (windowTurn firstByteHost) (fun x p => Answered x.2 x.1 p) (start, unsized) resizing
    (by decide +kernel)
  refine ⟨?_, ?_, ?_, trivial⟩
  · rintro i ⟨⟩ htype
    cases htype
  · rintro i ⟨⟩ - fd hfd
    obtain rfl : fd = 5 := Option.some.inj (hfd.symm.trans (show _ = some 5 by decide +kernel))
    exact .inr ⟨rfl, by decide +kernel⟩
  · rintro i ⟨⟩ - fd hfd
    obtain rfl : fd = 5 := Option.some.inj (hfd.symm.trans (show _ = some 5 by decide +kernel))
    exact .inl (by decide +kernel)

theorem window_sizes_one_client : master (terminals resized.1.1) 1 = some 5 ∧
    resized.1.2 5 = (50, 80) ∧ resized.1.2 5 = asked 1 resized.2 := by
  have hfd : master (terminals resized.1.1) 1 = some 5 := by decide +kernel
  exact ⟨hfd, by decide +kernel,
    window_sizes resized_run (by decide +kernel) (by decide +kernel) hfd⟩

end VtermSizes
