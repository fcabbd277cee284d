import TunnelPublishers.VtermTerminals
import TunnelPublishers.WfifoService

/-!
# Under which name a client subscribes

The payload of a SUBSCRIBE is a user name without a terminator. The terminal
service and the FIFO service read on until the next NUL, so the name they act on
is the payload only if the memory after it starts with a NUL, and only as far as
the buffers of the command and of the path reach.
-/
namespace SubscriberNames

open ByteOrder FiniteMaps FiniteMap TunnelFraming ExecutionTraces KernelTables

/-! ### Names in memory -/

/-- The byte after the payload is a NUL. -/
def Terminated (i : Input) : Prop := i.beyond.headD 0 = 0

instance (i : Input) : Decidable (Terminated i) :=
  inferInstanceAs (Decidable (i.beyond.headD 0 = 0))

section Memory

variable {i : Input} {name : List UInt8}

theorem cString_eq_nil {bs : List UInt8} : cString bs = [] ↔ bs.headD 0 = 0 := by
  cases bs with
  | nil => simp [cString]
  | cons b bs => simp [cString, List.takeWhile_cons]

/-- A payload that is not empty is a block of its own. -/
theorem data_of_payload (hpayload : i.request.payload = name) (hne : name ≠ []) :
    i.request.data = some name := by
  have hblock := i.received.payload_eq
  cases hdata : i.request.data with
  | none =>
    rw [hpayload, hdata] at hblock
    exact (hne hblock).elim
  | some block =>
    rw [hpayload, hdata] at hblock
    rw [hblock]
    rfl

theorem data_of_empty (hpayload : i.request.payload = []) : i.request.data = none := by
  rw [i.received.null, ← UInt32.toNat_inj]
  have hlength := i.payload_length
  rw [hpayload] at hlength
  exact hlength.symm

/-- What is read as the name: the payload, and what follows it up to a NUL. -/
theorem memory_name (hpayload : i.request.payload = name) (hname : (0 : UInt8) ∉ name) :
    cString i.memory = if name = [] then [] else name ++ cString i.beyond := by
  by_cases hne : name = []
  · subst hne
    rw [Input.memory, data_of_empty hpayload]
    rfl
  · rw [Input.memory, data_of_payload hpayload hne, if_neg hne]
    exact cString_append hname i.beyond

end Memory

/-! ### The login command -/

/-- The user name in a login command. -/
def commandName (command : List UInt8) : List UInt8 :=
  command.drop (text "TERM=linux su -l ").length

/-- The name that a SUBSCRIBE puts in the login command. -/
def loginName (i : Input) : List UInt8 :=
  commandName (VtermService.loginCommand (cString i.memory))

theorem commandName_loginCommand (user : List UInt8) :
    commandName (VtermService.loginCommand user) = user.take 46 := by
  unfold VtermService.loginCommand
  by_cases huser : user = []
  · subst huser
    rfl
  · rw [if_neg huser, commandName, List.drop_take, List.drop_left]
    rfl

/-- The command of every new child names the user so. -/
theorem login_names {M : Type → Type → Type} [FiniteMap M] (s : VtermService.State M)
    (p : VtermService.Pass) (i : Input) {command : List UInt8}
    (h : .login command ∈ (VtermService.channelSubscribe s p i).2) :
    commandName command = loginName i := by
  have hnew : .login command ∈ (VtermService.terminalNew p.spawn (cString i.memory)).2 := by
    unfold VtermService.channelSubscribe at h
    rcases hterm : VtermService.terminalNew p.spawn (cString i.memory) with ⟨_ | ⟨fdm, pid⟩, out⟩
    · simpa [hterm, VtermService.refuse] using h
    · simpa [hterm] using h
  have hcommand : command = VtermService.loginCommand (cString i.memory) := by
    rcases VtermTerminals.terminalNew_cases p.spawn (cString i.memory) with
      ⟨-, hcase⟩ | ⟨-, -, hcase⟩ | ⟨-, -, hcase⟩ <;> rw [hcase] at hnew
    · simp at hnew
    · simp at hnew
    · by_cases hfork : 0 < p.spawn.fork
      · rw [if_pos hfork] at hnew
        split at hnew <;> simpa using hnew
      · rw [if_neg hfork] at hnew
        split at hnew <;> simp at hnew
  rw [hcommand, loginName]

theorem loginName_iff {i : Input} {name : List UInt8} (hpayload : i.request.payload = name)
    (hname : (0 : UInt8) ∉ name) :
    loginName i = name ↔
      name = [] ∨ name.length = 46 ∨ name.length < 46 ∧ Terminated i := by
  rw [loginName, commandName_loginCommand, memory_name hpayload hname]
  by_cases hne : name = []
  · simp [hne]
  simp only [hne, ↓reduceIte, false_or]
  rcases lt_trichotomy name.length 46 with hlt | heq | hgt
  · have htake : (name ++ cString i.beyond).take 46 =
        name ++ (cString i.beyond).take (46 - name.length) := by
      rw [List.take_append, List.take_of_length_le hlt.le]
    rw [htake, Terminated, ← cString_eq_nil]
    have hpos : 46 - name.length ≠ 0 := by omega
    simp [List.take_eq_nil_iff, hpos, hlt, hlt.ne]
  · simp [← heq]
  · constructor
    · intro h
      have hlength := congrArg List.length h
      simp at hlength
      omega
    · omega

/-! ### The path of a FIFO -/

/-- The name looked up by `getpwnam`. -/
def lookedUp (i : Input) : List UInt8 := (WfifoService.user i).getD []

/-- The bytes of a path, below a directory, that belong to the user's name. -/
def pathName (A : Antd) (base user : List UInt8) : List UInt8 :=
  user.take (A.BUFFLEN - 1 - (base.length + 1))

theorem fifoPath_name (A : Antd) (base user : List UInt8) :
    ∃ rest, rest <+: text ".fifo" ∧ WfifoService.fifoPath A base user =
      (base ++ text "/").take (A.BUFFLEN - 1) ++ pathName A base user ++ rest := by
  refine ⟨(text ".fifo").take (A.BUFFLEN - 1 - (base ++ text "/" ++ user).length),
    List.take_prefix _ _, ?_⟩
  rw [WfifoService.fifoPath, WfifoService.cut, List.take_append, List.take_append, pathName,
    List.length_append, List.length_append]
  rfl

theorem openFifo_path {M : Type → Type → Type} [FiniteMap M] (handles : M Int32 ℤ)
    (a : WfifoService.Opening) (hash : Int32) (path : List UInt8) (uid : Option UInt32)
    {path' : List UInt8}
    (h : .unlinked path' ∈ (WfifoService.openFifo handles a hash path uid).2.2) : path' = path := by
  rcases WfifoService.openFifo_cases handles a hash path uid with hr | ⟨user, hr⟩ |
    ⟨owned, rfl | ⟨user, rfl⟩, hr⟩ <;> simpa [hr] using h

/-- The path that a SUBSCRIBE opens when the base path is a directory. -/
theorem paths_named {M : Type → Type → Type} [FiniteMap M] (A : Antd) (handles : M Int32 ℤ)
    {a : WfifoService.Opening} (hstat : a.stat = .directory) (base : List UInt8) (i : Input)
    {path : List UInt8}
    (h : .unlinked path ∈ (WfifoService.initFifo A handles a base (WfifoService.user i)).2.2) :
    path = WfifoService.fifoPath A base (lookedUp i) := by
  rcases WfifoService.initFifo_user A handles hstat base (WfifoService.user i) with
    hr | ⟨name, uid, huser, -, hr⟩ <;> rw [hr] at h
  · cases h
  rw [lookedUp, huser, Option.getD_some]
  rcases WfifoService.lookupFifo_cases A handles a (WfifoService.fifoPath A base name) (some uid)
    with ⟨-, hr⟩ | ⟨fd, -, -, hr⟩ <;> rw [hr] at h
  · exact openFifo_path _ _ _ _ _ h
  · cases h

theorem lookedUp_iff {i : Input} {name : List UInt8} (hpayload : i.request.payload = name)
    (hname : (0 : UInt8) ∉ name) : lookedUp i = name ↔ name = [] ∨ Terminated i := by
  by_cases hne : name = []
  · subst hne
    simp [lookedUp, WfifoService.user, data_of_empty hpayload]
  · have hlooked : lookedUp i = name ++ cString i.beyond := by
      rw [lookedUp, WfifoService.user, data_of_payload hpayload hne, Option.map_some,
        Option.getD_some, memory_name hpayload hname, if_neg hne]
    rw [hlooked, Terminated, ← cString_eq_nil]
    simp [hne]

theorem pathName_iff (A : Antd) (base name : List UInt8) :
    pathName A base name = name ↔ name = [] ∨ base.length + 1 + name.length ≤ A.BUFFLEN - 1 := by
  rw [pathName, List.take_eq_self_iff]
  by_cases hne : name = []
  · simp [hne]
  · have hpos := List.length_pos_of_ne_nil hne
    simp only [hne, false_or]
    omega

/-- For a payload without NUL bytes and any two memories after it: the name in the login command,
and the name looked up and put in the path of a FIFO, are the payload in both, exactly when each
memory begins with a NUL and the name fits, a full command being enough of a terminator. -/
theorem names_are_payload_iff (A : Antd) (base : List UInt8) {name : List UInt8}
    (hname : (0 : UInt8) ∉ name) {i j : Input} (hi : i.request.payload = name)
    (hj : j.request.payload = name) :
    (loginName i = name ∧ loginName j = name ↔
      name = [] ∨ name.length = 46 ∨ name.length < 46 ∧ Terminated i ∧ Terminated j) ∧
    ((lookedUp i = name ∧ pathName A base (lookedUp i) = name) ∧
        (lookedUp j = name ∧ pathName A base (lookedUp j) = name) ↔
      name = [] ∨
        Terminated i ∧ Terminated j ∧ base.length + 1 + name.length ≤ A.BUFFLEN - 1) := by
  constructor
  · rw [loginName_iff hi hname, loginName_iff hj hname]
    tauto
  · have hboth : ∀ {k : Input}, k.request.payload = name →
        (lookedUp k = name ∧ pathName A base (lookedUp k) = name ↔
          name = [] ∨ Terminated k ∧ base.length + 1 + name.length ≤ A.BUFFLEN - 1) := by
      intro k hk
      have hpath := pathName_iff A base name
      have hlooked := lookedUp_iff hk hname
      constructor
      · rintro ⟨hl, hp⟩
        rw [hl] at hp
        have h₁ := hlooked.mp hl
        have h₂ := hpath.mp hp
        tauto
      · rintro (hnil | ⟨hterm, hfits⟩)
        · have hl := hlooked.mpr (.inl hnil)
          exact ⟨hl, by rw [hl]; exact hpath.mpr (.inl hnil)⟩
        · have hl := hlooked.mpr (.inr hterm)
          exact ⟨hl, by rw [hl]; exact hpath.mpr (.inr hfits)⟩
    rw [hboth hi, hboth hj]
    tauto

/-- The same SUBSCRIBE with another byte behind its payload. -/
def followedBy (byte : UInt8) : Input := { Input.subscribe 1 97 with beyond := [byte] }

theorem names_are_payload_letter :
    loginName (followedBy 0) = [97] ∧
      lookedUp (followedBy 0) = [97] ∧ pathName (.smallest fun _ => 0) [] [97] = [97] := by
  have h := @names_are_payload_iff (.smallest fun _ => 0) [] [97] (by decide) (followedBy 0)
    (followedBy 0) (by decide) (by decide)
  have hlogin := h.1.mpr (by decide)
  have hpath := (h.2.mpr (by decide)).1
  exact ⟨hlogin.1, hpath.1, by simpa [hpath.1] using hpath.2⟩

/-- The payload is one letter, and the name depends on the byte behind it. -/
theorem names_depend_on_memory :
    (followedBy 0).request = (followedBy 98).request ∧
      loginName (followedBy 0) = [97] ∧ loginName (followedBy 98) = [97, 98] ∧
      lookedUp (followedBy 0) = [97] ∧ lookedUp (followedBy 98) = [97, 98] := by
  decide

end SubscriberNames
