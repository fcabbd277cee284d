import TunnelPublishers.BroadcastFrames

/-!
# Two parties on one broadcast channel

A party has its own clients, users and groups. If the others neither use its
user names nor name its groups, its clients are sent what they would be sent if
the others had never sent anything. Only an error reply tells more: its struct is
the one the last accepted control request left behind, whoever sent it.
-/
namespace BroadcastTenants

open ByteOrder FiniteMaps FiniteMap TunnelFraming ExecutionTraces BroadcastService
  BroadcastMachine BroadcastHandles BroadcastOutcomes BroadcastInvariant BroadcastRefinement
  BroadcastCommands BroadcastFrames

structure Tenant where
  clients : UInt16 → Bool
  users : Set Name
  groups : Set Int32

/-- A message of the party or of the others, told by its client. -/
def Tenant.Sends (T : Tenant) (i : Input) : Prop := T.clients i.client = true

instance (T : Tenant) : DecidablePred T.Sends :=
  fun i => inferInstanceAs (Decidable (T.clients i.client = true))

/-- The party subscribes its own users and joins its own groups, and nobody else does. The others
also leave its groups alone and send nothing to them. -/
structure Keeps (hash : List UInt8 → Int32) (T : Tenant) (i : Input) : Prop where
  user : i.request.header.type = CHANNEL_SUBSCRIBE → i.size ≤ 254 →
    ∀ u : Name, u.bytes = cString i.request.payload → (T.Sends i ↔ u ∈ T.users)
  join : IsCtrl i.request BC_SUBSCRIPTION →
    (T.Sends i ↔ hash (cString (i.request.payload.drop 1)) ∈ T.groups)
  leave : IsCtrl i.request BC_UNSUBSCRIPTION → ¬ T.Sends i → gidAt i 1 ∉ T.groups
  data : i.request.header.type = CHANNEL_DATA → ¬ T.Sends i → gidAt i 0 ∉ T.groups

/-- The same, said of the command of a client and of the user it belongs to. -/
inductive Kept (hash : List UInt8 → Int32) (T : Tenant) (d : Directory) (c : UInt16) :
    Command → Prop where
  | idle : Kept hash T d c .idle
  | subscribe {u} : (T.clients c = true ↔ u ∈ T.users) → Kept hash T d c (.subscribe u)
  | refuse {reply} : Kept hash T d c (.refuse reply)
  | join {u name} : d.user c = some u → (T.clients c = true ↔ hash name.bytes ∈ T.groups) →
      Kept hash T d c (.join u name)
  | leave {u g} : d.user c = some u → (¬ T.clients c = true → g ∉ T.groups) →
      Kept hash T d c (.leave u g)
  | queryUser {u g} : d.user c = some u → d.InGroup u g → Kept hash T d c (.queryUser g)
  | queryGroup {u} : d.user c = some u → Kept hash T d c (.queryGroup u)
  | data {g} : (¬ T.clients c = true → g ∉ T.groups) → Kept hash T d c (.data g)
  | unsubscribe {u} : d.user c = some u → Kept hash T d c (.unsubscribe u)

section Commands

variable {hash : List UInt8 → Int32} {T : Tenant} {i : Input} {d e : Directory}

theorem ctrlCommand_kept (h : Keeps hash T i) (htype : i.request.header.type = CHANNEL_CTRL)
    (hsize : 0 < i.size ∧ i.size ≤ MAX_STR_LEN) {u : Name} (hu : d.user i.client = some u) :
    Kept hash T d i.client (ctrlCommand d i u hsize) := by
  have hctrl := isCtrl_head htype hsize
  simp only [ctrlCommand]
  split
  · next hjoin =>
    rw [hjoin] at hctrl
    exact .join hu (h.join hctrl)
  · split
    · next hleave =>
      rw [hleave] at hctrl
      exact .leave hu (h.leave hctrl)
    · split_ifs
      · exact .refuse
      · next hheld => exact .queryUser hu hheld
      · exact .queryGroup hu
      · exact .refuse

theorem command_kept (h : Keeps hash T i) : Kept hash T d i.client (command d i) := by
  simp only [command]
  split
  · next hsub =>
    split
    · exact .idle
    · next hfits =>
      split
      · exact .idle
      · refine .subscribe (h.user hsub ?_ _ rfl)
        unfold MAX_STR_LEN at hfits
        omega
  · split
    · next hctrl =>
      split
      · next hsize =>
        split
        · exact .refuse
        · next hu => exact ctrlCommand_kept h hctrl hsize hu
      · exact .refuse
    · split
      · next hdata => exact .data (h.data hdata)
      · split
        · split
          · exact .idle
          · next hu => exact .unsubscribe hu
        · exact .idle

/-- A command depends on the user of its client and on the groups of this user. -/
theorem command_congr (huser : e.user i.client = d.user i.client)
    (hgroups : ∀ u, d.user i.client = some u → ∀ g, e.groups u g = d.groups u g) :
    command e i = command d i := by
  simp only [command, huser]
  cases hu : d.user i.client with
  | none => rfl
  | some u => simp only [ctrlCommand, hgroups u hu]

end Commands

/-! ### The shared directory and the party's own -/

/-- `e` is what the directory `d` would be without the others. -/
structure Shares (T : Tenant) (d e : Directory) : Prop where
  user : ∀ c, T.clients c = true → e.user c = d.user c
  no_user : ∀ c, T.clients c = false → e.user c = none
  named : ∀ c u, d.user c = some u → (T.clients c = true ↔ u ∈ T.users)
  held : ∀ u ∈ T.users, ∀ g, e.groups u g = d.groups u g
  none_held : ∀ u, u ∉ T.users → ∀ g, e.groups u g = none
  grouped : ∀ u g, d.InGroup u g → (u ∈ T.users ↔ g ∈ T.groups)

theorem shares_vacant (T : Tenant) : Shares T .vacant .vacant := by
  constructor <;> simp [Directory.vacant, Directory.InGroup]

section Shares

variable {hash : List UInt8 → Int32} {T : Tenant} {d e : Directory} {c o : UInt16} {u name : Name}
  {g : Int32}

/-- Members of a group belong to the party exactly if the group does. -/
theorem Shares.member (h : Shares T d e) (ho : d.Member o g) :
    T.clients o = true ↔ g ∈ T.groups := by
  obtain ⟨u, hu, hg⟩ := ho
  rw [h.named o u hu, h.grouped u g hg]

theorem Shares.member_iff (h : Shares T d e) (ho : T.clients o = true) :
    e.Member o g ↔ d.Member o g := by
  unfold Directory.Member Directory.InGroup
  rw [h.user o ho]
  refine exists_congr fun u => and_congr_right fun hu => ?_
  rw [h.held u ((h.named o u hu).mp ho)]

theorem Shares.client (h : Shares T d e) (ho : e.Member o g) : T.clients o = true := by
  obtain ⟨u, hu, -⟩ := ho
  by_contra hno
  rw [h.no_user o (by simpa using hno)] at hu
  cases hu

theorem Shares.lone_iff (h : Shares T d e) (hu : u ∈ T.users) : Lone e c u ↔ Lone d c u := by
  constructor
  · intro hlone o hne ho
    have hown := (h.named o u ho).mpr hu
    exact hlone o hne ((h.user o hown).trans ho)
  · intro hlone o hne ho
    by_cases hown : T.clients o = true
    · exact hlone o hne ((h.user o hown).symm.trans ho)
    · rw [h.no_user o (by simpa using hown)] at ho
      cases ho

/-- The party's own client gets another user of the party, or none. -/
theorem Shares.update_user (h : Shares T d e) (hc : T.clients c = true) {v : Option Name}
    (hv : ∀ u, v = some u → u ∈ T.users) :
    Shares T { d with user := Function.update d.user c v }
      { e with user := Function.update e.user c v } := by
  refine ⟨?_, ?_, ?_, h.held, h.none_held, h.grouped⟩
  · intro o ho
    by_cases hoc : o = c <;> simp [hoc, h.user o ho]
  · intro o ho
    have hoc : o ≠ c := by
      rintro rfl
      simp [hc] at ho
    simp [hoc, h.no_user o ho]
  · intro o u hu
    by_cases hoc : o = c
    · subst hoc
      simp only [Function.update_self] at hu
      exact iff_of_true hc (hv u hu)
    · exact h.named o u (by simpa [hoc] using hu)

/-- Another client gets another user of the others, or none. -/
theorem Shares.update_other (h : Shares T d e) (hc : T.clients c = false) {v : Option Name}
    (hv : ∀ u, v = some u → u ∉ T.users) :
    Shares T { d with user := Function.update d.user c v } e := by
  refine ⟨?_, h.no_user, ?_, h.held, h.none_held, h.grouped⟩
  · intro o ho
    have hoc : o ≠ c := by
      rintro rfl
      simp [hc] at ho
    simp [hoc, h.user o ho]
  · intro o u hu
    by_cases hoc : o = c
    · subst hoc
      simp only [Function.update_self] at hu
      exact iff_of_false (by simp [hc]) (hv u hu)
    · exact h.named o u (by simpa [hoc] using hu)

/-- A user of the party gets other groups of the party. -/
theorem Shares.update_groups (h : Shares T d e) (hu : u ∈ T.users) {held : Int32 → Option Name}
    (hheld : ∀ g, held g ≠ none → g ∈ T.groups) :
    Shares T { d with groups := Function.update d.groups u held }
      { e with groups := Function.update e.groups u held } := by
  refine ⟨h.user, h.no_user, h.named, ?_, ?_, ?_⟩
  · intro v hv g
    by_cases hvu : v = u <;> simp [hvu, h.held v hv g]
  · intro v hv g
    have hvu : v ≠ u := by
      rintro rfl
      exact hv hu
    simp [hvu, h.none_held v hv g]
  · intro v g hg
    by_cases hvu : v = u
    · subst hvu
      exact iff_of_true hu (hheld g (by simpa [Directory.InGroup] using hg))
    · exact h.grouped v g (by simpa [Directory.InGroup, hvu] using hg)

/-- Another user gets other groups of the others. -/
theorem Shares.update_rest (h : Shares T d e) (hu : u ∉ T.users) {held : Int32 → Option Name}
    (hheld : ∀ g, held g ≠ none → g ∉ T.groups) :
    Shares T { d with groups := Function.update d.groups u held } e := by
  refine ⟨h.user, h.no_user, h.named, ?_, h.none_held, ?_⟩
  · intro v hv g
    have hvu : v ≠ u := by
      rintro rfl
      exact hu hv
    simp [hvu, h.held v hv g]
  · intro v g hg
    by_cases hvu : v = u
    · subst hvu
      exact iff_of_false hu (hheld g (by simpa [Directory.InGroup] using hg))
    · exact h.grouped v g (by simpa [Directory.InGroup, hvu] using hg)

end Shares

/-! ### The directory operations as updates -/

section Updates

variable (d : Directory) (c : UInt16) (u : Name) (g : Int32) (name : Name)

/-- The groups of a user that joins one. -/
def joinedGroups (held : Int32 → Option Name) (g : Int32) (name : Name) : Int32 → Option Name :=
  fun g' => if g' = g ∧ held g = none then some name else held g'

theorem join_eq : d.join u g name =
    { d with groups := Function.update d.groups u (joinedGroups (d.groups u) g name) } := by
  ext1
  · rfl
  · funext v g'
    by_cases hv : v = u
    · subst hv
      simp [Directory.join, joinedGroups]
    · simp [Directory.join, hv]

theorem leave_eq : d.leave u g = { d with
    groups := Function.update d.groups u fun g' => if g' = g then none else d.groups u g' } := by
  ext1
  · rfl
  · funext v g'
    by_cases hv : v = u
    · subst hv
      simp [Directory.leave]
    · simp [Directory.leave, hv]

theorem depart_eq : d.depart c u = { d.unmap c with
    groups := Function.update d.groups u fun _ => none } := by
  ext1
  · rfl
  · funext v g'
    by_cases hv : v = u
    · subst hv
      simp [Directory.depart]
    · simp [Directory.depart, hv]

end Updates

/-! ### One message -/

section Messages

variable {A : Antd} {T : Tenant} {d e : Directory} {c : UInt16} {payload : List UInt8}
  {cmd : Command} {x : Said} {u : Name} {g : Int32}

/-- The party's clients are told by the members of a group that are its own. -/
theorem Shares.told_own (h : Shares T d e) {f : UInt16 → Said} (hf : ∀ o, (f o).client = o)
    (hx : T.clients x.client = true) : told e g f x = told d g f x := by
  have hset : {o | e.Member o g ∧ f o = x} = {o | d.Member o g ∧ f o = x} := by
    ext o
    refine and_congr_left fun hfo => ?_
    have ho : T.clients o = true := by
      rw [← hf o, hfo]
      exact hx
    exact h.member_iff ho
  rw [told, told, hset]

/-- Nobody in the party hears of a group of the others. -/
theorem Shares.told_rest (h : Shares T d e) {f : UInt16 → Said} (hf : ∀ o, (f o).client = o)
    (hx : T.clients x.client = true) (hg : g ∉ T.groups) : told d g f x = 0 := by
  have hset : {o | d.Member o g ∧ f o = x} = ∅ := by
    ext o
    simp only [Set.mem_ofPred_eq, Set.mem_empty_iff_false, iff_false, not_and]
    intro ho hfo
    have hown : T.clients o = true := by
      rw [← hf o, hfo]
      exact hx
    exact hg ((h.member ho).mp hown)
  rw [told, hset, Set.ncard_empty]

theorem Shares.joined_own (h : Shares T d e) (hu : u ∈ T.users) (hg : g ∈ T.groups)
    (name : Name) : Shares T (d.join u g name) (e.join u g name) := by
  rw [join_eq, join_eq]
  have hheld : e.groups u = d.groups u := funext (h.held u hu)
  rw [hheld]
  apply h.update_groups hu
  intro g' hg'
  unfold joinedGroups at hg'
  split at hg'
  · next hnew => exact hnew.1 ▸ hg
  · exact (h.grouped u g' hg').mp hu

theorem Shares.joined_rest (h : Shares T d e) (hu : u ∉ T.users) (hg : g ∉ T.groups)
    (name : Name) : Shares T (d.join u g name) e := by
  rw [join_eq]
  apply h.update_rest hu
  intro g' hg'
  unfold joinedGroups at hg'
  split at hg'
  · next hnew => exact hnew.1 ▸ hg
  · exact fun hin => hu ((h.grouped u g' hg').mpr hin)

/-- A message of the party changes its own directory in the same way. -/
theorem Shares.after_own (h : Shares T d e) (hc : T.clients c = true)
    (hk : Kept A.simpleHash T d c cmd) :
    Shares T (after A.simpleHash d c cmd) (after A.simpleHash e c cmd) := by
  have hown : ∀ {u}, d.user c = some u → u ∈ T.users := fun hu => (h.named c _ hu).mp hc
  cases hk with
  | idle | refuse | queryUser | queryGroup | data => exact h
  | subscribe hu =>
    exact h.update_user hc fun u hv => Option.some.inj hv ▸ hu.mp hc
  | join hu hg => exact h.joined_own (hown hu) (hg.mp hc) _
  | @leave u g hu hg =>
    simp only [after, leave_eq]
    have hheld : e.groups u = d.groups u := funext (h.held u (hown hu))
    rw [hheld]
    apply h.update_groups (hown hu)
    intro g' hg'
    by_cases heq : g' = g
    · simp [heq] at hg'
    · rw [if_neg heq] at hg'
      exact (h.grouped u g' hg').mp (hown hu)
  | @unsubscribe u hu =>
    have hleft := h.update_user (v := none) hc fun u hv => by cases hv
    have hlone := h.lone_iff (c := c) (hown hu)
    by_cases hlast : Lone d c u
    · simp only [after, hlast, hlone.mpr hlast, ↓reduceIte, depart_eq]
      exact hleft.update_groups (hown hu) fun g hg => absurd rfl hg
    · simp only [after, hlast, mt hlone.mp hlast, ↓reduceIte]
      exact hleft

/-- A message of the others leaves the party's own directory alone. -/
theorem Shares.after_rest (h : Shares T d e) (hc : T.clients c = false)
    (hk : Kept A.simpleHash T d c cmd) : Shares T (after A.simpleHash d c cmd) e := by
  have hno : ¬ T.clients c = true := by simp [hc]
  have hother : ∀ {u}, d.user c = some u → u ∉ T.users :=
    fun hu hin => hno ((h.named c _ hu).mpr hin)
  cases hk with
  | idle | refuse | queryUser | queryGroup | data => exact h
  | subscribe hu =>
    exact h.update_other hc fun u hv => Option.some.inj hv ▸ mt hu.mpr hno
  | join hu hg => exact h.joined_rest (hother hu) (mt hg.mpr hno) _
  | @leave u g hu hg =>
    simp only [after, leave_eq]
    apply h.update_rest (hother hu)
    intro g' hg'
    by_cases heq : g' = g
    · simp [heq] at hg'
    · rw [if_neg heq] at hg'
      exact fun hin => hother hu ((h.grouped u g' hg').mpr hin)
  | @unsubscribe u hu =>
    have hleft := h.update_other (v := none) hc fun u hv => by cases hv
    by_cases hlast : Lone d c u
    · simp only [after, hlast, ↓reduceIte, depart_eq]
      exact hleft.update_rest (hother hu) fun g hg => absurd rfl hg
    · simp only [after, hlast, ↓reduceIte]
      exact hleft

/-- The party's clients are answered as without the others. -/
theorem Shares.answered_own (h : Shares T d e) (hc : T.clients c = true)
    (hk : Kept A.simpleHash T d c cmd) (hx : T.clients x.client = true) :
    answered A e c payload x cmd = answered A d c payload x cmd := by
  have hown : ∀ {u}, d.user c = some u → u ∈ T.users := fun hu => (h.named c _ hu).mp hc
  cases hk with
  | idle | subscribe _ | refuse => rfl
  | join hu hg =>
    exact (h.joined_own (hown hu) (hg.mp hc) _).told_own (fun o => rfl) hx
  | leave | data => exact h.told_own (fun o => rfl) hx
  | @queryUser u g hu hin =>
    have hg := (h.grouped u g hin).mp (hown hu)
    simp only [answered]
    congr 1
    ext o
    by_cases ho : T.clients o = true
    · simp only [Set.mem_ofPred_eq, h.member_iff ho, h.user o ho]
    · have hd : ¬ d.Member o g := fun hm => ho ((h.member hm).mpr hg)
      have he : ¬ e.Member o g := fun hm => ho (h.client hm)
      simp [hd, he]
  | @queryGroup u hu =>
    have hheld : e.groups u = d.groups u := funext (h.held u (hown hu))
    simp only [answered, hheld]
  | @unsubscribe u hu =>
    have hlone : Lone e c u ↔ Lone d c u := h.lone_iff (hown hu)
    have hset : {p : Int32 × UInt16 | Parting e u p ∧
        (⟨CHANNEL_CTRL, p.2, notice BC_UNSUBSCRIPTION u p.1 []⟩ : Said) = x} =
        {p : Int32 × UInt16 | Parting d u p ∧
          (⟨CHANNEL_CTRL, p.2, notice BC_UNSUBSCRIPTION u p.1 []⟩ : Said) = x} := by
      ext p
      refine and_congr_left fun hp => ?_
      have ho : T.clients p.2 = true := by rwa [← hp] at hx
      simp only [Parting, Directory.InGroup, h.held u (hown hu), h.member_iff ho]
    by_cases hlast : Lone d c u
    · simp only [answered, hlast, hlone.mpr hlast, ↓reduceIte, hset]
    · simp only [answered, hlast, mt hlone.mp hlast, ↓reduceIte]

/-- Nobody in the party is told of a message of the others. -/
theorem Shares.answered_rest (h : Shares T d e) (hc : T.clients c = false)
    (hk : Kept A.simpleHash T d c cmd) (hx : T.clients x.client = true) :
    answered A d c payload x cmd = 0 := by
  have hno : ¬ T.clients c = true := by simp [hc]
  have hother : ∀ {u}, d.user c = some u → u ∉ T.users :=
    fun hu hin => hno ((h.named c _ hu).mpr hin)
  have hne : ∀ {type payload}, (⟨type, c, payload⟩ : Said) ≠ x := by
    rintro type payload rfl
    exact hno hx
  cases hk with
  | idle | subscribe _ => rfl
  | refuse => simp [answered, hne]
  | join hu hg =>
    exact (h.joined_rest (hother hu) (mt hg.mpr hno) _).told_rest (fun o => rfl) hx
      (mt hg.mpr hno)
  | leave hu hg => exact h.told_rest (fun o => rfl) hx (hg hno)
  | data hg => exact h.told_rest (fun o => rfl) hx (hg hno)
  | queryUser =>
    have hnone : ∀ (v : Option Name) (g : Int32),
        v.map (fun v => Said.mk CHANNEL_CTRL c (userAnswer g v)) ≠ some x := by
      intro v g
      cases v <;> simp [hne]
    simp [answered, hnone]
  | queryGroup => simp [answered, hne]
  | @unsubscribe u hu =>
    have hset : {p : Int32 × UInt16 | Parting d u p ∧
        (⟨CHANNEL_CTRL, p.2, notice BC_UNSUBSCRIPTION u p.1 []⟩ : Said) = x} = ∅ := by
      ext p
      simp only [Set.mem_ofPred_eq, Set.mem_empty_iff_false, iff_false, not_and]
      rintro ⟨hin, hm⟩ rfl
      exact hother hu ((h.grouped u p.1 hin).mpr ((h.member hm).mp hx))
    simp [answered, hne, hset]

end Messages

/-! ### Whole runs -/

section Runs

variable {A : Antd} {T : Tenant} {d d' e e' : Directory} {i : Input} {out out' : List TunnelMsg}

/-- What the party's clients are told. -/
def toldTo (T : Tenant) (out : List TunnelMsg) : List Said :=
  (out.map said).filter fun x => T.clients x.client

theorem mem_toldTo {x : Said} : x ∈ toldTo T out ↔ x ∈ out.map said ∧ T.clients x.client = true :=
  List.mem_filter

theorem count_toldTo {x : Said} (hx : T.clients x.client = true) :
    (toldTo T out).count x = (out.map said).count x :=
  List.count_filter (p := fun x : Said => T.clients x.client) hx

theorem Shares.told_same (h : Shares T d e) (hk : Keeps A.simpleHash T i) (hi : T.Sends i)
    (hd : Carried A d d' i out) (he : Carried A e e' i out') :
    Shares T d' e' ∧ (toldTo T out).Perm (toldTo T out') := by
  have hcmd : command e i = command d i :=
    command_congr (h.user _ hi) fun u hu => h.held u ((h.named _ u hu).mp hi)
  have hkept : Kept A.simpleHash T d i.client (command d i) := command_kept hk
  constructor
  · rw [hd.directory, he.directory, hcmd]
    exact h.after_own hi hkept
  · apply List.perm_iff_count.mpr
    intro x
    by_cases hx : T.clients x.client = true
    · rw [count_toldTo hx, count_toldTo hx, hd.frames, he.frames, hcmd]
      exact (h.answered_own hi hkept hx).symm
    · have hno : ∀ out, x ∉ toldTo T out := fun out hin => hx (mem_toldTo.mp hin).2
      rw [List.count_eq_zero_of_not_mem (hno out), List.count_eq_zero_of_not_mem (hno out')]

theorem Shares.told_nothing (h : Shares T d e) (hk : Keeps A.simpleHash T i) (hi : ¬ T.Sends i)
    (hd : Carried A d d' i out) : Shares T d' e ∧ toldTo T out = [] := by
  have hc : T.clients i.client = false := by simpa [Tenant.Sends] using hi
  have hkept : Kept A.simpleHash T d i.client (command d i) := command_kept hk
  constructor
  · rw [hd.directory]
    exact h.after_rest hc hkept
  · apply List.eq_nil_iff_forall_not_mem.mpr
    intro x hin
    obtain ⟨hsaid, hx⟩ := mem_toldTo.mp hin
    have hzero := (hd.frames x).trans (h.answered_rest hc hkept hx)
    exact List.count_eq_zero.mp hzero hsaid

/-- A frame as it is compared: whole, save for the channel id of an error reply. -/
def settled (m : TunnelMsg) : TunnelMsg :=
  if m.header.type = CHANNEL_ERROR then { m with header.channelId := 0 } else m

/-- What the party's clients are sent. -/
def heard (T : Tenant) (out : List TunnelMsg) : List TunnelMsg :=
  (out.filter fun m => T.clients m.header.clientId).map settled

/-- The answers to a shared run and to the party's own: the party hears nothing of the others, and
of its own messages the same. -/
structure Undisturbed (T : Tenant) (outs outs' : List (Input × List TunnelMsg)) : Prop where
  rest : ∀ a ∈ outs, ¬ T.Sends a.1 → heard T a.2 = []
  own : List.Forall₂ (fun a b => a.1 = b.1 ∧ (heard T a.2).Perm (heard T b.2))
    (outs.filter fun a => T.Sends a.1) outs'

theorem Undisturbed.append_own {outs outs' : List (Input × List TunnelMsg)}
    (h : Undisturbed T outs outs') (hi : T.Sends i) (hout : (heard T out).Perm (heard T out')) :
    Undisturbed T (outs ++ [(i, out)]) (outs' ++ [(i, out')]) := by
  constructor
  · intro a ha hno
    rcases List.mem_append.mp ha with ha | ha
    · exact h.rest a ha hno
    · rw [List.mem_singleton] at ha
      subst ha
      exact absurd hi hno
  · rw [List.filter_append, List.filter_singleton, decide_eq_true hi]
    exact List.rel_append h.own (.cons ⟨rfl, hout⟩ .nil)

theorem Undisturbed.append_rest {outs outs' : List (Input × List TunnelMsg)}
    (h : Undisturbed T outs outs') (hi : ¬ T.Sends i) (hout : heard T out = []) :
    Undisturbed T (outs ++ [(i, out)]) outs' := by
  constructor
  · intro a ha hno
    rcases List.mem_append.mp ha with ha | ha
    · exact h.rest a ha hno
    · rw [List.mem_singleton] at ha
      subst ha
      exact hout
  · rw [List.filter_append, List.filter_singleton, decide_eq_false hi]
    simpa using h.own

variable {M : Type → Type → Type} [FiniteMap M] {s s' t t' : State M}

theorem settled_framed (s : State M) (i : Input) (x : Said) :
    settled (framed s i x) =
      frame x.type (if x.type = CHANNEL_ERROR then 0 else channelFor i) x.client x.payload := by
  unfold settled framed
  by_cases herror : x.type = CHANNEL_ERROR
  · simp only [herror, frame, ↓reduceIte]
  · simp only [herror, frame, ↓reduceIte]

/-- What the party is sent is what it is told, in frames that the request decides. -/
theorem heard_eq (h : Invariant A s) (hs : BroadcastService.Step A s i out s') :
    heard T out = (toldTo T out).map fun x =>
      frame x.type (if x.type = CHANNEL_ERROR then 0 else channelFor i) x.client x.payload := by
  have hclient : ∀ x, (framed s i x).header.clientId = x.client := fun x => rfl
  have hframed := step_framed h hs
  unfold toldTo
  generalize out.map said = saying at hframed
  rw [hframed, heard, List.filter_map, List.map_map]
  simp only [Function.comp_def, hclient, settled_framed]

theorem Shares.heard_own (h : Shares T (directoryOf s) (directoryOf t)) (hinv : Invariant A s)
    (hinv' : Invariant A t) (hk : Keeps A.simpleHash T i) (hi : T.Sends i)
    (hs : BroadcastService.Step A s i out s') (ht : BroadcastService.Step A t i out' t') :
    Shares T (directoryOf s') (directoryOf t') ∧ (heard T out).Perm (heard T out') := by
  obtain ⟨hnext, htold⟩ := h.told_same hk hi (step_carried hinv hs) (step_carried hinv' ht)
  refine ⟨hnext, ?_⟩
  rw [heard_eq hinv hs, heard_eq hinv' ht]
  exact htold.map _

theorem Shares.heard_rest (h : Shares T (directoryOf s) e) (hinv : Invariant A s)
    (hk : Keeps A.simpleHash T i) (hi : ¬ T.Sends i) (hs : BroadcastService.Step A s i out s') :
    Shares T (directoryOf s') e ∧ heard T out = [] := by
  obtain ⟨hnext, htold⟩ := h.told_nothing hk hi (step_carried hinv hs)
  refine ⟨hnext, ?_⟩
  rw [heard_eq hinv hs, htold, List.map_nil]

theorem Shares.absent (h : Shares T (directoryOf s) (directoryOf t)) (hinv : Invariant A s)
    (hinv' : Invariant A t) {c : UInt16} (hc : T.clients c = true) :
    find t.clients c = none ↔ find s.clients c = none := by
  have huser : (directoryOf t).user c = none ↔ (directoryOf s).user c = none := by
    rw [h.user c hc]
  exact (userOf_eq_none hinv'.toHandleInvariant).symm.trans
    (huser.trans (userOf_eq_none hinv.toHandleInvariant))

/-- What goes through among the others goes through without them, or it is an error reply whose
pointer another's request has set. -/
theorem Shares.step_own (h : Shares T (directoryOf s) (directoryOf t)) (hinv : Invariant A s)
    (hinv' : Invariant A t) (hi : T.Sends i) (hs : BroadcastService.Step A s i out s') :
    step A t i = .error .responseData ∨ ∃ t' out', BroadcastService.Step A t i out' t' := by
  have hnone := h.absent hinv hinv' hi
  have hfine : ∀ f, ¬ Faulted s i f := by
    intro f hf
    have hfault := (faulted_step (A := A) hf).symm.trans hs
    cases hfault
  cases hstep : step A t i with
  | ok r => exact Or.inr ⟨r.1, r.2, hstep⟩
  | error f =>
    cases step_error hinv' hstep with
    | nullNode htype habsent => exact (hfine _ (.nullNode htype (hnone.mp habsent))).elim
    | dataWord htype hshort => exact (hfine _ (.dataWord htype hshort)).elim
    | ctrlWord hctrl hcode hp hshort =>
      obtain ⟨q, hq⟩ : ∃ q, find s.clients i.client = some q := by
        apply Option.ne_none_iff_exists'.mp
        exact hnone.not.mp (by simp [hp])
      exact (hfine _ (.ctrlWord hctrl hcode hq hshort)).elim
    | refusal => exact Or.inl rfl

end Runs

/-- Client 1 with its user and group. -/
def lodger : Tenant := ⟨fun c => c = 1, {u | u.bytes = [65]}, {g | g = 71}⟩

theorem data_known : CHANNEL_DATA ≤ 7 := by decide

theorem unsubscribe_known : CHANNEL_UNSUBSCRIBE ≤ 7 := by decide

theorem nothing_small : ([] : List UInt8).length < 2 ^ 32 := by simp

/-- A byte for a group. -/
def speaking (c : UInt16) (g b : UInt8) : Input :=
  .plain CHANNEL_DATA c [0, 0, 0, g, b] data_known (by simp)

/-- Client 2 comes, joins its own group and asks, speaks in it and leaves. -/
def house : List Input :=
  [.subscribe 1 65, .subscribe 2 66, .ctrl 1 0x0A 71, .ctrl 2 0x0A 72, .ctrl 2 0x0D 0,
    speaking 2 72 9, speaking 1 71 9,
    .plain CHANNEL_UNSUBSCRIBE 2 [] unsubscribe_known nothing_small]

theorem keeps_lodger {i : Input}
    (huser : i.request.header.type = CHANNEL_SUBSCRIBE →
      (i.client = 1 ↔ cString i.request.payload = [65]))
    (hjoin : i.request.header.type = CHANNEL_CTRL →
      i.request.payload.head? = some BC_SUBSCRIPTION →
      (i.client = 1 ↔ firstByteHost.simpleHash (cString (i.request.payload.drop 1)) = 71))
    (hleave : i.request.payload.head? ≠ some BC_UNSUBSCRIPTION)
    (hdata : i.request.header.type = CHANNEL_DATA → i.client ≠ 1 → gidAt i 0 ≠ 71) :
    Keeps firstByteHost.simpleHash lodger i := by
  have hsends : lodger.Sends i ↔ i.client = 1 := by simp [lodger, Tenant.Sends]
  refine ⟨?_, ?_, ?_, ?_⟩
  · intro htype _ u hu
    rw [hsends, huser htype, ← hu]
    rfl
  · intro hctrl
    rw [hsends, hjoin hctrl.1 hctrl.2.2.2]
    rfl
  · intro hctrl
    exact absurd hctrl.2.2.2 hleave
  · intro htype hother
    exact hdata htype (mt hsends.mpr hother)

theorem house_keeps : ∀ i ∈ house, Keeps firstByteHost.simpleHash lodger i := by
  simp only [house, List.forall_mem_cons, List.not_mem_nil, false_implies, implies_true, and_true]
  refine ⟨?_, ?_, ?_, ?_, ?_, ?_, ?_, ?_⟩ <;>
    exact keeps_lodger (by decide) (by decide) (by decide) (by decide)

theorem house_shared :
    (runAll (answer firstByteHost) (initial firstByteHost channelOk : State AssocList) house).map
      (fun r => addressed r.2) = .ok [[], [], [1], [2], [2], [2], [1], [2, 2]] := by
  decide +kernel

theorem house_own :
    (runAll (answer firstByteHost) (initial firstByteHost channelOk : State AssocList)
      (house.filter lodger.Sends)).map (fun r => addressed r.2) = .ok [[], [1], [1]] := by
  decide +kernel

end BroadcastTenants
