import TunnelPublishers.BroadcastService
import Mathlib.Data.Set.Card

/-!
# The broadcast service as a directory of users and groups

The purpose of the service without its pointers: which user a client belongs
to, and which groups a user is in. Delivery is to a set of clients, so a step
fixes the frames of each delivery and leaves their order open.
-/
namespace BroadcastMachine

open ByteOrder TunnelFraming BroadcastService

/-- The users of the clients, and for every user its groups with their names. -/
@[ext] structure Directory where
  user : UInt16 → Option Name
  groups : Name → Int32 → Option Name

def Directory.InGroup (d : Directory) (u : Name) (g : Int32) : Prop := d.groups u g ≠ none

/-- Clients that deliveries to `g` reach. -/
def Directory.Member (d : Directory) (c : UInt16) (g : Int32) : Prop :=
  ∃ u, d.user c = some u ∧ d.InGroup u g

def Directory.vacant : Directory := ⟨fun _ => none, fun _ _ => none⟩

def Directory.subscribe (d : Directory) (c : UInt16) (u : Name) : Directory :=
  { d with user := Function.update d.user c (some u) }

/-- A group already joined keeps the name it was joined under. -/
def Directory.join (d : Directory) (u : Name) (g : Int32) (name : Name) : Directory :=
  { d with groups := fun u' g' =>
      if u' = u ∧ g' = g ∧ d.groups u g = none then some name else d.groups u' g' }

def Directory.leave (d : Directory) (u : Name) (g : Int32) : Directory :=
  { d with groups := fun u' g' => if u' = u ∧ g' = g then none else d.groups u' g' }

def Directory.unmap (d : Directory) (c : UInt16) : Directory :=
  { d with user := Function.update d.user c none }

/-- The last client of a user takes the user's groups with it. -/
def Directory.depart (d : Directory) (c : UInt16) (u : Name) : Directory :=
  ⟨Function.update d.user c none, fun u' g => if u' = u then none else d.groups u' g⟩

/-- `l` lists the elements with a property, each once. -/
def Enumerates {α : Type*} (l : List α) (P : α → Prop) : Prop :=
  l.Nodup ∧ ∀ x, x ∈ l ↔ P x

section Enumerates

variable {α β : Type*} {l : List α} {P : α → Prop}

theorem Enumerates.length_eq (h : Enumerates l P) : l.length = Set.ncard {x | P x} := by
  classical
  have hset : {x | P x} = (l.toFinset : Set α) := by
    ext x
    rw [Finset.mem_coe, List.mem_toFinset, h.2 x]
    rfl
  rw [hset, Set.ncard_coe_finset, List.toFinset_card_of_nodup h.1]

theorem Enumerates.filter (h : Enumerates l P) (p : α → Prop) [DecidablePred p] :
    Enumerates (l.filter fun x => p x) fun x => P x ∧ p x := by
  refine ⟨h.1.filter _, fun x => ?_⟩
  rw [List.mem_filter, h.2 x, decide_eq_true_eq]

/-- An image is counted once for each listed element it is the image of. -/
theorem Enumerates.count_map [DecidableEq β] (h : Enumerates l P) (f : α → β) (b : β) :
    (l.map f).count b = Set.ncard {x | P x ∧ f x = b} := by
  rw [← (h.filter fun x => f x = b).length_eq, List.count_eq_countP, List.countP_map,
    List.countP_eq_length_filter]
  rfl

/-- Elements with a second list each are listed as pairs. -/
theorem Enumerates.pairs (h : Enumerates l P) {m : α → List β} {Q : α → β → Prop}
    (hm : ∀ x ∈ l, Enumerates (m x) (Q x)) :
    Enumerates (l.flatMap fun x => (m x).map (Prod.mk x)) fun e => P e.1 ∧ Q e.1 e.2 := by
  constructor
  · refine List.nodup_flatMap.mpr ⟨fun x hx => (hm x hx).1.map (Prod.mk_right_injective x), ?_⟩
    apply h.1.imp
    intro x y hne e hx hy
    obtain ⟨b, -, rfl⟩ := List.mem_map.mp hx
    obtain ⟨c, -, hc⟩ := List.mem_map.mp hy
    exact hne (congrArg Prod.fst hc).symm
  · rintro ⟨x, y⟩
    rw [List.mem_flatMap]
    constructor
    · rintro ⟨x', hx, hpair⟩
      obtain ⟨y', hy, he⟩ := List.mem_map.mp hpair
      obtain ⟨rfl, rfl⟩ := Prod.mk.inj he
      exact ⟨(h.2 x').mp hx, ((hm x' hx).2 y').mp hy⟩
    · rintro ⟨hx, hy⟩
      have hmem := (h.2 x).mpr hx
      exact ⟨x, hmem, List.mem_map.mpr ⟨y, ((hm x hmem).2 y).mpr hy, rfl⟩⟩

end Enumerates

/-! ### Payloads -/

/-- Code, length of the user name, user name, group id and possibly the group's name. -/
def notice (code : UInt8) (u : Name) (g : Int32) (gname : List UInt8) : List UInt8 :=
  [code, UInt8.ofNat u.bytes.length] ++ (u.bytes ++ (be32 g.toUInt32 ++ gname))

def userAnswer (g : Int32) (u : Name) : List UInt8 := BC_QUERY_USER :: (be32 g.toUInt32 ++ u.bytes)

def groupAnswer (g : Int32) (name : Name) : List UInt8 :=
  BC_QUERY_GROUP :: (be32 g.toUInt32 ++ name.bytes)

/-- The group id a request carries at an offset; bytes a short payload lacks are unspecified. -/
def CarriesGid (m : TunnelMsg) (off : ℕ) (g : Int32) : Prop :=
  ∃ tail, be32 g.toUInt32 = ((m.payload ++ tail).drop off).take 4

/-- A control request the service looks at. -/
def IsCtrl (m : TunnelMsg) (code : UInt8) : Prop :=
  m.header.type = CHANNEL_CTRL ∧ 1 ≤ m.header.size.toNat ∧ m.header.size.toNat ≤ MAX_STR_LEN ∧
    m.payload.head? = some code

/-- The one kind of answer a refused control request gets. -/
def Refusal (m : TunnelMsg) (out : List TunnelMsg) : Prop :=
  ∃ channelId reply, out = [frame CHANNEL_ERROR channelId m.header.clientId reply]

/-- One message of the service, seen on the directory. -/
inductive Step (hash : List UInt8 → Int32) :
    Directory → TunnelMsg → List TunnelMsg → Directory → Prop where
  | subscribe {d m} {u : Name} : m.header.type = CHANNEL_SUBSCRIBE →
      m.header.size.toNat ≤ 254 → d.user m.header.clientId = none →
      u.bytes = cString m.payload → Step hash d m [] (d.subscribe m.header.clientId u)
  | subscribed {d m u} : m.header.type = CHANNEL_SUBSCRIBE → d.user m.header.clientId = some u →
      Step hash d m [] d
  | overlong {d m} : m.header.type = CHANNEL_SUBSCRIBE → 254 < m.header.size.toNat →
      Step hash d m [] d
  | join {d m u clients} {name : Name} : IsCtrl m BC_SUBSCRIPTION →
      d.user m.header.clientId = some u → name.bytes = cString (m.payload.drop 1) →
      Enumerates clients (fun o => (d.join u (hash name.bytes) name).Member o (hash name.bytes)) →
      Step hash d m (clients.map fun o => frame CHANNEL_CTRL m.header.channelId o
        (notice BC_SUBSCRIPTION u (hash name.bytes) name.bytes)) (d.join u (hash name.bytes) name)
  | leave {d m u g clients} : IsCtrl m BC_UNSUBSCRIPTION → d.user m.header.clientId = some u →
      CarriesGid m 1 g → Enumerates clients (fun o => d.Member o g) →
      Step hash d m (clients.map fun o => frame CHANNEL_CTRL m.header.channelId o
        (notice BC_UNSUBSCRIPTION u g [])) (d.leave u g)
  | queryUser {d m u g clients} {users : UInt16 → Name} : IsCtrl m BC_QUERY_USER →
      d.user m.header.clientId = some u → CarriesGid m 1 g → d.InGroup u g →
      Enumerates clients (fun o => d.Member o g) → (∀ o ∈ clients, d.user o = some (users o)) →
      Step hash d m (clients.map fun o => frame CHANNEL_CTRL m.header.channelId m.header.clientId
        (userAnswer g (users o))) d
  | queryUserRefused {d m u g out} : IsCtrl m BC_QUERY_USER → d.user m.header.clientId = some u →
      CarriesGid m 1 g → ¬ d.InGroup u g → Refusal m out → Step hash d m out d
  | queryGroup {d m u} {held : List (Int32 × Name)} : IsCtrl m BC_QUERY_GROUP →
      d.user m.header.clientId = some u → Enumerates held (fun e => d.groups u e.1 = some e.2) →
      Step hash d m (held.map fun e => frame CHANNEL_CTRL m.header.channelId m.header.clientId
        (groupAnswer e.1 e.2)) d
  | unknownCode {d m u code out} : IsCtrl m code → d.user m.header.clientId = some u →
      code ∉ [BC_SUBSCRIPTION, BC_UNSUBSCRIPTION, BC_QUERY_USER, BC_QUERY_GROUP] →
      Refusal m out → Step hash d m out d
  | unmapped {d m out} : m.header.type = CHANNEL_CTRL → d.user m.header.clientId = none →
      Refusal m out → Step hash d m out d
  | badSize {d m out} : m.header.type = CHANNEL_CTRL →
      ¬ (1 ≤ m.header.size.toNat ∧ m.header.size.toNat ≤ MAX_STR_LEN) → Refusal m out →
      Step hash d m out d
  | data {d m g clients} : m.header.type = CHANNEL_DATA → CarriesGid m 0 g →
      Enumerates clients (fun o => d.Member o g) →
      Step hash d m (clients.map fun o => { m with header.clientId := o }) d
  | unsubscribe {d m u o channelId} : m.header.type = CHANNEL_UNSUBSCRIBE →
      d.user m.header.clientId = some u → o ≠ m.header.clientId → d.user o = some u →
      Step hash d m [frame CHANNEL_UNSUBSCRIBE channelId m.header.clientId []]
        (d.unmap m.header.clientId)
  | depart {d m u channelId held} {clients : Int32 → List UInt16} :
      m.header.type = CHANNEL_UNSUBSCRIBE →
      d.user m.header.clientId = some u → (∀ o, o ≠ m.header.clientId → d.user o ≠ some u) →
      Enumerates held (fun g => d.InGroup u g) →
      (∀ g ∈ held, Enumerates (clients g) (fun o => d.Member o g)) →
      Step hash d m
        (held.flatMap (fun g => (clients g).map fun o =>
            frame CHANNEL_CTRL channelId o (notice BC_UNSUBSCRIPTION u g [])) ++
          [frame CHANNEL_UNSUBSCRIBE channelId m.header.clientId []])
        (d.depart m.header.clientId u)
  | other {d m} : m.header.type ∉ [CHANNEL_SUBSCRIBE, CHANNEL_CTRL, CHANNEL_DATA,
      CHANNEL_UNSUBSCRIBE] → Step hash d m [] d

/-! ### Steps by kind of message -/

theorem IsCtrl.code_eq {m : TunnelMsg} {a b : UInt8} (h : IsCtrl m a) (k : IsCtrl m b) :
    a = b := by
  have hcode := h.2.2.2.symm.trans k.2.2.2
  simpa using hcode

variable {hash : List UInt8 → Int32} {d d' : Directory} {m : TunnelMsg} {out : List TunnelMsg}

theorem step_subscribe (h : Step hash d m out d') (htype : m.header.type = CHANNEL_SUBSCRIBE)
    (hsize : m.header.size.toNat ≤ 254) (hnone : d.user m.header.clientId = none) :
    ∃ u : Name, u.bytes = cString m.payload ∧ out = [] ∧
      d' = d.subscribe m.header.clientId u := by
  cases h with
  | subscribe _ _ _ hu => exact ⟨_, hu, rfl, rfl⟩
  | subscribed _ hu => rw [hnone] at hu; cases hu
  | overlong _ hlong => omega
  | join hk | leave hk | queryUser hk | queryUserRefused hk | queryGroup hk | unknownCode hk =>
    exact absurd (htype.symm.trans hk.1) (by decide)
  | unmapped ht | badSize ht | data ht | unsubscribe ht | depart ht =>
    exact absurd (htype.symm.trans ht) (by decide)
  | other ht => exact (ht (by simp [htype])).elim

theorem step_data (h : Step hash d m out d') (htype : m.header.type = CHANNEL_DATA) :
    ∃ g clients, CarriesGid m 0 g ∧ Enumerates clients (fun o => d.Member o g) ∧
      out = clients.map (fun o => { m with header.clientId := o }) ∧ d' = d := by
  cases h with
  | data _ hg hclients => exact ⟨_, _, hg, hclients, rfl, rfl⟩
  | join hk | leave hk | queryUser hk | queryUserRefused hk | queryGroup hk | unknownCode hk =>
    exact absurd (htype.symm.trans hk.1) (by decide)
  | subscribe ht | subscribed ht | overlong ht | unmapped ht | badSize ht | unsubscribe ht
  | depart ht =>
    exact absurd (htype.symm.trans ht) (by decide)
  | other ht => exact (ht (by simp [htype])).elim

theorem step_join {u : Name} (h : Step hash d m out d') (hctrl : IsCtrl m BC_SUBSCRIPTION)
    (hu : d.user m.header.clientId = some u) : ∃ (name : Name) (clients : List UInt16),
      name.bytes = cString (m.payload.drop 1) ∧ Enumerates clients
        (fun o => (d.join u (hash name.bytes) name).Member o (hash name.bytes)) ∧
      out = clients.map (fun o => frame CHANNEL_CTRL m.header.channelId o
        (notice BC_SUBSCRIPTION u (hash name.bytes) name.bytes)) ∧
      d' = d.join u (hash name.bytes) name := by
  cases h with
  | join _ hu' hname hclients =>
    rw [hu, Option.some.injEq] at hu'
    subst hu'
    exact ⟨_, _, hname, hclients, rfl, rfl⟩
  | leave hk | queryUser hk | queryUserRefused hk | queryGroup hk =>
    exact absurd (hctrl.code_eq hk) (by decide)
  | unknownCode hk _ hcode => exact (hcode (by simp [← hctrl.code_eq hk])).elim
  | unmapped _ hnone => rw [hu] at hnone; cases hnone
  | badSize _ hsize => exact (hsize ⟨hctrl.2.1, hctrl.2.2.1⟩).elim
  | subscribe ht | subscribed ht | overlong ht | data ht | unsubscribe ht | depart ht =>
    exact absurd (hctrl.1.symm.trans ht) (by decide)
  | other ht => exact (ht (by simp [hctrl.1])).elim

theorem step_queryGroup {u : Name} (h : Step hash d m out d') (hctrl : IsCtrl m BC_QUERY_GROUP)
    (hu : d.user m.header.clientId = some u) : ∃ held : List (Int32 × Name),
      Enumerates held (fun e => d.groups u e.1 = some e.2) ∧
      out = held.map (fun e => frame CHANNEL_CTRL m.header.channelId m.header.clientId
        (groupAnswer e.1 e.2)) ∧ d' = d := by
  cases h with
  | queryGroup _ hu' hheld =>
    rw [hu, Option.some.injEq] at hu'
    subst hu'
    exact ⟨_, hheld, rfl, rfl⟩
  | join hk | leave hk | queryUser hk | queryUserRefused hk =>
    exact absurd (hctrl.code_eq hk) (by decide)
  | unknownCode hk _ hcode => exact (hcode (by simp [← hctrl.code_eq hk])).elim
  | unmapped _ hnone => rw [hu] at hnone; cases hnone
  | badSize _ hsize => exact (hsize ⟨hctrl.2.1, hctrl.2.2.1⟩).elim
  | subscribe ht | subscribed ht | overlong ht | data ht | unsubscribe ht | depart ht =>
    exact absurd (hctrl.1.symm.trans ht) (by decide)
  | other ht => exact (ht (by simp [hctrl.1])).elim

theorem step_unmapped {code : UInt8} (h : Step hash d m out d') (hctrl : IsCtrl m code)
    (hnone : d.user m.header.clientId = none) : Refusal m out := by
  cases h with
  | unmapped _ _ hr | badSize _ _ hr => exact hr
  | join _ hu | leave _ hu | queryUser _ hu | queryUserRefused _ hu | queryGroup _ hu
  | unknownCode _ hu =>
    rw [hnone] at hu
    cases hu
  | subscribe ht | subscribed ht | overlong ht | data ht | unsubscribe ht | depart ht =>
    exact absurd (hctrl.1.symm.trans ht) (by decide)
  | other ht => exact (ht (by simp [hctrl.1])).elim

end BroadcastMachine
