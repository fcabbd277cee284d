import TunnelPublishers.BroadcastRefinement

/-!
# Answers to user queries

The answer to a user query is a walk over the clients, and membership is kept
with the handles they share. A member is therefore named once for each client it
has, and nobody else is named.
-/
namespace BroadcastQueries

open ByteOrder FiniteMaps FiniteMap TunnelFraming ExecutionTraces BroadcastService
  BroadcastMachine BroadcastHandles BroadcastOutcomes BroadcastInvariant BroadcastRefinement

variable {M : Type → Type → Type} [FiniteMap M]

/-! ### The query -/

theorem handled_queryUser {A : Antd} {s : State M} {i : Input} {out : List TunnelMsg}
    {clients : M UInt16 ℕ} {heap : List (Option (BcClient M))} {p : ℕ} {bc : BcClient M}
    {g : Int32} (h : Handled A s i out clients heap) (hctrl : IsCtrl i.request BC_QUERY_USER)
    (hp : find s.clients i.client = some p) (hlive : Live s.heap p bc)
    (hg : readWord i 1 = .ok g) (hin : find bc.groups g ≠ none) :
    ∃ users : UInt16 → Name,
      (∀ n ∈ entries s.clients, ∀ bc, Live s.heap n.2 bc → users n.1 = bc.name) ∧
      out = (recipients s.heap s.clients g).map fun o =>
        frame CHANNEL_CTRL i.request.header.channelId i.client (userAnswer g (users o)) := by
  cases h with
  | queryUser _ hp' hlive' hg' _ husers =>
    rw [hg, Except.ok.injEq] at hg'
    subst hg'
    exact ⟨_, husers, rfl⟩
  | queryUserRefused _ hp' hlive' hg' hout =>
    rw [hg, Except.ok.injEq] at hg'
    rw [hp, Option.some.injEq] at hp'
    subst hg' hp'
    rw [hlive'.unique hlive] at hout
    exact (hin hout).elim
  | join hk | leave hk | queryGroup hk => exact absurd (hctrl.code_eq hk) (by decide)
  | unknownCode hk _ hcode => exact (hcode (by simp [← hctrl.code_eq hk])).elim
  | unmapped _ hnone => rw [hp] at hnone; cases hnone
  | badSize _ hsize => exact (hsize ⟨hctrl.2.1, hctrl.2.2.1⟩).elim
  | subscribed ht | overlong ht | share ht | create ht | data ht | unsubscribe ht | depart ht =>
    exact absurd (hctrl.1.symm.trans ht) (by decide)
  | other ht => exact (ht (by simp [hctrl.1])).elim

/-- A query that carries a group id from a client of the channel is handled. -/
theorem query_handled {A : Antd} {s : State M} {i : Input} {p : ℕ} {g : Int32}
    (h : Invariant A s) (hctrl : IsCtrl i.request BC_QUERY_USER)
    (hp : find s.clients i.client = some p) (hg : readWord i 1 = .ok g) :
    ∃ s' out, BroadcastService.Step A s i out s' := by
  have ho := step_outcome h i
  cases hstep : step A s i with
  | ok r => exact ⟨r.1, r.2, hstep⟩
  | error f =>
    rw [hstep] at ho
    cases ho with
    | nullNode ht | dataWord ht => exact absurd (hctrl.1.symm.trans ht) (by decide)
    | ctrlWord _ _ _ hshort =>
      have hlen := (readWord_eq_ok.mp hg).length_le
      rw [be32_length, List.length_drop] at hlen
      omega
    | refusal _ hnone =>
      rw [hnone ⟨hctrl.2.1, hctrl.2.2.1⟩] at hp
      cases hp

/-- A user in a group has a client. -/
theorem client_of_inGroup {s : State M} (h : HandleInvariant s.clients s.heap) {v : Name}
    {g : Int32} (hin : (directoryOf s).InGroup v g) : ∃ o, (directoryOf s).user o = some v := by
  by_cases hv : ∃ p bc, Live s.heap p bc ∧ bc.name = v
  · obtain ⟨p, bc, hp, rfl⟩ := hv
    obtain ⟨o, ho⟩ := h.client hp
    exact ⟨o, userOf_of_live ho hp⟩
  · exact (hin (groupsOf_of_absent (fun p bc hp hn => hv ⟨p, bc, hp, hn⟩) g)).elim

/-- The answer to a user query from a member goes to the client that asked; it names the users of
the group and no others, each of them once for each client it has in the channel. -/
theorem query_names_clients {A : Antd} {s : State M} (hs : Reachable A s) {i : Input} {u : Name}
    {g : Int32} (hctrl : IsCtrl i.request BC_QUERY_USER)
    (hu : (directoryOf s).user i.client = some u) (hg : readWord i 1 = .ok g)
    (hin : (directoryOf s).InGroup u g) : ∃ (named : List Name) (s' : State M),
      BroadcastService.Step A s i (named.map fun v =>
        frame CHANNEL_CTRL i.request.header.channelId i.client (userAnswer g v)) s' ∧
      (∀ v, v ∈ named ↔ (directoryOf s).InGroup v g) ∧
      ∀ v ∈ named, named.count v = Set.ncard {c | (directoryOf s).user c = some v} := by
  have hinv := reachable_invariant hs
  have h := hinv.toHandleInvariant
  obtain ⟨p, bc, hp, hlive, rfl⟩ := (userOf_eq_some h).mp hu
  have hfind : find bc.groups g ≠ none := by
    rw [← groupsOf_of_live h hlive]
    exact hin
  obtain ⟨s', out, hstep⟩ := query_handled hinv hctrl hp hg
  obtain ⟨users, husers, rfl⟩ :=
    handled_queryUser (step_handled hinv hstep) hctrl hp hlive hg hfind
  have hmembers := recipients_enumerates h g
  -- On the members, the names sent are those of the directory.
  have hname : ∀ o v, (directoryOf s).user o = some v → users o = v := by
    intro o v ho
    obtain ⟨q, bq, hf, hq, rfl⟩ := (userOf_eq_some h).mp ho
    exact husers (o, q) (mem_entries.mpr hf) bq hq
  have hnamed : ∀ v, v ∈ (recipients s.heap s.clients g).map users ↔
      (directoryOf s).InGroup v g := by
    intro v
    rw [List.mem_map]
    constructor
    · rintro ⟨o, ho, rfl⟩
      obtain ⟨w, hw, hwin⟩ := (hmembers.2 o).mp ho
      rw [hname o w hw]
      exact hwin
    · intro hv
      obtain ⟨o, ho⟩ := client_of_inGroup h hv
      exact ⟨o, (hmembers.2 o).mpr ⟨v, ho, hv⟩, hname o v ho⟩
  refine ⟨(recipients s.heap s.clients g).map users, s', by rw [List.map_map]; exact hstep,
    hnamed, ?_⟩
  intro v hv
  rw [hmembers.count_map]
  congr 1
  ext o
  constructor
  · rintro ⟨⟨w, hw, -⟩, rfl⟩
    rw [hname o w hw]
    exact hw
  · intro ho
    exact ⟨⟨v, ho, (hnamed v).mp hv⟩, hname o v ho⟩

/-- User `A` has two clients, and both it and user `B` are in group `G`. -/
def threeClients : State AssocList :=
  stateAfter firstByteHost channelOk
    [.subscribe 1 65, .subscribe 2 65, .subscribe 3 66, .ctrl 1 0x0A 71, .ctrl 3 0x0A 71]

/-- User `B` asks for the users of `G`. -/
theorem query_names_clients_two_users : ∃ (named : List Name) (s' : State AssocList),
    BroadcastService.Step firstByteHost threeClients (.plain CHANNEL_CTRL 3 [0x0C, 0, 0, 0, 71])
      (named.map fun v => frame CHANNEL_CTRL 1 3 (userAnswer 71 v)) s' ∧
    (∀ v, v ∈ named ↔ (directoryOf threeClients).InGroup v 71) ∧
    ∀ v ∈ named, named.count v = Set.ncard {c | (directoryOf threeClients).user c = some v} := by
  obtain ⟨u, hu⟩ : ∃ u : Name, u = ⟨[66], by decide, by decide⟩ := ⟨_, rfl⟩
  have huser : (directoryOf threeClients).user 3 = some u := by
    rw [hu]
    decide
  have hin : (directoryOf threeClients).InGroup u 71 := by
    rw [hu]
    unfold Directory.InGroup
    decide
  exact query_names_clients (stateAfter_reachable _ _ _) ⟨rfl, by decide, by decide, rfl⟩
    huser rfl hin

/-- The answer to `B` names user `A` twice. -/
theorem query_names_user_twice : Reachable firstByteHost threeClients ∧
    (step firstByteHost threeClients (.plain CHANNEL_CTRL 3 [0x0C, 0, 0, 0, 71])).map Prod.snd =
      .ok [frame CHANNEL_CTRL 1 3 [0x0C, 0, 0, 0, 71, 66],
        frame CHANNEL_CTRL 1 3 [0x0C, 0, 0, 0, 71, 65],
        frame CHANNEL_CTRL 1 3 [0x0C, 0, 0, 0, 71, 65]] :=
  ⟨stateAfter_reachable _ _ _, by decide +kernel⟩

end BroadcastQueries
