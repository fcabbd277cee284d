import TunnelPublishers.BroadcastInvariant

/-!
# The broadcast service refines its directory

The abstraction forgets addresses and counts: a client's user is the name
behind its pointer, a user's groups are those of the one live handle with its
name. Every outcome is a step of the directory machine with the same frames.
-/
namespace BroadcastRefinement

open ByteOrder FiniteMaps FiniteMap TunnelFraming ExecutionTraces BroadcastService
  BroadcastMachine BroadcastHandles BroadcastOutcomes BroadcastInvariant

variable {M : Type → Type → Type} [FiniteMap M]

/-- The groups of the first live handle with a name. -/
def groupsOf (heap : List (Option (BcClient M))) (u : Name) (g : Int32) : Option Name :=
  (heap.findSome? fun cell => cell.bind fun bc => if bc.name = u then some bc else none).bind
    fun bc => find bc.groups g

def directory (clients : M UInt16 ℕ) (heap : List (Option (BcClient M))) : Directory :=
  ⟨userOf clients heap, groupsOf heap⟩

def directoryOf (s : State M) : Directory := directory s.clients s.heap

section Abstraction

variable {clients : M UInt16 ℕ} {heap : List (Option (BcClient M))} {c : UInt16} {p : ℕ}
  {bc : BcClient M}

theorem groupsOf_of_live (h : HandleInvariant clients heap) (hp : Live heap p bc) (g : Int32) :
    groupsOf heap bc.name g = find bc.groups g := by
  have hfirst : (heap.findSome? fun cell =>
      cell.bind fun b => if b.name = bc.name then some b else none) = some bc := by
    cases hf : heap.findSome? fun cell =>
        cell.bind fun b => if b.name = bc.name then some b else none with
    | none =>
      have hmem : some bc ∈ heap := List.mem_of_getElem? hp
      have hmiss := List.findSome?_eq_none_iff.mp hf _ hmem
      simp at hmiss
    | some bc' =>
      obtain ⟨cell, hmem, hcell⟩ := List.exists_of_findSome?_eq_some hf
      obtain ⟨q, hq⟩ := List.getElem?_of_mem hmem
      cases cell with
      | none => simp at hcell
      | some bq =>
        simp only [Option.bind_some, Option.ite_none_right_eq_some, Option.some.injEq] at hcell
        obtain ⟨hname, rfl⟩ := hcell
        have hqp := h.distinct q p bq bc hq hp hname
        rw [hqp] at hq
        rw [Live.unique (show Live heap p bq from hq) hp]
  rw [groupsOf, hfirst, Option.bind_some]

theorem groupsOf_of_absent {u : Name} (hfree : ∀ p bc, Live heap p bc → bc.name ≠ u)
    (g : Int32) : groupsOf heap u g = none := by
  have hmiss : (heap.findSome? fun cell =>
      cell.bind fun b => if b.name = u then some b else none) = none := by
    apply List.findSome?_eq_none_iff.mpr
    intro cell hmem
    obtain ⟨q, hq⟩ := List.getElem?_of_mem hmem
    cases cell with
    | none => rfl
    | some bq => simp [hfree q bq hq]
  rw [groupsOf, hmiss, Option.bind_none]

theorem userOf_eq_some (h : HandleInvariant clients heap) {u : Name} :
    userOf clients heap c = some u ↔
      ∃ p bc, find clients c = some p ∧ Live heap p bc ∧ bc.name = u := by
  constructor
  · intro hu
    cases hf : find clients c with
    | none => simp [userOf, hf] at hu
    | some p =>
      obtain ⟨bc, hbc⟩ := h.live c p hf
      rw [userOf_of_live hf hbc, Option.some.injEq] at hu
      exact ⟨p, bc, rfl, hbc, hu⟩
  · rintro ⟨p, bc, hf, hbc, rfl⟩
    exact userOf_of_live hf hbc

theorem userOf_eq_none (h : HandleInvariant clients heap) :
    userOf clients heap c = none ↔ find clients c = none := by
  constructor
  · intro hu
    cases hf : find clients c with
    | none => rfl
    | some p =>
      obtain ⟨bc, hbc⟩ := h.live c p hf
      rw [userOf_of_live hf hbc] at hu
      cases hu
  · intro hf
    simp [userOf, hf]

/-- Users and groups of two heaps agree if live handles correspond by name and groups. -/
theorem groupsOf_congr {clients' : M UInt16 ℕ} {heap' : List (Option (BcClient M))} {u : Name}
    (h : HandleInvariant clients heap) (h' : HandleInvariant clients' heap') {g : Int32}
    (hto : ∀ q bq, Live heap q bq → bq.name = u →
      ∃ bq', Live heap' q bq' ∧ bq'.name = u ∧ find bq'.groups g = find bq.groups g)
    (hfrom : ∀ q bq', Live heap' q bq' → bq'.name = u → ∃ bq, Live heap q bq ∧ bq.name = u) :
    groupsOf heap' u g = groupsOf heap u g := by
  by_cases hu : ∃ q bq, Live heap q bq ∧ bq.name = u
  · obtain ⟨q, bq, hq, rfl⟩ := hu
    obtain ⟨bq', hq', hname, hgroups⟩ := hto q bq hq rfl
    rw [groupsOf_of_live h hq, ← hname, groupsOf_of_live h' hq', hgroups]
  · rw [groupsOf_of_absent (fun q bq hq hn => hu ⟨q, bq, hq, hn⟩), groupsOf_of_absent]
    intro q bq' hq' hn
    obtain ⟨bq, hq, hn'⟩ := hfrom q bq' hq' hn
    exact hu ⟨q, bq, hq, hn'⟩

/-- A cell that keeps its name, or is released, matters to no other name. -/
theorem groupsOf_set_ne {clients' : M UInt16 ℕ} {cell : Option (BcClient M)} {u : Name}
    (h : HandleInvariant clients heap) (h' : HandleInvariant clients' (heap.set p cell))
    (hp : Live heap p bc) (hname : ∀ bc', cell = some bc' → bc'.name = bc.name)
    (hu : u ≠ bc.name) (g : Int32) :
    groupsOf (heap.set p cell) u g = groupsOf heap u g := by
  refine groupsOf_congr h h' ?_ ?_
  · intro q bq hq hn
    have hqp : q ≠ p := by
      rintro rfl
      rw [hq.unique hp] at hn
      exact hu hn.symm
    exact ⟨bq, (live_set hp).mpr (by rwa [if_neg hqp]), hn, rfl⟩
  · intro q bq' hq' hn
    rw [live_set hp] at hq'
    split at hq'
    · exact (hu (hn.symm.trans (hname bq' hq'))).elim
    · exact ⟨bq', hq', hn⟩

theorem groupsOf_set {clients' : M UInt16 ℕ} {bc' : BcClient M}
    (h : HandleInvariant clients heap)
    (h' : HandleInvariant clients' (heap.set p (some bc'))) (hp : Live heap p bc)
    (hname : bc'.name = bc.name) (u : Name) (g : Int32) :
    groupsOf (heap.set p (some bc')) u g =
      if u = bc.name then find bc'.groups g else groupsOf heap u g := by
  have hp' : Live (heap.set p (some bc')) p bc' := (live_set hp).mpr (by rw [if_pos rfl])
  split
  · next hu => rw [hu, ← hname, groupsOf_of_live h' hp']
  · next hu => exact groupsOf_set_ne h h' hp (fun _ he => Option.some.inj he ▸ hname) hu g

theorem groupsOf_release {clients' : M UInt16 ℕ} (h : HandleInvariant clients heap)
    (h' : HandleInvariant clients' (heap.set p none)) (hp : Live heap p bc) (u : Name)
    (g : Int32) :
    groupsOf (heap.set p none) u g = if u = bc.name then none else groupsOf heap u g := by
  split
  · next hu =>
    apply groupsOf_of_absent
    intro q bq hq hn
    rw [live_set hp] at hq
    split at hq
    · cases hq
    · next hqp => exact hqp (h.distinct q p bq bc hq hp (hn.trans hu))
  · next hu => exact groupsOf_set_ne h h' hp (fun _ he => by cases he) hu g

theorem groupsOf_append {clients' : M UInt16 ℕ} {u : Name} (h : HandleInvariant clients heap)
    (h' : HandleInvariant clients' (heap ++ [some ⟨1, u, empty⟩]))
    (hfree : ∀ p bc, Live heap p bc → bc.name ≠ u) (u' : Name) (g : Int32) :
    groupsOf (heap ++ [some ⟨1, u, empty⟩]) u' g = groupsOf heap u' g := by
  by_cases hu : u' = u
  · subst hu
    have hnew : Live (heap ++ [some (⟨1, u', empty⟩ : BcClient M)]) heap.length ⟨1, u', empty⟩ :=
      live_append.mpr (Or.inr ⟨rfl, rfl⟩)
    rw [groupsOf_of_absent hfree]
    exact (groupsOf_of_live h' hnew g).trans (find_empty g)
  · refine groupsOf_congr h h' ?_ ?_
    · intro q bq hq hn
      exact ⟨bq, live_append.mpr (Or.inl hq), hn, rfl⟩
    · intro q bq' hq' hn
      rcases live_append.mp hq' with hq | ⟨-, rfl⟩
      · exact ⟨bq', hq, hn⟩
      · exact (hu hn.symm).elim

theorem userOf_set {bc' : BcClient M} (h : HandleInvariant clients heap) (hp : Live heap p bc)
    (hname : bc'.name = bc.name) :
    userOf clients (heap.set p (some bc')) = userOf clients heap := by
  funext c
  cases hf : find clients c with
  | none => simp [userOf, hf]
  | some q =>
    obtain ⟨bq, hq⟩ := h.live c q hf
    rw [userOf_of_live hf hq]
    by_cases hqp : q = p
    · subst hqp
      rw [userOf_of_live hf ((live_set hp).mpr (by rw [if_pos rfl])), hname, hq.unique hp]
    · rw [userOf_of_live hf ((live_set hp).mpr (by rwa [if_neg hqp]))]

/-- Entries decide users; only the entry that changed may change its user. -/
theorem userOf_update {clients' : M UInt16 ℕ} {heap' : List (Option (BcClient M))}
    (h : HandleInvariant clients heap) {u : Option Name} (hc : userOf clients' heap' c = u)
    (hother : ∀ c', c' ≠ c → find clients' c' = find clients c')
    (hname : ∀ c' q bq, c' ≠ c → find clients c' = some q → Live heap q bq →
      ∃ bq', Live heap' q bq' ∧ bq'.name = bq.name) :
    userOf clients' heap' = Function.update (userOf clients heap) c u := by
  funext c'
  by_cases hcc : c' = c
  · subst hcc
    rw [Function.update_self, hc]
  · rw [Function.update_of_ne hcc]
    cases hf : find clients c' with
    | none => simp [userOf, hother c' hcc, hf]
    | some q =>
      obtain ⟨bq, hq⟩ := h.live c' q hf
      obtain ⟨bq', hq', hn⟩ := hname c' q bq hcc hf hq
      rw [userOf_of_live hf hq, userOf_of_live ((hother c' hcc).trans hf) hq', hn]

theorem member_iff (h : HandleInvariant clients heap) {o : UInt16} {g : Int32} :
    (directory clients heap).Member o g ↔
      ∃ p bc, find clients o = some p ∧ Live heap p bc ∧ find bc.groups g ≠ none := by
  constructor
  · rintro ⟨u, hu, hg⟩
    obtain ⟨p, bc, hf, hp, rfl⟩ := (userOf_eq_some h).mp hu
    refine ⟨p, bc, hf, hp, ?_⟩
    rw [← groupsOf_of_live h hp]
    exact hg
  · rintro ⟨p, bc, hf, hp, hg⟩
    refine ⟨bc.name, (userOf_eq_some h).mpr ⟨p, bc, hf, hp, rfl⟩, ?_⟩
    change groupsOf heap bc.name g ≠ none
    rwa [groupsOf_of_live h hp]

/-- The clients a delivery reaches are the members of the group. -/
theorem recipients_enumerates (h : HandleInvariant clients heap) (g : Int32) :
    Enumerates (recipients heap clients g) fun o => (directory clients heap).Member o g := by
  constructor
  · exact (nodup_keys clients).sublist (List.filter_sublist.map _)
  · intro o
    change _ ↔ (directory clients heap).Member o g
    rw [member_iff h, recipients, List.mem_map]
    constructor
    · rintro ⟨⟨o', p⟩, hm, rfl⟩
      obtain ⟨he, hg⟩ := List.mem_filter.mp hm
      have hf := mem_entries.mp he
      obtain ⟨bc, hp⟩ := h.live o' p hf
      rw [inGroup_of_live hp] at hg
      exact ⟨p, bc, hf, hp, Option.isSome_iff_ne_none.mp hg⟩
    · rintro ⟨p, bc, hf, hp, hg⟩
      refine ⟨(o, p), List.mem_filter.mpr ⟨mem_entries.mpr hf, ?_⟩, rfl⟩
      rw [inGroup_of_live hp]
      exact Option.isSome_iff_ne_none.mpr hg

theorem groups_enumerates (h : HandleInvariant clients heap) (hp : Live heap p bc) :
    Enumerates (entries bc.groups) fun e =>
      (directory clients heap).groups bc.name e.1 = some e.2 := by
  refine ⟨nodup_entries _, ?_⟩
  rintro ⟨g, name⟩
  change _ ↔ groupsOf heap bc.name g = some name
  rw [mem_entries, groupsOf_of_live h hp]

end Abstraction

/-! ### Steps -/

theorem carriesGid_of_readWord {i : Input} {off : ℕ} {g : Int32} (h : readWord i off = .ok g) :
    CarriesGid i.request off g := by
  have hpre := readWord_eq_ok.mp h
  have hword := List.prefix_iff_eq_take.mp hpre
  rw [be32_length] at hword
  refine ⟨i.beyond, ?_⟩
  rw [hword, Input.memory, i.received.payload_eq]
  cases hd : i.request.data with
  | none => simpa [Input.memory, hd] using hpre.length_le
  | some block => rfl

theorem directory_subscribe {s : State M} {c : UInt16} {clients : M UInt16 ℕ}
    {heap : List (Option (BcClient M))} {u : Name} (h : HandleInvariant s.clients s.heap)
    (hc : userOf clients heap c = some u)
    (hother : ∀ c', c' ≠ c → find clients c' = find s.clients c')
    (hname : ∀ c' q bq, c' ≠ c → find s.clients c' = some q → Live s.heap q bq →
      ∃ bq', Live heap q bq' ∧ bq'.name = bq.name)
    (hgroups : ∀ u g, groupsOf heap u g = groupsOf s.heap u g) :
    directory clients heap = (directoryOf s).subscribe c u := by
  ext1
  · exact userOf_update h hc hother hname
  · funext u g
    exact hgroups u g

theorem directory_share {s : State M} {c : UInt16} {p : ℕ} {bc : BcClient M}
    (h : HandleInvariant s.clients s.heap) (hc : find s.clients c = none) (hp : Live s.heap p bc)
    (h' : HandleInvariant (insert s.clients c p)
      (s.heap.set p (some { bc with ref := bc.ref + 1 }))) :
    directory (insert s.clients c p) (s.heap.set p (some { bc with ref := bc.ref + 1 })) =
      (directoryOf s).subscribe c bc.name := by
  have hp' : Live (s.heap.set p (some { bc with ref := bc.ref + 1 })) p
      { bc with ref := bc.ref + 1 } := (live_set hp).mpr (by rw [if_pos rfl])
  have huser := userOf_of_live (find_insert_absent p hc) hp'
  apply directory_subscribe h huser (fun c' hne => find_insert_ne _ _ hne)
  · intro c' q bq hne hf hq
    by_cases hqp : q = p
    · subst hqp
      exact ⟨_, hp', by rw [hq.unique hp]⟩
    · exact ⟨bq, (live_set hp).mpr (by rwa [if_neg hqp]), rfl⟩
  · intro u g
    rw [groupsOf_set h h' hp rfl]
    split
    · next hn => rw [hn, groupsOf_of_live h hp]
    · rfl

theorem directory_create {s : State M} {c : UInt16} {u : Name}
    (h : HandleInvariant s.clients s.heap) (hc : find s.clients c = none)
    (hfree : ∀ q bq, Live s.heap q bq → bq.name ≠ u)
    (h' : HandleInvariant (insert s.clients c s.heap.length)
      (s.heap ++ [some ⟨1, u, empty⟩])) :
    directory (insert s.clients c s.heap.length) (s.heap ++ [some ⟨1, u, empty⟩]) =
      (directoryOf s).subscribe c u := by
  have hp : Live (s.heap ++ [some (⟨1, u, empty⟩ : BcClient M)]) s.heap.length ⟨1, u, empty⟩ :=
    live_append.mpr (Or.inr ⟨rfl, rfl⟩)
  have huser := userOf_of_live (find_insert_absent s.heap.length hc) hp
  apply directory_subscribe h huser (fun c' hne => find_insert_ne _ _ hne)
  · intro c' q bq hne hf hq
    exact ⟨bq, live_append.mpr (Or.inl hq), rfl⟩
  · exact groupsOf_append h h' hfree

theorem find_joined (bc : BcClient M) (g g' : Int32) (name : Name) :
    find (joined bc g name).groups g' =
      if g' = g ∧ find bc.groups g = none then some name else find bc.groups g' := by
  unfold joined
  cases hf : find bc.groups g with
  | none => simp [find_insert hf]
  | some old => simp

theorem directory_join {s : State M} {p : ℕ} {bc : BcClient M} {g : Int32} {name : Name}
    (h : HandleInvariant s.clients s.heap) (hp : Live s.heap p bc)
    (h' : HandleInvariant s.clients (s.heap.set p (some (joined bc g name)))) :
    directory s.clients (s.heap.set p (some (joined bc g name))) =
      (directoryOf s).join bc.name g name := by
  ext1
  · exact userOf_set h hp (joined_name bc g name)
  · funext u g'
    change groupsOf _ u g' =
      if u = bc.name ∧ g' = g ∧ groupsOf s.heap bc.name g = none then some name
      else groupsOf s.heap u g'
    rw [groupsOf_set h h' hp (joined_name bc g name), groupsOf_of_live h hp, find_joined]
    by_cases hu : u = bc.name
    · subst hu
      simp [groupsOf_of_live h hp]
    · simp [hu]

theorem directory_leave {s : State M} {p : ℕ} {bc : BcClient M} {g : Int32}
    (h : HandleInvariant s.clients s.heap) (hp : Live s.heap p bc)
    (h' : HandleInvariant s.clients
      (s.heap.set p (some { bc with groups := delete bc.groups g }))) :
    directory s.clients (s.heap.set p (some { bc with groups := delete bc.groups g })) =
      (directoryOf s).leave bc.name g := by
  ext1
  · exact userOf_set h hp rfl
  · funext u g'
    change groupsOf _ u g' = if u = bc.name ∧ g' = g then none else groupsOf s.heap u g'
    rw [groupsOf_set h h' hp rfl, find_delete]
    by_cases hu : u = bc.name
    · subst hu
      simp [groupsOf_of_live h hp]
    · simp [hu]

theorem directory_unmap {s : State M} {c : UInt16} {p : ℕ} {bc : BcClient M}
    (h : HandleInvariant s.clients s.heap) (hp : Live s.heap p bc)
    (h' : HandleInvariant (delete s.clients c)
      (s.heap.set p (some { bc with ref := bc.ref - 1 }))) :
    directory (delete s.clients c) (s.heap.set p (some { bc with ref := bc.ref - 1 })) =
      (directoryOf s).unmap c := by
  ext1
  · refine userOf_update h ((userOf_eq_none h').mpr (find_delete_self _ _))
      (fun c' hne => find_delete_ne _ hne) ?_
    intro c' q bq hne hf hq
    by_cases hqp : q = p
    · subst hqp
      exact ⟨_, (live_set hp).mpr (by rw [if_pos rfl]), by rw [hq.unique hp]⟩
    · exact ⟨bq, (live_set hp).mpr (by rwa [if_neg hqp]), rfl⟩
  · funext u g
    change groupsOf _ u g = groupsOf s.heap u g
    rw [groupsOf_set h h' hp rfl]
    split
    · next hu => rw [hu, groupsOf_of_live h hp]
    · rfl

theorem directory_depart {s : State M} {c : UInt16} {p : ℕ} {bc : BcClient M}
    (h : HandleInvariant s.clients s.heap) (hp : Live s.heap p bc)
    (honly : ∀ c', find s.clients c' = some p → c' = c)
    (h' : HandleInvariant (delete s.clients c) (s.heap.set p none)) :
    directory (delete s.clients c) (s.heap.set p none) = (directoryOf s).depart c bc.name := by
  ext1
  · refine userOf_update h ((userOf_eq_none h').mpr (find_delete_self _ _))
      (fun c' hne => find_delete_ne _ hne) ?_
    intro c' q bq hne hf hq
    have hqp : q ≠ p := by
      rintro rfl
      exact hne (honly c' hf)
    exact ⟨bq, (live_set hp).mpr (by rwa [if_neg hqp]), rfl⟩
  · funext u g
    exact groupsOf_release h h' hp u g

theorem gids_enumerate {s : State M} {p : ℕ} {bc : BcClient M}
    (h : HandleInvariant s.clients s.heap) (hp : Live s.heap p bc) :
    Enumerates ((entries bc.groups).map Prod.fst) fun g => groupsOf s.heap bc.name g ≠ none := by
  refine ⟨nodup_keys _, fun g => ?_⟩
  change _ ↔ groupsOf s.heap bc.name g ≠ none
  rw [groupsOf_of_live h hp, List.mem_map, ← Option.isSome_iff_ne_none, Option.isSome_iff_exists]
  constructor
  · rintro ⟨⟨g', name⟩, he, rfl⟩
    exact ⟨name, mem_entries.mp he⟩
  · rintro ⟨name, hf⟩
    exact ⟨(g, name), mem_entries.mpr hf, rfl⟩

theorem handled_refines {A : Antd} {s : State M} {i : Input} {out : List TunnelMsg}
    {clients : M UInt16 ℕ} {heap : List (Option (BcClient M))}
    (h : HandleInvariant s.clients s.heap) (hh : Handled A s i out clients heap) :
    BroadcastMachine.Step A.simpleHash (directoryOf s) i.request out (directory clients heap) := by
  have h' := handled_preserves h hh
  cases hh with
  | subscribed htype hsize hc =>
    obtain ⟨bc, hp⟩ := h.live _ _ hc
    exact .subscribed htype (userOf_of_live hc hp)
  | overlong htype hsize => exact .overlong htype hsize
  | share htype hsize hc hp hu =>
    rw [directory_share h hc hp h']
    exact .subscribe htype hsize ((userOf_eq_none h).mpr hc) hu
  | create htype hsize hc hu hfree =>
    rw [directory_create h hc hfree h']
    exact .subscribe htype hsize ((userOf_eq_none h).mpr hc) hu
  | join hctrl hc hp hname hg hheap =>
    rename_i p bc g name
    subst hg hheap
    have hmembers := recipients_enumerates h' (A.simpleHash name.bytes)
    rw [directory_join h hp h'] at hmembers ⊢
    exact .join hctrl (userOf_of_live hc hp) hname hmembers
  | leave hctrl hc hp hg =>
    rw [directory_leave h hp h']
    exact .leave hctrl (userOf_of_live hc hp) (carriesGid_of_readWord hg)
      (recipients_enumerates h _)
  | queryUser hctrl hc hp hg hin husers =>
    refine .queryUser hctrl (userOf_of_live hc hp) (carriesGid_of_readWord hg) ?_
      (recipients_enumerates h _) ?_
    · change groupsOf s.heap _ _ ≠ none
      rwa [groupsOf_of_live h hp]
    · intro o ho
      obtain ⟨u, hu, -⟩ := ((recipients_enumerates h _).2 o).mp ho
      obtain ⟨q, bq, hf, hq, -⟩ := (userOf_eq_some h).mp hu
      rw [husers (o, q) (mem_entries.mpr hf) bq hq]
      exact userOf_of_live hf hq
  | queryUserRefused hctrl hc hp hg hout hrefusal =>
    refine .queryUserRefused hctrl (userOf_of_live hc hp) (carriesGid_of_readWord hg) ?_ hrefusal
    change ¬ groupsOf s.heap _ _ ≠ none
    rw [groupsOf_of_live h hp, hout]
    simp
  | queryGroup hctrl hc hp =>
    exact .queryGroup hctrl (userOf_of_live hc hp) (groups_enumerates h hp)
  | unknownCode hctrl hc hcode hrefusal =>
    obtain ⟨bc, hp⟩ := h.live _ _ hc
    exact .unknownCode hctrl (userOf_of_live hc hp) hcode hrefusal
  | unmapped htype hc hrefusal => exact .unmapped htype ((userOf_eq_none h).mpr hc) hrefusal
  | badSize htype hsize hrefusal => exact .badSize htype hsize hrefusal
  | data htype hg =>
    exact .data htype (carriesGid_of_readWord hg) (recipients_enumerates h _)
  | unsubscribe htype hc hp hmore =>
    obtain ⟨o, hne, ho⟩ := other_client h hc hp hmore
    rw [directory_unmap h hp h']
    exact .unsubscribe htype (userOf_of_live hc hp) hne (userOf_of_live ho hp)
  | depart htype hc hp hlast =>
    rename_i p bc
    have honly := last_client h hc hp hlast
    rw [directory_depart h hp honly h', farewells, ← List.flatMap_map (f := Prod.fst)
      (g := fun g => (recipients s.heap s.clients g).map fun o => frame CHANNEL_CTRL
        i.stack.channelId o (notice BC_UNSUBSCRIPTION bc.name g []))]
    refine .depart htype (userOf_of_live hc hp) ?_ (gids_enumerate h hp)
      fun g _ => recipients_enumerates h g
    intro o hne ho
    obtain ⟨q, bq, hf, hq, hn⟩ := (userOf_eq_some h).mp ho
    rw [h.distinct q p bq bc hq hp hn] at hf
    exact hne (honly o hf)
  | other htype => exact .other htype

theorem step_refines {A : Antd} {s s' : State M} {i : Input} {out : List TunnelMsg}
    (h : Invariant A s) (hs : BroadcastService.Step A s i out s') :
    BroadcastMachine.Step A.simpleHash (directoryOf s) i.request out (directoryOf s') :=
  handled_refines h.toHandleInvariant (step_handled h hs)

theorem directory_initial (A : Antd) (answer : TunnelMsg) :
    directoryOf (initial A answer : State M) = Directory.vacant := by
  ext1
  · funext c
    simp [directoryOf, directory, initial, userOf, Directory.vacant]
  · rfl

/-- Every run that does not fault is a run of the directory machine with the same messages and
the same frames, and from where it ends the next message is handled or meets a named fault. -/
theorem service_refines_directory {A : Antd} {answer : TunnelMsg} {inputs : List Input}
    {out : List TunnelMsg} {s : State M}
    (h : Execution (BroadcastService.Step A) (initial A answer) inputs out s) :
    Execution (BroadcastMachine.Step A.simpleHash) Directory.vacant (inputs.map Input.request) out
      (directoryOf s) ∧
    ∀ i, (∃ s' frames, BroadcastService.Step A s i frames s') ∨
      ∃ f, step A s i = .error f ∧ Faulted s i f := by
  have hinv := initial_invariant (M := M) A answer
  have hI : ∀ s i os u, Invariant A s → BroadcastService.Step A s i os u → Invariant (M := M) A u :=
    fun _ _ _ _ hs hstep => step_preserves_invariant hs hstep
  constructor
  · rw [← directory_initial (M := M) A answer]
    exact h.simulates Input.request hI (fun _ _ _ _ hs hstep => step_refines hs hstep) hinv
  · intro i
    have ho := step_outcome (h.preserves hI hinv) i
    cases hstep : step A s i with
    | ok r => exact Or.inl ⟨r.1, r.2, hstep⟩
    | error f =>
      rw [hstep] at ho
      exact Or.inr ⟨f, rfl, ho⟩

/-- A user joins a group and a client outside the channel sends to it. -/
theorem service_refines_directory_one_group : ∃ s : State AssocList,
    Execution (BroadcastMachine.Step firstByteHost.simpleHash) Directory.vacant
      [frame CHANNEL_SUBSCRIBE 1 1 [65], frame CHANNEL_CTRL 1 1 [0x0A, 71],
        frame CHANNEL_DATA 1 2 [0, 0, 0, 71, 9]]
      [frame CHANNEL_CTRL 1 1 [0x0A, 1, 65, 0, 0, 0, 71, 71],
        frame CHANNEL_DATA 1 1 [0, 0, 0, 71, 9]] (directoryOf s) := by
  obtain ⟨s, hs⟩ := execution_of_outputs (M := AssocList) firstByteHost
    (initial firstByteHost channelOk)
    [.plain CHANNEL_SUBSCRIBE 1 [65], .plain CHANNEL_CTRL 1 [0x0A, 71],
      .plain CHANNEL_DATA 2 [0, 0, 0, 71, 9]]
    [frame CHANNEL_CTRL 1 1 [0x0A, 1, 65, 0, 0, 0, 71, 71],
      frame CHANNEL_DATA 1 1 [0, 0, 0, 71, 9]] (by decide +kernel)
  exact ⟨s, (service_refines_directory hs).1⟩

end BroadcastRefinement
