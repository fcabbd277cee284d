import Mathlib.Data.List.AList
import Mathlib.Data.List.Nodup
import Mathlib.Data.List.Perm.Basic

/-!
# Dictionaries with a traversal

The contract of a search-tree dictionary used only as a finite map. A traversal
visits every entry once, in an order the contract leaves open, and insertion at
a key already present may keep the old value or take the new one.
-/
namespace FiniteMaps

class FiniteMap (M : Type → Type → Type) where
  empty {κ α : Type} [DecidableEq κ] : M κ α
  find {κ α : Type} [DecidableEq κ] : M κ α → κ → Option α
  insert {κ α : Type} [DecidableEq κ] : M κ α → κ → α → M κ α
  delete {κ α : Type} [DecidableEq κ] : M κ α → κ → M κ α
  /-- The entries in the order a traversal visits them. -/
  entries {κ α : Type} [DecidableEq κ] : M κ α → List (κ × α)
  find_empty {κ α : Type} [DecidableEq κ] (k : κ) : find (empty : M κ α) k = none
  find_insert_absent {κ α : Type} [DecidableEq κ] {m : M κ α} {k : κ} (v : α) :
    find m k = none → find (insert m k v) k = some v
  find_insert_present {κ α : Type} [DecidableEq κ] {m : M κ α} {k : κ} {w : α} (v : α) :
    find m k = some w → find (insert m k v) k = some v ∨ find (insert m k v) k = some w
  find_insert_ne {κ α : Type} [DecidableEq κ] (m : M κ α) {k k' : κ} (v : α) :
    k' ≠ k → find (insert m k v) k' = find m k'
  find_delete_self {κ α : Type} [DecidableEq κ] (m : M κ α) (k : κ) :
    find (delete m k) k = none
  find_delete_ne {κ α : Type} [DecidableEq κ] (m : M κ α) {k k' : κ} :
    k' ≠ k → find (delete m k) k' = find m k'
  mem_entries {κ α : Type} [DecidableEq κ] {m : M κ α} {k : κ} {v : α} :
    (k, v) ∈ entries m ↔ find m k = some v
  nodup_keys {κ α : Type} [DecidableEq κ] (m : M κ α) : ((entries m).map Prod.fst).Nodup

open FiniteMap

attribute [simp] find_empty find_delete_self mem_entries

variable {M : Type → Type → Type} [FiniteMap M] {κ α : Type} [DecidableEq κ]

theorem nodup_entries (m : M κ α) : (entries m).Nodup := (nodup_keys m).of_map _

theorem find_insert {m : M κ α} {k : κ} (h : find m k = none) (v : α) (k' : κ) :
    find (insert m k v) k' = if k' = k then some v else find m k' := by
  by_cases hk : k' = k
  · subst k'
    rw [if_pos rfl, find_insert_absent v h]
  · rw [if_neg hk, find_insert_ne m v hk]

/-- Whatever an insertion does at a present key, it shows no entry but the new and the old. -/
theorem find_insert_some {m : M κ α} {k k' : κ} {v w : α} (h : find (insert m k v) k' = some w) :
    (k', w) = (k, v) ∨ find m k' = some w := by
  by_cases hk : k' = k
  · subst k'
    cases hm : find m k with
    | none =>
      rw [find_insert_absent v hm, Option.some.injEq] at h
      exact .inl (by rw [h])
    | some u =>
      rcases find_insert_present v hm with hnew | hold
      · rw [hnew, Option.some.injEq] at h
        exact .inl (by rw [h])
      · exact .inr (hold.symm.trans h)
  · rw [find_insert_ne m v hk] at h
    exact .inr h

theorem find_delete (m : M κ α) (k k' : κ) :
    find (delete m k) k' = if k' = k then none else find m k' := by
  by_cases hk : k' = k
  · subst k'
    rw [if_pos rfl, find_delete_self]
  · rw [if_neg hk, find_delete_ne m hk]

theorem find_delete_some {m : M κ α} {k k' : κ} {v : α} (h : find (delete m k) k' = some v) :
    k' ≠ k ∧ find m k' = some v := by
  rw [find_delete] at h
  split at h
  · cases h
  · exact ⟨‹_›, h⟩

/-- Which keys are present after an insertion does not depend on a present one being kept or
replaced. -/
theorem isSome_find_insert (m : M κ α) (k k' : κ) (v : α) :
    (find (insert m k v) k').isSome = if k = k' then true else (find m k').isSome := by
  by_cases hk : k = k'
  · subst k'
    rw [if_pos rfl]
    cases hm : find m k with
    | none => rw [find_insert_absent v hm, Option.isSome_some]
    | some w => rcases find_insert_present v hm with h | h <;> rw [h, Option.isSome_some]
  · rw [if_neg hk, find_insert_ne m v (Ne.symm hk)]

theorem isSome_find_delete (m : M κ α) (k k' : κ) :
    (find (delete m k) k').isSome = if k = k' then false else (find m k').isSome := by
  rw [find_delete]
  by_cases hk : k = k'
  · simp [hk]
  · simp [hk, Ne.symm hk]

theorem entries_eq_nil {m : M κ α} : entries m = [] ↔ ∀ k, find m k = none := by
  simp [List.eq_nil_iff_forall_not_mem, Option.eq_none_iff_forall_ne_some]

theorem forall_entries_key {m : M κ α} {P : κ → Prop} :
    (∀ n ∈ entries m, P n.1) ↔ ∀ k, find m k ≠ none → P k := by
  constructor
  · intro h k hk
    obtain ⟨v, hv⟩ := Option.ne_none_iff_exists'.mp hk
    exact h (k, v) (mem_entries.mpr hv)
  · rintro h ⟨k, v⟩ hn
    exact h k (by simp [mem_entries.mp hn])

/-- Inserting at an absent key adds one entry to the traversal. -/
theorem entries_insert {m : M κ α} {k : κ} (h : find m k = none) (v : α) :
    (entries (insert m k v)).Perm ((k, v) :: entries m) := by
  have hnew : ((k, v) :: entries m).Nodup := by
    refine List.nodup_cons.mpr ⟨?_, nodup_entries m⟩
    rw [mem_entries, h]
    simp
  apply (List.perm_ext_iff_of_nodup (nodup_entries _) hnew).mpr
  rintro ⟨k', v'⟩
  rw [List.mem_cons, mem_entries, mem_entries, find_insert h]
  by_cases hk : k' = k
  · subst k'
    simp [h, eq_comm]
  · simp [hk]

/-- Deleting a key removes its one entry from the traversal. -/
theorem entries_delete {m : M κ α} {k : κ} {v : α} (h : find m k = some v) :
    (entries m).Perm ((k, v) :: entries (delete m k)) := by
  have hnew : ((k, v) :: entries (delete m k)).Nodup := by
    refine List.nodup_cons.mpr ⟨?_, nodup_entries _⟩
    rw [mem_entries, find_delete_self]
    simp
  apply (List.perm_ext_iff_of_nodup (nodup_entries m) hnew).mpr
  rintro ⟨k', v'⟩
  rw [List.mem_cons, mem_entries, mem_entries, find_delete]
  by_cases hk : k' = k
  · subst k'
    simp [h, eq_comm]
  · simp [hk]

/-! ### Association lists, the smallest instance -/

/-- Entries under distinct keys, newest first. -/
def AssocList (κ α : Type) : Type := AList fun _ : κ => α

def AssocList.toList (m : AssocList κ α) : List (κ × α) := m.entries.map fun e => (e.1, e.2)

theorem AssocList.mem_toList {m : AssocList κ α} {k : κ} {v : α} :
    (k, v) ∈ m.toList ↔ AList.lookup k m = some v := by
  have hmem : (k, v) ∈ m.toList ↔ Sigma.mk k v ∈ m.entries := by
    simp [AssocList.toList, Sigma.exists]
  exact hmem.trans AList.mem_lookup_iff.symm

instance : FiniteMap AssocList where
  empty {κ α _} := (∅ : AList fun _ : κ => α)
  find m k := AList.lookup k m
  insert m k v := AList.insert k v m
  delete m k := AList.erase k m
  entries m := m.toList
  find_empty _ := rfl
  find_insert_absent {_ _ _ m _} _ _ := AList.lookup_insert m
  find_insert_present {_ _ _ m _ _} _ _ := Or.inl (AList.lookup_insert m)
  find_insert_ne _ _ _ _ h := AList.lookup_insert_ne h
  find_delete_self m k := AList.lookup_erase k m
  find_delete_ne _ _ _ h := AList.lookup_erase_ne h
  mem_entries := AssocList.mem_toList
  nodup_keys m := by
    rw [AssocList.toList, List.map_map]
    exact m.nodupKeys

/-! ### Another instance -/

/-- A dictionary that keeps what is present, and whose traversal starts with the oldest entry. -/
structure KeepList (κ α : Type) where
  newest : AssocList κ α

instance : FiniteMap KeepList where
  empty := ⟨empty⟩
  find m k := find m.newest k
  insert m k v := if (find m.newest k).isSome then m else ⟨insert m.newest k v⟩
  delete m k := ⟨delete m.newest k⟩
  entries m := (entries m.newest).reverse
  find_empty k := find_empty k
  find_insert_absent v h := by
    rw [h]
    exact find_insert_absent v h
  find_insert_present v h := by
    rw [h]
    exact Or.inr h
  find_insert_ne m _ _ v h := by
    split
    · rfl
    · exact find_insert_ne m.newest v h
  find_delete_self m k := find_delete_self m.newest k
  find_delete_ne m _ _ h := find_delete_ne m.newest h
  mem_entries := List.mem_reverse.trans mem_entries
  nodup_keys m := by
    rw [List.map_reverse, List.nodup_reverse]
    exact nodup_keys m.newest

end FiniteMaps
