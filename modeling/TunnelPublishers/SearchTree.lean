import Mathlib.Data.List.Nodup
import Mathlib.Data.List.Perm.Basic
import Mathlib.Order.Lattice

/-!
# Search trees whose nodes have addresses

Deletion from a plain search tree, as seen by somebody who holds pointers to
nodes. A node with at most one child goes itself; otherwise it takes the cell of
its successor, and the node of the successor goes.
-/
namespace SearchTrees

inductive Tree (κ α : Type*) where
  | leaf
  | node (left : Tree κ α) (addr : ℕ) (key : κ) (data : α) (right : Tree κ α)
  deriving DecidableEq, Repr

namespace Tree

variable {κ α : Type*}

/-- The nodes in key order: address, key and data. -/
def nodes : Tree κ α → List (ℕ × κ × α)
  | leaf => []
  | node l a k d r => l.nodes ++ (a, k, d) :: r.nodes

def addrs (t : Tree κ α) : List ℕ := t.nodes.map Prod.fst

/-- Keys and data without the nodes that hold them. -/
def cells (t : Tree κ α) : List (κ × α) := t.nodes.map Prod.snd

/-- The key read through a pointer, if it still denotes a node. -/
def keyAt (t : Tree κ α) (a : ℕ) : Option κ :=
  (t.nodes.find? fun n => n.1 = a).map fun n => n.2.1

/-- The leftmost node and the tree without it. -/
def popMin : Tree κ α → Option ((ℕ × κ × α) × Tree κ α)
  | leaf => none
  | node l a k d r =>
    match l.popMin with
    | none => some ((a, k, d), r)
    | some (m, l) => some (m, node l a k d r)

/-- The tree without the cell of its root. -/
def dropRoot (l : Tree κ α) (a : ℕ) (r : Tree κ α) : Tree κ α :=
  match l, r.popMin with
  | leaf, _ => r
  | _, none => l
  | _, some ((_, k, d), r) => node l a k d r

/-- The node that goes instead of a root with two children. -/
def moved (l r : Tree κ α) : Option (ℕ × κ × α) :=
  match l with
  | leaf => none
  | node .. => r.popMin.map Prod.fst

/-! ### One deletion, on the nodes in key order -/

/-- The cell of a node goes, with its own node or with the next one. -/
inductive Unlinks (n : ℕ × κ × α) :
    List (ℕ × κ × α) → Option (ℕ × κ × α) → List (ℕ × κ × α) → Prop where
  | own (xs ys) : Unlinks n (xs ++ n :: ys) none (xs ++ ys)
  | next (xs n' ys) : Unlinks n (xs ++ n :: n' :: ys) (some n') (xs ++ (n.1, n'.2) :: ys)

section Roots

variable {t t' : Tree κ α} {n : ℕ × κ × α} {m : Option (ℕ × κ × α)} {ns ns' : List (ℕ × κ × α)}

theorem Unlinks.wrap (h : Unlinks n ns m ns') (xs ys : List (ℕ × κ × α)) :
    Unlinks n (xs ++ ns ++ ys) m (xs ++ ns' ++ ys) := by
  cases h with
  | own us vs =>
    have hown := Unlinks.own (n := n) (xs ++ us) (vs ++ ys)
    simpa using hown
  | next us n' vs =>
    have hnext := Unlinks.next (n := n) (xs ++ us) n' (vs ++ ys)
    simpa using hnext

theorem popMin_eq_none : t.popMin = none ↔ t = leaf := by
  cases t with
  | leaf => simp [popMin]
  | node l a k d r =>
    simp only [popMin, reduceCtorEq, iff_false]
    cases l.popMin <;> simp

theorem popMin_nodes (h : t.popMin = some (n, t')) : t.nodes = n :: t'.nodes := by
  induction t generalizing t' with
  | leaf => cases h
  | node l a k d r ihl _ =>
    cases hl : l.popMin with
    | none =>
      simp only [popMin, hl, Option.some.injEq, Prod.mk.injEq] at h
      obtain ⟨rfl, rfl⟩ := h
      rw [popMin_eq_none] at hl
      rw [hl]
      rfl
    | some m =>
      simp only [popMin, hl, Option.some.injEq, Prod.mk.injEq] at h
      obtain ⟨rfl, rfl⟩ := h
      simp only [nodes, ihl hl, List.cons_append]

theorem dropRoot_unlinks (l : Tree κ α) (a : ℕ) (key : κ) (d : α) (r : Tree κ α) :
    Unlinks (a, key, d) (node l a key d r).nodes (moved l r) (dropRoot l a r).nodes := by
  cases l with
  | leaf => exact .own [] r.nodes
  | node ll la lk ld lr =>
    cases hr : r.popMin with
    | none =>
      have hleaf := popMin_eq_none.mp hr
      subst hleaf
      have hown := Unlinks.own (n := (a, key, d)) (node ll la lk ld lr).nodes []
      rw [List.append_nil] at hown
      exact hown
    | some p =>
      obtain ⟨n, r'⟩ := p
      simp only [moved, dropRoot, hr, nodes, popMin_nodes hr, Option.map_some]
      exact .next _ n r'.nodes

end Roots

variable [LinearOrder κ]

def delete (key : κ) : Tree κ α → Tree κ α
  | leaf => leaf
  | node l a k d r =>
    if key < k then node (delete key l) a k d r
    else if k < key then node l a k d (delete key r)
    else dropRoot l a r

/-- The node that goes instead of the one with this key. -/
def movedFor (key : κ) : Tree κ α → Option (ℕ × κ × α)
  | leaf => none
  | node l _ k _ r =>
    if key < k then movedFor key l
    else if k < key then movedFor key r
    else moved l r

/-- Smaller keys to the left, larger ones to the right. -/
def Ordered (t : Tree κ α) : Prop := (t.nodes.map fun n => n.2.1).Pairwise (· < ·)

/-- Deletes the keys of some nodes, each read through a pointer, unless one is dangling. -/
def deleteThrough : Tree κ α → List ℕ → Option (Tree κ α)
  | t, [] => some t
  | t, a :: as =>
    match t.keyAt a with
    | none => none
    | some key => deleteThrough (t.delete key) as

/-- No deletion takes away a node whose pointer is still to be read. -/
def Spared : Tree κ α → List ℕ → Prop
  | _, [] => True
  | t, a :: as => ∀ key, t.keyAt a = some key →
      (∀ n, t.movedFor key = some n → n.1 ∉ as) ∧ Spared (t.delete key) as

section Deletion

variable {key : κ} {t l r : Tree κ α} {a : ℕ}

theorem ordered_node {k : κ} {d : α} :
    Ordered (node l a k d r) ↔
      Ordered l ∧ Ordered r ∧ (∀ n ∈ l.nodes, n.2.1 < k) ∧ (∀ n ∈ r.nodes, k < n.2.1) ∧
        ∀ n ∈ l.nodes, ∀ n' ∈ r.nodes, n.2.1 < n'.2.1 := by
  simp only [Ordered, nodes, List.map_append, List.map_cons, List.pairwise_append,
    List.pairwise_cons, List.mem_cons, List.forall_mem_map, forall_eq_or_imp]
  constructor
  · rintro ⟨hl, ⟨hkr, hr⟩, hcross⟩
    exact ⟨hl, hr, fun n hn => (hcross n hn).1, hkr, fun n hn => (hcross n hn).2⟩
  · rintro ⟨hl, hr, hlk, hkr, hcross⟩
    exact ⟨hl, ⟨hkr, hr⟩, fun n hn => ⟨hlk n hn, hcross n hn⟩⟩

/-- A deletion unlinks the cell with its key. -/
theorem delete_unlinks (h : Ordered t) {d : α} (hmem : (a, key, d) ∈ t.nodes) :
    Unlinks (a, key, d) t.nodes (t.movedFor key) (t.delete key).nodes := by
  induction t with
  | leaf => cases hmem
  | node l a' k d' r ihl ihr =>
    obtain ⟨hl, hr, hlk, hkr, -⟩ := ordered_node.mp h
    have hside : (a, key, d) ∈ l.nodes ∨ (a, key, d) = (a', k, d') ∨ (a, key, d) ∈ r.nodes := by
      simpa [nodes] using hmem
    rcases hside with hleft | hroot | hright
    · have hlt : key < k := hlk _ hleft
      simp only [delete, movedFor, if_pos hlt, nodes]
      exact (ihl hl hleft).wrap [] ((a', k, d') :: r.nodes)
    · cases hroot
      simp only [delete, movedFor, lt_irrefl, if_false]
      exact dropRoot_unlinks l a key d r
    · have hgt : k < key := hkr _ hright
      simp only [delete, movedFor, if_neg (lt_asymm hgt), if_pos hgt, nodes]
      have hwrapped := (ihr hr hright).wrap (l.nodes ++ [(a', k, d')]) []
      simpa using hwrapped

end Deletion

/-! ### Deletions through pointers -/

section Pointers

variable {t t' : Tree κ α} {key : κ} {a : ℕ} {d : α} {as : List ℕ} {n : ℕ × κ × α}
  {m : Option (ℕ × κ × α)} {ns ns' : List (ℕ × κ × α)}

omit [LinearOrder κ] in
theorem keyAt_eq_some (h : t.keyAt a = some key) : ∃ d, (a, key, d) ∈ t.nodes := by
  simp only [keyAt, Option.map_eq_some_iff] at h
  obtain ⟨⟨a', key', d⟩, hfind, rfl⟩ := h
  have haddr : a' = a := by simpa using List.find?_some hfind
  subst haddr
  exact ⟨d, List.mem_of_find?_eq_some hfind⟩

omit [LinearOrder κ] in
theorem keyAt_isSome : (t.keyAt a).isSome = true ↔ a ∈ t.addrs := by
  simp only [keyAt, addrs, Option.isSome_map, List.find?_isSome, List.mem_map, decide_eq_true_eq]

omit [LinearOrder κ] in
/-- One address goes: that of the next node, or that of the node itself. -/
theorem Unlinks.addrs (h : Unlinks n ns m ns') :
    (ns.map Prod.fst).Perm ((m.getD n).1 :: ns'.map Prod.fst) := by
  cases h with
  | own xs ys =>
    simp only [List.map_append, List.map_cons, Option.getD_none]
    exact List.perm_middle
  | next xs n' ys =>
    simp only [List.map_append, List.map_cons, Option.getD_some]
    have hswap := (List.Perm.swap n'.1 n.1 (ys.map Prod.fst)).append_left (xs.map Prod.fst)
    exact hswap.trans List.perm_middle

omit [LinearOrder κ] in
/-- The cell of the node goes. -/
theorem Unlinks.cells (h : Unlinks n ns m ns') :
    ∃ xs ys, ns.map Prod.snd = xs ++ n.2 :: ys ∧ ns'.map Prod.snd = xs ++ ys := by
  cases h with
  | own xs ys => exact ⟨xs.map Prod.snd, ys.map Prod.snd, by simp, by simp⟩
  | next xs n' ys => exact ⟨xs.map Prod.snd, n'.2 :: ys.map Prod.snd, by simp, by simp⟩

theorem delete_ordered (h : Ordered t) (hmem : (a, key, d) ∈ t.nodes) :
    Ordered (t.delete key) := by
  obtain ⟨xs, ys, hold, hnew⟩ := (delete_unlinks h hmem).cells
  have hkeys : ∀ ns : List (ℕ × κ × α),
      ns.map (fun n => n.2.1) = (ns.map Prod.snd).map Prod.fst := by
    intro ns
    rw [List.map_map]
    rfl
  unfold Ordered at h ⊢
  rw [hkeys, hold] at h
  rw [hkeys, hnew]
  have hsub : (xs ++ ys).Sublist (xs ++ (key, d) :: ys) :=
    (List.sublist_cons_self (key, d) ys).append_left xs
  exact List.Pairwise.sublist (hsub.map Prod.fst) h

theorem delete_addrs (h : Ordered t) (hmem : (a, key, d) ∈ t.nodes) :
    t.addrs.Perm (((t.movedFor key).getD (a, key, d)).1 :: (t.delete key).addrs) :=
  (delete_unlinks h hmem).addrs

omit [LinearOrder κ] in
/-- What is left of the cells, if the pointers still to be read do not dangle. -/
theorem Unlinks.left (h : Unlinks n ns m ns') (hns : (ns.map Prod.fst).Nodup) (hn : n.1 ∉ as)
    (hm : ∀ n', m = some n' → n'.1 ∉ as) :
    (ns'.filter fun n' => n'.1 ∉ as).map Prod.snd =
      (ns.filter fun n' => n'.1 ∉ n.1 :: as).map Prod.snd := by
  have hother : ∀ us : List (ℕ × κ × α), n.1 ∉ us.map Prod.fst →
      us.filter (fun n' => n'.1 ∉ n.1 :: as) = us.filter fun n' => n'.1 ∉ as := by
    intro us hus
    apply List.filter_congr
    intro u hu
    have hne : u.1 ≠ n.1 := fun he => hus (List.mem_map.mpr ⟨u, hu, he⟩)
    simp [hne]
  cases h with
  | own xs ys =>
    rw [List.map_append, List.map_cons, List.nodup_middle, List.nodup_cons, List.mem_append,
      not_or] at hns
    rw [List.filter_append, List.filter_append, List.filter_cons, hother xs hns.1.1,
      hother ys hns.1.2]
    simp
  | next xs n' ys =>
    have hn' := hm n' rfl
    rw [List.map_append, List.map_cons, List.nodup_middle, List.nodup_cons, List.mem_append,
      not_or] at hns
    have hys : n.1 ∉ ys.map Prod.fst := fun h => hns.1.2 (List.mem_cons_of_mem _ h)
    have hne : n'.1 ≠ n.1 := fun he => hns.1.2 (by simp [he])
    rw [List.filter_append, List.filter_append, List.filter_cons, List.filter_cons,
      List.filter_cons, hother xs hns.1.1, hother ys hys]
    simp [hn, hn', hne]

/-- A pointer that is read denotes a node, and its key is deleted. -/
theorem deleteThrough_cons {a : ℕ} (hsome : deleteThrough t (a :: as) = some t') :
    ∃ key d, t.keyAt a = some key ∧ (a, key, d) ∈ t.nodes ∧
      deleteThrough (t.delete key) as = some t' := by
  cases hkey : t.keyAt a with
  | none => simp [deleteThrough, hkey] at hsome
  | some key =>
    obtain ⟨d, hmem⟩ := keyAt_eq_some hkey
    simp only [deleteThrough, hkey] at hsome
    exact ⟨key, d, rfl, hmem, hsome⟩

/-- Pointers that are read denote nodes of the tree that is left. -/
theorem deleteThrough_mem (h : Ordered t) (hsome : deleteThrough t as = some t') :
    ∀ b ∈ as, b ∈ t.addrs := by
  induction as generalizing t with
  | nil => simp
  | cons a as ih =>
    obtain ⟨key, d, hkey, hmem, hsome⟩ := deleteThrough_cons hsome
    have hrest := ih (delete_ordered h hmem) hsome
    intro b hb
    rcases List.mem_cons.mp hb with rfl | hb
    · exact keyAt_isSome.mp (by rw [hkey]; rfl)
    · exact (delete_addrs h hmem).mem_iff.mpr (List.mem_cons_of_mem _ (hrest b hb))

/-- Deleting through pointers to distinct nodes reads no dangling pointer if and only if no
deletion takes away a node whose pointer is still to be read. -/
theorem deleteThrough_isSome (h : Ordered t) (haddrs : t.addrs.Nodup) (has : as.Nodup)
    (hsub : ∀ b ∈ as, b ∈ t.addrs) : (deleteThrough t as).isSome = true ↔ Spared t as := by
  induction as generalizing t with
  | nil => simp [deleteThrough, Spared]
  | cons a as ih =>
    obtain ⟨hnot, has⟩ := List.nodup_cons.mp has
    obtain ⟨key, hkey⟩ := Option.isSome_iff_exists.mp
      (keyAt_isSome.mpr (hsub a List.mem_cons_self))
    obtain ⟨d, hmem⟩ := keyAt_eq_some hkey
    have hperm := delete_addrs h hmem
    obtain ⟨hgone, haddrs'⟩ := List.nodup_cons.mp (hperm.nodup_iff.mp haddrs)
    have hnext := delete_ordered h hmem
    simp only [deleteThrough, Spared, hkey, Option.some.injEq, forall_eq']
    constructor
    · intro hsome
      obtain ⟨t', ht'⟩ := Option.isSome_iff_exists.mp hsome
      have hrest := deleteThrough_mem hnext ht'
      refine ⟨fun n hn hin => ?_, (ih hnext haddrs' has hrest).mp hsome⟩
      rw [hn] at hgone
      exact hgone (hrest n.1 hin)
    · rintro ⟨hspared, hstays⟩
      refine (ih hnext haddrs' has fun b hb => ?_).mpr hstays
      rcases List.mem_cons.mp (hperm.mem_iff.mp (hsub b (List.mem_cons_of_mem a hb))) with rfl | hb'
      · cases hmoved : t.movedFor key with
        | none =>
          rw [hmoved] at hb
          exact (hnot hb).elim
        | some n =>
          rw [hmoved] at hb
          exact (hspared n hmoved hb).elim
      · exact hb'

/-- What is left then are the cells of the other nodes. -/
theorem deleteThrough_cells (h : Ordered t) (haddrs : t.addrs.Nodup) (has : as.Nodup)
    (hsome : deleteThrough t as = some t') :
    t'.cells = (t.nodes.filter fun n => n.1 ∉ as).map Prod.snd := by
  induction as generalizing t with
  | nil =>
    obtain rfl : t = t' := by simpa [deleteThrough] using hsome
    simp [cells]
  | cons a as ih =>
    obtain ⟨hnot, has⟩ := List.nodup_cons.mp has
    obtain ⟨key, d, -, hmem, hsome⟩ := deleteThrough_cons hsome
    have hperm := delete_addrs h hmem
    obtain ⟨hgone, haddrs'⟩ := List.nodup_cons.mp (hperm.nodup_iff.mp haddrs)
    have hnext := delete_ordered h hmem
    rw [ih hnext haddrs' has hsome]
    apply (delete_unlinks h hmem).left haddrs hnot
    intro n hn hin
    rw [hn] at hgone
    exact hgone (deleteThrough_mem hnext hsome n.1 hin)

end Pointers

end Tree

end SearchTrees
