import TunnelPublishers.SearchTree
import TunnelPublishers.VtermReleases

/-!
# Sweeping the process tree

The terminals whose children are gone are collected as pointers to nodes, and
each pointer is read after the nodes before it were deleted. The finite map of
the service forgets which node holds which entry; here the tree is a search tree
whose nodes have addresses.
-/
namespace VtermSweep

open FiniteMaps FiniteMap SearchTrees VtermService VtermTerminals VtermReleases

/-- The nodes `set_sock_fd` puts on its list, in the order of the traversal. -/
def collected (order : Tree ℤ ℕ → List (ℕ × ℤ × ℕ)) (dead : ℤ × ℕ → Bool) (t : Tree ℤ ℕ) :
    List ℕ :=
  ((order t).filter fun n => dead n.2).map Prod.fst

/-- The loop over the list, which reads the key of each node. -/
def sweep (order : Tree ℤ ℕ → List (ℕ × ℤ × ℕ)) (dead : ℤ × ℕ → Bool) (t : Tree ℤ ℕ) :
    Option (Tree ℤ ℕ) :=
  t.deleteThrough (collected order dead t)

section Sweeping

variable {order : Tree ℤ ℕ → List (ℕ × ℤ × ℕ)} {dead : ℤ × ℕ → Bool} {t t' : Tree ℤ ℕ}

theorem collected_nodup (dead : ℤ × ℕ → Bool) (horder : (order t).Perm t.nodes)
    (haddrs : t.addrs.Nodup) : (collected order dead t).Nodup := by
  have hall : ((order t).map Prod.fst).Nodup := (horder.map Prod.fst).nodup_iff.mpr haddrs
  exact hall.sublist (List.filter_sublist.map Prod.fst)

theorem collected_subset (horder : (order t).Perm t.nodes) :
    ∀ a ∈ collected order dead t, a ∈ t.addrs := by
  intro a ha
  obtain ⟨n, hn, rfl⟩ := List.mem_map.mp ha
  exact List.mem_map.mpr ⟨n, horder.mem_iff.mp (List.mem_filter.mp hn).1, rfl⟩

theorem mem_collected (dead : ℤ × ℕ → Bool) (horder : (order t).Perm t.nodes)
    (haddrs : t.addrs.Nodup) {n : ℕ × ℤ × ℕ} (hn : n ∈ t.nodes) :
    n.1 ∈ collected order dead t ↔ dead n.2 = true := by
  constructor
  · intro h
    obtain ⟨n', hn', haddr⟩ := List.mem_map.mp h
    obtain ⟨hmem, hdead⟩ := List.mem_filter.mp hn'
    have hsame := List.inj_on_of_nodup_map haddrs (horder.mem_iff.mp hmem) hn haddr
    exact hsame ▸ hdead
  · intro hdead
    exact List.mem_map.mpr ⟨n, List.mem_filter.mpr ⟨horder.mem_iff.mpr hn, hdead⟩, rfl⟩

/-- Entries whose nodes are not collected are those whose children are alive. -/
theorem cells_uncollected (horder : (order t).Perm t.nodes) (haddrs : t.addrs.Nodup) :
    (t.nodes.filter fun n => n.1 ∉ collected order dead t).map Prod.snd =
      t.cells.filter fun e => !dead e := by
  rw [Tree.cells, List.filter_map]
  apply congrArg (List.map Prod.snd)
  apply List.filter_congr
  intro n hn
  have hmem := mem_collected dead horder haddrs hn
  cases hdead : dead n.2 <;> simp [hmem, hdead]

theorem sweep_cells (horder : (order t).Perm t.nodes) (h : t.Ordered) (haddrs : t.addrs.Nodup)
    (hsweep : sweep order dead t = some t') : t'.cells = t.cells.filter fun e => !dead e := by
  rw [← cells_uncollected horder haddrs]
  exact Tree.deleteThrough_cells h haddrs (collected_nodup dead horder haddrs) hsweep

/-- The sweep reads nodes of the tree only and leaves the entries whose children are alive, if and
only if no deletion takes away the node of the next larger key while its pointer is still to be
read. -/
theorem sweep_exact_iff (horder : ∀ t, (order t).Perm t.nodes) (dead : ℤ × ℕ → Bool)
    (h : t.Ordered) (haddrs : t.addrs.Nodup) :
    (∃ t', sweep order dead t = some t' ∧ t'.cells = t.cells.filter fun e => !dead e) ↔
      t.Spared (collected order dead t) := by
  have hnodup := collected_nodup dead (horder t) haddrs
  have hsome := Tree.deleteThrough_isSome h haddrs hnodup (collected_subset (horder t))
  rw [← hsome, Option.isSome_iff_exists]
  constructor
  · rintro ⟨t', hsweep, -⟩
    exact ⟨t', hsweep⟩
  · rintro ⟨t', hsweep⟩
    exact ⟨t', hsweep, sweep_cells (horder t) h haddrs hsweep⟩

end Sweeping

/-- Three terminals, the middle one at the root. -/
def threeTerminals : Tree ℤ ℕ :=
  .node (.node .leaf 10 1 0 .leaf) 20 2 1 (.node .leaf 30 3 2 .leaf)

/-- One child exits, and its node takes the entry of client 3. -/
theorem sweep_exact_iff_one_exit : ∃ t',
    sweep Tree.nodes (fun e => e.1 = 2) threeTerminals = some t' ∧
      t'.cells = threeTerminals.cells.filter fun e => !decide (e.1 = 2) := by
  have hone : collected Tree.nodes (fun e => e.1 = 2) threeTerminals = [20] := by decide
  have hspared :
      threeTerminals.Spared (collected Tree.nodes (fun e => e.1 = 2) threeTerminals) := by
    rw [hone]
    exact fun _ _ => ⟨by simp, trivial⟩
  exact (sweep_exact_iff (fun t => .refl t.nodes) (fun e => e.1 = 2)
    (by simp [Tree.Ordered, threeTerminals, Tree.nodes]) (by decide)).mpr hspared

/-- Clients 2 and 3 exit together, and the node of client 3 is freed before its key is read. -/
theorem sweep_reads_freed_node :
    threeTerminals.Ordered ∧ threeTerminals.addrs.Nodup ∧
      collected Tree.nodes (fun e => e.1 ≠ 1) threeTerminals = [20, 30] ∧
      ¬ ∃ t', sweep Tree.nodes (fun e => e.1 ≠ 1) threeTerminals = some t' ∧
        t'.cells = threeTerminals.cells.filter fun e => !decide (e.1 ≠ 1) := by
  refine ⟨by simp [Tree.Ordered, threeTerminals, Tree.nodes], by decide, by decide, ?_⟩
  rintro ⟨t', hsweep, -⟩
  have hnone : sweep Tree.nodes (fun e => e.1 ≠ 1) threeTerminals = none := by decide
  rw [hnone] at hsweep
  cases hsweep

/-! ### The finite map of the service -/

variable {M : Type → Type → Type} [FiniteMap M]

/-- A client id as a key of the tree. -/
def clientKey (c : UInt16) : ℤ := c.toNat

/-- The tree has the entries of the map. -/
structure Shows (m : M UInt16 ℕ) (t : Tree ℤ ℕ) : Prop where
  clients : ∀ e ∈ t.cells, ∃ c, e.1 = clientKey c
  entries : ∀ c q, (clientKey c, q) ∈ t.cells ↔ find m c = some q

/-- A sweep that reads nodes of the tree only does to the tree what the service does to its map. -/
theorem sweep_shows {s : State M} (hrecords : Records s []) (p : Pass) {t t' : Tree ℤ ℕ}
    {order : Tree ℤ ℕ → List (ℕ × ℤ × ℕ)} {dead : ℤ × ℕ → Bool} (horder : (order t).Perm t.nodes)
    (h : t.Ordered) (haddrs : t.addrs.Nodup) (hshows : Shows s.processes t)
    (hdead : ∀ c q, dead (clientKey c, q) = exits (p.answers c))
    (hsweep : sweep order dead t = some t') : Shows (monitorProcesses s p).1.processes t' := by
  have hcells := sweep_cells horder h haddrs hsweep
  constructor
  · intro e he
    rw [hcells] at he
    exact hshows.clients e (List.mem_filter.mp he).1
  · intro c q
    rw [hcells, List.mem_filter, hdead, hshows.entries, find_monitorProcesses hrecords]
    cases exits (p.answers c) <;> simp

end VtermSweep
