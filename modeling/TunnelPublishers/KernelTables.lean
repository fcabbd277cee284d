import Mathlib.Data.Int.Notation
import Mathlib.Data.List.Basic
import TunnelPublishers.ExecutionTraces

/-!
# What the kernel remembers of one process

Histories of calls with the results the kernel gave. From the history follow
the table of children not yet reaped and the table of open descriptors, and
they say which results are possible and which calls meet their target.
-/
namespace KernelTables

open ExecutionTraces

/-! ### Children -/

inductive ProcessCall where
  | fork (result : ℤ)
  | waitpid (pid : ℤ) (nohang : Bool) (result : ℤ)
  | kill (pid : ℤ) (result : ℤ)
  deriving DecidableEq, Repr

/-- The children not yet reaped, after one more call. -/
def ProcessCall.after (children : List ℤ) : ProcessCall → List ℤ
  | fork result => if 0 < result then result :: children else children
  | waitpid _ _ result => if 0 < result then children.filter (· ≠ result) else children
  | kill _ _ => children

/-- What the kernel answers: `fork` fails or gives a pid no unreaped child has, and waiting for
one child never gives another. -/
def ProcessCall.Possible (children : List ℤ) : ProcessCall → Prop
  | fork result => result = -1 ∨ 0 < result ∧ result ∉ children
  | waitpid pid _ result => 0 < pid → result = -1 ∨ result = 0 ∨ result = pid
  | kill _ _ => True

/-- A child not yet reaped can be signalled, and waiting for it gives it, or 0 while it runs. -/
def ProcessCall.Effective (children : List ℤ) : ProcessCall → Prop
  | fork _ => True
  | waitpid pid nohang result => pid ∈ children → result = pid ∨ nohang = true ∧ result = 0
  | kill pid result => pid ∈ children → result ≠ -1

/-- A signal goes to one child that was forked and not reaped since. -/
def ProcessCall.Aimed (children : List ℤ) : ProcessCall → Prop
  | kill pid _ => 0 < pid ∧ pid ∈ children
  | _ => True

instance (children : List ℤ) : DecidablePred (ProcessCall.Possible children)
  | .fork result => inferInstanceAs (Decidable (result = -1 ∨ 0 < result ∧ result ∉ children))
  | .waitpid pid _ result =>
    inferInstanceAs (Decidable (0 < pid → result = -1 ∨ result = 0 ∨ result = pid))
  | .kill _ _ => instDecidableTrue

instance (children : List ℤ) : DecidablePred (ProcessCall.Effective children)
  | .fork _ => instDecidableTrue
  | .waitpid pid nohang result =>
    inferInstanceAs (Decidable (pid ∈ children → result = pid ∨ nohang = true ∧ result = 0))
  | .kill pid result => inferInstanceAs (Decidable (pid ∈ children → result ≠ -1))

instance (children : List ℤ) : DecidablePred (ProcessCall.Aimed children)
  | .kill pid _ => inferInstanceAs (Decidable (0 < pid ∧ pid ∈ children))
  | .fork _ => instDecidableTrue
  | .waitpid _ _ _ => instDecidableTrue

/-! ### Descriptors -/

inductive DescriptorCall where
  | opened (fd : ℤ)
  | closed (fd : ℤ)
  deriving DecidableEq, Repr

/-- The descriptors open after one more call. -/
def DescriptorCall.after (descriptors : List ℤ) : DescriptorCall → List ℤ
  | opened fd => fd :: descriptors
  | closed fd => descriptors.filter (· ≠ fd)

/-- What the kernel opens is not open already. -/
def DescriptorCall.Unused (descriptors : List ℤ) : DescriptorCall → Prop
  | opened fd => fd ∉ descriptors
  | closed _ => True

/-- What the kernel opens is positive, 0 being taken, and not open already. -/
def DescriptorCall.Fresh (descriptors : List ℤ) : DescriptorCall → Prop
  | opened fd => 0 < fd ∧ fd ∉ descriptors
  | closed _ => True

instance (descriptors : List ℤ) : DecidablePred (DescriptorCall.Fresh descriptors)
  | .opened fd => inferInstanceAs (Decidable (0 < fd ∧ fd ∉ descriptors))
  | .closed _ => instDecidableTrue

instance (descriptors : List ℤ) : DecidablePred (DescriptorCall.Unused descriptors)
  | .opened fd => inferInstanceAs (Decidable (fd ∉ descriptors))
  | .closed _ => instDecidableTrue

/-- What is opened is not open, and what is closed is. -/
def DescriptorCall.Paired (descriptors : List ℤ) : DescriptorCall → Prop
  | opened fd => fd ∉ descriptors
  | closed fd => fd ∈ descriptors

/-- Every opening is answered by one closing before the descriptor is opened again. -/
structure Balanced (calls : List DescriptorCall) : Prop where
  sane : ∀ fd past, past <+: calls → past.count (.closed fd) ≤ past.count (.opened fd) ∧
    past.count (.opened fd) ≤ past.count (.closed fd) + 1
  settled : ∀ fd, calls.count (.opened fd) = calls.count (.closed fd)

theorem paired_count {table : List ℤ} {calls : List DescriptorCall}
    (h : Along DescriptorCall.after DescriptorCall.Paired table calls) (fd : ℤ) :
    calls.count (.opened fd) + (if fd ∈ table then 1 else 0) =
      calls.count (.closed fd) +
        if fd ∈ calls.foldl DescriptorCall.after table then 1 else 0 := by
  induction calls generalizing table with
  | nil => rfl
  | cons call calls ih =>
    obtain ⟨hcall, hrest⟩ := h
    have hcount := ih hrest
    rw [List.foldl_cons]
    cases call with
    | opened fd' =>
      have hnew : fd' ∉ table := hcall
      by_cases hfd : fd' = fd
      · subst hfd
        simp [DescriptorCall.after, hnew] at hcount ⊢
        omega
      · simp [DescriptorCall.after, Ne.symm hfd] at hcount
        simp [DescriptorCall.after, hfd]
        omega
    | closed fd' =>
      have hold : fd' ∈ table := hcall
      by_cases hfd : fd' = fd
      · subst hfd
        simp [DescriptorCall.after, hold] at hcount ⊢
        omega
      · simp [DescriptorCall.after, Ne.symm hfd] at hcount
        simp [DescriptorCall.after, hfd]
        omega

/-- A history that opens and closes as it should and leaves nothing open. -/
theorem balanced_of_paired {calls : List DescriptorCall}
    (h : Along DescriptorCall.after DescriptorCall.Paired [] calls)
    (hend : calls.foldl DescriptorCall.after [] = []) : Balanced calls := by
  constructor
  · rintro fd past ⟨rest, rfl⟩
    have hcount := paired_count (along_append.mp h).1 fd
    simp only [List.not_mem_nil, ↓reduceIte, Nat.add_zero] at hcount
    split at hcount <;> omega
  · intro fd
    have hcount := paired_count h fd
    simpa [hend] using hcount

/-- Closing descriptors that are open, each once. -/
theorem closed_paired {table fds : List ℤ} (hnodup : fds.Nodup) (hopen : ∀ fd ∈ fds, fd ∈ table) :
    Along DescriptorCall.after DescriptorCall.Paired table (fds.map .closed) ∧
      (fds.map DescriptorCall.closed).foldl DescriptorCall.after table =
        table.filter (· ∉ fds) := by
  induction fds generalizing table with
  | nil => simp [Along]
  | cons fd fds ih =>
    obtain ⟨hfd, hnodup⟩ := List.nodup_cons.mp hnodup
    have hrest : ∀ fd' ∈ fds, fd' ∈ DescriptorCall.after table (.closed fd) := by
      intro fd' hfd'
      refine List.mem_filter.mpr ⟨hopen fd' (List.mem_cons_of_mem fd hfd'), ?_⟩
      simp only [ne_eq, decide_not, Bool.not_eq_eq_eq_not, Bool.not_true, decide_eq_false_iff_not]
      rintro rfl
      exact hfd hfd'
    obtain ⟨hpaired, hleft⟩ := ih hnodup hrest
    refine ⟨⟨hopen fd List.mem_cons_self, hpaired⟩, ?_⟩
    rw [List.map_cons, List.foldl_cons, hleft, DescriptorCall.after, List.filter_filter]
    congr 1
    funext fd'
    simp [Bool.and_comm]

end KernelTables
