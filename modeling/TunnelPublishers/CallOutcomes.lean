import TunnelPublishers.ExecutionTraces

/-!
# Functions that stop at the first failure

An outcome is whether a function succeeded, the state it leaves and the calls it
made. `Ensures` is what it guarantees as long as its calls are answered as they
may be; functions in sequence are verified one by one.
-/
namespace CallOutcomes

open ExecutionTraces

variable {σ ο τ : Type*}

structure Outcome (σ ο : Type*) where
  ok : Bool
  state : σ
  out : List ο

namespace Outcome

def done (s : σ) : Outcome σ ο := ⟨true, s, []⟩

/-- The rest runs only after success. -/
def andThen (r : Outcome σ ο) (f : σ → Outcome σ ο) : Outcome σ ο :=
  if r.ok then ⟨(f r.state).ok, (f r.state).state, r.out ++ (f r.state).out⟩ else r

/-- The result is not looked at. -/
def ignored (r : Outcome σ ο) : Outcome σ ο := { r with ok := true }

@[simp] theorem andThen_success (s : σ) (out : List ο) (f : σ → Outcome σ ο) :
    andThen ⟨true, s, out⟩ f = ⟨(f s).ok, (f s).state, out ++ (f s).out⟩ := rfl

@[simp] theorem andThen_failure (s : σ) (out : List ο) (f : σ → Outcome σ ο) :
    andThen ⟨false, s, out⟩ f = ⟨false, s, out⟩ := rfl

theorem andThen_ok (r : Outcome σ ο) (f : σ → Outcome σ ο) :
    (r.andThen f).ok = (r.ok && (f r.state).ok) := by
  obtain ⟨ok, s, out⟩ := r
  cases ok <;> simp

theorem ok_andThen_iff {r : Outcome σ ο} {f : σ → Outcome σ ο} :
    (r.andThen f).ok = true ↔ r.ok = true ∧ (f r.state).ok = true := by
  rw [andThen_ok, Bool.and_eq_true]

theorem andThen_of_ok {r : Outcome σ ο} (h : r.ok = true) (f : σ → Outcome σ ο) :
    r.andThen f = ⟨(f r.state).ok, (f r.state).state, r.out ++ (f r.state).out⟩ :=
  if_pos h

theorem andThen_of_failed {r : Outcome σ ο} (h : r.ok = false) (f : σ → Outcome σ ο) :
    r.andThen f = r :=
  if_neg (Bool.not_eq_true _ ▸ h)

theorem andThen_assoc (r : Outcome σ ο) (f g : σ → Outcome σ ο) :
    (r.andThen f).andThen g = r.andThen fun s => (f s).andThen g := by
  obtain ⟨ok, s, out⟩ := r
  cases ok with
  | false => rfl
  | true =>
    simp only [andThen_success]
    unfold andThen
    split <;> simp

theorem andThen_out (r : Outcome σ ο) (f : σ → Outcome σ ο) :
    ∃ rest, (r.andThen f).out = r.out ++ rest := by
  obtain ⟨ok, s, out⟩ := r
  cases ok with
  | false => exact ⟨[], (List.append_nil out).symm⟩
  | true => exact ⟨(f s).out, rfl⟩

theorem mem_andThen {r : Outcome σ ο} {f : σ → Outcome σ ο} {o : ο} (h : o ∈ (r.andThen f).out) :
    o ∈ r.out ∨ o ∈ (f r.state).out := by
  obtain ⟨ok, s, out⟩ := r
  cases ok with
  | false => exact .inl h
  | true => exact List.mem_append.mp h

theorem forall_mem_andThen {P : ο → Prop} {r : Outcome σ ο} {f : σ → Outcome σ ο} :
    (∀ o ∈ (r.andThen f).out, P o) ↔
      (∀ o ∈ r.out, P o) ∧ (r.ok = true → ∀ o ∈ (f r.state).out, P o) := by
  obtain ⟨ok, s, out⟩ := r
  cases ok with
  | false => simp
  | true => simp [or_imp, forall_and]

/-- What the first function leaves true of the state and the second preserves. -/
theorem andThen_state {P : σ → Prop} {r : Outcome σ ο} {f : σ → Outcome σ ο} (h : P r.state)
    (hf : ∀ s, P s → P (f s).state) : P (r.andThen f).state := by
  obtain ⟨ok, s, out⟩ := r
  cases ok with
  | false => exact h
  | true => exact hf s h

end Outcome

section Rules

variable {after : τ → ο → τ} {G P : τ → ο → Prop} {t : τ} {r : Outcome σ ο}
  {Q Q' : Bool → σ → τ → Prop}

/-- If every call is answered as `G` allows, every call satisfies `P`, and `Q` holds of the result
and of the table that the calls leave. -/
def Ensures (after : τ → ο → τ) (G P : τ → ο → Prop) (t : τ) (r : Outcome σ ο)
    (Q : Bool → σ → τ → Prop) : Prop :=
  Along after G t r.out → Along after P t r.out ∧ Q r.ok r.state (r.out.foldl after t)

theorem Ensures.mono (h : Ensures after G P t r Q) (hQ : ∀ ok s u, Q ok s u → Q' ok s u) :
    Ensures after G P t r Q' := fun hG => ⟨(h hG).1, hQ _ _ _ (h hG).2⟩

theorem Ensures.and {P' : τ → ο → Prop} (h : Ensures after G P t r Q)
    (h' : Ensures after G P' t r Q') :
    Ensures after G P t r fun ok s u => Q ok s u ∧ Q' ok s u :=
  fun hG => ⟨(h hG).1, (h hG).2, (h' hG).2⟩

theorem Ensures.done {s : σ} (h : Q true s t) : Ensures after G P t (.done s) Q :=
  fun _ => ⟨trivial, h⟩

/-- One call. -/
theorem Ensures.call {ok : Bool} {s : σ} {o : ο}
    (h : G t o → P t o ∧ Q ok s (after t o)) : Ensures after G P t ⟨ok, s, [o]⟩ Q :=
  fun hG => ⟨⟨(h hG.1).1, trivial⟩, (h hG.1).2⟩

theorem Ensures.andThen {f : σ → Outcome σ ο} (h : Ensures after G P t r Q')
    (hfailed : ∀ s u, Q' false s u → Q false s u)
    (hrest : ∀ s u, Q' true s u → Ensures after G P u (f s) Q) :
    Ensures after G P t (r.andThen f) Q := by
  obtain ⟨ok, s, out⟩ := r
  cases ok with
  | false => exact fun hG => ⟨(h hG).1, hfailed _ _ (h hG).2⟩
  | true =>
    intro hG
    rw [Outcome.andThen, if_pos rfl] at hG ⊢
    obtain ⟨hfirst, hsecond⟩ := along_append.mp hG
    obtain ⟨hP, hQ⟩ := h hfirst
    obtain ⟨hP', hQ'⟩ := hrest s _ hQ hsecond
    refine ⟨along_append.mpr ⟨hP, hP'⟩, ?_⟩
    rw [List.foldl_append]
    exact hQ'

theorem Ensures.ignored (h : Ensures after G P t r Q') (hQ : ∀ ok s u, Q' ok s u → Q true s u) :
    Ensures after G P t r.ignored Q :=
  fun hG => ⟨(h hG).1, hQ _ _ _ (h hG).2⟩

/-- More calls, of which each one leaves an assertion true. -/
theorem along_of_invariant {I : τ → Prop} {out : List ο} (ht : I t)
    (h : ∀ o ∈ out, ∀ u, I u → P u o ∧ I (after u o)) :
    Along after P t out ∧ I (out.foldl after t) := by
  induction out generalizing t with
  | nil => exact ⟨trivial, ht⟩
  | cons o out ih =>
    obtain ⟨hP, hI⟩ := h o List.mem_cons_self t ht
    obtain ⟨hrest, hend⟩ := ih hI fun o' ho' => h o' (List.mem_cons_of_mem o ho')
    exact ⟨⟨hP, hrest⟩, hend⟩

theorem along_trivial (t : τ) (out : List ο) : Along after (fun _ _ => True) t out :=
  (along_of_invariant (I := fun _ => True) trivial fun _ _ _ _ => ⟨trivial, trivial⟩).1

/-- The calls of functions in sequence, one by one. -/
theorem along_andThen {f : σ → Outcome σ ο} : Along after P t (r.andThen f).out ↔
    Along after P t r.out ∧
      (r.ok = true → Along after P (r.out.foldl after t) (f r.state).out) := by
  obtain ⟨ok, s, out⟩ := r
  cases ok with
  | false => simp
  | true => simp [along_append]

/-! ### Calls of one kind -/

/-- Every call is of a kind, and the state left has a property. -/
structure Within (K : ο → Prop) (I : σ → Prop) (r : Outcome σ ο) : Prop where
  calls : ∀ o ∈ r.out, K o
  state : I r.state

variable {K : ο → Prop} {I : σ → Prop}

theorem Within.done {s : σ} (h : I s) : Within K I (.done s) :=
  ⟨fun _ ho => (List.not_mem_nil ho).elim, h⟩

theorem Within.call {ok : Bool} {s : σ} {o : ο} (ho : K o) (hs : I s) : Within K I ⟨ok, s, [o]⟩ :=
  ⟨fun o' ho' => by rwa [List.mem_singleton.mp ho'], hs⟩

theorem Within.mono {K' : ο → Prop} {I' : σ → Prop} (h : Within K I r) (hK : ∀ o, K o → K' o)
    (hI : ∀ s, I s → I' s) : Within K' I' r :=
  ⟨fun o ho => hK o (h.calls o ho), hI r.state h.state⟩

theorem Within.ignored (h : Within K I r) : Within K I r.ignored := ⟨h.calls, h.state⟩

theorem Within.andThen {f : σ → Outcome σ ο} (h : Within K I r)
    (hf : ∀ s, I s → Within K I (f s)) : Within K I (r.andThen f) := by
  refine ⟨fun o ho => ?_, Outcome.andThen_state h.state fun s hs => (hf s hs).state⟩
  rcases Outcome.mem_andThen ho with ho | ho
  · exact h.calls o ho
  · exact (hf r.state h.state).calls o ho

/-- Calls that are right at any time and leave the table alone. -/
theorem Within.ensures (h : Within K I r) (hK : ∀ o u, K o → P u o ∧ after u o = u) :
    Ensures after G P t r fun _ s u => I s ∧ u = t := by
  intro _
  obtain ⟨hright, hsame⟩ : Along after P t r.out ∧ r.out.foldl after t = t :=
    along_of_invariant (I := fun u => u = t) rfl
      fun o ho u hu => ⟨(hK o u (h.calls o ho)).1, (hK o u (h.calls o ho)).2.trans hu⟩
  exact ⟨hright, h.state, hsame⟩

end Rules

end CallOutcomes
