import Mathlib.Data.List.Basic
import Mathlib.Data.List.Forall2

/-!
# Finite executions of input-driven machines

A step consumes one input and emits a list of outputs. Executions record both,
so that statements can speak of the whole history. Invariants, refinements and
simulations are each proved once, from their one-step form.
-/
namespace ExecutionTraces

variable {σ α ι ο ε : Type*}

inductive Execution (R : σ → ι → List ο → σ → Prop) : σ → List ι → List ο → σ → Prop where
  | refl (s) : Execution R s [] [] s
  | tail {s u v is i os out} : Execution R s is os u → R u i out v →
      Execution R s (is ++ [i]) (os ++ out) v

/-- The step relation of a function that may fail; a failed step has no successor. -/
def Succeeds (step : σ → ι → Except ε (σ × List ο)) (s : σ) (i : ι) (os : List ο) (u : σ) : Prop :=
  step s i = .ok (u, os)

/-- Steps that start and end inside a set of states. -/
def Confined (R : σ → ι → List ο → σ → Prop) (P : σ → Prop) (s : σ) (i : ι) (os : List ο)
    (u : σ) : Prop :=
  R s i os u ∧ P s ∧ P u

theorem Execution.single {R : σ → ι → List ο → σ → Prop} {s u : σ} {i : ι} {os : List ο}
    (h : R s i os u) : Execution R s [i] os u :=
  .tail (.refl s) h

theorem Execution.trans {R : σ → ι → List ο → σ → Prop} {s u v : σ} {is js : List ι}
    {os ps : List ο} (h : Execution R s is os u) (k : Execution R u js ps v) :
    Execution R s (is ++ js) (os ++ ps) v := by
  induction k with
  | refl => simpa using h
  | tail _ hstep ih =>
    rw [← List.append_assoc, ← List.append_assoc]
    exact .tail ih hstep

/-- What every step preserves, a whole execution preserves. -/
theorem Execution.preserves {R : σ → ι → List ο → σ → Prop} {I : σ → Prop}
    (hI : ∀ s i os u, I s → R s i os u → I u) {s u : σ} {is : List ι} {os : List ο}
    (h : Execution R s is os u) (hs : I s) : I u := by
  induction h with
  | refl => exact hs
  | tail _ hstep ih => exact hI _ _ _ _ ih hstep

/-- A step-by-step simulation from states that satisfy an invariant lifts to executions,
with the same outputs and the inputs translated. -/
theorem Execution.simulates {κ : Type*} {R : σ → ι → List ο → σ → Prop}
    {A : α → κ → List ο → α → Prop} {I : σ → Prop} {abs : σ → α} (label : ι → κ)
    (hI : ∀ s i os u, I s → R s i os u → I u)
    (hA : ∀ s i os u, I s → R s i os u → A (abs s) (label i) os (abs u))
    {s u : σ} {is : List ι} {os : List ο} (h : Execution R s is os u) (hs : I s) :
    Execution A (abs s) (is.map label) os (abs u) := by
  induction h with
  | refl => exact .refl _
  | tail hrun hstep ih =>
    rw [List.map_append]
    exact .tail ih (hA _ _ _ _ (hrun.preserves hI hs) hstep)

theorem Execution.mono {R S : σ → ι → List ο → σ → Prop}
    (hRS : ∀ s i os u, R s i os u → S s i os u) {s u : σ} {is : List ι} {os : List ο}
    (h : Execution R s is os u) : Execution S s is os u := by
  induction h with
  | refl => exact .refl _
  | tail _ hstep ih => exact .tail ih (hRS _ _ _ _ hstep)

/-- An invariant that may speak of all outputs so far. -/
theorem Execution.history {R : σ → ι → List ο → σ → Prop} {I : σ → List ο → Prop}
    (hI : ∀ s past i out u, I s past → R s i out u → I u (past ++ out)) {s u : σ} {is : List ι}
    {os : List ο} (h : Execution R s is os u) (hs : I s []) : I u os := by
  induction h with
  | refl => exact hs
  | tail _ hstep ih => exact hI _ _ _ _ _ ih hstep

/-- The last step of an execution. -/
theorem Execution.last {R : σ → ι → List ο → σ → Prop} {s v : σ} {is : List ι} {i : ι}
    {os : List ο} (h : Execution R s (is ++ [i]) os v) :
    ∃ u past out, os = past ++ out ∧ Execution R s is past u ∧ R u i out v := by
  generalize hjs : is ++ [i] = js at h
  cases h with
  | refl => simp at hjs
  | tail hrun hstep =>
    obtain ⟨rfl, hi⟩ := List.append_inj' hjs rfl
    rw [List.singleton_inj] at hi
    exact ⟨_, _, _, rfl, hrun, hi ▸ hstep⟩

/-- A rank that no step raises and that every input of one kind lowers runs down to zero. -/
theorem Execution.countdown {R : σ → ι → List ο → σ → Prop} {I : σ → Prop} {rank : σ → ℕ}
    {p : ι → Bool} (hI : ∀ s i os u, I s → R s i os u → I u)
    (hrank : ∀ s i os u, I s → R s i os u → rank u ≤ rank s - if p i then 1 else 0) {s u : σ}
    {is : List ι} {os : List ο} (h : Execution R s is os u) (hs : I s) :
    rank u ≤ rank s - is.countP p := by
  induction h with
  | refl => simp
  | tail hrun hstep ih =>
    have hlast := hrank _ _ _ _ (hrun.preserves hI hs) hstep
    rw [List.countP_append, List.countP_singleton]
    omega

/-- What comes after a computation that may fail. -/
theorem ok_bind {β : Type*} {x : Except ε α} {f : α → Except ε β} {b : β} (h : x.bind f = .ok b) :
    ∃ a, x = .ok a ∧ f a = .ok b := by
  cases x with
  | error e => cases h
  | ok a => exact ⟨a, rfl, h⟩

/-- A function that fails or succeeds has one execution on its inputs. -/
theorem Execution.unique {step : σ → ι → Except ε (σ × List ο)} {s u v : σ} {is : List ι}
    {os ps : List ο} (h : Execution (Succeeds step) s is os u)
    (k : Execution (Succeeds step) s is ps v) : os = ps ∧ u = v := by
  induction h generalizing ps v with
  | refl =>
    generalize hjs : ([] : List ι) = js at k
    cases k with
    | refl => exact ⟨rfl, rfl⟩
    | tail => simp at hjs
  | tail _ hstep ih =>
    obtain ⟨u', past, out, rfl, hrun', hstep'⟩ := k.last
    obtain ⟨rfl, rfl⟩ := ih hrun'
    have heq := hstep.symm.trans hstep'
    simp only [Except.ok.injEq, Prod.mk.injEq] at heq
    exact ⟨by rw [heq.2], heq.1⟩

/-! ### Steps without inputs -/

inductive Runs (R : σ → List ο → σ → Prop) : σ → List ο → σ → Prop where
  | refl (s) : Runs R s [] s
  | tail {s u v os out} : Runs R s os u → R u out v → Runs R s (os ++ out) v

theorem Runs.single {R : σ → List ο → σ → Prop} {s u : σ} {os : List ο} (h : R s os u) :
    Runs R s os u :=
  .tail (.refl s) h

theorem Runs.trans {R : σ → List ο → σ → Prop} {s u v : σ} {os ps : List ο} (h : Runs R s os u)
    (k : Runs R u ps v) : Runs R s (os ++ ps) v := by
  induction k with
  | refl => simpa using h
  | tail _ hstep ih =>
    rw [← List.append_assoc]
    exact .tail ih hstep

/-- Outputs that each leave the state alone. -/
theorem Runs.stay {R : σ → List ο → σ → Prop} {s : σ} {os : List ο} (h : ∀ o ∈ os, R s [o] s) :
    Runs R s os s := by
  induction os with
  | nil => exact .refl s
  | cons o os ih =>
    have hrest := ih fun o' ho' => h o' (List.mem_cons_of_mem o ho')
    exact (Runs.single (h o List.mem_cons_self)).trans hrest

theorem Runs.history {R : σ → List ο → σ → Prop} {I : σ → List ο → Prop}
    (hI : ∀ s past out u, I s past → R s out u → I u (past ++ out)) {s u : σ} {past os : List ο}
    (h : Runs R s os u) (hs : I s past) : I u (past ++ os) := by
  induction h with
  | refl => simpa using hs
  | tail _ hstep ih =>
    rw [← List.append_assoc]
    exact hI _ _ _ _ ih hstep

/-- The same from the start of a history. -/
theorem Runs.invariant {R : σ → List ο → σ → Prop} {I : σ → List ο → Prop}
    (hI : ∀ s past out u, I s past → R s out u → I u (past ++ out)) {s u : σ} {os : List ο}
    (h : Runs R s os u) (hs : I s []) : I u os :=
  h.history hI hs

/-! ### Runs that compute -/

/-- Whether a run stays inside a decidable set of states. -/
def confinedRun (step : σ → ι → Except ε (σ × List ο)) (P : σ → Bool) : σ → List ι → Bool
  | _, [] => true
  | s, i :: is =>
    P s && match step s i with
      | .ok (u, _) => P u && confinedRun step P u is
      | .error _ => false

theorem execution_of_confinedRun (step : σ → ι → Except ε (σ × List ο)) (P : σ → Bool) {s : σ}
    (is : List ι) (h : confinedRun step P s is = true) :
    ∃ os u, Execution (Confined (Succeeds step) fun s => P s = true) s is os u := by
  induction is generalizing s with
  | nil => exact ⟨[], s, .refl s⟩
  | cons i is ih =>
    simp only [confinedRun, Bool.and_eq_true] at h
    obtain ⟨hs, h⟩ := h
    cases hstep : step s i with
    | error e => simp [hstep] at h
    | ok r =>
      simp only [hstep, Bool.and_eq_true] at h
      obtain ⟨os, u, hrun⟩ := ih h.2
      exact ⟨r.2 ++ os, u, (Execution.single ⟨hstep, hs, h.1⟩).trans hrun⟩

/-- A run over all inputs, up to the first failure. -/
def runAll (step : σ → ι → Except ε (σ × List ο)) : σ → List ι → Except ε (σ × List ο)
  | s, [] => .ok (s, [])
  | s, i :: is => do
    let (s, out) ← step s i
    let (s, rest) ← runAll step s is
    .ok (s, out ++ rest)

theorem runAll_cons (step : σ → ι → Except ε (σ × List ο)) (s : σ) (i : ι) (is : List ι) :
    runAll step s (i :: is) = (step s i).bind fun r =>
      (runAll step r.1 is).map fun r' => (r'.1, r.2 ++ r'.2) := by
  rw [runAll]
  cases step s i with
  | error e => rfl
  | ok r =>
    simp only [bind, Except.bind]
    cases runAll step r.1 is <;> rfl

theorem runAll_append (step : σ → ι → Except ε (σ × List ο)) (s : σ) (is js : List ι) :
    runAll step s (is ++ js) = (runAll step s is).bind fun r =>
      (runAll step r.1 js).map fun r' => (r'.1, r.2 ++ r'.2) := by
  induction is generalizing s with
  | nil =>
    cases hrun : runAll step s js <;> simp [runAll, Except.bind, Except.map, hrun]
  | cons i is ih =>
    rw [List.cons_append, runAll_cons, runAll_cons]
    cases step s i with
    | error e => rfl
    | ok r =>
      simp only [Except.bind, ih]
      cases runAll step r.1 is with
      | error e => rfl
      | ok r' => cases hrest : runAll step r'.1 js <;> simp [Except.map, hrest]

theorem execution_of_runAll {step : σ → ι → Except ε (σ × List ο)} {s u : σ} {is : List ι}
    {os : List ο} (h : runAll step s is = .ok (u, os)) : Execution (Succeeds step) s is os u := by
  induction is generalizing s os with
  | nil =>
    cases h
    exact .refl _
  | cons i is ih =>
    rw [runAll_cons] at h
    cases hstep : step s i with
    | error e => simp [hstep, Except.bind] at h
    | ok r =>
      cases hrest : runAll step r.1 is with
      | error e => simp [hstep, hrest, Except.bind, Except.map] at h
      | ok r' =>
        simp only [hstep, hrest, Except.bind, Except.map, Except.ok.injEq, Prod.mk.injEq] at h
        obtain ⟨rfl, rfl⟩ := h
        exact (Execution.single hstep).trans (ih hrest)

/-- A run that computes, known by what is seen of its outputs. -/
theorem runAll_of_seen {β : Type*} (step : σ → ι → Except ε (σ × List ο)) (s : σ)
    (is : List ι) (see : List ο → β) {seen : β}
    (h : (runAll step s is).map (fun r => see r.2) = .ok seen) :
    ∃ os u, runAll step s is = .ok (u, os) ∧ see os = seen := by
  cases hrun : runAll step s is with
  | error e => simp [hrun, Except.map] at h
  | ok r =>
    simp only [hrun, Except.map, Except.ok.injEq] at h
    exact ⟨r.2, r.1, rfl, h⟩

/-! ### Two computations -/

/-- Two computations that fail alike, or come to related results. -/
def Agree {β : Type*} (R : α → β → Prop) : Except ε α → Except ε β → Prop
  | .ok a, .ok b => R a b
  | .error e, .error f => e = f
  | _, _ => False

theorem Agree.bind {α' β β' : Type*} {R : α → β → Prop} {S : α' → β' → Prop} {x : Except ε α}
    {y : Except ε β} {f : α → Except ε α'} {g : β → Except ε β'} (h : Agree R x y)
    (hfg : ∀ a b, R a b → Agree S (f a) (g b)) : Agree S (x.bind f) (y.bind g) := by
  cases x <;> cases y
  · exact h
  · exact h.elim
  · exact h.elim
  · exact hfg _ _ h

theorem Agree.refl (x : Except ε α) : Agree Eq x x := by
  cases x <;> rfl

theorem Agree.mono {β : Type*} {R S : α → β → Prop} {x : Except ε α} {y : Except ε β}
    (h : Agree R x y) (hRS : ∀ a b, R a b → S a b) : Agree S x y := by
  cases x <;> cases y
  · exact h
  · exact h.elim
  · exact h.elim
  · exact hRS _ _ h

theorem Agree.map {α' β β' : Type*} {R : α → β → Prop} {S : α' → β' → Prop} {x : Except ε α}
    {y : Except ε β} {f : α → α'} {g : β → β'} (h : Agree R x y)
    (hfg : ∀ a b, R a b → S (f a) (g b)) : Agree S (x.map f) (y.map g) := by
  cases x <;> cases y
  · exact h
  · exact h.elim
  · exact h.elim
  · exact hfg _ _ h

theorem Agree.map_eq {β κ : Type*} {R : α → β → Prop} {x : Except ε α} {y : Except ε β}
    {f : α → κ} {g : β → κ} (h : Agree R x y) (hfg : ∀ a b, R a b → f a = g b) :
    x.map f = y.map g := by
  cases x <;> cases y
  · exact congrArg Except.error h
  · exact h.elim
  · exact h.elim
  · exact congrArg Except.ok (hfg _ _ h)

/-- Two machines on the same inputs: if they agree on each step, from states that correspond, they
agree on a whole run, and the outputs correspond one by one. -/
theorem runAll_agree {τ π : Type*} {step : σ → ι → Except ε (σ × List ο)}
    {step' : τ → ι → Except ε (τ × List π)} {J : σ → τ → Prop} {S : ο → π → Prop}
    (hstep : ∀ s t i, J s t →
      Agree (fun a b => J a.1 b.1 ∧ List.Forall₂ S a.2 b.2) (step s i) (step' t i))
    {s : σ} {t : τ} (h : J s t) (is : List ι) :
    Agree (fun a b => J a.1 b.1 ∧ List.Forall₂ S a.2 b.2) (runAll step s is)
      (runAll step' t is) := by
  induction is generalizing s t with
  | nil => exact ⟨h, .nil⟩
  | cons i is ih =>
    rw [runAll_cons, runAll_cons]
    refine (hstep s t i h).bind ?_
    rintro a b ⟨hnext, hout⟩
    refine (ih hnext).map ?_
    rintro a' b' ⟨hlast, hrest⟩
    exact ⟨hlast, List.rel_append hout hrest⟩

/-- Two machines, the second given some of the inputs of the first and possibly failing in one way:
what holds of both at the start and is kept, by an input that both take and by one that only the
first takes, holds at the end, if the second gets there. -/
theorem Execution.paired {τ π : Type*} {R : σ → ι → List ο → σ → Prop}
    {step : τ → ι → Except ε (τ × List π)} {e : ε} {p : ι → Prop} [DecidablePred p]
    {J : σ → List ο → τ → List π → Prop} {is : List ι}
    (hboth : ∀ i ∈ is, p i → ∀ s past t past' out u, J s past t past' → R s i out u →
      step t i = .error e ∨
        ∃ v out', step t i = .ok (v, out') ∧ J u (past ++ out) v (past' ++ out'))
    (hfirst : ∀ i ∈ is, ¬ p i → ∀ s past t past' out u, J s past t past' →
      R s i out u → J u (past ++ out) t past')
    {s u : σ} {t : τ} {os : List ο} (h : Execution R s is os u) (hJ : J s [] t []) :
    runAll step t (is.filter p) = .error e ∨
      ∃ v ps, runAll step t (is.filter p) = .ok (v, ps) ∧ J u os v ps := by
  induction h with
  | refl => exact Or.inr ⟨t, [], rfl, hJ⟩
  | @tail w x is i os out hrun hstep ih =>
    have hbefore := fun j hj => hboth j (List.mem_append_left _ hj)
    have hbefore' := fun j hj => hfirst j (List.mem_append_left _ hj)
    have hi : i ∈ is ++ [i] := by simp
    rw [List.filter_append, runAll_append]
    rcases ih hbefore hbefore' with hfailed | ⟨v, ps, hok, hv⟩
    · exact Or.inl (by rw [hfailed]; rfl)
    · rw [hok]
      by_cases hown : p i
      · rw [List.filter_singleton, decide_eq_true hown]
        rcases hboth i hi hown _ _ _ _ _ _ hv hstep with hfailed | ⟨x, out', hlast, hnext⟩
        · exact Or.inl (by simp [Except.bind, Except.map, runAll_cons, hfailed])
        · refine Or.inr ⟨x, ps ++ out', ?_, hnext⟩
          simp [Except.bind, Except.map, runAll_cons, hlast, runAll]
      · rw [List.filter_singleton, decide_eq_false hown]
        refine Or.inr ⟨v, ps, ?_, hfirst i hi hown _ _ _ _ _ _ hv hstep⟩
        simp [Except.bind, Except.map, runAll]

/-- A traversal whose callback updates a value and emits outputs. -/
def visitAll {γ β : Type*} (f : γ → β → γ × List ο) : γ → List β → γ × List ο
  | x, [] => (x, [])
  | x, e :: es =>
    let (x, out) := f x e
    let (x, rest) := visitAll f x es
    (x, out ++ rest)

/-- What holds of the outputs of every visit holds of all of them. -/
theorem forall_mem_visitAll {γ β : Type*} {f : γ → β → γ × List ο} {P : ο → Prop}
    (hf : ∀ x b, ∀ o ∈ (f x b).2, P o) (x : γ) (bs : List β) :
    ∀ o ∈ (visitAll f x bs).2, P o := by
  induction bs generalizing x with
  | nil => simp [visitAll]
  | cons b bs ih =>
    intro o ho
    rcases List.mem_append.mp ho with ho | ho
    · exact hf x b o ho
    · exact ih (f x b).1 o ho

theorem visitAll_append {γ β : Type*} (f : γ → β → γ × List ο) (x : γ) (bs cs : List β) :
    visitAll f x (bs ++ cs) =
      ((visitAll f (visitAll f x bs).1 cs).1,
        (visitAll f x bs).2 ++ (visitAll f (visitAll f x bs).1 cs).2) := by
  induction bs generalizing x with
  | nil => rfl
  | cons b bs ih => simp [visitAll, ih, List.append_assoc]

/-- The steps of a function that always succeeds, from the states in which it is called. -/
def Guarded (G : σ → Bool) (step : σ → ι → σ × List ο) (s : σ) (i : ι) (os : List ο) (u : σ) :
    Prop :=
  G s = true ∧ step s i = (u, os)

/-- Whether the guard holds before every step of a run. -/
def guardedRun (G : σ → Bool) (step : σ → ι → σ × List ο) : σ → List ι → Bool
  | _, [] => true
  | s, i :: is => G s && guardedRun G step (step s i).1 is

theorem execution_of_guardedRun (G : σ → Bool) (step : σ → ι → σ × List ο) (s : σ) (is : List ι)
    (h : guardedRun G step s is = true) :
    Execution (Guarded G step) s is (visitAll step s is).2 (visitAll step s is).1 := by
  induction is generalizing s with
  | nil => exact .refl s
  | cons i is ih =>
    simp only [guardedRun, Bool.and_eq_true] at h
    exact (Execution.single ⟨h.1, rfl⟩).trans (ih (step s i).1 h.2)

/-- A run of a function is what the function computes. -/
theorem Execution.eq_visitAll {G : σ → Bool} {step : σ → ι → σ × List ο} {s u : σ} {is : List ι}
    {os : List ο} (h : Execution (Guarded G step) s is os u) : visitAll step s is = (u, os) := by
  induction h with
  | refl => rfl
  | tail _ hstep ih => simp [visitAll_append, ih, visitAll, hstep.2]

section Logs

variable {κ : Type*} {G : σ → Bool} {step : σ → ι → σ × List ο} {log : σ → ι → List κ}
  {f : κ → Option ο} {s u : σ} {is : List ι}

/-- Every run has a log that tells of its outputs, if every step has one. -/
theorem Execution.logged (hlog : ∀ s i, (log s i).filterMap f = (step s i).2) {os : List ο}
    (h : Execution (Guarded G step) s is os u) :
    ∃ acts, Execution (Guarded G fun s i => ((step s i).1, log s i)) s is acts u ∧
      acts.filterMap f = os := by
  induction h with
  | refl => exact ⟨[], .refl _, rfl⟩
  | @tail u v is i os out _ hstep ih =>
    obtain ⟨acts, hrun, rfl⟩ := ih
    refine ⟨acts ++ log u i, .tail hrun ⟨hstep.1, ?_⟩, ?_⟩
    · simp only [hstep.2]
    · rw [List.filterMap_append, hlog, hstep.2]

/-- A logged run is a run with the outputs that the log tells of. -/
theorem Execution.unlogged (hlog : ∀ s i, (log s i).filterMap f = (step s i).2) {acts : List κ}
    (h : Execution (Guarded G fun s i => ((step s i).1, log s i)) s is acts u) :
    Execution (Guarded G step) s is (acts.filterMap f) u := by
  induction h with
  | refl => exact .refl _
  | tail _ hstep ih =>
    obtain ⟨hguard, hturn⟩ := hstep
    obtain ⟨rfl, rfl⟩ := Prod.mk.inj hturn
    rw [List.filterMap_append, hlog]
    exact .tail ih ⟨hguard, rfl⟩

end Logs

/-- A condition on every input of a run, at the state that consumes it. -/
def Meets (C : σ → ι → Prop) (step : σ → ι → σ × List ο) : σ → List ι → Prop
  | _, [] => True
  | s, i :: is => C s i ∧ Meets C step (step s i).1 is

theorem execution_of_meets (G : σ → Bool) (step : σ → ι → σ × List ο) (C : σ → ι → Prop) (s : σ)
    (is : List ι) (h : guardedRun G step s is = true) (hC : Meets C step s is) :
    Execution (fun s i os u => Guarded G step s i os u ∧ C s i) s is (visitAll step s is).2
      (visitAll step s is).1 := by
  induction is generalizing s with
  | nil => exact .refl s
  | cons i is ih =>
    simp only [guardedRun, Bool.and_eq_true] at h
    exact (Execution.single ⟨⟨h.1, rfl⟩, hC.1⟩).trans (ih (step s i).1 h.2 hC.2)

/-- The steps of a function on inputs that are allowed where they are taken. -/
def Allowed (C : σ → ι → Prop) (step : σ → ι → σ × List ο) (s : σ) (i : ι) (os : List ο) (u : σ) :
    Prop :=
  C s i ∧ step s i = (u, os)

instance Meets.decide (C : σ → ι → Prop) [∀ s i, Decidable (C s i)] (step : σ → ι → σ × List ο) :
    ∀ s is, Decidable (Meets C step s is)
  | _, [] => isTrue trivial
  | s, i :: is =>
    have : Decidable (Meets C step (step s i).1 is) := Meets.decide C step (step s i).1 is
    inferInstanceAs (Decidable (C s i ∧ Meets C step (step s i).1 is))

theorem execution_of_allowed (C : σ → ι → Prop) (step : σ → ι → σ × List ο) (s : σ) (is : List ι)
    (h : Meets C step s is) :
    Execution (Allowed C step) s is (visitAll step s is).2 (visitAll step s is).1 := by
  induction is generalizing s with
  | nil => exact .refl s
  | cons i is ih => exact (Execution.single ⟨h.1, rfl⟩).trans (ih (step s i).1 h.2)

/-! ### Histories against a table -/

section Histories

variable {τ κ : Type*} {after : τ → κ → τ} {P : τ → κ → Prop} {table : τ}

/-- A property of every call of a history, at the table the earlier calls left. -/
def Along (after : τ → κ → τ) (P : τ → κ → Prop) : τ → List κ → Prop
  | _, [] => True
  | table, call :: calls => P table call ∧ Along after P (after table call) calls

instance Along.decide [∀ table call, Decidable (P table call)] :
    ∀ table calls, Decidable (Along after P table calls)
  | _, [] => isTrue trivial
  | table, call :: calls =>
    have : Decidable (Along after P (after table call) calls) := Along.decide _ _
    inferInstanceAs (Decidable (P table call ∧ Along after P (after table call) calls))

theorem along_append {a b : List κ} :
    Along after P table (a ++ b) ↔
      Along after P table a ∧ Along after P (a.foldl after table) b := by
  induction a generalizing table with
  | nil => simp [Along]
  | cons call a ih => simp [Along, ih, and_assoc]

/-- If every step preserves an invariant and every call in it is right, so it is in a run. -/
theorem Execution.along {R : σ → ι → List κ → σ → Prop} {I : σ → τ → Prop}
    (hstep : ∀ s table i out u, I s table → R s i out u →
      Along after P table out ∧ I u (out.foldl after table))
    {s u : σ} {is : List ι} {os : List κ} (h : Execution R s is os u) (hs : I s table) :
    Along after P table os ∧ I u (os.foldl after table) := by
  induction h with
  | refl => exact ⟨trivial, hs⟩
  | tail _ hlast ih =>
    obtain ⟨hpast, hI⟩ := ih
    obtain ⟨hout, hend⟩ := hstep _ _ _ _ _ hI hlast
    rw [along_append, List.foldl_append]
    exact ⟨⟨hpast, hout⟩, hend⟩

/-- If a step's calls are right exactly on certain inputs, so are those of a run. -/
theorem Execution.along_iff_meets {G : σ → Bool} {step : σ → ι → σ × List κ} {C : σ → ι → Prop}
    (hstep : ∀ s i table, Along after P table (step s i).2 ↔ C s i) {s u : σ} {is : List ι}
    {os : List κ} (h : Execution (Guarded G step) s is os u) :
    Along after P table os ↔ Meets C step s is := by
  obtain ⟨rfl, rfl⟩ := Prod.mk.inj h.eq_visitAll
  clear h
  induction is generalizing s table with
  | nil => exact Iff.rfl
  | cons i is ih => exact along_append.trans (and_congr (hstep s i table) ih)

/-- What each step of a run is seen to do from the state and the input it starts from. -/
def views {κ' : Type*} (view : σ → ι → List κ') (step : σ → ι → σ × List ο) : σ → List ι → List κ'
  | _, [] => []
  | s, i :: is => view s i ++ views view step (step s i).1 is

/-- If a step's calls are right exactly if the view of it is, so are those of a run. -/
theorem Execution.along_iff_views {τ' κ' : Type*} {after' : τ' → κ' → τ'} {P' : τ' → κ' → Prop}
    {table' : τ'} {G : σ → Bool} {step : σ → ι → σ × List κ} {view : σ → ι → List κ'}
    {I : σ → τ → τ' → Prop}
    (hstep : ∀ s i table table', I s table table' →
      (Along after P table (step s i).2 ↔ Along after' P' table' (view s i)) ∧
        I (step s i).1 ((step s i).2.foldl after table) ((view s i).foldl after' table'))
    {s u : σ} {is : List ι} {os : List κ} (h : Execution (Guarded G step) s is os u)
    (hs : I s table table') :
    Along after P table os ↔ Along after' P' table' (views view step s is) := by
  obtain ⟨rfl, rfl⟩ := Prod.mk.inj h.eq_visitAll
  clear h
  induction is generalizing s table table' with
  | nil => exact Iff.rfl
  | cons i is ih =>
    obtain ⟨hiff, hnext⟩ := hstep s i table table' hs
    exact along_append.trans ((and_congr hiff (ih hnext)).trans along_append.symm)

/-- A property of the calls that is one of the tables they meet. -/
theorem forall_iff_along {A : κ → Prop} {calls : List κ}
    (h : Along after (fun table call => A call ↔ P table call) table calls) :
    (∀ call ∈ calls, A call) ↔ Along after P table calls := by
  induction calls generalizing table with
  | nil => simp [Along]
  | cons call calls ih => exact List.forall_mem_cons.trans (and_congr h.1 (ih h.2))

end Histories

/-! ### What is due -/

section Due

variable {τ κ γ : Type*} {after : τ → κ → τ} {owed : τ → κ → List γ} {table : τ}

/-- What the calls of a history owe, each at the table the earlier calls left. -/
def due (after : τ → κ → τ) (owed : τ → κ → List γ) : τ → List κ → List γ
  | _, [] => []
  | table, call :: calls => owed table call ++ due after owed (after table call) calls

theorem due_append (a b : List κ) :
    due after owed table (a ++ b) =
      due after owed table a ++ due after owed (a.foldl after table) b := by
  induction a generalizing table with
  | nil => rfl
  | cons call a ih => simp [due, ih]

/-- Calls that owe nothing and leave the table alone. -/
theorem due_eq_nil {calls : List κ}
    (h : ∀ call ∈ calls, after table call = table ∧ owed table call = []) :
    calls.foldl after table = table ∧ due after owed table calls = [] := by
  induction calls with
  | nil => exact ⟨rfl, rfl⟩
  | cons call calls ih =>
    obtain ⟨hsame, hnone⟩ := h call List.mem_cons_self
    obtain ⟨hfold, hdue⟩ := ih fun call' hc => h call' (List.mem_cons_of_mem call hc)
    rw [List.foldl_cons, due, hsame, hnone, hfold, hdue]
    exact ⟨rfl, rfl⟩

/-- If the outputs of each step show what is due there, at the table that shows the state, so do
the outputs of a run. -/
theorem Execution.delivers {R : σ → ι → List κ → σ → Prop} (shows : σ → τ → Prop)
    (seen : List κ → List γ) (after : τ → κ → τ) (owed : τ → κ → List γ) (C : List κ → Prop)
    (hseen : ∀ a b, seen (a ++ b) = seen a ++ seen b) (hC : ∀ a b, C (a ++ b) → C a)
    (hstep : ∀ s past i out u, shows s (past.foldl after table) → C (past ++ out) → R s i out u →
      shows u (out.foldl after (past.foldl after table)) ∧
        seen out = due after owed (past.foldl after table) out)
    {s u : σ} {is : List ι} {os : List κ} (h : Execution R s is os u) (hs : shows s table)
    (hos : C os) : shows u (os.foldl after table) ∧ seen os = due after owed table os := by
  induction h with
  | refl =>
    have hnil : seen [] = [] := by simpa using hseen [] []
    exact ⟨hs, hnil⟩
  | @tail u v is i os out _ hrest ih =>
    obtain ⟨hview, hpast⟩ := ih (hC os out hos)
    obtain ⟨hnext, hout⟩ := hstep u os i out v hview hos hrest
    rw [hseen, due_append, List.foldl_append, ← hpast, ← hout]
    exact ⟨hnext, rfl⟩

end Due

end ExecutionTraces
