import TunnelPublishers.ExecutionTraces

/-!
# Inputs of which a part stays hidden

A machine may be handed more than it is meant to depend on. If the hidden part
never reaches the state, then what an observer sees of a whole run depends on it
exactly when what is seen of some step, or of the end, does.
-/
namespace HiddenInputs

open ExecutionTraces

variable {σ ι κ ο α β : Type*}

/-- One successor, the same for all inputs that agree in the visible part. -/
structure Visible (R : σ → ι → List ο → σ → Prop) (input : ι → κ) : Prop where
  unique : ∀ {s i os ps u v}, R s i os u → R s i ps v → os = ps ∧ u = v
  carried : ∀ {s i j os u}, R s i os u → input j = input i → ∃ ps, R s j ps u

/-- A step that looks the same for all inputs with its visible part. -/
def Unaffected (R : σ → ι → List ο → σ → Prop) (input : ι → κ) (obs : ο → List β) (s : σ) (i : ι)
    (os : List ο) (u : σ) : Prop :=
  R s i os u ∧ ∀ j ps v, input j = input i → R s j ps v → ps.flatMap obs = os.flatMap obs

/-- Any two runs on these inputs, up to the hidden part, look the same to the end. -/
def Independent (R : σ → ι → List ο → σ → Prop) (input : ι → κ) (obs : ο → List β)
    (tail : σ → α → List ο) (s : σ) (is : List ι) : Prop :=
  ∀ js js' os os' u u' a a', js.map input = is.map input → js'.map input = is.map input →
    Execution R s js os u → Execution R s js' os' u' →
    (os ++ tail u a).flatMap obs = (os' ++ tail u' a').flatMap obs

section

variable {R : σ → ι → List ο → σ → Prop} {input : ι → κ} {obs : ο → List β} {s u v : σ}
  {is js : List ι} {os ps : List ο}

theorem map_snoc {i : ι} (h : js.map input = (is ++ [i]).map input) :
    ∃ js' j, js = js' ++ [j] ∧ js'.map input = is.map input ∧ input j = input i := by
  rcases List.eq_nil_or_concat js with rfl | ⟨js', j, rfl⟩
  · simp at h
  · rw [List.concat_eq_append, List.map_append, List.map_append] at h
    obtain ⟨hmap, hlast⟩ := List.append_inj' h rfl
    exact ⟨js', j, List.concat_eq_append, hmap, by simpa using hlast⟩

/-- Inputs with the same visible parts lead to the same state. -/
theorem Visible.same_state (hR : Visible R input) (h : Execution R s is os u)
    (k : Execution R s js ps v) (hsame : js.map input = is.map input) : v = u := by
  induction h generalizing js ps v with
  | refl =>
    obtain rfl : js = [] := by simpa using hsame
    generalize hjs : ([] : List ι) = js at k
    cases k with
    | refl => rfl
    | tail => simp at hjs
  | tail _ hstep ih =>
    obtain ⟨js', j, rfl, hmap, hj⟩ := map_snoc hsame
    obtain ⟨v', past, out, rfl, hrun, hlast⟩ := k.last
    obtain rfl := ih hrun hmap
    obtain ⟨out', hstep'⟩ := hR.carried hstep hj
    exact (hR.unique hlast hstep').2

/-- Steps that are not affected make a run that is not. -/
theorem Visible.unaffected_run (hR : Visible R input)
    (h : Execution (Unaffected R input obs) s is os u) (k : Execution R s js ps v)
    (hsame : js.map input = is.map input) : ps.flatMap obs = os.flatMap obs := by
  induction h generalizing js ps v with
  | refl =>
    obtain rfl : js = [] := by simpa using hsame
    generalize hjs : ([] : List ι) = js at k
    cases k with
    | refl => rfl
    | tail => simp at hjs
  | tail hrun hstep ih =>
    obtain ⟨js', j, rfl, hmap, hj⟩ := map_snoc hsame
    obtain ⟨v', past, out, rfl, hpast, hlast⟩ := k.last
    have hplain := hrun.mono fun _ _ _ _ hs => hs.1
    obtain rfl := hR.same_state hplain hpast hmap
    rw [List.flatMap_append, List.flatMap_append, ih hpast hmap, hstep.2 j out v hj hlast]

/-- A run that is not affected has no step that is. -/
theorem Visible.run_unaffected (hR : Visible R input) (h : Execution R s is os u)
    (hsame : ∀ js ps v, js.map input = is.map input → Execution R s js ps v →
      ps.flatMap obs = os.flatMap obs) : Execution (Unaffected R input obs) s is os u := by
  induction h with
  | refl => exact .refl _
  | @tail w v is i past out hrun hstep ih =>
    refine .tail (ih fun js ps v' hmap k => ?_) ⟨hstep, fun j ps v' hj k => ?_⟩
    · obtain rfl := hR.same_state hrun k hmap
      have hwhole := hsame (js ++ [i]) (ps ++ out) v (by simp [hmap]) (.tail k hstep)
      rw [List.flatMap_append, List.flatMap_append] at hwhole
      exact List.append_cancel_right hwhole
    · have hwhole := hsame (is ++ [j]) (past ++ ps) v' (by simp [hj]) (.tail hrun k)
      rw [List.flatMap_append, List.flatMap_append] at hwhole
      exact List.append_cancel_left hwhole

/-- Two runs look the same exactly if no step is affected, nor the end. -/
theorem Visible.independent_iff (hR : Visible R input) {tail : σ → α → List ο} (a : α)
    (h : Execution R s is os u) :
    Independent R input obs tail s is ↔ Execution (Unaffected R input obs) s is os u ∧
      ∀ b, (tail u b).flatMap obs = (tail u a).flatMap obs := by
  constructor
  · intro hind
    constructor
    · refine hR.run_unaffected h fun js ps v hmap k => ?_
      obtain rfl := hR.same_state h k hmap
      have hwhole := hind js is ps os v v a a hmap rfl k h
      rw [List.flatMap_append, List.flatMap_append] at hwhole
      exact List.append_cancel_right hwhole
    · intro b
      have hwhole := hind is is os os u u b a rfl rfl h h
      rw [List.flatMap_append, List.flatMap_append] at hwhole
      exact List.append_cancel_left hwhole
  · rintro ⟨hrun, htail⟩ js js' ps ps' v v' b b' hmap hmap' k k'
    obtain rfl := hR.same_state h k hmap
    obtain rfl := hR.same_state h k' hmap'
    rw [List.flatMap_append, List.flatMap_append, hR.unaffected_run hrun k hmap,
      hR.unaffected_run hrun k' hmap', htail b, htail b']

/-- A run whose inputs meet a condition. -/
theorem execution_and_iff {Q : ι → Prop} :
    Execution (fun s i os u => R s i os u ∧ Q i) s is os u ↔
      Execution R s is os u ∧ ∀ i ∈ is, Q i := by
  constructor
  · intro h
    induction h with
    | refl => exact ⟨.refl _, by simp⟩
    | tail _ hstep ih =>
      refine ⟨.tail ih.1 hstep.1, fun i hi => ?_⟩
      rcases List.mem_append.mp hi with hi | hi
      · exact ih.2 i hi
      · exact List.mem_singleton.mp hi ▸ hstep.2
  · rintro ⟨h, hQ⟩
    induction h with
    | refl => exact .refl _
    | tail _ hstep ih =>
      exact .tail (ih fun i hi => hQ i (by simp [hi])) ⟨hstep, hQ _ (by simp)⟩

/-- Steps may be compared where an invariant holds. -/
theorem unaffected_iff {I : σ → Prop} {Q : σ → ι → Prop}
    (hI : ∀ s i os u, I s → R s i os u → I u)
    (hQ : ∀ s i os u, I s → R s i os u → (Unaffected R input obs s i os u ↔ Q s i)) (hs : I s) :
    Execution (Unaffected R input obs) s is os u ↔
      Execution (fun s i os u => R s i os u ∧ Q s i) s is os u := by
  constructor
  · intro h
    have hQ' : Execution (fun s i os u => R s i os u ∧ Q s i) (id s) (is.map id) os (id u) :=
      h.simulates (I := I) id
      (fun s i os u hs hstep => hI s i os u hs hstep.1)
      (fun s i os u hs hstep => ⟨hstep.1, (hQ s i os u hs hstep.1).mp hstep⟩) hs
    simpa using hQ'
  · intro h
    have hU : Execution (Unaffected R input obs) (id s) (is.map id) os (id u) :=
      h.simulates (I := I) id
      (fun s i os u hs hstep => hI s i os u hs hstep.1)
      (fun s i os u hs hstep => (hQ s i os u hs hstep.1).mpr hstep.2) hs
    simpa using hU

/-- With all inputs visible, only the end can differ. -/
theorem guarded_independent_iff {G : σ → Bool} {step : σ → ι → σ × List ο} {tail : σ → α → List ο}
    (a : α) (h : Execution (Guarded G step) s is os u) :
    Independent (Guarded G step) id obs tail s is ↔
      ∀ b, (tail u b).flatMap obs = (tail u a).flatMap obs := by
  have hvisible : Visible (Guarded G step) id := by
    refine ⟨fun h k => ?_, fun {_ i j os _} h heq => ?_⟩
    · have hsame := h.2.symm.trans k.2
      exact ⟨congrArg Prod.snd hsame, congrArg Prod.fst hsame⟩
    · obtain rfl : j = i := heq
      exact ⟨os, h⟩
  rw [hvisible.independent_iff a h, and_iff_right]
  refine h.mono fun s i os u hstep => ⟨hstep, fun j ps v heq k => ?_⟩
  obtain rfl : j = i := heq
  rw [(hvisible.unique k hstep).1]

end

end HiddenInputs
