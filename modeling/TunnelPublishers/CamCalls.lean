import TunnelPublishers.CamService

/-!
# The calls of the camera functions

Whatever a function is answered, its calls are of a few kinds. What holds of
every call of these kinds holds of all its calls.
-/
namespace CamCalls

open FiniteMaps FiniteMap TunnelFraming ExecutionTraces CallOutcomes CamService

variable {K : Event → Prop}

section Device

theorem closeAll_calls (hclose : ∀ opts field fd, K ⟨opts, .close field fd⟩) (opts : CamSetting) :
    ∀ e ∈ (closeAll opts).out, K e := by
  intro e he
  rw [closeAll] at he
  rcases List.mem_append.mp he with he | he
  · split at he
    · rw [List.mem_singleton.mp he]
      exact hclose _ _ _
    · cases he
  · split at he
    · rw [List.mem_singleton.mp he]
      exact hclose _ _ _
    · cases he

/-- Only the field of the timer changes. -/
theorem camInitTimer_calls (hclose : ∀ opts fd, K ⟨opts, .close .timer fd⟩)
    (hcreate : ∀ opts fd, K ⟨opts, .timerfdCreate fd⟩)
    (hsettime : ∀ opts fd nsec ok, K ⟨opts, .timerfdSettime fd nsec ok⟩) (opts : CamSetting)
    (a : Timer) :
    Within K (fun s => ∃ fd, s = { opts with timerfd := fd }) (camInitTimer opts a) := by
  rw [camInitTimer]
  apply Within.andThen
  · split
    · exact .call (hclose _ _) ⟨opts.timerfd, rfl⟩
    · exact .done ⟨opts.timerfd, rfl⟩
  rintro s ⟨fd, rfl⟩
  apply Within.andThen
  · exact .call (hcreate _ _) ⟨a.create, rfl⟩
  rintro s ⟨fd', rfl⟩
  dsimp only
  split
  · exact .call (hsettime _ _ _ _) ⟨fd', rfl⟩
  · refine ⟨fun e he => ?_, -1, rfl⟩
    rcases List.mem_pair.mp he with rfl | rfl
    · exact hsettime _ _ _ _
    · exact hclose _ _

theorem readTimer_calls (hread : ∀ opts fd n, K ⟨opts, .read fd n⟩) (opts : CamSetting)
    (read : Option UInt64) : Within K (fun s => s = opts) (readTimer opts read) := by
  rw [readTimer]
  split
  · exact .call (hread _ _ _) rfl
  · exact .done rfl

end Device

section Loop

variable {M : Type → Type → Type} [FiniteMap M]

omit [FiniteMap M] in
theorem with_calls {s : State M} {r : Outcome CamSetting Event}
    (h : Within K (fun _ => True) r) : Within K (fun _ => True) (s.with r) :=
  ⟨h.calls, trivial⟩

theorem queueNext_calls (hqueue : ∀ opts fd n, K ⟨opts, .queueBuffer fd n⟩) (s : State M)
    (queue : Option UInt32) : Within K (fun _ => True) (queueNext s queue) := by
  rw [queueNext]
  split
  · exact with_calls (Within.andThen (.call (hqueue _ _ _) trivial) fun _ _ => .done trivial)
  · exact .done trivial

theorem queueNext_ok (s : State M) (queue : Option UInt32) : (queueNext s queue).ok = true := by
  rw [queueNext]
  split <;> rfl

theorem stopTimer_calls (hclose : ∀ opts fd, K ⟨opts, .close .timer fd⟩) (s : State M) :
    Within K (fun _ => True) (stopTimer s) := by
  rw [stopTimer]
  split
  · exact .call (hclose _ _) trivial
  · exact .done trivial

theorem stopTimer_ok (s : State M) : (stopTimer s).ok = true := by
  rw [stopTimer]
  split <;> rfl

theorem channelSubscribe_calls (hclose : ∀ opts fd, K ⟨opts, .close .timer fd⟩)
    (hcreate : ∀ opts fd, K ⟨opts, .timerfdCreate fd⟩)
    (hsettime : ∀ opts fd nsec ok, K ⟨opts, .timerfdSettime fd nsec ok⟩)
    (hsent : ∀ opts msg, K ⟨opts, .sent msg⟩) (s : State M) (p : Pass) (i : Input) :
    Within K (fun _ => True) (channelSubscribe s p i) := by
  rw [channelSubscribe]
  apply Within.andThen
  · split
    · exact ⟨(camInitTimer_calls hclose hcreate hsettime s.opts p.timer).calls, trivial⟩
    · exact .done trivial
  · exact fun s _ => .call (hsent _ _) trivial

/-- One message to each client. -/
theorem announce_calls (hsent : ∀ opts msg, K ⟨opts, .sent msg⟩) (s : State M) :
    Within K (fun s' => s'.opts = s.opts) (announce s) := by
  refine ⟨fun e he => ?_, rfl⟩
  obtain ⟨client, -, rfl⟩ := List.mem_map.mp he
  exact hsent _ _

end Loop

end CamCalls
