import Mathlib.Logic.Function.Basic
import TunnelPublishers.CamService

/-!
# The devices behind the descriptors

The table of open descriptors follows from the calls: a camera with the length
of its buffer and whether the buffer is queued, a timer, or something else.
-/
namespace CamDevices

open ExecutionTraces CallOutcomes CamService

inductive Node where
  | camera (length : UInt32) (queued : Bool)
  | timer
  | other
  deriving DecidableEq, Repr

abbrev Table := ℤ → Option Node

/-- The descriptors a program inherits. -/
def inheriting (inherited : List ℤ) : Table :=
  fun fd => if fd ∈ inherited then some .other else none

section Effects

variable (t : Table)

/-- A new descriptor, unless the call failed. -/
def opened (result : ℤ) (node : Node) : Table :=
  if result = -1 then t else Function.update t result (some node)

/-- Ioctls change cameras only: the length of the buffer and whether it is queued. -/
def onCamera (fd : ℤ) (f : UInt32 × Bool → UInt32 × Bool) : Table :=
  match t fd with
  | some (.camera length queued) =>
    Function.update t fd (some (.camera (f (length, queued)).1 (f (length, queued)).2))
  | _ => t

def after : Event → Table
  | ⟨_, .open _ result⟩ => opened t result (.camera 0 false)
  | ⟨_, .timerfdCreate result⟩ => opened t result .timer
  | ⟨_, .openSocket result⟩ => opened t result .other
  | ⟨_, .close _ fd⟩ => Function.update t fd none
  | ⟨_, .queryBuffer fd (some length)⟩ => onCamera t fd fun c => (length, c.2)
  | ⟨_, .queueBuffer fd (some _)⟩ => onCamera t fd fun c => (c.1, true)
  | ⟨_, .dequeueBuffer fd (some _)⟩ => onCamera t fd fun c => (c.1, false)
  | _ => t

end Effects

section Answers

variable (t : Table)

def IsCamera (fd : ℤ) : Prop :=
  match t fd with
  | some (.camera _ _) => True
  | _ => False

instance (fd : ℤ) : Decidable (IsCamera t fd) :=
  match h : t fd with
  | some (.camera _ _) => isTrue (by simp [IsCamera, h])
  | some .timer => isFalse (by simp [IsCamera, h])
  | some .other => isFalse (by simp [IsCamera, h])
  | none => isFalse (by simp [IsCamera, h])

/-- A call gives -1 or a descriptor that is not open. -/
def Unused (result : ℤ) : Prop := result = -1 ∨ 0 ≤ result ∧ t result = none

/-- The descriptor is a camera, and what its buffer holds fits. -/
def Fits (fd : ℤ) (bytesused : UInt32) : Prop :=
  match t fd with
  | some (.camera length _) => bytesused ≤ length
  | _ => False

instance (result : ℤ) : Decidable (Unused t result) :=
  inferInstanceAs (Decidable (result = -1 ∨ 0 ≤ result ∧ t result = none))

instance (fd : ℤ) (bytesused : UInt32) : Decidable (Fits t fd bytesused) :=
  match h : t fd with
  | some (.camera length _) => decidable_of_iff (bytesused ≤ length) (by simp [Fits, h])
  | some .timer => isFalse (by simp [Fits, h])
  | some .other => isFalse (by simp [Fits, h])
  | none => isFalse (by simp [Fits, h])

end Answers

/-- The result of a call that opens a descriptor. -/
def granted : Call → Option ℤ
  | .open _ result => some result
  | .timerfdCreate result => some result
  | .openSocket result => some result
  | _ => none

/-- What a buffer that changes hands holds. -/
def exchanged : Call → Option (ℤ × UInt32)
  | .queueBuffer fd bytesused => bytesused.map fun bytes => (fd, bytes)
  | .dequeueBuffer fd bytesused => bytesused.map fun bytes => (fd, bytes)
  | _ => none

/-- What the kernel may answer. -/
def Possible (t : Table) (e : Event) : Prop :=
  (∀ result ∈ granted e.call, Unused t result) ∧ ∀ x ∈ exchanged e.call, Fits t x.1 x.2

/-- The kernel gives the lowest descriptor that is not open. -/
def LowestFree (t : Table) (e : Event) : Prop :=
  ∀ result ∈ granted e.call, Unused t result ∧ ∀ fd < result.toNat, t fd ≠ none

instance (t : Table) : DecidablePred (Possible t) := fun e =>
  inferInstanceAs (Decidable ((∀ result ∈ granted e.call, Unused t result) ∧
    ∀ x ∈ exchanged e.call, Fits t x.1 x.2))

instance (t : Table) : DecidablePred (LowestFree t) := fun e =>
  inferInstanceAs (Decidable (∀ result ∈ granted e.call,
    Unused t result ∧ ∀ fd < result.toNat, t fd ≠ none))

section Lemmas

variable {t : Table} {fd x : ℤ}

/-- A call opens, closes or changes one descriptor, or none. -/
theorem after_cases (t : Table) (e : Event) :
    after t e = t ∨ (∃ result ∈ granted e.call, ∃ node, after t e = opened t result node) ∨
      (∃ field fd, e.call = .close field fd ∧ after t e = Function.update t fd none) ∨
      ∃ fd f, after t e = onCamera t fd f := by
  obtain ⟨opts, call⟩ := e
  cases call with
  | «open» path result => exact .inr (.inl ⟨result, rfl, .camera 0 false, rfl⟩)
  | timerfdCreate result => exact .inr (.inl ⟨result, rfl, .timer, rfl⟩)
  | openSocket result => exact .inr (.inl ⟨result, rfl, .other, rfl⟩)
  | close field fd => exact .inr (.inr (.inl ⟨field, fd, rfl, rfl⟩))
  | queryBuffer fd length =>
    cases length with
    | none => exact .inl rfl
    | some length => exact .inr (.inr (.inr ⟨fd, fun c => (length, c.2), rfl⟩))
  | queueBuffer fd bytesused =>
    cases bytesused with
    | none => exact .inl rfl
    | some _ => exact .inr (.inr (.inr ⟨fd, fun c => (c.1, true), rfl⟩))
  | dequeueBuffer fd bytesused =>
    cases bytesused with
    | none => exact .inl rfl
    | some _ => exact .inr (.inr (.inr ⟨fd, fun c => (c.1, false), rfl⟩))
  | _ => exact .inl rfl

theorem isCamera_iff : IsCamera t fd ↔ ∃ length queued, t fd = some (.camera length queued) := by
  unfold IsCamera
  split <;> simp_all

theorem onCamera_apply (f : UInt32 × Bool → UInt32 × Bool) : onCamera t x f fd =
    if fd = x then (t x).map fun
      | .camera length queued => .camera (f (length, queued)).1 (f (length, queued)).2
      | node => node
    else t fd := by
  unfold onCamera
  by_cases hfd : fd = x
  · subst hfd
    cases ht : t fd with
    | none => simp [ht]
    | some node => cases node <;> simp [ht]
  · rw [if_neg hfd]
    cases ht : t x with
    | none => rfl
    | some node => cases node <;> simp [Function.update_of_ne hfd]

end Lemmas

end CamDevices
