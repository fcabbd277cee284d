import TunnelPublishers.ExecutionTraces
import TunnelPublishers.KernelTables

/-!
# How the runner watches its services

The loop of `main` over the launched pids, and the loop that kills what remains.
Between any two kernel calls a child may exit and SIGINT may arrive. An item
marked -1 is polled like any other, and -1 stands for any child. Sleeping and
log texts are left out.
-/
namespace RunnerMonitor

open ExecutionTraces KernelTables

inductive Control where
  /-- Before the test of `running` and `pid_count`. -/
  | head
  /-- Before the poll of an item. -/
  | poll (i : ℕ)
  /-- Before the kill of an item. -/
  | kill (i : ℕ)
  /-- Before waiting for an item that was killed. -/
  | wait (i : ℕ)
  | finished
  deriving DecidableEq, Repr

/-- `items` is the list `pids`; `alive` and `zombies` are the children that run and those that
have exited and are not reaped. -/
structure State where
  items : List ℤ
  pidCount : ℕ
  running : Bool
  control : Control
  alive : List ℤ
  zombies : List ℤ
  deriving DecidableEq, Repr

inductive Input where
  | exit (pid : ℤ)
  | interrupt
  /-- The program goes on, and its kernel call, if there is one, gives this. -/
  | advance (answer : ℤ)
  deriving DecidableEq, Repr

inductive Event where
  /-- A pass over the items begins. -/
  | pass
  | polled (i : ℕ) (pid result : ℤ)
  | killed (pid result : ℤ)
  | waited (pid result : ℤ)
  deriving DecidableEq, Repr

/-- The kernel calls of an event. -/
def Event.calls : Event → List ProcessCall
  | pass => []
  | polled _ pid result => [.waitpid pid true result]
  | killed pid result => [.kill pid result]
  | waited pid result => [.waitpid pid false result]

def calls (trace : List Event) : List ProcessCall := trace.flatMap Event.calls

/-! ### The kernel -/

/-- What `waitpid` with WNOHANG may give. -/
def Pollable (s : State) (pid answer : ℤ) : Prop :=
  if pid = -1 then
    answer ∈ s.zombies ∨ s.zombies = [] ∧ s.alive ≠ [] ∧ answer = 0 ∨
      s.zombies = [] ∧ s.alive = [] ∧ answer = -1
  else
    pid ∈ s.zombies ∧ answer = pid ∨ pid ∈ s.alive ∧ answer = 0 ∨
      pid ∉ s.zombies ∧ pid ∉ s.alive ∧ answer = -1

/-- What `waitpid` without options may give. -/
def Waitable (s : State) (pid answer : ℤ) : Prop := answer = -1 ∨ answer = pid ∧ pid ∈ s.zombies

theorem Pollable.any {s : State} {answer : ℤ} (h : Pollable s (-1) answer) :
    answer ∈ s.zombies ∨ s.zombies = [] ∧ s.alive ≠ [] ∧ answer = 0 ∨
      s.zombies = [] ∧ s.alive = [] ∧ answer = -1 := by
  rwa [Pollable, if_pos rfl] at h

theorem Pollable.own {s : State} {pid answer : ℤ} (h : Pollable s pid answer) (hne : pid ≠ -1) :
    pid ∈ s.zombies ∧ answer = pid ∨ pid ∈ s.alive ∧ answer = 0 ∨
      pid ∉ s.zombies ∧ pid ∉ s.alive ∧ answer = -1 := by
  rwa [Pollable, if_neg hne] at h

/-- What is given is a child that has exited, 0 or -1. -/
theorem Pollable.given {s : State} {pid answer : ℤ} (h : Pollable s pid answer) :
    answer ∈ s.zombies ∨ answer = 0 ∨ answer = -1 := by
  by_cases hmark : pid = -1
  · rw [hmark] at h
    rcases h.any with hzombie | ⟨-, -, hzero⟩ | ⟨-, -, hminus⟩
    · exact .inl hzombie
    · exact .inr (.inl hzero)
    · exact .inr (.inr hminus)
  · rcases h.own hmark with ⟨hzombie, rfl⟩ | ⟨-, hzero⟩ | ⟨-, -, hminus⟩
    · exact .inl hzombie
    · exact .inr (.inl hzero)
    · exact .inr (.inr hminus)

/-- A poll reaps the child of its own item, unless the item is marked. -/
theorem Pollable.reaped {s : State} {pid answer : ℤ} (h : Pollable s pid answer)
    (hpos : 0 < answer) : pid = -1 ∨ pid = answer := by
  by_cases hmark : pid = -1
  · exact .inl hmark
  · rcases h.own hmark with ⟨-, hself⟩ | ⟨-, hzero⟩ | ⟨-, -, hminus⟩
    · exact .inr hself.symm
    · omega
    · omega

instance (s : State) (pid answer : ℤ) : Decidable (Pollable s pid answer) :=
  inferInstanceAs (Decidable (if pid = -1 then _ else _))

instance (s : State) (pid answer : ℤ) : Decidable (Waitable s pid answer) :=
  inferInstanceAs (Decidable (answer = -1 ∨ answer = pid ∧ pid ∈ s.zombies))

/-- A child exits only while it runs, and answers are those the kernel may give. -/
def Possible (s : State) : Input → Prop
  | .exit pid => pid ∈ s.alive
  | .interrupt => True
  | .advance answer =>
    match s.control with
    | .poll i => ∀ pid ∈ s.items[i]?, Pollable s pid answer
    | .wait i => ∀ pid ∈ s.items[i]?, Waitable s pid answer
    | _ => True

instance (s : State) : DecidablePred (Possible s)
  | .exit pid => inferInstanceAs (Decidable (pid ∈ s.alive))
  | .interrupt => instDecidableTrue
  | .advance answer =>
    match h : s.control with
    | .poll i =>
      decidable_of_iff (∀ pid ∈ s.items[i]?, Pollable s pid answer) (by simp [Possible, h])
    | .wait i =>
      decidable_of_iff (∀ pid ∈ s.items[i]?, Waitable s pid answer) (by simp [Possible, h])
    | .head => isTrue (by simp [Possible, h])
    | .kill _ => isTrue (by simp [Possible, h])
    | .finished => isTrue (by simp [Possible, h])

def reap (s : State) (pid : ℤ) : State := { s with zombies := s.zombies.filter (· ≠ pid) }

/-! ### The program -/

/-- The body of the monitor loop. -/
def poll (s : State) (i : ℕ) (answer : ℤ) : State :=
  if answer = -1 ∨ answer > 0 then
    { reap s answer with items := s.items.set i (-1), control := .poll (i + 1) }
  else { s with pidCount := s.pidCount + 1, control := .poll (i + 1) }

/-- What the program does next, with the kernel's answer. -/
def advance (s : State) (answer : ℤ) : State × List Event :=
  match s.control with
  | .head =>
    if s.running = true ∧ s.pidCount ≠ 0 then
      ({ s with pidCount := 0, control := .poll 0 }, [.pass])
    else ({ s with control := .kill 0 }, [])
  | .poll i =>
    match s.items[i]? with
    | none => ({ s with control := .head }, [])
    | some pid => (poll s i answer, [.polled i pid answer])
  | .kill i =>
    match s.items[i]? with
    | none => ({ s with control := .finished }, [])
    | some pid =>
      if pid = -1 then ({ s with control := .kill (i + 1) }, [])
      else
        ({ s with control := if answer = -1 then .kill (i + 1) else .wait i },
          [.killed pid answer])
  | .wait i =>
    match s.items[i]? with
    | none => ({ s with control := .finished }, [])
    | some pid => ({ reap s answer with control := .kill (i + 1) }, [.waited pid answer])
  | .finished => (s, [])

def next (s : State) : Input → State × List Event
  | .exit pid =>
    ({ s with alive := s.alive.filter (· ≠ pid), zombies := pid :: s.zombies }, [])
  | .interrupt => ({ s with running := false }, [])
  | .advance answer => advance s answer

abbrev Step : State → Input → List Event → State → Prop := Allowed Possible next

/-- The head of the loop after the launches. -/
def start (pids : List ℤ) : State := ⟨pids, pids.length, true, .head, pids, []⟩

end RunnerMonitor
