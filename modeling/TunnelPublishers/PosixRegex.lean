import Mathlib.Data.List.MinMax
import Mathlib.Data.List.TakeWhile
import Mathlib.Data.UInt

/-!
# POSIX extended regular expressions

Compilation and leftmost-longest matching in the C locale, for expressions without
alternation, intervals and complements, where a repetition follows a one-character
expression. Every other pattern is refused.
-/
namespace PosixRegex

/-- A member of a bracket expression. -/
inductive Member where
  | single (b : UInt8)
  | range (lo hi : UInt8)
  deriving DecidableEq

inductive Regex where
  | empty
  | bol
  | eol
  | one (set : List Member)
  | repeated (least : ℕ) (set : List Member)
  | seq (r t : Regex)
  | group (n : ℕ) (r : Regex)
  deriving DecidableEq

/-! ### Compilation -/

/-- Members are listed last first, and so are the pieces below. -/
inductive Mode where
  | outside
  | escaped
  /-- At the first place a closing bracket is a member. -/
  | bracket (first : Bool) (members : List Member)
  | hyphen (members : List Member)

/-- The groups still open come with their numbers and the pieces before them. -/
structure Compiling where
  mode : Mode
  opened : List (ℕ × List Regex)
  pieces : List Regex
  groups : ℕ

def sequence (pieces : List Regex) : Regex := pieces.foldl (fun r piece => .seq piece r) .empty

namespace Compiling

def push (s : Compiling) (piece : Regex) : Compiling :=
  { s with mode := .outside, pieces := piece :: s.pieces }

def repeatLast (s : Compiling) (least : ℕ) : Option Compiling :=
  match s.pieces with
  | .one set :: before => some { s with pieces := .repeated least set :: before }
  | _ => none

def close (s : Compiling) : Option Compiling :=
  match s.opened with
  | [] => none
  | (n, before) :: rest =>
    some { s with opened := rest, pieces := .group n (sequence s.pieces) :: before }

def outside (s : Compiling) (c : UInt8) : Option Compiling :=
  match Char.ofNat c.toNat with
  | '^' => some (s.push .bol)
  | '$' => some (s.push .eol)
  | '.' => some (s.push (.one [.range 1 255]))
  | '[' => some { s with mode := .bracket true [] }
  | '\\' => some { s with mode := .escaped }
  | '(' =>
    some { s with
      opened := (s.groups + 1, s.pieces) :: s.opened, pieces := [], groups := s.groups + 1 }
  | ')' => s.close
  | '*' => s.repeatLast 0
  | '+' => s.repeatLast 1
  | '|' | '?' | '\x7b' => none
  | _ => some (s.push (.one [.single c]))

def escaped (s : Compiling) (c : UInt8) : Option Compiling :=
  if Char.ofNat c.toNat ∈ ['^', '.', '[', '$', '(', ')', '|', '*', '+', '?', '\x7b', '\\'] then
    some (s.push (.one [.single c]))
  else none

/-- In brackets only the closing bracket and the hyphen are special, a backslash is not.
Complements and classes are refused. -/
def bracket (s : Compiling) (first : Bool) (members : List Member) (c : UInt8) :
    Option Compiling :=
  let member := some { s with mode := .bracket false (.single c :: members) }
  match Char.ofNat c.toNat with
  | ']' => if first then member else some (s.push (.one members.reverse))
  | '-' => if first then member else some { s with mode := .hyphen members }
  | '^' => if first then none else member
  | '[' => none
  | _ => member

/-- A hyphen is a member before the closing bracket, and else joins the ends of a range. -/
def hyphen (s : Compiling) (members : List Member) (c : UInt8) : Option Compiling :=
  match Char.ofNat c.toNat, members with
  | ']', _ => some (s.push (.one (.single 0x2d :: members).reverse))
  | '[', _ => none
  | _, .single lo :: before =>
    if lo ≤ c then some { s with mode := .bracket false (.range lo c :: before) } else none
  | _, _ => none

def step (s : Compiling) (c : UInt8) : Option Compiling :=
  match s.mode with
  | .outside => s.outside c
  | .escaped => s.escaped c
  | .bracket first members => s.bracket first members c
  | .hyphen members => s.hyphen members c

end Compiling

def regcomp (pattern : List UInt8) : Option Regex :=
  match pattern.foldlM Compiling.step ⟨.outside, [], [], 0⟩ with
  | some ⟨.outside, [], pieces, _⟩ => some (sequence pieces)
  | _ => none

/-! ### Matching -/

/-- The other case of a letter. -/
def counterpart (b : UInt8) : UInt8 :=
  if 65 ≤ b ∧ b ≤ 90 then b + 32 else if 97 ≤ b ∧ b ≤ 122 then b - 32 else b

def Member.has (b : UInt8) : Member → Bool
  | .single c => c == b
  | .range lo hi => lo ≤ b && b ≤ hi

def accepts (icase : Bool) (set : List Member) (b : UInt8) : Bool :=
  set.any (Member.has b) || icase && set.any (Member.has (counterpart b))

structure Regmatch where
  so : ℕ
  eo : ℕ
  deriving DecidableEq

def Regmatch.slice (m : Regmatch) (s : List UInt8) : List UInt8 := (s.drop m.so).take (m.eo - m.so)

/-- The ends of the matches that start at a place, longer ones of each piece first, with the
groups in them. -/
def ends (icase : Bool) (s : List UInt8) : Regex → ℕ → List (ℕ × List (ℕ × Regmatch))
  | .empty, i => [(i, [])]
  | .bol, i => if i = 0 then [(i, [])] else []
  | .eol, i => if i = s.length then [(i, [])] else []
  | .one set, i =>
    match s.drop i with
    | [] => []
    | b :: _ => if accepts icase set b then [(i + 1, [])] else []
  | .repeated least set, i =>
    let run := ((s.drop i).takeWhile (accepts icase set)).length
    ((List.range (run + 1)).reverse.filter (least ≤ ·)).map fun n => (i + n, [])
  | .seq r t, i =>
    (ends icase s r i).flatMap fun p => (ends icase s t p.1).map fun q => (q.1, p.2 ++ q.2)
  | .group n r, i => (ends icase s r i).map fun p => (p.1, (n, ⟨i, p.1⟩) :: p.2)

/-- A match, with the groups by their numbers. -/
structure Found where
  whole : Regmatch
  groups : List (ℕ × Regmatch)

def Found.span (m : Found) : ℕ → Option Regmatch
  | 0 => some m.whole
  | n => m.groups.lookup n

/-- The leftmost match, and the longest there. -/
def regexec (icase : Bool) (r : Regex) (s : List UInt8) : Option Found :=
  (List.range (s.length + 1)).findSome? fun i =>
    ((ends icase s r i).argmax Prod.fst).map fun p => ⟨⟨i, p.1⟩, p.2⟩

/-! ### What the places of a match say -/

section Ends

variable {icase : Bool} {s : List UInt8} {i j : ℕ} {gs : List (ℕ × Regmatch)}

@[simp] theorem mem_ends_empty : (j, gs) ∈ ends icase s .empty i ↔ j = i ∧ gs = [] := by
  simp [ends]

@[simp] theorem mem_ends_bol : (j, gs) ∈ ends icase s .bol i ↔ i = 0 ∧ j = i ∧ gs = [] := by
  by_cases hi : i = 0 <;> simp [ends, hi]

@[simp] theorem mem_ends_eol :
    (j, gs) ∈ ends icase s .eol i ↔ i = s.length ∧ j = i ∧ gs = [] := by
  by_cases hi : i = s.length <;> simp [ends, hi]

@[simp] theorem mem_ends_seq {r t : Regex} : (j, gs) ∈ ends icase s (.seq r t) i ↔
    ∃ k hs, (k, hs) ∈ ends icase s r i ∧ ∃ ts, (j, ts) ∈ ends icase s t k ∧ gs = hs ++ ts := by
  simp only [ends, List.mem_flatMap, List.mem_map, Prod.exists, Prod.mk.injEq]
  constructor
  · rintro ⟨k, hs, hr, _, ts, ht, rfl, rfl⟩
    exact ⟨k, hs, hr, ts, ht, rfl⟩
  · rintro ⟨k, hs, hr, ts, ht, rfl⟩
    exact ⟨k, hs, hr, j, ts, ht, rfl, rfl⟩

@[simp] theorem mem_ends_group {r : Regex} {n : ℕ} : (j, gs) ∈ ends icase s (.group n r) i ↔
    ∃ hs, (j, hs) ∈ ends icase s r i ∧ gs = (n, ⟨i, j⟩) :: hs := by
  simp only [ends, List.mem_map, Prod.exists, Prod.mk.injEq]
  constructor
  · rintro ⟨_, hs, hr, rfl, rfl⟩
    exact ⟨hs, hr, rfl⟩
  · rintro ⟨hs, hr, rfl⟩
    exact ⟨j, hs, hr, rfl, rfl⟩

@[simp] theorem mem_ends_one {set : List Member} : (j, gs) ∈ ends icase s (.one set) i ↔
    ∃ b, [b] <+: s.drop i ∧ accepts icase set b ∧ j = i + 1 ∧ gs = [] := by
  cases hrest : s.drop i with
  | nil => simp [ends, hrest]
  | cons b rest => by_cases hb : accepts icase set b <;> simp [ends, hrest, hb]

theorem length_le_takeWhile {α : Type} {f : α → Bool} {w l : List α} (hw : w <+: l)
    (hall : ∀ b ∈ w, f b) : w.length ≤ (l.takeWhile f).length := by
  obtain ⟨rest, rfl⟩ := hw
  rw [List.takeWhile_append_of_pos hall, List.length_append]
  omega

@[simp] theorem mem_ends_repeated {least : ℕ} {set : List Member} :
    (j, gs) ∈ ends icase s (.repeated least set) i ↔
      ∃ w, w <+: s.drop i ∧ (∀ b ∈ w, accepts icase set b) ∧ least ≤ w.length ∧
        j = i + w.length ∧ gs = [] := by
  have hmem : (j, gs) ∈ ends icase s (.repeated least set) i ↔
      ∃ n ≤ ((s.drop i).takeWhile (accepts icase set)).length,
        least ≤ n ∧ j = i + n ∧ gs = [] := by
    simp only [ends, List.mem_map, List.mem_filter, List.mem_reverse, List.mem_range,
      Nat.lt_succ_iff, decide_eq_true_eq, Prod.mk.injEq, and_assoc]
    constructor
    · rintro ⟨n, hn, hleast, rfl, rfl⟩
      exact ⟨n, hn, hleast, rfl, rfl⟩
    · rintro ⟨n, hn, hleast, rfl, rfl⟩
      exact ⟨n, hn, hleast, rfl, rfl⟩
  rw [hmem]
  constructor
  · rintro ⟨n, hn, hleast, rfl, rfl⟩
    have hw := List.take_prefix n ((s.drop i).takeWhile (accepts icase set))
    have hlen := List.length_take_of_le hn
    refine ⟨_, hw.trans (List.takeWhile_prefix _), ?_, hlen.symm ▸ hleast, by rw [hlen], rfl⟩
    intro b hb
    exact List.mem_takeWhile_imp (hw.subset hb)
  · rintro ⟨w, hw, hall, hleast, rfl, rfl⟩
    exact ⟨w.length, length_le_takeWhile hw hall, hleast, rfl, rfl⟩

/-- A group that is a run of at least one byte. -/
theorem mem_ends_run {n : ℕ} {set : List Member} :
    (j, gs) ∈ ends icase s (.group n (.seq (.repeated 1 set) .empty)) i ↔
      ∃ w, w <+: s.drop i ∧ w ≠ [] ∧ (∀ b ∈ w, accepts icase set b) ∧
        j = i + w.length ∧ gs = [(n, ⟨i, j⟩)] := by
  simp only [mem_ends_group, mem_ends_seq, mem_ends_empty]
  constructor
  · rintro ⟨_, ⟨k, hs, hrun, ts, ⟨rfl, rfl⟩, rfl⟩, rfl⟩
    obtain ⟨w, hw, hall, hlen, rfl, rfl⟩ := mem_ends_repeated.mp hrun
    exact ⟨w, hw, List.ne_nil_of_length_pos hlen, hall, rfl, rfl⟩
  · rintro ⟨w, hw, hne, hall, rfl, rfl⟩
    have hrun := mem_ends_repeated.mpr ⟨w, hw, hall, List.length_pos_of_ne_nil hne, rfl, rfl⟩
    exact ⟨[], ⟨_, [], hrun, [], ⟨rfl, rfl⟩, rfl⟩, rfl⟩

/-- What is matched one after the other is matched together. -/
theorem prefix_drop_append {v w : List UInt8} (hw : w <+: s.drop i) :
    v <+: s.drop (i + w.length) ↔ w ++ v <+: s.drop i := by
  obtain ⟨rest, hrest⟩ := hw
  have hdrop : s.drop (i + w.length) = rest := by
    rw [← List.drop_drop, ← hrest, List.drop_left]
  rw [hdrop, ← hrest, List.prefix_append_right_inj]

end Ends

theorem regexec_some {icase : Bool} {r : Regex} {s : List UInt8} {m : Found}
    (h : regexec icase r s = some m) :
    (m.whole.eo, m.groups) ∈ ends icase s r m.whole.so := by
  obtain ⟨i, -, hi⟩ := List.exists_of_findSome?_eq_some h
  obtain ⟨p, hp, rfl⟩ := Option.map_eq_some_iff.mp hi
  exact List.argmax_mem hp

theorem regexec_of_mem {icase : Bool} {r : Regex} {s : List UInt8} {i : ℕ}
    {p : ℕ × List (ℕ × Regmatch)} (hi : i ≤ s.length) (hp : p ∈ ends icase s r i) :
    ∃ m, regexec icase r s = some m := by
  rw [← Option.isSome_iff_exists, regexec, List.findSome?_isSome_iff]
  refine ⟨i, List.mem_range.mpr (Nat.lt_succ_of_le hi), ?_⟩
  rw [Option.isSome_map, Option.isSome_iff_ne_none]
  intro hnone
  rw [List.argmax_eq_none.mp hnone] at hp
  exact List.not_mem_nil hp

end PosixRegex
