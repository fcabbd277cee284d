import TunnelPublishers.ByteOrder

/-!
# The words of a shell command

How the shell takes a command apart into words, up to what depends on its
environment: expansions, patterns and a backslash at the very end are left to a
parameter. A command with operators in it is more than a list of words.
-/
namespace ShellWords

open ByteOrder

inductive Mode where
  | unquoted
  /-- After a backslash. -/
  | escaped
  | single
  | double
  /-- After a backslash in double quotes. -/
  | doubleEscaped
  | comment
  deriving DecidableEq, Repr

/-- The words read so far, and the one being read. -/
structure State where
  mode : Mode
  done : List (List UInt8)
  word : Option (List UInt8)
  deriving DecidableEq, Repr

inductive Next where
  | go (s : State)
  /-- Not a list of words. -/
  | refused
  /-- Left to the environment. -/
  | left
  deriving DecidableEq, Repr

def State.push (s : State) (mode : Mode) (bytes : List UInt8) : State :=
  { s with mode := mode, word := some (s.word.getD [] ++ bytes) }

/-- The bytes that may follow in the word. -/
def restOfWord (rest : List UInt8) : List UInt8 := rest.takeWhile (· ∉ text " \t\n|&;<>()")

/-- A bracket expression ends before the word does. -/
def bracketed (rest : List UInt8) : Bool :=
  let inside := restOfWord rest
  (if inside.head? ∈ [some 33, some 94] then inside.drop 2 else inside.drop 1).contains 93

/-- An unquoted byte that begins an expansion or a pattern. -/
def expands (word : Option (List UInt8)) (b : UInt8) (rest : List UInt8) : Bool :=
  b ∈ text "$`*?" || (b = 126 && word.isNone) || (b = 91 && bracketed rest)

/-- One byte, with what follows it. -/
def step (s : State) (b : UInt8) (rest : List UInt8) : Next :=
  match s.mode with
  | .unquoted =>
    if b ∈ text " \t" then .go ⟨.unquoted, s.done ++ s.word.toList, none⟩
    else if b ∈ text "\n|&;<>()" then .refused
    else if b ∈ text "#" ∧ s.word = none then .go { s with mode := .comment }
    else if b ∈ text "'" then .go (s.push .single [])
    else if b ∈ text "\"" then .go (s.push .double [])
    else if b ∈ text "\\" then .go { s with mode := .escaped }
    else if expands s.word b rest then .left
    else .go (s.push .unquoted [b])
  | .escaped =>
    if b ∈ text "\n" then .go { s with mode := .unquoted } else .go (s.push .unquoted [b])
  | .single => if b ∈ text "'" then .go { s with mode := .unquoted } else .go (s.push .single [b])
  | .double =>
    if b ∈ text "\"" then .go { s with mode := .unquoted }
    else if b ∈ text "$`" then .left
    else if b ∈ text "\\" then .go { s with mode := .doubleEscaped }
    else .go (s.push .double [b])
  | .doubleEscaped =>
    if b ∈ text "\n" then .go { s with mode := .double }
    else if b ∈ text "$`\"\\" then .go (s.push .double [b])
    else .go (s.push .double (text "\\" ++ [b]))
  | .comment => if b ∈ text "\n" then .refused else .go s

def finish (environment : Option (List (List UInt8))) (s : State) : Option (List (List UInt8)) :=
  match s.mode with
  | .unquoted | .comment => some (s.done ++ s.word.toList)
  | .escaped => environment
  | _ => none

/-- The words of the rest of a command, `environment` being what it comes to where that is left
open. -/
def words (environment : Option (List (List UInt8))) :
    State → List UInt8 → Option (List (List UInt8))
  | s, [] => finish environment s
  | s, b :: rest =>
    match step s b rest with
    | .go s => words environment s rest
    | .refused => none
    | .left => environment

/-- The words of a command. -/
def commandWords (environment : List UInt8 → Option (List (List UInt8))) (command : List UInt8) :
    Option (List (List UInt8)) :=
  words (environment command) ⟨.unquoted, [], none⟩ command

/-! ### Words that stand for themselves -/

/-- This byte of a word stands for itself. -/
def Literal (word : Option (List UInt8)) (b : UInt8) (rest : List UInt8) : Prop :=
  (b ∉ text " \t" ∧ b ∉ text "\n|&;<>()" ∧ b ∉ text "'" ∧ b ∉ text "\"" ∧ b ∉ text "\\") ∧
    (b ∈ text "#" → word ≠ none) ∧ expands word b rest = false

/-- The bytes that follow in a word all stand for themselves. -/
def Inert (word : Option (List UInt8)) : List UInt8 → Prop
  | [] => True
  | b :: rest => Literal word b rest ∧ Inert (some []) rest

instance (word : Option (List UInt8)) (b : UInt8) (rest : List UInt8) :
    Decidable (Literal word b rest) :=
  inferInstanceAs (Decidable (_ ∧ _))

instance Inert.decide : ∀ word bytes, Decidable (Inert word bytes)
  | _, [] => isTrue trivial
  | word, b :: rest =>
    have : Decidable (Inert (some []) rest) := Inert.decide (some []) rest
    inferInstanceAs (Decidable (Literal word b rest ∧ Inert (some []) rest))

def bytesIn (ws : List (List UInt8)) : ℕ := (ws.map List.length).sum

/-- The bytes a state holds, with a backslash that may yet count. -/
def State.size (s : State) : ℕ :=
  bytesIn s.done + (s.word.getD []).length + if s.mode = .doubleEscaped then 1 else 0

section Sizes

variable {s s' : State} {b : UInt8} {rest bytes : List UInt8} {ws : List (List UInt8)}

@[simp] theorem bytesIn_append (ws ws' : List (List UInt8)) :
    bytesIn (ws ++ ws') = bytesIn ws + bytesIn ws' := by
  simp [bytesIn]

@[simp] theorem bytesIn_toList (word : Option (List UInt8)) :
    bytesIn word.toList = (word.getD []).length := by
  cases word <;> simp [bytesIn]

theorem bytesIn_singleton (word : List UInt8) : bytesIn [word] = word.length := by simp [bytesIn]

/-- An unquoted byte that is not held stands for something else. -/
theorem step_unquoted (hmode : s.mode = .unquoted) (hstep : step s b rest = .go s') :
    Literal s.word b rest ∧ s' = s.push .unquoted [b] ∨ s'.size ≤ s.size := by
  simp only [step, hmode] at hstep
  split_ifs at hstep with hblank hbreak hcomment hsingle hdouble hescape hexpands
  · right
    obtain rfl := Next.go.inj hstep
    simp [State.size, hmode]
  · right
    obtain rfl := Next.go.inj hstep
    simp [State.size, hmode]
  · right
    obtain rfl := Next.go.inj hstep
    simp [State.size, State.push, hmode]
  · right
    obtain rfl := Next.go.inj hstep
    simp [State.size, State.push, hmode]
  · right
    obtain rfl := Next.go.inj hstep
    simp [State.size, hmode]
  · left
    refine ⟨⟨⟨hblank, hbreak, hsingle, hdouble, hescape⟩, ?_, ?_⟩, (Next.go.inj hstep).symm⟩
    · exact fun hb hnone => hcomment ⟨hb, hnone⟩
    · exact Bool.eq_false_of_not_eq_true hexpands

/-- A byte adds at most one byte. -/
theorem step_size (hstep : step s b rest = .go s') : s'.size ≤ s.size + 1 := by
  obtain ⟨mode, done, word⟩ := s
  cases mode with
  | unquoted =>
    rcases step_unquoted rfl hstep with ⟨-, rfl⟩ | hle
    · simp [State.size, State.push, Nat.add_assoc]
    · omega
  | escaped | single | double | doubleEscaped | comment =>
    simp only [step] at hstep
    split_ifs at hstep <;> obtain rfl := Next.go.inj hstep <;>
      simp [State.size, State.push, text] <;> omega

/-- Words hold no more bytes than the command. -/
theorem words_size (hwords : words none s bytes = some ws) :
    bytesIn ws ≤ s.size + bytes.length := by
  induction bytes generalizing s with
  | nil =>
    simp only [words, finish] at hwords
    split at hwords
    · obtain rfl := Option.some.inj hwords
      simp [State.size]
    · obtain rfl := Option.some.inj hwords
      simp [State.size]
    · cases hwords
    · cases hwords
  | cons b rest ih =>
    simp only [words] at hwords
    split at hwords
    · next s' hstep =>
      have hrest := ih hwords
      have hone := step_size hstep
      rw [List.length_cons]
      omega
    · cases hwords
    · cases hwords

/-- A word that comes out as it went in is inert. -/
theorem inert_of_words (hmode : s.mode = .unquoted)
    (hwords : words none s bytes = some (s.done ++ [s.word.getD [] ++ bytes])) :
    Inert s.word bytes := by
  induction bytes generalizing s with
  | nil => trivial
  | cons b rest ih =>
    simp only [words] at hwords
    split at hwords
    · next s' hstep =>
      rcases step_unquoted hmode hstep with ⟨hliteral, rfl⟩ | hle
      · refine ⟨hliteral, ?_⟩
        have hrest := @ih (s.push .unquoted [b]) rfl (by simpa [State.push] using hwords)
        cases rest with
        | nil => trivial
        | cons c rest => exact ⟨by simpa [Literal, expands, State.push] using hrest.1, hrest.2⟩
      · have hsize := words_size hwords
        rw [bytesIn_append, bytesIn_singleton, List.length_append, List.length_cons] at hsize
        have hs : s.size = bytesIn s.done + (s.word.getD []).length := by simp [State.size, hmode]
        omega
    · cases hwords
    · cases hwords

/-- An inert word comes out as it went in, in every environment. -/
theorem words_of_inert (environment : Option (List (List UInt8))) (hmode : s.mode = .unquoted)
    (hinert : Inert s.word bytes) (hsome : s.word ≠ none ∨ bytes ≠ []) :
    words environment s bytes = some (s.done ++ [s.word.getD [] ++ bytes]) := by
  induction bytes generalizing s with
  | nil =>
    obtain ⟨w, hw⟩ := Option.ne_none_iff_exists'.mp (hsome.resolve_right fun h => h rfl)
    simp [words, finish, hmode, hw]
  | cons b rest ih =>
    obtain ⟨⟨⟨hblank, hbreak, hsingle, hdouble, hescape⟩, hcomment, hexpands⟩, hrest⟩ := hinert
    have hstep : step s b rest = .go (s.push .unquoted [b]) := by
      have hcomment' : ¬ (b ∈ text "#" ∧ s.word = none) := fun h => hcomment h.1 h.2
      simp only [step, hmode, if_neg hblank, if_neg hbreak, if_neg hcomment', if_neg hsingle,
        if_neg hdouble, if_neg hescape, hexpands, Bool.false_eq_true, ↓reduceIte]
    have hinert' : Inert (s.push .unquoted [b]).word rest := by
      cases rest with
      | nil => trivial
      | cons c rest => exact ⟨by simpa [Literal, expands, State.push] using hrest.1, hrest.2⟩
    simp only [words, hstep]
    rw [@ih (s.push .unquoted [b]) rfl hinert' (.inl (by simp [State.push]))]
    simp [State.push]

end Sizes

/-- A word stands for itself in every environment if and only if it is inert. -/
theorem words_eq_iff {done : List (List UInt8)} {bytes : List UInt8} (hne : bytes ≠ []) :
    (∀ environment, words environment ⟨.unquoted, done, none⟩ bytes = some (done ++ [bytes])) ↔
      Inert none bytes := by
  constructor
  · intro h
    exact @inert_of_words ⟨.unquoted, done, none⟩ bytes rfl (h none)
  · intro hinert environment
    exact @words_of_inert ⟨.unquoted, done, none⟩ bytes environment rfl hinert (.inr hne)

end ShellWords
