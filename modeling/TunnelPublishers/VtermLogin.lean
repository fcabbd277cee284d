import TunnelPublishers.ShellWords
import TunnelPublishers.VtermSignals

/-!
# Who is logged in

The user name of a SUBSCRIBE is cut to what fits into the login command and then
read by a shell. It arrives as one word only if it fits and has no byte that the
shell takes for something else.
-/
namespace VtermLogin

open ByteOrder FiniteMaps FiniteMap TunnelFraming KernelTables VtermService VtermTerminals
  VtermSignals ShellWords

/-- The words of a login of this user. -/
def loginWords (user : List UInt8) : List (List UInt8) :=
  [text "TERM=linux", text "su", text "-l", user]

/-- The name fits into the command and stands for itself. -/
def Plain (user : List UInt8) : Prop := user.length ≤ 46 ∧ Inert none user

instance (user : List UInt8) : Decidable (Plain user) :=
  inferInstanceAs (Decidable (user.length ≤ 46 ∧ Inert none user))

section Commands

variable {user : List UInt8}

theorem loginCommand_eq (hne : user ≠ []) :
    loginCommand user = text "TERM=linux su -l " ++ user.take 46 := by
  rw [loginCommand, if_neg hne, List.take_append]
  rfl

/-- The shell has read three words when it comes to the name. -/
theorem words_login (environment : Option (List (List UInt8))) (bytes : List UInt8) :
    words environment ⟨.unquoted, [], none⟩ (text "TERM=linux su -l " ++ bytes) =
      words environment ⟨.unquoted, [text "TERM=linux", text "su", text "-l"], none⟩ bytes := by
  rfl

/-- The command is a login of this user in every environment if and only if the name is plain. -/
theorem login_words_iff (hne : user ≠ []) :
    (∀ environment, commandWords environment (loginCommand user) = some (loginWords user)) ↔
      Plain user := by
  have hwords : ∀ environment, commandWords environment (loginCommand user) =
      words (environment (loginCommand user))
        ⟨.unquoted, [text "TERM=linux", text "su", text "-l"], none⟩ (user.take 46) := by
    intro environment
    rw [commandWords, loginCommand_eq hne, words_login]
  have hexpected : loginWords user = [text "TERM=linux", text "su", text "-l"] ++ [user] := rfl
  constructor
  · intro h
    have hnone := h fun _ => none
    rw [hwords, hexpected] at hnone
    have hsize := words_size hnone
    have hfits : user.length ≤ 46 := by
      rw [bytesIn_append, bytesIn_singleton] at hsize
      simp only [State.size, Option.getD_none, List.length_nil, reduceCtorEq, ↓reduceIte,
        List.length_take] at hsize
      omega
    rw [List.take_of_length_le hfits] at hnone
    exact ⟨hfits, inert_of_words rfl hnone⟩
  · rintro ⟨hfits, hinert⟩ environment
    rw [hwords, hexpected, List.take_of_length_le hfits]
    exact (words_eq_iff hne).mpr hinert (environment (loginCommand user))

/-- Two plain names are two logins. -/
theorem login_words_inj {user' : List UInt8} (hne : user ≠ []) (hne' : user' ≠ [])
    (h : Plain user) (h' : Plain user') (environment : List UInt8 → Option (List (List UInt8)))
    (hsame : commandWords environment (loginCommand user) =
      commandWords environment (loginCommand user')) : user = user' := by
  rw [(login_words_iff hne).mpr h, (login_words_iff hne').mpr h', Option.some.injEq] at hsame
  exact (List.cons.inj (List.cons.inj (List.cons.inj (List.cons.inj hsame).2).2).2).1

end Commands

/-! ### Subscriptions -/

/-- A child is made for the terminal. -/
def Spawns (a : Spawn) : Prop := 0 ≤ a.openpt ∧ a.grantpt = 0 ∧ a.unlockpt = 0 ∧ 0 < a.fork

variable {M : Type → Type → Type} [FiniteMap M]

theorem login_mem_iff (s : State M) (p : Pass) (i : Input) (command : List UInt8) :
    .login command ∈ (channelSubscribe s p i).2 ↔
      Spawns p.spawn ∧ command = loginCommand (cString i.memory) := by
  have hnew : .login command ∈ (channelSubscribe s p i).2 ↔
      .login command ∈ (terminalNew p.spawn (cString i.memory)).2 := by
    unfold channelSubscribe
    rcases hterm : terminalNew p.spawn (cString i.memory) with ⟨_ | ⟨fdm, pid⟩, out⟩
    · simp [refuse]
    · simp
  rw [hnew, Spawns]
  rcases terminalNew_cases p.spawn (cString i.memory) with
    ⟨hopen, hcase⟩ | ⟨hopen, hgrant, hcase⟩ | ⟨hopen, hgrant, hcase⟩ <;> rw [hcase]
  · simp [not_le.mpr hopen]
  · simp only [List.mem_singleton, reduceCtorEq, false_iff]
    tauto
  · rw [not_or, not_not, not_not] at hgrant
    simp only [hgrant.1, hgrant.2, not_lt.mp hopen, true_and]
    by_cases hfork : 0 < p.spawn.fork
    · split <;> simp [hfork]
    · split <;> simp [hfork]

theorem subscribe_known : CHANNEL_SUBSCRIBE ≤ 7 := by decide

theorem twoCommands_small : (text "a;b").length < 2 ^ 32 := by decide

theorem longName_small (last : UInt8) : (List.replicate 46 97 ++ [last]).length < 2 ^ 32 := by simp

/-- A name with a semicolon in it. -/
def twoCommands : Input := .plain CHANNEL_SUBSCRIBE 1 (text "a;b") subscribe_known twoCommands_small

/-- A name of 47 bytes, of which the first 46 are the same. -/
def longName (last : UInt8) : Input :=
  .plain CHANNEL_SUBSCRIBE 1 (List.replicate 46 97 ++ [last]) subscribe_known (longName_small last)

end VtermLogin
