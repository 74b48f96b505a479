import TapeMachine.Command.Arguments
import Mathlib.Data.List.Basic

namespace TapeMachine

inductive Flag.Written : Flag → Text → Prop
  | letters (n : Nat) : Written .verbose ('-' :: 'v' :: List.replicate n 'v')
  | verbose : Written .verbose "--verbose"
  | color : Written (.color true) "--color"
  | noColor : Written (.color false) "--no-color"

def Flag.color? : Flag → Option Bool
  | .color wanted => some wanted
  | _ => none

namespace Preferences

def ofFlags (flags : List Flag) : Preferences where
  verbose := flags.contains .verbose
  color := (flags.filterMap Flag.color?).getLast?

end Preferences

namespace Arguments

/-- The argument is no option, wherever it stands. A dash alone is none. -/
def Free (argument : Text) : Prop := ∀ c rest, argument ≠ '-' :: c :: rest

/-- The arguments name one path and hold the flags. Behind a double dash a path may look like an
option. -/
inductive Selects (path : Text) : List Flag → List Text → Prop
  | around {flags flags' : List Flag} {before after : List Text} (free : Free path)
      (front : List.Forall₂ Flag.Written flags before)
      (back : List.Forall₂ Flag.Written flags' after) :
      Selects path (flags ++ flags') (before ++ path :: after)
  | behindDashes {flags : List Flag} {before : List Text}
      (front : List.Forall₂ Flag.Written flags before) :
      Selects path flags (before ++ [['-', '-'], path])

variable {a : Arguments} {flags : List Flag} {arguments rest : List Text} {path : Text}

theorem withLetters_replicate (a : Arguments) (n : Nat) :
    (a.withFlag .verbose).withLetters (List.replicate n 'v') = .ok (a.withFlag .verbose) := by
  induction n with
  | zero => rfl
  | succ n ih => exact ih

theorem withAll_cons_of_written {flag : Flag} {argument : Text} (written : flag.Written argument)
    (a : Arguments) (rest : List Text) :
    a.withAll (argument :: rest) = (a.withFlag flag).withAll rest := by
  cases written with
  | letters n =>
    have whole : ('-' :: 'v' :: List.replicate n 'v').takeWhile (· != '=') =
        '-' :: 'v' :: List.replicate n 'v' := by
      simp
    have taken : a.withOption ('-' :: 'v' :: List.replicate n 'v') = .ok (a.withFlag .verbose) := by
      simp only [withOption, whole]
      exact withLetters_replicate a n
    rw [withAll, taken]
    · nofun
  | verbose | color | noColor => rfl

theorem withAll_append_of_written (written : List.Forall₂ Flag.Written flags arguments)
    (a : Arguments) (rest : List Text) :
    a.withAll (arguments ++ rest) = (flags.foldl withFlag a).withAll rest := by
  induction written generalizing a with
  | nil => rfl
  | cons first _ ih => rw [List.cons_append, withAll_cons_of_written first, ih, List.foldl_cons]

theorem withAll_cons_of_free (free : Free path) (a : Arguments) (rest : List Text) :
    a.withAll (path :: rest) = { a with others := a.others ++ [path] }.withAll rest := by
  rw [withAll]
  · exact free '-' []
  · exact free

/-- Flags change nothing but the preferences, whose colour is the last one asked for. -/
theorem foldl_withFlag (written : List.Forall₂ Flag.Written flags arguments) (a : Arguments) :
    flags.foldl withFlag a =
      { a with preferences :=
        ⟨a.preferences.verbose || flags.contains .verbose,
          (flags.filterMap Flag.color?).getLast?.or a.preferences.color⟩ } := by
  induction written generalizing a with
  | nil => simp
  | cons first _ ih =>
    rw [List.foldl_cons, ih]
    cases first with
    | letters | verbose => simp [withFlag, Preferences.update, Flag.color?]
    | color | noColor => simp [withFlag, Preferences.update, Flag.color?, List.getLast?_cons]

theorem ofList_of_selects (selects : Selects path flags arguments) :
    ofList arguments = .ok { preferences := .ofFlags flags, others := [path] } := by
  cases selects with
  | @around flags flags' before after free front back =>
    have later := withAll_append_of_written back
      { preferences := .ofFlags flags, others := [path] } []
    rw [List.append_nil, foldl_withFlag back] at later
    have first : flags.foldl withFlag {} = { preferences := .ofFlags flags } := by
      simp [foldl_withFlag front, Preferences.ofFlags]
    rw [ofList, withAll_append_of_written front, first, withAll_cons_of_free free]
    refine later.trans ?_
    simp [withAll, Preferences.ofFlags, List.getLast?_append]
  | behindDashes front =>
    have first : flags.foldl withFlag {} = { preferences := .ofFlags flags } := by
      simp [foldl_withFlag front, Preferences.ofFlags]
    rw [ofList, withAll_append_of_written front, first]
    rfl

end Arguments

end TapeMachine
