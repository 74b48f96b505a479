import TapeMachine.Command.Folder
import TapeMachine.Proofs.Printing
import TapeMachine.Proofs.Rows
import TapeMachine.Proofs.Underlining
import TapeMachine.Proofs.Viability

/-! Where escape characters can come from. The wording of errors has none, apart from styling, and
what was found is told in printable characters; so there are none left in a report whose styling
has been taken off, unless the source or the path brings them in. -/
namespace TapeMachine

open Text

namespace Text

variable {separator t : Text} {ts : List Text} {c : Char}

theorem mem_joinWith_of_mem (given : t ∈ ts) (inside : c ∈ t) (separator : Text) :
    c ∈ joinWith separator ts := by
  induction ts with
  | nil => cases given
  | cons first ts ih =>
    cases ts with
    | nil =>
      obtain rfl := List.mem_singleton.mp given
      rwa [joinWith, List.intercalate_singleton]
    | cons next ts =>
      rw [joinWith, List.intercalate_cons_cons]
      rcases List.mem_cons.mp given with rfl | later
      · simp [inside]
      · exact List.mem_append_right _ (ih later)

end Text

theorem Path.escape_not_mem_normalize {path : Text} (free : '\x1b' ∉ path) :
    '\x1b' ∉ normalize path := by
  have root : '\x1b' ∉ root path := by
    unfold root
    split <;> decide
  have names : '\x1b' ∉ joinWith ['/'] (names path) := by
    apply not_mem_joinWith (by decide)
    intro name given inside
    have part : name ∈ parts path := (List.mem_filter.mp given).1
    have whole : joinWith ['/'] (parts path) = path := List.intercalate_splitOn '/'
    exact free (whole ▸ mem_joinWith_of_mem part inside ['/'])
  unfold normalize
  split
  · decide
  · simp [root, names]

namespace Escape

theorem escape_not_mem_toDigits (n : Nat) : '\x1b' ∉ Nat.toDigits 16 n := by
  induction n using Nat.strongRecOn with
  | ind n ih =>
    rw [Nat.toDigits_eq_if (by decide)]
    split
    · simp
    · simp [ih (n / 16) (by omega)]

theorem escape_not_mem_ascii (c : Char) : '\x1b' ∉ ascii c := by
  unfold ascii
  cases lettered : lettered? c with
  | some t =>
    unfold lettered? at lettered
    split at lettered
    all_goals cases lettered
    all_goals decide
  | none =>
    rw [Option.getD_none]
    split
    · rename_i visible
      intro member
      obtain rfl := List.mem_singleton.mp member
      exact absurd visible (by decide)
    · unfold coded
      repeat' split
      all_goals simp [hex, List.leftpad, escape_not_mem_toDigits]

end Escape

namespace Wording

theorem escape_not_mem_token (t : Text) : '\x1b' ∉ token t := by
  unfold token
  cases named : tokenNames.lookup t with
  | some name =>
    have names : ∀ entry ∈ tokenNames, '\x1b' ∉ entry.2 := by decide
    obtain ⟨front, behind, split, -⟩ := List.lookup_eq_some_iff.mp named
    exact names (t, name) (by rw [split]; simp)
  | none => simp [Escape.escape_not_mem_ascii]

theorem escape_not_mem_alternatives {names : List Text} (free : ∀ name ∈ names, '\x1b' ∉ name) :
    '\x1b' ∉ alternatives names := by
  have sorted : ∀ name ∈ names.mergeSort notAfter, '\x1b' ∉ name :=
    fun name member => free name (List.mem_mergeSort.mp member)
  unfold alternatives
  split
  · decide
  · rename_i only
    exact sorted _ (by simp [only])
  · rename_i both
    have first := sorted _ (by rw [both]; exact List.mem_cons_self)
    have second := sorted _ (by rw [both]; exact List.mem_cons_of_mem _ List.mem_cons_self)
    simp [first, second]
  · have inner : '\x1b' ∉ joinWith ", " (names.mergeSort notAfter).dropLast :=
      not_mem_joinWith (by decide) fun name given =>
        sorted name ((List.dropLast_sublist _).mem given)
    have last : '\x1b' ∉ (names.mergeSort notAfter).getLast?.getD [] := by
      cases found : (names.mergeSort notAfter).getLast? with
      | none => exact List.not_mem_nil
      | some name => exact sorted name (List.mem_of_getLast? found)
    simpa [last] using inner

end Wording

theorem Element.escape_not_mem_name (e : Element) : '\x1b' ∉ e.name := by
  have blank : '\x1b' ∉ ("horizontal whitespace" : Text) := by decide
  cases e with
  | keyword op => exact blank
  | separator | register | value | reference | definition | colon | lineEnd => decide

theorem Form.escape_not_mem_kind (f : Form) : '\x1b' ∉ f.kind := by
  have instruction : '\x1b' ∉ ("instruction" : Text) := by decide
  cases f with
  | instr op => exact instruction
  | label => decide

theorem Form.escape_not_mem_context (f : Form) : '\x1b' ∉ f.context := by
  cases f with
  | instr op => cases op <;> decide
  | label => decide

namespace SyntaxError

variable {e : SyntaxError} {source : Text}

theorem escape_not_mem_plain_message (reason : ∀ t ∈ e.reason, '\x1b' ∉ t)
    (expected : ∀ name ∈ e.expected, '\x1b' ∉ name) (context : ∀ t ∈ e.context, '\x1b' ∉ t) :
    '\x1b' ∉ Ansi.plain (e.message true) := by
  unfold message
  cases given : e.reason with
  | some t => exact Ansi.not_mem_plain (reason t given)
  | none =>
    have kinds := Wording.escape_not_mem_alternatives expected
    have told (during behind : Text) (free : '\x1b' ∉ during) (plain : '\x1b' ∉ Ansi.plain behind) :
        '\x1b' ∉ Ansi.plain ("Expected " ++ Wording.alternatives e.expected ++ during ++
          ", found " ++ behind) := by
      rw [Ansi.plain_append (by simp [kinds, free])]
      simp [kinds, free, plain]
    apply told
    · cases parsed : e.context with
      | some t => simp [context t parsed]
      | none => exact List.not_mem_nil
    · cases e.found with
      | some t =>
        have styled := Ansi.plain_colored .red (Wording.token t) []
        rw [List.append_nil, Ansi.plain_of_not_mem List.not_mem_nil, List.append_nil] at styled
        simpa only [if_true, styled] using Ansi.not_mem_plain (Wording.escape_not_mem_token t)
      | none => exact Ansi.not_mem_plain (by decide)

theorem Faithful.worded (faithful : e.Faithful source) :
    (∀ name ∈ e.expected, '\x1b' ∉ name) ∧ ∀ t ∈ e.context, '\x1b' ∉ t := by
  unfold Faithful at faithful
  split at faithful
  · obtain ⟨p, -, rejected, -⟩ := faithful
    rcases Verdict.failed_of_rejected rejected with ⟨f, i, literal, failed, rfl⟩ | rfl
    · exact ⟨nofun, nofun⟩
    · constructor
      · intro name member
        obtain ⟨m, -, -, rfl⟩ := Mismatch.mem_expected member
        split
        · exact Form.escape_not_mem_kind _
        · exact Element.escape_not_mem_name _
      · intro t parsed
        have context : Mismatch.context p.text _ = some t := parsed
        unfold Mismatch.context at context
        split at context
        · cases context
        · obtain ⟨m, -, rfl⟩ := Option.map_eq_some_iff.mp context
          exact Form.escape_not_mem_context _
  · subst faithful
    refine ⟨?_, nofun⟩
    intro name member
    obtain rfl := List.mem_singleton.mp member
    decide

end SyntaxError

theorem Text.mem_unlines {ls : List Text} {c : Char} (member : c ∈ unlines ls) :
    c = '\n' ∨ ∃ l ∈ ls, c ∈ l := by
  obtain ⟨l, given, inside⟩ := List.mem_flatMap.mp member
  rcases List.mem_append.mp inside with own | newline
  · exact .inr ⟨l, given, own⟩
  · exact .inl (List.mem_singleton.mp newline)

theorem Text.mem_of_mem_quotedLine {source : Text} {number : Nat} {c : Char}
    (member : c ∈ source.quotedLine number) : c ∈ source := by
  obtain ⟨line, given, inside⟩ := exists_line_of_mem_quotedLine member
  have whole : joinWith ['\n'] (lines source) = source := List.intercalate_splitOn '\n'
  exact whole ▸ mem_joinWith_of_mem given inside ['\n']

theorem Text.mem_of_mem_at {source : Text} {s : Span} {c : Char} (member : c ∈ source.at s) :
    c ∈ source :=
  List.mem_of_mem_take (List.mem_of_mem_drop member)

namespace Report

variable {r : Report} {source path : Text}

/-- Without its styling a report has no escape characters but those of the source, of the path and
of its own texts. -/
theorem escape_not_mem_plain (some : r.annotations ≠ []) (plainSource : '\x1b' ∉ source)
    (plainPath : '\x1b' ∉ path) (message : '\x1b' ∉ Ansi.plain r.message)
    (notes : ∀ a ∈ r.annotations, '\x1b' ∉ a.note) :
    '\x1b' ∉ Ansi.plain (r.render source path) := by
  obtain ⟨gutter, -, plain⟩ := plain_render some source path
  have place := Row.foreign_escape.not_mem_place plainPath
    (Position.ofOffset source r.anchor).line (Position.ofOffset source r.anchor).column
  rw [plain, plain_rows]
  intro member
  rcases mem_unlines member with newline | ⟨row, shown, inside⟩
  · cases newline
  · simp only [List.mem_cons, List.mem_flatMap] at shown
    rcases shown with rfl | rfl | rfl | ⟨number, -, among⟩
    · simp [Decimal.padded, List.leftpad, Row.escape_not_mem_ofNat, message] at inside
    · rw [List.mem_append] at inside
      exact inside.elim (by simp) (Ansi.not_mem_plain place)
    · exact Row.foreign_escape.not_mem_space gutter inside
    · have line : '\x1b' ∉ source.quotedLine number :=
        fun escape => plainSource (mem_of_mem_quotedLine escape)
      exact not_mem_of_mem Row.foreign_escape line notes among inside

theorem escape_not_mem_ofSyntaxError {e : SyntaxError} (faithful : e.Faithful source)
    (plainSource : '\x1b' ∉ source) (plainPath : '\x1b' ∉ path) :
    '\x1b' ∉ Ansi.plain ((ofSyntaxError e).render source path) := by
  obtain ⟨expected, context⟩ := faithful.worded
  obtain ⟨note, plainNote, annotations⟩ := faithful.annotations
  have reason : ∀ t ∈ e.reason, '\x1b' ∉ t := by
    intro t given
    rcases faithful.unclosed_and_reason.2 with none | overflow
    · rw [none] at given
      cases given
    · rw [overflow] at given
      cases given
      decide
  apply escape_not_mem_plain (by rw [annotations]; exact List.cons_ne_nil _ _) plainSource plainPath
    (e.escape_not_mem_plain_message reason expected context)
  intro a member
  rw [annotations] at member
  obtain rfl := List.mem_singleton.mp member
  exact plainNote

theorem escape_not_mem_ofLabelError {mistake : LabelMistake} (shown : mistake.Shown source)
    (plainSource : '\x1b' ∉ source) (plainPath : '\x1b' ∉ path) :
    '\x1b' ∉ Ansi.plain ((ofLabelError mistake).render source path) := by
  have annotated : (ofLabelError mistake).annotations ≠ [] := by
    cases mistake <;> exact List.cons_ne_nil _ _
  have message : '\x1b' ∉ mistake.message := by
    cases mistake with
    | unknown token =>
      obtain ⟨-, text⟩ := shown
      have name : '\x1b' ∉ token.text := by
        rw [← text]
        exact fun escape => plainSource (mem_of_mem_at escape)
      have message : (LabelMistake.unknown token).message =
          "unknown label `" ++ token.text ++ "`" := rfl
      simp [message, name]
    | redefined label first second =>
      obtain ⟨⟨-, text⟩, -⟩ := shown
      have name : '\x1b' ∉ label := by
        intro escape
        have inSource : '\x1b' ∈ source.at first := by
          rw [text]
          exact List.mem_append_left _ escape
        exact plainSource (mem_of_mem_at inSource)
      have message : (LabelMistake.redefined label first second).message =
          "multiple definitions of label `" ++ label ++ "`" := rfl
      simp [message, name]
  have same : (ofLabelError mistake).message = mistake.message := by
    cases mistake <;> rfl
  refine escape_not_mem_plain annotated plainSource plainPath ?_ (plain_of_ofLabelError mistake)
  rw [same]
  exact Ansi.not_mem_plain message

end Report

end TapeMachine
