import TapeMachine.Proofs.Grammar
import TapeMachine.Proofs.Spans

/-! What an error about a line expects. If no form reads even its first element, the kinds of line
are expected and nothing was being read, except where white space that lines may not start with
stands in front; if some form reads its first element, something was being read. -/
namespace TapeMachine

open Text

theorem Text.sortedSet_of_pairwise {ts : List Text}
    (sorted : ts.Pairwise fun a b => notAfter a b) : sortedSet ts = ts.eraseDups := by
  rw [sortedSet, List.mergeSort_of_pairwise sorted]

namespace Form

def opening : Form → Element
  | instr op => .keyword op
  | label => .definition

def enters (f : Form) (t : Text) : Bool := (f.opening.read 0 t).isOk

theorem elements_eq (f : Form) : ∃ es, f.elements = f.opening :: es := by
  cases f with
  | instr op => exact ⟨_, rfl⟩
  | label => exact ⟨_, rfl⟩

theorem enters_iff {f : Form} {t : Text} :
    f.enters t = true ↔ ∃ first, f.opening.read 0 t = .ok first := by
  unfold enters
  cases f.opening.read 0 t with
  | ok first => exact ⟨fun _ => ⟨first, rfl⟩, fun _ => rfl⟩
  | error why => exact ⟨nofun, nofun⟩

theorem opening_skips (f : Form) : f.opening.skips = CharClass.padding := by
  cases f <;> rfl

theorem wordStart_of_enters {f : Form} {t : Text} (enters : f.enters t) :
    ∃ c rest, t.dropWhile CharClass.padding = c :: rest ∧ CharClass.wordStart c := by
  obtain ⟨first, read⟩ := enters_iff.mp enters
  obtain ⟨gap, w, rfl, skipped, lexeme, stops, -⟩ := Element.read_ok_iff.mp read
  have behind := Element.lexeme_stops lexeme stops
  rw [opening_skips] at skipped behind
  have name : Identifier w := by
    cases f with
    | instr op =>
      obtain ⟨rfl, -⟩ := lexeme
      exact keyword_identifier op
    | label => exact lexeme.1
  obtain ⟨c, rest, rfl, start, -⟩ := name
  exact ⟨c, rest ++ first.rest, dropWhile_append skipped behind, start⟩

theorem opening_read {t : Text} (none : label.enters t = false) (f : Form) :
    f.opening.read 0 t = .error (.mismatch (t.takeWhile CharClass.padding).length f.opening) := by
  have nameless : (Element.identifier (t.dropWhile CharClass.padding)).isEmpty := by
    cases empty : (Element.identifier (t.dropWhile CharClass.padding)).isEmpty with
    | true => rfl
    | false =>
      simp [enters, opening, Element.read, Element.skips, Element.token, empty, Except.isOk,
        Except.toBool] at none
  unfold Element.read
  rw [opening_skips, Nat.zero_add]
  cases f with
  | label => simp only [opening, Element.token, nameless, if_true]
  | instr op =>
    have absent : op.keyword.isPrefixOf (t.dropWhile CharClass.padding) = false := by
      cases starts : op.keyword.isPrefixOf (t.dropWhile CharClass.padding) with
      | false => rfl
      | true =>
        obtain ⟨rest, split⟩ := List.isPrefixOf_iff_prefix.mp starts
        obtain ⟨c, more, keyword, start, -⟩ := keyword_identifier op
        rw [← split, keyword] at nameless
        simp [Element.identifier, start, CharClass.word_of_wordStart start] at nameless
    simp only [opening, Element.token, absent, Bool.not_false, if_true]

theorem label_enters_of_enters {f : Form} {t : Text} (enters : f.enters t) : label.enters t := by
  cases nameless : label.enters t with
  | true => rfl
  | false =>
    obtain ⟨first, read⟩ := enters_iff.mp enters
    rw [opening_read nameless] at read
    cases read

theorem mismatch?_of_not_enters {t : Text} (none : label.enters t = false) (f : Form) :
    Verdict.mismatch? t f = some ⟨f, (t.takeWhile CharClass.padding).length, f.opening⟩ := by
  obtain ⟨es, elements⟩ := f.elements_eq
  have failed : f.read t = .error (.mismatch (t.takeWhile CharClass.padding).length f.opening) := by
    rw [Form.read, elements, Element.readAll, opening_read none]
    rfl
  rw [Verdict.mismatch?, failed]

theorem offset_of_enters {f : Form} {t : Text} {i : Nat} {e : Element} (enters : f.enters t)
    (failed : f.read t = .error (.mismatch i e)) :
    (t.takeWhile CharClass.padding).length < i := by
  obtain ⟨es, elements⟩ := f.elements_eq
  obtain ⟨first, read⟩ := enters_iff.mp enters
  rw [Form.read, elements] at failed
  rcases Element.readAll_cons_error failed with here | ⟨first', read', later⟩
  · rw [read] at here
    cases here
  · cases read.symm.trans read'
    obtain ⟨gap, w, rfl, skipped, lexeme, stops, moved⟩ := Element.read_ok_iff.mp read
    have behind := Element.lexeme_stops lexeme stops
    rw [opening_skips] at skipped behind
    have some : 0 < w.length := by
      cases f with
      | instr op =>
        obtain ⟨rfl, -⟩ := lexeme
        exact List.length_pos_iff.mpr (keyword_identifier op).ne_nil
      | label => exact List.length_pos_iff.mpr (lexeme.1 : Identifier w).ne_nil
    obtain ⟨_, -, before, _, -, fails⟩ := Element.readAll_error later
    rw [takeWhile_append skipped behind]
    cases fails with
    | mismatch reached => omega

end Form

namespace Mismatch

theorem max?_offsets {ms : List Mismatch} (some : ms ≠ []) :
    (ms.map offset).max? = .some (furthest ms) := by
  obtain ⟨m, ms, rfl⟩ := List.exists_cons_of_ne_nil some
  rw [List.map_cons, List.max?_cons', furthest, List.map_cons, List.foldl_cons, Nat.zero_max]

theorem le_furthest {ms : List Mismatch} {m : Mismatch} (member : m ∈ ms) :
    m.offset ≤ furthest ms :=
  (List.max?_eq_some_iff.mp (max?_offsets (List.ne_nil_of_mem member))).2 _
    (List.mem_map_of_mem member)

theorem atFurthest_ne_nil {ms : List Mismatch} (some : ms ≠ []) : atFurthest ms ≠ [] := by
  obtain ⟨m, member, offset⟩ :=
    List.mem_map.mp (List.max?_eq_some_iff.mp (max?_offsets some)).1
  exact List.ne_nil_of_mem (List.mem_filter.mpr ⟨member, by simp [offset]⟩)

theorem atFurthest_of_same {ms : List Mismatch} {i : Nat} (some : ms ≠ [])
    (same : ∀ m ∈ ms, m.offset = i) : furthest ms = i ∧ atFurthest ms = ms := by
  have furthest : furthest ms = i := by
    obtain ⟨m, member, offset⟩ :=
      List.mem_map.mp (List.max?_eq_some_iff.mp (max?_offsets some)).1
    rw [← offset, same m member]
  refine ⟨furthest, List.filter_eq_self.mpr ?_⟩
  intro m member
  rw [furthest, same m member]
  exact beq_self_eq_true i

theorem context_isSome_iff {t : Text} {ms : List Mismatch} (some : ms ≠ []) :
    (context t ms).isSome ↔ furthest ms ≠ indent t := by
  unfold context
  split
  · rename_i same
    simp [same]
  · rename_i other
    obtain ⟨m, more, first⟩ := List.exists_cons_of_ne_nil (atFurthest_ne_nil some)
    simp [other, first]

end Mismatch

/-- White space stands behind the blanks that every line may start with. -/
def Text.OddlyIndented (t : Text) : Prop := ¬ Stops CharClass.space (t.dropWhile CharClass.padding)

theorem Text.indent_eq_iff (t : Text) :
    Mismatch.indent t = (t.takeWhile CharClass.padding).length ↔ ¬ t.OddlyIndented := by
  obtain ⟨gap, rest, rfl, padded, stops⟩ := exists_run CharClass.padding t
  have blank : ∀ c ∈ gap, CharClass.space c := fun c member =>
    CharClass.space_of_padding (padded c member)
  unfold OddlyIndented Mismatch.indent
  rw [takeWhile_append padded stops, dropWhile_append padded stops, not_not,
    List.takeWhile_append_of_pos blank, List.length_append]
  cases rest with
  | nil => exact ⟨fun _ => rfl, fun _ => rfl⟩
  | cons c rest =>
    rw [stops_cons, List.takeWhile_cons]
    cases CharClass.space c <;> simp

namespace Verdict

theorem toError_of_not_enters {t : Text} (none : Form.label.enters t = false) (offset : Nat)
    (terminated : Bool) :
    let e := Mismatch.toError (Form.all.filterMap (mismatch? t)) t offset terminated
    (¬ t.OddlyIndented →
        e.expected = (["instruction", "label"] : List Text) ∧ e.context = .none) ∧
      (t.OddlyIndented →
        e.expected = (["horizontal whitespace", "label"] : List Text) ∧
          e.context = (some "gol instruction" : Option Text)) := by
  intro e
  have failures : Form.all.filterMap (mismatch? t) =
      Form.all.map fun f => ⟨f, (t.takeWhile CharClass.padding).length, f.opening⟩ := by
    rw [← List.filterMap_eq_map]
    exact List.filterMap_congr fun f _ => Form.mismatch?_of_not_enters none f
  have all : ∀ m ∈ Form.all.map fun f => Mismatch.mk f (t.takeWhile CharClass.padding).length
      f.opening, m.offset = (t.takeWhile CharClass.padding).length := by
    simp
  obtain ⟨furthest, atFurthest⟩ := Mismatch.atFurthest_of_same (by simp [Form.all]) all
  have expected : e.expected = Text.sortedSet (Form.all.map fun f =>
      if (t.takeWhile CharClass.padding).length = Mismatch.indent t then f.kind
      else f.opening.name) := by
    simp only [e, Mismatch.toError, Mismatch.expected, failures, furthest, atFurthest,
      List.map_map, Function.comp_def]
  have context : e.context = if (t.takeWhile CharClass.padding).length = Mismatch.indent t
      then .none else (some "gol instruction" : Option Text) := by
    simp only [e, Mismatch.toError, Mismatch.context, failures, furthest, atFurthest]
    rfl
  rw [expected, context]
  constructor
  · intro plain
    have same := (Text.indent_eq_iff t).mpr plain
    simp only [same, if_true]
    rw [sortedSet_of_pairwise (by decide +kernel)]
    exact ⟨by decide +kernel, trivial⟩
  · intro odd
    have differ : (t.takeWhile CharClass.padding).length ≠ Mismatch.indent t := fun same =>
      (Text.indent_eq_iff t).mp same.symm odd
    simp only [if_neg differ]
    rw [sortedSet_of_pairwise (by decide +kernel)]
    exact ⟨by decide +kernel, trivial⟩

theorem enters_of_decides {f : Form} {t : Text} {offset : Nat} {v : Verdict}
    (decides : f.Decides t offset v) : f.enters t := by
  cases f with
  | label =>
    obtain ⟨first, second, read, -⟩ := decides.first_two rfl nofun nofun
    exact Form.enters_iff.mpr ⟨first, read⟩
  | instr op =>
    obtain ⟨b, es, elements, plain⟩ : ∃ b es, (Form.instr op).elements = .keyword op :: b :: es ∧
        b ≠ .value := by
      cases op <;> exact ⟨_, _, rfl, nofun⟩
    obtain ⟨first, second, read, -⟩ := decides.first_two elements nofun plain
    exact Form.enters_iff.mpr ⟨first, read⟩

theorem context_of_enters {f : Form} {t : Text} {offset : Nat} (enters : f.enters t)
    (undecided : ∀ (f : Form) v, ¬ f.Decides t offset v) (terminated : Bool) :
    (Mismatch.toError (Form.all.filterMap (mismatch? t)) t offset terminated).context.isSome := by
  obtain ⟨i, wanted, failed⟩ : ∃ i wanted, f.read t = .error (.mismatch i wanted) := by
    cases read : f.read t with
    | ok ns =>
      obtain ⟨line, drafted, -⟩ := Form.makes_line read offset
      exact absurd (.accepted read drafted) (undecided f _)
    | error why =>
      cases why with
      | mismatch i wanted => exact ⟨i, wanted, rfl⟩
      | overflow i w => exact absurd (.overflow read) (undecided f _)
      | oversized digits => exact absurd (.oversized read) (undecided f _)
  have member : ⟨f, i, wanted⟩ ∈ Form.all.filterMap (mismatch? t) := by
    refine List.mem_filterMap.mpr ⟨f, f.mem_all, ?_⟩
    rw [mismatch?, failed]
  have further := Mismatch.le_furthest member
  have behind := Form.offset_of_enters enters failed
  -- a word stands behind the blanks, so that the indentation ends there
  have plain : ¬ t.OddlyIndented := by
    obtain ⟨c, rest, split, start⟩ := Form.wordStart_of_enters enters
    rw [Text.OddlyIndented, split, not_not]
    exact CharClass.not_space_of_word (CharClass.word_of_wordStart start)
  have indent := (Text.indent_eq_iff t).mpr plain
  refine (Mismatch.context_isSome_iff (List.ne_nil_of_mem member)).mpr ?_
  dsimp only at further
  omega

theorem rejected_of_not_enters {t : Text} (none : Form.label.enters t = false) (offset : Nat)
    (terminated : Bool) : ofText t offset terminated =
      .rejected (Mismatch.toError (Form.all.filterMap (mismatch? t)) t offset terminated) := by
  rcases ofText_cases t offset terminated with ⟨f, decides⟩ | ⟨-, mismatched⟩
  · have enters := Form.label_enters_of_enters (enters_of_decides decides)
    rw [none] at enters
    cases enters
  · exact mismatched

/-- A line on which no form reads its first element is rejected. The kinds of line are expected
there, and nothing was being read, unless white space stands behind the blanks that lines may
start with: then what follows a keyword is expected in the place of the kind. Behind the first
element of a form something was being read. -/
theorem kinds_expected (t : Text) (offset : Nat) (terminated : Bool) :
    ((∀ f : Form, f.enters t = false) → ∃ e, ofText t offset terminated = .rejected e ∧
      (¬ t.OddlyIndented →
        e.expected = (["instruction", "label"] : List Text) ∧ e.context = none) ∧
      (t.OddlyIndented →
        e.expected = (["horizontal whitespace", "label"] : List Text) ∧
          e.context = (some "gol instruction" : Option Text))) ∧
    ∀ e, ofText t offset terminated = .rejected e → e.reason = none →
      (e.context.isSome ↔ (∃ f : Form, f.enters t) ∨ t.OddlyIndented) := by
  constructor
  · intro never
    exact ⟨_, rejected_of_not_enters (never .label) offset terminated,
      toError_of_not_enters (never .label) offset terminated⟩
  · intro e rejected unreasoned
    cases enters : Form.label.enters t with
    | true =>
      refine iff_of_true ?_ (.inl ⟨.label, enters⟩)
      rcases ofText_cases t offset terminated with ⟨f, decides⟩ | ⟨undecided, mismatched⟩
      · rw [rejected] at decides
        cases decides with
        | overflow failed => cases unreasoned
      · rw [rejected] at mismatched
        cases mismatched
        exact context_of_enters enters undecided terminated
    | false =>
      have mismatched := rejected_of_not_enters enters offset terminated
      rw [rejected] at mismatched
      cases mismatched
      obtain ⟨plainly, oddly⟩ := toError_of_not_enters enters offset terminated
      have never : ¬ ∃ f : Form, f.enters t := by
        rintro ⟨f, enters'⟩
        rw [Form.label_enters_of_enters enters'] at enters
        cases enters
      by_cases odd : t.OddlyIndented
      · rw [(oddly odd).2]
        exact iff_of_true rfl (.inr odd)
      · rw [(plainly odd).2]
        exact iff_of_false nofun (not_or.mpr ⟨never, odd⟩)

/-- A form feed is white space, but no form skips it in front of its first element. -/
theorem kinds_not_expected_at_form_feed :
    let t : Text := "\x0cgol"
    (∃ c ∈ t, CharClass.space c = false) ∧ (∀ f : Form, f.enters t = false) ∧
      ¬ ∃ e, ofText t 0 true = .rejected e ∧
        e.expected = (["instruction", "label"] : List Text) ∧ e.context = none := by
  intro t
  have never : ∀ f ∈ Form.all, f.enters t = false := by decide +kernel
  refine ⟨⟨'g', by decide, rfl⟩, fun f => never f f.mem_all, ?_⟩
  rintro ⟨e, rejected, -, unread⟩
  have nameless := never .label (Form.mem_all .label)
  have odd : t.OddlyIndented := nofun
  have context := ((toError_of_not_enters nameless 0 true).2 odd).2
  have same := rejected.symm.trans (rejected_of_not_enters nameless 0 true)
  rw [← Verdict.rejected.inj same, unread] at context
  exact Option.some_ne_none _ context.symm

end Verdict

end TapeMachine
