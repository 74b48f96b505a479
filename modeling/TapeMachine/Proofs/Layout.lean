import Mathlib.Data.List.Pairwise
import Mathlib.Data.List.Sort
import TapeMachine.Proofs.Concatenation
import TapeMachine.Report.Layout

/-! Reports without their styling. No control sequence goes on past the end of a row, so that a
report can be made plain row by row; and the lines that a report quotes are in order, so that each
number fits into the margin. -/
namespace TapeMachine

open Text

namespace Ansi

variable {t u : Text}

theorem map_afterSequence? (t : Text) : (afterSequence? t).map (·.1) =
    match (t.dropWhile parameter).dropWhile intermediate with
    | [] => none
    | c :: rest => if final c then some rest else none := by
  unfold afterSequence?
  split
  · simp only [*]
    rfl
  · simp only [*]
    split <;> rfl

/-- The character is no part of a control sequence behind its bracket, so that one which has not
ended in front of it never does. -/
structure Breaks (c : Char) : Prop where
  parameter : Ansi.parameter c = false
  intermediate : Ansi.intermediate c = false
  final : Ansi.final c = false

theorem breaks_newline : Breaks '\n' := ⟨rfl, rfl, rfl⟩

theorem breaks_escape : Breaks '\x1b' := ⟨rfl, rfl, rfl⟩

theorem dropWhile_break {p : Char → Bool} {c : Char} (stops : p c = false) (t u : Text) :
    (t ++ c :: u).dropWhile p = t.dropWhile p ++ c :: u := by
  rw [List.dropWhile_append, List.dropWhile_cons_of_neg (by simp [stops])]
  split
  · rename_i none
    rw [List.isEmpty_iff.mp none, List.nil_append]
  · rfl

theorem map_afterSequence?_break {c : Char} (breaks : Breaks c) (t u : Text) :
    (afterSequence? (t ++ c :: u)).map (·.1) =
      (afterSequence? t).map fun after => after.1 ++ c :: u := by
  have whole := map_afterSequence? (t ++ c :: u)
  have first := congrArg (Option.map (· ++ c :: u)) (map_afterSequence? t)
  rw [dropWhile_break breaks.parameter, dropWhile_break breaks.intermediate] at whole
  rw [Option.map_map, Function.comp_def] at first
  rw [whole, first]
  cases (t.dropWhile parameter).dropWhile intermediate with
  | nil => simp [breaks.final]
  | cons d rest =>
    rw [List.cons_append]
    dsimp only
    split <;> rfl

theorem plain_cons {c : Char} (other : c ≠ '\x1b') (t : Text) : plain (c :: t) = c :: plain t := by
  rw [plain]
  rintro rest rfl
  exact absurd rfl other

theorem plain_of_after {after : Text} (ends : (afterSequence? t).map (·.1) = some after) :
    plain ('\x1b' :: '[' :: t) = plain after := by
  obtain ⟨found, some, rfl⟩ := Option.map_eq_some_iff.mp ends
  rw [plain, some]

theorem plain_of_open (open_ : afterSequence? t = none) :
    plain ('\x1b' :: '[' :: t) = '\x1b' :: plain ('[' :: t) := by
  rw [plain, open_]

theorem plain_append (free : '\x1b' ∉ t) (u : Text) : plain (t ++ u) = t ++ plain u := by
  induction t with
  | nil => rfl
  | cons c t ih =>
    have other : c ≠ '\x1b' := fun same => free (same ▸ List.mem_cons_self)
    have later := ih fun member => free (List.mem_cons_of_mem _ member)
    rw [List.cons_append, plain_cons other, later, List.cons_append]

theorem plain_break {c : Char} (breaks : Breaks c) (t u : Text) :
    plain (t ++ c :: u) = plain t ++ plain (c :: u) := by
  fun_induction plain t with
  | case1 => rfl
  | case2 rest after ends ih =>
    have closed := map_afterSequence?_break breaks rest u
    rw [ends] at closed
    rw [← ih]
    exact plain_of_after closed
  | case3 rest ends ih =>
    have open_ := map_afterSequence?_break breaks rest u
    rw [ends] at open_
    have kept := plain_of_open (Option.map_eq_none_iff.mp open_)
    exact kept.trans (congrArg ('\x1b' :: ·) ih)
  | case4 d rest other ih =>
    rw [List.cons_append, List.cons_append, ← ih, plain]
    intro after escape bracket
    cases rest with
    | nil =>
      cases bracket
      cases breaks.final
    | cons e rest =>
      cases bracket
      exact other _ escape rfl

/-- A control sequence does not go on past a newline. -/
theorem plain_newline (t u : Text) : plain (t ++ '\n' :: u) = plain t ++ '\n' :: plain u := by
  rw [plain_break breaks_newline, plain_cons (by decide)]

theorem plain_graphic {code : Text} (parameters : ∀ c ∈ code, parameter c) (t : Text) :
    plain (graphic code ++ t) = plain t := by
  have stops : Stops parameter ('m' :: t) := rfl
  have ends : (code ++ 'm' :: t).dropWhile parameter = 'm' :: t := dropWhile_append parameters stops
  have shape : graphic code ++ t = '\x1b' :: '[' :: (code ++ 'm' :: t) := by simp [graphic]
  rw [shape]
  apply plain_of_after
  rw [map_afterSequence?, ends]
  rfl

theorem plain_colored (color : Color) (t u : Text) :
    plain (colored color t ++ u) = plain t ++ plain u := by
  have code : color.code.all parameter := by cases color <;> rfl
  have reset : (['0'] : Text).all parameter := rfl
  have ends : plain (t ++ (graphic ['0'] ++ u)) = plain t ++ plain (graphic ['0'] ++ u) :=
    plain_break breaks_escape t _
  rw [colored, List.append_assoc, List.append_assoc, plain_graphic (List.all_eq_true.mp code), ends,
    plain_graphic (List.all_eq_true.mp reset)]

theorem plain_unlines (ls : List Text) : plain (unlines ls) = unlines (ls.map plain) := by
  induction ls with
  | nil => exact plain_of_not_mem List.not_mem_nil
  | cons l ls ih => rw [unlines_cons, plain_newline, ih, List.map_cons, unlines_cons]

end Ansi

def Row.carets (gutter indent width : Nat) (note : Text) : Text :=
  List.replicate gutter ' ' ++ " | " ++
    (List.replicate indent ' ' ++ List.replicate width '^' ++ " " ++ note)

namespace Row

theorem escape_not_mem_ofNat (n : Nat) : '\x1b' ∉ Decimal.ofNat n :=
  fun member => absurd (Decimal.isDigit_of_mem_ofNat member) (by decide)

theorem plain_marked (gutter indent width : Nat) (note : Text) (color : Ansi.Color) :
    Ansi.plain (render gutter (.marked indent width note color)) =
      carets gutter indent width (Ansi.plain note) := by
  have margin : '\x1b' ∉ List.replicate gutter ' ' ++ (" | " : Text) := by
    simp
  have marks : '\x1b' ∉ List.replicate indent ' ' ++ List.replicate width '^' ++ (" " : Text) := by
    simp [List.mem_replicate]
  have plain := Ansi.plain_colored color
    (List.replicate indent ' ' ++ List.replicate width '^' ++ " " ++ note) []
  rw [List.append_nil, Ansi.plain_of_not_mem List.not_mem_nil, List.append_nil,
    Ansi.plain_append marks] at plain
  rw [render, Ansi.plain_append margin, plain, carets]

theorem plain_quoted (gutter number : Nat) (line : Text) :
    Ansi.plain (render gutter (.quoted number line)) =
      render gutter (.quoted number (Ansi.plain line)) := by
  have margin : '\x1b' ∉ alignRight gutter (Decimal.ofNat number) ++ (" | " : Text) := by
    simp [alignRight, List.leftpad, escape_not_mem_ofNat]
  rw [render, Ansi.plain_append margin, render]

theorem plain_place (gutter : Nat) (path : Text) (position : Position) :
    Ansi.plain (render gutter (.place path position)) =
      List.replicate gutter ' ' ++ "--> " ++ Ansi.plain (path ++ ":" ++
        Decimal.ofNat position.line ++ ":" ++ Decimal.ofNat position.column) := by
  have margin : '\x1b' ∉ List.replicate gutter ' ' ++ ("--> " : Text) := by
    simp
  rw [← Ansi.plain_append margin]
  simp [render]

theorem drop_quoted {gutter number : Nat} (fits : (Decimal.ofNat number).length ≤ gutter)
    (line : Text) (indent : Nat) :
    (render gutter (.quoted number line)).drop (gutter + 3 + indent) = line.drop indent := by
  have margin : (alignRight gutter (Decimal.ofNat number) ++ " | ").length = gutter + 3 := by
    rw [List.length_append, alignRight, List.length_leftpad, Nat.max_eq_left fits]
    rfl
  rw [render, ← margin, List.drop_append]
  simp

end Row

theorem Decimal.length_ofNat_mono {m n : Nat} (le : m ≤ n) :
    (ofNat m).length ≤ (ofNat n).length := by
  have within {k : Nat} : (ofNat k).length ≤ (ofNat n).length ↔ k < 10 ^ (ofNat n).length :=
    Nat.length_toDigits_le_iff (by decide) Nat.length_toDigits_pos
  exact within.mpr (Nat.lt_of_le_of_lt le (within.mp (Nat.le_refl _)))

namespace Report

variable {source path : Text} {r : Report}

theorem eraseDups_sublist {α : Type} [BEq α] (l : List α) : l.eraseDups.Sublist l :=
  match l with
  | [] => .slnil
  | a :: l => by
    rw [List.eraseDups_cons]
    exact ((eraseDups_sublist (l.filter fun b => !b == a)).trans List.filter_sublist).cons_cons a
termination_by l.length
decreasing_by
  exact Nat.lt_succ_of_le (List.length_filter_le _ _)

theorem nodup_eraseDups {α : Type} [BEq α] [LawfulBEq α] (l : List α) : l.eraseDups.Nodup :=
  match l with
  | [] => .nil
  | a :: l => by
    rw [List.eraseDups_cons, List.nodup_cons]
    exact ⟨by simp [List.mem_eraseDups], nodup_eraseDups (l.filter fun b => !b == a)⟩
termination_by l.length
decreasing_by
  exact Nat.lt_succ_of_le (List.length_filter_le _ _)

theorem mem_lineNumbers {number : Nat} :
    number ∈ r.lineNumbers source ↔ ∃ a ∈ r.annotations, (a.position source).line = number := by
  rw [lineNumbers, List.mem_eraseDups, List.mem_mergeSort, List.mem_map]

theorem increasing_lineNumbers (source : Text) (r : Report) :
    (r.lineNumbers source).Pairwise (· < ·) := by
  have sorted : (r.lineNumbers source).Pairwise (· ≤ ·) :=
    (List.pairwise_mergeSort' (· ≤ ·) _).sublist (eraseDups_sublist _)
  exact (sorted.and (nodup_eraseDups _)).imp fun ⟨le, ne⟩ => Nat.lt_of_le_of_ne le ne

theorem render_eq (some : r.annotations ≠ []) (source path : Text) :
    ∃ last ∈ r.lineNumbers source, (∀ number ∈ r.lineNumbers source, number ≤ last) ∧
      r.render? source path = .some (unlines ((r.rows source path).map
        (Row.render (Decimal.ofNat last).length))) := by
  obtain ⟨a, member⟩ := List.exists_mem_of_ne_nil _ some
  have first : (a.position source).line ∈ r.lineNumbers source :=
    mem_lineNumbers.mpr ⟨a, member, rfl⟩
  have filled := List.ne_nil_of_mem first
  have sorted := (increasing_lineNumbers source r).imp Nat.le_of_lt
  refine ⟨_, List.getLast_mem filled, fun number inside => sorted.rel_getLast inside, ?_⟩
  have rows : (r.rows source path).map (Row.render
      (Decimal.ofNat ((r.lineNumbers source).getLast filled)).length) ≠ [] := by
    simp [Report.rows]
  rw [render?, gutter?, List.getLast?_eq_some_getLast filled, unlines_eq_intercalate rows]
  rfl

theorem plain_render? (some : r.annotations ≠ []) (source path : Text) :
    ∃ last ∈ r.lineNumbers source, (∀ number ∈ r.lineNumbers source, number ≤ last) ∧
      ∃ report, r.render? source path = .some report ∧
        Ansi.plain report = unlines ((r.rows source path).map fun row =>
          Ansi.plain (row.render (Decimal.ofNat last).length)) := by
  obtain ⟨last, inside, largest, rendered⟩ := render_eq some source path
  refine ⟨last, inside, largest, _, rendered, ?_⟩
  rw [Ansi.plain_unlines, List.map_map]
  rfl

theorem rows_eq {a : Annotation} (member : a ∈ r.annotations) (source path : Text) :
    ∃ before earlier later after,
      r.rows source path = before ++
        .quoted (a.position source).line (source.quotedLine (a.position source).line) ::
          (earlier.map (·.row source) ++ a.row source :: (later.map (·.row source) ++ after)) ∧
      earlier ++ a :: later =
        r.annotations.filter fun b => (b.position source).line = (a.position source).line := by
  have number : (a.position source).line ∈ r.lineNumbers source :=
    mem_lineNumbers.mpr ⟨a, member, rfl⟩
  have here : a ∈ r.annotations.filter fun b =>
      (b.position source).line = (a.position source).line :=
    List.mem_filter.mpr ⟨member, by simp⟩
  obtain ⟨lower, higher, numbers⟩ := List.append_of_mem number
  obtain ⟨earlier, later, annotations⟩ := List.append_of_mem here
  refine ⟨[.header r.code r.message, .place path (.ofOffset source r.anchor), .space] ++
    lower.flatMap (r.lineRows source), earlier, later, higher.flatMap (r.lineRows source), ?_,
    annotations.symm⟩
  rw [rows, numbers, List.flatMap_append, List.flatMap_cons, lineRows, annotations]
  simp

end Report

end TapeMachine
