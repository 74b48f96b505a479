import TapeMachine.Proofs.Layout
import TapeMachine.Proofs.Positions

namespace TapeMachine

open Text

namespace Ansi

theorem plain_sublist (t : Text) : (plain t).Sublist t := by
  fun_induction plain t with
  | case1 => exact .slnil
  | case2 rest after ends ih =>
    have shorter : after.1.Sublist rest := by
      have shape := map_afterSequence? rest
      rw [ends] at shape
      split at shape
      · cases shape
      · rename_i c behind split
        split at shape
        · cases shape
          have inner := List.dropWhile_sublist (l := rest) parameter
          have outer := List.dropWhile_sublist (l := rest.dropWhile parameter) intermediate
          rw [split] at outer
          exact (List.sublist_cons_self c _).trans (outer.trans inner)
        · cases shape
    exact ((ih.trans shorter).cons _).cons _
  | case3 rest ends ih => exact ih.cons_cons _
  | case4 c rest other ih => exact ih.cons_cons _

theorem not_mem_plain {t : Text} {c : Char} (free : c ∉ t) : c ∉ plain t :=
  fun member => free ((plain_sublist t).mem member)

end Ansi

namespace Position

/-- An offset lies on a line of the source, also one past its end. -/
theorem line_le (source : Text) (offset : Nat) :
    (ofOffset source offset).line ≤ (lines source).length := by
  rw [length_lines]
  exact Nat.succ_le_succ ((List.take_sublist offset source).count_le '\n')

end Position

namespace Row

/-- Behind a margin of the given width, in which stands nothing but blanks or, on the right, one of
the numbers, comes the bar. -/
def Barred (gutter : Nat) (numbers : List Nat) (row : Text) : Prop :=
  ∃ margin rest, row = margin ++ " |" ++ rest ∧ margin.length = gutter ∧
    (margin = List.replicate gutter ' ' ∨
      ∃ number ∈ numbers, ∃ blanks, margin = List.replicate blanks ' ' ++ Decimal.ofNat number)

variable {gutter : Nat} {numbers : List Nat}

theorem barred_space (gutter : Nat) (numbers : List Nat) :
    Barred gutter numbers (render gutter .space) :=
  ⟨List.replicate gutter ' ', [], (List.append_nil _).symm, List.length_replicate, .inl rfl⟩

theorem barred_carets (gutter : Nat) (numbers : List Nat) (indent width : Nat) (note : Text) :
    Barred gutter numbers (carets gutter indent width note) := by
  refine ⟨List.replicate gutter ' ', ' ' :: (List.replicate indent ' ' ++
    List.replicate width '^' ++ " " ++ note), ?_, List.length_replicate, .inl rfl⟩
  simp [carets]

theorem barred_quoted {number : Nat} (member : number ∈ numbers)
    (fits : (Decimal.ofNat number).length ≤ gutter) (line : Text) :
    Barred gutter numbers (render gutter (.quoted number line)) := by
  refine ⟨alignRight gutter (Decimal.ofNat number), ' ' :: line, ?_, ?_, .inr ⟨number, member, _,
    rfl⟩⟩
  · simp [render]
  · rw [alignRight, List.length_leftpad, Nat.max_eq_left fits]

/-- The character has no part in the layout of rows and stands in one only if it is in what the row
tells. -/
structure Foreign (c : Char) : Prop where
  digit : c.isDigit = false
  layout : c ≠ ' ' ∧ c ≠ '|' ∧ c ≠ '^' ∧ c ≠ ':'

theorem foreign_newline : Foreign '\n' := ⟨rfl, by decide⟩

theorem foreign_escape : Foreign '\x1b' := ⟨rfl, by decide⟩

namespace Foreign

variable {c : Char} {shown : Text}

theorem not_mem_ofNat (foreign : Foreign c) (n : Nat) : c ∉ Decimal.ofNat n := by
  intro member
  have digit := Decimal.isDigit_of_mem_ofNat member
  rw [foreign.digit] at digit
  cases digit

theorem not_mem_space (foreign : Foreign c) (gutter : Nat) : c ∉ render gutter .space := by
  simp [render, List.mem_replicate, foreign.layout]

theorem not_mem_place (foreign : Foreign c) (free : c ∉ shown) (line column : Nat) :
    c ∉ shown ++ ":" ++ Decimal.ofNat line ++ ":" ++ Decimal.ofNat column := by
  simp [foreign.not_mem_ofNat, free, foreign.layout]

theorem not_mem_quoted (foreign : Foreign c) (free : c ∉ shown) (gutter number : Nat) :
    c ∉ render gutter (.quoted number shown) := by
  simp [render, alignRight, List.leftpad, foreign.not_mem_ofNat, free, foreign.layout]

theorem not_mem_carets (foreign : Foreign c) (free : c ∉ shown) (gutter indent width : Nat) :
    c ∉ carets gutter indent width shown := by
  simp [carets, List.mem_replicate, free, foreign.layout]

end Foreign

theorem plain_header (gutter code : Nat) (message : Text) :
    Ansi.plain (render gutter (.header code message)) =
      "error[E" ++ Decimal.padded 3 code ++ "]: " ++ Ansi.plain message := by
  have red : Ansi.Color.red.code.all Ansi.parameter := rfl
  have bold : (['1'] : Text).all Ansi.parameter := rfl
  have reset : (['0'] : Text).all Ansi.parameter := rfl
  have name : '\x1b' ∉ ("error[E" : Text) ++ Decimal.padded 3 code ++ "]" := by
    simp [Decimal.padded, List.leftpad, escape_not_mem_ofNat]
  have shape : render gutter (.header code message) =
      Ansi.graphic Ansi.Color.red.code ++ (Ansi.graphic ['1'] ++
        ("error[E" ++ Decimal.padded 3 code ++ "]" ++
          (Ansi.graphic ['0'] ++ ((": " : Text) ++ message)))) := by
    simp [render, Ansi.boldColored]
  rw [shape, Ansi.plain_graphic (List.all_eq_true.mp red),
    Ansi.plain_graphic (List.all_eq_true.mp bold), Ansi.plain_append name,
    Ansi.plain_graphic (List.all_eq_true.mp reset), Ansi.plain_append (by decide)]
  simp

end Row

namespace Report

variable {r : Report} {source path : Text}

/-- Sorted by keys, each of them once, what has one of the keys is all there. -/
theorem flatMap_filter_perm {α : Type} (key : α → Nat) {keys : List Nat} (once : keys.Nodup)
    (l : List α) :
    (keys.flatMap fun k => l.filter (key · = k)).Perm (l.filter (key · ∈ keys)) := by
  induction keys with
  | nil => simp
  | cons k keys ih =>
    obtain ⟨new, once⟩ := List.nodup_cons.mp once
    have first : (l.filter (key · ∈ k :: keys)).filter (key · = k) = l.filter (key · = k) := by
      rw [List.filter_filter]
      exact List.filter_congr fun a _ => by by_cases same : key a = k <;> simp [same]
    have others : (l.filter (key · ∈ k :: keys)).filter (fun a => !decide (key a = k)) =
        l.filter (key · ∈ keys) := by
      rw [List.filter_filter]
      exact List.filter_congr fun a _ => by by_cases same : key a = k <;> simp [same, new]
    have parts := List.filter_append_perm (fun a => decide (key a = k))
      (l.filter (key · ∈ k :: keys))
    rw [first, others] at parts
    exact ((ih once).append_left _).trans parts

def startingOn (r : Report) (source : Text) (number : Nat) : List Annotation :=
  r.annotations.filter fun a => (a.position source).line = number

def caretRow (source : Text) (gutter : Nat) (a : Annotation) : Text :=
  Row.carets gutter ((a.position source).column - 1) (max (a.span.stop - a.span.start) 1)
    (Ansi.plain a.note)

def plainLineRows (r : Report) (source : Text) (gutter number : Nat) : List Text :=
  Row.render gutter (.quoted number (Ansi.plain (source.quotedLine number))) ::
    (r.startingOn source number).map (caretRow source gutter)

theorem startingOn_perm (r : Report) (source : Text) :
    ((r.lineNumbers source).flatMap (r.startingOn source)).Perm r.annotations := by
  have once : (r.lineNumbers source).Nodup := nodup_eraseDups _
  have grouped := flatMap_filter_perm (fun a => (a.position source).line) once r.annotations
  have all : r.annotations.filter (fun a => (a.position source).line ∈ r.lineNumbers source) =
      r.annotations :=
    List.filter_eq_self.mpr fun a member => by simpa using mem_lineNumbers.mpr ⟨a, member, rfl⟩
  rw [all] at grouped
  exact grouped

theorem plain_lineRows (r : Report) (source : Text) (gutter number : Nat) :
    (r.lineRows source number).map (fun row => Ansi.plain (row.render gutter)) =
      r.plainLineRows source gutter number := by
  rw [lineRows, plainLineRows, List.map_cons, Row.plain_quoted, List.map_map]
  congr 1
  exact List.map_congr_left fun a _ => Row.plain_marked ..

theorem plain_rows (r : Report) (source path : Text) (gutter : Nat) :
    ((r.rows source path).map fun row => Ansi.plain (row.render gutter)) =
      ("error[E" ++ Decimal.padded 3 r.code ++ "]: " ++ Ansi.plain r.message) ::
      (List.replicate gutter ' ' ++ "--> " ++
        Ansi.plain (path ++ ":" ++ Decimal.ofNat (Position.ofOffset source r.anchor).line ++ ":" ++
          Decimal.ofNat (Position.ofOffset source r.anchor).column)) ::
      Row.render gutter .space ::
      (r.lineNumbers source).flatMap (r.plainLineRows source gutter) := by
  have bare : Ansi.plain (Row.render gutter .space) = Row.render gutter .space :=
    Ansi.plain_of_not_mem (by simp [Row.render])
  have numbered : ((r.lineNumbers source).flatMap (r.lineRows source)).map
      (fun row => Ansi.plain (row.render gutter)) =
        (r.lineNumbers source).flatMap (r.plainLineRows source gutter) := by
    rw [List.map_flatMap]
    exact List.flatMap_congr fun number _ => plain_lineRows r source gutter number
  rw [rows, List.map_append, numbered]
  simp only [List.map_cons, List.map_nil, Row.plain_header, Row.plain_place, bare,
    List.cons_append, List.nil_append]

theorem exists_line_of_mem {number : Nat} (member : number ∈ r.lineNumbers source) :
    0 < number ∧ ∃ line, (lines source)[number - 1]? = some line ∧
      source.quotedLine number = trimEnd (· == '\r') line := by
  obtain ⟨a, -, rfl⟩ := mem_lineNumbers.mp member
  have inside := Position.line_le source a.span.start
  have positive : 0 < (a.position source).line := Nat.succ_pos _
  have found : (a.position source).line - 1 < (lines source).length :=
    Nat.lt_of_lt_of_le (Nat.sub_one_lt_of_lt positive) inside
  refine ⟨positive, _, List.getElem?_eq_getElem found, ?_⟩
  rw [quotedLine, List.getElem?_eq_getElem found, Option.getD_some]

theorem newline_not_mem_quotedLine (source : Text) (number : Nat) :
    '\n' ∉ source.quotedLine number := by
  intro member
  obtain ⟨line, given, inside⟩ := exists_line_of_mem_quotedLine member
  exact not_mem_of_mem_lines line given inside

theorem barred_of_mem {gutter number : Nat} {numbers : List Nat} {row : Text}
    (member : number ∈ numbers) (fits : (Decimal.ofNat number).length ≤ gutter)
    (among : row ∈ r.plainLineRows source gutter number) : Row.Barred gutter numbers row := by
  rcases List.mem_cons.mp among with rfl | below
  · exact Row.barred_quoted member fits _
  · obtain ⟨a, -, rfl⟩ := List.mem_map.mp below
    exact Row.barred_carets ..

theorem not_mem_of_mem {c : Char} {gutter number : Nat} {row : Text} (foreign : Row.Foreign c)
    (lines : c ∉ source.quotedLine number) (notes : ∀ a ∈ r.annotations, c ∉ a.note)
    (among : row ∈ r.plainLineRows source gutter number) : c ∉ row := by
  rcases List.mem_cons.mp among with rfl | below
  · exact foreign.not_mem_quoted (Ansi.not_mem_plain lines) gutter number
  · obtain ⟨a, own, rfl⟩ := List.mem_map.mp below
    have note := notes a (List.mem_filter.mp own).1
    exact foreign.not_mem_carets (Ansi.not_mem_plain note) gutter _ _

/-- Below its header a report names its place behind a blank margin. Then come the lines on which
annotations start, each once and from the first to the last, quoted as they stand in the source and
numbered, and between one of them and the next a row of carets for each annotation that starts on
it, in the order in which they are given. The margin is as wide as the largest number, and behind
it all these rows have their bars. -/
theorem rows_in_order (some : r.annotations ≠ []) (oneLinePath : '\n' ∉ path)
    (oneLineNotes : ∀ a ∈ r.annotations, '\n' ∉ a.note) :
    ∃ report gutter numbers, r.render? source path = .some report ∧
      let place := Position.ofOffset source r.anchor
      let header : Text := "error[E" ++ Decimal.padded 3 r.code ++ "]: " ++ Ansi.plain r.message
      let locator := List.replicate gutter ' ' ++ "--> " ++
        Ansi.plain (path ++ ":" ++ Decimal.ofNat place.line ++ ":" ++ Decimal.ofNat place.column)
      let rows := Row.render gutter .space :: numbers.flatMap (r.plainLineRows source gutter)
      Ansi.plain report = header ++ '\n' :: unlines (locator :: rows) ∧
      (∀ row ∈ locator :: rows, '\n' ∉ row) ∧
      (∀ row ∈ rows, Row.Barred gutter numbers row) ∧
      (∃ last ∈ numbers, gutter = (Decimal.ofNat last).length ∧
        ∀ a ∈ r.annotations, (a.position source).line ≤ last) ∧
      numbers.Pairwise (· < ·) ∧
      (∀ number, number ∈ numbers ↔ ∃ a ∈ r.annotations, (a.position source).line = number) ∧
      (∀ number ∈ numbers, 0 < number ∧ ∃ line, (lines source)[number - 1]? = .some line ∧
        source.quotedLine number = trimEnd (· == '\r') line) ∧
      (numbers.flatMap (r.startingOn source)).Perm r.annotations := by
  obtain ⟨last, inside, largest, report, rendered, plain⟩ := plain_render? some source path
  have fits : ∀ number ∈ r.lineNumbers source,
      (Decimal.ofNat number).length ≤ (Decimal.ofNat last).length :=
    fun number among => Decimal.length_ofNat_mono (largest number among)
  have covers (a : Annotation) (member : a ∈ r.annotations) : (a.position source).line ≤ last :=
    largest _ (mem_lineNumbers.mpr ⟨a, member, rfl⟩)
  refine ⟨report, (Decimal.ofNat last).length, r.lineNumbers source, rendered, ?_, ?_, ?_,
    ⟨last, inside, rfl, covers⟩, increasing_lineNumbers source r, fun _ => mem_lineNumbers,
    fun _ => exists_line_of_mem, startingOn_perm r source⟩
  · rw [plain, plain_rows, unlines_cons]
  · intro row among
    rcases List.mem_cons.mp among with rfl | below
    · have place := Row.foreign_newline.not_mem_place oneLinePath
        (Position.ofOffset source r.anchor).line (Position.ofOffset source r.anchor).column
      simpa using Ansi.not_mem_plain place
    · rcases List.mem_cons.mp below with rfl | line
      · exact Row.foreign_newline.not_mem_space _
      · obtain ⟨number, -, among⟩ := List.mem_flatMap.mp line
        exact not_mem_of_mem Row.foreign_newline (newline_not_mem_quotedLine source number)
          oneLineNotes among
  · intro row among
    rcases List.mem_cons.mp among with rfl | line
    · exact Row.barred_space _ _
    · obtain ⟨number, member, among⟩ := List.mem_flatMap.mp line
      exact barred_of_mem member (fits number member) among

theorem rows_in_order_of_ten_lines :
    let source : Text := "x\n\n\n\n\n\n\n\n\nlast"
    let past : Annotation := ⟨⟨16, 16⟩, "past", .blue⟩
    let start : Annotation := ⟨⟨10, 12⟩, "start", .red⟩
    let first : Annotation := ⟨⟨0, 1⟩, "first", .red⟩
    let r : Report := ⟨2, "again", 16, [past, start, first]⟩
    ∃ report, r.render? source "a.tm" = .some report ∧
      Ansi.plain report = unlines ["error[E002]: again", "  --> a.tm:10:7", "   |",
        " 1 | x", "   | ^ first", "10 | last", "   |       ^ past", "   | ^^ start"] := by
  intro source past start first r
  obtain ⟨report, gutter, numbers, rendered, plain, -, -, ⟨last, inside, rfl, largest⟩, increasing,
    starts, -⟩ := @rows_in_order r source "a.tm" (List.cons_ne_nil _ _) (by decide) (by decide)
  have pastAt : past.position source = ⟨10, 7⟩ := by decide
  have startAt : start.position source = ⟨10, 1⟩ := by decide
  have firstAt : first.position source = ⟨1, 1⟩ := by decide
  obtain rfl : numbers = [1, 10] := by
    refine increasing.eq_of_mem_iff (by decide) fun number => (starts number).trans ?_
    have lines (P : Nat → Prop) : (∃ a ∈ r.annotations, P (a.position source).line) ↔ P 10 ∨ P 1 :=
      by simp [r, pastAt, startAt, firstAt]
    rw [lines (· = number), List.mem_pair]
    omega
  obtain rfl : last = 10 := by
    have tenth : (past.position source).line ≤ last := largest past List.mem_cons_self
    rw [pastAt] at tenth
    rcases List.mem_pair.mp inside with rfl | rfl
    · exact absurd tenth (by decide)
    · rfl
  have note (a : Annotation) (member : a ∈ r.annotations) : Ansi.plain a.note = a.note :=
    Ansi.plain_of_not_mem ((by decide : ∀ a ∈ r.annotations, '\x1b' ∉ a.note) a member)
  have wide : (Decimal.ofNat 10).length = 2 := rfl
  have one : r.plainLineRows source 2 1 = ([" 1 | x", "   | ^ first"] : List Text) := by
    have own : r.startingOn source 1 = [first] := by decide
    have quoted : Ansi.plain (source.quotedLine 1) = "x" := Ansi.plain_of_not_mem (by decide)
    rw [plainLineRows, own, quoted, List.map_singleton, caretRow, note first (by decide)]
    decide
  have ten : r.plainLineRows source 2 10 =
      (["10 | last", "   |       ^ past", "   | ^^ start"] : List Text) := by
    have own : r.startingOn source 10 = [past, start] := by decide
    have quoted : Ansi.plain (source.quotedLine 10) = "last" := Ansi.plain_of_not_mem (by decide)
    rw [plainLineRows, own, quoted, List.map_cons, List.map_singleton, caretRow, caretRow,
      note past (by decide), note start (by decide)]
    decide
  have message : Ansi.plain r.message = r.message := Ansi.plain_of_not_mem (by decide)
  refine ⟨report, rendered, plain.trans ?_⟩
  rw [message, Ansi.plain_of_not_mem (by decide), List.flatMap_cons, List.flatMap_singleton, wide,
    one, ten]
  decide

end Report

end TapeMachine
