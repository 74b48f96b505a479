import TapeMachine.Proofs.Reading

namespace TapeMachine

open Text

/-- `w` stands in `t` behind the first `i` characters. -/
def Text.StandsAt (t w : Text) (i : Nat) : Prop :=
  ∃ before behind, t = before ++ (w ++ behind) ∧ before.length = i

namespace Text.StandsAt

variable {s t w : Text} {i j : Nat}

theorem at_eq (stands : StandsAt t w i) : t.at (.of i w.length) = w := by
  obtain ⟨before, behind, rfl, rfl⟩ := stands
  simp [Text.at, slice, Span.of, List.take_append]

theorem le_length (stands : StandsAt t w i) : i + w.length ≤ t.length := by
  obtain ⟨before, behind, rfl, rfl⟩ := stands
  simp only [List.length_append]
  omega

theorem trans (outer : StandsAt s t i) (inner : StandsAt t w j) : StandsAt s w (i + j) := by
  obtain ⟨before, behind, rfl, rfl⟩ := outer
  obtain ⟨before', behind', rfl, rfl⟩ := inner
  exact ⟨before ++ before', behind' ++ behind, by simp, by simp⟩

theorem extend (stands : StandsAt t w i) (u : Text) : StandsAt (t ++ u) w i := by
  obtain ⟨before, behind, rfl, rfl⟩ := stands
  exact ⟨before, behind ++ u, by simp, rfl⟩

theorem of_getElem? {c : Char} (found : t[i]? = some c) : StandsAt t [c] i := by
  obtain ⟨inside, rfl⟩ := List.getElem?_eq_some_iff.mp found
  refine ⟨t.take i, t.drop (i + 1), ?_, List.length_take_of_le (Nat.le_of_lt inside)⟩
  rw [List.singleton_append, ← List.drop_eq_getElem_cons inside, List.take_append_drop]

end Text.StandsAt

namespace Piece

def whole (p : Piece) : Text := p.text ++ if p.terminated then ['\n'] else []

theorem length_whole_le (p : Piece) : p.whole.length ≤ p.text.length + 1 := by
  unfold whole
  split <;> simp

theorem ofLines_stands {ls : List Text} (before : Text) : ∀ p ∈ ofLines before.length ls,
    StandsAt (before ++ ['\n'].intercalate ls) p.whole p.offset ∧
      (p.terminated = false → p.stop = (before ++ ['\n'].intercalate ls).length) := by
  induction ls generalizing before with
  | nil => nofun
  | cons line more ih =>
    cases more with
    | nil =>
      intro p member
      obtain rfl := List.mem_singleton.mp member
      exact ⟨⟨before, [], by simp [whole], rfl⟩, fun _ => by simp [stop]⟩
    | cons next more =>
      intro p member
      rcases List.mem_cons.mp member with rfl | later
      · exact ⟨⟨before, ['\n'].intercalate (next :: more), by simp [whole], rfl⟩, nofun⟩
      · have moved : before.length + line.length + 1 = (before ++ (line ++ ['\n'])).length := by
          simp [Nat.add_assoc]
        rw [moved] at later
        simpa using ih (before ++ (line ++ ['\n'])) p later

theorem ofSource_stands {source : Text} {p : Piece} (member : p ∈ ofSource source) :
    StandsAt source p.whole p.offset ∧ (p.terminated = false → p.stop = source.length) := by
  have places := ofLines_stands [] p member
  rwa [Text.lines, List.intercalate_splitOn] at places

end Piece

theorem Element.Lexeme.reference {e : Element} {i j : Nat} {w name : Text} {ns : List Note}
    (lexeme : e.Lexeme i w ns) (noted : .reference name j ∈ ns) : w = name ∧ j = i := by
  cases e with
  | reference =>
    obtain ⟨-, rfl⟩ := lexeme
    cases List.mem_singleton.mp noted
    exact ⟨rfl, rfl⟩
  | separator =>
    obtain ⟨-, -, rfl⟩ := lexeme
    cases noted
  | register =>
    obtain ⟨r, -, rfl⟩ := lexeme
    cases List.mem_singleton.mp noted
  | value =>
    obtain ⟨v, -, -, rfl⟩ := lexeme
    cases List.mem_singleton.mp noted
  | keyword | definition =>
    obtain ⟨-, rfl⟩ := lexeme
    cases List.mem_singleton.mp noted
  | colon | lineEnd =>
    obtain ⟨-, rfl⟩ := lexeme
    cases noted

theorem Element.readAll_references {es : List Element} {offset : Nat} {t : Text} {ns : List Note}
    (read : readAll es offset t = .ok ns) {name : Text} {i : Nat}
    (noted : .reference name i ∈ ns) : ∃ j, StandsAt t name j ∧ i = offset + j := by
  induction es generalizing offset t ns with
  | nil =>
    cases read
    cases noted
  | cons e es ih =>
    obtain ⟨first, others, here, later, rfl⟩ := readAll_cons_ok_iff.mp read
    obtain ⟨gap, w, rfl, -, lexeme, -, moved⟩ := read_ok_iff.mp here
    rcases List.mem_append.mp noted with noted | noted
    · obtain ⟨rfl, rfl⟩ := lexeme.reference noted
      exact ⟨gap.length, ⟨gap, first.rest, rfl, rfl⟩, rfl⟩
    · obtain ⟨j, stands, rfl⟩ := ih later noted
      have behind : StandsAt (gap ++ (w ++ first.rest)) first.rest (gap.length + w.length) :=
        ⟨gap ++ w, [], by simp, by simp⟩
      refine ⟨gap.length + w.length + j, behind.trans stands, ?_⟩
      rw [moved]
      omega

theorem Form.label_read {t : Text} {ns : List Note} (read : label.read t = .ok ns) :
    ∃ name i, ns = [.definition name i] ∧ StandsAt t (name ++ [':']) i := by
  obtain ⟨first, others, definition, later, rfl⟩ := Element.readAll_cons_ok_iff.mp read
  obtain ⟨indent, name, rfl, -, ⟨-, noted⟩, -, -⟩ := Element.read_ok_iff.mp definition
  obtain ⟨rest, split, last⟩ := Element.readAll_colon_iff.mp later
  obtain ⟨_, _, lineEnd, nothing, rfl⟩ := Element.readAll_cons_ok_iff.mp last
  obtain ⟨-, -, -, -, ⟨-, plain⟩, -, -⟩ := Element.read_ok_iff.mp lineEnd
  cases nothing
  refine ⟨name, indent.length, ?_, indent, rest, ?_, rfl⟩
  · rw [noted, plain, Nat.zero_add, List.append_nil, List.append_nil]
  · simp [split]

namespace Draft

theorem notes_label {d : Draft} {ns : List Note} {token : Token}
    (labelled : (d.notes ns).label = some token) : d.label = some token ∨
      ∃ name i, .reference name i ∈ ns ∧ token = ⟨name, .of (d.offset + i) name.length⟩ := by
  induction ns generalizing d with
  | nil => exact .inl labelled
  | cons n ns ih =>
    rcases ih labelled with before | ⟨name, i, noted, rfl⟩
    · cases n with
      | reference name i =>
        cases before
        exact .inr ⟨name, i, List.mem_cons_self, rfl⟩
      | _ => exact .inl before
    · have moved : (d.note n).offset = d.offset := by cases n <;> rfl
      exact .inr ⟨name, i, List.mem_cons_of_mem _ noted, by rw [moved]⟩

theorem label_of_line {d : Draft} {i : Instr} (drafted : d.line = .ok (.instr i)) :
    i.label = d.label := by
  unfold line at drafted
  split at drafted <;> cases drafted
  rfl

end Draft

namespace Mismatch

theorem furthest_le {ms : List Mismatch} {n : Nat} (within : ∀ m ∈ ms, m.offset ≤ n) :
    furthest ms ≤ n := by
  refine List.foldlRecOn (ms.map offset) max (motive := (· ≤ n)) (Nat.zero_le n) ?_
  intro reached bound i member
  obtain ⟨m, inside, rfl⟩ := List.mem_map.mp member
  exact Nat.max_le.mpr ⟨bound, within m inside⟩

theorem found_stands {t : Text} {i : Nat} (inside : i ≤ t.length) :
    ∃ c, found t true i = some [c] ∧ StandsAt (t ++ ['\n']) [c] i := by
  unfold found
  cases here : t[i]? with
  | some c => exact ⟨c, rfl, (StandsAt.of_getElem? here).extend ['\n']⟩
  | none =>
    -- past the last character of the line its newline is found
    have last : i = t.length := Nat.le_antisymm inside (List.getElem?_eq_none_iff.mp here)
    exact ⟨'\n', rfl, t, [], by simp, last.symm⟩

theorem toError_stands {ms : List Mismatch} {t : Text} (offset : Nat)
    (within : ∀ m ∈ ms, m.offset ≤ t.length) : ∃ w, (toError ms t offset true).found = some w ∧
      StandsAt (t ++ ['\n']) w (furthest ms) ∧
      (toError ms t offset true).span = .of (offset + furthest ms) w.length := by
  obtain ⟨c, found, stands⟩ := found_stands (furthest_le within)
  exact ⟨[c], found, stands, by simp [toError, found]⟩

theorem offset_le_of_mismatch? {t : Text} {f : Form} {m : Mismatch}
    (failed : Verdict.mismatch? t f = some m) : m.offset ≤ t.length := by
  unfold Verdict.mismatch? at failed
  split at failed
  · rename_i read
    cases failed
    cases Form.fails_of_error read with
    | mismatch inside => exact inside
  · cases failed

end Mismatch

structure Span.Shows (s : Span) (source : Text) (p : Piece) (w : Text) : Prop where
  shown : source.at s = w
  ordered : s.start ≤ s.stop
  inLine : p.offset ≤ s.start ∧ s.stop ≤ p.stop + 1
  inSource : s.stop ≤ source.length

theorem Piece.shows {source w : Text} {p : Piece} {i : Nat} (member : p ∈ ofSource source)
    (stands : StandsAt p.whole w i) : (Span.of (p.offset + i) w.length).Shows source p w := by
  have place := (ofSource_stands member).1.trans stands
  have inLine := stands.le_length
  have short := p.length_whole_le
  refine ⟨place.at_eq, Nat.le_add_right _ _, ⟨Nat.le_add_right _ _, ?_⟩, place.le_length⟩
  simp only [Span.of, stop]
  omega

def Piece.Gives (p : Piece) (line : Line) : Prop :=
  p.verdict = .accepted line ∨ ∃ e, p.verdict = .rejected e ∧ line = .malformed

def Line.Faithful (source : Text) (p : Piece) : Line → Prop
  | instr i => ∀ token ∈ i.label, token.span.Shows source p token.text
  | label token => token.span.Shows source p (token.text ++ [':'])
  | malformed => True

/-- An error shows what was found, the whole numeral if it is about one. Where nothing was found,
the source ends without a newline. -/
def SyntaxError.Faithful (source : Text) (e : SyntaxError) : Prop :=
  match e.found with
  | some w => ∃ p ∈ Piece.ofSource source, p.verdict = .rejected e ∧ e.span.Shows source p w ∧
      (e.reason.isSome → ∃ i n, p.text.Literal i w n ∧ ¬ Word.InRange n ∧
        e.span.start = p.offset + i)
  | none => e =
      { span := ⟨source.length, source.length⟩
        expected := ["trailing newline"]
        found := none }

namespace Piece

variable {source : Text} {p : Piece}

theorem faithful_of_gives {line : Line} (member : p ∈ ofSource source) (gives : p.Gives line) :
    line.Faithful source p := by
  rcases gives with accepted | ⟨-, -, rfl⟩
  · obtain ⟨f, ns, read, drafted⟩ := Verdict.read_of_accepted accepted
    cases f with
    | label =>
      obtain ⟨name, i, rfl, stands⟩ := Form.label_read read
      cases drafted
      have shows := shows member (stands.extend _)
      rwa [List.length_append] at shows
    | instr op =>
      obtain ⟨made, drafted', i, rfl, -⟩ := Form.makes_line read p.offset
      rw [drafted] at drafted'
      cases drafted'
      intro token labelled
      rw [Draft.label_of_line drafted] at labelled
      rcases Draft.notes_label labelled with impossible | ⟨name, j, noted, rfl⟩
      · cases impossible
      · obtain ⟨k, stands, rfl⟩ := Element.readAll_references read noted
        rw [Nat.zero_add]
        exact shows member (stands.extend _)
  · trivial

theorem faithful_of_rejected {e : SyntaxError} (member : p ∈ ofSource source)
    (terminated : p.terminated) (rejected : p.verdict = .rejected e) : e.Faithful source := by
  rcases Verdict.failed_of_rejected rejected with ⟨f, i, w, failed, same⟩ | same
  · cases Form.fails_of_error failed with
    | @overflow _ _ n literal outside =>
      have literal' := literal
      obtain ⟨-, before, c, behind, split, place, -⟩ := literal'
      have stands : StandsAt p.text w i := ⟨before ++ [c], behind, by simp [split], by simp [place]⟩
      subst same
      exact ⟨p, member, rejected, shows member (stands.extend _), fun _ =>
        ⟨i, n, literal, outside, rfl⟩⟩
  · have within : ∀ m ∈ Form.all.filterMap (Verdict.mismatch? p.text),
        m.offset ≤ p.text.length := by
      intro m inside
      obtain ⟨f, -, failed⟩ := List.mem_filterMap.mp inside
      exact Mismatch.offset_le_of_mismatch? failed
    obtain ⟨w, found, stands, span⟩ := Mismatch.toError_stands p.offset within
    have whole : p.whole = p.text ++ ['\n'] := by simp [whole, terminated]
    rw [terminated] at same
    rw [← whole] at stands
    rw [← same] at found span
    unfold SyntaxError.Faithful
    rw [found]
    refine ⟨p, member, rejected, span ▸ shows member stands, ?_⟩
    intro reasoned
    rw [same] at reasoned
    cases reasoned

end Piece

namespace Listing

theorem gives_of_reads {ps : List Piece} {l : Listing} {ls : List Line} (reads : Reads ps l)
    (lines : l.lines = some ls) : List.Forall₂ Piece.Gives (ps.filter (!·.blank)) ls := by
  induction reads generalizing ls with
  | nil =>
    cases lines
    exact .nil
  | blank blank rest ih =>
    rw [List.filter_cons_of_neg (by simp [blank])]
    exact ih lines
  | accepted filled terminated verdict rest ih =>
    obtain ⟨later, read, rfl⟩ := Option.map_eq_some_iff.mp lines
    rw [List.filter_cons_of_pos (by simp [filled])]
    exact .cons (.inl verdict) (ih read)
  | rejected filled terminated verdict rest ih =>
    obtain ⟨later, read, rfl⟩ := Option.map_eq_some_iff.mp lines
    rw [List.filter_cons_of_pos (by simp [filled])]
    exact .cons (.inr ⟨_, verdict, rfl⟩) (ih read)
  | unfinished => cases lines

theorem error_of_reads {ps : List Piece} {l : Listing} {e : SyntaxError} (reads : Reads ps l)
    (member : e ∈ l.errors) : ∃ p ∈ ps, p.terminated ∧ p.verdict = .rejected e ∨
      p.terminated = false ∧ e ∈ (unfinished p.stop).errors := by
  induction reads with
  | nil => cases member
  | blank blank rest ih | accepted filled terminated verdict rest ih =>
    obtain ⟨p, inside, why⟩ := ih member
    exact ⟨p, List.mem_cons_of_mem _ inside, why⟩
  | rejected filled terminated verdict rest ih =>
    rcases List.mem_cons.mp member with rfl | later
    · exact ⟨_, List.mem_cons_self, .inl ⟨terminated, verdict⟩⟩
    · obtain ⟨p, inside, why⟩ := ih later
      exact ⟨p, List.mem_cons_of_mem _ inside, why⟩
  | unfinished filled ends => exact ⟨_, List.mem_cons_self, .inr ⟨ends, member⟩⟩

theorem faithful_of_error {source : Text} {l : Listing} {e : SyntaxError}
    (reads : Reads (Piece.ofSource source) l) (member : e ∈ l.errors) : e.Faithful source := by
  obtain ⟨p, inSource, ⟨terminated, rejected⟩ | ⟨open_, missing⟩⟩ := error_of_reads reads member
  · exact Piece.faithful_of_rejected inSource terminated rejected
  · have ends := (Piece.ofSource_stands inSource).2 open_
    rw [ends] at missing
    cases List.mem_singleton.mp missing
    rfl

theorem faithful_of_reads {source : Text} {l : Listing} {ls : List Line}
    (reads : Reads (Piece.ofSource source) l) (lines : l.lines = some ls) :
    List.Forall₂ (fun p line => p.Gives line ∧ line.Faithful source p)
      ((Piece.ofSource source).filter (!·.blank)) ls := by
  have inSource : ∀ p ∈ (Piece.ofSource source).filter (!·.blank), p ∈ Piece.ofSource source :=
    fun p member => (List.mem_filter.mp member).1
  have given := (List.forall₂_and_left _ _).mpr ⟨inSource, gives_of_reads reads lines⟩
  exact given.imp fun p line ⟨member, gives⟩ => ⟨gives, Piece.faithful_of_gives member gives⟩

/-- Every line that is read from a source, and every error, has faithful spans. -/
theorem spans_faithful {source : Text} {listing : Listing} (read : ofSource source = .ok listing) :
    (∀ ls, listing.lines = some ls →
      List.Forall₂ (fun p line => p.Gives line ∧ line.Faithful source p)
        ((Piece.ofSource source).filter (!·.blank)) ls) ∧
    ∀ e ∈ listing.errors, e.Faithful source := by
  have reads := reads_of_ofPieces read
  constructor
  · exact fun ls lines => faithful_of_reads reads lines
  · exact fun e member => faithful_of_error reads member

theorem spans_faithful_of_four_lines :
    let source : Text := "go:\n\tjmp go\nend\nset -9223372036854775809\n"
    ∃ listing ls, ofSource source = .ok listing ∧ listing.lines = some ls ∧
      ls.take 2 = [.label ⟨"go", ⟨0, 3⟩⟩, .instr { op := .jmp, label := some ⟨"go", ⟨9, 11⟩⟩ }] ∧
      listing.errors.map (·.span) = [⟨15, 16⟩, ⟨20, 40⟩] ∧
      List.Forall₂ (fun p line => p.Gives line ∧ line.Faithful source p)
        ((Piece.ofSource source).filter (!·.blank)) ls ∧
      ∀ e ∈ listing.errors, e.Faithful source := by
  intro source
  have read : ofSource source = .ok _ := rfl
  obtain ⟨lines, errors⟩ := spans_faithful read
  exact ⟨_, _, read, rfl, rfl, rfl, lines _ rfl, errors⟩

end Listing

end TapeMachine
