import TapeMachine.Proofs.Linking

/-! Lines whose labels have other names and stand elsewhere. As long as different names stay
different, labels are looked up as before: the program has the same instructions and targets, and
the mistakes are the same ones, about the new names and places. -/
namespace TapeMachine

section

variable (f : Text → Text) (h : Span → Span)

def Token.relabel (t : Token) : Token := ⟨f t.text, h t.span⟩

def Instr.relabel (i : Instr) : Instr := { i with label := i.label.map (Token.relabel f h) }

def Line.relabel : Line → Line
  | instr i => instr (i.relabel f h)
  | label token => label (token.relabel f h)
  | malformed => malformed

def Labels.Definition.relabel (d : Definition) : Definition :=
  { d with token := d.token.relabel f h }

def LabelMistake.relabel : LabelMistake → LabelMistake
  | unknown reference => unknown (reference.relabel f h)
  | redefined name first second => redefined (f name) (h first) (h second)

def SymbolTable.rename (table : SymbolTable) : SymbolTable :=
  table.map fun entry => (f entry.1, entry.2)

def Program.relabel (p : Program) : Program := ⟨p.code.map (Instr.relabel f h), p.labels.rename f⟩

end

/-- Different names among these have different new names. -/
def Apart (f : Text → Text) (names : List Text) : Prop :=
  ∀ a ∈ names, ∀ b ∈ names, f a = f b → a = b

def Line.name? : Line → Option Text
  | instr i => i.label.map Token.text
  | label token => some token.text
  | malformed => none

theorem Apart.mono {f : Text → Text} {names fewer : List Text} (apart : Apart f names)
    (among : ∀ a ∈ fewer, a ∈ names) : Apart f fewer :=
  fun a member b member' => apart a (among a member) b (among b member')

namespace Labels

variable {f : Text → Text} {h : Span → Span}

def names (ls : List Line) : List Text := ls.filterMap Line.name?

theorem name_of_definition {ls : List Line} {d : Definition} (index : Nat)
    (member : d ∈ definitionsFrom index ls) : d.token.text ∈ names ls := by
  induction ls generalizing index with
  | nil => cases member
  | cons line ls ih =>
    have later (index : Nat) (member : d ∈ definitionsFrom index ls) :
        d.token.text ∈ names (line :: ls) := by
      unfold names
      rw [List.filterMap_cons]
      split
      · exact ih index member
      · exact List.mem_cons_of_mem _ (ih index member)
    cases line with
    | instr i => exact later _ member
    | malformed => exact later _ member
    | label token =>
      rcases List.mem_cons.mp member with rfl | member
      · exact List.mem_cons_self
      · exact later _ member

theorem names_of_definitions (ls : List Line) :
    ∀ a ∈ (definitions ls).map (·.token.text), a ∈ names ls := by
  intro a member
  obtain ⟨d, inside, rfl⟩ := List.mem_map.mp member
  exact name_of_definition 0 inside

theorem name_of_reference {ls : List Line} {i : Instr} {token : Token} (member : i ∈ instrs ls)
    (refers : i.reference? = some token) : token.text ∈ names ls := by
  have labelled : i.label = some token := by
    unfold Instr.reference? at refers
    split at refers
    · exact refers
    · cases refers
  apply List.mem_filterMap.mpr
  exact ⟨.instr i, mem_of_mem_instrs member, by simp [Line.name?, labelled]⟩

theorem definitionsFrom_relabel (index : Nat) (ls : List Line) :
    definitionsFrom index (ls.map (Line.relabel f h)) =
      (definitionsFrom index ls).map (Definition.relabel f h) := by
  induction ls generalizing index with
  | nil => rfl
  | cons line ls ih =>
    cases line with
    | instr i => exact ih (index + 1)
    | label token => exact congrArg _ (ih index)
    | malformed => exact ih index

theorem definitions_relabel (ls : List Line) :
    definitions (ls.map (Line.relabel f h)) = (definitions ls).map (Definition.relabel f h) :=
  definitionsFrom_relabel 0 ls

theorem instrs_relabel (ls : List Line) :
    instrs (ls.map (Line.relabel f h)) = (instrs ls).map (Instr.relabel f h) := by
  unfold instrs
  rw [List.filterMap_map, List.map_filterMap]
  apply List.filterMap_congr
  intro line _
  cases line <;> rfl

theorem except_relabel {name : Text} {ds : List Definition}
    (apart : Apart f (name :: ds.map (·.token.text))) :
    except (f name) (ds.map (Definition.relabel f h)) =
      (except name ds).map (Definition.relabel f h) := by
  unfold except
  rw [List.filter_map]
  congr 1
  apply List.filter_congr
  intro d member
  have inside : d.token.text ∈ name :: ds.map (·.token.text) :=
    List.mem_cons_of_mem _ (List.mem_map_of_mem member)
  have same : f d.token.text = f name ↔ d.token.text = name :=
    ⟨apart _ inside _ List.mem_cons_self, congrArg f⟩
  simp [Definition.relabel, Token.relabel, same]

theorem firsts_relabel {ds : List Definition} (apart : Apart f (ds.map (·.token.text))) :
    firsts (ds.map (Definition.relabel f h)) = (firsts ds).map (Definition.relabel f h) := by
  induction ds using firsts_induction with
  | nil => rfl
  | cons d ds ih =>
    have kept : (except d.token.text ds).Sublist ds := List.filter_sublist
    have apart' : Apart f ((except d.token.text ds).map (·.token.text)) :=
      apart.mono fun a member => List.mem_cons_of_mem _ ((kept.map _).mem member)
    have others : except (f d.token.text) (ds.map (Definition.relabel f h)) =
        (except d.token.text ds).map (Definition.relabel f h) := except_relabel apart
    rw [List.map_cons, firsts_cons, firsts_cons, List.map_cons]
    congr 1
    exact (congrArg firsts others).trans (ih apart')

theorem find?_relabel {name : Text} {seen : List Token}
    (apart : Apart f (name :: seen.map Token.text)) :
    (seen.map (Token.relabel f h)).find? (·.text == f name) =
      (seen.find? (·.text == name)).map (Token.relabel f h) := by
  induction seen with
  | nil => rfl
  | cons t seen ih =>
    have same : f t.text = f name ↔ t.text = name :=
      ⟨apart _ (by simp) _ List.mem_cons_self, congrArg f⟩
    have others : Apart f (name :: seen.map Token.text) := by
      apply apart.mono
      grind
    rw [List.map_cons, List.find?_cons, List.find?_cons, ih others]
    by_cases here : t.text = name
    · simp [Token.relabel, here]
    · have apartHere : (f t.text == f name) = false := by simpa [same] using here
      have notHere : (t.text == name) = false := by simpa using here
      simp only [Token.relabel, apartHere, notHere]

theorem redefinitions_relabel {seen : List Token} {ds : List Definition}
    (apart : Apart f (seen.map Token.text ++ ds.map (·.token.text))) :
    redefinitions (seen.map (Token.relabel f h)) (ds.map (Definition.relabel f h)) =
      (redefinitions seen ds).map (LabelMistake.relabel f h) := by
  induction ds generalizing seen with
  | nil => rfl
  | cons d ds ih =>
    have found : (seen.map (Token.relabel f h)).find? (·.text == f d.token.text) =
        (seen.find? (·.text == d.token.text)).map (Token.relabel f h) := by
      apply find?_relabel
      apply apart.mono
      grind
    have rest : Apart f (seen.map Token.text ++ ds.map (·.token.text)) := by
      apply apart.mono
      grind
    have more : Apart f ((seen ++ [d.token]).map Token.text ++ ds.map (·.token.text)) := by
      apply apart.mono
      grind
    simp only [List.map_cons, redefinitions, Definition.relabel, Token.relabel] at found ⊢
    rw [found]
    cases seen.find? (·.text == d.token.text) with
    | some first => exact congrArg _ (ih rest)
    | none =>
      have later := ih more
      rw [List.map_append] at later
      exact later

theorem table_relabel {ls : List Line} (apart : Apart f (names ls)) :
    table (ls.map (Line.relabel f h)) = (table ls).rename f := by
  have defined := apart.mono (names_of_definitions ls)
  unfold table
  rw [definitions_relabel, firsts_relabel defined, SymbolTable.rename, List.map_map, List.map_map]
  rfl

theorem names_subset_cons (line : Line) (ls : List Line) : names ls ⊆ names (line :: ls) :=
  ((List.sublist_cons_self line ls).filterMap Line.name?).subset

theorem definingLine?_relabel {ls : List Line} {name : Text} (apart : Apart f (name :: names ls)) :
    definingLine? (ls.map (Line.relabel f h)) (f name) = definingLine? ls name := by
  induction ls with
  | nil => rfl
  | cons line ls ih =>
    have here : (line.relabel f h).defines (f name) = line.defines name := by
      cases line with
      | instr i => rfl
      | malformed => rfl
      | label token =>
        have same : f token.text = f name ↔ token.text = name :=
          ⟨apart _ (by simp [names, Line.name?]) _ List.mem_cons_self, congrArg f⟩
        simp [Line.defines, Line.relabel, Token.relabel, same]
    have later := ih (apart.mono (List.cons_subset_cons name (names_subset_cons line ls)))
    unfold definingLine? at later ⊢
    rw [List.map_cons, List.findIdx?_cons, List.findIdx?_cons, here, later]

theorem lookup_table_relabel {ls : List Line} {name : Text} (apart : Apart f (names ls))
    (member : name ∈ names ls) :
    (table (ls.map (Line.relabel f h))).lookup (f name) = (table ls).lookup name := by
  have among : Apart f (name :: names ls) := apart.mono (by simpa using member)
  have count (l : Nat) : before (ls.map (Line.relabel f h)) l = before ls l := by
    unfold before
    rw [← List.map_take, instrs_relabel, List.length_map]
  rw [lookup_table, lookup_table, definingLine?_relabel among]
  simp only [count]

theorem reference?_relabel (i : Instr) :
    (i.relabel f h).reference? = i.reference?.map (Token.relabel f h) := by
  unfold Instr.reference? Instr.relabel
  split <;> rfl

theorem unknowns_relabel {ls : List Line} (apart : Apart f (names ls)) :
    unknowns (table (ls.map (Line.relabel f h))) (instrs (ls.map (Line.relabel f h))) =
      (unknowns (table ls) (instrs ls)).map (Token.relabel f h) := by
  have references : ((instrs ls).map (Instr.relabel f h)).filterMap Instr.reference? =
      ((instrs ls).filterMap Instr.reference?).map (Token.relabel f h) := by
    rw [List.filterMap_map, List.map_filterMap]
    apply List.filterMap_congr
    intro i _
    exact reference?_relabel i
  unfold unknowns
  rw [instrs_relabel, references, List.filter_map]
  congr 1
  apply List.filter_congr
  intro token member
  obtain ⟨i, inside, refers⟩ := List.mem_filterMap.mp member
  exact congrArg Option.isNone (lookup_table_relabel apart (name_of_reference inside refers))

theorem errors_relabel {ls : List Line} (apart : Apart f (names ls)) :
    errors (ls.map (Line.relabel f h)) = (errors ls).map (LabelMistake.relabel f h) := by
  have redefined : redefinitions [] ((definitions ls).map (Definition.relabel f h)) =
      (redefinitions [] (definitions ls)).map (LabelMistake.relabel f h) := by
    have defined : Apart f ([].map Token.text ++ (definitions ls).map (·.token.text)) :=
      apart.mono (names_of_definitions ls)
    exact redefinitions_relabel defined
  unfold errors
  rw [definitions_relabel, redefined, unknowns_relabel apart, List.map_append, List.map_map,
    List.map_map]
  rfl

theorem withTarget_relabel {ls : List Line} {i : Instr} (apart : Apart f (names ls))
    (member : i ∈ instrs ls) :
    (i.relabel f h).withTarget (table (ls.map (Line.relabel f h))) =
      (i.withTarget (table ls)).relabel f h := by
  unfold Instr.withTarget
  rw [reference?_relabel]
  cases refers : i.reference? with
  | none => rfl
  | some token =>
    have target := lookup_table_relabel (h := h) apart (name_of_reference member refers)
    simp only [Option.map_some, Token.relabel, target]
    rfl

end Labels

/-- What becomes of the lines becomes of the lines with other names and places, with the names and
places replaced. -/
theorem Program.ofLines_relabel {f : Text → Text} {h : Span → Span} {ls : List Line}
    (apart : Apart f (Labels.names ls)) : ofLines (ls.map (Line.relabel f h)) =
      match ofLines ls with
      | .ok p => .ok (p.relabel f h)
      | .error es => .error (es.map (LabelMistake.relabel f h)) := by
  have code : (Labels.instrs (ls.map (Line.relabel f h))).map
        (·.withTarget (Labels.table (ls.map (Line.relabel f h)))) =
      ((Labels.instrs ls).map (·.withTarget (Labels.table ls))).map (Instr.relabel f h) := by
    rw [Labels.instrs_relabel, List.map_map, List.map_map]
    apply List.map_congr_left
    intro i member
    exact Labels.withTarget_relabel apart member
  unfold ofLines
  rw [Labels.errors_relabel apart, code, Labels.table_relabel apart, List.isEmpty_map]
  split
  · simp [relabel]
  · rfl

end TapeMachine
