import TapeMachine.Proofs.Linking

namespace TapeMachine

namespace Labels

def labelAt? (ls : List Line) (l : Nat) : Option Token :=
  match ls[l]? with
  | some (.label token) => some token
  | _ => none

def entryAt? (ls : List Line) (l : Nat) : Option (Text × Int) :=
  (labelAt? ls l).map fun token => (token.text, (before ls l : Int))

/-- The mistake of line `l` if it defines a name that a line in front of it has defined. -/
def redefinition? (ls : List Line) (l : Nat) : Option LabelMistake := do
  let token ← labelAt? ls l
  let k ← definingLine? ls token.text
  let first ← labelAt? ls k
  if k < l then some (.redefined token.text first.span token.span) else none

def unknown? (ls : List Line) (i : Instr) : Option LabelMistake := do
  let token ← i.reference?
  if (definingLine? ls token.text).isNone then some (.unknown token) else none

def Distinct (ls : List Line) : Prop :=
  ∀ k l a b, labelAt? ls k = some a → labelAt? ls l = some b → a.text = b.text → k = l

/-- What an instruction is in a program of `size` instructions that is made of `ls`. -/
def Resolves (ls : List Line) (size : Nat) (i j : Instr) : Prop :=
  if i.op.takesLabel then
    ∃ token l, i.label = some token ∧ definingLine? ls token.text = some l ∧
      j = { i with target := some (before ls l : Int) } ∧ before ls l ≤ size
  else j = i

theorem labelAt?_eq_some {ls : List Line} {l : Nat} {token : Token} :
    labelAt? ls l = some token ↔ ls[l]? = some (.label token) := by
  unfold labelAt?
  split
  · rename_i found
    simp [found]
  · rename_i other
    constructor
    · intro label
      cases label
    · intro label
      exact absurd label (other token)

theorem labelAt?_append {ls : List Line} {l : Nat} (inside : l < ls.length) (more : List Line) :
    labelAt? (ls ++ more) l = labelAt? ls l := by
  unfold labelAt?
  rw [List.getElem?_append_left inside]

theorem labelAt?_length (ls : List Line) (line : Line) (more : List Line) :
    labelAt? (ls ++ line :: more) ls.length = labelAt? [line] 0 := by
  unfold labelAt?
  simp

theorem labelAt?_lt {ls : List Line} {l : Nat} {token : Token}
    (label : labelAt? ls l = some token) : l < ls.length :=
  (List.getElem?_eq_some_iff.mp (labelAt?_eq_some.mp label)).1

theorem defines_iff {name : Text} {line : Line} :
    line.defines name = true ↔ ∃ token, line = .label token ∧ token.text = name := by
  cases line with
  | label token => simp [Line.defines]
  | instr i => simp [Line.defines]
  | malformed => simp [Line.defines]

theorem label_of_definingLine? {ls : List Line} {name : Text} {l : Nat}
    (found : definingLine? ls name = some l) :
    ∃ token, labelAt? ls l = some token ∧ token.text = name := by
  obtain ⟨inside, defines, -⟩ := List.findIdx?_eq_some_iff_getElem.mp found
  obtain ⟨token, line, text⟩ := defines_iff.mp defines
  refine ⟨token, labelAt?_eq_some.mpr ?_, text⟩
  rw [List.getElem?_eq_getElem inside, line]

theorem definingLine?_le {ls : List Line} {l : Nat} {token : Token}
    (label : labelAt? ls l = some token) : ∃ k, definingLine? ls token.text = some k ∧ k ≤ l := by
  obtain ⟨inside, line⟩ := List.getElem?_eq_some_iff.mp (labelAt?_eq_some.mp label)
  have defines : ls[l].defines token.text = true := defines_iff.mpr ⟨token, line, rfl⟩
  cases found : definingLine? ls token.text with
  | none =>
    have none := List.findIdx?_eq_none_iff.mp found _ (List.getElem_mem inside)
    rw [defines] at none
    cases none
  | some k =>
    obtain ⟨_, _, earlier⟩ := List.findIdx?_eq_some_iff_getElem.mp found
    refine ⟨k, rfl, Nat.le_of_not_lt ?_⟩
    intro later
    exact earlier l later defines

theorem redefinition?_eq_some {ls : List Line} {l : Nat} {mistake : LabelMistake} :
    redefinition? ls l = some mistake ↔
      ∃ token k first, labelAt? ls l = some token ∧ definingLine? ls token.text = some k ∧
        labelAt? ls k = some first ∧ k < l ∧
        mistake = .redefined token.text first.span token.span := by
  unfold redefinition?
  simp only [Option.bind_eq_bind, Option.bind_eq_some_iff]
  constructor
  · rintro ⟨token, label, k, defining, first, origin, made⟩
    split at made
    · rename_i later
      cases made
      exact ⟨token, k, first, label, defining, origin, later, rfl⟩
    · cases made
  · rintro ⟨token, k, first, label, defining, origin, later, rfl⟩
    exact ⟨token, label, k, defining, first, origin, if_pos later⟩

theorem distinct_iff {ls : List Line} : Distinct ls ↔ ∀ l, redefinition? ls l = none := by
  constructor
  · intro distinct l
    rw [Option.eq_none_iff_forall_ne_some]
    intro mistake made
    obtain ⟨token, k, first, label, defining, origin, later, -⟩ := redefinition?_eq_some.mp made
    obtain ⟨same, label', text⟩ := label_of_definingLine? defining
    have := distinct k l same token label' label text
    omega
  · intro none
    -- of two definitions of a name the later one is a mistake, whichever it is
    have ordered : ∀ k l a b, labelAt? ls k = some a → labelAt? ls l = some b → a.text = b.text →
        ¬ k < l := by
      intro k l a b first second same before
      obtain ⟨j, defining, early⟩ := definingLine?_le first
      obtain ⟨origin, label, -⟩ := label_of_definingLine? defining
      have made := redefinition?_eq_some.mpr
        ⟨b, j, origin, second, same ▸ defining, label, Nat.lt_of_le_of_lt early before, rfl⟩
      rw [none] at made
      cases made
    intro k l a b first second same
    have notBefore := ordered k l a b first second same
    have notAfter := ordered l k b a second first same.symm
    omega

theorem definitionsFrom_eq (index : Nat) (ls : List Line) :
    definitionsFrom index ls = (List.range ls.length).filterMap fun l =>
      (labelAt? ls l).map fun token => ⟨token, index + before ls l⟩ := by
  induction ls generalizing index with
  | nil => rfl
  | cons line ls ih =>
    have later : (fun l => (labelAt? (line :: ls) (l + 1)).map fun token =>
          (⟨token, index + before (line :: ls) (l + 1)⟩ : Definition)) =
        fun l => (labelAt? ls l).map fun token => ⟨token, index + line.count + before ls l⟩ := by
      funext l
      rw [before_succ_cons, Nat.add_assoc]
      rfl
    rw [List.length_cons, List.range_succ_eq_map, List.filterMap_cons, List.filterMap_map,
      Function.comp_def, later, ← ih]
    cases line with
    | instr i => rfl
    | label token => rfl
    | malformed => rfl

theorem filterMap_range'_succ {α : Type} (f : Nat → Option α) (start length : Nat) :
    (List.range' start (length + 1)).filterMap f =
      (f start).toList ++ (List.range' (start + 1) length).filterMap f := by
  rw [List.range'_succ, List.filterMap_cons]
  cases f start <;> rfl

/-- A list that has the first definition of every name among some lines, and no other. -/
def Seen (ls : List Line) (seen : List Token) : Prop :=
  ∀ name, seen.find? (·.text == name) = (definingLine? ls name).bind (labelAt? ls)

theorem definingLine?_append (ls more : List Line) (name : Text) :
    definingLine? (ls ++ more) name =
      (definingLine? ls name).or ((definingLine? more name).map (· + ls.length)) :=
  List.findIdx?_append

theorem bind_append_of_some {ls : List Line} {name : Text} {k : Nat}
    (found : definingLine? ls name = some k) (more : List Line) :
    (definingLine? (ls ++ more) name).bind (labelAt? (ls ++ more)) = labelAt? ls k := by
  obtain ⟨token, label, -⟩ := label_of_definingLine? found
  rw [definingLine?_append, found, Option.some_or, Option.bind_some,
    labelAt?_append (labelAt?_lt label)]

theorem definingLine?_singleton (line : Line) (name : Text) :
    definingLine? [line] name = if line.defines name then some 0 else none := by
  rw [definingLine?, List.findIdx?_singleton]

/-- A line leaves the first definitions as they are if it defines no name or one of theirs. -/
theorem Seen.append {ls : List Line} {seen : List Token} (known : Seen ls seen) {line : Line}
    (old : ∀ name, line.defines name = true → (seen.find? (·.text == name)).isSome) :
    Seen (ls ++ [line]) seen := by
  intro name
  have seen := known name
  cases found : definingLine? ls name with
  | some k => rw [seen, found, Option.bind_some, bind_append_of_some found]
  | none =>
    have other : line.defines name = false := by
      cases defines : line.defines name with
      | false => rfl
      | true =>
        have isOld := old name defines
        rw [seen, found] at isOld
        cases isOld
    rw [seen, definingLine?_append, found, definingLine?_singleton, other]
    rfl

theorem Seen.define {ls : List Line} {seen : List Token} (known : Seen ls seen) (token : Token) :
    Seen (ls ++ [.label token]) (seen ++ [token]) := by
  intro name
  rw [List.find?_append, known name]
  cases found : definingLine? ls name with
  | some k =>
    obtain ⟨first, label, -⟩ := label_of_definingLine? found
    rw [Option.bind_some, bind_append_of_some found, label, Option.some_or]
  | none =>
    rw [definingLine?_append, found, definingLine?_singleton, Option.bind_none, Option.none_or,
      Option.none_or]
    by_cases same : token.text = name
    · have here : labelAt? (ls ++ [.label token]) ls.length = some token := labelAt?_length ls _ []
      simp [Line.defines, same, here]
    · simp [Line.defines, same]

theorem redefinition?_plain {ls rest : List Line} {line : Line} (plain : labelAt? [line] 0 = none) :
    redefinition? (ls ++ line :: rest) ls.length = none := by
  rw [redefinition?, labelAt?_length, plain]
  rfl

theorem redefinition?_label (ls rest : List Line) (token : Token) :
    redefinition? (ls ++ .label token :: rest) ls.length =
      ((definingLine? ls token.text).bind (labelAt? ls)).map fun first =>
        .redefined token.text first.span token.span := by
  have label : labelAt? (ls ++ .label token :: rest) ls.length = some token :=
    labelAt?_length ls _ rest
  cases found : definingLine? ls token.text with
  | some k =>
    obtain ⟨first, origin, -⟩ := label_of_definingLine? found
    have before := labelAt?_lt origin
    have defining : definingLine? (ls ++ .label token :: rest) token.text = some k := by
      rw [definingLine?_append, found, Option.some_or]
    rw [Option.bind_some, origin]
    exact redefinition?_eq_some.mpr ⟨token, k, first, label, defining,
      (labelAt?_append before _).trans origin, before, rfl⟩
  | none =>
    have defining : definingLine? (ls ++ .label token :: rest) token.text = some ls.length := by
      have defines : (Line.label token).defines token.text = true :=
        defines_iff.mpr ⟨token, rfl, rfl⟩
      rw [definingLine?_append, found, Option.none_or, definingLine?, List.findIdx?_cons, defines]
      simp
    simp [redefinition?, label, defining]

theorem redefinitions_eq (ls rest : List Line) (seen : List Token) (index : Nat)
    (known : Seen ls seen) :
    redefinitions seen (definitionsFrom index rest) =
      (List.range' ls.length rest.length).filterMap (redefinition? (ls ++ rest)) := by
  -- a line that has been looked at moves over to the lines in front, whose labels have been seen
  induction rest generalizing ls seen index with
  | nil => rfl
  | cons line rest ih =>
    have later : ∀ seen index, Seen (ls ++ [line]) seen →
        redefinitions seen (definitionsFrom index rest) =
          (List.range' (ls.length + 1) rest.length).filterMap
            (redefinition? (ls ++ line :: rest)) := by
      intro seen index known
      have done := ih (ls ++ [line]) seen index known
      rwa [List.length_append, List.length_singleton, List.append_assoc,
        List.singleton_append] at done
    rw [List.length_cons, filterMap_range'_succ]
    cases line with
    | instr i =>
      rw [redefinition?_plain rfl]
      exact later seen (index + 1) (known.append nofun)
    | malformed =>
      rw [redefinition?_plain rfl]
      exact later seen index (known.append nofun)
    | label token =>
      rw [definitionsFrom, redefinitions, redefinition?_label, ← known token.text]
      cases found : seen.find? (·.text == token.text) with
      | none => exact later (seen ++ [token]) index (known.define token)
      | some first =>
        have old : ∀ name, (Line.label token).defines name = true →
            (seen.find? (·.text == name)).isSome := by
          intro name defines
          obtain ⟨_, same, rfl⟩ := defines_iff.mp defines
          cases same
          rw [found]
          rfl
        exact congrArg _ (later seen index (known.append old))

theorem errors_eq (ls : List Line) :
    errors ls = (List.range ls.length).filterMap (redefinition? ls) ++
      (instrs ls).filterMap (unknown? ls) := by
  have none : Seen [] [] := fun _ => rfl
  have first := redefinitions_eq [] ls [] 0 none
  have second : (unknowns (table ls) (instrs ls)).map LabelMistake.unknown =
      (instrs ls).filterMap (unknown? ls) := by
    unfold unknowns
    induction instrs ls with
    | nil => rfl
    | cons i is ih =>
      rw [List.filterMap_cons, List.filterMap_cons, unknown?]
      cases reference : i.reference? with
      | none => exact ih
      | some token =>
        rw [List.filter_cons, lookup_table, Option.isNone_map, Option.bind_eq_bind,
          Option.bind_some]
        cases definingLine? ls token.text with
        | none => exact congrArg (LabelMistake.unknown token :: ·) ih
        | some l => exact ih
  rw [errors, second, definitions, first, List.range_eq_range']
  rfl

theorem firsts_of_distinct {ds : List Definition}
    (distinct : ds.Pairwise fun a b => a.token.text ≠ b.token.text) : firsts ds = ds := by
  induction ds with
  | nil => rfl
  | cons d ds ih =>
    obtain ⟨differ, distinct⟩ := List.pairwise_cons.mp distinct
    have kept : except d.token.text ds = ds := by
      unfold except
      rw [List.filter_eq_self]
      intro e member
      simpa using Ne.symm (differ e member)
    rw [firsts_cons, kept, ih distinct]

theorem table_of_distinct {ls : List Line} (distinct : Distinct ls) :
    table ls = (List.range ls.length).filterMap (entryAt? ls) := by
  have apart : (definitions ls).Pairwise fun a b => a.token.text ≠ b.token.text := by
    rw [definitions, definitionsFrom_eq, List.pairwise_filterMap]
    refine List.pairwise_lt_range.imp ?_
    intro k l before a made b made' same
    obtain ⟨token, label, rfl⟩ := Option.map_eq_some_iff.mp made
    obtain ⟨token', label', rfl⟩ := Option.map_eq_some_iff.mp made'
    exact absurd (distinct k l token token' label label' same) (Nat.ne_of_lt before)
  rw [table, firsts_of_distinct apart, definitions, definitionsFrom_eq, List.map_filterMap]
  congr 1
  funext l
  unfold entryAt?
  cases labelAt? ls l with
  | none => rfl
  | some token => simp

theorem known_iff {ls : List Line} {i : Instr} (wellFormed : i.WellFormed) :
    unknown? ls i = none ↔
      (i.op.takesLabel →
        ∃ token l, i.label = some token ∧ definingLine? ls token.text = some l) := by
  unfold unknown? Instr.reference?
  cases jump : i.op.takesLabel with
  | false => simp
  | true =>
    have labelled : i.label.isSome := by rw [wellFormed.label, jump]
    obtain ⟨token, label⟩ := Option.isSome_iff_exists.mp labelled
    cases found : definingLine? ls token.text with
    | none => simp [label, found]
    | some l => simp [label, found]

end Labels

open Labels

namespace Program
variable {ls : List Line}

theorem ofLines_ok_iff (wellFormed : ∀ line ∈ ls, line.WellFormed) :
    (∃ p, ofLines ls = .ok p) ↔ Distinct ls ∧
      ∀ i ∈ instrs ls, i.op.takesLabel →
        ∃ token l, i.label = some token ∧ definingLine? ls token.text = some l := by
  have made : (∃ p, ofLines ls = .ok p) ↔ errors ls = [] := by
    simp only [ofLines, List.isEmpty_iff]
    by_cases none : errors ls = []
    · rw [if_pos none]
      exact ⟨fun _ => none, fun _ => ⟨_, rfl⟩⟩
    · rw [if_neg none]
      constructor
      · rintro ⟨p, impossible⟩
        cases impossible
      · exact fun empty => absurd empty none
  rw [made, errors_eq, List.append_eq_nil_iff, List.filterMap_eq_nil_iff,
    List.filterMap_eq_nil_iff, distinct_iff]
  refine and_congr ?_ ?_
  · constructor
    · intro inside l
      by_cases bound : l < ls.length
      · exact inside l (List.mem_range.mpr bound)
      · -- no line past the end defines anything again
        have outside : labelAt? ls l = none := by
          unfold labelAt?
          rw [List.getElem?_eq_none (Nat.le_of_not_lt bound)]
        rw [redefinition?, outside]
        rfl
    · exact fun all l _ => all l
  · constructor
    · intro all i member
      exact (known_iff (wellFormed_of_mem_instrs wellFormed member)).mp (all i member)
    · intro all i member
      exact (known_iff (wellFormed_of_mem_instrs wellFormed member)).mpr (all i member)

theorem resolves_of_ofLines {p : Program} (linked : ofLines ls = .ok p)
    (wellFormed : ∀ line ∈ ls, line.WellFormed) :
    List.Forall₂ (Resolves ls p.code.size) (instrs ls) p.code.toList := by
  have size := size_of_ofLines linked
  rw [(of_ofLines linked).1] at size ⊢
  rw [List.forall₂_map_right_iff, List.forall₂_same]
  intro i member
  unfold Resolves
  split
  · rename_i jump
    obtain ⟨token, l, label, line, target⟩ := target_of_ofLines linked member
      (wellFormed_of_mem_instrs wellFormed member) jump
    have reference : i.reference? = some token := by rw [Instr.reference?, if_pos jump, label]
    refine ⟨token, l, label, line, ?_, size ▸ before_le ls l⟩
    simp only [Instr.withTarget, reference, lookup_table, line, Option.map_some]
  · rename_i plain
    have reference : i.reference? = none := by rw [Instr.reference?, if_neg plain]
    simp only [Instr.withTarget, reference]

/-- When a program is made of lines that were read from a source, what it is, and what is
reported otherwise. -/
theorem ofLines_exact {source : Text} {listing : Listing}
    (read : Listing.ofSource source = .ok listing) (lines : listing.lines = some ls) :
    ((∃ p, ofLines ls = .ok p) ↔ Distinct ls ∧
      ∀ i ∈ instrs ls, i.op.takesLabel →
        ∃ token l, i.label = some token ∧ definingLine? ls token.text = some l) ∧
    (∀ p, ofLines ls = .ok p →
      List.Forall₂ (Resolves ls p.code.size) (instrs ls) p.code.toList ∧
        p.labels = (List.range ls.length).filterMap (entryAt? ls)) ∧
    ∀ es, ofLines ls = .error es →
      es = (List.range ls.length).filterMap (redefinition? ls) ++
        (instrs ls).filterMap (unknown? ls) := by
  have wellFormed := Listing.wellFormed read lines
  refine ⟨ofLines_ok_iff wellFormed, ?_, ?_⟩
  · intro p linked
    refine ⟨resolves_of_ofLines linked wellFormed, ?_⟩
    have distinct := ((ofLines_ok_iff wellFormed).mp ⟨p, linked⟩).1
    rw [(of_ofLines linked).1]
    exact table_of_distinct distinct
  · intro es failed
    unfold ofLines at failed
    split at failed
    · cases failed
    · cases failed
      exact errors_eq ls

theorem ofLines_exact_of_redefined :
    let ls : List Line :=
      [.instr { op := .jmp, label := some ⟨"c", ⟨4, 5⟩⟩ }, .label ⟨"b", ⟨6, 8⟩⟩, .malformed,
        .label ⟨"b", ⟨11, 13⟩⟩,
        .instr { op := .jlz, reg := some .acc, label := some ⟨"d", ⟨22, 23⟩⟩ }]
    (Listing.ofSource "jmp c\nb:\n?\nb:\njlz acc d\n").map Listing.lines = .ok (some ls) ∧
      ofLines ls = .error [.redefined "b" ⟨6, 8⟩ ⟨11, 13⟩, .unknown ⟨"c", ⟨4, 5⟩⟩,
        .unknown ⟨"d", ⟨22, 23⟩⟩] := by
  intro ls
  have reads : (Listing.ofSource "jmp c\nb:\n?\nb:\njlz acc d\n").map Listing.lines =
      .ok (some ls) := by decide +kernel
  refine ⟨reads, ?_⟩
  cases read : Listing.ofSource "jmp c\nb:\n?\nb:\njlz acc d\n" with
  | error why =>
    rw [read] at reads
    cases reads
  | ok listing =>
    rw [read] at reads
    obtain ⟨linked, -, reported⟩ := ofLines_exact read (Except.ok.inj reads)
    cases made : ofLines ls with
    | ok p =>
      have distinct : Distinct ls := (linked.mp ⟨p, made⟩).1
      have same : 1 = 3 := distinct 1 3 _ _ rfl rfl rfl
      cases same
    | error es =>
      refine congrArg Except.error ((reported es made).trans ?_)
      decide +kernel

end Program

end TapeMachine
