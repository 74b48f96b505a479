import TapeMachine.Proofs.WellFormed

namespace TapeMachine

def Line.defines (name : Text) : Line → Bool
  | label token => token.text == name
  | _ => false

def Line.count : Line → Nat
  | instr _ => 1
  | _ => 0

@[simp] theorem Line.count_instr (i : Instr) : (instr i).count = 1 := rfl

@[simp] theorem Line.count_label (token : Token) : (label token).count = 0 := rfl

@[simp] theorem Line.count_malformed : malformed.count = 0 := rfl

namespace Labels

def before (ls : List Line) (l : Nat) : Nat := (instrs (ls.take l)).length

def definingLine? (ls : List Line) (name : Text) : Option Nat := ls.findIdx? (Line.defines name)

@[simp] theorem before_zero (ls : List Line) : before ls 0 = 0 := rfl

theorem before_le (ls : List Line) (l : Nat) : before ls l ≤ (instrs ls).length :=
  ((List.take_sublist l ls).filterMap Line.instr?).length_le

def entry (d : Definition) : Text × Int := (d.token.text, d.index)

def except (name : Text) (ds : List Definition) : List Definition :=
  ds.filter fun d => (d.token.text == name) = false

theorem firsts_cons (d : Definition) (ds : List Definition) :
    firsts (d :: ds) = d :: firsts (except d.token.text ds) := List.eraseDupsBy_cons

/-- Induction along `firsts`: a definition drops the later ones of its name, however many. -/
@[elab_as_elim]
theorem firsts_induction {motive : List Definition → Prop} (nil : motive [])
    (cons : ∀ d ds, motive (except d.token.text ds) → motive (d :: ds)) : ∀ ds, motive ds
  | [] => nil
  | d :: ds => cons d ds (firsts_induction nil cons (except d.token.text ds))
termination_by ds => ds.length
decreasing_by exact Nat.lt_succ_of_le (List.length_filter_le _ _)

theorem lookup_except {name other : Text} (ds : List Definition) (h : name ≠ other) :
    ((except other ds).map entry).lookup name = (ds.map entry).lookup name := by
  induction ds with
  | nil => rfl
  | cons d ds ih =>
    by_cases same : d.token.text = other
    · have differs : (name == d.token.text) = false := by simpa [same] using h
      have dropped : except other (d :: ds) = except other ds := by simp [except, same]
      rw [dropped, ih, List.map_cons, entry, List.lookup_cons, differs]
    · have kept : except other (d :: ds) = d :: except other ds := by simp [except, same]
      rw [kept, List.map_cons, List.map_cons, entry, List.lookup_cons, List.lookup_cons, ih]

theorem lookup_firsts (ds : List Definition) (name : Text) :
    ((firsts ds).map entry).lookup name = (ds.map entry).lookup name := by
  induction ds using firsts_induction with
  | nil => rfl
  | cons d ds ih =>
    rw [firsts_cons, List.map_cons, List.map_cons, entry, List.lookup_cons, List.lookup_cons, ih]
    by_cases same : name = d.token.text
    · simp only [same, BEq.rfl]
    · rw [lookup_except ds same]

theorem before_succ_cons (line : Line) (ls : List Line) (l : Nat) :
    before (line :: ls) (l + 1) = line.count + before ls l := by
  unfold before instrs
  rw [List.take_succ_cons, List.filterMap_cons]
  cases line with
  | instr i => exact Nat.add_comm _ 1
  | label token => exact (Nat.zero_add _).symm
  | malformed => exact (Nat.zero_add _).symm

theorem lookup_definitionsFrom (ls : List Line) (index : Nat) (name : Text) :
    ((definitionsFrom index ls).map entry).lookup name =
      (definingLine? ls name).map fun l => ((index + before ls l : Nat) : Int) := by
  induction ls generalizing index with
  | nil => rfl
  | cons line ls ih =>
    -- every case passes the line and counts it if it is an instruction
    have later : ((definitionsFrom (index + line.count) ls).map entry).lookup name =
        ((definingLine? ls name).map (· + 1)).map fun l =>
          ((index + before (line :: ls) l : Nat) : Int) := by
      rw [ih, Option.map_map]
      congr 1
      funext l
      simp only [Function.comp_apply, before_succ_cons, Nat.add_assoc]
    cases line with
    | instr i =>
      have notHere : (Line.instr i).defines name = false := rfl
      rw [definingLine?, List.findIdx?_cons, notHere]
      exact later
    | malformed =>
      have notHere : Line.malformed.defines name = false := rfl
      rw [definingLine?, List.findIdx?_cons, notHere]
      exact later
    | label token =>
      rw [definingLine?, List.findIdx?_cons, definitionsFrom, List.map_cons, entry,
        List.lookup_cons]
      by_cases here : token.text = name
      · have yes : (Line.label token).defines name = true := by simp [Line.defines, here]
        simp [here, yes]
      · have no : (Line.label token).defines name = false := by simp [Line.defines, here]
        have differs : (name == token.text) = false := by simpa using Ne.symm here
        rw [no, differs]
        exact later

theorem lookup_table (ls : List Line) (name : Text) :
    (table ls).lookup name = (definingLine? ls name).map fun l => (before ls l : Int) := by
  have found := lookup_definitionsFrom ls 0 name
  simp only [Nat.zero_add] at found
  rw [← found, ← lookup_firsts]
  rfl

theorem mem_of_mem_instrs {ls : List Line} {i : Instr} (member : i ∈ instrs ls) :
    .instr i ∈ ls := by
  obtain ⟨line, inside, same⟩ := List.mem_filterMap.mp member
  cases line with
  | instr j =>
    cases same
    exact inside
  | label token => cases same
  | malformed => cases same

theorem wellFormed_of_mem_instrs {ls : List Line} (wellFormed : ∀ line ∈ ls, line.WellFormed)
    {i : Instr} (member : i ∈ instrs ls) : i.WellFormed :=
  (wellFormed _ (mem_of_mem_instrs member)).1

end Labels

@[simp] theorem Instr.withTarget_op (table : SymbolTable) (i : Instr) :
    (i.withTarget table).op = i.op := by
  unfold withTarget
  split <;> rfl

@[simp] theorem Instr.withTarget_reg (table : SymbolTable) (i : Instr) :
    (i.withTarget table).reg = i.reg := by
  unfold withTarget
  split <;> rfl

@[simp] theorem Instr.withTarget_value (table : SymbolTable) (i : Instr) :
    (i.withTarget table).value = i.value := by
  unfold withTarget
  split <;> rfl

theorem Instr.WellFormed.withTarget {i : Instr} (h : i.WellFormed) (table : SymbolTable) :
    (i.withTarget table).WellFormed := by
  unfold Instr.withTarget
  split
  · exact ⟨h.reg, h.value, h.label, h.fits⟩
  · exact h

/-- A jump leads to an instruction of a program with `size` of them, or to its end. -/
structure Instr.Linked (size : Nat) (i : Instr) : Prop extends i.WellFormed where
  target : i.op.takesLabel → ∃ k : Nat, i.target = some (k : Int) ∧ k ≤ size

namespace Program

theorem of_ofLines {ls : List Line} {p : Program} (linked : ofLines ls = .ok p) :
    p = ⟨((Labels.instrs ls).map (·.withTarget (Labels.table ls))).toArray, Labels.table ls⟩ ∧
      ∀ i ∈ Labels.instrs ls, ∀ token ∈ i.reference?,
        ∃ l, Labels.definingLine? ls token.text = some l := by
  unfold ofLines at linked
  split at linked
  · rename_i none
    cases linked
    refine ⟨rfl, ?_⟩
    intro i member token reference
    have noErrors : Labels.errors ls = [] := by simpa using none
    have known : Labels.unknowns (Labels.table ls) (Labels.instrs ls) = [] := by
      have second := (List.append_eq_nil_iff.mp noErrors).2
      exact List.map_eq_nil_iff.mp second
    have named : token ∈ (Labels.instrs ls).filterMap Instr.reference? :=
      List.mem_filterMap.mpr ⟨i, member, reference⟩
    have found := List.filter_eq_nil_iff.mp known token named
    rw [Labels.lookup_table] at found
    cases line : Labels.definingLine? ls token.text with
    | none => simp [line] at found
    | some l => exact ⟨l, rfl⟩
  · cases linked

theorem size_of_ofLines {ls : List Line} {p : Program} (linked : ofLines ls = .ok p) :
    p.code.size = (Labels.instrs ls).length := by
  rw [(of_ofLines linked).1, List.size_toArray, List.length_map]

/-- Every jump leads to the number of instructions in front of the line that defines its label. -/
theorem target_of_ofLines {ls : List Line} {p : Program} (linked : ofLines ls = .ok p) {i : Instr}
    (member : i ∈ Labels.instrs ls) (wellFormed : i.WellFormed) (jump : i.op.takesLabel) :
    ∃ token l, i.label = some token ∧ Labels.definingLine? ls token.text = some l ∧
      (i.withTarget (Labels.table ls)).target = some (Labels.before ls l : Int) := by
  have labelled : i.label.isSome := by rw [wellFormed.label, jump]
  obtain ⟨token, label⟩ := Option.isSome_iff_exists.mp labelled
  have reference : i.reference? = some token := by rw [Instr.reference?, if_pos jump, label]
  obtain ⟨l, line⟩ := (of_ofLines linked).2 i member token reference
  refine ⟨token, l, label, line, ?_⟩
  simp only [Instr.withTarget, reference, Labels.lookup_table, line, Option.map_some]

theorem linked_of_ofLines {ls : List Line} {p : Program} (linked : ofLines ls = .ok p)
    (wellFormed : ∀ line ∈ ls, line.WellFormed) : ∀ i ∈ p.code, i.Linked p.code.size := by
  intro j member
  have size := size_of_ofLines linked
  rw [(of_ofLines linked).1] at member
  obtain ⟨i, read, rfl⟩ := List.mem_map.mp (List.mem_toArray.mp member)
  have wellFormed := Labels.wellFormed_of_mem_instrs wellFormed read
  refine ⟨wellFormed.withTarget _, ?_⟩
  intro jump
  rw [Instr.withTarget_op] at jump
  obtain ⟨-, l, -, -, target⟩ := target_of_ofLines linked read wellFormed jump
  exact ⟨Labels.before ls l, target, size ▸ Labels.before_le ls l⟩

end Program

theorem Assembly.linked_of_program {source : Text} {assembly : Assembly} {p : Program}
    (assembled : ofSource source = .ok assembly) (made : assembly.program = some p) :
    ∀ i ∈ p.code, i.Linked p.code.size := by
  obtain ⟨ls, linked, wellFormed⟩ := lines_of_program assembled made
  exact Program.linked_of_ofLines linked wellFormed

end TapeMachine
