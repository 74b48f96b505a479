/-! The character classes of the assembly language. Three kinds of blank occur. Padding may
stand in front of most tokens; separator padding may stand in front of a separator; a gap is
what a separator is made of. Words are made of ASCII letters, digits and the underscore. -/
namespace TapeMachine.CharClass

def padding (c : Char) : Bool := c == ' ' || c == '\t' || c == '\n' || c == '\r'

def gap (c : Char) : Bool := c == ' ' || c == '\t'

def separatorPadding (c : Char) : Bool :=
  c == '\n' || c == '\r' || c == '\x0c' || c == '\u00a0' || c == '\u1680' || c == '\u180e' ||
    (0x2000 ≤ c.toNat && c.toNat ≤ 0x200b) || c == '\u202f' || c == '\u205f' || c == '\u3000'

/-- White space of the Unicode standard and the four information separators. A line that
holds nothing else is blank. -/
def space (c : Char) : Bool :=
  (0x09 ≤ c.toNat && c.toNat ≤ 0x0d) || (0x1c ≤ c.toNat && c.toNat ≤ 0x20) ||
    c == '\u0085' || c == '\u00a0' || c == '\u1680' ||
    (0x2000 ≤ c.toNat && c.toNat ≤ 0x200a) || c == '\u2028' || c == '\u2029' ||
    c == '\u202f' || c == '\u205f' || c == '\u3000'

def wordStart (c : Char) : Bool := c.isAlpha || c == '_'

def word (c : Char) : Bool := c.isAlphanum || c == '_'

/-- Directly after a keyword these make it a different word. -/
def keywordTail (c : Char) : Bool := word c || c == '$'

theorem word_of_wordStart {c : Char} (h : wordStart c) : word c := by
  simp only [wordStart, word, Char.isAlphanum, Bool.or_eq_true] at h ⊢
  exact h.imp .inl id

theorem padding_of_gap {c : Char} (h : gap c) : padding c := by
  simp only [gap, padding, Bool.or_eq_true] at h ⊢
  exact .inl (.inl h)

theorem space_of_padding {c : Char} (h : padding c) : space c := by
  simp only [padding, Bool.or_eq_true, beq_iff_eq] at h
  rcases h with ((rfl | rfl) | rfl) | rfl <;> rfl

theorem word_of_isDigit {c : Char} (h : c.isDigit) : word c := by
  simp [word, Char.isAlphanum, h]

theorem not_padding_of_word {c : Char} (h : word c) : padding c = false := by
  cases padded : padding c with
  | false => rfl
  | true =>
    simp only [padding, Bool.or_eq_true, beq_iff_eq] at padded
    rcases padded with ((rfl | rfl) | rfl) | rfl <;> cases h

theorem not_separatorPadding_of_gap {c : Char} (h : gap c) :
    separatorPadding c = false := by
  simp only [gap, Bool.or_eq_true, beq_iff_eq] at h
  rcases h with rfl | rfl <;> rfl

theorem not_keywordTail_of_gap {c : Char} (h : gap c) :
    keywordTail c = false := by
  simp only [gap, Bool.or_eq_true, beq_iff_eq] at h
  rcases h with rfl | rfl <;> rfl

theorem toNat_lt_of_keywordTail {c : Char} (h : keywordTail c) : c.toNat < 128 := by
  simp only [keywordTail, word, Char.isAlphanum] at h
  delta Char.isAlpha Char.isUpper Char.isLower Char.isDigit at h
  simp only [Bool.or_eq_true, Bool.and_eq_true, decide_eq_true_eq, beq_iff_eq] at h
  rcases h with (((⟨-, h⟩ | ⟨-, h⟩) | ⟨-, h⟩) | rfl) | rfl
  · exact Nat.lt_of_le_of_lt (UInt32.le_iff_toNat_le.mp h) (by decide)
  · exact Nat.lt_of_le_of_lt (UInt32.le_iff_toNat_le.mp h) (by decide)
  · exact Nat.lt_of_le_of_lt (UInt32.le_iff_toNat_le.mp h) (by decide)
  · decide
  · decide

theorem le_toNat_of_word {c : Char} (h : word c) : 48 ≤ c.toNat := by
  simp only [word, Char.isAlphanum] at h
  delta Char.isAlpha Char.isUpper Char.isLower Char.isDigit at h
  simp only [Bool.or_eq_true, Bool.and_eq_true, decide_eq_true_eq, beq_iff_eq] at h
  rcases h with ((⟨h, -⟩ | ⟨h, -⟩) | ⟨h, -⟩) | rfl
  · exact Nat.le_trans (by decide) (UInt32.le_iff_toNat_le.mp h)
  · exact Nat.le_trans (by decide) (UInt32.le_iff_toNat_le.mp h)
  · exact UInt32.le_iff_toNat_le.mp h
  · decide

theorem not_space_of_word {c : Char} (h : word c) : space c = false := by
  cases blank : space c with
  | false => rfl
  | true =>
    have low := le_toNat_of_word h
    have high := toNat_lt_of_keywordTail (c := c) (by simp [keywordTail, h])
    simp only [space, Bool.or_eq_true, beq_iff_eq, Bool.and_eq_true, decide_eq_true_eq] at blank
    rcases blank with (((((((((blank | blank) | rfl) | rfl) | rfl) | blank) | rfl) | rfl) | rfl) |
      rfl) | rfl
    all_goals first | omega | cases h

theorem not_keywordTail_of_separatorPadding {c : Char} (h : separatorPadding c) :
    keywordTail c = false := by
  cases goesOn : keywordTail c with
  | false => rfl
  | true =>
    have low := toNat_lt_of_keywordTail goesOn
    simp only [separatorPadding, Bool.or_eq_true, beq_iff_eq, Bool.and_eq_true,
      decide_eq_true_eq] at h
    rcases h with ((((((((rfl | rfl) | rfl) | rfl) | rfl) | rfl) | ⟨h, -⟩) | rfl) | rfl) | rfl
    all_goals first | omega | cases goesOn

end TapeMachine.CharClass
