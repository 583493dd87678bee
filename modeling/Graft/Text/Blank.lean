import Graft.Text.Basic

/-! Blank characters and trimming. Three classes are told apart: the characters of the Unicode
property White_Space, those that a grammar skips between tokens, and the six of ASCII. -/

namespace Graft

/-- The Unicode property White_Space. -/
def isBlank (c : Char) : Bool :=
  let n := c.toNat
  (9 ≤ n && n ≤ 13) || n = 0x20 || n = 0x85 || n = 0xA0 || n = 0x1680 ||
    (0x2000 ≤ n && n ≤ 0x200A) || n = 0x2028 || n = 0x2029 || n = 0x202F || n = 0x205F || n = 0x3000

/-- What may stand between two tokens: blanks other than the next-line character, the byte order mark and
the two invisible joiners. -/
def isSpacing (c : Char) : Bool :=
  (isBlank c && c.toNat ≠ 0x85) || c.toNat = 0xFEFF || c.toNat = 0x2060 || c.toNat = 0x200B

def isAsciiBlank (c : Char) : Bool :=
  c.toNat = 0x20 || (9 ≤ c.toNat && c.toNat ≤ 13)

/-- What indentation is made of. -/
def isIndent (c : Char) : Bool := c = ' ' || c = '\t'

theorem isBlank_of_isIndent {c : Char} (indent : isIndent c = true) : isBlank c = true := by
  simp only [isIndent, Bool.or_eq_true, decide_eq_true_eq] at indent
  rcases indent with rfl | rfl <;> rfl

theorem isIndent_of_solid {c : Char} (solid : isBlank c = false) : isIndent c = false :=
  Bool.eq_false_iff.mpr fun indent => Bool.eq_false_iff.mp solid (isBlank_of_isIndent indent)

namespace Text

def isBlank (text : Text) : Bool := text.all Graft.isBlank

/-- A text without the blanks at its two ends. -/
def trim (text : Text) : Text :=
  ((text.dropWhile Graft.isBlank).reverse.dropWhile Graft.isBlank).reverse

/-- The spaces and tabs a text starts with. -/
def indentation (text : Text) : Text := text.takeWhile isIndent

end Text
end Graft
