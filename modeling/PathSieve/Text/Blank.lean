/-
  Blank characters.

  A character is blank when it has the property White_Space of the Unicode
  standard: 25 characters, six of them ASCII. Rule lines lose the blanks at their
  end, and a configuration that is read leniently loses them at both ends.
-/

namespace PathSieve.Text

/-- Blank characters by ranges of code points. -/
def blankRanges : List (Nat × Nat) :=
  [(0x9, 0xD), (0x20, 0x20), (0x85, 0x85), (0xA0, 0xA0), (0x1680, 0x1680), (0x2000, 0x200A),
   (0x2028, 0x2029), (0x202F, 0x202F), (0x205F, 0x205F), (0x3000, 0x3000)]

/-- Does the character count as white space? -/
def isBlank (c : Char) : Bool :=
  blankRanges.any fun r => r.1 ≤ c.toNat && c.toNat ≤ r.2

/-- The text without the blanks at its end. -/
def trimEnd (cs : List Char) : List Char :=
  (cs.reverse.dropWhile isBlank).reverse

/-- The text without the blanks at either end. -/
def trim (cs : List Char) : List Char :=
  trimEnd (cs.dropWhile isBlank)

@[simp] theorem trimEnd_nil : trimEnd [] = [] := rfl

end PathSieve.Text
