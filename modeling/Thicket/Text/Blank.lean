/-!
# Blank characters

What counts as blank at the ends of a text: the Unicode white space and the four information separators U+001C to
U+001F.
-/
namespace Thicket.Text

/-- The runs of blank code points: first and last. -/
def blanks : List (Nat × Nat) :=
  [(0x09, 0x0D), (0x1C, 0x20), (0x85, 0x85), (0xA0, 0xA0), (0x1680, 0x1680), (0x2000, 0x200A), (0x2028, 0x2029),
   (0x202F, 0x202F), (0x205F, 0x205F), (0x3000, 0x3000)]

def isBlank (c : Char) : Bool := blanks.any fun r => decide (r.1 ≤ c.toNat ∧ c.toNat ≤ r.2)

/-- A text without the characters at its start that are to be dropped. -/
def trimStart (drop : Char → Bool) (cs : List Char) : List Char := cs.dropWhile drop

/-- A text without the characters at its end that are to be dropped. -/
def trimEnd (drop : Char → Bool) (cs : List Char) : List Char := (cs.reverse.dropWhile drop).reverse

def trim (drop : Char → Bool) (cs : List Char) : List Char := trimEnd drop (trimStart drop cs)

end Thicket.Text
