/-! White space: the characters with the Unicode property `White_Space`. The
separators of a program are runs of these and of comments, so the set decides
where a token may end. The zero-width space and the byte order mark do not
belong to it. -/
namespace LittleC.Text

/-- Whether a code point lies in one of the ranges, ends included. -/
def inRanges (ranges : List (Nat × Nat)) (n : Nat) : Bool :=
  ranges.any fun r => decide (r.1 ≤ n) && decide (n ≤ r.2)

/-- The code points with the property, in order. -/
def blankRanges : List (Nat × Nat) :=
  [(0x9, 0xD), (0x20, 0x20), (0x85, 0x85), (0xA0, 0xA0), (0x1680, 0x1680), (0x2000, 0x200A),
   (0x2028, 0x2029), (0x202F, 0x202F), (0x205F, 0x205F), (0x3000, 0x3000)]

/-- White space between tokens. -/
def isBlank (c : Char) : Bool :=
  inRanges blankRanges c.toNat

end LittleC.Text
