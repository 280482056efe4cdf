/-!
The characters with the Unicode property White_Space.
-/
namespace SwiftCodec

namespace Text

/-- First and last characters of the ranges, in order. -/
def blanks : List (Nat × Nat) :=
  [(0x9, 0xd), (0x20, 0x20), (0x85, 0x85), (0xa0, 0xa0), (0x1680, 0x1680), (0x2000, 0x200a),
    (0x2028, 0x2029), (0x202f, 0x202f), (0x205f, 0x205f), (0x3000, 0x3000)]

def isBlank (c : Char) : Bool := blanks.any fun (first, last) => first ≤ c.toNat && c.toNat ≤ last

def dropBlanks (s : String) : String := String.ofList (s.toList.dropWhile isBlank)

def dropBlanksEnd (s : String) : String :=
  String.ofList (s.toList.reverse.dropWhile isBlank).reverse

end Text

end SwiftCodec
