import SwiftCodec.Text.Glyph

/-!
Text in quotes for people to read: what has no glyph of its own, or would melt into the character
before it, is shown by its code point.
-/
namespace SwiftCodec

namespace Text

def codePoint (c : Char) : List Char :=
  "\\u\x7b".toList ++ Nat.toDigits 16 c.toNat ++ ['\x7d']

/-- One character between quotes; `all` also escapes the single quote. -/
def quoteChar (all : Bool) (c : Char) : List Char :=
  match c with
  | '\x00' => ['\\', '0']
  | '\x09' => ['\\', 't']
  | '\x0d' => ['\\', 'r']
  | '\x0a' => ['\\', 'n']
  | '\\' => ['\\', '\\']
  | '\x22' => ['\\', '\x22']
  | '\x27' => if all then ['\\', '\x27'] else ['\x27']
  | c => if isExtender c || !isPrintable c then codePoint c else [c]

def quoted (s : String) : String :=
  String.ofList ('\x22' :: s.toList.flatMap (quoteChar false) ++ ['\x22'])

/-- The same for a path, where the single quote is escaped as well. -/
def quotedPath (s : String) : String :=
  String.ofList ('\x22' :: s.toList.flatMap (quoteChar true) ++ ['\x22'])

end Text

end SwiftCodec
