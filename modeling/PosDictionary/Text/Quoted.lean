import PosDictionary.Text.Unprintable

/-!
# Quoted texts

A text between double quotes, such that it can be told apart from any other text and seen on one
line: quotes and backslashes are escaped, the usual controls have short escapes, and every other
unprintable character is written as its code point, `\u{3000}`.
-/

namespace PosDictionary.Text

/-- The code point in lower-case hexadecimal digits, without leading zeros. -/
def codePoint (c : Char) : List Char :=
  Nat.toDigits 16 c.toNat

/-- A character as it stands between quotes. -/
def escape (c : Char) : List Char :=
  match c with
  | '"' => ['\\', '"']
  | '\\' => ['\\', '\\']
  | '\t' => ['\\', 't']
  | '\r' => ['\\', 'r']
  | '\n' => ['\\', 'n']
  | '\x00' => ['\\', '0']
  | c => if isUnprintable c then ['\\', 'u', '\x7b'] ++ codePoint c ++ ['\x7d'] else [c]

/-- The text between double quotes, with what needs it escaped. -/
def quoted (s : String) : String :=
  String.ofList (['"'] ++ s.toList.flatMap escape ++ ['"'])

end PosDictionary.Text
