import DerivationCache.Text.Printable

/-!
# Quoted text

Text is quoted so that a reader sees every character: between double quotes, with a backslash
before a quote and a backslash, a letter for the usual controls, and the code point in braces
for a character that has no shape of its own. A single quote stays as it is.
-/

namespace DerivationCache.Text

/-- The code point of a character in lowercase hexadecimal digits, without padding. -/
def hexCode (c : Char) : List Char := Nat.toDigits 16 c.toNat

/-- How one character is written between the quotes. -/
def escapeChar : Char → List Char
  | '\t' => ['\\', 't']
  | '\r' => ['\\', 'r']
  | '\n' => ['\\', 'n']
  | '\\' => ['\\', '\\']
  | '"' => ['\\', '"']
  | '\x00' => ['\\', '0']
  | c => if isPrintable c then [c] else ['\\', 'u', '\x7b'] ++ hexCode c ++ ['\x7d']

/-- The text between double quotes. -/
def quoted (s : String) : String :=
  String.ofList ('"' :: s.toList.flatMap escapeChar ++ ['"'])

end DerivationCache.Text
