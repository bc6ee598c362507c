import StackIR.Text.Unprintable

/-!
# Quoted text

Text between double quotes on a single line. Quotes and backslashes are escaped, line feed,
carriage return, tab and NUL have a letter, and any other character without a printable shape is
written by its code point.
-/

namespace StackIR.Text

/-- The way one character is written between double quotes. -/
def escapeChar (c : Char) : List Char :=
  match c with
  | '"' => ['\\', '"']
  | '\\' => ['\\', '\\']
  | '\n' => ['\\', 'n']
  | '\r' => ['\\', 'r']
  | '\t' => ['\\', 't']
  | '\x00' => ['\\', '0']
  | c =>
    if isUnprintable c then
      ['\\', 'u', '\x7b'] ++ Nat.toDigits 16 c.toNat ++ ['\x7d']
    else [c]

/-- A list of characters, each in its written form, between double quotes. -/
def quoteChars (cs : List Char) : List Char :=
  '"' :: cs.flatMap escapeChar ++ ['"']

def quote (s : String) : String :=
  String.ofList (quoteChars s.toList)

end StackIR.Text
