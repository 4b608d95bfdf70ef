import Aggregate.Text.Hidden

/-
  Quoted texts

  The readable text of a string: between double quotes, with a backslash before
  a quote or a backslash, letters for the common control characters, and the
  code for every other character that would not show.
-/

namespace Aggregate

/-- A character by its code in base 16. -/
def codeText (c : Char) : List Char :=
  '\\' :: 'u' :: '\x7b' :: (Nat.toDigits 16 c.toNat ++ ['\x7d'])

/-- A character within double quotes. -/
def quotedChar (c : Char) : List Char :=
  match c with
  | '\x00' => ['\\', '0']
  | '\t' => ['\\', 't']
  | '\r' => ['\\', 'r']
  | '\n' => ['\\', 'n']
  | '"' => ['\\', '"']
  | '\\' => ['\\', '\\']
  | c => if shows c then [c] else codeText c

/-- A string within double quotes. -/
def quoted (s : String) : String :=
  String.ofList ('"' :: (s.toList.flatMap quotedChar ++ ['"']))

end Aggregate
