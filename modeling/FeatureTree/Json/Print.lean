import FeatureTree.Json.Basic

/-!
The compact text of a JSON value: no blanks between tokens, and in a string only the quote, the
backslash and the control characters are escaped.
-/

namespace FeatureTree.Json

def hexDigit (n : Nat) : Char := (Nat.toDigits 16 n).headD '0'

def escapeChar (c : Char) : Text :=
  match c with
  | '"' => ['\\', '"']
  | '\\' => ['\\', '\\']
  | '\n' => ['\\', 'n']
  | '\r' => ['\\', 'r']
  | '\t' => ['\\', 't']
  | '\x08' => ['\\', 'b']
  | '\x0c' => ['\\', 'f']
  | c =>
    if c.toNat < 0x20 then ['\\', 'u', '0', '0', hexDigit (c.toNat / 16), hexDigit (c.toNat % 16)]
    else [c]

def quoted (t : Text) : Text := '"' :: t.flatMap escapeChar ++ ['"']

def intText : Int → Text
  | .ofNat n => Nat.toDigits 10 n
  | .negSucc n => '-' :: Nat.toDigits 10 (n + 1)

mutual

def compact : Json → Text
  | .null => "null".toList
  | .bool true => "true".toList
  | .bool false => "false".toList
  | .int n => intText n
  | .double x => x.text
  | .str s => quoted s.toList
  | .arr vs => '[' :: Text.joinWith [','] (compactItems vs) ++ [']']
  | .obj fs => '\x7b' :: Text.joinWith [','] (compactFields fs) ++ ['\x7d']

def compactItems : List Json → List Text
  | [] => []
  | v :: vs => v.compact :: compactItems vs

def compactFields : List (String × Json) → List Text
  | [] => []
  | (k, v) :: fs => (quoted k.toList ++ ':' :: v.compact) :: compactFields fs

end

end FeatureTree.Json
