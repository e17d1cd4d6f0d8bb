import FeatureTree.Json.Basic

/-!
Reading JSON text. Lists and objects nest 127 deep at most. A number without fraction and exponent
that a signed or an unsigned word of 64 bits holds is an integer, and so is zero without a sign;
every other number is the nearest double.
-/

namespace FeatureTree.Json

/-- A reader takes a value off the front of a text. -/
abbrev Reader (α : Type) := Text → Option (α × Text)

def skipBlanks (t : Text) : Text :=
  t.dropWhile fun c => c = ' ' || c = '\n' || c = '\r' || c = '\t'

def hexValue? (c : Char) : Option Nat :=
  if c.isDigit then some (c.toNat - '0'.toNat)
  else if 'a' ≤ c && c ≤ 'f' then some (c.toNat - 'a'.toNat + 10)
  else if 'A' ≤ c && c ≤ 'F' then some (c.toNat - 'A'.toNat + 10)
  else none

/-- The number that four hexadecimal digits give. -/
def unit? (a b c d : Char) : Option Nat := do
  let a ← hexValue? a
  let b ← hexValue? b
  let c ← hexValue? c
  let d ← hexValue? d
  return ((a * 16 + b) * 16 + c) * 16 + d

def simpleEscape? : Char → Option Char
  | '"' => some '"'
  | '\\' => some '\\'
  | '/' => some '/'
  | 'b' => some '\x08'
  | 'f' => some '\x0c'
  | 'n' => some '\n'
  | 'r' => some '\r'
  | 't' => some '\t'
  | _ => none

/-- The rest of a string after its opening quote. A character outside the basic plane may be
escaped as a pair of surrogates, and no surrogate stands alone. -/
def stringTail? : Reader Text
  | '"' :: t => some ([], t)
  | '\\' :: 'u' :: a :: b :: c :: d :: '\\' :: 'u' :: e :: f :: g :: h :: t =>
    match unit? a b c d, unit? e f g h with
    | some hi, some lo =>
      if 0xD800 ≤ hi && hi < 0xDC00 then
        if 0xDC00 ≤ lo && lo < 0xE000 then
          (stringTail? t).map fun (s, r) =>
            (Char.ofNat (0x10000 + (hi - 0xD800) * 0x400 + (lo - 0xDC00)) :: s, r)
        else none
      else if 0xDC00 ≤ hi && hi < 0xE000 then none
      else (stringTail? ('\\' :: 'u' :: e :: f :: g :: h :: t)).map fun (s, r) =>
        (Char.ofNat hi :: s, r)
    | _, _ => none
  | '\\' :: 'u' :: a :: b :: c :: d :: t =>
    match unit? a b c d with
    | some n =>
      if 0xD800 ≤ n && n < 0xE000 then none
      else (stringTail? t).map fun (s, r) => (Char.ofNat n :: s, r)
    | none => none
  | '\\' :: x :: t =>
    match simpleEscape? x with
    | some c => (stringTail? t).map fun (s, r) => (c :: s, r)
    | none => none
  | c :: t =>
    if c.toNat < 0x20 then none else (stringTail? t).map fun (s, r) => (c :: s, r)
  | [] => none

/-- A run of digits, at least one. -/
def digits? (t : Text) : Option (Text × Text) :=
  match t.span Char.isDigit with
  | ([], _) => none
  | p => some p

def digitsValue (ds : Text) : Nat :=
  ds.foldl (fun n c => n * 10 + (c.toNat - '0'.toNat)) 0

/-- The digits after a point, if there is one. -/
def fraction? : Reader Text
  | '.' :: t => digits? t
  | t => some ([], t)

/-- The exponent, if there is one, and zero otherwise, and whether there was one. -/
def exponent? : Reader (Int × Bool)
  | c :: t =>
    if c = 'e' || c = 'E' then
      let (negative, t) := match t with
        | '+' :: r => (false, r)
        | '-' :: r => (true, r)
        | r => (false, r)
      (digits? t).map fun (ds, r) =>
        ((if negative then -(digitsValue ds : Int) else digitsValue ds, true), r)
    else some ((0, false), c :: t)
  | [] => some ((0, false), [])

/-- A number without its sign. No digit follows a leading zero. -/
def unsigned? (negative : Bool) (t : Text) : Option (Json × Text) := do
  let (whole, t) ← match t with
    | '0' :: r => if (r.head?.map Char.isDigit).getD false then none else some (['0'], r)
    | r => digits? r
  let (frac, t) ← fraction? t
  let ((e, hasExponent), t) ← exponent? t
  let n := digitsValue whole
  let small := if negative then 0 < n && n ≤ Nat.pow 2 63 else n < Nat.pow 2 64
  if frac.isEmpty && !hasExponent && small then
    return (.int (if negative then -(n : Int) else n), t)
  else
    let x ← Double.ofDecimal? negative (digitsValue (whole ++ frac)) (e - frac.length)
    return (.double x, t)

/-- A value that is neither a list nor an object. -/
def scalar? (t : Text) : Option (Json × Text) :=
  match t with
  | 'n' :: 'u' :: 'l' :: 'l' :: r => some (.null, r)
  | 't' :: 'r' :: 'u' :: 'e' :: r => some (.bool true, r)
  | 'f' :: 'a' :: 'l' :: 's' :: 'e' :: r => some (.bool false, r)
  | '"' :: r => (stringTail? r).map fun (s, r) => (.text s, r)
  | '-' :: r => unsigned? true r
  | r => unsigned? false r

/-- Items with a comma between any two, up to the closing character. The counter bounds the
number of items. -/
def commaList (item : Reader α) (close : Char) : Nat → Reader (List α)
  | 0, _ => none
  | fuel + 1, t => do
    let (a, t) ← item t
    match skipBlanks t with
    | ',' :: r => (commaList item close fuel r).map fun (as, r) => (a :: as, r)
    | c :: r => if c = close then some ([a], r) else none
    | [] => none

/-- A list of items that may be empty. -/
def enclosed (item : Reader α) (close : Char) (t : Text) : Option (List α × Text) :=
  match skipBlanks t with
  | c :: r => if c = close then some ([], r) else commaList item close t.length t
  | [] => none

/-- A key, a colon and a value. -/
def field? (value : Reader Json) (t : Text) : Option ((String × Json) × Text) :=
  match skipBlanks t with
  | '"' :: r => do
    let (k, r) ← stringTail? r
    match skipBlanks r with
    | ':' :: r => (value r).map fun (v, r) => ((String.ofList k, v), r)
    | _ => none
  | _ => none

/-- A value whose lists and objects nest as deep as the counter says at most. -/
def value? : Nat → Reader Json
  | 0, t => scalar? (skipBlanks t)
  | depth + 1, t =>
    match skipBlanks t with
    | '[' :: r => (enclosed (value? depth) ']' r).map fun (vs, r) => (.arr vs, r)
    | '\x7b' :: r => (enclosed (field? (value? depth)) '\x7d' r).map fun (fs, r) => (ofFields fs, r)
    | r => scalar? r

/-- The value a text holds, with nothing but blanks around it. -/
def parse? (t : Text) : Option Json :=
  match value? 127 t with
  | some (v, r) => if (skipBlanks r).isEmpty then some v else none
  | none => none

end FeatureTree.Json
