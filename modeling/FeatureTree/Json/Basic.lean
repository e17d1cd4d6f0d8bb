import FeatureTree.Json.Double

/-!
JSON values and the reading of their fields.

The fields of an object are sorted by key and no key comes twice. A field that is missing, or that
is not of the wanted kind, reads as empty.
-/

namespace FeatureTree

inductive Json where
  | null
  | bool (b : Bool)
  | int (n : Int)
  | double (x : Double)
  | str (s : String)
  | arr (items : List Json)
  | obj (fields : List (String × Json))
  deriving Inhabited

namespace Json

/-- A text as a value. -/
def text (t : Text) : Json := .str (String.ofList t)

/-- A number that counts something. -/
def nat (n : Nat) : Json := .int n

/-- A value or null. -/
def ofOption (f : α → Json) : Option α → Json
  | none => .null
  | some a => f a

/-- Puts a field at the place of its key; a key that is there already gets the new value. -/
def putField (k : String) (v : Json) : List (String × Json) → List (String × Json)
  | [] => [(k, v)]
  | (k', v') :: fs =>
    if k < k' then (k, v) :: (k', v') :: fs
    else if k = k' then (k, v) :: fs
    else (k', v') :: putField k v fs

/-- The object with these fields, the last one winning where a key comes twice. -/
def ofFields (fs : List (String × Json)) : Json :=
  .obj (fs.foldl (fun acc f => putField f.1 f.2 acc) [])

def isNull : Json → Bool
  | .null => true
  | _ => false

/-- The value at a key. -/
def get? (key : String) : Json → Option Json
  | .obj fs => fs.lookup key
  | _ => none

/-- The value at a key, unless it is null. -/
def present? (key : String) (v : Json) : Option Json :=
  (v.get? key).filter (! ·.isNull)

def str? : Json → Option String
  | .str s => some s
  | _ => none

/-- The items of a list, and none of anything else. -/
def items : Json → List Json
  | .arr vs => vs
  | _ => []

/-- The string at a key. -/
def strAt? (key : String) (v : Json) : Option String := v.get? key >>= str?

/-- The text at a key, or the empty text. -/
def textAt (key : String) (v : Json) : Text :=
  match v.strAt? key with
  | some s => s.toList
  | none => []

/-- The items at a key. -/
def itemsAt (key : String) (v : Json) : List Json :=
  match v.get? key with
  | some w => w.items
  | none => []

/-- A value without the fields of these keys. -/
def without (keys : List String) : Json → Json
  | .obj fs => .obj (fs.filter fun f => ! keys.contains f.1)
  | v => v

/-- A number that is a natural one. Neither a negative number nor a double is. -/
def nat? : Json → Option Nat
  | .int n => if 0 ≤ n then some n.toNat else none
  | _ => none

end Json

end FeatureTree
