import FeatureTree.Text.Lines

/-!
Binary floating point numbers of 53 bits, their nearest value to a decimal, and their shortest
decimal text.

A number is a sign, a mantissa `m` and an exponent `q`, and its size is `m * 2 ^ q`. The decimals
that read back as it fill the interval halfway to its two neighbours, ends included when `m` is
even. The shortest text takes the fewest digits that reach a point of this interval, and of two
such points the nearer one. All arithmetic is on natural numbers.
-/

namespace FeatureTree

structure Double where
  negative : Bool
  mantissa : Nat
  exponent : Int
  deriving DecidableEq

namespace Double

/-- The least exponent, that of the subnormal numbers. -/
def minExponent : Int := -1074

/-- The greatest exponent of a finite number. -/
def maxExponent : Int := 971

/-- The quotient `n / d` over `b ^ e`, again as a quotient. -/
def scale (b n d : Nat) (e : Int) : Nat × Nat :=
  if 0 ≤ e then (n, d * b.pow e.toNat) else (n * b.pow (-e).toNat, d)

/-- The integer nearest to `n / d`, of two the even one. -/
def roundDiv (n d : Nat) : Nat :=
  let k := n / d
  let r := n % d
  if 2 * r < d || (2 * r == d && k % 2 == 0) then k else k + 1

/-- The exponent that gives the quotient `n / d` a mantissa of 53 bits, where there is one. -/
def exponentOf (n d : Nat) : Int :=
  let q := (Nat.log2 n : Int) - (Nat.log2 d : Int) - 53
  let (a, b) := scale 2 n d q
  max minExponent (if a / b < Nat.pow 2 53 then q else q + 1)

/-- The number nearest to `digits * 10 ^ e`; none if it is too large to be finite. -/
def ofDecimal? (negative : Bool) (digits : Nat) (e : Int) : Option Double :=
  let width : Int := (Nat.toDigits 10 digits).length
  if digits = 0 || width + e < -330 then some ⟨negative, 0, 0⟩
  else if 310 < width + e then none
  else
    let (n, d) := scale 10 digits 1 (-e)
    let q := exponentOf n d
    let (a, b) := scale 2 n d q
    let m := roundDiv a b
    let (m, q) := if m = Nat.pow 2 53 then (Nat.pow 2 52, q + 1) else (m, q)
    if maxExponent < q then none else some ⟨negative, m, if m = 0 then 0 else q⟩

/-- The exponent of the leading decimal digit of `n / d`. -/
def leadingExponent (n d : Nat) : Int :=
  if d ≤ n then ((Nat.toDigits 10 (n / d)).length : Int) - 1
  else -(((List.range 400).find? fun j => d ≤ n * Nat.pow 10 (j + 1)).getD 400 : Nat) - 1

/-- Whether `k * 10 ^ p` reads back as `m * 2 ^ q`. With all sizes in quarters of `2 ^ q`, the
interval runs from `4 * m - below` to `4 * m + 2`, and `below` is 1 at a power of two, where the
lower neighbour is nearer. -/
def readsBack (m : Nat) (q : Int) (k : Nat) (p : Int) : Bool :=
  let below := if m = Nat.pow 2 52 && minExponent < q then 1 else 2
  let (n, d) := scale 10 k 1 (-p)
  let (n, d) := scale 2 n d (q - 2)
  if m % 2 = 0 then (4 * m - below) * d ≤ n && n ≤ (4 * m + 2) * d
  else (4 * m - below) * d < n && n < (4 * m + 2) * d

/-- The better of the two neighbours of `m * 2 ^ q` on the grid of multiples of `10 ^ p`. -/
def onGrid? (m : Nat) (q p : Int) : Option Nat :=
  let (n, d) := scale 2 m 1 (-q)
  let (n, d) := scale 10 n d p
  let low := n / d
  let near := roundDiv n d
  let far := if near = low then low + 1 else low
  if readsBack m q near p then some near
  else if readsBack m q far p then some far
  else none

/-- The digits and the power of ten of the shortest decimal that reads back. -/
def shortest (x : Double) : Nat × Int :=
  let (n, d) := scale 2 x.mantissa 1 (-x.exponent)
  let e := leadingExponent n d
  ((List.range 17).findSome? fun (i : Nat) =>
    (onGrid? x.mantissa x.exponent (e - (i : Int))).map fun k => (k, e - (i : Int))).getD (0, 0)

/-- Without the zeros at the end, each of which raises the power of ten by one. -/
def dropZeros : Nat → Nat → Int → Nat × Int
  | 0, k, p => (k, p)
  | fuel + 1, k, p => if k % 10 = 0 then dropZeros fuel (k / 10) (p + 1) else (k, p)

/-- Decimal notation with at least one digit after the point while the leading exponent is at
least -5 and below 16, and otherwise scientific notation with a signed exponent. -/
def layout (ds : Text) (e : Int) : Text :=
  if e < -5 || 16 ≤ e then
    let frac := ds.drop 1
    ds.take 1 ++ (if frac.isEmpty then [] else '.' :: frac) ++ ['e', if e < 0 then '-' else '+']
      ++ Nat.toDigits 10 e.natAbs
  else if e < 0 then
    ['0', '.'] ++ List.replicate (e.natAbs - 1) '0' ++ ds
  else
    let whole := e.toNat + 1
    let frac := ds.drop whole
    ds.take whole ++ List.replicate (whole - ds.length) '0' ++ '.' ::
      (if frac.isEmpty then ['0'] else frac)

/-- The shortest decimal text that reads back as the number. -/
def text (x : Double) : Text :=
  (if x.negative then ['-'] else []) ++
    if x.mantissa = 0 then ['0', '.', '0']
    else
      let (k, p) := shortest x
      let (k, p) := dropZeros 20 k p
      let ds := Nat.toDigits 10 k
      layout ds (p + ds.length - 1)

end Double

end FeatureTree
