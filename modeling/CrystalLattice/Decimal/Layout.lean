import CrystalLattice.Decimal.Shortest

/-!
# Writing floats as text

Three layouts of a binary64 value. The general layout writes the shortest digits that read
back, positionally for moderate decimal exponents and in scientific notation otherwise; two
records of this kind are used, one for messages and plain text and one for JSON documents.
The fixed layout writes the exact value rounded to a given number of places, a half going to
the even neighbour.
-/

namespace CrystalLattice.Decimal

/-- Where the general layout switches to scientific notation and how it writes the exponent. -/
structure GeneralStyle where
  /-- The least decimal exponent of the leading digit that is written positionally. -/
  lowest : Int
  /-- The greatest decimal exponent of the leading digit that is written positionally. -/
  highest : Int
  /-- Least number of digits of a positive exponent. -/
  positiveWidth : Nat
  negativeWidth : Nat

/-- Messages and plain text: positional from `1e-4` to below `1e6`, two exponent digits at least. -/
def GeneralStyle.text : GeneralStyle := ⟨-4, 5, 2, 2⟩

/-- JSON documents: positional from `1e-6` to below `1e21`; a negative exponent has no
leading zero. -/
def GeneralStyle.json : GeneralStyle := ⟨-6, 20, 2, 1⟩

def digitChars (ds : List Nat) : String :=
  String.ofList (ds.map fun d => Char.ofNat (48 + d))

def zeros (n : Nat) : String := String.ofList (List.replicate n '0')

def padded (n width : Nat) : String :=
  let s := digitChars (digits n)
  let s := if n = 0 then "0" else s
  zeros (width - s.length) ++ s

/-- Positional text of `0.d₁…dₙ × 10 ^ point`. -/
def positional (ds : List Nat) (point : Int) : String :=
  if ds.isEmpty then "0"
  else if point ≤ 0 then "0." ++ zeros (-point).toNat ++ digitChars ds
  else
    let n := point.toNat
    if ds.length ≤ n then digitChars ds ++ zeros (n - ds.length)
    else digitChars (ds.take n) ++ "." ++ digitChars (ds.drop n)

/-- Scientific text `d₁.d₂…dₙe±x` of `0.d₁…dₙ × 10 ^ point`. -/
def scientific (style : GeneralStyle) (ds : List Nat) (point : Int) : String :=
  let x := point - 1
  let lead := digitChars (ds.take 1)
  let rest := ds.drop 1
  let body := if rest.isEmpty then lead else lead ++ "." ++ digitChars rest
  if x < 0 then body ++ "e-" ++ padded (-x).toNat style.negativeWidth
  else body ++ "e+" ++ padded x.toNat style.positiveWidth

/-- The general layout of a decimal magnitude. -/
def Number.general (style : GeneralStyle) (d : Number) : String :=
  let ds := digits d.mantissa
  let point := d.exponent + ds.length
  if ds.isEmpty then "0"
  else if style.lowest ≤ point - 1 ∧ point - 1 ≤ style.highest then positional ds point
  else scientific style ds point

/-- `num / den` rounded to the nearest natural number, a half going to the even one. -/
def roundHalfEvenDiv (num den : Nat) : Nat :=
  let q := num / den
  let r := num % den
  if 2 * r > den ∨ (2 * r = den ∧ q % 2 = 1) then q + 1 else q

/-- The fixed layout of the magnitude of a finite word with `places` decimals. -/
def fixedMagnitude (w : Nat) (places : Nat) : String :=
  let (m, e) := binaryValue w
  let (num, den) := scaled m (places : Int) e
  let q := roundHalfEvenDiv num den
  let whole := digitChars (digits (q / Nat.pow 10 places))
  let whole := if whole.isEmpty then "0" else whole
  if places = 0 then whole else whole ++ "." ++ padded (q % Nat.pow 10 places) places

open Binary64

/-- Text of a float in the general style, as messages and plain output write it: `NaN`,
`+Inf` and `-Inf` for the non-finite values, and a minus sign on every negative value,
negative zero included. -/
def render (x : Float) : String :=
  let w := word x
  if x.isNaN then "NaN"
  else if x.isInf then (if signBit w = 1 then "-Inf" else "+Inf")
  else (if signBit w = 1 then "-" else "") ++ (shortest w).general GeneralStyle.text

/-- Text of a finite float as a JSON number in the layout of JSON documents; `none` for NaN
and the infinities, which JSON cannot write. -/
def renderJson? (x : Float) : Option String :=
  let w := word x
  if x.isNaN || x.isInf then none
  else some ((if signBit w = 1 then "-" else "") ++ (shortest w).general GeneralStyle.json)

/-- Text of a float with `places` decimals, rounded exactly. -/
def renderFixed (places : Nat) (x : Float) : String :=
  let w := word x
  if x.isNaN then "NaN"
  else if x.isInf then (if signBit w = 1 then "-Inf" else "+Inf")
  else (if signBit w = 1 then "-" else "") ++ fixedMagnitude w places

end CrystalLattice.Decimal
