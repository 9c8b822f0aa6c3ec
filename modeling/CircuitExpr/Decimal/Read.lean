/-!
# Reading numbers

The grammar of a number is

* a sign `+` or `-`, or none, and then
* `inf`, `infinity` or `nan` in any case, or
* digits with at most one point among them and at least one digit, and then an exponent or none:
  `e` or `E`, a sign or none, and at least one digit.

The whole text has to be a number. It is rounded once, to the nearest double.
-/

namespace CircuitExpr.Decimal

/-! ## Digits -/

/-- The value of a row of digits. -/
def natural (digits : List Char) : Nat :=
  digits.foldl (fun n c => 10 * n + (c.toNat - 48)) 0

/-- The digits at the front of a text, and what follows them. -/
def spanDigits (s : List Char) : List Char × List Char := s.span Char.isDigit

/-! ## Rounding -/

/--
The double nearest to `m · 10 ^ e`.

Beyond `10 ^ 400` and below `10 ^ -400` the answer is known without computing the power of ten.
-/
def nearest (m : Nat) (e : Int) : Float :=
  let size := ((Nat.toDigits 10 m).length : Int) + e
  if m = 0 then 0
  else if 400 < size then 1 / 0
  else if size < -400 then 0
  else if 0 ≤ e then Float.ofScientific m false e.toNat
  else Float.ofScientific m true (-e).toNat

/-! ## Grammar -/

/-- A sign at the front of a text: whether it is a minus, and what follows it. -/
def readSign : List Char → Bool × List Char
  | '-' :: rest => (true, rest)
  | '+' :: rest => (false, rest)
  | s => (false, s)

/-- An exponent that takes up all of a text; nothing at all counts as zero. -/
def readExponent? : List Char → Option Int
  | [] => some 0
  | e :: rest =>
    if e == 'e' || e == 'E' then
      let (negative, digits) := readSign rest
      if digits.isEmpty || !digits.all Char.isDigit then none
      else some (if negative then -(natural digits : Int) else natural digits)
    else none

/-- A number without sign that is written in digits. -/
def readDigits? (s : List Char) : Option Float :=
  let (whole, rest) := spanDigits s
  let (fraction, rest) :=
    match rest with
    | '.' :: more => spanDigits more
    | _ => ([], rest)
  if whole.isEmpty && fraction.isEmpty then none
  else do
    let exponent ← readExponent? rest
    return nearest (natural (whole ++ fraction)) (exponent - fraction.length)

/-- A number without sign. -/
def readUnsigned? (s : List Char) : Option Float :=
  let word := String.ofList (s.map Char.toLower)
  if word == "inf" || word == "infinity" then some (1 / 0)
  else if word == "nan" then some (0 / 0)
  else readDigits? s

/-- A number that takes up all of a text. -/
def read? (s : List Char) : Option Float :=
  let (negative, rest) := readSign s
  (readUnsigned? rest).map fun x => if negative then -x else x

end CircuitExpr.Decimal
