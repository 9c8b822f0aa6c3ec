import CircuitExpr.Decimal.Read
import CircuitExpr.Grammar.Error
import CircuitExpr.Text.Letter
import CircuitExpr.Text.LowerCase

/-!
# Numbers with units

Numbers are written as circuits have them: `10k`, `2.2u`, `1meg`, `5mA`. A row of digits and
points and an exponent are followed by letters, of which the first say by what to multiply; the
others are a unit and say nothing.
-/

namespace CircuitExpr.Number

/-- What the letters behind a number multiply it by. -/
def multiplier (letters : List Char) : Float :=
  match Text.lowerChars letters with
  | 'm' :: 'e' :: 'g' :: _ => 1e6
  | 'm' :: 'i' :: 'l' :: _ => 25.4e-6
  | 'f' :: _ => 1e-15
  | 'p' :: _ => 1e-12
  | 'n' :: _ => 1e-9
  | 'u' :: _ => 1e-6
  | 'm' :: _ => 1e-3
  | 'k' :: _ => 1e3
  | 'g' :: _ => 1e9
  | 't' :: _ => 1e12
  | _ => 1

/-- A digit or a point. -/
def isMantissaChar (c : Char) : Bool := c.isDigit || c == '.'

/-- A plus or minus sign, if there is one, and the rest. -/
def takeSign : List Char → List Char × List Char
  | c :: rest => if c == '+' || c == '-' then ([c], rest) else ([], c :: rest)
  | [] => ([], [])

/-- An exponent with at least one digit, if there is one, and the rest. -/
def takeExponent : List Char → List Char × List Char
  | [] => ([], [])
  | e :: rest =>
    let (sign, digits) := takeSign rest
    if (e == 'e' || e == 'E') && !(digits.takeWhile Char.isDigit).isEmpty then
      (e :: sign ++ digits.takeWhile Char.isDigit, digits.dropWhile Char.isDigit)
    else ([], e :: rest)

/-- The parts of a number in front of a text: digits with exponent, letters, and the rest. -/
def split (s : List Char) : List Char × List Char × List Char :=
  let (exponent, rest) := takeExponent (s.dropWhile isMantissaChar)
  (s.takeWhile isMantissaChar ++ exponent, rest.takeWhile Text.isLetter,
    rest.dropWhile Text.isLetter)

/-- The value of digits and the letters behind them. -/
def value (digits letters : List Char) : Except ReadError Float :=
  match Decimal.read? digits with
  | some x => .ok (x * multiplier letters)
  | none => .error (.literal (String.ofList digits))

/-! ## Nothing is lost -/

theorem takeSign_append (s : List Char) : (takeSign s).1 ++ (takeSign s).2 = s := by
  cases s with
  | nil => rfl
  | cons c rest =>
    rw [takeSign]
    split <;> rfl

theorem takeExponent_append (s : List Char) : (takeExponent s).1 ++ (takeExponent s).2 = s := by
  cases s with
  | nil => rfl
  | cons e rest =>
    unfold takeExponent
    simp only
    split
    · show e :: (takeSign rest).1 ++ (takeSign rest).2.takeWhile Char.isDigit
        ++ (takeSign rest).2.dropWhile Char.isDigit = e :: rest
      rw [List.append_assoc, List.takeWhile_append_dropWhile, List.cons_append, takeSign_append]
    · rfl

/-- The parts of a number and the rest make up the text. -/
theorem split_append (s : List Char) : (split s).1 ++ ((split s).2.1 ++ (split s).2.2) = s := by
  unfold split
  simp only
  rw [List.takeWhile_append_dropWhile, List.append_assoc, takeExponent_append,
    List.takeWhile_append_dropWhile]

end CircuitExpr.Number
