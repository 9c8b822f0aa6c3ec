import CircuitExpr.Derivative.Algebra
import CircuitExpr.Function.Table
import CircuitExpr.Numeric.Scalar

/-!
# The function library

What every table starts from: the elementary functions, `u` for the unit step, selections of one
argument (`min`, `max`, `limit`) and powers (`pow`, `pwr`).

## Contents

* `LibraryFunction.apply` — the value of a function
* `LibraryFunction.rule` — its slopes. Each is an expression in the arguments and mentions no
  function outside the library.
* `FunctionTable.library` — the table with all of them

## Selections

The slope of a selection is one for the argument selected and zero for the others. It is written
as a product of steps: an argument is selected when it beats all earlier ones and no later one
beats it.
-/

namespace CircuitExpr

namespace LibraryFunction

/-- All functions of the library. -/
def all : List LibraryFunction :=
  [abs, sgn, sqrt, exp, log, ln, log10, sin, cos, tan, asin, acos, atan, sinh, cosh, tanh, floor,
    ceil, round, u, min, max, pow, pwr, limit]

theorem mem_all (f : LibraryFunction) : f ∈ all := by
  cases f <;> decide

def name : LibraryFunction → String
  | abs => "abs"
  | sgn => "sgn"
  | sqrt => "sqrt"
  | exp => "exp"
  | log => "log"
  | ln => "ln"
  | log10 => "log10"
  | sin => "sin"
  | cos => "cos"
  | tan => "tan"
  | asin => "asin"
  | acos => "acos"
  | atan => "atan"
  | sinh => "sinh"
  | cosh => "cosh"
  | tanh => "tanh"
  | floor => "floor"
  | ceil => "ceil"
  | round => "round"
  | u => "u"
  | min => "min"
  | max => "max"
  | pow => "pow"
  | pwr => "pwr"
  | limit => "limit"

def arity : LibraryFunction → Arity
  | min | max => .atLeast 1
  | pow | pwr => .exactly 2
  | limit => .exactly 3
  | _ => .exactly 1

/-! ## Values -/

section Value

variable {D K : Type} [Literal K] [Scalar D K]

/-- A function of one argument. -/
def unary (f : Elementary) : List D → D
  | x :: _ => Scalar.elementary f x
  | [] => Scalar.undefined

/-- A function of two arguments. -/
def binary (f : D → D → D) : List D → D
  | x :: y :: _ => f x y
  | _ => Scalar.undefined

/-- The argument that no other one beats; of equals the first. -/
def select (beats : D → D → Bool) : List D → D
  | x :: rest => rest.foldl (fun best y => if beats y best then y else best) x
  | [] => Scalar.undefined

/-- The first argument, kept between the second and the third. -/
def clamp : List D → D
  | x :: low :: high :: _ =>
    if Scalar.real x ≤ Scalar.real low then low
    else if Scalar.real x > Scalar.real high then high
    else x
  | _ => Scalar.undefined

/-- The value of a function. Calls are resolved before, so the counts of arguments are right. -/
def apply : LibraryFunction → List D → D
  | abs => unary .abs
  | sgn => unary .sgn
  | sqrt => unary .sqrt
  | exp => unary .exp
  | log => unary .ln
  | ln => unary .ln
  | log10 => unary .log10
  | sin => unary .sin
  | cos => unary .cos
  | tan => unary .tan
  | asin => unary .asin
  | acos => unary .acos
  | atan => unary .atan
  | sinh => unary .sinh
  | cosh => unary .cosh
  | tanh => unary .tanh
  | floor => unary .floor
  | ceil => unary .ceil
  | round => unary .round
  | u => unary .step
  | min => select fun y best => Scalar.real y < Scalar.real best
  | max => select fun y best => Scalar.real y > Scalar.real best
  | pow => binary Scalar.power
  | pwr => binary fun x y => Scalar.elementary .sgn x * Scalar.power x y
  | limit => clamp

end Value

/-! ## Slopes -/

section Slope

variable {K : Type} [Literal K]

open CircuitExpr.Expr

/-- A call of a library function. -/
def of (f : LibraryFunction) (arguments : List (Expr K)) : Expr K := .call f.name arguments

/-- The unit step of an expression. -/
def step (e : Expr K) : Expr K := of u [e]

/-- One before the unit step and zero from there on. -/
def noStep (e : Expr K) : Expr K := difference one (step e)

/-- The square root of one less a square, which the arc sine and arc cosine divide by. -/
def circleHeight (x : Expr K) : Expr K := of sqrt [difference one (product x x)]

/-- The slope of each argument of a function that is flat wherever it has a slope. -/
def flat (arguments : List (Expr K)) : List (Expr K) := arguments.map fun _ => zero

/--
The slopes of a selection, where `beats x y` is one when the later argument `x` is taken instead
of the earlier argument `y`.
-/
def selectionSlopes (beats : Expr K → Expr K → Expr K) :
    List (Expr K) → List (Expr K) → List (Expr K)
  | _, [] => []
  | earlier, x :: later =>
    let afterEarlier := earlier.foldl (fun p y => product p (beats x y)) one
    later.foldl (fun p y => product p (difference one (beats y x))) afterEarlier
      :: selectionSlopes beats (earlier ++ [x]) later

/-- The slopes of `base ^ exponent` with the sign of the base lost. -/
def powerSlopes : List (Expr K) → List (Expr K)
  | base :: exponent :: _ =>
    [product (product exponent (.binary .pow base (difference exponent one))) (of sgn [base]),
      product (.binary .pow base exponent) (of log [of abs [base]])]
  | _ => []

/-- The slopes of `base ^ exponent` with the sign of the base kept. -/
def signedPowerSlopes : List (Expr K) → List (Expr K)
  | base :: exponent :: _ =>
    [product exponent (.binary .pow base (difference exponent one)),
      product (of pwr [base, exponent]) (of log [of abs [base]])]
  | _ => []

/-- The slopes of a clamped value. -/
def clampSlopes : List (Expr K) → List (Expr K)
  | x :: low :: high :: _ =>
    let aboveLow := step (difference x low)
    let aboveHigh := step (difference x high)
    [product aboveLow (noStep (difference x high)), noStep (difference x low),
      product aboveLow aboveHigh]
  | _ => []

/-- The slopes of a function. -/
def rule : LibraryFunction → DerivativeRule K
  | sgn | floor | ceil | round | u => flat
  | abs => List.map fun x => of sgn [x]
  | sqrt => List.map fun x => quotient (.const 0.5) (of sqrt [x])
  | exp => List.map fun x => of exp [x]
  | log | ln => List.map fun x => quotient one x
  | log10 => List.map fun x => quotient one (product x (.const 2.302585092994045684))
  | sin => List.map fun x => of cos [x]
  | cos => List.map fun x => negate (of sin [x])
  | tan => List.map fun x => quotient one (product (of cos [x]) (of cos [x]))
  | asin => List.map fun x => quotient one (circleHeight x)
  | acos => List.map fun x => quotient (.const (-1)) (circleHeight x)
  | atan => List.map fun x => quotient one (sum one (product x x))
  | sinh => List.map fun x => of cosh [x]
  | cosh => List.map fun x => of sinh [x]
  | tanh => List.map fun x => difference one (product (of tanh [x]) (of tanh [x]))
  | min => selectionSlopes (fun x y => step (difference y x)) []
  | max => selectionSlopes (fun x y => step (difference x y)) []
  | pow => powerSlopes
  | pwr => signedPowerSlopes
  | limit => clampSlopes

/-- The definition of a function of the library. -/
def definition (f : LibraryFunction) : FunctionDefinition K :=
  ⟨f.arity, .library f, some f.rule⟩

end Slope

end LibraryFunction

/-- The table of all functions of the library. -/
def FunctionTable.library {K : Type} [Literal K] : FunctionTable K :=
  LibraryFunction.all.foldl (fun t f => t.register f.name f.definition) empty

end CircuitExpr
