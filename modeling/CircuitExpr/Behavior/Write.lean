import CircuitExpr.Behavior.Basic
import CircuitExpr.Expr.Write

/-!
# Written forms of behaviors

A behavior is shown as its expression, its targets and a line for each derivative. Headings may
be set in color.
-/

namespace CircuitExpr

namespace Text

/-- The colors of headings. -/
inductive Color where
  | cyan
  | green

/-- The code that switches a color on. -/
def Color.code : Color → String
  | cyan => "\x1b[36m"
  | green => "\x1b[32m"

/-- A text in a color, or plain. -/
def paint (colored : Bool) (color : Color) (s : String) : String :=
  if colored then color.code ++ s ++ "\x1b[0m" else s

/-- The name of a derivative. -/
def slope (v : Variable) : String := "∂/∂" ++ v.text

end Text

namespace Behavior

variable {D σ : Type}

/-- The lines of derivatives. -/
def derivativeLines (colored : Bool) (derivatives : VariableMap (Expr Float)) : String :=
  String.join (derivatives.entries.map fun entry =>
    "  " ++ Text.paint colored .green (Text.slope entry.1) ++ " = " ++ entry.2.text ++ "\n")

/-- The written form. -/
def text (colored : Bool) (b : Behavior Float D σ) : String :=
  Text.paint colored .cyan "Expression" ++ ": " ++ b.expr.text ++ "\n"
    ++ Text.paint colored .cyan "Targets" ++ ": "
    ++ Text.bracketed (b.expressions.keys.map Variable.text) ++ "\n"
    ++ derivativeLines colored b.expressions

/-- The outline. -/
def inspect (b : Behavior Float D σ) : String :=
  "\x7b\n    Expression: " ++ b.expr.text ++ "\n    Backend: " ++ b.value.backend.text
    ++ "\n    Derivatives: " ++ b.expressions.inspect Expr.inspect ++ "\n\x7d\n"

end Behavior

/-- The outline of tolerances. -/
def Tolerances.inspect (t : Tolerances Float) : String :=
  Text.record "Tolerances"
    [("fudge_factor", Decimal.inspect t.fudge),
      ("relative_tolerance", Decimal.inspect t.relative),
      ("absolute_tolerance", Decimal.inspect t.absolute)]

/-- The outline of options. -/
def BuildOptions.inspect (o : BuildOptions Float) : String :=
  Text.record "BuildOptions"
    [("backend", o.backend.inspect),
      ("comparison", Text.optional (o.comparison.map NameComparison.inspect)),
      ("tolerances", Text.optional (o.tolerances.map Tolerances.inspect)),
      ("hook", Text.truth o.hook.isSome),
      ("targets", Text.optional (o.targets.map fun vs =>
        Text.bracketed (vs.map Variable.inspect)))]

/-- The outline of a complex number. -/
def Complex.inspect (z : Complex Float) : String :=
  Text.record "Complex" [("re", Decimal.inspect z.re), ("im", Decimal.inspect z.im)]

end CircuitExpr
