import CircuitExpr.Expr.Write
import CircuitExpr.Grammar.Read

/-!
# Texts that are read when needed

The text of a component may be set again and again before its expression is asked for. A cache
keeps the last text and what was read from it, and reads anew only when the text has changed.
-/

namespace CircuitExpr

/-- A text, and what was read from it since it was set. -/
structure TextCache (A : Type) where
  text : Option String
  value : Option A

namespace TextCache

variable {A E : Type}

/-- No text. -/
def empty : TextCache A := ⟨none, none⟩

/-- Sets the text. A text that is there already changes nothing. -/
def setText (c : TextCache A) (text : String) : TextCache A :=
  if c.text = some text then c else ⟨some text, none⟩

/-- Whether setting this text would change it. -/
def changes (c : TextCache A) (text : String) : Bool := c.text != some text

/-- Whether the text has still to be read. -/
def isDirty (c : TextCache A) : Bool := c.text.isSome && c.value.isNone

/-- What the text stands for, and the cache that remembers it. A failure is not remembered. -/
def get (read : String → Except E A) (c : TextCache A) : Except E (Option A) × TextCache A :=
  match c.value, c.text with
  | some a, _ => (.ok (some a), c)
  | none, none => (.ok none, c)
  | none, some text =>
    match read text with
    | .ok a => (.ok (some a), { c with value := some a })
    | .error e => (.error e, c)

/-- The outline of a cache of expressions. -/
def inspect (c : TextCache (Expr Float)) : String :=
  Text.record "ExpressionCache"
    [("text", Text.optional (c.text.map Text.quote)),
      ("node", Text.optional (c.value.map Expr.inspect))]

end TextCache

end CircuitExpr
