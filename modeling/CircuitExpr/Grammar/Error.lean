import CircuitExpr.Text.Record

/-!
# What can be wrong with a text

Why a text is no expression. `GrammarError` has the causes that concern characters, tokens and
their nesting; `ReadError` adds what is found out later, when numbers, circuit references and
operands are looked at.
-/

namespace CircuitExpr

/-- Why characters or tokens do not fit together. -/
inductive GrammarError where
  /-- A backslash before a character that needs none, or before the end of the text. -/
  | illegalEscape (c : Option Char)
  | unmatchedDoubleQuote
  | unmatchedComment
  /-- A sign that stands only doubled, and what follows instead of its double. -/
  | partialToken (sign : Char) (next : Option String)
  | unmatchedClosing
  | unmatchedOpening
  /-- A node whose place is taken by one of higher precedence. -/
  | precedence
  /-- A value right behind a value. -/
  | appendedToLeaf
  /-- A parenthesis where an operator has to stand. -/
  | missingOperator
deriving DecidableEq

/-- The message. -/
def GrammarError.message : GrammarError → String
  | illegalEscape none => "Illegal escape sequence: \\"
  | illegalEscape (some c) => "Illegal escape sequence: \\" ++ c.toString
  | unmatchedDoubleQuote => "Found an unmatched double quote '\"'"
  | unmatchedComment => "Error: unmatched inline comment"
  | partialToken sign (some next) =>
    "Found a partial token '" ++ sign.toString ++ "' that should not be followed by '" ++ next
      ++ "'."
  | partialToken sign none =>
    "Found a partial token '" ++ sign.toString
      ++ "' that should be followed by another partial token."
  | unmatchedClosing => "Found an unmatched closing parenthesis ')'."
  | unmatchedOpening => "Found an unmatched opening parenthesis '('."
  | precedence => "Tried to append a node to another node with higher precedence."
  | appendedToLeaf => "Tried to append a node to a leaf node."
  | missingOperator =>
    "Found an opening parenthesis that is preceded by something that does not take any arguments "
      ++ "on the right, or found a closing parenthesis that is succeeded by something that does "
      ++ "not take any arguments on the left."

/-- Why a text is no expression. -/
inductive ReadError where
  | grammar (e : GrammarError)
  /-- An operator that expressions do not have, by its outline. -/
  | unsupportedOperator (outline : String)
  /-- A constant that is no number, by its outline. -/
  | notNumeric (outline : String)
  /-- A group that does not hold exactly one expression. -/
  | group (count : Nat)
  /-- A circuit reference that cannot be resolved, or the part of it that is to blame. -/
  | reference (text : String)
  | operands (operator : String) (expected got : Nat)
  /-- A number that is not written as one. -/
  | literal (text : String)
deriving DecidableEq

/-- The message. -/
def ReadError.message : ReadError → String
  | grammar e => "failed to parse expression: " ++ e.message
  | unsupportedOperator outline => "unsupported operator: " ++ outline
  | notNumeric outline => "expected numeric constant: " ++ outline
  | group count =>
    "expected single child for root node: " ++ toString count ++ " children"
  | reference text => "malformed circuit reference: " ++ text
  | operands operator expected got =>
    "operator " ++ operator ++ " expects " ++ toString expected ++ " operand(s), got "
      ++ toString got
  | literal text => "invalid numeric literal: " ++ text

end CircuitExpr
