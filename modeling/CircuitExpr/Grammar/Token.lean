import CircuitExpr.Decimal.Read
import CircuitExpr.Grammar.Error
import CircuitExpr.Text.Blank

/-!
# Tokens

A text without numbers is cut into tokens in two steps.

1. Characters become pieces: signs, blanks, quoted texts, and runs of any other characters.
   Comments, `//` to the end of the line and `/*` to `*/`, leave nothing behind, so a run goes on
   behind a comment.
2. Signs that stand together become one token, as `<=` and `&&=` do; `&` and `|` do not stand
   alone. A run of other characters is a truth value, an infinity, an undefined number or a name.
-/

namespace CircuitExpr

/-! ## Pieces -/

/-- What a text consists of before signs are put together. -/
inductive Piece where
  | sign (c : Char)
  | blank
  | run (chars : List Char)
  | quoted (chars : List Char)

namespace Piece

/-- The characters that are signs. -/
def isSign (c : Char) : Bool := "+-*/%^(),;=!><&|".toList.contains c

/-- The piece of a single character outside quotes and comments. -/
def ofChar (c : Char) : Piece :=
  if isSign c then sign c else if Text.isBlank c then blank else run [c]

/-- How a piece is named in messages. -/
def text : Piece → String
  | sign c => c.toString
  | blank => " "
  | run chars => String.ofList chars
  | quoted chars => Text.quote (String.ofList chars)

/-- Where in a text the next character stands. -/
inductive Place where
  | plain
  | line
  | block
  /-- Inside quotes; what was read there, the last character first. -/
  | quotes (read : List Char)

/-- The pieces of a text whose next character stands at a place. -/
def scan : Place → List Char → Except GrammarError (List Piece)
  | .plain, [] => .ok []
  | .plain, '"' :: rest => scan (.quotes []) rest
  | .plain, '/' :: '/' :: rest => scan .line rest
  | .plain, '/' :: '*' :: rest => scan .block rest
  | .plain, c :: rest => (scan .plain rest).map (ofChar c :: ·)
  | .line, [] => .ok []
  | .line, c :: rest => if c == '\n' then scan .plain rest else scan .line rest
  | .block, [] => .error .unmatchedComment
  | .block, '*' :: '/' :: rest => scan .plain rest
  | .block, _ :: rest => scan .block rest
  | .quotes _, [] => .error .unmatchedDoubleQuote
  | .quotes read, '"' :: rest => (scan .plain rest).map (quoted read.reverse :: ·)
  | .quotes _, '\\' :: [] => .error (.illegalEscape none)
  | .quotes read, '\\' :: c :: rest =>
    if c == '"' || c == '\\' then scan (.quotes (c :: read)) rest
    else .error (.illegalEscape (some c))
  | .quotes read, c :: rest => scan (.quotes (c :: read)) rest

/-- A character that opens neither quotes nor a comment is scanned by itself. -/
theorem scan_plain_cons {c : Char} {rest : List Char} (hquote : c ≠ '"')
    (hslash : c = '/' → ∀ d ∈ rest.head?, d ≠ '/' ∧ d ≠ '*') :
    scan .plain (c :: rest) = (scan .plain rest).map (ofChar c :: ·) := by
  rw [scan]
  · intro h
    exact hquote h
  · intro more hc hrest
    subst hc hrest
    exact (hslash rfl '/' rfl).1 rfl
  · intro more hc hrest
    subst hc hrest
    exact (hslash rfl '*' rfl).2 rfl

/-- Joins runs that stand next to each other. -/
def join : List Piece → List Piece
  | [] => []
  | p :: rest =>
    match p, join rest with
    | run s, run t :: more => run (s ++ t) :: more
    | p, more => p :: more

/-- The pieces of a text. -/
def ofText (s : List Char) : Except GrammarError (List Piece) := (scan .plain s).map join

end Piece

/-! ## Tokens -/

/-- The assignments, which are read but not evaluated. -/
inductive Assignment where
  | plain
  | add
  | sub
  | mul
  | div
  | mod
  | exp
  | and
  | or
deriving DecidableEq

/-- The tokens of a text. -/
inductive Token where
  | plus
  | minus
  | times
  | divide
  | modulo
  | power
  | equal
  | notEqual
  | greater
  | less
  | greaterOrEqual
  | lessOrEqual
  | and
  | or
  | not
  | openParen
  | closeParen
  | comma
  | semicolon
  | assign (a : Assignment)
  | number (x : Float)
  | boolean (b : Bool)
  | quoted (chars : List Char)
  | name (chars : List Char)

namespace Token

/-- A run of characters as a token. -/
def ofRun (chars : List Char) : Token :=
  match Decimal.read? chars with
  | some x => number x
  | none =>
    if chars == "true".toList then boolean true
    else if chars == "false".toList then boolean false
    else name chars

/-- A sign by itself. -/
def ofSign (c : Char) : Token :=
  match c with
  | '+' => plus
  | '-' => minus
  | '*' => times
  | '/' => divide
  | '%' => modulo
  | '^' => power
  | '(' => openParen
  | ')' => closeParen
  | ',' => comma
  | ';' => semicolon
  | '!' => not
  | '>' => greater
  | '<' => less
  | _ => assign .plain

/-- A sign with an equals sign behind it, if they belong together. -/
def withEquals? (c : Char) : Option Token :=
  match c with
  | '+' => some (assign .add)
  | '-' => some (assign .sub)
  | '*' => some (assign .mul)
  | '/' => some (assign .div)
  | '%' => some (assign .mod)
  | '^' => some (assign .exp)
  | '=' => some equal
  | '!' => some notEqual
  | '>' => some greaterOrEqual
  | '<' => some lessOrEqual
  | _ => none

/-- Whether an equals sign comes next. -/
def equalsNext : List Piece → Bool
  | .sign c :: _ => c == '='
  | _ => false

/-- A doubled `&` or `|`, with an equals sign behind it or without; how many pieces it takes. -/
def doubled (c : Char) (rest : List Piece) : Token × Nat :=
  if equalsNext rest then (assign (if c == '&' then .and else .or), 2)
  else (if c == '&' then and else or, 1)

/-- The token that a sign opens, and how many of the following pieces belong to it. -/
def glue (c : Char) (rest : List Piece) : Except GrammarError (Token × Nat) :=
  if c == '&' || c == '|' then
    match rest with
    | [] => .error (.partialToken c none)
    | next :: more =>
      match next with
      | .sign d =>
        if d == c then .ok (doubled c more) else .error (.partialToken c (some next.text))
      | _ => .error (.partialToken c (some next.text))
  else
    match equalsNext rest, withEquals? c with
    | true, some token => .ok (token, 1)
    | _, _ => .ok (ofSign c, 0)

/-- The tokens of pieces, of which the first `taken` belong to the token before. -/
def ofPiecesFrom : Nat → List Piece → Except GrammarError (List Token)
  | _, [] => .ok []
  | taken + 1, _ :: rest => ofPiecesFrom taken rest
  | 0, .blank :: rest => ofPiecesFrom 0 rest
  | 0, .run chars :: rest => (ofPiecesFrom 0 rest).map (ofRun chars :: ·)
  | 0, .quoted chars :: rest => (ofPiecesFrom 0 rest).map (quoted chars :: ·)
  | 0, .sign c :: rest =>
    match glue c rest with
    | .error e => .error e
    | .ok (token, taken) => (ofPiecesFrom taken rest).map (token :: ·)

/-- The tokens of a text. -/
def ofText (s : List Char) : Except GrammarError (List Token) :=
  match Piece.ofText s with
  | .error e => .error e
  | .ok pieces => ofPiecesFrom 0 pieces

/-- Whether a value may end with this token. -/
def endsValue : Token → Bool
  | closeParen | name _ | number _ | boolean _ | quoted _ => true
  | _ => false

/-- Whether a value may begin with this token, minus signs apart. -/
def beginsValue : Token → Bool
  | openParen | name _ | number _ | boolean _ | quoted _ => true
  | _ => false

def isAssignment : Token → Bool
  | assign _ => true
  | _ => false

end Token

end CircuitExpr
