import CircuitExpr.Native.Instruction

/-!
# Listings of native code

A listing has a line for each instruction, under its name. An instruction that has no value of
its own and puts a constant away is listed by the head of that constant in hexadecimal form: its
sign and the digit before the point.
-/

namespace CircuitExpr

/-- The sign of a double and the digit before the point of its hexadecimal form. -/
def Binary64.hexadecimalHead (x : Float) : String :=
  if x.isNaN then "+NaN"
  else
    let b := ofFloat x
    if x.isInf then (if b.negative then "-Inf" else "+Inf")
    else
      let digit :=
        if b.mantissa = 0 then "0" else if b.mantissa < (1 <<< 52) then "0x0" else "0x1"
      if b.negative then "-" ++ digit else digit

namespace NativeCode

/-- The lines of all blocks. -/
def lines {K : Type} (c : NativeCode K) : List (Line K) := c.blocks.toList.flatten

/-- The value of a constant. -/
def constant? {K : Type} (c : NativeCode K) (id : ValueId) : Option K :=
  c.lines.findSome? fun line =>
    match line.instruction with
    | .realConst x => if line.id = id then some x else none
    | _ => none

/-- The name under which an instruction is listed. -/
def listedName (c : NativeCode Float) (i : NativeInstruction Float) : String :=
  match i.putsAway?.bind c.constant? with
  | some x => Binary64.hexadecimalHead x
  | none => i.mnemonic

/-- The names of the instructions, block by block. -/
def listedNames (c : NativeCode Float) : List (List String) :=
  c.blocks.toList.map fun block => block.map fun line => c.listedName line.instruction

/-- A listing of the code. -/
def listing (c : NativeCode Float) : String :=
  let blocks := c.listedNames.zipIdx.map fun entry =>
    "block" ++ toString entry.2 ++ ":\n"
      ++ String.join (entry.1.map fun name => "    " ++ name ++ "\n")
  "function \x7b\n" ++ String.join blocks ++ "\x7d\n"

end NativeCode

end CircuitExpr
