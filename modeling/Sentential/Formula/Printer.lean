import Sentential.Symbol

/-!
# Printed formulas

A formula is written with the fewest parentheses that its tree needs. All connectives associate to
the left, so a right operand is enclosed also where it binds as tightly as its parent.
-/

namespace Sentential.Formula

def level : Formula → Nat
  | .binary c .. => c.level
  | .not _ => 6
  | .var _ | .const _ => 7

def enclose (needed : Bool) (symbols : List Symbol) : List Symbol :=
  if needed then .opening :: symbols ++ [.closing] else symbols

def symbols : Formula → List Symbol
  | .var v => [.var v]
  | .const b => [.const b]
  | .not f => .op .not :: enclose (f.level < 6) f.symbols
  | .binary c f g =>
    enclose (f.level < c.level) f.symbols ++
      .op (.binary c) :: enclose (g.level ≤ c.level) g.symbols

def print (f : Formula) : List Char := Symbol.render f.symbols

instance : ToString Formula := ⟨fun f => String.ofList f.print⟩

end Sentential.Formula
