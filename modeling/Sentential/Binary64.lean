/-!
# Double precision

Whole numbers in the format binary64, which keeps 53 significant bits. Rounding goes to the nearest
such number, a tie to the even neighbour. What reaches `2 ^ 1024` stands for infinity.
-/

namespace Sentential.Binary64

/-- How far apart the numbers of the format are where `n` lies. -/
def spacing (n : Nat) : Nat := 1 <<< (n.log2 + 1 - 53)

def round (n : Nat) : Nat :=
  let excess := n % spacing n
  if spacing n < 2 * excess ∨ 2 * excess = spacing n ∧ n / spacing n % 2 = 1 then
    n - excess + spacing n
  else n - excess

def multiply (m n : Nat) : Nat := round (round m * round n)

def isFinite (n : Nat) : Bool := n < 1 <<< 1024

end Sentential.Binary64
