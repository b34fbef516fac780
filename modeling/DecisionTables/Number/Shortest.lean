import DecisionTables.Number.Decimal

/-!
# Shortest decimals

The shortest decimal of a binary64 number has the fewest digits among the decimals that read back
to it, and of those it is the nearest, a tie going to the even one.  The decimals with a given
number of digits form a grid; only the two neighbours of the value on a grid can be the nearest.
Grids are tried from the coarsest on, and the last grid holds the exact value, which always reads
back.
-/

namespace DecisionTables

namespace Binary64

/-- The digits of a magnitude, in units of `10 ^ -1074`. -/
def exactDigits (magnitude : Nat) : Nat :=
  scaled magnitude * Nat.pow 5 1074

def readsBack (magnitude : Nat) (d : Decimal) : Bool :=
  (d.toBinary64? false).map Binary64.magnitude == some magnitude

/-- The nearer of two neighbours on a grid of the given unit, a tie going to the even one. -/
def nearer (exact unit : Nat) (below above : Decimal) : Decimal :=
  match compare (2 * exact) ((below.digits + above.digits) * unit) with
  | .lt => below
  | .gt => above
  | .eq => if below.digits % 2 = 0 then below else above

/--
The nearest decimal that reads back among the two neighbours of a magnitude on the grid that drops
the given number of its exact digits.
-/
def onGrid? (magnitude drop : Nat) : Option Decimal :=
  let exact := exactDigits magnitude
  let unit := Nat.pow 10 drop
  let below : Decimal := ⟨exact / unit, (drop : Int) - 1074⟩
  let above : Decimal := ⟨exact / unit + 1, (drop : Int) - 1074⟩
  if readsBack magnitude below then
    if readsBack magnitude above then some (nearer exact unit below above) else some below
  else if readsBack magnitude above then some above
  else none

/-- The first decimal found when ever fewer of the exact digits are dropped. -/
def coarsest (magnitude : Nat) : Nat → Decimal
  | 0 => ⟨exactDigits magnitude, -1074⟩
  | drop + 1 => (onGrid? magnitude (drop + 1)).getD (coarsest magnitude drop)

def shortest (magnitude : Nat) : Decimal :=
  (coarsest magnitude ((Nat.toDigits 10 (exactDigits magnitude)).length - 1)).normalize

end Binary64

end DecisionTables
