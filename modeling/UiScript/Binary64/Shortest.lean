import UiScript.Binary64.Decimal

/-!
# Shortest digits

The fewest decimal digits that read back as the same value and, of those, the ones nearest to it. For one digit, two
digits and so on, the two neighbours of the value on that decimal grid are tested exactly; the first grid with a hit
wins.
-/

namespace UiScript

/-- Which of two equally near digits is taken. -/
inductive Tie where
  | up
  | even
deriving DecidableEq, Repr, Inhabited

namespace Binary64

/-- A positive value and the ends of the interval of reals that round to it, as numerators of one denominator. The ends
belong to the interval iff `closed` holds. -/
structure Rounding where
  value : Nat
  low : Nat
  high : Nat
  den : Nat
  closed : Bool
deriving Repr

/-- The interval of the reals that round to `m * 2 ^ e`. Below a power of two the next value is only half as far. -/
def rounding (m : Nat) (e : Int) : Rounding :=
  let below := if m = twoPow 52 ∧ -1074 < e then 1 else 2
  let num := if 2 ≤ e then twoPow (e - 2).toNat else 1
  let den := if 2 ≤ e then 1 else twoPow (2 - e).toNat
  ⟨4 * m * num, (4 * m - below) * num, (4 * m + 2) * num, den, m % 2 == 0⟩

/-- The exponent of the greatest power of ten that is at most `num / den`. -/
def log10Ratio (num den : Nat) : Int :=
  if den ≤ num then ((decimalDigits (num / den)).length : Int) - 1
  else
    let j := (decimalDigits (den / num)).length - 1
    if den ≤ num * tenPow j then -(j : Int) else -(j : Int) - 1

/-- The best multiple of `10 ^ p` in the interval, if there is one: the multiplier of the nearer neighbour. -/
def gridPoint? (tie : Tie) (r : Rounding) (p : Int) : Option Nat :=
  let up := if p < 0 then tenPow (-p).toNat else 1
  let unit := r.den * if p < 0 then 1 else tenPow p.toNat
  let floor := r.value * up / unit
  let rest := r.value * up % unit
  let fits (k : Nat) : Bool :=
    if r.closed then decide (r.low * up ≤ k * unit) && decide (k * unit ≤ r.high * up)
    else decide (r.low * up < k * unit) && decide (k * unit < r.high * up)
  if rest = 0 then some floor
  else
    let nearest :=
      if 2 * rest < unit then floor
      else if unit < 2 * rest then floor + 1
      else match tie with
        | .up => floor + 1
        | .even => if floor % 2 = 0 then floor else floor + 1
    match fits floor, fits (floor + 1) with
    | true, true => some nearest
    | true, false => some floor
    | false, true => some (floor + 1)
    | false, false => none

/-- Looks for a hit with `digits` digits and, up to `more` times, with one more. -/
def searchGrid (tie : Tie) (r : Rounding) (magnitude : Int) (digits : Nat) : Nat → Nat × Int
  | 0 => (r.value / r.den, 0)
  | more + 1 =>
    let p := magnitude + 1 - digits
    match gridPoint? tie r p with
    | some k => (k, p)
    | none => searchGrid tie r magnitude (digits + 1) more

/-- A number without the zeros at its end, and the power of ten that they were. -/
def dropZeros (n : Nat) : Nat → Nat × Nat
  | 0 => (n, 0)
  | more + 1 => if n ≠ 0 ∧ n % 10 = 0 then let (k, zeros) := dropZeros (n / 10) more; (k, zeros + 1) else (n, 0)

/-- The shortest digits of the positive value `m * 2 ^ e`, as an integer that does not end in zero and a power of ten.
Seventeen digits are always enough. -/
def shortest (tie : Tie) (m : Nat) (e : Int) : Nat × Int :=
  let r := rounding m e
  let (k, p) := searchGrid tie r (log10Ratio r.value r.den) 1 17
  let (digits, zeros) := dropZeros k 20
  (digits, p + zeros)

end Binary64

end UiScript
