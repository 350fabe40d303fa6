/-!
# The three-term recurrence of orthogonal polynomials

Over the values `c` of a variable, centred at their mean, the recurrence

    p₀ = 1,  p₁ = c - a₀,  pₖ₊₁ = (c - aₖ) pₖ - (nₖ / nₖ₋₁) pₖ₋₁
    aₖ = Σ c pₖ² / nₖ,     nₖ = Σ pₖ²

yields polynomials of the degrees 0, 1, 2, …, each orthogonal to all before it. The arithmetic is a
parameter: the same recurrence runs over doubles, one operation at a time and in this order, and
over exact numbers.
-/

namespace DesignMatrix

namespace Recurrence

variable {α : Type} [Add α] [Sub α] [Mul α] [Div α] [OfNat α 0] [OfNat α 1]

/-- The sum of a list from left to right. -/
def total : List α → α
  | [] => 0
  | x :: xs => xs.foldl (· + ·) x

/-- A one for every value. -/
def ones (values : List α) : List α := values.map fun _ => 1

/-- The number of values. -/
def count (values : List α) : α := total (ones values)

/-- The values less their mean. -/
def centered (values : List α) : List α :=
  let mean := total values / count values
  values.map (· - mean)

/-- The sum of the squares of a list. -/
def squares (p : List α) : α := total (p.map fun x => x * x)

/-- Two polynomials that follow each other, by their values, with their sums of squares. -/
structure Stage (α : Type) where
  previous : List α
  previousNorm : α
  current : List α
  currentNorm : α

/-- The recurrence before its first step: nothing and the constant one. -/
def start (values : List α) : Stage α where
  previous := values.map fun _ => 0
  previousNorm := 1
  current := ones values
  currentNorm := count values

/-- The factor `aₖ`. -/
def shift (c : List α) (stage : Stage α) : α :=
  total (List.zipWith (fun x p => x * p * p) c stage.current) / stage.currentNorm

/-- The values of the next polynomial. -/
def nextValues (c : List α) (stage : Stage α) : List α :=
  let a := shift c stage
  let b := stage.currentNorm / stage.previousNorm
  List.zipWith (fun x pq => (x - a) * pq.1 - b * pq.2) c (stage.current.zip stage.previous)

/-- One step of the recurrence. -/
def next (c : List α) (stage : Stage α) : Stage α :=
  let values := nextValues c stage
  ⟨stage.current, stage.currentNorm, values, squares values⟩

/-- The stages after the first step, the second, and so on. -/
def stages (c : List α) : Nat → Stage α → List (Stage α)
  | 0, _ => []
  | steps + 1, stage => next c stage :: stages c steps (next c stage)

/-- The polynomials of the degrees `1` up to `degree`, with their sums of squares. -/
def polynomials (values : List α) (degree : Nat) : List (List α × α) :=
  (stages (centered values) degree (start values)).map fun stage =>
    (stage.current, stage.currentNorm)

end Recurrence

end DesignMatrix
