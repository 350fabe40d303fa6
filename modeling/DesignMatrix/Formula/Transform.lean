/-!
# Element-wise transforms

The functions that a formula may call on an arithmetic expression. Each has one canonical name, used
in the names of columns, and several spellings in formulas.
-/

namespace DesignMatrix

/-- A function applied to every cell of a column. -/
inductive Transform where
  | log | log10 | log2 | log1p | exp | sqrt | abs
  deriving DecidableEq, Repr

namespace Transform

/-- The name that column names use. -/
def name : Transform → String
  | .log => "log"
  | .log10 => "log10"
  | .log2 => "log2"
  | .log1p => "log1p"
  | .exp => "exp"
  | .sqrt => "sqrt"
  | .abs => "abs"

/-- The transform of a name without a module in front of it. -/
def plain? : String → Option Transform
  | "log" | "ln" => some .log
  | "log10" => some .log10
  | "log2" => some .log2
  | "log1p" => some .log1p
  | "exp" => some .exp
  | "sqrt" => some .sqrt
  | "abs" => some .abs
  | _ => none

/-- The name without one `np.` in front of it. -/
def withoutModule (name : String) : String :=
  match name.toList with
  | 'n' :: 'p' :: '.' :: rest => String.ofList rest
  | _ => name

/-- The transform that a formula calls by this name. -/
def named? (name : String) : Option Transform := plain? (withoutModule name)

theorem named?_name (f : Transform) : named? f.name = some f := by
  cases f <;> rfl

end Transform

end DesignMatrix
