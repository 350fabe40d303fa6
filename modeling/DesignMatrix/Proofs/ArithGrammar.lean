import Mathlib.Tactic.Common
import DesignMatrix.Formula.ArithReader

/-!
# The grammar of arithmetic

A phrase is a derivation in the grammar of arithmetic, with a rank for each of its rules:

    sum     := product (('+' | '-') product)*
    product := signed (('*' | '/') signed)*
    signed  := ('-' | '+') signed | power
    power   := atom (('**' | '^') signed)?
    atom    := number | name | '(' sum ')' | transform '(' sum ')'

It has the tokens that it derives and an expression for its value. The tokens determine the phrase.
-/

namespace DesignMatrix

/-- The marks in front of an exponent. -/
inductive PowerMark where
  | doubleStar | caret
  deriving DecidableEq

namespace PowerMark

def token : PowerMark → Token
  | .doubleStar => .doubleStar
  | .caret => .caret

theorem token_injective {m n : PowerMark} (h : m.token = n.token) : m = n := by
  cases m <;> cases n <;> first | rfl | cases h

end PowerMark

namespace Arith

/-- The rules for operands with marks between them. -/
inductive Chain where
  | sum | product

/-- The marks between the operands of a chain. -/
inductive Mark : Chain → Type where
  | plus : Mark .sum
  | minus : Mark .sum
  | star : Mark .product
  | slash : Mark .product

namespace Mark

def token {chain : Chain} : Mark chain → Token
  | .plus => .plus
  | .minus => .minus
  | .star => .star
  | .slash => .slash

def operator {chain : Chain} : Mark chain → Operator
  | .plus => .add
  | .minus => .subtract
  | .star => .multiply
  | .slash => .divide

theorem token_injective {chain : Chain} {m n : Mark chain} (h : m.token = n.token) : m = n := by
  cases m <;> cases n <;> first | rfl | cases h

end Mark

/-- The rules of the grammar. -/
inductive Level where
  | chain (chain : Chain) | signed | power | atom

/-- What the operands of a chain are. -/
def Chain.operand : Chain → Level
  | .sum => .chain .product
  | .product => .signed

/-- A phrase is whole, or what follows the first operand of a chain. -/
inductive Rank where
  | whole (level : Level)
  | tail (chain : Chain)

namespace Rank

abbrev sum : Rank := .whole (.chain .sum)

abbrev signed : Rank := .whole .signed

abbrev power : Rank := .whole .power

abbrev atom : Rank := .whole .atom

/-- What a phrase stands for: a tail extends the expression to its left. -/
@[reducible] def Meaning : Rank → Type
  | .whole _ => Arith
  | .tail _ => Arith → Arith

/-- The tokens that would be part of a phrase if they stood behind it. -/
def continuing : Rank → List Token
  | .whole .atom => [.leftParen]
  | .whole .power | .whole .signed => [.leftParen, .doubleStar, .caret]
  | .whole (.chain .product) | .tail .product =>
    [.leftParen, .doubleStar, .caret, .star, .slash]
  | .whole (.chain .sum) | .tail .sum =>
    [.leftParen, .doubleStar, .caret, .star, .slash, .plus, .minus]

/-- What stands behind a phrase does not continue it. -/
def Stops (rank : Rank) (behind : List Token) : Prop :=
  ∀ token ∈ behind.head?, token ∉ rank.continuing

@[simp] theorem stops_nil (rank : Rank) : rank.Stops [] := by simp [Stops]

@[simp] theorem stops_cons {rank : Rank} {token : Token} {behind : List Token} :
    rank.Stops (token :: behind) ↔ token ∉ rank.continuing := by simp [Stops]

/-- A rank whose phrases go on with fewer tokens stops earlier. -/
theorem Stops.mono {rank other : Rank} {behind : List Token} (h : rank.Stops behind)
    (fewer : other.continuing ⊆ rank.continuing) : other.Stops behind :=
  fun token first member => h token first (fewer member)

theorem Stops.power_of_signed {behind : List Token} (h : signed.Stops behind) :
    power.Stops behind := h

theorem Stops.atom_of_power {behind : List Token} (h : power.Stops behind) : atom.Stops behind :=
  h.mono (by decide)

end Rank

/-- A derivation in the grammar of arithmetic. -/
inductive Phrase : Rank → Type where
  | chain {chain : Chain} (head : Phrase (.whole chain.operand)) (tail : Phrase (.tail chain)) :
      Phrase (.whole (.chain chain))
  | stop {chain : Chain} : Phrase (.tail chain)
  | next {chain : Chain} (mark : Mark chain) (operand : Phrase (.whole chain.operand))
      (tail : Phrase (.tail chain)) : Phrase (.tail chain)
  | plus (operand : Phrase .signed) : Phrase .signed
  | minus (operand : Phrase .signed) : Phrase .signed
  | unsigned (operand : Phrase .power) : Phrase .signed
  | bare (base : Phrase .atom) : Phrase .power
  | raised (base : Phrase .atom) (mark : PowerMark) (exponent : Phrase .signed) : Phrase .power
  | number (value : Float) (text : String) : Phrase .atom
  | name (source : String) : Phrase .atom
  | quoted (source : String) : Phrase .atom
  | enclosed (inner : Phrase .sum) : Phrase .atom
  | call (function : String) (transform : Transform)
      (known : Transform.named? function = some transform) (argument : Phrase .sum) : Phrase .atom

namespace Phrase

/-- The tokens that a phrase derives. -/
def yield {rank : Rank} : Phrase rank → List Token
  | .chain head tail => head.yield ++ tail.yield
  | .stop => []
  | .next mark operand tail => mark.token :: (operand.yield ++ tail.yield)
  | .plus operand => .plus :: operand.yield
  | .minus operand => .minus :: operand.yield
  | .unsigned operand => operand.yield
  | .bare base => base.yield
  | .raised base mark exponent => base.yield ++ mark.token :: exponent.yield
  | .number value text => [.number value text]
  | .name source => [.name source]
  | .quoted source => [.quoted source]
  | .enclosed inner => .leftParen :: (inner.yield ++ [.rightParen])
  | .call function _ _ argument => .name function :: .leftParen :: (argument.yield ++ [.rightParen])

/-- The value of a phrase: chains group from the left, powers from the right. -/
def value {rank : Rank} : Phrase rank → rank.Meaning
  | .chain head tail => tail.value head.value
  | .stop => fun left => left
  | .next mark operand tail => fun left =>
    tail.value (.binary mark.operator left operand.value)
  | .plus operand => operand.value
  | .minus operand => .negate operand.value
  | .unsigned operand => operand.value
  | .bare base => base.value
  | .raised base _ exponent => .binary .power base.value exponent.value
  | .number value text => .number value text
  | .name source => .column source
  | .quoted source => .column source
  | .enclosed inner => inner.value
  | .call _ transform _ argument => .call transform argument.value

/-- Behind the first operand of a chain stands a mark, or what stands behind the chain. -/
theorem stops_tail {chain : Chain} (tail : Phrase (.tail chain)) {behind : List Token}
    (stops : (Rank.tail chain).Stops behind) :
    (Rank.whole chain.operand).Stops (tail.yield ++ behind) := by
  cases tail with
  | stop => exact stops.mono (by cases chain <;> decide)
  | next mark operand tail =>
    cases mark <;> simp [yield, Mark.token, Chain.operand, Rank.continuing]

/-- A mark continues its chain. -/
theorem not_stops_mark {chain : Chain} (mark : Mark chain) (behind : List Token) :
    ¬(Rank.tail chain).Stops (mark.token :: behind) := by
  cases mark <;> simp [Mark.token, Rank.continuing]

/-- The mark of a power is no part of its base. -/
theorem stops_powerMark (mark : PowerMark) (behind : List Token) :
    Rank.atom.Stops (mark.token :: behind) := by
  cases mark <;> simp [PowerMark.token, Rank.continuing]

theorem not_stops_powerMark (mark : PowerMark) (behind : List Token) :
    ¬Rank.power.Stops (mark.token :: behind) := by
  cases mark <;> simp [PowerMark.token, Rank.continuing]

theorem yield_atom_eq_cons (atom : Phrase .atom) :
    ∃ first rest, atom.yield = first :: rest ∧ first ∉ [Token.plus, .minus] := by
  cases atom <;> exact ⟨_, _, rfl, by simp⟩

/-- A power starts with no sign. -/
theorem yield_power_eq_cons (power : Phrase .power) :
    ∃ first rest, power.yield = first :: rest ∧ first ∉ [Token.plus, .minus] := by
  cases power with
  | bare base => exact yield_atom_eq_cons base
  | raised base mark exponent =>
    obtain ⟨first, rest, start, noSign⟩ := yield_atom_eq_cons base
    exact ⟨first, rest ++ mark.token :: exponent.yield, by simp [yield, start], noSign⟩

/-- Tokens at the front of a list are the yield of one phrase only. -/
theorem eq_of_yield_append_eq {rank : Rank} (p q : Phrase rank) {u v : List Token}
    (same : p.yield ++ u = q.yield ++ v) (stopsU : rank.Stops u) (stopsV : rank.Stops v) :
    p = q ∧ u = v := by
  -- What follows the phrases continues neither, so the next token tells which constructor it was.
  induction p generalizing u v with
  | @chain chain head tail ihHead ihTail =>
    have stopsTailU : (Rank.tail chain).Stops u := stopsU.mono (by cases chain <;> decide)
    have stopsTailV : (Rank.tail chain).Stops v := stopsV.mono (by cases chain <;> decide)
    cases q with
    | chain head' tail' =>
      simp only [yield, List.append_assoc] at same
      obtain ⟨rfl, behind⟩ :=
        ihHead head' same (stops_tail tail stopsTailU) (stops_tail tail' stopsTailV)
      obtain ⟨rfl, rfl⟩ := ihTail tail' behind stopsTailU stopsTailV
      exact ⟨rfl, rfl⟩
  | stop =>
    cases q with
    | stop => exact ⟨rfl, same⟩
    | next mark operand tail =>
      simp only [yield, List.nil_append, List.cons_append] at same
      subst same
      exact absurd stopsU (not_stops_mark _ _)
  | next mark operand tail ihOperand ihTail =>
    cases q with
    | stop =>
      simp only [yield, List.nil_append, List.cons_append] at same
      subst same
      exact absurd stopsV (not_stops_mark _ _)
    | next mark' operand' tail' =>
      simp only [yield, List.cons_append, List.cons.injEq, List.append_assoc] at same
      obtain ⟨sameMark, same⟩ := same
      obtain rfl := Mark.token_injective sameMark
      obtain ⟨rfl, behind⟩ :=
        ihOperand operand' same (stops_tail tail stopsU) (stops_tail tail' stopsV)
      obtain ⟨rfl, rfl⟩ := ihTail tail' behind stopsU stopsV
      exact ⟨rfl, rfl⟩
  | plus operand ih =>
    cases q with
    | plus operand' =>
      simp only [yield, List.cons_append, List.cons.injEq, true_and] at same
      obtain ⟨rfl, rfl⟩ := ih operand' same stopsU stopsV
      exact ⟨rfl, rfl⟩
    | minus operand' => simp [yield] at same
    | unsigned power =>
      obtain ⟨first, rest, start, noSign⟩ := yield_power_eq_cons power
      simp only [yield, start, List.cons_append, List.cons.injEq] at same
      simp [← same.1] at noSign
  | minus operand ih =>
    cases q with
    | minus operand' =>
      simp only [yield, List.cons_append, List.cons.injEq, true_and] at same
      obtain ⟨rfl, rfl⟩ := ih operand' same stopsU stopsV
      exact ⟨rfl, rfl⟩
    | plus operand' => simp [yield] at same
    | unsigned power =>
      obtain ⟨first, rest, start, noSign⟩ := yield_power_eq_cons power
      simp only [yield, start, List.cons_append, List.cons.injEq] at same
      simp [← same.1] at noSign
  | unsigned power ih =>
    obtain ⟨first, rest, start, noSign⟩ := yield_power_eq_cons power
    cases q with
    | plus operand' =>
      simp only [yield, start, List.cons_append, List.cons.injEq] at same
      simp [same.1] at noSign
    | minus operand' =>
      simp only [yield, start, List.cons_append, List.cons.injEq] at same
      simp [same.1] at noSign
    | unsigned power' =>
      obtain ⟨rfl, rfl⟩ := ih power' same stopsU.power_of_signed stopsV.power_of_signed
      exact ⟨rfl, rfl⟩
  | bare base ih =>
    cases q with
    | bare base' =>
      obtain ⟨rfl, rfl⟩ := ih base' same stopsU.atom_of_power stopsV.atom_of_power
      exact ⟨rfl, rfl⟩
    | raised base' mark exponent =>
      simp only [yield, List.append_assoc, List.cons_append] at same
      obtain ⟨-, rfl⟩ := ih base' same stopsU.atom_of_power (stops_powerMark _ _)
      exact absurd stopsU (not_stops_powerMark _ _)
  | raised base mark exponent ihBase ihExponent =>
    cases q with
    | bare base' =>
      simp only [yield, List.append_assoc, List.cons_append] at same
      obtain ⟨-, rfl⟩ := ihBase base' same (stops_powerMark _ _) stopsV.atom_of_power
      exact absurd stopsV (not_stops_powerMark _ _)
    | raised base' mark' exponent' =>
      simp only [yield, List.append_assoc, List.cons_append] at same
      obtain ⟨rfl, behind⟩ := ihBase base' same (stops_powerMark _ _) (stops_powerMark _ _)
      simp only [List.cons.injEq] at behind
      obtain rfl := PowerMark.token_injective behind.1
      obtain ⟨rfl, rfl⟩ := ihExponent exponent' behind.2 stopsU stopsV
      exact ⟨rfl, rfl⟩
  | number value text =>
    cases q <;> simp_all [yield]
  | name source =>
    cases q with
    | call function transform known argument =>
      simp only [yield, List.cons_append, List.nil_append, List.cons.injEq] at same
      simp [same.2, Rank.continuing] at stopsU
    | _ => simp_all [yield]
  | quoted source =>
    cases q <;> simp_all [yield]
  | enclosed inner ih =>
    cases q with
    | enclosed inner' =>
      simp only [yield, List.cons_append, List.append_assoc, List.cons.injEq, true_and,
        List.nil_append] at same
      obtain ⟨rfl, behind⟩ :=
        ih inner' same (by simp [Rank.continuing]) (by simp [Rank.continuing])
      exact ⟨rfl, (List.cons.inj behind).2⟩
    | _ => simp [yield] at same
  | call function transform known argument ih =>
    cases q with
    | name source =>
      simp only [yield, List.cons_append, List.nil_append, List.cons.injEq] at same
      simp [← same.2, Rank.continuing] at stopsV
    | call function' transform' known' argument' =>
      simp only [yield, List.cons_append, List.append_assoc, List.cons.injEq, true_and,
        List.nil_append, Token.name.injEq] at same
      obtain ⟨rfl, same⟩ := same
      obtain rfl : transform = transform' := by simpa [known] using known'
      obtain ⟨rfl, behind⟩ :=
        ih argument' same (by simp [Rank.continuing]) (by simp [Rank.continuing])
      exact ⟨rfl, (List.cons.inj behind).2⟩
    | _ => simp [yield] at same

end Phrase

end Arith

end DesignMatrix
