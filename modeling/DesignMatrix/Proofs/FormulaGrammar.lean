import DesignMatrix.Formula.TreeReader
import DesignMatrix.Proofs.ArithGrammar

/-!
# The grammar of formulas

A phrase is a derivation in the grammar of formulas, with a rank for each of its rules:

    formula     := [sum] '~' sum
    sum         := product (('+' | '-') product)*
    product     := interaction (('*' | '/') interaction)*
    interaction := signed (':' signed)*
    signed      := ('-' | '+') signed | power
    power       := atom (('**' | '^') order)?
    atom        := '(' sum ')' | '0' | '1' | name | 'I' '(' arithmetic ')'
                 | transform '(' arithmetic ')' | 'poly' '(' arguments ')'
    arguments   := name ',' ['degree' '='] degree [',' ['raw' '='] flag]

A minus sign may stand in front of phrases for `0` and `1` only. A phrase has the tokens that it
derives and a tree. The tokens determine the phrase.
-/

namespace DesignMatrix

/-- A number that is a natural number from one to a bound. -/
structure Whole (bound : Nat) where
  value : Float
  text : String
  natural : Nat
  isNatural : natural? value = some natural
  positive : 1 ≤ natural
  bounded : natural ≤ bound

namespace Whole

def token {bound : Nat} (whole : Whole bound) : Token := .number whole.value whole.text

theorem token_injective {bound : Nat} {m n : Whole bound} (h : m.token = n.token) : m = n := by
  obtain ⟨value, text, natural, isNatural, _, _⟩ := m
  obtain ⟨value', text', natural', isNatural', _, _⟩ := n
  simp only [token, Token.number.injEq] at h
  obtain ⟨rfl, rfl⟩ := h
  obtain rfl : natural = natural' := Option.some.inj (isNatural.symm.trans isNatural')
  rfl

end Whole

/-- The flag of `poly`, with or without the key in front of it. -/
structure PolyFlag where
  keyed : Bool
  word : String
  raw : Bool
  isFlag : Tree.flag? word = some raw

/-- The arguments of `poly`. -/
structure PolyArguments where
  quoted : Bool
  source : String
  keyed : Bool
  degree : Whole maxPolyDegree
  flag : Option PolyFlag

namespace PolyFlag

def yield (flag : PolyFlag) : List Token :=
  .comma :: ((if flag.keyed then [.name "raw", .equals] else []) ++ [.name flag.word])

theorem eq_of_yield_append_eq {p q : PolyFlag} {u v : List Token}
    (same : p.yield ++ .rightParen :: u = q.yield ++ .rightParen :: v) : p = q ∧ u = v := by
  obtain ⟨keyed, word, raw, isFlag⟩ := p
  obtain ⟨keyed', word', raw', isFlag'⟩ := q
  have agree : keyed = keyed' ∧ word = word' ∧ u = v := by
    cases keyed <;> cases keyed' <;> simp_all [yield]
  obtain ⟨rfl, rfl, rfl⟩ := agree
  obtain rfl : raw = raw' := Option.some.inj (isFlag.symm.trans isFlag')
  exact ⟨rfl, rfl⟩

end PolyFlag

namespace PolyArguments

/-- The tokens up to the degree. -/
def front (arguments : PolyArguments) : List Token :=
  (if arguments.quoted then .quoted arguments.source else .name arguments.source) :: .comma ::
    ((if arguments.keyed then [.name "degree", .equals] else []) ++ [arguments.degree.token])

/-- The tokens behind the degree. -/
def back : Option PolyFlag → List Token
  | none => []
  | some flag => flag.yield

def yield (arguments : PolyArguments) : List Token := arguments.front ++ back arguments.flag

def tree (arguments : PolyArguments) : Tree :=
  .poly arguments.source arguments.degree.natural ((arguments.flag.map PolyFlag.raw).getD false)

theorem eq_of_yield_append_eq {p q : PolyArguments} {u v : List Token}
    (same : p.yield ++ .rightParen :: u = q.yield ++ .rightParen :: v) : p = q ∧ u = v := by
  obtain ⟨quoted, source, keyed, degree, flag⟩ := p
  obtain ⟨quoted', source', keyed', degree', flag'⟩ := q
  have fronts : quoted = quoted' ∧ source = source' ∧ keyed = keyed' ∧
      degree.token = degree'.token ∧
      back flag ++ .rightParen :: u = back flag' ++ .rightParen :: v := by
    cases quoted <;> cases quoted' <;> cases keyed <;> cases keyed' <;>
      simp_all [yield, front, Whole.token]
  obtain ⟨rfl, rfl, rfl, sameDegree, behind⟩ := fronts
  obtain rfl := Whole.token_injective sameDegree
  cases flag with
  | none =>
    cases flag' with
    | none => exact ⟨rfl, (List.cons.inj behind).2⟩
    | some flag' => simp [back, PolyFlag.yield] at behind
  | some flag =>
    cases flag' with
    | none => simp [back, PolyFlag.yield] at behind
    | some flag' =>
      obtain ⟨rfl, rfl⟩ := PolyFlag.eq_of_yield_append_eq behind
      exact ⟨rfl, rfl⟩

end PolyArguments

namespace Tree

/-- The rules for operands with marks between them. -/
inductive Chain where
  | sum | product | interaction

/-- The marks between the operands of a chain. -/
inductive Mark : Chain → Type where
  | plus : Mark .sum
  | minus : Mark .sum
  | star : Mark .product
  | slash : Mark .product
  | colon : Mark .interaction

namespace Mark

def token {chain : Chain} : Mark chain → Token
  | .plus => .plus
  | .minus => .minus
  | .star => .star
  | .slash => .slash
  | .colon => .colon

def connective {chain : Chain} : Mark chain → Connective
  | .plus => .add
  | .minus => .remove
  | .star => .cross
  | .slash => .nest
  | .colon => .interact

theorem token_injective {chain : Chain} {m n : Mark chain} (h : m.token = n.token) : m = n := by
  cases m <;> cases n <;> first | rfl | cases h

end Mark

/-- The rules of the grammar. -/
inductive Level where
  | chain (chain : Chain) | signed | power | atom

/-- What the operands of a chain are. -/
def Chain.operand : Chain → Level
  | .sum => .chain .product
  | .product => .chain .interaction
  | .interaction => .signed

/-- A phrase is whole, or what follows the first operand of a chain. -/
inductive Rank where
  | whole (level : Level)
  | tail (chain : Chain)

namespace Rank

abbrev sum : Rank := .whole (.chain .sum)

abbrev signed : Rank := .whole .signed

abbrev power : Rank := .whole .power

abbrev atom : Rank := .whole .atom

/-- What a phrase stands for: a tail extends the tree to its left. -/
@[reducible] def Meaning : Rank → Type
  | .whole _ => Tree
  | .tail _ => Tree → Tree

/-- The tokens that would be part of a phrase if they stood behind it. -/
def continuing : Rank → List Token
  | .whole .atom => [.leftParen]
  | .whole .power | .whole .signed => [.leftParen, .doubleStar, .caret]
  | .whole (.chain .interaction) | .tail .interaction =>
    [.leftParen, .doubleStar, .caret, .colon]
  | .whole (.chain .product) | .tail .product =>
    [.leftParen, .doubleStar, .caret, .colon, .star, .slash]
  | .whole (.chain .sum) | .tail .sum =>
    [.leftParen, .doubleStar, .caret, .colon, .star, .slash, .plus, .minus]

/-- What stands behind a phrase does not continue it. -/
def Stops (rank : Rank) (behind : List Token) : Prop :=
  ∀ token ∈ behind.head?, token ∉ rank.continuing

@[simp] theorem stops_nil (rank : Rank) : rank.Stops [] := by simp [Stops]

@[simp] theorem stops_cons {rank : Rank} {token : Token} {behind : List Token} :
    rank.Stops (token :: behind) ↔ token ∉ rank.continuing := by simp [Stops]

theorem Stops.mono {rank other : Rank} {behind : List Token} (h : rank.Stops behind)
    (fewer : other.continuing ⊆ rank.continuing) : other.Stops behind :=
  fun token first member => h token first (fewer member)

theorem Stops.power_of_signed {behind : List Token} (h : signed.Stops behind) :
    power.Stops behind := h

theorem Stops.atom_of_power {behind : List Token} (h : power.Stops behind) : atom.Stops behind :=
  h.mono (by decide)

end Rank

/-- A derivation in the grammar of formulas, but for the condition on minus signs. -/
inductive Phrase : Rank → Type where
  | chain {chain : Chain} (head : Phrase (.whole chain.operand)) (tail : Phrase (.tail chain)) :
      Phrase (.whole (.chain chain))
  | stop {chain : Chain} : Phrase (.tail chain)
  | next {chain : Chain} (mark : Mark chain) (operand : Phrase (.whole chain.operand))
      (tail : Phrase (.tail chain)) : Phrase (.tail chain)
  | plus (operand : Phrase .signed) : Phrase .signed
  | minus (operand : Phrase .signed) : Phrase .signed
  | unsigned (operand : Phrase .power) : Phrase .signed
  | bare (base : Phrase .atom) : Phrase .power
  | raised (base : Phrase .atom) (mark : PowerMark) (order : Whole maxOrder) : Phrase .power
  | enclosed (inner : Phrase .sum) : Phrase .atom
  | zero (value : Float) (text : String) (isZero : natural? value = some 0) : Phrase .atom
  | one (value : Float) (text : String) (isOne : natural? value = some 1) : Phrase .atom
  | name (source : String) : Phrase .atom
  | quoted (source : String) : Phrase .atom
  | arith (argument : Arith.Phrase .sum) : Phrase .atom
  | call (function : String) (transform : Transform)
      (known : Transform.named? function = some transform) (argument : Arith.Phrase .sum) :
      Phrase .atom
  | poly (arguments : PolyArguments) : Phrase .atom

namespace Phrase

/-- The tokens that a phrase derives. -/
def yield {rank : Rank} : Phrase rank → List Token
  | .chain head tail => head.yield ++ tail.yield
  | .stop => []
  | .next mark operand tail => mark.token :: (operand.yield ++ tail.yield)
  | .plus operand => .plus :: operand.yield
  | .minus operand => .minus :: operand.yield
  | .unsigned operand => operand.yield
  | .bare base => base.yield
  | .raised base mark order => base.yield ++ [mark.token, order.token]
  | .enclosed inner => .leftParen :: (inner.yield ++ [.rightParen])
  | .zero value text _ => [.number value text]
  | .one value text _ => [.number value text]
  | .name source => [.name source]
  | .quoted source => [.quoted source]
  | .arith argument => .name "I" :: .leftParen :: (argument.yield ++ [.rightParen])
  | .call function _ _ argument => .name function :: .leftParen :: (argument.yield ++ [.rightParen])
  | .poly arguments => .name "poly" :: .leftParen :: (arguments.yield ++ [.rightParen])

/-- The tree of a phrase: all operators group from the left. -/
def tree {rank : Rank} : Phrase rank → rank.Meaning
  | .chain head tail => tail.tree head.tree
  | .stop => fun left => left
  | .next mark operand tail => fun left =>
    tail.tree (.binary mark.connective left operand.tree)
  | .plus operand => operand.tree
  | .minus operand => .negate operand.tree
  | .unsigned operand => operand.tree
  | .bare base => base.tree
  | .raised base _ order => .power base.tree order.natural
  | .enclosed inner => inner.tree
  | .zero _ _ _ => .zero
  | .one _ _ _ => .one
  | .name source => .factor (.ofColumn source)
  | .quoted source => .factor (.ofColumn source)
  | .arith argument => .factor (.ofArith argument.value)
  | .call _ transform _ argument => .factor (.ofCall transform argument.value)
  | .poly arguments => arguments.tree

/-- Every minus sign stands in front of `0` or `1`. -/
def Admissible {rank : Rank} : Phrase rank → Prop
  | .chain head tail => head.Admissible ∧ tail.Admissible
  | .next _ operand tail => operand.Admissible ∧ tail.Admissible
  | .plus operand => operand.Admissible
  | .minus operand => operand.Admissible ∧ (operand.tree = .zero ∨ operand.tree = .one)
  | .unsigned operand => operand.Admissible
  | .bare base => base.Admissible
  | .raised base _ _ => base.Admissible
  | .enclosed inner => inner.Admissible
  | _ => True

/-- The other functions are no transforms. -/
theorem named?_I : Transform.named? "I" = none := by rfl

theorem named?_poly : Transform.named? "poly" = none := by rfl

/-- Behind the first operand of a chain stands a mark, or what stands behind the chain. -/
theorem stops_tail {chain : Chain} (tail : Phrase (.tail chain)) {behind : List Token}
    (stops : (Rank.tail chain).Stops behind) :
    (Rank.whole chain.operand).Stops (tail.yield ++ behind) := by
  cases tail with
  | stop => exact stops.mono (by cases chain <;> decide)
  | next mark operand tail =>
    cases mark <;> simp [yield, Mark.token, Chain.operand, Rank.continuing]

/-- A mark continues its chain. -/
theorem not_stops_mark {chain : Chain} (mark : Mark chain) (behind : List Token) :
    ¬(Rank.tail chain).Stops (mark.token :: behind) := by
  cases mark <;> simp [Mark.token, Rank.continuing]

theorem stops_powerMark (mark : PowerMark) (behind : List Token) :
    Rank.atom.Stops (mark.token :: behind) := by
  cases mark <;> simp [PowerMark.token, Rank.continuing]

theorem not_stops_powerMark (mark : PowerMark) (behind : List Token) :
    ¬Rank.power.Stops (mark.token :: behind) := by
  cases mark <;> simp [PowerMark.token, Rank.continuing]

theorem yield_atom_eq_cons (atom : Phrase .atom) :
    ∃ first rest, atom.yield = first :: rest ∧ first ∉ [Token.plus, .minus] := by
  cases atom <;> exact ⟨_, _, rfl, by simp⟩

/-- A power starts with no sign. -/
theorem yield_power_eq_cons (power : Phrase .power) :
    ∃ first rest, power.yield = first :: rest ∧ first ∉ [Token.plus, .minus] := by
  cases power with
  | bare base => exact yield_atom_eq_cons base
  | raised base mark order =>
    obtain ⟨first, rest, start, noSign⟩ := yield_atom_eq_cons base
    exact ⟨first, rest ++ [mark.token, order.token], by simp [yield, start], noSign⟩

/-- A whole phrase starts with a token other than the tilde. -/
theorem yield_eq_cons {rank : Rank} (phrase : Phrase rank) (whole : ∀ chain, rank ≠ .tail chain) :
    ∃ first rest, phrase.yield = first :: rest ∧ first ≠ .tilde := by
  induction phrase with
  | chain head tail ihHead ihTail =>
    obtain ⟨first, rest, start, notTilde⟩ := ihHead (by simp)
    exact ⟨first, rest ++ tail.yield, by simp [yield, start], notTilde⟩
  | stop => exact absurd rfl (whole _)
  | next mark operand tail ihOperand ihTail => exact absurd rfl (whole _)
  | unsigned power ih => exact ih (by simp)
  | bare base ih => exact ih (by simp)
  | raised base mark order ih =>
    obtain ⟨first, rest, start, notTilde⟩ := ih (by simp)
    exact ⟨first, rest ++ [mark.token, order.token], by simp [yield, start], notTilde⟩
  | _ => exact ⟨_, _, rfl, by simp⟩

/-- Tokens at the front of a list are the yield of one phrase only. -/
theorem eq_of_yield_append_eq {rank : Rank} (p q : Phrase rank) {u v : List Token}
    (same : p.yield ++ u = q.yield ++ v) (stopsU : rank.Stops u) (stopsV : rank.Stops v) :
    p = q ∧ u = v := by
  induction p generalizing u v with
  | @chain chain head tail ihHead ihTail =>
    have stopsTailU : (Rank.tail chain).Stops u := stopsU.mono (by cases chain <;> decide)
    have stopsTailV : (Rank.tail chain).Stops v := stopsV.mono (by cases chain <;> decide)
    cases q with
    | chain head' tail' =>
      simp only [yield, List.append_assoc] at same
      obtain ⟨rfl, behind⟩ :=
        ihHead head' same (stops_tail tail stopsTailU) (stops_tail tail' stopsTailV)
      obtain ⟨rfl, rfl⟩ := ihTail tail' behind stopsTailU stopsTailV
      exact ⟨rfl, rfl⟩
  | stop =>
    cases q with
    | stop => exact ⟨rfl, same⟩
    | next mark operand tail =>
      simp only [yield, List.nil_append, List.cons_append] at same
      subst same
      exact absurd stopsU (not_stops_mark _ _)
  | next mark operand tail ihOperand ihTail =>
    cases q with
    | stop =>
      simp only [yield, List.nil_append, List.cons_append] at same
      subst same
      exact absurd stopsV (not_stops_mark _ _)
    | next mark' operand' tail' =>
      simp only [yield, List.cons_append, List.cons.injEq, List.append_assoc] at same
      obtain ⟨sameMark, same⟩ := same
      obtain rfl := Mark.token_injective sameMark
      obtain ⟨rfl, behind⟩ :=
        ihOperand operand' same (stops_tail tail stopsU) (stops_tail tail' stopsV)
      obtain ⟨rfl, rfl⟩ := ihTail tail' behind stopsU stopsV
      exact ⟨rfl, rfl⟩
  | plus operand ih =>
    cases q with
    | plus operand' =>
      simp only [yield, List.cons_append, List.cons.injEq, true_and] at same
      obtain ⟨rfl, rfl⟩ := ih operand' same stopsU stopsV
      exact ⟨rfl, rfl⟩
    | minus operand' => simp [yield] at same
    | unsigned power =>
      obtain ⟨first, rest, start, noSign⟩ := yield_power_eq_cons power
      simp only [yield, start, List.cons_append, List.cons.injEq] at same
      simp [← same.1] at noSign
  | minus operand ih =>
    cases q with
    | minus operand' =>
      simp only [yield, List.cons_append, List.cons.injEq, true_and] at same
      obtain ⟨rfl, rfl⟩ := ih operand' same stopsU stopsV
      exact ⟨rfl, rfl⟩
    | plus operand' => simp [yield] at same
    | unsigned power =>
      obtain ⟨first, rest, start, noSign⟩ := yield_power_eq_cons power
      simp only [yield, start, List.cons_append, List.cons.injEq] at same
      simp [← same.1] at noSign
  | unsigned power ih =>
    obtain ⟨first, rest, start, noSign⟩ := yield_power_eq_cons power
    cases q with
    | plus operand' =>
      simp only [yield, start, List.cons_append, List.cons.injEq] at same
      simp [same.1] at noSign
    | minus operand' =>
      simp only [yield, start, List.cons_append, List.cons.injEq] at same
      simp [same.1] at noSign
    | unsigned power' =>
      obtain ⟨rfl, rfl⟩ := ih power' same stopsU.power_of_signed stopsV.power_of_signed
      exact ⟨rfl, rfl⟩
  | bare base ih =>
    cases q with
    | bare base' =>
      obtain ⟨rfl, rfl⟩ := ih base' same stopsU.atom_of_power stopsV.atom_of_power
      exact ⟨rfl, rfl⟩
    | raised base' mark order =>
      simp only [yield, List.append_assoc, List.cons_append] at same
      obtain ⟨-, rfl⟩ := ih base' same stopsU.atom_of_power (stops_powerMark _ _)
      exact absurd stopsU (not_stops_powerMark _ _)
  | raised base mark order ih =>
    cases q with
    | bare base' =>
      simp only [yield, List.append_assoc, List.cons_append] at same
      obtain ⟨-, rfl⟩ := ih base' same (stops_powerMark _ _) stopsV.atom_of_power
      exact absurd stopsV (not_stops_powerMark _ _)
    | raised base' mark' order' =>
      simp only [yield, List.append_assoc, List.cons_append, List.nil_append] at same
      obtain ⟨rfl, behind⟩ := ih base' same (stops_powerMark _ _) (stops_powerMark _ _)
      simp only [List.cons.injEq] at behind
      obtain ⟨sameMark, sameOrder, rfl⟩ := behind
      obtain rfl := PowerMark.token_injective sameMark
      obtain rfl := Whole.token_injective sameOrder
      exact ⟨rfl, rfl⟩
  | enclosed inner ih =>
    cases q with
    | enclosed inner' =>
      simp only [yield, List.cons_append, List.append_assoc, List.cons.injEq, true_and,
        List.nil_append] at same
      obtain ⟨rfl, behind⟩ :=
        ih inner' same (by simp [Rank.continuing]) (by simp [Rank.continuing])
      exact ⟨rfl, (List.cons.inj behind).2⟩
    | _ => simp [yield] at same
  | zero value text isZero =>
    cases q with
    | one value' text' isOne =>
      simp only [yield, List.cons_append, List.cons.injEq, Token.number.injEq] at same
      simp [← same.1.1, isZero] at isOne
    | _ => simp_all [yield]
  | one value text isOne =>
    cases q with
    | zero value' text' isZero =>
      simp only [yield, List.cons_append, List.cons.injEq, Token.number.injEq] at same
      simp [← same.1.1, isOne] at isZero
    | _ => simp_all [yield]
  | name source =>
    -- A name in front of a parenthesis would be the function of a call.
    cases q with
    | arith argument =>
      simp only [yield, List.cons_append, List.nil_append, List.cons.injEq] at same
      simp [same.2, Rank.continuing] at stopsU
    | call function transform known argument =>
      simp only [yield, List.cons_append, List.nil_append, List.cons.injEq] at same
      simp [same.2, Rank.continuing] at stopsU
    | poly arguments =>
      simp only [yield, List.cons_append, List.nil_append, List.cons.injEq] at same
      simp [same.2, Rank.continuing] at stopsU
    | _ => simp_all [yield]
  | quoted source =>
    cases q <;> simp_all [yield]
  | arith argument =>
    cases q with
    | name source =>
      simp only [yield, List.cons_append, List.nil_append, List.cons.injEq] at same
      simp [← same.2, Rank.continuing] at stopsV
    | arith argument' =>
      simp only [yield, List.cons_append, List.append_assoc, List.cons.injEq, true_and,
        List.nil_append] at same
      obtain ⟨rfl, behind⟩ := argument.eq_of_yield_append_eq argument' same
        (by simp [Arith.Rank.continuing]) (by simp [Arith.Rank.continuing])
      exact ⟨rfl, (List.cons.inj behind).2⟩
    | call function transform known argument' =>
      simp only [yield, List.cons_append, List.cons.injEq, Token.name.injEq] at same
      simp [← same.1, named?_I] at known
    | _ => simp [yield] at same
  | call function transform known argument =>
    cases q with
    | name source =>
      simp only [yield, List.cons_append, List.nil_append, List.cons.injEq] at same
      simp [← same.2, Rank.continuing] at stopsV
    | arith argument' =>
      simp only [yield, List.cons_append, List.cons.injEq, Token.name.injEq] at same
      simp [same.1, named?_I] at known
    | call function' transform' known' argument' =>
      simp only [yield, List.cons_append, List.append_assoc, List.cons.injEq, true_and,
        List.nil_append, Token.name.injEq] at same
      obtain ⟨rfl, same⟩ := same
      obtain rfl : transform = transform' := Option.some.inj (known.symm.trans known')
      obtain ⟨rfl, behind⟩ := argument.eq_of_yield_append_eq argument' same
        (by simp [Arith.Rank.continuing]) (by simp [Arith.Rank.continuing])
      exact ⟨rfl, (List.cons.inj behind).2⟩
    | poly arguments =>
      simp only [yield, List.cons_append, List.cons.injEq, Token.name.injEq] at same
      simp [same.1, named?_poly] at known
    | _ => simp [yield] at same
  | poly arguments =>
    cases q with
    | name source =>
      simp only [yield, List.cons_append, List.nil_append, List.cons.injEq] at same
      simp [← same.2, Rank.continuing] at stopsV
    | call function transform known argument =>
      simp only [yield, List.cons_append, List.cons.injEq, Token.name.injEq] at same
      simp [← same.1, named?_poly] at known
    | poly arguments' =>
      simp only [yield, List.cons_append, List.append_assoc, List.cons.injEq, true_and,
        List.nil_append] at same
      obtain ⟨rfl, rfl⟩ := PolyArguments.eq_of_yield_append_eq same
      exact ⟨rfl, rfl⟩
    | _ => simp [yield] at same

end Phrase

end Tree

namespace Formula

/-- A derivation of a whole formula. -/
structure Phrase where
  response : Option (Tree.Phrase .sum)
  predictors : Tree.Phrase .sum

namespace Phrase

/-- The tokens up to the tilde. -/
def front : Option (Tree.Phrase .sum) → List Token
  | none => [.tilde]
  | some response => response.yield ++ [.tilde]

def yield (phrase : Phrase) : List Token := front phrase.response ++ phrase.predictors.yield

def formula (phrase : Phrase) : Formula :=
  ⟨phrase.response.map Tree.Phrase.tree, phrase.predictors.tree⟩

/-- Every minus sign stands in front of `0` or `1`. -/
def Admissible (phrase : Phrase) : Prop :=
  (∀ response ∈ phrase.response, response.Admissible) ∧ phrase.predictors.Admissible

theorem eq_of_front_append_eq {p q : Option (Tree.Phrase .sum)} {u v : List Token}
    (same : front p ++ u = front q ++ v) : p = q ∧ u = v := by
  cases p with
  | none =>
    cases q with
    | none => exact ⟨rfl, (List.cons.inj same).2⟩
    | some response =>
      obtain ⟨first, rest, start, notTilde⟩ := response.yield_eq_cons (by simp)
      simp only [front, start, List.cons_append, List.cons.injEq] at same
      exact absurd same.1.symm notTilde
  | some response =>
    cases q with
    | none =>
      obtain ⟨first, rest, start, notTilde⟩ := response.yield_eq_cons (by simp)
      simp only [front, start, List.cons_append, List.cons.injEq] at same
      exact absurd same.1 notTilde
    | some response' =>
      simp only [front, List.append_assoc, List.cons_append, List.nil_append] at same
      obtain ⟨rfl, behind⟩ := response.eq_of_yield_append_eq response' same
        (by simp [Tree.Rank.continuing]) (by simp [Tree.Rank.continuing])
      exact ⟨rfl, (List.cons.inj behind).2⟩

/-- The tokens of a formula have one derivation at most. -/
theorem eq_of_yield_eq {p q : Phrase} (same : p.yield = q.yield) : p = q := by
  obtain ⟨response, predictors⟩ := p
  obtain ⟨response', predictors'⟩ := q
  obtain ⟨rfl, behind⟩ := eq_of_front_append_eq same
  obtain ⟨rfl, -⟩ := predictors.eq_of_yield_append_eq predictors' (congrArg (· ++ []) behind)
    (Tree.Rank.stops_nil _) (Tree.Rank.stops_nil _)
  rfl

end Phrase

end Formula

end DesignMatrix
