import DesignMatrix.Proofs.ArithText
import DesignMatrix.Proofs.FormulaReading

/-!
# The trees of formulas that are read

The tokens of a text carry over to the trees that the parser returns: numbers are as they were read,
and the orders and degrees are in their bounds.
-/

namespace DesignMatrix

namespace Arith

/-- A property of expressions that the rules of the grammar hand on. -/
structure HandedOn (holds : Arith → Prop) : Prop where
  negate {operand : Arith} (h : holds operand) : holds (.negate operand)
  binary (operator : Operator) {lhs rhs : Arith} (hl : holds lhs) (hr : holds rhs) :
    holds (.binary operator lhs rhs)
  call (transform : Transform) {argument : Arith} (h : holds argument) :
    holds (.call transform argument)

theorem handedOn_lexed : HandedOn Lexed := ⟨id, fun _ _ _ hl hr => ⟨hl, hr⟩, fun _ _ h => h⟩

end Arith

/-- What the token stands for by itself has the property. -/
def Token.Meets (holds : Arith → Prop) : Token → Prop
  | .name source | .quoted source => holds (.column source)
  | .number value text => holds (.number value text)
  | _ => True

theorem Token.WellFormed.meets_lexed {token : Token} (h : token.WellFormed) :
    token.Meets Arith.Lexed := by
  cases token <;> first | exact h | trivial

namespace Arith

/-- What a phrase stands for has the property, if what stands to its left has. -/
def Rank.Meets (holds : Arith → Prop) : (rank : Rank) → rank.Meaning → Prop
  | .whole _, value => holds value
  | .tail _, extend => ∀ left : Arith, holds left → holds (extend left)

theorem Phrase.meets {holds : Arith → Prop} (handedOn : HandedOn holds) {rank : Rank}
    (phrase : Phrase rank) (tokens : ∀ token ∈ phrase.yield, token.Meets holds) :
    rank.Meets holds phrase.value := by
  induction phrase with
  | chain head tail ihHead ihTail =>
    obtain ⟨first, behind⟩ := List.forall_mem_append.mp tokens
    exact ihTail behind _ (ihHead first)
  | stop => exact fun left meets => meets
  | next mark operand tail ihOperand ihTail =>
    obtain ⟨-, after⟩ := List.forall_mem_cons.mp tokens
    obtain ⟨first, behind⟩ := List.forall_mem_append.mp after
    exact fun left meets => ihTail behind _ (handedOn.binary _ meets (ihOperand first))
  | plus operand ih => exact ih (List.forall_mem_cons.mp tokens).2
  | minus operand ih => exact handedOn.negate (ih (List.forall_mem_cons.mp tokens).2)
  | unsigned power ih => exact ih tokens
  | bare base ih => exact ih tokens
  | raised base mark exponent ihBase ihExponent =>
    obtain ⟨first, after⟩ := List.forall_mem_append.mp tokens
    exact handedOn.binary _ (ihBase first) (ihExponent (List.forall_mem_cons.mp after).2)
  | number value text => exact tokens _ (List.mem_singleton_self _)
  | name source => exact tokens _ (List.mem_singleton_self _)
  | quoted source => exact tokens _ (List.mem_singleton_self _)
  | enclosed inner ih =>
    obtain ⟨-, after⟩ := List.forall_mem_cons.mp tokens
    exact ih (List.forall_mem_append.mp after).1
  | call function transform known argument ih =>
    obtain ⟨-, after⟩ := List.forall_mem_cons.mp tokens
    obtain ⟨-, inside⟩ := List.forall_mem_cons.mp after
    exact handedOn.call transform (ih (List.forall_mem_append.mp inside).1)

end Arith

theorem PolyArguments.meets_source {holds : Arith → Prop} (arguments : PolyArguments)
    (tokens : ∀ token ∈ arguments.yield, token.Meets holds) :
    holds (.column arguments.source) := by
  obtain ⟨quoted, source, keyed, degree, flag⟩ := arguments
  have first := tokens _ List.mem_cons_self
  cases quoted <;> exact first

namespace Tree

/-- The trees that the parser returns. -/
inductive Parsed : Tree → Prop
  | zero : Parsed .zero
  | one : Parsed .one
  | column (source : String) : Parsed (.factor (.ofColumn source))
  | arith {value : Arith} (lexed : value.Lexed) : Parsed (.factor (.ofArith value))
  | call (transform : Transform) {argument : Arith} (lexed : argument.Lexed) :
      Parsed (.factor (.ofCall transform argument))
  | poly (source : String) {degree : ℕ} (raw : Bool) (positive : 1 ≤ degree)
      (bounded : degree ≤ maxPolyDegree) : Parsed (.poly source degree raw)
  | negate {operand : Tree} (constant : operand = .zero ∨ operand = .one) : Parsed (.negate operand)
  | binary (connective : Connective) {lhs rhs : Tree} (hl : Parsed lhs) (hr : Parsed rhs) :
      Parsed (.binary connective lhs rhs)
  | power {base : Tree} {order : ℕ} (hb : Parsed base) (positive : 1 ≤ order)
      (bounded : order ≤ maxOrder) : Parsed (.power base order)

/-- A property of trees that the rules of the grammar hand on, given one of the expressions in
them. -/
structure HandedOn (plain : Arith → Prop) (holds : Tree → Prop) : Prop where
  zero : holds .zero
  one : holds .one
  column {source : String} (h : plain (.column source)) : holds (.factor (.ofColumn source))
  arith {value : Arith} (h : plain value) : holds (.factor (.ofArith value))
  call (transform : Transform) {argument : Arith} (h : plain argument) :
    holds (.factor (.ofCall transform argument))
  poly {source : String} {degree : ℕ} (h : plain (.column source)) (raw : Bool)
    (positive : 1 ≤ degree) (bounded : degree ≤ maxPolyDegree) : holds (.poly source degree raw)
  negate {operand : Tree} (constant : operand = .zero ∨ operand = .one) : holds (.negate operand)
  binary (connective : Connective) {lhs rhs : Tree} (hl : holds lhs) (hr : holds rhs) :
    holds (.binary connective lhs rhs)
  power {base : Tree} {order : ℕ} (hb : holds base) (positive : 1 ≤ order)
    (bounded : order ≤ maxOrder) : holds (.power base order)

theorem handedOn_parsed : HandedOn Arith.Lexed Parsed :=
  ⟨.zero, .one, fun {source} _ => .column source, .arith, .call,
    fun {source} _ _ => .poly source, .negate, .binary, .power⟩

/-- What a phrase stands for has the property, if what stands to its left has. -/
def Rank.Meets (holds : Tree → Prop) : (rank : Rank) → rank.Meaning → Prop
  | .whole _, tree => holds tree
  | .tail _, extend => ∀ left : Tree, holds left → holds (extend left)

theorem Phrase.meets {plain : Arith → Prop} {holds : Tree → Prop}
    (handedOnArith : Arith.HandedOn plain) (handedOn : HandedOn plain holds) {rank : Rank}
    (phrase : Phrase rank) (admissible : phrase.Admissible)
    (tokens : ∀ token ∈ phrase.yield, token.Meets plain) : rank.Meets holds phrase.tree := by
  -- The two functions with an argument have it behind two tokens and in front of one.
  have argument {function : String} {phrase : Arith.Phrase .sum}
      (tokens : ∀ token ∈ Token.name function :: .leftParen :: (phrase.yield ++ [.rightParen]),
        token.Meets plain) : plain phrase.value := by
    obtain ⟨-, after⟩ := List.forall_mem_cons.mp tokens
    obtain ⟨-, inside⟩ := List.forall_mem_cons.mp after
    exact phrase.meets handedOnArith (List.forall_mem_append.mp inside).1
  induction phrase with
  | chain head tail ihHead ihTail =>
    obtain ⟨first, behind⟩ := List.forall_mem_append.mp tokens
    exact ihTail admissible.2 behind _ (ihHead admissible.1 first)
  | stop => exact fun left meets => meets
  | next mark operand tail ihOperand ihTail =>
    obtain ⟨-, after⟩ := List.forall_mem_cons.mp tokens
    obtain ⟨first, behind⟩ := List.forall_mem_append.mp after
    exact fun left meets =>
      ihTail admissible.2 behind _ (handedOn.binary _ meets (ihOperand admissible.1 first))
  | plus operand ih => exact ih admissible (List.forall_mem_cons.mp tokens).2
  | minus operand ih => exact handedOn.negate admissible.2
  | unsigned power ih => exact ih admissible tokens
  | bare base ih => exact ih admissible tokens
  | raised base mark order ih =>
    obtain ⟨first, -⟩ := List.forall_mem_append.mp tokens
    exact handedOn.power (ih admissible first) order.positive order.bounded
  | enclosed inner ih =>
    obtain ⟨-, after⟩ := List.forall_mem_cons.mp tokens
    exact ih admissible (List.forall_mem_append.mp after).1
  | zero value text isZero => exact handedOn.zero
  | one value text isOne => exact handedOn.one
  | name source => exact handedOn.column (tokens _ (List.mem_singleton_self _))
  | quoted source => exact handedOn.column (tokens _ (List.mem_singleton_self _))
  | arith phrase => exact handedOn.arith (argument tokens)
  | call function transform known phrase => exact handedOn.call transform (argument tokens)
  | poly arguments =>
    obtain ⟨-, after⟩ := List.forall_mem_cons.mp tokens
    obtain ⟨-, inside⟩ := List.forall_mem_cons.mp after
    have source := arguments.meets_source (List.forall_mem_append.mp inside).1
    exact handedOn.poly source _ arguments.degree.positive arguments.degree.bounded

end Tree

namespace Formula

/-- The parser reads a text as the tree of the derivation that its tokens have. -/
theorem parse_eq_ok_iff_lexes {text : String} {formula : Formula} : parse text = .ok formula ↔
    ∃ phrase : Phrase, phrase.Admissible ∧ Token.Lexes text.toList phrase.yield ∧
      phrase.formula = formula := by
  rw [parse_eq_ok]
  constructor
  · rintro ⟨tokens, listed, phrase, admissible, yields, rfl⟩
    exact ⟨phrase, admissible, yields ▸ Token.lexes_of_list listed, rfl⟩
  · rintro ⟨phrase, admissible, lexes, rfl⟩
    obtain ⟨tokens, listed, same⟩ := lexes.exists_listFrom 0
    exact ⟨tokens, listed, phrase, admissible, same.symm, rfl⟩

/-- The sides of a formula have a property that the rules of the grammar hand on. -/
theorem Phrase.meets {plain : Arith → Prop} {holds : Tree → Prop}
    (handedOnArith : Arith.HandedOn plain) (handedOn : Tree.HandedOn plain holds) (phrase : Phrase)
    (admissible : phrase.Admissible) (tokens : ∀ token ∈ phrase.yield, token.Meets plain) :
    (∀ side ∈ phrase.formula.response, holds side) ∧ holds phrase.formula.predictors := by
  obtain ⟨response, predictors⟩ := phrase
  obtain ⟨front, behind⟩ := List.forall_mem_append.mp tokens
  refine ⟨fun side isSide => ?_, predictors.meets handedOnArith handedOn admissible.2 behind⟩
  obtain ⟨phrase, rfl, rfl⟩ := Option.map_eq_some_iff.mp isSide
  exact phrase.meets handedOnArith handedOn (admissible.1 phrase rfl)
    (List.forall_mem_append.mp front).1

/-- The sides of a formula are parsed trees. -/
theorem parsed_of_parse {text : String} {formula : Formula} (h : parse text = .ok formula) :
    (∀ side ∈ formula.response, side.Parsed) ∧ formula.predictors.Parsed := by
  obtain ⟨phrase, admissible, lexes, rfl⟩ := parse_eq_ok_iff_lexes.mp h
  exact phrase.meets Arith.handedOn_lexed Tree.handedOn_parsed admissible
    fun token member => (lexes.wellFormed token member).meets_lexed

end Formula

end DesignMatrix
