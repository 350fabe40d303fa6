import DesignMatrix.Proofs.ArithReading
import DesignMatrix.Proofs.FormulaGrammar

/-!
# The reader of formulas follows its grammar

A text is read as a formula exactly if its tokens are the yield of an admissible derivation, whose
tree is the formula that is read.
-/

namespace DesignMatrix

open Outcomes Reader

namespace Tree

section Arguments

variable {size : Nat} {tokens rest : List Placed}

theorem degree?_eq_some_iff {value : Float} {degree : Nat} : degree? value = some degree ↔
    natural? value = some degree ∧ 1 ≤ degree ∧ degree ≤ maxPolyDegree := by
  simp [degree?, Option.filter_eq_some_iff]

theorem readDegree_eq_ok {degree : Nat} : readDegree tokens = .ok (degree, rest) ↔
    ∃ whole : Whole maxPolyDegree, Spells [whole.token] tokens rest ∧ whole.natural = degree := by
  constructor
  · intro h
    unfold readDegree at h
    split at h
    · rename_i value text offset behind
      split at h
      · rename_i isDegree
        cases h
        obtain ⟨isNatural, positive, bounded⟩ := degree?_eq_some_iff.mp isDegree
        exact ⟨⟨value, text, degree, isNatural, positive, bounded⟩,
          spells_cons.mpr ⟨offset, rest, rfl, spells_nil.mpr rfl⟩, rfl⟩
      · cases h
    · cases h
  · rintro ⟨⟨value, text, degree, isNatural, positive, bounded⟩, spells, rfl⟩
    obtain ⟨offset, behind, rfl, after⟩ := spells_cons.mp spells
    obtain rfl := spells_nil.mp after
    simp [Whole.token, readDegree, degree?_eq_some_iff.mpr ⟨isNatural, positive, bounded⟩]

theorem readOrder_eq_ok {order : Nat} : readOrder size tokens = .ok (order, rest) ↔
    ∃ whole : Whole maxOrder, Spells [whole.token] tokens rest ∧ whole.natural = order := by
  constructor
  · intro h
    unfold readOrder at h
    split at h
    · rename_i value text offset behind
      split at h
      · rename_i natural isNatural
        split at h
        · cases h
        split at h
        · rename_i positive bounded
          cases h
          exact ⟨⟨value, text, order, isNatural, Nat.pos_of_ne_zero positive, bounded⟩,
            spells_cons.mpr ⟨offset, rest, rfl, spells_nil.mpr rfl⟩, rfl⟩
        · cases h
      · cases h
    · cases h
  · rintro ⟨⟨value, text, order, isNatural, positive, bounded⟩, spells, rfl⟩
    obtain ⟨offset, behind, rfl, after⟩ := spells_cons.mp spells
    obtain rfl := spells_nil.mp after
    simp [Whole.token, readOrder, isNatural, Nat.pos_iff_ne_zero.mp positive, bounded]

theorem readPolyColumn_eq_ok {source : String} : readPolyColumn tokens = .ok (source, rest) ↔
    ∃ quoted : Bool,
      Spells [if quoted then .quoted source else .name source, .comma] tokens rest := by
  constructor
  · intro h
    unfold readPolyColumn at h
    split at h
    · split at h
      · cases h
        exact ⟨false, by simp⟩
      · cases h
    · split at h
      · cases h
        exact ⟨true, by simp⟩
      · cases h
    · cases h
  · rintro ⟨quoted, spells⟩
    obtain ⟨offset, behind, rfl, after⟩ := spells_cons.mp spells
    obtain ⟨offset', behind', rfl, after'⟩ := spells_cons.mp after
    obtain rfl := spells_nil.mp after'
    cases quoted <;> rfl

/-- The degree of `poly`, with or without its key. -/
theorem readKeyedDegree_eq_ok {degree : Nat} :
    (∃ middle, skipDegreeKey size tokens = .ok middle ∧ readDegree middle = .ok (degree, rest)) ↔
      ∃ (keyed : Bool) (whole : Whole maxPolyDegree),
        Spells ((if keyed then [.name "degree", .equals] else []) ++ [whole.token]) tokens rest ∧
          whole.natural = degree := by
  constructor
  · rintro ⟨middle, skip, read⟩
    obtain ⟨whole, spells, rfl⟩ := readDegree_eq_ok.mp read
    unfold skipDegreeKey at skip
    split at skip
    · rename_i offset behind
      rw [expect_eq_ok] at skip
      refine ⟨true, whole, ?_, rfl⟩
      exact spells_cons.mpr ⟨offset, behind, rfl, spells_append.mpr ⟨middle, skip, spells⟩⟩
    · cases skip
      exact ⟨false, whole, spells, rfl⟩
  · rintro ⟨keyed, whole, spells, rfl⟩
    obtain ⟨middle, key, spellsDegree⟩ := spells_append.mp spells
    refine ⟨middle, ?_, readDegree_eq_ok.mpr ⟨whole, spellsDegree, rfl⟩⟩
    cases keyed with
    | false =>
      obtain rfl := spells_nil.mp key
      obtain ⟨offset, behind, rfl, -⟩ := spells_cons.mp spellsDegree
      rfl
    | true =>
      obtain ⟨offset, behind, rfl, after⟩ := spells_cons.mp key
      exact expect_eq_ok.mpr after

variable (tokens) in
private theorem spells_skipRawKey : ∃ keyed : Bool,
    Spells (if keyed then [.name "raw", .equals] else []) tokens (skipRawKey tokens) := by
  unfold skipRawKey
  split
  · exact ⟨true, by simp⟩
  · exact ⟨false, by simp⟩

/-- The key is left out in front of a word that is followed by the closing parenthesis. -/
private theorem skipRawKey_last {word : String} {offset offset' : Nat} :
    skipRawKey (⟨.name word, offset⟩ :: ⟨.rightParen, offset'⟩ :: rest) =
      ⟨.name word, offset⟩ :: ⟨.rightParen, offset'⟩ :: rest := by
  rw [skipRawKey]
  simp

/-- The flag of `poly`, if there is one, and the closing parenthesis. -/
theorem readRaw_eq_ok {raw : Bool} :
    (∃ middle, readRaw tokens = .ok (raw, middle) ∧ Spells [.rightParen] middle rest) ↔
      ∃ flag : Option PolyFlag, Spells (PolyArguments.back flag ++ [.rightParen]) tokens rest ∧
        (flag.map PolyFlag.raw).getD false = raw := by
  constructor
  · rintro ⟨middle, read, close⟩
    unfold readRaw at read
    split at read
    · rename_i offset behind
      obtain ⟨keyed, key⟩ := spells_skipRawKey behind
      split at read
      · rename_i word offset' behind' skipped
        rw [skipped] at key
        split at read
        · rename_i isFlag
          cases read
          refine ⟨some ⟨keyed, word, raw, isFlag⟩, ?_, rfl⟩
          have spellsWord : Spells [.name word] (⟨.name word, offset'⟩ :: middle) middle :=
            spells_cons.mpr ⟨offset', middle, rfl, spells_nil.mpr rfl⟩
          have spellsFlag := spells_append.mpr ⟨_, key, spellsWord⟩
          refine spells_append.mpr ⟨middle, ?_, close⟩
          exact spells_cons.mpr ⟨offset, behind, rfl, spellsFlag⟩
        · cases read
      · cases read
    · cases read
      exact ⟨none, close, rfl⟩
  · rintro ⟨flag, spells, rfl⟩
    obtain ⟨middle, spellsFlag, close⟩ := spells_append.mp spells
    refine ⟨middle, ?_, close⟩
    cases flag with
    | none =>
      obtain rfl := spells_nil.mp spellsFlag
      obtain ⟨offset, behind, rfl, -⟩ := spells_cons.mp close
      rfl
    | some flag =>
      obtain ⟨keyed, word, raw, isFlag⟩ := flag
      obtain ⟨offset, behind, rfl, after⟩ := spells_cons.mp spellsFlag
      obtain ⟨offset', behind', rfl, -⟩ := spells_cons.mp close
      cases keyed with
      | false =>
        obtain ⟨offset'', _, rfl, finished⟩ := spells_cons.mp after
        obtain rfl := spells_nil.mp finished
        simp [readRaw, skipRawKey_last, isFlag]
      | true =>
        simp only [if_true, List.cons_append, List.nil_append, spells_cons, spells_nil] at after
        obtain ⟨_, _, rfl, _, _, rfl, _, _, rfl, rfl⟩ := after
        simp [readRaw, skipRawKey, isFlag]

theorem readPoly_eq_ok {tree : Tree} : readPoly size tokens = .ok (tree, rest) ↔
    ∃ arguments : PolyArguments, Spells (arguments.yield ++ [.rightParen]) tokens rest ∧
      arguments.tree = tree := by
  simp only [readPoly, bind_eq_ok, Prod.exists, expect_eq_ok, Except.ok.injEq, Prod.mk.injEq]
  constructor
  · rintro ⟨source, behind, readColumn, behind', skip, degree, behind'', read, raw, middle,
      readFlag, _, close, rfl, rfl⟩
    obtain ⟨quoted, spellsColumn⟩ := readPolyColumn_eq_ok.mp readColumn
    obtain ⟨keyed, whole, spellsDegree, rfl⟩ := readKeyedDegree_eq_ok.mp ⟨behind', skip, read⟩
    obtain ⟨flag, spellsFlag, rfl⟩ := readRaw_eq_ok.mp ⟨middle, readFlag, close⟩
    refine ⟨⟨quoted, source, keyed, whole, flag⟩, ?_, rfl⟩
    have front := spells_append.mpr ⟨behind, spellsColumn, spellsDegree⟩
    rw [PolyArguments.yield, List.append_assoc]
    exact spells_append.mpr ⟨behind'', front, spellsFlag⟩
  · rintro ⟨⟨quoted, source, keyed, whole, flag⟩, spells, rfl⟩
    rw [PolyArguments.yield, List.append_assoc] at spells
    obtain ⟨behind'', front, spellsFlag⟩ := spells_append.mp spells
    obtain ⟨behind, spellsColumn, spellsDegree⟩ := spells_append.mp
      (show Spells ([_, .comma] ++ _) tokens behind'' from front)
    obtain ⟨behind', skip, read⟩ := readKeyedDegree_eq_ok.mpr ⟨keyed, whole, spellsDegree, rfl⟩
    obtain ⟨middle, readFlag, close⟩ := readRaw_eq_ok.mpr ⟨flag, spellsFlag, rfl⟩
    exact ⟨source, behind, readPolyColumn_eq_ok.mpr ⟨quoted, spellsColumn⟩, behind', skip, _,
      behind'', read, _, middle, readFlag, rest, close, rfl, rfl⟩

end Arguments

/-- The operators that join the operands of a chain. -/
def Chain.join? : Chain → Token → Option (Tree → Tree → Tree)
  | .sum => joinSum?
  | .product => joinProduct?
  | .interaction => joinInteraction?

/-- The reader of the operands of a chain, given that of its signed operands. -/
def Chain.operandReader (signed : Reader Tree) : Chain → Reader Tree
  | .sum => chain (chain signed joinInteraction?) joinProduct?
  | .product => chain signed joinInteraction?
  | .interaction => signed

theorem Chain.join?_eq_some_iff {chain : Chain} {token : Token} {join : Tree → Tree → Tree} :
    chain.join? token = some join ↔
      ∃ mark : Mark chain, mark.token = token ∧ join = .binary mark.connective := by
  constructor
  · intro h
    cases chain with
    | sum =>
      simp only [join?, joinSum?] at h
      split at h
      · exact ⟨.plus, rfl, (Option.some.inj h).symm⟩
      · exact ⟨.minus, rfl, (Option.some.inj h).symm⟩
      · cases h
    | product =>
      simp only [join?, joinProduct?] at h
      split at h
      · exact ⟨.star, rfl, (Option.some.inj h).symm⟩
      · exact ⟨.slash, rfl, (Option.some.inj h).symm⟩
      · cases h
    | interaction =>
      simp only [join?, joinInteraction?] at h
      split at h
      · exact ⟨.colon, rfl, (Option.some.inj h).symm⟩
      · cases h
  · rintro ⟨mark, rfl, rfl⟩
    cases mark <;> rfl

/-- No operator stands behind a chain that is not continued. -/
theorem Chain.join?_of_stops {chain : Chain} {rest : List Placed}
    (stops : (Rank.tail chain).Stops (rest.map Placed.token)) :
    ∀ head ∈ rest.head?, chain.join? head.token = none := by
  intro head first
  cases joined : chain.join? head.token with
  | none => rfl
  | some join =>
    obtain ⟨mark, isMark, -⟩ := join?_eq_some_iff.mp joined
    obtain ⟨behind, rfl⟩ : ∃ behind, rest = head :: behind := by
      cases rest <;> simp_all
    rw [List.map_cons, ← isMark] at stops
    exact absurd stops (Phrase.not_stops_mark mark _)

theorem isConstant_iff {tree : Tree} : tree.isConstant = true ↔ tree = .zero ∨ tree = .one := by
  cases tree <;> simp [isConstant]

/-- An admissible phrase of the rank with this meaning stands at the front of the tokens. -/
def Derives (rank : Rank) (tokens : List Placed) (meaning : rank.Meaning) (rest : List Placed) :
    Prop :=
  ∃ phrase : Phrase rank, phrase.Admissible ∧ Spells phrase.yield tokens rest ∧
    phrase.tree = meaning

/-- What the reader takes off the tokens is an admissible phrase of the level. -/
def Sound (level : Level) (reader : Reader Tree) : Prop :=
  ∀ ⦃tokens tree rest⦄, reader tokens = .ok (tree, rest) → Derives (.whole level) tokens tree rest

theorem Derives.length_le {rank : Rank} {tokens rest : List Placed} {meaning : rank.Meaning}
    (h : Derives rank tokens meaning rest) : rest.length ≤ tokens.length := by
  obtain ⟨phrase, -, spells, -⟩ := h
  rw [spells.length_eq]
  exact Nat.le_add_left _ _

section Soundness

variable {size : Nat} {signed : Reader Tree} {arith : Reader Arith}

theorem exists_tail_of_chained {chain : Chain} {operand : Reader Tree}
    {tokens rest : List Placed} {left tree : Tree} (sound : Sound chain.operand operand)
    (h : Chained operand chain.join? left tokens tree rest) :
    ∃ tail : Phrase (.tail chain), tail.Admissible ∧ Spells tail.yield tokens rest ∧
      tail.tree left = tree := by
  induction h with
  | stop => exact ⟨.stop, trivial, spells_nil.mpr rfl, rfl⟩
  | @next left right result first join tokens middle rest joins reads _ ih =>
    obtain ⟨tail, admissibleTail, spellsTail, rfl⟩ := ih
    obtain ⟨operand, admissible, spellsOperand, rfl⟩ := sound reads
    obtain ⟨mark, isMark, rfl⟩ := Chain.join?_eq_some_iff.mp joins
    refine ⟨.next mark operand tail, ⟨admissible, admissibleTail⟩, ?_, rfl⟩
    rw [Phrase.yield, spells_cons]
    exact ⟨first.offset, tokens, by rw [isMark],
      spells_append.mpr ⟨middle, spellsOperand, spellsTail⟩⟩

theorem sound_chain {chain : Chain} {operand : Reader Tree} (sound : Sound chain.operand operand) :
    Sound (.chain chain) (Reader.chain operand chain.join?) := by
  intro tokens tree rest h
  rw [chain_eq_ok fun read => (sound read).length_le] at h
  obtain ⟨left, middle, read, chained⟩ := h
  obtain ⟨head, admissibleHead, spellsHead, rfl⟩ := sound read
  obtain ⟨tail, admissibleTail, spellsTail, rfl⟩ := exists_tail_of_chained sound chained
  exact ⟨.chain head tail, ⟨admissibleHead, admissibleTail⟩,
    spells_append.mpr ⟨middle, spellsHead, spellsTail⟩, rfl⟩

theorem sound_operandReader (sound : Sound .signed signed) (chain : Chain) :
    Sound chain.operand (chain.operandReader signed) := by
  have interactions : Sound (.chain .interaction) (Chain.operandReader signed .product) :=
    sound_chain sound
  have products : Sound (.chain .product) (Chain.operandReader signed .sum) :=
    sound_chain interactions
  cases chain with
  | sum => exact products
  | product => exact interactions
  | interaction => exact sound

theorem sound_readSum (sound : Sound .signed signed) : Sound (.chain .sum) (readSum signed) :=
  sound_chain (sound_operandReader sound .sum)

private theorem derives_call {function : String} {offset offset' : Nat} {tokens rest : List Placed}
    {tree : Tree} (soundArith : Arith.Sound (.chain .sum) arith)
    (h : readCall size arith function tokens = .ok (tree, rest)) :
    Derives .atom (⟨.name function, offset⟩ :: ⟨.leftParen, offset'⟩ :: tokens) tree rest := by
  have spellsCall {inner : List Token} (spells : Spells (inner ++ [.rightParen]) tokens rest) :
      Spells (.name function :: .leftParen :: (inner ++ [.rightParen]))
        (⟨.name function, offset⟩ :: ⟨.leftParen, offset'⟩ :: tokens) rest :=
    spells_cons.mpr ⟨offset, _, rfl, spells_cons.mpr ⟨offset', _, rfl, spells⟩⟩
  unfold readCall at h
  split at h
  · rename_i isArith
    subst isArith
    simp only [bind_eq_ok, closed_eq_ok, Prod.exists, Except.ok.injEq, Prod.mk.injEq] at h
    obtain ⟨_, _, ⟨middle, read, close⟩, rfl, rfl⟩ := h
    obtain ⟨argument, spells, rfl⟩ := soundArith read
    exact ⟨.arith argument, trivial, spellsCall (spells_append.mpr ⟨middle, spells, close⟩), rfl⟩
  split at h
  · rename_i isPoly
    subst isPoly
    obtain ⟨arguments, spells, rfl⟩ := readPoly_eq_ok.mp h
    exact ⟨.poly arguments, trivial, spellsCall spells, rfl⟩
  split at h
  · cases h
  · rename_i transform known
    simp only [bind_eq_ok, closed_eq_ok, Prod.exists, Except.ok.injEq, Prod.mk.injEq] at h
    obtain ⟨_, _, ⟨middle, read, close⟩, rfl, rfl⟩ := h
    obtain ⟨argument, spells, rfl⟩ := soundArith read
    exact ⟨.call function transform known argument, trivial,
      spellsCall (spells_append.mpr ⟨middle, spells, close⟩), rfl⟩

theorem sound_readAtom (soundArith : Arith.Sound (.chain .sum) arith)
    (sound : Sound .signed signed) : Sound .atom (readAtom size signed arith) := by
  intro tokens tree rest h
  unfold readAtom at h
  split at h
  · rename_i offset behind
    rw [closed_eq_ok] at h
    obtain ⟨middle, read, close⟩ := h
    obtain ⟨inner, admissible, spells, rfl⟩ := sound_readSum sound read
    refine ⟨.enclosed inner, admissible, ?_, rfl⟩
    exact spells_cons.mpr ⟨offset, behind, rfl, spells_append.mpr ⟨middle, spells, close⟩⟩
  · rename_i value text offset behind
    split at h
    · rename_i isZero
      cases h
      exact ⟨.zero value text isZero, trivial,
        spells_cons.mpr ⟨offset, rest, rfl, spells_nil.mpr rfl⟩, rfl⟩
    · rename_i isOne
      cases h
      exact ⟨.one value text isOne, trivial,
        spells_cons.mpr ⟨offset, rest, rfl, spells_nil.mpr rfl⟩, rfl⟩
    · cases h
  · rename_i source offset behind
    cases h
    exact ⟨.quoted source, trivial, spells_cons.mpr ⟨offset, rest, rfl, spells_nil.mpr rfl⟩, rfl⟩
  · exact derives_call soundArith h
  · rename_i source offset behind _
    cases h
    exact ⟨.name source, trivial, spells_cons.mpr ⟨offset, rest, rfl, spells_nil.mpr rfl⟩, rfl⟩
  · cases h

theorem sound_readPower (soundArith : Arith.Sound (.chain .sum) arith)
    (sound : Sound .signed signed) : Sound .power (readPower size signed arith) := by
  intro tokens tree rest h
  simp only [readPower, bind_eq_ok, Prod.exists] at h
  obtain ⟨base, middle, readBase, h⟩ := h
  obtain ⟨atom, admissible, spellsAtom, rfl⟩ := sound_readAtom soundArith sound readBase
  have raise : ∀ (mark : PowerMark) {offset : Nat} {behind : List Placed},
      middle = ⟨mark.token, offset⟩ :: behind →
      (readOrder size behind >>= fun order =>
        .ok (Tree.power atom.tree order.1, order.2)) = Except.ok (tree, rest) →
      Derives .power tokens tree rest := by
    rintro mark offset behind rfl h
    simp only [bind_eq_ok, Prod.exists, Except.ok.injEq, Prod.mk.injEq] at h
    obtain ⟨_, _, read, rfl, rfl⟩ := h
    obtain ⟨whole, spellsOrder, rfl⟩ := readOrder_eq_ok.mp read
    refine ⟨.raised atom mark whole, admissible, spells_append.mpr ⟨_, spellsAtom, ?_⟩, rfl⟩
    exact spells_cons.mpr ⟨offset, behind, rfl, spellsOrder⟩
  split at h
  · exact raise .doubleStar rfl h
  · exact raise .caret rfl h
  · cases h
    exact ⟨.bare atom, admissible, spellsAtom, rfl⟩

theorem sound_readSigned (soundArith : Arith.Sound (.chain .sum) arith) (fuel : Nat) :
    Sound .signed (readSigned size arith fuel) := by
  intro tokens tree rest h
  induction fuel generalizing tokens tree rest with
  | zero => cases h
  | succ fuel ih =>
    unfold readSigned at h
    split at h
    · cases ‹_ = _›
    · rename_i more offset behind same
      cases same
      obtain ⟨operand, admissible, spells, rfl⟩ := ih h
      exact ⟨.plus operand, admissible, spells_cons.mpr ⟨offset, behind, rfl, spells⟩, rfl⟩
    · rename_i more offset behind same
      cases same
      simp only [bind_eq_ok, Prod.exists] at h
      obtain ⟨negated, _, read, h⟩ := h
      split at h
      · rename_i isConstant
        cases h
        obtain ⟨operand, admissible, spells, rfl⟩ := ih read
        exact ⟨.minus operand, ⟨admissible, isConstant_iff.mp isConstant⟩,
          spells_cons.mpr ⟨offset, behind, rfl, spells⟩, rfl⟩
      · cases h
    · rename_i more same _ _
      cases same
      obtain ⟨power, admissible, spells, rfl⟩ := sound_readPower soundArith ih h
      exact ⟨.unsigned power, admissible, spells, rfl⟩

end Soundness

section Completeness

/-- The readers with this allowance take a phrase of the rank off the tokens. A tail is read behind
any tree, and the atoms and powers of a signed operand are read with one unit less. -/
def Reads (size : Nat) (arith : Reader Arith) (fuel : Nat) :
    (rank : Rank) → (tokens : List Placed) → rank.Meaning → (rest : List Placed) → Prop
  | .whole (.chain chain), tokens, tree, rest =>
    Reader.chain (chain.operandReader (readSigned size arith fuel)) chain.join? tokens =
      .ok (tree, rest)
  | .tail chain, tokens, extend, rest => ∀ left,
    Chained (chain.operandReader (readSigned size arith fuel)) chain.join? left tokens (extend left)
      rest
  | .whole .signed, tokens, tree, rest => readSigned size arith fuel tokens = .ok (tree, rest)
  | .whole .power, tokens, tree, rest =>
    readPower size (readSigned size arith (fuel - 1)) arith tokens = .ok (tree, rest)
  | .whole .atom, tokens, tree, rest =>
    readAtom size (readSigned size arith (fuel - 1)) arith tokens = .ok (tree, rest)

/-- The reader of arithmetic finds every sum of at most so many tokens. -/
def FindsArith (arith : Reader Arith) (most : Nat) : Prop :=
  ∀ (argument : Arith.Phrase .sum) {tokens rest : List Placed},
    Spells argument.yield tokens rest → Arith.Rank.sum.Stops (rest.map Placed.token) →
    argument.yield.length ≤ most → arith tokens = .ok (argument.value, rest)

variable {size fuel : Nat} {arith : Reader Arith}

theorem closed_of_finds {most : Nat} (finds : FindsArith arith most) (argument : Arith.Phrase .sum)
    {tokens rest : List Placed} (spells : Spells (argument.yield ++ [.rightParen]) tokens rest)
    (within : argument.yield.length ≤ most) :
    closed size arith tokens = .ok (argument.value, rest) := by
  obtain ⟨middle, spellsArgument, close⟩ := spells_append.mp spells
  refine closed_eq_ok.mpr ⟨middle, finds argument spellsArgument ?_ within, close⟩
  simp [close.map_eq, Arith.Rank.continuing]

theorem shortens_operandReader (soundArith : Arith.Sound (.chain .sum) arith) {chain : Chain}
    {tokens rest : List Placed} {tree : Tree}
    (h : chain.operandReader (readSigned size arith fuel) tokens = .ok (tree, rest)) :
    rest.length ≤ tokens.length :=
  (sound_operandReader (sound_readSigned soundArith fuel) chain h).length_le

theorem Reads.operand {chain : Chain} {tokens rest : List Placed} {tree : Tree}
    (h : Reads size arith fuel (.whole chain.operand) tokens tree rest) :
    chain.operandReader (readSigned size arith fuel) tokens = .ok (tree, rest) := by
  cases chain with
  | sum => exact h
  | product => exact h
  | interaction => exact h

/-- A signed operand without a sign is a power. -/
theorem readSigned_succ {tokens : List Placed}
    (unsigned : ∀ head ∈ tokens.head?, head.token ≠ .plus ∧ head.token ≠ .minus) :
    readSigned size arith (fuel + 1) tokens =
      readPower size (readSigned size arith fuel) arith tokens := by
  rw [readSigned]
  · rintro offset rest rfl
    simp at unsigned
  · rintro offset rest rfl
    simp at unsigned

theorem readAtom_name {signed : Reader Tree} {source : String} {offset : Nat} {rest : List Placed}
    (stops : Rank.atom.Stops (rest.map Placed.token)) :
    readAtom size signed arith (⟨.name source, offset⟩ :: rest) =
      .ok (.factor (.ofColumn source), rest) := by
  rw [readAtom]
  rintro offset rest rfl
  simp [Rank.continuing] at stops

theorem readPower_of_stops {signed : Reader Tree} {tokens rest : List Placed} {base : Tree}
    (h : readAtom size signed arith tokens = .ok (base, rest))
    (stops : Rank.power.Stops (rest.map Placed.token)) :
    readPower size signed arith tokens = .ok (base, rest) := by
  simp only [readPower, bind_eq_ok, Prod.exists]
  refine ⟨base, rest, h, ?_⟩
  split
  · simp [Rank.continuing] at stops
  · simp [Rank.continuing] at stops
  · rfl

/-- The readers find every admissible phrase that nothing behind it continues. -/
theorem reads_of_spells {most : Nat} (soundArith : Arith.Sound (.chain .sum) arith)
    (finds : FindsArith arith most) {rank : Rank} (phrase : Phrase rank)
    (admissible : phrase.Admissible) {tokens rest : List Placed}
    (spells : Spells phrase.yield tokens rest) (stops : rank.Stops (rest.map Placed.token))
    (enough : phrase.yield.length ≤ fuel) (within : phrase.yield.length ≤ most) :
    Reads size arith fuel rank tokens phrase.tree rest := by
  induction phrase generalizing fuel tokens rest with
  | @chain chain head tail ihHead ihTail =>
    obtain ⟨middle, spellsHead, spellsTail⟩ := spells_append.mp spells
    have stopsTail : (Rank.tail chain).Stops (rest.map Placed.token) :=
      stops.mono (by cases chain <;> decide)
    simp only [Phrase.yield, List.length_append] at enough within
    have readHead : Reads size arith fuel (.whole chain.operand) tokens head.tree middle := by
      refine ihHead admissible.1 spellsHead ?_ (by omega) (by omega)
      rw [spellsTail.map_eq]
      exact Phrase.stops_tail tail stopsTail
    have readTail : Reads size arith fuel (.tail chain) middle tail.tree rest :=
      ihTail admissible.2 spellsTail stopsTail (by omega) (by omega)
    exact (chain_eq_ok (shortens_operandReader soundArith)).mpr
      ⟨head.tree, middle, readHead.operand, readTail _⟩
  | stop =>
    obtain rfl := spells_nil.mp spells
    exact fun left => .stop (Chain.join?_of_stops stops)
  | @next chain mark operand tail ihOperand ihTail =>
    obtain ⟨offset, behind, rfl, after⟩ := spells_cons.mp spells
    obtain ⟨middle, spellsOperand, spellsTail⟩ := spells_append.mp after
    simp only [Phrase.yield, List.length_cons, List.length_append] at enough within
    have readOperand :
        Reads size arith fuel (.whole chain.operand) behind operand.tree middle := by
      refine ihOperand admissible.1 spellsOperand ?_ (by omega) (by omega)
      rw [spellsTail.map_eq]
      exact Phrase.stops_tail tail stops
    exact fun left => .next (Chain.join?_eq_some_iff.mpr ⟨mark, rfl, rfl⟩) readOperand.operand
      (ihTail admissible.2 spellsTail stops (by omega) (by omega) _)
  | plus operand ih =>
    obtain ⟨offset, behind, rfl, after⟩ := spells_cons.mp spells
    simp only [Phrase.yield, List.length_cons] at enough within
    obtain _ | fuel := fuel
    · omega
    · have read : readSigned size arith fuel behind = .ok (operand.tree, rest) :=
        ih admissible after stops (by omega) (by omega)
      exact read
  | minus operand ih =>
    obtain ⟨offset, behind, rfl, after⟩ := spells_cons.mp spells
    simp only [Phrase.yield, List.length_cons] at enough within
    obtain _ | fuel := fuel
    · omega
    · have read : readSigned size arith fuel behind = .ok (operand.tree, rest) :=
        ih admissible.1 after stops (by omega) (by omega)
      have isConstant : operand.tree.isConstant = true := isConstant_iff.mpr admissible.2
      simp [Reads, readSigned, read, isConstant, Phrase.tree, bind, Except.bind]
  | unsigned power ih =>
    obtain ⟨first, following, start, noSign⟩ := Phrase.yield_power_eq_cons power
    have read := ih admissible spells stops.power_of_signed enough within
    obtain _ | fuel := fuel
    · simp [Phrase.yield, start] at enough
    · rw [Phrase.yield, start] at spells
      obtain ⟨offset, behind, rfl, -⟩ := spells_cons.mp spells
      exact (readSigned_succ (by simpa using noSign)).trans read
  | bare base ih =>
    exact readPower_of_stops (ih admissible spells stops.atom_of_power enough within) stops
  | raised base mark order ih =>
    obtain ⟨middle, spellsBase, after⟩ := spells_append.mp spells
    obtain ⟨offset, behind, rfl, spellsOrder⟩ := spells_cons.mp after
    simp only [Phrase.yield, List.length_append] at enough within
    have readBase : readAtom size (readSigned size arith (fuel - 1)) arith tokens =
        .ok (base.tree, ⟨mark.token, offset⟩ :: behind) :=
      ih admissible spellsBase (Phrase.stops_powerMark mark _) (by omega) (by omega)
    have readExponent : readOrder size behind = .ok (order.natural, rest) :=
      readOrder_eq_ok.mpr ⟨order, spellsOrder, rfl⟩
    cases mark <;>
      simp [Reads, readPower, readBase, readExponent, PowerMark.token, Phrase.tree, bind,
        Except.bind]
  | enclosed inner ih =>
    obtain ⟨offset, behind, rfl, after⟩ := spells_cons.mp spells
    obtain ⟨middle, spellsInner, close⟩ := spells_append.mp after
    simp only [Phrase.yield, List.length_append, List.length_cons] at enough within
    refine closed_eq_ok.mpr
      ⟨middle, ih admissible spellsInner ?_ (by omega) (by omega), close⟩
    simp [close.map_eq, Rank.continuing]
  | zero value text isZero =>
    obtain ⟨offset, behind, rfl, after⟩ := spells_cons.mp spells
    obtain rfl := spells_nil.mp after
    simp [Reads, readAtom, isZero, Phrase.tree]
  | one value text isOne =>
    obtain ⟨offset, behind, rfl, after⟩ := spells_cons.mp spells
    obtain rfl := spells_nil.mp after
    simp [Reads, readAtom, isOne, Phrase.tree]
  | name source =>
    obtain ⟨offset, behind, rfl, after⟩ := spells_cons.mp spells
    obtain rfl := spells_nil.mp after
    exact readAtom_name stops
  | quoted source =>
    obtain ⟨offset, behind, rfl, after⟩ := spells_cons.mp spells
    obtain rfl := spells_nil.mp after
    rfl
  | arith argument =>
    obtain ⟨offset, _, rfl, after⟩ := spells_cons.mp spells
    obtain ⟨offset', behind, rfl, inside⟩ := spells_cons.mp after
    simp only [Phrase.yield, List.length_append, List.length_cons] at within
    have read : closed size arith behind = .ok (argument.value, rest) :=
      closed_of_finds finds argument inside (by omega)
    simp [Reads, readAtom, readCall, read, Phrase.tree, bind, Except.bind]
  | call function transform known argument =>
    obtain ⟨offset, _, rfl, after⟩ := spells_cons.mp spells
    obtain ⟨offset', behind, rfl, inside⟩ := spells_cons.mp after
    simp only [Phrase.yield, List.length_append, List.length_cons] at within
    have read : closed size arith behind = .ok (argument.value, rest) :=
      closed_of_finds finds argument inside (by omega)
    have notArith : function ≠ "I" := by
      rintro rfl
      cases known
    have notPoly : function ≠ "poly" := by
      rintro rfl
      cases known
    simp [Reads, readAtom, readCall, notArith, notPoly, known, read, Phrase.tree, bind, Except.bind]
  | poly arguments =>
    obtain ⟨offset, _, rfl, after⟩ := spells_cons.mp spells
    obtain ⟨offset', behind, rfl, inside⟩ := spells_cons.mp after
    exact readPoly_eq_ok.mpr ⟨arguments, inside, rfl⟩

end Completeness

end Tree

namespace Formula

section Sides

variable {size fuel : Nat} {tokens rest : List Placed}

theorem sound_readSide (size fuel : Nat) : Tree.Sound (.chain .sum) (readSide size fuel) :=
  Tree.sound_readSum
    (Tree.sound_readSigned (Arith.sound_readSum (Arith.sound_readSigned fuel)) fuel)

theorem readSide_of_spells (side : Tree.Phrase .sum) (admissible : side.Admissible)
    (spells : Spells side.yield tokens rest) (stops : Tree.Rank.sum.Stops (rest.map Placed.token))
    (enough : side.yield.length ≤ fuel) : readSide size fuel tokens = .ok (side.tree, rest) := by
  have finds : Tree.FindsArith (Arith.readSum (Arith.readSigned size fuel)) fuel :=
    fun argument _ _ spells stops within => Arith.readSum_of_spells argument spells stops within
  exact Tree.reads_of_spells (Arith.sound_readSum (Arith.sound_readSigned fuel)) finds side
    admissible spells stops enough enough

theorem exists_front_of_readResponse {response : Option Tree}
    (h : readResponse size fuel tokens = .ok (response, rest)) :
    ∃ side : Option (Tree.Phrase .sum), (∀ phrase ∈ side, phrase.Admissible) ∧
      Spells (Phrase.front side) tokens rest ∧ side.map Tree.Phrase.tree = response := by
  unfold readResponse at h
  split at h
  · rename_i offset behind
    cases h
    exact ⟨none, by simp, spells_cons.mpr ⟨offset, rest, rfl, spells_nil.mpr rfl⟩, rfl⟩
  · simp only [bind_eq_ok, Prod.exists, expect_eq_ok, Except.ok.injEq, Prod.mk.injEq] at h
    obtain ⟨_, middle, read, _, tilde, rfl, rfl⟩ := h
    obtain ⟨side, admissible, spells, rfl⟩ := sound_readSide size fuel read
    exact ⟨some side, by simpa using admissible, spells_append.mpr ⟨middle, spells, tilde⟩, rfl⟩

theorem readResponse_of_spells (side : Option (Tree.Phrase .sum))
    (admissible : ∀ phrase ∈ side, phrase.Admissible)
    (spells : Spells (Phrase.front side) tokens rest)
    (enough : (Phrase.front side).length ≤ fuel) :
    readResponse size fuel tokens = .ok (side.map Tree.Phrase.tree, rest) := by
  cases side with
  | none =>
    obtain ⟨offset, behind, rfl, after⟩ := spells_cons.mp spells
    obtain rfl := spells_nil.mp after
    rfl
  | some side =>
    obtain ⟨middle, spellsSide, tilde⟩ := spells_append.mp spells
    simp only [Phrase.front, List.length_append, List.length_cons] at enough
    have read : readSide size fuel tokens = .ok (side.tree, middle) := by
      refine readSide_of_spells side (admissible side rfl) spellsSide ?_ (by omega)
      simp [tilde.map_eq, Tree.Rank.continuing]
    obtain ⟨first, following, start, notTilde⟩ := side.yield_eq_cons (by simp)
    rw [start] at spellsSide
    obtain ⟨offset, behind, rfl, -⟩ := spells_cons.mp spellsSide
    rw [readResponse]
    · simp [read, expect_eq_ok.mpr tilde, bind, Except.bind]
    · rintro offset' behind' same
      cases same
      exact notTilde rfl

/-- A token list is read as a formula if it is the yield of an admissible derivation. -/
theorem ofTokens_eq_ok {formula : Formula} (enough : tokens.length ≤ fuel) :
    ofTokens size fuel tokens = .ok formula ↔
      ∃ phrase : Phrase, phrase.Admissible ∧ phrase.yield = tokens.map Placed.token ∧
        phrase.formula = formula := by
  simp only [ofTokens, bind_eq_ok, Prod.exists]
  constructor
  · rintro ⟨_, middle, readLeft, _, rest, readRight, h⟩
    obtain ⟨left, admissibleLeft, spellsLeft, rfl⟩ := exists_front_of_readResponse readLeft
    obtain ⟨right, admissibleRight, spellsRight, rfl⟩ := sound_readSide size fuel readRight
    split at h
    · rename_i isEnd
      obtain rfl : rest = [] := by simpa using isEnd
      cases h
      have spells := spells_append.mpr ⟨middle, spellsLeft, spellsRight⟩
      exact ⟨⟨left, right⟩, ⟨admissibleLeft, admissibleRight⟩, (spells_all.mp spells).symm, rfl⟩
    · cases h
  · rintro ⟨⟨left, right⟩, ⟨admissibleLeft, admissibleRight⟩, same, rfl⟩
    have spells := spells_all.mpr same.symm
    obtain ⟨middle, spellsLeft, spellsRight⟩ := spells_append.mp spells
    have lengths := congrArg List.length same
    simp only [Phrase.yield, List.length_append, List.length_map] at lengths
    have readLeft : readResponse size fuel tokens = .ok (left.map Tree.Phrase.tree, middle) :=
      readResponse_of_spells left admissibleLeft spellsLeft (by omega)
    have readRight : readSide size fuel middle = .ok (right.tree, []) :=
      readSide_of_spells right admissibleRight spellsRight (by simp) (by omega)
    exact ⟨_, middle, readLeft, _, [], readRight, rfl⟩

end Sides

theorem parse_eq_ok {text : String} {formula : Formula} : parse text = .ok formula ↔
    ∃ tokens, Token.list text = .ok tokens ∧ ∃ phrase : Phrase, phrase.Admissible ∧
      phrase.yield = tokens.map Placed.token ∧ phrase.formula = formula := by
  simp only [parse, bind_eq_ok, mapError_eq_ok]
  refine exists_congr fun tokens => and_congr_right fun _ => ?_
  exact ofTokens_eq_ok (Nat.le_succ _)

/-- The parser accepts exactly the texts whose tokens have an admissible derivation, and its result
is the formula of that derivation. No token list has two derivations. -/
theorem parse_eq_ok_iff_exists_unique_derivation :
    (∀ (text : String) (formula : Formula), parse text = .ok formula ↔
      ∃ tokens, Token.list text = .ok tokens ∧ ∃ phrase : Phrase, phrase.Admissible ∧
        phrase.yield = tokens.map Placed.token ∧ phrase.formula = formula) ∧
      ∀ p q : Phrase, p.yield = q.yield → p = q :=
  ⟨fun _ _ => parse_eq_ok, fun _ _ => Phrase.eq_of_yield_eq⟩

end Formula

end DesignMatrix
