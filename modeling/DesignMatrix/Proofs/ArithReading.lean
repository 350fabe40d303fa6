import DesignMatrix.Proofs.ArithGrammar
import DesignMatrix.Proofs.TokenReading

/-!
# The reader of arithmetic follows its grammar

What the reader takes off the front of a token list is the yield of a phrase, and its result is the
value of the phrase. Conversely the reader finds every phrase, as long as its allowance covers the
tokens of the phrase and nothing behind them would continue it.
-/

namespace DesignMatrix.Arith

open Outcomes Reader

/-- The operators that join the operands of a chain. -/
def Chain.join? : Chain → Token → Option (Arith → Arith → Arith)
  | .sum => joinSum?
  | .product => joinProduct?

/-- The reader of the operands of a chain, given that of its signed operands. -/
def Chain.operandReader (signed : Reader Arith) : Chain → Reader Arith
  | .sum => chain signed joinProduct?
  | .product => signed

theorem Chain.join?_eq_some_iff {chain : Chain} {token : Token} {join : Arith → Arith → Arith} :
    chain.join? token = some join ↔
      ∃ mark : Mark chain, mark.token = token ∧ join = .binary mark.operator := by
  constructor
  · intro h
    cases chain with
    | sum =>
      simp only [join?, joinSum?] at h
      split at h
      · exact ⟨.plus, rfl, (Option.some.inj h).symm⟩
      · exact ⟨.minus, rfl, (Option.some.inj h).symm⟩
      · cases h
    | product =>
      simp only [join?, joinProduct?] at h
      split at h
      · exact ⟨.star, rfl, (Option.some.inj h).symm⟩
      · exact ⟨.slash, rfl, (Option.some.inj h).symm⟩
      · cases h
  · rintro ⟨mark, rfl, rfl⟩
    cases mark <;> rfl

/-- No operator stands behind a chain that is not continued. -/
theorem Chain.join?_of_stops {chain : Chain} {rest : List Placed}
    (stops : (Rank.tail chain).Stops (rest.map Placed.token)) :
    ∀ head ∈ rest.head?, chain.join? head.token = none := by
  intro head first
  cases joined : chain.join? head.token with
  | none => rfl
  | some join =>
    obtain ⟨mark, isMark, -⟩ := join?_eq_some_iff.mp joined
    obtain ⟨behind, rfl⟩ : ∃ behind, rest = head :: behind := by
      cases rest <;> simp_all
    rw [List.map_cons, ← isMark] at stops
    exact absurd stops (Phrase.not_stops_mark mark _)

/-- A phrase of the rank with this meaning stands at the front of the tokens. -/
def Derives (rank : Rank) (tokens : List Placed) (meaning : rank.Meaning) (rest : List Placed) :
    Prop :=
  ∃ phrase : Phrase rank, Spells phrase.yield tokens rest ∧ phrase.value = meaning

/-- What the reader takes off the tokens is a phrase of the level. -/
def Sound (level : Level) (reader : Reader Arith) : Prop :=
  ∀ ⦃tokens value rest⦄, reader tokens = .ok (value, rest) →
    Derives (.whole level) tokens value rest

theorem Derives.length_le {rank : Rank} {tokens rest : List Placed} {meaning : rank.Meaning}
    (h : Derives rank tokens meaning rest) : rest.length ≤ tokens.length := by
  obtain ⟨phrase, spells, -⟩ := h
  rw [spells.length_eq]
  exact Nat.le_add_left _ _

section Soundness

variable {size : Nat} {signed : Reader Arith}

theorem exists_tail_of_chained {chain : Chain} {operand : Reader Arith}
    {tokens rest : List Placed} {left value : Arith} (sound : Sound chain.operand operand)
    (h : Chained operand chain.join? left tokens value rest) :
    ∃ tail : Phrase (.tail chain), Spells tail.yield tokens rest ∧ tail.value left = value := by
  induction h with
  | stop => exact ⟨.stop, spells_nil.mpr rfl, rfl⟩
  | @next left right result first join tokens middle rest joins reads _ ih =>
    obtain ⟨tail, spellsTail, rfl⟩ := ih
    obtain ⟨operand, spellsOperand, rfl⟩ := sound reads
    obtain ⟨mark, isMark, rfl⟩ := Chain.join?_eq_some_iff.mp joins
    refine ⟨.next mark operand tail, ?_, rfl⟩
    rw [Phrase.yield, spells_cons]
    exact ⟨first.offset, tokens, by rw [isMark],
      spells_append.mpr ⟨middle, spellsOperand, spellsTail⟩⟩

theorem sound_chain {chain : Chain} {operand : Reader Arith} (sound : Sound chain.operand operand) :
    Sound (.chain chain) (Reader.chain operand chain.join?) := by
  intro tokens value rest h
  rw [chain_eq_ok fun read => (sound read).length_le] at h
  obtain ⟨left, middle, read, chained⟩ := h
  obtain ⟨head, spellsHead, rfl⟩ := sound read
  obtain ⟨tail, spellsTail, rfl⟩ := exists_tail_of_chained sound chained
  exact ⟨.chain head tail, spells_append.mpr ⟨middle, spellsHead, spellsTail⟩, rfl⟩

theorem sound_operandReader (sound : Sound .signed signed) (chain : Chain) :
    Sound chain.operand (chain.operandReader signed) := by
  have products : Sound (.chain .product) (Chain.operandReader signed .sum) := sound_chain sound
  cases chain with
  | sum => exact products
  | product => exact sound

theorem sound_readSum (sound : Sound .signed signed) : Sound (.chain .sum) (readSum signed) :=
  sound_chain (sound_operandReader sound .sum)

theorem sound_readAtom (sound : Sound .signed signed) : Sound .atom (readAtom size signed) := by
  intro tokens value rest h
  unfold readAtom at h
  split at h
  · rename_i number text offset behind
    cases h
    exact ⟨.number number text, spells_cons.mpr ⟨offset, rest, rfl, spells_nil.mpr rfl⟩, rfl⟩
  · rename_i source offset behind
    cases h
    exact ⟨.quoted source, spells_cons.mpr ⟨offset, rest, rfl, spells_nil.mpr rfl⟩, rfl⟩
  · split at h
    · cases h
    · rename_i function offset offset' behind _ transform known
      simp only [bind_eq_ok, closed_eq_ok, Prod.exists, Except.ok.injEq, Prod.mk.injEq] at h
      obtain ⟨_, _, ⟨middle, read, close⟩, rfl, rfl⟩ := h
      obtain ⟨argument, spells, rfl⟩ := sound_readSum sound read
      refine ⟨.call function transform known argument, ?_, rfl⟩
      have inner := spells_append.mpr ⟨middle, spells, close⟩
      exact spells_cons.mpr ⟨offset, _, rfl, spells_cons.mpr ⟨offset', behind, rfl, inner⟩⟩
  · rename_i source offset behind _
    cases h
    exact ⟨.name source, spells_cons.mpr ⟨offset, rest, rfl, spells_nil.mpr rfl⟩, rfl⟩
  · rename_i offset behind
    rw [closed_eq_ok] at h
    obtain ⟨middle, read, close⟩ := h
    obtain ⟨inner, spells, rfl⟩ := sound_readSum sound read
    refine ⟨.enclosed inner, ?_, rfl⟩
    exact spells_cons.mpr ⟨offset, behind, rfl, spells_append.mpr ⟨middle, spells, close⟩⟩
  · cases h

theorem sound_readPower (sound : Sound .signed signed) : Sound .power (readPower size signed) := by
  intro tokens value rest h
  simp only [readPower, bind_eq_ok, Prod.exists] at h
  obtain ⟨base, middle, readBase, h⟩ := h
  obtain ⟨atom, spellsAtom, rfl⟩ := sound_readAtom sound readBase
  have raise : ∀ (mark : PowerMark) {offset : Nat} {behind : List Placed},
      middle = ⟨mark.token, offset⟩ :: behind →
      (signed behind >>= fun exponent =>
        .ok (Arith.binary .power atom.value exponent.1, exponent.2)) = Except.ok (value, rest) →
      Derives .power tokens value rest := by
    rintro mark offset behind rfl h
    simp only [bind_eq_ok, Prod.exists, Except.ok.injEq, Prod.mk.injEq] at h
    obtain ⟨_, _, readExponent, rfl, rfl⟩ := h
    obtain ⟨exponent, spellsExponent, rfl⟩ := sound readExponent
    refine ⟨.raised atom mark exponent, spells_append.mpr ⟨_, spellsAtom, ?_⟩, rfl⟩
    exact spells_cons.mpr ⟨offset, behind, rfl, spellsExponent⟩
  split at h
  · exact raise .doubleStar rfl h
  · exact raise .caret rfl h
  · cases h
    exact ⟨.bare atom, spellsAtom, rfl⟩

/-- What the reader of signed operands takes off is a phrase, whatever its allowance. -/
theorem sound_readSigned (fuel : Nat) : Sound .signed (readSigned size fuel) := by
  intro tokens value rest h
  induction fuel generalizing tokens value rest with
  | zero => cases h
  | succ fuel ih =>
    unfold readSigned at h
    split at h
    · cases ‹_ = _›
    · rename_i more offset behind same
      cases same
      obtain ⟨operand, spells, rfl⟩ := ih h
      exact ⟨.plus operand, spells_cons.mpr ⟨offset, behind, rfl, spells⟩, rfl⟩
    · rename_i more offset behind same
      cases same
      simp only [bind_eq_ok, Prod.exists, Except.ok.injEq, Prod.mk.injEq] at h
      obtain ⟨_, _, read, rfl, rfl⟩ := h
      obtain ⟨operand, spells, rfl⟩ := ih read
      exact ⟨.minus operand, spells_cons.mpr ⟨offset, behind, rfl, spells⟩, rfl⟩
    · rename_i more same _ _
      cases same
      obtain ⟨power, spells, rfl⟩ := sound_readPower ih h
      exact ⟨.unsigned power, spells, rfl⟩

end Soundness

section Completeness

/-- The readers with this allowance take a phrase of the rank off the tokens. A tail is read behind
any expression, and the atoms and powers of a signed operand are read with one unit less. -/
def Reads (size fuel : Nat) :
    (rank : Rank) → (tokens : List Placed) → rank.Meaning → (rest : List Placed) → Prop
  | .whole (.chain chain), tokens, value, rest =>
    Reader.chain (chain.operandReader (readSigned size fuel)) chain.join? tokens = .ok (value, rest)
  | .tail chain, tokens, extend, rest => ∀ left,
    Chained (chain.operandReader (readSigned size fuel)) chain.join? left tokens (extend left) rest
  | .whole .signed, tokens, value, rest => readSigned size fuel tokens = .ok (value, rest)
  | .whole .power, tokens, value, rest =>
    readPower size (readSigned size (fuel - 1)) tokens = .ok (value, rest)
  | .whole .atom, tokens, value, rest =>
    readAtom size (readSigned size (fuel - 1)) tokens = .ok (value, rest)

variable {size fuel : Nat}

theorem shortens_operandReader {chain : Chain} {tokens rest : List Placed} {value : Arith}
    (h : chain.operandReader (readSigned size fuel) tokens = .ok (value, rest)) :
    rest.length ≤ tokens.length :=
  (sound_operandReader (sound_readSigned fuel) chain h).length_le

theorem Reads.operand {chain : Chain} {tokens rest : List Placed} {value : Arith}
    (h : Reads size fuel (.whole chain.operand) tokens value rest) :
    chain.operandReader (readSigned size fuel) tokens = .ok (value, rest) := by
  cases chain with
  | sum => exact h
  | product => exact h

/-- A signed operand without a sign is a power. -/
theorem readSigned_succ {tokens : List Placed}
    (unsigned : ∀ head ∈ tokens.head?, head.token ≠ .plus ∧ head.token ≠ .minus) :
    readSigned size (fuel + 1) tokens = readPower size (readSigned size fuel) tokens := by
  rw [readSigned]
  · rintro offset rest rfl
    simp at unsigned
  · rintro offset rest rfl
    simp at unsigned

theorem readAtom_name {signed : Reader Arith} {source : String} {offset : Nat} {rest : List Placed}
    (stops : Rank.atom.Stops (rest.map Placed.token)) :
    readAtom size signed (⟨.name source, offset⟩ :: rest) = .ok (.column source, rest) := by
  rw [readAtom]
  rintro offset rest rfl
  simp [Rank.continuing] at stops

theorem readPower_of_stops {signed : Reader Arith} {tokens rest : List Placed} {base : Arith}
    (h : readAtom size signed tokens = .ok (base, rest))
    (stops : Rank.power.Stops (rest.map Placed.token)) :
    readPower size signed tokens = .ok (base, rest) := by
  simp only [readPower, bind_eq_ok, Prod.exists]
  refine ⟨base, rest, h, ?_⟩
  split
  · simp [Rank.continuing] at stops
  · simp [Rank.continuing] at stops
  · rfl

/-- The readers find every phrase that nothing behind it continues. -/
theorem reads_of_spells {rank : Rank} (phrase : Phrase rank) {tokens rest : List Placed}
    (spells : Spells phrase.yield tokens rest) (stops : rank.Stops (rest.map Placed.token))
    (enough : phrase.yield.length ≤ fuel) : Reads size fuel rank tokens phrase.value rest := by
  -- A unit of fuel is spent where a sign, a mark or a parenthesis has left the tokens.
  induction phrase generalizing fuel tokens rest with
  | @chain chain head tail ihHead ihTail =>
    obtain ⟨middle, spellsHead, spellsTail⟩ := spells_append.mp spells
    have stopsTail : (Rank.tail chain).Stops (rest.map Placed.token) :=
      stops.mono (by cases chain <;> decide)
    simp only [Phrase.yield, List.length_append] at enough
    have readHead : Reads size fuel (.whole chain.operand) tokens head.value middle := by
      refine ihHead spellsHead ?_ (by omega)
      rw [spellsTail.map_eq]
      exact Phrase.stops_tail tail stopsTail
    have readTail : Reads size fuel (.tail chain) middle tail.value rest :=
      ihTail spellsTail stopsTail (by omega)
    exact (chain_eq_ok shortens_operandReader).mpr
      ⟨head.value, middle, readHead.operand, readTail _⟩
  | stop =>
    obtain rfl := spells_nil.mp spells
    exact fun left => .stop (Chain.join?_of_stops stops)
  | @next chain mark operand tail ihOperand ihTail =>
    obtain ⟨offset, behind, rfl, after⟩ := spells_cons.mp spells
    obtain ⟨middle, spellsOperand, spellsTail⟩ := spells_append.mp after
    simp only [Phrase.yield, List.length_cons, List.length_append] at enough
    have readOperand : Reads size fuel (.whole chain.operand) behind operand.value middle := by
      refine ihOperand spellsOperand ?_ (by omega)
      rw [spellsTail.map_eq]
      exact Phrase.stops_tail tail stops
    exact fun left => .next (Chain.join?_eq_some_iff.mpr ⟨mark, rfl, rfl⟩) readOperand.operand
      (ihTail spellsTail stops (by omega) _)
  | plus operand ih =>
    obtain ⟨offset, behind, rfl, after⟩ := spells_cons.mp spells
    obtain _ | fuel := fuel
    · simp [Phrase.yield] at enough
    · have read : readSigned size fuel behind = .ok (operand.value, rest) :=
        ih after stops (by simpa [Phrase.yield] using enough)
      exact read
  | minus operand ih =>
    obtain ⟨offset, behind, rfl, after⟩ := spells_cons.mp spells
    obtain _ | fuel := fuel
    · simp [Phrase.yield] at enough
    · have read : readSigned size fuel behind = .ok (operand.value, rest) :=
        ih after stops (by simpa [Phrase.yield] using enough)
      simp [Reads, readSigned, read, Phrase.value, bind, Except.bind]
  | unsigned power ih =>
    obtain ⟨first, following, start, noSign⟩ := Phrase.yield_power_eq_cons power
    have read := ih spells (stops.mono (by decide)) enough
    obtain _ | fuel := fuel
    · simp [Phrase.yield, start] at enough
    · rw [Phrase.yield, start] at spells
      obtain ⟨offset, behind, rfl, -⟩ := spells_cons.mp spells
      exact (readSigned_succ (by simpa using noSign)).trans read
  | bare base ih => exact readPower_of_stops (ih spells (stops.mono (by decide)) enough) stops
  | raised base mark exponent ihBase ihExponent =>
    obtain ⟨middle, spellsBase, after⟩ := spells_append.mp spells
    obtain ⟨offset, behind, rfl, spellsExponent⟩ := spells_cons.mp after
    simp only [Phrase.yield, List.length_append, List.length_cons] at enough
    have readBase : readAtom size (readSigned size (fuel - 1)) tokens =
        .ok (base.value, ⟨mark.token, offset⟩ :: behind) :=
      ihBase spellsBase (Phrase.stops_powerMark mark _) (by omega)
    have readExponent : readSigned size (fuel - 1) behind = .ok (exponent.value, rest) :=
      ihExponent spellsExponent (stops.mono (by decide)) (by omega)
    cases mark <;>
      simp [Reads, readPower, readBase, readExponent, PowerMark.token, Phrase.value, bind,
        Except.bind]
  | number value text =>
    obtain ⟨offset, behind, rfl, after⟩ := spells_cons.mp spells
    obtain rfl := spells_nil.mp after
    rfl
  | name source =>
    obtain ⟨offset, behind, rfl, after⟩ := spells_cons.mp spells
    obtain rfl := spells_nil.mp after
    exact readAtom_name stops
  | quoted source =>
    obtain ⟨offset, behind, rfl, after⟩ := spells_cons.mp spells
    obtain rfl := spells_nil.mp after
    rfl
  | enclosed inner ih =>
    obtain ⟨offset, behind, rfl, after⟩ := spells_cons.mp spells
    obtain ⟨middle, spellsInner, close⟩ := spells_append.mp after
    simp only [Phrase.yield, List.length_append, List.length_cons] at enough
    refine closed_eq_ok.mpr ⟨middle, ih spellsInner ?_ (by omega), close⟩
    simp [close.map_eq, Rank.continuing]
  | call function transform known argument ih =>
    obtain ⟨offset, _, rfl, after⟩ := spells_cons.mp spells
    obtain ⟨offset', behind, rfl, inside⟩ := spells_cons.mp after
    obtain ⟨middle, spellsArgument, close⟩ := spells_append.mp inside
    simp only [Phrase.yield, List.length_append, List.length_cons] at enough
    have read : closed size (readSum (readSigned size (fuel - 1))) behind =
        .ok (argument.value, rest) := by
      refine closed_eq_ok.mpr ⟨middle, ih spellsArgument ?_ (by omega), close⟩
      simp [close.map_eq, Rank.continuing]
    simp [Reads, readAtom, known, read, Phrase.value, bind, Except.bind]

theorem readSum_of_spells (phrase : Phrase .sum) {tokens rest : List Placed}
    (spells : Spells phrase.yield tokens rest) (stops : Rank.sum.Stops (rest.map Placed.token))
    (enough : phrase.yield.length ≤ fuel) :
    readSum (readSigned size fuel) tokens = .ok (phrase.value, rest) :=
  reads_of_spells phrase spells stops enough

end Completeness

end DesignMatrix.Arith
