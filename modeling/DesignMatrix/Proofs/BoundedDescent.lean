import Mathlib.Logic.Relation
import DesignMatrix.Proofs.DescentReadings
import DesignMatrix.Proofs.FinalFaults

/-!
# The descent ends within bounds

The procedures are performed with an allowance for nested calls. A call that has taken no token is
one of a lower rank, so a procedure at a place needs no more units than six for each entry from
there on. With them the descent ends like the parser, and with any number of units it looks at
entries of the list only.
-/

namespace DesignMatrix.Descent

open Outcomes Reader

/-- The procedures differ in their arguments only. -/
def Procedure.Like : Procedure → Procedure → Prop
  | .term (.chainFrom kind _), .term (.chainFrom kind' _) => kind = kind'
  | .arith (.chainFrom kind _), .arith (.chainFrom kind' _) => kind = kind'
  | .term (.call _), .term (.call _) => True
  | procedure, other => procedure = other

/-- No look was out of bounds, and the cursor is at an entry. -/
def Outcome.Within {α : Type} (size : ℕ) : Outcome α → Prop
  | .done _ cursor | .failed _ cursor => cursor < size
  | .outOfBounds => False
  | .exhausted => True

/-- The allowance that a procedure needs at a place: a unit for each rank up to its own, and one for
each of the six ranks at every entry behind the place. -/
def Procedure.demand (tokens : List Placed) (procedure : Procedure) (cursor : ℕ) : ℕ :=
  6 * (tokens.length - cursor) + procedure.rank + 1

theorem Procedure.rank_le (procedure : Procedure) : procedure.rank ≤ 5 := by
  unfold rank
  split <;> decide

theorem Procedure.Like.rank_eq {procedure other : Procedure} (h : procedure.Like other) :
    procedure.rank = other.rank := by
  unfold Like at h
  split at h
  · rfl
  · rfl
  · rfl
  · rw [h]

variable {size start rank cursor place fuel : ℕ} {tokens rest : List Placed}
  {procedure callee : Procedure}

theorem Below.le (h : Below start rank procedure cursor) : start ≤ cursor :=
  h.elim Nat.le_of_lt fun same => same.1.le

theorem Below.trans (h : Below start rank procedure cursor)
    (next : Below cursor procedure.rank callee place) : Below start rank callee place := by
  unfold Below at *
  omega

theorem Below.demand_le (h : Below start rank procedure cursor) (within : cursor ≤ tokens.length) :
    procedure.demand tokens cursor ≤ 6 * (tokens.length - start) + rank := by
  have bounded := procedure.rank_le
  unfold Procedure.demand
  rcases h with before | ⟨rfl, lower⟩ <;> omega

theorem exists_reads (size : ℕ) (rest : List Placed) (procedure : Procedure) :
    ∃ found, procedure.Reads size rest found := by
  have enough := Nat.lt_succ_self rest.length
  cases procedure with
  | term procedure => exact ⟨_, _, enough, _, enough, rfl⟩
  | arith procedure => exact ⟨_, _, enough, rfl⟩

theorem supports_of_agrees {perform : (procedure : Procedure) → ℕ → Outcome procedure.Result}
    (agrees : ∀ {procedure : Procedure} {cursor rest found}, At tokens cursor rest →
      procedure.Reads size rest found →
      Agrees tokens (fuel < procedure.demand tokens cursor) cursor found
        (perform procedure cursor)) :
    Supports size tokens (Below start rank) (fuel < 6 * (tokens.length - start) + rank) perform :=
  fun _ _ _ _ below position reads =>
    (agrees position reads).imp fun short => short.trans_le (below.demand_le position.within)

/-- Every procedure finds what its reader finds, or its allowance is less than it needs. -/
theorem agrees_run {found : Except Stop (procedure.Result × List Placed)}
    (position : At tokens cursor rest) (reads : procedure.Reads size rest found) :
    Agrees tokens (fuel < procedure.demand tokens cursor) cursor found
      (run (sights size tokens) fuel procedure cursor) := by
  -- A unit is a level of calls: those that are called have one less, and need at least one less.
  induction fuel generalizing procedure cursor rest with
  | zero => exact .exhausted (Nat.succ_pos _)
  | succ fuel ih =>
    have called := (procedure.realizes_body position reads).agrees (supports_of_agrees ih)
    exact called.imp Nat.succ_lt_succ

variable (size tokens start rank fuel) in
theorem supports_run : Supports size tokens (Below start rank)
    (fuel < 6 * (tokens.length - start) + rank) (run (sights size tokens) fuel) :=
  supports_of_agrees agrees_run

variable (size fuel) in
theorem agrees_runFormula {fuel' : ℕ} (enough : tokens.length < fuel') :
    Agrees tokens (fuel < 6 * (tokens.length + 1)) 0 (Formula.readAll size fuel' tokens)
      (runFormula (sights size tokens) fuel) :=
  ((realizes_formula enough).agrees (supports_run size 0 6 fuel tokens)).imp fun short => by omega

theorem Agrees.within {α : Type} {short : Prop} {result : Except Stop (α × List Placed)}
    {outcome : Outcome α} (h : Agrees tokens short start result outcome) :
    outcome.Within (sights size tokens).length := by
  have length := length_sights size tokens
  cases h with
  | done _ position => exact length ▸ Nat.lt_succ_of_le position.within
  | failed within => exact length ▸ Nat.lt_succ_of_le within
  | exhausted => trivial

theorem below_of_calls {caller callee : Procedure × ℕ}
    (h : Calls (sights size tokens) caller callee) (within : caller.2 ≤ tokens.length) :
    Below caller.2 caller.1.rank callee.1 callee.2 ∧ callee.2 ≤ tokens.length := by
  obtain ⟨fuel, made⟩ := h
  obtain ⟨found, reads⟩ := exists_reads size (tokens.drop caller.2) caller.1
  have position : At tokens caller.2 _ := .of_le within
  exact (caller.1.realizes_body position reads).isAllowed (supports_run size _ _ fuel tokens) made

/-- A chain of calls takes a token or leads to a procedure of a lower rank. -/
theorem below_of_transGen {caller callee : Procedure × ℕ}
    (h : Relation.TransGen (Calls (sights size tokens)) caller callee)
    (within : caller.2 ≤ tokens.length) :
    Below caller.2 caller.1.rank callee.1 callee.2 ∧ callee.2 ≤ tokens.length := by
  induction h with
  | single call => exact below_of_calls call within
  | tail _ call ih =>
    obtain ⟨below, within'⟩ := ih
    obtain ⟨below', within''⟩ := below_of_calls call within'
    exact ⟨below.trans below', within''⟩

/-- The descent over a list of entries ends with this result and stays within the list. -/
structure EndsWithin (entries : List Sight) (result : Except FormulaError Formula) : Prop where
  /-- Six units for each entry suffice. -/
  ends : ∀ fuel, 6 * entries.length ≤ fuel → ∃ cursor < entries.length,
    (∃ found, result = .ok found ∧ runFormula entries fuel = .done found cursor) ∨
      ∃ error, result = .error error ∧ runFormula entries fuel = .failed error cursor
  /-- With fewer units it does not look elsewhere either. -/
  within : ∀ fuel, (runFormula entries fuel).Within entries.length
  /-- Nor does any procedure, wherever in the list it starts. -/
  within_run : ∀ fuel procedure cursor, cursor < entries.length →
    (run entries fuel procedure cursor).Within entries.length
  /-- Chains of calls do not go back in the list. Between two calls of a procedure, whatever its
  arguments, a token is taken. -/
  takes : ∀ procedure callee cursor place, cursor < entries.length →
    Relation.TransGen (Calls entries) (procedure, cursor) (callee, place) →
    cursor ≤ place ∧ place < entries.length ∧ (procedure.Like callee → cursor < place)

theorem Below.lt_of_like (h : Below start procedure.rank callee place)
    (like : procedure.Like callee) : start < place := by
  have same := like.rank_eq
  unfold Below at h
  omega

section Texts

variable {text : String} {found : Formula}

theorem parse_of_readAll (listed : Token.list text = .ok tokens)
    (read : Formula.readAll text.utf8ByteSize (Formula.allowance tokens) tokens =
      .ok (found, rest)) : Formula.parse text = .ok found := by
  simp [Formula.parse, listed, Formula.ofTokens_eq_map, read, bind, Except.bind, Except.map,
    Except.mapError]

/-- With six units for each entry the descent ends like the parser. -/
theorem exists_end_of_enough (listed : Token.list text = .ok tokens)
    (enough : 6 * (tokens.length + 1) ≤ fuel) : ∃ cursor ≤ tokens.length,
    (∃ found, Formula.parse text = .ok found ∧
      runFormula (sights text.utf8ByteSize tokens) fuel = .done found cursor) ∨
    ∃ error, Formula.parse text = .error error ∧
      runFormula (sights text.utf8ByteSize tokens) fuel = .failed error cursor := by
  have agrees := agrees_runFormula text.utf8ByteSize fuel (Nat.lt_succ_self tokens.length)
  generalize read : Formula.readAll _ (tokens.length + 1) tokens = result at agrees
  generalize runFormula _ fuel = outcome at agrees ⊢
  cases agrees with
  | done _ position => exact ⟨_, position.within, .inl ⟨_, parse_of_readAll listed read, rfl⟩⟩
  | failed within =>
    exact ⟨_, within, .inr ⟨_, (Formula.parse_eq_error listed).mpr ⟨_, read, rfl⟩, rfl⟩⟩
  | exhausted short => exact absurd short (Nat.not_lt_of_le enough)

/-- The allowance of a reader counts tokens, and one unit more than there are tokens suffices. -/
theorem ofTokens_ne_exhausted (size : ℕ) (enough : tokens.length < fuel) :
    Formula.ofTokens size fuel tokens ≠ .error .exhausted := by
  rw [Formula.ofTokens_eq_map]
  have agrees := agrees_runFormula size (6 * (tokens.length + 1)) enough
  generalize Formula.readAll size fuel tokens = result at agrees ⊢
  generalize runFormula _ _ = outcome at agrees
  cases agrees with
  | done => simp [Except.map]
  | failed => simp [Except.map]
  | exhausted short => exact absurd short (lt_irrefl _)

end Texts

/-- Every text is read to its end. Either it has no tokens, and the fault is that of the lexer, or
the descent over its tokens ends within bounds, like the parser, whose own allowance suffices. -/
theorem parse_endsWithin (text : String) :
    (∃ error, Token.list text = .error error ∧ Formula.parse text = .error error) ∨
    ∃ tokens, Token.list text = .ok tokens ∧
      EndsWithin (sights text.utf8ByteSize tokens) (Formula.parse text) ∧
      ∀ fuel > tokens.length,
        Formula.ofTokens text.utf8ByteSize fuel tokens ≠ .error .exhausted := by
  cases listed : Token.list text with
  | error error => exact .inl ⟨error, rfl, by simp [Formula.parse, listed, bind, Except.bind]⟩
  | ok tokens =>
    have length := length_sights text.utf8ByteSize tokens
    refine .inr ⟨tokens, rfl, ⟨fun fuel enough => ?_, fun fuel => ?_,
      fun fuel procedure cursor inside => ?_, fun procedure callee cursor place inside chain => ?_⟩,
      fun fuel enough => ofTokens_ne_exhausted _ enough⟩
    · obtain ⟨cursor, within, ends⟩ := exists_end_of_enough listed (length ▸ enough)
      exact ⟨cursor, by omega, ends⟩
    · exact (agrees_runFormula _ fuel (Nat.lt_succ_self tokens.length)).within
    · obtain ⟨found, reads⟩ := exists_reads text.utf8ByteSize (tokens.drop cursor) procedure
      exact (agrees_run (.of_le (by omega)) reads).within
    · obtain ⟨below, within⟩ := below_of_transGen chain (by simp only; omega)
      exact ⟨below.le, by omega, below.lt_of_like⟩

theorem EndsWithin.exists_failed {entries : List Sight} {error : FormulaError}
    (h : EndsWithin entries (.error error)) : ∃ cursor < entries.length,
    runFormula entries (6 * entries.length) = .failed error cursor := by
  obtain ⟨cursor, inside, ⟨found, same, -⟩ | ⟨error', same, failed⟩⟩ := h.ends _ le_rfl
  · cases same
  · cases same
    exact ⟨cursor, inside, failed⟩

/-- The fault of an order that is zero is at the token behind the cursor, and that of a missing term
is at the end, from which the cursor steps back. A sign in front of a sign calls its own procedure
again, one token further. -/
theorem parse_endsWithin_misspelt :
    (∃ tokens, Token.list "y ~ a^0" = .ok tokens ∧ ∃ cursor ≤ tokens.length,
      runFormula (sights 7 tokens) (6 * (tokens.length + 1)) =
        .failed (.malformed 6 .orderZero) cursor) ∧
    (∃ tokens, Token.list "y ~ a +" = .ok tokens ∧ ∃ cursor ≤ tokens.length,
      runFormula (sights 7 tokens) (6 * (tokens.length + 1)) =
        .failed (.malformed 7 (.unexpected .term none)) cursor) ∧
    ∃ tokens, Token.list "~ -+a" = .ok tokens ∧
      Relation.TransGen (Calls (sights 5 tokens)) (.term .signed, 1) (.term .signed, 3) ∧
      3 < (sights 5 tokens).length := by
  have failed {text : String} {error : FormulaError} (lists : (Token.list text).toBool = true)
      (parsed : Formula.parse text = .error error) : ∃ tokens, Token.list text = .ok tokens ∧
      ∃ cursor ≤ tokens.length, runFormula (sights text.utf8ByteSize tokens)
        (6 * (tokens.length + 1)) = .failed error cursor := by
    obtain ⟨fault, unlisted, -⟩ | ⟨tokens, listed, descent, -⟩ := parse_endsWithin text
    · rw [unlisted] at lists
      cases lists
    · rw [parsed] at descent
      obtain ⟨cursor, inside, failed⟩ := descent.exists_failed
      rw [length_sights] at inside failed
      exact ⟨tokens, listed, cursor, Nat.le_of_lt_succ inside, failed⟩
  have order : (Formula.parse "y ~ a^0").map (fun _ => ()) = .error (.malformed 6 .orderZero) := by
    decide +kernel
  have term : (Formula.parse "y ~ a +").map (fun _ => ()) =
      .error (.malformed 7 (.unexpected .term none)) := by decide +kernel
  refine ⟨failed (by decide +kernel) (map_eq_error.mp order),
    failed (by decide +kernel) (map_eq_error.mp term), ?_⟩
  let signs : List Placed := [⟨.tilde, 0⟩, ⟨.minus, 2⟩, ⟨.plus, 3⟩, ⟨.name "a", 4⟩]
  have list : Token.list "~ -+a" = .ok signs := by decide +kernel
  have minus : Calls (sights 5 signs) (.term .signed, 1) (.term .signed, 2) :=
    ⟨0, .look rfl (.look rfl (.look rfl (.advance rfl .here)))⟩
  have plus : Calls (sights 5 signs) (.term .signed, 2) (.term .signed, 3) :=
    ⟨0, .look rfl (.look rfl (.advance rfl .here))⟩
  have chain := (Relation.TransGen.single minus).tail plus
  obtain ⟨error, unlisted, -⟩ | ⟨tokens, listed, descent, -⟩ := parse_endsWithin "~ -+a"
  · cases list.symm.trans unlisted
  · cases list.symm.trans listed
    exact ⟨signs, list, chain, (descent.takes _ _ _ _ (by decide) chain).2.1⟩

end DesignMatrix.Descent
