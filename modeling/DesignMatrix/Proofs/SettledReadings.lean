import DesignMatrix.Proofs.FormulaReading
import DesignMatrix.Proofs.TokenLayout

/-!
# Readings that are settled by a front of the tokens

A reading is settled by the tokens that it takes and by what is seen behind them: a second reader
that finds the same there does the same, whatever follows. That holds of values and of faults alike,
so a fault is seen at the first token that no other token list can make good. The two readers may
differ in the size of the text and in their allowance.
-/

namespace DesignMatrix.Reader

open Outcomes

/-- What stands at the front of the tokens of a text of this size. -/
def sight (size : ℕ) (tokens : List Placed) : Sight :=
  ⟨tokens.head?.map Placed.token, offset size tokens⟩

section Sights

variable {size size' : ℕ} {head : Placed} {tokens rest rest' : List Placed}

theorem eq_nil_of_sight (h : sight size' rest' = sight size []) : rest' = [] ∧ size' = size := by
  cases rest' with
  | nil => exact ⟨rfl, congrArg Sight.offset h⟩
  | cons head rest' => cases congrArg Sight.token? h

theorem exists_cons_of_sight (h : sight size' rest' = sight size (head :: rest)) :
    ∃ behind, rest' = head :: behind := by
  cases rest' with
  | nil => cases congrArg Sight.token? h
  | cons first behind =>
    obtain rfl : first = head := Placed.sight_injective h
    exact ⟨behind, rfl⟩

/-- In front of what is seen alike, the same tokens are seen alike. -/
theorem sight_append (h : sight size' rest' = sight size rest) (taken : List Placed) :
    sight size' (taken ++ rest') = sight size (taken ++ rest) := by
  cases taken with
  | nil => exact h
  | cons head taken => rfl

end Sights

/-- The tokens behind which a sign stands for itself and not between two operands. -/
def signPlaces : List Token :=
  [.tilde, .plus, .minus, .star, .doubleStar, .caret, .slash, .colon, .leftParen]

/-- Nothing stands before the place, or a token behind which a sign stands for itself. -/
def SignPlace (before : List Placed) : Prop := ∀ last ∈ before.getLast?, last.token ∈ signPlaces

theorem signPlace_nil : SignPlace [] := by simp [SignPlace]

theorem signPlace_concat {before : List Placed} {last : Placed} (h : last.token ∈ signPlaces) :
    SignPlace (before ++ [last]) := by simpa [SignPlace] using h

variable {α β : Type}

/-- The reading of some tokens behind others is settled by a front of them. A second reader with an
allowance for fewer than `most` tokens reads every list with this front in the same way. The one
fault that may be found later is that of a sign, whose operand is read first. -/
inductive Settled (size size' most : ℕ) (again : Reader α) (before tokens : List Placed) :
    Except Stop (α × List Placed) → Prop
  | ok (value : α) (taken rest : List Placed) (split : tokens = taken ++ rest)
      (recurs : ∀ rest', (taken ++ rest').length < most → sight size' rest' = sight size rest →
        again (taken ++ rest') = .ok (value, rest')) :
      Settled size size' most again before tokens (.ok (value, rest))
  | malformed (fault : SyntaxFault) (taken rest : List Placed) (notSign : fault ≠ .negatedTerm)
      (split : tokens = taken ++ rest)
      (recurs : ∀ rest', (taken ++ rest').length < most → sight size' rest' = sight size rest →
        again (taken ++ rest') = .error (.fault (.malformed (offset size rest) fault))) :
      Settled size size' most again before tokens
        (.error (.fault (.malformed (offset size rest) fault)))
  | negatedTerm (place : ℕ) (front behind rest : List Placed) (operand : Tree)
      (split : tokens = front ++ ⟨.minus, place⟩ :: behind) (sign : SignPlace (before ++ front))
      (derives : Tree.Derives .signed behind operand rest)
      (notConstant : operand.isConstant = false) :
      Settled size size' most again before tokens
        (.error (.fault (.malformed place .negatedTerm)))
  | unknownFunction (name : String) :
      Settled size size' most again before tokens (.error (.fault (.unknownFunction name)))
  | invalidPoly (fault : PolyFault) :
      Settled size size' most again before tokens (.error (.fault (.invalidPoly fault)))

/-- Every reading of fewer than `limit` tokens by the first reader, where a sign may stand, is
settled for the second. -/
def Settles (size size' limit most : ℕ) (read again : Reader α) : Prop :=
  ∀ before tokens, SignPlace before → tokens.length < limit →
    Settled size size' most again before tokens (read tokens)

/-- Behind a token that a sign may follow, every reading is settled. -/
theorem Settles.behind {size size' limit most : ℕ} {read again : Reader α} {token : Token}
    (h : Settles size size' limit most read again) (isPlace : token ∈ signPlaces) (place : ℕ)
    (before rest : List Placed) (short : rest.length < limit) :
    Settled size size' most again (before ++ [⟨token, place⟩]) rest (read rest) :=
  h _ rest (signPlace_concat isPlace) short

namespace Settled

variable {size size' most : ℕ} {again : Reader α} {before tokens : List Placed}
  {result : Except Stop (α × List Placed)}

/-- The second reader may be another one that reads lists with the same token in front alike. -/
theorem congr {most' : ℕ} {again' : Reader α}
    (h : Settled size size' most again before tokens result)
    (fewer : most' ≤ most) (same : ∀ tokens' : List Placed, tokens'.length < most' →
      sight size' tokens' = sight size tokens → again' tokens' = again tokens') :
    Settled size size' most' again' before tokens result := by
  cases h with
  | ok value taken rest split recurs =>
    refine .ok value taken rest split fun rest' short alike => ?_
    rw [same _ short (split ▸ sight_append alike taken)]
    exact recurs rest' (by omega) alike
  | malformed fault taken rest notSign split recurs =>
    refine .malformed fault taken rest notSign split fun rest' short alike => ?_
    rw [same _ short (split ▸ sight_append alike taken)]
    exact recurs rest' (by omega) alike
  | negatedTerm place front behind rest operand split sign derives notConstant =>
    exact .negatedTerm place front behind rest operand split sign derives notConstant
  | unknownFunction name => exact .unknownFunction name
  | invalidPoly fault => exact .invalidPoly fault

/-- Of a reader that may read no list at all there is nothing to show. -/
theorem zero {again' : Reader α} (h : Settled size size' most again before tokens result) :
    Settled size size' 0 again' before tokens result :=
  h.congr (Nat.zero_le _) fun _ none => absurd none (Nat.not_lt_zero _)

theorem congr_nil {again' : Reader α} (h : Settled size size' most again before [] result)
    (same : again' [] = again []) : Settled size size' most again' before [] result := by
  refine h.congr (Nat.le_refl _) fun tokens' _ alike => ?_
  obtain ⟨rfl, -⟩ := eq_nil_of_sight alike
  exact same

theorem congr_cons {again' : Reader α} {head : Placed} {rest : List Placed}
    (h : Settled size size' most again before (head :: rest) result)
    (same : ∀ rest, again' (head :: rest) = again (head :: rest)) :
    Settled size size' most again' before (head :: rest) result := by
  refine h.congr (Nat.le_refl _) fun tokens' _ alike => ?_
  obtain ⟨behind, rfl⟩ := exists_cons_of_sight alike
  exact same behind

theorem mono {most' : ℕ} (h : Settled size size' most again before tokens result)
    (fewer : most' ≤ most) : Settled size size' most' again before tokens result :=
  h.congr fewer fun _ _ _ => rfl

/-- Some tokens are taken first, each for a unit of the allowance. -/
theorem behind {again' : Reader α} (front : List Placed)
    (h : Settled size size' most again (before ++ front) tokens result)
    (reads : ∀ tokens, again' (front ++ tokens) = again tokens) :
    Settled size size' (most + front.length) again' before (front ++ tokens) result := by
  have further (taken rest : List Placed)
      (short : (front ++ taken ++ rest).length < most + front.length) :
      again' (front ++ taken ++ rest) = again (taken ++ rest) ∧ (taken ++ rest).length < most := by
    rw [List.append_assoc] at short ⊢
    rw [List.length_append] at short
    exact ⟨reads _, by omega⟩
  cases h with
  | ok value taken rest split recurs =>
    refine .ok value (front ++ taken) rest (by simp [split]) fun rest' short alike => ?_
    obtain ⟨same, short⟩ := further taken rest' short
    exact same.trans (recurs rest' short alike)
  | malformed fault taken rest notSign split recurs =>
    refine .malformed fault (front ++ taken) rest notSign (by simp [split])
      fun rest' short alike => ?_
    obtain ⟨same, short⟩ := further taken rest' short
    exact same.trans (recurs rest' short alike)
  | negatedTerm place more behind rest operand split sign derives notConstant =>
    refine .negatedTerm place (front ++ more) behind rest operand (by simp [split]) ?_ derives
      notConstant
    rwa [← List.append_assoc]
  | unknownFunction name => exact .unknownFunction name
  | invalidPoly fault => exact .invalidPoly fault

/-- Another reader goes on where the first one stops. -/
theorem bind {next nextAgain : α × List Placed → Except Stop (β × List Placed)}
    (h : Settled size size' most again before tokens result)
    (goesOn : ∀ {value taken rest}, tokens = taken ++ rest → result = .ok (value, rest) →
      Settled size size' most (fun rest => nextAgain (value, rest)) (before ++ taken) rest
        (next (value, rest))) :
    Settled size size' most (fun tokens => again tokens >>= nextAgain) before tokens
      (result >>= next) := by
  cases h with
  | ok value taken rest split recurs =>
    have behind := goesOn split rfl
    change Settled _ _ _ _ _ _ (next (value, rest))
    -- The first reader sees the tokens of the second behind its own, or else what is seen there.
    have both {more last last' : List Placed} (split' : rest = more ++ last)
        (short : (taken ++ more ++ last').length < most)
        (alike : sight size' last' = sight size last) :
        again (taken ++ more ++ last') >>= nextAgain = nextAgain (value, more ++ last') := by
      rw [List.append_assoc] at short ⊢
      rw [recurs _ short (split' ▸ sight_append alike more)]
      rfl
    generalize next (value, rest) = outcome at behind ⊢
    cases behind with
    | ok value' more last split' recurs' =>
      refine .ok value' (taken ++ more) last (by simp [split, split']) fun last' short alike => ?_
      rw [both split' short alike]
      exact recurs' last' (by simp at short ⊢; omega) alike
    | malformed fault more last notSign split' recurs' =>
      refine .malformed fault (taken ++ more) last notSign (by simp [split, split'])
        fun last' short alike => ?_
      rw [both split' short alike]
      exact recurs' last' (by simp at short ⊢; omega) alike
    | negatedTerm place front behind last operand split' sign derives notConstant =>
      refine .negatedTerm place (taken ++ front) behind last operand (by simp [split, split']) ?_
        derives notConstant
      rwa [← List.append_assoc]
    | unknownFunction name => exact .unknownFunction name
    | invalidPoly fault => exact .invalidPoly fault
  | malformed fault taken rest notSign split recurs =>
    refine .malformed fault taken rest notSign split fun rest' short alike => ?_
    rw [recurs rest' short alike]
    rfl
  | negatedTerm place front behind rest operand split sign derives notConstant =>
    exact .negatedTerm place front behind rest operand split sign derives notConstant
  | unknownFunction name => exact .unknownFunction name
  | invalidPoly fault => exact .invalidPoly fault

/-- A value for the tokens that are taken, whatever stands behind them. -/
theorem of_taken {value : α} (taken : List Placed) {rest : List Placed}
    (reads : ∀ rest, again (taken ++ rest) = .ok (value, rest)) :
    Settled size size' most again before (taken ++ rest) (.ok (value, rest)) :=
  .ok value taken rest rfl fun rest' _ _ => reads rest'

/-- A value for no tokens, since none are left. -/
theorem of_nil {value : α} (reads : again [] = .ok (value, [])) :
    Settled size size' most again before [] (.ok (value, [])) := by
  refine .ok value [] [] rfl fun rest' _ alike => ?_
  obtain ⟨rfl, -⟩ := eq_nil_of_sight alike
  exact reads

/-- A value for no tokens because of the next one, which is left. -/
theorem of_cons {value : α} {head : Placed} {rest : List Placed}
    (reads : ∀ rest, again (head :: rest) = .ok (value, head :: rest)) :
    Settled size size' most again before (head :: rest) (.ok (value, head :: rest)) := by
  refine .ok value [] (head :: rest) rfl fun rest' _ alike => ?_
  obtain ⟨behind, rfl⟩ := exists_cons_of_sight alike
  exact reads behind

/-- A fault at the end. -/
theorem of_fault_nil {fault : SyntaxFault}
    (reads : again [] = .error (.fault (.malformed size' fault))) (notSign : fault ≠ .negatedTerm) :
    Settled size size' most again before [] (.error (.fault (.malformed size fault))) := by
  refine .malformed fault [] [] notSign rfl fun rest' _ alike => ?_
  obtain ⟨rfl, rfl⟩ := eq_nil_of_sight alike
  exact reads

/-- A fault at a token. -/
theorem of_fault_cons {fault : SyntaxFault} {head : Placed} {rest : List Placed}
    (reads : ∀ rest, again (head :: rest) = .error (.fault (.malformed head.offset fault)))
    (notSign : fault ≠ .negatedTerm) :
    Settled size size' most again before (head :: rest)
      (.error (.fault (.malformed head.offset fault))) := by
  refine .malformed fault [] (head :: rest) notSign rfl fun rest' _ alike => ?_
  obtain ⟨behind, rfl⟩ := exists_cons_of_sight alike
  exact reads behind

/-- A value for the first token, or a fault at it, whatever stands behind it. -/
theorem of_head {read : Reader α} {head : Placed} {rest : List Placed}
    (reads : (∃ value, ∀ rest, read (head :: rest) = .ok (value, rest) ∧
        again (head :: rest) = .ok (value, rest)) ∨
      ∃ fault ≠ SyntaxFault.negatedTerm, ∀ rest,
        read (head :: rest) = .error (.fault (.malformed head.offset fault)) ∧
        again (head :: rest) = .error (.fault (.malformed head.offset fault))) :
    Settled size size' most again before (head :: rest) (read (head :: rest)) := by
  rcases reads with ⟨value, reads⟩ | ⟨fault, notSign, reads⟩
  · rw [(reads rest).1]
    exact of_taken [head] fun rest => (reads rest).2
  · rw [(reads rest).1]
    exact of_fault_cons (fun rest => (reads rest).2) notSign

end Settled

theorem Settles.mono {size size' limit most limit' most' : ℕ} {read again : Reader α}
    (h : Settles size size' limit most read again) (fewer : limit' ≤ limit)
    (fewer' : most' ≤ most) : Settles size size' limit' most' read again :=
  fun before tokens sign short => (h before tokens sign (by omega)).mono fewer'

section Combinators

variable {size size' most : ℕ} {before tokens : List Placed}

/-- A reader without a value. -/
def ofSkip (skip : List Placed → Except Stop (List Placed)) : Reader Unit := fun tokens =>
  (skip tokens).map ((), ·)

theorem ofSkip_eq_ok {skip : List Placed → Except Stop (List Placed)} {rest : List Placed} :
    ofSkip skip tokens = .ok ((), rest) ↔ skip tokens = .ok rest := by
  simp [ofSkip, map_eq_ok]

theorem skip_bind (skip : List Placed → Except Stop (List Placed)) (next : Reader α)
    (tokens : List Placed) :
    skip tokens >>= next = ofSkip skip tokens >>= fun result => next result.2 := by
  unfold ofSkip
  cases skip tokens <;> rfl

theorem Settled.bind_skip {skip skipAgain : List Placed → Except Stop (List Placed)}
    {next nextAgain : Reader α}
    (h : Settled size size' most (ofSkip skipAgain) before tokens (ofSkip skip tokens))
    (goesOn : ∀ {taken rest}, tokens = taken ++ rest → skip tokens = .ok rest →
      Settled size size' most nextAgain (before ++ taken) rest (next rest)) :
    Settled size size' most (fun tokens => skipAgain tokens >>= nextAgain) before tokens
      (skip tokens >>= next) := by
  simp only [skip_bind]
  exact h.bind fun split read => goesOn split (ofSkip_eq_ok.mp read)

theorem settled_expect (lexeme : Token) :
    Settled size size' most (ofSkip (expect size' lexeme)) before tokens
      (ofSkip (expect size lexeme) tokens) := by
  cases tokens with
  | nil => exact Settled.of_fault_nil rfl (by simp)
  | cons head rest =>
    by_cases same : head.token = lexeme
    · exact .of_head (.inl ⟨(), fun rest => by simp [ofSkip, expect, same, Except.map]⟩)
    · exact .of_head (.inr ⟨.unexpected (.token lexeme) (some head.token), by simp, fun rest => by
        simp [ofSkip, expect, same, Except.map, unexpected, offset]⟩)

/-- One given token behind a value. -/
theorem Settled.expect {again : Reader α} {result : Except Stop (α × List Placed)}
    (h : Settled size size' most again before tokens result) (lexeme : Token) (f : α → β) :
    Settled size size' most (fun tokens => do
      let (value, rest) ← again tokens
      let rest ← Reader.expect size' lexeme rest
      .ok (f value, rest)) before tokens (do
      let (value, rest) ← result
      let rest ← Reader.expect size lexeme rest
      .ok (f value, rest)) :=
  h.bind fun _ _ => (settled_expect lexeme).bind_skip fun _ _ => of_taken [] fun _ => rfl

theorem Settled.closed {inner again : Reader α}
    (h : Settled size size' most again before tokens (inner tokens)) :
    Settled size size' most (Reader.closed size' again) before tokens
      (Reader.closed size inner tokens) :=
  h.expect .rightParen id

/-- A function of a value. -/
theorem Settled.map {again : Reader α} {result : Except Stop (α × List Placed)}
    (h : Settled size size' most again before tokens result) (f : α → β) :
    Settled size size' most (fun tokens => do
      let (value, rest) ← again tokens
      .ok (f value, rest)) before tokens (do
      let (value, rest) ← result
      .ok (f value, rest)) :=
  h.bind fun _ _ => of_taken [] fun _ => rfl

end Combinators

section Chains

variable {operand : Reader α} {join? : Token → Option (α → α → α)} {left : α} {head : Placed}
  {rest tokens : List Placed}

theorem chainFrom_succ_cons {count : ℕ} {join : α → α → α} (joins : join? head.token = some join) :
    chainFrom operand join? (count + 1) left (head :: rest) = operand rest >>= fun (right, rest) =>
      chainFrom operand join? count (join left right) rest := by
  rw [chainFrom.eq_def]
  simp only [joins]

theorem chainFrom_of_stops {count : ℕ} (ends : ∀ head ∈ tokens.head?, join? head.token = none) :
    chainFrom operand join? count left tokens = .ok (left, tokens) := by
  cases tokens with
  | nil => rw [chainFrom]
  | cons head rest => simp [chainFrom, ends head rfl]

/-- The loop does the same with every count that suffices. -/
theorem chainFrom_eq_of_le {m n : ℕ} (shortens : ∀ {tokens value rest},
      operand tokens = .ok (value, rest) → rest.length ≤ tokens.length)
    (enough : tokens.length ≤ m) (enough' : tokens.length ≤ n) :
    chainFrom operand join? m left tokens = chainFrom operand join? n left tokens := by
  induction m generalizing n left tokens with
  | zero =>
    obtain rfl : tokens = [] := List.eq_nil_of_length_eq_zero (by omega)
    simp [chainFrom]
  | succ m ih =>
    cases tokens with
    | nil => simp [chainFrom]
    | cons head rest =>
      cases joins : join? head.token with
      | none =>
        have ends : ∀ first ∈ (head :: rest).head?, join? first.token = none := by simpa using joins
        rw [chainFrom_of_stops ends, chainFrom_of_stops ends]
      | some join =>
        obtain _ | n := n
        · simp at enough'
        simp only [List.length_cons] at enough enough'
        rw [chainFrom_succ_cons joins, chainFrom_succ_cons joins]
        cases read : operand rest with
        | error stop => rfl
        | ok result =>
          have fewer := shortens read
          exact ih (by omega) (by omega)

theorem chainFrom_length_cons {join : α → α → α} (shortens : ∀ {tokens value rest},
      operand tokens = .ok (value, rest) → rest.length ≤ tokens.length)
    (joins : join? head.token = some join) :
    chainFrom operand join? (head :: rest).length left (head :: rest) =
      operand rest >>= fun (right, rest) =>
        chainFrom operand join? rest.length (join left right) rest := by
  rw [List.length_cons, chainFrom_succ_cons joins]
  cases read : operand rest with
  | error stop => rfl
  | ok result => exact chainFrom_eq_of_le shortens (shortens read) (Nat.le_refl _)

variable {size size' limit most : ℕ} {again : Reader α} {before : List Placed}

theorem settled_chainFrom (settles : Settles size size' limit most operand again)
    (shortens : ∀ {tokens value rest}, operand tokens = .ok (value, rest) →
      rest.length ≤ tokens.length)
    (shortensAgain : ∀ {tokens value rest}, again tokens = .ok (value, rest) →
      rest.length ≤ tokens.length)
    (operators : ∀ {token join}, join? token = some join → token ∈ signPlaces)
    (short : tokens.length < limit) :
    Settled size size' most (fun tokens => chainFrom again join? tokens.length left tokens) before
      tokens (chainFrom operand join? tokens.length left tokens) := by
  induction measure : tokens.length using Nat.strong_induction_on
    generalizing left before tokens with
  | _ length ih =>
    subst measure
    cases tokens with
    | nil =>
      rw [chainFrom_of_stops (by simp)]
      exact .of_nil (chainFrom_of_stops (by simp))
    | cons head rest =>
      cases joins : join? head.token with
      | none =>
        rw [chainFrom_of_stops (by simpa using joins)]
        exact .of_cons fun rest => chainFrom_of_stops (by simpa using joins)
      | some join =>
        rw [chainFrom_length_cons shortens joins]
        simp only [List.length_cons] at short ih
        have first := settles.behind (operators joins) head.offset before rest (by omega)
        refine (Settled.behind [head] ?_ fun _ => chainFrom_length_cons shortensAgain joins).mono
          (Nat.le_succ _)
        refine first.bind fun {right taken behind} split _ => ?_
        have parts := congrArg List.length split
        rw [List.length_append] at parts
        exact ih behind.length (by omega) (by omega) rfl

theorem Settles.chain (settles : Settles size size' limit most operand again)
    (shortens : ∀ {tokens value rest}, operand tokens = .ok (value, rest) →
      rest.length ≤ tokens.length)
    (shortensAgain : ∀ {tokens value rest}, again tokens = .ok (value, rest) →
      rest.length ≤ tokens.length)
    (operators : ∀ {token join}, join? token = some join → token ∈ signPlaces) :
    Settles size size' limit most (Reader.chain operand join?) (Reader.chain again join?) := by
  intro before tokens sign short
  refine (settles before tokens sign short).bind fun split _ => ?_
  have parts := congrArg List.length split
  rw [List.length_append] at parts
  exact settled_chainFrom settles shortens shortensAgain operators (by omega)

end Chains

end DesignMatrix.Reader
