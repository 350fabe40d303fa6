import DesignMatrix.Proofs.SettledReadings

/-!
# The readings of formulas are settled

Every reader of the grammar looks at the first token behind those that it takes and at none beyond,
wherever it does not call another reader. So by induction on the allowance, what is read of a
formula is settled by the tokens up to the one at which a fault is found. In particular the
allowance is never exhausted.
-/

namespace DesignMatrix

open Outcomes Reader

variable {size size' limit most : ℕ} {before tokens : List Placed}

namespace Arith

variable {signed signedAgain : Reader Arith}

theorem settles_readSum (settles : Settles size size' limit most signed signedAgain)
    (sound : Sound .signed signed) (soundAgain : Sound .signed signedAgain) :
    Settles size size' limit most (readSum signed) (readSum signedAgain) := by
  have operators {chain : Chain} {token : Token} {join : Arith → Arith → Arith}
      (joins : chain.join? token = some join) : token ∈ signPlaces := by
    obtain ⟨mark, rfl, -⟩ := Chain.join?_eq_some_iff.mp joins
    cases mark <;> simp [Mark.token, signPlaces]
  have products := settles.chain (fun read => (sound read).length_le)
    (fun read => (soundAgain read).length_le) (@operators .product)
  exact products.chain (fun read => (sound_operandReader sound .sum read).length_le)
    (fun read => (sound_operandReader soundAgain .sum read).length_le) (@operators .sum)

theorem readAtom_call {signed : Reader Arith} {function : String} {place place' : ℕ}
    {rest : List Placed} {transform : Transform}
    (known : Transform.named? function = some transform) :
    readAtom size signed (⟨.name function, place⟩ :: ⟨.leftParen, place'⟩ :: rest) = (do
      let (argument, rest) ← closed size (readSum signed) rest
      .ok (.call transform argument, rest)) := by
  simp [readAtom, known]

theorem settled_readAtom (settles : Settles size size' limit most (readSum signed)
      (readSum signedAgain)) (short : tokens.length < limit + 1) :
    Settled size size' (most + 1) (readAtom size' signedAgain) before tokens
      (readAtom size signed tokens) := by
  cases tokens with
  | nil => exact Settled.of_fault_nil rfl (by simp)
  | cons head rest =>
    obtain ⟨token, place⟩ := head
    rw [List.length_cons] at short
    cases token with
    | number value text => exact .of_taken [_] fun _ => rfl
    | quoted source => exact .of_taken [_] fun _ => rfl
    | leftParen =>
      have isPlace : Token.leftParen ∈ signPlaces := by simp [signPlaces]
      have inner := settles.behind isPlace place before rest (by omega)
      exact inner.closed.behind [_] fun _ => rfl
    | name source =>
      cases rest with
      | nil =>
        refine Settled.ok (Arith.column source) [_] [] rfl fun rest' _ alike => ?_
        obtain ⟨rfl, -⟩ := eq_nil_of_sight alike
        rfl
      | cons second behind =>
        obtain ⟨token, place'⟩ := second
        rw [List.length_cons] at short
        cases token with
        | leftParen =>
          cases known : Transform.named? source with
          | none =>
            simp only [readAtom, known]
            exact .unknownFunction source
          | some transform =>
            have inner := settles (before ++ [⟨.name source, place⟩, ⟨.leftParen, place'⟩]) behind
              (by simp [SignPlace, signPlaces]) (by omega)
            rw [readAtom_call known]
            exact ((inner.closed.map (Arith.call transform)).behind [_, _]
              fun _ => readAtom_call known).mono (by simp)
        | _ =>
          refine Settled.ok (Arith.column source) [_] (_ :: behind) rfl fun rest' _ alike => ?_
          obtain ⟨behind', rfl⟩ := exists_cons_of_sight alike
          rfl
    | _ => exact Settled.of_fault_cons (fun _ => rfl) (by simp)

theorem settled_readPower (settles : Settles size size' limit most signed signedAgain)
    (settlesSum : Settles size size' limit most (readSum signed) (readSum signedAgain))
    (short : tokens.length < limit + 1) :
    Settled size size' (most + 1) (readPower size' signedAgain) before tokens
      (readPower size signed tokens) := by
  refine (settled_readAtom settlesSum short).bind fun {base taken rest} split _ => ?_
  have parts := congrArg List.length split
  rw [List.length_append] at parts
  cases rest with
  | nil => exact .of_nil rfl
  | cons head rest =>
    obtain ⟨token, place⟩ := head
    rw [List.length_cons] at parts
    have exponent (isPlace : token ∈ signPlaces) :=
      (settles.behind isPlace place (before ++ taken) rest (by omega)).map (binary .power base)
    cases token with
    | doubleStar => exact (exponent (by simp [signPlaces])).behind [_] fun _ => rfl
    | caret => exact (exponent (by simp [signPlaces])).behind [_] fun _ => rfl
    | _ => exact .of_cons fun _ => rfl

theorem settles_readSigned (fuel fuel' : ℕ) :
    Settles size size' fuel fuel' (readSigned size fuel) (readSigned size' fuel') := by
  induction fuel generalizing fuel' with
  | zero => exact fun _ _ _ short => absurd short (Nat.not_lt_zero _)
  | succ fuel ih =>
    intro before tokens sign short
    -- Both readers take a token for a unit, so the second one needs an allowance as well.
    suffices settled : ∀ fuel', Settled size size' (fuel' + 1) (readSigned size' (fuel' + 1)) before
        tokens (readSigned size (fuel + 1) tokens) by
      cases fuel' with
      | zero => exact (settled 0).zero
      | succ fuel' => exact settled fuel'
    intro fuel'
    have signed := ih fuel'
    have sums := settles_readSum signed (sound_readSigned fuel) (sound_readSigned fuel')
    have power : Settled size size' (fuel' + 1) (readPower size' (readSigned size' fuel')) before
        tokens (readPower size (readSigned size fuel) tokens) := settled_readPower signed sums short
    cases tokens with
    | nil => exact power.congr_nil rfl
    | cons head rest =>
      obtain ⟨token, place⟩ := head
      rw [List.length_cons] at short
      have operand (isPlace : token ∈ signPlaces) :=
        signed.behind isPlace place before rest (by omega)
      cases token with
      | plus => exact (operand (by simp [signPlaces])).behind [_] fun _ => rfl
      | minus =>
        exact ((operand (by simp [signPlaces])).map Arith.negate).behind [_] fun _ => rfl
      | _ => exact power.congr_cons fun _ => rfl

end Arith

namespace Tree

section Arguments

/-- A reader whose faults are all about the arguments of `poly`, and whose values do not depend on
what stands behind the tokens that it takes. -/
theorem settled_argument {α : Type} {read : Reader α}
    (faults : ∀ {stop}, read tokens = .error stop → ∃ fault, stop = .fault (.invalidPoly fault))
    (values : ∀ {value rest}, read tokens = .ok (value, rest) → ∃ taken, tokens = taken ++ rest ∧
      ∀ rest', read (taken ++ rest') = .ok (value, rest')) :
    Settled size size' most read before tokens (read tokens) := by
  cases outcome : read tokens with
  | error stop =>
    obtain ⟨fault, rfl⟩ := faults outcome
    exact .invalidPoly fault
  | ok result =>
    obtain ⟨taken, rfl, again⟩ := values outcome
    exact .of_taken taken again

theorem settled_readPolyColumn :
    Settled size size' most readPolyColumn before tokens (readPolyColumn tokens) := by
  refine settled_argument (fun h => ?_) fun h => ?_
  · unfold readPolyColumn at h
    (repeat' split at h) <;> cases h
    all_goals exact ⟨_, rfl⟩
  · obtain ⟨quoted, taken, rfl, spelled⟩ := readPolyColumn_eq_ok.mp h
    exact ⟨taken, rfl, fun rest' => readPolyColumn_eq_ok.mpr ⟨quoted, taken, rfl, spelled⟩⟩

theorem settled_readDegree :
    Settled size size' most readDegree before tokens (readDegree tokens) := by
  refine settled_argument (fun h => ?_) fun h => ?_
  · unfold readDegree at h
    (repeat' split at h) <;> cases h
    all_goals exact ⟨_, rfl⟩
  · obtain ⟨whole, ⟨taken, rfl, spelled⟩, natural⟩ := readDegree_eq_ok.mp h
    exact ⟨taken, rfl,
      fun rest' => readDegree_eq_ok.mpr ⟨whole, ⟨taken, rfl, spelled⟩, natural⟩⟩

theorem skipDegreeKey_of_ne {head : Placed} {rest : List Placed}
    (other : head.token ≠ .name "degree") :
    skipDegreeKey size (head :: rest) = .ok (head :: rest) := by
  rw [skipDegreeKey]
  rintro place rest' same
  cases same
  exact other rfl

theorem settled_skipDegreeKey :
    Settled size size' most (ofSkip (skipDegreeKey size')) before tokens
      (ofSkip (skipDegreeKey size) tokens) := by
  cases tokens with
  | nil => exact .of_nil rfl
  | cons head rest =>
    obtain ⟨token, place⟩ := head
    by_cases key : token = .name "degree"
    · subst key
      exact ((settled_expect .equals).behind [_] fun _ => rfl).mono (Nat.le_succ _)
    · rw [ofSkip, skipDegreeKey_of_ne key]
      exact .of_cons fun rest => by rw [ofSkip, skipDegreeKey_of_ne key]; rfl

/-- A key in front of a flag is skipped, whatever the flag and what follows it. -/
theorem exists_key_of_skipRawKey (tokens : List Placed) : ∃ key, tokens = key ++ skipRawKey tokens ∧
    ∀ {word : String} (place : ℕ) (rest : List Placed), (∃ raw, flag? word = some raw) →
      skipRawKey (key ++ ⟨.name word, place⟩ :: rest) = ⟨.name word, place⟩ :: rest := by
  unfold skipRawKey
  split
  · exact ⟨[_, _], rfl, fun _ _ _ => rfl⟩
  · refine ⟨[], rfl, fun {word} place rest isFlag => ?_⟩
    have notKey : word ≠ "raw" := by
      rintro rfl
      obtain ⟨raw, isFlag⟩ := isFlag
      cases isFlag
    simp [notKey]

theorem skipRawKey_eq_self (other : ∀ place place' behind,
      tokens ≠ ⟨.name "raw", place⟩ :: ⟨.equals, place'⟩ :: behind) :
    skipRawKey tokens = tokens := by
  unfold skipRawKey
  split
  · exact absurd rfl (other _ _ _)
  · rfl

theorem settled_readRaw : Settled size size' most readRaw before tokens (readRaw tokens) := by
  cases tokens with
  | nil => exact .of_nil rfl
  | cons head rest =>
    obtain ⟨token, place⟩ := head
    cases token with
    | comma =>
      obtain ⟨key, split, skips⟩ := exists_key_of_skipRawKey rest
      refine settled_argument (fun h => ?_) fun {raw behind} h => ?_
      · simp only [readRaw] at h
        (repeat' split at h) <;> cases h
        all_goals exact ⟨_, rfl⟩
      · simp only [readRaw] at h
        split at h
        · rename_i word place' behind' skipped
          split at h
          · rename_i isFlag
            cases h
            refine ⟨⟨.comma, place⟩ :: key ++ [⟨.name word, place'⟩], ?_, fun rest' => ?_⟩
            · rw [skipped] at split
              simpa using split
            · have again : skipRawKey (key ++ ⟨.name word, place'⟩ :: rest') = _ :=
                skips place' rest' ⟨raw, isFlag⟩
              simp [readRaw, again, isFlag]
          · cases h
        · cases h
    | _ => exact .of_cons fun _ => rfl

theorem settled_readPoly :
    Settled size size' most (readPoly size') before tokens (readPoly size tokens) := by
  refine settled_readPolyColumn.bind fun _ _ => ?_
  refine settled_skipDegreeKey.bind_skip fun _ _ => ?_
  refine settled_readDegree.bind fun _ _ => ?_
  exact settled_readRaw.expect .rightParen _

end Arguments

variable {signed signedAgain : Reader Tree} {arith arithAgain : Reader Arith}

theorem settles_readSum (settles : Settles size size' limit most signed signedAgain)
    (sound : Sound .signed signed) (soundAgain : Sound .signed signedAgain) :
    Settles size size' limit most (readSum signed) (readSum signedAgain) := by
  have operators {chain : Chain} {token : Token} {join : Tree → Tree → Tree}
      (joins : chain.join? token = some join) : token ∈ signPlaces := by
    obtain ⟨mark, rfl, -⟩ := Chain.join?_eq_some_iff.mp joins
    cases mark <;> simp [Mark.token, signPlaces]
  have interactions := settles.chain (fun read => (sound read).length_le)
    (fun read => (soundAgain read).length_le) (@operators .interaction)
  have products := interactions.chain
    (fun read => (sound_operandReader sound .product read).length_le)
    (fun read => (sound_operandReader soundAgain .product read).length_le) (@operators .product)
  exact products.chain (fun read => (sound_operandReader sound .sum read).length_le)
    (fun read => (sound_operandReader soundAgain .sum read).length_le) (@operators .sum)

theorem settled_readCall (function : String)
    (settled : Settled size size' most arithAgain before tokens (arith tokens)) :
    Settled size size' most (readCall size' arithAgain function) before tokens
      (readCall size arith function tokens) := by
  unfold readCall
  split
  · exact settled.closed.map fun value => factor (.ofArith value)
  split
  · exact settled_readPoly
  split
  · exact .unknownFunction function
  · rename_i transform known
    exact settled.closed.map fun argument => factor (.ofCall transform argument)

theorem settled_readAtom (settles : Settles size size' limit most (readSum signed)
      (readSum signedAgain)) (settlesArith : Settles size size' limit most arith arithAgain)
    (short : tokens.length < limit + 1) :
    Settled size size' (most + 1) (readAtom size' signedAgain arithAgain) before tokens
      (readAtom size signed arith tokens) := by
  cases tokens with
  | nil => exact Settled.of_fault_nil rfl (by simp)
  | cons head rest =>
    obtain ⟨token, place⟩ := head
    rw [List.length_cons] at short
    cases token with
    | number value text =>
      by_cases zero : natural? value = some 0
      · exact .of_head (.inl ⟨.zero, fun rest => by simp [readAtom, zero]⟩)
      by_cases one : natural? value = some 1
      · exact .of_head (.inl ⟨.one, fun rest => by simp [readAtom, one]⟩)
      · exact .of_head (.inr ⟨.bareNumber text, by simp, fun rest => by simp [readAtom]⟩)
    | quoted source => exact .of_taken [_] fun _ => rfl
    | leftParen =>
      have isPlace : Token.leftParen ∈ signPlaces := by simp [signPlaces]
      have inner := settles.behind isPlace place before rest (by omega)
      exact inner.closed.behind [_] fun _ => rfl
    | name source =>
      cases rest with
      | nil =>
        refine Settled.ok (Tree.factor (.ofColumn source)) [_] [] rfl fun rest' _ alike => ?_
        obtain ⟨rfl, -⟩ := eq_nil_of_sight alike
        rfl
      | cons second behind =>
        obtain ⟨token, place'⟩ := second
        rw [List.length_cons] at short
        cases token with
        | leftParen =>
          have inner := settlesArith (before ++ [⟨.name source, place⟩, ⟨.leftParen, place'⟩])
            behind (by simp [SignPlace, signPlaces]) (by omega)
          exact ((settled_readCall source inner).behind [_, _] fun _ => rfl).mono (by simp)
        | _ =>
          refine Settled.ok (Tree.factor (.ofColumn source)) [_] (_ :: behind) rfl
            fun rest' _ alike => ?_
          obtain ⟨behind', rfl⟩ := exists_cons_of_sight alike
          rfl
    | _ => exact Settled.of_fault_cons (fun _ => rfl) (by simp)

theorem settled_readOrder :
    Settled size size' most (readOrder size') before tokens (readOrder size tokens) := by
  cases tokens with
  | nil => exact Settled.of_fault_nil rfl (by simp)
  | cons head rest =>
    obtain ⟨token, place⟩ := head
    cases token with
    | number value text =>
      cases natural : natural? value with
      | none =>
        exact .of_head (.inr ⟨.orderNotNatural text, by simp, fun rest => by
          simp [readOrder, natural]⟩)
      | some order =>
        by_cases zero : order = 0
        · exact .of_head (.inr ⟨.orderZero, by simp, fun rest => by
            simp [readOrder, natural, zero]⟩)
        by_cases bounded : order ≤ maxOrder
        · exact .of_head (.inl ⟨order, fun rest => by simp [readOrder, natural, zero, bounded]⟩)
        · exact .of_head (.inr ⟨.orderNotNatural text, by simp, fun rest => by
            simp [readOrder, natural, zero, bounded]⟩)
    | _ => exact Settled.of_fault_cons (fun _ => rfl) (by simp)

theorem settled_readPower (settles : Settles size size' limit most (readSum signed)
      (readSum signedAgain)) (settlesArith : Settles size size' limit most arith arithAgain)
    (short : tokens.length < limit + 1) :
    Settled size size' (most + 1) (readPower size' signedAgain arithAgain) before tokens
      (readPower size signed arith tokens) := by
  refine (settled_readAtom settles settlesArith short).bind fun {base taken rest} split _ => ?_
  cases rest with
  | nil => exact .of_nil rfl
  | cons head rest =>
    obtain ⟨token, place⟩ := head
    have order : Settled size size' most _ (before ++ taken ++ [⟨token, place⟩]) rest _ :=
      settled_readOrder.map (power base)
    cases token with
    | doubleStar => exact order.behind [_] fun _ => rfl
    | caret => exact order.behind [_] fun _ => rfl
    | _ => exact .of_cons fun _ => rfl

/-- A sign is a fault if its operand is read and is no constant. Any other reading with a sign in
front is settled as that of the operand is. -/
theorem settled_minus {place : ℕ} {rest : List Placed} (sound : Sound .signed signed)
    (sign : SignPlace before)
    (operand : Settled size size' most signedAgain (before ++ [⟨.minus, place⟩]) rest (signed rest))
    {again : Reader Tree} (reads : ∀ rest, again (⟨.minus, place⟩ :: rest) = (do
      let (operand, rest) ← signedAgain rest
      if operand.isConstant then .ok (.negate operand, rest)
      else .error (.fault (.malformed place .negatedTerm)))) :
    Settled size size' (most + 1) again before (⟨.minus, place⟩ :: rest) (do
      let (operand, rest) ← signed rest
      if operand.isConstant then .ok (.negate operand, rest)
      else .error (.fault (.malformed place .negatedTerm))) := by
  by_cases rejected : ∃ operand behind,
      signed rest = .ok (operand, behind) ∧ operand.isConstant = false
  · obtain ⟨operand, behind, read, notConstant⟩ := rejected
    have result : (do
        let (operand, rest) ← signed rest
        if operand.isConstant then .ok (.negate operand, rest)
        else .error (.fault (.malformed place .negatedTerm)) : Except Stop (Tree × List Placed)) =
          .error (.fault (.malformed place .negatedTerm)) := by
      simp [read, notConstant, bind, Except.bind]
    rw [result]
    exact .negatedTerm place [] rest behind operand rfl (by simpa using sign) (sound read)
      notConstant
  · refine Settled.behind [_] (operand.bind fun {operand taken behind} split read => ?_) reads
    have isConstant : operand.isConstant = true := by
      by_contra notConstant
      exact rejected ⟨operand, behind, read, by simpa using notConstant⟩
    simp only [isConstant, if_true]
    exact .of_taken [] fun _ => rfl

theorem settles_readSigned (settlesArith : Settles size size' limit most arith arithAgain)
    (sound : Arith.Sound (.chain .sum) arith) (soundAgain : Arith.Sound (.chain .sum) arithAgain)
    (positive : 0 < most) {fuel fuel' : ℕ} (within : fuel ≤ limit) (within' : fuel' ≤ most) :
    Settles size size' fuel fuel' (readSigned size arith fuel)
      (readSigned size' arithAgain fuel') := by
  induction fuel generalizing fuel' with
  | zero => exact fun _ _ _ short => absurd short (Nat.not_lt_zero _)
  | succ fuel ih =>
    intro before tokens sign short
    suffices settled : ∀ fuel' < most, Settled size size' (fuel' + 1)
        (readSigned size' arithAgain (fuel' + 1)) before tokens
        (readSigned size arith (fuel + 1) tokens) by
      cases fuel' with
      | zero => exact (settled 0 positive).zero
      | succ fuel' => exact settled fuel' within'
    intro fuel' below
    have signed := @ih fuel' (by omega) (by omega)
    have sums := settles_readSum signed (sound_readSigned sound fuel)
      (sound_readSigned soundAgain fuel')
    have power : Settled size size' (fuel' + 1)
        (readPower size' (readSigned size' arithAgain fuel') arithAgain) before tokens
        (readPower size (readSigned size arith fuel) arith tokens) :=
      settled_readPower sums (settlesArith.mono (by omega) (by omega)) short
    cases tokens with
    | nil => exact power.congr_nil rfl
    | cons head rest =>
      obtain ⟨token, place⟩ := head
      rw [List.length_cons] at short
      have operand (isPlace : token ∈ signPlaces) :=
        signed.behind isPlace place before rest (by omega)
      cases token with
      | plus => exact (operand (by simp [signPlaces])).behind [_] fun _ => rfl
      | minus =>
        exact settled_minus (sound_readSigned sound fuel) sign (operand (by simp [signPlaces]))
          fun _ => rfl
      | _ => exact power.congr_cons fun _ => rfl

end Tree

namespace Formula

/-- Reads a formula with nothing behind it. -/
def readAll (size fuel : ℕ) : Reader Formula := fun tokens => do
  let (response, rest) ← readResponse size fuel tokens
  let (predictors, rest) ← readSide size fuel rest
  if rest.isEmpty then .ok (⟨response, predictors⟩, rest)
  else .error (unexpected size .endOfFormula rest)

variable {fuel fuel' : ℕ}

theorem ofTokens_eq_map : ofTokens size fuel tokens = (readAll size fuel tokens).map Prod.fst := by
  unfold ofTokens readAll
  cases readResponse size fuel tokens with
  | error stop => rfl
  | ok result =>
    obtain ⟨response, rest⟩ := result
    simp only [bind, Except.bind]
    cases readSide size fuel rest with
    | error stop => rfl
    | ok result =>
      obtain ⟨predictors, rest⟩ := result
      simp only
      split <;> rfl

theorem settles_readSide (positive : 0 < fuel') :
    Settles size size' fuel fuel' (readSide size fuel) (readSide size' fuel') := by
  have soundArith (size fuel : ℕ) :
      Arith.Sound (.chain .sum) (Arith.readSum (Arith.readSigned size fuel)) :=
    Arith.sound_readSum (Arith.sound_readSigned fuel)
  have arith : Settles size size' fuel fuel' (Arith.readSum (Arith.readSigned size fuel))
      (Arith.readSum (Arith.readSigned size' fuel')) :=
    Arith.settles_readSum (Arith.settles_readSigned fuel fuel') (Arith.sound_readSigned fuel)
      (Arith.sound_readSigned fuel')
  have signed := Tree.settles_readSigned arith (soundArith size fuel) (soundArith size' fuel')
    positive (Nat.le_refl fuel) (Nat.le_refl fuel')
  exact Tree.settles_readSum signed (Tree.sound_readSigned (soundArith size fuel) fuel)
    (Tree.sound_readSigned (soundArith size' fuel') fuel')

theorem settled_readResponse (positive : 0 < fuel') (short : tokens.length < fuel) :
    Settled size size' fuel' (readResponse size' fuel') [] tokens
      (readResponse size fuel tokens) := by
  have sides : Settles size size' fuel fuel' (readSide size fuel) (readSide size' fuel') :=
    settles_readSide positive
  have side := (sides [] tokens signPlace_nil short).expect .tilde some
  cases tokens with
  | nil => exact side.congr_nil rfl
  | cons head rest =>
    obtain ⟨token, place⟩ := head
    cases token with
    | tilde => exact .of_taken [_] fun _ => rfl
    | _ => exact side.congr_cons fun _ => rfl

/-- The tilde stands before the predictors. -/
theorem signPlace_of_readResponse {taken rest : List Placed} {response : Option Tree}
    (split : tokens = taken ++ rest)
    (h : readResponse size fuel tokens = .ok (response, rest)) : SignPlace taken := by
  obtain ⟨side, -, ⟨front, split', spelled⟩, -⟩ := exists_front_of_readResponse h
  obtain rfl : taken = front := List.append_cancel_right (split.symm.trans split')
  have tilde : (Phrase.front side).getLast? = some .tilde := by cases side <;> simp [Phrase.front]
  intro last isLast
  rw [← spelled, List.getLast?_map, isLast] at tilde
  rw [Option.some.inj tilde]
  simp [signPlaces]

theorem settled_readAll (positive : 0 < fuel') (short : tokens.length < fuel) :
    Settled size size' fuel' (readAll size' fuel') [] tokens (readAll size fuel tokens) := by
  refine (settled_readResponse positive short).bind fun {response taken rest} split read => ?_
  have parts := congrArg List.length split
  rw [List.length_append] at parts
  have sides : Settles size size' fuel fuel' (readSide size fuel) (readSide size' fuel') :=
    settles_readSide positive
  have side := sides ([] ++ taken) rest (signPlace_of_readResponse split read) (by omega)
  refine side.bind fun {predictors taken rest} split read => ?_
  cases rest with
  | nil => exact .of_nil rfl
  | cons head rest => exact Settled.of_fault_cons (fun _ => rfl) (by simp)

end Formula

end DesignMatrix
