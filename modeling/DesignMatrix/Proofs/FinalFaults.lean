import DesignMatrix.Proofs.SettledFormulas

/-!
# Faults of formulas are final

A fault is reported where it is seen: at a lexeme that is no token, at a sign in front of an operand
that may have none, or else at the first token that no continuation of the tokens before it can make
good.
-/

namespace DesignMatrix

open Outcomes Reader

section Sights

variable {size size' : ℕ}

theorem Reader.exists_sights_eq_cons (size : ℕ) (tokens : List Placed) :
    ∃ back, sights size tokens = sight size tokens :: back := by
  cases tokens with
  | nil => exact ⟨[], rfl⟩
  | cons head rest => exact ⟨sights size rest, rfl⟩

theorem Reader.exists_sights_append (size : ℕ) (taken rest : List Placed) : ∃ back,
    sights size (taken ++ rest) = taken.map Placed.sight ++ sight size rest :: back := by
  obtain ⟨back, looks⟩ := exists_sights_eq_cons size rest
  exact ⟨back, by rw [← looks]; simp [sights]⟩

/-- Where the same is seen up to a place, the tokens before it are the same. -/
theorem Reader.exists_append_of_prefix {taken rest others : List Placed}
    (h : taken.map Placed.sight ++ [sight size rest] <+: sights size' others) :
    ∃ rest', others = taken ++ rest' ∧ sight size' rest' = sight size rest := by
  induction taken generalizing others with
  | nil =>
    obtain ⟨back, looks⟩ := exists_sights_eq_cons size' others
    rw [looks] at h
    exact ⟨others, rfl, (List.cons_prefix_cons.mp h).1.symm⟩
  | cons head taken ih =>
    cases others with
    | nil => cases congrArg Sight.token? (List.cons_prefix_cons.mp h).1
    | cons other others =>
      obtain ⟨same, behind⟩ := List.cons_prefix_cons.mp h
      obtain rfl := Placed.sight_injective same
      obtain ⟨rest', rfl, alike⟩ := ih behind
      exact ⟨rest', rfl, alike⟩

/-- Where the offsets increase, what stands before an offset is determined by it. -/
theorem Sight.front_unique {sights front front' back back' : List Sight} {seen seen' : Sight}
    (increasing : sights.Pairwise fun seen later => seen.offset < later.offset)
    (split : sights = front ++ seen :: back) (split' : sights = front' ++ seen' :: back')
    (same : seen.offset = seen'.offset) : front = front' ∧ seen = seen' := by
  have isFront {front back : List Sight} {seen : Sight} (split : sights = front ++ seen :: back) :
      sights.takeWhile (·.offset < seen.offset) = front := by
    rw [split] at increasing ⊢
    obtain ⟨-, -, before⟩ := List.pairwise_append.mp increasing
    rw [List.takeWhile_append_of_pos fun earlier member => by
      simpa using before earlier member seen List.mem_cons_self]
    simp
  obtain rfl : front = front' := by rw [← isFront split, ← isFront split', same]
  exact ⟨rfl, (List.cons.inj (List.append_cancel_left (split.symm.trans split'))).1⟩

/-- A settled reading that ends with a fault other than that of a sign ends with it again. -/
theorem Reader.Settled.recurs_of_malformed {α : Type} {most place : ℕ} {again : Reader α}
    {before tokens : List Placed} {fault : SyntaxFault}
    (h : Settled size size' most again before tokens (.error (.fault (.malformed place fault))))
    (notSign : fault ≠ .negatedTerm) : ∃ taken rest, tokens = taken ++ rest ∧
      (sight size rest).offset = place ∧
      ∀ rest', (taken ++ rest').length < most → sight size' rest' = sight size rest →
        again (taken ++ rest') = .error (.fault (.malformed place fault)) := by
  cases h with
  | malformed fault taken rest _ split recurs => exact ⟨taken, rest, split, rfl, recurs⟩
  | negatedTerm => exact absurd rfl notSign

end Sights

namespace Formula

section Faults

variable {text : String} {tokens : List Placed} {place : ℕ} {fault : SyntaxFault}

theorem parse_eq_error (listed : Token.list text = .ok tokens) {error : FormulaError} :
    parse text = .error error ↔
      ∃ stop, readAll text.utf8ByteSize (allowance tokens) tokens = .error stop ∧
        errorOf text.utf8ByteSize stop = error := by
  simp only [parse, listed, ofTokens_eq_map, bind, Except.bind, mapError_eq_error, map_eq_error]

/-- What is read of a token list is settled for every other list with the allowance of that list. -/
theorem settled_allowance (size size' : ℕ) (tokens others : List Placed) :
    Settled size size' (allowance others) (readAll size' (allowance others)) [] tokens
      (readAll size (allowance tokens) tokens) :=
  settled_readAll (Nat.succ_pos _) (Nat.lt_succ_self _)

/-- The allowance suffices, so a fault of the parser is one that its reader has found. -/
theorem readAll_of_parse (listed : Token.list text = .ok tokens)
    (failed : parse text = .error (.malformed place fault)) :
    readAll text.utf8ByteSize (allowance tokens) tokens =
      .error (.fault (.malformed place fault)) := by
  obtain ⟨stop, read, same⟩ := (parse_eq_error listed).mp failed
  have settled := settled_allowance text.utf8ByteSize 0 tokens []
  rw [read] at settled ⊢
  cases stop with
  | fault error => exact congrArg (fun error => Except.error (Stop.fault error)) same
  | exhausted => cases settled

/-- A fault other than that of a sign is found again in every text with the same tokens up to what
is seen where it is reported. -/
theorem recurs_of_parse (listed : Token.list text = .ok tokens)
    (failed : parse text = .error (.malformed place fault)) (notSign : fault ≠ .negatedTerm)
    {other : String} {others : List Placed} (listed' : Token.list other = .ok others) :
    ∃ taken rest, tokens = taken ++ rest ∧ (sight text.utf8ByteSize rest).offset = place ∧
      (taken.map Placed.sight ++ [sight text.utf8ByteSize rest] <+:
        sights other.utf8ByteSize others → parse other = .error (.malformed place fault)) := by
  have settled := settled_allowance text.utf8ByteSize other.utf8ByteSize tokens others
  rw [readAll_of_parse listed failed] at settled
  obtain ⟨taken, rest, split, found, again⟩ := settled.recurs_of_malformed notSign
  refine ⟨taken, rest, split, found, fun agree => ?_⟩
  obtain ⟨rest', rfl, alike⟩ := exists_append_of_prefix agree
  exact (parse_eq_error listed').mpr ⟨_, again rest' (Nat.lt_succ_self _) alike, rfl⟩

/-- What is seen in a text stands at the end of a front of it. -/
theorem exists_front_of_mem_sights (listed : Token.list text = .ok tokens) {seen : Sight}
    (member : seen ∈ sights text.utf8ByteSize tokens) :
    ∃ front back, text = front ++ back ∧ front.utf8ByteSize = seen.offset := by
  obtain ⟨front, back, split, offset⟩ :=
    (Token.laid_iff.mpr ⟨tokens, listed, rfl⟩).exists_front member
  refine ⟨String.ofList front, String.ofList back, ?_, ?_⟩
  · rw [← String.ofList_append, ← split, String.ofList_toList]
  · rw [offset, ← String.utf8Len_toList, String.toList_ofList, List.nil_append]

/-- The fault of a sign is at a minus sign in front of an operand that is neither `0` nor `1`. -/
theorem exists_operand_of_parse (listed : Token.list text = .ok tokens)
    (failed : parse text = .error (.malformed place .negatedTerm)) :
    ∃ front behind rest operand, tokens = front ++ ⟨.minus, place⟩ :: behind ∧ SignPlace front ∧
      Tree.Derives .signed behind operand rest ∧ operand ≠ .zero ∧ operand ≠ .one := by
  have read := readAll_of_parse listed failed
  have settled := settled_allowance text.utf8ByteSize 0 tokens []
  rw [read] at settled
  cases settled with
  | malformed fault taken rest notSign => exact absurd rfl notSign
  | negatedTerm place front behind rest operand split sign derives notConstant =>
    have neither := Tree.isConstant_iff.not.mp (Bool.eq_false_iff.mp notConstant)
    exact ⟨front, behind, rest, operand, split, sign, derives, not_or.mp neither⟩

/-- A text without tokens has the fault of its first lexeme that is no token. -/
theorem exists_lexeme_of_list_error {error : FormulaError} (h : Token.list text = .error error) :
    ∃ front lexeme back fault, text = front ++ lexeme ++ back ∧
      Token.Offends fault lexeme.toList back.toList ∧
      error = .malformed front.utf8ByteSize fault ∧ ∃ tokens, Token.list front = .ok tokens := by
  obtain ⟨front, lexeme, back, fault, split, offends, same, placed, listed⟩ :=
    Token.exists_offends_of_listFrom h
  refine ⟨String.ofList front, String.ofList lexeme, String.ofList back, fault, ?_, ?_, ?_, placed,
    ?_⟩
  · rw [← String.ofList_append, ← String.ofList_append, ← split, String.ofList_toList]
  · simpa using offends
  · rw [same, ← String.utf8Len_toList, String.toList_ofList, Nat.zero_add]
  · rwa [Token.list, String.toList_ofList]

end Faults

/-- A fault other than that of a sign is reported at a token or at the end of the text, and all
texts with the same tokens up to there have it. A text without tokens has a fault at its first
lexeme that is no token. The fault of a sign is reported at a minus sign, which stands for itself,
in front of an operand that is no constant. -/
theorem parse_fault_final :
    (∀ (text : String) (tokens : List Placed) (place : ℕ) (fault : SyntaxFault),
      Token.list text = .ok tokens → parse text = .error (.malformed place fault) →
      fault ≠ .negatedTerm →
      (∃ seen ∈ sights text.utf8ByteSize tokens, seen.offset = place) ∧
      (∃ before after, text = before ++ after ∧ before.utf8ByteSize = place) ∧
      place ≤ text.utf8ByteSize ∧
      ∀ front seen back, sights text.utf8ByteSize tokens = front ++ seen :: back →
        seen.offset = place → ∀ (other : String) (others : List Placed),
        Token.list other = .ok others → front ++ [seen] <+: sights other.utf8ByteSize others →
        parse other = .error (.malformed place fault)) ∧
    (∀ (text : String) (error : FormulaError), Token.list text = .error error →
      parse text = .error error ∧ ∃ front lexeme back fault, text = front ++ lexeme ++ back ∧
        Token.Offends fault lexeme.toList back.toList ∧
        error = .malformed front.utf8ByteSize fault ∧ ∃ tokens, Token.list front = .ok tokens) ∧
    ∀ (text : String) (tokens : List Placed) (place : ℕ), Token.list text = .ok tokens →
      parse text = .error (.malformed place .negatedTerm) →
      ∃ front behind rest operand, tokens = front ++ ⟨.minus, place⟩ :: behind ∧
        SignPlace front ∧ Tree.Derives .signed behind operand rest ∧
        operand ≠ .zero ∧ operand ≠ .one := by
  refine ⟨fun text tokens place fault listed failed notSign => ?_, fun text error failed => ?_,
    fun text tokens place => exists_operand_of_parse⟩
  · obtain ⟨taken, rest, rfl, rfl, -⟩ := recurs_of_parse listed failed notSign listed
    obtain ⟨back, looks⟩ := exists_sights_append text.utf8ByteSize taken rest
    have member : sight text.utf8ByteSize rest ∈ sights text.utf8ByteSize (taken ++ rest) := by
      simp [looks]
    obtain ⟨before, after, split, size⟩ := exists_front_of_mem_sights listed member
    have within := congrArg String.utf8ByteSize split
    rw [String.utf8ByteSize_append] at within
    refine ⟨⟨_, member, rfl⟩, ⟨before, after, split, size⟩, by omega, ?_⟩
    intro front seen back' looks' found other others listed' agree
    obtain ⟨taken', rest', same, found', again⟩ := recurs_of_parse listed failed notSign listed'
    obtain ⟨back'', looks''⟩ := exists_sights_append text.utf8ByteSize taken' rest'
    have increasing := (Token.laid_iff.mpr ⟨_, listed, rfl⟩).pairwise_offset_lt
    obtain ⟨rfl, rfl⟩ := Sight.front_unique increasing looks' (same ▸ looks'')
      (found.trans found'.symm)
    exact again agree
  · exact ⟨by simp [parse, failed, bind, Except.bind], exists_lexeme_of_list_error failed⟩

/-- A star where a term is wanted, with nothing and with something behind it; a number with two
points; and a sign in front of a sum. -/
theorem parse_fault_of_star :
    (parse "größe ~ a + *" = .error (.malformed 14 (.unexpected .term (some .star))) ∧
      parse "größe ~ a + *(c" = .error (.malformed 14 (.unexpected .term (some .star)))) ∧
    parse "y ~ a:1.2.3" = .error (.malformed 6 (.invalidNumber "1.2.3")) ∧
    ∃ front behind rest operand, Token.list "y ~ b*-(a)" = .ok (front ++ ⟨.minus, 6⟩ :: behind) ∧
      SignPlace front ∧ Tree.Derives .signed behind operand rest ∧
      operand ≠ .zero ∧ operand ≠ .one := by
  have star : parse "größe ~ a + *" = .error (.malformed 14 (.unexpected .term (some .star))) :=
    map_eq_error.mp (by decide +kernel : (parse "größe ~ a + *").map (fun _ => ()) = _)
  have sign : parse "y ~ b*-(a)" = .error (.malformed 6 .negatedTerm) :=
    map_eq_error.mp (by decide +kernel : (parse "y ~ b*-(a)").map (fun _ => ()) = _)
  let front : List Placed := [⟨.name "größe", 0⟩, ⟨.tilde, 8⟩, ⟨.name "a", 10⟩, ⟨.plus, 12⟩]
  have listed : Token.list "größe ~ a + *" = .ok (front ++ [⟨.star, 14⟩]) := by decide +kernel
  have listed' : Token.list "größe ~ a + *(c" =
      .ok (front ++ [⟨.star, 14⟩, ⟨.leftParen, 15⟩, ⟨.name "c", 16⟩]) := by decide +kernel
  have listedSign : Token.list "y ~ b*-(a)" = .ok [⟨.name "y", 0⟩, ⟨.tilde, 2⟩, ⟨.name "b", 4⟩,
      ⟨.star, 5⟩, ⟨.minus, 6⟩, ⟨.leftParen, 7⟩, ⟨.name "a", 8⟩, ⟨.rightParen, 9⟩] := by
    decide +kernel
  obtain ⟨-, -, -, again⟩ := parse_fault_final.1 _ _ _ _ listed star (by simp)
  refine ⟨⟨star, ?_⟩, (parse_fault_final.2.1 _ _ (by decide +kernel)).1, ?_⟩
  · exact again (front.map Placed.sight) ⟨some .star, 14⟩ [⟨none, 15⟩] rfl rfl _ _ listed'
      ⟨[⟨some .leftParen, 15⟩, ⟨some (.name "c"), 16⟩, ⟨none, 17⟩], rfl⟩
  · obtain ⟨front, behind, rest, operand, split, found⟩ :=
      parse_fault_final.2.2 _ _ _ listedSign sign
    exact ⟨front, behind, rest, operand, split ▸ listedSign, found⟩

end Formula

end DesignMatrix
