import DesignMatrix.Proofs.CursorReadings
import DesignMatrix.Proofs.SettledFormulas

/-!
# The procedures follow their readers

Each procedure realizes its reader, and until it has taken a token it calls procedures of a lower
rank only.
-/

namespace DesignMatrix.Descent

open Program Reader

/-- A procedure that has taken no token calls only those of a lower rank. -/
def Procedure.rank : Procedure → ℕ
  | .term (.chain .sum) | .term (.call _) => 5
  | .term (.chain .product) | .arith (.chain .sum) => 4
  | .term (.chain .interaction) | .arith (.chain .product) => 3
  | .term .signed | .arith .signed => 2
  | .term .power | .arith .power => 1
  | .term .atom | .arith .atom | .term (.chainFrom _ _) | .arith (.chainFrom _ _) => 0

/-- A token has been taken since the start, or the procedure has a lower rank. -/
def Below (start rank : ℕ) (procedure : Procedure) (cursor : ℕ) : Prop :=
  start < cursor ∨ start = cursor ∧ procedure.rank < rank

theorem Below.of_le {start rank cursor : ℕ} {procedure : Procedure} (forward : start ≤ cursor)
    (lower : procedure.rank < rank) : Below start rank procedure cursor :=
  forward.lt_or_eq.imp_right (⟨·, lower⟩)

namespace Realizes

variable {size : ℕ} {tokens : List Placed} {allowed : Procedure → ℕ → Prop} {start cursor : ℕ}
  {rest : List Placed}

/-- A round of a chain, given that the procedures behind its operator do what they should. -/
theorem round {α : Type} {join? : Token → Option (α → α → α)} {operand : Reader α}
    {program : Program α} {more : α → Program α} {left : α} (position : At tokens start rest)
    (shortens : ∀ {tokens value rest}, operand tokens = .ok (value, rest) →
      rest.length ≤ tokens.length)
    (operands : ∀ {cursor rest'}, start < cursor → At tokens cursor rest' →
      Realizes size tokens allowed cursor program cursor (operand rest'))
    (goesOn : ∀ {left cursor rest'}, start < cursor → At tokens cursor rest' →
      Realizes size tokens allowed start (more left) cursor
        (chainFrom operand join? rest'.length left rest')) :
    Realizes size tokens allowed start (Program.round join? program more left) start
      (chainFrom operand join? rest.length left rest) := by
  cases rest with
  | nil =>
    rw [chainFrom_of_stops (by simp)]
    exact here_nil position (ret le_rfl position)
  | cons head behind =>
    cases joins : join? head.token with
    | none =>
      rw [chainFrom_of_stops (by simpa using joins)]
      refine here_cons position ?_
      simp only [Option.bind_some, joins]
      exact ret le_rfl position
    | some join =>
      rw [chainFrom_length_cons shortens joins]
      refine here_cons position ?_
      simp only [Option.bind_some, joins]
      refine take_cons position ?_
      refine (operands (Nat.lt_succ_self start) position.next).bind fun _ forward position' => ?_
      exact goesOn forward position'

end Realizes

namespace ArithProcedure

variable {size fuel : ℕ} {tokens rest : List Placed} {allowed : Procedure → ℕ → Prop}
  {start cursor : ℕ}

theorem realizes_perform {procedure : ArithProcedure} (may : allowed (.arith procedure) cursor)
    (forward : start ≤ cursor) (position : At tokens cursor rest) (enough : rest.length < fuel) :
    Realizes size tokens allowed start (perform (.arith procedure)) cursor
      (procedure.reader size fuel rest) :=
  .perform may forward position ⟨fuel, enough, rfl⟩

theorem reader_operand (kind : Arith.Chain) :
    (operand kind).reader size fuel = kind.operandReader (Arith.readSigned size fuel) := by
  cases kind <;> rfl

theorem rank_operand (kind : Arith.Chain) :
    (Procedure.arith (operand kind)).rank < (Procedure.arith (.chain kind)).rank := by
  cases kind <;> decide

theorem realizes_chain (kind : Arith.Chain) (position : At tokens start rest)
    (enough : rest.length < fuel) :
    Realizes size tokens (Below start (Procedure.arith (.chain kind)).rank) start
      (body (.chain kind)) start (reader size fuel (.chain kind) rest) := by
  have lower := rank_operand kind
  rw [reader, ← reader_operand]
  refine .bind (realizes_perform (.of_le le_rfl lower) le_rfl position enough)
    fun _ forward position' => ?_
  -- An operand need not be known to take a token: what follows it has the lowest rank.
  have fewer := position.length_le position' forward
  rw [reader_operand]
  exact realizes_perform (.of_le forward (Nat.zero_lt_of_lt lower)) forward position' (by omega)

theorem realizes_chainFrom (kind : Arith.Chain) (left : Arith) (position : At tokens start rest)
    (enough : rest.length < fuel) :
    Realizes size tokens (Below start (Procedure.arith (.chainFrom kind left)).rank) start
      (body (.chainFrom kind left)) start (reader size fuel (.chainFrom kind left) rest) := by
  rw [body, reader]
  refine .round position (fun read => ?_) (fun forward position' => ?_)
    fun forward position' => ?_
  · exact Arith.shortens_operandReader read
  · have fewer := position.length_lt position' forward
    rw [← reader_operand]
    exact realizes_perform (.inl forward) le_rfl position' (by omega)
  · have fewer := position.length_lt position' forward
    exact realizes_perform (.inl forward) forward.le position' (by omega)

theorem realizes_signed (position : At tokens start rest) (enough : rest.length < fuel) :
    Realizes size tokens (Below start (Procedure.arith .signed).rank) start signedBody start
      (Arith.readSigned size fuel rest) := by
  obtain ⟨fuel, rfl⟩ : ∃ more, fuel = more + 1 := ⟨fuel - 1, by omega⟩
  have unsigned (other : ∀ head ∈ rest.head?, head.token ≠ .plus ∧ head.token ≠ .minus) :
      Realizes size tokens (Below start (Procedure.arith .signed).rank) start signedBody start
        (Arith.readSigned size (fuel + 1) rest) := by
    have power : Realizes size tokens (Below start (Procedure.arith .signed).rank) start
        (perform (.arith .power)) start (reader size (fuel + 1) .power rest) :=
      realizes_perform (.of_le le_rfl (by decide)) le_rfl position enough
    rw [Arith.readSigned_succ other]
    refine .eat_other position (fun head first => (other head first).1) ?_
    exact .eat_other position (fun head first => (other head first).2) power
  cases rest with
  | nil => exact unsigned (by simp)
  | cons head behind =>
    obtain ⟨token, place⟩ := head
    simp only [List.length_cons] at enough
    have forward := Nat.lt_succ_self start
    cases token with
    | plus =>
      refine .eat_cons position ?_
      exact realizes_perform (.inl forward) forward.le position.next (by omega)
    | minus =>
      refine .eat_other position (by simp) (.eat_cons position ?_)
      refine .bind (realizes_perform (.inl forward) forward.le position.next (by omega))
        fun _ forward' position' => ?_
      exact .ret forward' position'
    | _ => exact unsigned (by simp)

theorem realizes_power (position : At tokens start rest) (enough : rest.length < fuel) :
    Realizes size tokens (Below start (Procedure.arith .power).rank) start powerBody start
      (Arith.readPower size (Arith.readSigned size (fuel - 1)) rest) := by
  refine .bind (realizes_perform (.of_le le_rfl (by decide)) le_rfl position enough)
    fun {base rest'} cursor _ forward position' => ?_
  have fewer := position.length_le position' forward
  cases rest' with
  | nil => exact .here_nil position' (.ret forward position')
  | cons head behind =>
    obtain ⟨token, place⟩ := head
    simp only [List.length_cons] at fewer
    refine .here_cons position' ?_
    cases token with
    | doubleStar | caret =>
      refine .take_cons position' ?_
      refine .bind (realizes_perform (.inl (Nat.lt_succ_of_le forward)) le_rfl position'.next
        (by omega)) fun _ forward' position'' => ?_
      exact .ret (by omega) position''
    | _ => exact .ret forward position'

theorem realizes_closed (may : allowed (.arith (.chain .sum)) cursor) (forward : start ≤ cursor)
    (position : At tokens cursor rest) (enough : rest.length < fuel) :
    Realizes size tokens allowed start (closed (perform (.arith (.chain .sum)))) cursor
      (Reader.closed size (arithmetic size fuel) rest) :=
  .closed (realizes_perform may forward position enough)

theorem realizes_atom (position : At tokens start rest) (enough : rest.length < fuel) :
    Realizes size tokens (Below start (Procedure.arith .atom).rank) start atomBody start
      (Arith.readAtom size (Arith.readSigned size (fuel - 1)) rest) := by
  cases rest with
  | nil => exact .take_nil position (.fail_behind ((Nat.sub_le start 1).trans position.within))
  | cons head behind =>
    obtain ⟨token, place⟩ := head
    simp only [List.length_cons] at enough
    have forward := Nat.lt_succ_self start
    refine .take_cons position ?_
    cases token with
    | number value text => exact .ret forward.le position.next
    | quoted source => exact .ret forward.le position.next
    | leftParen => exact realizes_closed (.inl forward) forward.le position.next (by omega)
    | name source =>
      cases behind with
      | nil => exact .eat_other position.next (by simp) (.ret forward.le position.next)
      | cons second behind =>
        obtain ⟨token, place'⟩ := second
        simp only [List.length_cons] at enough
        cases token with
        | leftParen =>
          refine .eat_cons position.next ?_
          cases known : Transform.named? source with
          | none =>
            simp only [Arith.readAtom, known]
            exact .fail position.next.next.within
          | some transform =>
            rw [Arith.readAtom_call known]
            have further : start < start + 1 + 1 := by omega
            refine .bind (realizes_closed (.inl further) further.le position.next.next (by omega))
              fun _ forward' position' => ?_
            exact .ret forward' position'
        | _ => exact .eat_other position.next (by simp) (.ret forward.le position.next)
    | _ => exact .fail_behind position.within

theorem realizes_body (procedure : ArithProcedure) (position : At tokens start rest)
    (enough : rest.length < fuel) :
    Realizes size tokens (Below start (Procedure.arith procedure).rank) start procedure.body start
      (procedure.reader size fuel rest) := by
  cases procedure with
  | chain kind => exact realizes_chain kind position enough
  | chainFrom kind left => exact realizes_chainFrom kind left position enough
  | signed => exact realizes_signed position enough
  | power => exact realizes_power position enough
  | atom => exact realizes_atom position enough

end ArithProcedure

namespace TermProcedure

variable {size fuel fuel' : ℕ} {tokens rest : List Placed} {allowed : Procedure → ℕ → Prop}
  {start cursor : ℕ}

theorem realizes_perform {procedure : TermProcedure} (may : allowed (.term procedure) cursor)
    (forward : start ≤ cursor) (position : At tokens cursor rest) (enough : rest.length < fuel)
    (enough' : rest.length < fuel') :
    Realizes size tokens allowed start (perform (.term procedure)) cursor
      (procedure.reader size fuel (arithmetic size fuel') rest) :=
  .perform may forward position ⟨fuel, enough, fuel', enough', rfl⟩

theorem reader_operand {arith : Reader Arith} (kind : Tree.Chain) :
    (operand kind).reader size fuel arith =
      kind.operandReader (Tree.readSigned size arith fuel) := by
  cases kind <;> rfl

theorem rank_operand (kind : Tree.Chain) :
    (Procedure.term (operand kind)).rank < (Procedure.term (.chain kind)).rank := by
  cases kind <;> decide

theorem realizes_chain (kind : Tree.Chain) (position : At tokens start rest)
    (enough : rest.length < fuel) (enough' : rest.length < fuel') :
    Realizes size tokens (Below start (Procedure.term (.chain kind)).rank) start
      (body (.chain kind)) start (reader size fuel (arithmetic size fuel') (.chain kind) rest) := by
  have lower := rank_operand kind
  rw [reader, ← reader_operand]
  refine .bind (realizes_perform (.of_le le_rfl lower) le_rfl position enough enough')
    fun _ forward position' => ?_
  have fewer := position.length_le position' forward
  rw [reader_operand]
  exact realizes_perform (.of_le forward (Nat.zero_lt_of_lt lower)) forward position' (by omega)
    (by omega)

theorem realizes_chainFrom (kind : Tree.Chain) (left : Tree) (position : At tokens start rest)
    (enough : rest.length < fuel) (enough' : rest.length < fuel') :
    Realizes size tokens (Below start (Procedure.term (.chainFrom kind left)).rank) start
      (body (.chainFrom kind left)) start
      (reader size fuel (arithmetic size fuel') (.chainFrom kind left) rest) := by
  rw [body, reader]
  refine .round position (fun read => ?_) (fun forward position' => ?_)
    fun forward position' => ?_
  · have sound : Arith.Sound (.chain .sum) (arithmetic size fuel') :=
      Arith.sound_readSum (Arith.sound_readSigned fuel')
    exact Tree.shortens_operandReader sound read
  · have fewer := position.length_lt position' forward
    rw [← reader_operand]
    exact realizes_perform (.inl forward) le_rfl position' (by omega) (by omega)
  · have fewer := position.length_lt position' forward
    exact realizes_perform (.inl forward) forward.le position' (by omega) (by omega)

theorem realizes_signed (position : At tokens start rest) (enough : rest.length < fuel)
    (enough' : rest.length < fuel') :
    Realizes size tokens (Below start (Procedure.term .signed).rank) start signedBody start
      (Tree.readSigned size (arithmetic size fuel') fuel rest) := by
  obtain ⟨fuel, rfl⟩ : ∃ more, fuel = more + 1 := ⟨fuel - 1, by omega⟩
  have unsigned (other : ∀ head ∈ rest.head?, head.token ≠ .plus ∧ head.token ≠ .minus) :
      Realizes size tokens (Below start (Procedure.term .signed).rank) start signedBody start
        (Tree.readSigned size (arithmetic size fuel') (fuel + 1) rest) := by
    have power : Realizes size tokens (Below start (Procedure.term .signed).rank) start
        (perform (.term .power)) start
        (reader size (fuel + 1) (arithmetic size fuel') .power rest) :=
      realizes_perform (.of_le le_rfl (by decide)) le_rfl position enough enough'
    rw [Tree.readSigned_succ other]
    refine .here_sight position ?_
    refine .eat_other position (fun head first => (other head first).1) ?_
    exact .eat_other position (fun head first => (other head first).2) power
  cases rest with
  | nil => exact unsigned (by simp)
  | cons head behind =>
    obtain ⟨token, place⟩ := head
    simp only [List.length_cons] at enough enough'
    have forward := Nat.lt_succ_self start
    cases token with
    | plus =>
      refine .here_cons position (.eat_cons position ?_)
      exact realizes_perform (.inl forward) forward.le position.next (by omega) (by omega)
    | minus =>
      refine .here_cons position (.eat_other position (by simp) (.eat_cons position ?_))
      refine .bind (realizes_perform (.inl forward) forward.le position.next (by omega)
        (by omega)) fun {operand _ _} _ forward' position' => ?_
      cases constant : operand.isConstant with
      | true =>
        simp only [constant, if_true]
        exact .ret forward' position'
      | false =>
        simp only [constant, Bool.false_eq_true, if_false]
        exact .fail position'.within
    | _ => exact unsigned (by simp)

theorem realizes_order (forward : start ≤ cursor) (position : At tokens cursor rest) :
    Realizes size tokens allowed start order cursor (Tree.readOrder size rest) := by
  rw [order, integer, bind_assoc]
  refine .here_sight position ?_
  rw [bind_assoc]
  cases rest with
  | nil => exact .take_nil position (.fail position.within)
  | cons head behind =>
    obtain ⟨token, place⟩ := head
    have behindToken := position.next
    refine .take_cons position ?_
    cases token with
    | number value text =>
      cases natural : natural? value with
      | none =>
        simp only [Tree.readOrder, natural]
        exact .fail behindToken.within
      | some order =>
        simp only [Tree.readOrder, natural]
        -- The program finds out that an order is zero only after it has taken it.
        by_cases zero : order = 0
        · subst zero
          rw [if_pos (Nat.zero_le maxOrder), if_pos rfl]
          exact .look_behind position (.fail behindToken.within)
        · rw [if_neg zero]
          split
          · change Realizes size tokens allowed start (if order = 0 then _ else _) _ _
            rw [if_neg zero]
            exact .ret (by omega) behindToken
          · exact .fail behindToken.within
    | _ => exact .fail behindToken.within

theorem realizes_power (position : At tokens start rest) (enough : rest.length < fuel)
    (enough' : rest.length < fuel') :
    Realizes size tokens (Below start (Procedure.term .power).rank) start powerBody start
      (Tree.readPower size (Tree.readSigned size (arithmetic size fuel') (fuel - 1))
        (arithmetic size fuel') rest) := by
  refine .bind (realizes_perform (.of_le le_rfl (by decide)) le_rfl position enough enough')
    fun {base rest'} cursor _ forward position' => ?_
  cases rest' with
  | nil => exact .here_nil position' (.ret forward position')
  | cons head behind =>
    obtain ⟨token, place⟩ := head
    refine .here_cons position' ?_
    cases token with
    | doubleStar | caret =>
      refine .take_cons position' ?_
      refine .bind (realizes_order (forward.trans (Nat.le_succ cursor)) position'.next)
        fun _ forward' position'' => ?_
      exact .ret forward' position''
    | _ => exact .ret forward position'

section Arguments

theorem realizes_polyColumn (position : At tokens cursor rest) :
    Realizes size tokens allowed cursor polyColumn cursor (Tree.readPolyColumn rest) := by
  cases rest with
  | nil => exact .take_nil position (.fail position.within)
  | cons head behind =>
    obtain ⟨token, place⟩ := head
    have behindToken := position.next
    refine .take_cons position ?_
    cases token with
    | name source | quoted source =>
      cases behind with
      | nil => exact .eat_other behindToken (by simp) (.fail behindToken.within)
      | cons second behind =>
        obtain ⟨token, place'⟩ := second
        cases token with
        | comma => exact .eat_cons behindToken (.ret (by omega) behindToken.next)
        | _ => exact .eat_other behindToken (by simp) (.fail behindToken.within)
    | _ => exact .fail behindToken.within

theorem realizes_degreeKey (position : At tokens cursor rest) :
    Realizes size tokens allowed cursor degreeKey cursor
      (ofSkip (Tree.skipDegreeKey size) rest) := by
  cases rest with
  | nil => exact .eat_other position (by simp) (.ret le_rfl position)
  | cons head behind =>
    obtain ⟨token, place⟩ := head
    by_cases key : token = .name "degree"
    · subst key
      exact .eat_cons position (.expect (Nat.le_succ cursor) position.next)
    · rw [ofSkip, Tree.skipDegreeKey_of_ne key]
      exact .eat_other position (by simpa using key) (.ret le_rfl position)

theorem realizes_degree (position : At tokens cursor rest) :
    Realizes size tokens allowed cursor degree cursor (Tree.readDegree rest) := by
  cases rest with
  | nil => exact .take_nil position (.fail position.within)
  | cons head behind =>
    obtain ⟨token, place⟩ := head
    have behindToken := position.next
    refine .take_cons position ?_
    cases token with
    | number value text =>
      cases isDegree : Tree.degree? value with
      | none =>
        simp only [Tree.readDegree, isDegree]
        exact .fail behindToken.within
      | some degree =>
        simp only [Tree.readDegree, isDegree]
        exact .ret (Nat.le_succ cursor) behindToken
    | _ => exact .fail behindToken.within

theorem realizes_rawKey (position : At tokens cursor rest) :
    Realizes size tokens allowed cursor rawKey cursor (.ok ((), Tree.skipRawKey rest)) := by
  cases rest with
  | nil => exact .here_nil position (.ret le_rfl position)
  | cons head behind =>
    obtain ⟨token, place⟩ := head
    refine .here_cons position ?_
    by_cases key : token = .name "raw"
    · subst key
      rw [if_pos rfl]
      refine .look_ahead position ?_
      cases behind with
      | nil => exact .ret le_rfl position
      | cons second behind =>
        obtain ⟨token, place'⟩ := second
        by_cases equals : token = .equals
        · subst equals
          refine .take_cons position (.take_cons position.next ?_)
          exact .ret (by omega) position.next.next
        · rw [if_neg (by simpa [sight] using equals), Tree.skipRawKey_eq_self (by simp [equals])]
          exact .ret le_rfl position
    · rw [if_neg (by simpa using key), Tree.skipRawKey_eq_self (by simp [key])]
      exact .ret le_rfl position

theorem realizes_raw (position : At tokens cursor rest) :
    Realizes size tokens allowed cursor raw cursor (Tree.readRaw rest) := by
  cases rest with
  | nil => exact .eat_other position (by simp) (.ret le_rfl position)
  | cons head behind =>
    obtain ⟨token, place⟩ := head
    cases token with
    | comma =>
      refine .eat_cons position (.bind_ok (realizes_rawKey position.next) ?_)
      intro cursor' forward position'
      simp only [Tree.readRaw]
      generalize Tree.skipRawKey behind = flag at position' ⊢
      cases flag with
      | nil => exact .take_nil position' (.fail position'.within)
      | cons head behind =>
        obtain ⟨token, place⟩ := head
        refine .take_cons position' ?_
        cases token with
        | name word =>
          cases isFlag : Tree.flag? word with
          | none =>
            simp only [isFlag]
            exact .fail position'.next.within
          | some raw =>
            simp only [isFlag]
            exact .ret (by omega) position'.next
        | _ => exact .fail position'.next.within
    | _ => exact .eat_other position (by simp) (.ret le_rfl position)

theorem realizes_poly (position : At tokens cursor rest) :
    Realizes size tokens allowed cursor polyBody cursor (Tree.readPoly size rest) := by
  refine .bind (realizes_polyColumn position) fun _ forward position => ?_
  refine .bind_skip (realizes_degreeKey position) fun _ forward' position => ?_
  refine .bind (realizes_degree position) fun _ forward'' position => ?_
  refine .bind (realizes_raw position) fun _ further position => ?_
  exact .bind_skip (.expect le_rfl position) fun _ last position => .ret (by omega) position

end Arguments

theorem realizes_call (function : String) (position : At tokens start rest)
    (enough' : rest.length < fuel') :
    Realizes size tokens (Below start (Procedure.term (.call function)).rank) start
      (callBody function) start (Tree.readCall size (arithmetic size fuel') function rest) := by
  have lower : (Procedure.arith (.chain .sum)).rank < (Procedure.term (.call function)).rank := by
    simp [Procedure.rank]
  have argument : Realizes size tokens (Below start (Procedure.term (.call function)).rank) start
      (closed (perform (.arith (.chain .sum)))) start
      (Reader.closed size (arithmetic size fuel') rest) :=
    ArithProcedure.realizes_closed (.of_le le_rfl lower) le_rfl position enough'
  unfold callBody Tree.readCall
  by_cases identity : function = "I"
  · rw [if_pos identity, if_pos identity]
    exact argument.bind fun _ forward position' => .ret forward position'
  rw [if_neg identity, if_neg identity]
  by_cases poly : function = "poly"
  · rw [if_pos poly, if_pos poly]
    exact realizes_poly position
  rw [if_neg poly, if_neg poly]
  cases Transform.named? function with
  | none => exact .fail position.within
  | some transform => exact argument.bind fun _ forward position' => .ret forward position'

theorem realizes_atom (position : At tokens start rest) (enough : rest.length < fuel)
    (enough' : rest.length < fuel') :
    Realizes size tokens (Below start (Procedure.term .atom).rank) start atomBody start
      (Tree.readAtom size (Tree.readSigned size (arithmetic size fuel') (fuel - 1))
        (arithmetic size fuel') rest) := by
  cases rest with
  | nil => exact .take_nil position (.fail_behind ((Nat.sub_le start 1).trans position.within))
  | cons head behind =>
    obtain ⟨token, place⟩ := head
    simp only [List.length_cons] at enough enough'
    have forward := Nat.lt_succ_self start
    have behindToken := position.next
    refine .take_cons position ?_
    cases token with
    | leftParen =>
      exact .closed (realizes_perform (.inl forward) forward.le behindToken (by omega) (by omega))
    | number value text =>
      rcases natural : natural? value with _ | _ | _ | more <;> simp only [Tree.readAtom, natural]
      · exact .fail behindToken.within
      · exact .ret forward.le behindToken
      · exact .ret forward.le behindToken
      · exact .fail behindToken.within
    | quoted source => exact .ret forward.le behindToken
    | name source =>
      cases behind with
      | nil => exact .eat_other behindToken (by simp) (.ret forward.le behindToken)
      | cons second behind =>
        obtain ⟨token, place'⟩ := second
        simp only [List.length_cons] at enough enough'
        cases token with
        | leftParen =>
          refine .eat_cons behindToken ?_
          have fewer : behind.length < fuel := by omega
          exact realizes_perform (.inl (by omega)) (by omega) behindToken.next fewer (by omega)
        | _ => exact .eat_other behindToken (by simp) (.ret forward.le behindToken)
    | _ => exact .fail_behind position.within

theorem realizes_body (procedure : TermProcedure) (position : At tokens start rest)
    (enough : rest.length < fuel) (enough' : rest.length < fuel') :
    Realizes size tokens (Below start (Procedure.term procedure).rank) start procedure.body start
      (procedure.reader size fuel (arithmetic size fuel') rest) := by
  cases procedure with
  | chain kind => exact realizes_chain kind position enough enough'
  | chainFrom kind left => exact realizes_chainFrom kind left position enough enough'
  | signed => exact realizes_signed position enough enough'
  | power => exact realizes_power position enough enough'
  | atom => exact realizes_atom position enough enough'
  | call function => exact realizes_call function position enough'

end TermProcedure

/-- The text of every procedure realizes its reader. -/
theorem Procedure.realizes_body {size start : ℕ} {tokens rest : List Placed} (procedure : Procedure)
    {found : Except Stop (procedure.Result × List Placed)} (position : At tokens start rest)
    (reads : procedure.Reads size rest found) :
    Realizes size tokens (Below start procedure.rank) start procedure.body start found := by
  cases procedure with
  | term procedure =>
    obtain ⟨fuel, enough, fuel', enough', rfl⟩ := reads
    exact procedure.realizes_body position enough enough'
  | arith procedure =>
    obtain ⟨fuel, enough, rfl⟩ := reads
    exact procedure.realizes_body position enough

section Formulas

variable {size fuel : ℕ} {tokens rest : List Placed} {allowed : Procedure → ℕ → Prop}
  {start cursor : ℕ}

theorem realizes_side (may : allowed (.term (.chain .sum)) cursor) (forward : start ≤ cursor)
    (position : At tokens cursor rest) (enough : rest.length < fuel) :
    Realizes size tokens allowed start (perform (.term (.chain .sum))) cursor
      (Formula.readSide size fuel rest) :=
  TermProcedure.realizes_perform may forward position enough enough

theorem realizes_response (may : allowed (.term (.chain .sum)) start)
    (position : At tokens start rest) (enough : rest.length < fuel) :
    Realizes size tokens allowed start response start (Formula.readResponse size fuel rest) := by
  have side : Realizes size tokens allowed start
      (do let side ← perform (.term (.chain .sum)); expect .tilde; return some side) start
      (Formula.readSide size fuel rest >>= fun side =>
        Reader.expect size .tilde side.2 >>= fun rest => .ok (some side.1, rest)) := by
    refine .bind (realizes_side may le_rfl position enough) fun _ forward position => ?_
    exact .bind_skip (.expect forward position) fun _ forward position => .ret forward position
  cases rest with
  | nil => exact .here_nil position side
  | cons head behind =>
    obtain ⟨token, place⟩ := head
    refine .here_cons position ?_
    cases token with
    | tilde =>
      refine .bind_ok (.expect_cons (Nat.le_succ start) position) fun forward position' => ?_
      exact .ret forward position'
    | _ => exact side

/-- A formula calls the procedures of its sides, with no token taken at first. -/
theorem realizes_formula (enough : tokens.length < fuel) :
    Realizes size tokens (Below 0 6) 0 formula 0 (Formula.readAll size fuel tokens) := by
  have may (cursor : ℕ) : Below 0 6 (.term (.chain .sum)) cursor :=
    .of_le (Nat.zero_le cursor) (by decide)
  have position : At tokens 0 tokens := .of_le (Nat.zero_le tokens.length)
  refine .bind (realizes_response (may 0) position enough) fun _ forward position' => ?_
  have fewer := position.length_le position' forward
  refine .bind (realizes_side (may _) forward position' (by omega))
    fun {_ rest _} _ forward' position'' => ?_
  cases rest with
  | nil => exact .here_nil position'' (.ret forward' position'')
  | cons head behind => exact .here_cons position'' (.unexpected position'')

end Formulas

end DesignMatrix.Descent
