import DesignMatrix.Proofs.CursorDescent
import DesignMatrix.Proofs.SettledReadings

/-!
# What programs find

A program realizes a reading of the tokens if it finds the same value or fault, looks at entries of
the list only and calls no procedure where it is not allowed to. The programs that others are made
of have one rule each, which follows the reader token by token. What a program realizes holds of its
runs, if it holds of the procedures that it calls.
-/

namespace DesignMatrix.Descent

open Reader

/-- The cursor stands in front of the rest of the tokens. -/
structure At (tokens : List Placed) (cursor : ℕ) (rest : List Placed) : Prop where
  within : cursor ≤ tokens.length
  drop_eq : tokens.drop cursor = rest

namespace At

variable {tokens rest : List Placed} {head : Placed} {cursor : ℕ}

theorem of_le (within : cursor ≤ tokens.length) : At tokens cursor (tokens.drop cursor) :=
  ⟨within, rfl⟩

theorem sight_eq (size : ℕ) (h : At tokens cursor rest) :
    (sights size tokens)[cursor]? = some (sight size rest) := by
  obtain ⟨within, rfl⟩ := h
  obtain inside | rfl := Nat.lt_or_eq_of_le within
  · rw [List.drop_eq_getElem_cons inside, sights, List.getElem?_append_left (by simpa using inside),
      List.getElem?_map, List.getElem?_eq_getElem inside]
    rfl
  · simp [sights, sight, offset]

theorem length_eq (h : At tokens cursor rest) : tokens.length = cursor + rest.length := by
  obtain ⟨within, rfl⟩ := h
  rw [List.length_drop]
  omega

theorem length_le {start : ℕ} {front : List Placed} (h : At tokens start front)
    (h' : At tokens cursor rest) (forward : start ≤ cursor) : rest.length ≤ front.length := by
  have length := h.length_eq
  have length' := h'.length_eq
  omega

theorem length_lt {start : ℕ} {front : List Placed} (h : At tokens start front)
    (h' : At tokens cursor rest) (forward : start < cursor) : rest.length < front.length := by
  have length := h.length_eq
  have length' := h'.length_eq
  omega

theorem next (h : At tokens cursor (head :: rest)) : At tokens (cursor + 1) rest := by
  have length := h.length_eq
  refine ⟨by simp at length; omega, ?_⟩
  rw [← List.tail_drop, h.drop_eq, List.tail_cons]

end At

theorem length_sights (size : ℕ) (tokens : List Placed) :
    (sights size tokens).length = tokens.length + 1 := by simp [sights]

/-- What a procedure that starts there finds of the tokens, and where it leaves the cursor. It ends,
unless it is short of an allowance. -/
inductive Agrees {α : Type} (tokens : List Placed) (short : Prop) (start : ℕ) :
    Except Stop (α × List Placed) → Outcome α → Prop
  | done {value : α} {rest : List Placed} {cursor : ℕ} (forward : start ≤ cursor)
      (position : At tokens cursor rest) :
      Agrees tokens short start (.ok (value, rest)) (.done value cursor)
  | failed {error : FormulaError} {cursor : ℕ} (within : cursor ≤ tokens.length) :
      Agrees tokens short start (.error (.fault error)) (.failed error cursor)
  | exhausted {result : Except Stop (α × List Placed)} (isShort : short) :
      Agrees tokens short start result .exhausted

theorem Agrees.imp {α : Type} {tokens : List Placed} {short short' : Prop} {start : ℕ}
    {result : Except Stop (α × List Placed)} {outcome : Outcome α}
    (h : Agrees tokens short start result outcome) (weaker : short → short') :
    Agrees tokens short' start result outcome := by
  cases h with
  | done forward position => exact .done forward position
  | failed within => exact .failed within
  | exhausted isShort => exact .exhausted (weaker isShort)

/-- The reader that a procedure follows, given that of arithmetic and an allowance. The atoms and
powers of a signed operand are read with one unit less. -/
def TermProcedure.reader (size fuel : ℕ) (arith : Reader Arith) : TermProcedure → Reader Tree
  | .chain kind =>
    Reader.chain (kind.operandReader (Tree.readSigned size arith fuel)) kind.join?
  | .chainFrom kind left => fun tokens =>
    Reader.chainFrom (kind.operandReader (Tree.readSigned size arith fuel)) kind.join?
      tokens.length left tokens
  | .signed => Tree.readSigned size arith fuel
  | .power => Tree.readPower size (Tree.readSigned size arith (fuel - 1)) arith
  | .atom => Tree.readAtom size (Tree.readSigned size arith (fuel - 1)) arith
  | .call function => Tree.readCall size arith function

/-- The reader that a procedure follows with an allowance. The atoms and powers of a signed operand
are read with one unit less. -/
def ArithProcedure.reader (size fuel : ℕ) : ArithProcedure → Reader Arith
  | .chain kind => Reader.chain (kind.operandReader (Arith.readSigned size fuel)) kind.join?
  | .chainFrom kind left => fun tokens =>
    Reader.chainFrom (kind.operandReader (Arith.readSigned size fuel)) kind.join? tokens.length
      left tokens
  | .signed => Arith.readSigned size fuel
  | .power => Arith.readPower size (Arith.readSigned size (fuel - 1))
  | .atom => Arith.readAtom size (Arith.readSigned size (fuel - 1))

/-- The reader of arithmetic with an allowance. -/
abbrev arithmetic (size fuel : ℕ) : Reader Arith := Arith.readSum (Arith.readSigned size fuel)

/-- What the reader of a procedure makes of the tokens with an allowance that suffices for them. -/
def Procedure.Reads (size : ℕ) : (procedure : Procedure) → List Placed →
    Except Stop (procedure.Result × List Placed) → Prop
  | .term procedure, tokens, result => ∃ fuel > tokens.length, ∃ fuel' > tokens.length,
    procedure.reader size fuel (arithmetic size fuel') tokens = result
  | .arith procedure, tokens, result => ∃ fuel > tokens.length,
    procedure.reader size fuel tokens = result

section Realizations

variable (size : ℕ) (tokens : List Placed) (allowed : Procedure → ℕ → Prop) (start : ℕ)

/-- From a place of the cursor on, a program finds the result of a reader, if the procedures that it
calls find what they should. It calls no others than are allowed, looks at entries of the list only,
and with a value it leaves the cursor no earlier than at the start. -/
def Realizes {α : Type} : Program α → ℕ → Except Stop (α × List Placed) → Prop
  | .ret value, cursor, result =>
    start ≤ cursor ∧ ∃ rest, At tokens cursor rest ∧ result = .ok (value, rest)
  | .fail error, cursor, result => cursor ≤ tokens.length ∧ result = .error (.fault error)
  | .look place next, cursor, result => cursor ≤ tokens.length ∧ ∃ seen,
    (sights size tokens)[place.index tokens.length cursor]? = some seen ∧
      Realizes (next seen) cursor result
  | .advance next, cursor, result => ∃ seen, (sights size tokens)[cursor]? = some seen ∧
    Realizes (next seen) (min (cursor + 1) tokens.length) result
  | .stepBack next, cursor, result => Realizes next (cursor - 1) result
  | .call procedure next, cursor, result => allowed procedure cursor ∧
    ∃ rest found, At tokens cursor rest ∧ procedure.Reads size rest found ∧
      (∀ stop, found = .error stop → result = .error stop) ∧
      ∀ value rest' cursor', found = .ok (value, rest') → cursor ≤ cursor' →
        At tokens cursor' rest' → Realizes (next value) cursor' result

variable {size tokens allowed start} {start' : ℕ} {α β : Type} {cursor : ℕ} {rest : List Placed}
  {result : Except Stop (α × List Placed)}

namespace Realizes

open Program

/-- A program goes on where another one stops, as a reader does. -/
theorem bind {program : Program α} {f : α → Program β}
    {next : α × List Placed → Except Stop (β × List Placed)}
    (h : Realizes size tokens allowed start' program cursor result)
    (goesOn : ∀ {value rest cursor'}, result = .ok (value, rest) → start' ≤ cursor' →
      At tokens cursor' rest →
      Realizes size tokens allowed start (f value) cursor' (next (value, rest))) :
    Realizes size tokens allowed start (program >>= f) cursor (result >>= next) := by
  change Realizes _ _ _ _ (program.bind f) _ _
  induction program generalizing cursor with
  | ret value =>
    obtain ⟨forward, rest, position, rfl⟩ := h
    exact goesOn rfl forward position
  | fail error =>
    obtain ⟨within, rfl⟩ := h
    exact ⟨within, rfl⟩
  | look place more ih =>
    obtain ⟨within, seen, found, goes⟩ := h
    exact ⟨within, seen, found, ih seen goes⟩
  | advance more ih =>
    obtain ⟨seen, found, goes⟩ := h
    exact ⟨seen, found, ih seen goes⟩
  | stepBack more ih => exact ih h
  | call procedure more ih =>
    obtain ⟨may, rest, found, position, reads, stops, goes⟩ := h
    refine ⟨may, rest, found, position, reads, fun stop failed => ?_,
      fun value rest' cursor' done forward position' => ?_⟩
    · rw [stops stop failed]
      rfl
    · exact ih value (goes value rest' cursor' done forward position')

/-- A program goes on where another one stops that finds a value. -/
theorem bind_ok {program : Program β} {f : β → Program α} {value : β} {rest : List Placed}
    (h : Realizes size tokens allowed start' program cursor (.ok (value, rest)))
    (goesOn : ∀ {cursor'}, start' ≤ cursor' → At tokens cursor' rest →
      Realizes size tokens allowed start (f value) cursor' result) :
    Realizes size tokens allowed start (program >>= f) cursor result := by
  change Realizes _ _ _ _ _ _ (Except.ok (value, rest) >>= fun _ => result)
  refine h.bind fun same forward position => ?_
  cases same
  exact goesOn forward position

theorem bind_skip {program : Program Unit} {f : Program α}
    {skip : List Placed → Except Stop (List Placed)} {next : Reader α}
    (h : Realizes size tokens allowed start' program cursor (ofSkip skip rest))
    (goesOn : ∀ {rest' cursor'}, skip rest = .ok rest' → start' ≤ cursor' →
      At tokens cursor' rest' → Realizes size tokens allowed start f cursor' (next rest')) :
    Realizes size tokens allowed start (program >>= fun _ => f) cursor (skip rest >>= next) := by
  rw [skip_bind]
  exact h.bind fun read => goesOn (ofSkip_eq_ok.mp read)

theorem ret {value : α} (forward : start ≤ cursor) (position : At tokens cursor rest) :
    Realizes size tokens allowed start (pure value) cursor (.ok (value, rest)) :=
  ⟨forward, rest, position, rfl⟩

theorem fail {error : FormulaError} (within : cursor ≤ tokens.length) :
    Realizes size tokens allowed start (.fail error) cursor
      (.error (.fault error) : Except Stop (α × List Placed)) :=
  ⟨within, rfl⟩

/-- A fault with the cursor stepped back. -/
theorem fail_behind {error : FormulaError} (within : cursor - 1 ≤ tokens.length) :
    Realizes size tokens allowed start (.stepBack (.fail error)) cursor
      (.error (.fault error) : Except Stop (α × List Placed)) :=
  ⟨within, rfl⟩

theorem perform {procedure : Procedure}
    {found : Except Stop (procedure.Result × List Placed)}
    (may : allowed procedure cursor) (forward : start ≤ cursor) (position : At tokens cursor rest)
    (reads : procedure.Reads size rest found) :
    Realizes size tokens allowed start (Program.perform procedure) cursor found := by
  refine ⟨may, rest, found, position, reads, fun stop same => same,
    fun value rest' cursor' same further position' => ?_⟩
  exact ⟨forward.trans further, rest', position', same⟩

section Steps

variable {head : Placed} {token : Token} {place : ℕ}

theorem here_sight {f : Sight → Program α} (position : At tokens cursor rest)
    (goes : Realizes size tokens allowed start (f (sight size rest)) cursor result) :
    Realizes size tokens allowed start (here >>= f) cursor result :=
  ⟨position.within, _, position.sight_eq size, goes⟩

theorem here_nil {f : Sight → Program α} (position : At tokens cursor [])
    (goes : Realizes size tokens allowed start (f ⟨none, size⟩) cursor result) :
    Realizes size tokens allowed start (here >>= f) cursor result :=
  here_sight position goes

theorem here_cons {f : Sight → Program α} (position : At tokens cursor (head :: rest))
    (goes : Realizes size tokens allowed start (f ⟨some head.token, head.offset⟩) cursor result) :
    Realizes size tokens allowed start (here >>= f) cursor result :=
  here_sight position goes

theorem look_ahead {f : Sight → Program α} (position : At tokens cursor (head :: rest))
    (goes : Realizes size tokens allowed start (f (sight size rest)) cursor result) :
    Realizes size tokens allowed start (.look .ahead .ret >>= f) cursor result := by
  refine ⟨position.within, _, ?_, goes⟩
  rw [Place.index, Nat.min_eq_left position.next.within]
  exact position.next.sight_eq size

theorem look_behind {f : Sight → Program α} (position : At tokens cursor (head :: rest))
    (goes : Realizes size tokens allowed start (f ⟨some head.token, head.offset⟩) (cursor + 1)
      result) :
    Realizes size tokens allowed start (.look .behind .ret >>= f) (cursor + 1) result :=
  ⟨position.next.within, _, position.sight_eq size, goes⟩

/-- The end of the text is not taken. -/
theorem take_nil {f : Sight → Program α} (position : At tokens cursor [])
    (goes : Realizes size tokens allowed start (f ⟨none, size⟩) cursor result) :
    Realizes size tokens allowed start (take >>= f) cursor result := by
  refine ⟨_, position.sight_eq size, ?_⟩
  have length := position.length_eq
  rwa [show min (cursor + 1) tokens.length = cursor by simp at length; omega]

theorem take_cons {f : Sight → Program α} (position : At tokens cursor (head :: rest))
    (goes : Realizes size tokens allowed start (f ⟨some head.token, head.offset⟩) (cursor + 1)
      result) :
    Realizes size tokens allowed start (take >>= f) cursor result := by
  refine ⟨_, position.sight_eq size, ?_⟩
  rwa [Nat.min_eq_left position.next.within]

theorem eat_cons {f : Bool → Program α} (position : At tokens cursor (⟨token, place⟩ :: rest))
    (goes : Realizes size tokens allowed start (f true) (cursor + 1) result) :
    Realizes size tokens allowed start (eat token >>= f) cursor result := by
  refine here_sight position ?_
  change Realizes size tokens allowed start (Program.bind f (if _ then _ else _)) cursor result
  rw [if_pos (show (sight size (_ :: rest)).token? = some token from rfl)]
  exact take_cons position goes

theorem eat_other {f : Bool → Program α} (position : At tokens cursor rest)
    (other : ∀ head ∈ rest.head?, head.token ≠ token)
    (goes : Realizes size tokens allowed start (f false) cursor result) :
    Realizes size tokens allowed start (eat token >>= f) cursor result := by
  have absent : (sight size rest).token? ≠ some token := by
    cases rest with
    | nil => simp [sight]
    | cons head rest => simpa [sight] using other
  refine here_sight position ?_
  change Realizes size tokens allowed start (Program.bind f (if _ then _ else _)) cursor result
  rwa [if_neg absent]

theorem unexpected {wanted : Wanted} (position : At tokens cursor rest) :
    Realizes size tokens allowed start (Program.unexpected wanted) cursor
      (.error (Reader.unexpected size wanted rest) : Except Stop (α × List Placed)) :=
  ⟨position.within, _, position.sight_eq size, position.within, rfl⟩

theorem expect_cons (forward : start ≤ cursor + 1)
    (position : At tokens cursor (⟨token, place⟩ :: rest)) :
    Realizes size tokens allowed start (Program.expect token) cursor (.ok ((), rest)) :=
  eat_cons position (ret forward position.next)

theorem expect (forward : start ≤ cursor) (position : At tokens cursor rest) :
    Realizes size tokens allowed start (Program.expect token) cursor
      (ofSkip (Reader.expect size token) rest) := by
  cases rest with
  | nil => exact eat_other position (by simp) (unexpected position)
  | cons head rest =>
    obtain ⟨token', place⟩ := head
    by_cases same : token' = token
    · subst same
      have found : Reader.expect size token' (⟨token', place⟩ :: rest) = .ok rest := if_pos rfl
      rw [ofSkip_eq_ok.mpr found]
      exact expect_cons (forward.trans (Nat.le_succ cursor)) position
    · rw [ofSkip, Reader.expect, if_neg same]
      exact eat_other position (by simpa using same) (unexpected position)

/-- One given token behind a value. -/
theorem closed {program : Program α} {inner : Reader α}
    (h : Realizes size tokens allowed start program cursor (inner rest)) :
    Realizes size tokens allowed start (Program.closed program) cursor
      (Reader.closed size inner rest) :=
  h.bind fun _ forward position => (expect forward position).bind_skip fun _ forward' position' =>
    ret forward' position'

end Steps

end Realizes

end Realizations

section Runs

variable {size : ℕ} {tokens : List Placed} {allowed : Procedure → ℕ → Prop} {start : ℕ}
  {short : Prop} {α : Type} {perform : (procedure : Procedure) → ℕ → Outcome procedure.Result}

variable (size tokens allowed short perform) in
/-- The procedures that may be called there find what their readers find. -/
def Supports : Prop :=
  ∀ ⦃procedure : Procedure⦄ ⦃cursor rest found⦄, allowed procedure cursor →
    At tokens cursor rest → procedure.Reads size rest found →
    Agrees tokens short cursor found (perform procedure cursor)

theorem Realizes.agrees {program : Program α} {cursor : ℕ} {result : Except Stop (α × List Placed)}
    (h : Realizes size tokens allowed start program cursor result)
    (supports : Supports size tokens allowed short perform) :
    Agrees tokens short start result (exec (sights size tokens) perform program cursor) := by
  induction program generalizing cursor with
  | ret value =>
    obtain ⟨forward, rest, position, rfl⟩ := h
    exact .done forward position
  | fail error =>
    obtain ⟨within, rfl⟩ := h
    exact .failed within
  | look place next ih =>
    obtain ⟨within, seen, found, goes⟩ := h
    have here := (At.of_le within).sight_eq size
    simp only [exec, length_sights, Nat.add_sub_cancel, here, found]
    exact ih seen goes
  | advance next ih =>
    obtain ⟨seen, found, goes⟩ := h
    simp only [exec, length_sights, Nat.add_sub_cancel, found]
    exact ih seen goes
  | stepBack next ih => exact ih h
  | call procedure next ih =>
    obtain ⟨may, rest, found, position, reads, stops, goes⟩ := h
    have agrees := supports may position reads
    rw [exec]
    generalize perform procedure cursor = outcome at agrees
    cases agrees with
    | done forward position' => exact ih _ (goes _ _ _ rfl forward position')
    | failed within =>
      rw [stops _ rfl]
      exact .failed within
    | exhausted isShort => exact .exhausted isShort

/-- Every call of a program is an allowed one. -/
theorem Realizes.isAllowed {program : Program α} {cursor place : ℕ} {callee : Procedure}
    {result : Except Stop (α × List Placed)}
    (h : Realizes size tokens allowed start program cursor result)
    (supports : Supports size tokens allowed short perform)
    (made : MakesCall (sights size tokens) perform callee place program cursor) :
    allowed callee place ∧ place ≤ tokens.length := by
  induction made with
  | here =>
    obtain ⟨may, rest, found, position, -⟩ := h
    exact ⟨may, position.within⟩
  | look found' _ ih =>
    obtain ⟨within, seen, found, goes⟩ := h
    rw [length_sights, Nat.add_sub_cancel, found] at found'
    exact ih (Option.some.inj found' ▸ goes)
  | advance found' _ ih =>
    obtain ⟨seen, found, goes⟩ := h
    rw [length_sights, Nat.add_sub_cancel] at ih
    exact ih (Option.some.inj (found.symm.trans found') ▸ goes)
  | stepBack _ ih => exact ih h
  | behind done _ ih =>
    obtain ⟨may, rest, found, position, reads, -, goes⟩ := h
    have agrees := supports may position reads
    rw [done] at agrees
    cases agrees with
    | done forward position' => exact ih (goes _ _ _ rfl forward position')

end Runs

end DesignMatrix.Descent
