import Mathlib.Tactic.Common
import DesignMatrix.Formula.Reader
import DesignMatrix.Proofs.Outcomes

/-!
# What readers take off a token list

A reader that succeeds has taken some tokens off the front of a list. Chains of operands are read by
a counted loop; the count is large enough for every list, so that a chain is read exactly if its
operands and operators can be read one after the other.
-/

namespace DesignMatrix.Reader

open Outcomes

/-- The token list starts with these tokens, and the rest stands behind them. -/
def Spells (spelled : List Token) (tokens rest : List Placed) : Prop :=
  ∃ front, tokens = front ++ rest ∧ front.map Placed.token = spelled

section Spells

variable {spelled more : List Token} {tokens rest : List Placed}

@[simp] theorem spells_nil : Spells [] tokens rest ↔ tokens = rest := by
  simp [Spells]

@[simp] theorem spells_cons {token : Token} : Spells (token :: spelled) tokens rest ↔
    ∃ offset behind, tokens = ⟨token, offset⟩ :: behind ∧ Spells spelled behind rest := by
  simp only [Spells, List.map_eq_cons_iff]
  constructor
  · rintro ⟨_, rfl, ⟨token, offset⟩, front, rfl, rfl, rfl⟩
    exact ⟨offset, _, rfl, front, rfl, rfl⟩
  · rintro ⟨offset, _, rfl, front, rfl, rfl⟩
    exact ⟨⟨token, offset⟩ :: front, rfl, ⟨token, offset⟩, front, rfl, rfl, rfl⟩

@[simp] theorem spells_append : Spells (spelled ++ more) tokens rest ↔
    ∃ middle, Spells spelled tokens middle ∧ Spells more middle rest := by
  simp only [Spells, List.map_eq_append_iff]
  constructor
  · rintro ⟨_, rfl, front, back, rfl, rfl, rfl⟩
    exact ⟨back ++ rest, ⟨front, by simp, rfl⟩, back, rfl, rfl⟩
  · rintro ⟨_, ⟨front, rfl, rfl⟩, back, rfl, rfl⟩
    exact ⟨front ++ back, by simp, front, back, rfl, rfl, rfl⟩

theorem spells_all : Spells spelled tokens [] ↔ tokens.map Placed.token = spelled := by
  simp [Spells]

theorem Spells.map_eq (h : Spells spelled tokens rest) :
    tokens.map Placed.token = spelled ++ rest.map Placed.token := by
  obtain ⟨front, rfl, rfl⟩ := h
  exact List.map_append

theorem Spells.length_eq (h : Spells spelled tokens rest) :
    tokens.length = spelled.length + rest.length := by
  obtain ⟨front, rfl, rfl⟩ := h
  simp

end Spells

theorem expect_eq_ok {size : Nat} {lexeme : Token} {tokens rest : List Placed} :
    expect size lexeme tokens = .ok rest ↔ Spells [lexeme] tokens rest := by
  cases tokens with
  | nil => simp [expect]
  | cons head tail =>
    obtain ⟨token, offset⟩ := head
    by_cases same : token = lexeme <;> simp [expect, same]

variable {α : Type}

theorem closed_eq_ok {size : Nat} {inner : Reader α} {tokens rest : List Placed} {value : α} :
    closed size inner tokens = .ok (value, rest) ↔
      ∃ middle, inner tokens = .ok (value, middle) ∧ Spells [.rightParen] middle rest := by
  simp only [closed, bind_eq_ok, expect_eq_ok, Except.ok.injEq, Prod.mk.injEq, Prod.exists]
  constructor
  · rintro ⟨_, middle, read, _, close, rfl, rfl⟩
    exact ⟨middle, read, close⟩
  · rintro ⟨middle, read, close⟩
    exact ⟨value, middle, read, rest, close, rfl, rfl⟩

/-- Operators and operands that follow a left operand, up to a token that is no operator. -/
inductive Chained (operand : Reader α) (join? : Token → Option (α → α → α)) :
    α → List Placed → α → List Placed → Prop where
  | stop {left : α} {tokens : List Placed} (ends : ∀ head ∈ tokens.head?, join? head.token = none) :
      Chained operand join? left tokens left tokens
  | next {left right result : α} {head : Placed} {join : α → α → α}
      {tokens middle rest : List Placed} (joins : join? head.token = some join)
      (reads : operand tokens = .ok (right, middle))
      (goesOn : Chained operand join? (join left right) middle result rest) :
      Chained operand join? left (head :: tokens) result rest

section Chains

variable {operand : Reader α} {join? : Token → Option (α → α → α)} {left result : α}
  {tokens rest : List Placed}

theorem chained_of_chainFrom {fuel : Nat}
    (h : chainFrom operand join? fuel left tokens = .ok (result, rest)) :
    Chained operand join? left tokens result rest := by
  induction fuel generalizing left tokens with
  | zero =>
    cases tokens with
    | nil =>
      cases h
      exact .stop (by simp)
    | cons head tokens =>
      cases ends : join? head.token with
      | none =>
        simp only [chainFrom, ends, Except.ok.injEq, Prod.mk.injEq] at h
        obtain ⟨rfl, rfl⟩ := h
        exact .stop (by simpa using ends)
      | some join => simp [chainFrom, ends] at h
  | succ fuel ih =>
    cases tokens with
    | nil =>
      cases h
      exact .stop (by simp)
    | cons head tokens =>
      cases joins : join? head.token with
      | none =>
        simp only [chainFrom, joins, Except.ok.injEq, Prod.mk.injEq] at h
        obtain ⟨rfl, rfl⟩ := h
        exact .stop (by simpa using joins)
      | some join =>
        unfold chainFrom at h
        simp only [joins, bind_eq_ok, Prod.exists] at h
        obtain ⟨right, middle, reads, goesOn⟩ := h
        exact .next joins reads (ih goesOn)

/-- The loop is counted by tokens, and each round takes at least one. -/
theorem chainFrom_of_chained {fuel : Nat}
    (shortens : ∀ {tokens value rest}, operand tokens = .ok (value, rest) →
      rest.length ≤ tokens.length)
    (h : Chained operand join? left tokens result rest) (enough : tokens.length ≤ fuel) :
    chainFrom operand join? fuel left tokens = .ok (result, rest) := by
  induction h generalizing fuel with
  | @stop left tokens ends =>
    cases tokens with
    | nil => simp [chainFrom]
    | cons head tokens =>
      have none : join? head.token = none := ends head (by simp)
      simp [chainFrom, none]
  | @next left right result head join tokens middle rest joins reads _ ih =>
    cases fuel with
    | zero => simp at enough
    | succ fuel =>
      have fewer := shortens reads
      simp only [List.length_cons] at enough
      have goesOn : chainFrom operand join? fuel (join left right) middle = .ok (result, rest) :=
        ih (by omega)
      simp [chainFrom, joins, reads, goesOn, bind, Except.bind]

theorem chain_eq_ok (shortens : ∀ {tokens value rest}, operand tokens = .ok (value, rest) →
      rest.length ≤ tokens.length) :
    chain operand join? tokens = .ok (result, rest) ↔
      ∃ left middle, operand tokens = .ok (left, middle) ∧
        Chained operand join? left middle result rest := by
  simp only [chain, bind_eq_ok, Prod.exists]
  refine exists_congr fun left => exists_congr fun middle => and_congr_right fun _ => ?_
  exact ⟨chained_of_chainFrom, fun h => chainFrom_of_chained shortens h (Nat.le_refl _)⟩

end Chains

end DesignMatrix.Reader
