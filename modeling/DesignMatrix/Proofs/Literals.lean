import Mathlib.Tactic.Common
import DesignMatrix.Proofs.Lexing

/-!
# Number literals

The numbers of formulas are the numerals without a sign and without a power of ten. They stand for
the double that the text is read as.
-/

namespace DesignMatrix

namespace Token

/-- Digits with at most one point among them. -/
structure IsDecimal (cs : List Char) : Prop where
  parts : ∀ c ∈ cs, isNumberPart c = true
  onePoint : cs.count '.' ≤ 1
  someDigit : ∃ c ∈ cs, c.isDigit = true

/-- The text of a number literal with this value. -/
def IsLiteral (value : Float) (cs : List Char) : Prop :=
  IsDecimal cs ∧ double? cs = some value

section Numerals

variable {cs : List Char}

private theorem isNumberPart_eq_true {c : Char} :
    isNumberPart c = true ↔ c.isDigit = true ∨ c = '.' := by
  simp [isNumberPart]

private theorem toLower_of_isNumberPart {c : Char} (part : isNumberPart c = true) :
    c.toLower = c := by
  have notUpper : ¬(65 ≤ c.val ∧ c.val ≤ 90) := by
    rcases isNumberPart_eq_true.mp part with digit | rfl
    · simp only [Char.isDigit, Bool.and_eq_true, decide_eq_true_eq] at digit
      simp only [UInt32.le_iff_toNat_le] at digit ⊢
      have := digit.2
      simp at this ⊢
      omega
    · decide
  exact dif_neg notUpper

private theorem splitSign_of_parts (parts : ∀ c ∈ cs, isNumberPart c = true) :
    Decimal.splitSign cs = (false, cs) := by
  unfold Decimal.splitSign
  split
  · exact absurd (parts '-' (by simp)) (by decide)
  · exact absurd (parts '+' (by simp)) (by decide)
  · rfl

private theorem ofList_ne {word : String} {c : Char} (inside : c ∈ word.toList)
    (notPart : isNumberPart c = false) (parts : ∀ c ∈ cs, isNumberPart c = true) :
    String.ofList cs ≠ word := by
  rintro rfl
  rw [String.toList_ofList] at inside
  exact absurd (parts c inside) (by simp [notPart])

/-- Digits and points are no word, so the lexer reads them as any other reader of numerals does. -/
theorem numberValue?_eq_double? (parts : ∀ c ∈ cs, isNumberPart c = true) :
    numberValue? cs = double? cs := by
  have lower : cs.map Char.toLower = cs := by
    rw [List.map_congr_left fun c member => toLower_of_isNumberPart (parts c member)]
    exact List.map_id cs
  have word {word : String} : 'n' ∈ word.toList → String.ofList cs ≠ word := fun inside =>
    ofList_ne inside (by decide) parts
  have read : Decimal.read? cs = Decimal.magnitude? false cs := by
    simp only [Decimal.read?, splitSign_of_parts parts, lower]
    split
    · rename_i same
      exact absurd same (word (by decide))
    · rename_i same
      exact absurd same (word (by decide))
    · rename_i same
      exact absurd same (word (by decide))
    · rfl
  rw [numberValue?, double?, read]

/-- No power of ten starts with a digit or a point. -/
private theorem eq_nil_of_power? {power : Int} (parts : ∀ c ∈ cs, isNumberPart c = true)
    (h : Decimal.power? cs = some power) : cs = [] := by
  cases cs with
  | nil => rfl
  | cons c rest =>
    have part := parts c List.mem_cons_self
    have notLetter : ¬(c = 'e' ∨ c = 'E') := by
      rintro (rfl | rfl) <;> exact absurd part (by decide)
    simp [Decimal.power?, notLetter] at h

private theorem count_point_of_digits (digits : ∀ c ∈ cs, c.isDigit = true) : cs.count '.' = 0 := by
  rw [List.count_eq_zero]
  intro point
  exact absurd (digits '.' point) (by decide)

private theorem isDecimal_of_digits {whole fraction : List Char}
    (digits : ∀ c ∈ whole ++ fraction, c.isDigit = true) (nonempty : whole ++ fraction ≠ [])
    (shape : cs = whole ++ fraction ∨ cs = whole ++ '.' :: fraction) : IsDecimal cs := by
  have points := count_point_of_digits digits
  obtain ⟨c, inside⟩ := List.exists_mem_of_ne_nil _ nonempty
  rcases shape with rfl | rfl
  · exact ⟨fun c member => isNumberPart_eq_true.mpr (.inl (digits c member)), by omega,
      c, inside, digits c inside⟩
  · refine ⟨fun c member => ?_, ?_, c, ?_, digits c inside⟩
    · rw [isNumberPart_eq_true]
      rcases List.mem_append.mp member with front | behind
      · exact .inl (digits c (List.mem_append_left _ front))
      · rcases List.mem_cons.mp behind with point | behind
        · exact .inr point
        · exact .inl (digits c (List.mem_append_right _ behind))
    · rw [List.count_append, List.count_cons_self, ← Nat.add_assoc, ← List.count_append]
      omega
    · rcases List.mem_append.mp inside with front | behind
      · exact List.mem_append_left _ front
      · exact List.mem_append_right _ (List.mem_cons_of_mem _ behind)

private theorem exists_splitPoint (cs : List Char) : ∃ whole fraction rest,
    Decimal.splitPoint cs = (whole, fraction, rest) ∧
      (∀ c ∈ whole ++ fraction, c.isDigit = true) ∧
      (cs = whole ++ fraction ++ rest ∨ cs = whole ++ '.' :: fraction ++ rest) := by
  have digits {list : List Char} : ∀ c ∈ list.takeWhile Char.isDigit, c.isDigit = true :=
    fun c member => List.all_eq_true.mp List.all_takeWhile c member
  have whole := List.takeWhile_append_dropWhile (p := Char.isDigit) (l := cs)
  unfold Decimal.splitPoint
  split
  · rename_i rest point
    have fraction := List.takeWhile_append_dropWhile (p := Char.isDigit) (l := rest)
    refine ⟨_, _, _, rfl, fun c member => ?_, .inr ?_⟩
    · exact (List.mem_append.mp member).elim (digits c) (digits c)
    · rw [List.append_assoc, List.cons_append, fraction, ← point, whole]
  · refine ⟨_, _, _, rfl, fun c member => digits c (by simpa using member), .inl ?_⟩
    rw [List.append_nil, whole]

/-- What the lexer takes for a number has one point at most, and a digit. -/
theorem IsNumeral.isDecimal {value : Float} (h : IsNumeral value cs) : IsDecimal cs := by
  obtain ⟨-, parts, read⟩ := h
  obtain ⟨decimal, magnitude, -⟩ := Option.map_eq_some_iff.mp read
  obtain ⟨whole, fraction, rest, split, digits, shape⟩ := exists_splitPoint cs
  simp only [Decimal.magnitude?, split] at magnitude
  split at magnitude
  · cases magnitude
  · rename_i someDigit
    obtain ⟨power, readPower, -⟩ := Option.map_eq_some_iff.mp magnitude
    have behind : ∀ c ∈ rest, isNumberPart c = true := by
      intro c member
      rcases shape with rfl | rfl <;> exact parts c (List.mem_append_right _ member)
    obtain rfl := eq_nil_of_power? behind readPower
    rw [List.append_nil, List.append_nil] at shape
    exact isDecimal_of_digits digits (by simpa using someDigit) shape

/-- The numbers that the lexer reads are the number literals. -/
theorem isNumeral_iff_isLiteral {value : Float} : IsNumeral value cs ↔ IsLiteral value cs := by
  constructor
  · intro numeral
    exact ⟨numeral.isDecimal, numberValue?_eq_double? numeral.2.1 ▸ numeral.2.2⟩
  · rintro ⟨decimal, read⟩
    obtain ⟨c, inside, -⟩ := decimal.someDigit
    exact ⟨List.ne_nil_of_mem inside, decimal.parts, numberValue?_eq_double? decimal.parts ▸ read⟩

end Numerals

end Token

end DesignMatrix
