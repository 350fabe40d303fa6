import Mathlib.Tactic.Common
import DesignMatrix.Text.Lowercase
import DesignMatrix.Text.Numeric

/-!
# Lower case of letters

The table of lower case letters fits together with the table of letters, and with itself: a letter or
digit in lower case is a letter or digit, and in lower case already. The one exception is the capital
I with a dot above, which becomes an i and a combining dot. The dot is neither.
-/

namespace DesignMatrix.Text

namespace LowercaseRun

/-- A run of the table: its first and last member, its step and its shift. -/
abbrev Run := Nat × Nat × Nat × Int

/-- Where a run moves one of its members to. -/
def moved (run : Run) (code : Nat) : Nat := (code + run.2.2.2).toNat

/-- One interval of letters holds everything between the moved ends of the run. -/
def staysAlphabetic (run : Run) : Bool := alphabeticRanges.any fun range =>
  range.1.ble (moved run run.1) && (moved run run.2.1).ble range.2

/-- Two progressions lie apart, or the one lies between the members of the other. -/
def apart (first last step first' last' step' : Nat) : Bool :=
  last.blt first' || (last'.blt first ||
    (step' == 2 && (step == 2 || first == last) && first % 2 != first' % 2))

/-- The moved run does not meet the other one. -/
def staysOutside (run other : Run) : Bool :=
  apart (moved run run.1) (moved run run.2.1) run.2.2.1 other.1 other.2.1 other.2.2.1

/-- The capital I with a dot above as a run of its own. -/
def dotted : Run := (0x130, 0x130, 1, 0)

theorem all_staysAlphabetic : lowercaseRuns.all staysAlphabetic = true := by decide +kernel

theorem all_staysOutside :
    (lowercaseRuns.all fun run => (dotted :: lowercaseRuns).all (staysOutside run)) = true := by
  decide +kernel

theorem alphabeticRanges_valid : ∀ range ∈ alphabeticRanges,
    0 < range.1 ∧ (range.2 < 0xD800 ∨ 0xDFFF < range.1 ∧ range.2 < 0x110000) := by
  decide +kernel

variable {run other : Run} {code : Nat}

theorem inLowercaseRun_iff : inLowercaseRun code run = true ↔
    run.1 ≤ code ∧ code ≤ run.2.1 ∧ (code - run.1) % run.2.2.1 = 0 := by
  simp [inLowercaseRun, and_assoc]

/-- A member of a run moves to a letter. -/
theorem exists_range (member : run ∈ lowercaseRuns) (inRun : inLowercaseRun code run = true) :
    ∃ range ∈ alphabeticRanges, range.1 ≤ moved run run.1 ∧ moved run run.1 ≤ moved run code ∧
      moved run code ≤ moved run run.2.1 ∧ moved run run.2.1 ≤ range.2 := by
  obtain ⟨above, below, -⟩ := inLowercaseRun_iff.mp inRun
  have stays := List.all_eq_true.mp all_staysAlphabetic run member
  simp only [staysAlphabetic, List.any_eq_true, Bool.and_eq_true, Nat.ble_eq] at stays
  obtain ⟨range, listed, first, last⟩ := stays
  refine ⟨range, listed, first, ?_, ?_, last⟩ <;> (unfold moved; omega)

/-- What lower case yields is not put into lower case again. -/
theorem inLowercaseRun_moved (member : run ∈ lowercaseRuns)
    (inRun : inLowercaseRun code run = true) (listed : other ∈ dotted :: lowercaseRuns) :
    inLowercaseRun (moved run code) other = false := by
  obtain ⟨range, isRange, least, lower, upper, -⟩ := exists_range member inRun
  obtain ⟨above, below, placed⟩ := inLowercaseRun_iff.mp inRun
  have positive := (alphabeticRanges_valid range isRange).1
  have stays := List.all_eq_true.mp all_staysOutside run member
  have outside := List.all_eq_true.mp stays other listed
  simp only [staysOutside, apart, Bool.or_eq_true, Bool.and_eq_true, Nat.blt_eq, beq_iff_eq,
    bne_iff_ne] at outside
  rw [← Bool.not_eq_true, inLowercaseRun_iff]
  rintro ⟨above', below', placed'⟩
  rcases outside with before | behind | ⟨⟨even, spaced⟩, parity⟩
  · omega
  · omega
  · -- Both runs take every second code, and the moved one keeps the parity of its first code.
    rw [even] at placed'
    have same : moved run code % 2 = moved run run.1 % 2 := by
      rcases spaced with two | single
      · rw [two] at placed
        unfold moved at *
        omega
      · have only : code = run.1 := by
          unfold moved at *
          omega
        rw [only]
    omega

end LowercaseRun

open LowercaseRun

/-- A letter or digit in lower case is one letter or digit, which stays as it is in lower case. -/
theorem exists_lowercase_eq {c : Char} (alphanumeric : isAlphanumeric c = true)
    (undotted : c ≠ 'İ') :
    ∃ d, lowercase c = [d] ∧ isAlphanumeric d = true ∧ lowercase d = [d] ∧ d ≠ 'İ' := by
  cases found : lowercaseRuns.find? (inLowercaseRun c.toNat) with
  | none =>
    have same : lowercase c = [c] := by simp [lowercase, undotted, found]
    exact ⟨c, same, alphanumeric, same, undotted⟩
  | some run =>
    have member := List.mem_of_find?_eq_some found
    have inRun : inLowercaseRun c.toNat run = true := List.find?_some found
    obtain ⟨range, isRange, least, lower, upper, greatest⟩ := exists_range member inRun
    have valid : (moved run c.toNat).isValidChar := by
      have := alphabeticRanges_valid range isRange
      unfold Nat.isValidChar
      omega
    have code : (Char.ofNat (moved run c.toNat)).toNat = moved run c.toNat := by
      rw [Char.ofNat, dif_pos valid]
      rfl
    have stays (other : Run) (listed : other ∈ dotted :: lowercaseRuns) :
        inLowercaseRun (Char.ofNat (moved run c.toNat)).toNat other = false := by
      rw [code]
      exact inLowercaseRun_moved member inRun listed
    have undotted' : Char.ofNat (moved run c.toNat) ≠ 'İ' := by
      intro same
      have outside := stays dotted List.mem_cons_self
      rw [same] at outside
      exact absurd outside (by decide)
    refine ⟨Char.ofNat (moved run c.toNat), ?_, ?_, ?_, undotted'⟩
    · simp [lowercase, undotted, found, moved]
    · rw [isAlphanumeric, isAlphabetic, Bool.or_eq_true]
      refine .inl ((Ranges.covers_iff _ _).mpr ⟨range, isRange, ?_⟩)
      omega
    · have settled : lowercaseRuns.find?
          (inLowercaseRun (Char.ofNat (moved run c.toNat)).toNat) = none := by
        rw [List.find?_eq_none]
        intro other listed
        simp [stays other (List.mem_cons_of_mem _ listed)]
      simp [lowercase, undotted', settled]

theorem lowercase_dotted : lowercase 'İ' = ['i', '\u0307'] := rfl

end DesignMatrix.Text
