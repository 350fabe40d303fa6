import Mathlib.Tactic.Ring
import DesignMatrix.Text.Hex

/-!
# Codes of characters

The last digits of a number that is not too large, in either case, have its value. So a character
is found again by the digits of its code point.
-/

namespace DesignMatrix.Hex

theorem fixed_succ (width n : ℕ) :
    fixed (width + 1) n = Nat.digitChar (n / 16 ^ width % 16) :: fixed width n := by
  simp [fixed, List.range_succ]

theorem digit?_digitChar {d : ℕ} (h : d < 16) : digit? (Nat.digitChar d) = some d := by
  have all : ∀ d < 16, digit? (Nat.digitChar d) = some d := by decide
  exact all d h

theorem digit?_toUpper_digitChar {d : ℕ} (h : d < 16) :
    digit? (Nat.digitChar d).toUpper = some d := by
  have all : ∀ d < 16, digit? (Nat.digitChar d).toUpper = some d := by decide
  exact all d h

private theorem foldlM_fixed (spelling : Char → Char)
    (spelled : ∀ d < 16, digit? (spelling (Nat.digitChar d)) = some d) (width n front : ℕ) :
    ((fixed width n).map spelling).foldlM
        (fun value c => (digit? c).map (16 * value + ·)) front =
      some (front * 16 ^ width + n % 16 ^ width) := by
  induction width generalizing front with
  | zero => simp [fixed, Nat.mod_one]
  | succ width ih =>
    have last : n / 16 ^ width % 16 < 16 := Nat.mod_lt _ (by decide)
    have split : n % 16 ^ (width + 1) = n % 16 ^ width + 16 ^ width * (n / 16 ^ width % 16) :=
      Nat.mod_pow_succ
    simp only [fixed_succ, List.map_cons, List.foldlM_cons, spelled _ last, Option.map_some,
      Option.bind_eq_bind, Option.bind_some, ih, split]
    congr 1
    ring

theorem value?_fixed {width n : ℕ} (h : n < 16 ^ width) : value? (fixed width n) = some n := by
  have read := foldlM_fixed id (fun _ => digit?_digitChar) width n 0
  rw [List.map_id, Nat.mod_eq_of_lt h, Nat.zero_mul, Nat.zero_add] at read
  exact read

theorem value?_fixedUpper {width n : ℕ} (h : n < 16 ^ width) :
    value? (fixedUpper width n) = some n := by
  have read := foldlM_fixed Char.toUpper (fun _ => digit?_toUpper_digitChar) width n 0
  rw [Nat.mod_eq_of_lt h, Nat.zero_mul, Nat.zero_add] at read
  exact read

theorem forall_mem_fixedUpper {p : Char → Prop}
    (digits : ∀ d < 16, p (Nat.digitChar d).toUpper) (width n : ℕ) :
    ∀ c ∈ fixedUpper width n, p c := by
  intro c member
  obtain ⟨digit, written, rfl⟩ := List.mem_map.mp member
  obtain ⟨place, -, rfl⟩ := List.mem_map.mp written
  exact digits _ (Nat.mod_lt _ (by decide))

@[simp] theorem character?_toNat (c : Char) : character? c.toNat = some c := by
  have valid : c.toNat.isValidChar := c.valid
  rw [character?, if_pos valid, Char.ofNat_toNat]

theorem coded?_fixedUpper {width : ℕ} {c : Char} (h : c.toNat < 16 ^ width) :
    coded? (fixedUpper width c.toNat) = some c := by
  simp [coded?, value?_fixedUpper h]

end DesignMatrix.Hex
