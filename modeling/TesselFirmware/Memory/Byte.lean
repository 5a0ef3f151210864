import Mathlib.Data.List.Basic
import Mathlib.Tactic.SplitIfs

/-!
# Bytes and their bits

Bytes are bit vectors of width 8.  A status byte is tested and changed one bit at a time, as C
does with `&`, `|=` and `&= ~`; `has_set` and `has_clear` say what each bit is afterwards.
-/

namespace TesselFirmware

/-- An unsigned byte. -/
abbrev Byte := BitVec 8

namespace Byte

/-- `1 << i`. -/
def bit (i : ℕ) : Byte := BitVec.twoPow 8 i

/-- `s & (1 << i)`, as a truth value. -/
def has (s : Byte) (i : ℕ) : Bool := s &&& bit i != 0#8

/-- `s |= 1 << i`. -/
def set (s : Byte) (i : ℕ) : Byte := s ||| bit i

/-- `s &= ~(1 << i)`. -/
def clear (s : Byte) (i : ℕ) : Byte := s &&& ~~~ bit i

theorem has_eq_getLsbD (s : Byte) {i : ℕ} (h : i < 8) : has s i = s.getLsbD i := by
  rw [has, bit, BitVec.and_twoPow]
  split_ifs with hb
  · have : BitVec.twoPow 8 i ≠ 0#8 := fun h0 => by
      have := congrArg (BitVec.getLsbD · i) h0
      simp [h] at this
    simpa [hb] using this
  · simpa using hb

@[simp] theorem has_zero (i : ℕ) : has 0#8 i = false := by simp [has]

@[simp] theorem has_set (s : Byte) {i j : ℕ} (hi : i < 8) (hj : j < 8) :
    has (set s i) j = (has s j || decide (i = j)) := by
  rw [has_eq_getLsbD _ hj, has_eq_getLsbD _ hj, set, bit, BitVec.getLsbD_or, BitVec.getLsbD_twoPow]
  simp [hi]

@[simp] theorem has_clear (s : Byte) {i j : ℕ} (hi : i < 8) (hj : j < 8) :
    has (clear s i) j = (has s j && !decide (i = j)) := by
  rw [has_eq_getLsbD _ hj, has_eq_getLsbD _ hj, clear, bit, BitVec.getLsbD_and, BitVec.getLsbD_not,
    BitVec.getLsbD_twoPow]
  simp [hi, hj]

/-- Clearing a bit that is clear changes nothing. -/
theorem clear_of_has {s : Byte} {i : ℕ} (hi : i < 8) (h : has s i = false) : clear s i = s := by
  refine BitVec.eq_of_getLsbD_eq fun j hj => ?_
  have hj' := has_clear s hi hj
  rw [has_eq_getLsbD _ hj, has_eq_getLsbD _ hj] at hj'
  rw [hj']
  by_cases hij : i = j
  · subst hij
    rw [has_eq_getLsbD _ hi] at h
    simp [h]
  · simp [hij]

end Byte

end TesselFirmware
