import Mathlib.Order.Bounds.Basic
import TesselFirmware.Node.Packet

/-!
# The clock of the SPI (`node/tessel-export.js`)

The constructor of `SPI` chooses a register value and a divider for the clock speed, without
rounding of the numbers in between.

* `SPI.selects_iff` : for every speed in the range, the divider is the smallest one with which the
  register value fits a byte, exactly if no divider is needed or `24e6 / clockSpeed` leaves a
  remainder modulo 256 that is less than the quotient;
* `SPI.not_selects_fallback` : for 92770 Hz it is not.
-/

namespace TesselFirmware

namespace Node

namespace SPI

/-- A register value and a divider as the comments say. -/
structure Selects (clockSpeed : ℚ) : Prop where
  reg : 0 ≤ (clock .ideal clockSpeed).1 ∧ (clock .ideal clockSpeed).1 ≤ 255
  div : 1 ≤ (clock .ideal clockSpeed).2 ∧ (clock .ideal clockSpeed).2 ≤ 255
  undivided : ⌊48000000 / (2 * clockSpeed) - 1⌋ ≤ 255 →
    clock .ideal clockSpeed = (⌊48000000 / (2 * clockSpeed) - 1⌋, 1)
  smallest : 255 < ⌊48000000 / (2 * clockSpeed) - 1⌋ →
    IsLeast {d : ℤ | 1 ≤ d ∧ ⌊48000000 / (2 * clockSpeed * d) - 1⌋ ≤ 255}
      (clock .ideal clockSpeed).2
  /-- The branch for dividers above 255 is not taken. -/
  fits : divider .ideal clockSpeed ≤ 255

variable {clockSpeed : ℚ}

theorem baudReg_ideal (clockSpeed : ℚ) :
    baudReg .ideal clockSpeed = ⌊48000000 / (2 * clockSpeed) - 1⌋ := rfl

theorem divider_ideal (h : 0 < clockSpeed) :
    divider .ideal clockSpeed = ⌊24000000 / clockSpeed / 256⌋ := by
  show ⌊48000000 / (clockSpeed * (2 * 255 + 2))⌋ = _
  congr 1
  field_simp
  norm_num

/-- The register value for a divider fits a byte. -/
theorem floor_le_iff (h : 0 < clockSpeed) {d : ℤ} (hd : 1 ≤ d) :
    ⌊48000000 / (2 * clockSpeed * d) - 1⌋ ≤ 255 ↔ 24000000 / clockSpeed < 257 * d := by
  have hd' : (0 : ℚ) < d := by exact_mod_cast hd
  have heq : 48000000 / (2 * clockSpeed * d) = 24000000 / clockSpeed / d := by
    field_simp
    norm_num
  rw [heq, ← Int.lt_add_one_iff, Int.floor_lt, sub_lt_iff_lt_add, div_lt_iff₀ hd']
  norm_num

theorem baudReg_le_iff (h : 0 < clockSpeed) :
    ⌊48000000 / (2 * clockSpeed) - 1⌋ ≤ 255 ↔ 24000000 / clockSpeed < 257 := by
  have hone := floor_le_iff h (le_refl 1)
  rwa [Int.cast_one, mul_one, mul_one] at hone

/-- The quotient is the smallest divider if it is large enough. -/
theorem isLeast_iff (h : 368 ≤ clockSpeed) (hdiv : 257 ≤ 24000000 / clockSpeed) :
    IsLeast {d : ℤ | 1 ≤ d ∧ ⌊48000000 / (2 * clockSpeed * d) - 1⌋ ≤ 255}
        ⌊24000000 / clockSpeed / 256⌋ ↔
      24000000 / clockSpeed < 257 * ⌊24000000 / clockSpeed / 256⌋ := by
  have hpos : 0 < clockSpeed := lt_of_lt_of_le (by norm_num) h
  generalize hx : 24000000 / clockSpeed = x at hdiv ⊢
  have hq : 1 ≤ ⌊x / 256⌋ := by
    rw [Int.le_floor, le_div_iff₀ (by norm_num)]
    push_cast
    linarith
  have hq' : ⌊x / 256⌋ ≤ 255 := by
    rw [← Int.lt_add_one_iff, Int.floor_lt, div_lt_iff₀ (by norm_num), ← hx,
      div_lt_iff₀ hpos]
    push_cast
    linarith
  constructor
  · rintro ⟨⟨-, hfit⟩, -⟩
    rw [floor_le_iff hpos hq, hx] at hfit
    exact hfit
  · intro hlt
    refine ⟨⟨hq, ?_⟩, ?_⟩
    · rw [floor_le_iff hpos hq, hx]
      exact hlt
    · rintro d ⟨hd, hfit⟩
      rw [floor_le_iff hpos hd, hx] at hfit
      -- a smaller divider would have to be 257 or more
      by_contra hless
      have hd' : d + 1 ≤ ⌊x / 256⌋ := not_le.1 hless
      have hle : (⌊x / 256⌋ : ℚ) * 256 ≤ x := (le_div_iff₀ (by norm_num)).1 (Int.floor_le _)
      have hd'' : (d : ℚ) + 1 ≤ ⌊x / 256⌋ := by exact_mod_cast hd'
      have hq'' : (⌊x / 256⌋ : ℚ) ≤ 255 := by exact_mod_cast hq'
      linarith

/-- **The choice of the clock.**  For every speed that the constructor accepts, the register value
and the divider are bytes, the divider is the smallest one with which the register value fits, and
the branch for larger ones is not taken, exactly if the speed needs no divider or is not so close
below a speed that a divider gives that the quotient by 256 is too small. -/
theorem selects_iff (h : 368 ≤ clockSpeed) (h' : clockSpeed ≤ 24000000) :
    Selects clockSpeed ↔ 24000000 / clockSpeed < 257 ∨
      24000000 / clockSpeed < 257 * ⌊24000000 / clockSpeed / 256⌋ := by
  have hpos : 0 < clockSpeed := lt_of_lt_of_le (by norm_num) h
  have hreg := baudReg_nonneg .ideal h h'
  obtain ⟨-, hdiv⟩ := divider_bounds .ideal h
  rw [baudReg_ideal] at hreg
  by_cases hone : ⌊48000000 / (2 * clockSpeed) - 1⌋ ≤ 255
  · have hclock : clock .ideal clockSpeed = (⌊48000000 / (2 * clockSpeed) - 1⌋, 1) := by
      rw [clock, baudReg_ideal, if_neg (not_lt.2 hone)]
    refine iff_of_true ?_ (.inl ((baudReg_le_iff hpos).1 hone))
    refine ⟨?_, ?_, fun _ => hclock, fun hno => absurd hone (not_le.2 hno), hdiv⟩
    · rw [hclock]
      exact ⟨hreg, hone⟩
    · rw [hclock]
      norm_num
  · have hfast : ¬ 24000000 / clockSpeed < 257 := fun hlt => hone ((baudReg_le_iff hpos).2 hlt)
    have hclock : clock .ideal clockSpeed = (255, ⌊24000000 / clockSpeed / 256⌋) := by
      rw [clock, baudReg_ideal, if_pos (not_le.1 hone), if_neg (not_lt.2 hdiv), divider_ideal hpos]
    rw [or_iff_right hfast, ← isLeast_iff h (not_lt.1 hfast)]
    constructor
    · intro hs
      have hleast := hs.smallest (not_le.1 hone)
      rwa [hclock] at hleast
    · intro hleast
      refine ⟨?_, ?_, fun hno => absurd hno hone, fun _ => ?_, hdiv⟩
      · rw [hclock]
        norm_num
      · rw [hclock, ← divider_ideal hpos]
        refine ⟨?_, hdiv⟩
        rw [divider_ideal hpos]
        exact hleast.1.1
      · rw [hclock]
        exact hleast

/-- The slowest clock. -/
theorem selects_slowest : Selects 368 := by
  refine (selects_iff (by norm_num) (by norm_num)).2 (.inr ?_)
  have hfloor : ⌊(24000000 : ℚ) / 368 / 256⌋ = 254 := by
    rw [Int.floor_eq_iff]
    norm_num
  rw [hfloor]
  norm_num

/-- With a divider of 1 the clock is faster than 92770 Hz. -/
theorem not_selects_fallback :
    ¬ ∀ clockSpeed : ℚ, 368 ≤ clockSpeed → clockSpeed ≤ 24000000 → Selects clockSpeed := by
  intro hall
  have hone : ¬ ⌊(48000000 : ℚ) / (2 * 92770) - 1⌋ ≤ 255 := by
    rw [baudReg_le_iff (by norm_num)]
    norm_num
  have hfloor : ⌊(24000000 : ℚ) / 92770 / 256⌋ = 1 := by
    rw [Int.floor_eq_iff]
    norm_num
  have hclock : (clock .ideal 92770).2 = 1 := by
    rw [clock, baudReg_ideal, if_pos (not_le.1 hone), divider_ideal (by norm_num), hfloor]
    rfl
  have hleast := (hall 92770 (by norm_num) (by norm_num)).smallest (not_le.1 hone)
  rw [hclock] at hleast
  have hfit := hleast.1.2
  rw [floor_le_iff (by norm_num) (le_refl 1)] at hfit
  norm_num at hfit

end SPI

end Node

end TesselFirmware
