import Mathlib.Data.List.GetD
import Mathlib.Logic.Function.Basic
import Mathlib.Tactic.SplitIfs

/-!
# NOR flash

A NOR flash is erased in blocks, which sets all bits, and programmed in pages, which clears bits.
The words for a page are collected in a latch with the size of the page, in which addresses wrap
around, and come into the flash together.

* `spread_load` : a latch that has been loaded within its page programs the words at their
  addresses and nothing else;
* `mask_append` : data may be programmed in pieces;
* `Holds.program` : an erased part holds the data that is programmed into it;
* `program_eq_self`, `erase_eq_self` : what is elsewhere stays as it is.
-/

namespace TesselFirmware

/-- The contents of a flash with words of `w` bits, by address. -/
abbrev Nor (w : ℕ) := ℕ → BitVec w

namespace Nor

variable {w : ℕ}

/-- All bits are ones. -/
def blank : Nor w := fun _ => BitVec.allOnes w

/-- Erase `size` words from `start` on. -/
def erase (m : Nor w) (start size : ℕ) : Nor w :=
  fun i => if start ≤ i ∧ i < start + size then BitVec.allOnes w else m i

/-- Clear the bits that are zeros in the mask. -/
def program (m mask : Nor w) : Nor w := fun i => m i &&& mask i

/-- The mask that programs `data` from `start` on. -/
def mask (start : ℕ) (data : List (BitVec w)) : Nor w :=
  fun i => if start ≤ i then data.getD (i - start) (BitVec.allOnes w) else BitVec.allOnes w

/-- Words are loaded into the latch of a page, one after the other. -/
def load (page : ℕ) : Nor w → ℕ → List (BitVec w) → Nor w
  | latch, _, [] => latch
  | latch, offset, b :: bs => load page (Function.update latch (offset % page) b) (offset + 1) bs

/-- The mask that programs the latch into the page of an address. -/
def spread (page addr : ℕ) (latch : Nor w) : Nor w :=
  fun i => if i / page = addr / page then latch (i % page) else BitVec.allOnes w

/-- The flash holds `data` from `start` on. -/
def Holds (m : Nor w) (start : ℕ) (data : List (BitVec w)) : Prop :=
  ∀ i (h : i < data.length), m (start + i) = data[i]

/-- The flash is erased in `size` words from `start` on. -/
def Erased (m : Nor w) (start size : ℕ) : Prop := ∀ i, i < size → m (start + i) = BitVec.allOnes w

variable {m m' : Nor w} {page addr start size i : ℕ} {data data' : List (BitVec w)}

/-! ### Masks -/

theorem mask_add (h : i < data.length) : mask start data (start + i) = data[i] := by
  rw [mask, if_pos (Nat.le_add_right start i), Nat.add_sub_cancel_left,
    List.getD_eq_getElem _ _ h]

theorem mask_of_lt (h : i < start) : mask start data i = BitVec.allOnes w :=
  if_neg (Nat.not_le.2 h)

theorem mask_of_le (h : start + data.length ≤ i) : mask start data i = BitVec.allOnes w := by
  unfold mask
  split_ifs with hi
  · exact List.getD_eq_default _ _ (by omega)
  · rfl

@[simp] theorem mask_nil : mask start ([] : List (BitVec w)) = blank := by
  funext i
  unfold mask blank
  split_ifs <;> rfl

@[simp] theorem program_blank (m : Nor w) : program m blank = m :=
  funext fun _ => BitVec.and_allOnes

theorem program_program (m k k' : Nor w) : program (program m k) k' = program m (program k k') :=
  funext fun _ => BitVec.and_assoc _ _ _

/-- Data that is programmed in two pieces. -/
theorem mask_append (start : ℕ) (data data' : List (BitVec w)) :
    mask start (data ++ data') =
      program (mask start data) (mask (start + data.length) data') := by
  funext i
  unfold program
  by_cases hlt : i < start
  · rw [mask_of_lt hlt, mask_of_lt hlt, mask_of_lt (by omega), BitVec.and_self]
  obtain ⟨j, rfl⟩ := Nat.exists_eq_add_of_le (Nat.not_lt.1 hlt)
  by_cases hj : j < data.length
  · have hj' : j < (data ++ data').length := by
      rw [List.length_append]
      omega
    rw [mask_add hj', List.getElem_append_left hj, mask_add hj, mask_of_lt (by omega),
      BitVec.and_allOnes]
  by_cases hj' : j < (data ++ data').length
  · obtain ⟨k, rfl⟩ := Nat.exists_eq_add_of_le (Nat.not_lt.1 hj)
    have hk : k < data'.length := by
      rw [List.length_append] at hj'
      omega
    rw [mask_add hj', mask_of_le (by omega), ← Nat.add_assoc, mask_add hk, BitVec.allOnes_and,
      List.getElem_append_right (Nat.le_add_right _ _)]
    simp only [Nat.add_sub_cancel_left]
  · have hlen : (data ++ data').length = data.length + data'.length := List.length_append
    rw [mask_of_le (by omega), mask_of_le (by omega), mask_of_le (by omega), BitVec.and_self]

theorem program_append (m : Nor w) (start : ℕ) (data data' : List (BitVec w)) :
    program m (mask start (data ++ data')) =
      program (program m (mask start data)) (mask (start + data.length) data') := by
  rw [mask_append, program_program]

/-- What is not programmed stays as it is. -/
theorem program_eq_self (h : i < start ∨ start + data.length ≤ i) :
    program m (mask start data) i = m i := by
  unfold program
  rcases h with h | h
  · rw [mask_of_lt h, BitVec.and_allOnes]
  · rw [mask_of_le h, BitVec.and_allOnes]

/-- What is not erased stays as it is. -/
theorem erase_eq_self (h : i < start ∨ start + size ≤ i) : erase m start size i = m i :=
  if_neg (by omega)

theorem erased_erase (m : Nor w) (start size : ℕ) : Erased (erase m start size) start size :=
  fun _ hi => if_pos (by omega)

/-! ### Pages -/

theorem load_append (latch : Nor w) (offset : ℕ) (data data' : List (BitVec w)) :
    load page latch offset (data ++ data') =
      load page (load page latch offset data) (offset + data.length) data' := by
  induction data generalizing latch offset with
  | nil => rfl
  | cons b bs ih =>
    rw [List.cons_append, load, load, ih, List.length_cons]
    congr 1
    omega

/-- Only the place within the page counts. -/
theorem load_mod (latch : Nor w) (offset : ℕ) (data : List (BitVec w)) :
    load page latch (offset % page) data = load page latch offset data := by
  induction data generalizing latch offset with
  | nil => rfl
  | cons b bs ih =>
    rw [load, load, Nat.mod_mod, ← ih _ (offset % page + 1), ← ih _ (offset + 1), Nat.mod_add_mod]

/-- A latch that is loaded within its page. -/
theorem load_eq {latch : Nor w} {offset : ℕ} (h : offset + data.length ≤ page) (i : ℕ) :
    load page latch offset data i =
      if offset ≤ i ∧ i < offset + data.length then mask offset data i else latch i := by
  induction data generalizing latch offset with
  | nil => exact (if_neg (by rw [List.length_nil]; omega)).symm
  | cons b bs ih =>
    rw [List.length_cons] at h ⊢
    rw [load, ih (by omega), Nat.mod_eq_of_lt (by omega)]
    have hcons : mask offset (b :: bs) = program (mask offset [b]) (mask (offset + 1) bs) :=
      mask_append offset [b] bs
    by_cases hi : i = offset
    · subst hi
      rw [if_neg (by omega), if_pos (by omega), Function.update_self, hcons]
      show b = mask i [b] i &&& mask (i + 1) bs i
      rw [mask_of_lt (Nat.lt_succ_self i), BitVec.and_allOnes]
      have hone : 0 < [b].length := Nat.one_pos
      exact (mask_add hone).symm
    · rw [Function.update_of_ne hi]
      by_cases hin : offset + 1 ≤ i ∧ i < offset + 1 + bs.length
      · rw [if_pos hin, if_pos (by omega), hcons]
        have hbehind : offset + [b].length ≤ i := by
          rw [List.length_singleton]
          exact hin.1
        show _ = mask offset [b] i &&& mask (offset + 1) bs i
        rw [mask_of_le hbehind, BitVec.allOnes_and]
      · rw [if_neg hin, if_neg (by omega)]

/-- **A page is programmed.**  Words that do not reach over the end of their page come to their
addresses. -/
theorem spread_load (hpage : 0 < page) (h : addr % page + data.length ≤ page) :
    spread page addr (load page blank addr data) = mask addr data := by
  rw [← load_mod]
  funext i
  have haddr := Nat.div_add_mod addr page
  have hi := Nat.div_add_mod i page
  have hlt := Nat.mod_lt i hpage
  unfold spread
  split_ifs with hsame
  · rw [hsame] at hi
    rw [load_eq h]
    split_ifs with hin
    · obtain ⟨j, hj⟩ := Nat.exists_eq_add_of_le hin.1
      obtain rfl : i = addr + j := by omega
      rw [hj, mask_add (by omega), mask_add (by omega)]
    · rcases Nat.lt_or_ge i addr with hlt' | hge
      · rw [mask_of_lt hlt']
        rfl
      · rw [mask_of_le (by omega)]
        rfl
  · -- an address in another page is not one of the data
    rcases Nat.lt_or_gt_of_ne hsame with hdiv | hdiv
    · have hmul := Nat.mul_le_mul_left page (Nat.succ_le_of_lt hdiv)
      rw [Nat.mul_succ] at hmul
      rw [mask_of_lt (by omega)]
    · have hmul := Nat.mul_le_mul_left page (Nat.succ_le_of_lt hdiv)
      rw [Nat.mul_succ] at hmul
      rw [mask_of_le (by omega)]

/-! ### What the flash holds -/

theorem holds_nil : Holds m start [] := fun _ h => absurd h (Nat.not_lt_zero _)

theorem holds_append :
    Holds m start (data ++ data') ↔
      Holds m start data ∧ Holds m (start + data.length) data' := by
  constructor
  · refine fun h => ⟨fun i hi => ?_, fun i hi => ?_⟩
    · exact (h i (by rw [List.length_append]; omega)).trans (List.getElem_append_left hi)
    · rw [Nat.add_assoc, h (data.length + i) (by rw [List.length_append]; omega),
        List.getElem_append_right (Nat.le_add_right _ _)]
      simp only [Nat.add_sub_cancel_left]
  · rintro ⟨h, h'⟩ i hi
    by_cases hlt : i < data.length
    · rw [h i hlt, List.getElem_append_left hlt]
    · obtain ⟨j, rfl⟩ := Nat.exists_eq_add_of_le (Nat.not_lt.1 hlt)
      have hj : j < data'.length := by
        rw [List.length_append] at hi
        omega
      rw [← Nat.add_assoc, h' j hj, List.getElem_append_right (Nat.le_add_right _ _)]
      simp only [Nat.add_sub_cancel_left]

/-- An erased part holds the data that is programmed into it. -/
theorem Erased.program (h : Erased m start size) (hlen : data.length ≤ size) :
    Holds (program m (mask start data)) start data := by
  intro i hi
  show m (start + i) &&& mask start data (start + i) = _
  rw [h i (by omega), BitVec.allOnes_and, mask_add hi]

/-- Data stays where nothing else is programmed. -/
theorem Holds.program (h : Holds m start data)
    (hdis : start + data.length ≤ addr ∨ addr + data'.length ≤ start) :
    Holds (program m (mask addr data')) start data := by
  intro i hi
  rw [program_eq_self (by omega)]
  exact h i hi

theorem Erased.mono (h : Erased m start size) (start' size' : ℕ) (hstart : start ≤ start')
    (hend : start' + size' ≤ start + size) : Erased m start' size' := by
  intro i hi
  have hlast := h (start' - start + i) (by omega)
  rwa [show start + (start' - start + i) = start' + i by omega] at hlast

theorem Erased.of_program (h : Erased m start size)
    (hdis : start + size ≤ addr ∨ addr + data'.length ≤ start) :
    Erased (Nor.program m (mask addr data')) start size := by
  intro i hi
  rw [program_eq_self (by omega)]
  exact h i hi

end Nor

end TesselFirmware
