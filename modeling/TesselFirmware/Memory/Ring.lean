import Mathlib.Data.List.Basic
import Mathlib.Logic.Function.Basic
import Mathlib.Tactic.Cases

/-!
# Rings

A ring of `n` cells as a queue: its entries are in the cells from `read` on, modulo `n`.  What it
means for a cell to hold an entry is a relation `R`, which is equality for a ring of bytes.

* `Ring.Holds R n cell read xs` : the cells from `read` on hold the entries `xs`;
* `Holds.push`, `Holds.pop`, `Holds.drop` : what the operations of a queue do;
* `Holds.store`, `Holds.load` : a block of entries is put in or read at once;
* `Holds.free` : the cell behind the last entry is none of the cells that hold entries;
* `Holds.overwrite`, `Holds.last_concat` : in a full ring a new entry takes the place of the oldest
  one, so that the ring holds the last `n` of all entries.
-/

namespace TesselFirmware

namespace Ring

variable {α β : Type*}

/-- The last `n` entries, or all of them if there are no more. -/
def last (n : ℕ) (xs : List α) : List α := xs.drop (xs.length - n)

theorem length_last (n : ℕ) (xs : List α) : (last n xs).length = min xs.length n := by
  rw [last, List.length_drop]
  omega

theorem last_of_le {n : ℕ} {xs : List α} (h : xs.length ≤ n) : last n xs = xs := by
  rw [last, Nat.sub_eq_zero_of_le h, List.drop_zero]

/-- The cells from `read` on hold the entries `xs`. -/
structure Holds (R : β → α → Prop) (n : ℕ) (cell : ℕ → β) (read : ℕ) (xs : List α) : Prop where
  length_le : xs.length ≤ n
  read_lt : read < n
  get : ∀ k x, xs[k]? = some x → R (cell ((read + k) % n)) x

namespace Holds

variable {R : β → α → Prop} {n : ℕ} {cell : ℕ → β} {read : ℕ} {x : α} {xs : List α} {b : β}

theorem nil (h : read < n) : Holds R n cell read [] :=
  ⟨Nat.zero_le n, h, fun k x hx => by simp at hx⟩

/-- Two places of the ring that are less than `n` apart are in different cells. -/
theorem mod_ne {i j : ℕ} (hij : i < j) (hj : j < i + n) : i % n ≠ j % n := by
  intro h
  have hdvd : n ∣ j - i := Nat.dvd_of_mod_eq_zero (Nat.sub_mod_eq_zero_of_mod_eq h.symm)
  have := Nat.le_of_dvd (by omega) hdvd
  omega

/-- The cell behind the last entry holds no entry. -/
theorem free (hn : xs.length < n) {k : ℕ} (hk : k < xs.length) :
    (read + k) % n ≠ (read + xs.length) % n :=
  mod_ne (by omega) (by omega)

theorem head (h : Holds R n cell read (x :: xs)) : R (cell read) x := by
  have := h.get 0 x rfl
  rwa [Nat.add_zero, Nat.mod_eq_of_lt h.read_lt] at this

/-- Filling the cell behind the last entry. -/
theorem push (h : Holds R n cell read xs) (hn : xs.length < n) (hb : R b x) :
    Holds R n (Function.update cell ((read + xs.length) % n) b) read (xs ++ [x]) := by
  refine ⟨by simpa using Nat.succ_le_of_lt hn, h.read_lt, fun k y hy => ?_⟩
  rcases Nat.lt_trichotomy k xs.length with hk | rfl | hk
  · rw [Function.update_of_ne (free hn hk)]
    rw [List.getElem?_append_left hk] at hy
    exact h.get k y hy
  · rw [Function.update_self]
    rw [List.getElem?_concat_length] at hy
    cases hy
    exact hb
  · rw [List.getElem?_eq_none (by simpa using Nat.succ_le_of_lt hk)] at hy
    cases hy

/-- The first `m` entries leave the ring. -/
theorem drop (h : Holds R n cell read xs) (m : ℕ) :
    Holds R n cell ((read + m) % n) (xs.drop m) := by
  have hlen := h.length_le
  refine ⟨by rw [List.length_drop]; omega, Nat.mod_lt _ (by have := h.read_lt; omega), ?_⟩
  intro k x hx
  rw [List.getElem?_drop] at hx
  have := h.get (m + k) x hx
  rwa [← Nat.add_assoc, ← Nat.mod_add_mod] at this

/-- The first entry leaves the ring. -/
theorem pop (h : Holds R n cell read (x :: xs)) : Holds R n cell ((read + 1) % n) xs :=
  h.drop 1

/-- Filling a block of cells behind the last entry, up to the end of the ring at most. -/
theorem store {cell' : ℕ → β} {ys : List α} (h : Holds R n cell read xs)
    (hn : xs.length + ys.length ≤ n) (hwrap : (read + xs.length) % n + ys.length ≤ n)
    (hnew : ∀ k y, ys[k]? = some y → R (cell' ((read + xs.length) % n + k)) y)
    (hold : ∀ i, (∀ k < ys.length, i ≠ (read + xs.length) % n + k) → cell' i = cell i) :
    Holds R n cell' read (xs ++ ys) := by
  have hmod : ∀ k < ys.length, (read + (xs.length + k)) % n = (read + xs.length) % n + k := by
    intro k hk
    rw [← Nat.add_assoc, ← Nat.mod_add_mod, Nat.mod_eq_of_lt (by omega)]
  refine ⟨by rw [List.length_append]; exact hn, h.read_lt, fun k x hx => ?_⟩
  rcases Nat.lt_or_ge k xs.length with hk | hk
  · rw [List.getElem?_append_left hk] at hx
    rw [hold _ fun j hj heq => ?_]
    · exact h.get k x hx
    · rw [← hmod j hj] at heq
      exact mod_ne (by omega) (by omega) heq
  · obtain ⟨j, rfl⟩ := Nat.exists_eq_add_of_le hk
    rw [List.getElem?_append_right hk, Nat.add_sub_cancel_left] at hx
    rw [hmod j (List.getElem?_eq_some_iff.1 hx).1]
    exact hnew j x hx

/-- The first entries, if they lie before the end of the ring, are a block of cells. -/
theorem load {cell : ℕ → α} (h : Holds (· = ·) n cell read xs) {m : ℕ} (hm : m ≤ xs.length)
    (hwrap : read + m ≤ n) : (List.range m).map (fun k => cell (read + k)) = xs.take m := by
  refine List.ext_getElem? fun k => ?_
  rcases Nat.lt_or_ge k m with hk | hk
  · have hlt : k < xs.length := by omega
    have hx : xs[k]? = some xs[k] := List.getElem?_eq_getElem hlt
    have hcell := h.get k _ hx
    rw [Nat.mod_eq_of_lt (by omega)] at hcell
    rw [List.getElem?_take_of_lt hk, hx, List.getElem?_map, List.getElem?_range hk, ← hcell]
    rfl
  · rw [List.getElem?_eq_none (by simpa using hk),
      List.getElem?_eq_none (by rw [List.length_take]; omega)]

/-- The first entries, wherever they are. -/
theorem collect {cell : ℕ → α} (h : Holds (· = ·) n cell read xs) {m : ℕ} (hm : m ≤ xs.length) :
    (List.range m).map (fun k => cell ((read + k) % n)) = xs.take m := by
  refine List.ext_getElem? fun k => ?_
  rcases Nat.lt_or_ge k m with hk | hk
  · have hx : xs[k]? = some xs[k] := List.getElem?_eq_getElem (by omega)
    rw [List.getElem?_take_of_lt hk, hx, List.getElem?_map, List.getElem?_range hk,
      ← h.get k _ hx]
    rfl
  · rw [List.getElem?_eq_none (by simpa using hk),
      List.getElem?_eq_none (by rw [List.length_take]; omega)]

/-- The oldest entry of a full ring is overwritten. -/
theorem overwrite (h : Holds R n cell read xs) (hn : xs.length = n) (hb : R b x) :
    Holds R n (Function.update cell ((read + xs.length) % n) b) ((read + 1) % n)
      (xs.tail ++ [x]) := by
  have hpos : 0 < n := Nat.lt_of_le_of_lt (Nat.zero_le read) h.read_lt
  have htail : Holds R n cell ((read + 1) % n) xs.tail := by
    rw [← List.drop_one]
    exact h.drop 1
  have hlen : xs.tail.length = n - 1 := by rw [List.length_tail, hn]
  -- the cell behind the last entry that stays is that of the oldest one
  have hcell : ((read + 1) % n + xs.tail.length) % n = (read + xs.length) % n := by
    rw [hlen, hn, Nat.mod_add_mod]
    congr 1
    omega
  rw [← hcell]
  exact htail.push (by omega) hb

/-- A ring that holds the last entries, and overwrites the oldest one when it is full. -/
theorem last_concat (h : Holds R n cell read (last n xs)) (hb : R b x) :
    Holds R n (Function.update cell ((read + (last n xs).length) % n) b)
      (if (last n xs).length < n then read else (read + 1) % n) (last n (xs ++ [x])) := by
  have hlen := length_last n xs
  split_ifs with hfull
  · have hle : xs.length ≤ n := by omega
    have hle' : (xs ++ [x]).length ≤ n := by
      rw [List.length_append, List.length_singleton]
      omega
    rw [last_of_le hle] at h ⊢
    rw [last_of_le hle']
    exact h.push (by omega) hb
  · have hn : n ≤ xs.length := by omega
    have heq : last n (xs ++ [x]) = (last n xs).tail ++ [x] := by
      have hpos : 0 < n := Nat.lt_of_le_of_lt (Nat.zero_le read) h.read_lt
      rw [last, last, List.tail_drop, List.length_append, List.length_singleton,
        List.drop_append_of_le_length (by omega)]
      congr 2
      omega
    rw [heq]
    exact h.overwrite (by omega) hb

end Holds

end Ring

end TesselFirmware
