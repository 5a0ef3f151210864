import Mathlib.Data.List.Basic
import Mathlib.Logic.Function.Basic
import Mathlib.Tactic.SplitIfs

/-!
# Buffers

Fixed-size buffers as lists: block copies into a buffer (`memcpy`) and the cutting of one
unframed stream into consecutive pieces (`slices`).

* `take_memcpy` : after a copy at the end of the written part, the written part has grown by
  exactly the source.
* `Cells α n` : a buffer together with the proof that it has `n` cells.
* `slices_flatten`, `slices_flatMap` : a stream cut at the lengths of its parts gives the parts
  back.
* `chunks_induction` : induction over the pieces of a list that is cut into pieces of one length.
* `scatter` : pieces put into the buffers of their keys.
-/

namespace TesselFirmware

namespace Buffer

variable {α : Type*}

/-- Copy `src` over the cells of `dst` from index `i` on.  A copy that does not fit leaves the
buffer as it is. -/
def memcpy (dst : List α) (i : ℕ) (src : List α) : List α :=
  if i + src.length ≤ dst.length then dst.take i ++ src ++ dst.drop (i + src.length) else dst

@[simp] theorem length_memcpy (dst : List α) (i : ℕ) (src : List α) :
    (memcpy dst i src).length = dst.length := by
  unfold memcpy
  split_ifs with h
  · simp only [List.length_append, List.length_take, List.length_drop]
    omega
  · rfl

/-- A copy at the end of the written part extends it by the source. -/
theorem take_memcpy {dst src : List α} {i : ℕ} (h : i + src.length ≤ dst.length) :
    (memcpy dst i src).take (i + src.length) = dst.take i ++ src := by
  have hlen : (dst.take i ++ src).length = i + src.length := by
    rw [List.length_append, List.length_take]
    omega
  rw [memcpy, if_pos h, ← hlen, List.take_left]

/-! ### Cutting a stream -/

/-- Cut `xs` into consecutive pieces of the lengths `ns`. -/
def slices : List ℕ → List α → List (List α)
  | [], _ => []
  | n :: ns, xs => xs.take n :: slices ns (xs.drop n)

theorem slices_map {β : Type*} (f : α → β) (ns : List ℕ) (xs : List α) :
    slices ns (xs.map f) = (slices ns xs).map (List.map f) := by
  induction ns generalizing xs with
  | nil => rfl
  | cons n ns ih =>
    rw [slices, slices, List.map_cons, List.map_take, ← ih, List.map_drop]

/-- Cutting a concatenation at the lengths of its parts gives the parts back. -/
theorem slices_flatten (xss : List (List α)) (ys : List α) :
    slices (xss.map List.length) (xss.flatten ++ ys) = xss := by
  induction xss with
  | nil => rfl
  | cons xs xss ih => simp [slices, ih]

/-- The same for a stream to which every element of a list contributes one part. -/
theorem slices_flatMap {ι : Type*} {f : ι → List α} {len : ι → ℕ} {is : List ι}
    (h : ∀ i ∈ is, (f i).length = len i) (ys : List α) :
    slices (is.map len) (is.flatMap f ++ ys) = is.map f := by
  have hlen : is.map len = (is.map f).map List.length := by
    rw [List.map_map]
    exact List.map_congr_left fun i hi => (h i hi).symm
  rw [hlen, List.flatMap_def, slices_flatten]

/-- Cut `xs` into consecutive pieces of length `n`; the last one may be shorter. -/
def chunks (n : ℕ) (xs : List α) : List (List α) :=
  (List.range ((xs.length + n - 1) / n)).map fun i => (xs.drop (n * i)).take n

section Chunks

variable {n : ℕ} {xs c : List α}

theorem chunks_nil (n : ℕ) : chunks n ([] : List α) = [] := by
  rcases Nat.eq_zero_or_pos n with rfl | hn
  · rw [chunks, Nat.div_zero]
    rfl
  · rw [chunks, List.length_nil, Nat.div_eq_of_lt (by omega)]
    rfl

theorem chunks_of_ne_nil (hn : 0 < n) (h : xs ≠ []) :
    chunks n xs = xs.take n :: chunks n (xs.drop n) := by
  have hpos := List.length_pos_iff.2 h
  have hcount : (xs.length + n - 1) / n = ((xs.drop n).length + n - 1) / n + 1 := by
    rw [List.length_drop, ← Nat.add_div_right _ hn]
    by_cases hle : n ≤ xs.length
    · congr 1
      omega
    · have hone : xs.length - n + n - 1 + n = n - 1 + n := by omega
      rw [hone, Nat.div_eq_of_lt_le (k := 1) (by omega) (by omega),
        Nat.div_eq_of_lt_le (k := 1) (by omega) (by omega)]
  rw [chunks, chunks, hcount, List.range_succ_eq_map, List.map_cons, List.map_map]
  congr 1
  refine List.map_congr_left fun i _ => ?_
  show (xs.drop (n * (i + 1))).take n = ((xs.drop n).drop (n * i)).take n
  rw [List.drop_drop, Nat.mul_add, Nat.mul_one, Nat.add_comm]

/-- Induction piece by piece. -/
theorem chunks_induction (hn : 0 < n) {P : List α → Prop} (nil : P [])
    (step : ∀ xs, xs ≠ [] → P (xs.drop n) → P xs) (xs : List α) : P xs := by
  induction hlen : xs.length using Nat.strongRecOn generalizing xs with
  | ind len ih =>
    subst hlen
    by_cases h : xs = []
    · exact h ▸ nil
    · have hpos := List.length_pos_iff.2 h
      refine step xs h (ih (xs.drop n).length ?_ _ rfl)
      rw [List.length_drop]
      omega

theorem flatten_chunks (hn : 0 < n) (xs : List α) : (chunks n xs).flatten = xs := by
  induction xs using chunks_induction hn with
  | nil =>
    rw [chunks_nil]
    rfl
  | step xs h ih => rw [chunks_of_ne_nil hn h, List.flatten_cons, ih, List.take_append_drop]

theorem length_le_of_mem_chunks (h : c ∈ chunks n xs) : c.length ≤ n := by
  obtain ⟨i, -, rfl⟩ := List.mem_map.1 h
  exact List.length_take_le _ _

end Chunks

/-! ### Pieces and their places -/

/-- Put each value of the list in the place of its key, one after the other. -/
def scatter {κ β : Type*} [DecidableEq κ] (f : κ → β) (l : List (κ × β)) : κ → β :=
  l.foldl (fun f kb => Function.update f kb.1 kb.2) f

section Scatter

variable {κ β : Type*} [DecidableEq κ] {f : κ → β} {l : List (κ × β)} {k : κ} {b : β}

theorem comp_scatter {γ : Type*} (g : β → γ) (f : κ → β) (l : List (κ × β)) :
    g ∘ scatter f l = scatter (g ∘ f) (l.map fun kb => (kb.1, g kb.2)) := by
  induction l generalizing f with
  | nil => rfl
  | cons kb l ih =>
    have hhead := ih (Function.update f kb.1 kb.2)
    rw [Function.comp_update] at hhead
    exact hhead

theorem scatter_of_forall_ne (h : ∀ kb ∈ l, kb.1 ≠ k) : scatter f l k = f k := by
  induction l generalizing f with
  | nil => rfl
  | cons kb l ih =>
    have hne := h kb List.mem_cons_self
    rw [scatter, List.foldl_cons, ← scatter, ih fun kb' hm => h kb' (List.mem_cons_of_mem _ hm),
      Function.update_of_ne hne.symm]

/-- A key with one value only gets this value. -/
theorem scatter_of_mem (hm : (k, b) ∈ l) (hu : ∀ kb ∈ l, kb.1 = k → kb.2 = b) :
    scatter f l k = b := by
  induction l generalizing f with
  | nil => cases hm
  | cons kb l ih =>
    have hu' : ∀ kb' ∈ l, kb'.1 = k → kb'.2 = b := fun kb' h => hu kb' (List.mem_cons_of_mem _ h)
    rw [scatter, List.foldl_cons, ← scatter]
    by_cases hl : ∃ kb' ∈ l, kb'.1 = k
    · obtain ⟨⟨k', b'⟩, hmem, rfl⟩ := hl
      obtain rfl : b' = b := hu' _ hmem rfl
      exact ih hmem hu'
    · have hne : ∀ kb' ∈ l, kb'.1 ≠ k := fun kb' hm hk => hl ⟨kb', hm, hk⟩
      obtain rfl : (k, b) = kb := by
        obtain h | h := List.mem_cons.1 hm
        · exact h
        · exact absurd rfl (hne _ h)
      rw [scatter_of_forall_ne hne, Function.update_self]

end Scatter

end Buffer

/-- A buffer of `n` cells. -/
structure Cells (α : Type*) (n : ℕ) where
  cells : List α
  length_cells : cells.length = n

namespace Cells

variable {α : Type*} {n : ℕ}

/-- A buffer all of whose cells hold `a`. -/
def fill (a : α) : Cells α n := ⟨List.replicate n a, List.length_replicate⟩

/-- The cell at index `i`. -/
def get [Inhabited α] (c : Cells α n) (i : ℕ) : α := c.cells.getD i default

/-- Write `xs` from index `i` on; a write that does not fit changes nothing. -/
def write (c : Cells α n) (i : ℕ) (xs : List α) : Cells α n :=
  ⟨Buffer.memcpy c.cells i xs, by rw [Buffer.length_memcpy, c.length_cells]⟩

/-- The `k` cells from index `i` on. -/
def slice (c : Cells α n) (i k : ℕ) : List α := (c.cells.drop i).take k

/-- The first `k` cells. -/
def content (c : Cells α n) (k : ℕ) : List α := c.cells.take k

@[simp] theorem content_zero (c : Cells α n) : c.content 0 = [] := rfl

@[simp] theorem slice_zero (c : Cells α n) (i : ℕ) : c.slice i 0 = [] := by simp [slice]

theorem length_slice {c : Cells α n} {i k : ℕ} (h : i + k ≤ n) : (c.slice i k).length = k := by
  have := c.length_cells
  rw [slice, List.length_take, List.length_drop]
  omega

/-- Two consecutive slices make one. -/
theorem slice_add (c : Cells α n) (i k l : ℕ) :
    c.slice i (k + l) = c.slice i k ++ c.slice (i + k) l := by
  simp only [slice, List.take_add, List.drop_drop]

/-- A slice starts with the cell at its index. -/
theorem slice_succ [Inhabited α] {c : Cells α n} {i : ℕ} (k : ℕ) (h : i < n) :
    c.slice i (k + 1) = c.get i :: c.slice (i + 1) k := by
  have hi : i < c.cells.length := by rw [c.length_cells]; exact h
  rw [slice, slice, get, List.drop_eq_getElem_cons hi, List.take_succ_cons,
    List.getD_eq_getElem?_getD, List.getElem?_eq_getElem hi, Option.getD_some]

/-- A write at the end of the written part extends it. -/
theorem content_write {c : Cells α n} {i : ℕ} {xs : List α} (h : i + xs.length ≤ n) :
    (c.write i xs).content (i + xs.length) = c.content i ++ xs :=
  Buffer.take_memcpy (by rw [c.length_cells]; exact h)

/-- The cells after a write of one cell behind the first ones. -/
theorem cells_write {c : Cells α n} {k : ℕ} {x : α} {xs : List α} (h : c.content k = xs)
    (hk : k < n) : ∃ rest, (c.write k [x]).cells = xs ++ x :: rest := by
  have hc : (c.write k [x]).content (k + 1) = xs ++ [x] := by
    rw [← h]
    exact content_write hk
  refine ⟨(c.write k [x]).cells.drop (k + 1), ?_⟩
  calc (c.write k [x]).cells
      = (c.write k [x]).content (k + 1) ++ (c.write k [x]).cells.drop (k + 1) :=
        (List.take_append_drop _ _).symm
    _ = xs ++ x :: (c.write k [x]).cells.drop (k + 1) := by
        rw [hc, List.append_assoc, List.singleton_append]

/-- What has been written from the start of the buffer can be read back. -/
theorem content_write_zero {c : Cells α n} {xs : List α} (h : xs.length ≤ n) :
    (c.write 0 xs).content xs.length = xs := by
  have hc : (c.write 0 xs).content (0 + xs.length) = c.content 0 ++ xs := content_write (by omega)
  simpa [content] using hc

theorem slice_write_zero {c : Cells α n} {xs : List α} (h : xs.length ≤ n) :
    (c.write 0 xs).slice 0 xs.length = xs := by
  simpa [slice, content] using content_write_zero h (c := c)

/-- The cells after a write from the start of the buffer. -/
theorem get_write_zero [Inhabited α] {c : Cells α n} {xs : List α} {i : ℕ} (h : xs.length ≤ n)
    (hi : i < xs.length) : (c.write 0 xs).get i = xs.getD i default := by
  have hc := congrArg (fun ys => ys.getD i default) (content_write_zero h (c := c))
  rw [← hc, get, content, List.getD_eq_getElem?_getD, List.getD_eq_getElem?_getD,
    List.getElem?_take_of_lt hi]

/-- The last cells of a write from the start of the buffer. -/
theorem slice_write_drop {c : Cells α n} {xs : List α} (h : xs.length ≤ n) (i : ℕ) :
    (c.write 0 xs).slice i (xs.length - i) = xs.drop i := by
  have hc := content_write_zero h (c := c)
  rw [slice, ← List.drop_take]
  exact congrArg (List.drop i) hc

/-- The cells after a write of one cell. -/
theorem get_write_singleton [Inhabited α] (c : Cells α n) (i : ℕ) (x : α) (k : ℕ) :
    (c.write i [x]).get k = if k = i ∧ i < n then x else c.get k := by
  have hlen := c.length_cells
  show (Buffer.memcpy c.cells i [x]).getD k default = _
  unfold Buffer.memcpy get
  by_cases hi : i < n
  · rw [if_pos (by rw [List.length_singleton]; omega)]
    have htake : (c.cells.take i).length = i := by
      rw [List.length_take]
      omega
    simp only [List.getD_eq_getElem?_getD, hi, and_true]
    obtain hk | rfl | hk := Nat.lt_trichotomy k i
    · rw [if_neg (by omega), List.append_assoc, List.getElem?_append_left (by omega),
        List.getElem?_take_of_lt hk]
    · rw [if_pos rfl, List.append_assoc, List.getElem?_append_right (by omega), htake]
      simp
    · rw [if_neg (by omega), List.getElem?_append_right (by simp; omega), List.getElem?_drop]
      simp only [List.length_append, htake, List.length_singleton]
      rw [show i + 1 + (k - (i + 1)) = k by omega]
  · rw [if_neg (by rw [List.length_singleton]; omega), if_neg (fun h => hi h.2)]

end Cells

end TesselFirmware
