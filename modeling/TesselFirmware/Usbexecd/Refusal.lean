import Mathlib.Data.List.Infix
import TesselFirmware.Usbexecd.Drain

/-!
# A child that does not read (`write_from_pipebuf` of `soc/usbexecd.c`)

The pipes to a child do not block: `write` returns -1 when the child has stopped reading and its
pipe is full.  The loop of `write_from_pipebuf` adds whatever `write` returns to its counters.

* `Draining.Passes` : the states of the loop between two calls of `write`;
* `Pipebuf.DrainsExactly` : in all of them, and when the function returns, the counters agree with
  what the descriptor has taken, and that is the beginning of the ring;
* `Pipebuf.drainsExactly_iff` : this is so if and only if no `write` returns -1.
-/

namespace TesselFirmware

/-- The loop of `write_from_pipebuf` between two calls of `write`. -/
structure Draining where
  pb : Pipebuf
  writeLen : ℤ
  /-- What the descriptor has taken. -/
  taken : List Byte

namespace Draining

variable (d : Draining)

/-- `to_write`. -/
def toWrite : ℤ :=
  if d.pb.startpos + d.writeLen > internalPipeBufSize then
    internalPipeBufSize - d.pb.startpos else d.writeLen

/-- `write` returns -1, or how many of the bytes it has taken. -/
def Answers (written : ℤ) : Prop := -1 ≤ written ∧ written ≤ d.toWrite

instance (written : ℤ) : Decidable (d.Answers written) :=
  inferInstanceAs (Decidable (-1 ≤ written ∧ written ≤ d.toWrite))

/-- What the loop does with the result of `write`. -/
def pass (written : ℤ) : Draining where
  pb :=
    { d.pb with
      startpos := if d.pb.startpos + written = internalPipeBufSize then 0
        else d.pb.startpos + written
      bufcount := d.pb.bufcount - written }
  writeLen := d.writeLen - written
  taken := d.taken ++ load d.pb.buffer d.pb.startpos written.toNat

/-- The loop goes from `d` to `d'` with these results of `write`. -/
inductive Passes : Draining → List ℤ → Draining → Prop
  | refl (d : Draining) : Passes d [] d
  | pass {d d' : Draining} {written : ℤ} {writes : List ℤ} :
      d.writeLen ≠ 0 → d.Answers written → Passes (d.pass written) writes d' →
      Passes d (written :: writes) d'

variable {d}

theorem Passes.split {d' : Draining} {writes rest : List ℤ} (h : Passes d (writes ++ rest) d') :
    ∃ d₁, Passes d writes d₁ ∧ Passes d₁ rest d' := by
  induction writes generalizing d with
  | nil => exact ⟨d, .refl d, h⟩
  | cons written writes ih =>
    cases h with
    | pass hlen hans hrest =>
      obtain ⟨d₁, h₁, h₂⟩ := ih hrest
      exact ⟨d₁, .pass hlen hans h₁, h₂⟩

theorem Passes.append {d₁ d' : Draining} {writes rest : List ℤ} (h : Passes d writes d₁)
    (h' : Passes d₁ rest d') : Passes d (writes ++ rest) d' := by
  induction h with
  | refl => exact h'
  | pass hlen hans _ ih => exact .pass hlen hans (ih h')

/-- `write_from_pipebuf` returns in the state in which its loop has nothing left to write. -/
theorem writeLoop_eq_ok_iff {writes rest : List ℤ} {pb pb' : Pipebuf} {n : ℤ}
    {taken taken' : List Byte} :
    Pipebuf.writeLoop writes pb n taken = .ok (pb', taken', rest) ↔
      ∃ answered, writes = answered ++ rest ∧
        Passes ⟨pb, n, taken⟩ answered ⟨pb', 0, taken'⟩ := by
  constructor
  · intro h
    induction writes generalizing pb n taken with
    | nil =>
      unfold Pipebuf.writeLoop at h
      split_ifs at h with h0
      cases h
      subst h0
      exact ⟨[], rfl, .refl _⟩
    | cons written writes ih =>
      rw [Pipebuf.writeLoop] at h
      by_cases h0 : n = 0
      · rw [if_pos h0] at h
        cases h
        subst h0
        exact ⟨[], rfl, .refl _⟩
      rw [if_neg h0] at h
      dsimp only at h
      -- `write` never gives such an answer
      by_cases hbad : written < -1 ∨ (if pb.startpos + n > internalPipeBufSize then
          internalPipeBufSize - pb.startpos else n) < written
      · rw [if_pos hbad] at h
        cases h
      · rw [if_neg hbad] at h
        obtain ⟨answered, rfl, hpasses⟩ := ih h
        have hans : Answers ⟨pb, n, taken⟩ written :=
          ⟨by omega, Int.not_lt.1 fun hlt => hbad (.inr hlt)⟩
        exact ⟨written :: answered, rfl, .pass h0 hans hpasses⟩
  · rintro ⟨answered, rfl, hpasses⟩
    induction answered generalizing pb n taken with
    | nil =>
      cases hpasses
      cases rest <;> rw [List.nil_append, Pipebuf.writeLoop, if_pos rfl]
    | cons written answered ih =>
      cases hpasses with
      | pass hlen hans hrest =>
        have hbad : ¬ (written < -1 ∨ (if pb.startpos + n > internalPipeBufSize then
            internalPipeBufSize - pb.startpos else n) < written) := by
          rintro (hlow | hhigh)
          · exact Int.not_lt.2 hans.1 hlow
          · exact Int.not_lt.2 hans.2 hhigh
        rw [List.cons_append, Pipebuf.writeLoop, if_neg hlen]
        dsimp only
        rw [if_neg hbad]
        exact ih hrest

end Draining

namespace Pipebuf

variable {pb : Pipebuf} {n : ℤ} {writes : List ℤ}

/-- The first `k` bytes of the ring. -/
def firstBytes (pb : Pipebuf) (k : ℕ) : List Byte :=
  (List.range k).map fun i : ℕ => pb.buffer ((pb.startpos + i) % internalPipeBufSize)

/-- The counters of the loop, which has started with `pb`, agree with what the descriptor has
taken, and that is the beginning of the ring. -/
structure Drained (pb : Pipebuf) (d : Draining) : Prop where
  first : d.taken = pb.firstBytes d.taken.length
  once : d.taken.length ≤ internalPipeBufSize
  stored : (d.taken.length : ℤ) ≤ max 0 pb.bufcount
  start_nonneg : 0 ≤ d.pb.startpos
  start_lt : d.pb.startpos < internalPipeBufSize
  start : d.pb.startpos = (pb.startpos + d.taken.length) % internalPipeBufSize
  count : d.pb.bufcount = pb.bufcount - d.taken.length

/-- `write_from_pipebuf` drains the ring exactly, throughout and when it returns. -/
structure DrainsExactly (pb : Pipebuf) (n : ℤ) (writes : List ℤ) : Prop where
  throughout : ∀ answered d, answered <+: writes → Draining.Passes ⟨pb, n, []⟩ answered d →
    pb.Drained d
  return_eq : ∀ w, pb.writeFromPipebuf n writes = .ok w →
    pb.Drained ⟨w.pb, 0, w.bytes⟩ ∧ w.total = w.bytes.length

/-- The bytes at the front of the ring, if they lie before the end of the buffer, are the next
ones. -/
theorem firstBytes_add {k m : ℕ} {start : ℤ}
    (hstart : start = (pb.startpos + k) % internalPipeBufSize)
    (hwrap : start + m ≤ internalPipeBufSize) :
    pb.firstBytes (k + m) = pb.firstBytes k ++ load pb.buffer start m := by
  rw [firstBytes, List.range_add, List.map_append, List.map_map]
  congr 1
  refine List.map_congr_left fun i hi => ?_
  have him : i < m := List.mem_range.1 hi
  show pb.buffer ((pb.startpos + (k + i : ℕ)) % internalPipeBufSize) = pb.buffer (start + i)
  congr 1
  unfold internalPipeBufSize at *
  omega

/-- What the loop keeps, besides `Drained`: it works on the same ring, and `write_len` counts down
by what the descriptor has taken. -/
structure DrainInv (pb : Pipebuf) (n : ℤ) (d : Draining) : Prop where
  drained : pb.Drained d
  buffer : d.pb.buffer = pb.buffer
  writeLen : d.writeLen = n - d.taken.length

theorem DrainInv.start (h0 : 0 ≤ pb.startpos) (hlt : pb.startpos < internalPipeBufSize) :
    DrainInv pb n ⟨pb, n, []⟩ := by
  have hmod : pb.startpos = (pb.startpos + (0 : ℕ)) % internalPipeBufSize := by
    rw [Int.natCast_zero, Int.add_zero, Int.emod_eq_of_lt h0 hlt]
  exact ⟨⟨rfl, Nat.zero_le _, Int.le_max_left _ _, h0, hlt, hmod, (Int.sub_zero _).symm⟩, rfl,
    (Int.sub_zero _).symm⟩

/-- One pass, when `write` does not return -1. -/
theorem DrainInv.pass {d : Draining} {written : ℤ} (h : DrainInv pb n d)
    (hcount : pb.bufcount ≤ internalPipeBufSize) (hn : n ≤ pb.bufcount)
    (hans : d.Answers written) (hne : written ≠ -1) : DrainInv pb n (d.pass written) := by
  obtain ⟨hlow, hhigh⟩ := hans
  obtain ⟨m, rfl⟩ := Int.eq_ofNat_of_zero_le (show 0 ≤ written by omega)
  have hd := h.drained
  have hlen := h.writeLen
  have hstart_lt := hd.start_lt
  have hstart_nonneg := hd.start_nonneg
  -- `to_write` stops at the end of the array, so the bytes taken are consecutive
  have hfit : (m : ℤ) ≤ d.writeLen ∧ d.pb.startpos + m ≤ internalPipeBufSize := by
    unfold Draining.toWrite at hhigh
    split_ifs at hhigh <;> omega
  have htaken : (d.pass m).taken = d.taken ++ load d.pb.buffer d.pb.startpos m := rfl
  have hlength : (d.pass m).taken.length = d.taken.length + m := by
    rw [htaken, List.length_append, load, List.length_map, List.length_range]
  refine ⟨⟨?_, ?_, ?_, ?_, ?_, ?_, ?_⟩, h.buffer, ?_⟩
  · rw [hlength, firstBytes_add hd.start hfit.2, ← hd.first, htaken, h.buffer]
  · rw [hlength]
    have := hd.once
    omega
  · rw [hlength]
    have := hd.stored
    omega
  · show 0 ≤ if d.pb.startpos + (m : ℤ) = internalPipeBufSize then 0 else d.pb.startpos + m
    split_ifs <;> omega
  · show (if d.pb.startpos + (m : ℤ) = internalPipeBufSize then 0 else d.pb.startpos + m) <
      internalPipeBufSize
    unfold internalPipeBufSize at *
    split_ifs <;> omega
  · show (if d.pb.startpos + (m : ℤ) = internalPipeBufSize then 0 else d.pb.startpos + m) = _
    have := hd.start
    rw [hlength]
    unfold internalPipeBufSize at *
    split_ifs <;> omega
  · show d.pb.bufcount - m = _
    have := hd.count
    rw [hlength]
    omega
  · show d.writeLen - m = _
    rw [hlength]
    omega

/-- The passes of the loop, as long as no `write` returns -1. -/
theorem DrainInv.passes {d d' : Draining} (h : DrainInv pb n d)
    (hcount : pb.bufcount ≤ internalPipeBufSize) (hn : n ≤ pb.bufcount)
    (hpasses : d.Passes writes d') (hne : (-1 : ℤ) ∉ writes) : DrainInv pb n d' := by
  induction hpasses with
  | refl => exact h
  | pass _ hans _ ih =>
    rw [List.mem_cons, not_or] at hne
    exact ih (h.pass hcount hn hans (Ne.symm hne.1)) hne.2

/-- **A pipe buffer is drained exactly if and only if no `write` returns -1**, however the pipe
buffer lies in the ring and wherever the other writes are cut short. -/
theorem drainsExactly_iff {d : Draining} (h0 : 0 ≤ pb.startpos)
    (hlt : pb.startpos < internalPipeBufSize) (hcount : pb.bufcount ≤ internalPipeBufSize)
    (hn : n ≤ pb.bufcount) (hrun : Draining.Passes ⟨pb, n, []⟩ writes d) :
    pb.DrainsExactly n writes ↔ (-1 : ℤ) ∉ writes := by
  have hstart : DrainInv pb n ⟨pb, n, []⟩ := .start h0 hlt
  constructor
  · intro hexact hmem
    -- the first result -1: everything is exact before it, and `startpos` goes back with it
    obtain ⟨answered, rest, rfl, hbefore⟩ := List.eq_append_cons_of_mem hmem
    obtain ⟨d₁, hpasses, hrest⟩ := hrun.split
    cases hrest with
    | pass hlen hans _ =>
      have hd₁ := (hstart.passes hcount hn hpasses hbefore).drained
      have hd₂ : pb.Drained (d₁.pass (-1)) :=
        hexact.throughout (answered ++ [-1]) _ (by simp) (hpasses.append (.pass hlen hans (.refl _)))
      have htaken : (d₁.pass (-1)).taken = d₁.taken := List.append_nil _
      have hback : (d₁.pass (-1)).pb.startpos = d₁.pb.startpos := by
        rw [hd₂.start, hd₁.start, htaken]
      have hlt₁ := hd₁.start_lt
      revert hback
      show (if d₁.pb.startpos + -1 = (internalPipeBufSize : ℤ) then 0 else d₁.pb.startpos + -1) =
        d₁.pb.startpos → False
      split_ifs <;> omega
  · intro hne
    have hinv : ∀ answered d, answered <+: writes → Draining.Passes ⟨pb, n, []⟩ answered d →
        DrainInv pb n d := fun answered d hpre hpasses =>
      hstart.passes hcount hn hpasses fun hmem => hne (hpre.subset hmem)
    refine ⟨fun answered d hpre hpasses => (hinv answered d hpre hpasses).drained, ?_⟩
    intro w hw
    obtain ⟨⟨pb', bytes, rest⟩, hloop, hret⟩ := Except.bind_eq_ok.1 hw
    cases hret
    obtain ⟨answered, rfl, hpasses⟩ := Draining.writeLoop_eq_ok_iff.1 hloop
    have hend := hinv answered _ (List.prefix_append _ _) hpasses
    have hlen : (0 : ℤ) = n - bytes.length := hend.writeLen
    refine ⟨hend.drained, ?_⟩
    show n - 0 = bytes.length
    omega

/-- A pipe buffer with `bufcount` bytes in the ring, from `startpos` on. -/
def filled (startpos bufcount : ℤ) : Pipebuf :=
  { commonInit (fun i => BitVec.ofInt 8 i) 0#8 .stdin with startpos := startpos, bufcount := bufcount }

theorem drainsExactly_filled : (filled 32767 5).DrainsExactly 5 [1, 3, 1] ↔ (-1 : ℤ) ∉ [1, 3, 1] :=
  drainsExactly_iff (by decide) (by decide) (by decide) (by decide)
    (.pass (by decide) (by decide +kernel)
      (.pass (by decide) (by decide +kernel) (.pass (by decide) (by decide +kernel) (.refl _))))

/-- The first `write` takes nothing and the second one six bytes, of which the first one lies before
the buffer; `write_from_pipebuf` returns 5. -/
theorem not_drainsExactly_filled :
    ((filled 0 5).writeFromPipebuf 5 [-1, 6]).toOption.map (fun w => (w.total, w.bytes)) =
        some (5, [0xFF#8, 0#8, 1#8, 2#8, 3#8, 4#8]) ∧
      ¬ (filled 0 5).DrainsExactly 5 [-1, 6] := by
  refine ⟨by decide +kernel, fun hexact => ?_⟩
  have hpasses : Draining.Passes ⟨filled 0 5, 5, []⟩ [-1] (Draining.pass ⟨filled 0 5, 5, []⟩ (-1)) :=
    .pass (by decide) (by decide +kernel) (.refl _)
  have hd := hexact.throughout [-1] _ (by simp) hpasses
  exact absurd hd.start_nonneg (by decide +kernel)

end Pipebuf

end TesselFirmware
