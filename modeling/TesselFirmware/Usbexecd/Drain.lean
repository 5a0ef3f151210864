import Mathlib.Tactic.SplitIfs
import TesselFirmware.Usbexecd.Pipebuf

/-!
# The ring of a pipe buffer

`Pipebuf.Holds pb q` says that the internal buffer holds the bytes `q`.  `writeLoop_ok` is the
specification of the loop of `write_from_pipebuf`: if every `write` takes something, the first
bytes of the ring have been taken, in order, and nothing else of the pipe buffer has changed.
-/

namespace TesselFirmware

theorem sizeT_natCast {n : ℕ} (h : n < 0x100000000) : sizeT n = n := by
  unfold sizeT
  omega

theorem sizeT_of_nonneg {i : ℤ} (h : 0 ≤ i) (hi : i < 0x100000000) : (sizeT i : ℤ) = i := by
  unfold sizeT
  omega

theorem toInt32_of_nonneg {i : ℤ} (h : 0 ≤ i) (hi : i < 0x80000000) : toInt32 i = i := by
  rw [toInt32, BitVec.toInt_ofInt, Int.bmod_def]
  split_ifs <;> omega

namespace Pipebuf

variable {pb pb' pb'' : Pipebuf} {q bytes : List Byte}

/-- The internal buffer holds the bytes `q`. -/
structure Holds (pb : Pipebuf) (q : List Byte) : Prop where
  ring : Ring.Holds (· = ·) internalPipeBufSize (fun k => pb.buffer k) pb.startpos.toNat q
  start : 0 ≤ pb.startpos
  count : pb.bufcount = q.length
  endpos : pb.endpos = (pb.startpos + pb.bufcount) % internalPipeBufSize

/-- Two pipe buffers that differ at most in their ring. -/
structure SameBesidesRing (pb pb' : Pipebuf) : Prop where
  id : pb'.id = pb.id
  role : pb'.role = pb.role
  eof : pb'.eof = pb.eof
  credit : pb'.credit = pb.credit
  fd : pb'.fd = pb.fd
  registered : pb'.registered = pb.registered

theorem SameBesidesRing.refl (pb : Pipebuf) : SameBesidesRing pb pb := ⟨rfl, rfl, rfl, rfl, rfl, rfl⟩

theorem SameBesidesRing.trans (h : SameBesidesRing pb pb') (h' : SameBesidesRing pb' pb'') :
    SameBesidesRing pb pb'' :=
  ⟨h'.id.trans h.id, h'.role.trans h.role, h'.eof.trans h.eof, h'.credit.trans h.credit,
    h'.fd.trans h.fd, h'.registered.trans h.registered⟩

namespace Holds

theorem startpos_lt (h : pb.Holds q) : pb.startpos < internalPipeBufSize := by
  have hlt := h.ring.read_lt
  have := h.start
  omega

theorem length_le (h : pb.Holds q) : q.length ≤ internalPipeBufSize := h.ring.length_le

theorem endpos_nonneg (h : pb.Holds q) : 0 ≤ pb.endpos := by
  rw [h.endpos]
  exact Int.emod_nonneg _ (by decide)

theorem endpos_lt (h : pb.Holds q) : pb.endpos < internalPipeBufSize := by
  rw [h.endpos]
  exact Int.emod_lt_of_pos _ (by decide)

theorem toNat_endpos (h : pb.Holds q) :
    pb.endpos.toNat = (pb.startpos.toNat + q.length) % internalPipeBufSize := by
  have hstart := h.start
  have hend := h.endpos
  rw [h.count] at hend
  unfold internalPipeBufSize at *
  omega

/-- The first bytes of the ring, if they lie before the end of the buffer. -/
theorem load {m : ℕ} (h : pb.Holds q) (hm : m ≤ q.length)
    (hwrap : pb.startpos + m ≤ internalPipeBufSize) :
    TesselFirmware.load pb.buffer pb.startpos m = q.take m := by
  have hstart := h.start
  rw [← h.ring.load hm (by omega), TesselFirmware.load]
  refine List.map_congr_left fun k _ => ?_
  show pb.buffer (pb.startpos + k) = pb.buffer ((pb.startpos.toNat + k : ℕ) : ℤ)
  rw [Int.natCast_add, Int.toNat_of_nonneg hstart]

/-- The first bytes leave the ring. -/
theorem drain {m : ℕ} (h : pb.Holds q) (hm : m ≤ q.length)
    (hwrap : pb.startpos + m ≤ internalPipeBufSize) :
    Holds
      { pb with
        startpos := if pb.startpos + m = internalPipeBufSize then 0 else pb.startpos + m
        bufcount := pb.bufcount - m } (q.drop m) := by
  have hstart := h.start
  have hend := h.endpos
  have hcount := h.count
  have hnext : (if pb.startpos + m = internalPipeBufSize then 0 else pb.startpos + (m : ℤ)).toNat =
      (pb.startpos.toNat + m) % internalPipeBufSize := by
    unfold internalPipeBufSize at *
    split_ifs <;> omega
  refine ⟨?_, ?_, ?_, ?_⟩
  · show Ring.Holds _ _ _ (if pb.startpos + m = internalPipeBufSize then 0
      else pb.startpos + (m : ℤ)).toNat _
    rw [hnext]
    exact h.ring.drop m
  · show 0 ≤ if pb.startpos + m = internalPipeBufSize then 0 else pb.startpos + (m : ℤ)
    split_ifs <;> omega
  · show pb.bufcount - m = (q.drop m).length
    rw [List.length_drop]
    omega
  · show pb.endpos = ((if pb.startpos + m = internalPipeBufSize then 0
      else pb.startpos + (m : ℤ)) + (pb.bufcount - m)) % internalPipeBufSize
    unfold internalPipeBufSize at *
    split_ifs <;> omega

/-- Bytes are put behind the last one, up to the end of the buffer at most. -/
theorem fill (h : pb.Holds q) (hn : q.length + bytes.length ≤ internalPipeBufSize)
    (hwrap : pb.endpos + bytes.length ≤ internalPipeBufSize) :
    Holds
      { pb with
        buffer := store pb.buffer pb.endpos bytes
        bufcount := pb.bufcount + bytes.length
        endpos := if pb.endpos + bytes.length = internalPipeBufSize then 0
          else pb.endpos + bytes.length } (q ++ bytes) := by
  have hend := h.endpos
  have hcount := h.count
  have hnat := h.toNat_endpos
  have hnonneg := h.endpos_nonneg
  refine ⟨?_, h.start, ?_, ?_⟩
  · refine h.ring.store hn (by omega) (fun k y hy => ?_) (fun i hi => ?_)
    · have hk := (List.getElem?_eq_some_iff.1 hy).1
      show store pb.buffer pb.endpos bytes
        (((pb.startpos.toNat + q.length) % internalPipeBufSize + k : ℕ) : ℤ) = y
      rw [← hnat, store, if_pos (by omega), List.getD_eq_getElem?_getD,
        show (((pb.endpos.toNat + k : ℕ) : ℤ) - pb.endpos).toNat = k by omega, hy, Option.getD_some]
    · show store pb.buffer pb.endpos bytes (i : ℤ) = pb.buffer i
      rw [store, if_neg fun hin => ?_]
      exact hi (i - pb.endpos.toNat) (by omega) (by omega)
  · show pb.bufcount + bytes.length = (q ++ bytes).length
    rw [List.length_append]
    omega
  · show (if pb.endpos + bytes.length = internalPipeBufSize then 0 else pb.endpos + bytes.length) =
      (pb.startpos + (pb.bufcount + bytes.length)) % internalPipeBufSize
    unfold internalPipeBufSize at *
    split_ifs <;> omega

end Holds

/-- **The loop of `write_from_pipebuf`**, when every `write` takes at least one byte: the first
bytes of the ring have been taken, in order. -/
theorem writeLoop_ok {writes rest : List ℤ} {n : ℕ} {taken taken' : List Byte}
    (hpos : ∀ w ∈ writes, 0 < w) (h : pb.Holds q) (hn : n ≤ q.length)
    (hw : writeLoop writes pb n taken = .ok (pb', taken', rest)) :
    taken' = taken ++ q.take n ∧ pb'.Holds (q.drop n) ∧ SameBesidesRing pb pb' ∧
      ∀ w ∈ rest, 0 < w := by
  induction writes generalizing pb q n taken with
  | nil =>
    unfold writeLoop at hw
    split_ifs at hw with h0
    obtain rfl : n = 0 := by omega
    cases hw
    rw [List.take_zero, List.append_nil]
    exact ⟨rfl, h, .refl _, hpos⟩
  | cons written writes ih =>
    rw [writeLoop] at hw
    by_cases h0 : (n : ℤ) = 0
    · rw [if_pos h0] at hw
      obtain rfl : n = 0 := by omega
      cases hw
      rw [List.take_zero, List.append_nil]
      exact ⟨rfl, h, .refl _, hpos⟩
    · rw [if_neg h0] at hw
      dsimp only at hw
      by_cases hbad : written < -1 ∨ (if pb.startpos + n > internalPipeBufSize then
          internalPipeBufSize - pb.startpos else n) < written
      · rw [if_pos hbad] at hw
        cases hw
      rw [if_neg hbad] at hw
      have hwritten := hpos written List.mem_cons_self
      have hfit : written ≤ n ∧ pb.startpos + written ≤ internalPipeBufSize := by
        have := h.startpos_lt
        split_ifs at hbad <;> omega
      obtain ⟨m, rfl⟩ := Int.eq_ofNat_of_zero_le (Int.le_of_lt hwritten)
      have hm : m ≤ q.length := by omega
      have hload := h.load hm hfit.2
      rw [show (n : ℤ) - m = ((n - m : ℕ) : ℤ) by omega, Int.toNat_natCast, hload] at hw
      obtain ⟨htaken, hholds, hsame, hrest⟩ :=
        ih (fun w hw => hpos w (List.mem_cons_of_mem _ hw)) (h.drain hm hfit.2)
          (by rw [List.length_drop]; omega) hw
      refine ⟨?_, ?_, ?_, hrest⟩
      · rw [htaken, List.append_assoc, ← List.take_add, Nat.add_sub_cancel' (by omega)]
      · rwa [List.drop_drop, Nat.add_sub_cancel' (by omega)] at hholds
      · exact ⟨hsame.id, hsame.role, hsame.eof, hsame.credit, hsame.fd, hsame.registered⟩

/-- `write_from_pipebuf`, when every `write` takes at least one byte. -/
theorem writeFromPipebuf_ok {writes : List ℤ} {n : ℕ} {w : Written}
    (hpos : ∀ w ∈ writes, 0 < w) (h : pb.Holds q) (hn : n ≤ q.length)
    (hw : pb.writeFromPipebuf n writes = .ok w) :
    w.bytes = q.take n ∧ w.total = n ∧ w.pb.Holds (q.drop n) ∧ SameBesidesRing pb w.pb ∧
      ∀ r ∈ w.writes, 0 < r := by
  obtain ⟨⟨pb', bytes, rest⟩, hloop, hret⟩ := Except.bind_eq_ok.1 hw
  cases hret
  obtain ⟨htaken, hholds, hsame, hrest⟩ := writeLoop_ok hpos h hn hloop
  exact ⟨htaken, Int.sub_zero _, hholds, hsame, hrest⟩

/-- Whatever `write` answers, the loop of `write_from_pipebuf` ends when `bufcount` has gone down by
`write_len`. -/
theorem writeLoop_count {writes rest : List ℤ} {n : ℤ} {taken taken' : List Byte}
    (h : writeLoop writes pb n taken = .ok (pb', taken', rest)) :
    pb'.bufcount = pb.bufcount - n ∧ pb'.endpos = pb.endpos ∧ SameBesidesRing pb pb' := by
  induction writes generalizing pb n taken with
  | nil =>
    rw [writeLoop] at h
    split_ifs at h with h0
    cases h
    exact ⟨by omega, rfl, .refl _⟩
  | cons written writes ih =>
    rw [writeLoop] at h
    by_cases h0 : n = 0
    · rw [if_pos h0] at h
      cases h
      exact ⟨by omega, rfl, .refl _⟩
    rw [if_neg h0] at h
    dsimp only at h
    by_cases hbad : written < -1 ∨ (if pb.startpos + n > internalPipeBufSize then
        internalPipeBufSize - pb.startpos else n) < written
    · rw [if_pos hbad] at h
      cases h
    · rw [if_neg hbad] at h
      obtain ⟨hcount, hend, hsame⟩ := ih h
      refine ⟨?_, hend, hsame.id, hsame.role, hsame.eof, hsame.credit, hsame.fd, hsame.registered⟩
      rw [hcount]
      show pb.bufcount - written - (n - written) = pb.bufcount - n
      omega

theorem writeFromPipebuf_count {writes : List ℤ} {n : ℤ} {w : Written}
    (h : pb.writeFromPipebuf n writes = .ok w) :
    w.total = n ∧ w.pb.bufcount = pb.bufcount - n ∧ w.pb.endpos = pb.endpos ∧
      SameBesidesRing pb w.pb := by
  obtain ⟨⟨pb₁, bytes, rest⟩, hloop, hret⟩ := Except.bind_eq_ok.1 h
  cases hret
  exact ⟨Int.sub_zero n, writeLoop_count hloop⟩

/-- One pass of the loop of `pipebuf_out_to_internal_buffer` takes at least one byte, and no more
than fit before the end of the buffer. -/
theorem exists_toRead {n : ℕ} (hn : n ≠ 0) (hlt : pb.endpos < internalPipeBufSize) :
    ∃ m : ℕ, (if pb.endpos + n > internalPipeBufSize then internalPipeBufSize - pb.endpos
        else (n : ℤ)) = m ∧ 1 ≤ m ∧ m ≤ n ∧ pb.endpos + m ≤ internalPipeBufSize := by
  split_ifs with hc
  · exact ⟨(internalPipeBufSize - pb.endpos).toNat, by omega, by omega, by omega, by omega⟩
  · exact ⟨n, rfl, by omega, Nat.le_refl _, by omega⟩

theorem addEpoll_ok (h : pb.addEpoll = .ok pb') :
    pb.fd ∧ pb.registered = false ∧ pb' = { pb with registered := true } := by
  unfold addEpoll at h
  split_ifs at h with hc
  cases h
  rw [Bool.and_eq_true, Bool.not_eq_true'] at hc
  exact ⟨hc.1, hc.2, rfl⟩

theorem deleteEpoll_ok (h : pb.deleteEpoll = .ok pb') :
    pb.fd ∧ pb.registered ∧ pb' = { pb with registered := false } := by
  unfold deleteEpoll at h
  split_ifs at h with hc
  cases h
  rw [Bool.and_eq_true] at hc
  exact ⟨hc.1, hc.2, rfl⟩

end Pipebuf

end TesselFirmware
