import TesselFirmware.Machine.Basic
import TesselFirmware.Usbexecd.Drain

/-!
# Credit of the input of a child (`soc/usbexecd.c`)

What the host sends to stdin or the control stream waits in the ring until the child's end of the
pipe takes it.  The host may send as much as it has been granted: 32 KiB at first, and then with
every ACK as many bytes as the child has taken.

* `Pipebuf.sockLoop_ok` : what comes from the socket goes behind what waits;
* `OutRun.conserved` : in every run credit and waiting bytes add up to the size of the ring, the
  grants are the size of the ring and what has been written, and the child gets what the host has
  sent, in order.
-/

namespace TesselFirmware

/-- The number that the host reads in an ACK, in little-endian order. -/
def ofSizeBytes : List Byte → ℕ
  | [] => 0
  | b :: bytes => b.toNat + 256 * ofSizeBytes bytes

theorem ofSizeBytes_sizeBytes {n : ℕ} (h : n < 0x100000000) : ofSizeBytes (sizeBytes n) = n := by
  simp only [sizeBytes, ofSizeBytes, BitVec.toNat_ofNat]
  omega

/-- One writable pipe buffer with the bytes received from the host, the bytes that the child's end
has taken, the packets sent to the host, and whether the host has asked to close the stream. -/
structure OutRun where
  pb : Pipebuf
  received : List Byte
  written : List Byte
  frames : List Frame
  closeRequested : Bool

inductive OutEvent
  /-- `CMD_WRITE_CONTROL`, `CMD_WRITE_STDIN`. -/
  | write (bytes : List Byte)
  /-- `CMD_CLOSE_CONTROL`, `CMD_CLOSE_STDIN`. -/
  | close
  /-- The child's end of the pipe is writable. -/
  | writable (writes : List ℤ)

namespace OutRun

/-- After `pipebuf_out_init`. -/
def init (buffer : ℤ → Byte) (id : Byte) (role : Role) : OutRun where
  pb := (Pipebuf.outInit buffer id role).1
  received := []
  written := []
  frames := (Pipebuf.outInit buffer id role).2
  closeRequested := false

variable (s : OutRun)

/-- The handlers of one stream.  The length of a packet is in two bytes of its header.  When the
process or the socket is closed, the pipe buffer is freed and the run ends. -/
def step (s : OutRun) : OutEvent → Option OutRun
  | .write bytes =>
    if bytes.length < 0x10000 then
      match s.pb.outToInternalBuffer bytes.length bytes with
      | .ok pb => some { s with pb := pb, received := s.received ++ bytes }
      | .error _ => none
    else none
  | .close => some { s with pb := s.pb.outClose .flush, closeRequested := true }
  | .writable writes =>
    match s.pb.outIsWritable writes with
    | .ok (pb, bytes, frames) =>
      some { s with pb := pb, written := s.written ++ bytes, frames := s.frames ++ frames }
    | .error _ => none

def machine : Machine OutRun OutEvent := ⟨step⟩

/-- The bytes that the packets have granted to the host. -/
def granted : ℕ := s.frames.foldr (fun f n => ofSizeBytes f.payload + n) 0

/-- The host keeps to what it has been granted and sends nothing after its request to close the
stream; the child's end takes at least one byte with each `write`. -/
def Proper (s : OutRun) : OutEvent → Prop
  | .write bytes => s.received.length + bytes.length ≤ s.granted ∧ s.closeRequested = false
  | .close => True
  | .writable writes => ∀ w ∈ writes, 0 < w

/-- Credit and waiting bytes are conserved, and the stream is a queue. -/
structure Conserved (s : OutRun) : Prop where
  credit : s.pb.credit + s.pb.bufcount = 32768
  bufcount : 0 ≤ s.pb.bufcount ∧ s.pb.bufcount ≤ 32768
  startpos : 0 ≤ s.pb.startpos ∧ s.pb.startpos ≤ 32767
  endpos : 0 ≤ s.pb.endpos ∧ s.pb.endpos ≤ 32767
  ring : s.pb.endpos = (s.pb.startpos + s.pb.bufcount) % 32768
  frames : ∀ f ∈ s.frames, f.cmd = cmdAckControl + s.pb.role.code ∧ f.id = s.pb.id ∧
    f.len = 4#8 ∧ f.payload.length = 4
  granted : s.granted = 32768 + s.written.length
  stream : s.written <+: s.received
  closed : s.pb.fd = false ↔ s.closeRequested ∧ s.written = s.received

end OutRun

/-! ### What the handlers do -/

namespace Pipebuf

variable {pb pb' : Pipebuf} {q : List Byte}

/-- What comes from the socket goes behind what waits. -/
theorem sockLoop_ok {fuel : ℕ} {bytes : List Byte} (hq : pb.Holds q) (hfuel : bytes.length ≤ fuel)
    (hn : q.length + bytes.length ≤ internalPipeBufSize)
    (h : sockLoop fuel pb bytes.length bytes = .ok pb') :
    pb'.Holds (q ++ bytes) ∧
      SameBesidesRing { pb with credit := pb.credit - bytes.length } pb' := by
  induction fuel generalizing pb q bytes with
  | zero =>
    cases h
    obtain rfl : bytes = [] := List.eq_nil_of_length_eq_zero (by omega)
    rw [List.append_nil]
    exact ⟨hq, rfl, rfl, rfl, (Int.sub_zero _).symm, rfl, rfl⟩
  | succ fuel ih =>
    rw [sockLoop] at h
    by_cases h0 : (bytes.length : ℤ) = 0
    · rw [if_pos h0] at h
      cases h
      obtain rfl : bytes = [] := List.eq_nil_of_length_eq_zero (by omega)
      rw [List.append_nil]
      exact ⟨hq, rfl, rfl, rfl, (Int.sub_zero _).symm, rfl, rfl⟩
    rw [if_neg h0] at h
    dsimp only at h
    -- the bytes up to the end of the buffer
    obtain ⟨m, hm, hpos, hle, hwrap⟩ :=
      exists_toRead (n := bytes.length) (by omega) hq.endpos_lt
    rw [hm] at h
    rw [if_neg (by omega), Int.toNat_natCast] at h
    have htake : (bytes.take m).length = m := by
      rw [List.length_take]
      omega
    have hfill := @hq.fill _ _ (bytes.take m) (by omega) (by omega)
    rw [htake] at hfill
    have hrest : ((bytes.length : ℤ) - m) = ((bytes.drop m).length : ℤ) := by
      rw [List.length_drop]
      omega
    rw [hrest] at h
    have hfill' : Holds
        { pb with
          buffer := store pb.buffer pb.endpos (bytes.take m)
          bufcount := pb.bufcount + m
          endpos := if pb.endpos + m = internalPipeBufSize then 0 else pb.endpos + m
          credit := pb.credit - m } (q ++ bytes.take m) :=
      ⟨hfill.ring, hfill.start, hfill.count, hfill.endpos⟩
    obtain ⟨hholds, hsame⟩ := ih hfill' (by rw [List.length_drop]; omega)
      (by simp only [List.length_append, htake, List.length_drop]; omega) h
    rw [List.append_assoc, List.take_append_drop] at hholds
    refine ⟨hholds, hsame.id, hsame.role, hsame.eof, ?_, hsame.fd, hsame.registered⟩
    rw [hsame.credit]
    show pb.credit - m - (bytes.drop m).length = pb.credit - bytes.length
    rw [List.length_drop]
    omega

/-- `pipebuf_out_to_internal_buffer`. -/
theorem outToInternalBuffer_ok {bytes : List Byte} (hq : pb.Holds q)
    (hn : q.length + bytes.length ≤ internalPipeBufSize)
    (h : pb.outToInternalBuffer bytes.length bytes = .ok pb') :
    pb.eof = false ∧ pb'.Holds (q ++ bytes) ∧ pb'.id = pb.id ∧ pb'.role = pb.role ∧
      pb'.eof = pb.eof ∧ pb'.credit = pb.credit - bytes.length ∧ pb'.fd = pb.fd := by
  unfold outToInternalBuffer at h
  by_cases heof : pb.eof
  · rw [if_pos heof] at h
    cases h
  rw [if_neg heof] at h
  obtain ⟨pb₁, hadd, h⟩ := Except.bind_eq_ok.1 h
  have h₁ : pb₁.Holds q ∧ pb₁.id = pb.id ∧ pb₁.role = pb.role ∧ pb₁.eof = pb.eof ∧
      pb₁.credit = pb.credit ∧ pb₁.fd = pb.fd := by
    split_ifs at hadd
    · obtain ⟨-, -, rfl⟩ := addEpoll_ok hadd
      exact ⟨⟨hq.ring, hq.start, hq.count, hq.endpos⟩, rfl, rfl, rfl, rfl, rfl⟩
    · cases hadd
      exact ⟨hq, rfl, rfl, rfl, rfl, rfl⟩
  obtain ⟨hq₁, hid, hrole, heof₁, hcredit, hfd⟩ := h₁
  obtain ⟨hholds, hsame⟩ := sockLoop_ok hq₁ (Nat.le_refl _) hn h
  refine ⟨by simpa using heof, hholds, hsame.id.trans hid, hsame.role.trans hrole,
    hsame.eof.trans heof₁, ?_, hsame.fd.trans hfd⟩
  rw [hsame.credit]
  show pb₁.credit - _ = _
  rw [hcredit]

/-- `pipebuf_out_close` with what waits flushed: an empty ring is closed at once. -/
theorem outClose_flush (hq : pb.Holds q) :
    (pb.outClose .flush).Holds q ∧ (pb.outClose .flush).id = pb.id ∧
      (pb.outClose .flush).role = pb.role ∧ (pb.outClose .flush).eof = true ∧
      (pb.outClose .flush).credit = pb.credit ∧
      ((pb.outClose .flush).fd = false ↔ pb.fd = false ∨ q = []) := by
  have hcount := hq.count
  have hnil : pb.bufcount = 0 ↔ q = [] := by
    rw [← List.length_eq_zero_iff]
    omega
  unfold outClose commonClose
  by_cases h0 : pb.bufcount = 0
  · obtain rfl := hnil.1 h0
    rw [if_pos (.inl h0)]
    by_cases hfd : pb.fd
    · rw [if_pos hfd]
      refine ⟨⟨.nil (Nat.zero_lt_succ _), Int.le_refl _, rfl, rfl⟩, rfl, rfl, rfl, rfl, ?_⟩
      exact iff_of_true rfl (.inr rfl)
    · rw [if_neg hfd]
      refine ⟨⟨hq.ring, hq.start, hq.count, hq.endpos⟩, rfl, rfl, rfl, rfl, ?_⟩
      exact iff_of_true (by simpa using hfd) (.inr rfl)
  · rw [if_neg (not_or.2 ⟨h0, by decide⟩)]
    refine ⟨⟨hq.ring, hq.start, hq.count, hq.endpos⟩, rfl, rfl, rfl, rfl, ?_⟩
    show pb.fd = false ↔ _
    rw [or_iff_left (fun hq => h0 (hnil.2 hq))]

/-- `pipebuf_out_is_writable`: all that waits is written and granted again. -/
theorem outIsWritable_ok {writes : List ℤ} {bytes : List Byte} {frames : List Frame}
    (hpos : ∀ w ∈ writes, 0 < w) (hq : pb.Holds q)
    (hcredit : pb.credit = internalPipeBufSize - q.length)
    (h : pb.outIsWritable writes = .ok (pb', bytes, frames)) :
    bytes = q ∧ pb'.Holds [] ∧ pb'.id = pb.id ∧ pb'.role = pb.role ∧ pb'.eof = pb.eof ∧
      pb'.credit = internalPipeBufSize ∧ pb.fd ∧ (pb'.fd = false ↔ pb.eof) ∧
      frames = [⟨cmdAckControl + pb.role.code, pb.id, 0#8, 4#8, sizeBytes q.length⟩] := by
  obtain ⟨w, hw, h⟩ := Except.bind_eq_ok.1 h
  have hlen := hq.length_le
  rw [hq.count] at hw h
  obtain ⟨hbytes, htotal, hholds, hsame, -⟩ := writeFromPipebuf_ok hpos hq (Nat.le_refl _) hw
  rw [List.take_length] at hbytes
  rw [List.drop_length] at hholds
  obtain ⟨pb₁, hdel, h⟩ := Except.bind_eq_ok.1 h
  rw [if_pos htotal.symm] at hdel
  obtain ⟨hfd, -, rfl⟩ := deleteEpoll_ok hdel
  have hsize : sizeT w.total = q.length := by
    rw [htotal]
    exact sizeT_natCast (by unfold internalPipeBufSize at hlen; omega)
  have hack : toInt32 (w.pb.credit + q.length) = internalPipeBufSize := by
    rw [hsame.credit, hcredit, Int.sub_add_cancel]
    rfl
  rw [hsize] at h
  unfold outAck at h
  dsimp only at h
  rw [hack, hsame.role, hsame.id, hsame.eof] at h
  have hholds₁ : Holds
      { w.pb with credit := internalPipeBufSize, registered := false, eof := pb.eof, id := pb.id,
                  role := pb.role } [] :=
    ⟨hholds.ring, hholds.start, hholds.count, hholds.endpos⟩
  by_cases heof : pb.eof
  · rw [if_pos ⟨heof, hholds.count⟩] at h
    cases h
    obtain ⟨hc, hid, hrole, heof', hcr, hfd'⟩ := outClose_flush hholds₁
    exact ⟨hbytes, hc, hid, hrole, heof'.trans heof.symm, hcr, hsame.fd ▸ hfd,
      iff_of_true (hfd'.2 (.inr rfl)) heof, rfl⟩
  · rw [if_neg fun hc => heof hc.1] at h
    cases h
    refine ⟨hbytes, hholds₁, rfl, rfl, rfl, rfl, hsame.fd ▸ hfd, iff_of_false ?_ heof, rfl⟩
    rw [hfd]
    decide

end Pipebuf

/-! ### Runs -/

namespace OutRun

variable {s t : OutRun} {q : List Byte}

/-- The bytes `q` wait in the ring. -/
structure Waiting (s : OutRun) (q : List Byte) : Prop where
  holds : s.pb.Holds q
  stream : s.written ++ q = s.received
  credit : s.pb.credit = internalPipeBufSize - q.length
  granted : s.granted = internalPipeBufSize + s.written.length
  frames : ∀ f ∈ s.frames, f.cmd = cmdAckControl + s.pb.role.code ∧ f.id = s.pb.id ∧
    f.len = 4#8 ∧ f.payload.length = 4
  eof : s.pb.eof = s.closeRequested
  closed : s.pb.fd = false ↔ s.closeRequested ∧ q = []

theorem granted_concat (pb : Pipebuf) (written : List Byte) (f : Frame) :
    granted { s with pb := pb, written := written, frames := s.frames ++ [f] } =
      s.granted + ofSizeBytes f.payload := by
  have hsum : ∀ frames : List Frame, (frames ++ [f]).foldr
      (fun f n => ofSizeBytes f.payload + n) 0 =
        frames.foldr (fun f n => ofSizeBytes f.payload + n) 0 + ofSizeBytes f.payload := by
    intro frames
    induction frames with
    | nil => exact Nat.add_comm _ 0
    | cons g frames ih => rw [List.cons_append, List.foldr_cons, List.foldr_cons, ih, Nat.add_assoc]
  exact hsum s.frames

theorem granted_init (buffer : ℤ → Byte) (id : Byte) (role : Role) :
    (init buffer id role).granted = internalPipeBufSize := by
  show ofSizeBytes (sizeBytes internalPipeBufSize) + 0 = _
  rw [ofSizeBytes_sizeBytes (by decide), Nat.add_zero]

theorem waiting_init (buffer : ℤ → Byte) (id : Byte) (role : Role) :
    (init buffer id role).Waiting [] where
  holds := ⟨.nil (Nat.zero_lt_succ _), Int.le_refl _, rfl, rfl⟩
  stream := rfl
  credit := rfl
  granted := granted_init buffer id role
  frames f hf := by
    obtain rfl := List.mem_singleton.1 hf
    exact ⟨rfl, rfl, rfl, rfl⟩
  eof := rfl
  closed := iff_of_false (fun h => by cases h) (fun h => Bool.false_ne_true h.1)

/-- **A handler keeps the ring, the credit and the queue.** -/
theorem Waiting.step (h : s.Waiting q) {e : OutEvent} (hok : s.Proper e) (hst : s.step e = some t) :
    ∃ q, t.Waiting q := by
  have hlen := h.holds.length_le
  cases e with
  | write bytes =>
    obtain ⟨hgrant, hopen⟩ := hok
    obtain ⟨-, hst⟩ := Option.ite_none_right_eq_some.1 hst
    split at hst
    next pb hw =>
      cases hst
      have hroom : q.length + bytes.length ≤ internalPipeBufSize := by
        rw [h.granted, ← h.stream, List.length_append] at hgrant
        omega
      obtain ⟨-, hholds, hid, hrole, heof, hcredit, hfd⟩ :=
        Pipebuf.outToInternalBuffer_ok h.holds hroom hw
      -- the bytes are queued behind `q` and paid from the credit
      refine ⟨q ++ bytes, hholds, ?_, ?_, h.granted, ?_, heof.trans h.eof, ?_⟩
      · show s.written ++ (q ++ bytes) = s.received ++ bytes
        rw [← h.stream, List.append_assoc]
      · rw [List.length_append]
        show pb.credit = _ - ((q.length + bytes.length : ℕ) : ℤ)
        rw [hcredit, h.credit]
        omega
      · show ∀ f ∈ s.frames, f.cmd = cmdAckControl + pb.role.code ∧ f.id = pb.id ∧ _
        rw [hid, hrole]
        exact h.frames
      · show pb.fd = false ↔ s.closeRequested ∧ _
        rw [hfd, h.closed, hopen]
        simp
    next => cases hst
  | close =>
    cases hst
    obtain ⟨hholds, hid, hrole, heof, hcredit, hfd⟩ := Pipebuf.outClose_flush h.holds
    refine ⟨q, hholds, h.stream, hcredit.trans h.credit, h.granted, ?_, heof, ?_⟩
    · show ∀ f ∈ s.frames, f.cmd = cmdAckControl + (s.pb.outClose .flush).role.code ∧
        f.id = (s.pb.outClose .flush).id ∧ _
      rw [hid, hrole]
      exact h.frames
    · show (s.pb.outClose .flush).fd = false ↔ true = true ∧ q = []
      rw [hfd, h.closed]
      tauto
  | writable writes =>
    rw [OutRun.step] at hst
    split at hst
    next pb bytes frames hw =>
      cases hst
      obtain ⟨rfl, hholds, hid, hrole, heof, hcredit, hopen, hfd, rfl⟩ :=
        Pipebuf.outIsWritable_ok hok h.holds h.credit hw
      -- everything is written, and one ACK frame gives the credit back
      refine ⟨[], hholds, ?_, ?_, ?_, ?_, heof.trans h.eof, ?_⟩
      · show s.written ++ bytes ++ [] = s.received
        rw [List.append_nil]
        exact h.stream
      · exact hcredit
      · rw [granted_concat, List.length_append, h.granted, ofSizeBytes_sizeBytes
          (by unfold internalPipeBufSize at hlen; omega), Nat.add_assoc]
      · intro f hf
        rw [hid, hrole]
        rcases List.mem_append.1 hf with hf | hf
        · exact h.frames f hf
        · obtain rfl := List.mem_singleton.1 hf
          exact ⟨rfl, rfl, rfl, rfl⟩
      · show pb.fd = false ↔ s.closeRequested ∧ _
        rw [hfd, h.eof, and_iff_left rfl]
    next => cases hst

theorem Waiting.isConserved (h : s.Waiting q) : s.Conserved where
  credit := by
    rw [h.credit, h.holds.count, Int.sub_add_cancel]
    rfl
  bufcount := by
    have hlen := h.holds.length_le
    rw [h.holds.count]
    unfold internalPipeBufSize at hlen
    omega
  startpos := ⟨h.holds.start, Int.le_of_lt_add_one h.holds.startpos_lt⟩
  endpos := ⟨h.holds.endpos_nonneg, Int.le_of_lt_add_one h.holds.endpos_lt⟩
  ring := h.holds.endpos
  frames := h.frames
  granted := h.granted
  stream := h.stream ▸ List.prefix_append _ _
  closed := by
    rw [h.closed, ← h.stream, List.self_eq_append_right]

/-- **Credit of stdin and the control stream.**  In every run of one writable pipe buffer in which
the host keeps to its grants and sends nothing after its request to close, and every `write` to
the child takes at least one byte: credit and waiting bytes add up to 32 KiB, the positions of the
ring agree, the grants are 32 KiB and what has been written to the child, the child gets what the
host has sent, in order, and after the request to close the pipe is closed exactly when the last
byte has been written. -/
theorem conserved {buffer : ℤ → Byte} {id : Byte} {role : Role} {es : List OutEvent}
    (h : machine.Run Proper (init buffer id role) es s) : s.Conserved := by
  obtain ⟨q, hq⟩ := h.invariant (I := fun s => ∃ q, s.Waiting q) ⟨[], waiting_init buffer id role⟩
    fun s e t hs hok hst => by
      obtain ⟨q, hq⟩ := hs
      exact hq.step hok hst
  exact hq.isConserved

/-- Five bytes for stdin, the request to close the stream, and the child reads. -/
def closedRun : List OutEvent :=
  [.write [1#8, 2#8, 3#8], .writable [2, 1], .write [4#8, 5#8], .close, .writable [2]]

theorem conserved_closedRun :
    ∃ s, machine.exec (init (fun _ => 0#8) 7#8 .stdin) closedRun = some s ∧
      s.written = [1#8, 2#8, 3#8, 4#8, 5#8] ∧ s.pb.fd = false ∧ s.Conserved := by
  have h : ((machine.execOk (fun s e => match e with
      | .write bytes => s.received.length + bytes.length ≤ s.granted && !s.closeRequested
      | .close => true
      | .writable writes => writes.all (0 < ·)) (init (fun _ => 0#8) 7#8 .stdin) closedRun).map
        fun s => (s.written, s.pb.fd)) = some ([1#8, 2#8, 3#8, 4#8, 5#8], false) := by
    decide +kernel
  obtain ⟨s, hs, hpair⟩ := Option.map_eq_some_iff.1 h
  have hrun := Machine.run_of_execOk Proper (fun s e hok => ?_) hs
  · obtain ⟨hwritten, hfd⟩ := Prod.mk.inj hpair
    exact ⟨s, hrun.exec_eq, hwritten, hfd, conserved hrun⟩
  · cases e with
    | write bytes => simpa [Proper] using hok
    | close => exact trivial
    | writable writes => simpa [Proper] using hok

end OutRun

end TesselFirmware
