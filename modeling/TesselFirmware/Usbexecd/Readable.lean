import TesselFirmware.Machine.Basic
import TesselFirmware.Usbexecd.Drain

/-!
# Flow control of the output of a child (`soc/usbexecd.c`)

What a child writes to stdout or stderr is sent to the host in packets of at most 255 bytes,
within the credit that the host has granted.  The bytes leave the ring on two ways: when more come
from the child (`pipebuf_in_to_internal_buffer`) and when more credit comes from the host
(`pipebuf_in_ack`).

* `Pipebuf.inWriteToSock_ok` : `pipebuf_in_write_to_sock` sends as much as the ring, the credit and
  its argument allow;
* `InRun.flow_controlled` : in every run the packets carry a prefix of the output in order, within
  the credit, nothing is held back that could be sent, and the stream is closed once and empty.
-/

namespace TesselFirmware

/-- `CMD_CLOSE_CONTROL` to `CMD_CLOSE_STDERR`. -/
def Frame.isClose (f : Frame) : Bool := f.cmd &&& 0xF0#8 == cmdCloseControl

/-- A packet with the data of a stream: `CMD_WRITE_CONTROL` to `CMD_WRITE_STDERR`, with 1 to 255
bytes, as many as the header says. -/
structure Frame.IsData (f : Frame) (id : Byte) (role : Role) : Prop where
  cmd : f.cmd = cmdWriteControl + role.code
  id : f.id = id
  pos : 1 ≤ f.payload.length
  le : f.payload.length ≤ 255
  len : f.arg.toNat * 256 + f.len.toNat = f.payload.length

theorem Frame.IsData.not_isClose {f : Frame} {id : Byte} {role : Role} (h : f.IsData id role) :
    f.isClose = false := by
  rw [Frame.isClose, h.cmd]
  cases role <;> decide

/-- One readable pipe buffer with the bytes read from the child, the packets sent to the host, the
credit that the host has granted, and whether the whole process has been closed. -/
structure InRun where
  pb : Pipebuf
  output : List Byte
  frames : List Frame
  granted : ℤ
  processClosed : Bool

inductive InEvent
  /-- The child's end of the pipe is readable. -/
  | readable (reads : List ReadResult) (writes : List ℤ)
  /-- `CMD_ACK_STDOUT`, `CMD_ACK_STDERR`; the socket may be closed before the bytes have come. -/
  | ack (bytes : Option (List Byte)) (writes : List ℤ)
  /-- `CMD_CLOSE_STDOUT`, `CMD_CLOSE_STDERR`. -/
  | close
  /-- `CMD_CLOSE`. -/
  | closeProcess
  /-- The socket has been closed. -/
  | sockClosed

namespace InRun

/-- After `pipebuf_in_init`. -/
def init (buffer : ℤ → Byte) (id : Byte) (role : Role) : InRun where
  pb := { Pipebuf.commonInit buffer id role with registered := true }
  output := []
  frames := []
  granted := 0
  processClosed := false

theorem inInit_eq (buffer : ℤ → Byte) (id : Byte) (role : Role) :
    Pipebuf.inInit buffer id role = .ok (init buffer id role).pb := rfl

variable (s : InRun)

/-- What `close_process` does with this stream. -/
def closeProcess (sock : Bool) : InRun :=
  let (pb, frames) := if s.pb.fd then s.pb.inClose sock .noFlush else (s.pb, [])
  { s with pb := pb, frames := s.frames ++ frames, processClosed := true }

/-- The handlers of one stream, as long as the process has not been closed. -/
def step (s : InRun) (e : InEvent) : Option InRun :=
  if s.processClosed then none
  else match e with
    | .readable reads writes =>
      match s.pb.inToInternalBuffer reads writes with
      | .ok (pb, got, frames) =>
        some { s with pb := pb, output := s.output ++ got, frames := s.frames ++ frames }
      | .error _ => none
    | .ack bytes writes =>
      match s.pb.inAck bytes writes with
      | .ok (pb, frames) =>
        some { s with
          pb := pb
          frames := s.frames ++ frames
          granted := s.granted + ackSize (bytes.getD []) }
      | .error .sockClosed => some (s.closeProcess false)
      | .error _ => none
    | .close =>
      let (pb, frames) := s.pb.inClose true .flush
      some { s with pb := pb, frames := s.frames ++ frames }
    | .closeProcess => some (s.closeProcess true)
    | .sockClosed => some (s.closeProcess false)

def machine : Machine InRun InEvent := ⟨step⟩

/-- Every `write` to the socket takes at least one byte. -/
def positive (writes : List ℤ) : Prop := ∀ w ∈ writes, 0 < w

/-- The environment of the stream: writes to the socket may be short, and the credit granted by
the host stays below 2^31 and never shrinks. -/
def Proper (s : InRun) : InEvent → Prop
  | .readable _ writes => positive writes
  | .ack bytes writes =>
    positive writes ∧ 0 ≤ ackSize (bytes.getD []) ∧ s.granted + ackSize (bytes.getD []) < 0x80000000
  | _ => True

/-- The bytes sent to the host. -/
def sent : List Byte := s.frames.flatMap Frame.payload

/-- The flow control works: the packets carry a prefix of the output of the child, in order, in
packets of 1 to 255 bytes and within the credit; no byte is held back while there is credit; and
the stream is reported closed at most once, and only when everything has been sent or the whole
process is closed. -/
structure FlowControlled (s : InRun) : Prop where
  stream : s.sent <+: s.output
  frames : ∀ f ∈ s.frames, f.isClose ∨ f.IsData s.pb.id s.pb.role
  credit : s.sent.length ≤ s.granted
  stalled : s.pb.bufcount = 0 ∨ s.pb.credit = 0
  closes : s.frames.countP Frame.isClose ≤ 1
  empty : (∃ f ∈ s.frames, f.isClose) → s.sent = s.output ∨ s.processClosed

end InRun

/-! ### The packets -/

namespace Pipebuf

variable {pb pb' : Pipebuf} {q : List Byte}

/-- The packets of one call: they carry the first `m` bytes of the ring. -/
structure Sends (pb : Pipebuf) (q : List Byte) (m : ℕ) (frames : List Frame) : Prop where
  data : frames.flatMap Frame.payload = q.take m
  frames : ∀ f ∈ frames, f.IsData pb.id pb.role

theorem Sends.nil (pb : Pipebuf) (q : List Byte) : Sends pb q 0 [] :=
  ⟨rfl, fun f hf => by cases hf⟩

theorem packet_isData (pb : Pipebuf) {bytes : List Byte} {m : ℕ} (hlen : bytes.length = m)
    (hpos : 1 ≤ m) (hle : m ≤ 255) : (pb.packet m bytes).IsData pb.id pb.role := by
  subst hlen
  refine ⟨rfl, rfl, hpos, hle, ?_⟩
  show (BitVec.ofInt 8 ((bytes.length : ℤ) / 256)).toNat * 256 +
    (BitVec.ofInt 8 (bytes.length : ℤ)).toNat = bytes.length
  rw [BitVec.toNat_ofInt, BitVec.toNat_ofInt]
  omega

/-- The packets, from the `k`-th byte on. -/
theorem packetLoop_ok {num fuel k : ℕ} {writes : List ℤ} {written : ℤ} {frames frames' : List Frame}
    (hpos : InRun.positive writes) (hq : pb.Holds q) (hk : k ≤ num) (hn : num - k ≤ q.length)
    (hnum : num < 0x80000000) (hfuel : num - k ≤ fuel)
    (h : packetLoop num fuel pb k writes frames = .ok (pb', written, frames')) :
    written = num ∧ pb'.Holds (q.drop (num - k)) ∧ SameBesidesRing pb pb' ∧
      ∃ new, frames' = frames ++ new ∧ Sends pb q (num - k) new := by
  induction fuel generalizing pb q k writes frames with
  | zero =>
    cases h
    rw [Nat.le_zero.1 hfuel]
    exact ⟨by omega, hq, .refl _, [], (List.append_nil _).symm, .nil _ _⟩
  | succ fuel ih =>
    rw [packetLoop] at h
    rw [sizeT_natCast (by omega)] at h
    by_cases hkn : k = num
    · rw [if_pos hkn] at h
      cases h
      subst hkn
      rw [Nat.sub_self]
      exact ⟨rfl, hq, .refl _, [], (List.append_nil _).symm, .nil _ _⟩
    rw [if_neg hkn] at h
    obtain ⟨w, hw, h⟩ := Except.bind_eq_ok.1 h
    rw [← Int.ofNat_sub hk, toInt32_of_nonneg (Int.natCast_nonneg _) (by omega)] at hw h
    -- the size of this packet
    obtain ⟨m, hm, hmpos, hmle, hmn⟩ : ∃ m : ℕ,
        (if ((num - k : ℕ) : ℤ) < maxWriteLen then ((num - k : ℕ) : ℤ) else maxWriteLen) = m ∧
          1 ≤ m ∧ m ≤ 255 ∧ m ≤ num - k := by
      unfold maxWriteLen
      split_ifs with hlt
      · exact ⟨num - k, rfl, by omega, by omega, Nat.le_refl _⟩
      · exact ⟨255, rfl, by omega, by omega, by omega⟩
    rw [hm] at hw h
    obtain ⟨hbytes, htotal, hholds, hsame, hrest⟩ := writeFromPipebuf_ok hpos hq (by omega) hw
    rw [htotal, ← Int.natCast_add] at h
    obtain ⟨hwritten, hholds', hsame', new, hnew, hsends⟩ :=
      ih hrest hholds (by omega) (by rw [List.length_drop]; omega) (by omega) h
    refine ⟨hwritten, ?_, hsame.trans hsame', pb.packet m w.bytes :: new, ?_, ?_, ?_⟩
    · rwa [List.drop_drop, show m + (num - (k + m)) = num - k by omega] at hholds'
    · rw [hnew, List.append_assoc]
      rfl
    · rw [List.flatMap_cons, hsends.data]
      show w.bytes ++ _ = _
      rw [hbytes, ← List.take_add, show m + (num - (k + m)) = num - k by omega]
    · intro f hf
      rcases List.mem_cons.1 hf with rfl | hf
      · exact packet_isData pb (by rw [hbytes, List.length_take]; omega) hmpos hmle
      · have hd := hsends.frames f hf
        rwa [hsame.id, hsame.role] at hd

/-- **`pipebuf_in_write_to_sock`** sends as many bytes as the ring holds, the caller wants and the
credit allows, all as unsigned numbers. -/
theorem inWriteToSock_ok {num : ℕ} {writes : List ℤ} {frames : List Frame}
    (hpos : InRun.positive writes) (hq : pb.Holds q)
    (h : pb.inWriteToSock num writes = .ok (pb', frames)) :
    ∃ m, m = min (min q.length num) (sizeT pb.credit) ∧ Sends pb q m frames ∧
      pb'.Holds (q.drop m) ∧ SameBesidesRing { pb with credit := pb.credit - m } pb' := by
  obtain ⟨⟨pb₁, written, frames₁⟩, hloop, hret⟩ := Except.bind_eq_ok.1 h
  have hcount := hq.count
  have hlen := hq.length_le
  unfold internalPipeBufSize at hlen
  have hsize : sizeT pb.bufcount = q.length := by
    rw [hcount]
    exact sizeT_natCast (by omega)
  refine ⟨_, rfl, ?_⟩
  have hmin : (if (if pb.bufcount ≥ 0 ∧ sizeT pb.bufcount < num then sizeT pb.bufcount else num) >
      sizeT pb.credit then sizeT pb.credit
      else if pb.bufcount ≥ 0 ∧ sizeT pb.bufcount < num then sizeT pb.bufcount else num) =
      min (min q.length num) (sizeT pb.credit) := by
    rw [hsize]
    split_ifs <;> omega
  rw [hmin] at hloop
  obtain ⟨rfl, hholds, hsame, new, hnew, hsends⟩ := packetLoop_ok (k := 0) hpos hq (Nat.zero_le _)
    (by omega) (by omega) (Nat.le_refl _) hloop
  rw [List.nil_append] at hnew
  subst hnew
  cases hret
  rw [Nat.sub_zero] at hsends hholds
  refine ⟨hsends, ⟨hholds.ring, hholds.start, hholds.count, hholds.endpos⟩, ?_⟩
  exact ⟨hsame.id, hsame.role, hsame.eof, congrArg (· - _) hsame.credit, hsame.fd,
    hsame.registered⟩

/-- An open stream that holds nothing back, or need not flush it, is closed and reported. -/
theorem inClose_of_open {sock : Bool} {flag : CloseFlag} (h : pb.bufcount = 0 ∨ flag = .noFlush)
    (hfd : pb.fd) :
    pb.inClose sock flag =
      ({ pb with
          eof := true, fd := false, startpos := 0, endpos := 0, bufcount := 0, registered := false },
        sendHeader sock (cmdCloseControl + pb.role.code) pb.id 0#8 0#8) := by
  rw [inClose, commonClose, if_pos h, if_pos hfd]

theorem inClose_flush_of_empty (h : pb.bufcount = 0) (hfd : pb.fd) :
    pb.inClose true .flush =
      ({ pb with
          eof := true, fd := false, startpos := 0, endpos := 0, bufcount := 0, registered := false },
        [⟨cmdCloseControl + pb.role.code, pb.id, 0#8, 0#8, []⟩]) :=
  inClose_of_open (.inl h) hfd

/-- A stream that holds something back, or has been closed before, is only marked. -/
theorem inClose_flush_of_not {sock : Bool} (h : ¬ (pb.bufcount = 0 ∧ pb.fd)) :
    pb.inClose sock .flush = ({ pb with eof := true }, []) := by
  unfold inClose commonClose
  by_cases h0 : pb.bufcount = 0 ∨ CloseFlag.flush = .noFlush
  · have hfd : ¬ pb.fd := fun hfd => h ⟨h0.resolve_right (by decide), hfd⟩
    rw [if_pos h0, if_neg hfd]
  · rw [if_neg h0]

theorem mem_sendHeader {sock : Bool} {cmd id arg len : Byte} {f : Frame}
    (h : f ∈ sendHeader sock cmd id arg len) : f = ⟨cmd, id, arg, len, []⟩ := by
  unfold sendHeader at h
  split_ifs at h
  · exact List.mem_singleton.1 h
  · cases h

/-- The reads of one call have put `new` into the ring.  At the end of the output the descriptor
is taken out of epoll, and the ring is not full. -/
structure Receives (pb pb' : Pipebuf) (q new : List Byte) : Prop where
  holds : pb'.Holds (q ++ new)
  id : pb'.id = pb.id
  role : pb'.role = pb.role
  credit : pb'.credit = pb.credit
  fd : pb'.fd = pb.fd
  closed : pb.fd = false → new = []
  registered : pb'.registered = pb.registered ∨
    pb'.registered = false ∧ (q ++ new).length < internalPipeBufSize

theorem Receives.nothing (h : pb.Holds q) : Receives pb pb q [] :=
  ⟨by rwa [List.append_nil], rfl, rfl, rfl, rfl, fun _ => rfl, .inl rfl⟩

theorem readLoop_ok {reads : List ReadResult} {got got' : List Byte}
    (hq : pb.Holds q)
    (h : readLoop reads pb (internalPipeBufSize - pb.bufcount) got = .ok (pb', got')) :
    ∃ new, got' = got ++ new ∧ Receives pb pb' q new := by
  have hcount := hq.count
  have hlen := hq.length_le
  induction reads generalizing pb q got with
  | nil =>
    rw [readLoop] at h
    split_ifs at h
    cases h
    exact ⟨[], (List.append_nil _).symm, .nothing hq⟩
  | cons r reads ih =>
    rw [readLoop] at h
    -- the loop ends when the ring is full
    by_cases h0 : (internalPipeBufSize : ℤ) - pb.bufcount = 0
    · rw [if_pos h0] at h
      cases h
      exact ⟨[], (List.append_nil _).symm, .nothing hq⟩
    rw [if_neg h0] at h
    dsimp only at h
    by_cases hfd : pb.fd = false
    · rw [if_pos hfd] at h
      cases h
    rw [if_neg hfd] at h
    cases r with
    | again =>
      cases h
      exact ⟨[], (List.append_nil _).symm, .nothing hq⟩
    | error => cases h
    | eof =>
      obtain ⟨pb₁, hdel, hret⟩ := Except.bind_eq_ok.1 h
      obtain ⟨-, -, rfl⟩ := deleteEpoll_ok hdel
      cases hret
      refine ⟨[], (List.append_nil _).symm, ?_, rfl, rfl, rfl, rfl, fun _ => rfl, .inr ⟨rfl, ?_⟩⟩
      · rw [List.append_nil]
        exact ⟨hq.ring, hq.start, hq.count, hq.endpos⟩
      · rw [List.append_nil]
        omega
    | data bytes =>
      dsimp only at h
      by_cases hbad : bytes = [] ∨ (if pb.endpos + (internalPipeBufSize - pb.bufcount) >
          internalPipeBufSize then internalPipeBufSize - pb.endpos
          else internalPipeBufSize - pb.bufcount) < bytes.length
      · rw [if_pos hbad] at h
        cases h
      rw [if_neg hbad, Int.sub_sub] at h
      -- a read goes up to the end of the array, and not past the free part of the ring
      have hfit : q.length + bytes.length ≤ internalPipeBufSize ∧
          pb.endpos + bytes.length ≤ internalPipeBufSize := by
        have := hq.endpos_nonneg
        split_ifs at hbad <;> omega
      obtain ⟨new, hnew, hr⟩ := ih (hq.fill hfit.1 hfit.2) h
        (by rw [List.length_append, Int.natCast_add, ← hcount]) (by rw [List.length_append]; omega)
      refine ⟨bytes ++ new, ?_, ?_, hr.id, hr.role, hr.credit, hr.fd, fun hc => absurd hc hfd, ?_⟩
      · rw [hnew, List.append_assoc]
      · rw [← List.append_assoc]
        exact hr.holds
      · rw [← List.append_assoc]
        exact hr.registered

end Pipebuf

/-! ### Runs -/

namespace InRun

variable {s t : InRun} {q : List Byte}

/-- The stream holds back the bytes `q`, and has been closed at most once and empty. -/
structure Flowing (s : InRun) (q : List Byte) : Prop where
  holds : s.pb.Holds q
  stream : s.sent ++ q = s.output
  frames : ∀ f ∈ s.frames, f.isClose ∨ f.IsData s.pb.id s.pb.role
  credit : s.pb.credit = s.granted - s.sent.length
  nonneg : 0 ≤ s.pb.credit
  bound : s.granted < 0x80000000
  closes : s.frames.countP Frame.isClose = if s.pb.fd then 0 else 1
  closed : s.pb.fd = false → q = []

/-- Nothing is held back that could be sent. -/
def Eager (s : InRun) (q : List Byte) : Prop := q = [] ∨ s.pb.credit = 0

theorem flowing_init (buffer : ℤ → Byte) (id : Byte) (role : Role) :
    (init buffer id role).Flowing [] where
  holds := ⟨.nil (Nat.zero_lt_succ _), Int.le_refl _, rfl, rfl⟩
  stream := rfl
  frames f hf := by cases hf
  credit := rfl
  nonneg := Int.le_refl _
  bound := show (0 : ℤ) < 0x80000000 by decide
  closes := rfl
  closed _ := rfl

theorem sent_append (s : InRun) (pb : Pipebuf) (frames : List Frame) :
    sent { s with pb := pb, frames := s.frames ++ frames } =
      s.sent ++ frames.flatMap Frame.payload :=
  List.flatMap_append

/-- The registration with epoll plays no part. -/
theorem Flowing.setRegistered (h : s.Flowing q) (b : Bool) :
    Flowing { s with pb := { s.pb with registered := b } } q :=
  ⟨⟨h.holds.ring, h.holds.start, h.holds.count, h.holds.endpos⟩, h.stream, h.frames, h.credit,
    h.nonneg, h.bound, h.closes, h.closed⟩

/-- The child has written something. -/
theorem Flowing.receive {pb : Pipebuf} {reads : List ReadResult} {got : List Byte}
    (h : s.Flowing q)
    (hr : Pipebuf.readLoop reads s.pb (internalPipeBufSize - s.pb.bufcount) [] = .ok (pb, got)) :
    Flowing { s with pb := pb, output := s.output ++ got } (q ++ got) := by
  obtain ⟨new, hnew, hr⟩ := Pipebuf.readLoop_ok h.holds hr
  rw [List.nil_append] at hnew
  subst hnew
  refine ⟨hr.holds, ?_, ?_, hr.credit.trans h.credit, ?_, h.bound, ?_, ?_⟩
  · show s.sent ++ (q ++ got) = s.output ++ got
    rw [← h.stream, List.append_assoc]
  · intro f hf
    show _ ∨ f.IsData pb.id pb.role
    rw [hr.id, hr.role]
    exact h.frames f hf
  · show 0 ≤ pb.credit
    rw [hr.credit]
    exact h.nonneg
  · show _ = if pb.fd then 0 else 1
    rw [hr.fd]
    exact h.closes
  · intro hc
    have hc' : s.pb.fd = false := hr.fd ▸ hc
    show q ++ got = []
    rw [h.closed hc', hr.closed hc']
    rfl

/-- More credit has come. -/
theorem Flowing.grant {k : ℤ} (h : s.Flowing q) (hk : 0 ≤ k) (hlt : s.granted + k < 0x80000000) :
    Flowing { s with
      pb := { s.pb with credit := s.pb.credit + k }
      granted := s.granted + k } q := by
  refine ⟨⟨h.holds.ring, h.holds.start, h.holds.count, h.holds.endpos⟩, h.stream, h.frames, ?_, ?_,
    hlt, h.closes, h.closed⟩
  · show s.pb.credit + k = s.granted + k - s.sent.length
    rw [h.credit]
    omega
  · have := h.nonneg
    show 0 ≤ s.pb.credit + k
    omega

/-- Some of the bytes held back are sent, and all that the credit allows if the caller wants that
many. -/
theorem Flowing.send {num : ℕ} {writes : List ℤ} {pb : Pipebuf} {frames : List Frame}
    (h : s.Flowing q) (hpos : positive writes)
    (hnum : q.length ≤ num ∨ s.pb.credit ≤ num)
    (hw : s.pb.inWriteToSock num writes = .ok (pb, frames)) :
    ∃ q', Flowing { s with pb := pb, frames := s.frames ++ frames } q' ∧
      Eager { s with pb := pb, frames := s.frames ++ frames } q' := by
  have hcr := h.credit
  have hnonneg := h.nonneg
  have hbound := h.bound
  obtain ⟨m, hm, hsends, hholds, hsame⟩ := Pipebuf.inWriteToSock_ok hpos h.holds hw
  have hsize := sizeT_of_nonneg hnonneg (by omega)
  have hcredit : pb.credit = s.pb.credit - m := hsame.credit
  have hsent := sent_append s pb frames
  rw [hsends.data] at hsent
  have hlen : (q.take m).length = m := by
    rw [List.length_take]
    omega
  -- `m` bytes leave the ring as frames, and as much credit goes
  refine ⟨q.drop m, ⟨hholds, ?_, ?_, ?_, ?_, hbound, ?_, ?_⟩, ?_⟩
  · rw [hsent, List.append_assoc, List.take_append_drop]
    exact h.stream
  · intro f hf
    show _ ∨ f.IsData pb.id pb.role
    rw [hsame.id, hsame.role]
    rcases List.mem_append.1 hf with hf | hf
    · exact h.frames f hf
    · exact .inr (hsends.frames f hf)
  · rw [hsent, List.length_append, hlen]
    show pb.credit = s.granted - ((s.sent.length + m : ℕ) : ℤ)
    omega
  · show 0 ≤ pb.credit
    omega
  · show (s.frames ++ frames).countP Frame.isClose = if pb.fd then 0 else 1
    have hzero : frames.countP Frame.isClose = 0 := by
      rw [List.countP_eq_zero]
      intro f hf
      rw [(hsends.frames f hf).not_isClose]
      decide
    rw [List.countP_append, hzero, hsame.fd]
    exact h.closes
  · intro hc
    have hc' : s.pb.fd = false := hsame.fd ▸ hc
    rw [h.closed hc', List.drop_nil]
  · show q.drop m = [] ∨ pb.credit = 0
    rw [List.drop_eq_nil_iff]
    omega

/-- `pipebuf_in_close` with what is held back flushed: an open stream that holds nothing back is
closed and reported. -/
theorem Flowing.close (h : s.Flowing q) :
    Flowing { s with
      pb := (s.pb.inClose true .flush).1
      frames := s.frames ++ (s.pb.inClose true .flush).2 } q := by
  have hcount := h.holds.count
  by_cases hc : s.pb.bufcount = 0 ∧ s.pb.fd
  · have hq : q = [] := List.eq_nil_of_length_eq_zero (by omega)
    subst hq
    rw [Pipebuf.inClose_flush_of_empty hc.1 hc.2]
    have hsent : sent { s with
        pb := { s.pb with
          eof := true, fd := false, startpos := 0, endpos := 0, bufcount := 0, registered := false }
        frames := s.frames ++ [⟨cmdCloseControl + s.pb.role.code, s.pb.id, 0#8, 0#8, []⟩] } =
          s.sent :=
      (sent_append _ _ _).trans (List.append_nil _)
    have hclose : Frame.isClose ⟨cmdCloseControl + s.pb.role.code, s.pb.id, 0#8, 0#8, []⟩ := by
      show (cmdCloseControl + s.pb.role.code) &&& 0xF0#8 == cmdCloseControl
      cases s.pb.role <;> decide
    refine ⟨⟨.nil (Nat.zero_lt_succ _), Int.le_refl _, rfl, rfl⟩, ?_, ?_, ?_, h.nonneg, h.bound, ?_,
      fun _ => rfl⟩
    · rw [hsent]
      exact h.stream
    · intro f hf
      rcases List.mem_append.1 hf with hf | hf
      · exact h.frames f hf
      · obtain rfl := List.mem_singleton.1 hf
        exact .inl hclose
    · rw [hsent]
      exact h.credit
    · have hcloses := h.closes
      rw [if_pos hc.2] at hcloses
      show (s.frames ++ [_]).countP Frame.isClose = 1
      rw [List.countP_append, hcloses, List.countP_singleton, if_pos hclose]
  · rw [Pipebuf.inClose_flush_of_not hc, List.append_nil]
    exact ⟨⟨h.holds.ring, h.holds.start, h.holds.count, h.holds.endpos⟩, h.stream, h.frames,
      h.credit, h.nonneg, h.bound, h.closes, h.closed⟩

theorem Eager.close (he : s.Eager q) :
    Eager { s with
      pb := (s.pb.inClose true .flush).1
      frames := s.frames ++ (s.pb.inClose true .flush).2 } q := by
  have hcredit : (s.pb.inClose true .flush).1.credit = s.pb.credit := by
    by_cases hc : s.pb.bufcount = 0 ∧ s.pb.fd
    · rw [Pipebuf.inClose_flush_of_empty hc.1 hc.2]
    · rw [Pipebuf.inClose_flush_of_not hc]
  rcases he with hq | hzero
  · exact .inl hq
  · exact .inr (hcredit.trans hzero)

/-- The child's end is readable. -/
theorem Flowing.readable {reads : List ReadResult} {writes : List ℤ} {pb : Pipebuf}
    {got : List Byte} {frames : List Frame} (h : s.Flowing q) (hpos : positive writes)
    (hr : s.pb.inToInternalBuffer reads writes = .ok (pb, got, frames)) :
    ∃ q', Flowing { s with
        pb := pb, output := s.output ++ got, frames := s.frames ++ frames } q' ∧
      Eager { s with pb := pb, output := s.output ++ got, frames := s.frames ++ frames } q' := by
  obtain ⟨⟨pb₁, got₁⟩, hread, hr⟩ := Except.bind_eq_ok.1 hr
  obtain ⟨⟨pb₂, frames₂⟩, hsend, hr⟩ := Except.bind_eq_ok.1 hr
  have h₁ := h.receive hread
  have hcount := h₁.holds.count
  have hlen := h₁.holds.length_le
  dsimp only at hsend hr hcount
  obtain ⟨q₂, h₂, he₂⟩ : ∃ q', Flowing { s with
        pb := pb₂, output := s.output ++ got₁, frames := s.frames ++ frames₂ } q' ∧
      Eager { s with pb := pb₂, output := s.output ++ got₁, frames := s.frames ++ frames₂ } q' := by
    by_cases hc : pb₁.credit ≠ 0 ∧ pb₁.bufcount > 0
    · rw [if_pos hc] at hsend
      refine h₁.send hpos (.inl (Nat.le_of_eq ?_)) hsend
      rw [hcount, sizeT_natCast (by unfold internalPipeBufSize at hlen; omega)]
    · rw [if_neg hc] at hsend
      cases hsend
      rw [List.append_nil]
      refine ⟨_, h₁, ?_⟩
      show q ++ got₁ = [] ∨ pb₁.credit = 0
      rw [← List.length_eq_zero_iff]
      omega
  -- a full ring is taken out of epoll until an ACK makes room
  by_cases hfull : pb₂.bufcount = internalPipeBufSize
  · rw [if_pos hfull] at hr
    obtain ⟨pb₃, hdel, hret⟩ := Except.bind_eq_ok.1 hr
    obtain ⟨-, -, rfl⟩ := Pipebuf.deleteEpoll_ok hdel
    cases hret
    exact ⟨q₂, h₂.setRegistered false, he₂⟩
  · rw [if_neg hfull] at hr
    by_cases hc : pb₂.eof ∧ pb₂.bufcount = 0
    · rw [if_pos hc] at hr
      cases hr
      rw [← List.append_assoc]
      exact ⟨q₂, h₂.close, he₂.close⟩
    · rw [if_neg hc] at hr
      cases hr
      exact ⟨q₂, h₂, he₂⟩

/-- More credit comes from the host. -/
theorem Flowing.ack {bytes : List Byte} {writes : List ℤ} {pb : Pipebuf} {frames : List Frame}
    (h : s.Flowing q) (he : s.Eager q) (hpos : positive writes) (hk : 0 ≤ ackSize bytes)
    (hlt : s.granted + ackSize bytes < 0x80000000)
    (ha : s.pb.inAck (some bytes) writes = .ok (pb, frames)) :
    ∃ q', Flowing { s with
        pb := pb, frames := s.frames ++ frames, granted := s.granted + ackSize bytes } q' ∧
      Eager { s with
        pb := pb, frames := s.frames ++ frames, granted := s.granted + ackSize bytes } q' := by
  obtain ⟨pb₁, hadd, ha⟩ := Except.bind_eq_ok.1 ha
  -- a stream whose buffer was full is polled again
  have h₁ : Flowing { s with pb := pb₁ } q ∧ pb₁.credit = s.pb.credit ∧
      pb₁.bufcount = s.pb.bufcount := by
    split_ifs at hadd
    · obtain ⟨-, -, rfl⟩ := Pipebuf.addEpoll_ok hadd
      exact ⟨h.setRegistered true, rfl, rfl⟩
    · cases hadd
      exact ⟨h, rfl, rfl⟩
  obtain ⟨h₁, hcredit₁, hcount₁⟩ := h₁
  have h₂ := h₁.grant hk hlt
  have hcount := h.holds.count
  have hlen := h.holds.length_le
  have hnonneg := h.nonneg
  obtain ⟨⟨pb₂, frames₂⟩, hsend, ha⟩ := Except.bind_eq_ok.1 ha
  dsimp only at hsend ha
  obtain ⟨q₂, h₃, he₃⟩ : ∃ q', Flowing { s with
        pb := pb₂, frames := s.frames ++ frames₂, granted := s.granted + ackSize bytes } q' ∧
      Eager { s with
        pb := pb₂, frames := s.frames ++ frames₂, granted := s.granted + ackSize bytes } q' := by
    by_cases hc : pb₁.bufcount > 0
    · rw [if_pos hc] at hsend
      refine h₂.send hpos ?_ hsend
      -- the credit was used up
      have hzero : s.pb.credit = 0 := he.resolve_left fun hq => by
        rw [hq] at hcount
        exact absurd hc (by rw [hcount₁, hcount]; decide)
      show q.length ≤ _ ∨ pb₁.credit + ackSize bytes ≤ _
      have hsize : ((sizeT (if pb₁.bufcount < ackSize bytes then pb₁.bufcount
          else ackSize bytes) : ℕ) : ℤ) =
            if pb₁.bufcount < ackSize bytes then pb₁.bufcount else ackSize bytes := by
        refine sizeT_of_nonneg ?_ ?_ <;> unfold internalPipeBufSize at hlen <;> split_ifs <;> omega
      split_ifs at hsize ⊢ <;> omega
    · rw [if_neg hc] at hsend
      cases hsend
      rw [List.append_nil]
      exact ⟨q, h₂, .inl (List.eq_nil_of_length_eq_zero (by omega))⟩
  by_cases hc : pb₂.eof ∧ pb₂.bufcount = 0
  · rw [if_pos hc] at ha
    cases ha
    rw [← List.append_assoc]
    exact ⟨q₂, h₃.close, he₃.close⟩
  · rw [if_neg hc] at ha
    cases ha
    exact ⟨q₂, h₃, he₃⟩

theorem Flowing.sent_le (h : s.Flowing q) : s.sent.length ≤ s.granted := by
  have hcr := h.credit
  have := h.nonneg
  omega

theorem Flowing.controlled (h : s.Flowing q) (he : s.Eager q) : s.FlowControlled where
  stream := h.stream ▸ List.prefix_append _ _
  frames := h.frames
  credit := h.sent_le
  stalled := he.imp_left fun hq => by
    rw [h.holds.count, hq]
    rfl
  closes := by
    rw [h.closes]
    split_ifs <;> omega
  empty := by
    rintro ⟨f, hf, hclose⟩
    have hpos := List.countP_pos_iff.2 ⟨f, hf, hclose⟩
    rw [h.closes] at hpos
    have hq : q = [] := h.closed <| by
      by_contra hfd
      rw [Bool.not_eq_false] at hfd
      rw [hfd] at hpos
      exact absurd hpos (by decide)
    left
    rw [← h.stream, hq, List.append_nil]

/-- Closing the process closes the stream at once, whatever it holds back. -/
theorem Flowing.closeProcess (h : s.Flowing q) (sock : Bool) :
    (s.closeProcess sock).FlowControlled := by
  by_cases hfd : s.pb.fd
  · rw [InRun.closeProcess, if_pos hfd, Pipebuf.inClose_of_open (.inr rfl) hfd]
    have hframes : ∀ f ∈ sendHeader sock (cmdCloseControl + s.pb.role.code) s.pb.id 0#8 0#8,
        f.isClose ∧ f.payload = [] := by
      intro f hf
      obtain rfl := Pipebuf.mem_sendHeader hf
      refine ⟨?_, rfl⟩
      show (cmdCloseControl + s.pb.role.code) &&& 0xF0#8 == cmdCloseControl
      cases s.pb.role <;> decide
    have hcount : (sendHeader sock (cmdCloseControl + s.pb.role.code) s.pb.id 0#8 0#8).countP
        Frame.isClose ≤ 1 := by
      refine Nat.le_trans List.countP_le_length ?_
      unfold sendHeader
      split_ifs
      · exact Nat.le_refl 1
      · exact Nat.zero_le 1
    -- the frame of a close has no payload
    have hsent : ∀ pb : Pipebuf, sent { s with
        pb := pb
        frames := s.frames ++ sendHeader sock (cmdCloseControl + s.pb.role.code) s.pb.id 0#8 0#8
        processClosed := true } = s.sent := by
      intro pb
      have hnil := List.flatMap_eq_nil_iff.2 fun f hf => (hframes f hf).2
      show List.flatMap Frame.payload (s.frames ++ _) = _
      rw [List.flatMap_append, hnil, List.append_nil]
      rfl
    refine ⟨?_, ?_, ?_, .inl rfl, ?_, fun _ => .inr rfl⟩
    · rw [hsent]
      exact h.stream ▸ List.prefix_append _ _
    · intro f hf
      rcases List.mem_append.1 hf with hf | hf
      · exact h.frames f hf
      · exact .inl (hframes f hf).1
    · rw [hsent]
      exact h.sent_le
    · have hcloses := h.closes
      rw [if_pos hfd] at hcloses
      show (s.frames ++ _).countP Frame.isClose ≤ 1
      rw [List.countP_append, hcloses, Nat.zero_add]
      exact hcount
  · -- the stream is closed already: nothing is queued and nothing more is said
    have hq : q = [] := h.closed (by simpa using hfd)
    rw [InRun.closeProcess, if_neg hfd]
    dsimp only
    rw [List.append_nil]
    have hc := h.controlled (.inl hq)
    exact ⟨hc.stream, hc.frames, hc.credit, hc.stalled, hc.closes, fun _ => .inr rfl⟩

/-- What holds between the handlers. -/
def Invariant (s : InRun) : Prop :=
  if s.processClosed then s.FlowControlled else ∃ q, s.Flowing q ∧ s.Eager q

theorem closeProcess_processClosed (s : InRun) (sock : Bool) :
    (s.closeProcess sock).processClosed = true := rfl

/-- **A handler keeps the flow control.** -/
theorem Invariant.step (h : s.Invariant) {e : InEvent} (hok : s.Proper e)
    (hst : s.step e = some t) : t.Invariant := by
  unfold Invariant at h
  by_cases hp : s.processClosed
  · rw [InRun.step.eq_def, if_pos hp] at hst
    cases hst
  rw [if_neg hp] at h
  obtain ⟨q, hq, he⟩ := h
  -- once the process is closed only what was sent counts
  have hclosed : ∀ sock, (s.closeProcess sock).Invariant := fun sock => by
    rw [Invariant, closeProcess_processClosed, if_pos rfl]
    exact hq.closeProcess sock
  rw [InRun.step.eq_def, if_neg hp] at hst
  cases e with
  | readable reads writes =>
    dsimp only at hst
    split at hst
    next pb got frames hr =>
      cases hst
      rw [Invariant, if_neg hp]
      exact hq.readable hok hr
    next => cases hst
  | ack bytes writes =>
    obtain ⟨hpos, hk, hlt⟩ := hok
    dsimp only at hst
    split at hst
    next pb frames ha =>
      cases hst
      rw [Invariant, if_neg hp]
      cases bytes with
      | none => cases ha
      | some bytes => exact hq.ack he hpos hk hlt ha
    next =>
      cases hst
      exact hclosed false
    next => cases hst
  | close =>
    cases hst
    rw [Invariant, if_neg hp]
    exact ⟨q, hq.close, he.close⟩
  | closeProcess =>
    cases hst
    exact hclosed true
  | sockClosed =>
    cases hst
    exact hclosed false

/-- **Flow control of stdout and stderr.**  In every run of one readable pipe buffer, with any
chunking of the child's output, any non-negative credits whose total stays below 2^31, short
writes to the socket, and the stream, the process or the socket closed at any point: the packets
carry a prefix of the output in order, each with 1 to 255 bytes and as many as its header says; no
more is sent than granted; between the handlers nothing is held back while there is credit; and
the stream is reported closed at most once, and only when nothing is held back, unless the whole
process is closed. -/
theorem flow_controlled {buffer : ℤ → Byte} {id : Byte} {role : Role} {es : List InEvent}
    (h : machine.Run Proper (init buffer id role) es s) : s.FlowControlled := by
  have hinv := h.invariant (I := Invariant)
    (show ∃ q, (init buffer id role).Flowing q ∧ (init buffer id role).Eager q from
      ⟨[], flowing_init buffer id role, .inl rfl⟩)
    fun _ _ _ hI hok hst => hI.step hok hst
  unfold Invariant at hinv
  split_ifs at hinv with hp
  · exact hinv
  · obtain ⟨q, hq, he⟩ := hinv
    exact hq.controlled he

/-- Three bytes from the child, two of which are sent with the first credit and the last with the
second, after the end of the output. -/
def ackedRun : List InEvent :=
  [.readable [.data [1#8, 2#8], .data [3#8], .again] [], .ack (some [2#8]) [1, 1],
    .readable [.eof] [], .ack (some [0#8, 1#8]) [1]]

theorem flow_controlled_ackedRun :
    ∃ s, machine.exec (init (fun _ => 0#8) 7#8 .stdout) ackedRun = some s ∧
      s.sent = [1#8, 2#8, 3#8] ∧ s.FlowControlled := by
  have h : ((machine.execOk (fun s e => match e with
      | .readable _ writes => writes.all (0 < ·)
      | .ack bytes writes => writes.all (0 < ·) && 0 ≤ ackSize (bytes.getD []) &&
          s.granted + ackSize (bytes.getD []) < 0x80000000
      | _ => true) (init (fun _ => 0#8) 7#8 .stdout) ackedRun).map sent) =
        some [1#8, 2#8, 3#8] := by decide +kernel
  obtain ⟨s, hs, hsent⟩ := Option.map_eq_some_iff.1 h
  have hrun := Machine.run_of_execOk Proper (fun s e hok => ?_) hs
  · exact ⟨s, hrun.exec_eq, hsent, flow_controlled hrun⟩
  · cases e with
    | readable reads writes => simpa [Proper, positive] using hok
    | ack bytes writes =>
      simp only [Bool.and_eq_true, List.all_eq_true, decide_eq_true_eq] at hok
      exact ⟨hok.1.1, hok.1.2, hok.2⟩
    | _ => exact trivial

end InRun

end TesselFirmware
