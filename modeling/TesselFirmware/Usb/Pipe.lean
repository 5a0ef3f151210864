import TesselFirmware.Machine.Basic
import TesselFirmware.Memory.Ring
import TesselFirmware.System.Usbpipe

/-!
# The stream from the PC to the SoC (`firmware/usbpipe.c`)

Packets from the PC wait in `out_ring_buf` until the bridge takes them.  All of them are full, but
for the last one, whose size is in `out_ring_short_packet` while it waits; a size of 0 says that
the last one is full, too.  So an empty packet is taken for a full one.

* `PipeRun.faithful` : in every run without empty packets, what is passed to `bridge_start_in` is
  a prefix of what came from the PC, no slot is armed while it is queued, and the pipe never gets
  stuck;
* `PipeRun.empty_packet_sent` : after an empty packet, 64 stale bytes are passed to the bridge.
-/

namespace TesselFirmware

/-- The pipe, the payloads that came from the PC, and the contents of the buffers passed to
`bridge_start_in`. -/
structure PipeRun where
  pipe : UsbPipe
  received : List (List Byte)
  passed : List (List Byte)

inductive PipeEvent
  /-- A packet from the PC has been received. -/
  | usbOut (packet : List Byte)
  /-- A packet to the PC has been sent. -/
  | usbIn
  | bridgeOut (len : ℕ)
  | bridgeIn
  deriving DecidableEq

namespace UsbPipe

variable (u : UsbPipe)

/-- The contents of the buffers passed to `bridge_start_in`. -/
def contents (calls : List Call) : List (List Byte) :=
  calls.filterMap fun
    | .startIn _ data length =>
      some ((u.outRingBuf (data - outRingPtr 0)).content length.toNat)
    | _ => none

end UsbPipe

namespace PipeRun

/-- A completion comes only for a transfer that has been started. -/
def accepts (s : PipeRun) : PipeEvent → Bool
  | .usbOut packet => s.pipe.outUsbPending && packet.length ≤ packetSize
  | .usbIn => s.pipe.state = .waitForUsb
  | .bridgeOut _ => s.pipe.state = .waitForBridge
  | .bridgeIn => s.pipe.outBridgePending

/-- What the completion handlers of the pipe do. -/
def handler (s : PipeRun) : PipeEvent → UsbPipe × List Call
  | .usbOut packet => s.pipe.handle (.outCompletion packet)
  | .usbIn => s.pipe.handle .inCompletion
  | .bridgeOut len => s.pipe.callback (.completionOut bridgeUsb len)
  | .bridgeIn => s.pipe.callback (.completionIn bridgeUsb)

/-- The payload of a packet from the PC. -/
def payload : PipeEvent → List (List Byte)
  | .usbOut packet => [packet]
  | _ => []

def step (s : PipeRun) (e : PipeEvent) : Option PipeRun :=
  if s.accepts e then
    some
      { pipe := (s.handler e).1
        received := s.received ++ payload e
        passed := s.passed ++ (s.handler e).1.contents (s.handler e).2 }
  else none

def machine : Machine PipeRun PipeEvent := ⟨step⟩

/-- After `usbpipe_init`. -/
def init : PipeRun := ⟨UsbPipe.initial.init.1, [], []⟩

/-- The pipe is a byte stream: what it has passed on is a prefix of what it has received, the slot
that is armed for USB is none of the queued ones, the positions of the ring agree, and a transfer
is pending. -/
structure Faithful (s : PipeRun) : Prop where
  stream : s.passed.flatten <+: s.received.flatten
  armed : s.pipe.outUsbPending → ∀ k < s.pipe.outRingCount,
    (s.pipe.outRingReadPos + k) % outRingSize ≠ s.pipe.outRingWritePos
  count : s.pipe.outRingCount ≤ outRingSize
  writePos : s.pipe.outRingWritePos =
    (s.pipe.outRingReadPos + s.pipe.outRingCount) % outRingSize
  pending : s.pipe.outUsbPending ∨ s.pipe.outBridgePending

/-- The packet is not empty. -/
def nonempty : PipeEvent → Bool
  | .usbOut packet => !packet.isEmpty
  | _ => true

end PipeRun

/-! ### The ring -/

namespace UsbPipe

variable {u : UsbPipe} {packet : List Byte} {queued : List (List Byte)}

/-- The value of `out_ring_short_packet` while these packets wait. -/
def shortSize (packets : List (List Byte)) : ℕ :=
  match packets.getLast? with
  | some p => if p.length < packetSize then p.length else 0
  | none => 0

/-- The queued packets that have not been passed to the bridge. -/
def unsent (u : UsbPipe) (queued : List (List Byte)) : List (List Byte) :=
  if u.outBridgePending then queued.tail else queued

/-- The queued packet that has been passed to the bridge. -/
def started (u : UsbPipe) (queued : List (List Byte)) : List (List Byte) :=
  if u.outBridgePending then queued.take 1 else []

/-- The ring holds the packets `queued`. -/
structure Carries (u : UsbPipe) (queued : List (List Byte)) : Prop where
  ring : Ring.Holds (fun (c : Cells Byte packetSize) p => c.content p.length = p) outRingSize
    u.outRingBuf u.outRingReadPos queued
  count : u.outRingCount = queued.length
  writePos : u.outRingWritePos = (u.outRingReadPos + queued.length) % outRingSize
  sizes : ∀ p ∈ queued, 0 < p.length ∧ p.length ≤ packetSize
  full : ∀ p ∈ queued.dropLast, p.length = packetSize
  short : u.outRingShortPacket = shortSize (u.unsent queued)
  usb : u.outUsbPending → queued.length < outRingSize ∧ ∀ p ∈ queued, p.length = packetSize
  bridge : u.outBridgePending → queued ≠ []

theorem shortSize_concat (packets : List (List Byte)) (p : List Byte) :
    shortSize (packets ++ [p]) = if p.length < packetSize then p.length else 0 := by
  rw [shortSize, List.getLast?_concat]

/-- If no short packet waits, all that wait are full. -/
theorem full_of_shortSize {packets : List (List Byte)} (hs : shortSize packets = 0)
    (hfull : ∀ p ∈ packets.dropLast, p.length = packetSize)
    (hsizes : ∀ p ∈ packets, 0 < p.length ∧ p.length ≤ packetSize) :
    ∀ p ∈ packets, p.length = packetSize := by
  induction packets using List.reverseRecOn with
  | nil => simp
  | append_singleton packets q _ =>
    intro p hp
    rw [List.dropLast_concat] at hfull
    rcases List.mem_append.1 hp with hp | hp
    · exact hfull p hp
    · obtain rfl := List.mem_singleton.1 hp
      obtain ⟨hpos, hle⟩ := hsizes p (by simp)
      rw [shortSize_concat] at hs
      split_ifs at hs <;> omega

/-- The first packet has the size with which `out_ring_step` sends it. -/
theorem Carries.headSize {p : List Byte} (h : Carries u (p :: queued))
    (hb : u.outBridgePending = false) :
    (if u.outRingCount = 1 ∧ u.outRingShortPacket ≠ 0 then u.outRingShortPacket else packetSize) =
      p.length := by
  have hun : u.unsent (p :: queued) = p :: queued := by
    rw [unsent, hb]
    rfl
  have hshort := h.short
  have hcount := h.count
  rw [hun] at hshort
  rw [List.length_cons] at hcount
  obtain ⟨hpos, hle⟩ := h.sizes p List.mem_cons_self
  cases queued with
  | nil =>
    have hone : shortSize [p] = if p.length < packetSize then p.length else 0 :=
      shortSize_concat [] p
    rw [hshort, hone]
    simp only [List.length_nil] at hcount
    split_ifs <;> omega
  | cons q queued =>
    rw [if_neg (by simp only [List.length_cons] at hcount; omega)]
    exact (h.full p (by simp)).symm

/-- Arming the endpoint keeps the ring. -/
theorem Carries.receiveUsb (h : Carries u queued)
    (hstart : ∀ p ∈ u.started queued, p.length = packetSize) : Carries u.receiveUsb queued := by
  unfold UsbPipe.receiveUsb
  split_ifs with hc
  · refine ⟨h.ring, h.count, h.writePos, h.sizes, h.full, h.short, fun _ => ?_, h.bridge⟩
    obtain ⟨-, hlt, h0⟩ := hc
    rw [h.short] at h0
    refine ⟨h.count ▸ hlt, fun p hp => ?_⟩
    unfold unsent at h0
    unfold started at hstart
    split_ifs at h0 hstart with hb
    · cases queued with
      | nil => cases hp
      | cons q queued =>
        rcases List.mem_cons.1 hp with rfl | hp
        · exact hstart p (by simp)
        · refine full_of_shortSize h0 (fun r hr => h.full r ?_) (fun r hr => h.sizes r ?_) p hp
          · cases queued with
            | nil => cases hr
            | cons s queued => exact List.mem_cons_of_mem _ hr
          · exact List.mem_cons_of_mem _ hr
    · exact full_of_shortSize h0 h.full h.sizes p hp
  · exact h

/-- What `out_ring_step` passes to the bridge. -/
theorem contents_startIn {p : List Byte} (h : Carries u (p :: queued)) {n : ℕ} (hn : n = p.length)
    {u' : UsbPipe} (hbuf : u'.outRingBuf = u.outRingBuf) :
    u'.contents [.startIn bridgeUsb (outRingPtr u.outRingReadPos) (BitVec.ofNat 8 n)] = [p] := by
  have hle := (h.sizes p List.mem_cons_self).2
  have hp : packetSize = 64 := rfl
  have hlen : (BitVec.ofNat 8 p.length).toNat = p.length := by
    rw [BitVec.toNat_ofNat]
    exact Nat.mod_eq_of_lt (by omega)
  have hptr : outRingPtr u.outRingReadPos - outRingPtr 0 = u.outRingReadPos := by
    unfold outRingPtr
    omega
  have hhead := h.ring.head
  subst hn
  show [((u'.outRingBuf (outRingPtr u.outRingReadPos - outRingPtr 0)).content
    (BitVec.ofNat 8 p.length).toNat)] = [p]
  rw [hlen, hptr, hbuf, hhead]

/-- Passing the oldest packet to the bridge keeps the ring. -/
theorem Carries.sendBridge (h : Carries u queued) :
    Carries u.sendBridge.1 queued ∧ (u.sendBridge.1.outBridgePending ↔ queued ≠ []) ∧
      u.sendBridge.1.contents u.sendBridge.2 =
        if u.outBridgePending then [] else queued.take 1 := by
  have hcount := h.count
  by_cases hb : u.outBridgePending
  · have he : u.sendBridge = (u, []) := by
      rw [UsbPipe.sendBridge, if_neg fun hc => hc.1 hb]
    rw [he, if_pos hb]
    exact ⟨h, iff_of_true hb (h.bridge hb), rfl⟩
  · have hb' : u.outBridgePending = false := by simpa using hb
    cases queued with
    | nil =>
      have he : u.sendBridge = (u, []) := by
        rw [UsbPipe.sendBridge, if_neg fun hc => ?_]
        have := hc.2
        rw [hcount] at this
        exact absurd this (Nat.lt_irrefl 0)
      rw [he, if_neg hb]
      exact ⟨h, iff_of_false hb (fun hne => hne rfl), rfl⟩
    | cons p queued =>
      have hpos : 0 < u.outRingCount := by
        rw [hcount]
        exact Nat.succ_pos _
      have hsize := h.headSize hb'
      have hun : u.unsent (p :: queued) = p :: queued := by
        rw [unsent, hb']
        rfl
      have hshort := h.short
      rw [hun] at hshort
      rw [UsbPipe.sendBridge, if_pos ⟨hb, hpos⟩, if_neg hb]
      split_ifs with hone
      · rw [if_pos hone] at hsize
        refine ⟨⟨h.ring, h.count, h.writePos, h.sizes, h.full, ?_, h.usb, ?_⟩, ?_,
          contents_startIn h hsize rfl⟩
        · -- the short packet was the only one
          rw [hone.1, List.length_cons] at hcount
          obtain rfl : queued = [] := List.eq_nil_of_length_eq_zero (by omega)
          rfl
        · exact fun _ => List.cons_ne_nil _ _
        · exact iff_of_true rfl (List.cons_ne_nil _ _)
      · rw [if_neg hone] at hsize
        refine ⟨⟨h.ring, h.count, h.writePos, h.sizes, h.full, ?_, h.usb, ?_⟩, ?_,
          contents_startIn h hsize rfl⟩
        · show u.outRingShortPacket = shortSize queued
          rw [hshort]
          cases queued with
          | nil =>
            have := shortSize_concat [] p
            rw [List.nil_append, if_neg (by omega)] at this
            exact this
          | cons q queued => simp only [shortSize, List.getLast?_cons_cons]
        · exact fun _ => List.cons_ne_nil _ _
        · exact iff_of_true rfl (List.cons_ne_nil _ _)

/-- **`out_ring_step` keeps the ring**, passes the oldest packet to the bridge if it has not been
passed, and leaves a transfer pending. -/
theorem Carries.outRingStep (h : Carries u queued)
    (hstart : ∀ p ∈ u.started queued, p.length = packetSize) :
    Carries u.outRingStep.1 queued ∧
      (u.outRingStep.1.outUsbPending ∨ u.outRingStep.1.outBridgePending) ∧
      u.started queued ++ u.outRingStep.1.contents u.outRingStep.2 =
        u.outRingStep.1.started queued := by
  have hr := h.receiveUsb hstart
  obtain ⟨hc, hb, hcont⟩ := hr.sendBridge
  have hpend : u.receiveUsb.outBridgePending = u.outBridgePending := by
    unfold UsbPipe.receiveUsb
    split_ifs <;> rfl
  have husb : u.receiveUsb.sendBridge.1.outUsbPending = u.receiveUsb.outUsbPending := by
    unfold UsbPipe.sendBridge
    split_ifs <;> rfl
  refine ⟨hc, ?_, ?_⟩
  · rw [UsbPipe.outRingStep, hb, husb]
    by_cases hq : queued = []
    · subst hq
      -- an empty ring has room
      left
      have h0 : u.outRingShortPacket = 0 := by
        rw [h.short, unsent]
        split_ifs <;> rfl
      have hcount : u.outRingCount = 0 := h.count
      unfold UsbPipe.receiveUsb
      split_ifs with hcond
      · rfl
      · by_contra hno
        exact hcond ⟨hno, by rw [hcount]; decide, h0⟩
    · exact .inr hq
  · rw [UsbPipe.outRingStep, hcont, hpend]
    by_cases hq : queued = []
    · subst hq
      simp [started]
    · have hb' : u.receiveUsb.sendBridge.1.outBridgePending = true := hb.2 hq
      simp only [started, hb', ↓reduceIte]
      split_ifs <;> simp

/-- A packet from the PC goes into the slot that was armed. -/
theorem Carries.outCompletion (h : Carries u queued) (husb : u.outUsbPending)
    (hne : packet ≠ []) (hle : packet.length ≤ packetSize) :
    Carries (u.pipeUsbOutCompletion packet).1 (queued ++ [packet]) ∧
      ((u.pipeUsbOutCompletion packet).1.outUsbPending ∨
        (u.pipeUsbOutCompletion packet).1.outBridgePending) ∧
      u.started queued ++
          (u.pipeUsbOutCompletion packet).1.contents (u.pipeUsbOutCompletion packet).2 =
        (u.pipeUsbOutCompletion packet).1.started (queued ++ [packet]) := by
  obtain ⟨hlt, hall⟩ := h.usb husb
  have hr : outRingSize = 10 := rfl
  have hcount := h.count
  -- the PC is asked only while no short packet is queued
  have hzero : shortSize (u.unsent queued) = 0 := by
    have hun : ∀ p ∈ u.unsent queued, p.length = packetSize := by
      intro p hp
      unfold unsent at hp
      split_ifs at hp
      · exact hall p (List.mem_of_mem_tail hp)
      · exact hall p hp
    unfold shortSize
    split
    · next p hp => rw [if_neg (by rw [hun p (List.mem_of_getLast? hp)]; omega)]
    · rfl
  unfold pipeUsbOutCompletion
  generalize hu' : ({ u with
    outRingBuf := Function.update u.outRingBuf u.outRingWritePos
      ((u.outRingBuf u.outRingWritePos).write 0 packet)
    outRingShortPacket :=
      if packet.length < packetSize then packet.length else u.outRingShortPacket
    outRingWritePos := (u.outRingWritePos + 1) % outRingSize
    outRingCount := (u.outRingCount + 1) % 256
    outUsbPending := false } : UsbPipe) = u'
  have hb : u'.outBridgePending = u.outBridgePending := by rw [← hu']
  -- the new packet is the last one that the bridge has not been given
  have hun : u'.unsent (queued ++ [packet]) = u.unsent queued ++ [packet] := by
    unfold unsent
    rw [hb]
    split_ifs with hpend
    · exact List.tail_append_of_ne_nil (h.bridge hpend)
    · rfl
  have hst : u'.started (queued ++ [packet]) = u.started queued := by
    unfold started
    rw [hb]
    split_ifs with hpend
    · obtain ⟨q, qs, rfl⟩ := List.exists_cons_of_ne_nil (h.bridge hpend)
      rfl
    · rfl
  have hc : Carries u' (queued ++ [packet]) := by
    have hring := h.ring.push (x := packet) (b := (u.outRingBuf u.outRingWritePos).write 0 packet)
      hlt (Cells.content_write_zero hle)
    rw [← h.writePos] at hring
    constructor
    case ring => rw [← hu']; exact hring
    case count =>
      rw [← hu', List.length_append]
      show (u.outRingCount + 1) % 256 = queued.length + 1
      omega
    case writePos =>
      rw [← hu', List.length_append]
      show (u.outRingWritePos + 1) % outRingSize =
        (u.outRingReadPos + (queued.length + 1)) % outRingSize
      rw [h.writePos, Nat.mod_add_mod, Nat.add_assoc]
    case sizes =>
      intro p hp
      rcases List.mem_append.1 hp with hp | hp
      · exact h.sizes p hp
      · obtain rfl := List.mem_singleton.1 hp
        exact ⟨List.length_pos_iff.2 hne, hle⟩
    case full =>
      rw [List.dropLast_concat]
      exact hall
    case short =>
      rw [hun, shortSize_concat, ← hu']
      show (if packet.length < packetSize then packet.length else u.outRingShortPacket) = _
      rw [h.short, hzero]
    case usb =>
      rw [← hu']
      intro h
      cases h
    case bridge => exact fun _ => List.append_ne_nil_of_right_ne_nil _ (List.cons_ne_nil _ _)
  have hstep := hc.outRingStep (by
    rw [hst]
    intro p hp
    unfold started at hp
    split_ifs at hp
    · exact hall p (List.mem_of_mem_take hp)
    · cases hp)
  rw [hst] at hstep
  exact hstep

/-- The bridge has taken the oldest packet. -/
theorem Carries.bridgeInCompletion {p : List Byte} (h : Carries u (p :: queued))
    (hb : u.outBridgePending) :
    Carries u.pipeBridgeInCompletion.1 queued ∧
      (u.pipeBridgeInCompletion.1.outUsbPending ∨ u.pipeBridgeInCompletion.1.outBridgePending) ∧
      u.pipeBridgeInCompletion.1.contents u.pipeBridgeInCompletion.2 =
        u.pipeBridgeInCompletion.1.started queued := by
  have hr : outRingSize = 10 := rfl
  have hcount := h.count
  have hlen := h.ring.length_le
  rw [List.length_cons] at hcount hlen
  unfold pipeBridgeInCompletion
  generalize hu' : ({ u with
    outRingReadPos := (u.outRingReadPos + 1) % outRingSize
    outRingCount := (u.outRingCount + 255) % 256
    outBridgePending := false } : UsbPipe) = u'
  have hb' : u'.outBridgePending = false := by rw [← hu']
  -- the bridge is idle for a moment, and `outRingStep` gives it the next packets
  have hst : u'.started queued = [] := by
    rw [started, hb']
    rfl
  have hc : Carries u' queued := by
    constructor
    case ring => rw [← hu']; exact h.ring.pop
    case count =>
      rw [← hu']
      show (u.outRingCount + 255) % 256 = queued.length
      omega
    case writePos =>
      rw [← hu']
      show u.outRingWritePos = ((u.outRingReadPos + 1) % outRingSize + queued.length) % outRingSize
      rw [h.writePos, Nat.mod_add_mod, List.length_cons, Nat.add_assoc, Nat.add_comm 1]
    case sizes => exact fun q hq => h.sizes q (List.mem_cons_of_mem _ hq)
    case full =>
      intro q hq
      refine h.full q ?_
      cases queued with
      | nil => cases hq
      | cons r queued => exact List.mem_cons_of_mem _ hq
    case short =>
      have hshort := h.short
      rw [unsent, if_pos hb] at hshort
      rw [unsent, hb', ← hu']
      exact hshort
    case usb =>
      rw [← hu']
      intro husb
      obtain ⟨hlt, hall⟩ := h.usb husb
      rw [List.length_cons] at hlt
      exact ⟨by omega, fun q hq => hall q (List.mem_cons_of_mem _ hq)⟩
    case bridge =>
      rw [hb']
      intro h
      cases h
  have hstep := hc.outRingStep (by
    rw [hst]
    intro q hq
    cases hq)
  rw [hst, List.nil_append] at hstep
  exact hstep

/-- The ring does not depend on the other direction. -/
theorem Carries.setState (h : Carries u queued) (st : PipeState) :
    Carries { u with state := st } queued :=
  ⟨h.ring, h.count, h.writePos, h.sizes, h.full, h.short, h.usb, h.bridge⟩

end UsbPipe

/-! ### Runs -/

namespace PipeRun

variable {s t : PipeRun}

/-- The ring carries what has been received and not yet taken by the bridge. -/
structure Streams (s : PipeRun) (sent queued : List (List Byte)) : Prop where
  carries : s.pipe.Carries queued
  received : s.received = sent ++ queued
  passed : s.passed = sent ++ s.pipe.started queued
  pending : s.pipe.outUsbPending ∨ s.pipe.outBridgePending

theorem streams_init : init.Streams [] [] where
  carries :=
    { ring := .nil (by decide)
      count := rfl
      writePos := rfl
      sizes := fun p hp => by cases hp
      full := fun p hp => by cases hp
      short := rfl
      usb := fun _ => ⟨by decide, fun p hp => by cases hp⟩
      bridge := fun h => by cases h }
  received := rfl
  passed := rfl
  pending := .inl rfl

/-- **A completion keeps the stream.** -/
theorem Streams.step {sent queued : List (List Byte)} (h : s.Streams sent queued) {e : PipeEvent}
    (hok : nonempty e) (hst : s.step e = some t) : ∃ sent queued, t.Streams sent queued := by
  obtain ⟨hacc, hst⟩ := Option.ite_none_right_eq_some.1 hst
  obtain rfl := Option.some.inj hst
  cases e with
  | usbOut packet =>
    simp only [accepts, Bool.and_eq_true, decide_eq_true_eq] at hacc
    have hne : packet ≠ [] := by
      rintro rfl
      cases hok
    obtain ⟨hc, hp, hcont⟩ := h.carries.outCompletion hacc.1 hne hacc.2
    refine ⟨sent, queued ++ [packet], hc, ?_, ?_, hp⟩
    · show s.received ++ [packet] = _
      rw [h.received, List.append_assoc]
    · show s.passed ++ _ = _
      rw [h.passed, List.append_assoc]
      exact congrArg (sent ++ ·) hcont
  | bridgeIn =>
    have hb : s.pipe.outBridgePending := hacc
    obtain ⟨p, queued, rfl⟩ := List.exists_cons_of_ne_nil (h.carries.bridge hb)
    obtain ⟨hc, hp, hcont⟩ := h.carries.bridgeInCompletion hb
    refine ⟨sent ++ [p], queued, hc, ?_, ?_, hp⟩
    · show s.received ++ [] = _
      rw [h.received, List.append_nil, List.append_assoc, List.singleton_append]
    · show s.passed ++ _ = _
      rw [h.passed, UsbPipe.started, if_pos hb]
      exact congrArg (sent ++ [p] ++ ·) hcont
  | usbIn =>
    have hacc' : s.pipe.state = .waitForUsb := of_decide_eq_true hacc
    have he : s.handler .usbIn =
        ({ s.pipe with state := .waitForBridge }, [.startOut bridgeUsb pipeBufferPtr]) :=
      if_pos hacc'
    rw [he]
    refine ⟨sent, queued, h.carries.setState _, ?_, ?_, h.pending⟩
    · exact (List.append_nil _).trans h.received
    · exact (List.append_nil _).trans h.passed
  | bridgeOut len =>
    have hacc' : s.pipe.state = .waitForBridge := of_decide_eq_true hacc
    have he : s.handler (.bridgeOut len) = ({ s.pipe with state := .waitForUsb }, []) :=
      if_pos hacc'
    rw [he]
    refine ⟨sent, queued, h.carries.setState _, ?_, ?_, h.pending⟩
    · exact (List.append_nil _).trans h.received
    · exact (List.append_nil _).trans h.passed

theorem Streams.isFaithful {sent queued : List (List Byte)} (h : s.Streams sent queued) :
    s.Faithful where
  stream := by
    rw [h.passed, h.received, List.flatten_append, List.flatten_append]
    refine (List.prefix_append_right_inj _).2 ?_
    unfold UsbPipe.started
    split_ifs
    · exact (List.take_prefix 1 queued).flatten
    · exact List.nil_prefix
  armed husb k hk := by
    rw [h.carries.count] at hk
    rw [h.carries.writePos]
    exact Ring.Holds.free (h.carries.usb husb).1 hk
  count := h.carries.count ▸ h.carries.ring.length_le
  writePos := h.carries.count ▸ h.carries.writePos
  pending := h.pending

/-- **The pipe from the PC to the SoC is a faithful byte stream.**  In every run from
`usbpipe_init` in which no empty packet comes from the PC, with the completions of the USB
endpoints and of the bridge in any order: what has been passed to `bridge_start_in` is a prefix of
what the PC has sent, no slot is armed while it is queued or being sent, the ring has 0 to 10
entries and its positions agree, and a USB read or a bridge transfer is pending. -/
theorem faithful {es : List PipeEvent} (h : machine.Run (fun _ e => nonempty e) init es s) :
    s.Faithful := by
  obtain ⟨sent, queued, hs⟩ := h.invariant (I := fun s => ∃ sent queued, s.Streams sent queued)
    ⟨[], [], streams_init⟩ fun s e t hs hok hst => by
      obtain ⟨sent, queued, hs⟩ := hs
      exact hs.step hok hst
  exact hs.isFaithful

/-- A full and a short packet, the second of which waits for the first. -/
def twoPacketsRun : List PipeEvent :=
  [.usbOut (List.replicate 64 1#8), .usbOut [2#8, 3#8], .bridgeIn]

theorem faithful_twoPacketsRun :
    ∃ s, machine.exec init twoPacketsRun = some s ∧
      s.passed.flatten = List.replicate 64 1#8 ++ [2#8, 3#8] ∧ s.Faithful := by
  have h : ((machine.execOk (fun _ e => nonempty e) init twoPacketsRun).map fun s =>
      s.passed.flatten) = some (List.replicate 64 1#8 ++ [2#8, 3#8]) := by decide +kernel
  obtain ⟨s, hs, hpassed⟩ := Option.map_eq_some_iff.1 h
  have hrun := Machine.run_of_execOk (fun _ e => nonempty e) (fun _ _ => id) hs
  exact ⟨s, hrun.exec_eq, hpassed, faithful hrun⟩

/-- Not every run is faithful: an empty packet is sent as 64 bytes that nobody has received. -/
theorem empty_packet_sent :
    ¬ ∀ (es : List PipeEvent) (s : PipeRun),
      machine.Run Machine.always init es s → s.Faithful := by
  intro hall
  have h : ((machine.exec init [.usbOut []]).map fun s =>
      (s.passed.flatten, s.received.flatten)) = some (List.replicate 64 0#8, []) := by
    decide +kernel
  obtain ⟨s, hs, hpair⟩ := Option.map_eq_some_iff.1 h
  obtain ⟨hpassed, hreceived⟩ := Prod.mk.inj hpair
  have hstream := (hall _ s (Machine.run_of_exec hs)).stream
  rw [hpassed, hreceived] at hstream
  exact absurd (List.prefix_nil.1 hstream) (by decide)

end PipeRun

end TesselFirmware
