import TesselFirmware.Bridge.Basic
import TesselFirmware.Machine.Basic
import TesselFirmware.Memory.Buffer
import TesselFirmware.Memory.Byte

/-!
# The serial terminal (`firmware/usbserial.c`)

The console of the SoC is a UART.  A DMA channel moves what it says into one of two buffers, and
`usbserial_rx_flush` hands that buffer to the PC and turns the channel to the other one: when the
buffer is full, or when a timer that every byte restarts has overflowed.  While a packet is on its
way the timer may not interrupt, and a buffer that fills up is thrown away.  In the other direction
there is one buffer, which the endpoint and a DMA channel take in turns.

The interrupts of USB, DMAC and TC have one priority, so their handlers do not preempt each other;
what the peripherals do comes in any order between them.

`dma_remaining` reads the descriptor that the DMAC writes back, and the DMAC does so with each byte:
until the first byte of a transfer it is the one of the transfer before.

* `SerialRun.every_byte_accounted` : in every run, the bytes of the UART are the pieces that the
  flushes have made and what waits, each packet is its piece unless the flush has found nothing, and
  the buffer on its way is never the one that is being filled;
* `SerialRun.staleRun` : a flush that finds nothing sends old bytes;
* `SerialRun.dropped_full` : what is thrown away is a whole buffer, and a packet was on its way;
* `SerialRun.lossless` : a PC that takes every packet in time gets everything, and nothing else, if
  no flush comes before the first byte of its buffer;
* `SerialRun.drained` : from every reachable state on, everything that waits can leave;
* `SerialRun.transmitted` : the bytes from the PC leave by the UART in their order, and the only
  buffer never has two owners.
-/

namespace TesselFirmware

/-- `BUF_SIZE` -/
def serialBufSize : ℕ := 64

theorem serialBufSize_pos : 0 < serialBufSize := by decide

theorem other_ne : ∀ k : Fin 2, k ≠ k + 1 := by decide

/-- The DMA channel from the UART.  `moved` is how many bytes of its transfer it has moved, and
`btcnt` is the counter in `dma_descriptors_wb`. -/
structure SerialRx where
  running : Bool
  dst : Fin 2
  moved : ℕ
  btcnt : ℕ
  tcmpl : Bool

/-- The DMA channel to the UART. -/
structure SerialTx where
  running : Bool
  moved : ℕ
  size : ℕ
  tcmpl : Bool

/-- `USB_EP_CDC_IN` -/
inductive SerialIn
  | idle
  | sending (buf : Fin 2) (size : ℕ)
  /-- The PC has taken the packet; the interrupt is pending. -/
  | taken
  deriving DecidableEq

/-- `USB_EP_CDC_OUT` -/
inductive SerialOut
  | idle
  | armed
  /-- A packet has come; the interrupt is pending. -/
  | received (len : ℕ)
  deriving DecidableEq

/-- The variables of `usbserial.c`, and the peripherals that it uses.  `timing`, `ovf` and
`ovfEnabled` are of `TC_TERMINAL_TIMEOUT`: it counts, `INTFLAG` and `INTENSET`. -/
structure UsbSerial where
  activeRxBuf : Fin 2
  sendingIn : Bool
  bufIn : Fin 2 → Cells Byte serialBufSize
  bufOut : Cells Byte serialBufSize
  rx : SerialRx
  tx : SerialTx
  timing : Bool
  ovf : Bool
  ovfEnabled : Bool
  epIn : SerialIn
  epOut : SerialOut

namespace UsbSerial

variable (u : UsbSerial)

/-- `dma_remaining(DMA_TERMINAL_RX)` -/
def dmaRemaining : ℕ := u.rx.btcnt

/-- `dma_sercom_start_rx`.  It fills `dma_descriptors`, and not the descriptor that is written
back. -/
def startRx : UsbSerial :=
  { u with rx := { u.rx with running := true, dst := u.activeRxBuf, moved := 0 } }

/-- `usb_ep_start_in`, of the active buffer. -/
def startIn (size : ℕ) : UsbSerial :=
  { u with
    epIn := .sending u.activeRxBuf size
    sendingIn := true
    activeRxBuf := u.activeRxBuf + 1 }

/-- `usbserial_init` -/
def init : UsbSerial :=
  { activeRxBuf := 0
    sendingIn := false
    bufIn := fun _ => .fill 0#8
    bufOut := .fill 0#8
    rx := ⟨true, 0, 0, 0, false⟩
    tx := ⟨false, 0, 0, false⟩
    timing := true
    ovf := false
    ovfEnabled := true
    epIn := .idle
    epOut := .armed }

/-- `usbserial_out_completion` -/
def outCompletion (len : ℕ) : UsbSerial :=
  { u with epOut := .idle, tx := { u.tx with running := true, moved := 0, size := len } }

/-- `usbserial_dma_tx_completion` -/
def dmaTxCompletion : UsbSerial := { u with epOut := .armed }

/-- `usbserial_rx_flush` -/
def rxFlush : UsbSerial :=
  let u := { u with rx := { u.rx with running := false } }
  let u := { u with ovfEnabled := false, ovf := false }
  let u := if !u.sendingIn then u.startIn (serialBufSize - u.dmaRemaining) else u
  u.startRx

/-- `usbserial_dma_rx_completion` -/
def dmaRxCompletion : UsbSerial := u.rxFlush

/-- `usbserial_handle_tc` -/
def handleTc : UsbSerial := if u.ovf then u.rxFlush else u

/-- `usbserial_in_completion` -/
def inCompletion : UsbSerial := { u with epIn := .idle, sendingIn := false, ovfEnabled := true }

end UsbSerial

inductive SerialEvent
  /-- The DMA channel moves a byte of the UART, which restarts the timer. -/
  | rxBeat (b : Byte)
  /-- The timer overflows, and stops. -/
  | overflow
  /-- The interrupt of the channel from the UART. -/
  | dmaRx
  /-- The interrupt of the timer. -/
  | tc
  /-- The PC takes the packet. -/
  | take
  | inCompletion
  /-- A packet comes from the PC. -/
  | packet (data : List Byte)
  | outCompletion
  /-- The DMA channel moves a byte to the UART. -/
  | txBeat
  /-- The interrupt of the channel to the UART. -/
  | dmaTx
  deriving DecidableEq

/-- What a flush has found in the buffer, the packet that it makes of the buffer, and whether that
has been sent. -/
structure SerialPiece where
  sent : Bool
  bytes : List Byte
  packet : List Byte
  deriving DecidableEq

/-- The terminal and what has passed it: the bytes moved from the UART, the pieces that the flushes
made of them, the packets that the PC has taken, and the bytes from the PC and to the UART. -/
structure SerialRun where
  serial : UsbSerial
  moved : List Byte
  pieces : List SerialPiece
  taken : List (List Byte)
  host : List Byte
  uart : List Byte

namespace SerialRun

/-- A peripheral does only what it has been told to do, and an interrupt comes only when its flag
is set and it is enabled.  No packet from the PC is empty: a DMA transfer has no size 0. -/
def accepts (s : SerialRun) : SerialEvent → Bool
  | .rxBeat _ => s.serial.rx.running
  | .overflow => s.serial.timing
  | .dmaRx => s.serial.rx.tcmpl
  | .tc => s.serial.ovf && s.serial.ovfEnabled
  | .take => match s.serial.epIn with | .sending _ _ => true | _ => false
  | .inCompletion => s.serial.epIn = .taken
  | .packet data =>
    s.serial.epOut = .armed && 0 < data.length && data.length ≤ serialBufSize
  | .outCompletion => match s.serial.epOut with | .received _ => true | _ => false
  | .txBeat => s.serial.tx.running
  | .dmaTx => s.serial.tx.tcmpl

/-- The channel from the UART moves a byte. -/
def rxBeat (s : SerialRun) (b : Byte) : SerialRun :=
  let u := s.serial
  let n := u.rx.moved + 1
  { s with
    serial := { u with
      bufIn := Function.update u.bufIn u.rx.dst ((u.bufIn u.rx.dst).write u.rx.moved [b])
      rx := { u.rx with
        moved := n
        btcnt := serialBufSize - n
        running := n ≠ serialBufSize
        tcmpl := u.rx.tcmpl || n = serialBufSize }
      timing := true }
    moved := s.moved ++ [b] }

/-- The channel to the UART moves a byte. -/
def txBeat (s : SerialRun) : SerialRun :=
  let u := s.serial
  let n := u.tx.moved + 1
  { s with
    serial := { u with tx := { u.tx with
      moved := n
      running := n ≠ u.tx.size
      tcmpl := u.tx.tcmpl || n = u.tx.size } }
    uart := s.uart ++ u.bufOut.slice u.tx.moved 1 }

/-- What the channel from the UART has moved in its transfer. -/
def waiting (s : SerialRun) : List Byte :=
  (s.serial.bufIn s.serial.rx.dst).content s.serial.rx.moved

/-- What a flush hands to the endpoint. -/
def handed (s : SerialRun) : List Byte :=
  (s.serial.bufIn s.serial.activeRxBuf).content (serialBufSize - s.serial.dmaRemaining)

/-- The piece that a flush makes. -/
def piece (s : SerialRun) : SerialPiece := ⟨!s.serial.sendingIn, s.waiting, s.handed⟩

/-- The packet on its way to the PC. -/
def onWay (s : SerialRun) : List (List Byte) :=
  match s.serial.epIn with
  | .sending buf size => [(s.serial.bufIn buf).content size]
  | _ => []

/-- What an event does. -/
def next (s : SerialRun) : SerialEvent → SerialRun
  | .rxBeat b => s.rxBeat b
  | .overflow => { s with serial := { s.serial with ovf := true, timing := false } }
  | .dmaRx =>
    -- the handler of the DMAC clears the flag after the handler of the channel
    let u := s.serial.dmaRxCompletion
    { s with
      serial := { u with rx := { u.rx with tcmpl := false } }
      pieces := s.pieces ++ [s.piece] }
  | .tc =>
    { s with
      serial := s.serial.handleTc
      pieces := if s.serial.ovf then s.pieces ++ [s.piece] else s.pieces }
  | .take => { s with serial := { s.serial with epIn := .taken }, taken := s.taken ++ s.onWay }
  | .inCompletion => { s with serial := s.serial.inCompletion }
  | .packet data =>
    { s with
      serial := { s.serial with
        bufOut := s.serial.bufOut.write 0 data
        epOut := .received data.length }
      host := s.host ++ data }
  | .outCompletion =>
    match s.serial.epOut with
    | .received len => { s with serial := s.serial.outCompletion len }
    | _ => s
  | .txBeat => s.txBeat
  | .dmaTx =>
    let u := s.serial.dmaTxCompletion
    { s with serial := { u with tx := { u.tx with tcmpl := false } } }

def step (s : SerialRun) (e : SerialEvent) : Option SerialRun :=
  if s.accepts e then some (s.next e) else none

def machine : Machine SerialRun SerialEvent := ⟨step⟩

/-- After `usbserial_init`. -/
def init : SerialRun := ⟨.init, [], [], [], [], []⟩

/-- The packets that the flushes have sent. -/
def packets (s : SerialRun) : List (List Byte) :=
  (s.pieces.filter (·.sent)).map (·.packet)

variable {s t : SerialRun} {e : SerialEvent}

theorem step_next (ha : s.accepts e = true) : s.step e = some (s.next e) := if_pos ha

theorem step_eq (h : s.step e = some t) : s.accepts e = true ∧ t = s.next e := by
  unfold step at h
  split_ifs at h with ha
  exact ⟨ha, (Option.some.inj h).symm⟩

end SerialRun

/-! ### From the UART to the PC -/

namespace UsbSerial

variable {u : UsbSerial}

/-- A flush while a packet is on its way starts over with the same buffer. -/
theorem rxFlush_of_sending (h : u.sendingIn = true) :
    u.rxFlush = { u with
      rx := { u.rx with running := true, dst := u.activeRxBuf, moved := 0 }
      ovf := false
      ovfEnabled := false } := by
  simp [rxFlush, startRx, h]

/-- Any other flush sends the buffer and goes on with the other one. -/
theorem rxFlush_of_idle (h : u.sendingIn = false) :
    u.rxFlush = { u with
      activeRxBuf := u.activeRxBuf + 1
      sendingIn := true
      epIn := .sending u.activeRxBuf (serialBufSize - u.dmaRemaining)
      rx := { u.rx with running := true, dst := u.activeRxBuf + 1, moved := 0 }
      ovf := false
      ovfEnabled := false } := by
  simp [rxFlush, startRx, startIn, dmaRemaining, h]

end UsbSerial

namespace SerialRun

/-- The bytes from the UART are accounted for, and no buffer is used twice. -/
structure Delivered (s : SerialRun) : Prop where
  stream : s.moved = (s.pieces.map (·.bytes)).flatten ++ s.waiting
  packets : s.packets = s.taken ++ s.onWay
  exact : ∀ p ∈ s.pieces, p.bytes ≠ [] → p.packet = p.bytes
  apart : ∀ buf size, s.serial.epIn = .sending buf size → buf ≠ s.serial.rx.dst
  alive : s.serial.rx.running = true ∨ s.serial.rx.tcmpl = true

/-- What every step keeps in the direction to the PC. -/
structure Receives (s : SerialRun) : Prop extends Delivered s where
  dst : s.serial.rx.dst = s.serial.activeRxBuf
  moved_le : s.serial.rx.moved ≤ serialBufSize
  counted : 0 < s.serial.rx.moved → s.serial.rx.btcnt = serialBufSize - s.serial.rx.moved
  moved_lt : s.serial.rx.running = true → s.serial.rx.moved < serialBufSize
  enabled : s.serial.ovfEnabled = !s.serial.sendingIn
  sending : s.serial.sendingIn = false ↔ s.serial.epIn = .idle
  timed : 0 < s.serial.rx.moved → s.serial.timing = true ∨ s.serial.ovf = true

variable {s t : SerialRun} {e : SerialEvent}

theorem receives_init : init.Receives where
  stream := rfl
  packets := rfl
  exact := fun _ hp => absurd hp List.not_mem_nil
  apart := by
    rintro buf size ⟨⟩
  alive := .inl rfl
  dst := rfl
  moved_le := Nat.zero_le _
  counted := fun h => absurd h (by decide)
  moved_lt _ := serialBufSize_pos
  enabled := rfl
  sending := by decide
  timed := fun h => absurd h (by decide)

/-- The run after a flush. -/
def flush (s : SerialRun) : SerialRun :=
  { s with serial := s.serial.rxFlush, pieces := s.pieces ++ [s.piece] }

theorem waiting_flush (s : SerialRun) : s.flush.waiting = [] := by
  unfold waiting flush
  cases h : s.serial.sendingIn with
  | true => simp [UsbSerial.rxFlush_of_sending h]
  | false => simp [UsbSerial.rxFlush_of_idle h]

theorem packets_flush (s : SerialRun) :
    s.flush.packets = s.packets ++ if s.serial.sendingIn then [] else [s.handed] := by
  unfold packets flush piece
  cases s.serial.sendingIn <;> simp

/-- A flush while a packet is on its way leaves that packet alone. -/
theorem onWay_flush_of_sending (hs : s.serial.sendingIn = true) : s.flush.onWay = s.onWay := by
  unfold onWay flush
  rw [UsbSerial.rxFlush_of_sending hs]

/-- Any other flush puts the buffer on its way. -/
theorem onWay_flush (hs : s.serial.sendingIn = false) : s.flush.onWay = [s.handed] := by
  simp only [onWay, SerialRun.flush, UsbSerial.rxFlush_of_idle hs, handed]

theorem length_waiting (h : s.Receives) : s.waiting.length = s.serial.rx.moved := by
  rw [waiting, Cells.content, List.length_take, Cells.length_cells]
  exact Nat.min_eq_left h.moved_le

/-- After the first byte of a transfer, a flush hands over what waits. -/
theorem Receives.handed_eq (h : s.Receives) (hpos : 0 < s.serial.rx.moved) :
    s.handed = s.waiting := by
  have hsize : serialBufSize - s.serial.dmaRemaining = s.serial.rx.moved := by
    have hle := h.moved_le
    rw [UsbSerial.dmaRemaining, h.counted hpos]
    omega
  rw [handed, waiting, hsize, h.dst]

theorem Receives.moved_pos (h : s.Receives) (hne : s.waiting ≠ []) : 0 < s.serial.rx.moved := by
  rw [← length_waiting h]
  exact List.length_pos_iff.2 hne

theorem Receives.flush (h : s.Receives) : s.flush.Receives := by
  have hstream : s.flush.moved = (s.flush.pieces.map (·.bytes)).flatten ++ s.flush.waiting := by
    rw [waiting_flush, List.append_nil]
    calc s.moved = (s.pieces.map (·.bytes)).flatten ++ s.waiting := h.stream
      _ = ((s.pieces ++ [s.piece]).map (·.bytes)).flatten := by simp [piece]
  have hpackets : s.flush.packets = s.flush.taken ++ s.flush.onWay := by
    rw [packets_flush, h.packets]
    cases hs : s.serial.sendingIn with
    | true =>
      rw [onWay_flush_of_sending hs, if_pos rfl, List.append_nil]
      rfl
    | false =>
      have hidle : s.onWay = [] := by
        unfold onWay
        rw [h.sending.1 hs]
      rw [onWay_flush hs, hidle, List.append_nil]
      rfl
  have hexact : ∀ p ∈ s.flush.pieces, p.bytes ≠ [] → p.packet = p.bytes := by
    intro p hp hne
    obtain hp | hp := List.mem_append.1 hp
    · exact h.exact p hp hne
    · obtain rfl := List.mem_singleton.1 hp
      exact h.handed_eq (h.moved_pos hne)
  cases hs : s.serial.sendingIn with
  | true =>
    have he : s.flush.serial = _ := UsbSerial.rxFlush_of_sending hs
    refine ⟨⟨hstream, hpackets, hexact, ?_, .inl ?_⟩, ?_, ?_, ?_, ?_, ?_, ?_, ?_⟩ <;> rw [he]
    · intro buf size hbuf
      exact h.dst ▸ h.apart buf size hbuf
    · exact Nat.zero_le _
    · intro hpos
      exact absurd hpos (Nat.lt_irrefl 0)
    · intro _
      exact serialBufSize_pos
    · rw [hs]
      rfl
    · exact h.sending
    · intro hpos
      exact absurd hpos (Nat.lt_irrefl 0)
  | false =>
    have he : s.flush.serial = _ := UsbSerial.rxFlush_of_idle hs
    refine ⟨⟨hstream, hpackets, hexact, ?_, .inl ?_⟩, ?_, ?_, ?_, ?_, ?_, ?_, ?_⟩ <;> rw [he]
    · intro buf size hbuf
      obtain ⟨rfl, -⟩ := SerialIn.sending.inj hbuf
      exact other_ne _
    · exact Nat.zero_le _
    · intro hpos
      exact absurd hpos (Nat.lt_irrefl 0)
    · intro _
      exact serialBufSize_pos
    · simp
    · simp
    · intro hpos
      exact absurd hpos (Nat.lt_irrefl 0)

/-- A byte is put behind those that wait. -/
theorem waiting_rxBeat (hlt : s.serial.rx.moved < serialBufSize) (b : Byte) :
    (s.rxBeat b).waiting = s.waiting ++ [b] := by
  have hw : ((s.serial.bufIn s.serial.rx.dst).write s.serial.rx.moved [b]).content
      (s.serial.rx.moved + 1) = s.waiting ++ [b] := Cells.content_write hlt
  simpa [waiting, rxBeat] using hw

/-- A byte does not reach the packet that is on its way. -/
theorem Receives.onWay_rxBeat (h : s.Receives) (b : Byte) : (s.rxBeat b).onWay = s.onWay := by
  unfold onWay rxBeat
  cases he : s.serial.epIn with
  | sending buf size => simp [Function.update_of_ne (h.apart buf size he)]
  | _ => rfl

theorem Receives.rxBeat (h : s.Receives) (hrun : s.serial.rx.running = true) (b : Byte) :
    (s.rxBeat b).Receives := by
  have hlt := h.moved_lt hrun
  refine ⟨⟨?_, ?_, h.exact, h.apart, ?_⟩, h.dst, hlt, fun _ => rfl, ?_, h.enabled, h.sending,
    fun _ => .inl rfl⟩
  · rw [waiting_rxBeat hlt, ← List.append_assoc]
    exact congrArg (· ++ [b]) h.stream
  · rw [h.onWay_rxBeat]
    exact h.packets
  · by_cases hfull : s.serial.rx.moved + 1 = serialBufSize
    · exact .inr (by simp [SerialRun.rxBeat, hfull])
    · exact .inl (by simp [SerialRun.rxBeat, hfull])
  · intro hnext
    have hne : s.serial.rx.moved + 1 ≠ serialBufSize := of_decide_eq_true hnext
    have hval : (s.rxBeat b).serial.rx.moved = s.serial.rx.moved + 1 := rfl
    omega

theorem next_tc (h : s.serial.ovf = true) : s.next .tc = s.flush := by
  simp [next, UsbSerial.handleTc, h, SerialRun.flush]

/-- The flag of the channel does not matter once the channel runs again. -/
theorem Receives.clear (h : s.Receives) (hrun : s.serial.rx.running = true) :
    Receives { s with serial := { s.serial with rx := { s.serial.rx with tcmpl := false } } } :=
  ⟨⟨h.stream, h.packets, h.exact, h.apart, .inl hrun⟩, h.dst, h.moved_le, h.counted, h.moved_lt,
    h.enabled, h.sending, h.timed⟩

theorem running_flush (s : SerialRun) : s.flush.serial.rx.running = true := by
  cases hs : s.serial.sendingIn with
  | true => simp [SerialRun.flush, UsbSerial.rxFlush_of_sending hs]
  | false => simp [SerialRun.flush, UsbSerial.rxFlush_of_idle hs]

theorem Receives.step (h : s.Receives) (hst : s.step e = some t) : t.Receives := by
  obtain ⟨ha, rfl⟩ := step_eq hst
  cases e with
  | rxBeat b => exact h.rxBeat ha b
  | overflow =>
    exact ⟨⟨h.stream, h.packets, h.exact, h.apart, h.alive⟩, h.dst, h.moved_le, h.counted,
      h.moved_lt, h.enabled, h.sending, fun _ => .inr rfl⟩
  | dmaRx => exact h.flush.clear s.running_flush
  | tc =>
    rw [next_tc (Bool.and_eq_true_iff.1 ha).1]
    exact h.flush
  | take =>
    obtain ⟨buf, size, he⟩ : ∃ buf size, s.serial.epIn = .sending buf size := by
      simp only [accepts] at ha
      split at ha
      · exact ⟨_, _, ‹_›⟩
      · cases ha
    refine ⟨⟨h.stream, ?_, h.exact, ?_, h.alive⟩, h.dst, h.moved_le, h.counted, h.moved_lt,
      h.enabled, ?_, h.timed⟩
    · calc s.packets = s.taken ++ s.onWay := h.packets
        _ = s.taken ++ s.onWay ++ [] := (List.append_nil _).symm
    · rintro _ _ ⟨⟩
    · have hbusy : s.serial.sendingIn ≠ false := fun hs => by
        rw [h.sending.1 hs] at he
        cases he
      exact ⟨fun hs => absurd hs hbusy, fun hidle => by cases hidle⟩
  | inCompletion =>
    have he : s.serial.epIn = .taken := of_decide_eq_true ha
    have hnone : s.onWay = [] := by
      unfold onWay
      rw [he]
    refine ⟨⟨h.stream, ?_, h.exact, ?_, h.alive⟩, h.dst, h.moved_le, h.counted, h.moved_lt, rfl,
      ⟨fun _ => rfl, fun _ => rfl⟩, h.timed⟩
    · calc s.packets = s.taken ++ s.onWay := h.packets
        _ = s.taken ++ [] := by rw [hnone]
    · rintro _ _ ⟨⟩
  | packet _ | txBeat | dmaTx =>
    exact ⟨⟨h.stream, h.packets, h.exact, h.apart, h.alive⟩, h.dst, h.moved_le, h.counted,
      h.moved_lt, h.enabled, h.sending, h.timed⟩
  | outCompletion =>
    simp only [next]
    split
    · exact ⟨⟨h.stream, h.packets, h.exact, h.apart, h.alive⟩, h.dst, h.moved_le, h.counted,
        h.moved_lt, h.enabled, h.sending, h.timed⟩
    · exact h

/-- **The terminal loses no byte unseen.**  After `usbserial_init`, whatever the peripherals do and
in whichever order: the bytes that the DMA channel has moved are, in their order, the pieces that
the flushes have made and the bytes that wait in the buffer; the packets that the PC has taken, and
the one on its way, are exactly those of the pieces that have not been thrown away; the packet of a
piece is the piece, unless the flush has found nothing; the packet on its way lies in the other
buffer than the one that is being filled; and the channel runs, or its interrupt is pending. -/
theorem every_byte_accounted {es : List SerialEvent} (h : machine.Run Machine.always init es s) :
    s.Delivered :=
  (h.invariant receives_init fun _ _ _ hr _ hst => hr.step hst).toDelivered

/-- A buffer fills up twice, and the PC takes a packet only at the end. -/
def slowRun : List SerialEvent :=
  List.replicate 64 (.rxBeat 1#8) ++ .dmaRx :: List.replicate 64 (.rxBeat 2#8) ++
    [.dmaRx, .rxBeat 3#8, .overflow, .take, .inCompletion, .tc]

theorem every_byte_accounted_slowRun : ∃ s, machine.exec init slowRun = some s ∧ s.onWay = [[3#8]] ∧
    s.Delivered := by
  have h : ((machine.exec init slowRun).map fun s => s.onWay) = some [[3#8]] := by
    decide +kernel
  obtain ⟨s, hs, honway⟩ := Option.map_eq_some_iff.1 h
  exact ⟨s, hs, honway, every_byte_accounted (Machine.run_of_exec hs)⟩

/-- A buffer fills up and is sent; the timer overflows after that, and the PC takes the packet. -/
def staleRun : List SerialEvent :=
  List.replicate 64 (.rxBeat 1#8) ++ [.dmaRx, .overflow, .take, .inCompletion, .tc]

/-- A flush before the first byte of its buffer sends old bytes, as many as the transfer before
had moved. -/
example : (machine.exec init staleRun).map (fun s => (s.moved, s.taken, s.onWay)) =
    some (List.replicate 64 1#8, [List.replicate 64 1#8], [List.replicate 64 0#8]) := by
  decide +kernel

/-! ### What is thrown away -/

/-- The interrupt of the DMAC has the smaller number, so the handler of the timer waits for it. -/
def dmaFirst (s : SerialRun) (e : SerialEvent) : Prop := e = .tc → s.serial.rx.tcmpl = false

instance (s : SerialRun) (e : SerialEvent) : Decidable (s.dmaFirst e) :=
  inferInstanceAs (Decidable (e = .tc → s.serial.rx.tcmpl = false))

/-- With the interrupts in this order, a channel whose interrupt is pending has filled its
buffer. -/
def Full (s : SerialRun) : Prop :=
  s.serial.rx.tcmpl = true → s.serial.rx.moved = serialBufSize

theorem tcmpl_flush (s : SerialRun) : s.flush.serial.rx.tcmpl = s.serial.rx.tcmpl := by
  cases hs : s.serial.sendingIn with
  | true => simp [SerialRun.flush, UsbSerial.rxFlush_of_sending hs]
  | false => simp [SerialRun.flush, UsbSerial.rxFlush_of_idle hs]

theorem Full.step (h : s.Full) (hr : s.Receives) (hok : s.dmaFirst e) (hst : s.step e = some t) :
    t.Full := by
  obtain ⟨ha, rfl⟩ := step_eq hst
  cases e with
  | rxBeat b =>
    intro hfull
    obtain hfull | hfull := Bool.or_eq_true_iff.1 hfull
    · have := hr.moved_lt ha
      have := h hfull
      omega
    · exact of_decide_eq_true hfull
  | dmaRx =>
    rintro ⟨⟩
  | tc =>
    rw [next_tc (Bool.and_eq_true_iff.1 ha).1]
    intro hfull
    rw [tcmpl_flush, hok rfl] at hfull
    cases hfull
  | outCompletion =>
    simp only [next]
    split <;> exact h
  | _ => exact h

/-- A flush of the timer sends; only the interrupt of the channel finds a packet on its way. -/
theorem Receives.pieces_step (h : s.Receives) (hst : s.step e = some t) :
    t.pieces = s.pieces ∨
      t.pieces = s.pieces ++ [s.piece] ∧ (e = .dmaRx ∨ e = .tc ∧ s.serial.sendingIn = false) := by
  obtain ⟨ha, rfl⟩ := step_eq hst
  cases e with
  | dmaRx => exact .inr ⟨rfl, .inl rfl⟩
  | tc =>
    obtain ⟨hovf, hen⟩ := Bool.and_eq_true_iff.1 ha
    rw [next_tc hovf]
    refine .inr ⟨rfl, .inr ⟨rfl, ?_⟩⟩
    rw [h.enabled] at hen
    simpa using hen
  | outCompletion =>
    simp only [next]
    split <;> exact .inl rfl
  | _ => exact .inl rfl

/-- **What is thrown away is a whole buffer.**  In every run in which the handler of the timer
waits for the one of the DMAC, whatever a flush has thrown away is 64 bytes long. -/
theorem dropped_full {es : List SerialEvent} (h : machine.Run dmaFirst init es s) :
    ∀ p ∈ s.pieces, p.sent = false → p.bytes.length = serialBufSize := by
  refine (h.invariant (I := fun s => (s.Receives ∧ s.Full) ∧
    ∀ p ∈ s.pieces, p.sent = false → p.bytes.length = serialBufSize)
    ⟨⟨receives_init, fun hf => by cases hf⟩, fun _ hp => by cases hp⟩ ?_).2
  rintro s e t ⟨⟨hr, hf⟩, hp⟩ hok hst
  refine ⟨⟨hr.step hst, hf.step hr hok hst⟩, ?_⟩
  obtain heq | ⟨heq, hwhy⟩ := hr.pieces_step hst
  · rw [heq]
    exact hp
  · rw [heq]
    intro p hmem hsent
    obtain hmem | hmem := List.mem_append.1 hmem
    · exact hp p hmem hsent
    · obtain rfl := List.mem_singleton.1 hmem
      obtain rfl | ⟨-, hidle⟩ := hwhy
      · have ha := (step_eq hst).1
        exact (length_waiting hr).trans (hf ha)
      · have hbusy : s.serial.sendingIn = true := by simpa [piece] using hsent
        rw [hidle] at hbusy
        cases hbusy

theorem dropped_full_slowRun : ∃ s, machine.exec init slowRun = some s ∧
    s.pieces.map (·.sent) = [true, false, true] ∧
      ∀ p ∈ s.pieces, p.sent = false → p.bytes.length = serialBufSize := by
  have h : ((machine.execOk (fun s e => decide (s.dmaFirst e)) init slowRun).map fun s =>
      s.pieces.map (·.sent)) = some [true, false, true] := by
    decide +kernel
  obtain ⟨s, hs, hpieces⟩ := Option.map_eq_some_iff.1 h
  have hrun := Machine.run_of_execOk dmaFirst (fun _ _ => of_decide_eq_true) hs
  exact ⟨s, hrun.exec_eq, hpieces, dropped_full hrun⟩

/-- The PC has taken the last packet, and its completion has been handled, before a buffer is
full. -/
def inTime (s : SerialRun) (e : SerialEvent) : Prop := e = .dmaRx → s.serial.epIn = .idle

instance (s : SerialRun) (e : SerialEvent) : Decidable (s.inTime e) :=
  inferInstanceAs (Decidable (e = .dmaRx → s.serial.epIn = .idle))

/-- No flush comes before the first byte of its buffer. -/
def fresh (s : SerialRun) (e : SerialEvent) : Prop :=
  e = .dmaRx ∨ e = .tc → 0 < s.serial.rx.moved

instance (s : SerialRun) (e : SerialEvent) : Decidable (s.fresh e) :=
  inferInstanceAs (Decidable (e = .dmaRx ∨ e = .tc → 0 < s.serial.rx.moved))

theorem flatten_packets (hp : ∀ p ∈ s.pieces, p.sent = true ∧ p.packet = p.bytes) :
    s.packets.flatten = (s.pieces.map (·.bytes)).flatten := by
  rw [packets, List.filter_eq_self.2 fun p hmem => (hp p hmem).1]
  exact congrArg List.flatten (List.map_congr_left fun p hmem => (hp p hmem).2)

/-- **A PC that is fast enough gets everything.**  In every run in which the last packet has been
taken, and its completion handled, whenever a buffer is full, and in which no flush comes before the
first byte of its buffer: the packets that the PC has taken, the one on its way and the bytes that
wait are the bytes of the UART. -/
theorem lossless {es : List SerialEvent}
    (h : machine.Run (fun (s : SerialRun) e => s.inTime e ∧ s.fresh e) init es s) :
    s.moved = s.taken.flatten ++ s.onWay.flatten ++ s.waiting := by
  obtain ⟨hr, hp⟩ := h.invariant
    (I := fun s => s.Receives ∧ ∀ p ∈ s.pieces, p.sent = true ∧ p.packet = p.bytes)
    ⟨receives_init, fun _ hp => by cases hp⟩ <| by
      rintro s e t ⟨hr, hp⟩ ⟨hok, hfresh⟩ hst
      refine ⟨hr.step hst, ?_⟩
      obtain heq | ⟨heq, hwhy⟩ := hr.pieces_step hst
      · rw [heq]
        exact hp
      · rw [heq]
        intro p hmem
        obtain hmem | hmem := List.mem_append.1 hmem
        · exact hp p hmem
        · obtain rfl := List.mem_singleton.1 hmem
          have hidle : s.serial.sendingIn = false :=
            hwhy.elim (fun he => hr.sending.2 (hok he)) And.right
          exact ⟨by simp [piece, hidle], hr.handed_eq (hfresh (hwhy.imp_right And.left))⟩
  calc s.moved = (s.pieces.map (·.bytes)).flatten ++ s.waiting := hr.stream
    _ = s.packets.flatten ++ s.waiting := by rw [flatten_packets hp]
    _ = s.taken.flatten ++ s.onWay.flatten ++ s.waiting := by rw [hr.packets, List.flatten_append]

/-- Two packets, each taken in time. -/
def fastRun : List SerialEvent :=
  [.rxBeat 1#8, .rxBeat 2#8, .overflow, .tc, .rxBeat 3#8, .take, .inCompletion, .overflow, .tc,
    .take, .rxBeat 4#8]

theorem lossless_fastRun : ∃ s, machine.exec init fastRun = some s ∧
    s.taken = [[1#8, 2#8], [3#8]] ∧
      s.moved = s.taken.flatten ++ s.onWay.flatten ++ s.waiting := by
  have h : ((machine.execOk (fun (s : SerialRun) e => decide (s.inTime e ∧ s.fresh e)) init
      fastRun).map fun s => s.taken) = some [[1#8, 2#8], [3#8]] := by
    decide +kernel
  obtain ⟨s, hs, htaken⟩ := Option.map_eq_some_iff.1 h
  have hrun := Machine.run_of_execOk (fun (s : SerialRun) e => s.inTime e ∧ s.fresh e)
    (fun _ _ => of_decide_eq_true) hs
  exact ⟨s, hrun.exec_eq, htaken, lossless hrun⟩

/-! ### What waits can leave -/

theorem reachable_next {s₀ : SerialRun} (h : machine.Reachable s₀ s) (ha : s.accepts e = true) :
    machine.Reachable s₀ (s.next e) :=
  h.tail (step_next ha)

/-- Nothing has come from the UART on the way from `s` to `t`, the endpoint is free and the PC has
`data` on top of what it had taken. -/
structure Frees (s t : SerialRun) (data : List Byte) : Prop where
  reachable : machine.Reachable s t
  receives : t.Receives
  idle : t.serial.epIn = .idle
  moved : t.moved = s.moved
  taken : t.taken.flatten = s.taken.flatten ++ data

/-- The endpoint becomes free, and nothing else changes. -/
theorem Receives.free (h : s.Receives) : ∃ t, Frees s t s.onWay.flatten ∧
    t.waiting = s.waiting ∧ t.serial.rx = s.serial.rx ∧
      t.serial.timing = s.serial.timing ∧ t.serial.ovf = s.serial.ovf := by
  have hrefl : machine.Reachable s s := .refl s
  cases he : s.serial.epIn with
  | idle =>
    refine ⟨s, ⟨hrefl, h, he, rfl, ?_⟩, rfl, rfl, rfl, rfl⟩
    simp [onWay, he]
  | sending buf size =>
    have ha : s.accepts .take = true := by simp [accepts, he]
    have ha' : (s.next .take).accepts .inCompletion = true := by simp [accepts, next]
    have hr : (s.next .take).Receives := h.step (step_next ha)
    refine ⟨_, ⟨reachable_next (reachable_next hrefl ha) ha', hr.step (step_next ha'), rfl, rfl,
      ?_⟩, rfl, rfl, rfl, rfl⟩
    exact List.flatten_append
  | taken =>
    have ha : s.accepts .inCompletion = true := decide_eq_true he
    refine ⟨_, ⟨reachable_next hrefl ha, h.step (step_next ha), rfl, rfl, ?_⟩, rfl, rfl, rfl, rfl⟩
    simp [onWay, he, next]

/-- With the endpoint free, a flush can send what waits. -/
theorem Receives.flushes (h : s.Receives) (hidle : s.serial.epIn = .idle) : ∃ t,
    machine.Reachable s t ∧ t.Receives ∧ t.moved = s.moved ∧ t.waiting = [] ∧
      t.taken = s.taken ∧ t.onWay.flatten = s.waiting := by
  have hrefl : machine.Reachable s s := .refl s
  have hfree : s.serial.sendingIn = false := h.sending.2 hidle
  have hen : s.serial.ovfEnabled = true := by rw [h.enabled, hfree]; rfl
  obtain hzero | hpos := Nat.eq_zero_or_pos s.serial.rx.moved
  · have hnone : s.onWay = [] := by simp [onWay, hidle]
    have hempty : s.waiting = [] := by rw [waiting, hzero, Cells.content_zero]
    exact ⟨s, hrefl, h, rfl, hempty, rfl, by rw [hnone, hempty]; rfl⟩
  have hsent : s.flush.onWay.flatten = s.waiting := by
    rw [onWay_flush hfree, List.flatten_singleton, h.handed_eq hpos]
  by_cases hfull : s.serial.rx.tcmpl = true
  · -- the buffer is full: the interrupt of the channel flushes
    exact ⟨_, reachable_next hrefl (e := .dmaRx) hfull, h.step (step_next (e := .dmaRx) hfull), rfl,
      s.waiting_flush, rfl, hsent⟩
  by_cases hovf : s.serial.ovf = true
  · -- the timer has overflowed: its interrupt flushes
    have ha : s.accepts .tc = true := by simp [accepts, hovf, hen]
    have hnext := next_tc hovf
    exact ⟨s.flush, hnext ▸ reachable_next hrefl ha, h.flush, rfl, s.waiting_flush, rfl, hsent⟩
  · -- the timer counts: it overflows first
    have htiming : s.serial.timing = true := (h.timed hpos).resolve_right hovf
    have hr : (s.next .overflow).Receives := h.step (step_next (e := .overflow) htiming)
    have ha : (s.next .overflow).accepts .tc = true := by simp [accepts, next, hen]
    have hnext : (s.next .overflow).next .tc = (s.next .overflow).flush := next_tc rfl
    refine ⟨(s.next .overflow).flush,
      hnext ▸ reachable_next (reachable_next hrefl (e := .overflow) htiming) ha, hr.flush, rfl,
      waiting_flush _, rfl, ?_⟩
    rw [onWay_flush (s := s.next .overflow) hfree, List.flatten_singleton, hr.handed_eq hpos]
    rfl

/-- **Nothing waits for ever.**  From every reachable state the terminal can get, without a further
byte from the UART, to a state in which the endpoint is free and the PC has the packet that was on
its way and all that waited in the buffer. -/
theorem drained (h : machine.Reachable init s) : ∃ t, machine.Reachable s t ∧ t.moved = s.moved ∧
    t.serial.epIn = .idle ∧ t.waiting = [] ∧
      t.taken.flatten = s.taken.flatten ++ s.onWay.flatten ++ s.waiting := by
  have hr : s.Receives := h.invariant receives_init fun _ _ _ hr hst => hr.step hst
  obtain ⟨a, ha, haw, -⟩ := hr.free
  obtain ⟨b, hb, hbr, hbm, hbw, hbt, hbo⟩ := ha.receives.flushes ha.idle
  obtain ⟨c, hc, hcw, -⟩ := hbr.free
  refine ⟨c, (ha.reachable.trans hb).trans hc.reachable, ?_, hc.idle, hcw.trans hbw, ?_⟩
  · rw [hc.moved, hbm, ha.moved]
  · rw [hc.taken, hbt, ha.taken, hbo, haw]

theorem drained_slowRun : ∃ s t, machine.exec init slowRun = some s ∧ machine.Reachable s t ∧
    t.moved = s.moved ∧ t.serial.epIn = .idle ∧ t.waiting = [] ∧
      t.taken.flatten = s.taken.flatten ++ s.onWay.flatten ++ s.waiting := by
  have h : (machine.exec init slowRun).isSome = true := by decide +kernel
  obtain ⟨s, hs⟩ := Option.isSome_iff_exists.1 h
  obtain ⟨t, ht⟩ := drained (Machine.reachable_of_exec hs)
  exact ⟨s, t, hs, ht⟩

/-! ### From the PC to the UART -/

/-- The bytes from the PC that have not left by the UART. -/
def unsent (s : SerialRun) : List Byte :=
  match s.serial.epOut with
  | .received len => s.serial.bufOut.content len
  | _ =>
    if s.serial.tx.running then
      s.serial.bufOut.slice s.serial.tx.moved (s.serial.tx.size - s.serial.tx.moved)
    else []

/-- The endpoint owns the buffer, or the DMA channel has it, or its interrupt is pending. -/
inductive Owned (u : UsbSerial) : Prop
  | endpoint (out : u.epOut ≠ .idle) (stopped : u.tx.running = false) (clear : u.tx.tcmpl = false)
  | channel (out : u.epOut = .idle) (running : u.tx.running = true) (clear : u.tx.tcmpl = false)
      (moved : u.tx.moved < u.tx.size) (size : u.tx.size ≤ serialBufSize)
  | interrupt (out : u.epOut = .idle) (stopped : u.tx.running = false)
      (pending : u.tx.tcmpl = true)

/-- The bytes from the PC are accounted for. -/
structure Transmits (s : SerialRun) : Prop where
  stream : s.host = s.uart ++ s.unsent
  owned : Owned s.serial
  length : ∀ len, s.serial.epOut = .received len → 0 < len ∧ len ≤ serialBufSize

theorem transmits_init : init.Transmits where
  stream := rfl
  owned := .endpoint (by decide) rfl rfl
  length := by
    rintro len ⟨⟩

/-- What is left of a transfer starts with the byte that the channel moves. -/
theorem slice_moved {u : UsbSerial} (hlt : u.tx.moved < u.tx.size) :
    u.bufOut.slice u.tx.moved (u.tx.size - u.tx.moved) =
      u.bufOut.slice u.tx.moved 1 ++
        u.bufOut.slice (u.tx.moved + 1) (u.tx.size - (u.tx.moved + 1)) := by
  rw [← Cells.slice_add]
  congr 1
  omega

theorem Transmits.txBeat (h : s.Transmits) (hrun : s.serial.tx.running = true) :
    s.txBeat.Transmits := by
  cases h.owned with
  | endpoint _ hstop _ =>
    rw [hrun] at hstop
    cases hstop
  | interrupt _ hstop _ =>
    rw [hrun] at hstop
    cases hstop
  | channel hout _ hclear hlt hsize =>
    have hunsent : s.unsent = s.serial.bufOut.slice s.serial.tx.moved 1 ++
        s.serial.bufOut.slice (s.serial.tx.moved + 1)
          (s.serial.tx.size - (s.serial.tx.moved + 1)) := by
      rw [← slice_moved hlt]
      simp [unsent, hout, hrun]
    have hstream := h.stream
    rw [hunsent, ← List.append_assoc] at hstream
    have hnone : ∀ len, s.txBeat.serial.epOut ≠ .received len := fun len hlen => by
      rw [show s.txBeat.serial.epOut = .idle from hout] at hlen
      cases hlen
    by_cases hlast : s.serial.tx.moved + 1 = s.serial.tx.size
    · refine ⟨?_, .interrupt hout (by simp [SerialRun.txBeat, hlast])
        (by simp [SerialRun.txBeat, hlast]), fun len hlen => absurd hlen (hnone len)⟩
      have hrest : s.txBeat.unsent = [] := by simp [unsent, SerialRun.txBeat, hout, hlast]
      rw [hlast, Nat.sub_self, Cells.slice_zero, List.append_nil] at hstream
      rw [hrest, List.append_nil]
      exact hstream
    · refine ⟨?_, .channel hout (by simp [SerialRun.txBeat, hlast])
        (by simp [SerialRun.txBeat, hlast, hclear]) (Nat.lt_of_le_of_ne hlt hlast) hsize,
        fun len hlen => absurd hlen (hnone len)⟩
      have hrest : s.txBeat.unsent = s.serial.bufOut.slice (s.serial.tx.moved + 1)
          (s.serial.tx.size - (s.serial.tx.moved + 1)) := by
        simp [unsent, SerialRun.txBeat, hout, hlast]
      rw [hrest]
      exact hstream

/-- A step that leaves this direction alone. -/
theorem Transmits.frame (h : s.Transmits) (hout : t.serial.epOut = s.serial.epOut)
    (htx : t.serial.tx = s.serial.tx) (hbuf : t.serial.bufOut = s.serial.bufOut)
    (hhost : t.host = s.host) (huart : t.uart = s.uart) : t.Transmits where
  stream := by
    have hunsent : t.unsent = s.unsent := by
      unfold unsent
      rw [hout, htx, hbuf]
    rw [hhost, huart, hunsent]
    exact h.stream
  owned := by
    cases h.owned with
    | endpoint ho hs hc => exact .endpoint (hout ▸ ho) (htx ▸ hs) (htx ▸ hc)
    | channel ho hr hc hm hs =>
      exact .channel (hout ▸ ho) (htx ▸ hr) (htx ▸ hc) (htx ▸ hm) (htx ▸ hs)
    | interrupt ho hs hp => exact .interrupt (hout ▸ ho) (htx ▸ hs) (htx ▸ hp)
  length := by
    rw [hout]
    exact h.length

theorem Transmits.flush (h : s.Transmits) : s.flush.Transmits := by
  cases hs : s.serial.sendingIn with
  | true =>
    have he : s.flush.serial = _ := UsbSerial.rxFlush_of_sending hs
    exact h.frame (by rw [he]) (by rw [he]) (by rw [he]) rfl rfl
  | false =>
    have he : s.flush.serial = _ := UsbSerial.rxFlush_of_idle hs
    exact h.frame (by rw [he]) (by rw [he]) (by rw [he]) rfl rfl

/-- A packet comes only for the endpoint. -/
theorem Transmits.packet (h : s.Transmits) {data : List Byte} (harmed : s.serial.epOut = .armed)
    (hpos : 0 < data.length) (hle : data.length ≤ serialBufSize) :
    (s.next (.packet data)).Transmits := by
  cases h.owned with
  | endpoint hout hstop hclear =>
    refine ⟨?_, .endpoint (by rintro ⟨⟩) hstop hclear, ?_⟩
    · have hnone : s.unsent = [] := by simp [unsent, harmed, hstop]
      have hdata : (s.next (.packet data)).unsent = data := Cells.content_write_zero hle
      have hstream := h.stream
      rw [hnone, List.append_nil] at hstream
      rw [hdata]
      exact congrArg (· ++ data) hstream
    · intro len hlen
      obtain rfl := SerialOut.received.inj hlen
      exact ⟨hpos, hle⟩
  | channel hout =>
    rw [hout] at harmed
    cases harmed
  | interrupt hout =>
    rw [hout] at harmed
    cases harmed

/-- The channel takes over the packet. -/
theorem Transmits.outCompletion (h : s.Transmits) {len : ℕ}
    (hrec : s.serial.epOut = .received len) :
    Transmits { s with serial := s.serial.outCompletion len } := by
  obtain ⟨hpos, hle⟩ := h.length len hrec
  cases h.owned with
  | endpoint hout hstop hclear =>
    refine ⟨?_, .channel rfl rfl hclear hpos hle, by rintro _ ⟨⟩⟩
    have hstream := h.stream
    simp only [unsent, hrec] at hstream
    exact hstream
  | channel hout =>
    rw [hout] at hrec
    cases hrec
  | interrupt hout =>
    rw [hout] at hrec
    cases hrec

/-- The endpoint is armed when all has left. -/
theorem Transmits.dmaTx (h : s.Transmits) (hpending : s.serial.tx.tcmpl = true) :
    (s.next .dmaTx).Transmits := by
  cases h.owned with
  | endpoint _ _ hclear =>
    rw [hclear] at hpending
    cases hpending
  | channel _ _ hclear =>
    rw [hclear] at hpending
    cases hpending
  | interrupt hout hstop _ =>
    refine ⟨?_, .endpoint (by rintro ⟨⟩) hstop rfl, by rintro _ ⟨⟩⟩
    have hnone : s.unsent = [] := by simp [unsent, hout, hstop]
    have hnone' : (s.next .dmaTx).unsent = [] := by
      simp [unsent, next, UsbSerial.dmaTxCompletion, hstop]
    have hstream := h.stream
    rw [hnone] at hstream
    rw [hnone']
    exact hstream

theorem Transmits.step (h : s.Transmits) (hst : s.step e = some t) : t.Transmits := by
  obtain ⟨ha, rfl⟩ := step_eq hst
  cases e with
  | rxBeat b => exact h.frame rfl rfl rfl rfl rfl
  | overflow => exact h.frame rfl rfl rfl rfl rfl
  | dmaRx => exact h.flush.frame rfl rfl rfl rfl rfl
  | tc =>
    rw [next_tc (Bool.and_eq_true_iff.1 ha).1]
    exact h.flush
  | take => exact h.frame rfl rfl rfl rfl rfl
  | inCompletion => exact h.frame rfl rfl rfl rfl rfl
  | packet data =>
    obtain ⟨ha, hle⟩ := Bool.and_eq_true_iff.1 ha
    obtain ⟨harmed, hpos⟩ := Bool.and_eq_true_iff.1 ha
    exact h.packet (of_decide_eq_true harmed) (of_decide_eq_true hpos) (of_decide_eq_true hle)
  | outCompletion =>
    simp only [next]
    split
    · next len hrec => exact h.outCompletion hrec
    · exact h
  | txBeat => exact h.txBeat ha
  | dmaTx => exact h.dmaTx ha

theorem length_unsent (h : s.Transmits) : s.unsent.length ≤ serialBufSize := by
  unfold unsent
  split
  · next len hrec =>
    rw [Cells.content, List.length_take]
    exact Nat.le_trans (Nat.min_le_left _ _) (h.length len hrec).2
  · split
    · next hrun =>
      cases h.owned with
      | channel _ _ _ _ hsize =>
        rw [Cells.slice, List.length_take]
        omega
      | endpoint _ hstop _ =>
        rw [hrun] at hstop
        cases hstop
      | interrupt _ hstop _ =>
        rw [hrun] at hstop
        cases hstop
    · exact Nat.zero_le _

/-- **The bytes from the PC leave in their order.**  After `usbserial_init`, whatever the
peripherals do and in whichever order: the bytes sent by the UART are the first ones that came from
the PC, at most 64 of them have not left, none when the endpoint is armed for the next packet, and
the endpoint and the DMA channel never have the buffer at the same time. -/
theorem transmitted {es : List SerialEvent} (h : machine.Run Machine.always init es s) :
    s.uart <+: s.host ∧ s.host.length ≤ s.uart.length + serialBufSize ∧
      (s.serial.epOut = .armed → s.uart = s.host) ∧
      (s.serial.epOut = .idle ∨ s.serial.tx.running = false) := by
  have ht : s.Transmits := h.invariant transmits_init fun _ _ _ ht _ hst => ht.step hst
  refine ⟨ht.stream ▸ List.prefix_append _ _, ?_, ?_, ?_⟩
  · have := length_unsent ht
    rw [ht.stream, List.length_append]
    omega
  · intro harmed
    have hnone : s.unsent = [] := by
      cases ht.owned with
      | endpoint _ hstop _ => simp [unsent, harmed, hstop]
      | channel hout =>
        rw [hout] at harmed
        cases harmed
      | interrupt _ hstop _ => simp [unsent, harmed, hstop]
    have hstream := ht.stream
    rw [hnone, List.append_nil] at hstream
    exact hstream.symm
  · cases ht.owned with
    | endpoint _ hstop _ => exact .inr hstop
    | channel hout => exact .inl hout
    | interrupt hout => exact .inl hout

/-- Two packets from the PC, the second of which has not left. -/
def typingRun : List SerialEvent :=
  [.packet [1#8, 2#8], .outCompletion, .txBeat, .rxBeat 9#8, .txBeat, .dmaTx, .packet [3#8],
    .outCompletion]

theorem transmitted_typingRun : ∃ s, machine.exec init typingRun = some s ∧
    s.uart = [1#8, 2#8] ∧ s.host = [1#8, 2#8, 3#8] ∧
      s.uart <+: s.host ∧ s.host.length ≤ s.uart.length + serialBufSize ∧
      (s.serial.epOut = .armed → s.uart = s.host) ∧
      (s.serial.epOut = .idle ∨ s.serial.tx.running = false) := by
  have h : ((machine.exec init typingRun).map fun s => (s.uart, s.host)) =
      some ([1#8, 2#8], [1#8, 2#8, 3#8]) := by
    decide +kernel
  obtain ⟨s, hs, hpair⟩ := Option.map_eq_some_iff.1 h
  obtain ⟨huart, hhost⟩ := Prod.mk.inj hpair
  exact ⟨s, hs, huart, hhost, transmitted (Machine.run_of_exec hs)⟩

end SerialRun

end TesselFirmware
