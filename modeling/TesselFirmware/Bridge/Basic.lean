import Mathlib.Data.Fintype.Pi
import Mathlib.Logic.Function.Basic
import TesselFirmware.Memory.Byte

/-!
# The MCU side of the SPI bridge (`firmware/bridge.c`)

The bridge offers three bidirectional channels.  A transaction starts when SYNC goes low
(`handleSyncLow` takes a snapshot of what is ready), the SoC then sends its header into `ctrlRx`
while `ctrlTx` goes out, and when SYNC goes high `handleSyncHigh` derives the DMA chain of the
unframed data phase from the two headers.  When the chain has run, `bridge_dma_rx_completion`
calls the clients back; it is modelled in three parts (`takeSnapshot`, `callbacks`, `writeBack`),
because a SYNC edge can preempt it between any two of them.

The clients use the four calls `startIn`, `startOut`, `enableChan` and `disableChan`.
-/

namespace TesselFirmware

/-- A bridge channel: `BRIDGE_USB`, `BRIDGE_PORT_A` or `BRIDGE_PORT_B`. -/
abbrev Chan := Fin 3

instance neZero_three : @NeZero ℕ Zero.ofOfNat0 3 := Nat.instNeZeroSucc

/-- There are two ports. -/
instance neZero_two : @NeZero ℕ Zero.ofOfNat0 2 := Nat.instNeZeroSucc

/-- The channels in the order of the loops over them. -/
def chans : List Chan := [0, 1, 2]

/-- The direction of a transfer, seen from the host: OUT is SoC to MCU. -/
inductive Dir
  | out
  | inn
  deriving DecidableEq, Repr

/-- One piece of a data phase. -/
structure Segment where
  dir : Dir
  chan : Chan
  len : ℕ
  deriving DecidableEq, Repr

/-- A pair of DMA descriptors of the data phase: the segment and the client buffer it uses. -/
structure Desc extends Segment where
  ptr : ℕ
  deriving DecidableEq, Repr

/-- The setup header, in either direction. -/
structure ControlPkt where
  cmd : Byte
  status : Byte
  size : Chan → Byte
  deriving DecidableEq

namespace ControlPkt

/-- `status & (1 << chan)`: the sender is ready to accept data on the channel. -/
def ready (h : ControlPkt) (ch : Chan) : Bool := Byte.has h.status ch

/-- `status & (0x10 << chan)`: the channel is connected (SoC) or enabled (MCU). -/
def connected (h : ControlPkt) (ch : Chan) : Bool := Byte.has h.status (ch + 4)

end ControlPkt

inductive BridgeState
  | disable
  | idle
  | ctrl
  | data
  deriving DecidableEq, Repr

/-- What `bridge_dma_rx_completion` reports to the clients. -/
inductive Callback
  | open (ch : Chan)
  | completionOut (ch : Chan) (len : ℕ)
  | completionIn (ch : Chan)
  | close (ch : Chan)
  deriving DecidableEq, Repr

/-- The channel a callback is about. -/
def Callback.chan : Callback → Chan
  | .open ch => ch
  | .completionOut ch _ => ch
  | .completionIn ch => ch
  | .close ch => ch

/-- The calls by which a client starts transfers and enables or disables its channel. -/
inductive Call
  | startIn (ch : Chan) (data : ℕ) (length : Byte)
  | startOut (ch : Chan) (data : ℕ)
  | enableChan (ch : Chan)
  | disableChan (ch : Chan)
  deriving DecidableEq, Repr

/-- The channel a call is about. -/
def Call.chan : Call → Chan
  | startIn ch _ _ => ch
  | startOut ch _ => ch
  | enableChan ch => ch
  | disableChan ch => ch

/-- The globals of `bridge.c`, with the DMA hardware as far as the bridge uses it. -/
structure Bridge where
  state : BridgeState
  wasOpen : Byte
  ctrlRx : ControlPkt
  ctrlTx : ControlPkt
  inChanPtr : Chan → ℕ
  inChanSize : Chan → Byte
  outChanPtr : Chan → ℕ
  outChanReady : Byte
  /-- Set when the SoC has been heard (`booted`). -/
  booted : Bool
  /-- The level of `PIN_BRIDGE_IRQ`. -/
  irq : Bool
  /-- The data-phase DMA chain that is still running. -/
  chain : List Desc
  /-- The RX DMA completion interrupt is pending and not masked. -/
  rxDone : Bool

namespace Bridge

/-- An all-zero header. -/
def zeroPkt : ControlPkt := ⟨0#8, 0#8, fun _ => 0#8⟩

/-- The state after `bridge_init` at boot. -/
def init : Bridge where
  state := .idle
  wasOpen := 0#8
  ctrlRx := zeroPkt
  ctrlTx := zeroPkt
  inChanPtr := fun _ => 0
  inChanSize := fun _ => 0#8
  outChanPtr := fun _ => 0
  outChanReady := 0#8
  booted := false
  irq := false
  chain := []
  rxDone := false

/-! ### Client calls -/

/-- `bridge_start_in`. -/
def startIn (b : Bridge) (ch : Chan) (data : ℕ) (length : Byte) : Bridge :=
  { b with
    inChanPtr := Function.update b.inChanPtr ch data
    inChanSize := Function.update b.inChanSize ch length
    irq := true }

/-- `bridge_start_out`. -/
def startOut (b : Bridge) (ch : Chan) (data : ℕ) : Bridge :=
  { b with
    outChanPtr := Function.update b.outChanPtr ch data
    outChanReady := Byte.set b.outChanReady ch
    irq := true }

/-- `bridge_enable_chan`. -/
def enableChan (b : Bridge) (ch : Chan) : Bridge :=
  { b with outChanReady := Byte.set b.outChanReady (ch + 4), irq := true }

/-- `bridge_disable_chan`: clears the enable bit, the ready bit (`0x11 << channel`) and any data
that was waiting to be sent. -/
def disableChan (b : Bridge) (ch : Chan) : Bridge :=
  { b with
    outChanReady := Byte.clear (Byte.clear b.outChanReady ch) (ch + 4)
    inChanSize := Function.update b.inChanSize ch 0#8
    irq := true }

/-- A call of a client. -/
def call (b : Bridge) : Call → Bridge
  | .startIn ch data length => b.startIn ch data length
  | .startOut ch data => b.startOut ch data
  | .enableChan ch => b.enableChan ch
  | .disableChan ch => b.disableChan ch

/-- The channel is ready to receive (`out_chan_ready & (1 << chan)`). -/
def ready (b : Bridge) (ch : Chan) : Bool := Byte.has b.outChanReady ch

/-- The channel is enabled (`out_chan_ready & (0x10 << chan)`). -/
def enabled (b : Bridge) (ch : Chan) : Bool := Byte.has b.outChanReady (ch + 4)

/-! ### SYNC edges -/

/-- `bridge_handle_sync` with SYNC low: running DMA is aborted, the completion interrupt masked,
and the header is prepared from what is ready now. -/
def handleSyncLow (b : Bridge) : Bridge :=
  { b with
    ctrlRx := { b.ctrlRx with cmd := 0x00#8 }
    ctrlTx := { cmd := 0xCA#8, status := b.outChanReady, size := b.inChanSize }
    chain := []
    rxDone := false
    state := .ctrl }

/-- The OUT half of one pass of the loop that creates the DMA chain. -/
def chainOut (b : Bridge) (ch : Chan) : Bridge :=
  let size := b.ctrlRx.size ch
  if b.ctrlTx.ready ch ∧ size ≠ 0#8 then
    { b with
      outChanReady := Byte.clear b.outChanReady ch
      chain := b.chain ++ [⟨⟨.out, ch, size.toNat⟩, b.outChanPtr ch⟩] }
  else b

/-- The IN half of one pass of that loop. -/
def chainIn (b : Bridge) (ch : Chan) : Bridge :=
  let size := b.ctrlTx.size ch
  if b.ctrlRx.ready ch ∧ size ≠ 0#8 then
    { b with
      inChanSize := Function.update b.inChanSize ch 0#8
      chain := b.chain ++ [⟨⟨.inn, ch, size.toNat⟩, b.inChanPtr ch⟩] }
  else b

/-- The loop that creates the DMA chain. -/
def createChain (b : Bridge) : Bridge :=
  chans.foldl (fun b ch => (b.chainOut ch).chainIn ch) b

/-- `bridge_handle_sync` with SYNC high. -/
def handleSyncHigh (b : Bridge) : Bridge :=
  if b.ctrlRx.cmd ≠ 0x53#8 then
    { b with state := .idle }
  else
    let b := createChain { b with booted := true, chain := [] }
    if b.chain ≠ [] then
      { b with rxDone := false, state := .data, irq := false }
    else if b.ctrlRx.status &&& 0xF0#8 ≠ b.wasOpen &&& 0xF0#8 then
      -- the control packet completion is still pending and only needs to be unmasked
      { b with rxDone := true, state := .data, irq := false }
    else
      { b with state := .idle, irq := false }

/-- The control DMA has received the header of the SoC. -/
def receiveHeader (b : Bridge) (h : ControlPkt) : Bridge := { b with ctrlRx := h }

/-- The data-phase DMA chain has run to its end. -/
def chainDone (b : Bridge) : Bridge := { b with chain := [], rxDone := true }

/-! ### The completion handler -/

/-- The copies that `bridge_dma_rx_completion` takes of the two headers. -/
structure Snapshot where
  rxStatus : Byte
  txStatus : Byte
  rxSize : Chan → Byte
  txSize : Chan → Byte

/-- The copies of a pair of headers. -/
def snapshotOf (rx tx : ControlPkt) : Snapshot := ⟨rx.status, tx.status, rx.size, tx.size⟩

/-- The copies taken of the global headers. -/
def takeSnapshot (b : Bridge) : Snapshot := snapshotOf b.ctrlRx b.ctrlTx

/-- `CHECK_OPEN`. -/
def checkOpen (wasOpen : Byte) (s : Snapshot) (ch : Chan) : Option Callback :=
  if Byte.has s.rxStatus (ch + 4) ∧ ¬ Byte.has wasOpen (ch + 4) then some (.open ch) else none

/-- `CHECK_COMPLETION_OUT`. -/
def checkCompletionOut (s : Snapshot) (ch : Chan) : Option Callback :=
  if Byte.has s.txStatus ch ∧ s.rxSize ch ≠ 0#8 then
    some (.completionOut ch (s.rxSize ch).toNat)
  else none

/-- `CHECK_COMPLETION_IN`. -/
def checkCompletionIn (s : Snapshot) (ch : Chan) : Option Callback :=
  if Byte.has s.rxStatus ch ∧ s.txSize ch ≠ 0#8 then some (.completionIn ch) else none

/-- `CHECK_CLOSE`. -/
def checkClose (wasOpen : Byte) (s : Snapshot) (ch : Chan) : Option Callback :=
  if ¬ Byte.has s.rxStatus (ch + 4) ∧ Byte.has wasOpen (ch + 4) then some (.close ch) else none

/-- The callbacks of `bridge_dma_rx_completion`, in the order of its checks. -/
def callbacks (wasOpen : Byte) (s : Snapshot) : List Callback :=
  chans.filterMap (checkOpen wasOpen s) ++ chans.filterMap (checkCompletionOut s) ++
    chans.filterMap (checkCompletionIn s) ++ chans.filterMap (checkClose wasOpen s)

/-- The end of `bridge_dma_rx_completion` and of `DMAC_Handler`, which clears the interrupt.
`was_open` is taken from the global header, not from the copy. -/
def writeBack (b : Bridge) : Bridge :=
  { b with wasOpen := b.ctrlRx.status &&& 0xF0#8, state := .idle, rxDone := false }

end Bridge

end TesselFirmware
