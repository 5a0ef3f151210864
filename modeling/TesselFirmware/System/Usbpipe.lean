import TesselFirmware.Bridge.Basic
import TesselFirmware.Memory.Buffer

/-!
# The client of the USB channel (`firmware/usbpipe.c`)

Packets from the PC wait in a ring of buffers until the bridge has taken them; data for the PC is
received into one buffer, which belongs to the bridge and to the USB endpoint in turns.  Each
function returns its calls to the bridge, in their order.
-/

namespace TesselFirmware

/-- `OUT_RING_SIZE`. -/
def outRingSize : ℕ := 10

/-- `PACKET_SIZE`. -/
def packetSize : ℕ := 64

/-- The address of `pipe_buffer_soc_to_pc`. -/
def pipeBufferPtr : ℕ := 2

/-- The address of the buffer `k` of `out_ring_buf`. -/
def outRingPtr (k : ℕ) : ℕ := 3 + k

/-- `BRIDGE_USB`. -/
def bridgeUsb : Chan := 0

inductive PipeState
  | disable
  | waitForUsb
  | waitForBridge
  deriving DecidableEq, Repr

/-- The globals of `usbpipe.c`. -/
structure UsbPipe where
  outRingBuf : ℕ → Cells Byte packetSize
  outRingCount : ℕ
  outRingWritePos : ℕ
  outRingReadPos : ℕ
  outRingShortPacket : ℕ
  outUsbPending : Bool
  outBridgePending : Bool
  state : PipeState

namespace UsbPipe

/-- The globals before `usbpipe_init`. -/
def initial : UsbPipe where
  outRingBuf := fun _ => .fill 0#8
  outRingCount := 0
  outRingWritePos := 0
  outRingReadPos := 0
  outRingShortPacket := 0
  outUsbPending := false
  outBridgePending := false
  state := .disable

variable (u : UsbPipe)

/-- `usbpipe_init`. -/
def init : UsbPipe × List Call :=
  ({ u with outUsbPending := true, outBridgePending := false, state := .waitForBridge },
    [.startOut bridgeUsb pipeBufferPtr, .enableChan bridgeUsb])

/-- `usbpipe_disable`. -/
def disable : UsbPipe × List Call :=
  ({ u with
      outRingCount := 0
      outRingWritePos := 0
      outRingReadPos := 0
      outRingShortPacket := 0
      state := .disable },
    [.disableChan bridgeUsb])

/-- The first part of `out_ring_step`: receive from USB into a free buffer. -/
def receiveUsb : UsbPipe :=
  if ¬ u.outUsbPending ∧ u.outRingCount < outRingSize ∧ u.outRingShortPacket = 0 then
    { u with outUsbPending := true }
  else u

/-- The second part of `out_ring_step`: send the oldest packet to the bridge. -/
def sendBridge : UsbPipe × List Call :=
  if ¬ u.outBridgePending ∧ 0 < u.outRingCount then
    if u.outRingCount = 1 ∧ u.outRingShortPacket ≠ 0 then
      ({ u with outRingShortPacket := 0, outBridgePending := true },
        [.startIn bridgeUsb (outRingPtr u.outRingReadPos) (BitVec.ofNat 8 u.outRingShortPacket)])
    else
      ({ u with outBridgePending := true },
        [.startIn bridgeUsb (outRingPtr u.outRingReadPos) (BitVec.ofNat 8 packetSize)])
  else (u, [])

/-- `out_ring_step`. -/
def outRingStep : UsbPipe × List Call := u.receiveUsb.sendBridge

/-- `pipe_usb_out_completion`, with the packet that the endpoint has received. -/
def pipeUsbOutCompletion (packet : List Byte) : UsbPipe × List Call :=
  outRingStep { u with
    outRingBuf := Function.update u.outRingBuf u.outRingWritePos
      ((u.outRingBuf u.outRingWritePos).write 0 packet)
    outRingShortPacket :=
      if packet.length < packetSize then packet.length else u.outRingShortPacket
    outRingWritePos := (u.outRingWritePos + 1) % outRingSize
    outRingCount := (u.outRingCount + 1) % 256
    outUsbPending := false }

/-- `pipe_bridge_in_completion`. -/
def pipeBridgeInCompletion : UsbPipe × List Call :=
  outRingStep { u with
    outRingReadPos := (u.outRingReadPos + 1) % outRingSize
    outRingCount := (u.outRingCount + 255) % 256
    outBridgePending := false }

/-- `pipe_bridge_out_completion`; the breakpoint `invalid` returns. -/
def pipeBridgeOutCompletion : UsbPipe × List Call :=
  if u.state = .waitForBridge then ({ u with state := .waitForUsb }, []) else (u, [])

/-- `pipe_usb_in_completion`. -/
def pipeUsbInCompletion : UsbPipe × List Call :=
  if u.state = .waitForUsb then
    ({ u with state := .waitForBridge }, [.startOut bridgeUsb pipeBufferPtr])
  else (u, [])

end UsbPipe

/-- The interrupts of the USB peripheral that concern the pipe. -/
inductive UsbEvent
  | init
  | disable
  | outCompletion (packet : List Byte)
  | inCompletion

namespace UsbPipe

/-- The handler of an interrupt of the USB peripheral. -/
def handle (u : UsbPipe) : UsbEvent → UsbPipe × List Call
  | .init => u.init
  | .disable => u.disable
  | .outCompletion packet => u.pipeUsbOutCompletion packet
  | .inCompletion => u.pipeUsbInCompletion

/-- The callbacks of the USB channel in `main.c`. -/
def callback (u : UsbPipe) : Callback → UsbPipe × List Call
  | .open _ => (u, [])
  | .completionOut _ _ => u.pipeBridgeOutCompletion
  | .completionIn _ => u.pipeBridgeInCompletion
  | .close _ => (u, [])

/-! ### Calls -/

theorem chan_outRingStep (u : UsbPipe) : ∀ c ∈ u.outRingStep.2, c.chan = bridgeUsb := by
  intro c hc
  simp only [outRingStep, sendBridge] at hc
  split_ifs at hc
  · rw [List.mem_singleton.1 hc]
    rfl
  · rw [List.mem_singleton.1 hc]
    rfl
  · cases hc

/-- The pipe uses only the USB channel. -/
theorem chan_handle (u : UsbPipe) (e : UsbEvent) : ∀ c ∈ (u.handle e).2, c.chan = bridgeUsb := by
  intro c hc
  cases e with
  | init =>
    simp only [handle, init, List.mem_cons, List.not_mem_nil, or_false] at hc
    obtain rfl | rfl := hc <;> rfl
  | disable =>
    rw [List.mem_singleton.1 hc]
    rfl
  | outCompletion packet => exact chan_outRingStep _ c hc
  | inCompletion =>
    simp only [handle, pipeUsbInCompletion] at hc
    split_ifs at hc
    · rw [List.mem_singleton.1 hc]
      rfl
    · cases hc

theorem chan_callback (u : UsbPipe) (cb : Callback) :
    ∀ c ∈ (u.callback cb).2, c.chan = bridgeUsb := by
  intro c hc
  cases cb with
  | completionIn ch => exact chan_outRingStep _ c hc
  | completionOut ch len =>
    simp only [callback, pipeBridgeOutCompletion] at hc
    split_ifs at hc <;> cases hc
  | «open» ch => cases hc
  | close ch => cases hc

end UsbPipe

end TesselFirmware
