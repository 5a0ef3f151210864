import TesselFirmware.Bridge.Preempt
import TesselFirmware.System.Usbpipe
import TesselFirmware.Usb.Flash

/-!
# The alternate settings of USB interface 0 (`firmware/usb.c`)

`usb_cb_set_interface` switches between the USB pipe, which is a client of the bridge, and the
flash, which takes over the SERCOM and the two DMA channels of the bridge.  `Interface.machine` has
a label for every SYNC edge, for the DMA hardware, for the three parts of the completion handler of
the shared RX channel, for the USB completions, and for `usb_cb_set_interface`, which is cut in two:
`setInterface` leaves the old setting and gives the hardware to the new owner, and `enter` starts
the new setting.  SYNC edges have a higher priority than all other handlers, so they may come
between the parts of a handler; the other handlers wait until it returns.

The machine keeps a history that no function reads:

* `accesses` : the state of the flash whenever bridge code resets the SERCOM, or aborts, resets or
  starts the shared DMA channels;
* `consumed` : for each completion of the shared RX channel, who started the transfer and who took
  the completion for its own;
* `delivered` : for each completion of a transfer of the pipe, the session of the pipe in which the
  transfer was started, and the session in which it is completed.
-/

namespace TesselFirmware

/-- The alternate settings of interface 0; `none` has no endpoints. -/
inductive Altsetting
  | none
  | flash
  | pipe
  deriving DecidableEq, Repr

/-- Who uses the shared SERCOM and DMA channels. -/
inductive Subsystem
  | bridge
  | flash
  deriving DecidableEq, Repr

/-- What the shared RX DMA channel is receiving. -/
inductive DmaTransfer
  /-- The header of a transaction. -/
  | control
  /-- The data phase of a transaction. -/
  | data
  | flash (t : FlashTransfer)
  deriving DecidableEq

/-- The shared RX DMA channel. -/
structure DmaRx where
  running : Option DmaTransfer
  /-- The completion flag is set, by a transfer of this subsystem. -/
  complete : Option Subsystem
  /-- The completion interrupt is enabled. -/
  interrupt : Bool

namespace DmaRx

/-- After `dma_sercom_configure_rx`, which resets the channel. -/
def reset : DmaRx := ⟨none, none, false⟩

/-- `dma_abort`. -/
def abort (d : DmaRx) : DmaRx := { d with running := none }

/-- What the flash does with the channel. -/
def act (d : DmaRx) : FlashAct → DmaRx
  | .configure => { reset with interrupt := true }
  | .abort => d.abort
  | .start t => { d with running := some (.flash t) }
  | _ => d

end DmaRx

namespace Bridge

/-- `bridge_init`, when the bridge has been disabled. -/
def reinit (b : Bridge) : Bridge :=
  { b with chain := [], rxDone := false, irq := false, state := .idle }

/-- `bridge_disable`. -/
def disable (b : Bridge) : Bridge :=
  { b with chain := [], irq := false, state := .disable }

end Bridge

/-- A session of the pipe, and the sessions of its last `bridge_start_out` and
`bridge_start_in`. -/
structure Offer where
  session : ℕ
  out : ℕ
  inn : ℕ
  deriving DecidableEq, Repr

/-- The pipe calls the bridge. -/
def Offer.call (o : Offer) : Call → Offer
  | .startOut _ _ => { o with out := o.session }
  | .startIn _ _ _ => { o with inn := o.session }
  | _ => o

structure Interface where
  bridge : Bridge
  pipe : UsbPipe
  flash : Flash
  altsetting : Altsetting
  /-- The setting that the current call of `usb_cb_set_interface` has still to enter. -/
  switching : Option Altsetting
  /-- The level of SYNC. -/
  sync : Bool
  /-- Where `bridge_dma_rx_completion` stands. -/
  pc : Preempt.Pc
  dma : DmaRx
  /-- The endpoints of the pipe are enabled. -/
  pipeEnabled : Bool
  /-- The OUT transfer of the pipe that has been started, by its session. -/
  pipeOut : Option ℕ
  /-- The IN transfer of the pipe that has been started, by its session. -/
  pipeIn : Option ℕ
  /-- The OUT endpoint of the flash has been armed. -/
  flashOut : Bool
  /-- An IN transfer of the flash has been started. -/
  flashIn : Bool
  current : Offer
  /-- `current` when SYNC was last low. -/
  offered : Offer
  /-- `offered` of the headers that the completion handler has copied. -/
  copied : Offer
  /-- `usbpipe.c` has reached `invalid()`. -/
  invalid : Bool
  accesses : List FlashState
  consumed : List (Subsystem × List Subsystem)
  delivered : List (ℕ × ℕ)

inductive InterfaceLabel
  | syncLow
  | header (h : ControlPkt)
  | syncHigh
  /-- The data phase, or the transfer of the flash, ends with these bytes. -/
  | dmaDone (data : List Byte)
  | copy
  | callbacks
  | writeBack
  /-- A call of a port. -/
  | call (c : Call)
  | pipeOut (packet : List Byte)
  | pipeIn
  | flashOut (data : List Byte)
  | flashIn
  | setInterface (new : Altsetting)
  | enter

namespace Interface

/-- After the initialization in `main`, with SYNC at either level. -/
def init (sync : Bool) : Interface where
  bridge := Bridge.init
  pipe := UsbPipe.initial
  flash := Flash.initial
  altsetting := .none
  switching := none
  sync := sync
  pc := .idle
  dma := DmaRx.reset
  pipeEnabled := false
  pipeOut := none
  pipeIn := none
  flashOut := false
  flashIn := false
  current := ⟨0, 0, 0⟩
  offered := ⟨0, 0, 0⟩
  copied := ⟨0, 0, 0⟩
  invalid := false
  accesses := []
  consumed := []
  delivered := []

variable (s : Interface)

/-- `bridge_dma_rx_completion` is at work. -/
def handling : Bool :=
  match s.pc with
  | .idle => false
  | _ => true

/-- No handler but that of SYNC is at work. -/
def calm : Bool := s.switching.isNone && !s.handling

/-- Bridge code resets the SERCOM, or aborts, resets or starts the shared DMA channels. -/
def access : Interface := { s with accesses := s.accesses ++ [s.flash.state] }

/-! ### The two clients -/

/-- What the flash does. -/
def runFlash (r : Flash × List FlashAct) : Interface :=
  { s with
    flash := r.1
    dma := r.2.foldl DmaRx.act s.dma
    flashOut := s.flashOut || r.2.contains .startOut
    flashIn := s.flashIn || Flash.startsIn r.2 }

/-- What the pipe does: it starts an OUT transfer where it sets `out_usb_pending`. -/
def runPipe (r : UsbPipe × List Call) : Interface :=
  { s with
    pipe := r.1
    bridge := r.2.foldl Bridge.call s.bridge
    current := r.2.foldl Offer.call s.current
    pipeOut :=
      if s.pipe.outUsbPending = false ∧ r.1.outUsbPending then some s.current.session
      else s.pipeOut }

/-- A transfer of this session is completed for the pipe. -/
def deliver (session : ℕ) : Interface :=
  { s with delivered := s.delivered ++ [(session, s.current.session)] }

/-- The callbacks of the USB channel. -/
def serve (cb : Callback) : Interface :=
  if cb.chan = bridgeUsb then
    match cb with
    | .completionOut _ _ =>
      let s := s.deliver s.copied.out
      if s.pipe.state = .waitForBridge then
        { s.runPipe (s.pipe.callback cb) with pipeIn := some s.current.session }
      else { s.runPipe (s.pipe.callback cb) with invalid := true }
    | .completionIn _ => (s.deliver s.copied.inn).runPipe (s.pipe.callback cb)
    | _ => s
  else s

/-- `pipe_usb_out_completion`, which clears `out_usb_pending` before it starts the next transfer. -/
def pipeOutCompletion (session : ℕ) (packet : List Byte) : Interface :=
  let r := s.pipe.handle (.outCompletion packet)
  { s.deliver session with
    pipe := { s.pipe with outUsbPending := false }
    pipeOut := none }.runPipe r

/-- `pipe_usb_in_completion`. -/
def pipeInCompletion (session : ℕ) : Interface :=
  let s := { s.deliver session with pipeIn := none }
  if s.pipe.state = .waitForUsb then s.runPipe (s.pipe.handle .inCompletion)
  else { s.runPipe (s.pipe.handle .inCompletion) with invalid := true }

/-! ### SYNC edges and the completion handler -/

/-- `bridge_handle_sync` with SYNC low. -/
def syncLow : Interface :=
  { s.access with
    bridge := s.bridge.handleSyncLow
    sync := false
    dma := { s.dma with running := some .control, interrupt := false }
    offered := s.current }

/-- `bridge_handle_sync` with SYNC high. -/
def syncHigh : Interface :=
  let b := s.bridge.handleSyncHigh
  -- a header that does not come from `spid`
  if s.bridge.ctrlRx.cmd ≠ 0x53#8 then { s with bridge := b, sync := true }
  else if b.chain ≠ [] then
    { s.access with bridge := b, sync := true, dma := ⟨some .data, none, true⟩ }
  else if b.state = .data then
    { s with bridge := b, sync := true, dma := { s.dma with interrupt := true } }
  else { s with bridge := b, sync := true }

/-- The end of `DMAC_Handler`: `flash_dma_rx_completion` is called, and the flag is cleared. -/
def finishDma : Interface :=
  let s := s.runFlash s.flash.dmaRxCompletion
  { s with pc := .idle, dma := { s.dma with complete := none } }

/-- Who takes a completion for its own. -/
def consumers : List Subsystem :=
  (if s.bridge.state = .data then [.bridge] else []) ++
    (if s.flash.state.waitsForDma then [.flash] else [])

/-- `DMAC_Handler` up to the copies of the headers, for a transfer of this subsystem. -/
def copy (starter : Subsystem) : Interface :=
  let s := { s with consumed := s.consumed ++ [(starter, s.consumers)] }
  -- `bridge_dma_rx_completion` asks for the state of the bridge, not for the starter
  if s.bridge.state = .data then
    { s with pc := .copied s.bridge.takeSnapshot, copied := s.offered }
  else s.finishDma

/-! ### `usb_cb_set_interface` -/

/-- The transfers of the pipe that are still running are cancelled with its endpoints. -/
def usbpipeDisable : Interface :=
  let s := s.runPipe s.pipe.disable
  { s with
    pipeEnabled := false
    pipeOut := none
    pipeIn := none
    current := { s.current with session := s.current.session + 1 } }

def usbpipeInit : Interface :=
  { s.runPipe s.pipe.init with pipeEnabled := true, pipeOut := some s.current.session }

def flashDisable : Interface :=
  { s.runFlash s.flash.disable with flashOut := false, flashIn := false }

def bridgeDisable : Interface :=
  { s.access with bridge := s.bridge.disable, dma := s.dma.abort }

def bridgeInit : Interface := { s.access with bridge := s.bridge.reinit, dma := DmaRx.reset }

/-- The old setting is left. -/
def leave : Interface :=
  match s.altsetting with
  | .none => s
  | .flash => s.flashDisable
  | .pipe => s.usbpipeDisable

/-- The hardware of the bridge is given to the flash, or back to the bridge. -/
def handOver (new : Altsetting) : Interface :=
  if s.altsetting ≠ .flash ∧ new = .flash then s.bridgeDisable
  else if s.altsetting = .flash ∧ new ≠ .flash then s.bridgeInit
  else s

/-- The new setting is entered; the pipe has to wait until the SoC has been heard. -/
def enter (new : Altsetting) : Interface :=
  let s :=
    match new with
    | .none => s
    | .flash => s.runFlash s.flash.init
    | .pipe => if s.bridge.booted then s.usbpipeInit else s
  { s with altsetting := new, switching := none }

/-! ### The machine -/

def step : InterfaceLabel → Option Interface
  | .syncLow => if s.sync then some s.syncLow else none
  | .header h =>
    if s.sync = false ∧ s.dma.running = some .control then
      some { s with
        bridge := s.bridge.receiveHeader h
        dma := { s.dma with running := none, complete := some .bridge } }
    else none
  | .syncHigh => if s.sync = false then some s.syncHigh else none
  | .dmaDone data =>
    match s.dma.running with
    | some .data =>
      some { s with
        bridge := s.bridge.chainDone
        dma := { s.dma with running := none, complete := some .bridge } }
    | some (.flash t) =>
      some { s with
        flash := s.flash.receive data t
        dma := { s.dma with running := none, complete := some .flash } }
    | _ => none
  | .copy =>
    match s.dma.complete with
    | some starter => if s.calm ∧ s.dma.interrupt then some (s.copy starter) else none
    | none => none
  | .callbacks =>
    match s.pc with
    | .copied c =>
      some { (Bridge.callbacks s.bridge.wasOpen c).foldl serve s with pc := .called c }
    | _ => none
  | .writeBack =>
    match s.pc with
    | .called _ => some { s with bridge := s.bridge.writeBack }.finishDma
    | _ => none
  | .call c => if c.chan ≠ bridgeUsb then some { s with bridge := s.bridge.call c } else none
  | .pipeOut packet =>
    match s.pipeOut with
    | some session =>
      if s.calm ∧ s.altsetting = .pipe ∧ packet.length ≤ packetSize then
        some (s.pipeOutCompletion session packet)
      else none
    | none => none
  | .pipeIn =>
    match s.pipeIn with
    | some session =>
      if s.calm ∧ s.altsetting = .pipe then some (s.pipeInCompletion session) else none
    | none => none
  | .flashOut data =>
    if s.calm ∧ s.altsetting = .flash ∧ s.flashOut ∧ data.length ≤ flashBufferSize then
      some ({ s with flashOut := false }.runFlash (s.flash.usbOutCompletion data))
    else none
  | .flashIn =>
    if s.calm ∧ s.altsetting = .flash ∧ s.flashIn then
      some ({ s with flashIn := false }.runFlash s.flash.usbInCompletion)
    else none
  | .setInterface new =>
    if s.calm then some { s.leave.handOver new with switching := some new } else none
  | .enter =>
    match s.switching with
    | some new => some (s.enter new)
    | none => none

def machine : Machine Interface InterfaceLabel := ⟨step⟩

end Interface

end TesselFirmware
