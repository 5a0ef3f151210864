import TesselFirmware.Machine.Basic
import TesselFirmware.Port.Basic

/-!
# The port command interpreter (`firmware/port.c`)

`port_step` is the loop that reads commands from `cmd_buf`, executes them and appends the replies
to `reply_buf`.  One pass of the loop is the function `iter`, and a label of its own of
`PortData.machine`: what happens on the bridge while a handler is in the loop happens between two
passes.  All other labels are the calls by which interrupts enter `port.c`; they have one priority,
so none of them is possible while a handler is still `stepping`.
-/

namespace TesselFirmware

namespace PortData

variable (p : PortData)

/-! ### Transfers -/

/-- `pin_read`. -/
def pinRead (i : ℕ) : Bool × PortData := (p.answer != 0#16, (p.gpio .read i).answered)

/-- `eic_config`. -/
def eicConfig (i : ℕ) (sense : Byte) : PortData :=
  { p.gpio (.eicConfig sense) i with sense := Function.update p.sense i sense }

/-- The bytes that the next `n` answers give. -/
def answerBytes (n : ℕ) : List Byte := (List.range n).map fun k => (p.answers k).setWidth 8

/-- The port after `n` answers have been taken. -/
def answeredBy (n : ℕ) : PortData := { p with answers := fun k => p.answers (k + n) }

/-- `dummy_tx`, sent by a DMA transfer without a source. -/
def dummyTx : Byte := 0x99#8

/-- `arg[0] -= size`. -/
def subArg0 (size : ℕ) : PortData := p.setArg0 (p.argAt 0 - BitVec.ofNat 8 size)

/-- A transfer is started; its completion comes later. -/
def startTransfer (t : Transfer) : PortData := { p with transfer := some t }

/-- The next `n` bytes of the command go out on the SPI or UART lines. -/
def sendCmd (a : Byte → Action) (n : ℕ) : PortData :=
  (p.acts ((p.cmdBytes n).map a)).takeCmd n

/-- The next `n` bytes that the peripheral answers go to the reply. -/
def receiveReply (n : ℕ) : PortData := (p.append (p.answerBytes n)).answeredBy n

/-! ### Commands -/

/-- `CMD_GPIO_PULL`. -/
def gpioPull : PortData :=
  let pin := (p.argAt 0 &&& 0x7#8).toNat
  let mode := (p.argAt 0 >>> 4).toNat
  if mode = 0 then p.gpio .pullDown pin
  else if mode = 1 then p.gpio .pullUp pin
  else if mode = 2 then p.gpio .float pin
  else p

/-- `CMD_GPIO_INT`. -/
def gpioInt : PortData :=
  let pin := (p.argAt 0 &&& 0x7#8).toNat
  let mode := (p.argAt 0 >>> 4) &&& 0x07#8
  let p := p.check (pin < 8)
  if p.port.pinSupportsInterrupt pin then
    if mode ≠ 0#8 then (p.gpio .muxEic pin).eicConfig pin mode
    else (p.eicConfig pin mode).gpio .gpio pin
  else p

/-- A 16-bit value from two argument bytes. -/
def argWord (i : ℕ) : BitVec 16 := p.argAt i ++ p.argAt (i + 1)

/-- `port_begin_cmd`: the setup of a command with a payload, or the whole of another command. -/
def beginCmd : PortData × ExecStatus :=
  let p := p.emit (.exec p.cmd)
  match p.opcode with
  | some .nop => (p, .done)
  | some .echo | some .rx | some .txrx => (p.sendStatus replyData, .continue)
  | some .tx => (p, .continue)
  | some .gpioIn =>
    let (state, p) := (p.gpio .input p.selectedPin).pinRead p.selectedPin
    (p.sendStatus (replyLevel state), .done)
  | some .gpioInput => (p.gpio .input p.selectedPin, .done)
  | some .gpioRawRead =>
    let (state, p) := p.pinRead p.selectedPin
    (p.sendStatus (replyLevel state), .done)
  | some .gpioHigh => ((p.gpio .high p.selectedPin).gpio .output p.selectedPin, .done)
  | some .gpioLow => ((p.gpio .low p.selectedPin).gpio .output p.selectedPin, .done)
  | some .gpioToggle => ((p.gpio .toggle p.selectedPin).gpio .output p.selectedPin, .done)
  | some .gpioPull => (p.gpioPull, .done)
  | some .gpioInt => (p.gpioInt, .done)
  | some .gpioWait | some .gpioCfg => (p, .done)
  | some .analogRead =>
    let val := p.answer
    let p := (p.gpio .adcRead p.selectedPin).answered
    -- the three bytes are stored without a check of the space left
    (((p.appendByte replyData).appendByte (val.setWidth 8)).appendByte
      ((val >>> 8).setWidth 8), .done)
  | some .analogWrite => (p.act (.dacWrite (p.argWord 0)), .done)
  | some .enableSpi =>
    let p := p.acts [.sercomClockEnable .spi (p.argAt 2),
      .spiMasterInit (Byte.has (p.argAt 0) 0) (Byte.has (p.argAt 0) 1) (p.argAt 1),
      .dmaConfigure .tx .spi, .dmaConfigure .rx .spi, .dmaEnableInterrupt .rx,
      .pin .mux mosi, .pin .mux miso, .pin .mux sck]
    ({ p with mode := .spi }, .done)
  | some .disableSpi =>
    ({ p.acts [.pin .gpio mosi, .pin .gpio miso, .pin .gpio sck] with mode := .none }, .done)
  | some .enableI2c =>
    let p := p.acts [.i2cMasterInit (p.argAt 0), .pin .mux sda, .pin .mux scl, .i2cEnableError]
    ({ p with mode := .i2c }, .done)
  | some .disableI2c =>
    ({ p.acts [.pin .gpio sda, .pin .gpio scl] with mode := .none }, .done)
  | some .start =>
    let p := p.act (.i2cAddr (p.argAt 0))
    ((p.setArg0 0#8).startTransfer .i2c, .async)
  | some .stop => (p.act .i2cStop, .done)
  | some .enableUart =>
    let p := p.acts [.pin .mux tx, .pin .mux rx, .uartInit (p.argWord 0),
      .dmaConfigure .tx .uartI2c, .dmaEnableInterrupt .tx, .uartEnableRxc, .tccDelayEnable]
    ({ p with
      mode := .uart
      uartBuf := { p.uartBuf with head := 0, tail := 0, bufLen := 0 }
      ovf := .byDelayEnable }, .done)
  | some .disableUart =>
    let p := p.acts [.uartDisableRxc, .tccDelayDisable, .pin .gpio tx, .pin .gpio rx]
    ({ p with mode := .none, ovf := .masked }, .done)
  | some .pwmDutyCycle => (p.gpio (.pwmDuty (p.argWord 1)) (p.argAt 0).toNat, .done)
  | some .pwmPeriod =>
    (p.act (.pwmPeriod (p.argAt 0 &&& 0x7#8) (p.argAt 0 >>> 4) (p.argWord 1)), .done)
  -- `CMD_FLUSH` has no case of its own
  | some .flush | none => (p.error, .done)

/-- The status of a command with a payload after a part of it. -/
def payloadStatus : ExecStatus := if p.argAt 0 = 0#8 then .done else .continue

/-- `port_continue_cmd`: a part of the payload of a command. -/
def continueCmd : PortData × ExecStatus :=
  let p := p.emit (.exec p.cmd)
  match p.opcode with
  | some .echo =>
    let size := p.txrxLen
    let p := ((p.takeCmd size).append (p.cmdBytes size)).subArg0 size
    (p, p.payloadStatus)
  | some .tx =>
    match p.mode with
    | .spi =>
      let size := p.txLen
      (((p.sendCmd .spiByte size).subArg0 size).startTransfer .dmaRx, .async)
    | .i2c => (((p.sendCmd .i2cWrite 1).subArg0 1).startTransfer .i2c, .async)
    | .uart =>
      let size := p.txLen
      (((p.sendCmd .uartByte size).subArg0 size).startTransfer .dmaTx, .async)
    | .none => (p, .async)
  | some .rx =>
    match p.mode with
    | .spi =>
      let size := p.rxLen
      let p := p.acts (List.replicate size (.spiByte dummyTx))
      (((p.receiveReply size).subArg0 size).startTransfer .dmaRx, .async)
    | .i2c => ((((p.act .i2cRead).receiveReply 1).subArg0 1).startTransfer .i2c, .async)
    | .uart | .none => (p, .async)
  | some .txrx =>
    match p.mode with
    | .spi =>
      let size := p.txrxLen
      ((((p.sendCmd .spiByte size).receiveReply size).subArg0 size).startTransfer .dmaRx, .async)
    | .i2c | .uart | .none => (p, .async)
  | _ => (p, .done)

/-! ### The loop of `port_step` -/

/-- `p->state = port_begin_cmd(p)`. -/
def begun : PortData := { p.beginCmd.1 with state := p.beginCmd.2.toState }

/-- `p->state = port_continue_cmd(p)`. -/
def continued : PortData := { p.continueCmd.1 with state := p.continueCmd.2.toState }

/-- The command buffer has been processed. -/
def requestDue : Prop :=
  p.cmdLen ≤ p.cmdPos ∧ ¬ p.pendingOut ∧ ¬ (p.state = .execAsync ∧ p.txLocked)

instance : Decidable p.requestDue := by unfold requestDue; infer_instance

/-- If the command buffer has been processed, request a new one. -/
def requestPacket : PortData :=
  if p.requestDue then { p.bridgeStartOut with pendingOut := true } else p

/-- The reply buffer is full, or there is a reply and no command to wait for. -/
def flushDue : Prop :=
  (bridgeBufSize ≤ p.replyLen ∨ (p.pendingOut ∧ 0 < p.replyLen)) ∧ ¬ p.pendingIn ∧
    ¬ (p.state = .execAsync ∧ p.rxLocked)

instance : Decidable p.flushDue := by unfold flushDue; infer_instance

/-- If the reply buffer is full, or there is no command to wait for, flush it. -/
def flushReply : PortData :=
  if p.flushDue then { p.bridgeStartIn with pendingIn := true } else p

/-- Leave the loop until a bridge transfer completes. -/
def wait : PortData :=
  { (if p.asyncEventsAllowed then p.enableAsyncEvents else p) with stepping := false }

/-- Read a command byte and look up how many argument bytes it needs. -/
def fetchCmd : PortData :=
  let cmd := p.cmdBuf.get p.cmdPos
  { p.takeCmd 1 with cmd := cmd, argLen := portCmdArgs (PortCmd.ofByte cmd) }

/-- `PORT_READ_CMD`. -/
def readCommand : PortData :=
  if 0 < p.fetchCmd.argLen then { p.fetchCmd with argPos := 0, state := .readArg }
  else p.fetchCmd.begun

/-- Read an argument byte. -/
def fetchArg : PortData :=
  { (p.takeCmd 1).storeArg (p.cmdBuf.get p.cmdPos) with argLen := p.argLen - 1 }

/-- `PORT_READ_ARG`. -/
def readArgument : PortData :=
  if p.argLen = 0 then { p.error with stepping := false }
  else if p.fetchArg.argLen = 0 then p.fetchArg.begun
  else p.fetchArg

/-- The part of the loop that depends on the state. -/
def dispatch : PortData :=
  match p.state with
  | .readCmd => p.readCommand
  | .readArg => p.readArgument
  | .exec => p.continued
  | .execAsync => { p with stepping := false }
  | .disable => p

/-- The bridge transfers that a pass of the loop starts. -/
def transfers : PortData := p.requestPacket.flushReply

/-- The port has to wait for a bridge transfer. -/
def waits : Bool := p.pendingIn || p.pendingOut

/-- One pass of the loop. -/
def iter : PortData := if p.transfers.waits then p.transfers.wait else p.transfers.dispatch

/-- `port_step`, up to its loop. -/
def step : PortData :=
  if p.state = .disable then p.error else { p.disableAsyncEvents with stepping := true }

/-! ### The entries of `port.c` -/

/-- The port state as `port_enable` resets it. -/
def reset : PortData :=
  { p with
    pendingIn := false
    pendingOut := true
    cmdLen := 0
    cmdPos := 0
    replyLen := 0
    state := .readCmd
    mode := .none
    session := p.session + 1 }

/-- `port_enable`. -/
def enable : PortData :=
  (List.range 8).foldl (fun p i => p.gpio .pullUp i)
    ((p.emit .enabled).bridgeStartOut.reset.act (.power true))

/-- The part of `port_disable` for one pin. -/
def disablePin (i : ℕ) : PortData :=
  let p := if p.port.pinSupportsInterrupt i then p.eicConfig i 0#8 else p
  p.gpio .float i

/-- `port_disable`. -/
def disable : PortData :=
  let p := { p with state := .disable, transfer := none }
  let p := p.acts [.sercomReset .spi, .sercomReset .uartI2c, .dmaAbort .tx, .dmaAbort .rx]
  let p := (List.range 8).foldl disablePin p.disableAsyncEvents
  (p.act (.power false)).emit (.call .enableChan)

/-- The data phase puts a packet into `cmd_buf`. -/
def receivePacket (packet : List Byte) : PortData :=
  { p with cmdBuf := p.cmdBuf.write 0 packet }

/-- `port_bridge_out_completion`. -/
def bridgeOutCompletion (len : ℕ) : PortData :=
  step { p with pendingOut := false, cmdLen := len % 256, cmdPos := 0 }

/-- `port_bridge_in_completion`. -/
def bridgeInCompletion : PortData := step { p with pendingIn := false, replyLen := 0 }

/-- A part of a payload has been transferred. -/
def transferred : PortData := { p with state := p.payloadStatus.toState, transfer := none }

/-- The end of an asynchronous part of a payload. -/
def asyncCompletion : PortData := if p.state = .execAsync then p.transferred.step else p.error

/-- `port_dma_rx_completion`. -/
def dmaRxCompletion : PortData := p.asyncCompletion

/-- `port_dma_tx_completion`. -/
def dmaTxCompletion : PortData := p.asyncCompletion

/-- The oldest `n` bytes of `uart_buf`. -/
def uartBytes (n : ℕ) : List Byte :=
  (List.range n).map fun k => p.uartBuf.rx.get ((p.uartBuf.tail + k) % uartRxSize)

/-- The oldest `n` bytes leave `uart_buf`. -/
def uartTaken (n : ℕ) : PortData :=
  { p with
    uartBuf := { p.uartBuf with
      tail := (p.uartBuf.tail + n) % uartRxSize
      bufLen := p.uartBuf.bufLen - n } }

/-- `uart_send_data`. -/
def uartSendData : PortData :=
  let count := p.uartBuf.bufLen
  if 0 < count then
    if bridgeBufSize - p.replyLen < count + 2 then p.error
    else
      let packet := replyAsyncUartRx :: BitVec.ofNat 8 count :: p.uartBytes count
      let p := (p.emit (.uartPacket p.pendingIn p.dataOpen)).append packet
      (p.uartTaken count).step
  else p

/-- A byte received by the UART goes to `uart_buf`; the oldest one is dropped when it is full. -/
def uartPush (b : Byte) : PortData :=
  let u := p.uartBuf
  { p with
    uartBuf := {
      head := (u.head + 1) % uartRxSize
      tail := if u.bufLen < uartRxSize then u.tail else (u.tail + 1) % uartRxSize
      bufLen := if u.bufLen < uartRxSize then u.bufLen + 1 else u.bufLen
      rx := u.rx.write u.head [b] } }

/-- `port_handle_sercom_uart_i2c`: `rxc` is the byte of a receive-complete interrupt of the UART,
`err` the error flag of the I2C master. -/
def handleSercomUartI2c (rxc : Option Byte) (err : Bool) : PortData :=
  match p.mode with
  | .uart =>
    match rxc with
    | some b =>
      let p := (p.act (.tccDelayStart (200 * 10))).uartPush b
      if uartRxSize - 4 < p.uartBuf.bufLen ∧ p.asyncEventsAllowed then p.uartSendData else p
    | none => p
  | .i2c =>
    let p := if err then p.error else p
    p.asyncCompletion
  | .spi | .none => p.error

/-- The report of one pin in `port_handle_extint`.  The level is read from the pin selected by
`arg[0]`. -/
def extintPin (flags : BitVec 32) (i : ℕ) : PortData :=
  if p.port.pinSupportsInterrupt i ∧ flags.getLsbD (p.port.pinExtint i) then
    let response := replyAsyncPinChange + BitVec.ofNat 8 i
    let (high, p) := (p.check (i < 8)).pinRead p.selectedPin
    let p := p.sendStatus (if high then response ||| 0x08#8 else response)
    if Byte.has (p.sense i) 2 then p.eicConfig i 0#8 else p
  else p

/-- `port_handle_extint`. -/
def handleExtint (flags : BitVec 32) : PortData :=
  if p.state = .readCmd then
    ((List.range 8).foldl (fun p i => p.extintPin flags i) p).step
  else p.error

end PortData

/-! ### The machine of one port -/

/-- What makes `port.c` run. -/
inductive PortEvent
  | enable
  | disable
  /-- A packet has been received: the data phase and `port_bridge_out_completion`. -/
  | outCompletion (packet : List Byte)
  | inCompletion
  | dmaRx
  | dmaTx
  | sercom (rxc : Option Byte) (err : Bool)
  | extint (flags : BitVec 32)
  | tccOverflow
  /-- One pass of the loop of `port_step`. -/
  | iter
  deriving DecidableEq, Repr

namespace PortData

/-- The handler of an event other than a pass of the loop. -/
def handle (p : PortData) : PortEvent → PortData
  | .enable => p.enable
  | .disable => p.disable
  | .outCompletion packet => (p.receivePacket packet).bridgeOutCompletion packet.length
  | .inCompletion => p.bridgeInCompletion
  | .dmaRx => p.dmaRxCompletion
  | .dmaTx => p.dmaTxCompletion
  | .sercom rxc err => p.handleSercomUartI2c rxc err
  | .extint flags => p.handleExtint flags
  | .tccOverflow => p.uartSendData
  | .iter => p.iter

/-- Events come in any order, except that no handler interrupts another one and that a packet has
1 to 255 bytes. -/
def accepts (p : PortData) : PortEvent → Bool
  | .iter => p.stepping
  | .outCompletion packet => !p.stepping && 0 < packet.length && packet.length ≤ bridgeBufSize
  | _ => !p.stepping

/-- One port with an arbitrary environment. -/
def machine : Machine PortData PortEvent where
  step p e := if p.accepts e then some (p.handle e) else none

theorem machine_step_eq_some {p p' : PortData} {e : PortEvent} :
    machine.step p e = some p' ↔ p.accepts e ∧ p.handle e = p' := by
  simp only [machine, Option.ite_none_right_eq_some, Option.some.injEq]

end PortData

end TesselFirmware
