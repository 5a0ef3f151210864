import TesselFirmware.Bridge.Basic
import TesselFirmware.Memory.Buffer

/-!
# The state of a module port (`PortData` in `firmware/firmware.h`)

`PortData` holds the globals of one port.  The fields after `uartBuf` are not in the source: the
part of the hardware that the port switches (interrupt masks, running transfers), what pins and
peripherals are going to answer, and the list of the `Effect`s that the port has had so far.

Every access of the code to a buffer goes through one of the four functions `readCmd`, `takeCmd`,
`appendByte` and `storeArg`, and every access to `port->gpio` through `gpio`; they record an index
outside its bounds in `fault`.
-/

namespace TesselFirmware

/-- `BRIDGE_BUF_SIZE`. -/
def bridgeBufSize : ℕ := 255

/-- `BRIDGE_ARG_SIZE`. -/
def bridgeArgSize : ℕ := 5

/-- `UART_RX_SIZE`. -/
def uartRxSize : ℕ := 32

inductive PortState
  | disable
  | readCmd
  | readArg
  | exec
  | execAsync
  deriving DecidableEq, Repr

/-- The result of `port_begin_cmd` and `port_continue_cmd`. -/
inductive ExecStatus
  | done
  | continue
  | async
  deriving DecidableEq, Repr

/-- The state whose number the status has. -/
def ExecStatus.toState : ExecStatus → PortState
  | done => .readCmd
  | .continue => .exec
  | async => .execAsync

inductive PortMode
  | none
  | spi
  | i2c
  | uart
  deriving DecidableEq, Repr

inductive PortCmd
  | nop
  | flush
  | echo
  | gpioIn
  | gpioHigh
  | gpioLow
  | gpioToggle
  | gpioPull
  | gpioCfg
  | gpioWait
  | gpioInt
  | gpioInput
  | gpioRawRead
  | analogRead
  | analogWrite
  | enableSpi
  | disableSpi
  | enableI2c
  | disableI2c
  | enableUart
  | disableUart
  | tx
  | rx
  | txrx
  | start
  | stop
  | pwmDutyCycle
  | pwmPeriod
  deriving DecidableEq, Repr

/-- The command with the given number. -/
def PortCmd.ofByte (b : Byte) : Option PortCmd :=
  match b.toNat with
  | 0 => some nop
  | 1 => some flush
  | 2 => some echo
  | 3 => some gpioIn
  | 4 => some gpioHigh
  | 5 => some gpioLow
  | 6 => some gpioCfg
  | 7 => some gpioWait
  | 8 => some gpioInt
  | 10 => some enableSpi
  | 11 => some disableSpi
  | 12 => some enableI2c
  | 13 => some disableI2c
  | 14 => some enableUart
  | 15 => some disableUart
  | 16 => some tx
  | 17 => some rx
  | 18 => some txrx
  | 19 => some start
  | 20 => some stop
  | 21 => some gpioToggle
  | 22 => some gpioInput
  | 23 => some gpioRawRead
  | 24 => some analogRead
  | 25 => some analogWrite
  | 26 => some gpioPull
  | 27 => some pwmDutyCycle
  | 28 => some pwmPeriod
  | _ => none

/-- `port_cmd_args`: the number of argument bytes.  An unknown number is reported with `invalid`,
which returns. -/
def portCmdArgs : Option PortCmd → ℕ
  | some .nop | some .flush | some .disableSpi | some .disableI2c | some .disableUart
  | some .stop => 0
  | some .echo | some .tx | some .rx | some .txrx => 1
  | some .gpioIn | some .gpioHigh | some .gpioLow | some .gpioToggle | some .gpioWait
  | some .gpioInt | some .gpioCfg | some .gpioInput | some .gpioRawRead | some .analogRead
  | some .gpioPull => 1
  | some .analogWrite => 2
  | some .enableSpi => 3
  | some .enableI2c => 1
  | some .enableUart => 2
  | some .start => 1
  | some .pwmDutyCycle => 3
  | some .pwmPeriod => 3
  | none => 0

theorem portCmdArgs_le (c : Option PortCmd) : portCmdArgs c ≤ 3 := by
  rcases c with _ | c
  · exact Nat.zero_le _
  · cases c <;> decide

/-- `PortReply`. -/
def replyHigh : Byte := 0x82#8
def replyLow : Byte := 0x83#8
def replyData : Byte := 0x84#8
def replyAsyncPinChange : Byte := 0xC0#8
def replyAsyncUartRx : Byte := 0xD0#8

/-- The answer of a pin. -/
def replyLevel (high : Bool) : Byte := if high then replyHigh else replyLow

/-! ### The board -/

/-- What `port.c` uses of `TesselPort`: the pin numbers of `gpio` and the interrupt lines. -/
structure TesselPort where
  gpio : ℕ → ℕ
  pinInterrupts : BitVec 16

/-- `PORT_A`. -/
def portA : TesselPort where
  gpio := fun i => [13, 12, 23, 22, 2, 14, 15, 8].getD i 0
  pinInterrupts := BitVec.twoPow 16 7 ||| BitVec.twoPow 16 14 ||| BitVec.twoPow 16 15 |||
    BitVec.twoPow 16 8

/-- `PORT_B`. -/
def portB : TesselPort where
  gpio := fun i => [9, 8, 5, 7, 4, 10, 11, 2].getD i 0
  pinInterrupts := BitVec.twoPow 16 5 ||| BitVec.twoPow 16 10 ||| BitVec.twoPow 16 11 |||
    BitVec.twoPow 16 2

/-- `pin_extint`. -/
def TesselPort.pinExtint (t : TesselPort) (i : ℕ) : ℕ := t.gpio i % 16

/-- `port_pin_supports_interrupt`. -/
def TesselPort.pinSupportsInterrupt (t : TesselPort) (i : ℕ) : Bool :=
  t.pinInterrupts.getLsbD (t.pinExtint i)

/-- The places of the named pins in the union with `gpio`. -/
def scl : ℕ := 0
def sda : ℕ := 1
def sck : ℕ := 2
def miso : ℕ := 3
def mosi : ℕ := 4
def tx : ℕ := 5
def rx : ℕ := 6

/-! ### Effects -/

/-- An operation on one pin of the port. -/
inductive PinOp
  | input
  | output
  | high
  | low
  | toggle
  | pullUp
  | pullDown
  | float
  | mux
  | muxEic
  | gpio
  | read
  | eicConfig (sense : Byte)
  | adcRead
  | pwmDuty (duty : BitVec 16)
  deriving DecidableEq, Repr

inductive Sercom
  | spi
  | uartI2c
  deriving DecidableEq, Repr

inductive DmaDir
  | tx
  | rx
  deriving DecidableEq, Repr

/-- An action on pins and peripherals.  A transfer is one action for each of its bytes. -/
inductive Action
  | pin (op : PinOp) (i : ℕ)
  | power (on : Bool)
  | sercomReset (s : Sercom)
  | dmaAbort (d : DmaDir)
  | dmaConfigure (d : DmaDir) (s : Sercom)
  | dmaEnableInterrupt (d : DmaDir)
  | dacWrite (val : BitVec 16)
  | sercomClockEnable (s : Sercom) (div : Byte)
  | spiMasterInit (cpol cpha : Bool) (baud : Byte)
  | spiByte (b : Byte)
  | i2cMasterInit (baud : Byte)
  | i2cEnableError
  | i2cAddr (b : Byte)
  | i2cWrite (b : Byte)
  | i2cRead
  | i2cStop
  | uartInit (baud : BitVec 16)
  | uartByte (b : Byte)
  | uartEnableRxc
  | uartDisableRxc
  | tccDelayEnable
  | tccDelayDisable
  | tccDelayStart (ticks : ℕ)
  | pwmPeriod (tcc prescalar : Byte) (period : BitVec 16)
  deriving DecidableEq, Repr

/-- A call of the port to the bridge, on its own channel. -/
inductive PortCall
  | startOut
  | startIn (reply : List Byte)
  | enableChan
  | disableChan
  deriving DecidableEq, Repr

/-- The addresses of `cmd_buf` and `reply_buf`. -/
def cmdBufPtr : ℕ := 0
def replyBufPtr : ℕ := 1

/-- The call that the bridge receives. -/
def PortCall.toCall (ch : Chan) : PortCall → Call
  | startOut => .startOut ch cmdBufPtr
  | startIn reply => .startIn ch replyBufPtr (BitVec.ofNat 8 reply.length)
  | enableChan => .enableChan ch
  | disableChan => .disableChan ch

/-- What a port does: its actions, its calls to the bridge, and four marks that make the
history readable. -/
inductive Effect
  | action (a : Action)
  | call (c : PortCall)
  /-- `port_enable` was called. -/
  | enabled
  /-- `port_begin_cmd` or `port_continue_cmd` was called. -/
  | exec (cmd : Byte)
  /-- A byte was put into `reply_buf`. -/
  | reply (b : Byte)
  /-- `uart_send_data` started a packet, with `pending_in` and a partly written DATA reply as
  given. -/
  | uartPacket (pendingIn dataOpen : Bool)
  deriving DecidableEq, Repr

/-- What an effect does to the bridge. -/
def Bridge.perform (ch : Chan) (b : Bridge) : Effect → Bridge
  | .call c => b.call (c.toCall ch)
  | _ => b

/-- The byte that an effect put into the reply. -/
def Effect.replied : Effect → Option Byte
  | .reply b => some b
  | _ => none

/-- The bytes that an effect passed to `bridge_start_in`. -/
def Effect.sent : Effect → List Byte
  | .call (.startIn bs) => bs
  | _ => []

/-! ### The port -/

structure UartBuf where
  head : ℕ
  tail : ℕ
  bufLen : ℕ
  rx : Cells Byte uartRxSize

/-- Who opened the overflow interrupt of the timer, if it is not masked. -/
inductive OvfMask
  | masked
  | byDelayEnable
  | byAsyncEvents
  deriving DecidableEq, Repr

/-- The completion that a running transfer is going to raise. -/
inductive Transfer
  | dmaRx
  | dmaTx
  | i2c
  deriving DecidableEq, Repr

structure PortData where
  port : TesselPort
  cmdBuf : Cells Byte bridgeBufSize
  replyBuf : Cells Byte bridgeBufSize
  state : PortState
  mode : PortMode
  cmdLen : ℕ
  cmdPos : ℕ
  replyLen : ℕ
  cmd : Byte
  arg : Cells Byte bridgeArgSize
  argLen : ℕ
  argPos : ℕ
  pendingOut : Bool
  pendingIn : Bool
  uartBuf : UartBuf
  /-- A handler is in the loop of `port_step`. -/
  stepping : Bool
  /-- The pin interrupts are unmasked. -/
  eicEnabled : Bool
  ovf : OvfMask
  /-- The EIC configuration of each pin. -/
  sense : ℕ → Byte
  transfer : Option Transfer
  /-- What pins and peripherals answer, in the order in which they are asked. -/
  answers : ℕ → BitVec 16
  /-- An index has left its bounds. -/
  fault : Bool
  /-- The number of calls of `port_enable` so far. -/
  session : ℕ
  /-- The session in which each cell of `reply_buf` was last written. -/
  stamps : Cells ℕ bridgeBufSize
  effects : List Effect

namespace PortData

variable (p : PortData)

/-! ### Elementary steps -/

def emit (e : Effect) : PortData := { p with effects := p.effects ++ [e] }

/-- A pin or peripheral action. -/
def act (a : Action) : PortData := p.emit (.action a)

/-- Several actions, in order. -/
def acts (as : List Action) : PortData :=
  { p with effects := p.effects ++ as.map .action }

/-- Record whether an access was within its bounds. -/
def check (inBounds : Bool) : PortData := { p with fault := p.fault || !inBounds }

/-- An operation on `port->gpio[i]`. -/
def gpio (op : PinOp) (i : ℕ) : PortData := (p.check (i < 8)).act (.pin op i)

/-- The next answer of a pin or a peripheral. -/
def answer : BitVec 16 := p.answers 0

/-- The port after the next answer has been taken. -/
def answered : PortData := { p with answers := fun n => p.answers (n + 1) }

/-- The argument byte at index `i`. -/
def argAt (i : ℕ) : Byte := p.arg.get i

/-- `arg[arg_pos++] = b`. -/
def storeArg (b : Byte) : PortData :=
  { p.check (p.argPos < bridgeArgSize) with
    arg := p.arg.write p.argPos [b]
    argPos := (p.argPos + 1) % 256 }

/-- `arg[0] = b`. -/
def setArg0 (b : Byte) : PortData := { p with arg := p.arg.write 0 [b] }

/-- The next `n` bytes of `cmd_buf`. -/
def cmdBytes (n : ℕ) : List Byte := p.cmdBuf.slice p.cmdPos n

/-- The port after the next `n` bytes of `cmd_buf` have been read. -/
def takeCmd (n : ℕ) : PortData :=
  { p.check (p.cmdPos + n ≤ p.cmdLen) with cmdPos := (p.cmdPos + n) % 256 }

/-- `reply_buf[reply_len++] = b`. -/
def appendByte (b : Byte) : PortData :=
  { p.check (p.replyLen < bridgeBufSize) with
    replyBuf := p.replyBuf.write p.replyLen [b]
    stamps := p.stamps.write p.replyLen [p.session]
    replyLen := (p.replyLen + 1) % 256
    effects := p.effects ++ [.reply b] }

/-- `memcpy` to the end of the reply. -/
def append (bs : List Byte) : PortData := bs.foldl appendByte p

/-- The command being executed. -/
def opcode : Option PortCmd := PortCmd.ofByte p.cmd

/-- A DATA reply has been started and its payload is not complete. -/
def dataOpen : Bool :=
  (p.state == .exec || p.state == .execAsync) &&
    (p.opcode == some .echo || p.opcode == some .rx || p.opcode == some .txrx)

/-! ### Calls to the bridge -/

/-- `port_error`. -/
def error : PortData := p.emit (.call .disableChan)

/-- `port_bridge_start_out`. -/
def bridgeStartOut : PortData := p.emit (.call .startOut)

/-- `port_bridge_start_in` with `reply_buf` and `reply_len`. -/
def bridgeStartIn : PortData := p.emit (.call (.startIn (p.replyBuf.content p.replyLen)))

/-- `port_send_status`. -/
def sendStatus (d : Byte) : PortData :=
  if bridgeBufSize ≤ p.replyLen then p.error else p.appendByte d

/-! ### Sizes of the parts of a payload -/

/-- `cmd_len - cmd_pos` as a `u32`. -/
def cmdRemaining : ℕ := (p.cmdLen + 2 ^ 32 - p.cmdPos) % 2 ^ 32

/-- `BRIDGE_BUF_SIZE - reply_len` as a `u32`. -/
def replyRemaining : ℕ := (bridgeBufSize + 2 ^ 32 - p.replyLen) % 2 ^ 32

/-- `port_tx_len`. -/
def txLen : ℕ := min (p.argAt 0).toNat p.cmdRemaining

/-- `port_rx_len`. -/
def rxLen : ℕ := min (p.argAt 0).toNat p.replyRemaining

/-- `port_txrx_len`. -/
def txrxLen : ℕ := min (min (p.argAt 0).toNat p.cmdRemaining) p.replyRemaining

/-- `port_selected_pin`. -/
def selectedPin : ℕ := (p.argAt 0).toNat % 8

/-! ### Locks and asynchronous events -/

/-- `port_tx_locked`. -/
def txLocked : Bool := p.opcode != some .rx

/-- `port_rx_locked`. -/
def rxLocked : Bool := p.opcode != some .tx

/-- `port_enable_async_events`. -/
def enableAsyncEvents : PortData :=
  { p with
    eicEnabled := true
    ovf := if p.mode = .uart then .byAsyncEvents else p.ovf }

/-- `port_disable_async_events`. -/
def disableAsyncEvents : PortData :=
  { p with
    eicEnabled := false
    ovf := if p.mode = .uart then .masked else p.ovf }

/-- `port_async_events_allowed`. -/
def asyncEventsAllowed : Bool :=
  !p.pendingIn && (p.state == .readCmd || (p.state == .execAsync && !p.rxLocked))

end PortData

/-- The state after `port_init`, with the answers that pins and peripherals are going to give. -/
def PortData.init (port : TesselPort) (answers : ℕ → BitVec 16) : PortData where
  port := port
  cmdBuf := .fill 0#8
  replyBuf := .fill 0#8
  state := .disable
  mode := .none
  cmdLen := 0
  cmdPos := 0
  replyLen := 0
  cmd := 0#8
  arg := .fill 0#8
  argLen := 0
  argPos := 0
  pendingOut := false
  pendingIn := false
  uartBuf := ⟨0, 0, 0, .fill 0#8⟩
  stepping := false
  eicEnabled := false
  ovf := .masked
  sense := fun _ => 0#8
  transfer := none
  answers := answers
  fault := false
  session := 0
  stamps := .fill 0
  effects := [.action (.sercomClockEnable .spi 1#8), .action (.sercomClockEnable .uartI2c 1#8),
    .call .enableChan]

end TesselFirmware
