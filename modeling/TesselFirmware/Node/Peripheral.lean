import TesselFirmware.Node.Basic

/-!
# The peripheral classes `I2C`, `SPI` and `UART` (`node/tessel-export.js`)

The constructors with their checks and the registers that they compute, and the transfers.  A
method of an object depends on the fields of the object; `I2C.construct` depends on the port's
`I2C.enabled` and `UART.write` on its current `uart`.
-/

namespace TesselFirmware

namespace Node

namespace Rounding

variable (fl : Rounding)

def add (x y : ℚ) : ℚ := fl.round (x + y)

def sub (x y : ℚ) : ℚ := fl.round (x - y)

def mul (x y : ℚ) : ℚ := fl.round (x * y)

def div (x y : ℚ) : ℚ := fl.round (x / y)

end Rounding

/-- `x || d`. -/
def orDefault (x : Option ℚ) (d : ℚ) : ℚ :=
  match x with
  | some x => if x = 0 then d else x
  | none => d

/-- `n >> i`. -/
def shiftRight (n : ℤ) (i : ℕ) : ℤ := ((BitVec.ofInt 32 n).sshiftRight i).toInt

/-- `n & mask`. -/
def mask (n : ℤ) (m : BitVec 32) : ℤ := (BitVec.ofInt 32 n &&& m).toInt

/-! ### I2C -/

structure I2CParams where
  address : Option ℤ
  frequency : Option ℚ

structure I2C where
  address : ℤ
  frequency : ℚ

namespace I2C

variable (fl : Rounding)

def computeBaud (frequency : ℚ) : ℤ :=
  let baud := ⌊fl.sub (fl.div (fl.sub (fl.div 48000000 frequency)
    (fl.mul 48000000 (fl.round 0.000000015))) 2) 5⌋
  max 0 (min baud 255)

/-- The frequency that the constructor sets. -/
def frequencyOf (params : I2CParams) : ℚ := orDefault params.frequency 100000

/-- The object that the constructor makes. -/
def ofParams (params : I2CParams) : I2C := ⟨params.address.getD 0, frequencyOf params⟩

/-- The constructor, on a port with the given `I2C.enabled`. -/
def construct (params : I2CParams) (enabled : Bool) : Method :=
  if params.address = none then [.throw]
  else if frequencyOf params ≠ 100000 ∧ frequencyOf params ≠ 400000 then [.throw]
  else if enabled then []
  else Port.command [Cmd.enableI2c, computeBaud fl (frequencyOf params)] none

variable (o : I2C)

def send (data : List Byte) (callback : Option Callback) : Method :=
  .cork :: (Port.command [Cmd.start, o.address * 2] none ++ Port.tx data none ++
    Port.command [Cmd.stop] callback ++ [.uncork])

def read (length : ℕ) (callback : Option Callback) : Method :=
  .cork :: (Port.command [Cmd.start, o.address * 2 + 1] none ++ Port.rx length callback ++
    Port.command [Cmd.stop] none ++ [.uncork])

def transfer (txbuf : List Byte) (rxlen : ℕ) (callback : Option Callback) : Method :=
  .cork :: ((if 0 < txbuf.length then
      Port.command [Cmd.start, o.address * 2] none ++ Port.tx txbuf none
    else []) ++ Port.command [Cmd.start, o.address * 2 + 1] none ++ Port.rx rxlen callback ++
    Port.command [Cmd.stop] none ++ [.uncork])

end I2C

/-! ### SPI -/

/-- A pin of the same port or of the other one. -/
inductive ChipSelect
  | own (pin : Fin 8)
  | other
  deriving DecidableEq, Repr

namespace ChipSelect

/-- What `high()` does to this port. -/
def high : ChipSelect → Method
  | own pin => Pin.high pin none
  | other => []

/-- What `low()` does to this port. -/
def low : ChipSelect → Method
  | own pin => Pin.low pin none
  | other => []

end ChipSelect

/-- The value of a parameter. -/
inductive Param
  | undefined
  | number (n : ℤ)
  | high
  | second
  /-- Any other value. -/
  | other
  deriving DecidableEq, Repr

structure SPIParams where
  chipSelect : Option ChipSelect
  chipSelectActive : Param
  clockSpeed : Option ℚ
  dataMode : Option ℤ
  cpol : Param
  cpha : Param

structure SPI where
  chipSelect : ChipSelect
  chipSelectActive : ℤ
  clockSpeed : ℚ
  clockReg : ℤ
  clockDiv : ℤ
  cpol : ℤ
  cpha : ℤ

namespace SPI

variable (fl : Rounding)

/-- `_clockReg` before it is limited to a byte. -/
def baudReg (clockSpeed : ℚ) : ℤ := ⌊fl.sub (fl.div 48000000 (fl.mul 2 clockSpeed)) 1⌋

/-- The clock divider for a `_clockReg` of 255. -/
def divider (clockSpeed : ℚ) : ℤ := ⌊fl.div 48000000 (fl.mul clockSpeed (2 * 255 + 2))⌋

/-- `_clockReg` and `_clockDiv`. -/
def clock (clockSpeed : ℚ) : ℤ × ℤ :=
  if 255 < baudReg fl clockSpeed then
    if 255 < divider fl clockSpeed then
      let reg := ⌊fl.div (baudReg fl clockSpeed) 255⌋
      (if reg = 0 then 1 else reg, 255)
    else (255, divider fl clockSpeed)
  else (baudReg fl clockSpeed, 1)

/-- The parameters after `dataMode` has replaced `cpol` and `cpha`. -/
def applyDataMode (params : SPIParams) : SPIParams :=
  match params.dataMode with
  | some mode => { params with cpol := .number (mask mode 0x1#32), cpha := .number (mask mode 0x2#32) }
  | none => params

/-- The object that the constructor makes. -/
def ofParams (params : SPIParams) : SPI where
  chipSelect := params.chipSelect.getD (.own 5)
  chipSelectActive :=
    if params.chipSelectActive = .high ∨ params.chipSelectActive = .number 1 then 1 else 0
  clockSpeed := orDefault params.clockSpeed 2000000
  clockReg := (clock fl (orDefault params.clockSpeed 2000000)).1
  clockDiv := (clock fl (orDefault params.clockSpeed 2000000)).2
  cpol :=
    let cpol := (applyDataMode params).cpol
    if cpol = .high ∨ cpol = .number 1 then 1 else 0
  cpha :=
    let cpha := (applyDataMode params).cpha
    if cpha = .second ∨ cpha = .number 1 then 1 else 0

/-- The constructor. -/
def construct (params : SPIParams) : Method :=
  let o := ofParams fl params
  (if o.chipSelectActive = 1 then o.chipSelect.low else o.chipSelect.high) ++
    if o.clockSpeed < 368 ∨ 24000000 < o.clockSpeed then [.throw]
    else Port.command [Cmd.enableSpi, o.cpol + o.cpha * 2, o.clockReg, o.clockDiv] none

/-- `disable`, without what it does to the current `spi`. -/
def disable : Method := Port.command [Cmd.cmdDisableSpi] none

variable (o : SPI)

def send (data : List Byte) (callback : Option Callback) : Method :=
  .cork :: (o.chipSelect.low ++ Port.tx data callback ++ o.chipSelect.high ++ [.uncork])

def receive (length : ℕ) (callback : Option Callback) : Method :=
  .cork :: (o.chipSelect.low ++ Port.rx length callback ++ o.chipSelect.high ++ [.uncork])

def transfer (data : List Byte) (callback : Option Callback) : Method :=
  .cork :: (o.chipSelect.low ++ Port.txrx data callback ++ o.chipSelect.high ++ [.uncork])

end SPI

/-! ### UART -/

namespace UART

variable (fl : Rounding)

/-- The register value for a baud rate. -/
def computed (baudrate : ℚ) : ℤ :=
  ⌊fl.mul 65536 (fl.sub 1 (fl.mul 16 (fl.div baudrate 48000000)))⌋

/-- The setter of `baudrate`. -/
def setBaudrate (value : ℚ) : Method :=
  if value < 9600 ∨ 230400 < value then [.throw]
  else Port.command [Cmd.enableUart, shiftRight (computed fl value) 8,
    mask (computed fl value) 0xFF#32] none

/-- The constructor, with `options.baudrate`. -/
def construct (baudrate : Option ℚ) : Method := setBaudrate fl (orDefault baudrate 9600)

/-- `_write`, on a port that has a current `uart` or not. -/
def write (uart : Bool) (chunk : List Byte) (callback : Option Callback) : Method :=
  if uart then Port.tx chunk callback else [.throw]

/-- `disable`, without what it does to the current `uart`. -/
def disable : Method := Port.command [Cmd.disableUart, 0, 0] none

end UART

/-! ### The constructors that a port offers -/

namespace Port

variable (fl : Rounding)

/-- `Port.SPI`, on a port that has a current `spi` or not. -/
def spi (current : Bool) (params : SPIParams) : Method :=
  (if current then SPI.disable else []) ++ SPI.construct fl params

/-- `Port.UART`, on a port that has a current `uart` or not. -/
def uart (current : Bool) (baudrate : Option ℚ) : Method :=
  (if current then UART.disable else []) ++ UART.construct fl baudrate

end Port

end Node

end TesselFirmware
