import TesselFirmware.Node.Peripheral
import TesselFirmware.Port.Basic

/-!
# Configuration calls (`node/tessel-export.js`)

The calls of the node API that configure pins and peripherals: the constructors and setters of the
peripheral classes, and the methods of `Pin` and `Tessel` below, with the packets that they write.
-/

namespace TesselFirmware

namespace Node

/-! ### Calls -/

inductive PortName
  | A
  | B
  deriving DecidableEq, Repr

/-- The port of the coprocessor with the given name. -/
def PortName.board : PortName → TesselPort
  | A => portA
  | B => portB

inductive PullType
  | pulldown
  | pullup
  | none
  deriving DecidableEq, Repr

/-- `PULL_MODES`. -/
def PullType.mode : PullType → BitVec 32
  | pulldown => 0
  | pullup => 1
  | none => 2

inductive IntMode
  | rise
  | fall
  | change
  | high
  | low
  deriving DecidableEq, Repr

/-- `INT_MODES`. -/
def IntMode.number : IntMode → BitVec 32
  | rise => 1
  | fall => 2
  | change => 3
  | high => 4
  | low => 5

/-- `INT_PINS`, `PULL_PINS` and `PWM_PINS`. -/
def intPins : List ℕ := [2, 5, 6, 7]
def pullPins : List ℕ := [2, 3, 4, 5, 6, 7]
def pwmPins : List ℕ := [5, 6]

namespace Pin

variable (fl : Rounding) (pin : Fin 8)

/-- `supports.INT`. -/
def supportsInt : Bool := intPins.contains pin

/-- `supports.PULL`. -/
def supportsPull : Bool := pullPins.contains pin

/-- `supports.PWM`. -/
def supportsPwm : Bool := pwmPins.contains pin

/-- The number of a pin, for `|`. -/
def bits : BitVec 32 := BitVec.ofNat 32 pin

/-- `mode ? INT_MODES[mode] << 4 : 0`. -/
def interruptBits (mode : Option IntMode) : BitVec 32 :=
  match mode with
  | some mode => mode.number <<< 4
  | none => 0#32

/-- The setter of `interruptMode`; `none` is `null`. -/
def setInterruptMode (mode : Option IntMode) : Method :=
  Port.command [Cmd.gpioInt, (bits pin ||| interruptBits mode).toInt] none

def pull (pullType : Option PullType) (callback : Option Callback) : Method :=
  if supportsPull pin then
    let mode := (pullType.getD .none).mode
    Port.command [Cmd.gpioPull, (bits pin ||| mode <<< 4).toInt] callback
  else [.throw]

/-- `val * 0x3ff`. -/
def analogData (val : ℚ) : ℚ := fl.mul val 0x3ff

def analogWrite (name : PortName) (val : ℚ) : Method :=
  if name ≠ .B ∨ pin.val ≠ 7 then [.throw]
  else if 0x3ff < analogData fl val ∨ analogData fl val < 0 then [.throw]
  else [.write (newBuffer [Cmd.analogWrite, shiftRight (toInteger (analogData fl val)) 8,
    mask (toInteger (analogData fl val)) 0xff#32])]

end Pin

/-- `PWM_PRESCALARS`. -/
def pwmPrescalar (i : Fin 8) : ℚ :=
  match i with
  | 0 => 1
  | 1 => 2
  | 2 => 4
  | 3 => 8
  | 4 => 16
  | 5 => 64
  | 6 => 256
  | 7 => 1024

theorem pwmPrescalars_pos : 0 < 8 := by decide

/-- `PWM_MAX_PERIOD`. -/
def pwmMaxPeriod : ℕ := 0xFFFF

/-- `pwmBankSettings`; the period fits its register. -/
structure PwmBankSettings where
  period : ℕ
  prescalarIndex : Fin 8
  period_le : period ≤ pwmMaxPeriod

namespace PwmBankSettings

variable (fl : Rounding)

/-- The settings before the first call of `pwmFrequency`. -/
def init : PwmBankSettings := ⟨0, ⟨0, pwmPrescalars_pos⟩, Nat.zero_le _⟩

/-- The period for a frequency with one of the prescalars. -/
def periodOf (frequency : ℚ) (i : Fin 8) : ℕ :=
  ⌊fl.div (fl.div 48000000 (pwmPrescalar i)) frequency⌋₊

/-- `determineDutyCycleAndPrescalar`: the first prescalar for which the period is small enough. -/
def determine (frequency : ℚ) : Option PwmBankSettings :=
  match h : (List.finRange 8).find? (periodOf fl frequency · ≤ pwmMaxPeriod) with
  | some i => some ⟨periodOf fl frequency i, i, by simpa using List.find?_some h⟩
  | none => none

end PwmBankSettings

/-- `pwmFrequency` with the settings that it computes. -/
def pwmFrequency (fl : Rounding) (frequency : ℚ) : Method :=
  if frequency < 1 ∨ 5000 < frequency then [.throw]
  else
    match PwmBankSettings.determine fl frequency with
    | some pwm => [.write (newBuffer [Cmd.pwmPeriod,
        (BitVec.ofNat 32 pwm.prescalarIndex <<< 4 ||| 0#32).toInt, (pwm.period / 256 : ℕ),
        (pwm.period % 256 : ℕ)])]
    | none => [.throw]

namespace Pin

variable (fl : Rounding) (pin : Fin 8)

/-- `dutyCycleTicks`. -/
def dutyCycleTicks (pwm : PwmBankSettings) (dutyCycle : ℚ) : ℤ := ⌊fl.mul dutyCycle pwm.period⌋

def pwmDutyCycle (pwm : PwmBankSettings) (dutyCycle : ℚ) : Method :=
  if supportsPwm pin then
    if dutyCycle < 0 ∨ 1 < dutyCycle then [.throw]
    else if pwm.period = 0 then [.throw]
    else [.write (newBuffer [Cmd.pwmDutyCycle, pin, shiftRight (dutyCycleTicks fl pwm dutyCycle) 8,
      mask (dutyCycleTicks fl pwm dutyCycle) 0xff#32])]
  else [.throw]

end Pin

/-- What the calls of a port depend on. -/
structure Context where
  name : PortName
  /-- `I2C.enabled`. -/
  i2cEnabled : Bool
  /-- There is a current `spi`. -/
  spi : Bool
  pwm : PwmBankSettings

/-- A call that configures the coprocessor. -/
inductive ConfigCall
  | spi (params : SPIParams)
  | spiDisable
  | i2c (params : I2CParams)
  | uartBaudrate (value : ℚ)
  | uartDisable
  | pwmFrequency (frequency : ℚ)
  | pwmDutyCycle (pin : Fin 8) (dutyCycle : ℚ)
  | analogWrite (pin : Fin 8) (val : ℚ)
  | pull (pin : Fin 8) (pullType : Option PullType) (callback : Option Callback)
  | interruptMode (pin : Fin 8) (mode : Option IntMode)

namespace ConfigCall

variable (fl : Rounding) (x : Context)

/-- What a call does to the socket. -/
def method : ConfigCall → Method
  | spi params => Port.spi fl x.spi params
  | spiDisable => SPI.disable
  | i2c params => I2C.construct fl params x.i2cEnabled
  | uartBaudrate value => UART.setBaudrate fl value
  | uartDisable => UART.disable
  | pwmFrequency frequency => Node.pwmFrequency fl frequency
  | pwmDutyCycle pin dutyCycle => Pin.pwmDutyCycle fl pin x.pwm dutyCycle
  | analogWrite pin val => Pin.analogWrite fl pin x.name val
  | pull pin pullType callback => Pin.pull pin pullType callback
  | interruptMode pin mode => Pin.setInterruptMode pin mode

end ConfigCall

end Node

end TesselFirmware
