import TesselFirmware.Node.Operation

/-!
# The packets of the configuration calls

What each configuration call asks of the coprocessor, and which of them write packets that do it.

* `clock_le`, `computed_lt`, `ticks_lt`, ... : the numbers that the calls compute fit their
  registers, however the results of the operations are rounded;
* `ConfigCall.performs_iff` : which configuration calls are performed as they are asked.
-/

namespace TesselFirmware

namespace Node

namespace ConfigCall

variable (fl : Rounding) (x : Context)

/-- What the constructor of `SPI` asks for, with the meaning of `dataMode` as a mask: bit 0 is the
clock polarity and bit 1 the clock phase. -/
def spiOperation (params : SPIParams) : Operation :=
  let o := SPI.ofParams fl params
  match params.dataMode with
  | some mode => .enableSpi ((BitVec.ofInt 32 mode).getLsbD 0) ((BitVec.ofInt 32 mode).getLsbD 1)
      o.clockReg o.clockDiv
  | none => .enableSpi (params.cpol = .high ∨ params.cpol = .number 1)
      (params.cpha = .second ∨ params.cpha = .number 1) o.clockReg o.clockDiv

/-- What a call asks for. -/
def operations : ConfigCall → List Operation
  | spi params =>
    (match (SPI.ofParams fl params).chipSelect with
      | .own pin => [.level pin ((SPI.ofParams fl params).chipSelectActive ≠ 1)]
      | .other => []) ++ [spiOperation fl params]
  | spiDisable => [.disableSpi]
  | i2c params =>
    -- the bus is enabled with the first device
    if x.i2cEnabled then [] else [.enableI2c (I2C.computeBaud fl (I2C.frequencyOf params))]
  | uartBaudrate value => [.enableUart (UART.computed fl value)]
  | uartDisable => [.disableUart]
  | pwmFrequency frequency =>
    match PwmBankSettings.determine fl frequency with
    | some pwm => [.pwmPeriod pwm.prescalarIndex pwm.period]
    | none => []
  | pwmDutyCycle pin dutyCycle => [.pwmDutyCycle pin (Pin.dutyCycleTicks fl x.pwm dutyCycle)]
  | analogWrite _ val => [.analogWrite (toInteger (Pin.analogData fl val))]
  | pull pin pullType callback =>
    .pull pin (pullType.getD .none) :: if callback.isSome then [.sync] else []
  | interruptMode pin (some mode) => [.interrupt pin (some mode)]
  | interruptMode pin none =>
    -- a pin without an interrupt has nothing to switch off
    if Pin.supportsInt pin then [.interrupt pin none] else []

end ConfigCall

/-! ### Numbers that fit -/

namespace Rounding

variable (fl : Rounding)

theorem le_of_le {x : ℚ} {n : ℤ} (h : x ≤ n) (hn : -137438953472 ≤ n) (hn' : n ≤ 137438953472) :
    fl.round x ≤ n := by
  rw [← fl.round_int hn hn']
  exact fl.mono h

theorem le_of_ge {x : ℚ} {n : ℤ} (h : (n : ℚ) ≤ x) (hn : -137438953472 ≤ n)
    (hn' : n ≤ 137438953472) : (n : ℚ) ≤ fl.round x := by
  rw [← fl.round_int hn hn']
  exact fl.mono h

end Rounding

theorem baudReg_nonneg (fl : Rounding) {speed : ℚ} (h : 368 ≤ speed) (h' : speed ≤ 24000000) :
    0 ≤ SPI.baudReg fl speed := by
  have hmul : (736 : ℤ) ≤ fl.mul 2 speed :=
    fl.le_of_ge (by push_cast; linarith) (by decide) (by decide)
  have hmul' : fl.mul 2 speed ≤ (48000000 : ℤ) :=
    fl.le_of_le (by push_cast; linarith) (by decide) (by decide)
  push_cast at hmul hmul'
  have hdiv : (1 : ℤ) ≤ fl.div 48000000 (fl.mul 2 speed) := by
    refine fl.le_of_ge ?_ (by decide) (by decide)
    rw [Int.cast_one, le_div_iff₀ (by linarith)]
    linarith
  have hsub : (0 : ℤ) ≤ fl.sub (fl.div 48000000 (fl.mul 2 speed)) 1 := by
    refine fl.le_of_ge ?_ (by decide) (by decide)
    push_cast at hdiv ⊢
    linarith
  exact Int.le_floor.2 hsub

theorem divider_bounds (fl : Rounding) {speed : ℚ} (h : 368 ≤ speed) :
    0 ≤ SPI.divider fl speed ∧ SPI.divider fl speed ≤ 255 := by
  have hmul : (188416 : ℤ) ≤ fl.mul speed (2 * 255 + 2) :=
    fl.le_of_ge (by push_cast; linarith) (by decide) (by decide)
  push_cast at hmul
  have hpos : 0 < fl.mul speed (2 * 255 + 2) := by linarith
  have hdiv : (0 : ℤ) ≤ fl.div 48000000 (fl.mul speed (2 * 255 + 2)) := by
    refine fl.le_of_ge ?_ (by decide) (by decide)
    rw [Int.cast_zero]
    exact div_nonneg (by norm_num) hpos.le
  have hdiv' : fl.div 48000000 (fl.mul speed (2 * 255 + 2)) ≤ (255 : ℤ) := by
    refine fl.le_of_le ?_ (by decide) (by decide)
    rw [div_le_iff₀ hpos]
    push_cast
    linarith
  refine ⟨Int.le_floor.2 hdiv, Int.le_of_lt_add_one (Int.floor_lt.2 ?_)⟩
  push_cast at hdiv' ⊢
  linarith

/-- `_clockReg` and `_clockDiv` are bytes. -/
theorem clock_bounds (fl : Rounding) {speed : ℚ} (h : 368 ≤ speed) (h' : speed ≤ 24000000) :
    0 ≤ (SPI.clock fl speed).1 ∧ (SPI.clock fl speed).1 < 256 ∧ 0 ≤ (SPI.clock fl speed).2 ∧
      (SPI.clock fl speed).2 < 256 := by
  have hreg := baudReg_nonneg fl h h'
  obtain ⟨hdiv, hdiv'⟩ := divider_bounds fl h
  rw [SPI.clock]
  split_ifs with h1 h2
  · exact absurd h2 (by omega)
  · refine ⟨?_, ?_, hdiv, Int.lt_of_le_of_lt hdiv' ?_⟩ <;> norm_num
  · refine ⟨hreg, Int.lt_of_le_of_lt (not_lt.1 h1) ?_, ?_, ?_⟩ <;> norm_num

theorem computeBaud_bounds (fl : Rounding) (frequency : ℚ) :
    0 ≤ I2C.computeBaud fl frequency ∧ I2C.computeBaud fl frequency < 256 := by
  rw [I2C.computeBaud]
  omega

/-- The register value of a baud rate has 16 bits. -/
theorem computed_bounds (fl : Rounding) {value : ℚ} (h : 9600 ≤ value) (h' : value ≤ 230400) :
    0 ≤ UART.computed fl value ∧ UART.computed fl value < 65536 := by
  -- the ratio is between 8/65536 and 4096/65536
  have hdiv : ((8 : ℤ) : ℚ) / 65536 ≤ fl.div value 48000000 := by
    rw [← fl.exact 8 (by decide) (by decide)]
    exact fl.mono (by rw [div_le_div_iff₀ (by norm_num) (by norm_num)]; push_cast; linarith)
  have hdiv' : fl.div value 48000000 ≤ ((4096 : ℤ) : ℚ) / 65536 := by
    rw [← fl.exact 4096 (by decide) (by decide)]
    exact fl.mono (by rw [div_le_div_iff₀ (by norm_num) (by norm_num)]; push_cast; linarith)
  have hmul : ((128 : ℤ) : ℚ) / 65536 ≤ fl.mul 16 (fl.div value 48000000) := by
    rw [← fl.exact 128 (by decide) (by decide)]
    exact fl.mono (by push_cast at hdiv ⊢; linarith)
  have hmul' : fl.mul 16 (fl.div value 48000000) ≤ (1 : ℤ) :=
    fl.le_of_le (by push_cast at hdiv' ⊢; linarith) (by decide) (by decide)
  have hsub : (0 : ℤ) ≤ fl.sub 1 (fl.mul 16 (fl.div value 48000000)) :=
    fl.le_of_ge (by push_cast at hmul' ⊢; linarith) (by decide) (by decide)
  have hsub' : fl.sub 1 (fl.mul 16 (fl.div value 48000000)) ≤ ((65408 : ℤ) : ℚ) / 65536 := by
    rw [← fl.exact 65408 (by decide) (by decide)]
    exact fl.mono (by push_cast at hmul ⊢; linarith)
  have hval : (0 : ℤ) ≤ fl.mul 65536 (fl.sub 1 (fl.mul 16 (fl.div value 48000000))) :=
    fl.le_of_ge (by push_cast at hsub ⊢; linarith) (by decide) (by decide)
  have hval' : fl.mul 65536 (fl.sub 1 (fl.mul 16 (fl.div value 48000000))) ≤ (65408 : ℤ) :=
    fl.le_of_le (by push_cast at hsub' ⊢; linarith) (by decide) (by decide)
  refine ⟨Int.le_floor.2 hval, Int.floor_lt.2 ?_⟩
  push_cast at hval' ⊢
  linarith

theorem dutyCycleTicks_bounds (fl : Rounding) (pwm : PwmBankSettings) {dutyCycle : ℚ}
    (h : 0 ≤ dutyCycle) (h' : dutyCycle ≤ 1) :
    0 ≤ Pin.dutyCycleTicks fl pwm dutyCycle ∧ Pin.dutyCycleTicks fl pwm dutyCycle < 65536 := by
  have hmax : pwm.period ≤ 65535 := pwm.period_le
  have hperiod : (0 : ℚ) ≤ pwm.period := Nat.cast_nonneg _
  have hmul : (0 : ℤ) ≤ fl.mul dutyCycle pwm.period :=
    fl.le_of_ge (by rw [Int.cast_zero]; exact mul_nonneg h hperiod) (by decide) (by decide)
  have hmul' : fl.mul dutyCycle pwm.period ≤ ((pwm.period : ℤ) : ℚ) := by
    refine fl.le_of_le ?_ (by omega) (by omega)
    rw [Int.cast_natCast]
    exact mul_le_of_le_one_left hperiod h'
  refine ⟨Int.le_floor.2 hmul, Int.floor_lt.2 (lt_of_le_of_lt hmul' ?_)⟩
  exact_mod_cast Nat.lt_succ_of_le hmax

theorem toInteger_bounds {x : ℚ} (h : 0 ≤ x) (h' : x ≤ 0x3ff) :
    0 ≤ toInteger x ∧ toInteger x < 65536 := by
  rw [toInteger, if_pos h]
  refine ⟨Int.floor_nonneg.2 h, Int.floor_lt.2 ?_⟩
  push_cast
  linarith

/-! ### What the calls write -/

theorem not_returns_throw : ¬ Method.returns [.throw] := not_returns .nil []

/-- The bytes with which a constructor makes the chip select inactive. -/
def chipBytes (o : SPI) : List Byte :=
  match o.chipSelect with
  | .own pin => newBuffer [if o.chipSelectActive = 1 then Cmd.gpioLow else Cmd.gpioHigh, pin]
  | .other => []

theorem sends_chip (o : SPI) :
    Sends (if o.chipSelectActive = 1 then o.chipSelect.low else o.chipSelect.high) (chipBytes o)
      [] := by
  rw [chipBytes]
  cases hc : o.chipSelect with
  | other => split_ifs <;> exact .nil
  | own pin =>
    split_ifs
    · exact sends_data _
    · exact sends_data _

namespace ConfigCall

/-- The call does not throw, and an interrupt is asked for only on a pin that has one. -/
def Admissible (fl : Rounding) (x : Context) (c : ConfigCall) : Prop :=
  (c.method fl x).returns ∧
    match c with
    | interruptMode pin mode => Pin.supportsInt pin ∨ mode = none
    | _ => True

/-- The call disables SPI, or it constructs an `SPI` with a `dataMode` that has bit 1 set. -/
def Slips : ConfigCall → Prop
  | spi params => ∃ mode, params.dataMode = some mode ∧ (BitVec.ofInt 32 mode).getLsbD 1
  | spiDisable => True
  | _ => False

end ConfigCall

section Performs

variable {fl : Rounding} {x : Context} {p : PortData}

theorem performs_chip (hs : p.state = .readCmd) (o : SPI) :
    Performs p (chipBytes o) (match o.chipSelect with
      | .own pin => [.level pin (o.chipSelectActive ≠ 1)]
      | .other => []) := by
  rw [chipBytes]
  cases o.chipSelect with
  | other => exact .nil hs
  | own pin =>
    by_cases h : o.chipSelectActive = 1
    · simp only [h, if_true, ne_eq, not_true_eq_false, decide_false]
      exact performs_gpioLow hs pin
    · simp only [h, if_false, ne_eq, not_false_eq_true, decide_true]
      exact performs_gpioHigh hs pin

/-- A port does one thing. -/
theorem Performs.unique {bs : List Byte} {ops ops' : List Operation} (h : Performs p bs ops)
    (h' : Performs p bs ops') : effectsOf ops = effectsOf ops' := by
  obtain ⟨es, he, -, hist, -⟩ := h
  obtain ⟨es', he', -, hist', -⟩ := h'
  have : es = es' := List.append_cancel_left (hist.symm.trans hist')
  rw [he, he', this]

theorem spi_params (fl : Rounding) (params : SPIParams) :
    ((SPI.ofParams fl params).cpol = 0 ∨ (SPI.ofParams fl params).cpol = 1) ∧
      ((SPI.ofParams fl params).cpha = 0 ∨ (SPI.ofParams fl params).cpha = 1) := by
  simp only [SPI.ofParams]
  constructor <;> split_ifs <;> simp

/-- What an `SPI` object that is constructed is enabled with. -/
def spiEnabled (fl : Rounding) (params : SPIParams) : Operation :=
  .enableSpi ((SPI.ofParams fl params).cpol = 1) ((SPI.ofParams fl params).cpha = 1)
    (SPI.ofParams fl params).clockReg (SPI.ofParams fl params).clockDiv

theorem mask_twoPow (n : ℤ) (i : ℕ) :
    mask n (BitVec.twoPow 32 i) =
      if (BitVec.ofInt 32 n).getLsbD i then (BitVec.twoPow 32 i).toInt else 0 := by
  rw [mask, BitVec.and_twoPow]
  split_ifs <;> rfl

/-- Bit 0 of `dataMode` reaches `cpol`, bit 1 does not reach `cpha`. -/
theorem spiEnabled_of_dataMode {params : SPIParams} {mode : ℤ} (hd : params.dataMode = some mode) :
    spiEnabled fl params = .enableSpi ((BitVec.ofInt 32 mode).getLsbD 0) false
      (SPI.ofParams fl params).clockReg (SPI.ofParams fl params).clockDiv := by
  have hpol : mask mode 0x1#32 = if (BitVec.ofInt 32 mode).getLsbD 0 then 1 else 0 :=
    mask_twoPow mode 0
  have hpha : mask mode 0x2#32 = if (BitVec.ofInt 32 mode).getLsbD 1 then 2 else 0 :=
    mask_twoPow mode 1
  have h0 : decide ((SPI.ofParams fl params).cpol = 1) = (BitVec.ofInt 32 mode).getLsbD 0 := by
    simp only [SPI.ofParams, SPI.applyDataMode, hd, hpol]
    cases (BitVec.ofInt 32 mode).getLsbD 0 <;> decide
  have h1 : decide ((SPI.ofParams fl params).cpha = 1) = false := by
    simp only [SPI.ofParams, SPI.applyDataMode, hd, hpha]
    cases (BitVec.ofInt 32 mode).getLsbD 1 <;> decide
  rw [spiEnabled, h0, h1]

theorem spiOperation_eq_iff (fl : Rounding) (params : SPIParams) :
    ConfigCall.spiOperation fl params = spiEnabled fl params ↔
      ¬ ∃ mode, params.dataMode = some mode ∧ (BitVec.ofInt 32 mode).getLsbD 1 := by
  cases hd : params.dataMode with
  | none => simp [ConfigCall.spiOperation, spiEnabled, SPI.ofParams, SPI.applyDataMode, hd]
  | some mode =>
    rw [spiEnabled_of_dataMode hd, ConfigCall.spiOperation, hd]
    simp

/-- An `SPI` that is constructed is enabled with its own parameters. -/
theorem performs_spi (hs : p.state = .readCmd) (params : SPIParams)
    (hspeed : 368 ≤ (SPI.ofParams fl params).clockSpeed)
    (hspeed' : (SPI.ofParams fl params).clockSpeed ≤ 24000000) :
    let o := SPI.ofParams fl params
    Performs p (newBuffer [Cmd.enableSpi, o.cpol + o.cpha * 2, o.clockReg, o.clockDiv])
      [spiEnabled fl params] := by
  obtain ⟨hreg, hreg', hdiv, hdiv'⟩ := clock_bounds fl hspeed hspeed'
  obtain ⟨hpol, hpha⟩ := spi_params fl params
  exact performs_enableSpi hs hpol hpha hreg hreg' hdiv hdiv'

theorem effectsOf_enableSpi (cpol cpha : Bool) {reg div : ℤ} (hreg : 0 ≤ reg ∧ reg < 256)
    (hdiv : 0 ≤ div ∧ div < 256) :
    effectsOf [.enableSpi cpol cpha reg div] = some
      ([Action.sercomClockEnable .spi (BitVec.ofInt 8 div),
        .spiMasterInit cpol cpha (BitVec.ofInt 8 reg), .dmaConfigure .tx .spi,
        .dmaConfigure .rx .spi, .dmaEnableInterrupt .rx, .pin .mux mosi, .pin .mux miso,
        .pin .mux sck].map .action) := by
  rw [effectsOf, Operation.effects, Operation.actions, register_byte hreg.1 hreg.2,
    register_byte hdiv.1 hdiv.2]
  rfl

/-- The operations of a construction, with the parameters that reach the object. -/
def spiPerformed (fl : Rounding) (params : SPIParams) : List Operation :=
  (match (SPI.ofParams fl params).chipSelect with
    | .own pin => [.level pin ((SPI.ofParams fl params).chipSelectActive ≠ 1)]
    | .other => []) ++ [spiEnabled fl params]

/-- The construction of an `SPI` that returns. -/
theorem performs_spiCall (hs : p.state = .readCmd) (current : Bool) {params : SPIParams}
    (hret : (Port.spi fl current params).returns) :
    Performs p (Port.spi fl current params).bytes (spiPerformed fl params) ∧
      368 ≤ (SPI.ofParams fl params).clockSpeed ∧
      (SPI.ofParams fl params).clockSpeed ≤ 24000000 := by
  have hnop : Sends (if current then SPI.disable else [])
      (if current then newBuffer [Cmd.cmdDisableSpi] else []) [] := by
    cases current with
    | true => exact sends_data _
    | false => exact .nil
  have hpre := hnop.append (sends_chip (SPI.ofParams fl params))
  by_cases hrange : (SPI.ofParams fl params).clockSpeed < 368 ∨
      24000000 < (SPI.ofParams fl params).clockSpeed
  · refine absurd hret ?_
    rw [Port.spi, SPI.construct, if_pos hrange, ← List.append_assoc]
    exact not_returns hpre []
  · have hspeed : 368 ≤ (SPI.ofParams fl params).clockSpeed ∧
        (SPI.ofParams fl params).clockSpeed ≤ 24000000 := by
      simpa only [not_or, not_lt] using hrange
    refine ⟨?_, hspeed⟩
    have hsend := hpre.append (sends_data [Cmd.enableSpi,
      (SPI.ofParams fl params).cpol + (SPI.ofParams fl params).cpha * 2,
      (SPI.ofParams fl params).clockReg, (SPI.ofParams fl params).clockDiv])
    have hmethod : Port.spi fl current params = (if current then SPI.disable else []) ++
        (if (SPI.ofParams fl params).chipSelectActive = 1 then
          (SPI.ofParams fl params).chipSelect.low
        else (SPI.ofParams fl params).chipSelect.high) ++ Port.command [Cmd.enableSpi,
          (SPI.ofParams fl params).cpol + (SPI.ofParams fl params).cpha * 2,
          (SPI.ofParams fl params).clockReg, (SPI.ofParams fl params).clockDiv] none := by
      simp only [Port.spi, SPI.construct, if_neg hrange, List.append_assoc]
    have hperf : Performs p (if current then newBuffer [Cmd.cmdDisableSpi] else []) [] := by
      cases current with
      | true => exact performs_nop hs
      | false => exact .nil hs
    have hchip := hperf.append (performs_chip hperf.state (SPI.ofParams fl params))
    rw [hmethod, hsend.bytes]
    exact hchip.append (performs_spi hchip.state params hspeed.1 hspeed.2)

/-- The construction of an `SPI` does what it asks for if bit 1 of `dataMode` is clear. -/
theorem performs_spi_iff (hs : p.state = .readCmd) (current : Bool) {params : SPIParams}
    (hret : (Port.spi fl current params).returns) (x : Context) :
    Performs p (Port.spi fl current params).bytes (ConfigCall.operations fl x (.spi params)) ↔
      ¬ ∃ mode, params.dataMode = some mode ∧ (BitVec.ofInt 32 mode).getLsbD 1 := by
  obtain ⟨hperf, hspeed, hspeed'⟩ := performs_spiCall hs current hret
  rw [← spiOperation_eq_iff fl]
  constructor
  · intro h
    by_contra hne
    obtain ⟨mode, hd, hbit⟩ := not_not.1 fun hno => hne ((spiOperation_eq_iff fl params).2 hno)
    obtain ⟨hreg, hreg', hdiv, hdiv'⟩ := clock_bounds fl hspeed hspeed'
    have heff := h.unique hperf
    rw [ConfigCall.operations, spiPerformed, spiEnabled_of_dataMode hd, ConfigCall.spiOperation,
      hd] at heff
    dsimp only at heff
    rw [hbit] at heff
    obtain ⟨es, hes, -⟩ := performs_chip hs (SPI.ofParams fl params)
    -- the two lists of effects differ in the clock phase
    have henable (cpha : Bool) := effectsOf_append hes (effectsOf_enableSpi
      ((BitVec.ofInt 32 mode).getLsbD 0) cpha ⟨hreg, hreg'⟩ ⟨hdiv, hdiv'⟩)
    have hlist := Option.some.inj ((henable true).symm.trans (heff.trans (henable false)))
    have hphase := List.append_cancel_left hlist
    simp at hphase
  · intro h
    rw [ConfigCall.operations, h]
    exact hperf

end Performs

namespace ConfigCall

variable {fl : Rounding} {x : Context} {p : PortData}

/-! ### The calls one by one -/

section Calls

variable (hs : p.state = .readCmd)

include hs

/-- `SPI.disable` writes a NOP. -/
theorem not_performs_spiDisableCall :
    ¬ Performs p (spiDisable.method fl x).bytes (spiDisable.operations fl x) := by
  intro h
  rw [method, SPI.disable, (sends_data _).bytes] at h
  have heff := h.unique (performs_nop hs)
  cases heff

theorem performs_i2cCall {params : I2CParams} (hret : ((i2c params).method fl x).returns) :
    Performs p ((i2c params).method fl x).bytes ((i2c params).operations fl x) := by
  rw [method, I2C.construct] at hret ⊢
  by_cases haddress : params.address = none
  · rw [if_pos haddress] at hret
    exact absurd hret not_returns_throw
  by_cases hfreq : I2C.frequencyOf params ≠ 100000 ∧ I2C.frequencyOf params ≠ 400000
  · rw [if_neg haddress, if_pos hfreq] at hret
    exact absurd hret not_returns_throw
  rw [if_neg haddress, if_neg hfreq, operations]
  by_cases henabled : x.i2cEnabled
  · rw [if_pos henabled, if_pos henabled, Sends.nil.bytes]
    exact .nil hs
  · rw [if_neg henabled, if_neg henabled, (sends_data _).bytes]
    obtain ⟨h, h'⟩ := computeBaud_bounds fl (I2C.frequencyOf params)
    exact performs_enableI2c hs h h'

theorem performs_uartBaudrateCall {value : ℚ}
    (hret : ((uartBaudrate value).method fl x).returns) :
    Performs p ((uartBaudrate value).method fl x).bytes ((uartBaudrate value).operations fl x) := by
  rw [method, UART.setBaudrate] at hret ⊢
  split_ifs at hret ⊢ with hrange
  · exact absurd hret not_returns_throw
  · rw [not_or, not_lt, not_lt] at hrange
    rw [(sends_data _).bytes]
    obtain ⟨h, h'⟩ := computed_bounds fl hrange.1 hrange.2
    exact performs_enableUart hs h h'

theorem performs_uartDisableCall :
    Performs p (uartDisable.method fl x).bytes (uartDisable.operations fl x) := by
  rw [method, UART.disable, (sends_data _).bytes]
  have hdisable := performs_disableUart hs
  -- the two bytes after the opcode are NOPs
  have hnop := hdisable.append (performs_nop hdisable.state)
  exact hnop.append (performs_nop hnop.state)

theorem performs_pwmFrequencyCall {frequency : ℚ}
    (hret : ((pwmFrequency frequency).method fl x).returns) :
    Performs p ((pwmFrequency frequency).method fl x).bytes
      ((pwmFrequency frequency).operations fl x) := by
  rw [method, Node.pwmFrequency] at hret ⊢
  rw [operations]
  split_ifs at hret ⊢ with hrange
  · exact absurd hret not_returns_throw
  · cases hpwm : PwmBankSettings.determine fl frequency with
    | none =>
      rw [hpwm] at hret
      exact absurd hret not_returns_throw
    | some pwm =>
      dsimp only
      rw [(Sends.write _).bytes]
      exact performs_pwmPeriod hs pwm.prescalarIndex pwm.period_le

theorem performs_pwmDutyCycleCall {pin : Fin 8} {dutyCycle : ℚ}
    (hret : ((pwmDutyCycle pin dutyCycle).method fl x).returns) :
    Performs p ((pwmDutyCycle pin dutyCycle).method fl x).bytes
      ((pwmDutyCycle pin dutyCycle).operations fl x) := by
  rw [method, Pin.pwmDutyCycle] at hret ⊢
  split_ifs at hret ⊢ with hpin hrange hperiod
  · exact absurd hret not_returns_throw
  · exact absurd hret not_returns_throw
  · rw [not_or, not_lt, not_lt] at hrange
    rw [(Sends.write _).bytes]
    obtain ⟨h, h'⟩ := dutyCycleTicks_bounds fl x.pwm hrange.1 hrange.2
    exact performs_pwmDutyCycle hs pin h h'
  · exact absurd hret not_returns_throw

theorem performs_analogWriteCall {pin : Fin 8} {val : ℚ}
    (hret : ((analogWrite pin val).method fl x).returns) :
    Performs p ((analogWrite pin val).method fl x).bytes
      ((analogWrite pin val).operations fl x) := by
  rw [method, Pin.analogWrite] at hret ⊢
  split_ifs at hret ⊢ with hpin hrange
  · exact absurd hret not_returns_throw
  · exact absurd hret not_returns_throw
  · rw [not_or, not_lt, not_lt] at hrange
    rw [(Sends.write _).bytes]
    obtain ⟨h, h'⟩ := toInteger_bounds hrange.2 hrange.1
    exact performs_analogWrite hs h h'

theorem performs_pullCall {pin : Fin 8} {pullType : Option PullType} {callback : Option Callback}
    (hret : ((pull pin pullType callback).method fl x).returns) :
    Performs p ((pull pin pullType callback).method fl x).bytes
      ((pull pin pullType callback).operations fl x) := by
  rw [method, Pin.pull] at hret ⊢
  split_ifs at hret ⊢ with hpin
  · rw [(sends_command _ _).bytes]
    have hpull := performs_pull hs pin (pullType.getD .none)
    cases callback with
    | none => exact hpull.append (.nil hpull.state)
    | some cb => exact hpull.append (performs_echo hpull.state)
  · exact absurd hret not_returns_throw

theorem performs_interruptModeCall (hport : p.port = x.name.board) {pin : Fin 8}
    {mode : Option IntMode} (hmode : Pin.supportsInt pin ∨ mode = none) :
    Performs p ((interruptMode pin mode).method fl x).bytes
      ((interruptMode pin mode).operations fl x) := by
  rw [method, Pin.setInterruptMode, (sends_data _).bytes]
  by_cases hpin : Pin.supportsInt pin
  · have hperf := performs_interrupt hs hport hpin mode
    cases mode with
    | some mode => exact hperf
    | none =>
      rw [operations, if_pos hpin]
      exact hperf
  · obtain rfl : mode = none := hmode.resolve_left hpin
    rw [operations, if_neg hpin]
    exact performs_interrupt_none hs hport (by simpa using hpin) none

end Calls

/-- **Which configuration packets decode to the requested operation.** -/
theorem performs_iff {c : ConfigCall} (hc : c.Admissible fl x) (hs : p.state = .readCmd)
    (hport : p.port = x.name.board) :
    Performs p (c.method fl x).bytes (c.operations fl x) ↔ ¬ c.Slips := by
  obtain ⟨hret, hmode⟩ := hc
  cases c with
  | spi params => exact performs_spi_iff hs x.spi hret x
  | spiDisable => exact iff_of_false (not_performs_spiDisableCall hs) (not_not.2 trivial)
  | i2c params => exact iff_of_true (performs_i2cCall hs hret) id
  | uartBaudrate value => exact iff_of_true (performs_uartBaudrateCall hs hret) id
  | uartDisable => exact iff_of_true (performs_uartDisableCall hs) id
  | pwmFrequency frequency => exact iff_of_true (performs_pwmFrequencyCall hs hret) id
  | pwmDutyCycle pin dutyCycle => exact iff_of_true (performs_pwmDutyCycleCall hs hret) id
  | analogWrite pin val => exact iff_of_true (performs_analogWriteCall hs hret) id
  | pull pin pullType callback => exact iff_of_true (performs_pullCall hs hret) id
  | interruptMode pin mode => exact iff_of_true (performs_interruptModeCall hs hport hmode) id

/-- A port of the coprocessor that waits for a command. -/
def waiting (mode : PortMode) : PortData :=
  { PortData.init portA (fun _ => 0#16) with state := .readCmd, mode := mode }

/-- The context of a port A on which nothing has been constructed. -/
def fresh : Context := ⟨.A, false, false, .init⟩

/-- The pull-up of pin 3 of port A is switched on. -/
theorem performs_pullup :
    Performs (waiting .none) ((pull 3 (some .pullup) none).method .ideal fresh).bytes
      [.pull 3 .pullup] := by
  have hc : (pull 3 (some .pullup) none).Admissible .ideal fresh := ⟨rfl, trivial⟩
  exact (performs_iff (p := waiting .none) hc rfl rfl).2 id

/-- `SPI.disable` writes a NOP, and SPI stays enabled. -/
theorem spiDisable_nop :
    spiDisable.Admissible .ideal fresh ∧ (waiting .spi).state = .readCmd ∧
      (waiting .spi).port = fresh.name.board ∧
      (spiDisable.method .ideal fresh).bytes = [0#8] ∧
      ¬ Performs (waiting .spi) (spiDisable.method .ideal fresh).bytes
        (spiDisable.operations .ideal fresh) := by
  exact ⟨⟨rfl, trivial⟩, rfl, rfl, by decide, not_performs_spiDisableCall rfl⟩

end ConfigCall

end Node

end TesselFirmware
