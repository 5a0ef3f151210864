import TesselFirmware.Node.Config
import TesselFirmware.Port.Reference

/-!
# What configuration packets ask of the coprocessor

An `Operation` is what a configuration call is for, with the numbers of the call; it has effects
on the coprocessor if these numbers fit their registers.

* `Performs p bs ops` : a port that is given the bytes `bs` performs the operations `ops`, and
  nothing else happens;
* `performs_enableSpi`, `performs_pull`, ... : the packet of each operation.
-/

namespace TesselFirmware

namespace Node

/-! ### Operations -/

inductive Operation
  | level (pin : Fin 8) (high : Bool)
  | enableSpi (cpol cpha : Bool) (clockReg clockDiv : ℤ)
  | disableSpi
  | enableI2c (baudrate : ℤ)
  | enableUart (computed : ℤ)
  | disableUart
  | pwmPeriod (prescalarIndex : ℤ) (period : ℤ)
  | pwmDutyCycle (pin : Fin 8) (ticks : ℤ)
  | analogWrite (data : ℤ)
  | pull (pin : Fin 8) (pullType : PullType)
  | interrupt (pin : Fin 8) (mode : Option IntMode)
  /-- A reply, so that a callback can be called. -/
  | sync

/-- The level or edge that an interrupt mode means (`EIC_CONFIG_SENSE`). -/
def IntMode.sense : IntMode → Byte
  | rise => 0x1#8
  | fall => 0x2#8
  | change => 0x3#8
  | high => 0x4#8
  | low => 0x5#8

/-- The resistor that a pull type means. -/
def PullType.op : PullType → PinOp
  | pulldown => .pullDown
  | pullup => .pullUp
  | none => .float

/-- A register of `w` bits with the value `n`. -/
def register (w : ℕ) (n : ℤ) : Option (BitVec w) :=
  if (BitVec.ofInt w n).toNat = n then some (BitVec.ofInt w n) else none

namespace Operation

/-- The actions on pins and peripherals. -/
def actions : Operation → Option (List Action)
  | level pin high => some [.pin (if high then .high else .low) pin, .pin .output pin]
  | enableSpi cpol cpha clockReg clockDiv =>
    (register 8 clockReg).bind fun reg => (register 8 clockDiv).map fun div =>
      [.sercomClockEnable .spi div, .spiMasterInit cpol cpha reg, .dmaConfigure .tx .spi,
        .dmaConfigure .rx .spi, .dmaEnableInterrupt .rx, .pin .mux mosi, .pin .mux miso,
        .pin .mux sck]
  | disableSpi => some [.pin .gpio mosi, .pin .gpio miso, .pin .gpio sck]
  | enableI2c baudrate => (register 8 baudrate).map fun baud =>
    [.i2cMasterInit baud, .pin .mux sda, .pin .mux scl, .i2cEnableError]
  | enableUart computed => (register 16 computed).map fun baud =>
    [.pin .mux tx, .pin .mux rx, .uartInit baud, .dmaConfigure .tx .uartI2c,
      .dmaEnableInterrupt .tx, .uartEnableRxc, .tccDelayEnable]
  | disableUart => some [.uartDisableRxc, .tccDelayDisable, .pin .gpio tx, .pin .gpio rx]
  | pwmPeriod prescalarIndex period =>
    (register 8 prescalarIndex).bind fun i => (register 16 period).map fun period =>
      [.pwmPeriod 0#8 i period]
  | pwmDutyCycle pin ticks => (register 16 ticks).map fun duty => [.pin (.pwmDuty duty) pin]
  | analogWrite data => (register 16 data).map fun val => [.dacWrite val]
  | pull pin pullType => some [.pin pullType.op pin]
  | interrupt pin (some mode) => some [.pin .muxEic pin, .pin (.eicConfig mode.sense) pin]
  | interrupt pin none => some [.pin (.eicConfig 0#8) pin, .pin .gpio pin]
  | sync => some []

/-- The reply. -/
def reply : Operation → List Byte
  | sync => [replyData, 0x88#8]
  | _ => []

/-- The peripheral mode afterwards. -/
def mode (m : PortMode) : Operation → PortMode
  | enableSpi .. => .spi
  | enableI2c _ => .i2c
  | enableUart _ => .uart
  | disableSpi | disableUart => .none
  | _ => m

/-- What the port does. -/
def effects (op : Operation) : Option (List Effect) :=
  op.actions.map fun as => as.map .action ++ op.reply.map .reply

end Operation

/-- What the port does for a list of operations. -/
def effectsOf : List Operation → Option (List Effect)
  | [] => some []
  | op :: ops => op.effects.bind fun es => (effectsOf ops).map (es ++ ·)

/-- A mark that a command was executed, which is not a thing that the port does. -/
def isMark : Effect → Bool
  | .exec _ => true
  | _ => false

/-- What a port has done. -/
def history (p : PortData) : List Effect := p.effects.filter (!isMark ·)

/-- A port that is given the bytes `bs` performs the operations `ops`, and nothing else. -/
def Performs (p : PortData) (bs : List Byte) (ops : List Operation) : Prop :=
  ∃ es, effectsOf ops = some es ∧ (p.consumeAll bs).state = .readCmd ∧
    history (p.consumeAll bs) = history p ++ es ∧
    (p.consumeAll bs).mode = ops.foldl Operation.mode p.mode

/-! ### Performing operations -/

variable {p : PortData} {bs bs' : List Byte} {ops ops' : List Operation}

theorem isMark_of_effects {o : Operation} {es : List Effect} (h : o.effects = some es) {e : Effect}
    (he : e ∈ es) : isMark e = false := by
  obtain ⟨as, -, rfl⟩ := Option.map_eq_some_iff.1 h
  obtain he | he := List.mem_append.1 he
  · obtain ⟨a, -, rfl⟩ := List.mem_map.1 he
    rfl
  · obtain ⟨b, -, rfl⟩ := List.mem_map.1 he
    rfl

theorem isMark_of_effectsOf {es : List Effect} (h : effectsOf ops = some es) {e : Effect}
    (he : e ∈ es) : isMark e = false := by
  induction ops generalizing es with
  | nil =>
    obtain rfl : [] = es := Option.some.inj h
    cases he
  | cons op ops ih =>
    obtain ⟨es₁, h₁, h⟩ := Option.bind_eq_some_iff.1 h
    obtain ⟨es₂, h₂, rfl⟩ := Option.map_eq_some_iff.1 h
    obtain he | he := List.mem_append.1 he
    · exact isMark_of_effects h₁ he
    · exact ih h₂ he

theorem effectsOf_append {es es' : List Effect} (h : effectsOf ops = some es)
    (h' : effectsOf ops' = some es') : effectsOf (ops ++ ops') = some (es ++ es') := by
  induction ops generalizing es with
  | nil =>
    obtain rfl : [] = es := Option.some.inj h
    exact h'
  | cons op ops ih =>
    obtain ⟨es₁, h₁, h⟩ := Option.bind_eq_some_iff.1 h
    obtain ⟨es₂, h₂, rfl⟩ := Option.map_eq_some_iff.1 h
    rw [List.cons_append, effectsOf, h₁, Option.bind_some, ih h₂, Option.map_some,
      List.append_assoc]

theorem Performs.nil (hs : p.state = .readCmd) : Performs p [] [] :=
  ⟨[], rfl, hs, by simp, rfl⟩

/-- Packets are executed one after the other. -/
theorem Performs.append (h : Performs p bs ops) (h' : Performs (p.consumeAll bs) bs' ops') :
    Performs p (bs ++ bs') (ops ++ ops') := by
  obtain ⟨es, he, -, hist, hmode⟩ := h
  obtain ⟨es', he', hs', hist', hmode'⟩ := h'
  refine ⟨es ++ es', effectsOf_append he he', ?_, ?_, ?_⟩
  · rw [PortData.consumeAll_append]
    exact hs'
  · rw [PortData.consumeAll_append, hist', hist, List.append_assoc]
  · rw [PortData.consumeAll_append, hmode', hmode, List.foldl_append]

theorem Performs.state (h : Performs p bs ops) : (p.consumeAll bs).state = .readCmd := by
  obtain ⟨es, -, hs, -⟩ := h
  exact hs

/-- A packet of one command without a payload. -/
theorem performs_packet (hs : p.state = .readCmd) {op : Byte} {args : List Byte} {c : PortCmd}
    (hop : PortCmd.ofByte op = some c) (hlen : args.length = portCmdArgs (some c))
    (hst : PortData.statusOf (some c) = .done)
    {es : List Effect} (hes : effectsOf ops = some es)
    (hmode : ∀ m, PortData.modeAfter (some c) m = ops.foldl Operation.mode m)
    (h : ∀ r, PortData.Loaded p op args r → r.opcode = some c →
      r.begun.effects = r.effects ++ .exec r.cmd :: es) :
    Performs p (op :: args) ops := by
  obtain ⟨r, hr, heq⟩ := PortData.consumeAll_done hs (by rw [hop, hlen]) (by rw [hop, hst])
  have hcmd : r.opcode = some c := hr.opcode.trans hop
  refine ⟨es, hes, ?_, ?_, ?_⟩
  · rw [heq, PortData.state_begun, hcmd, hst]
    rfl
  · have hmark : es.filter (!isMark ·) = es :=
      List.filter_eq_self.2 fun e he => by simp [isMark_of_effectsOf hes he]
    rw [heq, history, h r hr hcmd, hr.effects, List.filter_append,
      List.filter_cons_of_neg (by simp [isMark]), hmark]
    rfl
  · rw [heq, PortData.mode_begun, hcmd, hmode, hr.mode]

/-- A packet of one command without a payload and a reply. -/
theorem performs_command (hs : p.state = .readCmd) {op : Byte} {args : List Byte} {c : PortCmd}
    (hop : PortCmd.ofByte op = some c) (hlen : args.length = portCmdArgs (some c))
    (hst : PortData.statusOf (some c) = .done)
    {o : Operation} {as : List Action} (has : o.actions = some as) (hrep : o.reply = [])
    (hmode : ∀ m, PortData.modeAfter (some c) m = o.mode m)
    (h : ∀ r, PortData.Loaded p op args r → r.opcode = some c →
      r.begun.effects = r.effects ++ .exec r.cmd :: as.map .action) :
    Performs p (op :: args) [o] := by
  have hes : o.effects = some (as.map .action) := by
    rw [Operation.effects, has, hrep]
    simp
  refine performs_packet hs hop hlen hst ?_ hmode h
  rw [effectsOf, hes]
  simp [effectsOf]

/-- A packet of one command that only acts. -/
theorem performs_actions (hs : p.state = .readCmd) {op : Byte} {args : List Byte} {c : PortCmd}
    (hop : PortCmd.ofByte op = some c) (hlen : args.length = portCmdArgs (some c))
    (hst : PortData.statusOf (some c) = .done)
    {o : Operation} {as : List Action} (has : o.actions = some as) (hrep : o.reply = [])
    (hmode : ∀ m, PortData.modeAfter (some c) m = o.mode m)
    (h : ∀ r, PortData.Loaded p op args r → r.opcode = some c → r.beginActions = some as) :
    Performs p (op :: args) [o] :=
  performs_command hs hop hlen hst has hrep hmode fun r hr hc => PortData.effects_begun (h r hr hc)

/-! ### The commands -/

theorem register_byte {n : ℤ} (h : 0 ≤ n) (h' : n < 256) :
    register 8 n = some (BitVec.ofInt 8 n) := by
  refine if_pos ?_
  rw [BitVec.toNat_ofInt]
  omega

theorem register_word {n : ℤ} (h : 0 ≤ n) (h' : n < 65536) :
    register 16 n = some (BitVec.ofInt 16 n) := by
  refine if_pos ?_
  rw [BitVec.toNat_ofInt]
  omega

theorem shiftRight_eight {n : ℤ} (h : 0 ≤ n) (h' : n < 65536) : shiftRight n 8 = n / 256 := by
  have hn : (BitVec.ofInt 32 n).toInt = n := by
    rw [BitVec.toInt_ofInt, Int.bmod_def]
    omega
  rw [shiftRight, BitVec.toInt_sshiftRight, hn, Int.shiftRight_eq_div_pow]
  rfl

theorem mask_byte {n : ℤ} (h : 0 ≤ n) (h' : n < 65536) : mask n 0xff#32 = n % 256 := by
  obtain ⟨k, rfl⟩ := Int.eq_ofNat_of_zero_le h
  have hk : (BitVec.ofInt 32 (k : ℤ) &&& 0xff#32).toNat = k % 256 := by
    have hand : (k % 4294967296) &&& 255 = k % 4294967296 % 256 :=
      Nat.and_two_pow_sub_one_eq_mod _ 8
    rw [BitVec.ofInt_natCast, BitVec.toNat_and, BitVec.toNat_ofNat]
    exact hand.trans (by omega)
  rw [mask, BitVec.toInt_eq_toNat_of_lt (by rw [hk]; omega), hk]
  rfl

/-- The two bytes of a 16-bit value. -/
theorem append_bytes {n : ℤ} (h : 0 ≤ n) (h' : n < 65536) :
    BitVec.ofInt 8 (n / 256) ++ BitVec.ofInt 8 (n % 256) = BitVec.ofInt 16 n := by
  obtain ⟨k, rfl⟩ := Int.eq_ofNat_of_zero_le h
  refine BitVec.eq_of_toNat_eq ?_
  rw [BitVec.toNat_append, ← Nat.shiftLeft_add_eq_or_of_lt (BitVec.isLt _)]
  simp only [BitVec.toNat_ofInt, Nat.shiftLeft_eq]
  omega

theorem word_bytes {n : ℤ} (h : 0 ≤ n) (h' : n < 65536) :
    BitVec.ofInt 8 (shiftRight n 8) ++ BitVec.ofInt 8 (mask n 0xff#32) = BitVec.ofInt 16 n := by
  rw [shiftRight_eight h h', mask_byte h h', append_bytes h h']

theorem selectedPin_of_arg (pin : Fin 8) {r : PortData} (h : r.argAt 0 = BitVec.ofInt 8 pin) :
    r.selectedPin = pin := by
  have hpin : ∀ pin : Fin 8, (BitVec.ofInt 8 pin).toNat % 8 = pin := by decide
  rw [PortData.selectedPin, h, hpin]

theorem interruptBits_decode (pin : Fin 8) (mode : Option IntMode) :
    (BitVec.ofInt 8 (Pin.bits pin ||| Pin.interruptBits mode).toInt &&& 0x7#8).toNat = pin ∧
      BitVec.ofInt 8 (Pin.bits pin ||| Pin.interruptBits mode).toInt >>> 4 &&& 0x07#8 =
        match mode with
        | some mode => mode.sense
        | none => 0#8 := by
  revert pin
  cases mode with
  | some mode => cases mode <;> decide
  | none => decide

section Commands

variable (hs : p.state = .readCmd)

include hs

theorem performs_enableSpi {cpol cpha reg div : ℤ} (hpol : cpol = 0 ∨ cpol = 1)
    (hpha : cpha = 0 ∨ cpha = 1) (hreg : 0 ≤ reg) (hreg' : reg < 256) (hdiv : 0 ≤ div)
    (hdiv' : div < 256) :
    Performs p (newBuffer [Cmd.enableSpi, cpol + cpha * 2, reg, div])
      [.enableSpi (cpol = 1) (cpha = 1) reg div] := by
  have has : (Operation.enableSpi (cpol = 1) (cpha = 1) reg div).actions = some
      [.sercomClockEnable .spi (BitVec.ofInt 8 div),
        .spiMasterInit (cpol = 1) (cpha = 1) (BitVec.ofInt 8 reg), .dmaConfigure .tx .spi,
        .dmaConfigure .rx .spi, .dmaEnableInterrupt .rx, .pin .mux mosi, .pin .mux miso,
        .pin .mux sck] := by
    rw [Operation.actions, register_byte hreg hreg', register_byte hdiv hdiv']
    rfl
  have hbits : Byte.has (BitVec.ofInt 8 (cpol + cpha * 2)) 0 = decide (cpol = 1) ∧
      Byte.has (BitVec.ofInt 8 (cpol + cpha * 2)) 1 = decide (cpha = 1) := by
    obtain rfl | rfl := hpol <;> obtain rfl | rfl := hpha <;> decide
  refine performs_actions hs rfl rfl rfl has rfl (fun _ => rfl) ?_
  intro r hr hop
  have h0 : r.argAt 0 = BitVec.ofInt 8 (cpol + cpha * 2) := hr.arg 0 (by simp)
  have h1 : r.argAt 1 = BitVec.ofInt 8 reg := hr.arg 1 (by simp)
  have h2 : r.argAt 2 = BitVec.ofInt 8 div := hr.arg 2 (by simp)
  rw [← h0] at hbits
  rw [PortData.beginActions, hop, ← hbits.1, ← hbits.2, ← h1, ← h2]

theorem performs_enableI2c {baud : ℤ} (h : 0 ≤ baud) (h' : baud < 256) :
    Performs p (newBuffer [Cmd.enableI2c, baud]) [.enableI2c baud] := by
  have has : (Operation.enableI2c baud).actions = some
      [.i2cMasterInit (BitVec.ofInt 8 baud), .pin .mux sda, .pin .mux scl, .i2cEnableError] := by
    rw [Operation.actions, register_byte h h']
    rfl
  refine performs_actions hs rfl rfl rfl has rfl (fun _ => rfl) ?_
  intro r hr hop
  have h0 : r.argAt 0 = BitVec.ofInt 8 baud := hr.arg 0 (by simp)
  rw [PortData.beginActions, hop, ← h0]

theorem performs_enableUart {baud : ℤ} (h : 0 ≤ baud) (h' : baud < 65536) :
    Performs p (newBuffer [Cmd.enableUart, shiftRight baud 8, mask baud 0xff#32])
      [.enableUart baud] := by
  have has : (Operation.enableUart baud).actions = some
      [.pin .mux tx, .pin .mux rx, .uartInit (BitVec.ofInt 16 baud), .dmaConfigure .tx .uartI2c,
        .dmaEnableInterrupt .tx, .uartEnableRxc, .tccDelayEnable] := by
    rw [Operation.actions, register_word h h']
    rfl
  refine performs_actions hs rfl rfl rfl has rfl (fun _ => rfl) ?_
  intro r hr hop
  have h0 : r.argAt 0 = BitVec.ofInt 8 (shiftRight baud 8) := hr.arg 0 (by simp)
  have h1 : r.argAt 1 = BitVec.ofInt 8 (mask baud 0xff#32) := hr.arg 1 (by simp)
  rw [PortData.beginActions, hop, ← word_bytes h h', ← h0, ← h1]
  rfl

theorem performs_disableUart : Performs p (newBuffer [Cmd.disableUart]) [.disableUart] := by
  refine performs_actions hs rfl rfl rfl rfl rfl (fun _ => rfl) ?_
  intro r hr hop
  rw [PortData.beginActions, hop]

theorem performs_pwmPeriod (i : Fin 8) {period : ℕ} (h : period ≤ pwmMaxPeriod) :
    Performs p (newBuffer [Cmd.pwmPeriod, (BitVec.ofNat 32 i <<< 4 ||| 0#32).toInt,
      (period / 256 : ℕ), (period % 256 : ℕ)]) [.pwmPeriod i period] := by
  have hmax : pwmMaxPeriod = 65535 := rfl
  have has : (Operation.pwmPeriod i period).actions = some
      [.pwmPeriod 0#8 (BitVec.ofInt 8 i) (BitVec.ofInt 16 period)] := by
    rw [Operation.actions, register_byte (by omega) (by omega), register_word (by omega) (by omega)]
    rfl
  have hword : BitVec.ofInt 8 (period / 256 : ℕ) ++ BitVec.ofInt 8 (period % 256 : ℕ) =
      BitVec.ofInt 16 (period : ℤ) := by
    push_cast
    exact append_bytes (by omega) (by omega)
  have hbits : ∀ i : Fin 8,
      BitVec.ofInt 8 (BitVec.ofNat 32 i <<< 4 ||| 0#32).toInt &&& 0x7#8 = 0#8 ∧
      BitVec.ofInt 8 (BitVec.ofNat 32 i <<< 4 ||| 0#32).toInt >>> 4 = BitVec.ofInt 8 i := by
    decide
  refine performs_actions hs rfl rfl rfl has rfl (fun _ => rfl) ?_
  intro r hr hop
  have h0 : r.argAt 0 = BitVec.ofInt 8 (BitVec.ofNat 32 i <<< 4 ||| 0#32).toInt :=
    hr.arg 0 (by simp)
  have h1 : r.argAt 1 = BitVec.ofInt 8 (period / 256 : ℕ) := hr.arg 1 (by simp)
  have h2 : r.argAt 2 = BitVec.ofInt 8 (period % 256 : ℕ) := hr.arg 2 (by simp)
  obtain ⟨htcc, hscale⟩ := hbits i
  rw [← h0] at htcc hscale
  rw [PortData.beginActions, hop, ← hword, ← htcc, ← hscale, ← h1, ← h2]
  rfl

theorem performs_pwmDutyCycle (pin : Fin 8) {ticks : ℤ} (h : 0 ≤ ticks) (h' : ticks < 65536) :
    Performs p (newBuffer [Cmd.pwmDutyCycle, pin, shiftRight ticks 8, mask ticks 0xff#32])
      [.pwmDutyCycle pin ticks] := by
  have has : (Operation.pwmDutyCycle pin ticks).actions = some
      [.pin (.pwmDuty (BitVec.ofInt 16 ticks)) pin] := by
    rw [Operation.actions, register_word h h']
    rfl
  have hpin : ∀ pin : Fin 8, (BitVec.ofInt 8 pin).toNat = pin := by decide
  refine performs_actions hs rfl rfl rfl has rfl (fun _ => rfl) ?_
  intro r hr hop
  have h0 : r.argAt 0 = BitVec.ofInt 8 pin := hr.arg 0 (by simp)
  have h1 : r.argAt 1 = BitVec.ofInt 8 (shiftRight ticks 8) := hr.arg 1 (by simp)
  have h2 : r.argAt 2 = BitVec.ofInt 8 (mask ticks 0xff#32) := hr.arg 2 (by simp)
  have hp : (r.argAt 0).toNat = pin := by rw [h0, hpin]
  rw [PortData.beginActions, hop, ← word_bytes h h', ← h1, ← h2, ← hp]
  rfl

theorem performs_analogWrite {data : ℤ} (h : 0 ≤ data) (h' : data < 65536) :
    Performs p (newBuffer [Cmd.analogWrite, shiftRight data 8, mask data 0xff#32])
      [.analogWrite data] := by
  have has : (Operation.analogWrite data).actions = some [.dacWrite (BitVec.ofInt 16 data)] := by
    rw [Operation.actions, register_word h h']
    rfl
  refine performs_actions hs rfl rfl rfl has rfl (fun _ => rfl) ?_
  intro r hr hop
  have h0 : r.argAt 0 = BitVec.ofInt 8 (shiftRight data 8) := hr.arg 0 (by simp)
  have h1 : r.argAt 1 = BitVec.ofInt 8 (mask data 0xff#32) := hr.arg 1 (by simp)
  rw [PortData.beginActions, hop, ← word_bytes h h', ← h0, ← h1]
  rfl

theorem performs_gpioHigh (pin : Fin 8) :
    Performs p (newBuffer [Cmd.gpioHigh, pin]) [.level pin true] := by
  have has : (Operation.level pin true).actions = some [.pin .high pin, .pin .output pin] := rfl
  refine performs_actions hs rfl rfl rfl has rfl (fun _ => rfl) ?_
  intro r hr hop
  have hp := selectedPin_of_arg pin (hr.arg 0 (by simp))
  rw [PortData.beginActions, hop, ← hp]

theorem performs_gpioLow (pin : Fin 8) :
    Performs p (newBuffer [Cmd.gpioLow, pin]) [.level pin false] := by
  have has : (Operation.level pin false).actions = some [.pin .low pin, .pin .output pin] := rfl
  refine performs_actions hs rfl rfl rfl has rfl (fun _ => rfl) ?_
  intro r hr hop
  have hp := selectedPin_of_arg pin (hr.arg 0 (by simp))
  rw [PortData.beginActions, hop, ← hp]

theorem performs_pull (pin : Fin 8) (pullType : PullType) :
    Performs p (newBuffer [Cmd.gpioPull, (Pin.bits pin ||| pullType.mode <<< 4).toInt])
      [.pull pin pullType] := by
  have has : (Operation.pull pin pullType).actions = some [.pin pullType.op pin] := rfl
  have hpin : ∀ pin : Fin 8,
      (BitVec.ofInt 8 (Pin.bits pin ||| pullType.mode <<< 4).toInt &&& 0x7#8).toNat = pin := by
    cases pullType <;> decide
  have hmode : ∀ pin : Fin 8,
      BitVec.ofInt 8 (Pin.bits pin ||| pullType.mode <<< 4).toInt >>> 4 =
        pullType.mode.setWidth 8 := by
    cases pullType <;> decide
  refine performs_command hs rfl rfl rfl has rfl (fun _ => rfl) ?_
  intro r hr hop
  have h0 : r.argAt 0 = BitVec.ofInt 8 (Pin.bits pin ||| pullType.mode <<< 4).toInt :=
    hr.arg 0 (by simp)
  have hp := hpin pin
  have hm := hmode pin
  rw [← h0] at hp hm
  have hpull : (r.emit (.exec r.cmd)).gpioPull = (r.emit (.exec r.cmd)).gpio pullType.op pin := by
    have hp' : ((r.emit (.exec r.cmd)).argAt 0 &&& 0x7#8).toNat = pin := hp
    have hm' : (r.emit (.exec r.cmd)).argAt 0 >>> 4 = pullType.mode.setWidth 8 := hm
    rw [PortData.gpioPull, hp', hm']
    cases pullType <;> rfl
  simp only [PortData.begun, PortData.beginCmd, PortData.opcode_emit, hop]
  rw [hpull]
  exact List.append_assoc r.effects [_] [_]

/-- `CMD_GPIO_INT` on a pin with an interrupt. -/
theorem performs_interrupt {name : PortName} (hport : p.port = name.board) {pin : Fin 8}
    (hpin : Pin.supportsInt pin) (mode : Option IntMode) :
    Performs p (newBuffer [Cmd.gpioInt, (Pin.bits pin ||| Pin.interruptBits mode).toInt])
      [.interrupt pin mode] := by
  have hsup : ∀ pin : Fin 8, Pin.supportsInt pin →
      name.board.pinSupportsInterrupt pin = true := by
    cases name <;> decide
  obtain ⟨as, has, hmode⟩ : ∃ as, (Operation.interrupt pin mode).actions = some as ∧
      ∀ m, PortData.modeAfter (some .gpioInt) m = (Operation.interrupt pin mode).mode m := by
    cases mode with
    | some mode => exact ⟨_, rfl, fun _ => rfl⟩
    | none => exact ⟨_, rfl, fun _ => rfl⟩
  refine performs_command hs rfl rfl rfl has rfl hmode ?_
  intro r hr hop
  have hr' : (r.emit (.exec r.cmd)).port = name.board := hr.port.trans hport
  obtain ⟨hp, hm⟩ := interruptBits_decode pin mode
  have h0 : (r.emit (.exec r.cmd)).argAt 0 =
    BitVec.ofInt 8 (Pin.bits pin ||| Pin.interruptBits mode).toInt := hr.arg 0 (by simp)
  rw [← h0] at hp hm
  have hassoc (e e' : Effect) : r.effects ++ [.exec r.cmd] ++ [e] ++ [e'] =
      r.effects ++ .exec r.cmd :: [e, e'] := by
    simp
  simp only [PortData.begun, PortData.beginCmd, PortData.opcode_emit, hop, PortData.gpioInt]
  rw [hp, hm, if_pos (by rw [PortData.check]; exact hr' ▸ hsup pin hpin)]
  cases mode with
  | some mode =>
    obtain rfl := Option.some.inj has
    rw [if_pos (by cases mode <;> decide)]
    exact hassoc _ _
  | none =>
    obtain rfl := Option.some.inj has
    exact hassoc _ _

/-- `CMD_GPIO_INT` on another pin is ignored. -/
theorem performs_interrupt_none {name : PortName} (hport : p.port = name.board) {pin : Fin 8}
    (hpin : Pin.supportsInt pin = false) (mode : Option IntMode) :
    Performs p (newBuffer [Cmd.gpioInt, (Pin.bits pin ||| Pin.interruptBits mode).toInt]) [] := by
  have hsup : ∀ pin : Fin 8, Pin.supportsInt pin = false →
      name.board.pinSupportsInterrupt pin = false := by
    cases name <;> decide
  refine performs_packet hs rfl rfl rfl rfl (fun _ => rfl) ?_
  intro r hr hop
  have hr' : (r.emit (.exec r.cmd)).port = name.board := hr.port.trans hport
  obtain ⟨hp, hm⟩ := interruptBits_decode pin mode
  have h0 : (r.emit (.exec r.cmd)).argAt 0 =
    BitVec.ofInt 8 (Pin.bits pin ||| Pin.interruptBits mode).toInt := hr.arg 0 (by simp)
  rw [← h0] at hp hm
  simp only [PortData.begun, PortData.beginCmd, PortData.opcode_emit, hop, PortData.gpioInt]
  rw [hp, hm, if_neg (by rw [PortData.check]; simpa using hr' ▸ hsup pin hpin)]
  rfl

/-- `CMD_NOP` does nothing. -/
theorem performs_nop : Performs p (newBuffer [Cmd.cmdDisableSpi]) [] := by
  refine performs_packet hs rfl rfl rfl rfl (fun _ => rfl) ?_
  intro r hr hop
  have has : r.beginActions = some [] := by rw [PortData.beginActions, hop]
  exact PortData.effects_begun has

/-- The ECHO of `sync` replies what its callback waits for. -/
theorem performs_echo : Performs p (newBuffer [Cmd.echo, 1, 0x88]) [.sync] := by
  have hargs : [1#8].length = portCmdArgs (PortCmd.ofByte 2#8) := rfl
  obtain ⟨r, hr, heq⟩ := PortData.consumeAll_continue hs hargs rfl (by decide)
  have hop : r.opcode = some .echo := hr.opcode
  have hbegun : r.begun =
      { (r.emit (.exec r.cmd)).appendByte replyData with state := .exec } := by
    have hlen : ¬ bridgeBufSize ≤ (r.emit (.exec r.cmd)).replyLen := by
      show ¬ bridgeBufSize ≤ r.replyLen
      rw [hr.replyLen]
      decide
    simp only [PortData.begun, PortData.beginCmd, PortData.opcode_emit, hop, PortData.sendStatus,
      if_neg hlen]
    rfl
  have harg : r.begun.argAt 0 = 1#8 := by
    rw [hbegun]
    exact hr.arg 0 (by simp)
  have hstate : r.begun.state = .exec := by rw [hbegun]
  have hbop : r.begun.opcode = some .echo := by
    rw [hbegun]
    exact hop
  have hserves : PortData.serves r.begun.opcode r.begun.mode := by
    rw [hbop]
    rfl
  obtain ⟨-, -, -, hmode, -, hdone⟩ := PortData.consume_payload hstate hserves
    (by rw [hbop]; decide) (by rw [harg]; decide) 0x88#8
  have heff := PortData.effects_consume_echo hstate hbop (by rw [harg]; decide) 0x88#8
  have hbytes : newBuffer [Cmd.echo, 1, 0x88] = [2#8, 1#8] ++ [0x88#8] := rfl
  have hall : p.consumeAll (newBuffer [Cmd.echo, 1, 0x88]) = r.begun.consume 0x88#8 := by
    rw [hbytes, PortData.consumeAll_append, heq, PortData.consumeAll_cons, PortData.consumeAll_nil]
  refine ⟨[.reply replyData, .reply 0x88#8], rfl, ?_, ?_, ?_⟩
  · rw [hall, hdone, harg]
    rfl
  · have hcmd : r.begun.effects = p.effects ++ [.exec r.cmd] ++ [.reply replyData] := by
      rw [hbegun, ← hr.effects]
      rfl
    rw [hall, history, heff, hcmd]
    simp [history, isMark]
  · rw [hall, hmode, hbegun]
    exact hr.mode

end Commands

end Node

end TesselFirmware
