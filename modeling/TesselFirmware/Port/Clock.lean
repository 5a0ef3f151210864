import TesselFirmware.Port.Reference

/-!
# The clock of the UART and I2C peripheral (`common/clock.c`, `common/sercom.c`)

The two SERCOMs of a port are attached to one clock generator.  `CMD_ENABLE_SPI` sets its divider,
and nothing sets it back for the other SERCOM.

* `PeripheralCommand.undivided_iff` : whenever the port is in UART or I2C mode the clock is not
  divided, exactly if neither mode is enabled while the last `CMD_ENABLE_SPI` has asked for a
  divider;
* `PeripheralCommand.not_undivided_slowSpi` : a UART that is enabled after a slow SPI has a slow
  clock.
-/

namespace TesselFirmware

/-! ### Clock generators -/

/-- The generators, and the SERCOMs of one port. -/
structure Clocks where
  /-- `GENDIV.DIV` of each generator; `DIVSEL` is 0. -/
  genDiv : ℕ → Byte
  /-- The generator that a SERCOM is attached to. -/
  generator : Sercom → Option ℕ

namespace Clocks

variable (c : Clocks)

/-- The clocks after a reset of the MCU. -/
def init : Clocks := ⟨fun _ => 0#8, fun _ => none⟩

/-- `gclk_enable`, for a generator whose divider has eight bits. -/
def gclkEnable (id : ℕ) (div : Byte) : Clocks := { c with genDiv := Function.update c.genDiv id div }

/-- `sercom_clock_enable`. -/
def sercomClockEnable (id : Sercom) (clockChannel : ℕ) (divider : Byte) : Clocks :=
  let c := if clockChannel ≠ 0 then c.gclkEnable clockChannel divider else c
  { c with generator := Function.update c.generator id (some clockChannel) }

/-- What an effect of a port does to the clocks. -/
def follow (clockChannel : ℕ) : Effect → Clocks
  | .action (.sercomClockEnable id divider) => c.sercomClockEnable id clockChannel divider
  | _ => c

/-- The division factor of a generator; 0 does not divide. -/
def divisionFactor (id : ℕ) : ℕ := if c.genDiv id = 0#8 then 1 else (c.genDiv id).toNat

end Clocks

/-- `GCLK_PORT_A` and `GCLK_PORT_B`. -/
def clockChannel (i : Fin 2) : ℕ := if i = 0 then 3 else 4

/-- The commands that enable and disable a peripheral, with their argument bytes. -/
inductive PeripheralCommand
  | enableSpi (mode baud divider : Byte)
  | disableSpi
  | enableI2c (baud : Byte)
  | disableI2c
  | enableUart (high low : Byte)
  | disableUart
  deriving DecidableEq, Repr

namespace PortData

/-- The clocks that the port has set up. -/
def clocks (i : Fin 2) (p : PortData) : Clocks :=
  p.effects.foldl (Clocks.follow · (clockChannel i)) .init

/-- In UART and I2C mode the clock of the peripheral is not divided. -/
def Undivided (i : Fin 2) (p : PortData) : Prop :=
  p.mode = .uart ∨ p.mode = .i2c →
    ∃ id, (p.clocks i).generator .uartI2c = some id ∧ (p.clocks i).divisionFactor id = 1

end PortData

namespace PeripheralCommand

/-- The command as the host sends it. -/
def bytes : PeripheralCommand → List Byte
  | enableSpi mode baud divider => [10#8, mode, baud, divider]
  | disableSpi => [11#8]
  | enableI2c baud => [12#8, baud]
  | disableI2c => [13#8]
  | enableUart high low => [14#8, high, low]
  | disableUart => [15#8]

/-- The command enables the UART or I2C peripheral. -/
def isUartI2c : PeripheralCommand → Bool
  | enableI2c _ | enableUart _ _ => true
  | _ => false

/-- The divider that the command asks for. -/
def divider : PeripheralCommand → Option Byte
  | enableSpi _ _ divider => some divider
  | _ => none

/-- The mode after the command. -/
def mode : PeripheralCommand → PortMode
  | enableSpi .. => .spi
  | enableI2c _ => .i2c
  | enableUart .. => .uart
  | _ => .none

/-- The divider that was asked for last. -/
def lastDivider (cs : List PeripheralCommand) : Option Byte := (cs.filterMap divider).getLast?

/-- A port that has executed some commands. -/
def run (p : PortData) (cs : List PeripheralCommand) : PortData := p.consumeAll (cs.flatMap bytes)

/-- The port has been initialized and enabled. -/
def started (i : Fin 2) (answers : ℕ → BitVec 16) : PortData :=
  (PortData.init (if i = 0 then portA else portB) answers).enable

variable {p : PortData} {i : Fin 2} {cs : List PeripheralCommand} {c : PeripheralCommand}

/-! ### The commands one by one -/

/-- A command whose actions are `as`. -/
theorem consumeAll_acts (hs : p.state = .readCmd) (op : Byte) (args : List Byte)
    (as : List Action) (hlen : args.length = portCmdArgs (PortCmd.ofByte op))
    (hst : PortData.statusOf (PortCmd.ofByte op) = .done)
    (has : ∀ r : PortData, PortData.Loaded p op args r → r.beginActions = some as) :
    (p.consumeAll (op :: args)).state = .readCmd ∧
      (p.consumeAll (op :: args)).mode = PortData.modeAfter (PortCmd.ofByte op) p.mode ∧
      (p.consumeAll (op :: args)).clocks i =
        (as.map Effect.action).foldl (Clocks.follow · (clockChannel i)) (p.clocks i) := by
  obtain ⟨r, hr, heq⟩ := PortData.consumeAll_done hs hlen hst
  rw [heq, PortData.state_begun, PortData.mode_begun, hr.opcode, hst, hr.mode, PortData.clocks,
    hr.effects_begun (has r hr), List.foldl_append, hr.effects]
  exact ⟨rfl, rfl, rfl⟩

/-- **What a command does** to the clocks. -/
theorem consumeAll_bytes (hs : p.state = .readCmd) (c : PeripheralCommand) :
    (p.consumeAll c.bytes).state = .readCmd ∧ (p.consumeAll c.bytes).mode = c.mode ∧
      (p.consumeAll c.bytes).clocks i =
        match c.divider with
        | some d => (p.clocks i).sercomClockEnable .spi (clockChannel i) d
        | none => p.clocks i := by
  cases c with
  | enableSpi mode baud divider =>
    refine consumeAll_acts hs 10#8 [mode, baud, divider]
      [.sercomClockEnable .spi divider, .spiMasterInit (Byte.has mode 0) (Byte.has mode 1) baud,
        .dmaConfigure .tx .spi, .dmaConfigure .rx .spi, .dmaEnableInterrupt .rx,
        .pin .mux mosi, .pin .mux miso, .pin .mux sck]
      rfl rfl fun r hr => ?_
    have h0 : r.argAt 0 = mode := hr.arg 0 (by simp)
    have h1 : r.argAt 1 = baud := hr.arg 1 (by simp)
    have h2 : r.argAt 2 = divider := hr.arg 2 (by simp)
    rw [PortData.beginActions, hr.opcode, h0, h1, h2]
    rfl
  | disableSpi =>
    refine consumeAll_acts hs 11#8 []
      [.pin .gpio mosi, .pin .gpio miso, .pin .gpio sck]
      rfl rfl fun r hr => ?_
    rw [PortData.beginActions, hr.opcode]
    rfl
  | enableI2c baud =>
    refine consumeAll_acts hs 12#8 [baud]
      [.i2cMasterInit baud, .pin .mux sda, .pin .mux scl, .i2cEnableError]
      rfl rfl fun r hr => ?_
    have h0 : r.argAt 0 = baud := hr.arg 0 (by simp)
    rw [PortData.beginActions, hr.opcode, h0]
    rfl
  | disableI2c =>
    refine consumeAll_acts hs 13#8 []
      [.pin .gpio sda, .pin .gpio scl]
      rfl rfl fun r hr => ?_
    rw [PortData.beginActions, hr.opcode]
    rfl
  | enableUart high low =>
    refine consumeAll_acts hs 14#8 [high, low]
      [.pin .mux tx, .pin .mux rx, .uartInit (high ++ low), .dmaConfigure .tx .uartI2c,
        .dmaEnableInterrupt .tx, .uartEnableRxc, .tccDelayEnable]
      rfl rfl fun r hr => ?_
    have hword : r.argWord 0 = high ++ low := hr.argWord (by simp)
    rw [PortData.beginActions, hr.opcode, hword]
    rfl
  | disableUart =>
    refine consumeAll_acts hs 15#8 []
      [.uartDisableRxc, .tccDelayDisable, .pin .gpio tx, .pin .gpio rx]
      rfl rfl fun r hr => ?_
    rw [PortData.beginActions, hr.opcode]
    rfl

/-! ### Sequences of commands -/

theorem run_concat (p : PortData) (cs : List PeripheralCommand) (c : PeripheralCommand) :
    run p (cs ++ [c]) = (run p cs).consumeAll c.bytes := by
  rw [run, List.flatMap_append, PortData.consumeAll_append]
  show _ = (p.consumeAll (cs.flatMap bytes)).consumeAll c.bytes
  rw [List.flatMap_singleton]

theorem lastDivider_concat (cs : List PeripheralCommand) (c : PeripheralCommand) :
    lastDivider (cs ++ [c]) = c.divider.or (lastDivider cs) := by
  unfold lastDivider
  rw [List.filterMap_append]
  cases h : c.divider with
  | none => simp [h]
  | some d => simp [h]

/-- The divider of the generator of a port, which is 1 before the first `CMD_ENABLE_SPI`. -/
def clockDivider (cs : List PeripheralCommand) : Byte := (lastDivider cs).getD 1#8

/-- What a sequence of commands leaves. -/
structure Attached (i : Fin 2) (cs : List PeripheralCommand) (p : PortData) : Prop where
  state : p.state = .readCmd
  mode : p.mode = (cs.getLast?.map mode).getD .none
  generator : (p.clocks i).generator .uartI2c = some (clockChannel i)
  genDiv : (p.clocks i).genDiv (clockChannel i) = clockDivider cs

theorem clockChannel_ne_zero (i : Fin 2) : clockChannel i ≠ 0 := by
  unfold clockChannel
  split_ifs
  · decide
  · decide

/-- `sercom_clock_enable` for the SPI sets the divider of the generator of both SERCOMs. -/
theorem sercomClockEnable_spi (k : Clocks) (d : Byte) :
    (k.sercomClockEnable .spi (clockChannel i) d).generator .uartI2c = k.generator .uartI2c ∧
      (k.sercomClockEnable .spi (clockChannel i) d).genDiv (clockChannel i) = d := by
  rw [Clocks.sercomClockEnable, if_pos (clockChannel_ne_zero i)]
  have hne : Sercom.uartI2c ≠ .spi := by decide
  constructor
  · exact Function.update_of_ne hne (some (clockChannel i)) k.generator
  · exact Function.update_self (clockChannel i) d k.genDiv

theorem attached_started (i : Fin 2) (answers : ℕ → BitVec 16) :
    Attached i [] (started i answers) := by
  obtain rfl | rfl : i = 0 ∨ i = 1 := by omega
  · exact ⟨rfl, rfl, rfl, rfl⟩
  · exact ⟨rfl, rfl, rfl, rfl⟩

theorem Attached.concat (h : Attached i cs p) (c : PeripheralCommand) :
    Attached i (cs ++ [c]) (p.consumeAll c.bytes) := by
  obtain ⟨hstate, hmode, hclocks⟩ := consumeAll_bytes (i := i) h.state c
  have hlast : ((cs ++ [c]).getLast?.map PeripheralCommand.mode).getD .none = c.mode := by
    rw [List.getLast?_concat]
    rfl
  have hdiv : clockDivider (cs ++ [c]) = (c.divider.or (lastDivider cs)).getD 1#8 :=
    congrArg (Option.getD · 1#8) (lastDivider_concat cs c)
  cases hd : c.divider with
  | none =>
    rw [hd] at hclocks hdiv
    exact ⟨hstate, hmode.trans hlast.symm, hclocks ▸ h.generator, hclocks ▸ hdiv ▸ h.genDiv⟩
  | some d =>
    rw [hd] at hclocks hdiv
    obtain ⟨hgen, hdivider⟩ := sercomClockEnable_spi (i := i) (p.clocks i) d
    refine ⟨hstate, hmode.trans hlast.symm, ?_, ?_⟩
    · rw [hclocks]
      exact hgen.trans h.generator
    · rw [hclocks, hdiv]
      exact hdivider

theorem attached_run (i : Fin 2) (answers : ℕ → BitVec 16) (cs : List PeripheralCommand) :
    Attached i cs (run (started i answers) cs) := by
  induction cs using List.reverseRecOn with
  | nil => exact attached_started i answers
  | append_singleton cs c ih =>
    rw [run_concat]
    exact ih.concat c

theorem divisionFactor_eq_one (k : Clocks) (id : ℕ) :
    k.divisionFactor id = 1 ↔ (k.genDiv id).toNat ≤ 1 := by
  unfold Clocks.divisionFactor
  split_ifs with h
  · rw [h]
    exact iff_of_true rfl (by decide)
  · have hne : (k.genDiv id).toNat ≠ 0 := fun h0 => h (BitVec.eq_of_toNat_eq h0)
    omega

/-- The clock of a port that has executed some commands. -/
theorem Attached.undivided (h : Attached i cs p) :
    p.Undivided i ↔
      (p.mode = .uart ∨ p.mode = .i2c → (clockDivider cs).toNat ≤ 1) := by
  refine imp_congr_right fun _ => ?_
  rw [← h.genDiv, ← divisionFactor_eq_one]
  constructor
  · rintro ⟨id, hid, hfactor⟩
    obtain rfl : clockChannel i = id := Option.some.inj (h.generator.symm.trans hid)
    exact hfactor
  · exact fun hfactor => ⟨_, h.generator, hfactor⟩

theorem mode_uartI2c (c : PeripheralCommand) :
    c.mode = .uart ∨ c.mode = .i2c ↔ c.isUartI2c := by
  cases c <;> simp [PeripheralCommand.mode, isUartI2c]

/-- A command that enables the UART or the I2C has no divider. -/
theorem divider_of_isUartI2c (h : c.isUartI2c) : c.divider = none := by
  cases c with
  | enableSpi mode baud divider => cases h
  | disableSpi => cases h
  | enableI2c baud => rfl
  | disableI2c => cases h
  | enableUart high low => rfl
  | disableUart => cases h

/-- **The clock of the UART and I2C peripheral.**  In a run of enable and disable commands on one
port, from the time at which it is enabled, the clock of the UART and I2C peripheral is undivided
whenever one of them is enabled, exactly if neither is enabled while the last `CMD_ENABLE_SPI` has
asked for a divider above 1. -/
theorem undivided_iff (i : Fin 2) (answers : ℕ → BitVec 16) (cs : List PeripheralCommand) :
    (∀ ds, ds <+: cs → (run (started i answers) ds).Undivided i) ↔
      ∀ ds c, ds ++ [c] <+: cs → c.isUartI2c →
        ∀ divider, lastDivider ds = some divider → divider.toNat ≤ 1 := by
  -- after the last command of a prefix, the mode is that of this command
  have hconcat (ds : List PeripheralCommand) (c : PeripheralCommand) :
      (run (started i answers) (ds ++ [c])).Undivided i ↔
        (c.isUartI2c → ∀ divider, lastDivider ds = some divider → divider.toNat ≤ 1) := by
    have h := attached_run i answers (ds ++ [c])
    have hmode : (run (started i answers) (ds ++ [c])).mode = c.mode := by
      rw [h.mode, List.getLast?_concat]
      rfl
    rw [h.undivided, hmode, mode_uartI2c]
    refine imp_congr_right fun hc => ?_
    rw [clockDivider, lastDivider_concat, divider_of_isUartI2c hc, Option.none_or]
    cases hlast : lastDivider ds with
    | none => simp
    | some d => simp
  constructor
  · intro h ds c hds
    exact (hconcat ds c).1 (h _ hds)
  · intro h ds hds
    rcases List.eq_nil_or_concat' ds with rfl | ⟨ds, c, rfl⟩
    · have hnil := attached_run i answers []
      refine hnil.undivided.2 fun hmode => ?_
      rw [hnil.mode] at hmode
      exact absurd hmode (by decide)
    · exact (hconcat ds c).2 (h ds c hds)

/-- A slow SPI, and then a UART. -/
def slowSpi : List PeripheralCommand :=
  [.enableSpi 0#8 0xFF#8 0x02#8, .disableSpi, .enableUart 0xF6#8 0x2B#8]

/-- The UART has half of the rate that the host has asked for. -/
theorem not_undivided_slowSpi :
    ¬ ∀ (i : Fin 2) (answers : ℕ → BitVec 16) (cs : List PeripheralCommand),
      (run (started i answers) cs).Undivided i := by
  intro hall
  have h := attached_run 0 (fun _ => 0#16) slowSpi
  have hdivider := h.undivided.1 (hall 0 _ slowSpi) (.inl h.mode)
  exact absurd hdivider (by decide)

end PeripheralCommand

end TesselFirmware
