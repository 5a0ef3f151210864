import TesselFirmware.Port.Reference

/-!
# The counters for PWM and for UART timeouts (`common/pwm.c`, `common/timer.c`)

A TCC is a counter with its registers, of which `Tcc` has the fields that the firmware writes; a
register holds what was last written to it, and a software reset clears all of them.  The
functions of `pwm.c` and `timer.c` are functions of `Timers`, the counters with the globals of
`pwm.c`.

Both ports share the counters.  `Boards` is the two ports with the counters: the actions that a
port takes while it executes a command, or while it handles a byte that its UART has received, are
performed on the counters in order.
-/

namespace TesselFirmware

/-! ### The registers -/

/-- One TCC. -/
@[ext]
structure Tcc where
  /-- `CTRLA.ENABLE`, `CTRLA.PRESCALER` and `CTRLA.PRESCSYNC`. -/
  enable : Bool
  prescaler : BitVec 3
  prescSync : BitVec 2
  /-- `CTRLB.DIR` (count down) and `CTRLB.ONESHOT`. -/
  dir : Bool
  oneshot : Bool
  /-- `WAVE.WAVEGEN`. -/
  wavegen : BitVec 3
  per : BitVec 24
  cc : ℕ → BitVec 24
  /-- `INTENSET.OVF`. -/
  ovf : Bool
  /-- The counter, and whether it is counting. -/
  count : ℕ
  running : Bool
  /-- `INTFLAG.OVF`. -/
  overflow : Bool

/-- `TCC_CTRLA_PRESCALER_DIV256`. -/
def prescalerDiv256 : BitVec 3 := 6#3

/-- `TCC_CTRLA_PRESCSYNC_PRESC_Val`. -/
def prescSyncPresc : BitVec 2 := 1#2

/-- `TCC_WAVE_WAVEGEN_NPWM`. -/
def wavegenNpwm : BitVec 3 := 2#3

namespace Tcc

variable (t : Tcc)

/-- After a software reset all registers are clear. -/
def reset : Tcc where
  enable := false
  prescaler := 0#3
  prescSync := 0#2
  dir := false
  oneshot := false
  wavegen := 0#3
  per := 0#24
  cc := fun _ => 0#24
  ovf := false
  count := 0
  running := false
  overflow := false

/-- One cycle of the prescaled clock. -/
def tick : Tcc :=
  if t.enable ∧ t.running ∧ t.dir then
    if t.count = 0 then { t with overflow := true, running := !t.oneshot, count := t.per.toNat }
    else { t with count := t.count - 1 }
  else t

end Tcc

/-- `TimerId`. -/
abbrev TimerId := ℕ

/-- The counters, the clocks that `timer_clock_enable` has switched on, and the globals of
`pwm.c`. -/
structure Timers where
  tcc : TimerId → Tcc
  clocked : TimerId → Bool
  bankPeriod : BitVec 16
  bankPrescalar : Byte

namespace Timers

variable (s : Timers) (id : TimerId)

/-- The counters after a reset of the MCU. -/
def init : Timers := ⟨fun _ => .reset, fun _ => false, 0#16, 0#8⟩

/-- The registers of a counter are written. -/
def modify (f : Tcc → Tcc) : Timers := { s with tcc := Function.update s.tcc id (f (s.tcc id)) }

/-! ### `timer.c` -/

/-- `timer_clock_enable`. -/
def timerClockEnable : Timers := { s with clocked := Function.update s.clocked id true }

/-- `tcc_delay_start`. -/
def tccDelayStart (ticks : ℕ) : Timers :=
  s.modify id fun t =>
    let t := { t with per := BitVec.ofNat 24 ticks }
    { t with count := if t.dir then t.per.toNat else 0, running := true }

/-- `tcc_delay_disable`. -/
def tccDelayDisable : Timers := s.modify id fun t => { t with ovf := false, enable := false }

/-- `tcc_delay_enable`. -/
def tccDelayEnable : Timers :=
  (s.timerClockEnable id).modify id fun t =>
    let t := { t with enable := false, prescaler := prescalerDiv256, prescSync := 0#2 }
    let t := { t with dir := true, oneshot := true }
    { t with enable := true, ovf := true }

/-! ### `pwm.c` -/

/-- `pwm_bank_disable`. -/
def pwmBankDisable : Timers := s.modify id fun t => { t with enable := false }

/-- `pwm_bank_reset`. -/
def pwmBankReset : Timers := (s.pwmBankDisable id).modify id fun _ => .reset

/-- `pwm_bank_set_period`.  `CTRLA.PRESCALER` has three bits. -/
def pwmBankSetPeriod (newPrescalar : Byte) (newPeriod : BitVec 16) : Timers :=
  let s := { s with bankPeriod := newPeriod, bankPrescalar := newPrescalar }
  (s.pwmBankDisable id).modify id fun t =>
    { t with
      prescaler := s.bankPrescalar.setWidth 3
      prescSync := prescSyncPresc
      per := s.bankPeriod.setWidth 24 }

/-- `pwm_bank_enable`. -/
def pwmBankEnable : Timers :=
  let s := (s.pwmBankReset id).timerClockEnable id
  let s := s.modify id fun t => { t with wavegen := t.wavegen ||| wavegenNpwm }
  let s := s.pwmBankSetPeriod id s.bankPrescalar s.bankPeriod
  s.modify id fun t => { t with enable := true }

/-- `pwm_set_pin_duty` for a pin with the given `tcc_id` and `cc_chan`. -/
def pwmSetPinDuty (ccChan : ℕ) (dutyCycle : BitVec 16) : Timers :=
  let s := if (s.tcc id).enable then s else s.pwmBankEnable id
  s.modify id fun t => { t with cc := Function.update t.cc ccChan (dutyCycle.setWidth 24) }

/-! ### The ports -/

/-- `TCC_PORT_A` and `TCC_PORT_B`. -/
def tccChannel (i : Fin 2) : TimerId := if i = 0 then 2 else 0

/-- `tcc_id` and `cc_chan` of the pins of a port; they are 0 where the table does not name them. -/
def pwmOutput (i : Fin 2) (pin : ℕ) : TimerId × ℕ :=
  if i = 0 then if pin = rx then (0, 1) else (0, 0)
  else if pin = tx then (0, 2) else if pin = rx then (0, 3) else (0, 0)

/-- What an action of a port does to the counters. -/
def perform (i : Fin 2) : Action → Timers
  | .pin (.pwmDuty duty) pin => s.pwmSetPinDuty (pwmOutput i pin).1 (pwmOutput i pin).2 duty
  | .pwmPeriod tcc prescalar period => s.pwmBankSetPeriod tcc.toNat prescalar period
  | .tccDelayEnable => s.tccDelayEnable (tccChannel i)
  | .tccDelayDisable => s.tccDelayDisable (tccChannel i)
  | .tccDelayStart ticks => s.tccDelayStart (tccChannel i) ticks
  | _ => s

/-- What an effect of a port does to the counters. -/
def follow (i : Fin 2) : Effect → Timers
  | .action a => s.perform i a
  | _ => s

end Timers

/-! ### Two ports and the counters -/

/-- The two ports and the counters. -/
structure Boards where
  ports : Fin 2 → PortData
  timers : Timers

/-- What makes a port take actions. -/
inductive BoardEvent
  /-- The bytes of a command of the host are executed. -/
  | command (i : Fin 2) (bs : List Byte)
  /-- The UART of a port has received a byte. -/
  | byte (i : Fin 2) (b : Byte)
  deriving DecidableEq, Repr

namespace Boards

variable (s : Boards)

/-- The port has become `p`, and the counters follow what it did. -/
def update (i : Fin 2) (p : PortData) : Boards where
  ports := Function.update s.ports i p
  timers := (p.effects.drop (s.ports i).effects.length).foldl (Timers.follow · i) s.timers

def handle : BoardEvent → Boards
  | .command i bs => s.update i ((s.ports i).consumeAll bs)
  | .byte i b => s.update i ((s.ports i).handleSercomUartI2c (some b) false)

/-- A run. -/
def handleAll (es : List BoardEvent) : Boards := es.foldl handle s

/-- The ports have just been enabled. -/
def started (answers : Fin 2 → ℕ → BitVec 16) : Boards where
  ports := fun i => (PortData.init (if i = 0 then portA else portB) (answers i)).enable
  timers := .init

/-- Both ports wait for a command. -/
def Ready : Prop := ∀ i, (s.ports i).state = .readCmd

variable {s} {i : Fin 2}

theorem Ready.update (h : s.Ready) {p : PortData} (hp : p.state = .readCmd) :
    (s.update i p).Ready := by
  intro j
  show (Function.update s.ports i p j).state = .readCmd
  by_cases hj : j = i
  · rw [hj, Function.update_self]
    exact hp
  · rw [Function.update_of_ne hj]
    exact h j

/-- A command without a payload has been loaded as `r`, and is begun. -/
theorem handle_command (h : s.Ready) (i : Fin 2) (op : Byte) (args : List Byte)
    (hlen : args.length = portCmdArgs (PortCmd.ofByte op))
    (hst : PortData.statusOf (PortCmd.ofByte op) = .done) :
    ∃ r, PortData.Loaded (s.ports i) op args r ∧ (s.handle (.command i (op :: args))).Ready ∧
      (s.handle (.command i (op :: args))).ports = Function.update s.ports i r.begun ∧
        ∀ as : List Action, r.beginActions = some as →
          (s.handle (.command i (op :: args))).timers =
            as.foldl (Timers.perform · i) s.timers := by
  obtain ⟨r, hr, heq⟩ := PortData.consumeAll_done (h i) hlen hst
  have hstate : r.begun.state = .readCmd := by
    rw [PortData.state_begun, hr.opcode, hst]
    rfl
  have hhandle : s.handle (.command i (op :: args)) = s.update i r.begun := by
    rw [handle, heq]
  rw [hhandle]
  refine ⟨r, hr, h.update hstate, rfl, fun as has => ?_⟩
  show (r.begun.effects.drop (s.ports i).effects.length).foldl _ _ = _
  rw [hr.effects_begun has, hr.effects, List.drop_left, List.foldl_cons, List.foldl_map]
  rfl

/-- The mode after a command without a payload. -/
theorem mode_command (h : s.Ready) (i : Fin 2) (op : Byte) (args : List Byte)
    (hlen : args.length = portCmdArgs (PortCmd.ofByte op))
    (hst : PortData.statusOf (PortCmd.ofByte op) = .done) (j : Fin 2) :
    ((s.handle (.command i (op :: args))).ports j).mode =
      if j = i then PortData.modeAfter (PortCmd.ofByte op) (s.ports i).mode
      else (s.ports j).mode := by
  obtain ⟨r, hr, -, hports, -⟩ := handle_command h i op args hlen hst
  rw [hports]
  split_ifs with hj
  · rw [hj, Function.update_self, PortData.mode_begun, PortData.opcode, hr.cmd, hr.mode]
  · rw [Function.update_of_ne hj]

end Boards

end TesselFirmware
