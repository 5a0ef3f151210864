import TesselFirmware.Timer.Basic

/-!
# PWM settings

The PWM commands of both ports act on TCC 0.  `pwm_bank_set_period` stops the counter, and
`pwm_set_pin_duty` starts it again when the next duty is set, through a reset that clears the
compare registers of all pins.

* `PwmCommand.persists_iff` : after every command of a sequence the settings are those of the last
  commands for them, exactly if no period is set after a duty, and every prescaler number is one of
  the eight that `CTRLA.PRESCALER` can hold;
* `PwmCommand.not_persists_changePeriod` : a period that is set after a duty stops the PWM.
-/

namespace TesselFirmware

/-- The pins with a PWM output. -/
inductive PwmPin
  | tx
  | rx
  deriving DecidableEq, Repr

/-- The place of the pin in `gpio`. -/
def PwmPin.index : PwmPin → Byte
  | tx => 5#8
  | rx => 6#8

/-- A PWM command on one of the ports, with its argument bytes. -/
inductive PwmCommand
  | period (i : Fin 2) (setting high low : Byte)
  | dutyCycle (i : Fin 2) (pin : PwmPin) (high low : Byte)
  deriving DecidableEq, Repr

namespace PwmCommand

/-- The command as the host sends it. -/
def event : PwmCommand → BoardEvent
  | period i setting high low => .command i [28#8, setting, high, low]
  | dutyCycle i pin high low => .command i [27#8, pin.index, high, low]

/-- The command is for TCC 0, as all PWM pins are. -/
def onTcc0 : PwmCommand → Bool
  | period _ setting _ _ => setting &&& 0x7#8 == 0#8
  | dutyCycle .. => true

def isDuty : PwmCommand → Bool
  | period .. => false
  | dutyCycle .. => true

/-- The prescaler number and the period that the command sets. -/
def bankSetting : PwmCommand → Option (Byte × BitVec 16)
  | period _ setting high low => some (setting >>> 4, high ++ low)
  | dutyCycle .. => none

/-- The duty that the command sets for a pin. -/
def dutyOf (i : Fin 2) (pin : PwmPin) : PwmCommand → Option (BitVec 16)
  | period .. => none
  | dutyCycle i' pin' high low => if i' = i ∧ pin' = pin then some (high ++ low) else none

/-- The prescaler number is one of `TCC_CTRLA_PRESCALER`. -/
def prescalarFits (c : PwmCommand) : Bool := c.bankSetting.all fun setting => setting.1.toNat < 8

/-- The last period command of a sequence. -/
def lastBank (cs : List PwmCommand) : Option (Byte × BitVec 16) :=
  (cs.filterMap bankSetting).getLast?

/-- The last duty that a sequence gives to a pin. -/
def lastDuty (i : Fin 2) (pin : PwmPin) (cs : List PwmCommand) : Option (BitVec 16) :=
  (cs.filterMap (dutyOf i pin)).getLast?

/-- The compare register of a pin. -/
def channel (i : Fin 2) (pin : PwmPin) : ℕ := (Timers.pwmOutput i pin.index.toNat).2

theorem channel_inj (pin pin' : PwmPin) :
    ∀ i j : Fin 2, channel i pin = channel j pin' → i = j ∧ pin = pin' := by
  cases pin <;> cases pin' <;> decide

/-- All PWM outputs are those of TCC 0. -/
theorem tcc_pwmOutput (pin : PwmPin) :
    ∀ i : Fin 2, (Timers.pwmOutput i pin.index.toNat).1 = 0 := by
  cases pin <;> decide

/-- The counter has the settings of a sequence of commands. -/
structure Persists (cs : List PwmCommand) (t : Tcc) : Prop where
  bank : ∀ prescalar period, lastBank cs = some (prescalar, period) →
    t.per = period.setWidth 24 ∧ t.prescaler.toNat = prescalar.toNat
  enabled : cs.any isDuty → t.enable
  duty : ∀ i pin d, lastDuty i pin cs = some d → t.cc (channel i pin) = d.setWidth 24

/-! ### The commands one by one -/

variable {s : Boards} {cs : List PwmCommand} {c : PwmCommand}

/-- What a command does to the counters. -/
def apply (t : Timers) : PwmCommand → Timers
  | period _ setting high low => t.pwmBankSetPeriod 0 (setting >>> 4) (high ++ low)
  | dutyCycle i pin high low => t.pwmSetPinDuty 0 (channel i pin) (high ++ low)

/-- **A PWM command** is executed by the functions of `pwm.c`. -/
theorem handle_event (h : s.Ready) (hc : c.onTcc0) :
    (s.handle c.event).Ready ∧ (s.handle c.event).timers = apply s.timers c := by
  cases c with
  | period i setting high low =>
    obtain ⟨r, hr, hready, -, htimers⟩ :=
      Boards.handle_command h i 28#8 [setting, high, low] rfl rfl
    refine ⟨hready, ?_⟩
    have h0 : r.argAt 0 = setting := hr.arg 0 (by simp)
    have hword : r.argWord 1 = high ++ low := hr.argWord (by simp)
    have has : r.beginActions =
        some [.pwmPeriod (setting &&& 0x7#8) (setting >>> 4) (high ++ low)] := by
      rw [PortData.beginActions, hr.opcode, h0, hword]
      rfl
    have hzero : (setting &&& 0x7#8).toNat = 0 := by
      rw [beq_iff_eq.1 hc]
      rfl
    refine (htimers _ has).trans ?_
    show s.timers.pwmBankSetPeriod (setting &&& 0x7#8).toNat _ _ = _
    rw [hzero]
    rfl
  | dutyCycle i pin high low =>
    obtain ⟨r, hr, hready, -, htimers⟩ :=
      Boards.handle_command h i 27#8 [pin.index, high, low] rfl rfl
    refine ⟨hready, ?_⟩
    have h0 : r.argAt 0 = pin.index := hr.arg 0 (by simp)
    have hword : r.argWord 1 = high ++ low := hr.argWord (by simp)
    have has : r.beginActions = some [.pin (.pwmDuty (high ++ low)) pin.index.toNat] := by
      rw [PortData.beginActions, hr.opcode, h0, hword]
      rfl
    refine (htimers _ has).trans ?_
    show s.timers.pwmSetPinDuty (Timers.pwmOutput i pin.index.toNat).1 _ _ = _
    rw [tcc_pwmOutput]
    rfl

/-! ### Sequences of commands -/

/-- The counters after a sequence of commands. -/
def applyAll (t : Timers) (cs : List PwmCommand) : Timers := cs.foldl apply t

theorem applyAll_concat (t : Timers) (cs : List PwmCommand) (c : PwmCommand) :
    applyAll t (cs ++ [c]) = apply (applyAll t cs) c := by
  rw [applyAll, List.foldl_append]
  rfl

theorem timers_handleAll (cs : List PwmCommand) : ∀ s : Boards, s.Ready →
    (∀ c ∈ cs, c.onTcc0) → (s.handleAll (cs.map event)).timers = applyAll s.timers cs := by
  induction cs with
  | nil => exact fun _ _ _ => rfl
  | cons c cs ih =>
    intro s h hcs
    rw [List.forall_mem_cons] at hcs
    obtain ⟨hready, htimers⟩ := handle_event h hcs.1
    refine (ih (s.handle c.event) hready hcs.2).trans ?_
    rw [htimers]
    rfl

theorem lastBank_concat (cs : List PwmCommand) (c : PwmCommand) :
    lastBank (cs ++ [c]) = c.bankSetting.or (lastBank cs) := by
  unfold lastBank
  rw [List.filterMap_append]
  cases h : c.bankSetting with
  | none => simp [h]
  | some a => simp [h]

theorem lastDuty_concat (i : Fin 2) (pin : PwmPin) (cs : List PwmCommand) (c : PwmCommand) :
    lastDuty i pin (cs ++ [c]) = (c.dutyOf i pin).or (lastDuty i pin cs) := by
  unfold lastDuty
  rw [List.filterMap_append]
  cases h : c.dutyOf i pin with
  | none => simp [h]
  | some a => simp [h]

theorem dutyOf_of_not_isDuty (h : c.isDuty = false) (i : Fin 2) (pin : PwmPin) :
    c.dutyOf i pin = none := by
  cases c with
  | period i setting high low => rfl
  | dutyCycle i pin high low => cases h

/-- No pin has a duty before the first duty command. -/
theorem lastDuty_of_not_any (h : cs.any isDuty = false) (i : Fin 2) (pin : PwmPin) :
    lastDuty i pin cs = none := by
  unfold lastDuty
  rw [List.filterMap_eq_nil_iff.2 fun c hc => ?_]
  · rfl
  · exact dutyOf_of_not_isDuty (by simpa using List.any_eq_false.1 h c hc) i pin

/-! ### What each command leaves -/

/-- The settings that `pwm.c` remembers, and the registers, after a sequence of commands. -/
structure Settled (cs : List PwmCommand) (t : Timers) : Prop where
  remembered : ∀ prescalar period, lastBank cs = some (prescalar, period) →
    t.bankPrescalar = prescalar ∧ t.bankPeriod = period
  bank : ∀ prescalar period, lastBank cs = some (prescalar, period) →
    (t.tcc 0).per = period.setWidth 24 ∧ (t.tcc 0).prescaler = prescalar.setWidth 3
  enabled : cs ≠ [] → (t.tcc 0).enable = cs.any isDuty
  duty : ∀ i pin d, lastDuty i pin cs = some d → (t.tcc 0).cc (channel i pin) = d.setWidth 24

/-- `pwm_bank_set_period` stops the counter. -/
theorem tcc_pwmBankSetPeriod (t : Timers) (id : TimerId) (prescalar : Byte) (period : BitVec 16) :
    (t.pwmBankSetPeriod id prescalar period).tcc id =
      { t.tcc id with
        enable := false
        prescaler := prescalar.setWidth 3
        prescSync := prescSyncPresc
        per := period.setWidth 24 } := by
  simp [Timers.pwmBankSetPeriod, Timers.pwmBankDisable, Timers.modify]

/-- `pwm_bank_enable` starts it with nothing but the remembered settings. -/
theorem tcc_pwmBankEnable (t : Timers) (id : TimerId) :
    (t.pwmBankEnable id).tcc id =
      { Tcc.reset with
        enable := true
        prescaler := t.bankPrescalar.setWidth 3
        prescSync := prescSyncPresc
        wavegen := wavegenNpwm
        per := t.bankPeriod.setWidth 24 } := by
  simp [Timers.pwmBankEnable, Timers.pwmBankReset, Timers.pwmBankSetPeriod, Timers.pwmBankDisable,
    Timers.timerClockEnable, Timers.modify, Tcc.reset, wavegenNpwm]

/-- What `pwm_set_pin_duty` leaves in the registers. -/
theorem tcc_pwmSetPinDuty (t : Timers) (id : TimerId) (ch : ℕ) (d : BitVec 16) :
    (t.pwmSetPinDuty id ch d).tcc id =
      let r := if (t.tcc id).enable then t.tcc id else (t.pwmBankEnable id).tcc id
      { r with cc := Function.update r.cc ch (d.setWidth 24) } := by
  unfold Timers.pwmSetPinDuty Timers.modify
  split_ifs <;> simp

/-- The settings are remembered as they are. -/
theorem bank_pwmSetPinDuty (t : Timers) (id : TimerId) (ch : ℕ) (d : BitVec 16) :
    (t.pwmSetPinDuty id ch d).bankPrescalar = t.bankPrescalar ∧
      (t.pwmSetPinDuty id ch d).bankPeriod = t.bankPeriod := by
  unfold Timers.pwmSetPinDuty
  split_ifs
  · exact ⟨rfl, rfl⟩
  · exact ⟨rfl, rfl⟩

theorem settled_period {t : Timers} (hno : cs.any isDuty = false) (i : Fin 2)
    (setting high low : Byte) :
    Settled (cs ++ [period i setting high low]) (apply t (period i setting high low)) := by
  have htcc := tcc_pwmBankSetPeriod t 0 (setting >>> 4) (high ++ low)
  have hany : (cs ++ [period i setting high low]).any isDuty = false := by simp [hno, isDuty]
  refine ⟨?_, ?_, ?_, ?_⟩
  · intro prescalar period' h
    rw [lastBank_concat] at h
    cases h
    exact ⟨rfl, rfl⟩
  · intro prescalar period' h
    rw [lastBank_concat] at h
    cases h
    rw [apply, htcc]
    exact ⟨rfl, rfl⟩
  · intro _
    rw [apply, htcc, hany]
  · intro j pin d h
    rw [lastDuty_of_not_any hany] at h
    cases h

theorem settled_dutyCycle {t : Timers} (h : Settled cs t) (hne : cs ≠ []) (i : Fin 2)
    (pin : PwmPin) (high low : Byte) :
    Settled (cs ++ [dutyCycle i pin high low]) (apply t (dutyCycle i pin high low)) := by
  obtain ⟨hb1, hb2⟩ := bank_pwmSetPinDuty t 0 (channel i pin) (high ++ low)
  have htcc := tcc_pwmSetPinDuty t 0 (channel i pin) (high ++ low)
  have henabled := h.enabled hne
  have hlast : lastBank (cs ++ [dutyCycle i pin high low]) = lastBank cs := lastBank_concat cs _
  refine ⟨?_, ?_, ?_, ?_⟩
  · intro prescalar period hl
    rw [hlast] at hl
    rw [apply, hb1, hb2]
    exact h.remembered prescalar period hl
  · intro prescalar period hl
    rw [hlast] at hl
    obtain ⟨hr1, hr2⟩ := h.remembered prescalar period hl
    rw [apply, htcc]
    split_ifs
    · exact h.bank prescalar period hl
    · rw [tcc_pwmBankEnable, hr1, hr2]
      exact ⟨rfl, rfl⟩
  · intro _
    rw [apply, htcc]
    split_ifs with he
    · simpa [isDuty] using he
    · simp [tcc_pwmBankEnable, isDuty]
  · intro j pin' d hd
    rw [lastDuty_concat] at hd
    rw [apply, htcc]
    by_cases hch : i = j ∧ pin = pin'
    · obtain ⟨rfl, rfl⟩ := hch
      rw [dutyOf, if_pos ⟨rfl, rfl⟩] at hd
      cases hd
      exact Function.update_self _ _ _
    · rw [dutyOf, if_neg hch, Option.none_or] at hd
      have hne' : channel j pin' ≠ channel i pin := fun heq =>
        hch ((channel_inj pin pin' i j heq.symm))
      -- a pin has a duty, so the counter has not been reset since
      have hany : cs.any isDuty = true := by
        by_contra hno
        rw [lastDuty_of_not_any (by simpa using hno)] at hd
        cases hd
      rw [if_pos (henabled.trans hany)]
      exact (Function.update_of_ne hne' _ _).trans (h.duty j pin' d hd)

/-- No period is set after a duty. -/
def ordered (cs : List PwmCommand) : Prop := cs.Pairwise fun c d => c.isDuty → d.isDuty

theorem ordered_concat :
    ordered (cs ++ [c]) ↔ ordered cs ∧ (cs.any isDuty → c.isDuty) := by
  unfold ordered
  rw [List.pairwise_append]
  simp only [List.pairwise_singleton, List.mem_singleton, forall_eq, true_and, List.any_eq_true]
  exact and_congr_right fun _ => ⟨fun h ⟨a, ha, hd⟩ => h a ha hd, fun h a ha hd => h ⟨a, ha, hd⟩⟩

/-- The first command of a sequence is a period command. -/
def startsWithPeriod (cs : List PwmCommand) : Bool := cs.head?.all fun c => !c.isDuty

theorem startsWithPeriod_of_concat (h : startsWithPeriod (cs ++ [c])) : startsWithPeriod cs := by
  cases cs with
  | nil => rfl
  | cons c' cs => exact h

/-- **What an ordered sequence leaves.** -/
theorem settled_of_ordered (t : Timers) (hstart : startsWithPeriod cs) (hord : ordered cs) :
    Settled cs (applyAll t cs) := by
  induction cs using List.reverseRecOn with
  | nil =>
    have hbank (prescalar : Byte) (period : BitVec 16) :
        lastBank [] ≠ some (prescalar, period) := (Option.some_ne_none _).symm
    have hduty (i : Fin 2) (pin : PwmPin) (d : BitVec 16) : lastDuty i pin [] ≠ some d :=
      (Option.some_ne_none _).symm
    exact ⟨fun _ _ h => absurd h (hbank _ _), fun _ _ h => absurd h (hbank _ _),
      fun h => absurd rfl h, fun i pin d h => absurd h (hduty i pin d)⟩
  | append_singleton cs c ih =>
    obtain ⟨hord', hlast⟩ := ordered_concat.1 hord
    rw [applyAll_concat]
    cases c with
    | period i setting high low =>
      refine settled_period (Bool.eq_false_iff.2 fun hany => ?_) i setting high low
      exact absurd (hlast hany) Bool.false_ne_true
    | dutyCycle i pin high low =>
      have hne : cs ≠ [] := by
        rintro rfl
        cases hstart
      exact settled_dutyCycle (ih (startsWithPeriod_of_concat hstart) hord') hne i pin high low

/-! ### All sequences -/

/-- The number of a prescaler is in the register if the register can hold it. -/
theorem setWidth_prescalar (b : Byte) : (b.setWidth 3).toNat = b.toNat ↔ b.toNat < 8 := by
  rw [BitVec.toNat_setWidth]
  exact Nat.mod_eq_iff_lt (by decide)

/-- Every prescaler number fits its register. -/
def fits (cs : List PwmCommand) : Prop := ∀ c ∈ cs, c.prescalarFits

theorem fits_concat : fits (cs ++ [c]) ↔ fits cs ∧ c.prescalarFits := by
  simp [fits, or_imp, forall_and]

theorem lastBank_fits (h : fits cs) {prescalar : Byte} {period : BitVec 16}
    (hl : lastBank cs = some (prescalar, period)) : prescalar.toNat < 8 := by
  obtain ⟨c, hc, hset⟩ := List.mem_filterMap.1 (List.mem_of_getLast? hl)
  have hfit := h c hc
  rw [prescalarFits, hset] at hfit
  simpa using hfit

theorem persists_of_settled {t : Timers} (h : Settled cs t) (hf : fits cs) :
    Persists cs (t.tcc 0) := by
  refine ⟨fun prescalar period hl => ?_, fun hany => ?_, h.duty⟩
  · obtain ⟨hper, hpre⟩ := h.bank prescalar period hl
    refine ⟨hper, ?_⟩
    rw [hpre]
    exact (setWidth_prescalar prescalar).2 (lastBank_fits hf hl)
  · rw [h.enabled fun hnil => ?_]
    · exact hany
    · rw [hnil] at hany
      cases hany

/-- After a period command the counter is stopped. -/
theorem enable_of_period {t : Timers} (hc : c.isDuty = false) :
    ((apply t c).tcc 0).enable = false := by
  cases c with
  | period i setting high low => rw [apply, tcc_pwmBankSetPeriod]
  | dutyCycle i pin high low => cases hc

theorem prescalarFits_of_persists {t : Timers} (h : Persists (cs ++ [c]) ((apply t c).tcc 0)) :
    c.prescalarFits := by
  cases c with
  | dutyCycle i pin high low => rfl
  | period i setting high low =>
    have hbank := (h.bank (setting >>> 4) (high ++ low) (by rw [lastBank_concat]; rfl)).2
    rw [apply, tcc_pwmBankSetPeriod] at hbank
    exact decide_eq_true ((setWidth_prescalar _).1 hbank)

/-- **PWM settings persist** exactly in these sequences. -/
theorem persists_applyAll_iff (t : Timers) (hstart : startsWithPeriod cs) :
    (∀ ds, ds <+: cs → ds ≠ [] → Persists ds ((applyAll t ds).tcc 0)) ↔ fits cs ∧ ordered cs := by
  induction cs using List.reverseRecOn with
  | nil =>
    refine iff_of_true (fun ds hds hne => absurd (List.prefix_nil.1 hds) hne) ⟨?_, .nil⟩
    exact List.forall_mem_nil _
  | append_singleton cs c ih =>
    have hstart' := startsWithPeriod_of_concat hstart
    rw [fits_concat, ordered_concat]
    constructor
    · intro h
      obtain ⟨hfit, hord⟩ := (ih hstart').1 fun ds hds =>
        h ds (hds.trans (List.prefix_append cs [c]))
      have hlast := h (cs ++ [c]) (List.prefix_refl _) (by simp)
      rw [applyAll_concat] at hlast
      refine ⟨⟨hfit, prescalarFits_of_persists hlast⟩, hord, fun hany => ?_⟩
      by_contra hc
      have henabled := hlast.enabled (by simp [hany])
      rw [enable_of_period (by simpa using hc)] at henabled
      cases henabled
    · rintro ⟨⟨hfit, hcfit⟩, hord, hc⟩ ds hds hne
      obtain rfl | hds' := List.prefix_concat_iff.1 hds
      · exact persists_of_settled (settled_of_ordered t hstart (ordered_concat.2 ⟨hord, hc⟩))
          (fits_concat.2 ⟨hfit, hcfit⟩)
      · exact (ih hstart').2 ⟨hfit, hord⟩ ds hds' hne

/-- **PWM settings persist.**  Take both ports waiting for commands and any state of the counters,
and any sequence of PWM commands for TCC 0 on both ports that starts with a period command.  After
each of the commands the period and the prescaler are those of the last period command, and once a
duty has been set the counter is enabled and holds the last duty of every pin that has one, exactly
if no period is set after a duty and all prescaler numbers fit the register. -/
theorem persists_iff {s : Boards} (h : s.Ready) {cs : List PwmCommand}
    (hcs : ∀ c ∈ cs, c.onTcc0) (hstart : startsWithPeriod cs) :
    (∀ ds, ds <+: cs → ds ≠ [] → Persists ds ((s.handleAll (ds.map event)).timers.tcc 0)) ↔
      (∀ c ∈ cs, c.prescalarFits) ∧ cs.Pairwise fun c d => c.isDuty → d.isDuty := by
  refine Iff.trans (forall₂_congr fun ds hds => ?_) (persists_applyAll_iff s.timers hstart)
  rw [timers_handleAll ds s h fun c hc => hcs c (hds.subset hc)]

/-- One port sets the period, and both ports set duties. -/
def twoDuties : List PwmCommand :=
  [.period 0 0x20#8 0x40#8 0x00#8, .dutyCycle 0 .tx 0x10#8 0x00#8, .dutyCycle 1 .rx 0x20#8 0x00#8,
    .dutyCycle 0 .tx 0x08#8 0x00#8]

theorem ready_started (answers : Fin 2 → ℕ → BitVec 16) : (Boards.started answers).Ready :=
  fun _ => rfl

theorem persists_twoDuties :
    Persists twoDuties (((Boards.started fun _ _ => 0#16).handleAll
      (twoDuties.map event)).timers.tcc 0) :=
  (persists_iff (ready_started _) (by decide) (by decide)).2 ⟨by decide, by decide⟩ twoDuties
    (List.prefix_refl _) (by decide)

/-- The period is changed while a duty is set. -/
def changePeriod : List PwmCommand :=
  [.period 0 0x20#8 0x40#8 0x00#8, .dutyCycle 0 .tx 0x10#8 0x00#8, .period 0 0x20#8 0x20#8 0x00#8]

/-- The counter is stopped then. -/
theorem not_persists_changePeriod :
    ¬ ∀ (s : Boards) (cs : List PwmCommand), s.Ready → (∀ c ∈ cs, c.onTcc0) →
      startsWithPeriod cs → ∀ ds, ds <+: cs → ds ≠ [] →
        Persists ds ((s.handleAll (ds.map event)).timers.tcc 0) := by
  intro hall
  have h := hall (Boards.started fun _ _ => 0#16) changePeriod (ready_started _) (by decide)
    (by decide) changePeriod (List.prefix_refl _) (by decide)
  exact absurd (h.enabled (by decide)) (by decide +kernel)

end PwmCommand

end TesselFirmware
