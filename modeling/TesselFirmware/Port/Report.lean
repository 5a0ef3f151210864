import TesselFirmware.Port.Extint

/-!
# Reports of pin changes (`port_handle_extint` in `firmware/port.c`)

A port that waits for commands appends one byte to its reply for each of its interrupt pins whose
flag is set.  The byte names the pin, and its bit 3 is the level of the pin that the argument byte
of some earlier command selects.

* `PortData.replyLen_of_waiting` : a reachable port whose pin interrupts are enabled while it waits
  for a command has an empty reply;
* `PortData.reported_handleExtint` : what `port_handle_extint` reads, appends and configures;
* `Eic.readConfig_disarm` : what it leaves in the configuration registers of the controller.
-/

namespace TesselFirmware

/-! ### The registers of the controller -/

namespace Eic

/-- `EIC->CONFIG`: four bits for each line. -/
abbrev Config := ℕ → BitVec 32

/-- `eic_config` of a line. -/
def config (regs : Config) (line : ℕ) (sense : Byte) : Config :=
  Function.update regs (line / 8)
    ((regs (line / 8) &&& ~~~ (0xF#32 <<< (line % 8 * 4))) |||
      (sense.setWidth 32 <<< (line % 8 * 4)))

/-- `eic_read_config` of a line. -/
def readConfig (regs : Config) (line : ℕ) : Byte :=
  ((regs (line / 8) >>> (line % 8 * 4)) &&& 0xF#32).setWidth 8

/-- The four bits of a line. -/
theorem getLsbD_readConfig (regs : Config) (line : ℕ) {k : ℕ} (hk : k < 8) :
    (readConfig regs line).getLsbD k =
      ((regs (line / 8)).getLsbD (line % 8 * 4 + k) && decide (k < 4)) := by
  have hmask : ∀ k < 8, (0xF#32).getLsbD k = decide (k < 4) := by decide
  rw [readConfig, BitVec.getLsbD_setWidth, BitVec.getLsbD_and, BitVec.getLsbD_ushiftRight,
    hmask k hk, decide_eq_true hk, Bool.true_and]

/-- A line reads the configuration it was given, and the other lines what they had. -/
theorem readConfig_config (regs : Config) (line line' : ℕ) {sense : Byte}
    (hs : ∀ k, 4 ≤ k → sense.getLsbD k = false) :
    readConfig (config regs line sense) line' =
      if line' = line then sense else readConfig regs line' := by
  have hmask : ∀ k, (0xF#32).getLsbD k = decide (k < 4) := by
    intro k
    rcases Nat.lt_or_ge k 32 with hk | hk
    · revert k
      decide
    · rw [BitVec.getLsbD_of_ge _ _ hk, decide_eq_false (by omega)]
  refine BitVec.eq_of_getLsbD_eq fun k hk => ?_
  rw [getLsbD_readConfig _ _ hk]
  by_cases h4 : k < 4
  · by_cases hw : line' / 8 = line / 8
    · have hbit : line' % 8 * 4 + k < 32 := by omega
      rw [config, hw, Function.update_self]
      simp only [BitVec.getLsbD_or, BitVec.getLsbD_and, BitVec.getLsbD_not,
        BitVec.getLsbD_shiftLeft, hmask, BitVec.getLsbD_setWidth, hbit, decide_true,
        Bool.true_and, h4, Bool.and_true]
      by_cases hl : line' = line
      · subst hl
        rw [if_pos rfl, Nat.add_sub_cancel_left, decide_eq_false (by omega), decide_eq_true h4,
          decide_eq_true (by omega : k < 32)]
        simp
      · -- another line of the same register: below or above the four bits
        rw [if_neg hl, getLsbD_readConfig _ _ hk, hw]
        rcases Nat.lt_or_ge (line' % 8 * 4 + k) (line % 8 * 4) with hlt | hge
        · rw [decide_eq_true hlt, decide_eq_true h4]
          simp
        · rw [decide_eq_false (by omega), decide_eq_false (by omega : ¬ _ < 4), hs _ (by omega),
            decide_eq_true h4]
          simp
    · have hl : line' ≠ line := fun h => hw (h ▸ rfl)
      rw [if_neg hl, config, Function.update_of_ne hw, getLsbD_readConfig _ _ hk,
        decide_eq_true h4]
  · rw [decide_eq_false h4, Bool.and_false]
    split_ifs
    · exact (hs k (by omega)).symm
    · rw [getLsbD_readConfig _ _ hk, decide_eq_false h4, Bool.and_false]

/-- The registers after the pins `is` have been configured to cause no interrupt. -/
def disarm (t : TesselPort) (regs : Config) (is : List ℕ) : Config :=
  is.foldl (fun regs i => config regs (t.pinExtint i) 0#8) regs

/-- The lines of these pins are disarmed, and no others. -/
theorem readConfig_disarm (t : TesselPort) (is : List ℕ) (regs : Config) (line : ℕ) :
    readConfig (disarm t regs is) line =
      if ∃ i ∈ is, line = t.pinExtint i then 0#8 else readConfig regs line := by
  induction is generalizing regs with
  | nil => simp [disarm]
  | cons i is ih =>
    have hzero : ∀ k, 4 ≤ k → (0#8).getLsbD k = false := fun k _ => BitVec.getLsbD_zero
    show readConfig (disarm t (config regs (t.pinExtint i) 0#8) is) line = _
    rw [ih, readConfig_config _ _ _ hzero]
    simp only [List.mem_cons, exists_eq_or_imp]
    by_cases hin : ∃ j ∈ is, line = t.pinExtint j
    · rw [if_pos hin, if_pos (.inr hin)]
    · rw [if_neg hin]
      by_cases hl : line = t.pinExtint i
      · rw [if_pos hl, if_pos (.inl hl)]
      · rw [if_neg hl, if_neg fun h => h.elim hl hin]

end Eic

/-- The pin that an effect reads. -/
def Effect.readPin : Effect → Option ℕ
  | .action (.pin .read i) => some i
  | _ => none

/-- The interrupt configuration that an effect gives to a pin. -/
def Effect.configPin : Effect → Option (ℕ × Byte)
  | .action (.pin (.eicConfig sense) i) => some (i, sense)
  | _ => none

/-- The registers of the controller after some effects of a port. -/
def Eic.after (t : TesselPort) (regs : Eic.Config) (es : List Effect) : Eic.Config :=
  (es.filterMap Effect.configPin).foldl
    (fun regs c => Eic.config regs (t.pinExtint c.1) c.2) regs

namespace PortData

variable {p q : PortData} {flags : BitVec 32}

/-! ### An empty reply -/

/-- The pin interrupts are enabled only outside of the loop, and while the port waits for a command
only with an empty reply. -/
structure Waiting (p : PortData) : Prop where
  stepping : p.eicEnabled → p.stepping = false
  replyLen : p.eicEnabled → p.state = .readCmd → p.replyLen = 0

namespace Waiting

theorem of_disabled (h : p.eicEnabled = false) : p.Waiting :=
  ⟨fun he => absurd he (by rw [h]; decide), fun he => absurd he (by rw [h]; decide)⟩

theorem step (h : p.eicEnabled → p.stepping = false) : p.step.Waiting := by
  unfold PortData.step
  split_ifs with hs
  · refine ⟨h, fun _ hr => ?_⟩
    exact absurd (hs.symm.trans hr) (by decide)
  · exact .of_disabled rfl

theorem error (h : p.Waiting) : p.error.Waiting := ⟨h.stepping, h.replyLen⟩

theorem asyncCompletion (h : p.Waiting) : p.asyncCompletion.Waiting := by
  unfold PortData.asyncCompletion
  split_ifs
  · exact step h.stepping
  · exact h.error

/-- Before the port waits in the loop, a reply has been flushed if there is one. -/
theorem wait (hin : p.waits) (hf : ¬ p.flushDue) (he : p.eicEnabled = false) : p.wait.Waiting := by
  unfold PortData.wait
  split_ifs with ha
  · refine ⟨fun _ => rfl, fun _ (hr : p.state = .readCmd) => ?_⟩
    have hpin : p.pendingIn = false := by
      by_contra hc
      rw [Bool.not_eq_false] at hc
      rw [asyncEventsAllowed, hc] at ha
      exact absurd ha (by simp)
    have hout : p.pendingOut := by
      rw [waits, hpin] at hin
      simpa using hin
    by_contra hlen
    refine hf ⟨.inr ⟨hout, Nat.pos_of_ne_zero hlen⟩, by rw [hpin]; decide, fun hx => ?_⟩
    exact absurd (hr.symm.trans hx.1) (by decide)
  · exact .of_disabled he

theorem not_flushDue_flushReply (p : PortData) : ¬ p.flushReply.flushDue := by
  unfold flushReply
  split_ifs with h
  · exact fun hd => hd.2.1 rfl
  · exact h

theorem eicEnabled_transfers (p : PortData) : p.transfers.eicEnabled = p.eicEnabled := by
  have hr : p.requestPacket.eicEnabled = p.eicEnabled := by
    unfold requestPacket
    split_ifs <;> rfl
  rw [transfers, ← hr]
  unfold flushReply
  split_ifs <;> rfl

theorem eicEnabled_dispatch (p : PortData) : p.dispatch.eicEnabled = p.eicEnabled := by
  have hbegun : ∀ q : PortData, q.begun.eicEnabled = q.eicEnabled :=
    fun q => congrArg Control.eicEnabled (control_begun q)
  unfold dispatch
  cases p.state
  case disable => rfl
  case execAsync => rfl
  case exec =>
    obtain ⟨n, hc⟩ := control_continueCmd_eq p
    exact congrArg Control.eicEnabled hc
  case readCmd =>
    simp only [readCommand]
    split_ifs
    · rfl
    · exact hbegun p.fetchCmd
  case readArg =>
    have harg : p.fetchArg.eicEnabled = p.eicEnabled := by rw [fetchArg_eq]
    simp only [readArgument]
    split_ifs
    · rfl
    · exact (hbegun p.fetchArg).trans harg
    · exact harg

theorem iter (he : p.eicEnabled = false) : p.iter.Waiting := by
  have ht : p.transfers.eicEnabled = false := (eicEnabled_transfers p).trans he
  unfold PortData.iter
  split_ifs with hw
  · exact wait hw (not_flushDue_flushReply _) ht
  · exact .of_disabled ((eicEnabled_dispatch _).trans ht)

theorem uartSendData (h : p.Waiting) : p.uartSendData.Waiting := by
  unfold PortData.uartSendData
  dsimp only
  split_ifs
  · exact h.error
  · refine step fun he => ?_
    have hc := control_append (p.emit (.uartPacket p.pendingIn p.dataOpen))
      (replyAsyncUartRx :: BitVec.ofNat 8 p.uartBuf.bufLen :: p.uartBytes p.uartBuf.bufLen)
    exact (congrArg Control.stepping hc).trans
      (h.stepping ((congrArg Control.eicEnabled hc).symm.trans he))
  · exact h

theorem handleSercomUartI2c (h : p.Waiting) (rxc : Option Byte) (err : Bool) :
    (p.handleSercomUartI2c rxc err).Waiting := by
  unfold PortData.handleSercomUartI2c
  split
  · split
    · next b =>
      have hpush : ((p.act (.tccDelayStart (200 * 10))).uartPush b).Waiting :=
        ⟨h.stepping, h.replyLen⟩
      dsimp only
      split_ifs
      · exact hpush.uartSendData
      · exact hpush
    · exact h
  · dsimp only
    split_ifs
    · exact h.error.asyncCompletion
    · exact h.asyncCompletion
  · exact h.error
  · exact h.error

theorem control_foldl_extintPin (p : PortData) (flags : BitVec 32) (is : List ℕ) :
    (is.foldl (fun p i => p.extintPin flags i) p).control = p.control := by
  induction is generalizing p with
  | nil => rfl
  | cons i is ih => exact (ih _).trans (control_extintPin p flags i)

theorem handleExtint (h : p.Waiting) (flags : BitVec 32) : (p.handleExtint flags).Waiting := by
  unfold PortData.handleExtint
  split_ifs
  · refine step fun he => ?_
    have hc := control_foldl_extintPin p flags (List.range 8)
    exact (congrArg Control.stepping hc).trans
      (h.stepping ((congrArg Control.eicEnabled hc).symm.trans he))
  · exact h.error

theorem enable (h : p.Waiting) : p.enable.Waiting := by
  have hfold : ∀ q : PortData, q.replyLen = 0 → (q.eicEnabled → q.stepping = false) →
      ((List.range 8).foldl (fun p i => p.gpio .pullUp i) q).Waiting := by
    intro q hlen hstep
    have hq := List.foldlRecOn (motive := fun r : PortData =>
      r.control = q.control ∧ r.replyLen = q.replyLen) (List.range 8)
      (fun p i => p.gpio .pullUp i) ⟨rfl, rfl⟩
        fun r hr i _ => ⟨(control_gpio r _ i).trans hr.1, hr.2⟩
    exact ⟨fun he => (congrArg Control.stepping hq.1).trans
      (hstep ((congrArg Control.eicEnabled hq.1).symm.trans he)), fun _ _ => hq.2.trans hlen⟩
  rw [PortData.enable]
  exact hfold _ rfl h.stepping

theorem disable (p : PortData) : p.disable.Waiting := by
  have hfold : ∀ q : PortData, q.eicEnabled = false →
      ((List.range 8).foldl disablePin q).eicEnabled = false := by
    intro q hq
    refine List.foldlRecOn (motive := fun r : PortData => r.eicEnabled = false) _ _ hq ?_
    intro r hr i _
    have hc : (r.disablePin i).control = r.control := by
      unfold disablePin
      dsimp only
      split_ifs <;> simp only [control_gpio, control_eicConfig]
    exact (congrArg Control.eicEnabled hc).trans hr
  have hoff : ∀ q : PortData, q.eicEnabled = false →
      ((q.act (.power false)).emit (.call .enableChan)).eicEnabled = false := fun _ hq => hq
  refine .of_disabled ?_
  unfold PortData.disable
  dsimp only
  exact hoff _ (hfold _ rfl)

theorem handle (h : p.Waiting) {e : PortEvent} (ha : p.accepts e) : (p.handle e).Waiting := by
  cases e with
  | enable => exact h.enable
  | disable => exact disable p
  | outCompletion packet => exact step h.stepping
  | inCompletion => exact step h.stepping
  | dmaRx => exact h.asyncCompletion
  | dmaTx => exact h.asyncCompletion
  | sercom rxc err => exact h.handleSercomUartI2c rxc err
  | extint flags => exact h.handleExtint flags
  | tccOverflow => exact h.uartSendData
  | iter =>
    have hstep : p.stepping := ha
    refine iter ?_
    by_contra he
    rw [Bool.not_eq_false] at he
    exact absurd hstep (by rw [h.stepping he]; decide)

end Waiting

/-- A reachable port that waits for a command with its pin interrupts enabled has an empty reply. -/
theorem replyLen_of_waiting {port : TesselPort} {answers : ℕ → BitVec 16}
    (h : machine.Reachable (init port answers) p) (he : p.eicEnabled) (hs : p.state = .readCmd) :
    p.replyLen = 0 := by
  have hw : p.Waiting := h.invariant (I := Waiting) (.of_disabled rfl) fun q e q' hq hst => by
    obtain ⟨ha, rfl⟩ := machine_step_eq_some.1 hst
    exact hq.handle ha
  exact hw.replyLen he hs

/-! ### The reports of the flagged pins -/

instance (i : ℕ) : Decidable (p.flagged flags i) := by unfold flagged; infer_instance

/-- The interrupt pins whose flag is set, in order. -/
def flaggedPins (p : PortData) (flags : BitVec 32) : List ℕ :=
  (List.range 8).filter fun i => p.flagged flags i

/-- `REPLY_ASYNC_PIN_CHANGE_N + pin`, with the level in bit 3. -/
def report (high : Bool) (i : ℕ) : Byte :=
  if high then (replyAsyncPinChange + BitVec.ofNat 8 i) ||| 0x08#8
  else replyAsyncPinChange + BitVec.ofNat 8 i

/-- The pins that have been read so far. -/
def reads (p : PortData) : List ℕ := p.effects.filterMap Effect.readPin

/-- The interrupt configurations that have been written so far. -/
def configs (p : PortData) : List (ℕ × Byte) := p.effects.filterMap Effect.configPin

/-- The pin is configured for a level. -/
def levelSense (p : PortData) (i : ℕ) : Bool := Byte.has (p.sense i) 2

/-- From `p` to `q` the pins `is` were reported: for each of them the *selected* pin was read. -/
structure PinsReported (is : List ℕ) (p q : PortData) : Prop where
  reads : q.reads = p.reads ++ List.replicate is.length p.selectedPin
  answers : ∀ k, q.answers k = p.answers (k + is.length)
  appended : ∀ high, (∀ k < is.length, (p.answers k != 0#16) = high) →
    Appended (is.map (report high)) p q
  configs : q.configs = p.configs ++ (is.filter p.levelSense).map fun i => (i, 0#8)
  sense : ∀ i, q.sense i = if i ∈ is ∧ p.levelSense i then 0#8 else p.sense i
  arg : q.arg = p.arg
  port : q.port = p.port

namespace PinsReported

theorem nil (hlen : p.replyLen ≤ bridgeBufSize) : PinsReported [] p p :=
  ⟨by simp, fun _ => rfl, fun _ _ => .refl hlen, by simp, fun i => by simp, rfl, rfl⟩

/-- The first of the reports, and then the others. -/
theorem cons {i : ℕ} {is : List ℕ} {r : PortData} (h : PinsReported [i] p q)
    (h' : PinsReported is q r) (hi : i ∉ is) : PinsReported (i :: is) p r := by
  have hsel : q.selectedPin = p.selectedPin := by
    rw [selectedPin, selectedPin, argAt, argAt, h.arg]
  have hother : ∀ j, j ≠ i → q.sense j = p.sense j := by
    intro j hj
    rw [h.sense j, if_neg fun hc => hj (List.mem_singleton.1 hc.1)]
  refine ⟨?_, ?_, ?_, ?_, ?_, h'.arg.trans h.arg, h'.port.trans h.port⟩
  · rw [h'.reads, h.reads, hsel, List.append_assoc, ← List.replicate_add, List.length_singleton,
      List.length_cons, Nat.add_comm]
  · intro k
    rw [h'.answers, h.answers, List.length_singleton, List.length_cons, Nat.add_assoc]
  · intro high hhigh
    rw [List.length_cons] at hhigh
    have h₁ : Appended [report high i] p q := h.appended high fun k hk => by
      rw [List.length_singleton] at hk
      exact hhigh k (by omega)
    have h₂ : Appended (is.map (report high)) q r := h'.appended high fun k hk => by
      rw [h.answers]
      exact hhigh (k + 1) (by omega)
    exact h₁.trans h₂
  · have hfilter : is.filter q.levelSense = is.filter p.levelSense :=
      List.filter_congr fun j hj => by
        rw [levelSense, levelSense, hother j fun hji => hi (hji ▸ hj)]
    rw [h'.configs, h.configs, hfilter, List.append_assoc, ← List.map_append, ← List.filter_append,
      List.singleton_append]
  · intro j
    rw [h'.sense j]
    by_cases hji : j = i
    · -- a pin that is disarmed stays so
      subst hji
      rw [if_neg fun hc => hi hc.1, h.sense j]
      simp
    · simp only [levelSense, hother j hji, List.mem_cons, hji, false_or]

end PinsReported

theorem reads_sendStatus (p : PortData) (b : Byte) : (p.sendStatus b).reads = p.reads := by
  unfold sendStatus
  split_ifs <;> simp [reads, error, emit, appendByte, Effect.readPin]

theorem configs_sendStatus (p : PortData) (b : Byte) : (p.sendStatus b).configs = p.configs := by
  unfold sendStatus
  split_ifs <;> simp [configs, error, emit, appendByte, Effect.configPin]

theorem sendStatus_rest (p : PortData) (b : Byte) :
    (p.sendStatus b).answers = p.answers ∧ (p.sendStatus b).sense = p.sense ∧
      (p.sendStatus b).arg = p.arg := by
  unfold sendStatus
  split_ifs <;> exact ⟨rfl, rfl, rfl⟩

theorem eicConfig_rest (p : PortData) (i : ℕ) (sense : Byte) :
    (p.eicConfig i sense).answers = p.answers ∧ (p.eicConfig i sense).arg = p.arg ∧
      (p.eicConfig i sense).port = p.port := ⟨rfl, rfl, rfl⟩

/-- The selected pin is read, and the report of pin `i` is put into the reply. -/
def sendReport (p : PortData) (i : ℕ) : PortData :=
  (p.pinRead p.selectedPin).2.sendStatus (report (p.pinRead p.selectedPin).1 i)

theorem reads_sendReport (p : PortData) (i : ℕ) :
    (p.sendReport i).reads = p.reads ++ [p.selectedPin] := by
  rw [sendReport, reads_sendStatus]
  simp [reads, pinRead, gpio, act, emit, check, answered, Effect.readPin]

theorem configs_sendReport (p : PortData) (i : ℕ) : (p.sendReport i).configs = p.configs := by
  rw [sendReport, configs_sendStatus]
  simp [configs, pinRead, gpio, act, emit, check, answered, Effect.configPin]

theorem sense_sendReport (p : PortData) (i : ℕ) : (p.sendReport i).sense = p.sense :=
  (sendStatus_rest _ _).2.1

theorem appended_sendReport {i : ℕ} {high : Bool} (hlen : p.replyLen < bridgeBufSize)
    (hhigh : (p.answers 0 != 0#16) = high) : Appended [report high i] p (p.sendReport i) := by
  subst hhigh
  have hread : Appended [] p (p.pinRead p.selectedPin).2 :=
    appended_pinRead p.selectedPin_lt hlen.le
  exact hread.trans (appended_sendStatus _ _ (by rw [hread.replyLen]; exact hlen))

/-- A flagged pin is reported, and disarmed if it is configured for a level. -/
theorem extintPin_of_flagged {i : ℕ} (hi : i < 8) (hflag : p.flagged flags i) :
    p.extintPin flags i =
      if p.levelSense i then (p.sendReport i).eicConfig i 0#8 else p.sendReport i := by
  unfold flagged at hflag
  rw [extintPin, if_pos hflag, check_of_true p (decide_eq_true hi), levelSense,
    ← sense_sendReport p i]
  rfl

/-- One flagged pin is reported. -/
theorem reported_extintPin {i : ℕ} (hi : i < 8) (hflag : p.flagged flags i)
    (hlen : p.replyLen < bridgeBufSize) : PinsReported [i] p (p.extintPin flags i) := by
  obtain ⟨hans, hsense, harg⟩ := sendStatus_rest (p.pinRead p.selectedPin).2
    (report (p.pinRead p.selectedPin).1 i)
  have happ : ∀ high, (∀ k < [i].length, (p.answers k != 0#16) = high) →
      Appended ([i].map (report high)) p (p.sendReport i) :=
    fun high hhigh => appended_sendReport hlen (hhigh 0 Nat.one_pos)
  have hport : (p.sendReport i).port = p.port := port_sendStatus _ _
  rw [extintPin_of_flagged hi hflag]
  split_ifs with hl
  · -- a level interrupt is disarmed
    obtain ⟨hans', harg', hport'⟩ := eicConfig_rest (p.sendReport i) i 0#8
    refine ⟨?_, fun k => congrFun (hans'.trans hans) k, fun high hhigh => ?_, ?_, fun j => ?_,
      harg'.trans harg, hport'.trans hport⟩
    · rw [List.length_singleton, List.replicate_one, ← reads_sendReport p i]
      simp [reads, eicConfig, gpio, act, emit, check, Effect.readPin]
    · have ha := happ high hhigh
      exact ha.trans (appended_eicConfig 0#8 hi (ha.replyLen ▸ ha.fits))
    · rw [← configs_sendReport p i, List.filter_cons_of_pos hl]
      simp [configs, eicConfig, gpio, act, emit, check, Effect.configPin]
    · by_cases hj : j = i
      · subst hj
        simp [eicConfig, hl]
      · simp [eicConfig, hj, sense_sendReport]
  · refine ⟨reads_sendReport p i, fun k => congrFun hans k, happ, ?_, fun j => ?_, harg, hport⟩
    · rw [configs_sendReport, List.filter_cons_of_neg hl, List.filter_nil, List.map_nil,
        List.append_nil]
    · rw [sense_sendReport, if_neg]
      rintro ⟨hj, hlj⟩
      rw [List.mem_singleton.1 hj] at hlj
      exact hl hlj

/-- The loop over the pins reports those that are flagged. -/
theorem reported_foldl (is : List ℕ) : ∀ p : PortData, (∀ i ∈ is, i < 8) → is.Nodup →
    p.replyLen + is.length ≤ bridgeBufSize →
      PinsReported (is.filter fun i => p.flagged flags i) p
        (is.foldl (fun p i => p.extintPin flags i) p) := by
  induction is with
  | nil => exact fun p _ _ hlen => .nil hlen
  | cons i is ih =>
    intro p hlt hnd hlen
    rw [List.length_cons] at hlen
    obtain ⟨hi, his⟩ := List.nodup_cons.1 hnd
    have hrest : ∀ j ∈ is, j < 8 := fun j hj => hlt j (List.mem_cons_of_mem _ hj)
    rw [List.foldl_cons]
    have hport : ∀ j, (p.extintPin flags i).flagged flags j ↔ p.flagged flags j := by
      intro j
      unfold flagged
      rw [port_extintPin]
    have ih := ih (p.extintPin flags i) hrest his
    simp only [hport] at ih
    by_cases hflag : p.flagged flags i
    · have hone := reported_extintPin (hlt i (List.mem_cons_self ..)) hflag (by omega)
      have hlen' := (hone.appended (p.answers 0 != 0#16) fun k hk => by
        rw [List.length_singleton, Nat.lt_one_iff] at hk
        rw [hk]).replyLen
      rw [List.map_singleton, List.length_singleton] at hlen'
      rw [List.filter_cons, if_pos (decide_eq_true hflag)]
      exact hone.cons (ih (by omega)) fun hmem => hi (List.mem_filter.1 hmem).1
    · have hnone : p.extintPin flags i = p := by
        unfold extintPin
        unfold flagged at hflag
        rw [if_neg hflag]
      rw [List.filter_cons, if_neg (by simpa using hflag)]
      rw [hnone] at ih ⊢
      exact ih (by omega)

/-- **What `port_handle_extint` reports.** -/
theorem reported_handleExtint (hs : p.state = .readCmd) (hlen : p.replyLen = 0)
    (flags : BitVec 32) : PinsReported (p.flaggedPins flags) p (p.handleExtint flags) := by
  have hfold : PinsReported (p.flaggedPins flags) p
      ((List.range 8).foldl (fun p i => p.extintPin flags i) p) := reported_foldl (List.range 8) p
    (fun i hi => List.mem_range.1 hi) List.nodup_range (by rw [hlen]; decide)
  have hstate : ((List.range 8).foldl (fun p i => p.extintPin flags i) p).state = .readCmd :=
    (congrArg Control.state (Waiting.control_foldl_extintPin p flags _)).trans hs
  rw [handleExtint, if_pos hs, step, if_neg (by rw [hstate]; decide)]
  generalize (List.range 8).foldl (fun p i => p.extintPin flags i) p = q at hfold
  exact ⟨hfold.reads, hfold.answers, fun high hhigh => (hfold.appended high hhigh).congr_right
    rfl rfl rfl rfl rfl rfl, hfold.configs, hfold.sense, hfold.arg, hfold.port⟩

end PortData

end TesselFirmware
