import TesselFirmware.Port.Step

/-!
# What each function of the port does

The lemmas of this module say once what the functions of `Port.Step` do, so that the later ones
never unfold them.

* `control` collects the fields that steer the loop; a command leaves them alone, except for the
  `cmdPos` of a command that reads its payload.
* `Appended bs p q` : from `p` to `q` the bytes `bs` were put at the end of the reply and fitted.
* `iter_cases` : a pass of the loop either waits, or works on the state as it is.
-/

namespace TesselFirmware

namespace PortData

variable {p q r : PortData}

/-! ### The fields that steer the loop -/

/-- The fields that steer the loop of `port_step`. -/
structure Control where
  port : TesselPort
  cmdBuf : Cells Byte bridgeBufSize
  state : PortState
  cmdLen : ℕ
  cmdPos : ℕ
  cmd : Byte
  argLen : ℕ
  argPos : ℕ
  pendingOut : Bool
  pendingIn : Bool
  stepping : Bool
  eicEnabled : Bool
  session : ℕ

def control (p : PortData) : Control :=
  ⟨p.port, p.cmdBuf, p.state, p.cmdLen, p.cmdPos, p.cmd, p.argLen, p.argPos, p.pendingOut,
    p.pendingIn, p.stepping, p.eicEnabled, p.session⟩

@[simp] theorem control_emit (p : PortData) (e : Effect) : (p.emit e).control = p.control := rfl

@[simp] theorem control_act (p : PortData) (a : Action) : (p.act a).control = p.control := rfl

@[simp] theorem control_acts (p : PortData) (as : List Action) :
    (p.acts as).control = p.control := rfl

@[simp] theorem control_gpio (p : PortData) (op : PinOp) (i : ℕ) :
    (p.gpio op i).control = p.control := rfl

@[simp] theorem control_check (p : PortData) (b : Bool) : (p.check b).control = p.control := rfl

@[simp] theorem control_answered (p : PortData) : p.answered.control = p.control := rfl

@[simp] theorem control_pinRead (p : PortData) (i : ℕ) :
    (p.pinRead i).2.control = p.control := by
  rw [pinRead, control_answered, control_gpio]

@[simp] theorem control_error (p : PortData) : p.error.control = p.control := rfl

@[simp] theorem control_setArg0 (p : PortData) (b : Byte) :
    (p.setArg0 b).control = p.control := rfl

@[simp] theorem control_startTransfer (p : PortData) (t : Transfer) :
    (p.startTransfer t).control = p.control := rfl

@[simp] theorem control_appendByte (p : PortData) (b : Byte) :
    (p.appendByte b).control = p.control := rfl

@[simp] theorem control_append (p : PortData) (bs : List Byte) :
    (p.append bs).control = p.control := by
  induction bs generalizing p with
  | nil => rfl
  | cons b bs ih => exact (ih _).trans (control_appendByte p b)

@[simp] theorem control_sendStatus (p : PortData) (b : Byte) :
    (p.sendStatus b).control = p.control := by
  unfold sendStatus
  split_ifs <;> rfl

@[simp] theorem opcode_emit (p : PortData) (e : Effect) : (p.emit e).opcode = p.opcode := rfl

@[simp] theorem mode_emit (p : PortData) (e : Effect) : (p.emit e).mode = p.mode := rfl

@[simp] theorem control_gpioPull (p : PortData) : p.gpioPull.control = p.control := by
  unfold gpioPull
  dsimp only
  split_ifs <;> rfl

@[simp] theorem control_eicConfig (p : PortData) (i : ℕ) (sense : Byte) :
    (p.eicConfig i sense).control = p.control := by
  unfold eicConfig
  exact control_gpio p (.eicConfig sense) i

@[simp] theorem control_gpioInt (p : PortData) : p.gpioInt.control = p.control := by
  simp only [gpioInt]
  split_ifs <;> simp only [control_gpio, control_check, control_eicConfig]

/-- Beginning a command does not move the loop. -/
@[simp] theorem control_beginCmd (p : PortData) : p.beginCmd.1.control = p.control := by
  rcases h : p.opcode with _ | c
  · simp only [beginCmd, opcode_emit, h, control_error, control_emit]
  · cases c <;> simp only [beginCmd, opcode_emit, h, control_sendStatus, control_emit,
      control_pinRead, control_gpio, control_gpioPull, control_gpioInt, control_error,
      control_appendByte, control_answered, control_act, control_startTransfer, control_setArg0]
    case enableSpi => rfl
    case disableSpi => rfl
    case enableI2c => rfl
    case disableI2c => rfl
    case enableUart => rfl
    case disableUart => rfl

@[simp] theorem control_subArg0 (p : PortData) (n : ℕ) : (p.subArg0 n).control = p.control := rfl

@[simp] theorem control_receiveReply (p : PortData) (n : ℕ) :
    (p.receiveReply n).control = p.control := control_append _ _

theorem control_takeCmd (p : PortData) (n : ℕ) :
    (p.takeCmd n).control = { p.control with cmdPos := (p.control.cmdPos + n) % 256 } := rfl

theorem control_sendCmd (p : PortData) (a : Byte → Action) (n : ℕ) :
    (p.sendCmd a n).control = { p.control with cmdPos := (p.control.cmdPos + n) % 256 } := rfl

/-- A part of a payload leaves the state of the loop alone, except for its place in `cmd_buf`. -/
theorem control_continueCmd_eq (p : PortData) :
    ∃ n, p.continueCmd.1.control = { p.control with cmdPos := n } := by
  have hself : p.control = { p.control with cmdPos := p.cmdPos } := rfl
  rcases hop : p.opcode with _ | c
  · simp only [continueCmd, opcode_emit, hop, control_emit]
    exact ⟨_, hself⟩
  · cases c <;> simp only [continueCmd, opcode_emit, hop, control_emit] <;> try exact ⟨_, hself⟩
    case echo =>
      simp only [control_subArg0, control_append, control_takeCmd, control_emit]
      exact ⟨_, rfl⟩
    all_goals
      cases hm : p.mode <;> simp only [mode_emit, hm, control_startTransfer, control_subArg0,
        control_receiveReply, control_sendCmd, control_emit, control_act, control_acts]
    all_goals first | exact ⟨_, hself⟩ | exact ⟨_, rfl⟩

/-- Reading an argument byte, all at once. -/
theorem fetchArg_eq (p : PortData) : p.fetchArg =
    { p with
      cmdPos := (p.cmdPos + 1) % 256
      arg := p.arg.write p.argPos [p.cmdBuf.get p.cmdPos]
      argPos := (p.argPos + 1) % 256
      argLen := p.argLen - 1
      fault := p.fault || !decide (p.cmdPos + 1 ≤ p.cmdLen) ||
        !decide (p.argPos < bridgeArgSize) } := by
  unfold fetchArg storeArg takeCmd check
  rfl

/-- The check of a pin for an external interrupt reports at most. -/
theorem control_extintPin (p : PortData) (flags : BitVec 32) (i : ℕ) :
    (p.extintPin flags i).control = p.control := by
  unfold extintPin
  split_ifs
  · dsimp only
    generalize (if ((p.check _).pinRead _).1 = true then _ else _ : Byte) = response
    split_ifs <;>
      simp only [control_eicConfig, control_sendStatus, control_pinRead, control_check]
  · rfl

/-! ### Bounds of the parts -/

/-- An access within its bounds leaves no trace. -/
theorem check_of_true (p : PortData) {b : Bool} (h : b = true) : p.check b = p := by
  subst h
  simp [check]

theorem gpio_of_lt (p : PortData) (op : PinOp) {i : ℕ} (h : i < 8) :
    p.gpio op i = p.act (.pin op i) := by
  rw [gpio, check_of_true p (decide_eq_true h)]

theorem selectedPin_lt (p : PortData) : p.selectedPin < 8 := Nat.mod_lt _ (by decide)

theorem cmdRemaining_eq (h : p.cmdPos ≤ p.cmdLen) (hl : p.cmdLen ≤ 255) :
    p.cmdRemaining = p.cmdLen - p.cmdPos := by
  unfold cmdRemaining
  omega

theorem replyRemaining_eq (h : p.replyLen ≤ 255) : p.replyRemaining = 255 - p.replyLen := by
  unfold replyRemaining bridgeBufSize
  omega

theorem length_cmdBytes {n : ℕ} (h : p.cmdPos + n ≤ p.cmdLen) (hl : p.cmdLen ≤ 255) :
    (p.cmdBytes n).length = n :=
  Cells.length_slice (by unfold bridgeBufSize; omega)

@[simp] theorem length_answerBytes (p : PortData) (n : ℕ) : (p.answerBytes n).length = n := by
  simp [answerBytes]

/-! ### The reply -/

/-- The bytes put into the reply so far. -/
def replied (p : PortData) : List Byte := p.effects.filterMap Effect.replied

/-- The bytes `bs` were put at the end of the reply, and fitted. -/
structure Appended (bs : List Byte) (p q : PortData) : Prop where
  fits : p.replyLen + bs.length ≤ bridgeBufSize
  replyLen : q.replyLen = p.replyLen + bs.length
  content : q.replyBuf.content q.replyLen = p.replyBuf.content p.replyLen ++ bs
  stamps : q.stamps.content q.replyLen =
    p.stamps.content p.replyLen ++ List.replicate bs.length p.session
  session : q.session = p.session
  fault : q.fault = p.fault
  replied : q.replied = p.replied ++ bs

namespace Appended

variable {bs bs' : List Byte}

theorem refl (h : p.replyLen ≤ bridgeBufSize) : Appended [] p p :=
  ⟨h, rfl, by simp, by simp, rfl, rfl, by simp⟩

theorem trans (h : Appended bs p q) (h' : Appended bs' q r) : Appended (bs ++ bs') p r where
  fits := by
    have := h'.fits
    rw [h.replyLen] at this
    simpa [Nat.add_assoc] using this
  replyLen := by simp [h'.replyLen, h.replyLen, Nat.add_assoc]
  content := by rw [h'.content, h.content, List.append_assoc]
  stamps := by
    rw [h'.stamps, h.stamps, h.session, List.append_assoc, List.length_append,
      List.replicate_append_replicate]
  session := h'.session.trans h.session
  fault := h'.fault.trans h.fault
  replied := by rw [h'.replied, h.replied, List.append_assoc]

/-- What was appended has left the reply in its buffer. -/
theorem le (h : Appended bs p q) : q.replyLen ≤ bridgeBufSize := h.replyLen.trans_le h.fits

theorem congr_right {r : PortData} (h : Appended bs p q) (hbuf : r.replyBuf = q.replyBuf)
    (hlen : r.replyLen = q.replyLen) (hst : r.stamps = q.stamps)
    (hses : r.session = q.session) (hf : r.fault = q.fault) (hr : r.replied = q.replied) :
    Appended bs p r := by
  obtain ⟨h1, h2, h3, h4, h5, h6, h7⟩ := h
  exact ⟨h1, by rwa [hlen], by rwa [hbuf, hlen], by rwa [hst, hlen], by rwa [hses],
    by rwa [hf], by rwa [hr]⟩

theorem answered (h : Appended bs p q) : Appended bs p q.answered :=
  h.congr_right rfl rfl rfl rfl rfl rfl

theorem startTransfer (h : Appended bs p q) (t : Transfer) : Appended bs p (q.startTransfer t) :=
  h.congr_right rfl rfl rfl rfl rfl rfl

theorem setArg0 (h : Appended bs p q) (b : Byte) : Appended bs p (q.setArg0 b) :=
  h.congr_right rfl rfl rfl rfl rfl rfl

theorem subArg0 (h : Appended bs p q) (n : ℕ) : Appended bs p (q.subArg0 n) := h.setArg0 _

end Appended

theorem replied_emit (p : PortData) (e : Effect) :
    (p.emit e).replied = p.replied ++ e.replied.toList := by
  cases h : e.replied <;> simp [emit, replied, h]

theorem replied_acts (p : PortData) (as : List Action) : (p.acts as).replied = p.replied := by
  have : (as.map Effect.action).filterMap Effect.replied = [] :=
    List.filterMap_eq_nil_iff.2 fun e he => by
      obtain ⟨a, -, rfl⟩ := List.mem_map.1 he
      rfl
  rw [acts, replied, List.filterMap_append, this, List.append_nil]
  rfl

theorem appended_byte (p : PortData) (b : Byte) (h : p.replyLen < bridgeBufSize) :
    Appended [b] p (p.appendByte b) := by
  have hb : bridgeBufSize = 255 := rfl
  have hlen : (p.appendByte b).replyLen = p.replyLen + 1 :=
    Nat.mod_eq_of_lt (by omega)
  refine ⟨h, hlen, ?_, ?_, rfl, ?_, ?_⟩
  · rw [hlen]
    exact Cells.content_write h
  · rw [hlen]
    exact Cells.content_write h
  · simp [appendByte, check, h]
  · simp [appendByte, replied, Effect.replied]

theorem appended_append (bs : List Byte) (h : p.replyLen + bs.length ≤ bridgeBufSize) :
    Appended bs p (p.append bs) := by
  induction bs generalizing p with
  | nil => exact .refl h
  | cons b bs ih =>
    rw [List.length_cons] at h
    have hb := appended_byte p b (by omega)
    have hbs := ih (p := p.appendByte b) (by rw [hb.replyLen, List.length_singleton]; omega)
    exact hb.trans hbs

theorem appended_sendStatus (p : PortData) (b : Byte) (h : p.replyLen < bridgeBufSize) :
    Appended [b] p (p.sendStatus b) := by
  rw [sendStatus, if_neg (by omega)]
  exact appended_byte p b h

theorem appended_emit (e : Effect) (he : e.replied = none) (h : p.replyLen ≤ bridgeBufSize) :
    Appended [] p (p.emit e) :=
  (Appended.refl h).congr_right rfl rfl rfl rfl rfl (by simp [replied_emit, he])

theorem appended_acts (as : List Action) (h : p.replyLen ≤ bridgeBufSize) :
    Appended [] p (p.acts as) :=
  (Appended.refl h).congr_right rfl rfl rfl rfl rfl (replied_acts p as)

theorem appended_gpio (op : PinOp) {i : ℕ} (hi : i < 8) (h : p.replyLen ≤ bridgeBufSize) :
    Appended [] p (p.gpio op i) := by
  rw [gpio_of_lt p op hi]
  exact appended_emit _ rfl h

theorem appended_eicConfig (sense : Byte) {i : ℕ} (hi : i < 8) (h : p.replyLen ≤ bridgeBufSize) :
    Appended [] p (p.eicConfig i sense) :=
  (appended_gpio (.eicConfig sense) hi h).congr_right rfl rfl rfl rfl rfl rfl

theorem appended_pinRead {i : ℕ} (hi : i < 8) (h : p.replyLen ≤ bridgeBufSize) :
    Appended [] p (p.pinRead i).2 :=
  (appended_gpio .read hi h).congr_right rfl rfl rfl rfl rfl rfl

/-! ### Commands -/

/-- The bytes that `port_begin_cmd` puts into the reply. -/
def beginReply (p : PortData) : List Byte :=
  match p.opcode with
  | some .echo | some .rx | some .txrx => [replyData]
  | some .gpioIn | some .gpioRawRead => [replyLevel (p.answer != 0#16)]
  | some .analogRead => [replyData, p.answer.setWidth 8, (p.answer >>> 8).setWidth 8]
  | _ => []

/-- The accesses of `port_begin_cmd` are within their bounds: the reply fits, and
`CMD_PWM_DUTY_CYCLE` names one of the eight pins. -/
def beginFits (p : PortData) : Bool :=
  p.replyLen + p.beginReply.length ≤ bridgeBufSize &&
    (p.opcode != some .pwmDutyCycle || (p.argAt 0).toNat < 8)

theorem appended_gpioPull (h : p.replyLen ≤ bridgeBufSize) : Appended [] p p.gpioPull := by
  have hpin : (p.argAt 0 &&& 0x7#8).toNat < 8 := by
    rw [BitVec.toNat_and]
    exact Nat.lt_of_le_of_lt Nat.and_le_right (by decide)
  simp only [gpioPull]
  split_ifs
  · exact appended_gpio _ hpin h
  · exact appended_gpio _ hpin h
  · exact appended_gpio _ hpin h
  · exact .refl h

theorem appended_gpioInt (h : p.replyLen ≤ bridgeBufSize) : Appended [] p p.gpioInt := by
  have hpin : (p.argAt 0 &&& 0x7#8).toNat < 8 := by
    rw [BitVec.toNat_and]
    exact Nat.lt_of_le_of_lt Nat.and_le_right (by decide)
  simp only [gpioInt, check_of_true p (decide_eq_true hpin)]
  generalize (p.argAt 0 &&& 0x7#8).toNat = pin at hpin
  generalize p.argAt 0 >>> 4 &&& 0x07#8 = mode
  split_ifs
  · exact (appended_gpio _ hpin h).trans (appended_eicConfig _ hpin h)
  · exact (appended_eicConfig _ hpin h).trans (appended_gpio _ hpin h)
  · exact .refl h

/-- **What `port_begin_cmd` replies.** -/
theorem appended_beginCmd (h : p.beginFits) : Appended p.beginReply p p.beginCmd.1 := by
  simp only [beginFits, Bool.and_eq_true, decide_eq_true_eq] at h
  obtain ⟨hfit, hpwm⟩ := h
  have hl : p.replyLen ≤ bridgeBufSize := by omega
  have he : Appended [] p (p.emit (.exec p.cmd)) := appended_emit _ rfl hl
  have hpin := selectedPin_lt (p.emit (.exec p.cmd))
  have hone (b : Byte) (q : PortData) (hq : Appended [] p q) (hb : p.beginReply = [b]) :
      Appended [b] p (q.sendStatus b) := by
    refine hq.trans (appended_sendStatus q b ?_)
    rw [hb, List.length_singleton] at hfit
    rw [hq.replyLen]
    exact hfit
  have hgpio (op : PinOp) : Appended [] p
      ((p.emit (.exec p.cmd)).gpio op (p.emit (.exec p.cmd)).selectedPin) :=
    he.trans (appended_gpio op hpin hl)
  have hgpio2 (op op' : PinOp) : Appended [] p
      (((p.emit (.exec p.cmd)).gpio op (p.emit (.exec p.cmd)).selectedPin).gpio op'
        (p.emit (.exec p.cmd)).selectedPin) :=
    (hgpio op).trans (appended_gpio op' hpin (hgpio op).le)
  have hread (q : PortData) (hq : Appended [] p q) {i : ℕ} (hi : i < 8) :
      Appended [] p (q.pinRead i).2 :=
    hq.trans (appended_pinRead hi hq.le)
  have hacts (as : List Action) : Appended [] p ((p.emit (.exec p.cmd)).acts as) :=
    he.trans (appended_acts as he.le)
  have hact (a : Action) : Appended [] p ((p.emit (.exec p.cmd)).act a) :=
    he.trans (appended_emit _ rfl hl)
  have herr : Appended [] p (p.emit (.exec p.cmd)).error := he.trans (appended_emit _ rfl hl)
  rcases hop : p.opcode with _ | c
  · simp only [beginCmd, beginReply, opcode_emit, hop]
    exact herr
  · cases c <;> simp only [beginCmd, beginReply, opcode_emit, hop] at hone hfit ⊢
    case nop => exact he
    case tx => exact he
    case gpioWait => exact he
    case gpioCfg => exact he
    case flush => exact herr
    case echo => exact hone _ _ he rfl
    case rx => exact hone _ _ he rfl
    case txrx => exact hone _ _ he rfl
    case gpioIn => exact hone _ _ (hread _ (hgpio _) hpin) rfl
    case gpioRawRead => exact hone _ _ (hread _ he hpin) rfl
    case gpioHigh => exact hgpio2 _ _
    case gpioLow => exact hgpio2 _ _
    case gpioToggle => exact hgpio2 _ _
    case gpioInput => exact hgpio _
    case gpioPull => exact he.trans (appended_gpioPull hl)
    case gpioInt => exact he.trans (appended_gpioInt hl)
    case analogRead =>
      have hq := (hgpio .adcRead).answered
      simp only [List.length_cons, List.length_nil] at hfit
      refine hq.trans (appended_append [_, _, _] ?_)
      rw [hq.replyLen]
      exact hfit
    case analogWrite => exact hact _
    case enableSpi => exact (hacts _).congr_right rfl rfl rfl rfl rfl rfl
    case disableSpi => exact (hacts _).congr_right rfl rfl rfl rfl rfl rfl
    case enableI2c => exact (hacts _).congr_right rfl rfl rfl rfl rfl rfl
    case disableI2c => exact (hacts _).congr_right rfl rfl rfl rfl rfl rfl
    case start => exact ((hact _).setArg0 _).startTransfer _
    case stop => exact hact _
    case enableUart => exact (hacts _).congr_right rfl rfl rfl rfl rfl rfl
    case disableUart => exact (hacts _).congr_right rfl rfl rfl rfl rfl rfl
    case pwmDutyCycle =>
      have harg : ((p.emit (.exec p.cmd)).argAt 0).toNat < 8 := by
        have : (p.argAt 0).toNat < 8 := by simpa [hop] using hpwm
        exact this
      exact he.trans (appended_gpio _ harg hl)
    case pwmPeriod => exact hact _

/-- The number of bytes of `cmd_buf` that `port_continue_cmd` reads. -/
def continueTake (p : PortData) : ℕ :=
  match p.opcode, p.mode with
  | some .echo, _ => p.txrxLen
  | some .tx, .spi | some .tx, .uart => p.txLen
  | some .tx, .i2c => 1
  | some .txrx, .spi => p.txrxLen
  | _, _ => 0

/-- The bytes that `port_continue_cmd` puts into the reply. -/
def continueReply (p : PortData) : List Byte :=
  match p.opcode, p.mode with
  | some .echo, _ => p.cmdBytes p.txrxLen
  | some .rx, .spi => p.answerBytes p.rxLen
  | some .rx, .i2c => p.answerBytes 1
  | some .txrx, .spi => p.answerBytes p.txrxLen
  | _, _ => []

/-- The loop has work to do: there is a command byte to read and space for a reply byte. -/
structure Ready (p : PortData) : Prop where
  cmdPos : p.cmdPos < p.cmdLen
  cmdLen : p.cmdLen ≤ bridgeBufSize
  replyLen : p.replyLen < bridgeBufSize

theorem appended_takeCmd {n : ℕ} (hn : p.cmdPos + n ≤ p.cmdLen) (h : p.replyLen ≤ bridgeBufSize) :
    Appended [] p (p.takeCmd n) := by
  rw [takeCmd, check_of_true p (decide_eq_true hn)]
  exact (Appended.refl h).congr_right rfl rfl rfl rfl rfl rfl

theorem appended_sendCmd (a : Byte → Action) {n : ℕ} (hn : p.cmdPos + n ≤ p.cmdLen)
    (h : p.replyLen ≤ bridgeBufSize) : Appended [] p (p.sendCmd a n) :=
  (appended_acts _ h).trans (appended_takeCmd hn h)

theorem appended_receiveReply {n : ℕ} (h : p.replyLen + n ≤ bridgeBufSize) :
    Appended (p.answerBytes n) p (p.receiveReply n) :=
  (appended_append _ (by simpa using h)).congr_right rfl rfl rfl rfl rfl rfl

namespace Ready

theorem cmdRemaining (h : p.Ready) : p.cmdRemaining = p.cmdLen - p.cmdPos :=
  cmdRemaining_eq h.cmdPos.le h.cmdLen

theorem replyRemaining (h : p.Ready) : p.replyRemaining = bridgeBufSize - p.replyLen :=
  replyRemaining_eq h.replyLen.le

theorem txLen_le (h : p.Ready) : p.cmdPos + p.txLen ≤ p.cmdLen := by
  have := h.cmdPos
  rw [txLen, h.cmdRemaining]
  omega

theorem rxLen_le (h : p.Ready) : p.replyLen + p.rxLen ≤ bridgeBufSize := by
  have := h.replyLen
  rw [rxLen, h.replyRemaining]
  omega

theorem txrxLen_le (h : p.Ready) : p.cmdPos + p.txrxLen ≤ p.cmdLen := by
  have := h.cmdPos
  rw [txrxLen, h.cmdRemaining]
  omega

theorem txrxLen_le' (h : p.Ready) : p.replyLen + p.txrxLen ≤ bridgeBufSize := by
  have := h.replyLen
  rw [txrxLen, h.replyRemaining]
  omega

/-- What `port_continue_cmd` reads is there. -/
theorem continueTake_le (h : p.Ready) : p.cmdPos + p.continueTake ≤ p.cmdLen := by
  unfold continueTake
  split
  · exact h.txrxLen_le
  · exact h.txLen_le
  · exact h.txLen_le
  · exact h.cmdPos
  · exact h.txrxLen_le
  · exact h.cmdPos.le

end Ready

/-- **What `port_continue_cmd` replies.** -/
theorem appended_continueCmd (h : p.Ready) : Appended p.continueReply p p.continueCmd.1 := by
  have hl := h.replyLen.le
  have he : Appended [] p (p.emit (.exec p.cmd)) := appended_emit _ rfl hl
  have hsend (a : Byte → Action) {n : ℕ} (hn : p.cmdPos + n ≤ p.cmdLen) :
      Appended [] p ((p.emit (.exec p.cmd)).sendCmd a n) :=
    he.trans (appended_sendCmd a hn hl)
  rcases hop : p.opcode with _ | c
  · simp only [continueCmd, continueReply, opcode_emit, hop]
    exact he
  · cases c <;> simp only [continueCmd, continueReply, opcode_emit, hop] <;> try exact he
    case echo =>
      have ht : Appended [] p ((p.emit (.exec p.cmd)).takeCmd p.txrxLen) :=
        he.trans (appended_takeCmd h.txrxLen_le hl)
      have hfit : p.replyLen + (p.cmdBytes p.txrxLen).length ≤ bridgeBufSize := by
        rw [length_cmdBytes h.txrxLen_le h.cmdLen]
        exact h.txrxLen_le'
      exact (ht.trans (appended_append _ hfit)).subArg0 _
    case tx =>
      cases hm : p.mode <;> simp only [mode_emit, hm]
      case none => exact he
      case spi => exact ((hsend _ h.txLen_le).subArg0 _).startTransfer _
      case i2c => exact ((hsend _ h.cmdPos).subArg0 _).startTransfer _
      case uart => exact ((hsend _ h.txLen_le).subArg0 _).startTransfer _
    case rx =>
      cases hm : p.mode <;> simp only [mode_emit, hm]
      case none => exact he
      case uart => exact he
      case spi =>
        have ha := he.trans (appended_acts (List.replicate p.rxLen (.spiByte dummyTx)) hl)
        exact ((ha.trans (appended_receiveReply h.rxLen_le)).subArg0 _).startTransfer _
      case i2c =>
        have ha := he.trans (appended_emit (.action .i2cRead) rfl hl)
        exact ((ha.trans (appended_receiveReply (n := 1) h.replyLen)).subArg0 _).startTransfer _
    case txrx =>
      cases hm : p.mode <;> simp only [mode_emit, hm]
      case none => exact he
      case i2c => exact he
      case uart => exact he
      case spi =>
        have hs := hsend .spiByte h.txrxLen_le
        have hfit : ((p.emit (.exec p.cmd)).sendCmd .spiByte p.txrxLen).replyLen + p.txrxLen ≤
            bridgeBufSize := by
          rw [hs.replyLen]
          exact h.txrxLen_le'
        exact ((hs.trans (appended_receiveReply hfit)).subArg0 _).startTransfer _

/-- Continuing a command moves the loop only along `cmd_buf`. -/
theorem control_continueCmd (h : p.Ready) :
    p.continueCmd.1.control = { p.control with cmdPos := p.cmdPos + p.continueTake } := by
  have hb : bridgeBufSize = 255 := rfl
  have htake := h.continueTake_le
  have hlen := h.cmdLen
  have hpos : p.control.cmdPos = p.cmdPos := rfl
  have hmod : (p.control.cmdPos + p.continueTake) % 256 = p.cmdPos + p.continueTake :=
    Nat.mod_eq_of_lt (by omega)
  have hmod0 : (p.control.cmdPos + 0) % 256 = p.cmdPos := Nat.mod_eq_of_lt (by omega)
  have hself : p.control = { p.control with cmdPos := p.cmdPos } := rfl
  have htx : (p.emit (.exec p.cmd)).txLen = p.txLen := rfl
  have htxrx : (p.emit (.exec p.cmd)).txrxLen = p.txrxLen := rfl
  rw [← hmod]
  rcases hop : p.opcode with _ | c
  · simp only [continueCmd, continueTake, opcode_emit, hop, control_emit, hmod0]
    exact hself
  · cases c <;> simp only [continueCmd, continueTake, opcode_emit, hop, control_emit, hmod0] <;>
      try exact hself
    case echo => simp only [control_subArg0, control_append, control_takeCmd, control_emit, htxrx]
    all_goals
      cases hm : p.mode <;> simp only [mode_emit, hm, control_startTransfer, control_subArg0,
        control_receiveReply, control_sendCmd, control_emit, control_act, control_acts, hmod0,
        htx, htxrx]
    all_goals exact hself

/-- `port_begin_cmd` has a case for the command. -/
def handled (p : PortData) : Bool := p.opcode != none && p.opcode != some .flush

/-- The status that `port_begin_cmd` returns. -/
def beginStatus (p : PortData) : ExecStatus :=
  match p.opcode with
  | some .echo | some .rx | some .txrx | some .tx => .continue
  | some .start => .async
  | _ => .done

theorem beginCmd_snd (p : PortData) : p.beginCmd.2 = p.beginStatus := by
  rcases hop : p.opcode with _ | c
  · simp only [beginCmd, beginStatus, opcode_emit, hop]
  · cases c <;> simp only [beginCmd, beginStatus, opcode_emit, hop]

theorem appended_begun (h : p.beginFits) : Appended p.beginReply p p.begun :=
  (appended_beginCmd h).congr_right rfl rfl rfl rfl rfl rfl

theorem control_begun (p : PortData) :
    p.begun.control = { p.control with state := p.beginStatus.toState } := by
  have h : p.begun.control =
    { p.beginCmd.1.control with state := p.beginCmd.2.toState } := rfl
  rw [h, control_beginCmd, beginCmd_snd]

theorem appended_continued (h : p.Ready) : Appended p.continueReply p p.continued :=
  (appended_continueCmd h).congr_right rfl rfl rfl rfl rfl rfl

theorem control_continued (h : p.Ready) :
    p.continued.control =
      { p.control with
        cmdPos := p.cmdPos + p.continueTake
        state := p.continueCmd.2.toState } := by
  have hc : p.continued.control =
    { p.continueCmd.1.control with state := p.continueCmd.2.toState } := rfl
  rw [hc, control_continueCmd h]

/-! ### The loop -/

theorem requestPacket_cases (p : PortData) :
    p.requestPacket = p ∧ (p.pendingOut ∨ p.cmdPos < p.cmdLen ∨ p.state = .execAsync) ∨
      p.requestPacket = { p.bridgeStartOut with pendingOut := true } ∧ p.pendingOut = false ∧
        p.cmdLen ≤ p.cmdPos := by
  by_cases h : p.requestDue
  · exact .inr ⟨if_pos h, by simpa using h.2.1, h.1⟩
  · refine .inl ⟨if_neg h, ?_⟩
    by_contra hn
    simp only [not_or, Nat.not_lt] at hn
    exact h ⟨hn.2.1, hn.1, fun ha => hn.2.2 ha.1⟩

theorem flushReply_cases (p : PortData) :
    p.flushReply = p ∧ (p.pendingIn ∨ p.replyLen < bridgeBufSize ∨ p.state = .execAsync) ∨
      p.flushReply = { p.bridgeStartIn with pendingIn := true } ∧ p.pendingIn = false ∧
        0 < p.replyLen := by
  have hb : bridgeBufSize = 255 := rfl
  by_cases h : p.flushDue
  · refine .inr ⟨if_pos h, by simpa using h.2.1, ?_⟩
    have := h.1
    omega
  · refine .inl ⟨if_neg h, ?_⟩
    by_contra hn
    simp only [not_or, Nat.not_lt] at hn
    exact h ⟨.inl hn.2.1, hn.1, fun ha => hn.2.2 ha.1⟩

/-- **A pass of the loop** waits, or leaves the loop in the middle of an asynchronous command, or
works on the state as it is, with a command byte to read and space to reply. -/
theorem iter_cases (p : PortData) :
    (p.transfers.waits ∧ p.iter = p.transfers.wait) ∨
      p.transfers = p ∧ p.waits = false ∧
        (p.state = .execAsync ∧ p.iter = { p with stepping := false } ∨
          p.state ≠ .execAsync ∧ p.cmdPos < p.cmdLen ∧ p.replyLen < bridgeBufSize ∧
            p.iter = p.dispatch) := by
  unfold iter
  split_ifs with h
  · exact .inl ⟨h, rfl⟩
  · have hno (q : PortData) (hq : q.waits = false) : q.pendingIn = false ∧ q.pendingOut = false := by
      simpa [waits] using hq
    simp only [transfers] at h ⊢
    obtain ⟨hin, hout⟩ := hno _ (by simpa using h)
    obtain ⟨hf, hfl⟩ | ⟨hf, -, -⟩ := flushReply_cases p.requestPacket
    · rw [hf] at hin hout h ⊢
      obtain ⟨hr, hrl⟩ | ⟨hr, -, -⟩ := requestPacket_cases p
      · rw [hr] at hin hout h hfl ⊢
        refine .inr ⟨rfl, by simpa using h, ?_⟩
        by_cases hs : p.state = .execAsync
        · exact .inl ⟨hs, by simp [dispatch, hs]⟩
        · simp only [hin, hout, hs, Bool.false_eq_true, false_or, or_false] at hfl hrl
          exact .inr ⟨hs, hrl, hfl, rfl⟩
      · rw [hr] at hout
        cases hout
    · rw [hf] at hin
      cases hin

/-- The port just before the pass of the loop calls `port_begin_cmd`, if it does. -/
def begins (p : PortData) : Option PortData :=
  if p.transfers.waits then none
  else
    match p.state with
    | .readCmd => if p.fetchCmd.argLen = 0 then some p.fetchCmd else none
    | .readArg => if p.argLen ≠ 0 ∧ p.fetchArg.argLen = 0 then some p.fetchArg else none
    | _ => none

end PortData

end TesselFirmware
