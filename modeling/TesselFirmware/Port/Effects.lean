import TesselFirmware.Port.Spec

/-!
# The effects of the port, by kind

`Emits P p q` says that from `p` to `q` there were only effects with the property `P`.  There is
one lemma for each function of the port, with the kinds of effects it can have as hypotheses; the
modules about errors and about the UART use them with their own `P`.
-/

namespace TesselFirmware

namespace PortData

variable {p q r : PortData}

@[simp] theorem replyLen_emit (p : PortData) (e : Effect) : (p.emit e).replyLen = p.replyLen := rfl

@[simp] theorem replyLen_gpio (p : PortData) (op : PinOp) (i : ℕ) :
    (p.gpio op i).replyLen = p.replyLen := rfl

@[simp] theorem replyLen_pinRead (p : PortData) (i : ℕ) :
    (p.pinRead i).2.replyLen = p.replyLen := rfl

/-- From `p` to `q` there were only effects with the property `P`. -/
structure Emits (P : Effect → Prop) (p q : PortData) : Prop where
  effects : ∃ es, (∀ e ∈ es, P e) ∧ q.effects = p.effects ++ es

namespace Emits

variable {P Q : Effect → Prop}

theorem refl (p : PortData) : Emits P p p := ⟨[], by simp, by simp⟩

theorem trans (h : Emits P p q) (h' : Emits P q r) : Emits P p r := by
  obtain ⟨es, hes, he⟩ := h.effects
  obtain ⟨es', hes', he'⟩ := h'.effects
  refine ⟨es ++ es', fun e hm => ?_, by rw [he', he, List.append_assoc]⟩
  obtain hm | hm := List.mem_append.1 hm
  · exact hes e hm
  · exact hes' e hm

theorem mono (h : Emits P p q) (hAQ : ∀ e, P e → Q e) : Emits Q p q := by
  obtain ⟨es, hes, he⟩ := h.effects
  exact ⟨es, fun e hm => hAQ e (hes e hm), he⟩

/-- Whatever else changes, the effects are what counts. -/
theorem congr_right {r : PortData} (h : Emits P p q) (he : r.effects = q.effects) :
    Emits P p r := by
  obtain ⟨es, hes, hq⟩ := h.effects
  exact ⟨es, hes, he.trans hq⟩

theorem subArg0 (h : Emits P p q) (n : ℕ) : Emits P p (q.subArg0 n) := h.congr_right rfl

theorem startTransfer (h : Emits P p q) (t : Transfer) : Emits P p (q.startTransfer t) :=
  h.congr_right rfl

theorem emit (p : PortData) {e : Effect} (he : P e) : Emits P p (p.emit e) :=
  ⟨[e], by simpa using he, rfl⟩

/-! ### Elementary steps and commands -/

section Actions

variable (hA : ∀ a, P (.action a))

include hA

theorem act (p : PortData) (a : Action) : Emits P p (p.act a) := emit p (hA a)

theorem acts (p : PortData) (as : List Action) : Emits P p (p.acts as) := by
  refine ⟨as.map .action, fun e he => ?_, rfl⟩
  obtain ⟨a, -, rfl⟩ := List.mem_map.1 he
  exact hA a

theorem gpio (p : PortData) (op : PinOp) (i : ℕ) : Emits P p (p.gpio op i) :=
  ⟨[.action (.pin op i)], by simpa using hA _, rfl⟩

theorem eicConfig (p : PortData) (i : ℕ) (sense : Byte) : Emits P p (p.eicConfig i sense) :=
  (gpio hA p (.eicConfig sense) i).congr_right rfl

theorem pinRead (p : PortData) (i : ℕ) : Emits P p (p.pinRead i).2 :=
  (gpio hA p .read i).congr_right rfl

theorem sendCmd (p : PortData) (a : Byte → Action) (n : ℕ) : Emits P p (p.sendCmd a n) :=
  (acts hA p _).congr_right rfl

theorem gpioPull (p : PortData) : Emits P p p.gpioPull := by
  unfold PortData.gpioPull
  dsimp only
  split_ifs
  · exact gpio hA p _ _
  · exact gpio hA p _ _
  · exact gpio hA p _ _
  · exact refl p

theorem gpioInt (p : PortData) : Emits P p p.gpioInt := by
  have hcheck : Emits P p (p.check ((p.argAt 0 &&& 0x7#8).toNat < 8)) := (refl p).congr_right rfl
  simp only [PortData.gpioInt]
  generalize p.check ((p.argAt 0 &&& 0x7#8).toNat < 8) = q at hcheck ⊢
  split_ifs
  · exact hcheck.trans ((gpio hA _ _ _).trans (eicConfig hA _ _ _))
  · exact hcheck.trans ((eicConfig hA _ _ _).trans (gpio hA _ _ _))
  · exact hcheck

end Actions

section Replies

variable (hA : ∀ a, P (.action a)) (hR : ∀ b, P (.reply b))

section

include hR

theorem appendByte (p : PortData) (b : Byte) : Emits P p (p.appendByte b) :=
  ⟨[.reply b], by simpa using hR b, rfl⟩

theorem append (p : PortData) (bs : List Byte) : Emits P p (p.append bs) := by
  induction bs generalizing p with
  | nil => exact .refl p
  | cons b bs ih => exact (appendByte hR p b).trans (ih _)

theorem receiveReply (p : PortData) (n : ℕ) : Emits P p (p.receiveReply n) :=
  (append hR p _).congr_right rfl

/-- A status is appended, or an error is signalled. -/
theorem sendStatus (p : PortData) (b : Byte)
    (herr : p.replyLen < bridgeBufSize ∨ P (.call .disableChan)) :
    Emits P p (p.sendStatus b) := by
  unfold PortData.sendStatus
  split_ifs with h
  · exact emit p (herr.resolve_left (by omega))
  · exact appendByte hR p b

end

include hA hR

/-- A command executes, and signals an error if it has no case or no space for its status. -/
theorem beginCmd (p : PortData) (hexec : P (.exec p.cmd))
    (herr : (p.handled ∧ p.replyLen < bridgeBufSize) ∨ P (.call .disableChan)) :
    Emits P p p.beginCmd.1 := by
  have he : Emits P p (p.emit (.exec p.cmd)) := emit p hexec
  have hst {q : PortData} (hq : Emits P p q) (hl : q.replyLen = p.replyLen) (b : Byte) :
      Emits P p (q.sendStatus b) :=
    hq.trans (sendStatus hR q b (herr.imp_left fun h => hl ▸ h.2))
  have hgpio {q : PortData} (hq : Emits P p q) (op : PinOp) (i : ℕ) : Emits P p (q.gpio op i) :=
    hq.trans (gpio hA q op i)
  have hread {q : PortData} (hq : Emits P p q) (i : ℕ) : Emits P p (q.pinRead i).2 :=
    hq.trans (pinRead hA q i)
  have hfail (hno : p.handled = false) : Emits P p (p.emit (.exec p.cmd)).error :=
    he.trans (emit _ (herr.resolve_left fun h => by simp [hno] at h))
  rcases hop : p.opcode with _ | c
  · simp only [PortData.beginCmd, opcode_emit, hop]
    exact hfail (by simp [handled, hop])
  · cases c <;> simp only [PortData.beginCmd, opcode_emit, hop]
    case flush => exact hfail (by simp [handled, hop])
    case nop => exact he
    case tx => exact he
    case gpioWait => exact he
    case gpioCfg => exact he
    case echo => exact hst he rfl _
    case rx => exact hst he rfl _
    case txrx => exact hst he rfl _
    case gpioIn =>
      refine hst (hread (hgpio he _ _) _) ?_ _
      simp only [replyLen_pinRead, replyLen_gpio, replyLen_emit]
    case gpioRawRead =>
      refine hst (hread he _) ?_ _
      simp only [replyLen_pinRead, replyLen_emit]
    case gpioHigh => exact hgpio (hgpio he _ _) _ _
    case gpioLow => exact hgpio (hgpio he _ _) _ _
    case gpioToggle => exact hgpio (hgpio he _ _) _ _
    case gpioInput => exact hgpio he _ _
    case gpioPull => exact he.trans (gpioPull hA _)
    case gpioInt => exact he.trans (gpioInt hA _)
    case analogRead =>
      have hg := (hgpio he .adcRead (p.emit (.exec p.cmd)).selectedPin).congr_right (r :=
        ((p.emit (.exec p.cmd)).gpio .adcRead (p.emit (.exec p.cmd)).selectedPin).answered) rfl
      exact hg.trans (append hR _ [_, _, _])
    case analogWrite => exact he.trans (act hA _ _)
    case enableSpi => exact (he.trans (acts hA _ _)).congr_right rfl
    case disableSpi => exact (he.trans (acts hA _ _)).congr_right rfl
    case enableI2c => exact (he.trans (acts hA _ _)).congr_right rfl
    case disableI2c => exact (he.trans (acts hA _ _)).congr_right rfl
    case start =>
      exact he.trans ((emit _ (hA (.i2cAddr (p.argAt 0)))).congr_right rfl)
    case stop => exact he.trans (act hA _ _)
    case enableUart => exact (he.trans (acts hA _ _)).congr_right rfl
    case disableUart => exact (he.trans (acts hA _ _)).congr_right rfl
    case pwmDutyCycle => exact hgpio he _ _
    case pwmPeriod => exact he.trans (act hA _ _)

theorem continueCmd (p : PortData) (hexec : P (.exec p.cmd)) : Emits P p p.continueCmd.1 := by
  have he : Emits P p (p.emit (.exec p.cmd)) := emit p hexec
  rcases hop : p.opcode with _ | c
  · simp only [PortData.continueCmd, opcode_emit, hop]
    exact he
  · cases c <;> simp only [PortData.continueCmd, opcode_emit, hop] <;> try exact he
    case echo =>
      have ht := he.congr_right (r := (p.emit (.exec p.cmd)).takeCmd p.txrxLen) rfl
      exact (ht.trans (append hR _ _)).subArg0 _
    case tx =>
      cases hm : p.mode <;> simp only [mode_emit, hm]
      case none => exact he
      case spi => exact ((he.trans (sendCmd hA _ _ _)).subArg0 _).startTransfer _
      case i2c => exact ((he.trans (sendCmd hA _ _ _)).subArg0 _).startTransfer _
      case uart => exact ((he.trans (sendCmd hA _ _ _)).subArg0 _).startTransfer _
    case rx =>
      cases hm : p.mode <;> simp only [mode_emit, hm]
      case none => exact he
      case uart => exact he
      case spi =>
        exact (((he.trans (acts hA _ _)).trans (receiveReply hR _ _)).subArg0 _).startTransfer _
      case i2c =>
        have ha := he.trans (emit (p.emit (.exec p.cmd)) (hA .i2cRead))
        exact ((ha.trans (receiveReply hR _ 1)).subArg0 1).startTransfer _
    case txrx =>
      cases hm : p.mode <;> simp only [mode_emit, hm]
      case none => exact he
      case i2c => exact he
      case uart => exact he
      case spi =>
        exact (((he.trans (sendCmd hA _ _ _)).trans
          (receiveReply hR _ _)).subArg0 _).startTransfer _

/-- `port_begin_cmd` in the loop. -/
theorem begun (p : PortData) (hexec : P (.exec p.cmd))
    (herr : (p.handled ∧ p.replyLen < bridgeBufSize) ∨ P (.call .disableChan)) :
    Emits P p p.begun :=
  (beginCmd hA hR p hexec herr).congr_right rfl

/-- `port_continue_cmd` in the loop. -/
theorem continued (p : PortData) (hexec : P (.exec p.cmd)) : Emits P p p.continued :=
  (continueCmd hA hR p hexec).congr_right rfl

end Replies

/-! ### The handlers -/

section Handlers

variable (hA : ∀ a, P (.action a)) (hR : ∀ b, P (.reply b)) (hD : P (.call .disableChan))

theorem foldl (f : PortData → ℕ → PortData) (hf : ∀ q i, Emits P q (f q i)) (h : Emits P p q)
    (is : List ℕ) : Emits P p (is.foldl f q) :=
  List.foldlRecOn (motive := Emits P p) is f h fun q hq i _ => hq.trans (hf q i)

theorem uartTaken (h : Emits P p q) (n : ℕ) : Emits P p (q.uartTaken n) := h.congr_right rfl

section

include hD

theorem error (h : Emits P p q) : Emits P p q.error := h.trans (emit q hD)

theorem step (h : Emits P p q) : Emits P p q.step := by
  unfold PortData.step
  split_ifs
  · exact error hD h
  · exact h.congr_right rfl

theorem asyncCompletion (h : Emits P p q) : Emits P p q.asyncCompletion := by
  unfold PortData.asyncCompletion
  split_ifs
  · exact step hD (q := q.transferred) (h.congr_right rfl)
  · exact error hD h

end

section

include hA

theorem disablePin (p : PortData) (i : ℕ) : Emits P p (p.disablePin i) := by
  unfold PortData.disablePin
  dsimp only
  split_ifs
  · exact .trans (eicConfig hA p _ _) (gpio hA _ _ _)
  · exact gpio hA p _ _

theorem disable (p : PortData) (hE : P (.call .enableChan)) : Emits P p p.disable := by
  unfold PortData.disable
  dsimp only
  generalize hq : ({ p with state := .disable, transfer := none } : PortData) = q
  have hpq : Emits P p q := by
    subst hq
    exact (Emits.refl p).congr_right rfl
  have hacts (as : List Action) : Emits P p (q.acts as).disableAsyncEvents :=
    (hpq.trans (acts hA q as)).congr_right rfl
  exact .trans (foldl _ (disablePin hA) (hacts _) _) (.trans (act hA _ _) (emit _ hE))

/-- Everything after the mark of `port_enable`. -/
theorem enable (p : PortData) (hO : P (.call .startOut)) :
    Emits P (p.emit .enabled) p.enable := by
  have hreset : Emits P (p.emit .enabled) (p.emit .enabled).bridgeStartOut.reset :=
    ⟨[.call .startOut], by simpa using hO, rfl⟩
  exact foldl _ (fun r i => gpio hA r .pullUp i) (hreset.trans (act hA _ _)) _

end

include hR hD in
theorem uartSendData (h : Emits P p q) (hU : P (.uartPacket q.pendingIn q.dataOpen)) :
    Emits P p q.uartSendData := by
  unfold PortData.uartSendData
  dsimp only
  split_ifs
  · exact error hD h
  · exact step hD (uartTaken ((h.trans (emit q hU)).trans (append hR _ _)) _)
  · exact h

include hA hR hD in
theorem extintPin (flags : BitVec 32) (p : PortData) (i : ℕ) :
    Emits P p (p.extintPin flags i) := by
  unfold PortData.extintPin
  split_ifs
  · have hread : Emits P p ((p.check (i < 8)).pinRead p.selectedPin).2 :=
      .trans (q := p.check (i < 8)) ((Emits.refl p).congr_right rfl) (pinRead hA _ _)
    generalize (p.check (i < 8)).pinRead p.selectedPin = r at hread ⊢
    obtain ⟨high, q⟩ := r
    dsimp only at hread ⊢
    generalize (if high = true then _ else _ : Byte) = response
    have hst := hread.trans (sendStatus hR q response (.inr hD))
    split_ifs
    · exact hst.trans (eicConfig hA _ _ _)
    · exact hst
  · exact .refl p

include hA hR hD in
theorem handleExtint (flags : BitVec 32) (p : PortData) : Emits P p (p.handleExtint flags) := by
  unfold PortData.handleExtint
  split_ifs
  · exact step hD (foldl _ (extintPin hA hR hD flags) (.refl p) _)
  · exact error hD (.refl p)

include hA hR hD in
theorem handleSercomUartI2c (p : PortData) (rxc : Option Byte) (err : Bool)
    (hU : p.asyncEventsAllowed → P (.uartPacket p.pendingIn p.dataOpen)) :
    Emits P p (p.handleSercomUartI2c rxc err) := by
  unfold PortData.handleSercomUartI2c
  split
  · split
    · next b =>
      have hpush : Emits P p ((p.act (.tccDelayStart (200 * 10))).uartPush b) :=
        (act hA p (.tccDelayStart (200 * 10))).congr_right rfl
      dsimp only
      split_ifs with hfull
      · exact uartSendData hR hD hpush (hU hfull.2)
      · exact hpush
    · exact .refl p
  · dsimp only
    split_ifs
    · exact asyncCompletion hD (error hD (.refl p))
    · exact asyncCompletion hD (.refl p)
  · exact error hD (.refl p)
  · exact error hD (.refl p)

include hA hR hD in
/-- The part of a pass of the loop after its transfers. -/
theorem dispatch (p : PortData) (hX : ∀ cmd, P (.exec cmd)) : Emits P p p.dispatch := by
  unfold PortData.dispatch
  cases p.state
  case disable => exact .refl p
  case execAsync => exact (Emits.refl p).congr_right rfl
  case exec => exact continued hA hR p (hX _)
  case readCmd =>
    have hf : Emits P p p.fetchCmd := (Emits.refl p).congr_right rfl
    simp only [PortData.readCommand]
    split_ifs
    · exact hf.congr_right rfl
    · exact hf.trans (begun hA hR _ (hX _) (.inr hD))
  case readArg =>
    have hf : Emits P p p.fetchArg := (Emits.refl p).congr_right rfl
    simp only [PortData.readArgument]
    split_ifs
    · exact (error hD (.refl p)).congr_right rfl
    · exact hf.trans (begun hA hR _ (hX _) (.inr hD))
    · exact hf

end Handlers

end Emits

/-! ### Commands that only act -/

/-- The actions of a command that replies nothing, for the commands that have always the same. -/
def beginActions (p : PortData) : Option (List Action) :=
  match p.opcode with
  | some .nop | some .gpioWait | some .gpioCfg => some []
  | some .gpioInput => some [.pin .input p.selectedPin]
  | some .gpioHigh => some [.pin .high p.selectedPin, .pin .output p.selectedPin]
  | some .gpioLow => some [.pin .low p.selectedPin, .pin .output p.selectedPin]
  | some .gpioToggle => some [.pin .toggle p.selectedPin, .pin .output p.selectedPin]
  | some .analogWrite => some [.dacWrite (p.argWord 0)]
  | some .enableSpi => some [.sercomClockEnable .spi (p.argAt 2),
      .spiMasterInit (Byte.has (p.argAt 0) 0) (Byte.has (p.argAt 0) 1) (p.argAt 1),
      .dmaConfigure .tx .spi, .dmaConfigure .rx .spi, .dmaEnableInterrupt .rx,
      .pin .mux mosi, .pin .mux miso, .pin .mux sck]
  | some .disableSpi => some [.pin .gpio mosi, .pin .gpio miso, .pin .gpio sck]
  | some .enableI2c =>
    some [.i2cMasterInit (p.argAt 0), .pin .mux sda, .pin .mux scl, .i2cEnableError]
  | some .disableI2c => some [.pin .gpio sda, .pin .gpio scl]
  | some .start => some [.i2cAddr (p.argAt 0)]
  | some .stop => some [.i2cStop]
  | some .enableUart => some [.pin .mux tx, .pin .mux rx, .uartInit (p.argWord 0),
      .dmaConfigure .tx .uartI2c, .dmaEnableInterrupt .tx, .uartEnableRxc, .tccDelayEnable]
  | some .disableUart =>
    some [.uartDisableRxc, .tccDelayDisable, .pin .gpio tx, .pin .gpio rx]
  | some .pwmDutyCycle => some [.pin (.pwmDuty (p.argWord 1)) (p.argAt 0).toNat]
  | some .pwmPeriod =>
    some [.pwmPeriod (p.argAt 0 &&& 0x7#8) (p.argAt 0 >>> 4) (p.argWord 1)]
  -- `CMD_GPIO_PULL` and `CMD_GPIO_INT` look at the pin and at their mode first
  | _ => none

/-- **A command that only acts**: the mark of its execution, and then its actions. -/
theorem effects_begun {as : List Action} (h : p.beginActions = some as) :
    p.begun.effects = p.effects ++ .exec p.cmd :: as.map .action := by
  have hassoc (es es' : List Effect) : es ++ [.exec p.cmd] ++ es' = es ++ .exec p.cmd :: es' :=
    List.append_assoc es [_] es'
  unfold beginActions at h
  rcases hop : p.opcode with _ | c
  · simp [hop] at h
  · cases c <;> simp only [hop, reduceCtorEq, Option.some.injEq] at h
    all_goals
      subst h
      simp only [begun, beginCmd, opcode_emit, hop]
      rw [← hassoc]
    case gpioHigh | gpioLow | gpioToggle => exact List.append_assoc _ [_] [_]
    case nop | gpioWait | gpioCfg => exact (List.append_nil _).symm
    all_goals rfl

end PortData

end TesselFirmware
