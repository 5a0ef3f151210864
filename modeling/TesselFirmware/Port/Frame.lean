import TesselFirmware.Port.Effects

/-!
# What the elementary steps leave alone

Commands and reports consist of a few elementary steps.  `Frame P R` says that the relation `R`
between an earlier and a later state survives each of them, as long as its effect has the property
`P`; the lemmas of this module say which functions of the port keep to such a relation.  Neither
the switching of modes nor transfers are elementary steps: the lemmas about these take their own
hypotheses.

* `Frame.of_eq` : a part of the state that the elementary steps leave alone;
* `Frame.emits` : the effects so far, followed by some with the property `P`.
-/

namespace TesselFirmware

/-- The command neither switches the mode nor starts a transfer by itself. -/
def PortCmd.plain : Option PortCmd → Bool
  | some .enableSpi | some .disableSpi | some .enableI2c | some .disableI2c
  | some .enableUart | some .disableUart | some .start => false
  | _ => true

/-- The actions of plain commands. -/
def Action.plain : Action → Bool
  | .pin _ _ | .dacWrite _ | .i2cStop | .pwmPeriod _ _ _ => true
  | _ => false

/-- The effects of plain commands. -/
def Effect.plain : Effect → Bool
  | .action a => a.plain
  | .exec _ | .reply _ | .call .disableChan => true
  | _ => false

/-- The actions of `port_continue_cmd`. -/
def Action.moves : Action → Bool
  | .spiByte _ | .uartByte _ | .i2cWrite _ | .i2cRead => true
  | _ => false

namespace PortData

variable {P : Effect → Prop} {R : PortData → PortData → Prop} {p q r : PortData}

/-- The elementary steps whose effects have the property `P` keep to the relation `R`. -/
structure Frame (P : Effect → Prop) (R : PortData → PortData → Prop) : Prop where
  refl : ∀ p, R p p
  trans : ∀ {p q r}, R p q → R q r → R p r
  emit : ∀ p e, P e → R p (p.emit e)
  acts : ∀ p as, (∀ a ∈ as, P (.action a)) → R p (p.acts as)
  appendByte : ∀ p b, P (.reply b) → R p (p.appendByte b)
  check : ∀ p b, R p (p.check b)
  answers : ∀ (p : PortData) a, R p { p with answers := a }
  sense : ∀ (p : PortData) s, R p { p with sense := s }
  cmdPos : ∀ (p : PortData) n, R p { p with cmdPos := n }

namespace Frame

/-- A part of the state that no elementary step changes. -/
theorem of_eq {α : Type*} (f : PortData → α) (hemit : ∀ p e, P e → f (p.emit e) = f p)
    (hacts : ∀ p as, f (p.acts as) = f p) (hbyte : ∀ p b, f (p.appendByte b) = f p)
    (hcheck : ∀ p b, f (p.check b) = f p)
    (hanswers : ∀ (p : PortData) a, f { p with answers := a } = f p)
    (hsense : ∀ (p : PortData) s, f { p with sense := s } = f p)
    (hpos : ∀ (p : PortData) n, f { p with cmdPos := n } = f p) :
    Frame P fun p q => f q = f p where
  refl := fun _ => rfl
  trans := fun h h' => h'.trans h
  emit := hemit
  acts := fun p as _ => hacts p as
  appendByte := fun p b _ => hbyte p b
  check := hcheck
  answers := hanswers
  sense := hsense
  cmdPos := hpos

/-- The effects of the elementary steps. -/
theorem emits (P : Effect → Prop) : Frame P (Emits P) where
  refl := .refl
  trans := fun h h' => h.trans h'
  emit := fun p _ he => .emit p he
  acts := by
    intro p as has
    refine ⟨as.map .action, fun e he => ?_, rfl⟩
    obtain ⟨a, ha, rfl⟩ := List.mem_map.1 he
    exact has a ha
  appendByte := fun _ b hb => ⟨[.reply b], by simpa using hb, rfl⟩
  check := fun p _ => (Emits.refl p).congr_right rfl
  answers := fun p _ => (Emits.refl p).congr_right rfl
  sense := fun p _ => (Emits.refl p).congr_right rfl
  cmdPos := fun p _ => (Emits.refl p).congr_right rfl

theorem act (hf : Frame P R) (p : PortData) {a : Action} (ha : P (.action a)) : R p (p.act a) :=
  hf.emit p _ ha

theorem gpio (hf : Frame P R) (p : PortData) {op : PinOp} {i : ℕ}
    (ha : P (.action (.pin op i))) : R p (p.gpio op i) :=
  hf.trans (hf.check p _) (hf.act _ ha)

theorem answered (hf : Frame P R) (p : PortData) : R p p.answered := hf.answers p _

theorem takeCmd (hf : Frame P R) (p : PortData) (n : ℕ) : R p (p.takeCmd n) :=
  hf.trans (hf.check p _) (hf.cmdPos _ _)

theorem eicConfig (hf : Frame P R) (p : PortData) {i : ℕ} {sense : Byte}
    (ha : P (.action (.pin (.eicConfig sense) i))) : R p (p.eicConfig i sense) :=
  hf.trans (hf.gpio p ha) (hf.sense _ _)

theorem pinRead (hf : Frame P R) (p : PortData) {i : ℕ} (ha : P (.action (.pin .read i))) :
    R p (p.pinRead i).2 :=
  hf.trans (hf.gpio p ha) (hf.answered _)

theorem error (hf : Frame P R) (p : PortData) (hD : P (.call .disableChan)) : R p p.error :=
  hf.emit p _ hD

theorem append (hf : Frame P R) (hR : ∀ b, P (.reply b)) (bs : List Byte) :
    ∀ p : PortData, R p (p.append bs) := by
  induction bs with
  | nil => exact hf.refl
  | cons b bs ih => exact fun p => hf.trans (hf.appendByte p b (hR b)) (ih _)

theorem receiveReply (hf : Frame P R) (hR : ∀ b, P (.reply b)) (p : PortData) (n : ℕ) :
    R p (p.receiveReply n) :=
  hf.trans (hf.append hR _ p) (hf.answers _ _)

theorem sendStatus (hf : Frame P R) (p : PortData) {b : Byte} (hR : P (.reply b))
    (hD : P (.call .disableChan)) : R p (p.sendStatus b) := by
  unfold PortData.sendStatus
  split_ifs
  · exact hf.error p hD
  · exact hf.appendByte p b hR

theorem foldl (hf : Frame P R) {g : PortData → ℕ → PortData} (hg : ∀ p i, R p (g p i))
    (p : PortData) (is : List ℕ) : R p (is.foldl g p) :=
  List.foldlRecOn (motive := R p) is g (hf.refl p) fun q hq i _ => hf.trans hq (hg q i)

section Commands

variable (hf : Frame P R) (hP : ∀ e : Effect, e.plain → P e)

include hf hP

theorem gpioPull (p : PortData) : R p p.gpioPull := by
  unfold PortData.gpioPull
  dsimp only
  split_ifs
  · exact hf.gpio p (hP _ rfl)
  · exact hf.gpio p (hP _ rfl)
  · exact hf.gpio p (hP _ rfl)
  · exact hf.refl p

theorem gpioInt (p : PortData) : R p p.gpioInt := by
  have hcheck : R p (p.check ((p.argAt 0 &&& 0x7#8).toNat < 8)) := hf.check p _
  simp only [PortData.gpioInt]
  generalize p.check ((p.argAt 0 &&& 0x7#8).toNat < 8) = q at hcheck ⊢
  split_ifs
  · exact hf.trans hcheck (hf.trans (hf.gpio q (hP _ rfl)) (hf.eicConfig _ (hP _ rfl)))
  · exact hf.trans hcheck (hf.trans (hf.eicConfig q (hP _ rfl)) (hf.gpio _ (hP _ rfl)))
  · exact hcheck

/-- A plain command. -/
theorem beginCmd (p : PortData) (hc : PortCmd.plain p.opcode) : R p p.beginCmd.1 := by
  have he : R p (p.emit (.exec p.cmd)) := hf.emit p _ (hP _ rfl)
  have hst {q : PortData} (hq : R p q) (b : Byte) : R p (q.sendStatus b) :=
    hf.trans hq (hf.sendStatus q (hP _ rfl) (hP _ rfl))
  have hgpio {q : PortData} (hq : R p q) (op : PinOp) (i : ℕ) : R p (q.gpio op i) :=
    hf.trans hq (hf.gpio q (hP _ rfl))
  have hread {q : PortData} (hq : R p q) (i : ℕ) : R p (q.pinRead i).2 :=
    hf.trans hq (hf.pinRead q (hP _ rfl))
  have hbyte {q : PortData} (hq : R p q) (b : Byte) : R p (q.appendByte b) :=
    hf.trans hq (hf.appendByte q b (hP _ rfl))
  rcases hop : p.opcode with _ | c
  · simp only [PortData.beginCmd, opcode_emit, hop]
    exact hf.trans he (hf.error _ (hP _ rfl))
  · rw [hop] at hc
    cases c <;> simp only [PortCmd.plain, Bool.false_eq_true] at hc <;>
      simp only [PortData.beginCmd, opcode_emit, hop]
    case flush => exact hf.trans he (hf.error _ (hP _ rfl))
    case nop => exact he
    case tx => exact he
    case gpioWait => exact he
    case gpioCfg => exact he
    case echo => exact hst he _
    case rx => exact hst he _
    case txrx => exact hst he _
    case gpioIn => exact hst (hread (hgpio he _ _) _) _
    case gpioRawRead => exact hst (hread he _) _
    case gpioInput => exact hgpio he _ _
    case gpioHigh => exact hgpio (hgpio he _ _) _ _
    case gpioLow => exact hgpio (hgpio he _ _) _ _
    case gpioToggle => exact hgpio (hgpio he _ _) _ _
    case gpioPull => exact hf.trans he (hf.gpioPull hP _)
    case gpioInt => exact hf.trans he (hf.gpioInt hP _)
    case analogRead =>
      exact hbyte (hbyte (hbyte (hf.trans (hgpio he _ _) (hf.answered _)) _) _) _
    case analogWrite => exact hf.trans he (hf.act _ (hP _ rfl))
    case stop => exact hf.trans he (hf.act _ (hP _ rfl))
    case pwmDutyCycle => exact hgpio he _ _
    case pwmPeriod => exact hf.trans he (hf.act _ (hP _ rfl))

/-- The report of one pin. -/
theorem extintPin (flags : BitVec 32) (p : PortData) (i : ℕ) : R p (p.extintPin flags i) := by
  unfold PortData.extintPin
  split_ifs
  · have hread : R p ((p.check (i < 8)).pinRead p.selectedPin).2 :=
      hf.trans (hf.check p _) (hf.pinRead _ (hP _ rfl))
    generalize (p.check (i < 8)).pinRead p.selectedPin = r at hread ⊢
    obtain ⟨high, q⟩ := r
    dsimp only at hread ⊢
    generalize (if high = true then _ else _ : Byte) = response
    have hst : R p (q.sendStatus response) :=
      hf.trans hread (hf.sendStatus q (hP _ rfl) (hP _ rfl))
    split_ifs
    · exact hf.trans hst (hf.eicConfig _ (hP _ rfl))
    · exact hst
  · exact hf.refl p

theorem disablePin (p : PortData) (i : ℕ) : R p (p.disablePin i) := by
  unfold PortData.disablePin
  dsimp only
  split_ifs
  · exact hf.trans (hf.eicConfig p (hP _ rfl)) (hf.gpio _ (hP _ rfl))
  · exact hf.gpio p (hP _ rfl)

/-- A part of a payload, if the relation does not depend on the count in `arg[0]` and on the
running transfer. -/
theorem continueCmd (hA : ∀ a : Action, a.moves → P (.action a))
    (harg : ∀ (p : PortData) b, R p (p.setArg0 b))
    (htr : ∀ (p : PortData) t, R p (p.startTransfer t)) (p : PortData) :
    R p p.continueCmd.1 := by
  have he : R p (p.emit (.exec p.cmd)) := hf.emit p _ (hP _ rfl)
  have hR : ∀ b, P (.reply b) := fun b => hP _ rfl
  have hsend {q : PortData} (hq : R p q) (a : Byte → Action) (n : ℕ) (ha : ∀ b, (a b).moves) :
      R p (q.sendCmd a n) := by
    refine hf.trans hq (hf.trans (hf.acts q _ fun x hx => ?_) (hf.takeCmd _ n))
    obtain ⟨b, -, rfl⟩ := List.mem_map.1 hx
    exact hA _ (ha b)
  have hrecv {q : PortData} (hq : R p q) (n : ℕ) : R p (q.receiveReply n) :=
    hf.trans hq (hf.receiveReply hR q n)
  have hsub {q : PortData} (hq : R p q) (n : ℕ) : R p (q.subArg0 n) := hf.trans hq (harg q _)
  have hstart {q : PortData} (hq : R p q) (t : Transfer) : R p (q.startTransfer t) :=
    hf.trans hq (htr q t)
  rcases hop : p.opcode with _ | c
  · simp only [PortData.continueCmd, opcode_emit, hop]
    exact he
  · cases c <;> simp only [PortData.continueCmd, opcode_emit, hop] <;> try exact he
    case echo => exact hsub (hf.trans (hf.trans he (hf.takeCmd _ _)) (hf.append hR _ _)) _
    case tx =>
      cases hm : p.mode <;> simp only [mode_emit, hm]
      case none => exact he
      case spi => exact hstart (hsub (hsend he _ _ fun _ => rfl) _) _
      case i2c => exact hstart (hsub (hsend he _ _ fun _ => rfl) _) _
      case uart => exact hstart (hsub (hsend he _ _ fun _ => rfl) _) _
    case rx =>
      cases hm : p.mode <;> simp only [mode_emit, hm]
      case none => exact he
      case uart => exact he
      case spi =>
        refine hstart (hsub (hrecv (hf.trans he (hf.acts _ _ fun a ha => ?_)) _) _) _
        rw [List.eq_of_mem_replicate ha]
        exact hA _ rfl
      case i2c => exact hstart (hsub (hrecv (hf.trans he (hf.act _ (hA _ rfl))) _) _) _
    case txrx =>
      cases hm : p.mode <;> simp only [mode_emit, hm]
      case none => exact he
      case i2c => exact he
      case uart => exact he
      case spi => exact hstart (hsub (hrecv (hsend he _ _ fun _ => rfl) _) _) _

end Commands

end Frame

end PortData

end TesselFirmware
