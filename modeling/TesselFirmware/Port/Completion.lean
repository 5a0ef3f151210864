import TesselFirmware.Port.Space

/-!
# Completions of asynchronous commands

`port_continue_cmd` returns `EXEC_ASYNC` for every TX, RX and TXRX command, whether or not its mode
has a branch for it and whatever is left of its length; and `CMD_START` starts an address phase of
the I2C master in every mode.

`Watched.machine` is the port together with the interrupts that call its completion handlers, as
they are switched by its effects.

* `Watched.coming_of_operable` : a port in `PORT_EXEC_ASYNC` has started an operation whose interrupt
  is enabled, in every run in which the commands that start one find their peripheral enabled and a
  length that is not zero;
* `Watched.not_coming_txRun` : and otherwise it need not have.
-/

namespace TesselFirmware

/-- The interrupts that call the completion handlers of a port: those of its two DMA channels, and
those of the I2C master at the end of a byte that it writes and of one that it reads. -/
inductive Irq
  | dmaTx
  | dmaRx
  | i2cMb
  | i2cSb
  deriving DecidableEq, Repr

/-- The interrupt at the end of an operation of the peripheral that is enabled in a mode: a transfer
with at least one byte, or a phase of the I2C master. -/
def Action.completion : PortMode → Action → Option Irq
  | .spi, .spiByte _ => some .dmaRx
  | .uart, .uartByte _ => some .dmaTx
  | .i2c, .i2cAddr b => some (if Byte.has b 0 then .i2cSb else .i2cMb)
  | .i2c, .i2cWrite _ => some .i2cMb
  | .i2c, .i2cRead => some .i2cSb
  | _, _ => none

/-- A DMA interrupt belongs to one mode. -/
theorem Action.mode_of_completion {m : PortMode} {a : Action} {k : Irq}
    (h : a.completion m = some k) (hdma : k = .dmaRx ∨ k = .dmaTx) :
    k = .dmaRx ∧ m = .spi ∨ k = .dmaTx ∧ m = .uart := by
  have hi2c : k ≠ .i2cMb ∧ k ≠ .i2cSb := by
    rcases hdma with rfl | rfl <;> decide
  unfold Action.completion at h
  split at h <;> simp only [Option.some.injEq, reduceCtorEq] at h
  · exact .inl ⟨h.symm, rfl⟩
  · exact .inr ⟨h.symm, rfl⟩
  · split_ifs at h
    · exact absurd h.symm hi2c.2
    · exact absurd h.symm hi2c.1
  · exact absurd h.symm hi2c.1
  · exact absurd h.symm hi2c.2

/-- The interrupt of a DMA channel. -/
def DmaDir.irq : DmaDir → Irq
  | tx => .dmaTx
  | rx => .dmaRx

/-- What an action does to the enabled interrupts.  Configuring a DMA channel resets it, and so
does the initialization of the I2C master or the UART with their interrupts. -/
def Action.switch (on : Irq → Bool) (k : Irq) : Action → Bool
  | .dmaConfigure d _ => k != d.irq && on k
  | .dmaEnableInterrupt d => k == d.irq || on k
  | .i2cAddr b => k == (if Byte.has b 0 then .i2cSb else .i2cMb) || on k
  | .i2cWrite _ => k == .i2cMb || on k
  | .i2cRead => k == .i2cSb || on k
  | .i2cMasterInit _ | .uartInit _ | .sercomReset .uartI2c => k != .i2cMb && k != .i2cSb && on k
  | _ => on k

namespace Irq

/-- What an effect does to the enabled interrupts. -/
def next (on : Irq → Bool) (e : Effect) (k : Irq) : Bool :=
  match e with
  | .action a => a.switch on k
  | _ => on k

/-- The interrupts after some effects. -/
def after (on : Irq → Bool) (es : List Effect) : Irq → Bool := es.foldl next on

end Irq

/-- The effect disables no interrupt. -/
def Effect.arming (e : Effect) : Prop :=
  ∀ (on : Irq → Bool) (k : Irq), on k = true → Irq.next on e k = true

/-- The effect disables no interrupt of a DMA channel. -/
def Effect.dmaArming (e : Effect) : Prop :=
  ∀ (on : Irq → Bool) (k : Irq), k ≠ .i2cMb → k ≠ .i2cSb → on k = true → Irq.next on e k = true

/-- The effect disables no interrupt, and begins no command. -/
structure Effect.Steady (e : Effect) : Prop where
  arming : e.arming
  ne_exec : ∀ c, e ≠ .exec c

theorem Irq.after_of_arming {es : List Effect} (h : ∀ e ∈ es, e.arming) : ∀ (on : Irq → Bool) {k},
    on k = true → Irq.after on es k = true := by
  induction es with
  | nil => exact fun _ _ => id
  | cons e es ih =>
    intro on k hk
    exact ih (fun e' he => h e' (List.mem_cons_of_mem _ he)) _ (h e (List.mem_cons_self ..) on k hk)

theorem Irq.after_of_dmaArming {es : List Effect} (h : ∀ e ∈ es, e.dmaArming) :
    ∀ (on : Irq → Bool) {k}, k ≠ .i2cMb → k ≠ .i2cSb → on k = true →
      Irq.after on es k = true := by
  induction es with
  | nil => exact fun _ _ _ _ => id
  | cons e es ih =>
    intro on k hm hs hk
    exact ih (fun e' he => h e' (List.mem_cons_of_mem _ he)) _ hm hs
      (h e (List.mem_cons_self ..) on k hm hs hk)

/-- The actions of plain commands switch no interrupt. -/
theorem Action.switch_of_plain {a : Action} (h : a.plain) (on : Irq → Bool) (k : Irq) :
    a.switch on k = on k := by
  cases a
  case pin => rfl
  case dacWrite => rfl
  case i2cStop => rfl
  case pwmPeriod => rfl
  all_goals cases h

theorem Effect.arming_of_call (c : PortCall) : (Effect.call c).arming := fun _ _ => id

/-- The effects of plain commands disable no interrupt. -/
theorem Effect.arming_of_plain {e : Effect} (h : e.plain) : e.arming := by
  intro on k hk
  cases e with
  | action a => exact (Action.switch_of_plain h on k).trans hk
  | _ => exact hk

theorem Effect.arming_of_moves {a : Action} (h : a.moves) : (Effect.action a).arming := by
  intro on k hk
  show a.switch on k = true
  cases a
  case spiByte => exact hk
  case uartByte => exact hk
  case i2cWrite => exact Bool.or_eq_true_iff.2 (.inr hk)
  case i2cRead => exact Bool.or_eq_true_iff.2 (.inr hk)
  all_goals cases h

/-! ### The port and its interrupts -/

/-- A port, and which of its completion interrupts are enabled. -/
structure Watched where
  port : PortData
  irqs : Irq → Bool

namespace Watched

variable {w w' : Watched}

def init (port : TesselPort) (answers : ℕ → BitVec 16) : Watched :=
  ⟨.init port answers, fun _ => false⟩

/-- The interrupts when the handler of an event starts: that of the I2C master disables its own. -/
def entered (w : Watched) : PortEvent → Irq → Bool
  | .sercom _ _, k =>
    if w.port.mode = .i2c then k != .i2cMb && k != .i2cSb && w.irqs k else w.irqs k
  | _, k => w.irqs k

/-- The port in the state `q`, with the interrupts as its effects since `p` have left them. -/
def since (on : Irq → Bool) (p q : PortData) : Watched :=
  ⟨q, Irq.after on (q.effects.drop p.effects.length)⟩

theorem since_eq {on : Irq → Bool} {p q : PortData} {es : List Effect}
    (h : q.effects = p.effects ++ es) : since on p q = ⟨q, Irq.after on es⟩ := by
  rw [since, h, List.drop_left]

/-- The state after the handler of an event. -/
def handled (w : Watched) (e : PortEvent) : Watched :=
  since (w.entered e) w.port (w.port.handle e)

def machine : Machine Watched PortEvent where
  step w e := if w.port.accepts e then some (w.handled e) else none

theorem machine_step_eq_some {e : PortEvent} :
    machine.step w e = some w' ↔ w.port.accepts e ∧ w.handled e = w' := by
  simp only [machine, Option.ite_none_right_eq_some, Option.some.injEq]

/-- The command that is being executed has started an operation of the enabled peripheral, and the
interrupt at its end is enabled. -/
def Started (w : Watched) : Prop :=
  ∃ es as a k, w.port.effects = es ++ .exec w.port.cmd :: as ∧ (∀ c, Effect.exec c ∉ as) ∧
    Effect.action a ∈ as ∧ a.completion w.port.mode = some k ∧ w.irqs k = true

/-- A command that is executed asynchronously is going to be completed. -/
def Coming (w : Watched) : Prop := w.port.state = .execAsync → w.Started

end Watched

namespace PortData

/-- The port just before the pass of the loop calls `port_continue_cmd`, if it does. -/
def continues (p : PortData) : Option PortData :=
  if p.transfers.waits then none else if p.state = .exec then some p else none

/-- `CMD_START` finds the I2C master enabled; and a TX, RX or TXRX command finds a peripheral
that can execute it and, but for the I2C master, a length that is not zero. -/
def operable (p : PortData) : PortEvent → Bool
  | .iter =>
    (p.begins.all fun q => q.opcode != some .start || q.mode == .i2c) &&
      p.continues.all fun q => (serves q.opcode q.mode && (q.mode == .i2c || q.argAt 0 != 0#8)) ||
        q.opcode == some .echo
  | _ => true

/-! ### The operations of a part of a payload -/

variable {p q : PortData}

theorem steady_reply (b : Byte) : (Effect.reply b).Steady :=
  ⟨Effect.arming_of_plain rfl, fun _ h => Effect.noConfusion h⟩

theorem steady_disableChan : (Effect.call .disableChan).Steady :=
  ⟨Effect.arming_of_plain rfl, fun _ h => Effect.noConfusion h⟩

theorem steady_moves {a : Action} (h : a.moves) : (Effect.action a).Steady :=
  ⟨Effect.arming_of_moves h, fun _ h => Effect.noConfusion h⟩

theorem steady_i2cAddr (b : Byte) : (Effect.action (.i2cAddr b)).Steady :=
  ⟨fun _ _ hk => Bool.or_eq_true_iff.2 (.inr hk), fun _ h => Effect.noConfusion h⟩

theorem effects_append (bs : List Byte) :
    ∀ p : PortData, (p.append bs).effects = p.effects ++ bs.map .reply := by
  induction bs with
  | nil => exact fun p => (List.append_nil _).symm
  | cons b bs ih =>
    intro p
    exact (ih (p.appendByte b)).trans (List.append_assoc _ _ _)

theorem effects_receiveReply (p : PortData) (n : ℕ) :
    (p.receiveReply n).effects = p.effects ++ (p.answerBytes n).map .reply := effects_append _ p

theorem effects_started (p : PortData) (n : ℕ) (t : Transfer) :
    ((p.subArg0 n).startTransfer t).effects = p.effects := rfl

/-- The effects `as` of a part of a payload in the mode `m` contain an operation, and the interrupt
at its end is enabled after them. -/
def Operates (m : PortMode) (as : List Effect) : Prop :=
  (∀ e ∈ as, e.Steady) ∧ ∃ a k, .action a ∈ as ∧ a.completion m = some k ∧
    ∀ on : Irq → Bool, (k = .dmaRx ∨ k = .dmaTx → on k = true) → Irq.after on as k = true

/-- A transfer by DMA, whose interrupt has been enabled before. -/
theorem operates_dma {m : PortMode} {as : List Effect} {a : Action} {k : Irq}
    (has : ∀ e ∈ as, e.Steady) (ha : .action a ∈ as) (hk : a.completion m = some k)
    (hdma : k = .dmaRx ∨ k = .dmaTx) : Operates m as :=
  ⟨has, a, k, ha, hk, fun on hon =>
    Irq.after_of_arming (fun e he => (has e he).arming) on (hon hdma)⟩

/-- A phase of the I2C master, which enables its own interrupt. -/
theorem operates_i2c {a : Action} {k : Irq} {as : List Effect} (ha : (Effect.action a).Steady)
    (hk : a.completion .i2c = some k) (has : ∀ e ∈ as, e.Steady)
    (hon : ∀ on, a.switch on k = true) : Operates .i2c (.action a :: as) := by
  refine ⟨fun e he => ?_, a, k, List.mem_cons_self .., hk, fun on _ => ?_⟩
  · rcases List.mem_cons.1 he with rfl | he
    · exact ha
    · exact has e he
  · exact Irq.after_of_arming (fun e he => (has e he).arming) _ (hon on)

theorem steady_map {f : Byte → Action} (hf : ∀ b, (f b).moves) (bs : List Byte) :
    ∀ e ∈ (bs.map f).map Effect.action, e.Steady := by
  intro e he
  obtain ⟨a, ha, rfl⟩ := List.mem_map.1 he
  obtain ⟨b, -, rfl⟩ := List.mem_map.1 ha
  exact steady_moves (hf b)

theorem steady_replies (bs : List Byte) : ∀ e ∈ bs.map Effect.reply, e.Steady := by
  intro e he
  obtain ⟨b, -, rfl⟩ := List.mem_map.1 he
  exact steady_reply b

theorem Operates.append_replies {m : PortMode} {as : List Effect} (h : Operates m as)
    (bs : List Byte) : Operates m (as ++ bs.map .reply) := by
  obtain ⟨has, a, k, ha, hk, hon⟩ := h
  refine ⟨fun e he => ?_, a, k, List.mem_append_left _ ha, hk, fun on h => ?_⟩
  · rcases List.mem_append.1 he with he | he
    · exact has e he
    · exact steady_replies bs e he
  · rw [Irq.after, List.foldl_append]
    exact Irq.after_of_arming (fun e he => (steady_replies bs e he).arming) _ (hon on h)

theorem exists_mem_cmdBytes (h : p.Ready) {n : ℕ} (hn : 0 < n) (hle : p.cmdPos + n ≤ p.cmdLen) :
    ∃ b, b ∈ p.cmdBytes n :=
  List.exists_mem_of_length_pos (by rw [length_cmdBytes hle h.cmdLen]; exact hn)

theorem length_pos {n : ℕ} {x : Byte} (hx : x ≠ 0#8) (hn : 0 < n) : 0 < min x.toNat n := by
  have hpos : x.toNat ≠ 0 := fun h0 => hx (BitVec.eq_of_toNat_eq h0)
  omega

namespace Ready

theorem txLen_pos (h : p.Ready) (ha : p.argAt 0 ≠ 0#8) : 0 < p.txLen := by
  have := h.cmdPos
  exact length_pos ha (by rw [h.cmdRemaining]; omega)

theorem rxLen_pos (h : p.Ready) (ha : p.argAt 0 ≠ 0#8) : 0 < p.rxLen := by
  have := h.replyLen
  exact length_pos ha (by rw [h.replyRemaining]; omega)

theorem txrxLen_pos (h : p.Ready) (ha : p.argAt 0 ≠ 0#8) : 0 < p.txrxLen := by
  have htx := h.txLen_pos ha
  have := h.replyLen
  have hrem := h.replyRemaining
  unfold txLen at htx
  unfold txrxLen
  omega

end Ready

/-- **A part of a payload starts an operation** of the peripheral that serves the command. -/
theorem operates_continueCmd (h : p.Ready) (hserves : serves p.opcode p.mode)
    (hecho : p.opcode ≠ some .echo) (hlen : p.mode = .i2c ∨ p.argAt 0 ≠ 0#8) :
    ∃ as, p.continueCmd.1.effects = p.effects ++ .exec p.cmd :: as ∧ Operates p.mode as := by
  have hsplit : ∀ as : List Effect,
      (p.effects ++ [.exec p.cmd]) ++ as = p.effects ++ .exec p.cmd :: as :=
    fun as => List.append_assoc _ _ _
  have hsend : ∀ (a : Byte → Action) (n : ℕ), ((p.emit (.exec p.cmd)).sendCmd a n).effects =
      p.effects ++ .exec p.cmd :: ((p.cmdBytes n).map a).map .action :=
    fun a n => hsplit _
  have hstarted : ∀ (a : Byte → Action) (n : ℕ) (t : Transfer),
      ((((p.emit (.exec p.cmd)).sendCmd a n).subArg0 n).startTransfer t).effects =
        p.effects ++ .exec p.cmd :: ((p.cmdBytes n).map a).map .action := by
    intro a n t
    rw [effects_started, hsend]
  rcases hop : p.opcode with _ | c
  · rw [hop] at hserves
    cases hserves
  · have htake : ∀ {f : Byte → Action} {n : ℕ}, 0 < n → p.cmdPos + n ≤ p.cmdLen →
        ∃ b, Effect.action (f b) ∈ ((p.cmdBytes n).map f).map Effect.action := by
      intro f n hn hle
      obtain ⟨b, hb⟩ := exists_mem_cmdBytes h hn hle
      exact ⟨b, List.mem_map_of_mem (List.mem_map_of_mem hb)⟩
    cases c <;> simp only [hop, serves, Bool.false_eq_true] at hserves
    case echo => exact absurd hop hecho
    case tx =>
      cases hm : p.mode <;> simp only [hm, Bool.false_eq_true] at hserves
      case spi =>
        have ha := hlen.resolve_left (by rw [hm]; decide)
        simp only [continueCmd, opcode_emit, hop, mode_emit, hm]
        obtain ⟨b, hb⟩ := htake (f := .spiByte) (h.txLen_pos ha) h.txLen_le
        exact ⟨_, hstarted _ _ _, operates_dma (steady_map (fun _ => rfl) _) hb rfl (.inl rfl)⟩
      case uart =>
        have ha := hlen.resolve_left (by rw [hm]; decide)
        simp only [continueCmd, opcode_emit, hop, mode_emit, hm]
        obtain ⟨b, hb⟩ := htake (f := .uartByte) (h.txLen_pos ha) h.txLen_le
        exact ⟨_, hstarted _ _ _, operates_dma (steady_map (fun _ => rfl) _) hb rfl (.inr rfl)⟩
      case i2c =>
        simp only [continueCmd, opcode_emit, hop, mode_emit, hm]
        obtain ⟨b, hb⟩ := List.length_eq_one_iff.1 (length_cmdBytes (n := 1) h.cmdPos h.cmdLen)
        refine ⟨_, hstarted _ _ _, ?_⟩
        rw [hb]
        exact operates_i2c (a := .i2cWrite b) (steady_moves rfl) rfl
          (fun _ he => absurd he List.not_mem_nil) fun _ => rfl
    case rx =>
      cases hm : p.mode <;> simp only [hm, Bool.false_eq_true] at hserves
      case spi =>
        have ha := hlen.resolve_left (by rw [hm]; decide)
        simp only [continueCmd, opcode_emit, hop, mode_emit, hm]
        have hmem : Effect.action (.spiByte dummyTx) ∈
            (List.replicate p.rxLen (Action.spiByte dummyTx)).map Effect.action :=
          List.mem_map_of_mem (List.mem_replicate.2 ⟨Nat.ne_of_gt (h.rxLen_pos ha), rfl⟩)
        have has : ∀ e ∈ (List.replicate p.rxLen (Action.spiByte dummyTx)).map Effect.action,
            e.Steady := by
          intro e he
          obtain ⟨a, hr, rfl⟩ := List.mem_map.1 he
          rw [List.eq_of_mem_replicate hr]
          exact steady_moves rfl
        have heff := (effects_receiveReply ((p.emit (.exec p.cmd)).acts
          (List.replicate p.rxLen (.spiByte dummyTx))) p.rxLen).trans
            ((List.append_assoc _ _ _).trans (hsplit _))
        exact ⟨_, heff, (operates_dma has hmem rfl (.inl rfl)).append_replies _⟩
      case i2c =>
        simp only [continueCmd, opcode_emit, hop, mode_emit, hm]
        have heff := (effects_receiveReply ((p.emit (.exec p.cmd)).act .i2cRead) 1).trans
          ((List.append_assoc _ _ _).trans (hsplit _))
        exact ⟨_, heff, operates_i2c (steady_moves rfl) rfl (steady_replies _) fun _ => rfl⟩
    case txrx =>
      cases hm : p.mode <;> simp only [hm, Bool.false_eq_true] at hserves
      have ha := hlen.resolve_left (by rw [hm]; decide)
      obtain ⟨b, hb⟩ := htake (f := .spiByte) (h.txrxLen_pos ha) h.txrxLen_le
      have heff := hsend .spiByte p.txrxLen
      simp only [continueCmd, opcode_emit, hop, mode_emit, hm, txrxLen_emit]
      generalize (p.emit (.exec p.cmd)).sendCmd .spiByte p.txrxLen = q at heff ⊢
      refine ⟨_, ?_,
        (operates_dma (steady_map (fun _ => rfl) _) hb rfl (.inl rfl)).append_replies
          (q.answerBytes p.txrxLen)⟩
      rw [effects_started, effects_receiveReply, heff]
      exact List.append_assoc _ _ _

/-! ### Beginning a command -/

theorem state_of_plain {c : Option PortCmd} (h : PortCmd.plain c) :
    (statusOf c).toState ≠ .execAsync := by
  rcases c with _ | c
  · decide
  · cases c <;> simp only [PortCmd.plain, Bool.false_eq_true] at h <;> decide

theorem modeAfter_of_plain {c : Option PortCmd} (h : PortCmd.plain c) (m : PortMode) :
    modeAfter c m = m := by
  rcases c with _ | c
  · rfl
  · cases c <;> simp only [PortCmd.plain, Bool.false_eq_true] at h <;> rfl

/-! ### What leaves a command under way alone -/

/-- From `p` to `q` no command begins, no interrupt is disabled and the mode stays; and a command
that is executed asynchronously in `q` was so in `p`. -/
structure Keeps (p q : PortData) : Prop where
  emits : Emits Effect.Steady p q
  mode : q.mode = p.mode
  cmd : q.cmd = p.cmd
  state : q.state = .execAsync → p.state = .execAsync

theorem frame_keeps : Frame Effect.Steady Keeps where
  refl := fun p => ⟨.refl p, rfl, rfl, id⟩
  trans := fun h h' => ⟨h.emits.trans h'.emits, h'.mode.trans h.mode, h'.cmd.trans h.cmd,
    fun hs => h.state (h'.state hs)⟩
  emit := fun p _ he => ⟨.emit p he, rfl, rfl, id⟩
  acts := fun p as has => ⟨(Frame.emits _).acts p as has, rfl, rfl, id⟩
  appendByte := fun p b hb => ⟨(Frame.emits _).appendByte p b hb, rfl, rfl, id⟩
  check := fun p b => ⟨(Frame.emits _).check p b, rfl, rfl, id⟩
  answers := fun p a => ⟨(Frame.emits _).answers p a, rfl, rfl, id⟩
  sense := fun p s => ⟨(Frame.emits _).sense p s, rfl, rfl, id⟩
  cmdPos := fun p n => ⟨(Frame.emits _).cmdPos p n, rfl, rfl, id⟩

namespace Keeps

variable {r : PortData}

theorem refl (p : PortData) : Keeps p p := frame_keeps.refl p

theorem trans (h : Keeps p q) (h' : Keeps q r) : Keeps p r := frame_keeps.trans h h'

/-- What does not show in the effects. -/
theorem of_eq (he : q.effects = p.effects) (hm : q.mode = p.mode) (hc : q.cmd = p.cmd)
    (hs : q.state = .execAsync → p.state = .execAsync) : Keeps p q :=
  ⟨(Emits.refl p).congr_right he, hm, hc, hs⟩

theorem error (p : PortData) : Keeps p p.error := frame_keeps.error p steady_disableChan

theorem step (p : PortData) : Keeps p p.step := by
  unfold PortData.step
  split_ifs
  · exact error p
  · exact of_eq rfl rfl rfl id

theorem call (p : PortData) (c : PortCall) : Keeps p (p.emit (.call c)) :=
  frame_keeps.emit p _ ⟨Effect.arming_of_call c, fun _ h => Effect.noConfusion h⟩

theorem transfers (p : PortData) : Keeps p p.transfers := by
  have hreq : Keeps p p.requestPacket := by
    unfold requestPacket
    split_ifs
    · exact (call p .startOut).trans (of_eq rfl rfl rfl id)
    · exact refl p
  have hflush : ∀ q : PortData, Keeps q q.flushReply := by
    intro q
    unfold flushReply
    split_ifs
    · exact (call q (.startIn (q.replyBuf.content q.replyLen))).trans (of_eq rfl rfl rfl id)
    · exact refl q
  exact hreq.trans (hflush _)

theorem wait (p : PortData) : Keeps p p.wait := by
  unfold PortData.wait
  split_ifs
  · exact of_eq rfl rfl rfl id
  · exact of_eq rfl rfl rfl id

/-- The end of an operation ends the asynchronous execution. -/
theorem asyncCompletion (p : PortData) : Keeps p p.asyncCompletion := by
  unfold PortData.asyncCompletion
  split_ifs with hs
  · have ht : Keeps p p.transferred := of_eq rfl rfl rfl fun _ => hs
    exact ht.trans (step _)
  · exact error p

theorem uartSendData (p : PortData) : Keeps p p.uartSendData := by
  unfold PortData.uartSendData
  dsimp only
  split_ifs
  · exact error p
  · have hem : Keeps p (p.emit (.uartPacket p.pendingIn p.dataOpen)) :=
      frame_keeps.emit p _ ⟨fun _ _ => id, fun _ h => Effect.noConfusion h⟩
    generalize (replyAsyncUartRx :: BitVec.ofNat 8 p.uartBuf.bufLen ::
      p.uartBytes p.uartBuf.bufLen) = packet
    have happ := hem.trans (frame_keeps.append steady_reply packet _)
    generalize (p.emit (.uartPacket p.pendingIn p.dataOpen)).append packet = q at happ ⊢
    have htaken : Keeps q (q.uartTaken p.uartBuf.bufLen) := of_eq rfl rfl rfl id
    exact happ.trans (htaken.trans (step _))
  · exact refl p

theorem uartPush (p : PortData) (b : Byte) :
    Keeps p ((p.act (.tccDelayStart (200 * 10))).uartPush b) :=
  (frame_keeps.act p ⟨fun _ _ => id, fun _ h => Effect.noConfusion h⟩).trans (of_eq rfl rfl rfl id)

end Keeps

end PortData

namespace Watched

open PortData

/-- The invariant: the DMA interrupt of the mode is enabled, and a command that is executed
asynchronously is going to be completed. -/
structure Armed (w : Watched) : Prop where
  spi : w.port.mode = .spi → w.irqs .dmaRx = true
  uart : w.port.mode = .uart → w.irqs .dmaTx = true
  coming : w.Coming

namespace Armed

variable {w : Watched} {p q : PortData} {on : Irq → Bool} {es : List Effect}

/-- A command that is not executed asynchronously, in the mode in which the port was. -/
theorem of_arming (hspi : p.mode = .spi → on .dmaRx = true)
    (huart : p.mode = .uart → on .dmaTx = true) (hem : Emits Effect.arming p q)
    (hm : q.mode = p.mode) (hst : q.state ≠ .execAsync) : Armed (since on p q) := by
  obtain ⟨es, hes, heff⟩ := hem.effects
  rw [since_eq heff]
  refine ⟨fun h => ?_, fun h => ?_, fun h => absurd h hst⟩
  · exact Irq.after_of_arming hes on (hspi (hm.symm.trans h))
  · exact Irq.after_of_arming hes on (huart (hm.symm.trans h))

/-- What happens while a command is executed asynchronously. -/
theorem of_keeps (h : Armed ⟨p, on⟩) (hk : Keeps p q) : Armed (since on p q) := by
  obtain ⟨es, hes, heff⟩ := hk.emits.effects
  have harm : ∀ e ∈ es, e.arming := fun e he => (hes e he).arming
  rw [since_eq heff]
  refine ⟨fun hx => ?_, fun hx => ?_, fun hx => ?_⟩
  · exact Irq.after_of_arming harm on (h.spi (hk.mode.symm.trans hx))
  · exact Irq.after_of_arming harm on (h.uart (hk.mode.symm.trans hx))
  · obtain ⟨es₀, as, a, k, heq, hno, ha, hcomp, hon⟩ := h.coming (hk.state hx)
    replace heq : p.effects = es₀ ++ .exec p.cmd :: as := heq
    refine ⟨es₀, as ++ es, a, k, ?_, fun c hmem => ?_, List.mem_append_left _ ha, ?_,
      Irq.after_of_arming harm on hon⟩
    · show q.effects = es₀ ++ .exec q.cmd :: (as ++ es)
      rw [heff, heq, hk.cmd, List.append_assoc, List.cons_append]
    · rcases List.mem_append.1 hmem with hm | hm
      · exact hno c hm
      · exact (hes _ hm).ne_exec c rfl
    · show a.completion q.mode = some k
      rw [hk.mode]
      exact hcomp

/-- An operation that is started now. -/
theorem of_operates (hspi : p.mode = .spi → on .dmaRx = true)
    (huart : p.mode = .uart → on .dmaTx = true) (heff : q.effects = p.effects ++ .exec q.cmd :: es)
    (hop : Operates p.mode es) (hm : q.mode = p.mode) : Armed (since on p q) := by
  obtain ⟨hes, a, k, ha, hk, hon⟩ := hop
  have harm : ∀ e ∈ es, e.arming := fun e he => (hes e he).arming
  rw [since_eq heff]
  refine ⟨fun hx => ?_, fun hx => ?_, fun _ => ?_⟩
  · exact Irq.after_of_arming harm _ (hspi (hm.symm.trans hx))
  · exact Irq.after_of_arming harm _ (huart (hm.symm.trans hx))
  · refine ⟨p.effects, es, a, k, heff, fun c hc => (hes _ hc).ne_exec c rfl, ha, ?_, ?_⟩
    · show a.completion q.mode = some k
      rw [hm]
      exact hk
    · refine hon on fun hdma => ?_
      obtain ⟨rfl, hspi'⟩ | ⟨rfl, huart'⟩ := Action.mode_of_completion hk hdma
      · exact hspi hspi'
      · exact huart huart'

/-- A command that switches the mode. -/
theorem of_switched (hst : q.state = .readCmd) (hspi : q.mode = .spi → on .dmaRx = true)
    (huart : q.mode = .uart → on .dmaTx = true) : Armed ⟨q, on⟩ :=
  ⟨hspi, huart, fun h => absurd (hst.symm.trans h) (by decide)⟩

/-! ### One pass of the loop -/

/-- Beginning a command: plain commands keep the interrupts, the others switch the mode and its
interrupt together, and `CMD_START` finds the I2C master enabled. -/
theorem begun (hspi : p.mode = .spi → on .dmaRx = true) (huart : p.mode = .uart → on .dmaTx = true)
    (hstart : p.opcode = some .start → p.mode = .i2c) : Armed (since on p p.begun) := by
  have hmode := mode_begun p
  have hstate := state_begun p
  have hcmd := cmd_begun p
  by_cases hc : PortCmd.plain p.opcode
  · have hem : Emits Effect.arming p p.begun :=
      ((Frame.emits Effect.arming).beginCmd (fun e he => Effect.arming_of_plain he) p hc).congr_right
        rfl
    rw [modeAfter_of_plain hc] at hmode
    exact of_arming hspi huart hem hmode (by rw [hstate]; exact state_of_plain hc)
  · have hacts : ∀ as : List Action, p.beginActions = some as →
        p.begun.effects = p.effects ++ .exec p.begun.cmd :: as.map .action := by
      intro as h
      rw [hcmd]
      exact effects_begun h
    rcases hop : p.opcode with _ | c
    · exact absurd (by rw [hop]; rfl) hc
    · rw [hop] at hmode hstate
      cases c <;> simp only [hop, PortCmd.plain, not_true_eq_false] at hc
      -- `CMD_START` is the only one that is executed asynchronously
      case start =>
        have heff := hacts _ (by rw [beginActions, hop])
        refine of_operates hspi huart heff ?_ hmode
        rw [hstart hop]
        exact operates_i2c (steady_i2cAddr _) rfl (fun _ he => absurd he List.not_mem_nil) fun _ =>
          Bool.or_eq_true_iff.2 (.inl (beq_self_eq_true _))
      case enableSpi =>
        have heff := hacts _ (by rw [beginActions, hop])
        replace hmode : p.begun.mode = .spi := hmode
        rw [since_eq heff]
        exact of_switched hstate (fun _ => rfl) fun h => absurd h (by rw [hmode]; decide)
      case enableUart =>
        have heff := hacts _ (by rw [beginActions, hop])
        replace hmode : p.begun.mode = .uart := hmode
        rw [since_eq heff]
        exact of_switched hstate (fun h => absurd h (by rw [hmode]; decide)) fun _ => rfl
      -- the modes that the other commands enter have no DMA interrupt
      case enableI2c =>
        replace hmode : p.begun.mode = .i2c := hmode
        exact of_switched hstate (fun h => absurd h (by rw [hmode]; decide))
          fun h => absurd h (by rw [hmode]; decide)
      all_goals
        replace hmode : p.begun.mode = .none := hmode
        exact of_switched hstate (fun h => absurd h (by rw [hmode]; decide))
          fun h => absurd h (by rw [hmode]; decide)

/-- A part of a payload: `CMD_ECHO` is not executed asynchronously, and the other commands start an
operation. -/
theorem continued (h : Armed ⟨p, on⟩) (hr : p.Ready)
    (hok : (serves p.opcode p.mode && (p.mode == .i2c || p.argAt 0 != 0#8)) ||
      p.opcode == some .echo) : Armed (since on p p.continued) := by
  by_cases hecho : p.opcode = some .echo
  · have hem : Emits Effect.arming p p.continued :=
      ((Frame.emits Effect.arming).continueCmd (fun e he => Effect.arming_of_plain he)
        (fun a ha => Effect.arming_of_moves ha) (fun p b => (Emits.refl p).congr_right rfl)
        (fun p t => (Emits.refl p).congr_right rfl) p).congr_right rfl
    refine of_arming h.spi h.uart hem (mode_continued p) fun hs => ?_
    replace hs : p.continueCmd.2.toState = .execAsync := hs
    simp only [continueCmd, opcode_emit, hecho, payloadStatus] at hs
    split_ifs at hs <;> cases hs
  · simp only [Bool.or_eq_true, Bool.and_eq_true, beq_iff_eq, hecho, or_false, bne_iff_ne] at hok
    obtain ⟨as, heff, hop⟩ := operates_continueCmd hr hok.1 hecho hok.2
    rw [← cmd_continued p] at heff
    exact of_operates h.spi h.uart heff hop (mode_continued p)

theorem dispatch (h : Armed ⟨p, on⟩) (hr : p.Ready) (hw : p.transfers.waits = false)
    (hd : p.state ≠ .execAsync) (hok : p.operable .iter) : Armed (since on p p.dispatch) := by
  simp only [operable, begins, continues, hw, Bool.false_eq_true, if_false, Bool.and_eq_true] at hok
  obtain ⟨hbegin, hcont⟩ := hok
  have hstart {q : PortData} (h : (q.opcode != some .start || q.mode == .i2c) = true) :
      q.opcode = some .start → q.mode = .i2c := by
    intro hop
    simpa [hop] using h
  unfold PortData.dispatch
  cases hst : p.state <;> simp only [hst] at hbegin hcont ⊢
  case disable => exact of_keeps h (.refl p)
  case execAsync => exact absurd hst hd
  case exec => exact continued h hr hcont
  case readCmd =>
    simp only [readCommand]
    split_ifs with ha
    · exact of_arming h.spi h.uart ((Emits.refl p).congr_right rfl) rfl
        fun hx => PortState.noConfusion hx
    · rw [if_pos (Nat.eq_zero_of_not_pos ha)] at hbegin
      exact begun (p := p.fetchCmd) h.spi h.uart (hstart hbegin)
  case readArg =>
    have hmode : p.fetchArg.mode = p.mode := by rw [fetchArg_eq]
    have heff : p.fetchArg.effects = p.effects := by rw [fetchArg_eq]
    simp only [readArgument]
    split_ifs with ha hb
    · exact of_keeps h ((Keeps.error p).trans (.of_eq rfl rfl rfl id))
    · rw [if_pos ⟨ha, hb⟩] at hbegin
      have hbegun : Armed (since on p.fetchArg p.fetchArg.begun) := by
        refine begun ?_ ?_ (hstart hbegin)
        · rw [hmode]
          exact h.spi
        · rw [hmode]
          exact h.uart
      rwa [since, heff] at hbegun
    · refine of_arming h.spi h.uart ((Emits.refl p).congr_right heff) hmode ?_
      rw [fetchArg_eq]
      exact hst.trans_ne (by decide)

theorem iter (h : Armed ⟨p, on⟩) (hr : p.Resting) (hok : p.operable .iter) :
    Armed (since on p p.iter) := by
  obtain ⟨-, hi⟩ | ⟨htr, hw, ⟨hst, hi⟩ | ⟨hst, hpos, hlen, hi⟩⟩ := iter_cases p
  · rw [hi]
    exact of_keeps h ((Keeps.transfers p).trans (.wait _))
  · rw [hi]
    exact of_keeps h (.of_eq rfl rfl rfl id)
  · rw [hi]
    exact dispatch h ⟨hpos, hr.cmdLen, hlen⟩ (by rw [htr]; exact hw) hst hok

/-! ### The other events -/

/-- The handler of the I2C master disables its interrupts and ends the asynchronous execution. -/
theorem asyncCompletion (hm : p.mode = .i2c) (hk : Keeps p q) :
    Armed (since on p q.asyncCompletion) := by
  have hkeeps := hk.trans (Keeps.asyncCompletion q)
  have hst : q.asyncCompletion.state ≠ .execAsync := by
    intro hs
    have hq := (Keeps.asyncCompletion q).state hs
    unfold PortData.asyncCompletion at hs
    rw [if_pos hq] at hs
    replace hs := (Keeps.step q.transferred).state hs
    replace hs : q.payloadStatus.toState = .execAsync := hs
    unfold payloadStatus at hs
    split_ifs at hs <;> cases hs
  exact of_arming (fun h => absurd (hm.symm.trans h) (by decide))
    (fun h => absurd (hm.symm.trans h) (by decide)) (hkeeps.emits.mono fun e he => he.arming)
    hkeeps.mode hst

theorem handleSercomUartI2c {w : Watched} (h : w.Armed) (rxc : Option Byte) (err : Bool) :
    (w.handled (.sercom rxc err)).Armed := by
  show Armed (since (w.entered (.sercom rxc err)) w.port (w.port.handleSercomUartI2c rxc err))
  have hentered : w.port.mode ≠ .i2c → w.entered (.sercom rxc err) = w.irqs := by
    intro hm
    funext k
    exact if_neg hm
  cases hm : w.port.mode <;> simp only [PortData.handleSercomUartI2c, hm]
  case i2c =>
    split_ifs
    · exact asyncCompletion hm (.error _)
    · exact asyncCompletion hm (.refl _)
  all_goals rw [hentered (by rw [hm]; decide)]
  case none => exact of_keeps h (.error _)
  case spi => exact of_keeps h (.error _)
  case uart =>
    cases rxc with
    | none => exact of_keeps h (.refl _)
    | some b =>
      dsimp only
      split_ifs
      · exact of_keeps h ((Keeps.uartPush _ b).trans (.uartSendData _))
      · exact of_keeps h (.uartPush _ b)

theorem handleExtint (h : Armed ⟨p, on⟩) (flags : BitVec 32) :
    Armed (since on p (p.handleExtint flags)) := by
  unfold PortData.handleExtint
  split_ifs with hst
  · have hem : Emits Effect.arming p
        ((List.range 8).foldl (fun p i => p.extintPin flags i) p) :=
      (Frame.emits _).foldl ((Frame.emits _).extintPin (fun e he => Effect.arming_of_plain he) flags)
        p _
    have hm := congrArg Prod.fst
      (frame_job.foldl (frame_job.extintPin (fun _ _ => trivial) flags) p (List.range 8))
    have hstate := (congrArg Control.state
      (Waiting.control_foldl_extintPin p flags (List.range 8))).trans hst
    generalize (List.range 8).foldl (fun p i => p.extintPin flags i) p = q at hem hm hstate ⊢
    have hk := Keeps.step q
    refine of_arming h.spi h.uart (hem.trans (hk.emits.mono fun e he => he.arming))
      (hk.mode.trans hm) fun hs => ?_
    exact absurd (hstate.symm.trans (hk.state hs)) (by decide)
  · exact of_keeps h (.error p)

theorem enable (on : Irq → Bool) (p : PortData) : Armed (since on p p.enable) := by
  have hfold : ∀ q : PortData, q.state = .readCmd ∧ q.mode = .none →
      ((List.range 8).foldl (fun p i => p.gpio .pullUp i) q).state = .readCmd ∧
        ((List.range 8).foldl (fun p i => p.gpio .pullUp i) q).mode = .none := fun q hq =>
    List.foldlRecOn
      (motive := fun r : PortData => r.state = .readCmd ∧ r.mode = .none) _ _ hq
      fun r hr i _ => ⟨(congrArg Control.state (control_gpio r .pullUp i)).trans hr.1,
        (mode_gpio r .pullUp i).trans hr.2⟩
  have hq : p.enable.state = .readCmd ∧ p.enable.mode = .none := hfold _ ⟨rfl, rfl⟩
  exact of_switched hq.1 (fun h => absurd (hq.2.symm.trans h) (by decide))
    fun h => absurd (hq.2.symm.trans h) (by decide)

/-- `port_disable` resets the I2C master, and leaves the mode and the interrupts of the DMA. -/
theorem disable (h : Armed ⟨p, on⟩) : Armed (since on p p.disable) := by
  have hsoft {e : Effect} (he : e.arming) : e.dmaArming := fun on k _ _ hk => he on k hk
  have hstop : Emits Effect.dmaArming p p.stopped := by
    have hacts : ∀ a ∈ [Action.sercomReset .spi, .sercomReset .uartI2c, .dmaAbort .tx, .dmaAbort .rx],
        (Effect.action a).dmaArming := by
      intro a ha on k hmb hsb hk
      simp only [List.mem_cons, List.not_mem_nil, or_false] at ha
      rcases ha with rfl | rfl | rfl | rfl
      · exact hk
      · show (k != .i2cMb && k != .i2cSb && on k) = true
        rw [hk, bne_iff_ne.2 hmb, bne_iff_ne.2 hsb]
        rfl
      · exact hk
      · exact hk
    have hp : Emits Effect.dmaArming p { p with state := .disable, transfer := none } :=
      (Emits.refl p).congr_right rfl
    exact (hp.trans ((Frame.emits _).acts _ _ hacts)).congr_right rfl
  have hpins : Emits Effect.dmaArming p.stopped ((List.range 8).foldl disablePin p.stopped) :=
    (Frame.emits _).foldl
      ((Frame.emits _).disablePin fun e he => hsoft (Effect.arming_of_plain he)) _ _
  have hm : p.disable.mode = p.mode := congrArg Prod.fst
    (frame_job.foldl (frame_job.disablePin fun _ _ => trivial) p.stopped (List.range 8))
  have hst := state_disable p
  have hem : Emits Effect.dmaArming p p.disable :=
    (hstop.trans hpins).trans <|
      ((Frame.emits _).act _ (hsoft fun _ _ => id)).trans ((Frame.emits _).emit _ _ fun _ _ _ _ => id)
  obtain ⟨es, hes, heff⟩ := hem.effects
  rw [since_eq heff]
  refine ⟨fun hx => ?_, fun hx => ?_, fun hx => absurd (hst.symm.trans hx) (by decide)⟩
  · exact Irq.after_of_dmaArming hes on (by decide) (by decide) (h.spi (hm.symm.trans hx))
  · exact Irq.after_of_dmaArming hes on (by decide) (by decide) (h.uart (hm.symm.trans hx))

theorem handle {w : Watched} (h : w.Armed) (hr : w.port.Resting) {e : PortEvent}
    (hok : w.port.operable e) : (w.handled e).Armed := by
  cases e with
  | enable => exact enable _ _
  | disable => exact disable h
  | outCompletion packet =>
    have hpacket : Keeps w.port { w.port.receivePacket packet with
      pendingOut := false, cmdLen := packet.length % 256, cmdPos := 0 } := .of_eq rfl rfl rfl id
    exact of_keeps h (hpacket.trans (.step _))
  | inCompletion =>
    have hreply : Keeps w.port { w.port with pendingIn := false, replyLen := 0 } :=
      .of_eq rfl rfl rfl id
    exact of_keeps h (hreply.trans (.step _))
  | dmaRx => exact of_keeps h (.asyncCompletion _)
  | dmaTx => exact of_keeps h (.asyncCompletion _)
  | sercom rxc err => exact handleSercomUartI2c h rxc err
  | extint flags => exact handleExtint h flags
  | tccOverflow => exact of_keeps h (.uartSendData _)
  | iter => exact iter h hr hok

theorem init (port : TesselPort) (answers : ℕ → BitVec 16) : (Watched.init port answers).Armed :=
  ⟨fun h => PortMode.noConfusion h, fun h => PortMode.noConfusion h,
    fun h => PortState.noConfusion h⟩

end Armed

/-- **An asynchronous command has a completion coming.**  In every run of a port, whatever it
receives and however that is split into packets, in which `CMD_START` finds the I2C master enabled
and a TX, RX or TXRX command a peripheral that can execute it and, but for the I2C master, a length
that is not zero: whenever the port is in `PORT_EXEC_ASYNC`, the command that is executed has started
an operation of the peripheral of its mode, and the interrupt at its end is enabled. -/
theorem coming_of_operable {port : TesselPort} {answers : ℕ → BitVec 16} {es : List PortEvent}
    {w : Watched} (h : machine.Run (fun w e => w.port.operable e) (init port answers) es w) :
    w.Coming := by
  have hinv : w.port.Resting ∧ w.Armed := by
    refine h.invariant (I := fun w => w.port.Resting ∧ w.Armed) ⟨.init port answers, .init _ _⟩ ?_
    rintro w e w' ⟨hr, ha⟩ hok hst
    obtain ⟨hacc, rfl⟩ := machine_step_eq_some.1 hst
    exact ⟨hr.handle hacc, ha.handle hr hok⟩
  exact hinv.2.coming

/-- A run that enables the I2C master and starts it. -/
def startRun : List PortEvent :=
  [PortEvent.enable, .outCompletion [12, 0, 19, 0x42]] ++ List.replicate 4 PortEvent.iter

theorem coming_startRun :
    ∃ w : Watched, machine.exec (init portA fun _ => 0#16) startRun = some w ∧
      w.port.state = .execAsync ∧ w.Coming := by
  have h : (machine.execOk (fun w e => w.port.operable e) (init portA fun _ => 0#16)
      startRun).map (fun w => w.port.state) = some .execAsync := by decide +kernel
  obtain ⟨w, hw, hst⟩ := Option.map_eq_some_iff.1 h
  have hrun := Machine.run_of_execOk (fun (w : Watched) e => w.port.operable e = true)
    (fun _ _ => id) hw
  exact ⟨w, hrun.exec_eq, hst, coming_of_operable hrun⟩

/-- A run that sends one byte while no peripheral is enabled. -/
def txRun : List PortEvent :=
  [PortEvent.enable, .outCompletion [16, 1, 0x41]] ++ List.replicate 3 PortEvent.iter

/-- A TX command without a peripheral is not going to be completed, although `port.c` handles every
command that has been sent. -/
theorem not_coming_txRun :
    ¬ ∀ (port : TesselPort) (answers : ℕ → BitVec 16) (es : List PortEvent) (w : Watched),
      machine.Run (fun w e => e = .iter → w.port.begins.all PortData.handled) (init port answers) es w →
        w.Coming := by
  intro hall
  have h : (machine.execOk (fun w e => e != .iter || w.port.begins.all PortData.handled)
      (init portA fun _ => 0#16) txRun).map (fun w => (w.port.state, w.port.mode)) =
        some (.execAsync, .none) := by decide +kernel
  obtain ⟨w, hw, hpair⟩ := Option.map_eq_some_iff.1 h
  have hrun := Machine.run_of_execOk
    (fun (w : Watched) e => e = .iter → w.port.begins.all PortData.handled)
    (fun w e h he => by simpa [he] using h) hw
  obtain ⟨es, as, a, k, -, -, -, hk, -⟩ := hall _ _ _ w hrun (congrArg Prod.fst hpair)
  rw [show w.port.mode = .none from congrArg Prod.snd hpair] at hk
  cases hk

end Watched

end TesselFirmware
