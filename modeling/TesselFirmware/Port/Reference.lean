import TesselFirmware.Port.Effects
import TesselFirmware.Port.Spec

/-!
# Commands run one after the other

The reference for the port interpreter: it is given the command stream byte by byte, always has
room for replies, and every transfer is complete before the next byte is looked at.  Parsing and
execution are those of `port.c` (`fetchCmd`, `fetchArg`, `beginCmd`, `continueCmd`).

* `consumeAll_command` : an opcode with its argument bytes is loaded and begun;
* `consumeAll_done` : a command without a payload is then done.
-/

namespace TesselFirmware

namespace PortData

/-! ### The interpreter -/

section Interpreter

variable (p : PortData)

/-- A packet of one byte is in `cmd_buf`, and `reply_buf` is empty. -/
def offer (b : Byte) : PortData :=
  { p with cmdBuf := p.cmdBuf.write 0 [b], cmdLen := 1, cmdPos := 0, replyLen := 0 }

/-- A transfer that has been started is completed.  A part of a payload that starts no transfer,
such as TX while no peripheral is enabled, is never completed. -/
def settle : PortData :=
  if p.state = .execAsync ∧ p.transfer ≠ none then p.transferred else p

/-- The parts of an RX command, which takes nothing from the host. -/
def finishRx : ℕ → PortData → PortData
  | 0, p => p
  | n + 1, p =>
    if p.state = .exec ∧ p.opcode = some .rx then
      finishRx n { p with replyLen := 0 }.continued.settle
    else p

/-- The next byte of the command stream. -/
def consume (b : Byte) : PortData := finishRx 255 (p.offer b).dispatch.settle

/-- A command stream. -/
def consumeAll (bs : List Byte) : PortData := bs.foldl consume p

end Interpreter

variable {p q r : PortData}

@[simp] theorem consumeAll_nil (p : PortData) : p.consumeAll [] = p := rfl

@[simp] theorem consumeAll_cons (p : PortData) (b : Byte) (bs : List Byte) :
    p.consumeAll (b :: bs) = (p.consume b).consumeAll bs := rfl

theorem consumeAll_append (p : PortData) (bs bs' : List Byte) :
    p.consumeAll (bs ++ bs') = (p.consumeAll bs).consumeAll bs' := List.foldl_append

theorem settle_of_ne (h : p.state ≠ .execAsync) : p.settle = p := if_neg fun hc => h hc.1

theorem settle_of_transfer (h : p.state = .execAsync) (ht : p.transfer ≠ none) :
    p.settle = p.transferred := if_pos ⟨h, ht⟩

@[simp] theorem effects_settle (p : PortData) : p.settle.effects = p.effects := by
  unfold settle
  split_ifs <;> rfl

theorem finishRx_of_ne (n : ℕ) (h : p.state ≠ .exec ∨ p.opcode ≠ some .rx) :
    finishRx n p = p := by
  cases n with
  | zero => rfl
  | succ n =>
    refine if_neg fun hc => ?_
    obtain h | h := h
    · exact h hc.1
    · exact h hc.2

/-! ### The peripheral mode -/

/-- The peripheral mode after a command. -/
def modeAfter (c : Option PortCmd) (m : PortMode) : PortMode :=
  match c with
  | some .enableSpi => .spi
  | some .enableI2c => .i2c
  | some .enableUart => .uart
  | some .disableSpi | some .disableI2c | some .disableUart => .none
  | _ => m

@[simp] theorem mode_act (p : PortData) (a : Action) : (p.act a).mode = p.mode := rfl

@[simp] theorem mode_acts (p : PortData) (as : List Action) : (p.acts as).mode = p.mode := rfl

@[simp] theorem mode_check (p : PortData) (b : Bool) : (p.check b).mode = p.mode := rfl

@[simp] theorem mode_gpio (p : PortData) (op : PinOp) (i : ℕ) : (p.gpio op i).mode = p.mode := rfl

@[simp] theorem mode_pinRead (p : PortData) (i : ℕ) : (p.pinRead i).2.mode = p.mode := rfl

@[simp] theorem mode_answered (p : PortData) : p.answered.mode = p.mode := rfl

@[simp] theorem mode_error (p : PortData) : p.error.mode = p.mode := rfl

@[simp] theorem mode_eicConfig (p : PortData) (i : ℕ) (sense : Byte) :
    (p.eicConfig i sense).mode = p.mode := rfl

@[simp] theorem mode_setArg0 (p : PortData) (b : Byte) : (p.setArg0 b).mode = p.mode := rfl

@[simp] theorem mode_subArg0 (p : PortData) (n : ℕ) : (p.subArg0 n).mode = p.mode := rfl

@[simp] theorem mode_startTransfer (p : PortData) (t : Transfer) :
    (p.startTransfer t).mode = p.mode := rfl

@[simp] theorem mode_takeCmd (p : PortData) (n : ℕ) : (p.takeCmd n).mode = p.mode := rfl

@[simp] theorem mode_sendCmd (p : PortData) (a : Byte → Action) (n : ℕ) :
    (p.sendCmd a n).mode = p.mode := rfl

@[simp] theorem mode_appendByte (p : PortData) (b : Byte) : (p.appendByte b).mode = p.mode := rfl

@[simp] theorem mode_append (p : PortData) (bs : List Byte) : (p.append bs).mode = p.mode := by
  induction bs generalizing p with
  | nil => rfl
  | cons b bs ih => exact ih (p.appendByte b)

@[simp] theorem mode_receiveReply (p : PortData) (n : ℕ) : (p.receiveReply n).mode = p.mode :=
  mode_append _ _

@[simp] theorem mode_sendStatus (p : PortData) (b : Byte) : (p.sendStatus b).mode = p.mode := by
  unfold sendStatus
  split_ifs <;> rfl

@[simp] theorem mode_gpioPull (p : PortData) : p.gpioPull.mode = p.mode := by
  simp only [gpioPull]
  split_ifs <;> rfl

@[simp] theorem mode_gpioInt (p : PortData) : p.gpioInt.mode = p.mode := by
  simp only [gpioInt]
  split_ifs <;> simp only [mode_gpio, mode_check, mode_eicConfig]

theorem mode_beginCmd (p : PortData) : p.beginCmd.1.mode = modeAfter p.opcode p.mode := by
  rcases hop : p.opcode with _ | c
  · simp only [beginCmd, opcode_emit, hop, mode_error, mode_emit, modeAfter]
  · cases c <;> simp only [beginCmd, opcode_emit, hop, modeAfter, mode_sendStatus, mode_pinRead,
      mode_gpio, mode_gpioPull, mode_gpioInt, mode_error, mode_appendByte, mode_answered, mode_act,
      mode_startTransfer, mode_setArg0, mode_emit]

theorem mode_continueCmd (p : PortData) : p.continueCmd.1.mode = p.mode := by
  rcases hop : p.opcode with _ | c
  · simp only [continueCmd, opcode_emit, hop, mode_emit]
  · cases c <;> simp only [continueCmd, opcode_emit, hop, mode_emit, mode_subArg0, mode_append,
      mode_takeCmd]
    all_goals
      cases hm : p.mode <;> simp only [mode_emit, hm, mode_startTransfer, mode_subArg0,
        mode_receiveReply, mode_sendCmd, mode_act, mode_acts]

/-- Beginning a command. -/
theorem mode_begun (p : PortData) : p.begun.mode = modeAfter p.opcode p.mode := mode_beginCmd p

/-- Only the beginning of a command changes the mode. -/
theorem mode_continued (p : PortData) : p.continued.mode = p.mode := mode_continueCmd p

/-! ### Loading a command -/

/-- The command `op` with the argument bytes `args` has been read; nothing else has happened. -/
structure Loaded (p : PortData) (op : Byte) (args : List Byte) (r : PortData) : Prop where
  cmd : r.cmd = op
  arg : ∀ i < args.length, r.argAt i = args.getD i 0#8
  port : r.port = p.port
  mode : r.mode = p.mode
  replyLen : r.replyLen = 0
  cmdPos : r.cmdPos = 1
  cmdLen : r.cmdLen = 1
  answers : r.answers = p.answers
  sense : r.sense = p.sense
  effects : r.effects = p.effects

theorem Loaded.opcode {op : Byte} {args : List Byte} (hr : Loaded p op args r) :
    r.opcode = PortCmd.ofByte op := by
  rw [PortData.opcode, hr.cmd]

theorem Loaded.argWord {op : Byte} {args : List Byte} (hr : Loaded p op args r) {i : ℕ}
    (hi : i + 1 < args.length) : r.argWord i = args.getD i 0#8 ++ args.getD (i + 1) 0#8 := by
  rw [PortData.argWord, hr.arg i (by omega), hr.arg (i + 1) hi]

/-- A loaded command that only acts. -/
theorem Loaded.effects_begun {op : Byte} {args : List Byte} (hr : Loaded p op args r)
    {as : List Action} (h : r.beginActions = some as) :
    r.begun.effects = r.effects ++ .exec op :: as.map .action := by
  rw [PortData.effects_begun h, hr.cmd]

theorem get_offer (p : PortData) (b : Byte) : (p.offer b).cmdBuf.get (p.offer b).cmdPos = b := by
  show (p.cmdBuf.write 0 [b]).get 0 = b
  rw [Cells.get_write_singleton, if_pos ⟨rfl, by decide⟩]

theorem fetchCmd_offer (p : PortData) (b : Byte) :
    (p.offer b).fetchCmd =
      { (p.offer b).takeCmd 1 with cmd := b, argLen := portCmdArgs (PortCmd.ofByte b) } := by
  rw [fetchCmd, get_offer]

theorem fetchArg_offer (p : PortData) (b : Byte) :
    (p.offer b).fetchArg = { ((p.offer b).takeCmd 1).storeArg b with argLen := p.argLen - 1 } := by
  rw [fetchArg, get_offer]
  rfl

/-- An opcode is looked at. -/
theorem consume_readCmd (hs : p.state = .readCmd) (b : Byte) :
    p.consume b =
      if 0 < portCmdArgs (PortCmd.ofByte b) then
        { (p.offer b).fetchCmd with argPos := 0, state := .readArg }
      else finishRx 255 (p.offer b).fetchCmd.begun.settle := by
  have hs' : (p.offer b).state = .readCmd := hs
  have hlen : (p.offer b).fetchCmd.argLen = portCmdArgs (PortCmd.ofByte b) := by
    rw [fetchCmd_offer]
  rw [consume, dispatch, hs']
  dsimp only
  by_cases h : 0 < portCmdArgs (PortCmd.ofByte b)
  · rw [if_pos h, readCommand, if_pos (by rw [hlen]; exact h), settle_of_ne (by simp),
      finishRx_of_ne _ (.inl (by simp))]
  · rw [if_neg h, readCommand, if_neg (by rw [hlen]; exact h)]

/-- An argument byte is looked at. -/
theorem consume_readArg (hs : p.state = .readArg) (hn : p.argLen ≠ 0) (b : Byte) :
    p.consume b =
      if p.argLen = 1 then finishRx 255 (p.offer b).fetchArg.begun.settle
      else (p.offer b).fetchArg := by
  have hs' : (p.offer b).state = .readArg := hs
  have hn' : (p.offer b).argLen ≠ 0 := hn
  have hlen : (p.offer b).fetchArg.argLen = p.argLen - 1 := by
    rw [fetchArg_offer]
  have hstate : (p.offer b).fetchArg.state = .readArg := by
    rw [fetchArg_offer]
    exact hs
  rw [consume, dispatch, hs']
  dsimp only
  rw [readArgument, if_neg hn', hlen]
  by_cases h1 : p.argLen = 1
  · rw [if_pos h1, if_pos (by omega)]
  · rw [if_neg h1, if_neg (by omega), settle_of_ne (by simp [hstate]),
      finishRx_of_ne _ (.inl (by simp [hstate]))]

/-- Argument bytes are put one after the other into `arg`. -/
theorem consumeAll_args (args : List Byte) : ∀ (p : PortData) (done : List Byte),
    p.state = .readArg → args ≠ [] → p.argLen = args.length → p.argPos = done.length →
    done.length + args.length ≤ 3 → (∀ i < done.length, p.argAt i = done.getD i 0#8) →
    ∃ r, Loaded p p.cmd (done ++ args) r ∧
      p.consumeAll args = finishRx 255 r.begun.settle := by
  induction args with
  | nil => exact fun _ _ _ h => absurd rfl h
  | cons b args ih =>
    intro p done hs _ hlen hpos hle hdone
    rw [List.length_cons] at hlen hle
    have harg (i : ℕ) (hi : i < (done ++ [b]).length) :
        (p.offer b).fetchArg.argAt i = (done ++ [b]).getD i 0#8 := by
      rw [List.length_append, List.length_singleton] at hi
      have hget : (p.offer b).fetchArg.argAt i = if i = p.argPos ∧ p.argPos < bridgeArgSize then b
          else p.argAt i := by
        rw [fetchArg_offer]
        exact Cells.get_write_singleton _ _ _ _
      rw [hget, hpos]
      by_cases hi' : i = done.length
      · subst hi'
        rw [if_pos ⟨rfl, by simp only [bridgeArgSize]; omega⟩]
        simp
      · rw [if_neg (fun h => hi' h.1), hdone i (by omega)]
        simp [List.getElem?_append_left (show i < done.length by omega)]
    rw [consumeAll_cons, consume_readArg hs (by omega)]
    cases args with
    | nil =>
      rw [if_pos (by simpa using hlen), consumeAll_nil]
      refine ⟨_, ?_, rfl⟩
      rw [fetchArg_offer] at harg ⊢
      exact ⟨rfl, harg, rfl, rfl, rfl, rfl, rfl, rfl, rfl, rfl⟩
    | cons b' args =>
      rw [if_neg (by simp only [List.length_cons] at hlen; omega)]
      have hargLen : (p.offer b).fetchArg.argLen = (b' :: args).length := by
        rw [fetchArg_offer]
        show p.argLen - 1 = _
        omega
      have hargPos : (p.offer b).fetchArg.argPos = (done ++ [b]).length := by
        rw [fetchArg_offer]
        show (p.argPos + 1) % 256 = _
        rw [List.length_append, List.length_singleton]
        omega
      have hstate : (p.offer b).fetchArg.state = .readArg := by
        rw [fetchArg_offer]
        exact hs
      obtain ⟨r, hr, heq⟩ := ih (p.offer b).fetchArg (done ++ [b]) hstate (by simp) hargLen hargPos
        (by simp only [List.length_append, List.length_singleton]; omega) harg
      refine ⟨r, ?_, heq⟩
      have hr' := hr.arg
      rw [List.append_assoc] at hr'
      rw [fetchArg_offer] at hr
      exact ⟨hr.cmd, hr', hr.port, hr.mode, hr.replyLen, hr.cmdPos, hr.cmdLen, hr.answers,
        hr.sense, hr.effects⟩

/-- **An opcode with its argument bytes is loaded and begun.** -/
theorem consumeAll_command (hs : p.state = .readCmd) {op : Byte} {args : List Byte}
    (hlen : args.length = portCmdArgs (PortCmd.ofByte op)) :
    ∃ r, Loaded p op args r ∧ p.consumeAll (op :: args) = finishRx 255 r.begun.settle := by
  rw [consumeAll_cons, consume_readCmd hs]
  cases args with
  | nil =>
    rw [if_neg (by simp only [List.length_nil] at hlen; omega), consumeAll_nil]
    refine ⟨(p.offer op).fetchCmd, ?_, rfl⟩
    rw [fetchCmd_offer]
    exact ⟨rfl, by simp, rfl, rfl, rfl, rfl, rfl, rfl, rfl, rfl⟩
  | cons b args =>
    rw [if_pos (by simp only [List.length_cons] at hlen; omega), fetchCmd_offer]
    have hle := portCmdArgs_le (PortCmd.ofByte op)
    obtain ⟨r, hr, heq⟩ := consumeAll_args (b :: args)
      { (p.offer op).takeCmd 1 with
        cmd := op, argLen := portCmdArgs (PortCmd.ofByte op), argPos := 0, state := .readArg }
      [] rfl (by simp) hlen.symm rfl (by simp only [List.length_nil]; omega) (by simp)
    exact ⟨r, ⟨hr.cmd, hr.arg, hr.port, hr.mode, hr.replyLen, hr.cmdPos, hr.cmdLen, hr.answers,
      hr.sense, hr.effects⟩, heq⟩

/-- The status with which a command begins. -/
def statusOf (c : Option PortCmd) : ExecStatus :=
  match c with
  | some .echo | some .rx | some .txrx | some .tx => .continue
  | some .start => .async
  | _ => .done

theorem state_begun (p : PortData) : p.begun.state = (statusOf p.opcode).toState :=
  congrArg ExecStatus.toState (beginCmd_snd p)

/-- **A command with a payload waits for it.** -/
theorem consumeAll_continue (hs : p.state = .readCmd) {op : Byte} {args : List Byte}
    (hlen : args.length = portCmdArgs (PortCmd.ofByte op))
    (hst : statusOf (PortCmd.ofByte op) = .continue) (hrx : PortCmd.ofByte op ≠ some .rx) :
    ∃ r, Loaded p op args r ∧ p.consumeAll (op :: args) = r.begun := by
  obtain ⟨r, hr, heq⟩ := consumeAll_command hs hlen
  have hstate : r.begun.state = .exec := by
    rw [state_begun, hr.opcode, hst]
    rfl
  have hop : r.begun.opcode ≠ some .rx := by
    have hcmd : r.begun.cmd = r.cmd := congrArg Control.cmd (control_begun r)
    rw [opcode, hcmd, hr.cmd]
    exact hrx
  refine ⟨r, hr, heq.trans ?_⟩
  rw [settle_of_ne (by simp [hstate]), finishRx_of_ne _ (.inr hop)]

/-- **A command without a payload is done once it is begun.** -/
theorem consumeAll_done (hs : p.state = .readCmd) {op : Byte} {args : List Byte}
    (hlen : args.length = portCmdArgs (PortCmd.ofByte op))
    (hst : statusOf (PortCmd.ofByte op) = .done) :
    ∃ r, Loaded p op args r ∧ p.consumeAll (op :: args) = r.begun := by
  obtain ⟨r, hr, heq⟩ := consumeAll_command hs hlen
  have hstate : r.begun.state = .readCmd := by
    rw [state_begun, hr.opcode, hst]
    rfl
  refine ⟨r, hr, heq.trans ?_⟩
  rw [settle_of_ne (by simp [hstate]), finishRx_of_ne _ (.inl (by simp [hstate]))]

/-! ### Parts of a payload -/

/-- The enabled peripheral can execute the command. -/
def serves (c : Option PortCmd) (m : PortMode) : Bool :=
  match c, m with
  | some .echo, _ | some .tx, .spi | some .tx, .i2c | some .tx, .uart | some .rx, .spi
  | some .rx, .i2c | some .txrx, .spi => true
  | _, _ => false

/-- The number of bytes of a part of a payload. -/
def partLen (p : PortData) : ℕ :=
  match p.opcode, p.mode with
  | some .echo, _ | some .txrx, _ => p.txrxLen
  | some .tx, .i2c | some .rx, .i2c => 1
  | some .tx, _ => p.txLen
  | some .rx, _ => p.rxLen
  | _, _ => 0

@[simp] theorem argAt_setArg0 (p : PortData) (b : Byte) : (p.setArg0 b).argAt 0 = b := by
  rw [argAt, setArg0, Cells.get_write_singleton, if_pos ⟨rfl, by decide⟩]

@[simp] theorem arg_append (p : PortData) (bs : List Byte) : (p.append bs).arg = p.arg := by
  induction bs generalizing p with
  | nil => rfl
  | cons b bs ih => exact ih (p.appendByte b)

@[simp] theorem txLen_emit (p : PortData) (e : Effect) : (p.emit e).txLen = p.txLen := rfl

@[simp] theorem rxLen_emit (p : PortData) (e : Effect) : (p.emit e).rxLen = p.rxLen := rfl

@[simp] theorem txrxLen_emit (p : PortData) (e : Effect) : (p.emit e).txrxLen = p.txrxLen := rfl

@[simp] theorem arg_sendCmd (p : PortData) (a : Byte → Action) (n : ℕ) :
    (p.sendCmd a n).arg = p.arg := by
  unfold sendCmd takeCmd
  rfl

@[simp] theorem arg_receiveReply (p : PortData) (n : ℕ) : (p.receiveReply n).arg = p.arg :=
  arg_append _ _

/-- A part of a payload leaves the rest of its length in `arg[0]`; it is over at once, or when the
transfer that it starts is completed. -/
theorem continueCmd_part (h : serves p.opcode p.mode) :
    ∃ r : PortData, r.arg = p.arg ∧
      (p.continueCmd = (r.subArg0 p.partLen, (r.subArg0 p.partLen).payloadStatus) ∨
        ∃ t, p.continueCmd = ((r.subArg0 p.partLen).startTransfer t, .async)) := by
  rcases hop : p.opcode with _ | c
  · simp [serves, hop] at h
  · cases c <;> simp only [serves, hop, Bool.false_eq_true] at h
    case echo =>
      simp only [continueCmd, partLen, opcode_emit, hop, txrxLen_emit]
      refine ⟨_, ?_, .inl rfl⟩
      rw [arg_append]
      rfl
    case tx =>
      cases hm : p.mode <;> simp only [hm, Bool.false_eq_true] at h
      all_goals
        simp only [continueCmd, partLen, opcode_emit, hop, mode_emit, hm, txLen_emit]
        refine ⟨_, ?_, .inr ⟨_, rfl⟩⟩
        rw [arg_sendCmd]
        rfl
    case rx =>
      cases hm : p.mode <;> simp only [hm, Bool.false_eq_true] at h
      all_goals
        simp only [continueCmd, partLen, opcode_emit, hop, mode_emit, hm, rxLen_emit]
        refine ⟨_, ?_, .inr ⟨_, rfl⟩⟩
        rw [arg_receiveReply]
        rfl
    case txrx =>
      cases hm : p.mode <;> simp only [hm, Bool.false_eq_true] at h
      simp only [continueCmd, partLen, opcode_emit, hop, mode_emit, hm, txrxLen_emit]
      refine ⟨_, ?_, .inr ⟨_, rfl⟩⟩
      rw [arg_receiveReply, arg_sendCmd]
      rfl

/-- **A part of a payload**, up to the completion of its transfer. -/
structure Part (p q : PortData) : Prop where
  cmd : q.cmd = p.cmd
  port : q.port = p.port
  mode : q.mode = p.mode
  arg0 : q.argAt 0 = p.argAt 0 - BitVec.ofNat 8 p.partLen
  state : q.state = if q.argAt 0 = 0#8 then .readCmd else .exec

theorem part_continued (h : serves p.opcode p.mode) : Part p p.continued.settle := by
  have hstatus (q : PortData) :
      q.payloadStatus.toState = if q.argAt 0 = 0#8 then PortState.readCmd else .exec := by
    unfold payloadStatus
    split_ifs <;> rfl
  obtain ⟨n, hcontrol⟩ := control_continueCmd_eq p
  have hcmd : p.continued.cmd = p.cmd := congrArg Control.cmd hcontrol
  have hport : p.continued.port = p.port := congrArg Control.port hcontrol
  have hmode : p.continued.mode = p.mode := mode_continued p
  obtain ⟨r, harg, hr⟩ := continueCmd_part h
  have hsub : (r.subArg0 p.partLen).argAt 0 = p.argAt 0 - BitVec.ofNat 8 p.partLen := by
    rw [subArg0, argAt_setArg0, argAt, harg]
    rfl
  obtain hr | ⟨t, hr⟩ := hr
  · have hcont : p.continued = { r.subArg0 p.partLen with
        state := (r.subArg0 p.partLen).payloadStatus.toState } := by
      rw [continued, hr]
    have hne : p.continued.state ≠ .execAsync := by
      rw [hcont, hstatus]
      split_ifs <;> simp
    rw [settle_of_ne hne]
    refine ⟨hcmd, hport, hmode, ?_, ?_⟩
    · rw [hcont]
      exact hsub
    · rw [hcont]
      exact hstatus _
  · have hcont : p.continued = { (r.subArg0 p.partLen).startTransfer t with
        state := .execAsync } := by
      rw [continued, hr]
      rfl
    rw [settle_of_transfer (by rw [hcont]) (by rw [hcont]; exact Option.some_ne_none t)]
    refine ⟨hcmd, hport, hmode, ?_, ?_⟩
    · rw [hcont]
      exact hsub
    · exact hstatus p.continued

/-! ### Payloads -/

/-- There is a byte to read and an empty reply. -/
theorem ready_offer (p : PortData) (b : Byte) : (p.offer b).Ready :=
  ⟨Nat.zero_lt_one, show 1 ≤ 255 by decide, show 0 < 255 by decide⟩

theorem cmdBytes_offer (p : PortData) (b : Byte) : (p.offer b).cmdBytes 1 = [b] :=
  Cells.slice_write_zero (show [b].length ≤ 255 by simp)

/-- Of a payload that comes from the host, a part is one byte. -/
theorem partLen_offer (h : serves p.opcode p.mode) (hrx : p.opcode ≠ some .rx)
    (h0 : p.argAt 0 ≠ 0#8) (b : Byte) : (p.offer b).partLen = 1 := by
  have harg : 0 < (p.argAt 0).toNat := Nat.pos_of_ne_zero fun h => h0 (BitVec.eq_of_toNat_eq h)
  have hoarg : ((p.offer b).argAt 0).toNat = (p.argAt 0).toNat := rfl
  have hcmd : (p.offer b).cmdRemaining = 1 := (ready_offer p b).cmdRemaining
  have hreply : (p.offer b).replyRemaining = 255 := (ready_offer p b).replyRemaining
  have htx : (p.offer b).txLen = 1 := by
    rw [txLen, hcmd, hoarg]
    omega
  have htxrx : (p.offer b).txrxLen = 1 := by
    rw [txrxLen, hcmd, hreply, hoarg]
    omega
  have hop : (p.offer b).opcode = p.opcode := rfl
  have hm : (p.offer b).mode = p.mode := rfl
  rw [partLen, hop, hm]
  revert h hrx
  rcases p.opcode with _ | c
  · intro h
    cases h
  · cases c <;> cases p.mode <;> simp [serves, htx, htxrx]

/-- A byte of a payload that comes from the host. -/
theorem consume_payload (hs : p.state = .exec) (h : serves p.opcode p.mode)
    (hrx : p.opcode ≠ some .rx) (h0 : p.argAt 0 ≠ 0#8) (b : Byte) :
    p.consume b = (p.offer b).continued.settle ∧ (p.consume b).cmd = p.cmd ∧
      (p.consume b).port = p.port ∧ (p.consume b).mode = p.mode ∧
      (p.consume b).argAt 0 = p.argAt 0 - 1#8 ∧
      (p.consume b).state = if p.argAt 0 - 1#8 = 0#8 then .readCmd else .exec := by
  have hs' : (p.offer b).state = .exec := hs
  have hpart : Part (p.offer b) (p.offer b).continued.settle := part_continued h
  have hop : (p.offer b).continued.settle.opcode ≠ some .rx := by
    rw [opcode, hpart.cmd]
    exact hrx
  have heq : p.consume b = (p.offer b).continued.settle := by
    rw [consume, dispatch, hs']
    exact finishRx_of_ne _ (.inr hop)
  have harg := hpart.arg0
  rw [partLen_offer h hrx h0] at harg
  rw [heq]
  refine ⟨rfl, hpart.cmd, hpart.port, hpart.mode, harg, ?_⟩
  rw [hpart.state, harg]
  rfl

/-- A byte of the payload of ECHO is replied. -/
theorem effects_consume_echo (hs : p.state = .exec) (hop : p.opcode = some .echo)
    (h0 : p.argAt 0 ≠ 0#8) (b : Byte) :
    (p.consume b).effects = p.effects ++ [.exec p.cmd] ++ [.reply b] := by
  have hserves : serves p.opcode p.mode := by
    rw [hop]
    rfl
  have hrx : p.opcode ≠ some .rx := by
    rw [hop]
    decide
  have hop' : (p.offer b).opcode = some .echo := hop
  have hlen : ((p.offer b).emit (.exec (p.offer b).cmd)).txrxLen = 1 := by
    have := partLen_offer hserves hrx h0 b
    rwa [partLen, hop'] at this
  have hbytes : ((p.offer b).emit (.exec (p.offer b).cmd)).cmdBytes 1 = [b] := cmdBytes_offer p b
  rw [(consume_payload hs hserves hrx h0 b).1, effects_settle]
  simp only [continued, continueCmd, opcode_emit, hop', hlen, hbytes]
  rfl

theorem sub_one_toNat {x : Byte} (h : x ≠ 0#8) : (x - 1#8).toNat = x.toNat - 1 := by
  have hx : 0 < x.toNat := Nat.pos_of_ne_zero fun h' => h (BitVec.eq_of_toNat_eq h')
  have hlt := x.isLt
  rw [BitVec.toNat_sub]
  show (256 - 1 + x.toNat) % 256 = x.toNat - 1
  omega

/-- **A payload that comes from the host** completes its command. -/
theorem consumeAll_payload (payload : List Byte) : ∀ p : PortData, p.state = .exec →
    serves p.opcode p.mode → p.opcode ≠ some .rx → payload ≠ [] →
    payload.length = (p.argAt 0).toNat →
    (p.consumeAll payload).state = .readCmd ∧ (p.consumeAll payload).mode = p.mode ∧
      (p.consumeAll payload).port = p.port := by
  induction payload with
  | nil => exact fun _ _ _ _ h => absurd rfl h
  | cons b payload ih =>
    intro p hs hserves hrx _ hlen
    rw [List.length_cons] at hlen
    have h0 : p.argAt 0 ≠ 0#8 := by
      intro h
      rw [h] at hlen
      exact Nat.succ_ne_zero _ hlen
    obtain ⟨-, hcmd, hport, hmode, harg, hstate⟩ := consume_payload hs hserves hrx h0 b
    have hsub := sub_one_toNat h0
    rw [consumeAll_cons]
    cases payload with
    | nil =>
      have hz : p.argAt 0 - 1#8 = 0#8 := by
        refine BitVec.eq_of_toNat_eq ?_
        rw [hsub, ← hlen]
        rfl
      rw [if_pos hz] at hstate
      exact ⟨hstate, hmode, hport⟩
    | cons b' payload =>
      have hz : p.argAt 0 - 1#8 ≠ 0#8 := by
        intro hz
        rw [hz] at hsub
        simp only [List.length_cons] at hlen
        have : (0#8).toNat = 0 := rfl
        omega
      rw [if_neg hz] at hstate
      have hop : (p.consume b).opcode = p.opcode := by rw [opcode, hcmd, opcode]
      obtain ⟨h1, h2, h3⟩ := ih (p.consume b) hstate (by rw [hop, hmode]; exact hserves)
        (by rw [hop]; exact hrx) (by simp) (by rw [harg, hsub]; omega)
      exact ⟨h1, h2.trans hmode, h3.trans hport⟩

/-- **The parts of an RX command** complete it. -/
theorem finishRx_done (n : ℕ) : ∀ p : PortData, p.state = .exec → p.opcode = some .rx →
    serves p.opcode p.mode → p.argAt 0 ≠ 0#8 → (p.argAt 0).toNat ≤ n →
    (finishRx n p).state = .readCmd ∧ (finishRx n p).mode = p.mode ∧
      (finishRx n p).port = p.port := by
  induction n with
  | zero =>
    intro p _ _ _ h0 hle
    exact absurd (BitVec.eq_of_toNat_eq (Nat.le_zero.1 hle)) h0
  | succ n ih =>
    intro p hs hop hserves h0 hle
    have hpart : Part { p with replyLen := 0 } { p with replyLen := 0 }.continued.settle :=
      part_continued hserves
    have hpos : 0 < (p.argAt 0).toNat := Nat.pos_of_ne_zero fun h => h0 (BitVec.eq_of_toNat_eq h)
    have hlt := (p.argAt 0).isLt
    have hlen : 0 < ({ p with replyLen := 0 } : PortData).partLen ∧
        ({ p with replyLen := 0 } : PortData).partLen ≤ (p.argAt 0).toNat := by
      have hrem : ({ p with replyLen := 0 } : PortData).replyRemaining = 255 :=
        replyRemaining_eq (Nat.zero_le 255)
      have hrx : ({ p with replyLen := 0 } : PortData).rxLen = (p.argAt 0).toNat := by
        rw [rxLen, hrem]
        exact Nat.min_eq_left (Nat.le_of_lt_succ hlt)
      have hop' : ({ p with replyLen := 0 } : PortData).opcode = some .rx := hop
      rw [hop] at hserves
      rw [partLen, hop', hrx]
      cases hm : p.mode <;> simp only [hm, serves, Bool.false_eq_true] at hserves ⊢ <;> omega
    rw [finishRx, if_pos ⟨hs, hop⟩]
    generalize ({ p with replyLen := 0 } : PortData).continued.settle = q at hpart ⊢
    have harg : (q.argAt 0).toNat =
        (p.argAt 0).toNat - ({ p with replyLen := 0 } : PortData).partLen := by
      rw [hpart.arg0, BitVec.toNat_sub, BitVec.toNat_ofNat]
      show (256 - _ % 256 + (p.argAt 0).toNat) % 256 = _
      omega
    have hqop : q.opcode = p.opcode := by rw [opcode, hpart.cmd, opcode]
    have hstate := hpart.state
    by_cases hz : q.argAt 0 = 0#8
    · rw [if_pos hz] at hstate
      rw [finishRx_of_ne _ (.inl (by simp [hstate]))]
      exact ⟨hstate, hpart.mode, hpart.port⟩
    · rw [if_neg hz] at hstate
      have hqmode : q.mode = p.mode := hpart.mode
      obtain ⟨h1, h2, h3⟩ := ih q hstate (hqop.trans hop) (by rw [hqop, hqmode]; exact hserves) hz
        (by omega)
      exact ⟨h1, h2.trans hpart.mode, h3.trans hpart.port⟩

end PortData

end TesselFirmware
