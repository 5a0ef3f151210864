import TesselFirmware.Port.Issue
import TesselFirmware.Port.Quiescence

/-!
# How far the commands have come

`Progress` is what the execution of commands depends on and leads to, apart from the buffers of the
port, its transfers and the flow of control: the command being executed, what pins and peripherals
have answered, and the actions and reply bytes so far.  In these terms the part of a payload is a
function of its bytes alone (`Progress.part`), and parts add up.

* `progress_begun` : beginning a command leads from the same progress to the same progress;
* `progress_continued` : a part of a payload, as `port_continue_cmd` executes it;
* `progress_finishRx` : the parts of an RX command, one after the other.
-/

namespace TesselFirmware

/-- The action that an effect is. -/
def Effect.acted : Effect → Option Action
  | .action a => some a
  | _ => none

/-- What the execution of commands depends on and leads to. -/
@[ext]
structure Progress where
  port : TesselPort
  mode : PortMode
  cmd : Byte
  arg : ℕ → Byte
  argLen : ℕ
  argPos : ℕ
  answers : ℕ → BitVec 16
  actions : List Action
  replied : List Byte

namespace Progress

variable (g : Progress)

/-- The command being executed. -/
def opcode : Option PortCmd := PortCmd.ofByte g.cmd

/-- Some actions. -/
def doing (as : List Action) : Progress := { g with actions := g.actions ++ as }

/-- Some bytes in the reply. -/
def saying (bs : List Byte) : Progress := { g with replied := g.replied ++ bs }

/-- The count in `arg[0]` is set. -/
def setArg0 (b : Byte) : Progress := { g with arg := Function.update g.arg 0 b }

/-- The mode is switched. -/
def setMode (m : PortMode) : Progress := { g with mode := m }

/-- The next `n` answers are taken. -/
def answeredBy (n : ℕ) : Progress := { g with answers := fun k => g.answers (k + n) }

/-- The actions for a part of a payload. -/
def partActions (c : Option PortCmd) (m : PortMode) (bs : List Byte) : List Action :=
  match c, m with
  | some .tx, .spi | some .rx, .spi | some .txrx, .spi => bs.map .spiByte
  | some .tx, .uart => bs.map .uartByte
  | some .tx, .i2c => bs.map .i2cWrite
  | some .rx, .i2c => bs.map fun _ => .i2cRead
  | _, _ => []

theorem partActions_append (c : Option PortCmd) (m : PortMode) (bs cs : List Byte) :
    partActions c m (bs ++ cs) = partActions c m bs ++ partActions c m cs := by
  unfold partActions
  split <;> simp

/-- The command replies what a peripheral answers. -/
def listens : Option PortCmd → Bool
  | some .rx | some .txrx => true
  | _ => false

/-- What the next `n` answers put into the reply. -/
def answerBytes (n : ℕ) : List Byte := (List.range n).map fun k => (g.answers k).setWidth 8

/-- The reply to a part of a payload. -/
def partReply (bs : List Byte) : List Byte :=
  if g.opcode = some .echo then bs
  else if listens g.opcode then g.answerBytes bs.length
  else []

/-- What is answered after a part of `n` bytes. -/
def answersAfter (n : ℕ) : ℕ → BitVec 16 :=
  if listens g.opcode then fun k => g.answers (k + n) else g.answers

/-- A part of a payload: its bytes, of an RX command as many bytes as are received. -/
def part (bs : List Byte) : Progress :=
  { g with
    arg := Function.update g.arg 0 (g.arg 0 - BitVec.ofNat 8 bs.length)
    answers := g.answersAfter bs.length
    actions := g.actions ++ partActions g.opcode g.mode bs
    replied := g.replied ++ g.partReply bs }

@[simp] theorem opcode_part (bs : List Byte) : (g.part bs).opcode = g.opcode := rfl

@[simp] theorem arg_part (bs : List Byte) :
    (g.part bs).arg 0 = g.arg 0 - BitVec.ofNat 8 bs.length :=
  Function.update_self 0 _ g.arg

theorem sub_ofNat_add (x : Byte) (m n : ℕ) :
    x - BitVec.ofNat 8 m - BitVec.ofNat 8 n = x - BitVec.ofNat 8 (m + n) := by
  refine BitVec.eq_of_toNat_eq ?_
  simp only [BitVec.toNat_sub, BitVec.toNat_ofNat]
  omega

variable {g} in
/-- A part of an ECHO. -/
theorem part_echo (h : g.opcode = some .echo) (bs : List Byte) :
    g.part bs = (g.saying bs).setArg0 (g.arg 0 - BitVec.ofNat 8 bs.length) := by
  have hactions : g.actions ++ partActions g.opcode g.mode bs = g.actions := by
    simp [h, partActions]
  refine Progress.ext rfl rfl rfl rfl rfl rfl ?_ hactions ?_
  · exact if_neg (by simp [h, listens])
  · exact congrArg (g.replied ++ ·) (if_pos h)

variable {g} in
/-- A part of a command that only sends. -/
theorem part_sends (he : g.opcode ≠ some .echo) (h : listens g.opcode = false) (bs : List Byte) :
    g.part bs = (g.doing (partActions g.opcode g.mode bs)).setArg0
      (g.arg 0 - BitVec.ofNat 8 bs.length) := by
  have hreply : g.partReply bs = [] := by
    rw [partReply, if_neg he, h]
    rfl
  refine Progress.ext rfl rfl rfl rfl rfl rfl ?_ rfl ?_
  · exact if_neg (by simp [h])
  · show g.replied ++ g.partReply bs = g.replied
    rw [hreply, List.append_nil]

variable {g} in
/-- A part of a command that replies what the peripheral answers. -/
theorem part_listens (h : listens g.opcode) (bs : List Byte) :
    g.part bs = (((g.doing (partActions g.opcode g.mode bs)).saying
      (g.answerBytes bs.length)).answeredBy bs.length).setArg0
        (g.arg 0 - BitVec.ofNat 8 bs.length) := by
  have he : g.opcode ≠ some .echo := by
    intro he
    rw [he] at h
    cases h
  have hreply : g.partReply bs = g.answerBytes bs.length := by
    rw [partReply, if_neg he, if_pos h]
  exact Progress.ext rfl rfl rfl rfl rfl rfl (if_pos h) rfl (congrArg (g.replied ++ ·) hreply)

theorem arg_part_part (bs cs : List Byte) :
    ((g.part bs).part cs).arg = (g.part (bs ++ cs)).arg := by
  show Function.update (Function.update g.arg 0 _) 0 ((g.part bs).arg 0 - _) = _
  rw [arg_part, sub_ofNat_add, ← List.length_append]
  exact Function.update_idem _ _ g.arg

theorem answersAfter_part (bs : List Byte) (n : ℕ) :
    (g.part bs).answersAfter n = g.answersAfter (bs.length + n) := by
  have hg : (g.part bs).answers = g.answersAfter bs.length := rfl
  unfold answersAfter at hg ⊢
  rw [opcode_part, hg]
  split_ifs
  · funext k
    show g.answers (k + n + bs.length) = _
    congr 1
    omega
  · rfl

theorem partReply_append (bs cs : List Byte) :
    g.partReply bs ++ (g.part bs).partReply cs = g.partReply (bs ++ cs) := by
  unfold partReply
  rw [opcode_part]
  split_ifs with he hl
  · rfl
  · have hanswers : (g.part bs).answers = fun k => g.answers (k + bs.length) := if_pos hl
    rw [answerBytes, answerBytes, answerBytes, hanswers, List.length_append, List.range_add,
      List.map_append, List.map_map]
    refine congrArg _ (List.map_congr_left fun k _ => ?_)
    rw [Function.comp_apply, Nat.add_comm]
  · rfl

/-- **Parts add up.** -/
theorem part_append (bs cs : List Byte) : (g.part bs).part cs = g.part (bs ++ cs) := by
  refine Progress.ext rfl rfl rfl (g.arg_part_part bs cs) rfl rfl ?_ ?_ ?_
  · exact (g.answersAfter_part bs cs.length).trans (by rw [← List.length_append]; rfl)
  · show g.actions ++ _ ++ partActions g.opcode g.mode cs = g.actions ++ _
    rw [partActions_append, List.append_assoc]
  · show g.replied ++ g.partReply bs ++ (g.part bs).partReply cs = g.replied ++ _
    rw [List.append_assoc, partReply_append]

end Progress

namespace PortData

variable {p q r : PortData}

/-! ### The progress of a port -/

/-- The actions so far. -/
def actions (p : PortData) : List Action := p.effects.filterMap Effect.acted

def progress (p : PortData) : Progress :=
  ⟨p.port, p.mode, p.cmd, p.argAt, p.argLen, p.argPos, p.answers, p.actions, p.replied⟩

/-- The state, once a running transfer is completed. -/
def resumed (p : PortData) : PortState :=
  if p.state = .execAsync then p.payloadStatus.toState else p.state

theorem resumed_of_ne (h : p.state ≠ .execAsync) : p.resumed = p.state := if_neg h

theorem resumed_ne (p : PortData) : p.resumed ≠ .execAsync := by
  unfold resumed payloadStatus
  split_ifs with h
  · exact fun h => PortState.noConfusion h
  · exact fun h => PortState.noConfusion h
  · exact h

/-! ### Elementary steps -/

theorem progress_emit (p : PortData) {e : Effect} (ha : e.acted = none) (hr : e.replied = none) :
    (p.emit e).progress = p.progress := by
  have hactions : (p.emit e).actions = p.actions := by simp [emit, actions, ha]
  have hreplied : (p.emit e).replied = p.replied := by simp [emit, replied, hr]
  exact Progress.ext rfl rfl rfl rfl rfl rfl rfl hactions hreplied

@[simp] theorem progress_emit_exec (p : PortData) (cmd : Byte) :
    (p.emit (.exec cmd)).progress = p.progress := progress_emit p rfl rfl

@[simp] theorem progress_error (p : PortData) : p.error.progress = p.progress :=
  progress_emit p rfl rfl

@[simp] theorem progress_acts (p : PortData) (as : List Action) :
    (p.acts as).progress = p.progress.doing as := by
  have hacted : (as.map Effect.action).filterMap Effect.acted = as := by
    rw [List.filterMap_map]
    exact List.filterMap_some
  have hactions : (p.acts as).actions = p.actions ++ as := by
    rw [acts, actions, List.filterMap_append, hacted]
    rfl
  exact Progress.ext rfl rfl rfl rfl rfl rfl rfl hactions (replied_acts p as)

@[simp] theorem progress_act (p : PortData) (a : Action) :
    (p.act a).progress = p.progress.doing [a] := progress_acts p [a]

@[simp] theorem progress_check (p : PortData) (b : Bool) : (p.check b).progress = p.progress := rfl

@[simp] theorem progress_gpio (p : PortData) (op : PinOp) (i : ℕ) :
    (p.gpio op i).progress = p.progress.doing [.pin op i] := progress_act (p.check _) _

@[simp] theorem progress_eicConfig (p : PortData) (i : ℕ) (sense : Byte) :
    (p.eicConfig i sense).progress = p.progress.doing [.pin (.eicConfig sense) i] :=
  progress_gpio p _ i

@[simp] theorem progress_answered (p : PortData) :
    p.answered.progress = p.progress.answeredBy 1 := rfl

@[simp] theorem progress_pinRead (p : PortData) (i : ℕ) :
    (p.pinRead i).2.progress = (p.progress.doing [.pin .read i]).answeredBy 1 := by
  rw [pinRead, progress_answered, progress_gpio]

@[simp] theorem progress_startTransfer (p : PortData) (t : Transfer) :
    (p.startTransfer t).progress = p.progress := rfl

@[simp] theorem progress_takeCmd (p : PortData) (n : ℕ) : (p.takeCmd n).progress = p.progress := rfl

@[simp] theorem progress_appendByte (p : PortData) (b : Byte) :
    (p.appendByte b).progress = p.progress.saying [b] := by
  have hactions : (p.appendByte b).actions = p.actions := by
    simp [appendByte, actions, Effect.acted]
  have hreplied : (p.appendByte b).replied = p.replied ++ [b] := by
    simp [appendByte, replied, Effect.replied]
  exact Progress.ext rfl rfl rfl rfl rfl rfl rfl hactions hreplied

theorem argAt_write (p : PortData) (i : ℕ) (b : Byte) (hi : i < bridgeArgSize) :
    (p.arg.write i [b]).get = Function.update p.argAt i b := by
  funext k
  rw [Cells.get_write_singleton]
  by_cases hk : k = i
  · subst hk
    rw [if_pos ⟨rfl, hi⟩, Function.update_self]
  · rw [if_neg fun h => hk h.1, Function.update_of_ne hk]
    rfl

@[simp] theorem progress_setArg0 (p : PortData) (b : Byte) :
    (p.setArg0 b).progress = p.progress.setArg0 b :=
  Progress.ext rfl rfl rfl (p.argAt_write 0 b (by decide)) rfl rfl rfl rfl rfl

theorem progress_append (bs : List Byte) : ∀ p : PortData,
    (p.append bs).progress = p.progress.saying bs := by
  induction bs with
  | nil =>
    intro p
    exact Progress.ext rfl rfl rfl rfl rfl rfl rfl rfl (List.append_nil _).symm
  | cons b bs ih =>
    intro p
    rw [append, List.foldl_cons, ← append, ih, progress_appendByte]
    exact Progress.ext rfl rfl rfl rfl rfl rfl rfl rfl (List.append_assoc _ [b] bs)

theorem progress_sendStatus (b : Byte) (h : p.replyLen < bridgeBufSize) :
    (p.sendStatus b).progress = p.progress.saying [b] := by
  rw [sendStatus, if_neg (Nat.not_le_of_lt h), progress_appendByte]

/-! ### Beginning a command -/

theorem argAt_of_progress (h : p.progress = q.progress) : p.argAt = q.argAt :=
  congrArg Progress.arg h

theorem progress_gpioPull (h : p.progress = q.progress) :
    p.gpioPull.progress = q.gpioPull.progress := by
  simp only [gpioPull, argAt_of_progress h]
  split_ifs
  · rw [progress_gpio, progress_gpio, h]
  · rw [progress_gpio, progress_gpio, h]
  · rw [progress_gpio, progress_gpio, h]
  · exact h

theorem progress_gpioInt (h : p.progress = q.progress) :
    p.gpioInt.progress = q.gpioInt.progress := by
  have hport : p.port = q.port := congrArg Progress.port h
  have hport' (t : PortData) (b : Bool) : (t.check b).port = t.port := rfl
  simp only [gpioInt, argAt_of_progress h, hport', hport]
  split_ifs
  · simp only [progress_eicConfig, progress_gpio, progress_check, h]
  · simp only [progress_eicConfig, progress_gpio, progress_check, h]
  · exact h

/-- A status byte. -/
theorem progress_status (b : Byte) (h : p.progress = q.progress) (hp : p.replyLen < bridgeBufSize)
    (hq : q.replyLen < bridgeBufSize) : (p.sendStatus b).progress = (q.sendStatus b).progress := by
  rw [progress_sendStatus b hp, progress_sendStatus b hq, h]

/-- The level of a pin is replied. -/
theorem progress_level (i : ℕ) (h : p.progress = q.progress) (hp : p.replyLen < bridgeBufSize)
    (hq : q.replyLen < bridgeBufSize) :
    ((p.pinRead i).2.sendStatus (replyLevel (p.pinRead i).1)).progress =
      ((q.pinRead i).2.sendStatus (replyLevel (q.pinRead i).1)).progress := by
  have hanswer : p.answer = q.answer := congrFun (congrArg Progress.answers h) 0
  have hlevel : (p.pinRead i).1 = (q.pinRead i).1 := by
    rw [pinRead, pinRead, hanswer]
  rw [hlevel]
  refine progress_status _ ?_ hp hq
  rw [progress_pinRead, progress_pinRead, h]

theorem progress_acts_congr {as as' : List Action} (h : p.progress = q.progress) (ha : as = as') :
    (p.acts as).progress = (q.acts as').progress := by
  rw [progress_acts, progress_acts, h, ha]

/-- The mode is switched. -/
theorem progress_switch (m : PortMode) (h : p.progress = q.progress) :
    p.progress.setMode m = q.progress.setMode m := by
  rw [h]

/-- **Beginning a command** depends on the progress alone. -/
theorem progress_beginCmd (h : p.progress = q.progress) (hp : p.replyLen < bridgeBufSize)
    (hq : q.replyLen < bridgeBufSize) : p.beginCmd.1.progress = q.beginCmd.1.progress := by
  have he : (p.emit (.exec p.cmd)).progress = (q.emit (.exec q.cmd)).progress := by
    rw [progress_emit_exec, progress_emit_exec, h]
  have hopq : q.opcode = p.opcode := congrArg PortCmd.ofByte (congrArg Progress.cmd h.symm)
  replace hp : (p.emit (.exec p.cmd)).replyLen < bridgeBufSize := hp
  replace hq : (q.emit (.exec q.cmd)).replyLen < bridgeBufSize := hq
  rcases hop : p.opcode with _ | c
  · simp only [beginCmd, opcode_emit, hopq, hop, progress_error]
    exact he
  · cases c <;> simp only [beginCmd, opcode_emit, hopq, hop]
    all_goals
      -- both ports have the mark of the command now; what they read is the same
      clear hop hopq h
      generalize p.emit (.exec p.cmd) = p at *
      generalize q.emit (.exec q.cmd) = q at *
      have harg : p.argAt = q.argAt := argAt_of_progress he
      have hpin : p.selectedPin = q.selectedPin := by rw [selectedPin, selectedPin, harg]
      have hword (i : ℕ) : p.argWord i = q.argWord i := by rw [argWord, argWord, harg]
      have hanswer : p.answer = q.answer := congrFun (congrArg Progress.answers he) 0
    case nop => exact he
    case tx => exact he
    case gpioWait => exact he
    case gpioCfg => exact he
    case flush => simpa using he
    case echo => exact progress_status _ he hp hq
    case rx => exact progress_status _ he hp hq
    case txrx => exact progress_status _ he hp hq
    case gpioIn =>
      rw [hpin]
      refine progress_level _ ?_ hp hq
      rw [progress_gpio, progress_gpio, he]
    case gpioRawRead =>
      rw [hpin]
      exact progress_level _ he hp hq
    case gpioInput => simp only [progress_gpio, hpin, he]
    case gpioHigh => simp only [progress_gpio, hpin, he]
    case gpioLow => simp only [progress_gpio, hpin, he]
    case gpioToggle => simp only [progress_gpio, hpin, he]
    case gpioPull => exact progress_gpioPull he
    case gpioInt => exact progress_gpioInt he
    case analogRead =>
      simp only [progress_appendByte, progress_answered, progress_gpio, hpin, he, hanswer]
    case analogWrite => simp only [progress_act, hword, he]
    case stop => simp only [progress_act, he]
    case pwmDutyCycle => simp only [progress_gpio, hword, harg, he]
    case pwmPeriod => simp only [progress_act, hword, harg, he]
    case start =>
      rw [progress_startTransfer, progress_startTransfer, progress_setArg0, progress_setArg0,
        progress_act, progress_act, he, harg]
    case enableSpi => exact progress_switch .spi (progress_acts_congr he (by rw [harg]))
    case disableSpi => exact progress_switch .none (progress_acts_congr he rfl)
    case enableI2c => exact progress_switch .i2c (progress_acts_congr he (by rw [harg]))
    case disableI2c => exact progress_switch .none (progress_acts_congr he rfl)
    case enableUart => exact progress_switch .uart (progress_acts_congr he (by rw [hword]))
    case disableUart => exact progress_switch .none (progress_acts_congr he rfl)

theorem resumed_congr (hs : p.state = q.state) (h : p.progress = q.progress) :
    p.resumed = q.resumed := by
  unfold resumed payloadStatus
  rw [hs, argAt_of_progress h]

theorem progress_begun (h : p.progress = q.progress) (hp : p.replyLen < bridgeBufSize)
    (hq : q.replyLen < bridgeBufSize) :
    p.begun.progress = q.begun.progress ∧ p.begun.resumed = q.begun.resumed := by
  have hbegun : p.begun.progress = q.begun.progress := progress_beginCmd h hp hq
  have hop : p.opcode = q.opcode := congrArg PortCmd.ofByte (congrArg Progress.cmd h)
  refine ⟨hbegun, resumed_congr ?_ hbegun⟩
  rw [state_begun, state_begun, hop]

/-! ### Completing a transfer -/

@[simp] theorem progress_settle (p : PortData) : p.settle.progress = p.progress := by
  unfold settle
  split_ifs <;> rfl

theorem state_settle (h : p.state = .execAsync → p.transfer ≠ none) :
    p.settle.state = p.resumed := by
  by_cases hs : p.state = .execAsync
  · rw [settle_of_transfer hs (h hs), resumed, if_pos hs]
    rfl
  · rw [settle_of_ne hs, resumed_of_ne hs]

theorem resumed_transferred (hs : p.state = .execAsync) : p.transferred.resumed = p.resumed := by
  have hne : p.transferred.state ≠ .execAsync := by
    have h := p.resumed_ne
    rwa [resumed, if_pos hs] at h
  rw [resumed_of_ne hne, resumed, if_pos hs]
  rfl

/-! ### Parts of a payload -/

@[simp] theorem progress_subArg0 (p : PortData) (n : ℕ) :
    (p.subArg0 n).progress = p.progress.setArg0 (p.progress.arg 0 - BitVec.ofNat 8 n) :=
  progress_setArg0 p _

@[simp] theorem progress_sendCmd (p : PortData) (a : Byte → Action) (n : ℕ) :
    (p.sendCmd a n).progress = p.progress.doing ((p.cmdBytes n).map a) :=
  progress_acts p _

@[simp] theorem progress_receiveReply (p : PortData) (n : ℕ) :
    (p.receiveReply n).progress = (p.progress.saying (p.progress.answerBytes n)).answeredBy n :=
  congrArg (Progress.answeredBy · n) (progress_append (p.answerBytes n) p)

/-- The bytes of the next part of a payload. -/
def partBytes (p : PortData) : List Byte :=
  if p.opcode = some .rx then List.replicate p.partLen dummyTx else p.cmdBytes p.partLen

/-- **A part of a payload**, as `port_continue_cmd` executes it. -/
theorem progress_continued (h : serves p.opcode p.mode) (hlen : p.partBytes.length = p.partLen) :
    p.continued.progress = p.progress.part p.partBytes := by
  have he : (p.emit (.exec p.cmd)).progress = p.progress := progress_emit_exec p p.cmd
  have hbytes (n : ℕ) : (p.emit (.exec p.cmd)).cmdBytes n = p.cmdBytes n := rfl
  have hopg : p.progress.opcode = p.opcode := rfl
  have hmg : p.progress.mode = p.mode := rfl
  show p.continueCmd.1.progress = _
  rcases hop : p.opcode with _ | c
  · simp [serves, hop] at h
  · rw [hop] at hopg
    cases c <;> simp only [serves, hop, Bool.false_eq_true] at h <;>
      simp only [partBytes, partLen, hop, Option.some.injEq, reduceCtorEq, if_false,
        if_true] at hlen ⊢
    case echo =>
      rw [Progress.part_echo hopg, hlen]
      simp only [continueCmd, opcode_emit, hop, progress_subArg0, progress_append,
        progress_takeCmd, he, txrxLen_emit, hbytes]
      rfl
    case tx =>
      cases hm : p.mode <;> simp only [hm, Bool.false_eq_true] at h hlen ⊢
      all_goals
        rw [hm] at hmg
        rw [Progress.part_sends (by rw [hopg]; simp) (by rw [hopg]; rfl), hlen, hopg, hmg]
        simp only [continueCmd, opcode_emit, hop, mode_emit, hm, progress_startTransfer,
          progress_subArg0, progress_sendCmd, he, txLen_emit, hbytes, Progress.partActions]
        rfl
    case rx =>
      cases hm : p.mode <;> simp only [hm, Bool.false_eq_true] at h hlen ⊢
      all_goals
        rw [hm] at hmg
        rw [Progress.part_listens (by rw [hopg]; rfl), hlen, hopg, hmg]
        simp only [continueCmd, opcode_emit, hop, mode_emit, hm, progress_startTransfer,
          progress_subArg0, progress_receiveReply, progress_acts, progress_act, he, rxLen_emit,
          Progress.partActions, List.map_replicate]
        rfl
    case txrx =>
      cases hm : p.mode <;> simp only [hm, Bool.false_eq_true] at h hlen ⊢
      rw [hm] at hmg
      rw [Progress.part_listens (by rw [hopg]; rfl), hlen, hopg, hmg]
      simp only [continueCmd, opcode_emit, hop, mode_emit, hm, progress_startTransfer,
        progress_subArg0, progress_receiveReply, progress_sendCmd, he, txrxLen_emit, hbytes,
        Progress.partActions]
      rfl

/-- A part of a payload that waits for a completion has started a transfer. -/
theorem transfer_continued (h : serves p.opcode p.mode) (hs : p.continued.state = .execAsync) :
    p.continued.transfer ≠ none := by
  obtain ⟨r, -, heq | ⟨t, heq⟩⟩ := continueCmd_part h
  · replace hs : p.continueCmd.2.toState = .execAsync := hs
    rw [heq] at hs
    simp only [payloadStatus] at hs
    split_ifs at hs <;> cases hs
  · show p.continueCmd.1.transfer ≠ none
    rw [heq]
    exact Option.some_ne_none t

theorem resumed_continued (h : serves p.opcode p.mode) :
    p.continued.resumed = if p.continued.argAt 0 = 0#8 then .readCmd else .exec := by
  have hpart := (part_continued h).state
  rw [state_settle (transfer_continued h),
    argAt_of_progress (progress_settle p.continued)] at hpart
  exact hpart

/-- The next part of a payload is not empty and not longer than what is missing. -/
theorem partLen_bounds (h : serves p.opcode p.mode) (h0 : p.argAt 0 ≠ 0#8)
    (hreply : p.replyLen < bridgeBufSize)
    (hcmd : p.opcode ≠ some .rx → p.cmdPos < p.cmdLen ∧ p.cmdLen ≤ bridgeBufSize) :
    0 < p.partLen ∧ p.partLen ≤ (p.argAt 0).toNat := by
  have hb : bridgeBufSize = 255 := rfl
  have hpos : 0 < (p.argAt 0).toNat := Nat.pos_of_ne_zero fun h => h0 (BitVec.eq_of_toNat_eq h)
  have hrem : p.replyRemaining = 255 - p.replyLen := replyRemaining_eq hreply.le
  have hhost : p.opcode ≠ some .rx → 0 < p.txLen ∧ 0 < p.txrxLen := by
    intro hrx
    obtain ⟨hlt, hle⟩ := hcmd hrx
    rw [txLen, txrxLen, cmdRemaining_eq hlt.le hle, hrem]
    omega
  have hrx : 0 < p.rxLen ∧ p.rxLen ≤ (p.argAt 0).toNat := by
    rw [rxLen, hrem]
    omega
  have htx : p.txLen ≤ (p.argAt 0).toNat ∧ p.txrxLen ≤ (p.argAt 0).toNat := by
    rw [txLen, txrxLen]
    omega
  clear hrem hreply hcmd h0
  rcases hop : p.opcode with _ | c
  · simp [serves, hop] at h
  · rw [hop] at hhost
    cases c <;> simp only [serves, hop, Bool.false_eq_true] at h <;> simp only [partLen, hop]
    case echo => exact ⟨(hhost (by simp)).2, htx.2⟩
    case txrx => exact ⟨(hhost (by simp)).2, htx.2⟩
    case tx =>
      obtain ⟨hlt, -⟩ := hhost (by simp)
      cases hm : p.mode <;> simp only [hm, Bool.false_eq_true] at h ⊢ <;> omega
    case rx => cases hm : p.mode <;> simp only [hm, Bool.false_eq_true] at h ⊢ <;> omega

/-- What `port_continue_cmd` reads of `cmd_buf` is the part of the payload. -/
theorem continueTake_eq (h : serves p.opcode p.mode) :
    p.continueTake = if p.opcode = some .rx then 0 else p.partLen := by
  rcases hop : p.opcode with _ | c
  · simp [serves, hop] at h
  · cases c <;> simp only [serves, hop, Bool.false_eq_true] at h
    case echo => simp [continueTake, partLen, hop]
    all_goals
      cases hm : p.mode <;> simp only [hm, Bool.false_eq_true] at h
      all_goals simp [continueTake, partLen, hop, hm]

theorem length_partBytes (h : serves p.opcode p.mode) (hr : p.Ready) :
    p.partBytes.length = p.partLen := by
  have htake := hr.continueTake_le
  rw [continueTake_eq h] at htake
  unfold partBytes
  split_ifs at htake ⊢
  · exact List.length_replicate
  · exact length_cmdBytes htake hr.cmdLen

/-! ### The reference -/

/-- **The parts of an RX command**, one after the other. -/
theorem progress_finishRx (n : ℕ) : ∀ p : PortData, p.state = .exec → p.opcode = some .rx →
    serves p.opcode p.mode → p.argAt 0 ≠ 0#8 → (p.argAt 0).toNat ≤ n →
    (finishRx n p).progress =
      p.progress.part (List.replicate (p.argAt 0).toNat dummyTx) := by
  induction n with
  | zero =>
    intro p _ _ _ h0 hle
    exact absurd (BitVec.eq_of_toNat_eq (Nat.le_zero.1 hle)) h0
  | succ n ih =>
    intro p hs hop hserves h0 hle
    rw [finishRx, if_pos ⟨hs, hop⟩]
    obtain ⟨hpos, hlen⟩ := partLen_bounds (p := { p with replyLen := 0 }) hserves h0
      (show 0 < 255 by decide) fun hrx => absurd hop hrx
    have hserves' : serves ({ p with replyLen := 0 } : PortData).opcode
      ({ p with replyLen := 0 } : PortData).mode := hserves
    have hop' : ({ p with replyLen := 0 } : PortData).opcode = some .rx := hop
    have hg : ({ p with replyLen := 0 } : PortData).progress = p.progress := rfl
    replace hlen : ({ p with replyLen := 0 } : PortData).partLen ≤ (p.argAt 0).toNat := hlen
    have hbytes : ({ p with replyLen := 0 } : PortData).partBytes =
      List.replicate ({ p with replyLen := 0 } : PortData).partLen dummyTx := if_pos hop
    have hpart : Part { p with replyLen := 0 } { p with replyLen := 0 }.continued.settle :=
      part_continued hserves
    have hprog := progress_continued hserves' (by rw [hbytes, List.length_replicate])
    rw [hbytes, hg, ← progress_settle] at hprog
    generalize ({ p with replyLen := 0 } : PortData).continued.settle = q at hpart hprog ⊢
    have harg := hpart.arg0
    replace harg : q.argAt 0 = p.argAt 0 -
      BitVec.ofNat 8 ({ p with replyLen := 0 } : PortData).partLen := harg
    generalize ({ p with replyLen := 0 } : PortData).partLen = k at *
    have hlt := (p.argAt 0).isLt
    have hrest : (q.argAt 0).toNat = (p.argAt 0).toNat - k := by
      rw [harg, BitVec.toNat_sub, BitVec.toNat_ofNat]
      omega
    have hstate := hpart.state
    -- the length left is what the part has not taken
    by_cases hz : q.argAt 0 = 0#8
    · rw [if_pos hz] at hstate
      have hk : k = (p.argAt 0).toNat := by
        rw [hz] at hrest
        have h0 : (0#8).toNat = 0 := rfl
        omega
      rw [finishRx_of_ne _ (.inl (by simp [hstate])), hprog, hk]
    · rw [if_neg hz] at hstate
      have hqop : q.opcode = p.opcode := congrArg PortCmd.ofByte hpart.cmd
      have hqmode : q.mode = p.mode := hpart.mode
      rw [ih q hstate (hqop.trans hop) (by rw [hqop, hqmode]; exact hserves) hz (by omega), hprog,
        Progress.part_append, List.replicate_append_replicate, hrest, Nat.add_sub_cancel' hlen]

/-- A byte of a payload that comes from the host. -/
theorem progress_consume (hs : p.state = .exec) (h : serves p.opcode p.mode)
    (hrx : p.opcode ≠ some .rx) (h0 : p.argAt 0 ≠ 0#8) (b : Byte) :
    (p.consume b).progress = p.progress.part [b] := by
  have hlen := partLen_offer h hrx h0 b
  have hbytes : (p.offer b).partBytes = [b] := by
    rw [partBytes, if_neg (show (p.offer b).opcode ≠ some .rx from hrx), hlen, cmdBytes_offer]
  have hserves : serves (p.offer b).opcode (p.offer b).mode := h
  have hpart := progress_continued hserves (by rw [hbytes, hlen]; rfl)
  rw [hbytes] at hpart
  rw [(consume_payload hs h hrx h0 b).1, progress_settle]
  exact hpart

/-- **Bytes of a payload that comes from the host**, one after the other. -/
theorem progress_consumeAll (bs : List Byte) : ∀ p : PortData, p.state = .exec →
    serves p.opcode p.mode → p.opcode ≠ some .rx → bs ≠ [] → bs.length ≤ (p.argAt 0).toNat →
    (p.consumeAll bs).progress = p.progress.part bs ∧
      (p.consumeAll bs).state = if (p.progress.part bs).arg 0 = 0#8 then .readCmd else .exec := by
  induction bs with
  | nil => exact fun _ _ _ _ h => absurd rfl h
  | cons b bs ih =>
    intro p hs hserves hrx _ hlen
    rw [List.length_cons] at hlen
    have h0 : p.argAt 0 ≠ 0#8 := by
      intro h
      rw [h] at hlen
      exact Nat.not_succ_le_zero _ hlen
    obtain ⟨-, hcmd, -, hmode, harg, hstate⟩ := consume_payload hs hserves hrx h0 b
    have hprog := progress_consume hs hserves hrx h0 b
    rw [consumeAll_cons]
    cases bs with
    | nil => exact ⟨hprog, hstate⟩
    | cons b' bs =>
      have hop : (p.consume b).opcode = p.opcode := by rw [opcode, hcmd, opcode]
      have hsub := sub_one_toNat h0
      rw [← harg] at hsub hstate
      have hz : (p.consume b).argAt 0 ≠ 0#8 := by
        intro hz
        rw [hz] at hsub
        have : (0#8).toNat = 0 := rfl
        simp only [List.length_cons] at hlen
        omega
      rw [if_neg hz] at hstate
      have hcons := ih (p.consume b) hstate (by rw [hop, hmode]; exact hserves)
        (by rw [hop]; exact hrx) (by simp) (by omega)
      rwa [hprog, Progress.part_append] at hcons

end PortData

end TesselFirmware
