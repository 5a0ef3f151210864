import TesselFirmware.Port.Frame
import TesselFirmware.Port.Issue
import TesselFirmware.Port.Report
import TesselFirmware.Port.Uart

/-!
# The port at rest

`port_step` requests a new packet as soon as `cmd_buf` is processed, and then leaves the loop
without a look at the state of the parser.

* `PortData.Resting` : what holds in every reachable state about the place where the loop was left;
* `PortData.settled_of_quiescent` : a port that waits for a packet and for nothing else has executed
  and answered what it has received, in every run in which no pass of the loop finds an RX command
  with nothing left to read and nothing to send;
* `PortData.not_settled_rxRun` : and otherwise it need not have.
-/

namespace TesselFirmware

namespace PortData

variable {p q : PortData}

/-! ### Where the loop is left -/

/-- The port is enabled, and no part of a payload is under way. -/
def awake (p : PortData) : Prop := p.state ≠ .disable ∧ p.state ≠ .execAsync

/-- What holds about the loop in every reachable state: while an argument is read, one is missing;
a packet is requested only when `cmd_buf` is processed; and the loop is left only for a transfer
of the bridge, with what can be sent passed to it. -/
structure Resting (p : PortData) : Prop where
  cmdLen : p.cmdLen ≤ bridgeBufSize
  args : p.state = .readArg → p.argLen ≠ 0
  drained : p.pendingOut → p.cmdLen ≤ p.cmdPos
  waits : p.stepping = false → p.awake → p.waits
  flushed : p.stepping = false → p.awake → p.pendingIn = false → p.replyLen = 0

namespace Resting

/-- Only the steering fields and the length of the reply count. -/
theorem congr (h : p.Resting) (hc : q.control = p.control) (hl : q.replyLen = p.replyLen) :
    q.Resting := by
  have hst : q.state = p.state := congrArg Control.state hc
  have hal : q.argLen = p.argLen := congrArg Control.argLen hc
  have hpo : q.pendingOut = p.pendingOut := congrArg Control.pendingOut hc
  have hpi : q.pendingIn = p.pendingIn := congrArg Control.pendingIn hc
  have hcl : q.cmdLen = p.cmdLen := congrArg Control.cmdLen hc
  have hcp : q.cmdPos = p.cmdPos := congrArg Control.cmdPos hc
  have hsg : q.stepping = p.stepping := congrArg Control.stepping hc
  obtain ⟨hlen, hargs, hdrained, hwaits, hflushed⟩ := h
  refine ⟨hcl.trans_le hlen, ?_, ?_, ?_, ?_⟩
  · rw [hst, hal]
    exact hargs
  · rw [hpo, hcl, hcp]
    exact hdrained
  · rw [hsg, awake, hst, PortData.waits, hpi, hpo]
    exact hwaits
  · rw [hsg, awake, hst, hpi, hl]
    exact hflushed

/-- Inside of the loop there is little to show. -/
theorem of_stepping (hs : p.stepping = true) (hlen : p.cmdLen ≤ bridgeBufSize)
    (hargs : p.state = .readArg → p.argLen ≠ 0)
    (hdrained : p.pendingOut → p.cmdLen ≤ p.cmdPos) : p.Resting :=
  ⟨hlen, hargs, hdrained, fun h => absurd hs (by rw [h]; decide),
    fun h => absurd hs (by rw [h]; decide)⟩

theorem of_disabled (hs : p.state = .disable) (hlen : p.cmdLen ≤ bridgeBufSize)
    (hdrained : p.pendingOut → p.cmdLen ≤ p.cmdPos) : p.Resting :=
  ⟨hlen, fun h => absurd (hs.symm.trans h) (by decide), hdrained, fun _ h => absurd hs h.1,
    fun _ h => absurd hs h.1⟩

/-- Entering `port_step`. -/
theorem step (hlen : p.cmdLen ≤ bridgeBufSize) (hargs : p.state = .readArg → p.argLen ≠ 0)
    (hdrained : p.pendingOut → p.cmdLen ≤ p.cmdPos) : p.step.Resting := by
  unfold PortData.step
  split_ifs with hs
  · exact of_disabled hs hlen hdrained
  · exact of_stepping rfl hlen hargs hdrained

theorem error (h : p.Resting) : p.error.Resting := h.congr rfl rfl

theorem toState_ne_readArg (s : ExecStatus) : s.toState ≠ .readArg := by
  cases s <;> exact fun h => absurd h (by decide)

theorem asyncCompletion (h : p.Resting) : p.asyncCompletion.Resting := by
  unfold PortData.asyncCompletion
  split_ifs
  · exact step (p := p.transferred) h.cmdLen (fun hs => absurd hs (toState_ne_readArg _)) h.drained
  · exact h.error

/-! ### One pass of the loop -/

theorem control_transfers (p : PortData) : p.transfers.state = p.state ∧
    p.transfers.argLen = p.argLen ∧ p.transfers.cmdLen = p.cmdLen ∧
      p.transfers.cmdPos = p.cmdPos ∧ p.transfers.stepping = p.stepping := by
  have hr : p.requestPacket.state = p.state ∧ p.requestPacket.argLen = p.argLen ∧
      p.requestPacket.cmdLen = p.cmdLen ∧ p.requestPacket.cmdPos = p.cmdPos ∧
      p.requestPacket.stepping = p.stepping := by
    obtain ⟨he, -⟩ | ⟨he, -⟩ := requestPacket_cases p
    · rw [he]
      exact ⟨rfl, rfl, rfl, rfl, rfl⟩
    · rw [he]
      exact ⟨rfl, rfl, rfl, rfl, rfl⟩
  obtain ⟨he, -⟩ | ⟨he, -⟩ := flushReply_cases p.requestPacket
  · rw [transfers, he]
    exact hr
  · rw [transfers, he]
    exact hr

/-- A packet is requested only when the last one is processed. -/
theorem drained_transfers (h : p.Resting) (ho : p.transfers.pendingOut) : p.cmdLen ≤ p.cmdPos := by
  have hf : p.transfers.pendingOut = p.requestPacket.pendingOut := by
    obtain ⟨he, -⟩ | ⟨he, -⟩ := flushReply_cases p.requestPacket
    · rw [transfers, he]
    · rw [transfers, he]
      rfl
  rw [hf] at ho
  obtain ⟨he, -⟩ | ⟨-, -, hle⟩ := requestPacket_cases p
  · rw [he] at ho
    exact h.drained ho
  · exact hle

theorem wait (h : p.Resting) (hw : p.transfers.waits) : p.transfers.wait.Resting := by
  obtain ⟨hst, hal, hcl, hcp, -⟩ := control_transfers p
  have hflush : ¬ p.transfers.flushDue := Waiting.not_flushDue_flushReply _
  have hdrained := h.drained_transfers
  have hargs := h.args
  have hle := h.cmdLen
  rw [← hst, ← hal] at hargs
  rw [← hcl, ← hcp] at hdrained
  rw [← hcl] at hle
  generalize p.transfers = q at *
  -- an awake port that waits for a command has flushed its replies
  have hlen : q.awake → q.pendingIn = false → q.replyLen = 0 := by
    intro ha hin
    have hout : q.pendingOut := by
      rw [PortData.waits, hin] at hw
      simpa using hw
    by_contra hl
    exact hflush ⟨.inr ⟨hout, Nat.pos_of_ne_zero hl⟩, by rw [hin]; decide, fun hx => ha.2 hx.1⟩
  unfold PortData.wait
  split_ifs
  · exact ⟨hle, hargs, hdrained, fun _ _ => hw, fun _ => hlen⟩
  · exact ⟨hle, hargs, hdrained, fun _ _ => hw, fun _ => hlen⟩

theorem begun (hs : p.stepping = true) (hlen : p.cmdLen ≤ bridgeBufSize)
    (ho : p.pendingOut = false) : p.begun.Resting := by
  have hc := control_begun p
  have hsg : p.begun.stepping = true := (congrArg Control.stepping hc).trans hs
  have hpo : p.begun.pendingOut = false := (congrArg Control.pendingOut hc).trans ho
  have hcl : p.begun.cmdLen ≤ bridgeBufSize := (congrArg Control.cmdLen hc).trans_le hlen
  refine of_stepping hsg hcl (fun h => ?_) fun h => absurd h (by rw [hpo]; decide)
  rw [state_begun] at h
  exact absurd h (toState_ne_readArg _)

/-- A pass of the loop that works on the state. -/
theorem dispatch (h : p.Resting) (hs : p.stepping = true) (hw : p.waits = false)
    (hd : p.state ≠ .execAsync) : p.dispatch.Resting := by
  have ho : p.pendingOut = false := (Bool.or_eq_false_iff.1 hw).2
  have hno : ¬ p.pendingOut := by rw [ho]; decide
  unfold PortData.dispatch
  cases hst : p.state
  case disable => exact h
  case execAsync => exact absurd hst hd
  case exec =>
    obtain ⟨n, hc⟩ := control_continueCmd_eq p
    have hsg : p.continued.stepping = true := (congrArg Control.stepping hc).trans hs
    have hpo : p.continued.pendingOut = false := (congrArg Control.pendingOut hc).trans ho
    have hcl : p.continued.cmdLen ≤ bridgeBufSize := (congrArg Control.cmdLen hc).trans_le h.cmdLen
    exact of_stepping hsg hcl (fun hx => absurd hx (toState_ne_readArg _))
      fun hx => absurd hx (by rw [hpo]; decide)
  case readCmd =>
    simp only [readCommand]
    split_ifs with ha
    · refine of_stepping hs h.cmdLen (fun _ => ?_) fun hx => absurd hx hno
      exact Nat.ne_of_gt ha
    · exact begun (p := p.fetchCmd) hs h.cmdLen ho
  case readArg =>
    have hargs := h.args hst
    simp only [readArgument, if_neg hargs]
    have hs' : p.fetchArg.stepping = true := by rwa [fetchArg_eq]
    have hlen : p.fetchArg.cmdLen ≤ bridgeBufSize := by
      rw [fetchArg_eq]
      exact h.cmdLen
    have ho' : p.fetchArg.pendingOut = false := by rwa [fetchArg_eq]
    split_ifs with ha
    · exact begun hs' hlen ho'
    · exact of_stepping hs' hlen (fun _ => ha) fun hx => absurd hx (by rw [ho']; decide)

theorem iter (h : p.Resting) (hs : p.stepping = true) : p.iter.Resting := by
  obtain ⟨hw, hi⟩ | ⟨-, hw, ⟨hst, hi⟩ | ⟨hst, -, -, hi⟩⟩ := iter_cases p
  · rw [hi]
    exact h.wait hw
  · rw [hi]
    refine ⟨h.cmdLen, fun hx => absurd (hst.symm.trans hx) (by decide), h.drained,
      fun _ ha => ?_, fun _ ha => ?_⟩
    · exact absurd hst ha.2
    · exact absurd hst ha.2
  · rw [hi]
    exact h.dispatch hs hw hst

/-! ### The other events -/

theorem uartSendData (h : p.Resting) : p.uartSendData.Resting := by
  unfold PortData.uartSendData
  dsimp only
  split_ifs
  · exact h.error
  · have hc := control_append (p.emit (.uartPacket p.pendingIn p.dataOpen))
      (replyAsyncUartRx :: BitVec.ofNat 8 p.uartBuf.bufLen :: p.uartBytes p.uartBuf.bufLen)
    refine step ((congrArg Control.cmdLen hc).trans_le h.cmdLen) (fun hs => ?_) fun ho => ?_
    · exact (congrArg Control.argLen hc).trans_ne
        (h.args ((congrArg Control.state hc).symm.trans hs))
    · have hle := h.drained ((congrArg Control.pendingOut hc).symm.trans ho)
      exact (congrArg Control.cmdLen hc).trans_le (hle.trans_eq (congrArg Control.cmdPos hc).symm)
  · exact h

theorem handleSercomUartI2c (h : p.Resting) (rxc : Option Byte) (err : Bool) :
    (p.handleSercomUartI2c rxc err).Resting := by
  unfold PortData.handleSercomUartI2c
  split
  · split
    · next b =>
      have hpush : ((p.act (.tccDelayStart (200 * 10))).uartPush b).Resting := h.congr rfl rfl
      dsimp only
      split_ifs
      · exact hpush.uartSendData
      · exact hpush
    · exact h
  · dsimp only
    split_ifs
    · exact h.error.asyncCompletion
    · exact h.asyncCompletion
  · exact h.error
  · exact h.error

theorem handleExtint (h : p.Resting) (flags : BitVec 32) : (p.handleExtint flags).Resting := by
  unfold PortData.handleExtint
  split_ifs with hst
  · have hc := Waiting.control_foldl_extintPin p flags (List.range 8)
    refine step ((congrArg Control.cmdLen hc).trans_le h.cmdLen) (fun hs => ?_) fun ho => ?_
    · exact absurd (((congrArg Control.state hc).trans hst).symm.trans hs) (by decide)
    · have hle := h.drained ((congrArg Control.pendingOut hc).symm.trans ho)
      exact (congrArg Control.cmdLen hc).trans_le (hle.trans_eq (congrArg Control.cmdPos hc).symm)
  · exact h.error

theorem enable (p : PortData) : p.enable.Resting := by
  have hfold : ∀ q : PortData, q.Resting →
      ((List.range 8).foldl (fun p i => p.gpio .pullUp i) q).Resting := fun q hq =>
    List.foldlRecOn (motive := Resting) _ _ hq fun r hr i _ => hr.congr (control_gpio r _ i) rfl
  refine hfold _ ⟨Nat.zero_le _, fun hs => ?_, fun _ => Nat.le_refl 0, fun _ _ => rfl,
    fun _ _ _ => rfl⟩
  cases hs

theorem disable (h : p.Resting) : p.disable.Resting := by
  have hc := control_disable p
  refine of_disabled (state_disable p)
    ((congrArg Control.cmdLen hc).trans_le h.cmdLen) fun ho => ?_
  have hle := h.drained ((congrArg Control.pendingOut hc).symm.trans ho)
  exact (congrArg Control.cmdLen hc).trans_le (hle.trans_eq (congrArg Control.cmdPos hc).symm)

theorem handle (h : p.Resting) {e : PortEvent} (ha : p.accepts e) : (p.handle e).Resting := by
  cases e with
  | enable => exact enable p
  | disable => exact h.disable
  | outCompletion packet =>
    have hlen : packet.length % 256 ≤ bridgeBufSize := Nat.le_of_lt_succ (Nat.mod_lt _ (by decide))
    exact step hlen h.args fun ho => absurd ho Bool.false_ne_true
  | inCompletion => exact step h.cmdLen h.args h.drained
  | dmaRx => exact h.asyncCompletion
  | dmaTx => exact h.asyncCompletion
  | sercom rxc err => exact h.handleSercomUartI2c rxc err
  | extint flags => exact h.handleExtint flags
  | tccOverflow => exact h.uartSendData
  | iter => exact h.iter ha

theorem init (port : TesselPort) (answers : ℕ → BitVec 16) :
    (PortData.init port answers).Resting :=
  of_disabled rfl (Nat.zero_le _) fun ho => absurd ho Bool.false_ne_true

end Resting

/-! ### The command that is being executed -/

/-- What a part of a payload depends on, besides the fields that steer the loop. -/
def job (p : PortData) : PortMode × Cells Byte bridgeArgSize × Option Transfer :=
  (p.mode, p.arg, p.transfer)

theorem frame_job : Frame (fun _ => True) fun p q => q.job = p.job :=
  .of_eq job (fun _ _ _ => rfl) (fun _ _ => rfl) (fun _ _ => rfl) (fun _ _ => rfl)
    (fun _ _ => rfl) (fun _ _ => rfl) fun _ _ => rfl

/-- A command with a payload begins with its peripheral enabled and a length of at least 1. -/
def wellFormed (p : PortData) : PortEvent → Bool
  | .iter => p.begins.all fun q =>
      statusOf q.opcode != .continue || (serves q.opcode q.mode && q.argAt 0 != 0#8)
  | _ => true

/-- A pass of the loop that finds an RX command with nothing left to read and nothing to send. -/
def stalls (p : PortData) : PortEvent → Bool
  | .iter => p.state == .exec && p.opcode == some .rx && decide (p.cmdLen ≤ p.cmdPos) &&
      !p.pendingIn && p.replyLen == 0
  | _ => false

/-- What holds about the command that is being executed: bytes of its payload are missing, or the
operation that moves them is running; and the loop was not left before an RX command. -/
structure Working (p : PortData) : Prop where
  payload : p.state = .exec → serves p.opcode p.mode ∧ p.argAt 0 ≠ 0#8
  started : p.state = .execAsync → p.transfer ≠ none ∧ (serves p.opcode p.mode ∨ p.argAt 0 = 0#8)
  fed : p.stepping = false → p.state = .exec → p.pendingIn = false → p.opcode ≠ some .rx

namespace Working

theorem of_idle (s : PortState) (hs : p.state = s) (h : s ≠ .exec) (h' : s ≠ .execAsync) :
    p.Working := by
  subst hs
  exact ⟨fun hs => absurd hs h, fun hs => absurd hs h', fun _ hs => absurd hs h⟩

theorem congr (h : p.Working) (hc : q.control = p.control) (hj : q.job = p.job) : q.Working := by
  have hst : q.state = p.state := congrArg Control.state hc
  have hpi : q.pendingIn = p.pendingIn := congrArg Control.pendingIn hc
  have hsg : q.stepping = p.stepping := congrArg Control.stepping hc
  have hop : q.opcode = p.opcode := congrArg PortCmd.ofByte (congrArg Control.cmd hc)
  have hm : q.mode = p.mode := congrArg Prod.fst hj
  have ha : q.argAt 0 = p.argAt 0 := congrArg (fun j => j.2.1.get 0) hj
  have ht : q.transfer = p.transfer := congrArg (fun j => j.2.2) hj
  obtain ⟨hpayload, hstarted, hfed⟩ := h
  refine ⟨?_, ?_, ?_⟩
  · rw [hst, hop, hm, ha]
    exact hpayload
  · rw [hst, hop, hm, ha, ht]
    exact hstarted
  · rw [hsg, hst, hpi, hop]
    exact hfed

/-- Inside of the loop, an RX command can still be executed. -/
theorem of_stepping (hs : p.stepping = true)
    (hpayload : p.state = .exec → serves p.opcode p.mode ∧ p.argAt 0 ≠ 0#8)
    (hstarted : p.state = .execAsync →
      p.transfer ≠ none ∧ (serves p.opcode p.mode ∨ p.argAt 0 = 0#8)) : p.Working :=
  ⟨hpayload, hstarted, fun h => absurd hs (by rw [h]; decide)⟩

theorem step (hpayload : p.state = .exec → serves p.opcode p.mode ∧ p.argAt 0 ≠ 0#8)
    (hstarted : p.state = .execAsync →
      p.transfer ≠ none ∧ (serves p.opcode p.mode ∨ p.argAt 0 = 0#8)) : p.step.Working := by
  unfold PortData.step
  split_ifs with hs
  · exact of_idle .disable hs (by decide) (by decide)
  · exact of_stepping rfl hpayload hstarted

theorem error (h : p.Working) : p.error.Working := h.congr rfl rfl

/-- A part of a payload is followed by the next one, or the command is done. -/
theorem asyncCompletion (h : p.Working) : p.asyncCompletion.Working := by
  unfold PortData.asyncCompletion
  split_ifs with hs
  · refine step (p := p.transferred) (fun hx => ?_) fun hx => ?_
    · have hne : p.argAt 0 ≠ 0#8 := by
        intro h0
        replace hx : p.payloadStatus.toState = .exec := hx
        rw [payloadStatus, if_pos h0] at hx
        cases hx
      exact ⟨(h.started hs).2.resolve_right hne, hne⟩
    · replace hx : p.payloadStatus.toState = .execAsync := hx
      unfold payloadStatus at hx
      split_ifs at hx <;> cases hx
  · exact h.error

/-! ### One pass of the loop -/

theorem begun (hs : p.stepping = true)
    (hok : statusOf p.opcode != .continue || (serves p.opcode p.mode && p.argAt 0 != 0#8)) :
    p.begun.Working := by
  have hsg : p.begun.stepping = true := (congrArg Control.stepping (control_begun p)).trans hs
  have hop : p.begun.opcode = p.opcode := congrArg PortCmd.ofByte (cmd_begun p)
  have hst := state_begun p
  refine of_stepping hsg (fun hx => ?_) fun hx => ?_
  · -- a command with a payload
    have hstat : statusOf p.opcode = .continue := by
      rw [hst] at hx
      generalize statusOf p.opcode = s at hx
      cases s
      case «continue» => rfl
      all_goals cases hx
    simp only [hstat, bne_self_eq_false, Bool.false_or, Bool.and_eq_true, bne_iff_ne] at hok
    rw [hop, mode_begun, modeAfter_of_continue hstat, argAt_begun hstat]
    exact hok
  · -- `CMD_START`
    have hstart : p.opcode = some .start := by
      rw [hst] at hx
      unfold statusOf at hx
      split at hx
      all_goals first | assumption | cases hx
    have heq : p.beginCmd.1 =
        (((p.emit (.exec p.cmd)).act (.i2cAddr (p.argAt 0))).setArg0 0#8).startTransfer .i2c := by
      simp only [beginCmd, opcode_emit, hstart]
      rfl
    refine ⟨?_, .inr ?_⟩
    · show p.beginCmd.1.transfer ≠ none
      rw [heq]
      exact fun h => absurd h (by simp [startTransfer])
    · show p.beginCmd.1.argAt 0 = 0#8
      rw [heq]
      exact argAt_setArg0 _ _

theorem continued (hs : p.stepping = true) (hserves : serves p.opcode p.mode) :
    p.continued.Working := by
  obtain ⟨n, hc⟩ := control_continueCmd_eq p
  have hsg : p.continued.stepping = true := (congrArg Control.stepping hc).trans hs
  have hop : p.continued.opcode = p.opcode := congrArg PortCmd.ofByte (congrArg Control.cmd hc)
  have hm := mode_continued p
  rw [← hop, ← hm] at hserves
  refine of_stepping hsg (fun hx => ⟨hserves, ?_⟩) fun hx => ⟨?_, .inl hserves⟩
  · rw [hop, hm] at hserves
    obtain ⟨r, -, heq | ⟨t, heq⟩⟩ := continueCmd_part hserves
    · replace hx : p.continueCmd.2.toState = .exec := hx
      show p.continueCmd.1.argAt 0 ≠ 0#8
      rw [heq] at hx ⊢
      intro h0
      rw [payloadStatus, if_pos h0] at hx
      cases hx
    · replace hx : p.continueCmd.2.toState = .exec := hx
      rw [heq] at hx
      cases hx
  · rw [hop, hm] at hserves
    obtain ⟨r, -, heq | ⟨t, heq⟩⟩ := continueCmd_part hserves
    · replace hx : p.continueCmd.2.toState = .execAsync := hx
      rw [heq] at hx
      simp only [payloadStatus] at hx
      split_ifs at hx <;> cases hx
    · show p.continueCmd.1.transfer ≠ none
      rw [heq]
      exact fun h => absurd h (by simp [startTransfer])

theorem dispatch (h : p.Working) (hs : p.stepping = true) (hw : p.transfers.waits = false)
    (hd : p.state ≠ .execAsync) (hok : p.wellFormed .iter) : p.dispatch.Working := by
  simp only [wellFormed, begins, hw, Bool.false_eq_true, if_false] at hok
  unfold PortData.dispatch
  cases hst : p.state <;> simp only [hst] at hok ⊢
  case disable => exact h
  case execAsync => exact absurd hst hd
  case exec => exact continued hs (h.payload hst).1
  case readCmd =>
    simp only [readCommand]
    split_ifs with ha
    · exact of_idle .readArg rfl (by decide) (by decide)
    · rw [if_pos (Nat.eq_zero_of_not_pos ha)] at hok
      exact begun (p := p.fetchCmd) hs hok
  case readArg =>
    simp only [readArgument]
    split_ifs with ha hb
    · exact of_idle .readArg hst (by decide) (by decide)
    · rw [if_pos ⟨ha, hb⟩] at hok
      refine begun ?_ hok
      rwa [fetchArg_eq]
    · refine of_idle .readArg ?_ (by decide) (by decide)
      rwa [fetchArg_eq]

/-- The loop is left before an RX command only with a reply in flight. -/
theorem wait (h : p.Working) (hr : p.Resting) (hw : p.transfers.waits)
    (hok : p.stalls .iter = false) : p.transfers.wait.Working := by
  have hcore : p.transfers.cmd = p.cmd ∧ p.transfers.job = p.job ∧
      (p.transfers.pendingIn = false → p.pendingIn = false ∧ p.transfers.replyLen = p.replyLen) := by
    have hreq : p.requestPacket.cmd = p.cmd ∧ p.requestPacket.job = p.job ∧
        p.requestPacket.pendingIn = p.pendingIn ∧ p.requestPacket.replyLen = p.replyLen := by
      obtain ⟨he, -⟩ | ⟨he, -⟩ := requestPacket_cases p
      · rw [he]
        exact ⟨rfl, rfl, rfl, rfl⟩
      · rw [he]
        exact ⟨rfl, rfl, rfl, rfl⟩
    obtain ⟨hcmd, hjob, hpi, hlen⟩ := hreq
    obtain ⟨he, -⟩ | ⟨he, -⟩ := flushReply_cases p.requestPacket
    · rw [transfers, he]
      exact ⟨hcmd, hjob, fun hp => ⟨hpi.symm.trans hp, hlen⟩⟩
    · rw [transfers, he]
      exact ⟨hcmd, hjob, fun hp => absurd hp.symm Bool.false_ne_true⟩
  obtain ⟨hcmd, hjob, hpin⟩ := hcore
  have hrest := hr.wait hw
  obtain ⟨hst, -, hcl, hcp, -⟩ := Resting.control_transfers p
  have hdrained := hr.drained_transfers
  generalize p.transfers = q at *
  have hwait : q.wait.stepping = false ∧ q.wait.state = q.state ∧ q.wait.cmd = q.cmd ∧
      q.wait.job = q.job ∧ q.wait.pendingIn = q.pendingIn ∧ q.wait.replyLen = q.replyLen ∧
      q.wait.pendingOut = q.pendingOut := by
    unfold PortData.wait
    split_ifs
    · exact ⟨rfl, rfl, rfl, rfl, rfl, rfl, rfl⟩
    · exact ⟨rfl, rfl, rfl, rfl, rfl, rfl, rfl⟩
  obtain ⟨hsg, hws, hwc, hwj, hwp, hwl, hwo⟩ := hwait
  have hop : q.wait.opcode = p.opcode := congrArg PortCmd.ofByte (hwc.trans hcmd)
  have hj : q.wait.job = p.job := hwj.trans hjob
  have hm : q.wait.mode = p.mode := congrArg Prod.fst hj
  have ha : q.wait.argAt 0 = p.argAt 0 := congrArg (fun j => j.2.1.get 0) hj
  have ht : q.wait.transfer = p.transfer := congrArg (fun j => j.2.2) hj
  refine ⟨fun hx => ?_, fun hx => ?_, fun _ hx hin hrx => ?_⟩
  · rw [hop, hm, ha]
    exact h.payload (hst.symm.trans (hws.symm.trans hx))
  · rw [hop, hm, ha, ht]
    exact h.started (hst.symm.trans (hws.symm.trans hx))
  · have hexec : p.state = .exec := hst.symm.trans (hws.symm.trans hx)
    have hawake : q.wait.awake := by
      rw [awake, hx]
      decide
    obtain ⟨hpi, hpl⟩ := hpin (hwp.symm.trans hin)
    have hlen : p.replyLen = 0 := hpl.symm.trans (hwl.symm.trans (hrest.flushed hsg hawake hin))
    have hout : q.pendingOut := by
      have hwaits := hrest.waits hsg hawake
      rw [PortData.waits, hin, hwo] at hwaits
      simpa using hwaits
    have hbad : p.stalls .iter = true := by
      simp only [stalls, hexec, ← hop, hrx, decide_eq_true (hdrained hout), hpi, hlen,
        beq_self_eq_true, Bool.not_false, Bool.and_self]
    rw [hok] at hbad
    cases hbad

theorem iter (h : p.Working) (hr : p.Resting) (hs : p.stepping = true) (hok : p.wellFormed .iter)
    (hno : p.stalls .iter = false) : p.iter.Working := by
  obtain ⟨hw, hi⟩ | ⟨htr, hw, ⟨hst, hi⟩ | ⟨hst, -, -, hi⟩⟩ := iter_cases p
  · rw [hi]
    exact h.wait hr hw hno
  · rw [hi]
    exact ⟨h.payload, h.started, fun _ hx => absurd (hst.symm.trans hx) (by decide)⟩
  · rw [hi]
    exact h.dispatch hs (by rw [htr]; exact hw) hst hok

/-! ### The other events -/

theorem uartSendData (h : p.Working) : p.uartSendData.Working := by
  unfold PortData.uartSendData
  dsimp only
  split_ifs
  · exact h.error
  · generalize hpacket : (replyAsyncUartRx :: BitVec.ofNat 8 p.uartBuf.bufLen ::
      p.uartBytes p.uartBuf.bufLen) = packet
    have hq : ((p.emit (.uartPacket p.pendingIn p.dataOpen)).append packet).Working :=
      h.congr (control_append _ packet) (frame_job.append (fun _ => trivial) packet _)
    exact step hq.payload hq.started
  · exact h

theorem handleSercomUartI2c (h : p.Working) (rxc : Option Byte) (err : Bool) :
    (p.handleSercomUartI2c rxc err).Working := by
  unfold PortData.handleSercomUartI2c
  split
  · split
    · next b =>
      have hpush : ((p.act (.tccDelayStart (200 * 10))).uartPush b).Working := h.congr rfl rfl
      dsimp only
      split_ifs
      · exact hpush.uartSendData
      · exact hpush
    · exact h
  · dsimp only
    split_ifs
    · exact h.error.asyncCompletion
    · exact h.asyncCompletion
  · exact h.error
  · exact h.error

theorem handleExtint (h : p.Working) (flags : BitVec 32) : (p.handleExtint flags).Working := by
  unfold PortData.handleExtint
  split_ifs
  · have hq := h.congr (Waiting.control_foldl_extintPin p flags (List.range 8))
      (frame_job.foldl (frame_job.extintPin (fun _ _ => trivial) flags) p (List.range 8))
    exact step hq.payload hq.started
  · exact h.error

theorem enable (p : PortData) : p.enable.Working := by
  have hfold : ∀ q : PortData, q.state = .readCmd →
      ((List.range 8).foldl (fun p i => p.gpio .pullUp i) q).state = .readCmd := fun q hq =>
    List.foldlRecOn (motive := fun r : PortData => r.state = .readCmd) _ _ hq
      fun r hr i _ => (congrArg Control.state (control_gpio r .pullUp i)).trans hr
  exact of_idle .readCmd (hfold _ rfl) (by decide) (by decide)

theorem disable (p : PortData) : p.disable.Working :=
  of_idle .disable (state_disable p) (by decide) (by decide)

theorem handle (h : p.Working) (hr : p.Resting) {e : PortEvent} (ha : p.accepts e)
    (hok : p.wellFormed e) (hno : p.stalls e = false) : (p.handle e).Working := by
  cases e with
  | enable => exact enable p
  | disable => exact disable p
  | outCompletion packet => exact step h.payload h.started
  | inCompletion => exact step h.payload h.started
  | dmaRx => exact h.asyncCompletion
  | dmaTx => exact h.asyncCompletion
  | sercom rxc err => exact h.handleSercomUartI2c rxc err
  | extint flags => exact h.handleExtint flags
  | tccOverflow => exact h.uartSendData
  | iter => exact h.iter hr ha hok hno

end Working

/-! ### Runs -/

/-- The port is enabled, waits for a packet, and neither a reply nor an operation of a peripheral
is under way. -/
structure Quiescent (p : PortData) : Prop where
  stepping : p.stepping = false
  state : p.state ≠ .disable
  pendingOut : p.pendingOut
  pendingIn : p.pendingIn = false
  transfer : p.transfer = none

/-- What has been received is consumed, and what has been replied is handed to the bridge; the port
is between two commands, or reads the arguments of a command of which some are missing, or executes
a command whose payload comes from the host and is not complete. -/
structure Settled (p : PortData) : Prop where
  consumed : p.cmdLen ≤ p.cmdPos
  replied : p.replyLen = 0
  done : p.state ≠ .execAsync
  args : p.state = .readArg → p.argLen ≠ 0
  payload : p.state = .exec →
    p.opcode ∈ [some .echo, some .tx, some .txrx] ∧ p.argAt 0 ≠ 0#8

theorem settled_of_inv (hr : p.Resting) (hw : p.Working) (hq : p.Quiescent) : p.Settled := by
  have hasync : p.state ≠ .execAsync := fun hs => (hw.started hs).1 hq.transfer
  refine ⟨hr.drained hq.pendingOut, hr.flushed hq.stepping ⟨hq.state, hasync⟩ hq.pendingIn, hasync,
    hr.args, fun hs => ⟨?_, (hw.payload hs).2⟩⟩
  have hserves := (hw.payload hs).1
  have hrx := hw.fed hq.stepping hs hq.pendingIn
  rcases hop : p.opcode with _ | c
  · simp [serves, hop] at hserves
  · cases c <;> simp [serves, hop] at hserves hrx ⊢

/-- **A port at rest has done what it was told.**  In every run of a port, whatever it receives and
however that is split into packets, in which every command with a payload begins with its
peripheral enabled and a length of at least 1: whenever the port waits for a packet and for nothing
else, what it has received is executed and answered, if no pass of the loop finds an RX command
with nothing left to read and nothing to send. -/
theorem settled_of_quiescent {port : TesselPort} {answers : ℕ → BitVec 16} {es : List PortEvent}
    (h : machine.Run (fun p e => p.wellFormed e ∧ p.stalls e = false) (init port answers) es p)
    (hq : p.Quiescent) : p.Settled := by
  have hinv : p.Resting ∧ p.Working := by
    refine h.invariant (I := fun p => p.Resting ∧ p.Working) ⟨.init port answers, ?_⟩ ?_
    · exact .of_idle .disable rfl (by decide) (by decide)
    · rintro q e q' ⟨hr, hw⟩ ⟨hok, hno⟩ hst
      obtain ⟨ha, rfl⟩ := machine_step_eq_some.1 hst
      exact ⟨hr.handle ha, hw.handle hr ha hok hno⟩
  exact settled_of_inv hinv.1 hinv.2 hq

/-- The fields of `Quiescent`. -/
def rest (p : PortData) : Bool × PortState × Bool × Bool × Option Transfer :=
  (p.stepping, p.state, p.pendingOut, p.pendingIn, p.transfer)

theorem quiescent_of_rest {s : PortState} (h : p.rest = (false, s, true, false, none))
    (hs : s ≠ .disable) : p.Quiescent := by
  simp only [rest, Prod.mk.injEq] at h
  obtain ⟨hsg, hst, ho, hi, ht⟩ := h
  exact ⟨hsg, hst ▸ hs, ho, hi, ht⟩

/-- A run that receives the first of the three bytes of an ECHO. -/
def echoRun : List PortEvent :=
  [.enable, .outCompletion [2, 3, 0x41], .iter, .iter, .iter, .iter, .inCompletion, .iter]

theorem settled_echoRun :
    ∃ p : PortData, machine.exec (init portA fun _ => 0#16) echoRun = some p ∧ p.Quiescent ∧
      p.state = .exec ∧ p.Settled := by
  have h : (machine.execOk (fun p e => p.wellFormed e && !p.stalls e) (init portA fun _ => 0#16)
      echoRun).map rest = some (false, .exec, true, false, none) := by decide +kernel
  obtain ⟨p, hp, hrest⟩ := Option.map_eq_some_iff.1 h
  have hrun := Machine.run_of_execOk (fun p e => p.wellFormed e ∧ p.stalls e = false)
    (fun _ _ h => by simpa using h) hp
  have hq := quiescent_of_rest hrest (by decide)
  exact ⟨p, hrun.exec_eq, hq, congrArg (fun r => r.2.1) hrest, settled_of_quiescent hrun hq⟩

/-- A run that switches the SPI on and reads one byte with it. -/
def rxRun : List PortEvent :=
  [PortEvent.enable, .outCompletion [10, 0, 0, 1, 17, 1]] ++ List.replicate 7 PortEvent.iter ++
    [PortEvent.inCompletion, .iter]

/-- An RX command that ends what has been received is not executed until more is received. -/
theorem not_settled_rxRun :
    ¬ ∀ (port : TesselPort) (answers : ℕ → BitVec 16) (es : List PortEvent) (p : PortData),
      machine.Run (fun p e => p.wellFormed e) (init port answers) es p →
        p.Quiescent → p.Settled := by
  intro hall
  have h : (machine.execOk wellFormed (init portA fun _ => 0#16) rxRun).any (fun p =>
      decide (p.rest = (false, .exec, true, false, none)) && p.opcode == some .rx) := by
    decide +kernel
  obtain ⟨p, hp, hpair⟩ := (Option.any_eq_true _ _).1 h
  simp only [Bool.and_eq_true, decide_eq_true_eq, beq_iff_eq] at hpair
  obtain ⟨hrest, hop⟩ := hpair
  have hrun := Machine.run_of_execOk (fun p e => p.wellFormed e) (fun _ _ => id) hp
  have hs := hall _ _ _ p hrun (quiescent_of_rest hrest (by decide))
  have hmem := (hs.payload (congrArg (fun r => r.2.1) hrest)).1
  rw [hop] at hmem
  exact absurd hmem (by decide)

end PortData

end TesselFirmware
