import TesselFirmware.Port.Spec

/-!
# Buffer bounds of the port

The only guard against an overflow of `reply_buf` is the flush test at the top of the loop of
`port_step`: a command begins with at least one free byte.  That is enough for every command but
`CMD_ANALOG_READ`, which replies with three bytes and does not check; and every index of
`port->gpio` is reduced to the eight pins except that of `CMD_PWM_DUTY_CYCLE`.

* `PortData.in_bounds` : every run in which these two commands begin within their limits, in any
  order of events, stays within all bounds;
* `PortData.analog_read_overflow` : a run with a `CMD_ANALOG_READ` after 253 reply bytes does not.
-/

namespace TesselFirmware

namespace PortData

variable {p q : PortData}

/-- No access has left its bounds: writes to `reply_buf` and `arg`, reads of `cmd_buf` beyond
`cmd_len`, indices of `port->gpio`; and `reply_len` is a length of `reply_buf`. -/
structure InBounds (p : PortData) : Prop where
  fault : p.fault = false
  replyLen : p.replyLen ≤ bridgeBufSize

/-! ### The condition -/

/-- `CMD_ANALOG_READ` has space for its three bytes, `CMD_PWM_DUTY_CYCLE` names a pin. -/
def withinLimits (p : PortData) : Bool :=
  (p.opcode != some .analogRead || p.replyLen + 3 ≤ bridgeBufSize) &&
    (p.opcode != some .pwmDutyCycle || (p.argAt 0).toNat < 8)

/-- The event does not begin a command outside its limits. -/
def fitting (p : PortData) : PortEvent → Bool
  | .iter => p.begins.all withinLimits
  | _ => true

theorem beginFits_of_withinLimits (h : p.withinLimits) (hl : p.replyLen < bridgeBufSize) :
    p.beginFits := by
  simp only [withinLimits, Bool.and_eq_true, Bool.or_eq_true, bne_iff_ne, decide_eq_true_eq] at h
  simp only [beginFits, Bool.and_eq_true, Bool.or_eq_true, bne_iff_ne, decide_eq_true_eq]
  refine ⟨?_, h.2⟩
  have hone (b : Byte) : p.replyLen + [b].length ≤ bridgeBufSize := hl
  unfold beginReply
  split
  · exact hone _
  · exact hone _
  · exact hone _
  · exact hone _
  · exact hone _
  · next hop => exact h.1.resolve_left (by simp [hop])
  · exact hl.le

/-! ### The invariant -/

/-- The lengths and positions are within their bounds, and no access has left them. -/
structure Bounded (p : PortData) : Prop extends InBounds p where
  cmdLen : p.cmdLen ≤ bridgeBufSize
  cmdPos : p.cmdPos ≤ p.cmdLen
  args : p.argPos + p.argLen ≤ 3

namespace Bounded

theorem of_appended {bs : List Byte} (h : p.Bounded) (ha : Appended bs p q)
    (hlen : q.cmdLen ≤ bridgeBufSize) (hpos : q.cmdPos ≤ q.cmdLen)
    (hargs : q.argPos + q.argLen ≤ 3) : q.Bounded :=
  ⟨⟨ha.fault.trans h.fault, ha.replyLen ▸ ha.fits⟩, hlen, hpos, hargs⟩

theorem of_control {bs : List Byte} (h : p.Bounded) (ha : Appended bs p q)
    (hc : q.control = p.control) : q.Bounded := by
  have hlen : q.cmdLen = p.cmdLen := congrArg Control.cmdLen hc
  have hpos : q.cmdPos = p.cmdPos := congrArg Control.cmdPos hc
  have hal : q.argLen = p.argLen := congrArg Control.argLen hc
  have hap : q.argPos = p.argPos := congrArg Control.argPos hc
  exact h.of_appended ha (hlen ▸ h.cmdLen) (by rw [hpos, hlen]; exact h.cmdPos)
    (by rw [hal, hap]; exact h.args)

theorem emit (h : p.Bounded) (e : Effect) : (p.emit e).Bounded :=
  ⟨⟨h.fault, h.replyLen⟩, h.cmdLen, h.cmdPos, h.args⟩

theorem gpio (h : p.Bounded) (op : PinOp) {i : ℕ} (hi : i < 8) : (p.gpio op i).Bounded := by
  rw [gpio_of_lt p op hi]
  exact h.emit _

theorem pinRead (h : p.Bounded) {i : ℕ} (hi : i < 8) : (p.pinRead i).2.Bounded :=
  have hg := h.gpio .read hi
  ⟨⟨hg.fault, hg.replyLen⟩, hg.cmdLen, hg.cmdPos, hg.args⟩

theorem eicConfig (h : p.Bounded) (sense : Byte) {i : ℕ} (hi : i < 8) :
    (p.eicConfig i sense).Bounded :=
  have hg := h.gpio (.eicConfig sense) hi
  ⟨⟨hg.fault, hg.replyLen⟩, hg.cmdLen, hg.cmdPos, hg.args⟩

theorem sendStatus (h : p.Bounded) (b : Byte) : (p.sendStatus b).Bounded := by
  by_cases hl : p.replyLen < bridgeBufSize
  · exact h.of_control (appended_sendStatus p b hl) (control_sendStatus p b)
  · rw [PortData.sendStatus, if_pos (by omega)]
    exact h.emit _

/-! ### One pass of the loop -/

theorem transfers (h : p.Bounded) : p.transfers.Bounded := by
  have hr : p.requestPacket.Bounded := by
    obtain ⟨he, -⟩ | ⟨he, -⟩ := requestPacket_cases p
    · rw [he]
      exact h
    · rw [he]
      exact ⟨⟨h.fault, h.replyLen⟩, h.cmdLen, h.cmdPos, h.args⟩
  obtain ⟨he, -⟩ | ⟨he, -⟩ := flushReply_cases p.requestPacket
  · rw [PortData.transfers, he]
    exact hr
  · rw [PortData.transfers, he]
    exact ⟨⟨hr.fault, hr.replyLen⟩, hr.cmdLen, hr.cmdPos, hr.args⟩

theorem wait (h : p.Bounded) : p.wait.Bounded := by
  unfold PortData.wait
  split_ifs <;> exact ⟨⟨h.fault, h.replyLen⟩, h.cmdLen, h.cmdPos, h.args⟩

theorem takeCmd_one (h : p.Bounded) (hpos : p.cmdPos < p.cmdLen) : (p.takeCmd 1).Bounded := by
  have hb : bridgeBufSize = 255 := rfl
  have hlen := h.cmdLen
  have hmod : (p.cmdPos + 1) % 256 = p.cmdPos + 1 := Nat.mod_eq_of_lt (by omega)
  exact h.of_appended (appended_takeCmd hpos h.replyLen) h.cmdLen (hmod.trans_le hpos) h.args

theorem begun (h : p.Bounded) (hw : p.withinLimits) (hl : p.replyLen < bridgeBufSize) :
    p.begun.Bounded := by
  have hc := control_begun p
  have hlen : p.begun.cmdLen = p.cmdLen := congrArg Control.cmdLen hc
  have hpos : p.begun.cmdPos = p.cmdPos := congrArg Control.cmdPos hc
  have hal : p.begun.argLen = p.argLen := congrArg Control.argLen hc
  have hap : p.begun.argPos = p.argPos := congrArg Control.argPos hc
  exact h.of_appended (appended_begun (beginFits_of_withinLimits hw hl)) (hlen ▸ h.cmdLen)
    (by rw [hpos, hlen]; exact h.cmdPos) (by rw [hal, hap]; exact h.args)

theorem continued (h : p.Bounded) (hr : p.Ready) : p.continued.Bounded := by
  have hc := control_continued hr
  have hlen : p.continued.cmdLen = p.cmdLen := congrArg Control.cmdLen hc
  have hpos : p.continued.cmdPos = p.cmdPos + p.continueTake := congrArg Control.cmdPos hc
  have hal : p.continued.argLen = p.argLen := congrArg Control.argLen hc
  have hap : p.continued.argPos = p.argPos := congrArg Control.argPos hc
  exact h.of_appended (appended_continued hr) (hlen ▸ h.cmdLen)
    (by rw [hpos, hlen]; exact hr.continueTake_le) (by rw [hal, hap]; exact h.args)

theorem fetchCmd (h : p.Bounded) (hpos : p.cmdPos < p.cmdLen) (h0 : p.fetchCmd.argLen = 0) :
    p.fetchCmd.Bounded := by
  have htake := h.takeCmd_one hpos
  have hargs := h.args
  have hap : p.fetchCmd.argPos = p.argPos := rfl
  exact ⟨⟨htake.fault, h.replyLen⟩, h.cmdLen, htake.cmdPos, by omega⟩

theorem fetchArg (h : p.Bounded) (hpos : p.cmdPos < p.cmdLen) (h0 : p.argLen ≠ 0) :
    p.fetchArg.Bounded := by
  have htake := h.takeCmd_one hpos
  have hargs := h.args
  have ha : bridgeArgSize = 5 := rfl
  have hmod : (p.argPos + 1) % 256 = p.argPos + 1 := Nat.mod_eq_of_lt (by omega)
  refine ⟨⟨?_, h.replyLen⟩, h.cmdLen, htake.cmdPos, ?_⟩
  · have hcheck : (p.takeCmd 1).argPos < bridgeArgSize := show p.argPos < bridgeArgSize by omega
    show ((p.takeCmd 1).storeArg (p.cmdBuf.get p.cmdPos)).fault = false
    rw [storeArg, check_of_true _ (decide_eq_true hcheck)]
    exact htake.fault
  · show (p.argPos + 1) % 256 + (p.argLen - 1) ≤ 3
    omega

theorem iter (h : p.Bounded) (hok : p.begins.all withinLimits) : p.iter.Bounded := by
  obtain ⟨-, hi⟩ | ⟨ht, hw, ⟨-, hi⟩ | ⟨hs, hpos, hl, hi⟩⟩ := iter_cases p
  · rw [hi]
    exact h.transfers.wait
  · rw [hi]
    exact ⟨⟨h.fault, h.replyLen⟩, h.cmdLen, h.cmdPos, h.args⟩
  · rw [hi]
    simp only [begins, ht, hw] at hok
    unfold dispatch
    cases hst : p.state <;> simp only [hst] at hok ⊢
    case disable => exact h
    case execAsync => exact absurd hst hs
    case exec => exact h.continued ⟨hpos, h.cmdLen, hl⟩
    case readCmd =>
      unfold readCommand
      split_ifs with harg
      · have htake := h.takeCmd_one hpos
        have hle : p.fetchCmd.argLen ≤ 3 := portCmdArgs_le _
        exact ⟨⟨htake.fault, h.replyLen⟩, h.cmdLen, htake.cmdPos, by simpa using hle⟩
      · have h0 : p.fetchCmd.argLen = 0 := by omega
        simp only [h0, ↓reduceIte] at hok
        exact (h.fetchCmd hpos h0).begun hok hl
    case readArg =>
      unfold readArgument
      split_ifs with h0 h1
      · exact ⟨⟨h.fault, h.replyLen⟩, h.cmdLen, h.cmdPos, h.args⟩
      · simp only [h0, h1, ne_eq, not_false_eq_true, and_self, ↓reduceIte] at hok
        exact (h.fetchArg hpos h0).begun hok hl
      · exact h.fetchArg hpos h0

/-! ### The other events -/

theorem step (h : p.Bounded) : p.step.Bounded := by
  unfold PortData.step
  split_ifs <;> exact ⟨⟨h.fault, h.replyLen⟩, h.cmdLen, h.cmdPos, h.args⟩

theorem asyncCompletion (h : p.Bounded) : p.asyncCompletion.Bounded := by
  unfold PortData.asyncCompletion
  split_ifs
  · exact step ⟨⟨h.fault, h.replyLen⟩, h.cmdLen, h.cmdPos, h.args⟩
  · exact h.emit _

theorem gpios (h : p.Bounded) (f : PortData → ℕ → PortData)
    (hf : ∀ q i, q.Bounded → i < 8 → (f q i).Bounded) :
    ((List.range 8).foldl f p).Bounded :=
  List.foldlRecOn (motive := Bounded) _ f h fun q hq i hi => hf q i hq (List.mem_range.1 hi)

theorem enable (h : p.Bounded) : p.enable.Bounded := by
  have hreset : (p.emit .enabled).bridgeStartOut.reset.Bounded :=
    ⟨⟨h.fault, Nat.zero_le _⟩, Nat.zero_le _, Nat.zero_le _, h.args⟩
  exact gpios (hreset.emit _) _ fun q i hq hi => hq.gpio _ hi

theorem disablePin (h : p.Bounded) {i : ℕ} (hi : i < 8) : (p.disablePin i).Bounded := by
  unfold PortData.disablePin
  dsimp only
  split_ifs
  · exact (h.eicConfig _ hi).gpio _ hi
  · exact h.gpio _ hi

theorem disable (h : p.Bounded) : p.disable.Bounded := by
  unfold PortData.disable
  dsimp only
  refine (emit (gpios ?_ _ fun q i hq hi => hq.disablePin hi) _).emit _
  exact ⟨⟨h.fault, h.replyLen⟩, h.cmdLen, h.cmdPos, h.args⟩

theorem uartTaken (h : p.Bounded) (n : ℕ) : (p.uartTaken n).Bounded :=
  ⟨⟨h.fault, h.replyLen⟩, h.cmdLen, h.cmdPos, h.args⟩

theorem uartSendData (h : p.Bounded) : p.uartSendData.Bounded := by
  have hl := h.replyLen
  unfold PortData.uartSendData
  dsimp only
  split_ifs with hc hfit
  · exact h.emit _
  · have ha := appended_append (p := p.emit (.uartPacket p.pendingIn p.dataOpen))
      (replyAsyncUartRx :: BitVec.ofNat 8 p.uartBuf.bufLen :: p.uartBytes p.uartBuf.bufLen)
      (by
        show p.replyLen + _ ≤ _
        simp only [List.length_cons, uartBytes, List.length_map, List.length_range]
        omega)
    have hb := (h.emit _).of_control ha (control_append _ _)
    exact (hb.uartTaken _).step
  · exact h

theorem handleSercomUartI2c (h : p.Bounded) (rxc : Option Byte) (err : Bool) :
    (p.handleSercomUartI2c rxc err).Bounded := by
  unfold PortData.handleSercomUartI2c
  split
  · split
    · next b =>
      have hp : ((p.act (.tccDelayStart (200 * 10))).uartPush b).Bounded :=
        ⟨⟨h.fault, h.replyLen⟩, h.cmdLen, h.cmdPos, h.args⟩
      dsimp only
      split_ifs
      · exact hp.uartSendData
      · exact hp
    · exact h
  · dsimp only
    split_ifs
    · exact (h.emit _).asyncCompletion
    · exact h.asyncCompletion
  · exact h.emit _
  · exact h.emit _

theorem extintPin (h : p.Bounded) (flags : BitVec 32) {i : ℕ} (hi : i < 8) :
    (p.extintPin flags i).Bounded := by
  unfold PortData.extintPin
  split_ifs
  · rw [check_of_true p (decide_eq_true hi)]
    have hr := h.pinRead (selectedPin_lt p)
    dsimp only
    generalize (if (p.pinRead p.selectedPin).1 = true then _ else _ : Byte) = response
    split_ifs
    · exact (hr.sendStatus _).eicConfig _ hi
    · exact hr.sendStatus _
  · exact h

theorem handleExtint (h : p.Bounded) (flags : BitVec 32) : (p.handleExtint flags).Bounded := by
  unfold PortData.handleExtint
  split_ifs
  · exact (gpios h _ fun q i hq hi => hq.extintPin flags hi).step
  · exact h.emit _

/-- **Every event keeps the bounds**, if a pass of the loop begins no command outside its
limits. -/
theorem handle (h : p.Bounded) {e : PortEvent} (ha : p.accepts e) (hok : p.fitting e) :
    (p.handle e).Bounded := by
  cases e with
  | enable => exact h.enable
  | disable => exact h.disable
  | outCompletion packet =>
    have hb : bridgeBufSize = 255 := rfl
    have hlen : packet.length ≤ bridgeBufSize := by
      simp only [accepts, Bool.and_eq_true, decide_eq_true_eq] at ha
      exact ha.2
    refine step ⟨⟨h.fault, h.replyLen⟩, ?_, Nat.zero_le _, h.args⟩
    exact (Nat.mod_le _ _).trans hlen
  | inCompletion => exact step ⟨⟨h.fault, Nat.zero_le _⟩, h.cmdLen, h.cmdPos, h.args⟩
  | dmaRx => exact h.asyncCompletion
  | dmaTx => exact h.asyncCompletion
  | sercom rxc err => exact h.handleSercomUartI2c rxc err
  | extint flags => exact h.handleExtint flags
  | tccOverflow => exact h.uartSendData
  | iter => exact h.iter hok

theorem init (port : TesselPort) (answers : ℕ → BitVec 16) :
    (PortData.init port answers).Bounded :=
  ⟨⟨rfl, Nat.zero_le _⟩, Nat.zero_le _, Nat.zero_le _, Nat.zero_le _⟩

end Bounded

/-! ### Runs -/

/-- **The buffers of a port stay within their bounds.**  In every run of a port, whatever bytes
it receives, however they are split into packets, whatever its pins and peripherals answer and in
whatever order interrupts come, no write to `reply_buf` or `arg`, no read of `cmd_buf` and no index
of `port->gpio` leaves its bounds and `reply_len` is at most 255, if every `CMD_ANALOG_READ` of the
run begins with at least three free bytes and every `CMD_PWM_DUTY_CYCLE` names one of the eight
pins. -/
theorem in_bounds {port : TesselPort} {answers : ℕ → BitVec 16} {es : List PortEvent}
    (h : machine.Run (fun p e => p.fitting e) (PortData.init port answers) es p) : p.InBounds := by
  have hb : p.Bounded := h.invariant (.init port answers) fun q e q' hq hok hst => by
    obtain ⟨ha, rfl⟩ := machine_step_eq_some.1 hst
    exact hq.handle ha hok
  exact hb.toInBounds

/-- A run that switches the SPI on, reads 252 bytes and then the analog value of pin 0. -/
def overflowRun : List PortEvent :=
  [PortEvent.enable, .outCompletion [10, 0, 0, 1, 17, 252, 24, 0]] ++
    List.replicate 8 PortEvent.iter ++ [PortEvent.dmaRx, .iter, .iter]

/-- A run that reads an analog value with the reply buffer empty. -/
def analogRun : List PortEvent := [.enable, .outCompletion [24, 0], .iter, .iter]

theorem in_bounds_analogRun :
    ∃ p, machine.exec (init portA fun _ => 0x0123#16) analogRun = some p ∧
      p.replyBuf.content p.replyLen = [0x84#8, 0x23#8, 0x01#8] ∧ p.InBounds := by
  have h : ((machine.execOk fitting (init portA fun _ => 0x0123#16) analogRun).map fun p =>
      p.replyBuf.content p.replyLen) = some [0x84#8, 0x23#8, 0x01#8] := by decide +kernel
  obtain ⟨p, hp, hreply⟩ := Option.map_eq_some_iff.1 h
  have hrun := Machine.run_of_execOk (fun p e => p.fitting e) (fun _ _ => id) hp
  exact ⟨p, hrun.exec_eq, hreply, in_bounds hrun⟩

/-- Not every run stays within the bounds: with 253 bytes in the reply, the third byte of an
analog value is written behind `reply_buf` and `reply_len` wraps to 0. -/
theorem analog_read_overflow :
    ¬ ∀ (port : TesselPort) (answers : ℕ → BitVec 16) (es : List PortEvent) (p : PortData),
      machine.Run Machine.always (init port answers) es p → p.InBounds := by
  intro hall
  have h : (machine.exec (init portA fun _ => 0#16) overflowRun).map
      (fun p => (p.fault, p.replyLen)) = some (true, 0) := by decide +kernel
  obtain ⟨p, hp, hpair⟩ := Option.map_eq_some_iff.1 h
  have hfault := (hall _ _ _ p (Machine.run_of_exec hp)).fault
  rw [(Prod.mk.inj hpair).1] at hfault
  exact absurd hfault (by decide)

end PortData

end TesselFirmware
