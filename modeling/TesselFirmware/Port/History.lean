import TesselFirmware.Port.Packets

/-!
# Ports with a history

No function of `port.c` reads what the port has done before: what a port does in a session is what
a port with an empty history does.

* `PortData.after` : a port with an earlier history;
* `PortData.handle_after`, `PortData.run_of_after` : its events and its runs;
* `PortData.tracks_of_fresh` : a port that has just been enabled follows the reference, whatever it
  has done in earlier sessions.
-/

namespace TesselFirmware

namespace PortData

variable {p q s : PortData} (past : List Effect)

/-- The same port with an earlier history. -/
def after (p : PortData) (past : List Effect) : PortData :=
  { p with effects := past ++ p.effects }

/-- The same port with an empty history. -/
def fresh (p : PortData) : PortData := { p with effects := [] }

theorem fresh_after (p : PortData) : p.fresh.after p.effects = p :=
  congrArg (fun es => { p with effects := es }) (List.append_nil p.effects)

/-! ### Elementary steps -/

@[simp] theorem opcode_after (p : PortData) : (p.after past).opcode = p.opcode := rfl

@[simp] theorem mode_after (p : PortData) : (p.after past).mode = p.mode := rfl

@[simp] theorem emit_after (p : PortData) (e : Effect) :
    (p.after past).emit e = (p.emit e).after past := by
  simp only [emit, after, List.append_assoc]

@[simp] theorem act_after (p : PortData) (a : Action) :
    (p.after past).act a = (p.act a).after past := emit_after past p (.action a)

@[simp] theorem acts_after (p : PortData) (as : List Action) :
    (p.after past).acts as = (p.acts as).after past := by
  simp only [acts, after, List.append_assoc]

@[simp] theorem appendByte_after (p : PortData) (b : Byte) :
    (p.after past).appendByte b = (p.appendByte b).after past := by
  simp only [appendByte, after, List.append_assoc]
  rfl

@[simp] theorem gpio_after (p : PortData) (op : PinOp) (i : ℕ) :
    (p.after past).gpio op i = (p.gpio op i).after past :=
  emit_after past (p.check (i < 8)) _

@[simp] theorem error_after (p : PortData) : (p.after past).error = p.error.after past :=
  emit_after past p _

@[simp] theorem append_after (p : PortData) (bs : List Byte) :
    (p.after past).append bs = (p.append bs).after past := by
  induction bs generalizing p with
  | nil => rfl
  | cons b bs ih =>
    refine (congrArg (fun q => PortData.append q bs) (appendByte_after past p b)).trans ?_
    exact ih _

@[simp] theorem sendStatus_after (p : PortData) (b : Byte) :
    (p.after past).sendStatus b = (p.sendStatus b).after past := by
  unfold sendStatus
  rw [apply_ite (after · past)]
  exact if_congr Iff.rfl (error_after past p) (appendByte_after past p b)

@[simp] theorem pinRead_after (p : PortData) (i : ℕ) :
    (p.after past).pinRead i = ((p.pinRead i).1, (p.pinRead i).2.after past) := by
  unfold pinRead
  rw [gpio_after]
  rfl

@[simp] theorem eicConfig_after (p : PortData) (i : ℕ) (sense : Byte) :
    (p.after past).eicConfig i sense = (p.eicConfig i sense).after past := by
  unfold eicConfig
  rw [gpio_after]
  rfl

@[simp] theorem takeCmd_after (p : PortData) (n : ℕ) :
    (p.after past).takeCmd n = (p.takeCmd n).after past := rfl

@[simp] theorem subArg0_after (p : PortData) (n : ℕ) :
    (p.after past).subArg0 n = (p.subArg0 n).after past := rfl

@[simp] theorem startTransfer_after (p : PortData) (t : Transfer) :
    (p.after past).startTransfer t = (p.startTransfer t).after past := rfl

@[simp] theorem sendCmd_after (p : PortData) (a : Byte → Action) (n : ℕ) :
    (p.after past).sendCmd a n = (p.sendCmd a n).after past := by
  have hbytes : (p.after past).cmdBytes n = p.cmdBytes n := rfl
  unfold sendCmd
  rw [hbytes, acts_after, takeCmd_after]

@[simp] theorem receiveReply_after (p : PortData) (n : ℕ) :
    (p.after past).receiveReply n = (p.receiveReply n).after past := by
  have hbytes : (p.after past).answerBytes n = p.answerBytes n := rfl
  unfold receiveReply
  rw [hbytes, append_after]
  rfl

/-! ### Commands -/

@[simp] theorem gpioPull_after (p : PortData) :
    (p.after past).gpioPull = p.gpioPull.after past := by
  have harg : (p.after past).argAt 0 = p.argAt 0 := rfl
  simp only [gpioPull, harg, gpio_after]
  split_ifs <;> rfl

@[simp] theorem gpioInt_after (p : PortData) : (p.after past).gpioInt = p.gpioInt.after past := by
  have harg : (p.after past).argAt 0 = p.argAt 0 := rfl
  have hcheck (b : Bool) : (p.after past).check b = (p.check b).after past := rfl
  have hport (q : PortData) : (q.after past).port = q.port := rfl
  simp only [gpioInt, harg, hcheck, hport, gpio_after, eicConfig_after]
  split_ifs <;> rfl

theorem beginCmd_after (p : PortData) :
    (p.after past).beginCmd = (p.beginCmd.1.after past, p.beginCmd.2) := by
  have hcmd : (p.after past).cmd = p.cmd := rfl
  have hpin (q : PortData) : (q.after past).selectedPin = q.selectedPin := rfl
  have harg (q : PortData) (i : ℕ) : (q.after past).argAt i = q.argAt i := rfl
  have hword (q : PortData) (i : ℕ) : (q.after past).argWord i = q.argWord i := rfl
  have hanswer (q : PortData) : (q.after past).answer = q.answer := rfl
  have hanswered (q : PortData) : (q.after past).answered = q.answered.after past := rfl
  rcases hop : p.opcode with _ | c
  · simp only [beginCmd, opcode_emit, hcmd, emit_after, opcode_after, hop, error_after]
  · cases c <;> simp only [beginCmd, opcode_emit, hcmd, emit_after, opcode_after, hop,
      sendStatus_after, pinRead_after, gpio_after, hpin, harg, hword, hanswer, hanswered,
      gpioPull_after, gpioInt_after, error_after, act_after, acts_after, appendByte_after] <;> rfl

theorem continueCmd_after (p : PortData) :
    (p.after past).continueCmd = (p.continueCmd.1.after past, p.continueCmd.2) := by
  have hcmd : (p.after past).cmd = p.cmd := rfl
  have hbytes (q : PortData) (n : ℕ) : (q.after past).cmdBytes n = q.cmdBytes n := rfl
  have htx (q : PortData) : (q.after past).txLen = q.txLen := rfl
  have hrx (q : PortData) : (q.after past).rxLen = q.rxLen := rfl
  have htxrx (q : PortData) : (q.after past).txrxLen = q.txrxLen := rfl
  have hstatus (q : PortData) : (q.after past).payloadStatus = q.payloadStatus := rfl
  rcases hop : p.opcode with _ | c
  · simp only [continueCmd, opcode_emit, hcmd, emit_after, opcode_after, hop]
  · cases c <;> simp only [continueCmd, opcode_emit, hcmd, emit_after, opcode_after, hop]
    case echo => simp only [htxrx, takeCmd_after, hbytes, append_after, subArg0_after, hstatus]
    case tx =>
      cases hm : p.mode <;> simp only [mode_after, mode_emit, hm, htx, sendCmd_after,
        subArg0_after, startTransfer_after]
    case rx =>
      cases hm : p.mode <;> simp only [mode_after, mode_emit, hm, hrx, acts_after, act_after,
        receiveReply_after, subArg0_after, startTransfer_after]
    case txrx =>
      cases hm : p.mode <;> simp only [mode_after, mode_emit, hm, htxrx, sendCmd_after,
        receiveReply_after, subArg0_after, startTransfer_after]

theorem begun_after (p : PortData) : (p.after past).begun = p.begun.after past := by
  unfold begun
  rw [beginCmd_after]
  rfl

theorem continued_after (p : PortData) : (p.after past).continued = p.continued.after past := by
  unfold continued
  rw [continueCmd_after]
  rfl

/-! ### The loop of `port_step` -/

theorem transfers_after (p : PortData) : (p.after past).transfers = p.transfers.after past := by
  have hrequest : (p.after past).requestPacket = p.requestPacket.after past := by
    unfold requestPacket bridgeStartOut
    rw [apply_ite (after · past), emit_after]
    rfl
  unfold transfers
  rw [hrequest]
  generalize p.requestPacket = q
  unfold flushReply bridgeStartIn
  rw [apply_ite (after · past), emit_after]
  rfl

theorem wait_after (p : PortData) : (p.after past).wait = p.wait.after past := by
  have hallowed : (p.after past).asyncEventsAllowed = p.asyncEventsAllowed := rfl
  unfold wait
  rw [hallowed]
  split_ifs <;> rfl

theorem fetchArg_after (p : PortData) : (p.after past).fetchArg = p.fetchArg.after past := by
  unfold fetchArg storeArg
  rfl

theorem dispatch_after (p : PortData) : (p.after past).dispatch = p.dispatch.after past := by
  have hstate : (p.after past).state = p.state := rfl
  have harg (q : PortData) : (q.after past).argLen = q.argLen := rfl
  have hcmd : (p.after past).fetchCmd = p.fetchCmd.after past := rfl
  unfold dispatch
  rw [hstate]
  cases p.state with
  | disable => rfl
  | execAsync => rfl
  | exec => exact continued_after past p
  | readCmd =>
    simp only [readCommand, hcmd, begun_after, harg]
    split_ifs <;> rfl
  | readArg =>
    simp only [readArgument, fetchArg_after, begun_after, error_after, harg]
    split_ifs <;> rfl

theorem iter_after (p : PortData) : (p.after past).iter = p.iter.after past := by
  have hwaits (q : PortData) : (q.after past).waits = q.waits := rfl
  unfold iter
  simp only [transfers_after, wait_after, dispatch_after, hwaits]
  split_ifs <;> rfl

/-! ### The handlers -/

@[simp] theorem step_after (p : PortData) : (p.after past).step = p.step.after past := by
  have hstate : (p.after past).state = p.state := rfl
  unfold step
  simp only [hstate, error_after]
  split_ifs <;> rfl

theorem asyncCompletion_after (p : PortData) :
    (p.after past).asyncCompletion = p.asyncCompletion.after past := by
  have hstate : (p.after past).state = p.state := rfl
  have htransferred : (p.after past).transferred = p.transferred.after past := rfl
  unfold asyncCompletion
  simp only [hstate, htransferred, step_after, error_after]
  split_ifs <;> rfl

theorem foldl_after {f : PortData → ℕ → PortData}
    (hf : ∀ q i, f (q.after past) i = (f q i).after past) (is : List ℕ) :
    is.foldl f (p.after past) = (is.foldl f p).after past :=
  List.foldl_hom (after · past) hf

theorem disable_after (p : PortData) : (p.after past).disable = p.disable.after past := by
  have hpin (q : PortData) (i : ℕ) : (q.after past).disablePin i = (q.disablePin i).after past := by
    have hport : (q.after past).port = q.port := rfl
    unfold disablePin
    simp only [hport, eicConfig_after]
    split_ifs
    · exact gpio_after past _ _ _
    · exact gpio_after past _ _ _
  have hstopped (as : List Action) : (PortData.acts
      { p.after past with state := .disable, transfer := none } as).disableAsyncEvents =
        (PortData.acts { p with state := .disable, transfer := none } as).disableAsyncEvents.after
          past := by
    refine (congrArg disableAsyncEvents (acts_after past
      { p with state := .disable, transfer := none } as)).trans ?_
    rfl
  unfold disable
  dsimp only
  rw [hstopped, foldl_after past hpin, act_after, emit_after]

theorem uartSendData_after (p : PortData) :
    (p.after past).uartSendData = p.uartSendData.after past := by
  have hbuf : (p.after past).uartBuf = p.uartBuf := rfl
  have hlen : (p.after past).replyLen = p.replyLen := rfl
  have hbytes (n : ℕ) : (p.after past).uartBytes n = p.uartBytes n := rfl
  have hin : (p.after past).pendingIn = p.pendingIn := rfl
  have hopen : (p.after past).dataOpen = p.dataOpen := rfl
  have htaken (q : PortData) (n : ℕ) : (q.after past).uartTaken n = (q.uartTaken n).after past :=
    rfl
  unfold uartSendData
  simp only [hbuf, hlen, hbytes, hin, hopen, htaken, emit_after, append_after, step_after,
    error_after]
  split_ifs <;> rfl

theorem handleSercomUartI2c_after (p : PortData) (rxc : Option Byte) (err : Bool) :
    (p.after past).handleSercomUartI2c rxc err = (p.handleSercomUartI2c rxc err).after past := by
  have hpush (q : PortData) (b : Byte) : (q.after past).uartPush b = (q.uartPush b).after past :=
    rfl
  have hbuf (q : PortData) : (q.after past).uartBuf = q.uartBuf := rfl
  have hallowed (q : PortData) : (q.after past).asyncEventsAllowed = q.asyncEventsAllowed := rfl
  unfold handleSercomUartI2c
  rw [mode_after]
  cases p.mode with
  | none => exact error_after past p
  | spi => exact error_after past p
  | i2c =>
    simp only [error_after]
    split_ifs
    · exact asyncCompletion_after past p.error
    · exact asyncCompletion_after past p
  | uart =>
    cases rxc with
    | none => rfl
    | some b =>
      simp only [act_after, hpush, hbuf, hallowed, uartSendData_after]
      split_ifs <;> rfl

theorem handleExtint_after (p : PortData) (flags : BitVec 32) :
    (p.after past).handleExtint flags = (p.handleExtint flags).after past := by
  have hpin (q : PortData) (i : ℕ) :
      (q.after past).extintPin flags i = (q.extintPin flags i).after past := by
    have hport : (q.after past).port = q.port := rfl
    have hcheck (b : Bool) : (q.after past).check b = (q.check b).after past := rfl
    have hsel : (q.after past).selectedPin = q.selectedPin := rfl
    have hsense (r : PortData) : (r.after past).sense = r.sense := rfl
    unfold extintPin
    simp only [hport, hcheck, hsel, hsense, pinRead_after, sendStatus_after, eicConfig_after]
    split_ifs <;> rfl
  have hpins : (List.range 8).foldl (fun p i => p.extintPin flags i) (p.after past) =
      ((List.range 8).foldl (fun p i => p.extintPin flags i) p).after past :=
    foldl_after past hpin _
  have hstate : (p.after past).state = p.state := rfl
  unfold handleExtint
  rw [hstate]
  split_ifs
  · exact (congrArg step hpins).trans (step_after past _)
  · exact error_after past p

theorem enable_after (p : PortData) : (p.after past).enable = p.enable.after past := by
  have hreset : ((p.after past).emit .enabled).bridgeStartOut.reset =
      (p.emit .enabled).bridgeStartOut.reset.after past := by
    rw [emit_after, bridgeStartOut, emit_after]
    rfl
  unfold enable
  rw [hreset, act_after, foldl_after past fun q i => gpio_after past q .pullUp i]

/-- **No handler reads the history.** -/
theorem handle_after (p : PortData) (e : PortEvent) :
    (p.after past).handle e = (p.handle e).after past := by
  cases e with
  | enable => exact enable_after past p
  | disable => exact disable_after past p
  | outCompletion packet => exact step_after past { p.receivePacket packet with
      pendingOut := false, cmdLen := packet.length % 256, cmdPos := 0 }
  | inCompletion => exact step_after past { p with pendingIn := false, replyLen := 0 }
  | dmaRx => exact asyncCompletion_after past p
  | dmaTx => exact asyncCompletion_after past p
  | sercom rxc err => exact handleSercomUartI2c_after past p rxc err
  | extint flags => exact handleExtint_after past p flags
  | tccOverflow => exact uartSendData_after past p
  | iter => exact iter_after past p

/-! ### A session -/

variable {past} {es : List PortEvent}

/-- **A run of a port with a history** is a run of the port without it. -/
theorem run_of_after (h : machine.Run (fun p e => p.scheduled e) (s.after past) es p) :
    ∃ q, machine.Run (fun p e => p.scheduled e) s es q ∧ q.after past = p := by
  induction h with
  | nil => exact ⟨s, .nil, rfl⟩
  | snoc _ hok hst ih =>
    obtain ⟨q, hq, rfl⟩ := ih
    obtain ⟨ha, rfl⟩ := machine_step_eq_some.1 hst
    exact ⟨_, hq.snoc hok (machine_step_eq_some.2 ⟨ha, rfl⟩), (handle_after past q _).symm⟩

/-- The port has just been enabled, and has no history. -/
structure Fresh (s : PortData) : Prop extends s.Resting where
  state : s.state = .readCmd
  empty : s.cmdLen = 0
  replyLen : s.replyLen = 0
  effects : s.effects = []

theorem fresh_enable (p : PortData) : p.enable.fresh.Fresh := by
  have hfold (q : PortData) : ((List.range 8).foldl (fun p i => p.gpio .pullUp i) q).control =
      q.control ∧ ((List.range 8).foldl (fun p i => p.gpio .pullUp i) q).replyLen = q.replyLen :=
    List.foldlRecOn (motive := fun r : PortData => r.control = q.control ∧ r.replyLen = q.replyLen)
      _ _ ⟨rfl, rfl⟩ fun r hr i _ =>
        ⟨(control_gpio r .pullUp i).trans hr.1, (replyLen_gpio r .pullUp i).trans hr.2⟩
  obtain ⟨hc, hlen⟩ := hfold ((p.emit .enabled).bridgeStartOut.reset.act (.power true))
  exact ⟨(Resting.enable p).congr rfl rfl, congrArg Control.state hc, congrArg Control.cmdLen hc,
    hlen, rfl⟩

theorem pendingOut_enable (p : PortData) : p.enable.pendingOut = true :=
  List.foldlRecOn (motive := fun r : PortData => r.pendingOut = true) _ _ rfl fun r hr i _ =>
    (congrArg Control.pendingOut (control_gpio r .pullUp i)).trans hr

/-- **A port that has just been enabled follows the reference.** -/
theorem tracks_of_fresh (hs : s.Fresh)
    (h : machine.Run (fun p e => p.scheduled e) s es p) (hlegal : s.legal (received es)) :
    p.Resting ∧ Tracks s (received es) p ∧ p.Conserved := by
  have hinv := h.invariant_labels
    (I := fun ls p => p.Resting ∧ (s.legal (received ls) →
      Tracks s (received ls) p ∧ p.Conserved)) ?_ ?_
  · exact ⟨hinv.1, hinv.2 hlegal⟩
  · refine ⟨hs.toResting, fun _ => ⟨tracks_self hs.state hs.empty, ?_, ?_⟩⟩
    · exact hs.replyLen.trans_le (Nat.zero_le _)
    · rw [replied, sentBytes, hs.effects, hs.replyLen, Cells.content_zero, ite_self]
      rfl
  · rintro ls q e q' ⟨hr, hI⟩ hok hst
    obtain ⟨ha, rfl⟩ := machine_step_eq_some.1 hst
    refine ⟨hr.handle ha, fun hl => ?_⟩
    rw [received_append, received_singleton] at hl ⊢
    have hl' : s.legal (received ls) := by
      rw [legal_append, Bool.and_eq_true] at hl
      exact hl.1
    obtain ⟨ht, hc⟩ := hI hl'
    refine ⟨ht.handle hr ha hok hl, hc.handle hok fun he => ?_⟩
    subst he
    exact hc.iter hr.cmdLen fun hready t hb => ht.begins_admitted hready hl' hb

end PortData

end TesselFirmware
