import TesselFirmware.Port.Bounds
import TesselFirmware.Port.Effects

/-!
# Asynchronous UART reports

`uart_send_data` puts what the UART has received into `reply_buf` without looking at the state of
the port; the guard is the mask of the timer interrupt that calls it.
`port_enable_async_events` opens the mask only where a report is safe, and every entry into
`port_step` closes it; but `CMD_ENABLE_UART` opens it too, through `tcc_delay_enable`, in the
middle of whatever the packet goes on with.

`PortData.served` is the port with interrupts that come only when they are pending and unmasked.

* `PortData.reports_at_boundaries` : reports are made at reply boundaries only, and nothing put into
  the reply gets lost, in every run in which no timer interrupt is taken through the mask of
  `tcc_delay_enable` where asynchronous events are not allowed;
* `PortData.report_in_flight` : and otherwise they need not be.
-/

namespace TesselFirmware

/-! ### What was put into the reply, and what was sent -/

/-- The bytes put into the reply and the bytes passed to `bridge_start_in` since the last
`port_enable`. -/
structure ReplyLog where
  replied : List Byte
  sent : List Byte
  deriving DecidableEq, Repr

namespace ReplyLog

def next (l : ReplyLog) : Effect → ReplyLog
  | .enabled => ⟨[], []⟩
  | .reply b => { l with replied := l.replied ++ [b] }
  | .call (.startIn bs) => { l with sent := l.sent ++ bs }
  | _ => l

/-- The log of a list of effects. -/
def of (es : List Effect) : ReplyLog := es.foldl next ⟨[], []⟩

theorem of_append (es es' : List Effect) : of (es ++ es') = es'.foldl next (of es) :=
  List.foldl_append

end ReplyLog

/-- A UART packet was started only outside a reply and with no reply in flight. -/
def Effect.orderly : Effect → Prop
  | .uartPacket pendingIn dataOpen => pendingIn = false ∧ dataOpen = false
  | _ => True

/-- The effect neither sends a reply nor resets the port, and is orderly. -/
structure Effect.Inner (e : Effect) : Prop where
  ne_enabled : e ≠ .enabled
  sent : e.sent = []
  orderly : e.orderly

theorem ReplyLog.foldl_inner {es : List Effect} (h : ∀ e ∈ es, e.Inner) (l : ReplyLog) :
    es.foldl next l = { l with replied := l.replied ++ es.filterMap Effect.replied } := by
  induction es generalizing l with
  | nil => simp
  | cons e es ih =>
    have he := h e List.mem_cons_self
    rw [List.foldl_cons, ih fun e' hm => h e' (List.mem_cons_of_mem e hm)]
    cases e with
    | enabled => exact absurd rfl he.ne_enabled
    | reply b => simp [next, Effect.replied]
    | call c =>
      cases c with
      | startIn bs =>
        obtain rfl : bs = [] := he.sent
        simp [next, Effect.replied, List.filterMap_cons]
      | _ => simp [next, Effect.replied, List.filterMap_cons]
    | _ => simp [next, Effect.replied, List.filterMap_cons]

namespace PortData

variable {p q : PortData}

def replyLog (p : PortData) : ReplyLog := ReplyLog.of p.effects

/-- UART packets stand at reply boundaries, and what was put into the reply is what was sent,
followed by what is still to be sent. -/
structure Reported (p : PortData) : Prop where
  orderly : ∀ e ∈ p.effects, e.orderly
  conserved : p.replyLog.replied =
    p.replyLog.sent ++ if p.pendingIn then [] else p.replyBuf.content p.replyLen
  /-- A buffer in flight is as it was when it was passed to the bridge. -/
  inFlight : p.pendingIn → p.replyBuf.content p.replyLen <:+ p.replyLog.sent

/-! ### The port with its interrupts -/

/-- The events that can come: an asynchronous event only when its interrupt is unmasked; and
sessions of the host do not overlap. -/
def delivers (p : PortData) : PortEvent → Bool
  | .enable => p.state == .disable
  | .extint _ => p.eicEnabled
  | .tccOverflow => p.ovf != .masked
  | _ => true

/-- One port with the interrupts that can come. -/
def served : Machine PortData PortEvent where
  step p e := if p.accepts e && p.delivers e then some (p.handle e) else none

/-- No timer interrupt is taken through the mask of `tcc_delay_enable` where asynchronous events
are not allowed, and no completion of a transfer of an earlier session drops a reply. -/
def timely (p : PortData) : PortEvent → Bool
  | .tccOverflow => p.ovf != .byDelayEnable || p.asyncEventsAllowed
  | .inCompletion => p.pendingIn || p.replyLen == 0
  | _ => true

theorem served_step_eq_some {p p' : PortData} {e : PortEvent} :
    served.step p e = some p' ↔ p.accepts e ∧ p.delivers e ∧ p.handle e = p' := by
  simp only [served, Option.ite_none_right_eq_some, Option.some.injEq, Bool.and_eq_true, and_assoc]

/-! ### Asynchronous events -/

theorem pendingIn_of_allowed (h : p.asyncEventsAllowed) : p.pendingIn = false := by
  simp only [asyncEventsAllowed, Bool.and_eq_true, Bool.not_eq_true'] at h
  exact h.1

theorem state_of_allowed (h : p.asyncEventsAllowed) :
    p.state = .readCmd ∨ p.state = .execAsync ∧ p.opcode = some .tx := by
  simp only [asyncEventsAllowed, rxLocked, Bool.and_eq_true, Bool.or_eq_true, beq_iff_eq] at h
  simpa using h.2

theorem ne_disable_of_allowed (h : p.asyncEventsAllowed) : p.state ≠ .disable := by
  obtain h | ⟨h, -⟩ := state_of_allowed h <;> simp [h]

/-- Where asynchronous events are allowed, no DATA reply is partly written. -/
theorem dataOpen_of_allowed (h : p.asyncEventsAllowed) : p.dataOpen = false := by
  obtain h | ⟨h, hop⟩ := state_of_allowed h
  · simp [dataOpen, h]
  · simp [dataOpen, h, hop]

/-! ### Effects and replies -/

theorem replyLog_of_inner {bs : List Byte} (he : Emits Effect.Inner p q)
    (hr : q.replied = p.replied ++ bs) :
    q.replyLog = { p.replyLog with replied := p.replyLog.replied ++ bs } := by
  obtain ⟨es, hes, heq⟩ := he.effects
  have hbs : es.filterMap Effect.replied = bs := by
    rw [replied, heq, List.filterMap_append] at hr
    exact List.append_cancel_left hr
  rw [replyLog, heq, ReplyLog.of_append, ReplyLog.foldl_inner hes, hbs]
  rfl

/-- Appending to the reply keeps the account, unless it is in flight. -/
theorem Reported.of_appended {bs : List Byte} (h : Reported p) (ha : Appended bs p q)
    (he : Emits Effect.Inner p q) (hin : q.pendingIn = p.pendingIn)
    (hbs : bs = [] ∨ p.pendingIn = false) : Reported q := by
  have hlog := replyLog_of_inner he ha.replied
  refine ⟨fun e hm => ?_, ?_, fun hp => ?_⟩
  · obtain ⟨es, hes, heq⟩ := he.effects
    rw [heq, List.mem_append] at hm
    exact hm.elim (h.orderly e) fun hm => (hes e hm).orderly
  · rw [hlog, hin, ha.content, h.conserved]
    obtain rfl | hp := hbs
    · simp
    · simp [hp]
  · have hp' : p.pendingIn = true := hin ▸ hp
    obtain rfl : bs = [] := hbs.resolve_right (by simp [hp'])
    rw [hlog, ha.content, List.append_nil]
    exact h.inFlight hp'

/-- What the account does not depend on may change. -/
theorem Reported.congr (h : Reported p) (heff : q.effects = p.effects)
    (hin : q.pendingIn = p.pendingIn) (hbuf : q.replyBuf = p.replyBuf)
    (hlen : q.replyLen = p.replyLen) : Reported q := by
  have hlog : q.replyLog = p.replyLog := by rw [replyLog, heff]; rfl
  refine ⟨by rw [heff]; exact h.orderly, ?_, ?_⟩
  · rw [hlog, hin, hbuf, hlen]
    exact h.conserved
  · rw [hlog, hin, hbuf, hlen]
    exact h.inFlight

theorem Reported.emit (h : Reported p) {e : Effect} (he : e.Inner) (hr : e.replied = none) :
    Reported (p.emit e) := by
  have hlog := replyLog_of_inner (Emits.emit p he)
    (show _ = p.replied ++ [] by simp [replied_emit, hr])
  rw [List.append_nil] at hlog
  refine ⟨fun e' hm => ?_, ?_, ?_⟩
  · obtain hm | hm := List.mem_append.1 hm
    · exact h.orderly e' hm
    · obtain rfl := List.mem_singleton.1 hm
      exact he.orderly
  · rw [hlog]
    exact h.conserved
  · rw [hlog]
    exact h.inFlight

theorem inner_action (a : Action) : (Effect.action a).Inner := ⟨by simp, rfl, trivial⟩

theorem inner_reply (b : Byte) : (Effect.reply b).Inner := ⟨by simp, rfl, trivial⟩

theorem inner_exec (cmd : Byte) : (Effect.exec cmd).Inner := ⟨by simp, rfl, trivial⟩

theorem inner_disableChan : (Effect.call .disableChan).Inner := ⟨by simp, rfl, trivial⟩

/-! ### Mode and mask -/

/-- The mode of the port and the mask of the timer interrupt. -/
def masks (p : PortData) : PortMode × OvfMask := (p.mode, p.ovf)

@[simp] theorem masks_emit (p : PortData) (e : Effect) : (p.emit e).masks = p.masks := rfl

@[simp] theorem masks_act (p : PortData) (a : Action) : (p.act a).masks = p.masks := rfl

@[simp] theorem masks_acts (p : PortData) (as : List Action) : (p.acts as).masks = p.masks := rfl

@[simp] theorem masks_check (p : PortData) (b : Bool) : (p.check b).masks = p.masks := rfl

@[simp] theorem masks_gpio (p : PortData) (op : PinOp) (i : ℕ) :
    (p.gpio op i).masks = p.masks := rfl

@[simp] theorem masks_pinRead (p : PortData) (i : ℕ) : (p.pinRead i).2.masks = p.masks := rfl

@[simp] theorem masks_answered (p : PortData) : p.answered.masks = p.masks := rfl

@[simp] theorem masks_eicConfig (p : PortData) (i : ℕ) (sense : Byte) :
    (p.eicConfig i sense).masks = p.masks := rfl

@[simp] theorem masks_setArg0 (p : PortData) (b : Byte) : (p.setArg0 b).masks = p.masks := rfl

@[simp] theorem masks_subArg0 (p : PortData) (n : ℕ) : (p.subArg0 n).masks = p.masks := rfl

@[simp] theorem masks_takeCmd (p : PortData) (n : ℕ) : (p.takeCmd n).masks = p.masks := rfl

@[simp] theorem masks_sendCmd (p : PortData) (a : Byte → Action) (n : ℕ) :
    (p.sendCmd a n).masks = p.masks := rfl

@[simp] theorem masks_startTransfer (p : PortData) (t : Transfer) :
    (p.startTransfer t).masks = p.masks := rfl

@[simp] theorem masks_error (p : PortData) : p.error.masks = p.masks := rfl

@[simp] theorem masks_appendByte (p : PortData) (b : Byte) : (p.appendByte b).masks = p.masks := rfl

@[simp] theorem masks_append (p : PortData) (bs : List Byte) : (p.append bs).masks = p.masks := by
  induction bs generalizing p with
  | nil => rfl
  | cons b bs ih => exact (ih _).trans (masks_appendByte p b)

@[simp] theorem masks_receiveReply (p : PortData) (n : ℕ) :
    (p.receiveReply n).masks = p.masks := masks_append _ _

@[simp] theorem masks_sendStatus (p : PortData) (b : Byte) : (p.sendStatus b).masks = p.masks := by
  unfold sendStatus
  split_ifs <;> simp

@[simp] theorem masks_gpioPull (p : PortData) : p.gpioPull.masks = p.masks := by
  simp only [gpioPull]
  split_ifs <;> simp

@[simp] theorem masks_gpioInt (p : PortData) : p.gpioInt.masks = p.masks := by
  simp only [gpioInt]
  split_ifs <;> simp

/-- No command opens the mask the way `port_enable_async_events` does. -/
theorem ovf_beginCmd (h : p.ovf ≠ .byAsyncEvents) : p.beginCmd.1.ovf ≠ .byAsyncEvents := by
  have hkeep {q : PortData} (hq : q.masks = p.masks) : q.ovf ≠ .byAsyncEvents := by
    rw [show q.ovf = p.ovf from congrArg Prod.snd hq]
    exact h
  rcases hop : p.opcode with _ | c
  · simp only [beginCmd, opcode_emit, hop]
    exact hkeep rfl
  · cases c <;> simp only [beginCmd, opcode_emit, hop]
    case enableUart => simp
    case disableUart => simp
    all_goals
      refine hkeep ?_
      simp

theorem masks_continueCmd (p : PortData) : p.continueCmd.1.masks = p.masks := by
  rcases hop : p.opcode with _ | c
  · simp [continueCmd, opcode_emit, hop]
  · cases c <;> simp only [continueCmd, opcode_emit, hop, masks_emit]
    case echo => simp
    all_goals cases hm : p.mode <;> simp only [mode_emit, hm] <;> simp

/-- `port_disable_async_events` leaves the timer mask as it is only outside the UART mode. -/
theorem of_ovf_disableAsyncEvents (h : p.disableAsyncEvents.ovf = .byAsyncEvents) :
    p.mode ≠ .uart ∧ p.ovf = .byAsyncEvents := by
  simp only [disableAsyncEvents] at h
  by_cases hm : p.mode = .uart
  · rw [if_pos hm] at h
    cases h
  · rw [if_neg hm] at h
    exact ⟨hm, h⟩

/-- `port_enable_async_events` opens the timer mask only in the UART mode. -/
theorem of_ovf_enableAsyncEvents (h : p.enableAsyncEvents.ovf = .byAsyncEvents) :
    p.mode = .uart ∨ p.ovf = .byAsyncEvents := by
  simp only [enableAsyncEvents] at h
  by_cases hm : p.mode = .uart
  · exact .inl hm
  · rw [if_neg hm] at h
    exact .inr h

/-! ### The invariant -/

/-- What holds between the events: the bounds, the account of the reply, and that the masks are
open for asynchronous events only where these are allowed. -/
structure UartSafe (p : PortData) : Prop extends Reported p, Bounded p where
  ovf : p.ovf = .byAsyncEvents → p.mode = .uart ∧ p.asyncEventsAllowed ∧ p.stepping = false
  eic : p.eicEnabled → p.asyncEventsAllowed ∧ p.stepping = false

namespace UartSafe

/-- Entering `port_step` closes the masks. -/
theorem step (hr : Reported p) (hb : p.Bounded)
    (hovf : p.ovf = .byAsyncEvents → p.mode = .uart ∧ p.state ≠ .disable)
    (heic : p.eicEnabled → p.state ≠ .disable) : UartSafe p.step := by
  have hstep := hb.step
  by_cases hd : p.state = .disable
  · have he : p.step = p.error := if_pos hd
    rw [he] at hstep ⊢
    refine ⟨hr.emit inner_disableChan rfl, hstep, fun h => ?_, fun h => ?_⟩
    · exact absurd hd (hovf h).2
    · exact absurd hd (heic h)
  · have he : p.step = { p.disableAsyncEvents with stepping := true } := if_neg hd
    rw [he] at hstep ⊢
    refine ⟨hr.congr rfl rfl rfl rfl, hstep, fun h => ?_, fun h => by cases h⟩
    obtain ⟨hm, ho⟩ := of_ovf_disableAsyncEvents h
    exact absurd (hovf ho).1 hm

theorem error (h : UartSafe p) : UartSafe p.error :=
  ⟨h.toReported.emit inner_disableChan rfl, h.toBounded.emit _, h.ovf, h.eic⟩

theorem asyncCompletion (h : UartSafe p) : UartSafe p.asyncCompletion := by
  have hne : p.payloadStatus.toState ≠ .disable := by
    unfold payloadStatus
    split_ifs <;> simp [ExecStatus.toState]
  unfold PortData.asyncCompletion
  split_ifs with hst
  · refine step (h.toReported.congr rfl rfl rfl rfl) ?_ (fun ho => ⟨(h.ovf ho).1, hne⟩)
      fun _ => hne
    exact ⟨⟨h.fault, h.replyLen⟩, h.cmdLen, h.cmdPos, h.args⟩
  · exact h.error

/-- A report where asynchronous events are allowed is orderly. -/
theorem uartSendData (h : UartSafe p) (ha : p.asyncEventsAllowed) :
    UartSafe p.uartSendData := by
  have hl := h.replyLen
  have hin := pendingIn_of_allowed ha
  have hd := ne_disable_of_allowed ha
  unfold PortData.uartSendData
  dsimp only
  split_ifs with hc hfit
  · exact h.error
  · generalize hpacket : (replyAsyncUartRx :: BitVec.ofNat 8 p.uartBuf.bufLen ::
      p.uartBytes p.uartBuf.bufLen) = packet
    have hlen : p.replyLen + packet.length ≤ bridgeBufSize := by
      rw [← hpacket]
      simp only [List.length_cons, uartBytes, List.length_map, List.length_range]
      omega
    have hmark : (Effect.uartPacket p.pendingIn p.dataOpen).Inner :=
      ⟨by simp, rfl, hin, dataOpen_of_allowed ha⟩
    have hrm := h.toReported.emit hmark rfl
    have happ := appended_append (p := p.emit (.uartPacket p.pendingIn p.dataOpen)) packet hlen
    have hcon := control_append (p.emit (.uartPacket p.pendingIn p.dataOpen)) packet
    have hmasks := masks_append (p.emit (.uartPacket p.pendingIn p.dataOpen)) packet
    have hem := Emits.append (P := Effect.Inner) inner_reply
      (p.emit (.uartPacket p.pendingIn p.dataOpen)) packet
    have hbnd := (h.toBounded.emit (.uartPacket p.pendingIn p.dataOpen)).of_control happ hcon
    generalize (p.emit (.uartPacket p.pendingIn p.dataOpen)).append packet = q at *
    have hqr : Reported q :=
      hrm.of_appended happ hem (congrArg Control.pendingIn hcon) (.inr hin)
    have hqd : q.state ≠ .disable := (congrArg Control.state hcon).trans_ne hd
    have hqm : q.mode = p.mode := congrArg Prod.fst hmasks
    have hqo : q.ovf = p.ovf := congrArg Prod.snd hmasks
    refine step (hqr.congr rfl rfl rfl rfl) (hbnd.uartTaken _) (fun ho => ⟨?_, hqd⟩) fun _ => hqd
    exact hqm.trans (h.ovf (hqo.symm.trans ho)).1
  · exact h

theorem handleSercomUartI2c (h : UartSafe p) (rxc : Option Byte) (err : Bool) :
    UartSafe (p.handleSercomUartI2c rxc err) := by
  unfold PortData.handleSercomUartI2c
  split
  · split
    · next b =>
      have hact := h.toReported.emit (inner_action (.tccDelayStart (200 * 10))) rfl
      have hpush : UartSafe ((p.act (.tccDelayStart (200 * 10))).uartPush b) :=
        ⟨hact.congr rfl rfl rfl rfl, ⟨⟨h.fault, h.replyLen⟩, h.cmdLen, h.cmdPos, h.args⟩,
          h.ovf, h.eic⟩
      dsimp only
      split_ifs with hfull
      · exact hpush.uartSendData hfull.2
      · exact hpush
    · exact h
  · dsimp only
    split_ifs
    · exact h.error.asyncCompletion
    · exact h.asyncCompletion
  · exact h.error
  · exact h.error

end UartSafe

/-! ### Pins -/

theorem Reported.gpio (h : Reported p) (op : PinOp) {i : ℕ} (hi : i < 8) :
    Reported (p.gpio op i) := by
  rw [gpio_of_lt p op hi]
  exact h.emit (inner_action _) rfl

theorem Reported.sendStatus (h : Reported p) (hin : p.pendingIn = false) (b : Byte) :
    Reported (p.sendStatus b) := by
  by_cases hl : p.replyLen < bridgeBufSize
  · have hcon := control_sendStatus p b
    exact h.of_appended (appended_sendStatus p b hl)
      (Emits.sendStatus inner_reply p b (.inl hl)) (congrArg Control.pendingIn hcon) (.inr hin)
  · rw [PortData.sendStatus, if_pos (by omega)]
    exact h.emit inner_disableChan rfl

theorem masks_extintPin (p : PortData) (flags : BitVec 32) (i : ℕ) :
    (p.extintPin flags i).masks = p.masks := by
  unfold extintPin
  split_ifs
  · dsimp only
    split_ifs <;> simp
  · rfl

theorem Reported.extintPin (h : Reported p) (hin : p.pendingIn = false) (flags : BitVec 32) {i : ℕ}
    (hi : i < 8) : Reported (p.extintPin flags i) := by
  unfold PortData.extintPin
  split_ifs
  · rw [check_of_true p (decide_eq_true hi)]
    have hread : Reported (p.pinRead p.selectedPin).2 :=
      (h.gpio .read (selectedPin_lt p)).congr rfl rfl rfl rfl
    have hrin : (p.pinRead p.selectedPin).2.pendingIn = false := hin
    generalize p.pinRead p.selectedPin = r at hread hrin ⊢
    obtain ⟨high, q⟩ := r
    dsimp only at hread hrin ⊢
    generalize (if high = true then _ else _ : Byte) = response
    split_ifs
    · exact ((hread.sendStatus hrin _).gpio (.eicConfig 0#8) hi).congr rfl rfl rfl rfl
    · exact hread.sendStatus hrin _
  · exact h

namespace UartSafe

/-- The report of changed pins: an appended status for each. -/
theorem handleExtint (h : UartSafe p) (he : p.eicEnabled) (flags : BitVec 32) :
    UartSafe (p.handleExtint flags) := by
  have ha := (h.eic he).1
  have hin := pendingIn_of_allowed ha
  have hd := ne_disable_of_allowed ha
  unfold PortData.handleExtint
  split_ifs
  · have hfold : ∀ q : PortData, q = (List.range 8).foldl (fun p i => p.extintPin flags i) p →
        Reported q ∧ q.Bounded ∧ q.control = p.control ∧ q.masks = p.masks := by
      rintro q rfl
      refine List.foldlRecOn (motive := fun q : PortData => Reported q ∧ q.Bounded ∧
        q.control = p.control ∧ q.masks = p.masks) _ _ ⟨h.toReported, h.toBounded, rfl, rfl⟩ ?_
      rintro q ⟨hr, hb, hc, hm⟩ i hi
      have hqin : q.pendingIn = false := (congrArg Control.pendingIn hc).trans hin
      have hi8 := List.mem_range.1 hi
      exact ⟨hr.extintPin hqin flags hi8, hb.extintPin flags hi8,
        (control_extintPin q flags i).trans hc, (masks_extintPin q flags i).trans hm⟩
    obtain ⟨hr, hb, hc, hm⟩ := hfold _ rfl
    generalize (List.range 8).foldl (fun p i => p.extintPin flags i) p = q at *
    have hqd : q.state ≠ .disable := (congrArg Control.state hc).trans_ne hd
    have hqo : q.ovf = p.ovf := congrArg Prod.snd hm
    have hqm : q.mode = p.mode := congrArg Prod.fst hm
    exact step hr hb (fun ho => ⟨hqm.trans (h.ovf (hqo.symm.trans ho)).1, hqd⟩) fun _ => hqd
  · exact h.error

end UartSafe

/-! ### Sessions -/

theorem Reported.acts (h : Reported p) (hl : p.replyLen ≤ bridgeBufSize) (as : List Action) :
    Reported (p.acts as) :=
  h.of_appended (appended_acts as hl) (Emits.acts inner_action p as) rfl (.inl rfl)

theorem Reported.disablePin (h : Reported p) {i : ℕ} (hi : i < 8) : Reported (p.disablePin i) := by
  unfold PortData.disablePin
  dsimp only
  split_ifs
  · have hc : Reported (p.eicConfig i 0#8) := (h.gpio (.eicConfig 0#8) hi).congr rfl rfl rfl rfl
    exact hc.gpio .float hi
  · exact h.gpio .float hi

theorem control_disablePin (p : PortData) (i : ℕ) : (p.disablePin i).control = p.control := by
  unfold disablePin
  dsimp only
  split_ifs <;> simp

theorem masks_disablePin (p : PortData) (i : ℕ) : (p.disablePin i).masks = p.masks := by
  unfold disablePin
  dsimp only
  split_ifs <;> simp

/-- The state of `port_disable` before it works on the pins. -/
def stopped (p : PortData) : PortData :=
  PortData.disableAsyncEvents (PortData.acts { p with state := .disable, transfer := none }
    [.sercomReset .spi, .sercomReset .uartI2c, .dmaAbort .tx, .dmaAbort .rx])

theorem control_disable (p : PortData) : p.disable.control = p.stopped.control := by
  have hfold (q : PortData) : ((List.range 8).foldl disablePin q).control = q.control :=
    List.foldlRecOn (motive := fun r : PortData => r.control = q.control) _ _ rfl
      fun r hr i _ => (control_disablePin r i).trans hr
  exact hfold p.stopped

theorem state_disable (p : PortData) : p.disable.state = .disable :=
  congrArg Control.state (control_disable p)

theorem reported_stopped (h : Reported p) (hl : p.replyLen ≤ bridgeBufSize) :
    Reported p.stopped := by
  have h0 : Reported { p with state := .disable, transfer := none } := h.congr rfl rfl rfl rfl
  exact (h0.acts hl _).congr rfl rfl rfl rfl

namespace UartSafe

theorem disable (h : UartSafe p) : UartSafe p.disable := by
  have hovf : p.stopped.ovf ≠ .byAsyncEvents := fun ho => by
    obtain ⟨hm, ho⟩ := of_ovf_disableAsyncEvents ho
    exact hm (h.ovf ho).1
  have hfold : ∀ q : PortData, q = (List.range 8).foldl PortData.disablePin p.stopped →
      Reported q ∧ q.control = p.stopped.control ∧ q.masks = p.stopped.masks := by
    rintro q rfl
    refine List.foldlRecOn (motive := fun q : PortData => Reported q ∧
      q.control = p.stopped.control ∧ q.masks = p.stopped.masks) _ _
      ⟨reported_stopped h.toReported h.replyLen, rfl, rfl⟩ ?_
    rintro q ⟨hr, hc, hm⟩ i hi
    exact ⟨hr.disablePin (List.mem_range.1 hi), (control_disablePin q i).trans hc,
      (masks_disablePin q i).trans hm⟩
  obtain ⟨hr, hc, hm⟩ := hfold _ rfl
  have hb := h.toBounded.disable
  change Bounded (((List.range 8).foldl PortData.disablePin p.stopped).act _ |>.emit _) at hb
  show UartSafe (((List.range 8).foldl PortData.disablePin p.stopped).act _ |>.emit _)
  generalize (List.range 8).foldl PortData.disablePin p.stopped = q at *
  have hqo : q.ovf = p.stopped.ovf := congrArg Prod.snd hm
  have hqe : q.eicEnabled = false := congrArg Control.eicEnabled hc
  refine ⟨(hr.emit (inner_action _) rfl).emit ⟨by simp, rfl, trivial⟩ rfl, hb, fun ho => ?_,
    fun he => ?_⟩
  · exact absurd (hqo.symm.trans ho) hovf
  · exact absurd he (by simp [PortData.emit, act, hqe])

/-- `port_enable` starts a new account. -/
theorem reported_reset (h : Reported p) :
    Reported (p.emit .enabled).bridgeStartOut.reset := by
  have hlog : (p.emit .enabled).bridgeStartOut.reset.replyLog = ⟨[], []⟩ := by
    show ReplyLog.of ((p.effects ++ [.enabled]) ++ [.call .startOut]) = _
    rw [ReplyLog.of_append, ReplyLog.of_append]
    rfl
  refine ⟨fun e hm => ?_, by rw [hlog]; rfl, fun hp => by cases hp⟩
  have hm' : e ∈ (p.effects ++ [.enabled]) ++ [.call .startOut] := hm
  simp only [List.mem_append, List.mem_singleton] at hm'
  obtain (hm | rfl) | rfl := hm'
  · exact h.orderly e hm
  · trivial
  · trivial

theorem enable (h : UartSafe p) (hd : p.state = .disable) : UartSafe p.enable := by
  have hb := h.toBounded.enable
  have hovf : p.ovf ≠ .byAsyncEvents := fun ho => ne_disable_of_allowed (h.ovf ho).2.1 hd
  have heic : p.eicEnabled = false := by
    by_contra he
    exact ne_disable_of_allowed (h.eic (by simpa using he)).1 hd
  have hfold : ∀ q : PortData, q = p.enable → Reported q ∧ q.eicEnabled = p.eicEnabled ∧
      q.ovf = p.ovf := by
    rintro q rfl
    refine List.foldlRecOn (motive := fun q : PortData => Reported q ∧
      q.eicEnabled = p.eicEnabled ∧ q.ovf = p.ovf) _ _ ?_ ?_
    · exact ⟨(reported_reset h.toReported).emit (inner_action _) rfl, rfl, rfl⟩
    · rintro q ⟨hr, hc, hm⟩ i hi
      exact ⟨hr.gpio .pullUp (List.mem_range.1 hi), hc, hm⟩
  obtain ⟨hr, hc, hm⟩ := hfold _ rfl
  refine ⟨hr, hb, fun ho => ?_, fun he => ?_⟩
  · exact absurd (hm.symm.trans ho) hovf
  · rw [hc, heic] at he
    cases he

end UartSafe

/-! ### One pass of the loop -/

/-- A flush moves what is to be sent to what has been sent. -/
theorem reported_startIn (h : Reported p) (hin : p.pendingIn = false) :
    Reported { p.bridgeStartIn with pendingIn := true } := by
  have hlog : replyLog { p.bridgeStartIn with pendingIn := true } =
      { p.replyLog with sent := p.replyLog.sent ++ p.replyBuf.content p.replyLen } := by
    show ReplyLog.of (p.effects ++ [_]) = _
    rw [ReplyLog.of_append]
    rfl
  refine ⟨fun e hm => ?_, ?_, fun _ => ?_⟩
  · have hm' : e ∈ p.effects ++ [_] := hm
    obtain hm | hm := List.mem_append.1 hm'
    · exact h.orderly e hm
    · obtain rfl := List.mem_singleton.1 hm
      trivial
  · rw [hlog, h.conserved, hin]
    simp
  · rw [hlog]
    exact List.suffix_append _ _

theorem reported_transfers (h : Reported p) : Reported p.transfers := by
  have hr : Reported p.requestPacket := by
    obtain ⟨he, -⟩ | ⟨he, -⟩ := requestPacket_cases p
    · rw [he]
      exact h
    · rw [he]
      exact (h.emit (e := .call .startOut) ⟨by simp, rfl, trivial⟩ rfl).congr rfl rfl rfl rfl
  obtain ⟨he, -⟩ | ⟨he, hin, -⟩ := flushReply_cases p.requestPacket
  · rw [transfers, he]
    exact hr
  · rw [transfers, he]
    exact reported_startIn hr hin

theorem masks_transfers (p : PortData) :
    p.transfers.masks = p.masks ∧ p.transfers.eicEnabled = p.eicEnabled := by
  have hr : p.requestPacket.masks = p.masks ∧ p.requestPacket.eicEnabled = p.eicEnabled := by
    obtain ⟨he, -⟩ | ⟨he, -⟩ := requestPacket_cases p <;> rw [he] <;> exact ⟨rfl, rfl⟩
  obtain ⟨he, -⟩ | ⟨he, -⟩ := flushReply_cases p.requestPacket
  · rw [transfers, he]
    exact hr
  · rw [transfers, he]
    exact hr

namespace UartSafe

/-- Leaving the loop opens the masks only where asynchronous events are allowed. -/
theorem wait (hr : Reported p) (hb : p.Bounded) (hovf : p.ovf ≠ .byAsyncEvents)
    (heic : p.eicEnabled = false) : UartSafe p.wait := by
  have hbw := hb.wait
  by_cases ha : p.asyncEventsAllowed
  · have he : p.wait = { p.enableAsyncEvents with stepping := false } := by
      rw [PortData.wait, if_pos ha]
    rw [he] at hbw ⊢
    exact ⟨hr.congr rfl rfl rfl rfl, hbw,
      fun ho => ⟨(of_ovf_enableAsyncEvents ho).resolve_right hovf, ha, rfl⟩, fun _ => ⟨ha, rfl⟩⟩
  · have he : p.wait = { p with stepping := false } := by
      rw [PortData.wait, if_neg ha]
    rw [he] at hbw ⊢
    exact ⟨hr.congr rfl rfl rfl rfl, hbw, fun ho => absurd ho hovf,
      fun h => absurd h (by simp [heic])⟩

theorem begun (hr : Reported p) (hb : p.Bounded) (hovf : p.ovf ≠ .byAsyncEvents)
    (heic : p.eicEnabled = false) (hin : p.pendingIn = false) (hw : p.withinLimits)
    (hl : p.replyLen < bridgeBufSize) : UartSafe p.begun := by
  have hcon := control_begun p
  refine ⟨hr.of_appended (appended_begun (beginFits_of_withinLimits hw hl))
    (Emits.begun inner_action inner_reply p (inner_exec _) (.inr inner_disableChan))
    (congrArg Control.pendingIn hcon) (.inr hin), hb.begun hw hl, fun ho => ?_, fun he => ?_⟩
  · exact absurd ho (ovf_beginCmd hovf)
  · have : p.begun.eicEnabled = p.eicEnabled := congrArg Control.eicEnabled hcon
    rw [this, heic] at he
    cases he

theorem continued (hr : Reported p) (hb : p.Bounded) (hovf : p.ovf ≠ .byAsyncEvents)
    (heic : p.eicEnabled = false) (hin : p.pendingIn = false) (hready : p.Ready) :
    UartSafe p.continued := by
  have hcon := control_continued hready
  refine ⟨hr.of_appended (appended_continued hready)
    (Emits.continued inner_action inner_reply p (inner_exec _))
    (congrArg Control.pendingIn hcon) (.inr hin), hb.continued hready, fun ho => ?_, fun he => ?_⟩
  · have : p.continued.ovf = p.ovf := congrArg Prod.snd (masks_continueCmd p)
    exact absurd (this.symm.trans ho) hovf
  · have : p.continued.eicEnabled = p.eicEnabled := congrArg Control.eicEnabled hcon
    rw [this, heic] at he
    cases he

theorem iter (h : UartSafe p) (hst : p.stepping = true) (hok : p.begins.all withinLimits) :
    UartSafe p.iter := by
  have hovf : p.ovf ≠ .byAsyncEvents := fun ho => by simp [(h.ovf ho).2.2] at hst
  have heic : p.eicEnabled = false := by
    by_contra he
    simp [(h.eic (by simpa using he)).2] at hst
  have hbi := h.toBounded.iter hok
  obtain ⟨-, hi⟩ | ⟨ht, hw, ⟨-, hi⟩ | ⟨hs, hpos, hl, hi⟩⟩ := iter_cases p
  · rw [hi]
    obtain ⟨hm, he⟩ := masks_transfers p
    have ho : p.transfers.ovf = p.ovf := congrArg Prod.snd hm
    exact wait (reported_transfers h.toReported) h.toBounded.transfers (ho.trans_ne hovf)
      (he.trans heic)
  · rw [hi] at hbi ⊢
    exact ⟨h.toReported.congr rfl rfl rfl rfl, hbi, fun ho => absurd ho hovf,
      fun he => absurd he (by simp [heic])⟩
  · rw [hi] at hbi ⊢
    have hin : p.pendingIn = false := by
      simp only [waits, Bool.or_eq_false_iff] at hw
      exact hw.1
    simp only [begins, ht, hw] at hok
    unfold dispatch at hbi ⊢
    cases hstate : p.state <;> simp only [hstate] at hok hbi ⊢
    case disable => exact h
    case execAsync => exact absurd hstate hs
    case exec => exact continued h.toReported h.toBounded hovf heic hin ⟨hpos, h.cmdLen, hl⟩
    case readCmd =>
      have hr : Reported p.fetchCmd := h.toReported.congr rfl rfl rfl rfl
      unfold readCommand at hbi ⊢
      split_ifs at hbi ⊢ with harg
      · exact ⟨hr.congr rfl rfl rfl rfl, hbi, fun ho => absurd ho hovf,
          fun he => absurd he (by simp [heic, fetchCmd, takeCmd, check])⟩
      · have h0 : p.fetchCmd.argLen = 0 := by omega
        simp only [h0, ↓reduceIte] at hok
        exact begun hr (h.toBounded.fetchCmd hpos h0) hovf heic hin hok hl
    case readArg =>
      have hr : Reported p.fetchArg := by
        rw [fetchArg_eq]
        exact h.toReported.congr rfl rfl rfl rfl
      have hovf' : p.fetchArg.ovf ≠ .byAsyncEvents := by rwa [fetchArg_eq]
      have heic' : p.fetchArg.eicEnabled = false := by rwa [fetchArg_eq]
      have hin' : p.fetchArg.pendingIn = false := by rwa [fetchArg_eq]
      have hl' : p.fetchArg.replyLen < bridgeBufSize := by rwa [fetchArg_eq]
      unfold readArgument at hbi ⊢
      split_ifs at hbi ⊢ with h0 h1
      · exact ⟨(h.toReported.emit inner_disableChan rfl).congr rfl rfl rfl rfl, hbi,
          fun ho => absurd ho hovf, fun he => absurd he (by simp [heic, PortData.error, emit])⟩
      · simp only [h0, h1, ne_eq, not_false_eq_true, and_self, ↓reduceIte] at hok
        exact begun hr (h.toBounded.fetchArg hpos h0) hovf' heic' hin' hok hl'
      · exact ⟨hr, hbi, fun ho => absurd ho hovf', fun he => absurd he (by simp [heic'])⟩

/-! ### Every event -/

theorem outCompletion (h : UartSafe p) {packet : List Byte} (hl : packet.length ≤ bridgeBufSize) :
    UartSafe ((p.receivePacket packet).bridgeOutCompletion packet.length) := by
  have ho (ho : p.ovf = .byAsyncEvents) := ne_disable_of_allowed (h.ovf ho).2.1
  have he (he : p.eicEnabled) := ne_disable_of_allowed (h.eic he).1
  refine step (h.toReported.congr rfl rfl rfl rfl) ?_ (fun h' => ⟨(h.ovf h').1, ho h'⟩) he
  exact ⟨⟨h.fault, h.replyLen⟩, (Nat.mod_le _ _).trans hl, Nat.zero_le _, h.args⟩

/-- The buffer that was in flight has been sent, so it can be forgotten. -/
theorem inCompletion (h : UartSafe p) (ht : p.pendingIn || p.replyLen == 0) :
    UartSafe p.bridgeInCompletion := by
  have ho (ho : p.ovf = .byAsyncEvents) := ne_disable_of_allowed (h.ovf ho).2.1
  have he (he : p.eicEnabled) := ne_disable_of_allowed (h.eic he).1
  have hc : p.replyLog.replied = p.replyLog.sent := by
    have hc := h.conserved
    simp only [Bool.or_eq_true, beq_iff_eq] at ht
    obtain hp | h0 := ht
    · rw [if_pos hp] at hc
      simpa using hc
    · rw [h0] at hc
      simpa using hc
  refine step ⟨h.orderly, ?_, fun hp => by cases hp⟩ ?_ (fun h' => ⟨(h.ovf h').1, ho h'⟩) he
  · exact hc.trans (List.append_nil _).symm
  · exact ⟨⟨h.fault, Nat.zero_le _⟩, h.cmdLen, h.cmdPos, h.args⟩

/-- A timer interrupt that comes in time comes where asynchronous events are allowed. -/
theorem allowed_of_overflow (h : UartSafe p) (hd : p.ovf ≠ .masked)
    (ht : p.ovf ≠ .byDelayEnable ∨ p.asyncEventsAllowed) : p.asyncEventsAllowed := by
  obtain hne | ha := ht
  · have ho : p.ovf = .byAsyncEvents := by
      generalize p.ovf = o at hd hne
      cases o <;> simp_all
    exact (h.ovf ho).2.1
  · exact ha

/-- **Every event that can come keeps the invariant**, if it comes in time and begins no command
outside its limits. -/
theorem handle (h : UartSafe p) {e : PortEvent} (ha : p.accepts e) (hd : p.delivers e)
    (hok : p.fitting e) (ht : p.timely e) : UartSafe (p.handle e) := by
  cases e with
  | enable => exact h.enable (beq_iff_eq.1 hd)
  | disable => exact h.disable
  | outCompletion packet =>
    simp only [accepts, Bool.and_eq_true, decide_eq_true_eq] at ha
    exact h.outCompletion ha.2
  | inCompletion => exact h.inCompletion ht
  | dmaRx => exact h.asyncCompletion
  | dmaTx => exact h.asyncCompletion
  | sercom rxc err => exact h.handleSercomUartI2c rxc err
  | extint flags => exact h.handleExtint hd flags
  | tccOverflow =>
    have hd' : p.ovf ≠ .masked := bne_iff_ne.1 hd
    have ht' := Bool.or_eq_true_iff.1 ht
    have ha := h.allowed_of_overflow hd' (ht'.imp_left bne_iff_ne.1)
    exact h.uartSendData ha
  | iter => exact h.iter ha hok

theorem init (port : TesselPort) (answers : ℕ → BitVec 16) :
    UartSafe (PortData.init port answers) where
  orderly := by simp [PortData.init, Effect.orderly]
  conserved := rfl
  inFlight := fun h => by cases h
  toBounded := .init port answers
  ovf := fun h => by cases h
  eic := fun h => by cases h

end UartSafe

/-! ### Runs -/

/-- **Reports stand at reply boundaries.**  In every run of a port with its interrupts, a UART
packet is started only with no reply in flight and no DATA reply partly written, and the bytes put
into the reply are those passed to `bridge_start_in` followed by those still to be passed, if no
timer interrupt is taken through the mask of `tcc_delay_enable` where asynchronous events are not
allowed, no stale in-completion drops a reply and the replies stay within their bounds. -/
theorem reports_at_boundaries {port : TesselPort} {answers : ℕ → BitVec 16} {es : List PortEvent}
    (h : served.Run (fun p e => p.fitting e ∧ p.timely e) (PortData.init port answers) es p) :
    Reported p := by
  have hs : UartSafe p := h.invariant (.init port answers) fun q e q' hq hok hst => by
    obtain ⟨ha, hd, rfl⟩ := served_step_eq_some.1 hst
    exact hq.handle ha hd hok.1 hok.2
  exact hs.toReported

/-- A run that enables the UART and reports a received byte after the packet. -/
def reportRun : List PortEvent :=
  [.enable, .outCompletion [14, 0, 0], .iter, .iter, .iter, .iter, .sercom (some 0x55#8) false,
    .tccOverflow, .iter, .inCompletion, .iter]

theorem reports_at_boundaries_reportRun :
    ∃ p, served.exec (init portA fun _ => 0#16) reportRun = some p ∧
      p.replyLog = ⟨[0xD0#8, 0x01#8, 0x55#8], [0xD0#8, 0x01#8, 0x55#8]⟩ ∧ Reported p := by
  have h : (served.execOk (fun p e => p.fitting e && p.timely e) (init portA fun _ => 0#16)
      reportRun).map replyLog = some ⟨[0xD0#8, 0x01#8, 0x55#8], [0xD0#8, 0x01#8, 0x55#8]⟩ := by
    decide +kernel
  obtain ⟨p, hp, hlog⟩ := Option.map_eq_some_iff.1 h
  have hrun := Machine.run_of_execOk (fun p e => p.fitting e ∧ p.timely e)
    (fun _ _ h => by simpa using h) hp
  exact ⟨p, hrun.exec_eq, hlog, reports_at_boundaries hrun⟩

/-- A run that enables the UART in the packet that goes on with an ECHO, and in which the timer
overflows while the reply to that is in flight. -/
def inFlightRun : List PortEvent :=
  [PortEvent.enable, .outCompletion [14, 0, 0, 2, 3, 0x41]] ++ List.replicate 7 PortEvent.iter ++
    [PortEvent.sercom (some 0x55#8) false, .tccOverflow]

/-- Reports need not stand at reply boundaries: `CMD_ENABLE_UART` leaves the timer interrupt
unmasked, and a report is put into a DATA reply that has been passed to the bridge. -/
theorem report_in_flight :
    ¬ ∀ (port : TesselPort) (answers : ℕ → BitVec 16) (es : List PortEvent) (p : PortData),
      served.Run Machine.always (init port answers) es p → Reported p := by
  intro hall
  have h : (served.exec (init portA fun _ => 0#16) inFlightRun).map
      (fun p => decide (Effect.uartPacket true true ∈ p.effects)) = some true := by decide +kernel
  obtain ⟨p, hp, hmem⟩ := Option.map_eq_some_iff.1 h
  have ho := (hall _ _ _ p (Machine.run_of_exec hp)).orderly _ (of_decide_eq_true hmem)
  exact absurd ho.1 (by decide)

end PortData

end TesselFirmware
