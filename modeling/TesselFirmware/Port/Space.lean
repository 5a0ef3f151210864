import TesselFirmware.Port.Error
import TesselFirmware.Port.Quiescence

/-!
# Space for UART reports

`uart_send_data` disables the port when what the UART has received does not fit into `reply_buf`.

* `PortData.Buffered` : the bound of `uart_buf`, in every reachable state;
* `PortData.uartCall` : where a handler calls `uart_send_data`;
* `PortData.uartSendData_of_space` : what a call that finds space does;
* `PortData.roomy_of_space` : receiving disables the port only for want of space.
-/

namespace TesselFirmware

/-- The bytes that the UART receives with an event. -/
def PortEvent.uartBytes : PortEvent → List Byte
  | .sercom (some b) _ => [b]
  | _ => []

namespace PortData

variable {p q : PortData}

/-! ### The received bytes -/

theorem frame_uartBuf : Frame (fun _ => True) fun p q => q.uartBuf = p.uartBuf :=
  .of_eq uartBuf (fun _ _ _ => rfl) (fun _ _ => rfl) (fun _ _ => rfl) (fun _ _ => rfl)
    (fun _ _ => rfl) (fun _ _ => rfl) fun _ _ => rfl

theorem uartBuf_step (p : PortData) : p.step.uartBuf = p.uartBuf := by
  unfold step
  split_ifs
  · rfl
  · rfl

theorem replyLen_step (p : PortData) : p.step.replyLen = p.replyLen := by
  unfold step
  split_ifs
  · rfl
  · rfl

theorem mode_step (p : PortData) : p.step.mode = p.mode := by
  unfold step
  split_ifs
  · rfl
  · rfl

theorem replied_step (p : PortData) : p.step.replied = p.replied := by
  unfold step
  split_ifs
  · rw [error, replied_emit]
    exact List.append_nil _
  · rfl

/-- There are at most as many received bytes as `uart_buf` holds. -/
def Buffered (p : PortData) : Prop := p.uartBuf.bufLen ≤ uartRxSize

namespace Buffered

theorem congr (h : p.Buffered) (hu : q.uartBuf = p.uartBuf) : q.Buffered := by
  rw [Buffered, hu]
  exact h

theorem begun (h : p.Buffered) : p.begun.Buffered := by
  show p.beginCmd.1.Buffered
  by_cases hc : PortCmd.plain p.opcode
  · exact h.congr (frame_uartBuf.beginCmd (fun _ _ => trivial) p hc)
  · rcases hop : p.opcode with _ | c
    · exact absurd (by rw [hop]; rfl) hc
    · cases c <;> simp only [hop, PortCmd.plain, not_true_eq_false] at hc <;>
        simp only [beginCmd, opcode_emit, hop]
      case enableUart => exact Nat.zero_le _
      all_goals exact h.congr rfl

theorem continued (h : p.Buffered) : p.continued.Buffered :=
  h.congr (frame_uartBuf.continueCmd (fun _ _ => trivial) (fun _ _ => trivial) (fun _ _ => rfl)
    (fun _ _ => rfl) p)

theorem step (h : p.Buffered) : p.step.Buffered := h.congr (uartBuf_step p)

theorem transfers (h : p.Buffered) : p.transfers.Buffered := by
  have hr : p.requestPacket.Buffered := by
    unfold requestPacket
    split_ifs
    · exact h
    · exact h
  rw [PortData.transfers, flushReply]
  split_ifs
  · exact hr
  · exact hr

theorem iter (h : p.Buffered) : p.iter.Buffered := by
  have ht := h.transfers
  unfold PortData.iter
  generalize p.transfers = q at ht ⊢
  split_ifs
  · unfold PortData.wait
    split_ifs
    · exact ht
    · exact ht
  · unfold dispatch
    cases q.state
    case disable => exact ht
    case execAsync => exact ht
    case exec => exact ht.continued
    case readCmd =>
      simp only [readCommand]
      split_ifs
      · exact ht
      · exact begun (p := q.fetchCmd) ht
    case readArg =>
      have harg : q.fetchArg.Buffered := ht.congr (by rw [fetchArg_eq])
      simp only [readArgument]
      split_ifs
      · exact ht
      · exact harg.begun
      · exact harg

theorem asyncCompletion (h : p.Buffered) : p.asyncCompletion.Buffered := by
  unfold PortData.asyncCompletion
  split_ifs
  · exact step (p := p.transferred) h
  · exact h

theorem uartSendData (h : p.Buffered) : p.uartSendData.Buffered := by
  unfold PortData.uartSendData
  dsimp only
  split_ifs
  · exact h
  · refine step ?_
    exact (Nat.sub_le _ _).trans (h.congr (frame_uartBuf.append (fun _ => trivial) _ _))
  · exact h

theorem uartPush (h : p.Buffered) (b : Byte) : (p.uartPush b).Buffered := by
  unfold Buffered PortData.uartPush
  dsimp only
  split_ifs with hlt
  · exact hlt
  · exact h

theorem handleSercomUartI2c (h : p.Buffered) (rxc : Option Byte) (err : Bool) :
    (p.handleSercomUartI2c rxc err).Buffered := by
  unfold PortData.handleSercomUartI2c
  split
  · split
    · next b =>
      have hpush : ((p.act (.tccDelayStart (200 * 10))).uartPush b).Buffered :=
        uartPush (p := p.act _) h b
      dsimp only
      split_ifs
      · exact hpush.uartSendData
      · exact hpush
    · exact h
  · dsimp only
    split_ifs
    · exact asyncCompletion (p := p.error) h
    · exact h.asyncCompletion
  · exact h
  · exact h

theorem handleExtint (h : p.Buffered) (flags : BitVec 32) : (p.handleExtint flags).Buffered := by
  unfold PortData.handleExtint
  split_ifs
  · exact step
      (h.congr (frame_uartBuf.foldl (frame_uartBuf.extintPin (fun _ _ => trivial) flags) p _))
  · exact h

theorem enable (h : p.Buffered) : p.enable.Buffered := by
  have hfold : ∀ q : PortData,
      ((List.range 8).foldl (fun p i => p.gpio .pullUp i) q).uartBuf = q.uartBuf :=
    fun q => frame_uartBuf.foldl (fun r _ => frame_uartBuf.gpio r trivial) q _
  exact h.congr (hfold _)

theorem disable (h : p.Buffered) : p.disable.Buffered := by
  have hfold : ((List.range 8).foldl disablePin p.stopped).uartBuf = p.stopped.uartBuf :=
    frame_uartBuf.foldl (frame_uartBuf.disablePin fun _ _ => trivial) _ _
  exact h.congr hfold

theorem handle (h : p.Buffered) (e : PortEvent) : (p.handle e).Buffered := by
  cases e with
  | enable => exact h.enable
  | disable => exact h.disable
  | outCompletion packet => exact step (p := { p.receivePacket packet with
      pendingOut := false, cmdLen := packet.length % 256, cmdPos := 0 }) h
  | inCompletion => exact step (p := { p with pendingIn := false, replyLen := 0 }) h
  | dmaRx => exact h.asyncCompletion
  | dmaTx => exact h.asyncCompletion
  | sercom rxc err => exact h.handleSercomUartI2c rxc err
  | extint flags => exact h.handleExtint flags
  | tccOverflow => exact h.uartSendData
  | iter => exact h.iter

end Buffered

/-! ### Calls of `uart_send_data` -/

/-- The state in which the handler of an event calls `uart_send_data`, if it does. -/
def uartCall (p : PortData) : PortEvent → Option PortData
  | .tccOverflow => some p
  | .sercom (some b) _ =>
    let q := (p.act (.tccDelayStart (200 * 10))).uartPush b
    if p.mode = .uart ∧ uartRxSize - 4 < q.uartBuf.bufLen ∧ q.asyncEventsAllowed then some q
    else none
  | _ => none

/-- The event is a received byte, or the overflow of the timer that follows it. -/
def receives : PortEvent → Bool
  | .tccOverflow | .sercom (some _) _ => true
  | _ => false

/-- Every call of `uart_send_data` finds space for what has been received, and receiving does not
disable the port. -/
structure Roomy (p : PortData) (e : PortEvent) : Prop where
  space : ∀ q, p.uartCall e = some q → 0 < q.uartBuf.bufLen →
    q.uartBuf.bufLen + 2 ≤ bridgeBufSize - q.replyLen
  calm : receives e → Emits Effect.calm p (p.handle e)

/-- A call of `uart_send_data` that finds space puts all of `uart_buf` into the reply, behind a
header. -/
theorem uartSendData_of_space (hpos : 0 < p.uartBuf.bufLen)
    (hspace : p.uartBuf.bufLen + 2 ≤ bridgeBufSize - p.replyLen) :
    p.uartSendData.mode = p.mode ∧
      p.uartSendData.uartBuf = { p.uartBuf with
        tail := (p.uartBuf.tail + p.uartBuf.bufLen) % uartRxSize
        bufLen := 0 } ∧
      p.uartSendData.replyLen = p.replyLen + (p.uartBuf.bufLen + 2) ∧
      p.uartSendData.replied = p.replied ++
        replyAsyncUartRx :: BitVec.ofNat 8 p.uartBuf.bufLen :: p.uartBytes p.uartBuf.bufLen := by
  have hcount : (p.uartBytes p.uartBuf.bufLen).length = p.uartBuf.bufLen := by
    rw [uartBytes, List.length_map, List.length_range]
  unfold uartSendData
  dsimp only
  rw [if_pos hpos, if_neg (Nat.not_lt.2 hspace), mode_step, uartBuf_step, replyLen_step,
    replied_step]
  generalize hpacket : replyAsyncUartRx :: BitVec.ofNat 8 p.uartBuf.bufLen ::
    p.uartBytes p.uartBuf.bufLen = packet
  have hlen : packet.length = p.uartBuf.bufLen + 2 := by
    rw [← hpacket, List.length_cons, List.length_cons, hcount]
  have hfit : p.replyLen + packet.length ≤ bridgeBufSize := by
    rw [hlen]
    omega
  have happ : Appended packet (p.emit (.uartPacket p.pendingIn p.dataOpen)) _ :=
    appended_append packet hfit
  have hmode := mode_append (p.emit (.uartPacket p.pendingIn p.dataOpen)) packet
  have hbuf := frame_uartBuf.append (fun _ => trivial) packet
    (p.emit (.uartPacket p.pendingIn p.dataOpen))
  generalize (p.emit (.uartPacket p.pendingIn p.dataOpen)).append packet = q at happ hmode hbuf
  replace hbuf : q.uartBuf = p.uartBuf := hbuf
  refine ⟨hmode, ?_, happ.replyLen.trans (by rw [hlen]; rfl), ?_⟩
  · show { q.uartBuf with
      tail := (q.uartBuf.tail + p.uartBuf.bufLen) % uartRxSize
      bufLen := q.uartBuf.bufLen - p.uartBuf.bufLen } = _
    rw [hbuf, Nat.sub_self]
  · refine happ.replied.trans ?_
    rw [replied_emit]
    exact congrArg (· ++ packet) (List.append_nil _)

/-- The port is enabled, in the UART mode. -/
def inUart (p : PortData) : Prop := p.state ≠ .disable ∧ p.mode = .uart

/-- A report that fits disables nothing. -/
theorem calm_uartSendData (hd : p.state ≠ .disable)
    (hspace : 0 < p.uartBuf.bufLen → p.uartBuf.bufLen + 2 ≤ bridgeBufSize - p.replyLen) :
    Emits Effect.calm p p.uartSendData := by
  have hR : ∀ b, Effect.calm (.reply b) := fun b h => Effect.noConfusion h
  unfold uartSendData
  dsimp only
  split_ifs with hpos hfull
  · exact absurd (hspace hpos) (Nat.not_le.2 hfull)
  · generalize (replyAsyncUartRx :: BitVec.ofNat 8 p.uartBuf.bufLen ::
      p.uartBytes p.uartBuf.bufLen) = packet
    have hem : Emits Effect.calm p ((p.emit (.uartPacket p.pendingIn p.dataOpen)).append packet) :=
      (Emits.emit p fun h => Effect.noConfusion h).trans (Emits.append hR _ packet)
    have hst : ((p.emit (.uartPacket p.pendingIn p.dataOpen)).append packet).state ≠ .disable :=
      (congrArg Control.state (control_append _ packet)).trans_ne hd
    generalize (p.emit (.uartPacket p.pendingIn p.dataOpen)).append packet = q at hem hst
    have hstep : (q.uartTaken p.uartBuf.bufLen).step =
        { (q.uartTaken p.uartBuf.bufLen).disableAsyncEvents with stepping := true } := if_neg hst
    rw [hstep]
    exact hem.congr_right rfl
  · exact .refl p

/-- A call of `uart_send_data` is all that the handler does with the reply. -/
theorem handle_of_uartCall {e : PortEvent} (h : p.uartCall e = some q) :
    p.handle e = q.uartSendData ∧ Emits Effect.calm p q ∧ q.state = p.state ∧
      q.replyLen = p.replyLen := by
  cases e <;> simp only [uartCall, Option.some.injEq, reduceCtorEq] at h
  case tccOverflow =>
    subst h
    exact ⟨rfl, .refl p, rfl, rfl⟩
  case sercom rxc err =>
    cases rxc with
    | none => simp only [reduceCtorEq] at h
    | some b =>
      simp only [Option.ite_none_right_eq_some, Option.some.injEq] at h
      obtain ⟨⟨hm, hfull, hall⟩, rfl⟩ := h
      refine ⟨?_, ?_, rfl, rfl⟩
      · show p.handleSercomUartI2c (some b) err = _
        unfold handleSercomUartI2c
        simp only [hm]
        exact if_pos ⟨hfull, hall⟩
      · exact (Emits.emit p fun hx => Effect.noConfusion hx).congr_right rfl

/-- Receiving without a call of `uart_send_data`. -/
theorem calm_of_uartCall_none {e : PortEvent} (hm : p.mode = .uart) (hr : receives e)
    (h : p.uartCall e = none) : Emits Effect.calm p (p.handle e) := by
  cases e <;> simp only [receives, Bool.false_eq_true] at hr
  case tccOverflow => simp only [uartCall, reduceCtorEq] at h
  case sercom rxc err =>
    cases rxc with
    | none => simp only [Bool.false_eq_true] at hr
    | some b =>
      simp only [uartCall] at h
      show Emits Effect.calm p (p.handleSercomUartI2c (some b) err)
      unfold handleSercomUartI2c
      simp only [hm]
      rw [if_neg fun hc => absurd h (by rw [if_pos ⟨hm, hc⟩]; exact Option.some_ne_none _)]
      exact (Emits.emit p fun hx => Effect.noConfusion hx).congr_right rfl

/-- Receiving disables the port only where there is no space. -/
theorem roomy_of_space {e : PortEvent} (hu : p.inUart)
    (h : ∀ q, p.uartCall e = some q → 0 < q.uartBuf.bufLen →
      q.uartBuf.bufLen + 2 ≤ bridgeBufSize - q.replyLen) : p.Roomy e := by
  refine ⟨h, fun hr => ?_⟩
  rcases hcall : p.uartCall e with _ | q
  · exact calm_of_uartCall_none hu.2 hr hcall
  · obtain ⟨heq, hem, hst, -⟩ := handle_of_uartCall hcall
    rw [heq]
    exact hem.trans (calm_uartSendData (by rw [hst]; exact hu.1) (h q hcall))

/-- The number of received bytes after one more. -/
theorem bufLen_uartPush (h : p.Buffered) (b : Byte) :
    (p.uartPush b).uartBuf.bufLen = min (p.uartBuf.bufLen + 1) uartRxSize := by
  have hle : p.uartBuf.bufLen ≤ uartRxSize := h
  unfold uartPush
  dsimp only
  split_ifs <;> omega

end PortData

end TesselFirmware
