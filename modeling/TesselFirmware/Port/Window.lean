import TesselFirmware.Port.Quiescence
import TesselFirmware.Port.Space

/-!
# Reports while the UART sends

A port that waits for a command with no reply in flight has an empty reply.  A TX command that is
under way allows asynchronous events too, but with the replies of the commands before it still in
`reply_buf`, and nothing is flushed until it is over: the reports of what is received meanwhile pile
up behind them.

* `UartWindow` : what was queued when asynchronous events came to be allowed, and how much has been
  received since; `reported` and `left` say what becomes of it;
* `PortData.roomy_iff` : in every run in which the timer interrupt makes no report where
  asynchronous events are not allowed, all calls of `uart_send_data` find enough space exactly if
  what is received while the UART sends fits behind what was queued before;
* `PortData.not_roomy_loopbackRun` : and it need not.
-/

namespace TesselFirmware

/-- The number of bytes in `reply_buf` and in `uart_buf` when asynchronous events came to be
allowed, and the number of bytes received since. -/
structure UartWindow where
  queued : ℕ
  buffered : ℕ
  received : ℕ
  deriving DecidableEq, Repr

namespace UartWindow

variable (w : UartWindow)

/-- All bytes, those that were in `uart_buf` before and those received. -/
def total : ℕ := w.buffered + w.received

/-- The number of bytes at which the first report is made: there is a new one, and `uart_buf` is
almost full. -/
def first : ℕ := max (w.buffered + 1) (uartRxSize - 3)

/-- The length of all reports: the first one has at most what `uart_buf` holds, the later ones have
29 bytes each. -/
def reported : ℕ :=
  if w.total < w.first then 0
  else min w.first uartRxSize + 2 + (uartRxSize - 1) * ((w.total - w.first) / (uartRxSize - 3))

/-- The number of bytes that have not been reported. -/
def left : ℕ := if w.total < w.first then w.total else (w.total - w.first) % (uartRxSize - 3)

/-- One more byte is received. -/
def receive : UartWindow := { w with received := w.received + 1 }

variable {w}

/-- A byte that fills `uart_buf` completes a report of all it holds. -/
theorem receive_full (hfull : uartRxSize - 4 < w.left + 1) :
    w.receive.left = 0 ∧
      w.receive.reported = w.reported + (min (w.left + 1) uartRxSize + 2) := by
  have hsize : uartRxSize = 32 := rfl
  unfold left reported first total receive at *
  simp only [hsize] at *
  constructor
  · split_ifs at hfull ⊢ <;> omega
  · split_ifs at hfull ⊢ <;> omega

/-- A byte that does not fill `uart_buf` waits in it. -/
theorem receive_waits (h : w.buffered ≤ uartRxSize) (hfull : ¬ uartRxSize - 4 < w.left + 1) :
    w.receive.left = w.left + 1 ∧ w.receive.reported = w.reported := by
  have hsize : uartRxSize = 32 := rfl
  unfold left reported first total receive at *
  simp only [hsize] at *
  constructor
  · split_ifs at hfull ⊢ <;> omega
  · split_ifs at hfull ⊢ <;> omega

/-- A window that has just been opened. -/
theorem opened (queued buffered : ℕ) :
    (UartWindow.mk queued buffered 0).reported = 0 ∧
      (UartWindow.mk queued buffered 0).left = buffered := by
  have hlt : (UartWindow.mk queued buffered 0).total < (UartWindow.mk queued buffered 0).first :=
    lt_of_lt_of_le (Nat.lt_succ_self _) (le_max_left _ _)
  exact ⟨if_pos hlt, if_pos hlt⟩

end UartWindow

namespace PortData

variable {p : PortData}

/-! ### The window -/

/-- The UART sends a part of a payload, and asynchronous events are allowed. -/
def sending (p : PortData) : Bool :=
  p.mode == .uart && p.state == .execAsync && p.asyncEventsAllowed

theorem sending_iff :
    p.sending ↔ p.mode = .uart ∧ p.state = .execAsync ∧ p.asyncEventsAllowed := by
  simp only [sending, Bool.and_eq_true, beq_iff_eq, and_assoc]

theorem state_step (p : PortData) : p.step.state = p.state := by
  unfold step
  split_ifs
  · rfl
  · rfl

theorem inUart_of_sending (h : p.sending) : p.inUart := by
  obtain ⟨hm, hst, -⟩ := sending_iff.1 h
  exact ⟨by rw [hst]; decide, hm⟩

/-- The event is a timer interrupt or the end of a reply, after which the window is another one. -/
def reopens : PortEvent → Bool
  | .tccOverflow | .inCompletion => true
  | _ => false

/-- The timer interrupt makes a report only where asynchronous events are allowed. -/
def guarded (p : PortData) : PortEvent → Bool
  | .tccOverflow => p.asyncEventsAllowed || p.uartBuf.bufLen == 0
  | _ => true

end PortData

/-- A port, and the window in which it is. -/
structure Windowed where
  port : PortData
  window : UartWindow

namespace Windowed

/-- The window stays open while the UART sends, and counts the received bytes. -/
def next (s : Windowed) (e : PortEvent) (q : PortData) : Windowed where
  port := q
  window :=
    if s.port.sending ∧ ¬ PortData.reopens e then
      { s.window with received := s.window.received + e.uartBytes.length }
    else ⟨q.replyLen, q.uartBuf.bufLen, 0⟩

/-- The port with its interrupts, and the window. -/
def machine : Machine Windowed PortEvent where
  step s e := (PortData.served.step s.port e).map (s.next e)

/-- The start of a run with its window. -/
def init (port : TesselPort) (answers : ℕ → BitVec 16) : Windowed where
  port := PortData.init port answers
  window := ⟨0, 0, 0⟩

/-- While the UART sends, the reports fit behind what was queued when the window was opened: those
of the bytes received since then, when one of them completes a report, and that of the rest, when
the timer interrupt comes. -/
def fits (s : Windowed) : PortEvent → Bool
  | .sercom (some _) _ =>
    !s.port.sending || s.window.receive.left != 0 ||
      s.window.queued + s.window.receive.reported ≤ bridgeBufSize
  | .tccOverflow =>
    !s.port.sending || s.window.left == 0 ||
      s.window.queued + s.window.reported + (s.window.left + 2) ≤ bridgeBufSize
  | _ => true

/-- The window says how far `reply_buf` and `uart_buf` are filled. -/
structure Tracked (s : Windowed) : Prop where
  replyLen : s.port.sending → s.port.replyLen = s.window.queued + s.window.reported
  bufLen : s.port.sending → s.port.uartBuf.bufLen = s.window.left
  buffered : s.window.buffered ≤ uartRxSize

variable {s s' : Windowed} {e : PortEvent}

theorem machine_step_eq_some :
    machine.step s e = some s' ↔ ∃ q, PortData.served.step s.port e = some q ∧ s.next e q = s' := by
  simp only [machine, Option.map_eq_some_iff]

/-- The window does not change what the port does. -/
theorem run_served {P : PortData → PortEvent → Prop} {es : List PortEvent}
    (h : machine.Run (fun s e => P s.port e) s es s') :
    PortData.served.Run P s.port es s'.port := by
  induction h with
  | nil => exact .nil
  | snoc _ hok hst ih =>
    obtain ⟨q, hq, rfl⟩ := machine_step_eq_some.1 hst
    exact ih.snoc hok hq

/-- Every run of a port has its windows. -/
theorem run_of_served {P : PortData → PortEvent → Prop} {es : List PortEvent} {q : PortData}
    (h : PortData.served.Run P s.port es q) :
    ∃ w, machine.Run (fun s e => P s.port e) s es ⟨q, w⟩ := by
  induction h with
  | nil => exact ⟨s.window, .nil⟩
  | snoc _ hok hst ih =>
    obtain ⟨w, hr⟩ := ih
    exact ⟨_, hr.snoc hok (machine_step_eq_some.2 ⟨_, hst, rfl⟩)⟩

theorem next_of_sending {q : PortData} (hs : s.port.sending) (hr : ¬ PortData.reopens e) :
    s.next e q =
      ⟨q, { s.window with received := s.window.received + e.uartBytes.length }⟩ := by
  rw [next, if_pos ⟨hs, hr⟩]

/-- A window that has just been opened. -/
theorem Tracked.opened {q : PortData} (hb : q.Buffered)
    (h : ¬ (s.port.sending ∧ ¬ PortData.reopens e)) : Tracked (s.next e q) := by
  have hnext : s.next e q = ⟨q, ⟨q.replyLen, q.uartBuf.bufLen, 0⟩⟩ := by
    rw [next, if_neg h]
  obtain ⟨hrep, hleft⟩ := UartWindow.opened q.replyLen q.uartBuf.bufLen
  rw [hnext]
  refine ⟨fun _ => ?_, fun _ => ?_, hb⟩
  · rw [hrep]
    rfl
  · exact hleft.symm

end Windowed

namespace PortData

variable {p : PortData}

/-! ### One event of a port that sends -/

/-- What happens other than the receipt of a byte leaves the reply and `uart_buf` as they are. -/
theorem kept_of_sending {e : PortEvent} (h : p.sending) (hd : p.delivers e) (hr : ¬ reopens e)
    (hb : e.uartBytes = []) (hq : (p.handle e).sending) :
    (p.handle e).replyLen = p.replyLen ∧ (p.handle e).uartBuf = p.uartBuf := by
  obtain ⟨hm, hst, ha⟩ := sending_iff.1 h
  -- the end of a part of the payload closes the window
  have hasync : ¬ p.asyncCompletion.sending := by
    intro hx
    have heq : p.asyncCompletion = p.transferred.step := if_pos hst
    have hne : p.payloadStatus.toState ≠ .execAsync := by
      unfold payloadStatus
      split_ifs <;> decide
    have hstate := (sending_iff.1 hx).2.1
    rw [heq, state_step] at hstate
    exact hne hstate
  cases e with
  | enable => exact absurd (hst.symm.trans (beq_iff_eq.1 hd)) (by decide)
  | disable => exact absurd ((state_disable p).symm.trans (sending_iff.1 hq).2.1) (by decide)
  | outCompletion packet => exact ⟨replyLen_step _, uartBuf_step _⟩
  | inCompletion => exact absurd rfl hr
  | dmaRx => exact absurd hq hasync
  | dmaTx => exact absurd hq hasync
  | sercom rxc err =>
    cases rxc with
    | some b => cases hb
    | none =>
      have heq : p.handle (.sercom none err) = p := by
        show p.handleSercomUartI2c none err = p
        unfold handleSercomUartI2c
        rw [hm]
      rw [heq]
      exact ⟨rfl, rfl⟩
  | extint flags =>
    have heq : p.handle (.extint flags) = p.error := if_neg (by rw [hst]; decide)
    rw [heq]
    exact ⟨rfl, rfl⟩
  | tccOverflow => exact absurd rfl hr
  | iter =>
    have htr : p.transfers.replyLen = p.replyLen ∧ p.transfers.uartBuf = p.uartBuf := by
      have hreq : p.requestPacket.replyLen = p.replyLen ∧ p.requestPacket.uartBuf = p.uartBuf := by
        unfold requestPacket
        split_ifs
        · exact ⟨rfl, rfl⟩
        · exact ⟨rfl, rfl⟩
      rw [transfers, flushReply]
      split_ifs
      · exact hreq
      · exact hreq
    have hsame : p.transfers.state = p.state := (Resting.control_transfers p).1
    show p.iter.replyLen = p.replyLen ∧ p.iter.uartBuf = p.uartBuf
    unfold iter
    split_ifs
    · unfold wait
      split_ifs
      · exact htr
      · exact htr
    · unfold dispatch
      rw [hsame, hst]
      exact htr

/-- A received byte that fills `uart_buf`, where asynchronous events are allowed. -/
theorem uartCall_of_full (hm : p.mode = .uart) (ha : p.asyncEventsAllowed) (hb : p.Buffered)
    (hfull : uartRxSize - 4 < p.uartBuf.bufLen + 1) (b : Byte) (err : Bool) :
    ∃ q, p.uartCall (.sercom (some b) err) = some q ∧ q.state = p.state ∧
      q.replyLen = p.replyLen ∧ q.uartBuf.bufLen = min (p.uartBuf.bufLen + 1) uartRxSize := by
  have hlen : ((p.act (.tccDelayStart (200 * 10))).uartPush b).uartBuf.bufLen =
      min (p.uartBuf.bufLen + 1) uartRxSize := bufLen_uartPush (p := p.act _) hb b
  have hsize : uartRxSize = 32 := rfl
  refine ⟨_, if_pos ⟨hm, ?_, ha⟩, rfl, rfl, hlen⟩
  rw [hlen]
  omega

/-- A received byte that does not fill `uart_buf`. -/
theorem uartCall_of_not_full (hb : p.Buffered) (hfull : ¬ uartRxSize - 4 < p.uartBuf.bufLen + 1)
    (b : Byte) (err : Bool) : p.uartCall (.sercom (some b) err) = none := by
  have hlen : ((p.act (.tccDelayStart (200 * 10))).uartPush b).uartBuf.bufLen =
      min (p.uartBuf.bufLen + 1) uartRxSize := bufLen_uartPush (p := p.act _) hb b
  refine if_neg fun h => hfull ?_
  have hlt := h.2.1
  rw [hlen] at hlt
  exact hlt.trans_le (min_le_left _ _)

/-- The byte waits in `uart_buf`. -/
theorem handle_of_not_full (hm : p.mode = .uart) (hb : p.Buffered)
    (hfull : ¬ uartRxSize - 4 < p.uartBuf.bufLen + 1) (b : Byte) (err : Bool) :
    (p.handle (.sercom (some b) err)).replyLen = p.replyLen ∧
      (p.handle (.sercom (some b) err)).uartBuf.bufLen = p.uartBuf.bufLen + 1 := by
  have hlen : ((p.act (.tccDelayStart (200 * 10))).uartPush b).uartBuf.bufLen =
      min (p.uartBuf.bufLen + 1) uartRxSize := bufLen_uartPush (p := p.act _) hb b
  have hsize : uartRxSize = 32 := rfl
  have heq : p.handle (.sercom (some b) err) =
      (p.act (.tccDelayStart (200 * 10))).uartPush b := by
    show p.handleSercomUartI2c (some b) err = _
    unfold handleSercomUartI2c
    rw [hm]
    refine if_neg fun h => ?_
    have hlt := h.1
    rw [hlen] at hlt
    omega
  rw [heq]
  refine ⟨rfl, hlen.trans ?_⟩
  omega

end PortData

namespace Windowed

open PortData

variable {s : Windowed} {q : PortData} {e : PortEvent}

/-- What happens other than the receipt of a byte. -/
theorem Tracked.other (h : Tracked s) (hs : s.port.sending) (hd : s.port.delivers e)
    (hr : ¬ reopens e) (hbytes : e.uartBytes = []) : Tracked ⟨s.port.handle e, s.window⟩ := by
  refine ⟨fun hq => ?_, fun hq => ?_, h.buffered⟩
  · exact (kept_of_sending hs hd hr hbytes hq).1.trans (h.replyLen hs)
  · exact (congrArg UartBuf.bufLen (kept_of_sending hs hd hr hbytes hq).2).trans (h.bufLen hs)

/-- A received byte waits in `uart_buf`, or it is reported with all that waits there. -/
theorem Tracked.receive (h : Tracked s) (hb : s.port.Buffered) (hs : s.port.sending) (b : Byte)
    (err : Bool) (hroom : s.port.Roomy (.sercom (some b) err)) :
    Tracked ⟨s.port.handle (.sercom (some b) err), s.window.receive⟩ := by
  obtain ⟨hm, -, ha⟩ := sending_iff.1 hs
  have hrep := h.replyLen hs
  have hbuf := h.bufLen hs
  by_cases hfull : uartRxSize - 4 < s.port.uartBuf.bufLen + 1
  · obtain ⟨r, hcall, -, hrl, hbl⟩ := uartCall_of_full hm ha hb hfull b err
    obtain ⟨heq, -⟩ := handle_of_uartCall hcall
    have hpos : 0 < r.uartBuf.bufLen := by
      rw [hbl]
      exact lt_min (Nat.succ_pos _) (by decide)
    obtain ⟨-, hbuf', hrep', -⟩ := uartSendData_of_space hpos (hroom.space r hcall hpos)
    rw [hbuf] at hfull
    obtain ⟨hleft, hreported⟩ := UartWindow.receive_full hfull
    rw [heq]
    refine ⟨fun _ => ?_, fun _ => ?_, h.buffered⟩
    · rw [hreported, hrep', hrl, hrep, hbl, hbuf, Nat.add_assoc]
      rfl
    · rw [hleft, hbuf']
  · obtain ⟨hrep', hbuf'⟩ := handle_of_not_full hm hb hfull b err
    rw [hbuf] at hfull
    obtain ⟨hleft, hreported⟩ := UartWindow.receive_waits h.buffered hfull
    refine ⟨fun _ => ?_, fun _ => ?_, h.buffered⟩
    · rw [hreported]
      exact hrep'.trans hrep
    · rw [hleft, ← hbuf]
      exact hbuf'

/-- **The window is kept up** by every event after which the port has not failed. -/
theorem Tracked.step (h : Tracked s) (hb : s.port.Buffered) (hst : served.step s.port e = some q)
    (hroom : s.port.inUart → s.port.Roomy e) : Tracked (s.next e q) := by
  obtain ⟨-, hd, rfl⟩ := served_step_eq_some.1 hst
  by_cases hsend : s.port.sending ∧ ¬ reopens e
  · obtain ⟨hs, hr⟩ := hsend
    rw [next_of_sending hs hr]
    rcases hbytes : e.uartBytes with _ | ⟨b, bs⟩
    · exact h.other hs hd hr hbytes
    · cases e <;> try cases hbytes
      case sercom rxc err =>
        cases rxc with
        | none => cases hbytes
        | some c =>
          cases hbytes
          exact h.receive hb hs b err (hroom (inUart_of_sending hs))
  · exact .opened (hb.handle e) hsend

/-- What holds in every state of a run with its window. -/
structure Kept (s : Windowed) : Prop where
  resting : s.port.Resting
  buffered : s.port.Buffered
  tracked : Tracked s

theorem Kept.init (port : TesselPort) (answers : ℕ → BitVec 16) : Kept (init port answers) := by
  have hs : ¬ (Windowed.init port answers).port.sending := fun h => Bool.false_ne_true h
  exact ⟨.init port answers, Nat.zero_le _,
    fun h => absurd h hs, fun h => absurd h hs, Nat.zero_le _⟩

theorem Kept.step {s' : Windowed} (h : Kept s) (hst : machine.step s e = some s')
    (hroom : s.port.inUart → s.port.Roomy e) : Kept s' := by
  obtain ⟨q, hq, rfl⟩ := machine_step_eq_some.1 hst
  have htrack := h.tracked.step h.buffered hq hroom
  obtain ⟨ha, -, rfl⟩ := served_step_eq_some.1 hq
  exact ⟨h.resting.handle ha, h.buffered.handle e, htrack⟩

/-- A port that does not send, where asynchronous events are allowed, waits for a command and has
an empty reply. -/
theorem Kept.space_of_not_sending (h : Kept s) (hu : s.port.inUart) (hsg : s.port.stepping = false)
    (hall : s.port.asyncEventsAllowed) (hs : ¬ s.port.sending) {n : ℕ} (hn : n ≤ uartRxSize) :
    n + 2 ≤ bridgeBufSize - s.port.replyLen := by
  have hst : s.port.state = .readCmd := by
    by_contra hst
    exact hs (sending_iff.2 ⟨hu.2, ((state_of_allowed hall).resolve_left hst).1, hall⟩)
  have hawake : s.port.awake := by
    rw [awake, hst]
    decide
  rw [h.resting.flushed hsg hawake (pendingIn_of_allowed hall)]
  have hsize : uartRxSize + 2 ≤ bridgeBufSize - 0 := by decide
  omega

/-- An event that leads to no call of `uart_send_data`. -/
theorem roomy_of_none (hu : s.port.inUart) (hcall : s.port.uartCall e = none) : s.port.Roomy e :=
  roomy_of_space hu fun q hq => by
    rw [hcall] at hq
    cases hq

/-- The timer interrupt. -/
theorem Kept.roomy_tccOverflow (h : Kept s) (hu : s.port.inUart) (hsg : s.port.stepping = false)
    (hg : s.port.guarded .tccOverflow) : s.port.Roomy .tccOverflow ↔ s.fits .tccOverflow := by
  have hspace : s.port.Roomy .tccOverflow ↔ (0 < s.port.uartBuf.bufLen →
      s.port.uartBuf.bufLen + 2 ≤ bridgeBufSize - s.port.replyLen) :=
    ⟨fun h => h.space _ rfl, fun h => roomy_of_space hu fun q hq => by
      obtain rfl := Option.some.inj hq
      exact h⟩
  rw [hspace]
  simp only [fits, Bool.or_eq_true, Bool.not_eq_true', beq_iff_eq, decide_eq_true_eq]
  by_cases hs : s.port.sending
  · rw [h.tracked.bufLen hs, h.tracked.replyLen hs]
    simp only [hs, Bool.true_eq_false, false_or]
    omega
  · refine iff_of_true (fun hpos => ?_) (.inl (.inl (Bool.eq_false_of_not_eq_true hs)))
    have hall : s.port.asyncEventsAllowed := by
      simp only [guarded, Bool.or_eq_true, beq_iff_eq] at hg
      exact hg.resolve_right (Nat.ne_of_gt hpos)
    exact h.space_of_not_sending hu hsg hall hs h.buffered

/-- A received byte that fills `uart_buf`, where asynchronous events are allowed. -/
theorem Kept.roomy_full (h : Kept s) (hu : s.port.inUart) (hsg : s.port.stepping = false)
    (hall : s.port.asyncEventsAllowed) (hfull : uartRxSize - 4 < s.port.uartBuf.bufLen + 1)
    (b : Byte) (err : Bool) :
    s.port.Roomy (.sercom (some b) err) ↔ s.fits (.sercom (some b) err) := by
  obtain ⟨r, hcall, -, hrl, hbl⟩ := uartCall_of_full hu.2 hall h.buffered hfull b err
  have hspace : s.port.Roomy (.sercom (some b) err) ↔
      min (s.port.uartBuf.bufLen + 1) uartRxSize + 2 ≤ bridgeBufSize - s.port.replyLen := by
    rw [← hbl, ← hrl]
    refine ⟨fun h => h.space r hcall ?_, fun h => roomy_of_space hu fun q hq _ => ?_⟩
    · rw [hbl]
      exact lt_min (Nat.succ_pos _) (by decide)
    · rw [hcall] at hq
      obtain rfl := Option.some.inj hq
      exact h
  rw [hspace]
  simp only [fits, Bool.or_eq_true, Bool.not_eq_true', bne_iff_ne, decide_eq_true_eq]
  by_cases hs : s.port.sending
  · rw [h.tracked.bufLen hs] at hfull ⊢
    obtain ⟨hleft, hreported⟩ := UartWindow.receive_full hfull
    rw [h.tracked.replyLen hs, hleft, hreported]
    simp only [hs, Bool.true_eq_false, ne_eq, not_true_eq_false, false_or]
    have hpos : 0 < min (s.window.left + 1) uartRxSize + 2 := Nat.succ_pos _
    omega
  · exact iff_of_true (h.space_of_not_sending hu hsg hall hs (min_le_right _ _))
      (.inl (.inl (Bool.eq_false_of_not_eq_true hs)))

/-- A received byte that leads to no report. -/
theorem Kept.fits_waits (h : Kept s) (hwait : s.port.sending → ¬ uartRxSize - 4 <
    s.port.uartBuf.bufLen + 1) (b : Byte) (err : Bool) : s.fits (.sercom (some b) err) := by
  simp only [fits, Bool.or_eq_true, Bool.not_eq_true', bne_iff_ne, decide_eq_true_eq]
  by_cases hs : s.port.sending
  · have hfull := hwait hs
    rw [h.tracked.bufLen hs] at hfull
    refine .inl (.inr ?_)
    rw [(UartWindow.receive_waits h.tracked.buffered hfull).1]
    exact Nat.succ_ne_zero _
  · exact .inl (.inl (Bool.eq_false_of_not_eq_true hs))

/-- **One event.**  Where the window is kept up, the call of `uart_send_data` finds space exactly if
the reports fit. -/
theorem Kept.roomy_iff_fits (h : Kept s) (hu : s.port.inUart) (ha : s.port.accepts e)
    (hg : s.port.guarded e) : s.port.Roomy e ↔ s.fits e := by
  cases e <;> try exact iff_of_true (roomy_of_none hu rfl) rfl
  case tccOverflow => exact h.roomy_tccOverflow hu (by simpa [accepts] using ha) hg
  case sercom rxc err =>
    have hsg : s.port.stepping = false := by simpa [accepts] using ha
    cases rxc with
    | none => exact iff_of_true (roomy_of_none hu rfl) rfl
    | some b =>
      by_cases hall : s.port.asyncEventsAllowed
      · by_cases hfull : uartRxSize - 4 < s.port.uartBuf.bufLen + 1
        · exact h.roomy_full hu hsg hall hfull b err
        · exact iff_of_true (roomy_of_none hu (uartCall_of_not_full h.buffered hfull b err))
            (h.fits_waits (fun _ => hfull) b err)
      · exact iff_of_true (roomy_of_none hu (if_neg fun hx => hall hx.2.2))
          (h.fits_waits (fun hs => absurd (sending_iff.1 hs).2.2 hall) b err)

end Windowed

namespace PortData

/-! ### Runs -/

/-- **Space for received bytes.**  In a run of a port with its interrupts in which the timer
interrupt makes no report where asynchronous events are not allowed, every call of `uart_send_data`
of the enabled port in the UART mode finds space for what has been received, and receiving does not
disable the port, exactly if the bytes received while a TX command is under way always fit, with
the heads of their reports, behind the replies that were queued when it began. -/
theorem roomy_iff {port : TesselPort} {answers : ℕ → BitVec 16} {es : List PortEvent} :
    served.Run (fun p e => p.inUart → p.guarded e ∧ p.Roomy e) (init port answers) es p ↔
      ∃ w, Windowed.machine.Run (fun s e => s.port.inUart → s.port.guarded e ∧ s.fits e)
        (Windowed.init port answers) es ⟨p, w⟩ := by
  have hiff (s : Windowed) (e : PortEvent) (s' : Windowed) (h : s.Kept)
      (hst : Windowed.machine.step s e = some s') (hu : s.port.inUart) :
      s.port.guarded e ∧ s.port.Roomy e ↔ s.port.guarded e ∧ s.fits e := by
    obtain ⟨q, hq, -⟩ := Windowed.machine_step_eq_some.1 hst
    exact and_congr_right fun hg => h.roomy_iff_fits hu (served_step_eq_some.1 hq).1 hg
  constructor
  · intro h
    obtain ⟨w, hr⟩ := Windowed.run_of_served (s := Windowed.init port answers) h
    have hfits : Windowed.machine.Run (fun s e => s.port.inUart → s.port.guarded e ∧ s.fits e)
        (Windowed.init port answers) es ⟨p, w⟩ ∧ Windowed.Kept ⟨p, w⟩ :=
      hr.strengthen (Windowed.Kept.init port answers) fun s e s' hk hok hst =>
        ⟨hk.step hst fun hu => (hok hu).2, fun hu => (hiff s e s' hk hst hu).1 (hok hu)⟩
    exact ⟨w, hfits.1⟩
  · rintro ⟨w, h⟩
    have hroomy : Windowed.machine.Run
        (fun s e => s.port.inUart → s.port.guarded e ∧ s.port.Roomy e)
        (Windowed.init port answers) es ⟨p, w⟩ ∧ Windowed.Kept ⟨p, w⟩ :=
      h.strengthen (Windowed.Kept.init port answers) fun s e s' hk hok hst =>
        have hok' := fun hu => (hiff s e s' hk hst hu).2 (hok hu)
        ⟨hk.step hst fun hu => (hok' hu).2, hok'⟩
    exact Windowed.run_served (P := fun p e => p.inUart → p.guarded e ∧ p.Roomy e) hroomy.1

/-- A run that enables the UART, replies with 231 bytes to an ECHO and starts a TX of one byte, all
in one packet; while that is under way 29 bytes are received. -/
def loopbackRun : List PortEvent :=
  [PortEvent.enable,
    .outCompletion ([14, 0, 0, 2, 230] ++ List.replicate 230 0x41#8 ++ [16, 1, 0x42])] ++
    List.replicate 10 PortEvent.iter ++ List.replicate 28 (PortEvent.sercom (some 0x55#8) false)

/-- Receiving can disable the port: the reply to the ECHO leaves no space for the report. -/
theorem not_roomy_loopbackRun :
    ¬ ∀ (port : TesselPort) (answers : ℕ → BitVec 16) (es : List PortEvent) (p : PortData),
      served.Run Machine.always (init port answers) es p → ∀ e, p.accepts e → p.delivers e →
        p.inUart → p.Roomy e := by
  intro hall
  have h : (served.exec (init portA fun _ => 0#16) loopbackRun).any (fun p =>
      decide (p.state ≠ .disable) && p.mode == .uart && p.accepts (.sercom (some 0x55#8) false) &&
        ((p.uartCall (.sercom (some 0x55#8) false)).any fun q =>
          q.uartBuf.bufLen == 29 && q.replyLen == 231)) := by decide +kernel
  obtain ⟨p, hp, hf⟩ := (Option.any_eq_true _ _).1 h
  simp only [Bool.and_eq_true, decide_eq_true_eq, beq_iff_eq] at hf
  obtain ⟨⟨⟨hd, hm⟩, ha⟩, hcall⟩ := hf
  obtain ⟨q, hq, hlen⟩ := (Option.any_eq_true _ _).1 hcall
  simp only [Bool.and_eq_true, beq_iff_eq] at hlen
  have hroom := (hall _ _ _ p (Machine.run_of_exec hp) _ ha rfl ⟨hd, hm⟩).space q hq
    (by rw [hlen.1]; decide)
  rw [hlen.1, hlen.2] at hroom
  exact absurd hroom (by decide)

end PortData

end TesselFirmware
