import TesselFirmware.Memory.Ring
import TesselFirmware.Node.Readable
import TesselFirmware.Port.Space

/-!
# The receive buffer of the UART (`port.c`)

`uart_buf` keeps its head, its tail and its length apart; a byte is received into it and pushes out
the oldest one when it is full, and `uart_send_data` empties it into the reply.

* `UartRun.fifo` : in every run after `CMD_ENABLE_UART` in which the reports have space, the fields
  of `uart_buf` agree, and each call of `uart_send_data` that finds something there reports the last
  32 bytes that were received since the one before, which the host reads as these bytes.
-/

namespace TesselFirmware

/-- A report, with the bytes that had been received since the one before. -/
structure UartReport where
  received : List Byte
  bytes : List Byte
  deriving DecidableEq, Repr

/-- The bytes that have been received since the last report, and all reports. -/
structure UartLog where
  since : List Byte
  reports : List UartReport
  deriving DecidableEq, Repr

namespace UartLog

/-- Some bytes are received, and then they are reported with `report`, or not yet. -/
def next (l : UartLog) (received : List Byte) : Option (List Byte) → UartLog
  | some report => ⟨[], l.reports ++ [⟨l.since ++ received, report⟩]⟩
  | none => { l with since := l.since ++ received }

end UartLog

namespace PortData

variable {p q : PortData} {since : List Byte} {l : UartLog}

/-- What the port has put into the reply on the way from `p` to `q`. -/
def repliedSince (p q : PortData) : List Byte := q.replied.drop p.replied.length

/-- A call of `uart_send_data` succeeds. -/
def Succeeds (p : PortData) (e : PortEvent) : Prop :=
  ∀ q, p.uartCall e = some q → 0 < q.uartBuf.bufLen →
    q.uartBuf.bufLen + 2 ≤ bridgeBufSize - q.replyLen

/-- What a call of `uart_send_data` with something to report has put into the reply, if the event
leads to one. -/
def flushed (p : PortData) (e : PortEvent) : Option (List Byte) :=
  (p.uartCall e).bind fun q =>
    if 0 < q.uartBuf.bufLen then some (p.repliedSince (p.handle e)) else none

/-- The runs of a port after `CMD_ENABLE_UART`, as far as they matter for `uart_buf`. -/
inductive UartRun : PortData → UartLog → Prop
  | enable (p : PortData) (h : p.opcode = some .enableUart) : UartRun p.beginCmd.1 ⟨[], []⟩
  /-- A byte is received, or the timeout is over; every call of `uart_send_data` is a report. -/
  | receive {p : PortData} {l : UartLog} (h : UartRun p l) (e : PortEvent) (he : receives e)
      (hspace : p.Succeeds e) :
      UartRun (p.handle e) (l.next e.uartBytes (p.flushed e))
  /-- The port does something else. -/
  | other {p : PortData} {l : UartLog} (h : UartRun p l) (q : PortData)
      (hbuf : q.uartBuf = p.uartBuf) (hmode : q.mode = .uart) : UartRun q l

end PortData

/-- `uart_buf` has the last bytes that were received. -/
structure UartBuf.Recent (u : UartBuf) (since : List Byte) : Prop where
  holds : Ring.Holds (· = ·) uartRxSize u.rx.get u.tail (Ring.last uartRxSize since)
  bufLen : u.bufLen = (Ring.last uartRxSize since).length
  head : u.head = (u.tail + u.bufLen) % uartRxSize

/-- There was something to report; the report has the last bytes that were received, their number,
and nothing else, and the host takes it for these bytes. -/
structure UartReport.Exact (r : UartReport) : Prop where
  received : r.received ≠ []
  bytes : ∃ count : Byte, r.bytes = replyAsyncUartRx :: count :: Ring.last uartRxSize r.received ∧
    count.toNat = (Ring.last uartRxSize r.received).length
  parsed : ∀ (program : Node.Program) (c : Node.Client) (rest : List Byte), c.uart →
    Node.Reader.pass program ⟨r.bytes ++ rest, c⟩ =
      .again ⟨rest, c.tell program (.uart (Ring.last uartRxSize r.received))⟩

namespace PortData

variable {p q : PortData} {since : List Byte} {l : UartLog}

/-! ### The operations on the buffer -/

theorem length_last_le (since : List Byte) : (Ring.last uartRxSize since).length ≤ uartRxSize := by
  rw [Ring.length_last]
  exact Nat.min_le_right _ _

/-- A received byte. -/
theorem recent_uartPush (h : p.uartBuf.Recent since) (b : Byte) :
    (p.uartPush b).uartBuf.Recent (since ++ [b]) := by
  have hlen : uartRxSize = 32 := rfl
  have hle := length_last_le since
  have htail := h.holds.read_lt
  have hhead : p.uartBuf.head < uartRxSize := by
    rw [h.head]
    exact Nat.mod_lt _ (by omega)
  have hcell : (p.uartPush b).uartBuf.rx.get = Function.update p.uartBuf.rx.get
      ((p.uartBuf.tail + (Ring.last uartRxSize since).length) % uartRxSize) b := by
    funext k
    rw [← h.bufLen, ← h.head]
    show (p.uartBuf.rx.write p.uartBuf.head [b]).get k = _
    rw [Cells.get_write_singleton, Function.update_apply]
    exact if_congr (and_iff_left hhead) rfl rfl
  have hlast := h.holds.last_concat (b := b) rfl
  rw [← hcell, ← h.bufLen] at hlast
  have hbuf := h.bufLen
  have hhead' := h.head
  have hsince := Ring.length_last uartRxSize since
  have hsince' := Ring.length_last uartRxSize (since ++ [b])
  rw [List.length_append, List.length_singleton] at hsince'
  refine ⟨hlast, ?_, ?_⟩
  · show ite (_ < uartRxSize) _ _ = _
    split_ifs
    · omega
    · omega
  · show (p.uartBuf.head + 1) % uartRxSize =
      (ite (p.uartBuf.bufLen < uartRxSize) _ _ + ite (p.uartBuf.bufLen < uartRxSize) _ _) %
        uartRxSize
    rw [hlen] at hhead' htail hle ⊢
    split_ifs
    · omega
    · omega

/-- `uart_buf` is empty. -/
theorem recent_nil {u : UartBuf} (htail : u.tail < uartRxSize) (hlen : u.bufLen = 0)
    (hhead : u.head = u.tail) : u.Recent [] := by
  refine ⟨Ring.Holds.nil htail, hlen, ?_⟩
  rw [hlen, Nat.add_zero, Nat.mod_eq_of_lt htail, hhead]

/-- A call of `uart_send_data` with something to report. -/
theorem uartSendData_report (h : p.uartBuf.Recent since) (hpos : 0 < p.uartBuf.bufLen)
    (hspace : p.uartBuf.bufLen + 2 ≤ bridgeBufSize - p.replyLen) :
    p.uartSendData.mode = p.mode ∧ p.uartSendData.uartBuf.Recent [] ∧
      p.uartSendData.replied = p.replied ++
        replyAsyncUartRx :: BitVec.ofNat 8 p.uartBuf.bufLen :: Ring.last uartRxSize since := by
  have hbytes : p.uartBytes p.uartBuf.bufLen = Ring.last uartRxSize since := by
    refine (h.holds.collect h.bufLen.le).trans ?_
    rw [h.bufLen, List.take_length]
  obtain ⟨hmode, hbuf, -, hreplied⟩ := uartSendData_of_space hpos hspace
  refine ⟨hmode, ?_, ?_⟩
  · rw [hbuf]
    exact recent_nil (Nat.mod_lt _ (by decide)) rfl h.head
  · rw [hreplied, hbytes]

/-! ### One event -/

/-- What the run has been so far. -/
structure Receiving (p : PortData) (l : UartLog) : Prop where
  mode : p.mode = .uart
  recent : p.uartBuf.Recent l.since
  exact : ∀ r ∈ l.reports, r.Exact

theorem repliedSince_append {bs : List Byte} (h : q.replied = p.replied ++ bs) :
    p.repliedSince q = bs := by
  rw [repliedSince, h, List.drop_left]

/-- What `uart_send_data` puts into the reply is read by the host as it was meant. -/
theorem exact_report (since : List Byte) {n : ℕ} (hn : n = (Ring.last uartRxSize since).length)
    (hpos : 0 < n) : UartReport.Exact
      ⟨since, replyAsyncUartRx :: BitVec.ofNat 8 n :: Ring.last uartRxSize since⟩ := by
  have hlen : uartRxSize = 32 := rfl
  have hle := length_last_le since
  have hlt : (Ring.last uartRxSize since).length < 256 := by omega
  subst hn
  refine ⟨fun hnil => ?_, ⟨_, rfl, ?_⟩, fun program c rest hc => ?_⟩
  · rw [Ring.length_last, show since = [] from hnil] at hpos
    exact absurd hpos (by decide)
  · rw [BitVec.toNat_ofNat]
    exact Nat.mod_eq_of_lt hlt
  · have hfit : Node.Message.Fits c.replyQueue (.uart (Ring.last uartRxSize since)) := hlt
    refine (Node.Reader.pass_message hfit rest).trans ?_
    show Node.Pass.again ⟨rest, ite _ _ _⟩ = _
    rw [if_pos hc]

/-- A call of `uart_send_data` with something to report, after some bytes have been received. -/
theorem Receiving.uartSendData (hmode : p.mode = .uart)
    (hrecent : p.uartBuf.Recent (l.since ++ since)) (hexact : ∀ r ∈ l.reports, r.Exact)
    (hpos : 0 < p.uartBuf.bufLen)
    (hspace : p.uartBuf.bufLen + 2 ≤ bridgeBufSize - p.replyLen) :
    Receiving p.uartSendData (l.next since (some (p.repliedSince p.uartSendData))) := by
  obtain ⟨hmode', hrecent', hreplied⟩ := uartSendData_report hrecent hpos hspace
  rw [repliedSince_append hreplied]
  refine ⟨hmode'.trans hmode, hrecent', fun r hr => ?_⟩
  rcases List.mem_append.1 hr with hr | hr
  · exact hexact r hr
  · obtain rfl := List.mem_singleton.1 hr
    exact exact_report (l.since ++ since) hrecent.bufLen hpos

theorem repliedSince_congr {r : PortData} (h : q.replied = p.replied) :
    p.repliedSince r = q.repliedSince r := by
  rw [repliedSince, repliedSince, h]

/-- **One event**: a received byte goes behind the others, and a report has all of them. -/
theorem Receiving.handle (h : Receiving p l) {e : PortEvent} (he : receives e)
    (hspace : p.Succeeds e) :
    Receiving (p.handle e) (l.next e.uartBytes (p.flushed e)) := by
  cases e <;> simp only [receives, Bool.false_eq_true] at he
  case tccOverflow =>
    have hrecent : p.uartBuf.Recent (l.since ++ []) := by
      rw [List.append_nil]
      exact h.recent
    have hflushed : p.flushed .tccOverflow =
        if 0 < p.uartBuf.bufLen then some (p.repliedSince p.uartSendData) else none := rfl
    rw [hflushed]
    show Receiving p.uartSendData (l.next [] _)
    split_ifs with hpos
    · exact uartSendData h.mode hrecent h.exact hpos (hspace p rfl hpos)
    · have hsame : p.uartSendData = p := if_neg hpos
      rw [hsame]
      exact ⟨h.mode, hrecent, h.exact⟩
  case sercom rxc err =>
    cases rxc with
    | none => simp only [Bool.false_eq_true] at he
    | some b =>
      have hpush := recent_uartPush (p := p.act (.tccDelayStart (200 * 10))) h.recent b
      have hreplied : ((p.act (.tccDelayStart (200 * 10))).uartPush b).replied = p.replied := by
        refine (replied_emit p _).trans ?_
        exact List.append_nil _
      show Receiving (p.handleSercomUartI2c (some b) err) (l.next [b] (p.flushed _))
      by_cases hcall :
          uartRxSize - 4 < ((p.act (.tccDelayStart (200 * 10))).uartPush b).uartBuf.bufLen ∧
            ((p.act (.tccDelayStart (200 * 10))).uartPush b).asyncEventsAllowed
      · have hq : p.uartCall (.sercom (some b) err) =
            some ((p.act (.tccDelayStart (200 * 10))).uartPush b) := if_pos ⟨h.mode, hcall⟩
        have hpos : 0 < ((p.act (.tccDelayStart (200 * 10))).uartPush b).uartBuf.bufLen :=
          Nat.zero_lt_of_lt hcall.1
        have heq : p.handleSercomUartI2c (some b) err =
            ((p.act (.tccDelayStart (200 * 10))).uartPush b).uartSendData :=
          (handle_of_uartCall hq).1
        have hflushed : p.flushed (.sercom (some b) err) =
            some (p.repliedSince (p.handleSercomUartI2c (some b) err)) := by
          rw [flushed, hq]
          exact if_pos hpos
        rw [hflushed, heq, repliedSince_congr hreplied]
        exact uartSendData h.mode hpush h.exact hpos (hspace _ hq hpos)
      · have hq : p.uartCall (.sercom (some b) err) = none := if_neg fun hx => hcall hx.2
        have hflushed : p.flushed (.sercom (some b) err) = none := by
          rw [flushed, hq]
          rfl
        have heq : p.handleSercomUartI2c (some b) err =
            (p.act (.tccDelayStart (200 * 10))).uartPush b := by
          unfold handleSercomUartI2c
          rw [h.mode]
          exact if_neg hcall
        rw [hflushed, heq]
        exact ⟨h.mode, hpush, h.exact⟩

theorem receiving_enable (h : p.opcode = some .enableUart) : Receiving p.beginCmd.1 ⟨[], []⟩ := by
  refine ⟨?_, ?_, fun r hr => absurd hr List.not_mem_nil⟩
  · simp only [beginCmd, opcode_emit, h]
  · simp only [beginCmd, opcode_emit, h]
    have hzero : 0 < uartRxSize := by decide
    exact recent_nil hzero rfl rfl

theorem UartRun.receiving (h : UartRun p l) : Receiving p l := by
  induction h with
  | enable p h => exact receiving_enable h
  | receive _ e he hspace ih => exact ih.handle he hspace
  | other _ q hbuf hmode ih => exact ⟨hmode, hbuf ▸ ih.recent, ih.exact⟩

/-- **The receive buffer is a queue that drops the oldest bytes.**  In every run after
`CMD_ENABLE_UART` in which the reports succeed, with other actions of the port at any place: the
head, the tail and the length of `uart_buf` agree, it holds the last 32 bytes that were received
since the last report, and what each call of `uart_send_data` has reported is exact. -/
theorem UartRun.fifo (h : UartRun p l) :
    p.uartBuf.head = (p.uartBuf.tail + p.uartBuf.bufLen) % uartRxSize ∧
      p.uartBuf.bufLen ≤ uartRxSize ∧
      p.uartBytes p.uartBuf.bufLen = Ring.last uartRxSize l.since ∧
      ∀ r ∈ l.reports, r.Exact := by
  obtain ⟨-, hrecent, hexact⟩ := h.receiving
  refine ⟨hrecent.head, ?_, ?_, hexact⟩
  · rw [hrecent.bufLen]
    exact length_last_le l.since
  · refine (hrecent.holds.collect hrecent.bufLen.le).trans ?_
    rw [hrecent.bufLen, List.take_length]

/-- A port that is about to execute `CMD_ENABLE_UART`. -/
def enabling : PortData := { PortData.init portA fun _ => 0#16 with cmd := 14#8 }

/-- Two bytes are received, and reported when the timeout is over. -/
theorem UartRun.fifo_twoBytes :
    ∃ p, UartRun p ⟨[], [⟨[0x68#8, 0x69#8], [0xD0#8, 2#8, 0x68#8, 0x69#8]⟩]⟩ ∧
      ∀ r ∈ [UartReport.mk [0x68#8, 0x69#8] [0xD0#8, 2#8, 0x68#8, 0x69#8]], r.Exact := by
  have hspace (p : PortData) (e : PortEvent) (h : p.uartCall e = none) : p.Succeeds e := by
    intro q hq
    rw [h] at hq
    cases hq
  have h := (((UartRun.enable enabling rfl).receive (.sercom (some 0x68#8) false) rfl
    (hspace _ _ rfl)).receive (.sercom (some 0x69#8) false) rfl (hspace _ _ rfl)).receive
      .tccOverflow rfl fun q hq _ => by
        obtain rfl := Option.some.inj hq
        decide
  exact ⟨_, h, h.fifo.2.2.2⟩

end PortData

end TesselFirmware
