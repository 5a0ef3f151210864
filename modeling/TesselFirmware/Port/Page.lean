import TesselFirmware.Port.Effects

/-!
# Who wrote `reply_buf`

The reply of a port as far as sessions are concerned: which session is running, in which session
each cell of `reply_buf` was written last, and how long the reply is.  Every handler changes this
`Page` only by appending bytes, apart from `port_enable`, which starts a session, and
`port_bridge_in_completion`, which empties the reply.

* `PortData.pushed_handle` : what a handler does to the page;
* `PortData.emits_handle` : a handler passes nothing but the reply to `bridge_start_in`.
-/

namespace TesselFirmware

/-- The running session, the sessions in which the cells of `reply_buf` were written, and
`reply_len`. -/
structure Page where
  session : ℕ
  stamps : Cells ℕ bridgeBufSize
  len : ℕ

namespace Page

/-- A byte is appended to the reply. -/
def push (g : Page) : Page :=
  { g with stamps := g.stamps.write g.len [g.session], len := (g.len + 1) % 256 }

/-- Bytes are appended to the reply. -/
inductive Pushed (g : Page) : Page → Prop
  | refl : Pushed g g
  | push {h : Page} : Pushed g h → Pushed g h.push

/-- The first `n` cells of `reply_buf` were written in the running session. -/
def Owned (g : Page) (n : ℕ) : Prop := ∀ k < n, g.stamps.get k = g.session

/-- The reply was written in the running session. -/
structure Sound (g : Page) : Prop where
  owned : g.Owned g.len
  len : g.len ≤ bridgeBufSize

variable {g h k : Page} {n : ℕ}

theorem Pushed.trans (hgh : Pushed g h) (hhk : Pushed h k) : Pushed g k := by
  induction hhk with
  | refl => exact hgh
  | push _ ih => exact ih.push

theorem Pushed.session_eq (hgh : Pushed g h) : h.session = g.session := by
  induction hgh with
  | refl => rfl
  | push _ ih => exact ih

theorem Owned.mono {m : ℕ} (hn : g.Owned n) (hm : m ≤ n) : g.Owned m :=
  fun k hk => hn k (by omega)

theorem owned_zero (g : Page) : g.Owned 0 := fun k hk => absurd hk (Nat.not_lt_zero k)

/-- Appending a byte takes no cell away from the running session. -/
theorem Owned.push (hn : g.Owned n) : g.push.Owned n := by
  intro k hk
  have hwrite := g.stamps.get_write_singleton g.len g.session k
  show (g.stamps.write g.len [g.session]).get k = g.session
  rw [hwrite]
  split_ifs
  · rfl
  · exact hn k hk

theorem Owned.pushed (hgh : Pushed g h) (hn : g.Owned n) : h.Owned n := by
  induction hgh with
  | refl => exact hn
  | push _ ih => exact ih.push

theorem Sound.push (hg : g.Sound) : g.push.Sound := by
  have hb : bridgeBufSize = 255 := rfl
  have hl := hg.len
  refine ⟨fun k hk => ?_, ?_⟩
  · have hk' : k < (g.len + 1) % 256 := hk
    show (g.stamps.write g.len [g.session]).get k = g.session
    rw [g.stamps.get_write_singleton]
    split_ifs with heq
    · rfl
    · refine hg.owned k ?_
      by_contra hge
      exact heq ⟨by omega, by omega⟩
  · show (g.len + 1) % 256 ≤ bridgeBufSize
    omega

theorem Sound.pushed (hgh : Pushed g h) (hg : g.Sound) : h.Sound := by
  induction hgh with
  | refl => exact hg
  | push _ ih => exact ih.push

/-- What an event does to the page before its handler appends to the reply. -/
def after (g : Page) : PortEvent → Page
  | .enable => { g with session := g.session + 1, len := 0 }
  | .inCompletion => { g with len := 0 }
  | _ => g

theorem Sound.after (hg : g.Sound) (e : PortEvent) : (g.after e).Sound := by
  cases e
  case enable => exact ⟨owned_zero _, Nat.zero_le _⟩
  case inCompletion => exact ⟨owned_zero _, Nat.zero_le _⟩
  all_goals exact hg

/-- Within a session, no event takes a cell away from it. -/
theorem Owned.after {e : PortEvent} (he : e ≠ .enable) (hn : g.Owned n) : (g.after e).Owned n := by
  cases e
  case enable => exact absurd rfl he
  all_goals exact hn

end Page

namespace PortData

open Page

variable {p q : PortData}

def page (p : PortData) : Page := ⟨p.session, p.stamps, p.replyLen⟩

/-! ### Elementary steps -/

@[simp] theorem page_emit (p : PortData) (e : Effect) : (p.emit e).page = p.page := rfl

@[simp] theorem page_act (p : PortData) (a : Action) : (p.act a).page = p.page := rfl

@[simp] theorem page_acts (p : PortData) (as : List Action) : (p.acts as).page = p.page := rfl

@[simp] theorem page_check (p : PortData) (b : Bool) : (p.check b).page = p.page := rfl

@[simp] theorem page_gpio (p : PortData) (op : PinOp) (i : ℕ) : (p.gpio op i).page = p.page := rfl

@[simp] theorem page_answered (p : PortData) : p.answered.page = p.page := rfl

@[simp] theorem page_pinRead (p : PortData) (i : ℕ) : (p.pinRead i).2.page = p.page := by
  rw [pinRead, page_answered, page_gpio]

@[simp] theorem page_eicConfig (p : PortData) (i : ℕ) (sense : Byte) :
    (p.eicConfig i sense).page = p.page := by
  unfold eicConfig
  exact page_gpio p (.eicConfig sense) i

theorem page_fetchArg (p : PortData) : p.fetchArg.page = p.page := by
  rw [fetchArg_eq]
  rfl

@[simp] theorem page_setArg0 (p : PortData) (b : Byte) : (p.setArg0 b).page = p.page := rfl

@[simp] theorem page_subArg0 (p : PortData) (n : ℕ) : (p.subArg0 n).page = p.page := rfl

@[simp] theorem page_takeCmd (p : PortData) (n : ℕ) : (p.takeCmd n).page = p.page := rfl

@[simp] theorem page_sendCmd (p : PortData) (a : Byte → Action) (n : ℕ) :
    (p.sendCmd a n).page = p.page := rfl

@[simp] theorem page_startTransfer (p : PortData) (t : Transfer) :
    (p.startTransfer t).page = p.page := rfl

@[simp] theorem page_error (p : PortData) : p.error.page = p.page := rfl

@[simp] theorem page_gpioPull (p : PortData) : p.gpioPull.page = p.page := by
  simp only [gpioPull]
  split_ifs <;> simp

@[simp] theorem page_gpioInt (p : PortData) : p.gpioInt.page = p.page := by
  simp only [gpioInt]
  split_ifs <;> simp

theorem pushed_appendByte (p : PortData) (b : Byte) : Pushed p.page (p.appendByte b).page :=
  Pushed.refl.push

theorem pushed_append (p : PortData) (bs : List Byte) : Pushed p.page (p.append bs).page := by
  induction bs generalizing p with
  | nil => exact .refl
  | cons b bs ih => exact (pushed_appendByte p b).trans (ih _)

theorem pushed_receiveReply (p : PortData) (n : ℕ) : Pushed p.page (p.receiveReply n).page :=
  pushed_append p _

theorem pushed_sendStatus (p : PortData) (b : Byte) : Pushed p.page (p.sendStatus b).page := by
  unfold sendStatus
  split_ifs
  · exact .refl
  · exact pushed_appendByte p b

theorem pushed_of_eq (h : q.page = p.page) : Pushed p.page q.page := h ▸ .refl

theorem pushed_sendStatus_of (h : q.page = p.page) (b : Byte) :
    Pushed p.page (q.sendStatus b).page := h ▸ pushed_sendStatus q b

/-! ### Commands -/

theorem page_setMode (p : PortData) (m : PortMode) :
    ({ p with mode := m } : PortData).page = p.page := rfl

theorem pushed_beginCmd (p : PortData) : Pushed p.page p.beginCmd.1.page := by
  have hq : (p.emit (.exec p.cmd)).page = p.page := rfl
  rcases hop : p.opcode with _ | c
  · simp only [beginCmd, opcode_emit, hop]
    exact .refl
  · cases c <;> simp only [beginCmd, opcode_emit, hop]
    all_goals
      rw [← hq]
      generalize p.emit (.exec p.cmd) = q
    case gpioIn => exact pushed_sendStatus_of (by simp) _
    case gpioRawRead => exact pushed_sendStatus_of (by simp) _
    case echo => exact pushed_sendStatus q _
    case rx => exact pushed_sendStatus q _
    case txrx => exact pushed_sendStatus q _
    case analogRead =>
      have hr : (q.gpio .adcRead q.selectedPin).answered.page = q.page := by simp
      generalize (q.gpio .adcRead q.selectedPin).answered = r at hr
      rw [← hr]
      exact pushed_append r [_, _, _]
    case enableSpi => exact pushed_of_eq ((page_setMode _ _).trans (page_acts q _))
    case disableSpi => exact pushed_of_eq ((page_setMode _ _).trans (page_acts q _))
    case enableI2c => exact pushed_of_eq ((page_setMode _ _).trans (page_acts q _))
    case disableI2c => exact pushed_of_eq ((page_setMode _ _).trans (page_acts q _))
    case enableUart =>
      have hr := page_acts q [.pin .mux tx, .pin .mux rx, .uartInit (q.argWord 0),
        .dmaConfigure .tx .uartI2c, .dmaEnableInterrupt .tx, .uartEnableRxc, .tccDelayEnable]
      generalize q.acts _ = r at hr ⊢
      exact pushed_of_eq hr
    case disableUart =>
      have hr := page_acts q [.uartDisableRxc, .tccDelayDisable, .pin .gpio tx, .pin .gpio rx]
      generalize q.acts _ = r at hr ⊢
      exact pushed_of_eq hr
    all_goals
      refine pushed_of_eq ?_
      simp

theorem pushed_continueCmd (p : PortData) : Pushed p.page p.continueCmd.1.page := by
  have hq : (p.emit (.exec p.cmd)).page = p.page := rfl
  rcases hop : p.opcode with _ | c
  · simp only [continueCmd, opcode_emit, hop]
    exact .refl
  · cases c <;> simp only [continueCmd, opcode_emit, hop, mode_emit]
    case echo =>
      rw [page_subArg0, ← hq, ← page_takeCmd (p.emit (.exec p.cmd)) (p.emit (.exec p.cmd)).txrxLen]
      exact pushed_append _ _
    case tx => cases hm : p.mode <;> simp only <;> exact pushed_of_eq (by simp)
    case rx =>
      cases hm : p.mode <;> simp only [page_startTransfer, page_subArg0]
      case spi =>
        rw [← hq, ← page_acts (p.emit (.exec p.cmd))]
        exact pushed_receiveReply _ _
      case i2c =>
        rw [← hq, ← page_act (p.emit (.exec p.cmd)) .i2cRead]
        exact pushed_receiveReply _ _
      all_goals exact .refl
    case txrx =>
      cases hm : p.mode <;> simp only [page_startTransfer, page_subArg0]
      case spi =>
        rw [← hq, ← page_sendCmd (p.emit (.exec p.cmd)) .spiByte]
        exact pushed_receiveReply _ _
      all_goals exact .refl
    all_goals exact .refl

theorem pushed_begun (p : PortData) : Pushed p.page p.begun.page := pushed_beginCmd p

theorem pushed_continued (p : PortData) : Pushed p.page p.continued.page := pushed_continueCmd p

/-! ### The loop -/

theorem page_transfers (p : PortData) : p.transfers.page = p.page := by
  have hr : p.requestPacket.page = p.page := by
    unfold requestPacket
    split_ifs <;> rfl
  rw [transfers, ← hr]
  unfold flushReply
  split_ifs <;> rfl

theorem page_wait (p : PortData) : p.wait.page = p.page := by
  unfold wait
  split_ifs <;> rfl

theorem pushed_dispatch (p : PortData) : Pushed p.page p.dispatch.page := by
  unfold dispatch
  cases p.state
  case readCmd =>
    simp only [readCommand]
    split_ifs
    · exact .refl
    · exact pushed_begun p.fetchCmd
  case readArg =>
    simp only [readArgument]
    split_ifs
    · exact .refl
    · rw [← page_fetchArg p]
      exact pushed_begun p.fetchArg
    · rw [page_fetchArg]
      exact .refl
  case exec => exact pushed_continued p
  all_goals exact .refl

theorem pushed_iter (p : PortData) : Pushed p.page p.iter.page := by
  rw [← page_transfers p]
  unfold iter
  split_ifs
  · exact pushed_of_eq (page_wait _)
  · exact pushed_dispatch _

theorem page_step (p : PortData) : p.step.page = p.page := by
  unfold step
  split_ifs <;> rfl

/-! ### The handlers -/

theorem pushed_foldl {f : PortData → ℕ → PortData} (hf : ∀ q i, Pushed q.page (f q i).page)
    (p : PortData) (is : List ℕ) : Pushed p.page (is.foldl f p).page :=
  List.foldlRecOn (motive := fun q : PortData => Pushed p.page q.page) is f .refl
    fun q hq i _ => hq.trans (hf q i)

theorem page_disablePin (p : PortData) (i : ℕ) : (p.disablePin i).page = p.page := by
  unfold disablePin
  dsimp only
  split_ifs <;> simp

theorem page_disableAsyncEvents (p : PortData) : p.disableAsyncEvents.page = p.page := rfl

theorem page_disable (p : PortData) : p.disable.page = p.page := by
  have hstop (as : List Action) : (PortData.disableAsyncEvents (PortData.acts
      { p with state := .disable, transfer := none } as)).page = p.page := by
    rw [page_disableAsyncEvents, page_acts]
    rfl
  unfold disable
  dsimp only
  rw [page_emit, page_act, ← hstop]
  exact List.foldlRecOn (motive := fun q : PortData => q.page = _) _ _ rfl
    fun q hq i _ => (page_disablePin q i).trans hq

theorem page_uartTaken (p : PortData) (n : ℕ) : (p.uartTaken n).page = p.page := rfl

theorem pushed_uartSendData (p : PortData) : Pushed p.page p.uartSendData.page := by
  unfold uartSendData
  dsimp only
  split_ifs
  · exact .refl
  · rw [page_step, page_uartTaken]
    exact pushed_append (p.emit _) _
  · exact .refl

theorem page_asyncCompletion (p : PortData) : p.asyncCompletion.page = p.page := by
  unfold asyncCompletion
  split_ifs
  · exact page_step _
  · rfl

theorem page_uartPush (p : PortData) (b : Byte) : (p.uartPush b).page = p.page := rfl

theorem pushed_handleSercomUartI2c (p : PortData) (rxc : Option Byte) (err : Bool) :
    Pushed p.page (p.handleSercomUartI2c rxc err).page := by
  unfold handleSercomUartI2c
  split
  · split
    · next b =>
      have hpush : ((p.act (.tccDelayStart (200 * 10))).uartPush b).page = p.page :=
        (page_uartPush _ b).trans (page_act p _)
      dsimp only
      generalize (p.act (.tccDelayStart (200 * 10))).uartPush b = q at hpush ⊢
      rw [← hpush]
      split_ifs
      · exact pushed_uartSendData q
      · exact .refl
    · exact .refl
  · dsimp only
    split_ifs
    · exact pushed_of_eq ((page_asyncCompletion _).trans (page_error p))
    · exact pushed_of_eq (page_asyncCompletion p)
  · exact .refl
  · exact .refl

theorem pushed_extintPin (flags : BitVec 32) (p : PortData) (i : ℕ) :
    Pushed p.page (p.extintPin flags i).page := by
  unfold extintPin
  split_ifs
  · have hread : ((p.check (i < 8)).pinRead p.selectedPin).2.page = p.page :=
      (page_pinRead _ _).trans (page_check p _)
    generalize (p.check (i < 8)).pinRead p.selectedPin = r at hread ⊢
    obtain ⟨high, q⟩ := r
    dsimp only at hread ⊢
    generalize (if high = true then _ else _ : Byte) = response
    have hst := pushed_sendStatus_of hread response
    split_ifs
    · rw [page_eicConfig]
      exact hst
    · exact hst
  · exact .refl

theorem pushed_handleExtint (p : PortData) (flags : BitVec 32) :
    Pushed p.page (p.handleExtint flags).page := by
  unfold handleExtint
  split_ifs
  · rw [page_step]
    exact pushed_foldl (pushed_extintPin flags) p _
  · exact .refl

/-- **Every handler only appends to the reply**, after what its event does to the page. -/
theorem pushed_handle (p : PortData) (e : PortEvent) :
    Pushed (p.page.after e) (p.handle e).page := by
  cases e with
  | enable =>
    have hreset : ((p.emit .enabled).bridgeStartOut.reset.act (.power true)).page =
        p.page.after .enable := page_act _ _
    rw [← hreset]
    exact pushed_foldl (fun q i => pushed_of_eq (page_gpio q _ _)) _ _
  | disable => exact pushed_of_eq (page_disable p)
  | outCompletion packet => exact pushed_of_eq (p := p) (page_step _)
  | inCompletion =>
    exact pushed_of_eq (p := { p with pendingIn := false, replyLen := 0 }) (page_step _)
  | dmaRx => exact pushed_of_eq (page_asyncCompletion p)
  | dmaTx => exact pushed_of_eq (page_asyncCompletion p)
  | sercom rxc err => exact pushed_handleSercomUartI2c p rxc err
  | extint flags => exact pushed_handleExtint p flags
  | tccOverflow => exact pushed_uartSendData p
  | iter => exact pushed_iter p

/-- A session starts with `port_enable` and with nothing else. -/
theorem session_handle (p : PortData) {e : PortEvent} (he : e ≠ .enable) :
    (p.handle e).session = p.session := by
  have h := (pushed_handle p e).session_eq
  cases e <;> first | exact absurd rfl he | exact h

theorem session_enable (p : PortData) : (p.handle .enable).session = p.session + 1 :=
  (pushed_handle p .enable).session_eq

/-! ### What is passed to the bridge -/

/-- At most `n` bytes are passed to `bridge_start_in`. -/
def startsAtMost (n : ℕ) : Effect → Prop
  | .call (.startIn bs) => bs.length ≤ n
  | _ => True

theorem emits_transfers (p : PortData) : Emits (startsAtMost p.replyLen) p p.transfers := by
  have hr : Emits (startsAtMost p.replyLen) p p.requestPacket ∧
      p.requestPacket.replyLen = p.replyLen := by
    unfold requestPacket
    split_ifs
    · exact ⟨(Emits.emit p (e := .call .startOut) trivial).congr_right rfl, rfl⟩
    · exact ⟨.refl p, rfl⟩
  refine hr.1.trans ?_
  unfold transfers flushReply
  split_ifs
  · refine (Emits.emit _ (e := .call (.startIn _)) ?_).congr_right rfl
    show (p.requestPacket.replyBuf.content p.requestPacket.replyLen).length ≤ p.replyLen
    rw [hr.2, Cells.content, List.length_take]
    exact Nat.min_le_left _ _
  · exact .refl _

theorem emits_handle (p : PortData) (e : PortEvent) :
    Emits (startsAtMost p.replyLen) p (p.handle e) := by
  have hA (a : Action) : startsAtMost p.replyLen (.action a) := trivial
  have hR (b : Byte) : startsAtMost p.replyLen (.reply b) := trivial
  have hD : startsAtMost p.replyLen (.call .disableChan) := trivial
  have hX (cmd : Byte) : startsAtMost p.replyLen (.exec cmd) := trivial
  cases e with
  | enable => exact (Emits.emit p (e := .enabled) trivial).trans (Emits.enable hA p trivial)
  | disable => exact Emits.disable hA p trivial
  | outCompletion packet =>
    refine Emits.step hD ((Emits.refl p).congr_right ?_)
    rfl
  | inCompletion =>
    refine Emits.step hD ((Emits.refl p).congr_right ?_)
    rfl
  | dmaRx => exact Emits.asyncCompletion hD (.refl p)
  | dmaTx => exact Emits.asyncCompletion hD (.refl p)
  | sercom rxc err => exact Emits.handleSercomUartI2c hA hR hD p rxc err fun _ => trivial
  | extint flags => exact Emits.handleExtint hA hR hD flags p
  | tccOverflow => exact Emits.uartSendData hR hD (.refl p) trivial
  | iter =>
    refine (emits_transfers p).trans ?_
    show Emits _ p.transfers (if p.transfers.waits then p.transfers.wait else p.transfers.dispatch)
    generalize p.transfers = q
    split_ifs
    · refine (Emits.refl q).congr_right ?_
      unfold wait
      split_ifs <;> rfl
    · exact Emits.dispatch hA hR hD q hX

/-- `port_enable` passes nothing to `bridge_start_in`. -/
theorem emits_enable (p : PortData) : Emits (startsAtMost 0) p (p.handle .enable) :=
  (Emits.emit p (e := .enabled) trivial).trans (Emits.enable (fun _ => trivial) p trivial)

end PortData

end TesselFirmware
