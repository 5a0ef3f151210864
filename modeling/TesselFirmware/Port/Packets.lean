import TesselFirmware.Port.Progress

/-!
# The command stream and its packets

The port reads one stream of commands, however it is split into packets and whenever the transfers
of the bridge and of the peripherals complete.  The reference interpreter is given the same stream
byte by byte.

* `PortData.Tracks` : the port is where the reference is, or executes an RX command that the
  reference has executed already;
* `PortData.independent_iff` : at rest, the actions and replies of two runs with the same stream
  are the same, and those of the reference, exactly if the stream does not end with the length of
  an RX command;
* `PortData.not_independent_rxRun` : and with such a stream they are not.
-/

namespace TesselFirmware

/-- The bytes that the port receives in an event. -/
def PortEvent.received : PortEvent → List Byte
  | .outCompletion packet => packet
  | _ => []

/-- The command stream of a run. -/
def received (es : List PortEvent) : List Byte := es.flatMap PortEvent.received

theorem received_append (es es' : List PortEvent) :
    received (es ++ es') = received es ++ received es' := List.flatMap_append

theorem received_singleton (e : PortEvent) : received [e] = e.received := List.append_nil _

namespace PortData

variable {p q r s : PortData} {bs : List Byte}

/-! ### Streams -/

/-- A packet comes when one is requested, a reply is taken when one is passed to the bridge, and a
transfer completes when one is running; pins and the UART receiver are silent. -/
def scheduled (p : PortData) : PortEvent → Bool
  | .outCompletion _ => p.pendingOut
  | .inCompletion => p.pendingIn
  | .dmaRx => p.transfer == some .dmaRx
  | .dmaTx => p.transfer == some .dmaTx
  | .sercom rxc _ => rxc.isNone && p.transfer == some .i2c
  | .iter => true
  | _ => false

/-- The port just before the byte `b` of the stream makes it begin a command, if it does. -/
def completes (p : PortData) (b : Byte) : Option PortData :=
  match p.state with
  | .readCmd =>
    if portCmdArgs (PortCmd.ofByte b) = 0 then some (p.offer b).fetchCmd else none
  | .readArg => if p.argLen = 1 then some (p.offer b).fetchArg else none
  | _ => none

/-- The command has a case in `port_begin_cmd` and is not `CMD_ANALOG_READ`; a payload has a length
of at least 1 and a peripheral that can move it, and START has the I2C enabled. -/
def admitted (p : PortData) : Bool :=
  p.handled && p.opcode != some .analogRead &&
    (statusOf p.opcode != .continue || (serves p.opcode p.mode && p.argAt 0 != 0#8)) &&
    (p.opcode != some .start || p.mode == .i2c)

/-- Every command of the stream is admitted where it begins. -/
def legal : PortData → List Byte → Bool
  | _, [] => true
  | p, b :: bs => (p.completes b).all admitted && legal (p.consume b) bs

/-- The last byte of the stream is the length of an RX command. -/
def endsInRx (p : PortData) (bs : List Byte) : Bool :=
  match bs.getLast? with
  | none => false
  | some b => ((p.consumeAll bs.dropLast).completes b).any fun q => q.opcode == some .rx

theorem legal_append (bs bs' : List Byte) : ∀ p : PortData,
    legal p (bs ++ bs') = (legal p bs && legal (p.consumeAll bs) bs') := by
  induction bs with
  | nil =>
    intro p
    rfl
  | cons b bs ih =>
    intro p
    rw [List.cons_append, legal, ih, legal, Bool.and_assoc, consumeAll_cons]

theorem endsInRx_snoc (p : PortData) (bs : List Byte) (b : Byte) :
    p.endsInRx (bs ++ [b]) =
      ((p.consumeAll bs).completes b).any fun q => q.opcode == some .rx := by
  rw [endsInRx, List.getLast?_concat, List.dropLast_concat]

/-! ### What is sent -/

/-- The bytes passed to `bridge_start_in`. -/
def sentBytes (p : PortData) : List Byte := p.effects.flatMap Effect.sent

/-- What has been put into the reply is sent, or in `reply_buf`. -/
structure Conserved (p : PortData) : Prop where
  replyLen : p.replyLen ≤ bridgeBufSize
  replied : p.replied =
    p.sentBytes ++ if p.pendingIn then [] else p.replyBuf.content p.replyLen

theorem sentBytes_of_emits (h : Emits (fun e => e.sent = []) p q) : q.sentBytes = p.sentBytes := by
  obtain ⟨es, hes, heq⟩ := h.effects
  rw [sentBytes, heq, List.flatMap_append, List.flatMap_eq_nil_iff.2 hes, List.append_nil]
  rfl

namespace Conserved

theorem congr (h : p.Conserved) (heff : q.effects = p.effects) (hin : q.pendingIn = p.pendingIn)
    (hbuf : q.replyBuf = p.replyBuf) (hlen : q.replyLen = p.replyLen) : q.Conserved := by
  obtain ⟨hle, hreplied⟩ := h
  refine ⟨by rwa [hlen], ?_⟩
  rw [PortData.replied, sentBytes, heff, hin, hbuf, hlen]
  exact hreplied

theorem of_appended (h : p.Conserved) (hp : p.pendingIn = false) (hq : q.pendingIn = false)
    (ha : Appended bs p q) (he : Emits (fun e => e.sent = []) p q) : q.Conserved := by
  refine ⟨ha.replyLen ▸ ha.fits, ?_⟩
  have hreplied := h.replied
  rw [hp, if_neg Bool.false_ne_true] at hreplied
  rw [ha.replied, ha.content, hq, if_neg Bool.false_ne_true, sentBytes_of_emits he, hreplied,
    List.append_assoc]

theorem emit (h : p.Conserved) {e : Effect} (hr : e.replied = none) (hs : e.sent = []) :
    (p.emit e).Conserved := by
  have hreplied : (p.emit e).replied = p.replied := by simp [replied_emit, hr]
  have hsent : (p.emit e).sentBytes = p.sentBytes := sentBytes_of_emits (.emit p hs)
  exact ⟨h.replyLen, (hreplied.trans h.replied).trans (by rw [hsent]; rfl)⟩

theorem error (h : p.Conserved) : p.error.Conserved := h.emit rfl rfl

theorem step (h : p.Conserved) : p.step.Conserved := by
  unfold PortData.step
  split_ifs
  · exact h.error
  · exact h.congr rfl rfl rfl rfl

theorem asyncCompletion (h : p.Conserved) : p.asyncCompletion.Conserved := by
  unfold PortData.asyncCompletion
  split_ifs
  · exact step (h.congr (q := p.transferred) rfl rfl rfl rfl)
  · exact h.error

/-- A reply is taken. -/
theorem inCompletion (h : p.Conserved) (hin : p.pendingIn) :
    Conserved { p with pendingIn := false, replyLen := 0 } := by
  have hreplied := h.replied
  rw [if_pos hin] at hreplied
  exact ⟨Nat.zero_le _, hreplied⟩

theorem transfers (h : p.Conserved) : p.transfers.Conserved := by
  have hreq : p.requestPacket.Conserved := by
    obtain ⟨he, -⟩ | ⟨he, -⟩ := requestPacket_cases p
    · rw [he]
      exact h
    · rw [he]
      exact (h.emit (e := .call .startOut) rfl rfl).congr rfl rfl rfl rfl
  obtain ⟨he, -⟩ | ⟨he, hin, -⟩ := flushReply_cases p.requestPacket
  · rw [PortData.transfers, he]
    exact hreq
  · rw [PortData.transfers, he]
    generalize p.requestPacket = q at *
    have hreplied := hreq.replied
    rw [hin, if_neg Bool.false_ne_true] at hreplied
    refine ⟨hreq.replyLen, ?_⟩
    show q.bridgeStartIn.replied = q.bridgeStartIn.sentBytes ++ []
    rw [List.append_nil, bridgeStartIn, replied_emit, sentBytes, PortData.emit, List.flatMap_append,
      ← sentBytes, hreplied]
    simp [Effect.replied, Effect.sent]

theorem wait (h : p.Conserved) : p.wait.Conserved := by
  unfold PortData.wait
  split_ifs
  · exact h.congr rfl rfl rfl rfl
  · exact h.congr rfl rfl rfl rfl

/-- `CMD_PWM_DUTY_CYCLE` replies nothing, whatever pin it names. -/
theorem begun (h : p.Conserved) (hin : p.pendingIn = false) (hl : p.replyLen < bridgeBufSize)
    (hop : p.opcode ≠ some .analogRead) : p.begun.Conserved := by
  have he : Emits (fun e => e.sent = []) p p.begun :=
    .begun (fun _ => rfl) (fun _ => rfl) p rfl (.inr rfl)
  have hin' : p.begun.pendingIn = false :=
    (congrArg Control.pendingIn (control_begun p)).trans hin
  by_cases hpwm : p.opcode = some .pwmDutyCycle
  · have hbegun : p.begun = { (p.emit (.exec p.cmd)).gpio
        (.pwmDuty ((p.emit (.exec p.cmd)).argWord 1))
        ((p.emit (.exec p.cmd)).argAt 0).toNat with state := .readCmd } := by
      simp only [PortData.begun, beginCmd, opcode_emit, hpwm]
      rfl
    rw [hbegun]
    exact ((h.emit (e := .exec p.cmd) rfl rfl).emit (e := .action _) rfl rfl).congr rfl rfl rfl rfl
  · have hfits : p.beginFits := by
      refine beginFits_of_withinLimits ?_ hl
      simp [withinLimits, hop, hpwm]
    exact h.of_appended hin hin' (appended_begun hfits) he

end Conserved

/-! ### Following the reference -/

/-- The bytes of `cmd_buf` that have not been read. -/
def unread (p : PortData) : List Byte := p.cmdBuf.slice p.cmdPos (p.cmdLen - p.cmdPos)

/-- The port executes an RX command. -/
def inRx (p : PortData) : Prop := p.resumed = .exec ∧ p.opcode = some .rx

/-- The port `p` is where the reference `r` is, or has parts of an RX command to execute that the
reference has executed. -/
def Follows (p r : PortData) : Prop :=
  (¬ p.inRx ∧ p.resumed = r.state ∧ p.progress = r.progress) ∨
    (p.inRx ∧ r.state = .readCmd ∧
      r.progress = p.progress.part (List.replicate (p.argAt 0).toNat dummyTx))

/-- The command being executed. -/
structure Executes (p : PortData) : Prop where
  enabled : p.state ≠ .disable
  payload : p.state = .exec → serves p.opcode p.mode ∧ p.argAt 0 ≠ 0#8
  started : p.state = .execAsync →
    p.transfer ≠ none ∧ (serves p.opcode p.mode ∨ p.argAt 0 = 0#8)

/-- A port that was in the state `s` and has received the bytes `bs`. -/
structure Tracks (s : PortData) (bs : List Byte) (p : PortData) : Prop extends Executes p where
  follows : ∃ done, done ++ p.unread = bs ∧ Follows p (s.consumeAll done) ∧
    (p.unread = [] → (s.endsInRx done ↔ p.inRx))

theorem follows_congr (h : Follows p r) (hprog : q.progress = p.progress)
    (hres : q.resumed = p.resumed) : Follows q r := by
  have hop : q.opcode = p.opcode := congrArg PortCmd.ofByte (congrArg Progress.cmd hprog)
  rw [Follows, inRx, hres, hop, hprog, argAt_of_progress hprog]
  exact h

/-! ### Reading the stream -/

theorem unread_split {n : ℕ} (hn : p.cmdPos + n ≤ p.cmdLen) :
    p.unread = p.cmdBytes n ++ p.cmdBuf.slice (p.cmdPos + n) (p.cmdLen - (p.cmdPos + n)) := by
  rw [cmdBytes, ← Cells.slice_add, unread]
  congr 1
  omega

theorem Ready.unread (hr : p.Ready) :
    p.unread = p.cmdBuf.get p.cmdPos :: (p.takeCmd 1).unread := by
  have hget : p.cmdBytes 1 = [p.cmdBuf.get p.cmdPos] := by
    rw [cmdBytes, Cells.slice_succ 0 (Nat.lt_of_lt_of_le hr.cmdPos hr.cmdLen), Cells.slice_zero]
  have htake : (p.takeCmd 1).cmdPos = p.cmdPos + 1 := by
    have hb : bridgeBufSize = 255 := rfl
    have hlt := Nat.lt_of_lt_of_le hr.cmdPos hr.cmdLen
    exact Nat.mod_eq_of_lt (by omega)
  rw [unread_split (n := 1) hr.cmdPos, hget, PortData.unread, htake]
  rfl

theorem Ready.unread_continued (hr : p.Ready) :
    p.unread = p.cmdBytes p.continueTake ++ p.continued.unread := by
  have hcont : p.continued.unread = p.cmdBuf.slice (p.cmdPos + p.continueTake)
      (p.cmdLen - (p.cmdPos + p.continueTake)) :=
    congrArg (fun c : Control => c.cmdBuf.slice c.cmdPos (c.cmdLen - c.cmdPos))
      (control_continued hr)
  rw [unread_split hr.continueTake_le, hcont]

theorem unread_begun (p : PortData) : p.begun.unread = p.unread :=
  congrArg (fun c : Control => c.cmdBuf.slice c.cmdPos (c.cmdLen - c.cmdPos)) (control_begun p)

theorem progress_fetchCmd (p : PortData) :
    p.fetchCmd.progress =
      { p.progress with
        cmd := p.cmdBuf.get p.cmdPos
        argLen := portCmdArgs (PortCmd.ofByte (p.cmdBuf.get p.cmdPos)) } := rfl

theorem progress_fetchArg (p : PortData) :
    p.fetchArg.progress =
      { p.progress with
        arg := fun k => if k = p.argPos ∧ p.argPos < bridgeArgSize then p.cmdBuf.get p.cmdPos
          else p.argAt k
        argLen := p.argLen - 1
        argPos := (p.argPos + 1) % 256 } := by
  have hstore : p.fetchArg = { (p.takeCmd 1).storeArg (p.cmdBuf.get p.cmdPos) with
      argLen := p.argLen - 1 } := rfl
  have harg : (p.takeCmd 1).arg = p.arg := rfl
  have hpos : (p.takeCmd 1).argPos = p.argPos := rfl
  rw [hstore, storeArg, harg, hpos]
  refine Progress.ext rfl rfl rfl ?_ rfl rfl rfl rfl rfl
  funext k
  exact Cells.get_write_singleton _ _ _ _

/-- Reading an argument moves the port along `cmd_buf`. -/
theorem fetchArg_spec (p : PortData) :
    p.fetchArg.state = p.state ∧ p.fetchArg.stepping = p.stepping ∧
      p.fetchArg.pendingIn = p.pendingIn ∧ p.fetchArg.replyLen = p.replyLen ∧
        p.fetchArg.unread = (p.takeCmd 1).unread := by
  unfold fetchArg storeArg
  exact ⟨rfl, rfl, rfl, rfl, rfl⟩

/-- Two ports that have come equally far read the same opcode. -/
theorem progress_fetchCmd_offer (h : p.progress = r.progress) :
    p.fetchCmd.progress = (r.offer (p.cmdBuf.get p.cmdPos)).fetchCmd.progress := by
  have hg : (r.offer (p.cmdBuf.get p.cmdPos)).progress = p.progress := h.symm
  rw [progress_fetchCmd, progress_fetchCmd, get_offer, hg]

/-- Two ports that have come equally far read the same argument. -/
theorem progress_fetchArg_offer (h : p.progress = r.progress) :
    p.fetchArg.progress = (r.offer (p.cmdBuf.get p.cmdPos)).fetchArg.progress := by
  have hg : (r.offer (p.cmdBuf.get p.cmdPos)).progress = p.progress := h.symm
  have hlen : (r.offer (p.cmdBuf.get p.cmdPos)).argLen = p.argLen := congrArg Progress.argLen hg
  have hpos : (r.offer (p.cmdBuf.get p.cmdPos)).argPos = p.argPos := congrArg Progress.argPos hg
  have harg : (r.offer (p.cmdBuf.get p.cmdPos)).argAt = p.argAt := argAt_of_progress hg
  rw [progress_fetchArg, progress_fetchArg, get_offer, hg, hlen, hpos, harg]

/-! ### Beginning a command -/

theorem transfer_begun (hs : p.begun.state = .execAsync) : p.begun.transfer ≠ none := by
  have hstart : p.opcode = some .start := by
    rw [state_begun] at hs
    unfold statusOf at hs
    split at hs
    all_goals first | assumption | cases hs
  have heq : p.beginCmd.1 =
      (((p.emit (.exec p.cmd)).act (.i2cAddr (p.argAt 0))).setArg0 0#8).startTransfer .i2c := by
    simp only [beginCmd, opcode_emit, hstart]
    rfl
  show p.beginCmd.1.transfer ≠ none
  rw [heq]
  exact Option.some_ne_none _

/-- **Beginning a command** in the port and in the reference. -/
theorem follows_begun (h : p.progress = q.progress) (hp : p.replyLen < bridgeBufSize)
    (hq : q.replyLen < bridgeBufSize) (hadm : q.admitted) :
    Follows p.begun (finishRx 255 q.begun.settle) ∧ (q.opcode = some .rx ↔ p.begun.inRx) := by
  obtain ⟨hprog, hres⟩ := progress_begun h hp hq
  have hop : p.begun.opcode = q.opcode := by
    rw [opcode, cmd_begun]
    exact congrArg PortCmd.ofByte (congrArg Progress.cmd h)
  have hst : q.begun.settle.state = q.begun.resumed := state_settle transfer_begun
  have hopq : q.begun.settle.opcode = q.opcode := by rw [opcode, cmd_settle, cmd_begun, opcode]
  by_cases hrx : q.opcode = some .rx
  · have hstat : statusOf q.opcode = .continue := by
      rw [hrx]
      rfl
    have hexec : q.begun.state = .exec := by
      rw [state_begun, hstat]
      rfl
    have hq' : q.begun.settle = q.begun := settle_of_ne (by rw [hexec]; decide)
    have hserves : serves q.opcode q.mode ∧ q.argAt 0 ≠ 0#8 := by
      simp only [admitted, hstat, bne_self_eq_false, Bool.false_or, Bool.and_eq_true,
        bne_iff_ne] at hadm
      exact hadm.1.2
    have hmode : q.begun.mode = q.mode := by rw [mode_begun, modeAfter_of_continue hstat]
    have harg : q.begun.argAt 0 = q.argAt 0 := argAt_begun hstat
    have hopb : q.begun.opcode = some .rx := by rw [opcode, cmd_begun, ← opcode, hrx]
    have hservesb : serves q.begun.opcode q.begun.mode := by
      rw [hopb, hmode, ← hrx]
      exact hserves.1
    have hle := Nat.le_of_lt_succ (q.begun.argAt 0).isLt
    have h0 : q.begun.argAt 0 ≠ 0#8 := harg ▸ hserves.2
    have hin : p.begun.inRx := by
      refine ⟨?_, hop.trans hrx⟩
      rw [hres, resumed_of_ne (by rw [hexec]; decide), hexec]
    refine ⟨.inr ⟨hin, ?_, ?_⟩, fun _ => hin, fun _ => hrx⟩
    · rw [hq']
      exact (finishRx_done 255 _ hexec hopb hservesb h0 hle).1
    · rw [hq', progress_finishRx 255 _ hexec hopb hservesb h0 hle, hprog, argAt_of_progress hprog]
  · have hno : ¬ p.begun.inRx := fun hin => hrx (hop.symm.trans hin.2)
    refine ⟨.inl ⟨hno, ?_, ?_⟩, fun h => absurd h hrx, fun h => absurd h hno⟩
    · rw [finishRx_of_ne _ (.inr (by rwa [hopq])), hst, hres]
    · rw [finishRx_of_ne _ (.inr (by rwa [hopq])), progress_settle, hprog]

/-! ### One pass of the loop -/

/-- What the loop knows before it works on the state. -/
structure Works (p : PortData) : Prop extends Ready p where
  stepping : p.stepping = true
  args : p.state = .readArg → p.argLen ≠ 0

theorem executes_of_working (h : p.Working) (hs : p.state ≠ .disable) : p.Executes :=
  ⟨hs, h.payload, h.started⟩

/-- A command that has been admitted begins. -/
theorem executes_begun (h : p.progress = q.progress) (hs : p.stepping = true)
    (hadm : q.admitted) : p.begun.Executes := by
  have hop : p.opcode = q.opcode := congrArg PortCmd.ofByte (congrArg Progress.cmd h)
  have hmode : p.mode = q.mode := congrArg Progress.mode h
  simp only [admitted, Bool.and_eq_true] at hadm
  refine executes_of_working (Working.begun hs ?_) ?_
  · rw [hop, hmode, argAt_of_progress h]
    exact hadm.1.2
  · rw [state_begun]
    generalize statusOf p.opcode = st
    cases st <;> exact fun h => PortState.noConfusion h

namespace Tracks

variable {done rest : List Byte} {b : Byte}

/-- The byte of the stream that is read next is admitted. -/
theorem admitted_of_legal (hlegal : s.legal (done ++ b :: rest)) :
    ((s.consumeAll done).completes b).all admitted := by
  rw [legal_append, Bool.and_eq_true, legal, Bool.and_eq_true] at hlegal
  exact hlegal.2.1

theorem consumeAll_snoc (s : PortData) (done : List Byte) (b : Byte) :
    s.consumeAll (done ++ [b]) = (s.consumeAll done).consume b := by
  rw [consumeAll_append]
  rfl

/-- The port begins a command with the last byte read. -/
theorem of_begun (hprog : p.progress = q.progress) (hs : p.stepping = true)
    (hp : p.replyLen < bridgeBufSize) (hq : q.replyLen < bridgeBufSize) (hadm : q.admitted)
    (hun : done ++ b :: p.unread = bs)
    (hcons : (s.consumeAll done).consume b = finishRx 255 q.begun.settle)
    (hcomp : (s.consumeAll done).completes b = some q) : Tracks s bs p.begun := by
  obtain ⟨hfol, hrx⟩ := follows_begun hprog hp hq hadm
  refine ⟨executes_begun hprog hs hadm, done ++ [b], ?_, ?_, fun _ => ?_⟩
  · rw [List.append_assoc, unread_begun]
    exact hun
  · rw [consumeAll_snoc, hcons]
    exact hfol
  · rw [endsInRx_snoc, hcomp, ← hrx]
    simp

/-- The port still reads the arguments of a command. -/
theorem of_readArg (hs : p.state = .readArg) (hprog : p.progress = q.progress)
    (hq : q.state = .readArg) (hun : done ++ b :: p.unread = bs)
    (hcons : (s.consumeAll done).consume b = q)
    (hcomp : (s.consumeAll done).completes b = none) : Tracks s bs p := by
  have hres : p.resumed = .readArg := (resumed_of_ne (by rw [hs]; decide)).trans hs
  have hno : ¬ p.inRx := fun hin => absurd (hres.symm.trans hin.1) (by decide)
  refine ⟨⟨?_, ?_, ?_⟩, done ++ [b], ?_, .inl ⟨hno, ?_, ?_⟩, fun _ => ?_⟩
  · rw [hs]
    decide
  · exact fun h => absurd (hs.symm.trans h) (by decide)
  · exact fun h => absurd (hs.symm.trans h) (by decide)
  · rw [List.append_assoc]
    exact hun
  · rw [consumeAll_snoc, hcons, hres, hq]
  · rw [consumeAll_snoc, hcons, hprog]
  · rw [endsInRx_snoc, hcomp]
    exact ⟨fun h => Bool.noConfusion h, fun h => absurd h hno⟩

/-- While a command is read, the port is where the reference is. -/
theorem follows_reading (hf : Follows p r) {st : PortState} (hs : p.state = st)
    (h : st ≠ .exec) (h' : st ≠ .execAsync) : r.state = st ∧ p.progress = r.progress := by
  subst hs
  have hres : p.resumed = p.state := resumed_of_ne h'
  obtain ⟨-, hr, hprog⟩ | ⟨hin, -⟩ := hf
  · exact ⟨hr.symm.trans hres, hprog⟩
  · exact absurd (hres.symm.trans hin.1) h

/-- An opcode is read. -/
theorem readCommand (h : p.Works) (hs : p.state = .readCmd) (hf : Follows p (s.consumeAll done))
    (hun : done ++ p.unread = bs) (hlegal : s.legal bs) : Tracks s bs p.readCommand := by
  obtain ⟨hr, hprog⟩ := follows_reading hf hs (by decide) (by decide)
  rw [h.unread] at hun
  subst hun
  have hadm := admitted_of_legal hlegal
  have hcons := consume_readCmd hr (p.cmdBuf.get p.cmdPos)
  have hfetch := progress_fetchCmd_offer hprog
  have hlen : p.fetchCmd.argLen = portCmdArgs (PortCmd.ofByte (p.cmdBuf.get p.cmdPos)) := rfl
  rw [PortData.readCommand, hlen]
  by_cases hargs : 0 < portCmdArgs (PortCmd.ofByte (p.cmdBuf.get p.cmdPos))
  · rw [if_pos hargs] at hcons ⊢
    refine of_readArg rfl ?_ rfl rfl hcons ?_
    · exact congrArg (fun g : Progress => { g with argPos := 0 }) hfetch
    · simp only [completes, hr, if_neg hargs.ne']
  · have hcomp : (s.consumeAll done).completes (p.cmdBuf.get p.cmdPos) =
        some ((s.consumeAll done).offer (p.cmdBuf.get p.cmdPos)).fetchCmd := by
      simp only [completes, hr, if_pos (Nat.eq_zero_of_not_pos hargs)]
    rw [if_neg hargs] at hcons ⊢
    rw [hcomp] at hadm
    exact of_begun hfetch h.stepping h.replyLen (show 0 < 255 by decide) hadm rfl hcons hcomp

/-- An argument is read. -/
theorem readArgument (h : p.Works) (hs : p.state = .readArg) (hf : Follows p (s.consumeAll done))
    (hun : done ++ p.unread = bs) (hlegal : s.legal bs) : Tracks s bs p.readArgument := by
  obtain ⟨hr, hprog⟩ := follows_reading hf hs (by decide) (by decide)
  obtain ⟨hst, hsg, -, hrl, htake⟩ := fetchArg_spec p
  obtain ⟨hrst, -, -, hrrl, -⟩ := fetchArg_spec ((s.consumeAll done).offer (p.cmdBuf.get p.cmdPos))
  rw [h.unread, ← htake] at hun
  rw [← hun] at hlegal
  have hadm := admitted_of_legal hlegal
  have hal : (s.consumeAll done).argLen = p.argLen := (congrArg Progress.argLen hprog).symm
  have hne := h.args hs
  have hcons := consume_readArg hr (by rwa [hal]) (p.cmdBuf.get p.cmdPos)
  have hfetch := progress_fetchArg_offer hprog
  have hlen : p.fetchArg.argLen = p.argLen - 1 := rfl
  rw [hal] at hcons
  rw [PortData.readArgument, if_neg hne, hlen]
  by_cases h1 : p.argLen = 1
  · have hcomp : (s.consumeAll done).completes (p.cmdBuf.get p.cmdPos) =
        some ((s.consumeAll done).offer (p.cmdBuf.get p.cmdPos)).fetchArg := by
      simp only [completes, hr, hal, if_pos h1]
    have hfits : ((s.consumeAll done).offer (p.cmdBuf.get p.cmdPos)).fetchArg.replyLen <
        bridgeBufSize := hrrl.trans_lt (show 0 < 255 by decide)
    rw [if_pos h1] at hcons
    rw [if_pos (by omega)]
    rw [hcomp] at hadm
    exact of_begun hfetch (hsg.trans h.stepping) (hrl.trans_lt h.replyLen) hfits hadm hun hcons
      hcomp
  · rw [if_neg h1] at hcons
    rw [if_neg (by omega)]
    refine of_readArg (hst.trans hs) hfetch (hrst.trans hr) hun hcons ?_
    simp only [completes, hr, hal, if_neg h1]

/-- A byte of a payload completes no command. -/
theorem endsInRx_payload {chunk : List Byte} (hs : (s.consumeAll done).state = .exec)
    (h : serves (s.consumeAll done).opcode (s.consumeAll done).mode)
    (hrx : (s.consumeAll done).opcode ≠ some .rx) (hne : chunk ≠ [])
    (hlen : chunk.length ≤ ((s.consumeAll done).argAt 0).toNat) :
    s.endsInRx (done ++ chunk) = false := by
  obtain rfl | ⟨init, b, rfl⟩ := List.eq_nil_or_concat chunk
  · exact absurd rfl hne
  · rw [List.concat_eq_append, List.length_append, List.length_singleton] at hlen
    have hexec : (s.consumeAll (done ++ init)).state = .exec := by
      rw [consumeAll_append]
      by_cases hi : init = []
      · rw [hi]
        exact hs
      · rw [(progress_consumeAll init _ hs h hrx hi (by omega)).2, if_neg]
        intro h0
        have hsub := congrArg BitVec.toNat ((Progress.arg_part _ init).symm.trans h0)
        replace hsub : ((s.consumeAll done).argAt 0 - BitVec.ofNat 8 init.length).toNat = 0 := hsub
        have hlt := ((s.consumeAll done).argAt 0).isLt
        rw [BitVec.toNat_sub, BitVec.toNat_ofNat] at hsub
        omega
    rw [List.concat_eq_append, ← List.append_assoc, endsInRx_snoc]
    simp only [completes, hexec, Option.any_none]

theorem executes_continued (h : p.Works) (hserves : serves p.opcode p.mode) :
    p.continued.Executes := by
  refine executes_of_working (Working.continued h.stepping hserves) ?_
  show p.continueCmd.2.toState ≠ .disable
  generalize p.continueCmd.2 = st
  cases st <;> exact fun h => PortState.noConfusion h

/-- A part of a payload that comes from the host is the same bytes one after the other. -/
theorem continued_host (h : p.Works) (hex : p.Executes) (hs : p.state = .exec)
    (hrx : p.opcode ≠ some .rx) (hf : Follows p (s.consumeAll done))
    (hun : done ++ p.unread = bs) : Tracks s bs p.continued := by
  have hres : p.resumed = .exec := (resumed_of_ne (by rw [hs]; decide)).trans hs
  obtain ⟨-, hr, hprog⟩ | ⟨hin, -⟩ := hf
  swap
  · exact absurd hin.2 hrx
  obtain ⟨hserves, h0⟩ := hex.payload hs
  obtain ⟨hpos, hle⟩ := partLen_bounds hserves h0 h.replyLen fun _ => ⟨h.cmdPos, h.cmdLen⟩
  have hlen := length_partBytes hserves h.toReady
  have htake : p.cmdBytes p.continueTake = p.partBytes := by
    rw [continueTake_eq hserves, if_neg hrx, partBytes, if_neg hrx]
  have hne : p.partBytes ≠ [] := by
    intro hnil
    rw [hnil] at hlen
    exact absurd hlen (by simpa using hpos.ne)
  have hop : (s.consumeAll done).opcode = p.opcode :=
    congrArg PortCmd.ofByte (congrArg Progress.cmd hprog.symm)
  have hmode : (s.consumeAll done).mode = p.mode := congrArg Progress.mode hprog.symm
  have harg : (s.consumeAll done).argAt 0 = p.argAt 0 :=
    congrFun (argAt_of_progress hprog.symm) 0
  have hserves' : serves (s.consumeAll done).opcode (s.consumeAll done).mode := by
    rwa [hop, hmode]
  have hrx' : (s.consumeAll done).opcode ≠ some .rx := by rwa [hop]
  have hlen' : p.partBytes.length ≤ ((s.consumeAll done).argAt 0).toNat := by
    rw [harg]
    omega
  rw [hres] at hr
  obtain ⟨hcprog, hcstate⟩ :=
    progress_consumeAll p.partBytes _ hr.symm hserves' hrx' hne hlen'
  have hcont := progress_continued hserves hlen
  have hno : ¬ p.continued.inRx := fun hin => hrx (by
    rw [opcode, ← cmd_continued]
    exact hin.2)
  refine ⟨executes_continued h hserves, done ++ p.partBytes, ?_, .inl ⟨hno, ?_, ?_⟩, fun _ => ?_⟩
  · rw [List.append_assoc, ← htake, ← h.unread_continued]
    exact hun
  · rw [consumeAll_append, hcstate, ← hprog, resumed_continued hserves]
    rw [← hcont]
    rfl
  · rw [consumeAll_append, hcprog, ← hprog, hcont]
  · rw [endsInRx_payload hr.symm hserves' hrx' hne hlen']
    exact ⟨fun h => Bool.noConfusion h, fun h => absurd h hno⟩

/-- A part of an RX command is what the reference has executed already. -/
theorem continued_rx (h : p.Works) (hex : p.Executes) (hs : p.state = .exec)
    (hrx : p.opcode = some .rx) (hf : Follows p (s.consumeAll done))
    (hun : done ++ p.unread = bs) : Tracks s bs p.continued := by
  have hres : p.resumed = .exec := (resumed_of_ne (by rw [hs]; decide)).trans hs
  obtain ⟨hno, -⟩ | ⟨-, hr, hprog⟩ := hf
  · exact absurd ⟨hres, hrx⟩ hno
  obtain ⟨hserves, h0⟩ := hex.payload hs
  obtain ⟨-, hle⟩ := partLen_bounds hserves h0 h.replyLen fun _ => ⟨h.cmdPos, h.cmdLen⟩
  have hbytes : p.partBytes = List.replicate p.partLen dummyTx := if_pos hrx
  have hcont := progress_continued hserves (length_partBytes hserves h.toReady)
  rw [hbytes] at hcont
  have harg : p.continued.argAt 0 = p.argAt 0 - BitVec.ofNat 8 p.partLen := by
    have harg := congrFun (congrArg Progress.arg hcont) 0
    rwa [Progress.arg_part, List.length_replicate] at harg
  have hrest : (p.continued.argAt 0).toNat = (p.argAt 0).toNat - p.partLen := by
    have hlt := (p.argAt 0).isLt
    rw [harg, BitVec.toNat_sub, BitVec.toNat_ofNat]
    omega
  have hunread := h.unread_continued
  rw [continueTake_eq hserves, if_pos hrx] at hunread
  have hcres := resumed_continued hserves
  refine ⟨executes_continued h hserves, done, ?_, ?_, fun hnil => ?_⟩
  · rw [← hun, hunread]
    rfl
  · by_cases hz : p.continued.argAt 0 = 0#8
    · rw [if_pos hz] at hcres
      have hk : p.partLen = (p.argAt 0).toNat := by
        have : (0#8).toNat = 0 := rfl
        rw [hz] at hrest
        omega
      refine .inl ⟨fun hin => ?_, hcres.trans hr.symm, ?_⟩
      · exact absurd (hcres.symm.trans hin.1) (by decide)
      · rw [hcont, hprog, hk]
    · rw [if_neg hz] at hcres
      refine .inr ⟨⟨hcres, ?_⟩, hr, ?_⟩
      · rw [opcode, cmd_continued]
        exact hrx
      · rw [hprog, hcont, Progress.part_append, List.replicate_append_replicate, hrest,
          Nat.add_sub_cancel' hle]
  · -- a part is executed only when there is a byte to read
    have hcons := hunread.symm.trans h.unread
    replace hcons : p.continued.unread = _ := hcons
    rw [hnil] at hcons
    cases hcons

/-- A pass of the loop that works on the state. -/
theorem dispatch (h : Tracks s bs p) (hw : p.Works) (hs : p.state ≠ .execAsync)
    (hlegal : s.legal bs) : Tracks s bs p.dispatch := by
  obtain ⟨done, hun, hf, -⟩ := h.follows
  unfold PortData.dispatch
  cases hst : p.state
  case disable => exact h
  case execAsync => exact absurd hst hs
  case readCmd => exact readCommand hw hst hf hun hlegal
  case readArg => exact readArgument hw hst hf hun hlegal
  case exec =>
    by_cases hrx : p.opcode = some .rx
    · exact continued_rx hw h.toExecutes hst hrx hf hun
    · exact continued_host hw h.toExecutes hst hrx hf hun

/-- What a pass of the loop does besides is not seen. -/
theorem congr (h : Tracks s bs p) (hprog : q.progress = p.progress) (hst : q.state = p.state)
    (htr : q.transfer = p.transfer) (hun : q.unread = p.unread) : Tracks s bs q := by
  have hop : q.opcode = p.opcode := congrArg PortCmd.ofByte (congrArg Progress.cmd hprog)
  have hmode : q.mode = p.mode := congrArg Progress.mode hprog
  have harg : q.argAt = p.argAt := argAt_of_progress hprog
  have hres : q.resumed = p.resumed := resumed_congr hst hprog
  obtain ⟨⟨henabled, hpayload, hstarted⟩, done, hdone, hf, hend⟩ := h
  refine ⟨⟨by rwa [hst], ?_, ?_⟩, done, by rwa [hun], follows_congr hf hprog hres, ?_⟩
  · rw [hst, hop, hmode, harg]
    exact hpayload
  · rw [hst, hop, hmode, harg, htr]
    exact hstarted
  · rw [hun, inRx, hres, hop]
    exact hend

theorem error (h : Tracks s bs p) : Tracks s bs p.error :=
  h.congr (progress_error p) rfl rfl rfl

theorem step (h : Tracks s bs p) : Tracks s bs p.step := by
  unfold PortData.step
  split_ifs
  · exact h.error
  · exact h.congr rfl rfl rfl rfl

theorem transfers (h : Tracks s bs p) : Tracks s bs p.transfers := by
  have hreq : Tracks s bs p.requestPacket := by
    obtain ⟨he, -⟩ | ⟨he, -⟩ := requestPacket_cases p
    · rw [he]
      exact h
    · rw [he]
      exact h.congr (progress_emit p (e := .call .startOut) rfl rfl) rfl rfl rfl
  obtain ⟨he, -⟩ | ⟨he, -⟩ := flushReply_cases p.requestPacket
  · rw [PortData.transfers, he]
    exact hreq
  · rw [PortData.transfers, he]
    generalize p.requestPacket = q at hreq
    have hprog : q.bridgeStartIn.progress = q.progress := progress_emit q rfl rfl
    exact hreq.congr hprog rfl rfl rfl

theorem wait (h : Tracks s bs p) : Tracks s bs p.wait := by
  unfold PortData.wait
  split_ifs
  · exact h.congr rfl rfl rfl rfl
  · exact h.congr rfl rfl rfl rfl

theorem transferred (h : Tracks s bs p) (hs : p.state = .execAsync) :
    Tracks s bs p.transferred := by
  have hst : p.transferred.state = p.payloadStatus.toState := rfl
  obtain ⟨hex, done, hdone, hf, hend⟩ := h
  have hres : p.transferred.resumed = p.resumed := resumed_transferred hs
  have hop : p.transferred.opcode = p.opcode := rfl
  refine ⟨⟨?_, fun hx => ?_, fun hx => ?_⟩, done, hdone, follows_congr hf rfl hres, ?_⟩
  · rw [hst, payloadStatus]
    split_ifs <;> exact fun h => PortState.noConfusion h
  · have hne : p.argAt 0 ≠ 0#8 := by
      intro h0
      rw [hst, payloadStatus, if_pos h0] at hx
      cases hx
    exact ⟨(hex.started hs).2.resolve_right hne, hne⟩
  · rw [hst, payloadStatus] at hx
    split_ifs at hx <;> cases hx
  · rw [inRx, hres, hop]
    exact hend

/-- The completion of a transfer. -/
theorem asyncCompletion (h : Tracks s bs p) : Tracks s bs p.asyncCompletion := by
  unfold PortData.asyncCompletion
  split_ifs with hs
  · exact (h.transferred hs).step
  · exact h.error

theorem iter (h : Tracks s bs p) (hr : p.Resting) (hs : p.stepping = true) (hlegal : s.legal bs) :
    Tracks s bs p.iter := by
  obtain ⟨-, hi⟩ | ⟨-, -, ⟨-, hi⟩ | ⟨hst, hpos, hl, hi⟩⟩ := iter_cases p
  · rw [hi]
    exact h.transfers.wait
  · rw [hi]
    exact h.congr rfl rfl rfl rfl
  · rw [hi]
    exact h.dispatch ⟨⟨hpos, hr.cmdLen, hl⟩, hs, hr.args⟩ hst hlegal

/-- A packet extends the stream. -/
theorem outCompletion (h : Tracks s bs p) (hr : p.Resting) (ho : p.pendingOut)
    {packet : List Byte} (hpos : 0 < packet.length) (hlen : packet.length ≤ bridgeBufSize) :
    Tracks s (bs ++ packet) ((p.receivePacket packet).bridgeOutCompletion packet.length) := by
  have hb : bridgeBufSize = 255 := rfl
  have hdrained : p.unread = [] := by
    rw [unread, Nat.sub_eq_zero_of_le (hr.drained ho), Cells.slice_zero]
  obtain ⟨hex, done, hdone, hf, hend⟩ := h
  rw [hdrained, List.append_nil] at hdone
  subst hdone
  refine step ⟨⟨hex.enabled, hex.payload, hex.started⟩, done, ?_, ?_, fun hnil => ?_⟩
  · show done ++ (p.cmdBuf.write 0 packet).slice 0 (packet.length % 256 - 0) = _
    rw [Nat.mod_eq_of_lt (by omega), Nat.sub_zero, Cells.slice_write_zero hlen]
  · exact follows_congr hf rfl rfl
  · replace hnil : (p.cmdBuf.write 0 packet).slice 0 (packet.length % 256 - 0) = [] := hnil
    rw [Nat.mod_eq_of_lt (by omega), Nat.sub_zero, Cells.slice_write_zero hlen] at hnil
    rw [hnil] at hpos
    exact absurd hpos (Nat.lt_irrefl 0)

theorem handleSercomUartI2c (h : Tracks s bs p) (err : Bool) :
    Tracks s bs (p.handleSercomUartI2c none err) := by
  unfold PortData.handleSercomUartI2c
  split
  · exact h
  · dsimp only
    split_ifs
    · exact h.error.asyncCompletion
    · exact h.asyncCompletion
  · exact h.error
  · exact h.error

/-- **Every scheduled event** keeps the port on the track of the reference. -/
theorem handle (h : Tracks s bs p) (hr : p.Resting) {e : PortEvent} (ha : p.accepts e)
    (hok : p.scheduled e) (hlegal : s.legal (bs ++ e.received)) :
    Tracks s (bs ++ e.received) (p.handle e) := by
  cases e with
  | outCompletion packet =>
    simp only [accepts, Bool.and_eq_true, decide_eq_true_eq] at ha
    exact h.outCompletion hr hok ha.1.2 ha.2
  | enable => cases hok
  | disable => cases hok
  | extint flags => cases hok
  | tccOverflow => cases hok
  | inCompletion =>
    rw [show PortEvent.inCompletion.received = [] from rfl, List.append_nil]
    exact step (h.congr rfl rfl rfl rfl)
  | dmaRx =>
    rw [show PortEvent.dmaRx.received = [] from rfl, List.append_nil]
    exact h.asyncCompletion
  | dmaTx =>
    rw [show PortEvent.dmaTx.received = [] from rfl, List.append_nil]
    exact h.asyncCompletion
  | sercom rxc err =>
    rw [show (PortEvent.sercom rxc err).received = [] from rfl, List.append_nil]
    cases rxc with
    | none => exact h.handleSercomUartI2c err
    | some b => cases hok
  | iter =>
    rw [show PortEvent.iter.received = [] from rfl, List.append_nil] at hlegal ⊢
    exact h.iter hr ha hlegal

/-- What the port begins is what the reference begins with the same byte. -/
theorem begins_admitted (h : Tracks s bs p) (hr : p.Ready) (hlegal : s.legal bs)
    (hq : p.begins = some q) : q.opcode ≠ some .analogRead := by
  obtain ⟨done, hun, hf, -⟩ := h.follows
  rw [hr.unread] at hun
  subst hun
  have hadm := admitted_of_legal hlegal
  have hno {t : PortData} (ht : t.admitted) : t.opcode ≠ some .analogRead := by
    simp only [admitted, Bool.and_eq_true, bne_iff_ne] at ht
    exact ht.1.1.2
  simp only [begins, Option.ite_none_left_eq_some] at hq
  obtain ⟨-, hq⟩ := hq
  split at hq
  · next hs =>
    obtain ⟨hst, hprog⟩ := follows_reading hf hs (by decide) (by decide)
    obtain ⟨h0, heq⟩ := (Option.ite_none_right_eq_some ..).1 hq
    obtain rfl := Option.some.inj heq
    have hop := congrArg Progress.opcode (progress_fetchCmd_offer hprog)
    have h0' : portCmdArgs (PortCmd.ofByte (p.cmdBuf.get p.cmdPos)) = 0 := h0
    simp only [completes, hst, if_pos h0'] at hadm
    exact fun hx => hno hadm (hop.symm.trans hx)
  · next hs =>
    obtain ⟨hst, hprog⟩ := follows_reading hf hs (by decide) (by decide)
    obtain ⟨⟨h0, h1⟩, heq⟩ := (Option.ite_none_right_eq_some ..).1 hq
    obtain rfl := Option.some.inj heq
    have hop := congrArg Progress.opcode (progress_fetchArg_offer hprog)
    have hal : (s.consumeAll done).argLen = p.argLen := (congrArg Progress.argLen hprog).symm
    have h1' : p.argLen - 1 = 0 := h1
    simp only [completes, hst, hal, if_pos (show p.argLen = 1 by omega)] at hadm
    exact fun hx => hno hadm (hop.symm.trans hx)
  · cases hq

end Tracks

namespace Conserved

theorem fetchArg (h : p.Conserved) : p.fetchArg.Conserved := by
  unfold PortData.fetchArg storeArg
  exact h.congr rfl rfl rfl rfl

theorem iter (h : p.Conserved) (hlen : p.cmdLen ≤ bridgeBufSize)
    (hok : p.Ready → ∀ q, p.begins = some q → q.opcode ≠ some .analogRead) :
    p.iter.Conserved := by
  obtain ⟨-, hi⟩ | ⟨htr, hw, ⟨-, hi⟩ | ⟨hst, hpos, hl, hi⟩⟩ := iter_cases p
  · rw [hi]
    exact h.transfers.wait
  · rw [hi]
    exact h.congr rfl rfl rfl rfl
  · rw [hi]
    have hready : p.Ready := ⟨hpos, hlen, hl⟩
    have hin : p.pendingIn = false := (Bool.or_eq_false_iff.1 hw).1
    have hok := hok hready
    simp only [begins, htr, hw, Bool.false_eq_true, if_false] at hok
    unfold PortData.dispatch
    cases hs : p.state <;> simp only [hs] at hok ⊢
    case disable => exact h
    case execAsync => exact absurd hs hst
    case exec =>
      have hc := control_continued hready
      have hin' : p.continued.pendingIn = false := (congrArg Control.pendingIn hc).trans hin
      exact h.of_appended hin hin' (appended_continued hready)
        (.continued (fun _ => rfl) (fun _ => rfl) p rfl)
    case readCmd =>
      unfold PortData.readCommand
      split_ifs with ha
      · exact h.congr rfl rfl rfl rfl
      · rw [if_pos (Nat.eq_zero_of_not_pos ha)] at hok
        exact (h.congr (q := p.fetchCmd) rfl rfl rfl rfl).begun hin hl (hok _ rfl)
    case readArg =>
      obtain ⟨-, -, hpending, hlen', -⟩ := fetchArg_spec p
      unfold PortData.readArgument
      split_ifs with ha hb
      · exact h.error.congr rfl rfl rfl rfl
      · rw [if_pos ⟨ha, hb⟩] at hok
        exact h.fetchArg.begun (hpending.trans hin) (hlen'.trans_lt hl) (hok _ rfl)
      · exact h.fetchArg

theorem handle (h : p.Conserved) {e : PortEvent} (hok : p.scheduled e)
    (hiter : e = .iter → p.iter.Conserved) : (p.handle e).Conserved := by
  cases e with
  | outCompletion packet => exact step (h.congr rfl rfl rfl rfl)
  | enable => cases hok
  | disable => cases hok
  | extint flags => cases hok
  | tccOverflow => cases hok
  | inCompletion => exact step (h.inCompletion hok)
  | dmaRx => exact h.asyncCompletion
  | dmaTx => exact h.asyncCompletion
  | iter => exact hiter rfl
  | sercom rxc err =>
    cases rxc with
    | some b => cases hok
    | none =>
      show (p.handleSercomUartI2c none err).Conserved
      unfold handleSercomUartI2c
      split
      · exact h
      · dsimp only
        split_ifs
        · exact h.error.asyncCompletion
        · exact h.asyncCompletion
      · exact h.error
      · exact h.error

end Conserved

/-! ### Runs -/

/-- The port just after it has been enabled. -/
def started (port : TesselPort) (answers : ℕ → BitVec 16) : PortData := (init port answers).enable

/-- `port_enable` pulls the pins up after it has reset the port. -/
theorem started_spec (port : TesselPort) (answers : ℕ → BitVec 16) :
    (started port answers).control =
        ((init port answers).emit .enabled).bridgeStartOut.reset.control ∧
      (started port answers).replyLen = 0 := by
  have hfold (q : PortData) : ((List.range 8).foldl (fun p i => p.gpio .pullUp i) q).control =
      q.control ∧ ((List.range 8).foldl (fun p i => p.gpio .pullUp i) q).replyLen = q.replyLen :=
    List.foldlRecOn (motive := fun r : PortData => r.control = q.control ∧ r.replyLen = q.replyLen)
      _ _ ⟨rfl, rfl⟩ fun r hr i _ =>
        ⟨(control_gpio r .pullUp i).trans hr.1, (replyLen_gpio r .pullUp i).trans hr.2⟩
  have heq : started port answers = (List.range 8).foldl (fun p i => p.gpio .pullUp i)
    (((init port answers).emit .enabled).bridgeStartOut.reset.act (.power true)) := rfl
  rw [heq]
  exact hfold _

/-- A port that waits for its first command. -/
theorem tracks_self (hst : p.state = .readCmd) (hlen : p.cmdLen = 0) : Tracks p [] p := by
  have hres : p.resumed = .readCmd := (resumed_of_ne (by rw [hst]; decide)).trans hst
  have hno : ¬ p.inRx := fun hin => absurd (hres.symm.trans hin.1) (by decide)
  have hunread : p.unread = [] := by
    rw [unread, hlen, Nat.zero_sub, Cells.slice_zero]
  refine ⟨⟨?_, ?_, ?_⟩, [], hunread, .inl ⟨hno, hres.trans hst.symm, rfl⟩, fun _ => ?_⟩
  · rw [hst]
    decide
  · exact fun h => absurd (hst.symm.trans h) (by decide)
  · exact fun h => absurd (hst.symm.trans h) (by decide)
  · exact ⟨fun h => Bool.noConfusion h, fun h => absurd h hno⟩

theorem tracks_started (port : TesselPort) (answers : ℕ → BitVec 16) :
    Tracks (started port answers) [] (started port answers) := by
  obtain ⟨hc, -⟩ := started_spec port answers
  exact tracks_self (congrArg Control.state hc) (congrArg Control.cmdLen hc)

theorem conserved_started (port : TesselPort) (answers : ℕ → BitVec 16) :
    (started port answers).Conserved := by
  obtain ⟨-, hlen⟩ := started_spec port answers
  have he : Emits (fun e => e.sent = [] ∧ e.replied = none)
      ((init port answers).emit .enabled) (started port answers) :=
    .enable (fun _ => ⟨rfl, rfl⟩) (init port answers) ⟨rfl, rfl⟩
  have hsent : (started port answers).sentBytes = [] := sentBytes_of_emits (he.mono fun _ h => h.1)
  have hreplied : (started port answers).replied = [] := by
    obtain ⟨es, hes, heq⟩ := he.effects
    rw [replied, heq, List.filterMap_append, List.filterMap_eq_nil_iff.2 fun e hm => (hes e hm).2]
    rfl
  refine ⟨hlen.trans_le (Nat.zero_le _), ?_⟩
  rw [hsent, hreplied, hlen, Cells.content_zero, ite_self]
  rfl

/-- What holds in every run on a stream. -/
theorem tracks_of_run {port : TesselPort} {answers : ℕ → BitVec 16} {es : List PortEvent}
    (h : machine.Run (fun p e => p.scheduled e) (started port answers) es p)
    (hlegal : (started port answers).legal (received es)) :
    p.Resting ∧ Tracks (started port answers) (received es) p ∧ p.Conserved := by
  have hinv := h.invariant_labels
    (I := fun ls p => p.Resting ∧ ((started port answers).legal (received ls) →
      Tracks (started port answers) (received ls) p ∧ p.Conserved)) ?_ ?_
  · exact ⟨hinv.1, hinv.2 hlegal⟩
  · exact ⟨.enable _, fun _ => ⟨tracks_started port answers, conserved_started port answers⟩⟩
  · rintro ls q e q' ⟨hr, hI⟩ hok hst
    obtain ⟨ha, rfl⟩ := machine_step_eq_some.1 hst
    refine ⟨hr.handle ha, fun hl => ?_⟩
    rw [received_append, received_singleton] at hl ⊢
    have hl' : (started port answers).legal (received ls) := by
      rw [legal_append, Bool.and_eq_true] at hl
      exact hl.1
    obtain ⟨ht, hc⟩ := hI hl'
    refine ⟨ht.handle hr ha hok hl, hc.handle hok fun he => ?_⟩
    subst he
    exact hc.iter hr.cmdLen fun hready t hb => ht.begins_admitted hready hl' hb

/-- A port at rest is where the reference is, unless the stream ends with the length of an RX
command: then the reference has executed this command, and the port has not. -/
theorem follows_of_run {port : TesselPort} {answers : ℕ → BitVec 16} {es : List PortEvent}
    (h : machine.Run (fun p e => p.scheduled e) (started port answers) es p)
    (hlegal : (started port answers).legal (received es)) (hq : p.Quiescent) :
    Follows p ((started port answers).consumeAll (received es)) ∧
      ((started port answers).endsInRx (received es) ↔ p.inRx) ∧ p.sentBytes = p.replied ∧
        p.Executes := by
  obtain ⟨hr, ⟨hex, done, hdone, hf, hend⟩, hc⟩ := tracks_of_run h hlegal
  have hasync : p.state ≠ .execAsync := fun hs => (hex.started hs).1 hq.transfer
  have hunread : p.unread = [] := by
    rw [unread, Nat.sub_eq_zero_of_le (hr.drained hq.pendingOut), Cells.slice_zero]
  have hlen := hr.flushed hq.stepping ⟨hq.state, hasync⟩ hq.pendingIn
  have hreplied := hc.replied
  rw [hlen, Cells.content_zero, ite_self, List.append_nil] at hreplied
  rw [hunread, List.append_nil] at hdone
  subst hdone
  exact ⟨hf, hend hunread, hreplied.symm, hex⟩

/-- The actions and the reply bytes of a run, and those of the reference. -/
def agrees (p r : PortData) : Prop := p.actions = r.actions ∧ p.sentBytes = r.replied

/-- A port that waits with an RX command to execute has done less than the reference. -/
theorem actions_ne_of_inRx (hf : Follows p r) (hex : p.Executes) (hin : p.inRx)
    (hasync : p.state ≠ .execAsync) : p.actions ≠ r.actions := by
  obtain ⟨hno, -⟩ | ⟨-, -, hprog⟩ := hf
  · exact absurd hin hno
  obtain ⟨hres, hop⟩ := hin
  obtain ⟨hserves, h0⟩ := hex.payload ((resumed_of_ne hasync).symm.trans hres)
  have hactions : r.actions = p.actions ++
      Progress.partActions p.opcode p.mode (List.replicate (p.argAt 0).toNat dummyTx) :=
    congrArg Progress.actions hprog
  obtain ⟨n, hn⟩ := Nat.exists_eq_succ_of_ne_zero
    (fun h => h0 (BitVec.eq_of_toNat_eq h) : (p.argAt 0).toNat ≠ 0)
  intro heq
  rw [← heq, hop, hn] at hactions
  have hnil := List.self_eq_append_right.1 hactions
  rw [hop] at hserves
  cases hm : p.mode <;> simp [hm, serves, Progress.partActions] at hserves hnil

/-- **Packets do not matter.**  Take any answers of pins and peripherals and any stream of admitted
commands, split into packets in two ways, and any two orders in which the transfers of the bridge
and of the peripherals complete.  When the port has come to rest in both runs, its actions and the
bytes it has sent are the same in both, and those of the interpreter that is given the stream byte
by byte, exactly if the stream does not end with the length of an RX command. -/
theorem independent_iff {port : TesselPort} {answers : ℕ → BitVec 16} {bs : List Byte}
    {es es' : List PortEvent} {p p' : PortData} (hlegal : (started port answers).legal bs)
    (h : machine.Run (fun p e => p.scheduled e) (started port answers) es p)
    (h' : machine.Run (fun p e => p.scheduled e) (started port answers) es' p')
    (hbs : received es = bs) (hbs' : received es' = bs) (hq : p.Quiescent) (hq' : p'.Quiescent) :
    (p.actions = p'.actions ∧ p.sentBytes = p'.sentBytes ∧
      p.agrees ((started port answers).consumeAll bs)) ↔
        (started port answers).endsInRx bs = false := by
  subst hbs
  obtain ⟨hf, hend, hsent, hex⟩ := follows_of_run h hlegal hq
  obtain ⟨hf', hend', hsent', -⟩ := follows_of_run h' (by rwa [hbs']) hq'
  rw [hbs'] at hf' hend'
  have hasync : p.state ≠ .execAsync := fun hs => (hex.started hs).1 hq.transfer
  constructor
  · rintro ⟨-, -, hactions, -⟩
    by_contra hrx
    exact actions_ne_of_inRx hf hex (hend.1 (by simpa using hrx)) hasync hactions
  · intro hrx
    have hno {t : PortData} (ht : (started port answers).endsInRx (received es) ↔ t.inRx) :
        ¬ t.inRx := fun hin => by
      rw [ht.2 hin] at hrx
      cases hrx
    have hsame {t r : PortData} (ht : Follows t r) (hin : ¬ t.inRx) : t.progress = r.progress := by
      obtain ⟨-, -, hprog⟩ | ⟨hin', -⟩ := ht
      · exact hprog
      · exact absurd hin' hin
    have hprog := hsame hf (hno hend)
    have hprog' := hsame hf' (hno hend')
    have heq := hprog.trans hprog'.symm
    refine ⟨congrArg Progress.actions heq, ?_, congrArg Progress.actions hprog, ?_⟩
    · rw [hsent, hsent']
      exact congrArg Progress.replied heq
    · rw [hsent]
      exact congrArg Progress.replied hprog

/-- A run that switches the SPI on, reads one byte with it and does nothing, in one packet. -/
def onePacketRun : List PortEvent :=
  [PortEvent.outCompletion [10, 0, 0, 1, 17, 1, 0]] ++ List.replicate 8 PortEvent.iter ++
    [PortEvent.dmaRx, .iter, .iter, .inCompletion, .iter]

/-- The same stream, with its last command in a packet of its own. -/
def twoPacketsRun : List PortEvent :=
  [PortEvent.outCompletion [10, 0, 0, 1, 17, 1]] ++ List.replicate 7 PortEvent.iter ++
    [PortEvent.inCompletion, .iter, .outCompletion [0], .iter, .iter, .dmaRx, .iter, .iter,
      .inCompletion, .iter]

/-- A run to a port at rest, found by execution. -/
theorem run_of_rest (es : List PortEvent) (answers : ℕ → BitVec 16) (st : PortState)
    (h : (machine.execOk scheduled (started portA answers) es).map rest =
      some (false, st, true, false, none)) (hst : st ≠ .disable) :
    ∃ p, machine.Run (fun p e => p.scheduled e) (started portA answers) es p ∧ p.Quiescent := by
  obtain ⟨p, hp, hrest⟩ := Option.map_eq_some_iff.1 h
  exact ⟨p, Machine.run_of_execOk (fun p e => p.scheduled e) (fun _ _ => id) hp,
    quiescent_of_rest hrest hst⟩

theorem independent_twoPacketsRun :
    ∃ p p' : PortData, machine.exec (started portA fun _ => 7#16) onePacketRun = some p ∧
      machine.exec (started portA fun _ => 7#16) twoPacketsRun = some p' ∧
        p.actions = p'.actions ∧ p.sentBytes = p'.sentBytes ∧
          p.agrees ((started portA fun _ => 7#16).consumeAll [10, 0, 0, 1, 17, 1, 0]) := by
  obtain ⟨p, hrun, hq⟩ := run_of_rest onePacketRun (fun _ => 7#16) .readCmd
    (by decide +kernel) (by decide)
  obtain ⟨p', hrun', hq'⟩ := run_of_rest twoPacketsRun (fun _ => 7#16) .readCmd
    (by decide +kernel) (by decide)
  exact ⟨p, p', hrun.exec_eq, hrun'.exec_eq,
    (independent_iff (by decide +kernel) hrun hrun' rfl rfl hq hq').2 (by decide +kernel)⟩

/-- Its first packet alone. -/
def rxPacketRun : List PortEvent :=
  [PortEvent.outCompletion [10, 0, 0, 1, 17, 1]] ++ List.replicate 7 PortEvent.iter ++
    [PortEvent.inCompletion, .iter]

/-- An RX command at the end of the stream is executed by the reference alone. -/
theorem not_independent_rxRun :
    ¬ ∀ (port : TesselPort) (answers : ℕ → BitVec 16) (bs : List Byte) (es es' : List PortEvent)
      (p p' : PortData), (started port answers).legal bs →
        machine.Run (fun p e => p.scheduled e) (started port answers) es p →
        machine.Run (fun p e => p.scheduled e) (started port answers) es' p' →
        received es = bs → received es' = bs → p.Quiescent → p'.Quiescent →
          p.actions = p'.actions ∧ p.sentBytes = p'.sentBytes ∧
            p.agrees ((started port answers).consumeAll bs) := by
  intro hall
  obtain ⟨p, hrun, hq⟩ := run_of_rest rxPacketRun (fun _ => 7#16) .exec
    (by decide +kernel) (by decide)
  have hlegal : (started portA fun _ => 7#16).legal [10, 0, 0, 1, 17, 1] := by decide +kernel
  have hrx : (started portA fun _ => 7#16).endsInRx [10, 0, 0, 1, 17, 1] := by decide +kernel
  obtain ⟨hf, hend, -, hex⟩ := follows_of_run hrun hlegal hq
  have hasync : p.state ≠ .execAsync := fun hs => (hex.started hs).1 hq.transfer
  exact actions_ne_of_inRx hf hex (hend.1 hrx) hasync
    (hall _ _ _ _ _ p p hlegal hrun hrun rfl rfl hq hq).2.2.1

end PortData

end TesselFirmware
