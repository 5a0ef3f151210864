import TesselFirmware.Port.Reference

/-!
# Transfer commands and the peripheral mode

A stream of command bytes, each with the peripheral mode of whoever wrote it.  `Agrees p stream`
says that whenever a byte of the stream makes the port `p` execute START, TX, RX or TXRX, the
port is in the mode of the writer of that byte.

* `consume_spec` : a byte executes one command at most;
* `Packets tag needs sets bs` : the bytes `bs` are whole commands, with what they need of the mode
  and do to it; `Packets.append` puts them together.
-/

namespace TesselFirmware

namespace PortData

variable {p q : PortData} {tag : PortMode}

/-- The commands that use the enabled peripheral. -/
def isTransfer (c : Option PortCmd) : Bool :=
  c == some .start || c == some .tx || c == some .rx || c == some .txrx

/-- The next byte makes the port execute START, TX, RX or TXRX. -/
def ExecutesTransfer (p : PortData) (b : Byte) : Prop :=
  ∃ es cmd, (p.consume b).effects = p.effects ++ es ∧ .exec cmd ∈ es ∧
    isTransfer (PortCmd.ofByte cmd)

/-- Transfer commands are executed in the mode of those who wrote them. -/
def Agrees (p : PortData) : List (PortMode × Byte) → Prop
  | [] => True
  | (tag, b) :: stream => (p.ExecutesTransfer b → p.mode = tag) ∧ Agrees (p.consume b) stream

theorem agrees_append {s t : List (PortMode × Byte)} :
    Agrees p (s ++ t) ↔ Agrees p s ∧ Agrees (p.consumeAll (s.map Prod.snd)) t := by
  induction s generalizing p with
  | nil => simp [Agrees]
  | cons a s ih =>
    obtain ⟨tag, b⟩ := a
    simp only [List.cons_append, Agrees, ih, List.map_cons, consumeAll_cons, and_assoc]

/-! ### What a byte executes -/

@[simp] theorem cmd_settle (p : PortData) : p.settle.cmd = p.cmd := by
  unfold settle
  split_ifs <;> rfl

@[simp] theorem mode_settle (p : PortData) : p.settle.mode = p.mode := by
  unfold settle
  split_ifs <;> rfl

@[simp] theorem cmd_begun (p : PortData) : p.begun.cmd = p.cmd :=
  congrArg Control.cmd (control_begun p)

@[simp] theorem cmd_continued (p : PortData) : p.continued.cmd = p.cmd := by
  obtain ⟨n, h⟩ := control_continueCmd_eq p
  exact congrArg Control.cmd h

/-- Only the command `cmd` is marked. -/
def MarkedOnly (cmd : Byte) (e : Effect) : Prop := ∀ c, e = .exec c → c = cmd

theorem markedOnly_action (cmd : Byte) (a : Action) : MarkedOnly cmd (.action a) := nofun

theorem markedOnly_reply (cmd : Byte) (b : Byte) : MarkedOnly cmd (.reply b) := nofun

theorem markedOnly_call (cmd : Byte) (c : PortCall) : MarkedOnly cmd (.call c) := nofun

theorem markedOnly_exec (cmd : Byte) : MarkedOnly cmd (.exec cmd) := by
  intro c h
  cases h
  rfl

theorem emits_settle {P : Effect → Prop} (h : Emits P p q) : Emits P p q.settle :=
  h.congr_right (effects_settle q)

/-- The parts of an RX command execute only this command, and leave the mode alone. -/
theorem emits_finishRx (n : ℕ) (p : PortData) :
    Emits (MarkedOnly p.cmd) p (finishRx n p) ∧ (finishRx n p).cmd = p.cmd ∧
      (finishRx n p).mode = p.mode := by
  induction n generalizing p with
  | zero => exact ⟨.refl p, rfl, rfl⟩
  | succ n ih =>
    rw [finishRx]
    split_ifs
    · have hpart : Emits (MarkedOnly p.cmd) p { p with replyLen := 0 }.continued.settle := by
        have hc := Emits.continued (markedOnly_action p.cmd) (markedOnly_reply p.cmd)
          { p with replyLen := 0 } (markedOnly_exec p.cmd)
        exact emits_settle ⟨hc.effects⟩
      have hcmd : { p with replyLen := 0 }.continued.settle.cmd = p.cmd := by
        rw [cmd_settle, cmd_continued]
      have hmode : { p with replyLen := 0 }.continued.settle.mode = p.mode := by
        rw [mode_settle, mode_continued]
      obtain ⟨h1, h2, h3⟩ := ih { p with replyLen := 0 }.continued.settle
      rw [hcmd] at h1 h2
      exact ⟨hpart.trans h1, h2, h3.trans hmode⟩
    · exact ⟨.refl p, rfl, rfl⟩

/-- Beginning a command executes only this command. -/
theorem emits_begun (p : PortData) : Emits (MarkedOnly p.cmd) p p.begun :=
  Emits.begun (markedOnly_action _) (markedOnly_reply _) p (markedOnly_exec _)
    (.inr (markedOnly_call _ _))

/-- The pass of the loop that looks at the byte `b`. -/
theorem dispatch_offer (p : PortData) (b : Byte) :
    let q := (p.offer b).dispatch
    Emits (MarkedOnly q.cmd) p q ∧ q.cmd = (if p.state = .readCmd then b else p.cmd) ∧
      (q.mode = p.mode ∨ q.mode = modeAfter q.opcode p.mode) := by
  have hsame (cmd : Byte) {q : PortData} (h : q.effects = p.effects) :
      Emits (MarkedOnly cmd) p q := (Emits.refl p).congr_right h
  -- a command that begins is marked with its own opcode, and may switch the mode
  have hbegun {r : PortData} (h : r.effects = p.effects) (hm : r.mode = p.mode) :
      Emits (MarkedOnly r.begun.cmd) p r.begun ∧ r.begun.mode = modeAfter r.begun.opcode p.mode := by
    have hop : r.begun.opcode = r.opcode := by rw [opcode, cmd_begun, opcode]
    rw [mode_begun, hop, cmd_begun, hm]
    exact ⟨(hsame r.cmd h).trans (emits_begun r), rfl⟩
  have hs : (p.offer b).state = p.state := rfl
  rw [dispatch, hs]
  cases hp : p.state with
  | disable => exact ⟨hsame _ rfl, rfl, .inl rfl⟩
  | execAsync => exact ⟨hsame _ rfl, rfl, .inl rfl⟩
  | exec =>
    have hc := Emits.continued (markedOnly_action p.cmd) (markedOnly_reply p.cmd) (p.offer b)
      (markedOnly_exec p.cmd)
    have hcmd : (p.offer b).continued.cmd = p.cmd := cmd_continued _
    dsimp only
    rw [hcmd]
    exact ⟨⟨hc.effects⟩, rfl, .inl (mode_continued _)⟩
  | readCmd =>
    dsimp only
    rw [readCommand, if_pos rfl]
    split_ifs
    · rw [fetchCmd_offer]
      exact ⟨hsame _ rfl, rfl, .inl rfl⟩
    · obtain ⟨h1, h2⟩ := hbegun (r := (p.offer b).fetchCmd) rfl rfl
      refine ⟨h1, ?_, .inr h2⟩
      rw [cmd_begun, fetchCmd_offer]
  | readArg =>
    dsimp only
    rw [if_neg (show PortState.readArg ≠ .readCmd by decide), readArgument]
    split_ifs
    · have he : Emits (MarkedOnly p.cmd) p (p.offer b).error :=
        Emits.error (markedOnly_call _ _) (hsame p.cmd (q := p.offer b) rfl)
      exact ⟨⟨he.effects⟩, rfl, .inl rfl⟩
    · obtain ⟨h1, h2⟩ := hbegun (r := (p.offer b).fetchArg) rfl rfl
      refine ⟨h1, ?_, .inr h2⟩
      rw [cmd_begun, fetchArg_offer]
      rfl
    · rw [fetchArg_offer]
      exact ⟨hsame _ rfl, rfl, .inl rfl⟩

/-- **What a byte does**: it executes at most the command being read. -/
theorem consume_spec (p : PortData) (b : Byte) :
    Emits (MarkedOnly (p.consume b).cmd) p (p.consume b) ∧
      (p.consume b).cmd = (if p.state = .readCmd then b else p.cmd) ∧
      ((p.consume b).mode = p.mode ∨
        (p.consume b).mode = modeAfter (p.consume b).opcode p.mode) := by
  obtain ⟨h1, h2, h3⟩ := dispatch_offer p b
  have hcmd := cmd_settle (p.offer b).dispatch
  obtain ⟨h4, h5, h6⟩ := emits_finishRx 255 (p.offer b).dispatch.settle
  rw [hcmd] at h4 h5
  have hop : (p.consume b).opcode = (p.offer b).dispatch.opcode := congrArg PortCmd.ofByte h5
  have hmode : (p.consume b).mode = (p.offer b).dispatch.mode := h6.trans (mode_settle _)
  rw [hop, hmode]
  refine ⟨?_, h5.trans h2, h3⟩
  rw [consume, h5]
  exact (emits_settle h1).trans h4

/-- A byte executes a transfer command only if the command being read is one. -/
theorem isTransfer_of_executes {b : Byte} (h : p.ExecutesTransfer b) :
    isTransfer (p.consume b).opcode := by
  obtain ⟨es, cmd, heff, hmem, htransfer⟩ := h
  obtain ⟨es', hes', heff'⟩ := (consume_spec p b).1.effects
  obtain rfl : es = es' := List.append_cancel_left (heff.symm.trans heff')
  rwa [opcode, ← hes' _ hmem cmd rfl]

/-- The bytes `bs`, written in the mode `tag`. -/
def tagged (tag : PortMode) (bs : List Byte) : List (PortMode × Byte) := bs.map (tag, ·)

@[simp] theorem map_snd_tagged (tag : PortMode) (bs : List Byte) :
    (tagged tag bs).map Prod.snd = bs := by
  simp [tagged, Function.comp_def]

theorem tagged_append (tag : PortMode) (bs bs' : List Byte) :
    tagged tag (bs ++ bs') = tagged tag bs ++ tagged tag bs' := List.map_append

/-- A byte is no part of a transfer command, or the port is in the mode of its writer. -/
theorem agrees_cons {b : Byte} {bs : List Byte}
    (h : isTransfer (p.consume b).opcode → p.mode = tag)
    (h' : Agrees (p.consume b) (tagged tag bs)) :
    Agrees p (tagged tag (b :: bs)) :=
  ⟨fun he => h (isTransfer_of_executes he), h'⟩

/-- The argument bytes of a command. -/
theorem agrees_args (args : List Byte) : ∀ p : PortData, p.state = .readArg →
    p.argLen = args.length → (isTransfer p.opcode → p.mode = tag) →
    Agrees p (tagged tag args) := by
  induction args with
  | nil => exact fun _ _ _ _ => trivial
  | cons b args ih =>
    intro p hs hlen hmode
    have hne : p.argLen ≠ 0 := by
      rw [hlen]
      exact Nat.succ_ne_zero _
    have hop : (p.consume b).opcode = p.opcode := by
      rw [opcode, (consume_spec p b).2.1, if_neg (by simp [hs]), opcode]
    refine agrees_cons (by rwa [hop]) ?_
    cases args with
    | nil => exact trivial
    | cons b' args =>
      have hcons : p.consume b = (p.offer b).fetchArg := by
        rw [consume_readArg hs hne, if_neg (by rw [hlen]; simp)]
      refine ih _ ?_ ?_ ?_
      · rw [hcons, fetchArg_offer]
        exact hs
      · rw [hcons, fetchArg_offer]
        show p.argLen - 1 = _
        rw [hlen]
        rfl
      · rw [hop, hcons, fetchArg_offer]
        exact hmode

/-- An opcode with its argument bytes. -/
theorem agrees_command (hs : p.state = .readCmd) {op : Byte} {args : List Byte}
    (hlen : args.length = portCmdArgs (PortCmd.ofByte op))
    (hmode : isTransfer (PortCmd.ofByte op) → p.mode = tag) :
    Agrees p (tagged tag (op :: args)) := by
  have hop : (p.consume op).opcode = PortCmd.ofByte op := by
    rw [opcode, (consume_spec p op).2.1, if_pos hs]
  refine agrees_cons (by rwa [hop]) ?_
  cases args with
  | nil => exact trivial
  | cons b args =>
    have hcons : p.consume op = { (p.offer op).fetchCmd with argPos := 0, state := .readArg } := by
      rw [consume_readCmd hs, if_pos (by rw [← hlen]; simp)]
    refine agrees_args _ _ ?_ ?_ ?_
    · rw [hcons]
    · rw [hcons, fetchCmd_offer]
      exact hlen.symm
    · rw [hop, hcons, fetchCmd_offer]
      exact hmode

/-- The payload of a command. -/
theorem agrees_payload (payload : List Byte) : ∀ p : PortData, p.state = .exec →
    serves p.opcode p.mode → p.opcode ≠ some .rx → payload.length = (p.argAt 0).toNat →
    (isTransfer p.opcode → p.mode = tag) → Agrees p (tagged tag payload) := by
  induction payload with
  | nil => exact fun _ _ _ _ _ _ => trivial
  | cons b payload ih =>
    intro p hs hserves hrx hlen hmode
    rw [List.length_cons] at hlen
    have h0 : p.argAt 0 ≠ 0#8 := by
      intro h
      rw [h] at hlen
      exact Nat.succ_ne_zero _ hlen
    obtain ⟨-, hcmd, -, hm, harg, hstate⟩ := consume_payload hs hserves hrx h0 b
    have hop : (p.consume b).opcode = p.opcode := by rw [opcode, hcmd, opcode]
    refine agrees_cons (by rwa [hop]) ?_
    cases payload with
    | nil => exact trivial
    | cons b' payload =>
      have hsub := sub_one_toNat h0
      rw [List.length_cons] at hlen
      have hz : p.argAt 0 - 1#8 ≠ 0#8 := by
        intro hz
        rw [hz] at hsub
        have : (0#8).toNat = 0 := rfl
        omega
      rw [if_neg hz] at hstate
      refine ih _ hstate (by rw [hop, hm]; exact hserves) (by rw [hop]; exact hrx) ?_
        (by rw [hop, hm]; exact hmode)
      rw [harg, hsub, List.length_cons]
      omega

/-! ### Transfer commands in another mode -/

/-- A transfer command that is begun is marked. -/
theorem exec_begun (h : isTransfer p.opcode) :
    ∃ es, p.begun.effects = p.effects ++ .exec p.cmd :: es := by
  have hemit : (p.emit (.exec p.cmd)).effects = p.effects ++ [.exec p.cmd] := rfl
  have hsend (b : Byte) : ∃ es, ((p.emit (.exec p.cmd)).sendStatus b).effects =
      p.effects ++ .exec p.cmd :: es := by
    unfold sendStatus
    split_ifs
    · exact ⟨[.call .disableChan], List.append_assoc _ [_] [_]⟩
    · exact ⟨[.reply b], List.append_assoc _ [_] [_]⟩
  rcases hop : p.opcode with _ | c
  · simp [isTransfer, hop] at h
  · cases c <;> simp only [isTransfer, hop] at h
    case tx =>
      simp only [begun, beginCmd, opcode_emit, hop]
      exact ⟨[], hemit⟩
    case rx =>
      simp only [begun, beginCmd, opcode_emit, hop]
      exact hsend _
    case txrx =>
      simp only [begun, beginCmd, opcode_emit, hop]
      exact hsend _
    case start =>
      simp only [begun, beginCmd, opcode_emit, hop]
      exact ⟨[.action (.i2cAddr (p.argAt 0))], List.append_assoc _ [_] [_]⟩
    all_goals cases h

/-- **A transfer command is executed in the mode of the port**, whoever wrote it. -/
theorem not_agrees_command (hs : p.state = .readCmd) (hm : p.mode ≠ tag) {op : Byte}
    (htransfer : isTransfer (PortCmd.ofByte op)) (a : Byte) (bs : List Byte) :
    ¬ Agrees p (tagged tag (op :: a :: bs)) := by
  intro h
  have hargs : portCmdArgs (PortCmd.ofByte op) = 1 := by
    revert htransfer
    rcases PortCmd.ofByte op with _ | c
    · decide
    · cases c <;> decide
  have hcons : p.consume op = { (p.offer op).fetchCmd with argPos := 0, state := .readArg } := by
    rw [consume_readCmd hs, if_pos (by rw [hargs]; exact Nat.one_pos)]
  have hlen : (p.consume op).argLen = 1 := by
    rw [hcons, fetchCmd_offer]
    exact hargs
  have hmode : (p.consume op).mode = p.mode := by
    rw [hcons, fetchCmd_offer]
    rfl
  have hcmd : (p.consume op).cmd = op := by rw [(consume_spec p op).2.1, if_pos hs]
  refine hm (hmode.symm.trans (h.2.1 ?_))
  generalize p.consume op = q at hlen hcmd hcons ⊢
  have hqs : q.state = .readArg := by rw [hcons]
  have hqcmd : (q.offer a).fetchArg.cmd = op := by
    rw [fetchArg_offer]
    exact hcmd
  have hqeff : (q.offer a).fetchArg.effects = q.effects := by
    rw [fetchArg_offer]
    rfl
  obtain ⟨es, hes⟩ := exec_begun (p := (q.offer a).fetchArg) (by rw [opcode, hqcmd]; exact htransfer)
  obtain ⟨es', -, hes'⟩ := (emits_finishRx 255 (q.offer a).fetchArg.begun.settle).1.effects
  have heq : q.consume a = finishRx 255 (q.offer a).fetchArg.begun.settle := by
    rw [consume_readArg hqs (by rw [hlen]; exact Nat.one_ne_zero), if_pos hlen]
  refine ⟨.exec op :: es ++ es', op, ?_, by simp, htransfer⟩
  rw [heq, hes', effects_settle, hes, hqcmd, hqeff, List.append_assoc]

theorem modeAfter_of_continue {c : Option PortCmd} (h : statusOf c = .continue) (m : PortMode) :
    modeAfter c m = m := by
  revert h
  rcases c with _ | c
  · exact fun _ => rfl
  · cases c <;> simp [statusOf, modeAfter]

/-- A command with a payload keeps its length when it is begun. -/
theorem argAt_begun (h : statusOf p.opcode = .continue) : p.begun.argAt 0 = p.argAt 0 := by
  have hsend (b : Byte) : ((p.emit (.exec p.cmd)).sendStatus b).argAt 0 = p.argAt 0 := by
    unfold sendStatus
    split_ifs <;> rfl
  rcases hop : p.opcode with _ | c
  · simp [statusOf, hop] at h
  · cases c <;> simp only [statusOf, hop, reduceCtorEq] at h
    case tx =>
      simp only [begun, beginCmd, opcode_emit, hop]
      rfl
    all_goals
      simp only [begun, beginCmd, opcode_emit, hop]
      exact hsend _

/-! ### Packets -/

/-- The bytes `bs` are whole commands that can be written in the mode `tag`: `needs` says whether
there is a transfer command among them, and `sets` what they do to the mode. -/
structure Packets (tag : PortMode) (needs : Bool) (sets : PortMode → PortMode)
    (bs : List Byte) : Prop where
  run : ∀ p : PortData, p.state = .readCmd → (needs → p.mode = tag) →
    Agrees p (tagged tag bs) ∧ (p.consumeAll bs).state = .readCmd ∧
      (p.consumeAll bs).mode = sets p.mode
  stop : needs → ∀ p : PortData, p.state = .readCmd → p.mode ≠ tag →
    ¬ Agrees p (tagged tag bs)

namespace Packets

variable {needs needs' : Bool} {sets sets' : PortMode → PortMode} {bs bs' : List Byte}

theorem nil (tag : PortMode) : Packets tag false id [] :=
  ⟨fun _ hs _ => ⟨trivial, hs, rfl⟩, nofun⟩

/-- Packets one after the other; the mode that a transfer needs is not set before it. -/
theorem append (h : Packets tag needs sets bs) (h' : Packets tag needs' sets' bs')
    (hsets : needs' → sets = id) :
    Packets tag (needs || needs') (sets' ∘ sets) (bs ++ bs') where
  run := by
    intro p hs hneeds
    obtain ⟨h1, h2, h3⟩ := h.run p hs fun hn => hneeds (by simp [hn])
    have hneeds' : needs' → (p.consumeAll bs).mode = tag := by
      intro hn
      rw [h3, hsets hn]
      exact hneeds (by simp [hn])
    obtain ⟨h4, h5, h6⟩ := h'.run _ h2 hneeds'
    rw [tagged_append, agrees_append, map_snd_tagged, consumeAll_append]
    exact ⟨⟨h1, h4⟩, h5, by rw [h6, h3]; rfl⟩
  stop := by
    intro hn p hs hm hagrees
    rw [tagged_append, agrees_append, map_snd_tagged] at hagrees
    by_cases hneeds : needs = true
    · exact h.stop hneeds p hs hm hagrees.1
    · have hn' : needs' = true := by simpa [hneeds] using hn
      obtain ⟨-, h2, h3⟩ := h.run p hs fun hn => absurd hn hneeds
      rw [hsets hn'] at h3
      exact h'.stop hn' _ h2 (by rw [h3]; exact hm) hagrees.2

/-- A command without a payload that is no transfer. -/
theorem done (tag : PortMode) (op : Byte) (args : List Byte)
    (hlen : args.length = portCmdArgs (PortCmd.ofByte op))
    (hst : statusOf (PortCmd.ofByte op) = .done)
    (htransfer : isTransfer (PortCmd.ofByte op) = false) :
    Packets tag false (modeAfter (PortCmd.ofByte op)) (op :: args) := by
  refine ⟨fun p hs _ => ⟨?_, ?_⟩, nofun⟩
  · exact agrees_command hs hlen fun h => by simp [htransfer] at h
  · obtain ⟨r, hr, heq⟩ := consumeAll_done hs hlen hst
    have hop : r.opcode = PortCmd.ofByte op := hr.opcode
    rw [heq, state_begun, mode_begun, hop, hst, hr.mode]
    exact ⟨rfl, rfl⟩

/-- A command with one argument and a payload from the host. -/
theorem payload (tag : PortMode) (op : Byte) (hst : statusOf (PortCmd.ofByte op) = .continue)
    (hargs : portCmdArgs (PortCmd.ofByte op) = 1) (hrx : PortCmd.ofByte op ≠ some .rx)
    {needs : Bool} (hneeds : isTransfer (PortCmd.ofByte op) = needs)
    (hserves : ∀ m, (needs → m = tag) → serves (PortCmd.ofByte op) m)
    {bytes : List Byte} (hne : bytes ≠ []) (hle : bytes.length ≤ 255) :
    Packets tag needs id (op :: BitVec.ofNat 8 bytes.length :: bytes) := by
  refine ⟨fun p hs hmode => ?_, fun hn p hs hm => not_agrees_command hs hm (by rw [hneeds, hn]) _ _⟩
  have hlen : [BitVec.ofNat 8 bytes.length].length = portCmdArgs (PortCmd.ofByte op) := hargs.symm
  obtain ⟨r, hr, heq⟩ := consumeAll_continue hs hlen hst hrx
  have hrop : r.opcode = PortCmd.ofByte op := hr.opcode
  have hop : r.begun.opcode = PortCmd.ofByte op := by rw [opcode, cmd_begun, hr.cmd]
  have hstate : r.begun.state = .exec := by
    rw [state_begun, hrop, hst]
    rfl
  have hset : modeAfter (PortCmd.ofByte op) p.mode = p.mode := modeAfter_of_continue hst _
  have hrmode : r.begun.mode = p.mode := by rw [mode_begun, hrop, hr.mode, hset]
  have harg : (r.begun.argAt 0).toNat = bytes.length := by
    rw [argAt_begun (by rw [hrop, hst]), hr.arg 0 (by simp)]
    exact Nat.mod_eq_of_lt (by omega)
  have hserves' : serves r.begun.opcode r.begun.mode := by
    rw [hop, hrmode]
    exact hserves _ hmode
  have hrx' : r.begun.opcode ≠ some .rx := by
    rw [hop]
    exact hrx
  have hsplit : op :: BitVec.ofNat 8 bytes.length :: bytes =
      (op :: [BitVec.ofNat 8 bytes.length]) ++ bytes := rfl
  obtain ⟨h1, h2, -⟩ := consumeAll_payload bytes r.begun hstate hserves' hrx' hne harg.symm
  rw [hsplit, tagged_append, agrees_append, map_snd_tagged, consumeAll_append, heq]
  refine ⟨⟨agrees_command hs hlen fun ht => hmode (by rw [← hneeds, ht]), ?_⟩, h1, h2.trans hrmode⟩
  refine agrees_payload bytes r.begun hstate hserves' hrx' harg.symm fun ht => ?_
  rw [hrmode]
  exact hmode (by rw [← hneeds, ← hop, ht])

/-- START. -/
theorem start (tag : PortMode) (a : Byte) : Packets tag true id [19#8, a] := by
  refine ⟨fun p hs hmode => ?_, fun _ p hs hm => not_agrees_command hs hm rfl _ _⟩
  refine ⟨agrees_command hs rfl fun _ => hmode rfl, ?_⟩
  have hargs : [a].length = portCmdArgs (PortCmd.ofByte 19#8) := rfl
  obtain ⟨r, hr, heq⟩ := consumeAll_command hs hargs
  have hop : r.opcode = some .start := by
    rw [opcode, hr.cmd]
    rfl
  have hbegun : r.begun = { (((r.emit (.exec r.cmd)).act (.i2cAddr (r.argAt 0))).setArg0
      0#8).startTransfer .i2c with state := .execAsync } := by
    simp only [begun, beginCmd, opcode_emit, hop]
    rfl
  have hsettle : r.begun.settle = r.begun.transferred :=
    settle_of_transfer (by rw [hbegun]) (by rw [hbegun]; exact Option.some_ne_none _)
  have hstate : r.begun.transferred.state = .readCmd := by
    have harg : r.begun.argAt 0 = 0#8 := by
      rw [hbegun]
      exact argAt_setArg0 _ _
    show r.begun.payloadStatus.toState = _
    rw [payloadStatus, if_pos harg]
    rfl
  rw [heq, hsettle, finishRx_of_ne _ (.inl (by simp [hstate]))]
  refine ⟨hstate, ?_⟩
  show r.begun.mode = p.mode
  rw [mode_begun, hop, hr.mode]
  rfl

/-- RX. -/
theorem rx {n : ℕ} (hn : n ≠ 0) (hle : n ≤ 255) (htag : tag = .spi ∨ tag = .i2c) :
    Packets tag true id [17#8, BitVec.ofNat 8 n] := by
  refine ⟨fun p hs hmode => ?_, fun _ p hs hm => not_agrees_command hs hm rfl _ _⟩
  refine ⟨agrees_command hs rfl fun _ => hmode rfl, ?_⟩
  have hargs : [BitVec.ofNat 8 n].length = portCmdArgs (PortCmd.ofByte 17#8) := rfl
  obtain ⟨r, hr, heq⟩ := consumeAll_command hs hargs
  have hrop : r.opcode = some .rx := by
    rw [opcode, hr.cmd]
    rfl
  have hop : r.begun.opcode = some .rx := by rw [opcode, cmd_begun, ← hrop, opcode]
  have hstate : r.begun.state = .exec := by
    rw [state_begun, hrop]
    rfl
  have hrmode : r.begun.mode = p.mode := by
    rw [mode_begun, hrop, hr.mode]
    rfl
  have harg : (r.begun.argAt 0).toNat = n := by
    rw [argAt_begun (by rw [hrop]; rfl), hr.arg 0 (by simp)]
    exact Nat.mod_eq_of_lt (by omega)
  have hne : r.begun.argAt 0 ≠ 0#8 := by
    intro h
    rw [h] at harg
    exact hn harg.symm
  have hserves : serves r.begun.opcode r.begun.mode := by
    rw [hop, hrmode, hmode rfl]
    obtain rfl | rfl := htag <;> rfl
  obtain ⟨h1, h2, -⟩ := finishRx_done 255 r.begun hstate hop hserves hne (by rw [harg]; exact hle)
  rw [heq, settle_of_ne (by simp [hstate])]
  exact ⟨h1, h2.trans hrmode⟩

end Packets

end PortData

end TesselFirmware
