import TesselFirmware.Port.Progress

/-!
# What the port answers

`PortData.added p b` is what the reference puts into the reply while it executes the byte `b`, and
`PortData.replyOf p bs` what it puts there for several bytes.

* `consumeAll_simple` : a command with one argument and without a payload;
* `opened_consumeAll`, `added_payload` : a payload that is answered byte by byte;
* `consumeAll_rx`, `consumeAll_tx` : RX and TX commands.
-/

namespace TesselFirmware

namespace PortData

variable {p q : PortData} {bs cs : List Byte}

/-- What the port puts into the reply while it executes a byte. -/
def added (p : PortData) (b : Byte) : List Byte :=
  (p.consume b).replied.drop p.replied.length

/-- What the port replies to a command stream. -/
def replyOf (p : PortData) (bs : List Byte) : List Byte :=
  (p.consumeAll bs).replied.drop p.replied.length

theorem replied_consume (p : PortData) (b : Byte) :
    (p.consume b).replied = p.replied ++ p.added b := by
  obtain ⟨es, -, he⟩ := (consume_spec p b).1.effects
  have hr : (p.consume b).replied = p.replied ++ es.filterMap Effect.replied := by
    rw [replied, he, List.filterMap_append]
    rfl
  rw [added, hr, List.drop_left]

theorem replied_consumeAll (p : PortData) (bs : List Byte) :
    (p.consumeAll bs).replied = p.replied ++ p.replyOf bs := by
  -- what has been replied stays where it is
  have hext : ∃ cs, (p.consumeAll bs).replied = p.replied ++ cs := by
    induction bs generalizing p with
    | nil => exact ⟨[], (List.append_nil _).symm⟩
    | cons b bs ih =>
      obtain ⟨cs, hcs⟩ := ih (p.consume b)
      refine ⟨p.added b ++ cs, ?_⟩
      rw [consumeAll_cons, hcs, replied_consume, List.append_assoc]
  obtain ⟨cs, hcs⟩ := hext
  rw [replyOf, hcs, List.drop_left]

theorem replyOf_eq (h : (p.consumeAll bs).replied = p.replied ++ cs) : p.replyOf bs = cs :=
  List.append_cancel_left ((replied_consumeAll p bs).symm.trans h)

@[simp] theorem replyOf_nil (p : PortData) : p.replyOf [] = [] :=
  replyOf_eq (List.append_nil _).symm

theorem replyOf_cons (p : PortData) (b : Byte) (bs : List Byte) :
    p.replyOf (b :: bs) = p.added b ++ (p.consume b).replyOf bs := by
  refine replyOf_eq ?_
  rw [consumeAll_cons, replied_consumeAll, replied_consume, List.append_assoc]

theorem replyOf_append (p : PortData) (bs cs : List Byte) :
    p.replyOf (bs ++ cs) = p.replyOf bs ++ (p.consumeAll bs).replyOf cs := by
  refine replyOf_eq ?_
  rw [consumeAll_append, replied_consumeAll, replied_consumeAll, List.append_assoc]

/-! ### Commands with one argument -/

/-- The argument is waited for. -/
theorem added_opcode (hs : p.state = .readCmd) {op : Byte}
    (hargs : portCmdArgs (PortCmd.ofByte op) = 1) : p.added op = [] := by
  have hsame : (p.consume op).replied = p.replied := by
    rw [consume_readCmd hs, if_pos (by rw [hargs]; exact Nat.one_pos), fetchCmd_offer]
    rfl
  rw [added, hsame, List.drop_length]

/-- The whole answer comes with the argument. -/
theorem added_argument (hs : p.state = .readCmd) {op : Byte} (a : Byte)
    (hargs : portCmdArgs (PortCmd.ofByte op) = 1) :
    (p.consume op).added a = p.replyOf [op, a] := by
  rw [replyOf_cons, replyOf_cons, replyOf_nil, List.append_nil, added_opcode hs hargs]
  rfl

/-- A command that has been loaded is answered as `port_begin_cmd` does it. -/
theorem replied_begun_of_loaded {r : PortData} {op : Byte} {args : List Byte}
    (hr : Loaded p op args r) (hpwm : PortCmd.ofByte op ≠ some .pwmDutyCycle) :
    r.begun.replied = p.replied ++ r.beginReply := by
  have hop : r.opcode = PortCmd.ofByte op := hr.opcode
  have hlen : r.beginReply.length ≤ 3 := by
    unfold beginReply
    split
    all_goals simp
  have hb : bridgeBufSize = 255 := rfl
  have hfits : r.beginFits := by
    rw [beginFits, hr.replyLen, hop, hb, Bool.and_eq_true, decide_eq_true_eq, Bool.or_eq_true,
      bne_iff_ne]
    exact ⟨by omega, .inl hpwm⟩
  rw [(appended_begun hfits).replied, replied, replied, hr.effects]

/-- A command without a payload. -/
theorem consumeAll_simple (hs : p.state = .readCmd) {op : Byte} {args : List Byte}
    (hlen : args.length = portCmdArgs (PortCmd.ofByte op))
    (hst : statusOf (PortCmd.ofByte op) = .done)
    (hpwm : PortCmd.ofByte op ≠ some .pwmDutyCycle) :
    (p.consumeAll (op :: args)).state = .readCmd ∧
      ∃ r : PortData, r.opcode = PortCmd.ofByte op ∧ p.replyOf (op :: args) = r.beginReply := by
  obtain ⟨r, hr, heq⟩ := consumeAll_done hs hlen hst
  have hop : r.opcode = PortCmd.ofByte op := hr.opcode
  have hstate : r.begun.state = .readCmd := by
    rw [state_begun, hop, hst]
    rfl
  refine ⟨heq ▸ hstate, r, hop, replyOf_eq ?_⟩
  rw [heq]
  exact replied_begun_of_loaded hr hpwm

/-- The command replies something, or has a payload that it may reply. -/
def replies (c : Option PortCmd) : Bool :=
  c == some .echo || c == some .rx || c == some .txrx || c == some .gpioIn ||
    c == some .gpioRawRead || c == some .analogRead

theorem beginReply_eq_nil (h : replies p.opcode = false) : p.beginReply = [] := by
  unfold beginReply
  unfold replies at h
  split <;> simp_all

/-- What a command with a payload replies when it is begun. -/
def openReply (c : Option PortCmd) : List Byte := if c = some .tx then [] else [replyData]

theorem beginReply_of_continue (h : statusOf p.opcode = .continue) :
    p.beginReply = openReply p.opcode := by
  unfold beginReply openReply
  unfold statusOf at h
  split at h <;> simp_all

/-- A command with a payload does nothing yet when it is begun. -/
theorem actions_begun_of_continue (h : statusOf p.opcode = .continue) :
    p.begun.actions = p.actions := by
  have hexec : (p.emit (.exec p.cmd)).actions = p.actions :=
    congrArg Progress.actions (progress_emit_exec p p.cmd)
  have hsend (b : Byte) : ((p.emit (.exec p.cmd)).sendStatus b).actions = p.actions := by
    unfold sendStatus
    split_ifs
    · exact (congrArg Progress.actions (progress_error _)).trans hexec
    · exact (congrArg Progress.actions (progress_appendByte _ b)).trans hexec
  rcases hop : p.opcode with _ | c
  · simp [statusOf, hop] at h
  · cases c <;> simp only [statusOf, hop, reduceCtorEq] at h
    case tx =>
      simp only [begun, beginCmd, opcode_emit, hop]
      exact hexec
    all_goals
      simp only [begun, beginCmd, opcode_emit, hop]
      exact hsend _

/-- A command with a payload is begun: its length has been read. -/
structure Opened (p q : PortData) (op a : Byte) : Prop where
  state : q.state = .exec
  opcode : q.opcode = PortCmd.ofByte op
  mode : q.mode = p.mode
  arg : q.argAt 0 = a
  replied : q.replied = p.replied ++ openReply (PortCmd.ofByte op)
  actions : q.actions = p.actions

theorem Loaded.opened {r : PortData} {op a : Byte} (hr : Loaded p op [a] r)
    (hst : statusOf (PortCmd.ofByte op) = .continue) : Opened p r.begun op a := by
  have hop : r.opcode = PortCmd.ofByte op := hr.opcode
  have hpwm : PortCmd.ofByte op ≠ some .pwmDutyCycle := by
    intro h
    rw [h] at hst
    cases hst
  refine ⟨?_, ?_, ?_, ?_, ?_, ?_⟩
  · rw [state_begun, hop, hst]
    rfl
  · rw [PortData.opcode, cmd_begun, ← PortData.opcode, hop]
  · rw [mode_begun, hop, hr.mode, modeAfter_of_continue hst]
  · rw [argAt_begun (by rw [hop, hst]), hr.arg 0 (by simp)]
    rfl
  · rw [replied_begun_of_loaded hr hpwm, beginReply_of_continue (by rw [hop, hst]), hop]
  · rw [actions_begun_of_continue (by rw [hop, hst]), PortData.actions, PortData.actions,
      hr.effects]

/-- The payload of the command comes from the host. -/
theorem opened_consumeAll (hs : p.state = .readCmd) {op : Byte} (a : Byte)
    (hargs : portCmdArgs (PortCmd.ofByte op) = 1)
    (hst : statusOf (PortCmd.ofByte op) = .continue) (hrx : PortCmd.ofByte op ≠ some .rx) :
    Opened p (p.consumeAll [op, a]) op a := by
  have hone : [a].length = portCmdArgs (PortCmd.ofByte op) := hargs.symm
  obtain ⟨r, hr, heq⟩ := consumeAll_continue hs hone hst hrx
  rw [heq]
  exact hr.opened hst

/-- RX is executed when its length has been read. -/
theorem consumeAll_rx (hs : p.state = .readCmd) {a : Byte} (ha : a ≠ 0#8)
    (hserves : serves (some .rx) p.mode) :
    (p.consumeAll [17#8, a]).state = .readCmd ∧
      ∃ bs, bs.length = a.toNat ∧
        p.replyOf [17#8, a] = replyData :: bs := by
  have hone : [a].length = portCmdArgs (PortCmd.ofByte 17#8) := rfl
  obtain ⟨r, hr, heq⟩ := consumeAll_command hs hone
  have ho : Opened p r.begun 17#8 a := hr.opened rfl
  have hop : r.begun.opcode = some .rx := ho.opcode
  have hserves' : serves r.begun.opcode r.begun.mode := by
    rw [hop, ho.mode]
    exact hserves
  have h0 : r.begun.argAt 0 ≠ 0#8 := by rwa [ho.arg]
  have hle : (r.begun.argAt 0).toNat ≤ 255 := Nat.le_of_lt_succ (r.begun.argAt 0).isLt
  have hsettle : r.begun.settle = r.begun := settle_of_ne (by simp [ho.state])
  have hprog := progress_finishRx 255 r.begun ho.state hop hserves' h0 hle
  have hreply : r.begun.progress.partReply (List.replicate a.toNat dummyTx) =
      r.begun.progress.answerBytes a.toNat := by
    have hopg : r.begun.progress.opcode = some .rx := hop
    simp [Progress.partReply, hopg, Progress.listens]
  rw [hsettle] at heq
  refine ⟨heq ▸ (finishRx_done 255 r.begun ho.state hop hserves' h0 hle).1,
    r.begun.progress.answerBytes a.toNat, ?_, replyOf_eq ?_⟩
  · simp [Progress.answerBytes]
  · rw [heq]
    have hreplied := congrArg Progress.replied hprog
    rw [ho.arg] at hreplied
    refine hreplied.trans ?_
    show r.begun.replied ++ r.begun.progress.partReply (List.replicate a.toNat dummyTx) = _
    rw [hreply, ho.replied, List.append_assoc]
    rfl

/-- The command answers every byte of its payload with a byte. -/
def echoes (c : Option PortCmd) : Bool := c == some .echo || c == some .txrx

/-- A byte of a payload that is answered. -/
theorem added_payload (hs : p.state = .exec) (hserves : serves p.opcode p.mode)
    (hop : echoes p.opcode) (h0 : p.argAt 0 ≠ 0#8) (b : Byte) : (p.added b).length = 1 := by
  have hrx : p.opcode ≠ some .rx := by
    intro h
    rw [h] at hop
    cases hop
  have hprog := progress_consume hs hserves hrx h0 b
  have hreplied : (p.consume b).replied = p.replied ++ p.progress.partReply [b] :=
    congrArg Progress.replied hprog
  rw [added, hreplied, List.drop_left, Progress.partReply]
  have hopg : p.progress.opcode = p.opcode := rfl
  rw [hopg]
  simp only [echoes, Bool.or_eq_true, beq_iff_eq] at hop
  obtain hop | hop := hop
  · simp [hop]
  · simp [hop, Progress.listens, Progress.answerBytes]

/-- The port has not completed the reply. -/
theorem dataOpen_of_exec (hs : p.state = .exec) (hop : echoes p.opcode) : p.dataOpen = true := by
  simp only [echoes, Bool.or_eq_true, beq_iff_eq] at hop
  obtain hop | hop := hop
  · simp [dataOpen, hs, hop]
  · simp [dataOpen, hs, hop]

/-- The port, which waits for a command, takes the bytes `bs` for a TX command: it begins it with the
length of `payload` in `arg[0]`, sends all of the payload, and waits again. -/
structure DecodesTx (p : PortData) (bs payload : List Byte) : Prop where
  length : 1 ≤ payload.length ∧ payload.length ≤ 255
  begun : ∃ head, bs = head ++ payload ∧ (p.consumeAll head).state = .exec ∧
    (p.consumeAll head).opcode = some .tx ∧
      ((p.consumeAll head).argAt 0).toNat = payload.length
  actions : (p.consumeAll bs).actions =
    p.actions ++ Progress.partActions (some .tx) p.mode payload
  replied : p.replyOf bs = []
  state : (p.consumeAll bs).state = .readCmd
  mode : (p.consumeAll bs).mode = p.mode

/-- TX commands one after the other, with their payloads. -/
inductive DecodesTxs : PortData → List Byte → List (List Byte) → Prop
  | nil {p : PortData} (hs : p.state = .readCmd) : DecodesTxs p [] []
  | cons {p : PortData} {bs bs' payload : List Byte} {payloads : List (List Byte)}
      (h : DecodesTx p bs payload) (h' : DecodesTxs (p.consumeAll bs) bs' payloads) :
      DecodesTxs p (bs ++ bs') (payload :: payloads)

/-- **A TX command.** -/
theorem decodesTx (hs : p.state = .readCmd) (hm : p.mode ≠ .none) {payload : List Byte}
    (hne : payload ≠ []) (hle : payload.length ≤ 255) :
    DecodesTx p (16#8 :: BitVec.ofNat 8 payload.length :: payload) payload := by
  have ho : Opened p (p.consumeAll [16#8, BitVec.ofNat 8 payload.length]) 16#8
      (BitVec.ofNat 8 payload.length) := opened_consumeAll hs _ rfl rfl (by decide)
  have hsplit : p.consumeAll (16#8 :: BitVec.ofNat 8 payload.length :: payload) =
      (p.consumeAll [16#8, BitVec.ofNat 8 payload.length]).consumeAll payload :=
    consumeAll_append p [_, _] payload
  have hlen : ((p.consumeAll [16#8, BitVec.ofNat 8 payload.length]).argAt 0).toNat =
      payload.length := by
    rw [ho.arg]
    exact Nat.mod_eq_of_lt (by omega)
  have hbegun : ∃ head, 16#8 :: BitVec.ofNat 8 payload.length :: payload = head ++ payload ∧
      (p.consumeAll head).state = .exec ∧ (p.consumeAll head).opcode = some .tx ∧
        ((p.consumeAll head).argAt 0).toNat = payload.length :=
    ⟨[_, _], rfl, ho.state, ho.opcode, hlen⟩
  have hpos := List.length_pos_iff.2 hne
  generalize p.consumeAll [16#8, BitVec.ofNat 8 payload.length] = q at ho hsplit hlen
  have hop : q.opcode = some .tx := ho.opcode
  have hserves : serves q.opcode q.mode := by
    rw [hop, ho.mode]
    cases hmode : p.mode <;> simp [serves, hmode] at hm ⊢
  have hrx : q.opcode ≠ some .rx := by
    rw [hop]
    decide
  obtain ⟨hstate, hmode, -⟩ := consumeAll_payload payload q ho.state hserves hrx hne hlen.symm
  obtain ⟨hprog, -⟩ := progress_consumeAll payload q ho.state hserves hrx hne hlen.ge
  have hopg : q.progress.opcode = some .tx := hop
  have hactions : (q.consumeAll payload).actions =
      q.actions ++ Progress.partActions q.opcode q.mode payload := congrArg Progress.actions hprog
  have hreplied : (q.consumeAll payload).replied = q.replied ++ q.progress.partReply payload :=
    congrArg Progress.replied hprog
  have hnone : q.progress.partReply payload = [] := by
    simp [Progress.partReply, hopg, Progress.listens]
  rw [hop, ho.mode, ho.actions, ← hsplit] at hactions
  refine ⟨⟨hpos, hle⟩, hbegun, hactions, replyOf_eq ?_, ?_, ?_⟩
  · rw [hsplit, hreplied, hnone, List.append_nil, ho.replied]
    rfl
  · rw [hsplit]
    exact hstate
  · rw [hsplit]
    exact hmode.trans ho.mode

namespace DecodesTxs

variable {payloads : List (List Byte)}

theorem state (h : DecodesTxs p bs payloads) : (p.consumeAll bs).state = .readCmd := by
  induction h with
  | nil hs => exact hs
  | cons h h' ih => rwa [consumeAll_append]

theorem replied (h : DecodesTxs p bs payloads) : p.replyOf bs = [] := by
  induction h with
  | nil hs => exact replyOf_nil _
  | cons h h' ih => rw [replyOf_append, h.replied, ih, List.append_nil]

end DecodesTxs

end PortData

end TesselFirmware
