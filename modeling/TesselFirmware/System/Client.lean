import TesselFirmware.Link.Map
import TesselFirmware.Link.Request
import TesselFirmware.Link.Told
import TesselFirmware.Port.Service
import TesselFirmware.System.Basic

/-!
# A port as a client of the bridge

What a port and the link have in common while a connection of the port is open: the account of the
connection (`Transport.Carried`), the buffer of the reply that is with the bridge, the request for
the next packet, and the calls that are still on their way to the bridge.

* `Client` : the agreement, and what the steps of the link, of the completion handler and of the
  port do with it;
* `Client.of_open` : it holds when the port is enabled for a connection.
-/

namespace TesselFirmware

open Bridge ControlPkt Transport

/-- The port `p` and the link agree on a channel: `a` is the account of its connection, `out` and
`inn` are the request for a packet and the reply that have not reached the bridge yet. -/
structure Client (l : Link Sent) (ch : Chan) (p : PortData) (a : Account) (out : Bool)
    (inn : Option (List Byte)) : Prop where
  carried : Carried (l.map Sent.byte) ch a
  passed : p.sentBytes = a.passed ++ inn.getD []
  buffer : a.busy → p.pendingIn ∧ p.replyBuf.content a.mem.length = a.mem
  asked : out = false → l.Asked ch p.pendingOut
  unasked : out → p.pendingOut ∧ l.Unasked ch
  inn : ∀ bs, inn = some bs → a.busy = false ∧ p.pendingIn ∧ p.replyBuf.content bs.length = bs
  kept : a.kept = false → .call .disableChan ∈ p.effects
  told : l.told ch

namespace Link

variable {l : Link Sent} {rx : ControlPkt} {ch : Chan}

/-- No connection is accepted on a channel while its client has one. -/
theorem InOrder.conns_setup (ho : l.InOrder) (hopen : l.Opening ch) (htold : l.told ch) {p : Polls}
    (hphase : l.phase = .low p) (sys : SysCalls) :
    (l.setup p sys none none).spid.conns ch = l.spid.conns ch := by
  have hfol := hopen.phase
  have hset := ho.inPhase
  rw [hphase] at hfol hset
  obtain ⟨hsock, -⟩ := ho.polls p hphase ch
  have hserve := Spid.chan_serve l.spid p sys ch
  obtain ⟨hconns, -⟩ | ⟨-, -, hk⟩ := ChanState.Sound.conns_serve sys hsock (c := l.spid.chan ch)
  · rw [← hserve] at hconns
    exact hconns
  · rw [told_of_idle hset.1.handler, hfol.2 hk] at htold
    cases htold

/-- The data phase opens no connection of a listening channel. -/
theorem InOrder.conns_transfer (ho : l.InOrder) (hch : ch ≠ usbdChannel)
    (hphase : l.phase = .high rx) (ha : l.Agrees rx) (sys : SysCalls) (mem : Desc → List Sent)
    (pad : List Sent) :
    (l.transfer Sent.dummy rx sys mem pad).spid.conns ch = l.spid.conns ch := by
  have hchan := congrArg ChanState.conns
    (ho.chan_transfer hphase ha Sent.dummy sys mem pad ch)
  have hplan : ((l.managed rx sys.socket ch).plan (rx.ready ch)).conns =
      (l.managed rx sys.socket ch).conns := by
    unfold ChanState.plan
    split_ifs <;> rfl
  have hmanage : (l.managed rx sys.socket ch).conns = (l.spid.chan ch).conns := by
    unfold managed ChanState.manage
    rw [if_neg hch]
    split_ifs <;> rfl
  exact hchan.trans (hplan.trans hmanage)

end Link

namespace Client

open Link

variable {l : Link Sent} {ch : Chan} {p q : PortData} {a : Account} {out : Bool}
  {inn : Option (List Byte)} {rx : ControlPkt}

/-! ### The port -/

theorem sent_of_quiet {e : Effect} (h : e.quiet) : e.sent = [] := by
  cases e with
  | call c =>
    rw [h c rfl]
    rfl
  | _ => rfl

/-- **An event of the port**, when everything that it has passed before is with the bridge. -/
theorem handle (h : Client l ch p a false none) (hp : p.Passes q out inn) :
    Client l ch q a out inn := by
  obtain ⟨es, hes, heff⟩ := hp.effects
  have hbusy (hb : a.busy) : p.pendingIn := (h.buffer hb).1
  have hpassed : p.sentBytes = a.passed := h.passed.trans (List.append_nil _)
  constructor
  case carried => exact h.carried
  case passed =>
    have hsent : es.flatMap Effect.sent = [] :=
      List.flatMap_eq_nil_iff.2 fun e he => sent_of_quiet (hes e he)
    have hout : (if out then [Effect.call .startOut] else []).flatMap Effect.sent = [] := by
      split_ifs <;> rfl
    have hinn : (inn.map fun bs => Effect.call (.startIn bs)).toList.flatMap Effect.sent =
        inn.getD [] := by
      cases inn with
      | none => rfl
      | some bs => exact List.append_nil bs
    rw [PortData.sentBytes, heff, List.flatMap_append, List.flatMap_append, List.flatMap_append,
      hsent, hout, hinn, List.nil_append, List.append_nil]
    exact congrArg (· ++ inn.getD []) hpassed
  case buffer =>
    intro hb
    obtain ⟨hin, hc⟩ := h.buffer hb
    refine ⟨?_, ?_⟩
    · rw [hp.pendingIn, hin, Bool.true_or]
    · rwa [hp.replyBuf hin]
  case asked =>
    rintro rfl
    rw [hp.pendingOut, Bool.or_false]
    exact h.asked rfl
  case unasked =>
    intro hout
    refine ⟨?_, .inl ?_⟩
    · rw [hp.pendingOut, hout, Bool.or_true]
    · have hask := h.asked rfl
      rwa [hp.out hout] at hask
  case inn =>
    intro bs hbs
    obtain ⟨hin, hc⟩ := hp.inn bs hbs
    refine ⟨Bool.eq_false_of_not_eq_true fun hb => ?_, ?_, hc⟩
    · rw [hbusy hb] at hin
      cases hin
    · rw [hp.pendingIn, hbs, Option.isSome_some, Bool.or_true]
  case kept =>
    intro hk
    rw [heff]
    exact List.mem_append_left _ (h.kept hk)
  case told => exact h.told

/-! ### Calls -/

/-- A call of another client. -/
theorem call (h : Client l ch p a out inn) {c : Call} (hc : c.chan ≠ ch) :
    Client { l with bridge := l.bridge.call c } ch p a out inn := by
  have hsize : (l.bridge.call c).inChanSize ch = l.bridge.inChanSize ch := by
    cases c with
    | startIn d data n => exact Function.update_of_ne (Ne.symm hc) _ _
    | startOut d data => rfl
    | enableChan d => rfl
    | disableChan d => exact Function.update_of_ne (Ne.symm hc) _ _
  have hready : (l.bridge.call c).ready ch → l.bridge.ready ch :=
    ready_of_ready_call fun data he => hc (congrArg Call.chan he)
  exact { h with
    carried := h.carried.call hsize
    asked := fun hout => (h.asked hout).call hready
    unasked := fun hout => ⟨(h.unasked hout).1, (h.unasked hout).2.call hready⟩
    told := (told_call c).trans h.told }

/-- The request of the port reaches the bridge. -/
theorem startOut (h : Client l ch p a true inn) (ho : l.InOrder) (data : ℕ) :
    Client { l with bridge := l.bridge.call (.startOut ch data) } ch p a false inn := by
  obtain ⟨hout, hun⟩ := h.unasked rfl
  exact { h with
    carried := h.carried.call (c := .startOut ch data) rfl
    asked := fun _ => hout ▸ hun.ask ho data
    unasked := nofun
    told := (told_call (.startOut ch data)).trans h.told }

/-- The reply of the port reaches the bridge. -/
theorem startIn {bs : List Byte} (h : Client l ch p a false (some bs)) (data : ℕ) : Client { l with
      bridge := l.bridge.call (.startIn ch data (BitVec.ofNat 8 bs.length)) } ch p
      { a with mem := bs, busy := true, passed := a.passed ++ bs } false none := by
  obtain ⟨hb, hin, hc⟩ := h.inn bs rfl
  have hlen : bs.length ≤ spidBufSize := by
    rw [← hc, Cells.content, List.length_take, Cells.length_cells]
    exact Nat.min_le_right _ _
  have hpassed := h.passed
  constructor
  case carried => exact h.carried.startIn hb data hlen
  case passed => exact hpassed.trans (List.append_nil _).symm
  case buffer => exact fun _ => ⟨hin, hc⟩
  case asked => exact fun hout => (h.asked hout).call id
  case unasked =>
    intro hout
    cases hout
  case inn =>
    intro bs' hbs
    cases hbs
  case kept => exact h.kept
  case told => exact (told_call (.startIn ch data (BitVec.ofNat 8 bs.length))).trans h.told

/-- The port disables its channel, which drops what is pending. -/
theorem disableChan (h : Client l ch p a false none)
    (hp : .call .disableChan ∈ p.effects) :
    Client { l with bridge := l.bridge.call (.disableChan ch) } ch p { a with kept := false } false
      none :=
  { h with
    carried := h.carried.disableChan
    asked := fun hout => (h.asked hout).call (ready_of_ready_call nofun)
    unasked := nofun
    inn := nofun
    kept := fun _ => hp
    told := (told_call (.disableChan ch)).trans h.told }

/-! ### Transactions -/

/-- The account goes on with the connection. -/
theorem moveOn_map {l' : Link Sent} (h : l'.spid.conns ch = l.spid.conns ch) :
    a.moveOn (l.map Sent.byte) (l'.map Sent.byte) ch = a := if_pos h

theorem syncLow (h : Client l ch p a out inn) (hs : l.Settled) (hphase : l.phase = .top)
    (polls : Polls) : Client { l with
      bridge := l.bridge.handleSyncLow, phase := .low polls } ch p a out inn :=
  { h with
    carried := h.carried.syncLow ⟨hs.handler, hs.rxDone⟩ hphase polls
    asked := fun hout => (h.asked hout).syncLow hs.handler polls
    unasked := fun hout => ⟨(h.unasked hout).1, (h.unasked hout).2.syncLow hs.handler polls⟩
    told := (told_congr hs.handler rfl rfl).trans h.told }

theorem setup (h : Client l ch p a out inn) (ho : l.InOrder) (hopen : l.Opening ch) {polls : Polls}
    (hphase : l.phase = .low polls) (sys : SysCalls) :
    Client (l.setup polls sys none none) ch p a out inn := by
  have hc := h.carried.setupHeaders (ho.map Sent.byte) hphase sys
  rw [map_setup, moveOn_map (ho.conns_setup hopen h.told hphase sys)] at hc
  have hst : Link.step Sent.dummy l (.setup sys none none) = some (l.setup polls sys none none) :=
    step_setup.2 ⟨polls, hphase, rfl⟩
  exact { h with
    carried := hc
    asked := fun hout => (h.asked hout).setup ho hphase sys
    unasked := fun hout => ⟨(h.unasked hout).1, (h.unasked hout).2.setup ho hphase sys⟩
    told := (told_step ho (.setup sys none none) ⟨rfl, rfl⟩ nofun hst).trans h.told }

theorem syncHigh (h : Client l ch p a out inn) (ho : l.InOrder) (hphase : l.phase = .setup rx) :
    Client { l with bridge := l.bridge.handleSyncHigh, phase := .high rx } ch p a out inn := by
  have hst : Link.step Sent.dummy l .syncHigh =
      some { l with bridge := l.bridge.handleSyncHigh, phase := .high rx } :=
    step_syncHigh.2 ⟨rx, hphase, rfl⟩
  exact { h with
    carried := h.carried.syncHigh (ho.map Sent.byte) hphase
    asked := fun hout => (h.asked hout).syncHigh ho hphase
    unasked := fun hout => ⟨(h.unasked hout).1, (h.unasked hout).2.syncHigh ho hphase⟩
    told := (told_step ho .syncHigh trivial nofun hst).trans h.told }

/-- The client buffers, with that of the account for the channel. -/
def memory (ch : Chan) (a : Account) (mem : Desc → List Sent) (d : Desc) : List Byte :=
  if d.chan = ch then a.mem else (mem d).map Sent.byte

/-- What the MCU sends for the channel is the buffer of the port. -/
theorem sends (h : Client l ch p a out inn) (ho : l.InOrder) (hphase : l.phase = .high rx)
    {mem : Desc → List Sent} (hmem : ∀ d, d.chan = ch → (mem d).map Sent.byte = p.replyBuf.cells)
    {d : Desc} (hd : d ∈ l.bridge.chain) :
    d.sends PortData.dummyTx (fun d => (mem d).map Sent.byte) =
      d.sends PortData.dummyTx (memory ch a mem) := by
  by_cases hch : d.chan = ch
  · cases hdir : d.dir with
    | out => simp only [Desc.sends, hdir]
    | inn =>
      -- the header announces the length of the buffer
      have hg : d.toSegment ∈ segments l.bridge.ctrlRx l.bridge.ctrlTx := by
        rw [← ho.chain rx hphase (ho.crossed hphase).header]
        exact List.mem_map_of_mem hd
      obtain ⟨hout, -⟩ | ⟨-, hm, hlen⟩ := mem_segments.1 hg
      · cases hdir.symm.trans hout
      have hm' : movesIn l.bridge.ctrlRx l.bridge.ctrlTx ch := hch ▸ hm
      have hlen' : d.len = (l.bridge.ctrlTx.size ch).toNat := hch ▸ hlen
      have hc : l.bridge.chain ≠ [] := List.ne_nil_of_mem hd
      have hshown : Shown (l.map Sent.byte) (l.map Sent.byte).phase := by
        show Shown (l.map Sent.byte) l.phase
        rw [hphase]
        exact hc
      obtain ⟨hbusy, hfit⟩ := h.carried.shown hshown (size_of_movesIn hm')
      obtain ⟨-, hcontent⟩ := h.buffer hbusy
      have hfit' : d.len = a.mem.length := hlen'.trans hfit
      have hle : a.mem.length ≤ p.replyBuf.cells.length := by
        rw [← hcontent, Cells.content, List.length_take]
        exact Nat.min_le_right _ _
      have hown : memory ch a mem d = a.mem := if_pos hch
      rw [Desc.sends_of_le hdir (by rw [hmem d hch, hfit']; exact hle),
        Desc.sends_of_le hdir (by rw [hown, hfit']), hown, hmem d hch, hfit', List.take_length]
      exact hcontent
  · simp only [Desc.sends, memory, if_neg hch]

/-- The end of a pass, with sockets that take everything. -/
theorem transfer (h : Client l ch p a out inn) (ho : l.InOrder) (hch : ch ≠ usbdChannel)
    (hphase : l.phase = .high rx) (ha : l.Agrees rx) {sys : SysCalls}
    (hsys : ∀ ch, sys.write ch = spidBufSize) {mem : Desc → List Sent}
    (hmem : ∀ d, d.chan = ch → (mem d).map Sent.byte = p.replyBuf.cells) (pad : List Sent) :
    Client (l.transfer Sent.dummy rx sys mem pad) ch p a out inn := by
  have hsends (d : Desc) (hd : d ∈ l.bridge.chain) := h.sends ho hphase hmem hd
  have hmap : (l.transfer Sent.dummy rx sys mem pad).map Sent.byte =
      (l.map Sent.byte).transfer PortData.dummyTx rx (takingAll sys.socket)
        (memory ch a mem) (pad.map Sent.byte) :=
    (map_transfer Sent.byte l Sent.dummy rx sys mem pad).symm.trans
      (transfer_congr rfl (funext hsys) hsends)
  have hmem' (d : Desc) (hd : d.chan = ch) : memory ch a mem d = a.mem := if_pos hd
  have hc := h.carried.transfer PortData.dummyTx sys.socket (pad.map Sent.byte)
    (ho.map Sent.byte) hphase ha hmem'
  rw [← hmap, moveOn_map (ho.conns_transfer hch hphase ha sys mem pad)] at hc
  have hst : Link.step Sent.dummy l (.transfer sys mem pad) =
      some (l.transfer Sent.dummy rx sys mem pad) := step_transfer.2 ⟨rx, hphase, rfl⟩
  have hok : l.Orderly (.transfer sys mem pad) := by
    intro rx' hphase'
    cases hphase.symm.trans hphase'
    exact ha
  exact { h with
    carried := hc
    asked := fun hout => (h.asked hout).transfer ho hphase ha sys mem pad
    unasked := fun hout => ⟨(h.unasked hout).1, (h.unasked hout).2.transfer ho hphase ha sys mem
      pad⟩
    told := (told_step ho (.transfer sys mem pad) hok nofun hst).trans h.told }

/-! ### The completion handler -/

theorem copy (h : Client l ch p a false inn) (ho : l.InOrder) (hidle : l.handler = .idle)
    (hdone : l.bridge.rxDone) : Client l.copy ch p a false inn := by
  have hc := h.carried.copy (ho.map Sent.byte) hidle hdone
  rw [map_copy] at hc
  have hst : Link.step Sent.dummy l .copy = some l.copy := step_copy.2 ⟨hidle, hdone, rfl⟩
  exact { h with
    carried := hc
    asked := fun hout => (h.asked hout).copy ho hidle hdone
    unasked := nofun
    told := (told_step ho .copy trivial nofun hst).trans h.told }

theorem writeBack (h : Client l ch p a false inn) (ho : l.InOrder)
    (hrun : l.handler = .running []) : Client { l with
      bridge := l.bridge.writeBack, handler := .idle } ch p a false inn := by
  have hst : Link.step Sent.dummy l .writeBack =
      some { l with bridge := l.bridge.writeBack, handler := .idle } :=
    step_writeBack.2 ⟨hrun, rfl⟩
  exact { h with
    carried := h.carried.writeBack hrun
    asked := fun hout => (h.asked hout).writeBack
    unasked := nofun
    told := (told_step ho .writeBack trivial nofun hst).trans h.told }

section Callbacks

variable {cb : Callback} {todo : List Callback}

theorem credit_of_ne {mem : Chan → Cells Byte spidBufSize} (hcb : cb.chan ≠ ch) :
    a.credit mem ch cb = a := by
  have hpayload : payload mem ch cb = [] := by
    cases cb with
    | completionOut c len => exact if_neg hcb
    | _ => rfl
  have hbusy : (cb != .completionIn ch) = true := bne_iff_ne.2 fun he => hcb (he ▸ rfl)
  unfold Account.credit
  rw [hpayload, hbusy, Bool.and_true, List.append_nil]

/-- A callback to another client. -/
theorem callback (h : Client l ch p a false none) (ho : l.InOrder) (hopen : l.Opening ch)
    (hrun : l.handler = .running (cb :: todo)) (hcb : cb.chan ≠ ch) :
    Client { l with handler := .running todo } ch p a false none := by
  have hc := h.carried.callback (ho.map Sent.byte) hrun
  rw [credit_of_ne hcb] at hc
  have hedge : Preempt.edgeOf ch cb = none := by
    cases cb with
    | «open» c => exact if_neg hcb
    | close c => exact if_neg hcb
    | completionOut c len => rfl
    | completionIn c => rfl
  have htold := told_callback hopen hrun
  rw [hedge] at htold
  exact { h with
    carried := hc
    asked := fun hout => (h.asked hout).callback hrun
    unasked := nofun
    told := htold.trans h.told }

/-- The packet that is reported is one that the port has asked for. -/
theorem packet {len : ℕ} (h : Client l ch p a false none)
    (hrun : l.handler = .running (.completionOut ch len :: todo)) :
    p.pendingOut ∧ 0 < ((l.outMem ch).content len).length ∧
      ((l.outMem ch).content len).length ≤ bridgeBufSize := by
  obtain ⟨hout, -, hlen, hne⟩ := (h.asked rfl).todo _ hrun len List.mem_cons_self
  have hle : len ≤ spidBufSize := by
    rw [hlen]
    exact Nat.le_of_lt_succ (l.bridge.ctrlRx.size ch).isLt
  have hlength : ((l.outMem ch).content len).length = len := by
    rw [Cells.content, List.length_take, Cells.length_cells, Nat.min_eq_left hle]
  rw [hlength]
  exact ⟨hout, Nat.pos_of_ne_zero hne, hle⟩

/-- A packet is reported to the port. -/
theorem completionOut {len : ℕ} (h : Client l ch p a false none) (ho : l.InOrder)
    (hopen : l.Opening ch) (hrun : l.handler = .running (.completionOut ch len :: todo)) :
    Client { l with handler := .running todo } ch
      (p.taken (.outCompletion ((l.outMem ch).content len)))
      { a with reported := a.reported ++ (l.outMem ch).content len } false none := by
  have hc := h.carried.callback (ho.map Sent.byte) hrun
  have hcredit : a.credit l.outMem ch (.completionOut ch len) =
      { a with reported := a.reported ++ (l.outMem ch).content len } := by
    simp only [Account.credit, payload, ↓reduceIte]
    exact congrArg (fun b => Account.mk a.mem b _ a.passed a.kept) (Bool.and_true _)
  exact { h with
    carried := hcredit ▸ hc
    passed := h.passed
    asked := fun hout => (h.asked hout).completed ho hrun
    unasked := fun hout => absurd hout Bool.false_ne_true
    inn := fun bs hbs => absurd hbs.symm (Option.some_ne_none bs)
    told := (told_callback hopen hrun).trans h.told }

/-- A reply that has been sent is reported to the port. -/
theorem completionIn (h : Client l ch p a false none) (ho : l.InOrder) (hopen : l.Opening ch)
    (hrun : l.handler = .running (.completionIn ch :: todo)) :
    p.pendingIn ∧ Client { l with handler := .running todo } ch (p.taken .inCompletion)
      { a with busy := false } false none := by
  have hc := h.carried.callback (ho.map Sent.byte) hrun
  have hcredit : a.credit l.outMem ch (.completionIn ch) = { a with busy := false } := by
    simp only [Account.credit, payload, bne_self_eq_false, Bool.and_false, List.append_nil]
  obtain ⟨hbusy, -⟩ := h.carried.todo _ hrun List.mem_cons_self
  refine ⟨(h.buffer hbusy).1, ?_⟩
  exact { h with
    carried := hcredit ▸ hc
    passed := h.passed
    buffer := fun hb => absurd hb Bool.false_ne_true
    asked := fun hout => (h.asked hout).callback hrun
    unasked := fun hout => absurd hout Bool.false_ne_true
    inn := fun bs hbs => absurd hbs.symm (Option.some_ne_none bs)
    told := (told_callback hopen hrun).trans h.told }

/-- **A port that has just been enabled** for a connection. -/
theorem of_open (ho : l.InOrder) (hopen : l.Opening ch) (hun : l.Unheard ch)
    (hrun : l.handler = .running (.open ch :: todo)) (hsize : l.bridge.inChanSize ch = 0#8)
    (hsent : p.sentBytes = []) (hout : p.pendingOut) :
    Client { l with handler := .running todo } ch p ⟨[], false, [], [], true⟩ true none := by
  have hclosed := hopen.closed_of_open hrun
  -- no completion of the channel is going to be reported
  have hno (len : ℕ) : .completionOut ch len ∉ todo := fun hm => by
    rw [hun.todo _ hrun len (List.mem_cons_of_mem _ hm)] at hclosed
    cases hclosed
  have hno' : .completionIn ch ∉ todo := fun hm => by
    rw [(hopen.todo _ hrun).1 (List.mem_cons_of_mem _ hm)] at hclosed
    cases hclosed
  have hshown (hs : Shown l l.phase) : False := by
    cases (ho.settled_of_shown hs).handler.symm.trans hrun
  have hin : inFlight (Link.map Sent.byte { l with handler := .running todo }) ch = [] := by
    refine List.flatMap_eq_nil_iff.2 fun cb hcb => ?_
    cases cb with
    | completionOut c len =>
      refine if_neg fun hc => ?_
      subst hc
      exact hno len hcb
    | _ => rfl
  have hcarried : Carried (Link.map Sent.byte { l with handler := .running todo }) ch
      ⟨[], false, [], [], true⟩ := by
    constructor
    case out =>
      intro hopened
      have hs := hun.silent hopened hclosed
      have hbuf : (l.spid.chan ch).buffered = [] := by
        rw [ChanState.buffered, hs.outLength, List.take_zero]
      rw [hin]
      exact hs.received.trans hbuf.symm
    case inn =>
      intro hopened _
      have hs := hun.silent hopened hclosed
      rw [ite_self, List.append_nil]
      exact (congrArg (List.map Sent.byte) hs.written).symm
    case pending => exact fun hz => absurd hsize hz
    case shown => exact fun hs => (hshown hs).elim
    case low =>
      intro polls hphase
      have hphase' : l.phase = .low polls := hphase
      exact (hshown (by rw [hphase']; trivial)).elim
    case setup =>
      intro rx hphase
      have hphase' : l.phase = .setup rx := hphase
      exact (hshown (by rw [hphase']; trivial)).elim
    case high =>
      intro rx hphase hm
      have hphase' : l.phase = .high rx := hphase
      refine (hshown ?_).elim
      rw [hphase']
      exact ho.chain_ne_nil hphase' (.inr hm)
    case due =>
      intro hidle
      cases hidle
    case todo =>
      intro todo' hrun' hm
      cases hrun'
      exact absurd hm hno'
    case once =>
      intro todo' hrun'
      cases hrun'
      rw [List.count_eq_zero.2 hno']
      exact Nat.zero_le 1
    case told =>
      intro todo' hrun' len hm
      cases hrun'
      exact absurd hm (hno len)
  have htold := told_callback hopen hrun
  exact
    { carried := hcarried
      passed := hsent
      buffer := fun hb => absurd hb Bool.false_ne_true
      asked := fun hout => absurd hout.symm Bool.false_ne_true
      unasked := fun _ => ⟨hout, .inr ⟨todo, rfl, hno⟩⟩
      inn := fun bs hbs => absurd hbs.symm (Option.some_ne_none bs)
      kept := fun hk => absurd hk.symm Bool.false_ne_true
      told := by
        rw [show Preempt.edgeOf ch (.open ch) = some true from if_pos rfl] at htold
        exact htold }

end Callbacks

end Client

end TesselFirmware
