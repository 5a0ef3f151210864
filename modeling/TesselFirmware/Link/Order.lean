import TesselFirmware.Bridge.Preempt
import TesselFirmware.Link.Agreement

/-!
# Transactions whose handlers run in order

What holds of the link between the steps of a run in which the completion handler has run before
SYNC goes low again, all headers arrive as they were sent, and both sides agree on every data phase
(`Link.Orderly`).

* `Link.InOrder` : what is under way in each phase of `spid`, and `Link.InOrder.step`;
* `Link.Opening` : how the connection of a listening channel and `was_open` go together, and
  `Link.Opening.step`.
-/

namespace TesselFirmware

open Bridge ControlPkt

variable {α : Type}

namespace Link

/-- The completion handler has run when SYNC goes low, both headers arrive as they were sent, and
both sides agree on the data phase. -/
def Orderly (l : Link α) : LinkLabel α → Prop
  | .syncLow _ => l.handler = .idle ∧ l.bridge.rxDone = false
  | .setup _ toMcu toSoc => toMcu = none ∧ toSoc = none
  | .transfer _ _ _ => ∀ rx, l.phase = .high rx → l.Agrees rx
  | _ => True

instance decidableForallHigh (l : Link α) (P : ControlPkt → Prop) [DecidablePred P] :
    Decidable (∀ rx, l.phase = .high rx → P rx) :=
  match l.phase with
  | .high rx => decidable_of_iff (P rx)
      ⟨fun hp _ hrx => Phase.high.inj hrx ▸ hp, fun hp => hp rx rfl⟩
  | .top => isTrue nofun
  | .low _ => isTrue nofun
  | .setup _ => isTrue nofun
  | .dead => isTrue nofun

instance (l : Link α) (lab : LinkLabel α) : Decidable (l.Orderly lab) := by
  cases lab <;> unfold Orderly <;> infer_instance

/-- The completion handler has nothing to do. -/
structure Settled (l : Link α) : Prop where
  handler : l.handler = .idle
  rxDone : l.bridge.rxDone = false

/-- The headers have crossed as they were sent. -/
structure Crossed (l : Link α) (rx : ControlPkt) : Prop where
  mcu : l.bridge.ctrlRx = l.spid.header
  soc : rx = l.bridge.ctrlTx
  cmd : rx.cmd = 0xCA#8

/-- What is under way in a phase. -/
def InPhase (l : Link α) : Phase → Prop
  | .top => l.bridge.chain = []
  | .low _ => l.Settled ∧ l.bridge.ctrlTx.cmd = 0xCA#8
  | .setup rx => l.Settled ∧ l.Crossed rx
  | .high rx => l.Crossed rx ∧ (l.bridge.chain ≠ [] → l.Settled ∧ l.bridge.state = .data)
  | .dead => True

/-- The headers have crossed, and what they agree on has not been moved yet. -/
def Exchanged (l : Link α) : Phase → Prop
  | .setup _ => True
  | .high _ => l.bridge.chain ≠ []
  | _ => False

/-- The MCU shows a header, and what it announces has not been moved yet. -/
def Shown (l : Link α) : Phase → Prop
  | .low _ => True
  | .setup _ => True
  | .high _ => l.bridge.chain ≠ []
  | _ => False

/-- What an orderly run keeps. -/
structure InOrder (l : Link α) : Prop extends Sound l where
  data : l.bridge.rxDone → l.bridge.state = .data
  inPhase : l.InPhase l.phase

variable {dummy : α} {l l' : Link α} {rx : ControlPkt}

theorem Crossed.header (h : l.Crossed rx) : l.bridge.ctrlRx.cmd = 0x53#8 := by
  rw [h.mcu]
  rfl

/-- Between the transactions the handler can be at work, but no data phase. -/
theorem InOrder.crossed (h : l.InOrder) (hphase : l.phase = .high rx) : l.Crossed rx := by
  have hp := h.inPhase
  rw [hphase] at hp
  exact hp.1

theorem InOrder.settled_of_chain (h : l.InOrder) (hphase : l.phase = .high rx)
    (hc : l.bridge.chain ≠ []) : l.Settled := by
  have hp := h.inPhase
  rw [hphase] at hp
  exact (hp.2 hc).1

/-- With agreement, the DMA chain of the MCU is the data phase of `spid`. -/
theorem InOrder.chain_eq (h : l.InOrder) (hphase : l.phase = .high rx) (ha : l.Agrees rx) (fd : ℕ) :
    l.bridge.chain.map Desc.toSegment = (l.planned rx fd).2 :=
  (chain_eq_iff h.toSound hphase (h.crossed hphase).mcu (h.crossed hphase).soc fd).2 ha

/-- The end of a pass after a good header. -/
theorem transfer_of_cmd (hcmd : rx.cmd = 0xCA#8) (dummy : α) (sys : SysCalls)
    (mem : Desc → List α) (pad : List α) :
    l.transfer dummy rx sys mem pad =
      if (l.planned rx sys.socket).2 = [] then
        { l with spid := (l.planned rx sys.socket).1, phase := .top }
      else l.exchange dummy rx sys mem pad (l.planned rx sys.socket).1 (l.planned rx sys.socket).2 :=
  if_neg (not_not.2 hcmd)

/-- The end of an orderly pass: there is nothing to transfer, or the data phase runs to its end. -/
theorem InOrder.transfer_cases (h : l.InOrder) (hphase : l.phase = .high rx) (ha : l.Agrees rx)
    (dummy : α) (sys : SysCalls) (mem : Desc → List α) (pad : List α) :
    (l.bridge.chain = [] ∧ l.transfer dummy rx sys mem pad =
      { l with spid := (l.planned rx sys.socket).1, phase := .top }) ∨
    (l.bridge.chain ≠ [] ∧ l.transfer dummy rx sys mem pad =
      { l with
        spid := ((l.planned rx sys.socket).1.receive (l.planned rx sys.socket).2
          (Buffer.slices ((l.planned rx sys.socket).2.map Segment.len)
            (l.bridge.clockedOut dummy mem ++ pad))).writeReceived rx sys
        bridge := l.bridge.chainDone
        phase := .top
        outMem := filled l.outMem l.bridge.chain (Buffer.slices (l.bridge.chain.map fun d => d.len)
          ((l.planned rx sys.socket).1.clockedOut (l.planned rx sys.socket).2)) }) := by
  have hseg := h.chain_eq hphase ha sys.socket
  rw [transfer_of_cmd (h.crossed hphase).cmd]
  by_cases hc : l.bridge.chain = []
  · have hnil : (l.planned rx sys.socket).2 = [] := by rw [← hseg, hc, List.map_nil]
    exact .inl ⟨hc, by rw [if_pos hnil]⟩
  · have hne : (l.planned rx sys.socket).2 ≠ [] := by
      rw [← hseg]
      simpa using hc
    refine .inr ⟨hc, ?_⟩
    rw [if_neg hne, exchange, hseg, if_pos ⟨hc, le_refl _⟩]

theorem inOrder_init : (init : Link α).InOrder where
  toSound := sound_init
  data h := by cases h
  inPhase := rfl

/-- A call of a client keeps what is under way. -/
theorem InOrder.call (h : l.InOrder) (c : Call) : InOrder { l with bridge := l.bridge.call c } := by
  refine ⟨h.toSound.call c, ?_, ?_⟩
  · cases c <;> exact h.data
  · have hp := h.inPhase
    show InPhase _ l.phase
    cases hphase : l.phase with
    | dead => trivial
    | top =>
      rw [hphase] at hp
      cases c <;> exact hp
    | low p =>
      rw [hphase] at hp
      cases c <;> exact ⟨⟨hp.1.handler, hp.1.rxDone⟩, hp.2⟩
    | setup rx =>
      rw [hphase] at hp
      cases c <;> exact ⟨⟨hp.1.handler, hp.1.rxDone⟩, hp.2.mcu, hp.2.soc, hp.2.cmd⟩
    | high rx =>
      rw [hphase] at hp
      cases c <;> exact ⟨⟨hp.1.mcu, hp.1.soc, hp.1.cmd⟩, fun hc =>
        ⟨⟨(hp.2 hc).1.handler, (hp.2 hc).1.rxDone⟩, (hp.2 hc).2⟩⟩

/-- Where the handler is not settled, `spid` is at the top of its loop or has no data phase. -/
theorem InOrder.unsettled (h : l.InOrder) (hs : ¬ l.Settled) :
    (l.phase = .top ∨ ∃ rx, l.phase = .high rx ∧ l.Crossed rx) ∧ l.bridge.chain = [] ∨
      l.phase = .dead := by
  have hp := h.inPhase
  cases hphase : l.phase with
  | dead => exact .inr rfl
  | top =>
    rw [hphase] at hp
    exact .inl ⟨.inl rfl, hp⟩
  | low p =>
    rw [hphase] at hp
    exact absurd hp.1 hs
  | setup rx =>
    rw [hphase] at hp
    exact absurd hp.1 hs
  | high rx =>
    rw [hphase] at hp
    refine .inl ⟨.inr ⟨rx, rfl, hp.1⟩, ?_⟩
    by_contra hc
    exact hs (hp.2 hc).1

theorem InOrder.settled_of_shown (h : l.InOrder) (hs : Shown l l.phase) : l.Settled := by
  have hp := h.inPhase
  cases hphase : l.phase with
  | top =>
    rw [hphase] at hs
    exact hs.elim
  | low p =>
    rw [hphase] at hp
    exact hp.1
  | setup rx =>
    rw [hphase] at hp
    exact hp.1
  | high rx =>
    rw [hphase] at hp hs
    exact (hp.2 hs).1
  | dead =>
    rw [hphase] at hs
    exact hs.elim

/-- A step of the completion handler, which changes neither the headers nor `spid`. -/
theorem InOrder.of_handler (h : l.InOrder) (hs : ¬ l.Settled) (hsound : l'.Sound)
    (hdata : l'.bridge.rxDone → l'.bridge.state = .data) (hphase : l'.phase = l.phase)
    (hchain : l'.bridge.chain = l.bridge.chain) (hspid : l'.spid = l.spid)
    (hrx : l'.bridge.ctrlRx = l.bridge.ctrlRx) (htx : l'.bridge.ctrlTx = l.bridge.ctrlTx) :
    l'.InOrder := by
  refine ⟨hsound, hdata, ?_⟩
  rw [hphase]
  obtain ⟨htop | ⟨rx, hhigh, hcr⟩, hc⟩ | hdead := h.unsettled hs
  · rw [htop]
    exact hchain.trans hc
  · rw [hhigh]
    refine ⟨⟨?_, ?_, hcr.cmd⟩, fun hne => absurd (hchain.trans hc) hne⟩
    · rw [hrx, hspid]
      exact hcr.mcu
    · rw [htx]
      exact hcr.soc
  · rw [hdead]
    trivial

/-- **Every orderly step keeps the order.** -/
theorem InOrder.step (h : l.InOrder) {lab : LinkLabel α} (hok : l.Orderly lab)
    (hst : step dummy l lab = some l') : l'.InOrder := by
  have hsound := h.toSound.step hst
  cases lab with
  | syncLow p =>
    obtain ⟨-, -, rfl⟩ := step_syncLow.1 hst
    exact ⟨hsound, nofun, ⟨hok.1, rfl⟩, rfl⟩
  | setup sys toMcu toSoc =>
    obtain ⟨p, hphase, rfl⟩ := step_setup.1 hst
    obtain ⟨rfl, rfl⟩ := hok
    have hp := h.inPhase
    rw [hphase] at hp
    exact ⟨hsound, h.data, ⟨hp.1.handler, hp.1.rxDone⟩, rfl, rfl, hp.2⟩
  | syncHigh =>
    obtain ⟨rx, hphase, rfl⟩ := step_syncHigh.1 hst
    have hp := h.inPhase
    rw [hphase] at hp
    obtain ⟨hset, hcr⟩ := hp
    have hhigh := handleSyncHigh_of_cmd hcr.header
    refine ⟨hsound, fun hdone => ?_, ⟨?_, ?_, hcr.cmd⟩, fun hc => ?_⟩
    · -- without a data phase, the interrupt is raised for a changed status
      rw [hhigh] at hdone ⊢
      dsimp only at hdone ⊢
      split_ifs at hdone with hc hsc
      · exact if_pos (.inr hsc)
      · rw [hset.rxDone] at hdone
        cases hdone
    · exact (handleSyncHigh_ctrlRx _).trans hcr.mcu
    · exact hcr.soc.trans (handleSyncHigh_ctrlTx _).symm
    · have hc' : l.bridge.plannedChain ≠ [] := by
        rwa [← handleSyncHigh_chain hcr.header]
      refine ⟨⟨hset.handler, ?_⟩, ?_⟩
      · show l.bridge.handleSyncHigh.rxDone = false
        rw [hhigh]
        exact if_pos hc'
      · show l.bridge.handleSyncHigh.state = .data
        rw [hhigh]
        exact if_pos (.inl hc')
  | transfer sys mem pad =>
    obtain ⟨rx, hphase, rfl⟩ := step_transfer.1 hst
    have hp := h.inPhase
    rw [hphase] at hp
    obtain ⟨hc, he⟩ | ⟨hc, he⟩ := h.transfer_cases hphase (hok rx hphase) dummy sys mem pad
    · rw [he] at hsound ⊢
      exact ⟨hsound, h.data, hc⟩
    · rw [he] at hsound ⊢
      exact ⟨hsound, fun _ => (hp.2 hc).2, rfl⟩
  | copy =>
    obtain ⟨hidle, hdone, rfl⟩ := step_copy.1 hst
    have hs : ¬ l.Settled := fun hs => by simp [hs.rxDone] at hdone
    have he : l.copy =
        { l with handler := .running (callbacks l.bridge.wasOpen l.bridge.takeSnapshot) } :=
      if_pos (h.data hdone)
    rw [he] at hsound ⊢
    exact h.of_handler hs hsound h.data rfl rfl rfl rfl rfl
  | callback =>
    obtain ⟨cb, todo, hrun, rfl⟩ := step_callback.1 hst
    have hs : ¬ l.Settled := fun hs => by simp [hs.handler] at hrun
    exact h.of_handler hs hsound h.data rfl rfl rfl rfl rfl
  | writeBack =>
    obtain ⟨hrun, rfl⟩ := step_writeBack.1 hst
    have hs : ¬ l.Settled := fun hs => by simp [hs.handler] at hrun
    exact h.of_handler hs hsound nofun rfl rfl rfl rfl rfl
  | call c =>
    cases hst
    exact h.call c

/-! ### Connections and `was_open` -/

/-- The connected bit that the clients have been told last. -/
def wasOpen (l : Link α) (ch : Chan) : Bool := Byte.has l.bridge.wasOpen (ch + 4)

/-- The connection of a channel is open only if the connected bit `b` is set, and awaited only if it
is clear. -/
def Follows (c : ChanState α) (b : Bool) : Prop :=
  (c.opened → b = true) ∧ (c.sockIn → b = false)

/-- How the connection of a listening channel goes together with `was_open`, phase by phase. -/
def OpeningAt (l : Link α) (ch : Chan) : Phase → Prop
  | .top => (l.Settled → Follows (l.spid.chan ch) (l.wasOpen ch)) ∧
      (¬ l.Settled → Follows (l.spid.chan ch) (l.bridge.ctrlRx.connected ch))
  | .low _ => Follows (l.spid.chan ch) (l.wasOpen ch)
  | .setup _ => l.bridge.ctrlRx.ready ch → l.wasOpen ch
  | .high _ => (l.bridge.chain ≠ [] → l.bridge.ctrlRx.ready ch → l.wasOpen ch) ∧
      (l.bridge.chain = [] → l.Settled → l.bridge.ctrlRx.connected ch = l.wasOpen ch)
  | .dead => True

/-- An in-completion is made only for a connection that was open before, and the callbacks that open
and close follow the connected bit of the header. -/
structure Opening (l : Link α) (ch : Chan) : Prop where
  phase : l.OpeningAt ch l.phase
  due : l.handler = .idle → l.bridge.rxDone → l.bridge.ctrlRx.ready ch → l.wasOpen ch
  todo : ∀ todo, l.handler = .running todo →
    (.completionIn ch ∈ todo → l.wasOpen ch) ∧
      (todo.filterMap (Preempt.edgeOf ch) = [] ∨ todo.filterMap (Preempt.edgeOf ch) =
        if l.bridge.ctrlRx.connected ch = l.wasOpen ch then [] else [l.bridge.ctrlRx.connected ch])

theorem opening_init (ch : Chan) : (init : Link α).Opening ch := by
  refine ⟨⟨fun _ => ?_, fun hs => absurd ⟨rfl, rfl⟩ hs⟩, nofun, nofun⟩
  have hopened : ((init : Link α).spid.chan ch).opened = false :=
    Byte.has_zero ch
  refine ⟨fun ho => ?_, nofun⟩
  rw [hopened] at ho
  cases ho

/-- The connection before the data phase, by the connected bit of the header. -/
theorem InOrder.follows_manage (h : l.InOrder) (hphase : l.phase = .high rx) {ch : Chan}
    (hch : ch ≠ usbdChannel) (fd : ℕ) :
    Follows ((l.planned rx fd).1.chan ch) (l.bridge.ctrlRx.connected ch) := by
  have hs := h.toSound.spid ch
  have hconn : l.bridge.ctrlRx.connected ch = (l.spid.chan ch).opened := by
    rw [(h.crossed hphase).mcu]
    exact Spid.header_connected hs.stray
  obtain ⟨ho, hk⟩ := hs.opened_of_manage hch (rx.connected ch) fd
  rw [planned_chan, hconn]
  unfold ChanState.plan
  split_ifs
  · exact ⟨ho, hk⟩
  · exact ⟨ho, hk⟩

/-- Neither the data nor the writes of a pass open a connection. -/
theorem Follows.exchange {s : Spid α} {ch : Chan} {b : Bool} (h : Follows (s.chan ch) b)
    (segs : List Segment) (pieces : List (List α)) (rx : ControlPkt) (sys : SysCalls) :
    Follows (((s.receive segs pieces).writeReceived rx sys).chan ch) b := by
  rw [Spid.chan_writeReceived, Spid.chan_receive]
  unfold ChanState.write
  split_ifs
  · exact h
  · exact h

/-- A call of a client touches neither the header nor `was_open`. -/
theorem Opening.call {ch : Chan} (h : l.Opening ch) (c : Call) :
    Opening { l with bridge := l.bridge.call c } ch := by
  refine ⟨?_, by cases c <;> exact h.due, by cases c <;> exact h.todo⟩
  have hp := h.phase
  show OpeningAt _ ch l.phase
  cases hphase : l.phase with
  | dead => trivial
  | top =>
    rw [hphase] at hp
    refine ⟨fun hs => ?_, fun hs => ?_⟩
    · cases c <;> exact hp.1 ⟨hs.handler, hs.rxDone⟩
    · cases c <;> exact hp.2 fun hs' => hs ⟨hs'.handler, hs'.rxDone⟩
  | low p =>
    rw [hphase] at hp
    cases c <;> exact hp
  | setup rx =>
    rw [hphase] at hp
    cases c <;> exact hp
  | high rx =>
    rw [hphase] at hp
    refine ⟨?_, fun hc hs => ?_⟩
    · cases c <;> exact hp.1
    · cases c <;> exact hp.2 hc ⟨hs.handler, hs.rxDone⟩

/-- A step of the completion handler that leaves work to do. -/
theorem Opening.of_handler {ch : Chan} (h : l.Opening ch) (ho : l.InOrder) (hs : ¬ l.Settled)
    (hs' : ¬ l'.Settled) (hphase : l'.phase = l.phase) (hspid : l'.spid = l.spid)
    (hbridge : l'.bridge = l.bridge) : l'.OpeningAt ch l'.phase := by
  have hp := h.phase
  have hw : l'.wasOpen ch = l.wasOpen ch := by rw [wasOpen, wasOpen, hbridge]
  rw [hphase]
  obtain ⟨htop | ⟨rx, hhigh, -⟩, hc⟩ | hdead := ho.unsettled hs
  · rw [htop] at hp ⊢
    refine ⟨fun hset => absurd hset hs', fun _ => ?_⟩
    rw [hspid, hbridge]
    exact hp.2 hs
  · rw [hhigh]
    exact ⟨fun hne => absurd (hbridge ▸ hc) hne, fun _ hset => absurd hset hs'⟩
  · rw [hdead]
    trivial

/-- The header that the SoC shows is ready only on open connections. -/
theorem Opening.setup {ch : Chan} (h : l.Opening ch) (ho : l.InOrder) {sys : SysCalls}
    {toMcu toSoc : Option ControlPkt} (hok : l.Orderly (.setup sys toMcu toSoc))
    (hst : step dummy l (.setup sys toMcu toSoc) = some l') : l'.Opening ch := by
  have hp := h.phase
  obtain ⟨p, hphase, rfl⟩ := step_setup.1 hst
  obtain ⟨rfl, rfl⟩ := hok
  have hord := ho.inPhase
  rw [hphase] at hp hord
  obtain ⟨hsock, hin, hout, -⟩ := ho.polls p hphase ch
  have hready : (l.spid.serve p sys).header.ready ch → l.wasOpen ch := by
    intro hr
    rw [Spid.header_ready, Spid.chan_serve] at hr
    exact hp.1 ((ho.spid ch).opened_of_writable_serve sys hin hout hr)
  refine ⟨hready, fun _ _ => hready, fun todo hrun => ?_⟩
  have hrun' : l.handler = .running todo := hrun
  rw [hord.1.handler] at hrun'
  cases hrun'

/-- SYNC high raises the completion interrupt unless the connected bits are those of
`was_open`. -/
theorem Opening.syncHigh {ch : Chan} (h : l.Opening ch) (ho : l.InOrder)
    (hst : step dummy l .syncHigh = some l') : l'.Opening ch := by
  have hp := h.phase
  obtain ⟨rx, hphase, rfl⟩ := step_syncHigh.1 hst
  have hord := ho.inPhase
  rw [hphase] at hp hord
  obtain ⟨hset, hcr⟩ := hord
  have hw : Byte.has l.bridge.handleSyncHigh.wasOpen (ch + 4) = l.wasOpen ch := by
    rw [handleSyncHigh_wasOpen]
    rfl
  have hready : l.bridge.handleSyncHigh.ctrlRx.ready ch →
      Byte.has l.bridge.handleSyncHigh.wasOpen (ch + 4) := by
    rw [hw, handleSyncHigh_ctrlRx]
    exact hp
  refine ⟨⟨fun _ => hready, fun hc hs => ?_⟩, fun _ _ => hready, fun todo hrun => ?_⟩
  · -- nothing was raised, so the connected bits are those of `was_open`
    have hdone : l.bridge.handleSyncHigh.rxDone = false := hs.rxDone
    have hc' : l.bridge.plannedChain = [] := by
      rw [← handleSyncHigh_chain hcr.header]
      exact hc
    rw [handleSyncHigh_of_cmd hcr.header] at hdone
    dsimp only at hdone
    rw [if_neg (not_not.2 hc')] at hdone
    split_ifs at hdone with hsc
    show l.bridge.handleSyncHigh.ctrlRx.connected ch =
      Byte.has l.bridge.handleSyncHigh.wasOpen (ch + 4)
    rw [hw, handleSyncHigh_ctrlRx, ControlPkt.connected, ← Preempt.has_connected,
      not_not.1 hsc, Preempt.has_connected]
    rfl
  · have hrun' : l.handler = .running todo := hrun
    rw [hset.handler] at hrun'
    cases hrun'

/-- The pass of the loop after SYNC high. -/
theorem Opening.transfer {ch : Chan} (h : l.Opening ch) (ho : l.InOrder) (hch : ch ≠ usbdChannel)
    {sys : SysCalls} {mem : Desc → List α} {pad : List α} (hok : l.Orderly (.transfer sys mem pad))
    (hst : step dummy l (.transfer sys mem pad) = some l') : l'.Opening ch := by
  have hp := h.phase
  obtain ⟨rx, hphase, rfl⟩ := step_transfer.1 hst
  rw [hphase] at hp
  have hfol := ho.follows_manage hphase hch sys.socket
  obtain ⟨hc, he⟩ | ⟨hc, he⟩ := ho.transfer_cases hphase (hok rx hphase) dummy sys mem pad
  · rw [he]
    refine ⟨⟨fun hs => ?_, fun _ => hfol⟩, h.due, h.todo⟩
    have hs' : l.Settled := ⟨hs.handler, hs.rxDone⟩
    show Follows _ (l.wasOpen ch)
    rw [← hp.2 hc hs']
    exact hfol
  · have hset := ho.settled_of_chain hphase hc
    rw [he]
    refine ⟨⟨fun hs => ?_, fun _ => hfol.exchange _ _ rx sys⟩, fun _ _ => hp.1 hc, h.todo⟩
    have hdone : true = false := hs.rxDone
    cases hdone

/-- The handler copies the headers, and plans its callbacks. -/
theorem Opening.copy {ch : Chan} (h : l.Opening ch) (ho : l.InOrder)
    (hst : step dummy l .copy = some l') : l'.Opening ch := by
  obtain ⟨hidle, hdone, rfl⟩ := step_copy.1 hst
  have hs : ¬ l.Settled := fun hs => by simp [hs.rxDone] at hdone
  have he : l.copy =
      { l with handler := .running (callbacks l.bridge.wasOpen l.bridge.takeSnapshot) } :=
    if_pos (ho.data hdone)
  rw [he]
  refine ⟨h.of_handler ho hs (fun hs' => by cases hs'.handler) rfl rfl rfl,
    fun hi => ?_, fun todo hrun => ?_⟩
  · cases hi
  cases hrun
  refine ⟨fun hm => h.due hidle hdone ?_, .inr ?_⟩
  · have hm' := mem_callbacks_completionIn.1 hm
    rw [movesIn, Bool.and_eq_true] at hm'
    exact hm'.1
  · rw [Preempt.callbacks_edges]
    rfl

theorem Opening.callback {ch : Chan} (h : l.Opening ch) (ho : l.InOrder)
    (hst : step dummy l .callback = some l') : l'.Opening ch := by
  obtain ⟨cb, todo, hrun, rfl⟩ := step_callback.1 hst
  have hs : ¬ l.Settled := fun hs => by simp [hs.handler] at hrun
  refine ⟨h.of_handler ho hs (fun hs' => by cases hs'.handler) rfl rfl rfl,
    fun hi => ?_, fun todo' hrun' => ?_⟩
  · cases hi
  cases hrun'
  obtain ⟨hin, hedges⟩ := h.todo _ hrun
  refine ⟨fun hm => hin (List.mem_cons_of_mem _ hm), ?_⟩
  rw [List.filterMap_cons] at hedges
  cases hcb : Preempt.edgeOf ch cb with
  | none =>
    rw [hcb] at hedges
    exact hedges
  | some b =>
    -- the one edge of the channel has been made
    rw [hcb] at hedges
    refine .inl ?_
    obtain hedges | hedges := hedges
    · cases hedges
    · split_ifs at hedges
      · exact (List.cons.inj hedges).2

/-- The end of the handler: `was_open` catches up with the connections. -/
theorem Opening.writeBack {ch : Chan} (h : l.Opening ch) (ho : l.InOrder)
    (hst : step dummy l .writeBack = some l') : l'.Opening ch := by
  have hp := h.phase
  obtain ⟨hrun, rfl⟩ := step_writeBack.1 hst
  have hs : ¬ l.Settled := fun hs => by simp [hs.handler] at hrun
  refine ⟨?_, fun _ hd => ?_, fun todo hrun' => ?_⟩
  rotate_left
  · cases hd
  · cases hrun'
  have hw : Byte.has l.bridge.writeBack.wasOpen (ch + 4) = l.bridge.ctrlRx.connected ch :=
    Preempt.has_connected _ ch
  show OpeningAt _ ch l.phase
  obtain ⟨htop | ⟨rx, hhigh, -⟩, hc⟩ | hdead := ho.unsettled hs
  · rw [htop] at hp ⊢
    refine ⟨fun _ => ?_, fun hs' => absurd ⟨rfl, rfl⟩ hs'⟩
    show Follows (l.spid.chan ch) (Byte.has l.bridge.writeBack.wasOpen (ch + 4))
    rw [hw]
    exact hp.2 hs
  · rw [hhigh]
    exact ⟨fun hne => absurd hc hne, fun _ _ => hw.symm⟩
  · rw [hdead]
    trivial

/-- **Every orderly step keeps connections and `was_open` together.** -/
theorem Opening.step {ch : Chan} (h : l.Opening ch) (ho : l.InOrder) (hch : ch ≠ usbdChannel)
    {lab : LinkLabel α} (hok : l.Orderly lab) (hst : step dummy l lab = some l') :
    l'.Opening ch := by
  cases lab with
  | syncLow p =>
    have hp := h.phase
    obtain ⟨hphase, -, rfl⟩ := step_syncLow.1 hst
    rw [hphase] at hp
    refine ⟨hp.1 ⟨hok.1, hok.2⟩, fun _ hd => ?_, fun todo hrun => ?_⟩
    · cases hd
    rw [hok.1] at hrun
    cases hrun
  | setup sys toMcu toSoc => exact h.setup ho hok hst
  | syncHigh => exact h.syncHigh ho hst
  | transfer sys mem pad => exact h.transfer ho hch hok hst
  | copy => exact h.copy ho hst
  | callback => exact h.callback ho hst
  | writeBack => exact h.writeBack ho hst
  | call c =>
    cases hst
    exact h.call c

end Link

end TesselFirmware
