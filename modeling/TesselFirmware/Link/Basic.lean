import TesselFirmware.Bridge.Chain
import TesselFirmware.Machine.Basic
import TesselFirmware.Memory.Buffer
import TesselFirmware.Spid.Spec

/-!
# `spid` and the bridge on one SPI bus

A transaction of the main loop of `spid` is four labels of `Link.machine`: SYNC goes low
(`syncLow`, with what `poll` has reported), the connections are served and the two headers cross
(`setup`), SYNC goes high (`syncHigh`), and the data phase, or a retry, ends the pass
(`transfer`).  Between any two of them the MCU can take any step of its completion handler (`copy`,
`callback` for each of the calls it makes, `writeBack`) and its clients can make any `call`.

Each header can arrive as something else than what was sent, and what the client buffers hold when
the data phase reads them is part of the label; the modules that model the clients say what it is.

* `Link.Agrees` : no channel that `spid` closes before the data phase takes part in it;
* `Link.chain_eq_iff` : exactly then both sides derive the same data phase.
-/

namespace TesselFirmware

open Bridge ControlPkt

variable {α : Type}

/-- The length of a data phase in bytes. -/
def total (segs : List Segment) : ℕ := (segs.map Segment.len).foldr (· + ·) 0

/-- What the MCU clocks out in a segment: the client buffer in an IN segment, and `dummy` in an OUT
segment and behind the end of the client buffer. -/
def Desc.sends (dummy : α) (mem : Desc → List α) (d : Desc) : List α :=
  match d.dir with
  | .out => List.replicate d.len dummy
  | .inn => (mem d ++ List.replicate d.len dummy).take d.len

@[simp] theorem Desc.length_sends (dummy : α) (mem : Desc → List α) (d : Desc) :
    (d.sends dummy mem).length = d.len := by
  unfold Desc.sends
  cases d.dir <;> simp

/-- A client buffer that is large enough is sent as it is. -/
theorem Desc.sends_of_le {dummy : α} {mem : Desc → List α} {d : Desc} (hdir : d.dir = .inn)
    (hlen : d.len ≤ (mem d).length) : d.sends dummy mem = (mem d).take d.len := by
  simp only [Desc.sends, hdir]
  exact List.take_append_of_le_length hlen

/-- What the MCU clocks out during the data phase. -/
def Bridge.clockedOut (dummy : α) (mem : Desc → List α) (b : Bridge) : List α :=
  b.chain.flatMap (Desc.sends dummy mem)

/-- Where `spid` stands in its loop, with what it has received in this pass. -/
inductive Phase
  | top
  | low (p : Polls)
  | setup (rx : ControlPkt)
  | high (rx : ControlPkt)
  /-- `spid` has exited. -/
  | dead

/-- Where `bridge_dma_rx_completion` stands, with the callbacks it has still to make. -/
inductive Handler
  | idle
  | running (todo : List Callback)
  deriving DecidableEq

structure Link (α : Type) where
  spid : Spid α
  bridge : Bridge
  phase : Phase
  handler : Handler
  /-- The OUT buffer of each channel, as the data phases have filled it. -/
  outMem : Chan → Cells Byte spidBufSize

inductive LinkLabel (α : Type)
  | syncLow (p : Polls)
  /-- The headers cross; `toMcu` and `toSoc` are what arrives in the place of a corrupted one. -/
  | setup (sys : SysCalls) (toMcu toSoc : Option ControlPkt)
  | syncHigh
  /-- The end of the pass; `mem` is what the client buffers hold, and `pad` what `spid` reads when
  the MCU has nothing more to send. -/
  | transfer (sys : SysCalls) (mem : Desc → List α) (pad : List α)
  | copy
  | callback
  | writeBack
  | call (c : Call)

namespace Link

/-- `spid` and the MCU after their initialization. -/
def init : Link α where
  spid := Spid.init
  bridge := Bridge.init
  phase := .top
  handler := .idle
  outMem := fun _ => .fill 0#8

/-- The OUT buffers after a data phase in which the MCU has received `pieces`. -/
def filled (mem : Chan → Cells Byte spidBufSize) (chain : List Desc) (pieces : List (List Byte)) :
    Chan → Cells Byte spidBufSize :=
  Buffer.scatter mem ((chain.zip pieces).filterMap fun dp =>
    match dp.1.dir with
    | .out => some (dp.1.chan, (mem dp.1.chan).write 0 dp.2)
    | .inn => none)

/-- `Invalid command reply`: `spid` skips the data phase and tries again, or gives up. -/
def retry (l : Link α) : Link α :=
  { l with
    spid := { l.spid with retries := l.spid.retries + 1 }
    phase := if 15 < l.spid.retries + 1 then .dead else .top }

/-- The state of `spid` and its data phase after a good header. -/
def planned (l : Link α) (rx : ControlPkt) (fd : ℕ) : Spid α × List Segment :=
  Spid.planTransfer { l.spid.manageChannelActiveStatus rx fd with retries := 0 } rx

/-- The data phase: each side clocks out what it has prepared, and cuts what it receives at the
lengths of its own segments. -/
def exchange (dummy : α) (l : Link α) (rx : ControlPkt) (sys : SysCalls) (mem : Desc → List α)
    (pad : List α) (s : Spid α) (segs : List Segment) : Link α :=
  let toSoc := Buffer.slices (segs.map Segment.len) (l.bridge.clockedOut dummy mem ++ pad)
  let toMcu := Buffer.slices (l.bridge.chain.map fun d => d.len) (s.clockedOut segs)
  { l with
    spid := (s.receive segs toSoc).writeReceived rx sys
    bridge :=
      -- the chain is over only if `spid` clocks out as much as the MCU has prepared
      if l.bridge.chain ≠ [] ∧ total (l.bridge.chain.map Desc.toSegment) ≤ total segs then
        l.bridge.chainDone
      else l.bridge
    phase := .top
    outMem := filled l.outMem l.bridge.chain toMcu }

/-- The end of a pass, from SYNC high on. -/
def transfer (dummy : α) (l : Link α) (rx : ControlPkt) (sys : SysCalls) (mem : Desc → List α)
    (pad : List α) : Link α :=
  if rx.cmd ≠ 0xCA#8 then l.retry
  else
    let (s, segs) := l.planned rx sys.socket
    if segs = [] then { l with spid := s, phase := .top }
    else l.exchange dummy rx sys mem pad s segs

/-- The headers cross. -/
def setup (l : Link α) (p : Polls) (sys : SysCalls) (toMcu toSoc : Option ControlPkt) : Link α :=
  let s := l.spid.serve p sys
  { l with
    spid := s
    -- each side gets the header of the other, or what the lines have made of it
    bridge := l.bridge.receiveHeader (toMcu.getD s.header)
    phase := .setup (toSoc.getD l.bridge.ctrlTx) }

/-- The completion interrupt is taken. -/
def copy (l : Link α) : Link α :=
  if l.bridge.state = .data then
    { l with handler := .running (callbacks l.bridge.wasOpen l.bridge.takeSnapshot) }
  else { l with bridge := { l.bridge with rxDone := false } }

def step (dummy : α) (l : Link α) : LinkLabel α → Option (Link α)
  | .syncLow p =>
    match l.phase with
    | .top =>
      if l.spid.canReport p then
        some { l with bridge := l.bridge.handleSyncLow, phase := .low p }
      else none
    | _ => none
  | .setup sys toMcu toSoc =>
    match l.phase with
    | .low p => some (l.setup p sys toMcu toSoc)
    | _ => none
  | .syncHigh =>
    match l.phase with
    | .setup rx => some { l with bridge := l.bridge.handleSyncHigh, phase := .high rx }
    | _ => none
  | .transfer sys mem pad =>
    match l.phase with
    | .high rx => some (l.transfer dummy rx sys mem pad)
    | _ => none
  | .copy =>
    match l.handler with
    | .idle => if l.bridge.rxDone then some l.copy else none
    | .running _ => none
  | .callback =>
    match l.handler with
    | .running (_ :: todo) => some { l with handler := .running todo }
    | _ => none
  | .writeBack =>
    match l.handler with
    | .running [] => some { l with bridge := l.bridge.writeBack, handler := .idle }
    | _ => none
  | .call c => some { l with bridge := l.bridge.call c }

def machine (dummy : α) : Machine (Link α) (LinkLabel α) := ⟨step dummy⟩

/-- Nothing is polled. -/
def noPolls : Polls := ⟨fun _ => false, fun _ => false, fun _ => false, fun _ => false⟩

/-- System calls that read `bytes` and take everything that is written. -/
def reading (bytes : List Byte) : SysCalls := ⟨fun _ => 5, 6, fun _ => bytes, fun _ => spidBufSize⟩

/-! ### When a label can be taken, and where it leads -/

variable {dummy : α} {l l' : Link α}

theorem step_syncLow {p : Polls} : step dummy l (.syncLow p) = some l' ↔
    l.phase = .top ∧ l.spid.canReport p ∧
      { l with bridge := l.bridge.handleSyncLow, phase := .low p } = l' := by
  cases h : l.phase <;> simp [step, h]

theorem step_setup {sys : SysCalls} {toMcu toSoc : Option ControlPkt} :
    step dummy l (.setup sys toMcu toSoc) = some l' ↔
      ∃ p, l.phase = .low p ∧ l.setup p sys toMcu toSoc = l' := by
  cases h : l.phase <;> simp [step, h]

theorem step_syncHigh : step dummy l .syncHigh = some l' ↔
    ∃ rx, l.phase = .setup rx ∧
      { l with bridge := l.bridge.handleSyncHigh, phase := .high rx } = l' := by
  cases h : l.phase <;> simp [step, h]

theorem step_transfer {sys : SysCalls} {mem : Desc → List α} {pad : List α} :
    step dummy l (.transfer sys mem pad) = some l' ↔
      ∃ rx, l.phase = .high rx ∧ l.transfer dummy rx sys mem pad = l' := by
  cases h : l.phase <;> simp [step, h]

theorem step_copy : step dummy l .copy = some l' ↔
    l.handler = .idle ∧ l.bridge.rxDone ∧ l.copy = l' := by
  cases h : l.handler <;> simp [step, h]

theorem step_callback : step dummy l .callback = some l' ↔
    ∃ cb todo, l.handler = .running (cb :: todo) ∧ { l with handler := .running todo } = l' := by
  cases h : l.handler with
  | idle => simp [step, h]
  | running todo => cases todo <;> simp [step, h]

theorem step_writeBack : step dummy l .writeBack = some l' ↔
    l.handler = .running [] ∧ { l with bridge := l.bridge.writeBack, handler := .idle } = l' := by
  cases h : l.handler with
  | idle => simp [step, h]
  | running todo => cases todo <;> simp [step, h]

/-- The MCU takes the step on its own. -/
def isMcu : LinkLabel α → Prop
  | .copy => True
  | .callback => True
  | .writeBack => True
  | .call _ => True
  | _ => False

/-- A step of the MCU changes neither `spid` nor where it stands. -/
theorem step_isMcu {lab : LinkLabel α} (hmcu : isMcu lab) (h : step dummy l lab = some l') :
    l'.spid = l.spid ∧ l'.phase = l.phase := by
  cases lab with
  | copy =>
    obtain ⟨-, -, rfl⟩ := step_copy.1 h
    unfold copy
    split_ifs <;> exact ⟨rfl, rfl⟩
  | callback =>
    obtain ⟨cb, todo, -, rfl⟩ := step_callback.1 h
    exact ⟨rfl, rfl⟩
  | writeBack =>
    obtain ⟨-, rfl⟩ := step_writeBack.1 h
    exact ⟨rfl, rfl⟩
  | call c =>
    cases h
    exact ⟨rfl, rfl⟩
  | syncLow p => exact hmcu.elim
  | setup sys toMcu toSoc => exact hmcu.elim
  | syncHigh => exact hmcu.elim
  | transfer sys mem pad => exact hmcu.elim

/-! ### `spid` stays sound -/

/-- Every channel of `spid` is sound, what `poll` has reported is still true, and the DMA chain is
the one that the headers agree on. -/
structure Sound (l : Link α) : Prop where
  spid : l.spid.Sound
  polls : ∀ p, l.phase = .low p → l.spid.canReport p
  chain : ∀ rx, l.phase = .high rx → l.bridge.ctrlRx.cmd = 0x53#8 →
    l.bridge.chain.map Desc.toSegment = segments l.bridge.ctrlRx l.bridge.ctrlTx

theorem sound_init : Sound (init : Link α) :=
  ⟨Spid.sound_init, nofun, nofun⟩

/-- A call of a client touches neither the headers nor the chain. -/
theorem Sound.call (h : l.Sound) (c : Call) : Sound { l with bridge := l.bridge.call c } := by
  refine ⟨h.spid, h.polls, ?_⟩
  cases c <;> exact h.chain

theorem Sound.planned (h : l.Sound) (rx : ControlPkt) (fd : ℕ) :
    (l.planned rx fd).1.Sound :=
  Spid.Sound.plan (s := { l.spid.manageChannelActiveStatus rx fd with retries := 0 })
    (h.spid.manage rx fd) rx

theorem Sound.transfer (h : l.Sound) (dummy : α) (rx : ControlPkt) (sys : SysCalls)
    (mem : Desc → List α) (pad : List α) : (l.transfer dummy rx sys mem pad).Sound := by
  have hp := h.planned rx sys.socket
  unfold Link.transfer
  split_ifs with hcmd
  · refine ⟨h.spid, fun p hl => ?_, fun _ hl => ?_⟩
    all_goals
      simp only [retry] at hl
      split_ifs at hl
  · generalize l.planned rx sys.socket = r at hp
    obtain ⟨s, segs⟩ := r
    dsimp only at hp ⊢
    split_ifs with hsegs
    · exact ⟨hp, nofun, nofun⟩
    · exact ⟨(hp.receive segs _).write rx sys, nofun, nofun⟩

theorem Sound.step (h : l.Sound) {lab : LinkLabel α}
    (hst : step dummy l lab = some l') : l'.Sound := by
  cases lab with
  | syncLow p =>
    obtain ⟨-, hp, rfl⟩ := step_syncLow.1 hst
    refine ⟨h.spid, fun q hq => ?_, nofun⟩
    cases hq
    exact hp
  | setup sys toMcu toSoc =>
    obtain ⟨p, hphase, rfl⟩ := step_setup.1 hst
    exact ⟨h.spid.serve (h.polls p hphase) sys, nofun, nofun⟩
  | syncHigh =>
    obtain ⟨rx, -, rfl⟩ := step_syncHigh.1 hst
    refine ⟨h.spid, nofun, fun _ _ hcmd => ?_⟩
    rw [handleSyncHigh_ctrlRx] at hcmd
    rw [handleSyncHigh_chain hcmd, plannedChain_segments, handleSyncHigh_ctrlRx,
      handleSyncHigh_ctrlTx]
  | transfer sys mem pad =>
    obtain ⟨rx, -, rfl⟩ := step_transfer.1 hst
    exact h.transfer dummy rx sys mem pad
  | copy =>
    obtain ⟨-, -, rfl⟩ := step_copy.1 hst
    unfold copy
    split_ifs
    · exact ⟨h.spid, h.polls, h.chain⟩
    · exact ⟨h.spid, h.polls, h.chain⟩
  | callback =>
    obtain ⟨cb, todo, -, rfl⟩ := step_callback.1 hst
    exact ⟨h.spid, h.polls, h.chain⟩
  | writeBack =>
    obtain ⟨-, rfl⟩ := step_writeBack.1 hst
    exact ⟨h.spid, h.polls, h.chain⟩
  | call c =>
    cases hst
    exact h.call c

theorem sound_of_reachable (h : (machine dummy).Reachable init l) : l.Sound :=
  h.invariant sound_init fun _ _ _ hs hst => hs.step hst

end Link

end TesselFirmware
