import TesselFirmware.Usb.Interface

/-!
# The USB pipe across mode switches

`usbpipe_disable` empties the ring and takes the channel of the pipe away, but the bridge may have
offered the channel in a header that is still on its way, or may have a transfer of it in its DMA
chain; the completion is then reported to the disabled pipe, or to the next session.

* `Interface.survives` : in every run in which no completion is handled for a transaction with a
  USB segment that was offered before the last `usbpipe_disable`, the pipe never reaches
  `invalid()`, the ring never holds more than `OUT_RING_SIZE` packets and never underflows, and
  every completion comes in the session in which the transfer was started;
* `Interface.stale_completion` : one run in which the pipe is left during a data phase.
-/

namespace TesselFirmware

open ControlPkt

/-! ### What the calls do to the channel of the pipe -/

namespace Bridge

variable {b : Bridge} {c : Call}

theorem call_ready_of_ne (h : c.chan ≠ bridgeUsb) :
    (b.call c).ready bridgeUsb = b.ready bridgeUsb := by
  cases c with
  | startIn ch data length => rfl
  | startOut ch data =>
    have hne : (ch : ℕ) ≠ 0 := fun h0 => h (Fin.ext h0)
    simp [call, startOut, ready, bridgeUsb, Byte.has_set, hne, show (ch : ℕ) < 8 by omega]
  | enableChan ch =>
    simp [call, enableChan, ready, bridgeUsb, Byte.has_set, show (ch : ℕ) + 4 < 8 by omega]
  | disableChan ch =>
    have hne : (ch : ℕ) ≠ 0 := fun h0 => h (Fin.ext h0)
    simp [call, disableChan, ready, bridgeUsb, Byte.has_clear, hne, show (ch : ℕ) < 8 by omega,
      show (ch : ℕ) + 4 < 8 by omega]

theorem call_inChanSize_of_ne (h : c.chan ≠ bridgeUsb) :
    (b.call c).inChanSize bridgeUsb = b.inChanSize bridgeUsb := by
  cases c with
  | startIn ch data length => exact Function.update_of_ne (Ne.symm h) _ _
  | startOut ch data => rfl
  | enableChan ch => rfl
  | disableChan ch => exact Function.update_of_ne (Ne.symm h) _ _

@[simp] theorem startOut_ready (b : Bridge) (data : ℕ) :
    (b.startOut bridgeUsb data).ready bridgeUsb = true := by
  simp [startOut, ready, bridgeUsb, Byte.has_set]

@[simp] theorem enableChan_ready (b : Bridge) :
    (b.enableChan bridgeUsb).ready bridgeUsb = b.ready bridgeUsb := by
  simp [enableChan, ready, bridgeUsb, Byte.has_set]

@[simp] theorem disableChan_ready (b : Bridge) :
    (b.disableChan bridgeUsb).ready bridgeUsb = false := by
  simp [disableChan, ready, bridgeUsb, Byte.has_clear]

@[simp] theorem disableChan_inChanSize (b : Bridge) :
    (b.disableChan bridgeUsb).inChanSize bridgeUsb = 0#8 := by
  simp [disableChan]

end Bridge

namespace UsbPipe

/-- What `out_ring_step` does: at most it starts an OUT transfer into a free buffer, and at most it
passes one packet to the bridge. -/
structure RingStep (u : UsbPipe) (r : UsbPipe × List Call) : Prop where
  count : r.1.outRingCount = u.outRingCount
  state : r.1.state = u.state
  usb : r.1.outUsbPending → u.outUsbPending ∨ u.outRingCount < outRingSize
  usbPending : u.outUsbPending → r.1.outUsbPending
  bridge : r.2 = [] ∧ r.1.outBridgePending = u.outBridgePending ∨
    u.outBridgePending = false ∧ 0 < u.outRingCount ∧ r.1.outBridgePending ∧
      ∃ data length, r.2 = [.startIn bridgeUsb data length]

theorem ringStep (u : UsbPipe) : RingStep u u.outRingStep := by
  have hreceive : u.receiveUsb.outRingCount = u.outRingCount ∧ u.receiveUsb.state = u.state ∧
      u.receiveUsb.outBridgePending = u.outBridgePending ∧
      (u.receiveUsb.outUsbPending → u.outUsbPending ∨ u.outRingCount < outRingSize) ∧
      (u.outUsbPending → u.receiveUsb.outUsbPending) := by
    unfold receiveUsb
    split
    · next h => exact ⟨rfl, rfl, rfl, fun _ => .inr h.2.1, fun _ => rfl⟩
    · exact ⟨rfl, rfl, rfl, .inl, id⟩
  obtain ⟨hc, hs, hb, hu, hu'⟩ := hreceive
  have hsend (v : UsbPipe) : RingStep v v.sendBridge := by
    unfold sendBridge
    split
    · next h =>
      have hf : v.outBridgePending = false := by simpa using h.1
      split
      · exact ⟨rfl, rfl, .inl, id, .inr ⟨hf, h.2, rfl, _, _, rfl⟩⟩
      · exact ⟨rfl, rfl, .inl, id, .inr ⟨hf, h.2, rfl, _, _, rfl⟩⟩
    · exact ⟨rfl, rfl, .inl, id, .inl ⟨rfl, rfl⟩⟩
  have h := hsend u.receiveUsb
  refine ⟨h.count.trans hc, h.state.trans hs, ?_, fun hp => h.usbPending (hu' hp), ?_⟩
  · intro hp
    obtain hp | hp := h.usb hp
    · exact hu hp
    · exact .inr (hc ▸ hp)
  · have hbridge := h.bridge
    rwa [hb, hc] at hbridge

end UsbPipe

namespace Interface

/-- What the copies of the headers say about the channel of the pipe. -/
def copiedOut (c : Bridge.Snapshot) : Prop := (Bridge.checkCompletionOut c bridgeUsb).isSome

def copiedIn (c : Bridge.Snapshot) : Prop := (Bridge.checkCompletionIn c bridgeUsb).isSome

/-- No completion is handled for a transaction with a segment of the pipe that was offered before
the last `usbpipe_disable`. -/
def Settled (s : Interface) : InterfaceLabel → Prop
  | .copy =>
    s.bridge.state = .data → s.offered.session ≠ s.current.session →
      movesOut s.bridge.ctrlRx s.bridge.ctrlTx bridgeUsb = false ∧
        movesIn s.bridge.ctrlRx s.bridge.ctrlTx bridgeUsb = false
  | _ => True

instance (s : Interface) (l : InterfaceLabel) : Decidable (s.Settled l) := by
  unfold Settled
  split
  · infer_instance
  · infer_instance

/-- The pipe has not reached `invalid()`, its ring is within its bounds, and every completion came
in the session in which the transfer was started. -/
structure Survives (s : Interface) : Prop where
  invalid : s.invalid = false
  count : s.pipe.outRingCount ≤ outRingSize
  delivered : ∀ d ∈ s.delivered, d.1 = d.2

/-! ### The invariant -/

/-- The last falling SYNC edge came in the current session. -/
def Current (s : Interface) : Prop := s.offered.session = s.current.session

/-- The pipe is disabled: nothing of it is left. -/
def Closed (s : Interface) : Prop :=
  s.pipe.state = .disable ∧ s.pipe.outRingCount = 0 ∧ s.pipeOut = none ∧ s.pipeIn = none ∧
    s.bridge.ready bridgeUsb = false ∧ s.bridge.inChanSize bridgeUsb = 0#8

/-- The invariant, but for the transfers that are fixed. -/
structure Core (s : Interface) : Prop extends Survives s where
  setting : s.pipeEnabled → s.altsetting = .pipe ∧ s.switching = none
  closed : s.pipeEnabled = false → s.Closed
  level : s.bridge.state = .data → s.sync
  pipeOut : ∀ k, s.pipeOut = some k →
    k = s.current.session ∧ s.pipe.outUsbPending ∧ s.pipe.outRingCount < outRingSize
  pipeIn : ∀ k, s.pipeIn = some k → k = s.current.session ∧ s.pipe.state = .waitForUsb
  /-- What is ready was started in this session. -/
  ready : s.bridge.ready bridgeUsb →
    s.current.out = s.current.session ∧ s.pipe.state = .waitForBridge
  size : s.bridge.inChanSize bridgeUsb ≠ 0#8 →
    s.current.inn = s.current.session ∧ s.pipe.outBridgePending ∧ 0 < s.pipe.outRingCount
  offered : s.offered.session ≤ s.current.session
  /-- What has been offered in this session was started in it. -/
  offeredOut : s.Current → s.bridge.ctrlTx.ready bridgeUsb →
    s.pipeEnabled ∧ s.offered.out = s.current.session
  offeredIn : s.Current → s.bridge.ctrlTx.size bridgeUsb ≠ 0#8 →
    s.pipeEnabled ∧ s.offered.inn = s.current.session
  /-- What is being offered is still ready. -/
  lowOut : s.sync = false → s.Current → s.bridge.ctrlTx.ready bridgeUsb →
    s.bridge.ready bridgeUsb
  lowIn : s.sync = false → s.Current → s.bridge.ctrlTx.size bridgeUsb ≠ 0#8 →
    s.bridge.inChanSize bridgeUsb ≠ 0#8

/-- The pipe waits for the OUT transfer. -/
def AwaitsOut (s : Interface) : Prop :=
  s.pipe.state = .waitForBridge ∧ s.bridge.ready bridgeUsb = false

/-- The pipe waits for the IN transfer. -/
def AwaitsIn (s : Interface) : Prop :=
  s.pipe.outBridgePending ∧ 0 < s.pipe.outRingCount ∧ s.bridge.inChanSize bridgeUsb = 0#8

/-- The invariant of the runs in which the pipe survives. -/
structure Sound (s : Interface) : Prop extends Core s where
  fixedOut : s.bridge.state = .data → s.handling = false → s.Current →
    movesOut s.bridge.ctrlRx s.bridge.ctrlTx bridgeUsb → s.AwaitsOut
  fixedIn : s.bridge.state = .data → s.handling = false → s.Current →
    movesIn s.bridge.ctrlRx s.bridge.ctrlTx bridgeUsb → s.AwaitsIn
  copiedOut : ∀ c, s.pc = .copied c → Interface.copiedOut c →
    s.AwaitsOut ∧ s.copied.out = s.current.session
  copiedIn : ∀ c, s.pc = .copied c → Interface.copiedIn c →
    s.AwaitsIn ∧ s.copied.inn = s.current.session

theorem sound_init (sync : Bool) : Sound (init sync) where
  invalid := rfl
  count := Nat.zero_le _
  delivered := by simp [init]
  setting := by simp [init]
  closed _ := ⟨rfl, rfl, rfl, rfl, by simp [init, Bridge.init, Bridge.ready], rfl⟩
  level := by simp [init, Bridge.init]
  pipeOut := by simp [init]
  pipeIn := by simp [init]
  ready := by simp [init, Bridge.init, Bridge.ready]
  size h := absurd rfl h
  offered := Nat.le_refl _
  offeredOut := by simp [init, Bridge.init, Bridge.zeroPkt, ControlPkt.ready]
  offeredIn _ h := absurd rfl h
  lowOut := by simp [init, Bridge.init, Bridge.zeroPkt, ControlPkt.ready]
  lowIn _ _ h := absurd rfl h
  fixedOut := by simp [init, Bridge.init]
  fixedIn := by simp [init, Bridge.init]
  copiedOut := by simp [init]
  copiedIn := by simp [init]

variable {s t : Interface}

theorem Core.enabled (h : Core s) (hc : ¬ s.Closed) : s.pipeEnabled := by
  by_contra hp
  exact hc (h.closed (by simpa using hp))

theorem Core.enabled_of_ready (h : Core s) (hr : s.bridge.ready bridgeUsb) : s.pipeEnabled := by
  refine h.enabled fun hc => ?_
  obtain ⟨-, -, -, -, hready, -⟩ := hc
  exact absurd (hready.symm.trans hr) (by simp)

theorem Core.enabled_of_size (h : Core s) (hz : s.bridge.inChanSize bridgeUsb ≠ 0#8) :
    s.pipeEnabled := by
  refine h.enabled fun hc => ?_
  obtain ⟨-, -, -, -, -, hsize⟩ := hc
  exact hz hsize

/-! ### SYNC edges -/

theorem sound_syncLow (h : Sound s) : Sound s.syncLow :=
  { h with
    level := by simp [syncLow, Bridge.handleSyncLow]
    offered := Nat.le_refl _
    offeredOut := fun _ hr => ⟨h.enabled_of_ready hr, (h.ready hr).1⟩
    offeredIn := fun _ hz => ⟨h.enabled_of_size hz, (h.size hz).1⟩
    lowOut := fun _ _ hr => hr
    lowIn := fun _ _ hz => hz
    fixedOut := by simp [syncLow, Bridge.handleSyncLow]
    fixedIn := by simp [syncLow, Bridge.handleSyncLow] }

theorem ready_of_handleSyncHigh {b : Bridge} (h : b.handleSyncHigh.ready bridgeUsb) :
    b.ready bridgeUsb := by
  by_cases hcmd : b.ctrlRx.cmd = 0x53#8
  · rw [Bridge.handleSyncHigh_ready hcmd] at h
    exact (Bool.and_eq_true_iff.1 h).1
  · rw [Bridge.handleSyncHigh_of_cmd_ne hcmd] at h
    exact h

theorem size_of_handleSyncHigh {b : Bridge} (h : b.handleSyncHigh.inChanSize bridgeUsb ≠ 0#8) :
    b.inChanSize bridgeUsb ≠ 0#8 := by
  by_cases hcmd : b.ctrlRx.cmd = 0x53#8
  · rw [Bridge.handleSyncHigh_inChanSize hcmd] at h
    split at h
    · exact absurd rfl h
    · exact h
  · rw [Bridge.handleSyncHigh_of_cmd_ne hcmd] at h
    exact h

theorem cmd_of_handleSyncHigh {b : Bridge} (h : b.handleSyncHigh.state = .data) :
    b.ctrlRx.cmd = 0x53#8 := by
  by_contra hcmd
  rw [Bridge.handleSyncHigh_of_cmd_ne hcmd] at h
  cases h

/-- SYNC high fixes segments of the pipe only where the pipe waits for them. -/
theorem sound_handleSyncHigh (h : Sound s) (hs : s.sync = false) :
    Sound { s with bridge := s.bridge.handleSyncHigh, sync := true } := by
  have hready (hr : s.bridge.ready bridgeUsb = false) :
      s.bridge.handleSyncHigh.ready bridgeUsb = false :=
    Bool.eq_false_iff.2 fun hr' => absurd (hr.symm.trans (ready_of_handleSyncHigh hr')) (by simp)
  have hsize (hz : s.bridge.inChanSize bridgeUsb = 0#8) :
      s.bridge.handleSyncHigh.inChanSize bridgeUsb = 0#8 :=
    by_contra fun hz' => size_of_handleSyncHigh hz' hz
  exact
    { h with
      closed := fun hp => by
        obtain ⟨h1, h2, h3, h4, h5, h6⟩ := h.closed hp
        exact ⟨h1, h2, h3, h4, hready h5, hsize h6⟩
      level := fun _ => rfl
      ready := fun hr => h.ready (ready_of_handleSyncHigh hr)
      size := fun hz => h.size (size_of_handleSyncHigh hz)
      offeredOut := fun hc hr => h.offeredOut hc (by simpa using hr)
      offeredIn := fun hc hz => h.offeredIn hc (by simpa using hz)
      lowOut := by simp
      lowIn := by simp
      fixedOut := fun hd _ hc hm => by
        rw [Bridge.handleSyncHigh_ctrlRx, Bridge.handleSyncHigh_ctrlTx] at hm
        have htx : s.bridge.ctrlTx.ready bridgeUsb := (Bool.and_eq_true_iff.1 hm).1
        refine ⟨(h.ready (h.lowOut hs hc htx)).2, ?_⟩
        rw [Bridge.handleSyncHigh_ready (cmd_of_handleSyncHigh hd), hm]
        simp
      fixedIn := fun hd _ hc hm => by
        rw [Bridge.handleSyncHigh_ctrlRx, Bridge.handleSyncHigh_ctrlTx] at hm
        have htx : s.bridge.ctrlTx.size bridgeUsb ≠ 0#8 := by
          simpa using (Bool.and_eq_true_iff.1 hm).2
        obtain ⟨-, hb, hpos⟩ := h.size (h.lowIn hs hc htx)
        refine ⟨hb, hpos, ?_⟩
        rw [Bridge.handleSyncHigh_inChanSize (cmd_of_handleSyncHigh hd), if_pos hm]
      copiedOut := fun c hp hm => by
        obtain ⟨⟨h1, h2⟩, h3⟩ := h.copiedOut c hp hm
        exact ⟨⟨h1, hready h2⟩, h3⟩
      copiedIn := fun c hp hm => by
        obtain ⟨⟨h1, h2, h3⟩, h4⟩ := h.copiedIn c hp hm
        exact ⟨⟨h1, h2, hsize h3⟩, h4⟩ }

theorem sound_syncHigh (h : Sound s) (hs : s.sync = false) : Sound s.syncHigh := by
  have hhigh := sound_handleSyncHigh h hs
  rw [syncHigh]
  dsimp only
  split_ifs <;> exact { hhigh with }

theorem sound_header (h : Sound s) (hs : s.sync = false) (pkt : ControlPkt) (dma : DmaRx) :
    Sound { s with bridge := s.bridge.receiveHeader pkt, dma := dma } := by
  have hd : s.bridge.state ≠ .data := by
    intro hd
    exact absurd (h.level hd) (by simp [hs])
  exact
    { h with
      fixedOut := fun he => absurd he hd
      fixedIn := fun he => absurd he hd }

/-! ### The completion handler -/

theorem copiedOut_takeSnapshot (b : Bridge) :
    copiedOut b.takeSnapshot ↔ movesOut b.ctrlRx b.ctrlTx bridgeUsb := by
  rw [copiedOut, Bridge.takeSnapshot, Bridge.checkCompletionOut_snapshotOf]
  split <;> simp_all

theorem copiedIn_takeSnapshot (b : Bridge) :
    copiedIn b.takeSnapshot ↔ movesIn b.ctrlRx b.ctrlTx bridgeUsb := by
  rw [copiedIn, Bridge.takeSnapshot, Bridge.checkCompletionIn_snapshotOf]
  split <;> simp_all

theorem sound_finishDma (h : Sound s) (hd : s.bridge.state ≠ .data) : Sound s.finishDma :=
  { h with
    fixedOut := fun he => absurd he hd
    fixedIn := fun he => absurd he hd
    copiedOut := by simp [finishDma]
    copiedIn := by simp [finishDma] }

/-- The headers are copied: what they fixed for the pipe was offered in this session. -/
theorem sound_copy (h : Sound s) (hok : s.Settled .copy) (hp : s.handling = false)
    (starter : Subsystem) : Sound (s.copy starter) := by
  rw [copy]
  by_cases hd : s.bridge.state = .data
  · have hcurrent (hm : movesOut s.bridge.ctrlRx s.bridge.ctrlTx bridgeUsb ∨
        movesIn s.bridge.ctrlRx s.bridge.ctrlTx bridgeUsb) : s.Current := by
      by_contra hc
      obtain ⟨h1, h2⟩ := hok hd hc
      simp [h1, h2] at hm
    dsimp only
    rw [if_pos hd]
    exact
      { h with
        fixedOut := by simp [handling]
        fixedIn := by simp [handling]
        copiedOut := fun c hc hm => by
          cases hc
          rw [copiedOut_takeSnapshot] at hm
          have hcur := hcurrent (.inl hm)
          exact ⟨h.fixedOut hd hp hcur hm,
            (h.offeredOut hcur (Bool.and_eq_true_iff.1 hm).1).2⟩
        copiedIn := fun c hc hm => by
          cases hc
          rw [copiedIn_takeSnapshot] at hm
          have hcur := hcurrent (.inr hm)
          exact ⟨h.fixedIn hd hp hcur hm,
            (h.offeredIn hcur (by simpa using (Bool.and_eq_true_iff.1 hm).2)).2⟩ }
  · dsimp only
    rw [if_neg hd]
    exact sound_finishDma { h with } hd

/-! ### The ring -/

section RingStep

variable {r : UsbPipe × List Call}

theorem awaitsOut_ringStep (hr : s.pipe.RingStep r) (h : s.AwaitsOut) :
    (s.runPipe r).AwaitsOut := by
  obtain ⟨h1, h2⟩ := h
  refine ⟨hr.state.trans h1, ?_⟩
  obtain ⟨hcalls, -⟩ | ⟨-, -, -, data, length, hcalls⟩ := hr.bridge
  · rw [runPipe, hcalls]
    exact h2
  · rw [runPipe, hcalls]
    exact h2

/-- A packet that the bridge is sending stays pending. -/
theorem awaitsIn_ringStep (hr : s.pipe.RingStep r) (h : s.AwaitsIn) :
    (s.runPipe r).AwaitsIn := by
  obtain ⟨h1, h2, h3⟩ := h
  obtain ⟨hcalls, hb⟩ | ⟨hb, -⟩ := hr.bridge
  · refine ⟨hb.trans h1, hr.count.symm ▸ h2, ?_⟩
    rw [runPipe, hcalls]
    exact h3
  · exact absurd (hb.symm.trans h1) (by simp)

theorem core_ringStep (h : Core s) (he : s.pipeEnabled) (hr : s.pipe.RingStep r) :
    Core (s.runPipe r) := by
  have hclosed (hp : (s.runPipe r).pipeEnabled = false) : (s.runPipe r).Closed :=
    absurd (hp.symm.trans he) (by simp)
  have hcount : r.1.outRingCount ≤ outRingSize := hr.count ▸ h.count
  have hpipeOut (k : ℕ) (hk : (s.runPipe r).pipeOut = some k) :
      k = s.current.session ∧ r.1.outUsbPending ∧ r.1.outRingCount < outRingSize := by
    rw [hr.count]
    simp only [runPipe] at hk
    split at hk
    · next hnew =>
      cases hk
      refine ⟨rfl, hnew.2, ?_⟩
      obtain hp | hlt := hr.usb hnew.2
      · exact absurd (hnew.1.symm.trans hp) (by simp)
      · exact hlt
    · obtain ⟨h1, h2, h3⟩ := h.pipeOut k hk
      exact ⟨h1, hr.usbPending h2, h3⟩
  have hpipeIn (k : ℕ) (hk : s.pipeIn = some k) :
      k = s.current.session ∧ r.1.state = .waitForUsb :=
    ⟨(h.pipeIn k hk).1, hr.state.trans (h.pipeIn k hk).2⟩
  have hready (hb : s.bridge.ready bridgeUsb) :
      s.current.out = s.current.session ∧ r.1.state = .waitForBridge :=
    ⟨(h.ready hb).1, hr.state.trans (h.ready hb).2⟩
  obtain ⟨u, calls⟩ := r
  -- either the bridge is not called, or it gets the oldest packet of the ring
  obtain ⟨hcalls, hb⟩ | ⟨hb, hpos, hb', data, length, hcalls⟩ := hr.bridge
  · obtain rfl : calls = [] := hcalls
    have hsize (hz : s.bridge.inChanSize bridgeUsb ≠ 0#8) : s.current.inn = s.current.session ∧
        u.outBridgePending ∧ 0 < u.outRingCount := by
      obtain ⟨h1, h2, h3⟩ := h.size hz
      exact ⟨h1, hb.trans h2, hr.count.symm ▸ h3⟩
    exact
      { h with
        count := hcount
        closed := hclosed
        pipeOut := hpipeOut
        pipeIn := hpipeIn
        ready := hready
        size := hsize }
  · obtain rfl : calls = [.startIn bridgeUsb data length] := hcalls
    have hsize (hz : s.bridge.inChanSize bridgeUsb ≠ 0#8) : False := by
      obtain ⟨-, h2, -⟩ := h.size hz
      exact absurd (hb.symm.trans h2) (by simp)
    exact
      { h with
        count := hcount
        closed := hclosed
        pipeOut := hpipeOut
        pipeIn := hpipeIn
        ready := hready
        size := fun _ => ⟨rfl, hb', hr.count.symm ▸ hpos⟩
        lowIn := fun h1 h2 h3 => absurd (h.lowIn h1 h2 h3) hsize }

theorem sound_ringStep (h : Sound s) (he : s.pipeEnabled) (hr : s.pipe.RingStep r) :
    Sound (s.runPipe r) := by
  have hcore := core_ringStep h.toCore he hr
  obtain ⟨u, calls⟩ := r
  obtain ⟨hcalls, -⟩ | ⟨hb, -, -, data, length, hcalls⟩ := hr.bridge
  · obtain rfl : calls = [] := hcalls
    exact
      { hcore with
        fixedOut := fun h1 h2 h3 h4 => awaitsOut_ringStep hr (h.fixedOut h1 h2 h3 h4)
        fixedIn := fun h1 h2 h3 h4 => awaitsIn_ringStep hr (h.fixedIn h1 h2 h3 h4)
        copiedOut := fun c hp hm => (h.copiedOut c hp hm).imp_left (awaitsOut_ringStep hr)
        copiedIn := fun c hp hm => (h.copiedIn c hp hm).imp_left (awaitsIn_ringStep hr) }
  · obtain rfl : calls = [.startIn bridgeUsb data length] := hcalls
    have hno : ¬ s.AwaitsIn := by
      intro ha
      exact absurd (hb.symm.trans ha.1) (by simp)
    exact
      { hcore with
        fixedOut := fun h1 h2 h3 h4 => awaitsOut_ringStep hr (h.fixedOut h1 h2 h3 h4)
        fixedIn := fun h1 h2 h3 h4 => absurd (h.fixedIn h1 h2 h3 h4) hno
        copiedOut := fun c hp hm => (h.copiedOut c hp hm).imp_left (awaitsOut_ringStep hr)
        copiedIn := fun c hp hm => absurd (h.copiedIn c hp hm).1 hno }

end RingStep

theorem delivered_deliver (h : Survives s) {k : ℕ} (hk : k = s.current.session) :
    ∀ d ∈ (s.deliver k).delivered, d.1 = d.2 := by
  intro d hd
  obtain hd | hd := List.mem_append.1 hd
  · exact h.delivered d hd
  · rw [List.mem_singleton.1 hd]
    exact hk

/-! ### Completions -/

/-- The ring when a packet from the PC has been received, before `out_ring_step`. -/
def received (u : UsbPipe) (packet : List Byte) : UsbPipe :=
  { u with
    outRingBuf := Function.update u.outRingBuf u.outRingWritePos
      ((u.outRingBuf u.outRingWritePos).write 0 packet)
    outRingShortPacket :=
      if packet.length < packetSize then packet.length else u.outRingShortPacket
    outRingWritePos := (u.outRingWritePos + 1) % outRingSize
    outRingCount := (u.outRingCount + 1) % 256
    outUsbPending := false }

/-- The ring when the bridge has sent a packet, before `out_ring_step`. -/
def sent (u : UsbPipe) : UsbPipe :=
  { u with
    outRingReadPos := (u.outRingReadPos + 1) % outRingSize
    outRingCount := (u.outRingCount + 255) % 256
    outBridgePending := false }

theorem serve_completionIn (s : Interface) :
    s.serve (.completionIn bridgeUsb) =
      { s.deliver s.copied.inn with pipe := sent s.pipe }.runPipe (sent s.pipe).outRingStep := rfl

/-- A packet from the PC has been received. -/
theorem sound_pipeOutCompletion (h : Sound s) {k : ℕ} (hk : s.pipeOut = some k)
    (packet : List Byte) : Sound (s.pipeOutCompletion k packet) := by
  obtain ⟨hs, -, hlt⟩ := h.pipeOut k hk
  have he : s.pipeEnabled := h.enabled fun hc => absurd (hc.2.2.1.symm.trans hk) (by simp)
  have hsize : outRingSize = 10 := rfl
  have hcount : (received s.pipe packet).outRingCount = s.pipe.outRingCount + 1 :=
    Nat.mod_eq_of_lt (by omega)
  have hawaits (ha : s.AwaitsIn) :
      AwaitsIn { s.deliver k with pipe := received s.pipe packet, pipeOut := none } := by
    obtain ⟨h1, -, h3⟩ := ha
    exact ⟨h1, hcount ▸ Nat.succ_pos _, h3⟩
  have hreceived :
      Sound { s.deliver k with pipe := received s.pipe packet, pipeOut := none } :=
    { h with
      count := by
        rw [hcount]
        omega
      delivered := delivered_deliver h.toSurvives hs
      closed := fun hp => absurd (hp.symm.trans he) (by simp)
      pipeOut := by simp
      size := fun hz => by
        obtain ⟨h1, h2, -⟩ := h.size hz
        exact ⟨h1, h2, hcount ▸ Nat.succ_pos _⟩
      fixedIn := fun h1 h2 h3 h4 => hawaits (h.fixedIn h1 h2 h3 h4)
      copiedIn := fun c hc hm => (h.copiedIn c hc hm).imp_left hawaits }
  have hrun := sound_ringStep hreceived he (UsbPipe.ringStep _)
  exact hrun

/-- A packet to the PC has been sent. -/
theorem sound_pipeInCompletion (h : Sound s) {k : ℕ} (hk : s.pipeIn = some k) :
    Sound (s.pipeInCompletion k) := by
  obtain ⟨hs, hstate⟩ := h.pipeIn k hk
  have he : s.pipeEnabled := h.enabled fun hc => absurd (hc.2.2.2.1.symm.trans hk) (by simp)
  have hno : ¬ s.AwaitsOut := by
    intro ha
    exact absurd (hstate.symm.trans ha.1) (by simp)
  have hready : (s.bridge.startOut bridgeUsb pipeBufferPtr).ready bridgeUsb = true :=
    Bridge.startOut_ready _ _
  have hcompleted : s.pipe.handle .inCompletion =
      ({ s.pipe with state := .waitForBridge }, [.startOut bridgeUsb pipeBufferPtr]) :=
    if_pos hstate
  have heq : s.pipeInCompletion k =
      { s.deliver k with pipeIn := none }.runPipe (s.pipe.handle .inCompletion) := if_pos hstate
  rw [heq, hcompleted]
  exact
    { h with
      delivered := delivered_deliver h.toSurvives hs
      closed := fun hp => absurd (hp.symm.trans he) (by simp)
      pipeOut := fun k hk => by
        simp only [runPipe] at hk
        split at hk
        · next hnew => exact absurd (hnew.1.symm.trans hnew.2) (by simp)
        · exact h.pipeOut k hk
      pipeIn := by simp [runPipe, deliver]
      ready := fun _ => ⟨rfl, rfl⟩
      lowOut := fun _ _ _ => hready
      fixedOut := fun h1 h2 h3 h4 => absurd (h.fixedOut h1 h2 h3 h4) hno
      copiedOut := fun c hc hm => absurd (h.copiedOut c hc hm).1 hno }

/-- The bridge has received into the buffer of the pipe. -/
theorem core_completionOut (h : Core s) (ha : s.AwaitsOut)
    (hk : s.copied.out = s.current.session) (len : ℕ) :
    Core (s.serve (.completionOut bridgeUsb len)) := by
  obtain ⟨hstate, hready⟩ := ha
  have he : s.pipeEnabled := by
    refine h.enabled fun hc => ?_
    exact absurd (hc.1.symm.trans hstate) (by simp)
  have hserve : s.serve (.completionOut bridgeUsb len) =
      { (s.deliver s.copied.out).runPipe (s.pipe.callback (.completionOut bridgeUsb len)) with
        pipeIn := some s.current.session } := if_pos hstate
  have hcallback : s.pipe.callback (.completionOut bridgeUsb len) =
      ({ s.pipe with state := .waitForUsb }, []) := if_pos hstate
  rw [hserve, hcallback]
  exact
    { h with
      delivered := delivered_deliver h.toSurvives hk
      closed := fun hp => absurd (hp.symm.trans he) (by simp)
      pipeOut := fun k hk => by
        simp only [runPipe] at hk
        split at hk
        · next hnew => exact absurd (hnew.1.symm.trans hnew.2) (by simp)
        · exact h.pipeOut k hk
      pipeIn := fun k hk => ⟨(Option.some.inj hk).symm, rfl⟩
      ready := fun hr => absurd (hready.symm.trans hr) (by simp) }

theorem awaitsIn_completionOut (ha : s.AwaitsIn) (hk : s.copied.inn = s.current.session)
    (hstate : s.pipe.state = .waitForBridge) (len : ℕ) :
    (s.serve (.completionOut bridgeUsb len)).AwaitsIn ∧
      (s.serve (.completionOut bridgeUsb len)).copied.inn =
        (s.serve (.completionOut bridgeUsb len)).current.session := by
  have hserve : s.serve (.completionOut bridgeUsb len) =
      { (s.deliver s.copied.out).runPipe (s.pipe.callback (.completionOut bridgeUsb len)) with
        pipeIn := some s.current.session } := if_pos hstate
  have hcallback : s.pipe.callback (.completionOut bridgeUsb len) =
      ({ s.pipe with state := .waitForUsb }, []) := if_pos hstate
  rw [hserve, hcallback]
  exact ⟨ha, hk⟩

/-- The bridge has sent a packet of the ring. -/
theorem core_completionIn (h : Core s) (ha : s.AwaitsIn)
    (hk : s.copied.inn = s.current.session) : Core (s.serve (.completionIn bridgeUsb)) := by
  obtain ⟨-, hpos, hz⟩ := ha
  have he : s.pipeEnabled := by
    refine h.enabled fun hc => ?_
    rw [hc.2.1] at hpos
    exact absurd hpos (Nat.lt_irrefl 0)
  have hsize : outRingSize = 10 := rfl
  have hle := h.count
  have hcount : (sent s.pipe).outRingCount = s.pipe.outRingCount - 1 := by
    show (s.pipe.outRingCount + 255) % 256 = _
    omega
  have hsent : Core { s.deliver s.copied.inn with pipe := sent s.pipe } :=
    { h with
      count := by
        rw [hcount]
        omega
      delivered := delivered_deliver h.toSurvives hk
      closed := fun hp => absurd (hp.symm.trans he) (by simp)
      pipeOut := fun k hk => by
        obtain ⟨h1, h2, h3⟩ := h.pipeOut k hk
        refine ⟨h1, h2, ?_⟩
        rw [hcount]
        omega
      size := fun hne => absurd hz hne }
  rw [serve_completionIn]
  exact core_ringStep hsent he (UsbPipe.ringStep _)

theorem serve_of_ne (s : Interface) {cb : Callback} (h : cb.chan ≠ bridgeUsb) :
    s.serve cb = s := if_neg h

/-- Only the callbacks of its channel reach the pipe. -/
theorem foldl_serve_filter (s : Interface) (cbs : List Callback) :
    cbs.foldl serve s = (cbs.filter (·.chan = bridgeUsb)).foldl serve s := by
  induction cbs generalizing s with
  | nil => rfl
  | cons cb cbs ih =>
    rw [List.foldl_cons, ih, List.filter_cons]
    split
    · rfl
    · next hne => rw [serve_of_ne s (by simpa using hne)]

theorem foldl_serve_open (s : Interface) (w : Byte) (c : Bridge.Snapshot) :
    (Bridge.checkOpen w c bridgeUsb).toList.foldl serve s = s := by
  cases hc : Bridge.checkOpen w c bridgeUsb with
  | none => rfl
  | some cb =>
    rw [Bridge.eq_open_of_checkOpen hc]
    rfl

theorem foldl_serve_close (s : Interface) (w : Byte) (c : Bridge.Snapshot) :
    (Bridge.checkClose w c bridgeUsb).toList.foldl serve s = s := by
  cases hc : Bridge.checkClose w c bridgeUsb with
  | none => rfl
  | some cb =>
    rw [Bridge.eq_close_of_checkClose hc]
    rfl

/-- The callbacks of the transaction whose headers have been copied. -/
theorem core_callbacks (h : Sound s) {c : Bridge.Snapshot} (hp : s.pc = .copied c) (w : Byte) :
    Core ((Bridge.callbacks w c).foldl serve s) := by
  have hc : c = Bridge.snapshotOf ⟨0#8, c.rxStatus, c.rxSize⟩ ⟨0#8, c.txStatus, c.txSize⟩ := rfl
  rw [foldl_serve_filter, hc, Bridge.callbacks_chan, List.foldl_append, List.foldl_append,
    List.foldl_append, foldl_serve_open, foldl_serve_close]
  have hout (hm : movesOut ⟨0#8, c.rxStatus, c.rxSize⟩ ⟨0#8, c.txStatus, c.txSize⟩ bridgeUsb) :
      Interface.copiedOut c := by
    rw [copiedOut, hc, Bridge.checkCompletionOut_snapshotOf, if_pos hm]
    rfl
  have hin (hm : movesIn ⟨0#8, c.rxStatus, c.rxSize⟩ ⟨0#8, c.txStatus, c.txSize⟩ bridgeUsb) :
      Interface.copiedIn c := by
    rw [copiedIn, hc, Bridge.checkCompletionIn_snapshotOf, if_pos hm]
    rfl
  by_cases ho : movesOut ⟨0#8, c.rxStatus, c.rxSize⟩ ⟨0#8, c.txStatus, c.txSize⟩ bridgeUsb
  · obtain ⟨hawaits, hk⟩ := h.copiedOut c hp (hout ho)
    have hcore := core_completionOut h.toCore hawaits hk (c.rxSize bridgeUsb).toNat
    rw [if_pos ho]
    split
    · next hi =>
      obtain ⟨hawaits', hk'⟩ := h.copiedIn c hp (hin hi)
      obtain ⟨hawaits', hk'⟩ :=
        awaitsIn_completionOut hawaits' hk' hawaits.1 (c.rxSize bridgeUsb).toNat
      exact core_completionIn hcore hawaits' hk'
    · exact hcore
  · rw [if_neg ho]
    split
    · next hi =>
      obtain ⟨hawaits, hk⟩ := h.copiedIn c hp (hin hi)
      exact core_completionIn h.toCore hawaits hk
    · exact h.toCore

theorem sound_callbacks (h : Sound s) {c : Bridge.Snapshot} (hp : s.pc = .copied c) (w : Byte) :
    Sound { (Bridge.callbacks w c).foldl serve s with pc := .called c } :=
  { core_callbacks h hp w with
    fixedOut := by simp [handling]
    fixedIn := by simp [handling]
    copiedOut := by simp
    copiedIn := by simp }

/-! ### Mode switches -/

/-- `usbpipe_disable` begins a new session, of which nothing has been offered. -/
theorem sound_usbpipeDisable (h : Sound s) (hp : s.handling = false) : Sound s.usbpipeDisable := by
  have hle := h.offered
  have hcurrent (hc : s.usbpipeDisable.Current) : False := by
    have hc' : s.offered.session = s.current.session + 1 := hc
    omega
  have hpc (c : Bridge.Snapshot) : s.pc ≠ .copied c := by
    intro hc
    simp [handling, hc] at hp
  have hready : (s.bridge.disableChan bridgeUsb).ready bridgeUsb = false :=
    Bridge.disableChan_ready _
  have hsize : (s.bridge.disableChan bridgeUsb).inChanSize bridgeUsb = 0#8 :=
    Bridge.disableChan_inChanSize _
  exact
    { h with
      count := Nat.zero_le _
      setting := by simp [usbpipeDisable]
      closed := fun _ => ⟨rfl, rfl, rfl, rfl, hready, hsize⟩
      pipeOut := by simp [usbpipeDisable]
      pipeIn := by simp [usbpipeDisable]
      ready := fun hr => absurd (hready.symm.trans hr) (by simp)
      size := fun hz => absurd hsize hz
      offered := Nat.le_succ_of_le hle
      offeredOut := fun hc => absurd hc hcurrent
      offeredIn := fun hc => absurd hc hcurrent
      lowOut := fun _ hc => absurd hc hcurrent
      lowIn := fun _ hc => absurd hc hcurrent
      fixedOut := fun _ _ hc => absurd hc hcurrent
      fixedIn := fun _ _ hc => absurd hc hcurrent
      copiedOut := fun c hc => absurd hc (hpc c)
      copiedIn := fun c hc => absurd hc (hpc c) }

/-- The old setting is left, and with it the pipe. -/
theorem sound_leave (h : Sound s) (hp : s.handling = false) :
    Sound s.leave ∧ s.leave.pipeEnabled = false := by
  have hclosed (ha : s.altsetting ≠ .pipe) : s.pipeEnabled = false :=
    Bool.eq_false_iff.2 fun he => ha (h.setting he).1
  unfold leave
  cases ha : s.altsetting with
  | none => exact ⟨h, hclosed (by simp [ha])⟩
  | flash => exact ⟨{ h with }, hclosed (by simp [ha])⟩
  | pipe => exact ⟨sound_usbpipeDisable h hp, rfl⟩

theorem sound_setInterface (h : Sound s) (hp : s.handling = false) (new : Altsetting) :
    Sound { s.leave.handOver new with switching := some new } := by
  obtain ⟨hl, he⟩ := sound_leave h hp
  have hsetting (he' : s.leave.pipeEnabled = true) :
      s.leave.altsetting = .pipe ∧ some new = none :=
    absurd (he.symm.trans he') (by simp)
  rw [handOver]
  split_ifs
  · exact
      { hl with
        setting := hsetting
        level := by simp [bridgeDisable, Bridge.disable]
        fixedOut := by simp [bridgeDisable, Bridge.disable]
        fixedIn := by simp [bridgeDisable, Bridge.disable] }
  · exact
      { hl with
        setting := hsetting
        level := by simp [bridgeInit, Bridge.reinit]
        fixedOut := by simp [bridgeInit, Bridge.reinit]
        fixedIn := by simp [bridgeInit, Bridge.reinit] }
  · exact { hl with setting := hsetting }

/-- The pipe is entered: nothing of it has been offered in this session. -/
theorem sound_usbpipeInit (h : Sound s) (hp : s.pipeEnabled = false) :
    Sound { s.usbpipeInit with altsetting := .pipe, switching := none } := by
  obtain ⟨hstate, hcount, -, hpipeIn, -, hsize⟩ := h.closed hp
  have hnot (he : s.pipeEnabled = true) : False := absurd (hp.symm.trans he) (by simp)
  have hready : ((s.bridge.startOut bridgeUsb pipeBufferPtr).enableChan bridgeUsb).ready
      bridgeUsb = true := by
    rw [Bridge.enableChan_ready, Bridge.startOut_ready]
  have hlt : s.pipe.outRingCount < outRingSize := by
    rw [hcount]
    decide
  have hout (hc : s.Current)
      (hm : movesOut s.bridge.ctrlRx s.bridge.ctrlTx bridgeUsb) : False :=
    hnot (h.offeredOut hc (Bool.and_eq_true_iff.1 hm).1).1
  have hin (hc : s.Current)
      (hm : movesIn s.bridge.ctrlRx s.bridge.ctrlTx bridgeUsb) : False :=
    hnot (h.offeredIn hc (by simpa using (Bool.and_eq_true_iff.1 hm).2)).1
  exact
    { h with
      setting := fun _ => ⟨rfl, rfl⟩
      closed := fun he => absurd he (by simp [usbpipeInit])
      pipeOut := fun k hk => ⟨(Option.some.inj hk).symm, rfl, hlt⟩
      pipeIn := fun k hk => absurd (hpipeIn.symm.trans hk) (by simp)
      ready := fun _ => ⟨rfl, rfl⟩
      size := fun hz => absurd hsize hz
      offeredOut := fun hc hr => absurd (h.offeredOut hc hr).1 hnot
      offeredIn := fun hc hz => absurd (h.offeredIn hc hz).1 hnot
      lowOut := fun _ _ _ => hready
      fixedOut := fun _ _ hc hm => absurd hm (hout hc)
      fixedIn := fun _ _ hc hm => absurd hm (hin hc)
      copiedOut := fun c hc hm =>
        absurd ((h.copiedOut c hc hm).1.1.symm.trans hstate) (by simp)
      copiedIn := fun c hc hm => by
        have hpos := (h.copiedIn c hc hm).1.2.1
        rw [hcount] at hpos
        exact absurd hpos (Nat.lt_irrefl 0) }

theorem sound_enter (h : Sound s) {new : Altsetting} (hs : s.switching = some new) :
    Sound (s.enter new) := by
  have hp : s.pipeEnabled = false := by
    refine Bool.eq_false_iff.2 fun he => ?_
    exact absurd ((h.setting he).2.symm.trans hs) (by simp)
  have hnot (he : s.pipeEnabled = true) (new : Altsetting) :
      new = .pipe ∧ (none : Option Altsetting) = none := absurd (hp.symm.trans he) (by simp)
  unfold enter
  cases new with
  | none => exact { h with setting := fun he => hnot he _ }
  | flash => exact { h with setting := fun he => hnot he _ }
  | pipe =>
    dsimp only
    split
    · exact sound_usbpipeInit h hp
    · exact { h with setting := fun he => hnot he _ }

/-! ### Runs -/

/-- A call of a port does not touch the channel of the pipe. -/
theorem sound_call (h : Sound s) {c : Call} (hc : c.chan ≠ bridgeUsb) :
    Sound { s with bridge := s.bridge.call c } := by
  have hready := Bridge.call_ready_of_ne (b := s.bridge) hc
  have hsize := Bridge.call_inChanSize_of_ne (b := s.bridge) hc
  have hstate : (s.bridge.call c).state = s.bridge.state := by cases c <;> rfl
  have hrx : (s.bridge.call c).ctrlRx = s.bridge.ctrlRx := by cases c <;> rfl
  have htx : (s.bridge.call c).ctrlTx = s.bridge.ctrlTx := by cases c <;> rfl
  have hout (ha : s.AwaitsOut) : AwaitsOut { s with bridge := s.bridge.call c } :=
    ⟨ha.1, hready.trans ha.2⟩
  have hin (ha : s.AwaitsIn) : AwaitsIn { s with bridge := s.bridge.call c } :=
    ⟨ha.1, ha.2.1, hsize.trans ha.2.2⟩
  exact
    { h with
      closed := fun hp => by
        obtain ⟨h1, h2, h3, h4, h5, h6⟩ := h.closed hp
        exact ⟨h1, h2, h3, h4, hready.trans h5, hsize.trans h6⟩
      level := fun hd => h.level (hstate.symm.trans hd)
      ready := fun hr => h.ready (hready.symm.trans hr)
      size := fun hz => h.size (hsize ▸ hz)
      offeredOut := fun hcur hr => h.offeredOut hcur (htx ▸ hr)
      offeredIn := fun hcur hz => h.offeredIn hcur (htx ▸ hz)
      lowOut := fun hs hcur hr => hready.trans (h.lowOut hs hcur (htx ▸ hr))
      lowIn := fun hs hcur hz => hsize.symm ▸ h.lowIn hs hcur (htx ▸ hz)
      fixedOut := fun hd hp hcur hm =>
        hout (h.fixedOut (hstate.symm.trans hd) hp hcur (hrx ▸ htx ▸ hm))
      fixedIn := fun hd hp hcur hm =>
        hin (h.fixedIn (hstate.symm.trans hd) hp hcur (hrx ▸ htx ▸ hm))
      copiedOut := fun c hp hm => (h.copiedOut c hp hm).imp_left hout
      copiedIn := fun c hp hm => (h.copiedIn c hp hm).imp_left hin }

theorem handling_of_calm (h : s.calm) : s.handling = false := by
  have hc : s.switching = none ∧ s.handling = false := by simpa [calm] using h
  exact hc.2

theorem sound_step {l : InterfaceLabel} (h : Sound s) (hok : s.Settled l)
    (hst : s.step l = some t) : Sound t := by
  cases l with
  | syncLow =>
    obtain ⟨-, ht⟩ := Option.ite_none_right_eq_some.1 hst
    cases ht
    exact sound_syncLow h
  | header pkt =>
    obtain ⟨hc, ht⟩ := Option.ite_none_right_eq_some.1 hst
    cases ht
    exact sound_header h hc.1 pkt _
  | syncHigh =>
    obtain ⟨hs, ht⟩ := Option.ite_none_right_eq_some.1 hst
    cases ht
    exact sound_syncHigh h hs
  | dmaDone data =>
    simp only [step] at hst
    split at hst
    · cases hst
      exact { h with }
    · cases hst
      exact { h with }
    · cases hst
  | copy =>
    simp only [step] at hst
    split at hst
    · obtain ⟨hc, ht⟩ := Option.ite_none_right_eq_some.1 hst
      cases ht
      exact sound_copy h hok (handling_of_calm hc.1) _
    · cases hst
  | callbacks =>
    simp only [step] at hst
    split at hst
    · next c hp =>
      cases hst
      exact sound_callbacks h hp _
    · cases hst
  | writeBack =>
    simp only [step] at hst
    split at hst
    · next c hp =>
      cases hst
      -- after the write-back no transaction is under way that would fix the buffers
      have hidle : s.bridge.writeBack.state ≠ .data := by simp [Bridge.writeBack]
      refine sound_finishDma ?_ hidle
      exact
        { h with
          level := fun hd => absurd hd hidle
          fixedOut := fun hd => absurd hd hidle
          fixedIn := fun hd => absurd hd hidle }
    · cases hst
  | call c =>
    obtain ⟨hc, ht⟩ := Option.ite_none_right_eq_some.1 hst
    cases ht
    exact sound_call h hc
  | pipeOut packet =>
    simp only [step] at hst
    split at hst
    · next hk =>
      obtain ⟨-, ht⟩ := Option.ite_none_right_eq_some.1 hst
      cases ht
      exact sound_pipeOutCompletion h hk packet
    · cases hst
  | pipeIn =>
    simp only [step] at hst
    split at hst
    · next hk =>
      obtain ⟨-, ht⟩ := Option.ite_none_right_eq_some.1 hst
      cases ht
      exact sound_pipeInCompletion h hk
    · cases hst
  | flashOut data =>
    obtain ⟨-, ht⟩ := Option.ite_none_right_eq_some.1 hst
    cases ht
    exact { h with }
  | flashIn =>
    obtain ⟨-, ht⟩ := Option.ite_none_right_eq_some.1 hst
    cases ht
    exact { h with }
  | setInterface new =>
    obtain ⟨hc, ht⟩ := Option.ite_none_right_eq_some.1 hst
    cases ht
    exact sound_setInterface h (handling_of_calm hc) new
  | enter =>
    simp only [step] at hst
    split at hst
    · next hs =>
      cases hst
      exact sound_enter h hs
    · cases hst

/-- **The pipe survives mode switches** in every run in which no completion is handled for a
transaction with a segment of the pipe that was offered before the last `usbpipe_disable`. -/
theorem survives {sync : Bool} {ls : List InterfaceLabel}
    (h : machine.Run Settled (init sync) ls s) : Survives s :=
  (h.invariant (sound_init sync) fun _ _ _ ht hok hst => sound_step ht hok hst).toSurvives

/-- A header of the SoC that accepts data for the pipe and brings some of it. -/
def usbHeader : ControlPkt := ⟨0x53#8, 0x11#8, fun ch => if ch = bridgeUsb then 5#8 else 0#8⟩

/-- The SoC boots, the host enters PIPE and sends a packet, and both sides exchange data. -/
def exchange : List InterfaceLabel :=
  [.syncLow, .header ⟨0x53#8, 0#8, fun _ => 0#8⟩, .syncHigh, .setInterface .pipe, .enter,
    .pipeOut [1#8, 2#8, 3#8], .syncLow, .header usbHeader, .syncHigh]

/-- The data phase ends, and PIPE is left and entered again while its next offer is turned down. -/
def leaveAndReturn : List InterfaceLabel :=
  [.dmaDone [], .copy, .callbacks, .writeBack, .pipeIn, .syncLow, .setInterface .none, .enter,
    .header ⟨0x53#8, 0x10#8, fun _ => 0#8⟩, .syncHigh, .setInterface .pipe, .enter, .pipeOut []]

theorem survives_exchange :
    ∃ s, machine.Run Settled (init true) (exchange ++ leaveAndReturn) s ∧
      s.delivered = [(0, 0), (0, 0), (0, 0), (0, 0), (1, 1)] ∧ Survives s := by
  have hdelivered : (machine.execOk (fun s l => decide (s.Settled l)) (init true)
      (exchange ++ leaveAndReturn)).map (fun s => s.delivered) =
        some [(0, 0), (0, 0), (0, 0), (0, 0), (1, 1)] := by
    decide +kernel
  obtain ⟨s, hs, hd⟩ := Option.map_eq_some_iff.1 hdelivered
  have hr := Machine.run_of_execOk Settled (fun _ _ h => of_decide_eq_true h) hs
  exact ⟨s, hr, hd, survives hr⟩

/-- **A stale completion.**  The host leaves PIPE during a data phase of the pipe: the OUT
completion reaches `invalid()`, and the IN completion takes a packet out of the empty ring. -/
theorem stale_completion :
    ∃ s, machine.Run Machine.always (init true)
        (exchange ++ [.setInterface .none, .enter, .dmaDone [], .copy, .callbacks]) s ∧
      s.invalid ∧ s.pipe.outRingCount = 255 ∧ (0, 1) ∈ s.delivered ∧ ¬ Survives s := by
  have hstale : (machine.exec (init true)
      (exchange ++ [.setInterface .none, .enter, .dmaDone [], .copy, .callbacks])).map
        (fun s => (s.invalid, s.pipe.outRingCount, s.delivered)) =
          some (true, 255, [(0, 0), (0, 1), (0, 1)]) := by
    decide +kernel
  obtain ⟨s, hs, heq⟩ := Option.map_eq_some_iff.1 hstale
  have hinvalid : s.invalid = true := congrArg Prod.fst heq
  have hcount : s.pipe.outRingCount = 255 := congrArg (fun x => x.2.1) heq
  have hdelivered : s.delivered = [(0, 0), (0, 1), (0, 1)] := congrArg (fun x => x.2.2) heq
  refine ⟨s, Machine.run_of_exec hs, hinvalid, hcount, by rw [hdelivered]; decide, ?_⟩
  intro h
  exact absurd (h.invalid.symm.trans hinvalid) (by simp)

end Interface

end TesselFirmware
