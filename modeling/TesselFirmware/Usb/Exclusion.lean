import TesselFirmware.Usb.Interface

/-!
# Flash mode and bridge mode exclude each other

The flash has the SERCOM and the DMA channels of the bridge for itself because `bridge_disable` is
called before `flash_init`, and `flash_disable` before `bridge_init`.  But `bridge_handle_sync`
does not look at `bridge_state`, and SYNC edges are still handled when the bridge is disabled.

* `Interface.exclusive` : in every run without SYNC edges from `bridge_disable` until the flash is
  left, in which no data phase starts while the completion handler is at work, the two exclude each
  other, and every completion of the shared channel is taken by who has started the transfer;
* `Interface.not_exclusive_of_sync` : every SYNC edge while the flash is enabled breaks this;
* `Interface.sync_aborts_flash` : the SoC, which is put into reset, pulls SYNC low.
-/

namespace TesselFirmware

namespace Interface

/-- The flash is enabled, or about to be. -/
def Flashing (s : Interface) : Prop := s.flash.state ≠ .disable ∨ s.switching = some .flash

instance (s : Interface) : Decidable s.Flashing := by unfold Flashing; infer_instance

/-- No SYNC edge comes while the flash has the hardware, and SYNC high starts nothing while the
completion handler is at work. -/
def Separate (s : Interface) : InterfaceLabel → Prop
  | .syncLow => ¬ s.Flashing
  | .syncHigh => ¬ s.Flashing ∧ (s.handling → Preempt.Quiet s.bridge)
  | _ => True

instance (s : Interface) (l : InterfaceLabel) : Decidable (s.Separate l) := by
  cases l <;> simp only [Separate] <;> infer_instance

/-- The bridge is disabled while the flash is enabled, its code has not touched the shared hardware
while the flash was enabled, and every completion of the shared channel has been taken by who had
started the transfer, and by nobody else. -/
structure Exclusive (s : Interface) : Prop where
  bridge : s.flash.state ≠ .disable → s.bridge.state = .disable
  accesses : ∀ f ∈ s.accesses, f = .disable
  consumed : ∀ c ∈ s.consumed, c.2 = [c.1]

/-! ### The shared channel -/

/-- Who uses the shared channel, unless it is on its way to the flash. -/
structure Channel (s : Interface) : Prop where
  flash : ∀ t, s.dma.running = some (.flash t) → s.flash.state.waitsForDma
  flashDone : s.dma.complete = some .flash → s.flash.state.waitsForDma ∧ s.dma.running = none
  control : s.dma.running = some .control →
    s.flash.state = .disable ∧ s.dma.interrupt = false ∧ s.bridge.ctrlRx.cmd ≠ 0x53#8
  data : s.dma.running = some .data →
    s.flash.state = .disable ∧ s.sync ∧ s.handling = false ∧ s.bridge.state = .data
  bridgeDone : s.dma.complete = some .bridge → s.flash.state = .disable
  pending : s.dma.complete = some .bridge → s.dma.interrupt → s.handling = false →
    s.bridge.state = .data ∧ s.dma.running = none

/-- The invariant of the runs in which the two are separate. -/
structure Owned (s : Interface) : Prop extends Exclusive s where
  sole : s.flash.state ≠ .disable → s.altsetting = .flash ∧ s.switching = none
  enabled : s.altsetting = .flash → s.switching = none → s.flash.state ≠ .disable
  entering : s.switching = some .flash → s.bridge.state = .disable ∧ s.dma.running = none
  handler : s.handling → s.switching = none ∧ s.flash.state = .disable
  level : s.bridge.state = .data → s.sync
  flashOut : s.flashOut → s.flash.state = .idle
  flashIn : s.flashIn → s.flash.state = .inUsb
  channel : s.switching ≠ some .flash → Channel s

theorem channel_init (sync : Bool) : Channel (init sync) := by
  constructor <;> simp [init, DmaRx.reset]

theorem owned_init (sync : Bool) : Owned (init sync) where
  bridge h := absurd rfl h
  accesses := by simp [init]
  consumed := by simp [init]
  sole h := absurd rfl h
  enabled := by simp [init]
  entering := by simp [init]
  handler := by simp [init, handling]
  level := by simp [init, Bridge.init]
  flashOut := by simp [init]
  flashIn := by simp [init]
  channel _ := channel_init sync

variable {s t : Interface}

/-- While the flash is disabled, the channel belongs to the bridge. -/
theorem Channel.running_ne (h : Channel s) (hf : s.flash.state = .disable) (t : FlashTransfer) :
    s.dma.running ≠ some (.flash t) := by
  intro ht
  have hw := h.flash t ht
  rw [hf] at hw
  exact Bool.false_ne_true hw

theorem Channel.complete_ne (h : Channel s) (hf : s.flash.state = .disable) :
    s.dma.complete ≠ some .flash := by
  intro hc
  have hw := (h.flashDone hc).1
  rw [hf] at hw
  exact Bool.false_ne_true hw

/-- While the flash is enabled, a transfer that is running is one that it waits for. -/
theorem Channel.running_eq_none (h : Channel s) (hf : s.flash.state ≠ .disable)
    (hw : s.flash.state.waitsForDma = false) : s.dma.running = none := by
  cases hr : s.dma.running with
  | none => rfl
  | some d =>
    cases d with
    | control => exact absurd (h.control hr).1 hf
    | data => exact absurd (h.data hr).1 hf
    | flash t => exact absurd (h.flash t hr) (by simp [hw])

theorem Channel.complete_eq_none (h : Channel s) (hf : s.flash.state ≠ .disable)
    (hw : s.flash.state.waitsForDma = false) : s.dma.complete = none := by
  cases hc : s.dma.complete with
  | none => rfl
  | some d =>
    cases d with
    | bridge => exact absurd (h.bridgeDone hc) hf
    | flash => exact absurd (h.flashDone hc).1 (by simp [hw])

/-- A flash that is enabled has the hardware. -/
theorem Owned.of_enabled (h : Owned s) (hf : s.flash.state ≠ .disable) :
    s.altsetting = .flash ∧ s.switching = none ∧ s.bridge.state = .disable ∧ s.handling = false ∧
      Channel s := by
  obtain ⟨ha, hs⟩ := h.sole hf
  refine ⟨ha, hs, h.bridge hf, ?_, h.channel (by simp [hs])⟩
  exact Bool.eq_false_iff.2 fun hp => hf (h.handler hp).2

/-! ### Steps that leave the hardware alone -/

/-- The two states agree on everything that the exclusion is about. -/
structure SameHardware (s t : Interface) : Prop where
  flash : t.flash = s.flash
  altsetting : t.altsetting = s.altsetting
  switching : t.switching = s.switching
  sync : t.sync = s.sync
  handling : t.handling = s.handling
  dma : t.dma = s.dma
  flashOut : t.flashOut = s.flashOut
  flashIn : t.flashIn = s.flashIn
  accesses : t.accesses = s.accesses
  consumed : t.consumed = s.consumed
  state : t.bridge.state = s.bridge.state
  ctrlRx : t.bridge.ctrlRx = s.bridge.ctrlRx

theorem SameHardware.refl (s : Interface) : SameHardware s s := by constructor <;> rfl

theorem SameHardware.trans {u : Interface} (h : SameHardware s t) (h' : SameHardware t u) :
    SameHardware s u := by
  constructor
  · rw [h'.flash, h.flash]
  · rw [h'.altsetting, h.altsetting]
  · rw [h'.switching, h.switching]
  · rw [h'.sync, h.sync]
  · rw [h'.handling, h.handling]
  · rw [h'.dma, h.dma]
  · rw [h'.flashOut, h.flashOut]
  · rw [h'.flashIn, h.flashIn]
  · rw [h'.accesses, h.accesses]
  · rw [h'.consumed, h.consumed]
  · rw [h'.state, h.state]
  · rw [h'.ctrlRx, h.ctrlRx]

theorem Channel.of_same (h : Channel s) (hs : SameHardware s t) : Channel t := by
  obtain ⟨h1, h2, h3, h4, h5, h6⟩ := h
  constructor
  · simpa only [hs.dma, hs.flash] using h1
  · simpa only [hs.dma, hs.flash] using h2
  · simpa only [hs.dma, hs.flash, hs.ctrlRx] using h3
  · simpa only [hs.dma, hs.flash, hs.sync, hs.handling, hs.state] using h4
  · simpa only [hs.dma, hs.flash] using h5
  · simpa only [hs.dma, hs.handling, hs.state] using h6

theorem Owned.of_same (h : Owned s) (hs : SameHardware s t) : Owned t where
  bridge := by simpa only [hs.flash, hs.state] using h.bridge
  accesses := by simpa only [hs.accesses] using h.accesses
  consumed := by simpa only [hs.consumed] using h.consumed
  sole := by simpa only [hs.flash, hs.altsetting, hs.switching] using h.sole
  enabled := by simpa only [hs.flash, hs.altsetting, hs.switching] using h.enabled
  entering := by simpa only [hs.switching, hs.state, hs.dma] using h.entering
  handler := by simpa only [hs.handling, hs.switching, hs.flash] using h.handler
  level := by simpa only [hs.state, hs.sync] using h.level
  flashOut := by simpa only [hs.flashOut, hs.flash] using h.flashOut
  flashIn := by simpa only [hs.flashIn, hs.flash] using h.flashIn
  channel hw := (h.channel (by simpa only [hs.switching] using hw)).of_same hs

theorem call_state (b : Bridge) (c : Call) : (b.call c).state = b.state := by cases c <;> rfl

theorem call_ctrlRx (b : Bridge) (c : Call) : (b.call c).ctrlRx = b.ctrlRx := by cases c <;> rfl

theorem foldl_call_same (b : Bridge) (cs : List Call) :
    (cs.foldl Bridge.call b).state = b.state ∧ (cs.foldl Bridge.call b).ctrlRx = b.ctrlRx := by
  induction cs generalizing b with
  | nil => exact ⟨rfl, rfl⟩
  | cons c cs ih =>
    obtain ⟨h1, h2⟩ := ih (b.call c)
    exact ⟨h1.trans (call_state b c), h2.trans (call_ctrlRx b c)⟩

/-- The pipe only calls the bridge. -/
theorem same_runPipe (s : Interface) (r : UsbPipe × List Call) :
    SameHardware s (s.runPipe r) := by
  obtain ⟨hstate, hctrlRx⟩ := foldl_call_same s.bridge r.2
  constructor <;> first | rfl | assumption

theorem same_serve (s : Interface) (cb : Callback) : SameHardware s (s.serve cb) := by
  unfold serve
  split
  · cases cb with
    | completionOut ch len =>
      dsimp only
      split
      · exact { same_runPipe (s.deliver s.copied.out) _ with }
      · exact { same_runPipe (s.deliver s.copied.out) _ with }
    | completionIn ch => exact { same_runPipe (s.deliver s.copied.inn) _ with }
    | «open» ch => exact .refl s
    | close ch => exact .refl s
  · exact .refl s

theorem same_foldl_serve (s : Interface) (cbs : List Callback) :
    SameHardware s (cbs.foldl serve s) := by
  induction cbs generalizing s with
  | nil => exact .refl s
  | cons cb cbs ih => exact (same_serve s cb).trans (ih _)

/-! ### SYNC edges and the DMA -/

theorem accesses_access (h : ∀ f ∈ s.accesses, f = .disable) (hf : s.flash.state = .disable) :
    ∀ f ∈ s.access.accesses, f = .disable := by
  intro f hm
  obtain hm | hm := List.mem_append.1 hm
  · exact h f hm
  · exact (List.mem_singleton.1 hm).trans hf

theorem not_flashing (h : ¬ s.Flashing) :
    s.flash.state = .disable ∧ s.switching ≠ some .flash := by
  simpa [Flashing, not_or] using h

theorem owned_syncLow (h : Owned s) (hok : ¬ s.Flashing) : Owned s.syncLow := by
  obtain ⟨hf, hw⟩ := not_flashing hok
  have hc := h.channel hw
  exact
    { h with
      bridge := fun he => absurd hf he
      accesses := accesses_access h.accesses hf
      entering := fun he => absurd he hw
      level := by simp [syncLow, Bridge.handleSyncLow]
      channel := fun _ =>
        { flash := by simp [syncLow]
          flashDone := fun he => absurd he (hc.complete_ne hf)
          control := fun _ => ⟨hf, rfl, show (0x00#8 : Byte) ≠ 0x53#8 by decide⟩
          data := by simp [syncLow]
          bridgeDone := fun _ => hf
          pending := by simp [syncLow] } }

/-- While SYNC is low, no data phase is running. -/
theorem Channel.data_ne (h : Channel s) (hs : s.sync = false) : s.dma.running ≠ some .data := by
  intro hr
  exact absurd (h.data hr).2.1 (by simp [hs])

/-- SYNC high that starts nothing. -/
theorem owned_syncHigh_idle (h : Owned s) (hok : ¬ s.Flashing) (hs : s.sync = false) :
    Owned { s with bridge := s.bridge.handleSyncHigh, sync := true } := by
  obtain ⟨hf, hw⟩ := not_flashing hok
  have hc := h.channel hw
  have hlevel : s.bridge.state ≠ .data := by
    intro hd
    exact absurd (h.level hd) (by simp [hs])
  exact
    { h with
      bridge := fun he => absurd hf he
      entering := fun he => absurd he hw
      level := fun _ => rfl
      channel := fun _ =>
        { hc with
          control := by simpa using hc.control
          data := fun he => absurd he (hc.data_ne hs)
          pending := fun h1 h2 h3 => absurd (hc.pending h1 h2 h3).1 hlevel } }

/-- SYNC high that starts a data phase. -/
theorem owned_syncHigh_data (h : Owned s) (hok : ¬ s.Flashing) (hp : s.handling = false)
    (hd : s.bridge.handleSyncHigh.state = .data) :
    Owned { s.access with
      bridge := s.bridge.handleSyncHigh, sync := true, dma := ⟨some .data, none, true⟩ } := by
  obtain ⟨hf, hw⟩ := not_flashing hok
  exact
    { h with
      bridge := fun he => absurd hf he
      accesses := accesses_access h.accesses hf
      entering := fun he => absurd he hw
      level := fun _ => rfl
      channel := fun _ =>
        { flash := by simp
          flashDone := by simp
          control := by simp
          data := fun _ => ⟨hf, rfl, hp, hd⟩
          bridgeDone := by simp
          pending := by simp } }

/-- SYNC high that unmasks the completion of the header. -/
theorem owned_syncHigh_notify (h : Owned s) (hok : ¬ s.Flashing) (hs : s.sync = false)
    (hcmd : s.bridge.ctrlRx.cmd = 0x53#8) (hd : s.bridge.handleSyncHigh.state = .data) :
    Owned { s with
      bridge := s.bridge.handleSyncHigh, sync := true, dma := { s.dma with interrupt := true } } := by
  obtain ⟨hf, hw⟩ := not_flashing hok
  have hc := h.channel hw
  have hcontrol : s.dma.running ≠ some .control := by
    intro hr
    exact (hc.control hr).2.2 hcmd
  have hnone : s.dma.running = none := by
    cases hr : s.dma.running with
    | none => rfl
    | some d =>
      cases d with
      | control => exact absurd hr hcontrol
      | data => exact absurd hr (hc.data_ne hs)
      | flash t => exact absurd hr (hc.running_ne hf t)
  exact
    { h with
      bridge := fun he => absurd hf he
      entering := fun he => absurd he hw
      level := fun _ => rfl
      channel := fun _ =>
        { hc with
          control := fun he => absurd he hcontrol
          data := fun he => absurd he (hc.data_ne hs)
          pending := fun _ _ _ => ⟨hd, hnone⟩ } }

theorem owned_syncHigh (h : Owned s) (hok : s.Separate .syncHigh) (hs : s.sync = false) :
    Owned s.syncHigh := by
  obtain ⟨hflash, hquiet⟩ := hok
  rw [syncHigh]
  by_cases hcmd : s.bridge.ctrlRx.cmd = 0x53#8
  · have hhigh := Bridge.handleSyncHigh_of_cmd hcmd
    have hp (hstart : s.bridge.plannedChain ≠ [] ∨ s.bridge.statusChanged) :
        s.handling = false := by
      refine Bool.eq_false_iff.2 fun hp => ?_
      obtain hq | ⟨hq, hq'⟩ := hquiet hp
      · exact hq hcmd
      · obtain hstart | hstart := hstart
        · exact hstart (Bridge.plannedChain_eq_nil_iff.2 hq)
        · exact hq' hstart
    dsimp only
    rw [if_neg (not_not.2 hcmd)]
    by_cases hc : s.bridge.plannedChain = []
    · rw [if_neg (by rw [Bridge.handleSyncHigh_chain hcmd]; exact not_not.2 hc)]
      by_cases hst : s.bridge.statusChanged
      · have hd : s.bridge.handleSyncHigh.state = .data := by rw [hhigh]; exact if_pos (.inr hst)
        rw [if_pos hd]
        exact owned_syncHigh_notify h hflash hs hcmd hd
      · have hi : s.bridge.handleSyncHigh.state = .idle := by
          rw [hhigh]
          exact if_neg (by simp [hc, hst])
        rw [if_neg (by simp [hi])]
        exact owned_syncHigh_idle h hflash hs
    · have hd : s.bridge.handleSyncHigh.state = .data := by rw [hhigh]; exact if_pos (.inl hc)
      rw [if_pos (by rw [Bridge.handleSyncHigh_chain hcmd]; exact hc)]
      exact owned_syncHigh_data h hflash (hp (.inl hc)) hd
  · dsimp only
    rw [if_pos hcmd]
    exact owned_syncHigh_idle h hflash hs

/-- The header has been received. -/
theorem owned_header (h : Owned s) (hr : s.dma.running = some .control) (pkt : ControlPkt) :
    Owned { s with
      bridge := s.bridge.receiveHeader pkt
      dma := { s.dma with running := none, complete := some .bridge } } := by
  have hw : s.switching ≠ some .flash := by
    intro hw
    have hnone := (h.entering hw).2
    rw [hr] at hnone
    cases hnone
  have hc := h.channel hw
  obtain ⟨hf, hi, -⟩ := hc.control hr
  exact
    { h with
      bridge := fun he => absurd hf he
      entering := fun he => absurd he hw
      channel := fun _ =>
        { flash := by simp
          flashDone := by simp
          control := by simp
          data := by simp
          bridgeDone := fun _ => hf
          pending := fun _ h2 _ => absurd h2 (by simp [hi]) } }

/-- The data phase has ended. -/
theorem owned_dataDone (h : Owned s) (hr : s.dma.running = some .data) :
    Owned { s with
      bridge := s.bridge.chainDone
      dma := { s.dma with running := none, complete := some .bridge } } := by
  have hw : s.switching ≠ some .flash := by
    intro hw
    have hnone := (h.entering hw).2
    rw [hr] at hnone
    cases hnone
  have hc := h.channel hw
  obtain ⟨hf, -, -, hd⟩ := hc.data hr
  exact
    { h with
      bridge := fun he => absurd hf he
      entering := fun he => absurd he hw
      channel := fun _ =>
        { flash := by simp
          flashDone := by simp
          control := by simp
          data := by simp
          bridgeDone := fun _ => hf
          pending := fun _ _ _ => ⟨hd, rfl⟩ } }

/-- A transfer of the flash has ended. -/
theorem owned_flashDone {t : FlashTransfer} (h : Owned s) (hr : s.dma.running = some (.flash t))
    (data : List Byte) :
    Owned { s with
      flash := s.flash.receive data t
      dma := { s.dma with running := none, complete := some .flash } } := by
  have hw : s.switching ≠ some .flash := by
    intro hw
    have hnone := (h.entering hw).2
    rw [hr] at hnone
    cases hnone
  have hwaits := (h.channel hw).flash t hr
  have hstate := s.flash.receive_state data t
  exact
    { bridge := by simpa using h.bridge
      accesses := h.accesses
      consumed := h.consumed
      sole := by simpa using h.sole
      enabled := by simpa using h.enabled
      entering := fun he => absurd he hw
      handler := fun hp => ⟨(h.handler hp).1, hstate.trans (h.handler hp).2⟩
      level := h.level
      flashOut := by simpa using h.flashOut
      flashIn := by simpa using h.flashIn
      channel := fun _ =>
        { flash := by simp
          flashDone := fun _ => ⟨by simpa using hwaits, rfl⟩
          control := by simp
          data := by simp
          bridgeDone := by simp
          pending := by simp } }

/-! ### The flash -/

/-- What the flash does with the channel, when it neither configures nor aborts anything. -/
theorem foldl_act {acts : List FlashAct} (d : DmaRx) (hconf : .configure ∉ acts)
    (habort : .abort ∉ acts) :
    (acts.foldl DmaRx.act d).complete = d.complete ∧
      (acts.foldl DmaRx.act d).interrupt = d.interrupt ∧
      if Flash.starts acts then ∃ t, (acts.foldl DmaRx.act d).running = some (.flash t)
      else (acts.foldl DmaRx.act d).running = d.running := by
  induction acts generalizing d with
  | nil => simp [Flash.starts]
  | cons act acts ih =>
    obtain ⟨h1, h2, h3⟩ := ih (d.act act) (fun hm => hconf (List.mem_cons_of_mem _ hm))
      (fun hm => habort (List.mem_cons_of_mem _ hm))
    rw [List.foldl_cons, h1, h2]
    cases act with
    | configure => exact absurd List.mem_cons_self hconf
    | abort => exact absurd List.mem_cons_self habort
    | start t =>
      refine ⟨rfl, rfl, ?_⟩
      rw [if_pos (show Flash.starts (.start t :: acts) = true from rfl)]
      split at h3
      · exact h3
      · exact ⟨t, h3⟩
    | select => exact ⟨rfl, rfl, h3⟩
    | deselect => exact ⟨rfl, rfl, h3⟩
    | startOut => exact ⟨rfl, rfl, h3⟩
    | startIn data => exact ⟨rfl, rfl, h3⟩
    | invalid => exact ⟨rfl, rfl, h3⟩

/-- A handler of the flash leaves it waiting for what it has started. -/
theorem owned_runFlash {r : Flash × List FlashAct} (h : Owned s) (hf : s.flash.state ≠ .disable)
    (hr : Flash.Busy r) (hout : s.flashOut = false) (hin : s.flashIn = false)
    (hnone : s.dma.running = none) (hcomplete : s.dma.complete = none) :
    Owned (s.runFlash r) := by
  obtain ⟨ha, hs, hb, hp, hc⟩ := h.of_enabled hf
  obtain ⟨h1, h2, h3⟩ := foldl_act s.dma hr.configure hr.abort
  have hrun : ∀ d, (r.2.foldl DmaRx.act s.dma).running = some d →
      (∃ t, d = .flash t) ∧ r.1.state.waitsForDma = true := by
    intro d hd
    rw [hr.waits]
    split at h3
    · next hst =>
      obtain ⟨t, ht⟩ := h3
      exact ⟨⟨t, Option.some.inj (hd.symm.trans ht)⟩, hst⟩
    · rw [h3, hnone] at hd
      cases hd
  exact
    { h with
      bridge := fun _ => hb
      sole := fun _ => ⟨ha, hs⟩
      enabled := fun _ _ => hr.enabled
      entering := fun he => absurd (hs.symm.trans he) (by simp)
      handler := fun he => absurd (he.symm.trans hp) (by simp)
      flashOut := by simpa [runFlash, hout] using hr.startOut
      flashIn := by simpa [runFlash, hin] using hr.startIn
      channel := fun _ =>
        { flash := fun t ht => (hrun _ ht).2
          flashDone := fun he => absurd (he.symm.trans (h1.trans hcomplete)) (by simp)
          control := fun he => by
            obtain ⟨t, ht⟩ := (hrun _ he).1
            cases ht
          data := fun he => by
            obtain ⟨t, ht⟩ := (hrun _ he).1
            cases ht
          bridgeDone := fun he => absurd (he.symm.trans (h1.trans hcomplete)) (by simp)
          pending := fun he => absurd (he.symm.trans (h1.trans hcomplete)) (by simp) } }

/-- Whether the flag is cleared before or after the flash has been called makes no difference. -/
theorem foldl_act_complete (d : DmaRx) (acts : List FlashAct) :
    acts.foldl DmaRx.act { d with complete := none } =
      { acts.foldl DmaRx.act d with complete := none } := by
  induction acts generalizing d with
  | nil => rfl
  | cons act acts ih =>
    have hih := ih (d.act act)
    cases act <;> exact hih

theorem finishDma_eq (s : Interface) (hp : s.pc = .idle) :
    s.finishDma =
      { s with dma := { s.dma with complete := none } }.runFlash s.flash.dmaRxCompletion := by
  simp only [finishDma, runFlash, foldl_act_complete, hp]

/-- While the flash is disabled, its completion handler does nothing. -/
theorem finishDma_of_disable (hf : s.flash.state = .disable) :
    s.finishDma = { s with pc := .idle, dma := { s.dma with complete := none } } := by
  have hr : s.flash.dmaRxCompletion = (s.flash, []) := by rw [Flash.dmaRxCompletion, hf]
  rw [finishDma, hr]
  simp [runFlash, Flash.startsIn]

/-- The completion handler of the bridge returns. -/
theorem owned_writeBack (h : Owned s) (hp : s.handling) :
    Owned { s with bridge := s.bridge.writeBack }.finishDma := by
  obtain ⟨hs, hf⟩ := h.handler hp
  have hc := h.channel (by simp [hs])
  rw [finishDma_of_disable (by exact hf)]
  exact
    { h with
      bridge := fun he => absurd hf he
      entering := fun he => absurd (hs.symm.trans he) (by simp)
      handler := by simp [handling]
      level := by simp [Bridge.writeBack]
      channel := fun _ =>
        { flash := hc.flash
          flashDone := by simp
          control := hc.control
          data := fun he => absurd ((hc.data he).2.2.1.symm.trans hp) (by simp)
          bridgeDone := by simp
          pending := by simp } }

/-- The completion of a transfer is taken by who has started it. -/
theorem owned_copy {starter : Subsystem} (h : Owned s) (hcalm : s.calm)
    (hd : s.dma.complete = some starter) (hi : s.dma.interrupt) : Owned (s.copy starter) := by
  obtain ⟨hs, hp⟩ : s.switching = none ∧ s.handling = false := by simpa [calm] using hcalm
  have hc := h.channel (by simp [hs])
  have hpc : s.pc = .idle := by
    cases hpc : s.pc with
    | idle => rfl
    | copied c => simp [handling, hpc] at hp
    | called c => simp [handling, hpc] at hp
  have hconsumed (hone : s.consumers = [starter]) :
      ∀ c ∈ s.consumed ++ [(starter, s.consumers)], c.2 = [c.1] := by
    intro c hm
    obtain hm | hm := List.mem_append.1 hm
    · exact h.consumed c hm
    · rw [List.mem_singleton.1 hm]
      exact hone
  rw [copy]
  cases starter with
  | bridge =>
    obtain ⟨hdata, hnone⟩ := hc.pending hd hi hp
    have hf := hc.bridgeDone hd
    -- the flash is disabled, so it does not wait for this completion
    have hone : s.consumers = [.bridge] := by
      simp [consumers, hdata, hf, FlashState.waitsForDma]
    dsimp only
    rw [if_pos hdata]
    exact
      { h with
        consumed := hconsumed hone
        handler := fun _ => ⟨hs, hf⟩
        channel := fun _ =>
          { hc with
            data := fun he => absurd (hnone.symm.trans he) (by simp)
            pending := by simp [handling] } }
  | flash =>
    obtain ⟨hwaits, hnone⟩ := hc.flashDone hd
    have hf : s.flash.state ≠ .disable := by
      intro hf
      rw [hf] at hwaits
      exact Bool.false_ne_true hwaits
    have hdata : s.bridge.state ≠ .data := by
      rw [h.bridge hf]
      simp
    -- the flash is enabled, so there is no data phase, and it waits for the DMA, not for USB
    have hone : s.consumers = [.flash] := by simp [consumers, hdata, hwaits]
    have hout : s.flashOut = false := by
      refine Bool.eq_false_iff.2 fun ho => ?_
      rw [h.flashOut ho] at hwaits
      exact Bool.false_ne_true hwaits
    have hin : s.flashIn = false := by
      refine Bool.eq_false_iff.2 fun ho => ?_
      rw [h.flashIn ho] at hwaits
      exact Bool.false_ne_true hwaits
    dsimp only
    rw [if_neg hdata, finishDma_eq _ (by exact hpc)]
    refine owned_runFlash ?_ hf (Flash.dmaRxCompletion_busy hwaits) hout hin hnone rfl
    exact
      { h with
        consumed := hconsumed hone
        entering := h.entering
        channel := fun _ =>
          { hc with
            flashDone := by simp
            bridgeDone := by simp
            pending := by simp } }

/-- A USB completion of the flash. -/
theorem owned_flashOut (h : Owned s) (ho : s.flashOut) (data : List Byte) :
    Owned ({ s with flashOut := false }.runFlash (s.flash.usbOutCompletion data)) := by
  have hidle := h.flashOut ho
  have hf : s.flash.state ≠ .disable := by simp [hidle]
  have hw : s.flash.state.waitsForDma = false := by rw [hidle]; rfl
  have hc := (h.of_enabled hf).2.2.2.2
  have hin : s.flashIn = false := by
    refine Bool.eq_false_iff.2 fun hi => ?_
    have hinUsb := h.flashIn hi
    rw [hidle] at hinUsb
    cases hinUsb
  refine owned_runFlash ?_ hf (Flash.usbOutCompletion_busy data hidle) rfl hin
    (hc.running_eq_none hf hw) (hc.complete_eq_none hf hw)
  exact { h with flashOut := by simp, channel := fun hs => { h.channel hs with } }

theorem owned_flashIn (h : Owned s) (hi : s.flashIn) :
    Owned ({ s with flashIn := false }.runFlash s.flash.usbInCompletion) := by
  have hinUsb := h.flashIn hi
  have hf : s.flash.state ≠ .disable := by simp [hinUsb]
  have hw : s.flash.state.waitsForDma = false := by rw [hinUsb]; rfl
  have hc := (h.of_enabled hf).2.2.2.2
  have hout : s.flashOut = false := by
    refine Bool.eq_false_iff.2 fun ho => ?_
    have hidle := h.flashOut ho
    rw [hinUsb] at hidle
    cases hidle
  refine owned_runFlash ?_ hf (Flash.usbInCompletion_busy hinUsb) hout rfl
    (hc.running_eq_none hf hw) (hc.complete_eq_none hf hw)
  exact { h with flashIn := by simp, channel := fun hs => { h.channel hs with } }

/-! ### Mode switches -/

/-- A setting other than the flash is left. -/
theorem same_leave (ha : s.altsetting ≠ .flash) : SameHardware s s.leave := by
  unfold leave
  cases hs : s.altsetting with
  | none => exact .refl s
  | flash => exact absurd hs ha
  | pipe => exact { same_runPipe s s.pipe.disable with }

/-- The flash is left: it is disabled before the bridge gets the hardware back. -/
theorem owned_setInterface_flash (h : Owned s) (hp : s.handling = false)
    (hs : s.switching = none) (ha : s.altsetting = .flash) (new : Altsetting) :
    Owned { s.flashDisable.handOver new with switching := some new } := by
  have hb : s.bridge.state = .disable := h.bridge (h.enabled ha hs)
  have hf : s.flashDisable.flash.state = .disable := rfl
  rw [handOver, if_neg (fun hne => hne.1 ha)]
  by_cases hn : new = .flash
  · rw [if_neg (fun hne => hne.2 hn)]
    exact
      { h with
        bridge := fun he => absurd hf he
        sole := fun he => absurd hf he
        enabled := by simp
        entering := fun _ => ⟨hb, rfl⟩
        handler := fun he => absurd (hp.symm.trans he) (by simp)
        flashOut := by simp [flashDisable]
        flashIn := by simp [flashDisable]
        channel := fun he => absurd (congrArg some hn) he }
  · rw [if_pos ⟨ha, hn⟩]
    exact
      { h with
        bridge := fun he => absurd hf he
        accesses := accesses_access h.accesses hf
        sole := fun he => absurd hf he
        enabled := by simp
        entering := fun he => absurd (Option.some.inj he) hn
        handler := fun he => absurd (hp.symm.trans he) (by simp)
        level := by simp [bridgeInit, Bridge.reinit]
        flashOut := by simp [flashDisable, bridgeInit, access]
        flashIn := by simp [flashDisable, bridgeInit, access]
        channel := fun _ => by constructor <;> simp [bridgeInit, DmaRx.reset] }

/-- Another setting is left: the bridge is disabled before the flash is entered. -/
theorem owned_handOver (h : Owned s) (hp : s.handling = false) (ha : s.altsetting ≠ .flash)
    (hs : s.switching = none) (new : Altsetting) :
    Owned { s.handOver new with switching := some new } := by
  have hf : s.flash.state = .disable := by
    by_contra hf
    exact ha (h.sole hf).1
  rw [handOver]
  by_cases hn : new = .flash
  · rw [if_pos ⟨ha, hn⟩]
    exact
      { h with
        bridge := fun he => absurd hf he
        accesses := accesses_access h.accesses hf
        sole := fun he => absurd hf he
        enabled := by simp
        entering := fun _ => ⟨rfl, rfl⟩
        handler := fun he => absurd (hp.symm.trans he) (by simp)
        level := by simp [bridgeDisable, Bridge.disable]
        channel := fun he => absurd (congrArg some hn) he }
  · rw [if_neg (fun hne => hn hne.2), if_neg (fun hne => ha hne.1)]
    exact
      { h with
        bridge := fun he => absurd hf he
        sole := fun he => absurd hf he
        enabled := by simp
        entering := fun he => absurd (Option.some.inj he) hn
        handler := fun he => absurd (hp.symm.trans he) (by simp)
        channel := fun _ => { h.channel (by simp [hs]) with } }

theorem owned_setInterface (h : Owned s) (hcalm : s.calm) (new : Altsetting) :
    Owned { s.leave.handOver new with switching := some new } := by
  obtain ⟨hs, hp⟩ : s.switching = none ∧ s.handling = false := by simpa [calm] using hcalm
  by_cases ha : s.altsetting = .flash
  · have hleave : s.leave = s.flashDisable := by rw [leave, ha]
    rw [hleave]
    exact owned_setInterface_flash h hp hs ha new
  · have hsame := same_leave ha
    exact owned_handOver (h.of_same hsame) (hsame.handling.trans hp)
      (by rw [hsame.altsetting]; exact ha) (hsame.switching.trans hs) new

/-- The setting has been entered without a change of the hardware. -/
theorem owned_entered (h : Owned s) {new : Altsetting} (hs : s.switching = some new)
    (hn : new ≠ .flash) : Owned { s with altsetting := new, switching := none } := by
  have hf : s.flash.state = .disable := by
    by_contra hf
    exact absurd ((h.sole hf).2.symm.trans hs) (by simp)
  exact
    { h with
      sole := fun he => absurd hf he
      enabled := fun he => absurd he hn
      entering := by simp
      handler := fun he => ⟨rfl, hf⟩
      channel := fun _ => { h.channel (by simp [hs, hn]) with } }

theorem owned_enter (h : Owned s) {new : Altsetting} (hs : s.switching = some new) :
    Owned (s.enter new) := by
  unfold enter
  cases new with
  | none => exact owned_entered h hs (by simp)
  | pipe =>
    dsimp only
    split
    · have hsame : SameHardware s s.usbpipeInit := { same_runPipe s s.pipe.init with }
      exact owned_entered (h.of_same hsame) (hsame.switching.trans hs) (by simp)
    · exact owned_entered h hs (by simp)
  | flash =>
    obtain ⟨hb, -⟩ := h.entering hs
    have hf : s.flash.state = .disable := by
      by_contra hf
      exact absurd ((h.sole hf).2.symm.trans hs) (by simp)
    have hin : s.flashIn = false := by
      refine Bool.eq_false_iff.2 fun hi => ?_
      have hinUsb := h.flashIn hi
      rw [hf] at hinUsb
      cases hinUsb
    have hp : s.handling = false := by
      refine Bool.eq_false_iff.2 fun hp => ?_
      exact absurd ((h.handler hp).1.symm.trans hs) (by simp)
    exact
      { h with
        bridge := fun _ => hb
        sole := fun _ => ⟨rfl, rfl⟩
        enabled := by simp [runFlash, Flash.init]
        entering := by simp
        handler := fun he => absurd (hp.symm.trans he) (by simp)
        flashOut := fun _ => rfl
        flashIn := by simp [runFlash, Flash.init, Flash.startsIn, hin]
        channel := fun _ => by
          constructor <;> simp [runFlash, Flash.init, DmaRx.act, DmaRx.reset] }

/-! ### Runs -/

theorem owned_step {l : InterfaceLabel} (h : Owned s) (hok : s.Separate l)
    (hst : s.step l = some t) : Owned t := by
  cases l with
  | syncLow =>
    obtain ⟨-, ht⟩ := Option.ite_none_right_eq_some.1 hst
    cases ht
    exact owned_syncLow h hok
  | header pkt =>
    obtain ⟨hc, ht⟩ := Option.ite_none_right_eq_some.1 hst
    cases ht
    exact owned_header h hc.2 pkt
  | syncHigh =>
    obtain ⟨hs, ht⟩ := Option.ite_none_right_eq_some.1 hst
    cases ht
    exact owned_syncHigh h hok hs
  | dmaDone data =>
    simp only [step] at hst
    split at hst
    · next hr =>
      cases hst
      exact owned_dataDone h hr
    · next hr =>
      cases hst
      exact owned_flashDone h hr data
    · cases hst
  | copy =>
    simp only [step] at hst
    split at hst
    · next hd =>
      obtain ⟨hc, ht⟩ := Option.ite_none_right_eq_some.1 hst
      cases ht
      exact owned_copy h hc.1 hd hc.2
    · cases hst
  | callbacks =>
    simp only [step] at hst
    split at hst
    · next c hp =>
      cases hst
      -- the callbacks reach the clients, and none of them is a client of the DMA
      have hsame := same_foldl_serve s (Bridge.callbacks s.bridge.wasOpen c)
      have hp' : s.handling = true := by rw [handling, hp]
      exact h.of_same { hsame with handling := hp'.symm }
    · cases hst
  | writeBack =>
    simp only [step] at hst
    split at hst
    · next c hp =>
      cases hst
      exact owned_writeBack h (by rw [handling, hp])
    · cases hst
  | call c =>
    obtain ⟨-, ht⟩ := Option.ite_none_right_eq_some.1 hst
    cases ht
    exact h.of_same
      { SameHardware.refl s with state := call_state _ c, ctrlRx := call_ctrlRx _ c }
  | pipeOut packet =>
    simp only [step] at hst
    split at hst
    · obtain ⟨-, ht⟩ := Option.ite_none_right_eq_some.1 hst
      cases ht
      -- the pipe speaks to the bridge and to USB, not to the flash
      exact h.of_same { same_runPipe s (s.pipe.handle (.outCompletion packet)) with }
    · cases hst
  | pipeIn =>
    simp only [step] at hst
    split at hst
    · obtain ⟨-, ht⟩ := Option.ite_none_right_eq_some.1 hst
      cases ht
      refine h.of_same ?_
      rw [pipeInCompletion]
      dsimp only
      split <;> exact { same_runPipe s (s.pipe.handle .inCompletion) with }
    · cases hst
  | flashOut data =>
    obtain ⟨hc, ht⟩ := Option.ite_none_right_eq_some.1 hst
    cases ht
    exact owned_flashOut h hc.2.2.1 data
  | flashIn =>
    obtain ⟨hc, ht⟩ := Option.ite_none_right_eq_some.1 hst
    cases ht
    exact owned_flashIn h hc.2.2
  | setInterface new =>
    obtain ⟨hc, ht⟩ := Option.ite_none_right_eq_some.1 hst
    cases ht
    exact owned_setInterface h hc new
  | enter =>
    simp only [step] at hst
    split at hst
    · next hs =>
      cases hst
      exact owned_enter h hs
    · cases hst

/-- **Exclusion.**  In every run without SYNC edges while the flash has the hardware, and in which
SYNC high starts nothing while the completion handler is at work, flash mode and bridge mode
exclude each other. -/
theorem exclusive {sync : Bool} {ls : List InterfaceLabel}
    (h : machine.Run Separate (init sync) ls s) : Exclusive s :=
  (h.invariant (owned_init sync) fun _ _ _ ht hok hst => owned_step ht hok hst).toExclusive

/-- The host reads the status register of the flash. -/
def flashTransaction : List InterfaceLabel :=
  [.syncLow, .header ⟨0x53#8, 0x10#8, fun _ => 0#8⟩, .syncHigh, .copy, .callbacks, .writeBack,
    .setInterface .flash, .enter, .flashOut [0x01#8, 0#8, 0#8, 0x00#8, 0x05#8], .dmaDone [], .copy,
    .dmaDone [0x80#8], .copy, .flashIn, .setInterface .pipe, .enter]

theorem exclusive_flashTransaction :
    ∃ s, machine.Run Separate (init true) flashTransaction s ∧
      s.consumed = [(.bridge, [.bridge]), (.flash, [.flash]), (.flash, [.flash])] ∧
      s.pipeEnabled ∧ Exclusive s := by
  have hconsumed : (machine.execOk (fun s l => decide (s.Separate l)) (init true)
      flashTransaction).map (fun s => (s.consumed, s.pipeEnabled)) =
        some ([(.bridge, [.bridge]), (.flash, [.flash]), (.flash, [.flash])], true) := by
    decide +kernel
  obtain ⟨s, hs, heq⟩ := Option.map_eq_some_iff.1 hconsumed
  have hr := Machine.run_of_execOk Separate (fun _ _ h => of_decide_eq_true h) hs
  exact ⟨s, hr, congrArg Prod.fst heq, congrArg Prod.snd heq, exclusive hr⟩

/-! ### SYNC edges in flash mode -/

theorem syncHigh_bridge (s : Interface) : s.syncHigh.bridge = s.bridge.handleSyncHigh := by
  rw [syncHigh]
  dsimp only
  split_ifs <;> rfl

theorem syncHigh_flash (s : Interface) : s.syncHigh.flash = s.flash := by
  rw [syncHigh]
  dsimp only
  split_ifs <;> rfl

theorem handleSyncHigh_state_ne (b : Bridge) : b.handleSyncHigh.state ≠ .disable := by
  by_cases hcmd : b.ctrlRx.cmd = 0x53#8
  · rw [Bridge.handleSyncHigh_of_cmd hcmd]
    dsimp only
    split_ifs <;> simp
  · rw [Bridge.handleSyncHigh_of_cmd_ne hcmd]
    simp

/-- Every SYNC edge while the flash is enabled breaks the exclusion. -/
theorem not_exclusive_of_sync {l : InterfaceLabel} (hf : s.flash.state ≠ .disable)
    (hl : l = .syncLow ∨ l = .syncHigh) (hst : s.step l = some t) : ¬ Exclusive t := by
  intro ht
  obtain rfl | rfl := hl
  · obtain ⟨-, hst⟩ := Option.ite_none_right_eq_some.1 hst
    cases hst
    exact absurd (ht.bridge hf) (by simp [syncLow, Bridge.handleSyncLow])
  · obtain ⟨-, hst⟩ := Option.ite_none_right_eq_some.1 hst
    cases hst
    have hstate := ht.bridge (by rw [syncHigh_flash]; exact hf)
    rw [syncHigh_bridge] at hstate
    exact handleSyncHigh_state_ne _ hstate

/-- The host enters flash mode, which puts the SoC into reset, and SYNC falls. -/
theorem sync_aborts_flash :
    ∃ s, machine.Run Machine.always (init true) [.setInterface .flash, .enter, .syncLow] s ∧
      s.flash.state = .idle ∧ s.bridge.state = .ctrl ∧ .idle ∈ s.accesses ∧ ¬ Exclusive s := by
  refine ⟨_, Machine.run_of_exec rfl, rfl, rfl, by decide, ?_⟩
  intro h
  exact absurd (h.bridge (by decide)) (by decide)

end Interface

end TesselFirmware
