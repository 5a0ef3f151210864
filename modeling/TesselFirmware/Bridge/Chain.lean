import Mathlib.Tactic.FinCases
import TesselFirmware.Bridge.Basic

/-!
# The data phase as a function of the two headers

What `handleSyncHigh` does, said once: the DMA chain it creates is `segments rx tx`, a function
of the two headers alone, and it consumes exactly the ready bits and the pending sizes of the
channels that take part.  Every later module uses these lemmas and never unfolds the loop.
-/

namespace TesselFirmware

namespace ControlPkt

/-- The headers agree on an OUT transfer on the channel: the MCU is ready, the SoC has data. -/
def movesOut (rx tx : ControlPkt) (ch : Chan) : Bool := tx.ready ch && rx.size ch != 0#8

/-- The headers agree on an IN transfer on the channel: the SoC is ready, the MCU has data. -/
def movesIn (rx tx : ControlPkt) (ch : Chan) : Bool := rx.ready ch && tx.size ch != 0#8

/-- The segments of one channel. -/
def segmentsAt (rx tx : ControlPkt) (ch : Chan) : List Segment :=
  (if movesOut rx tx ch then [⟨.out, ch, (rx.size ch).toNat⟩] else []) ++
    (if movesIn rx tx ch then [⟨.inn, ch, (tx.size ch).toNat⟩] else [])

/-- The unframed payload that the two headers agree on: the channels in order, OUT before IN. -/
def segments (rx tx : ControlPkt) : List Segment := chans.flatMap (segmentsAt rx tx)

theorem mem_chans (ch : Chan) : ch ∈ chans := by fin_cases ch <;> decide

theorem segments_eq_nil_iff {rx tx : ControlPkt} :
    segments rx tx = [] ↔ ∀ ch, movesOut rx tx ch = false ∧ movesIn rx tx ch = false := by
  simp only [segments, List.flatMap_eq_nil_iff, segmentsAt, List.append_eq_nil_iff]
  constructor
  · intro h ch
    have := h ch (mem_chans ch)
    simpa using this
  · intro h ch _
    simp [h ch]

theorem mem_segments {rx tx : ControlPkt} {s : Segment} :
    s ∈ segments rx tx ↔
      (s.dir = .out ∧ movesOut rx tx s.chan ∧ s.len = (rx.size s.chan).toNat) ∨
        (s.dir = .inn ∧ movesIn rx tx s.chan ∧ s.len = (tx.size s.chan).toNat) := by
  obtain ⟨dir, ch, len⟩ := s
  simp only [segments, List.mem_flatMap, segmentsAt, List.mem_append]
  constructor
  · rintro ⟨c, -, h | h⟩ <;> split at h <;> simp at h <;> obtain ⟨rfl, rfl, rfl⟩ := h
    · next hm => exact .inl ⟨rfl, hm, rfl⟩
    · next hm => exact .inr ⟨rfl, hm, rfl⟩
  · rintro (⟨rfl, hm, rfl⟩ | ⟨rfl, hm, rfl⟩)
    · exact ⟨ch, mem_chans ch, .inl (by simp [hm])⟩
    · exact ⟨ch, mem_chans ch, .inr (by simp [hm])⟩

end ControlPkt

namespace Bridge

open ControlPkt

/-- The descriptors of one channel: its segments with the client buffers. -/
def descsAt (b : Bridge) (ch : Chan) : List Desc :=
  (if movesOut b.ctrlRx b.ctrlTx ch then
      [⟨⟨.out, ch, (b.ctrlRx.size ch).toNat⟩, b.outChanPtr ch⟩] else []) ++
    (if movesIn b.ctrlRx b.ctrlTx ch then
      [⟨⟨.inn, ch, (b.ctrlTx.size ch).toNat⟩, b.inChanPtr ch⟩] else [])

theorem descsAt_segments (b : Bridge) (ch : Chan) :
    (b.descsAt ch).map Desc.toSegment = segmentsAt b.ctrlRx b.ctrlTx ch := by
  unfold descsAt segmentsAt
  split_ifs <;> rfl

/-- The chain of the data phase that the global headers agree on. -/
def plannedChain (b : Bridge) : List Desc := chans.flatMap b.descsAt

theorem plannedChain_segments (b : Bridge) :
    b.plannedChain.map Desc.toSegment = segments b.ctrlRx b.ctrlTx := by
  simp [plannedChain, segments, List.map_flatMap, descsAt_segments]

theorem plannedChain_eq_nil_iff {b : Bridge} :
    b.plannedChain = [] ↔ segments b.ctrlRx b.ctrlTx = [] := by
  rw [← plannedChain_segments, List.map_eq_nil_iff]

/-- The state that the loop over the channels leaves: what it consumes, with `chain` appended. -/
def consumed (b : Bridge) (chain : List Desc) : Bridge :=
  { b with
    outChanReady := chans.foldl (fun r ch =>
      if movesOut b.ctrlRx b.ctrlTx ch then Byte.clear r ch else r) b.outChanReady
    inChanSize := fun ch => if movesIn b.ctrlRx b.ctrlTx ch then 0#8 else b.inChanSize ch
    chain := chain }

theorem createChain_eq (b : Bridge) :
    b.createChain = b.consumed (b.chain ++ b.plannedChain) := by
  have hout (b : Bridge) (ch : Chan) : b.chainOut ch =
      { b with
        outChanReady := if movesOut b.ctrlRx b.ctrlTx ch then Byte.clear b.outChanReady ch
          else b.outChanReady
        chain := b.chain ++ if movesOut b.ctrlRx b.ctrlTx ch then
          [⟨⟨.out, ch, (b.ctrlRx.size ch).toNat⟩, b.outChanPtr ch⟩] else [] } := by
    simp only [chainOut, movesOut, Bool.and_eq_true, bne_iff_ne]
    split_ifs <;> simp
  have hinn (b : Bridge) (ch : Chan) : b.chainIn ch =
      { b with
        inChanSize := if movesIn b.ctrlRx b.ctrlTx ch then Function.update b.inChanSize ch 0#8
          else b.inChanSize
        chain := b.chain ++ if movesIn b.ctrlRx b.ctrlTx ch then
          [⟨⟨.inn, ch, (b.ctrlTx.size ch).toNat⟩, b.inChanPtr ch⟩] else [] } := by
    simp only [chainIn, movesIn, Bool.and_eq_true, bne_iff_ne]
    split_ifs <;> simp
  simp only [createChain, chans, List.foldl_cons, List.foldl_nil, hout, hinn, consumed,
    plannedChain, List.flatMap_cons, List.flatMap_nil, descsAt, List.append_assoc,
    List.append_nil]
  congr 1
  funext ch
  fin_cases ch <;> simp <;> split_ifs <;> simp_all

/-! ### What SYNC high does -/

/-- A header without the magic number leaves everything but the state as it is. -/
theorem handleSyncHigh_of_cmd_ne {b : Bridge} (h : b.ctrlRx.cmd ≠ 0x53#8) :
    b.handleSyncHigh = { b with state := .idle } := by
  rw [handleSyncHigh, if_pos h]

/-- The connected bits of the header differ from those last reported to the clients. -/
def statusChanged (b : Bridge) : Prop := b.ctrlRx.status &&& 0xF0#8 ≠ b.wasOpen &&& 0xF0#8

instance (b : Bridge) : Decidable b.statusChanged := by unfold statusChanged; infer_instance

/-- SYNC high with a good header: the planned chain is started and consumed, and the completion
interrupt is raised at once when there is only a status change to report. -/
theorem handleSyncHigh_of_cmd {b : Bridge} (h : b.ctrlRx.cmd = 0x53#8) :
    b.handleSyncHigh =
      { b.consumed b.plannedChain with
        booted := true
        irq := false
        rxDone := if b.plannedChain ≠ [] then false else
          if b.statusChanged then true else b.rxDone
        state := if b.plannedChain ≠ [] ∨ b.statusChanged then .data else .idle } := by
  have hcreate : createChain { b with booted := true, chain := [] } =
      { b.consumed b.plannedChain with booted := true } := by
    rw [createChain_eq]
    rfl
  rw [handleSyncHigh, if_neg (not_not.2 h), hcreate]
  by_cases hc : b.plannedChain = []
  · by_cases hs : b.statusChanged
    · have hs' : b.ctrlRx.status &&& 0xF0#8 ≠ b.wasOpen &&& 0xF0#8 := hs
      simp [consumed, hc, hs, hs']
    · have hs' : b.ctrlRx.status &&& 0xF0#8 = b.wasOpen &&& 0xF0#8 := not_not.1 hs
      simp [consumed, hc, hs, hs']
  · simp [consumed, hc]

@[simp] theorem handleSyncHigh_ctrlRx (b : Bridge) : b.handleSyncHigh.ctrlRx = b.ctrlRx := by
  by_cases h : b.ctrlRx.cmd = 0x53#8
  · rw [handleSyncHigh_of_cmd h]; rfl
  · rw [handleSyncHigh_of_cmd_ne h]

@[simp] theorem handleSyncHigh_ctrlTx (b : Bridge) : b.handleSyncHigh.ctrlTx = b.ctrlTx := by
  by_cases h : b.ctrlRx.cmd = 0x53#8
  · rw [handleSyncHigh_of_cmd h]; rfl
  · rw [handleSyncHigh_of_cmd_ne h]

@[simp] theorem handleSyncHigh_wasOpen (b : Bridge) : b.handleSyncHigh.wasOpen = b.wasOpen := by
  by_cases h : b.ctrlRx.cmd = 0x53#8
  · rw [handleSyncHigh_of_cmd h]; rfl
  · rw [handleSyncHigh_of_cmd_ne h]

@[simp] theorem handleSyncHigh_inChanPtr (b : Bridge) :
    b.handleSyncHigh.inChanPtr = b.inChanPtr := by
  by_cases h : b.ctrlRx.cmd = 0x53#8
  · rw [handleSyncHigh_of_cmd h]; rfl
  · rw [handleSyncHigh_of_cmd_ne h]

@[simp] theorem handleSyncHigh_outChanPtr (b : Bridge) :
    b.handleSyncHigh.outChanPtr = b.outChanPtr := by
  by_cases h : b.ctrlRx.cmd = 0x53#8
  · rw [handleSyncHigh_of_cmd h]; rfl
  · rw [handleSyncHigh_of_cmd_ne h]

/-- The data phase that `handleSyncHigh` prepares. -/
theorem handleSyncHigh_chain {b : Bridge} (h : b.ctrlRx.cmd = 0x53#8) :
    b.handleSyncHigh.chain = b.plannedChain := by
  rw [handleSyncHigh_of_cmd h]
  rfl

theorem has_foldl_clear (p : Chan → Bool) (r : Byte) (ch : Chan) :
    Byte.has (chans.foldl (fun r c => if p c then Byte.clear r c else r) r) ch =
      (Byte.has r ch && !p ch) := by
  simp only [chans, List.foldl_cons, List.foldl_nil]
  fin_cases ch <;> simp <;> split_ifs <;> simp_all

/-- The ready bits left after SYNC high: those of the channels that receive are consumed. -/
theorem handleSyncHigh_ready {b : Bridge} (h : b.ctrlRx.cmd = 0x53#8) (ch : Chan) :
    b.handleSyncHigh.ready ch = (b.ready ch && !movesOut b.ctrlRx b.ctrlTx ch) := by
  rw [handleSyncHigh_of_cmd h]
  exact has_foldl_clear _ _ ch

/-- The mask of ready and enable bits is left as it is when no set ready bit is consumed. -/
theorem handleSyncHigh_outChanReady_of_forall {b : Bridge} (h : b.ctrlRx.cmd = 0x53#8)
    (hno : ∀ ch, movesOut b.ctrlRx b.ctrlTx ch → b.ready ch = false) :
    b.handleSyncHigh.outChanReady = b.outChanReady := by
  rw [handleSyncHigh_of_cmd h]
  show chans.foldl (fun r ch => if movesOut b.ctrlRx b.ctrlTx ch then Byte.clear r ch else r)
    b.outChanReady = b.outChanReady
  refine List.foldlRecOn (motive := (· = b.outChanReady)) chans _ rfl fun r hr ch _ => ?_
  subst hr
  split_ifs with hm
  · exact Byte.clear_of_has (by omega) (hno ch hm)
  · rfl

/-- The pending sizes left after SYNC high: those of the channels that send are consumed. -/
theorem handleSyncHigh_inChanSize {b : Bridge} (h : b.ctrlRx.cmd = 0x53#8) (ch : Chan) :
    b.handleSyncHigh.inChanSize ch =
      if movesIn b.ctrlRx b.ctrlTx ch then 0#8 else b.inChanSize ch := by
  rw [handleSyncHigh_of_cmd h]
  rfl

/-! ### What the completion handler reports -/

theorem checkCompletionOut_snapshotOf (rx tx : ControlPkt) (ch : Chan) :
    checkCompletionOut (snapshotOf rx tx) ch =
      if movesOut rx tx ch then some (.completionOut ch (rx.size ch).toNat) else none := by
  simp only [checkCompletionOut, snapshotOf, movesOut, ControlPkt.ready, Bool.and_eq_true,
    bne_iff_ne]
  congr

theorem checkCompletionIn_snapshotOf (rx tx : ControlPkt) (ch : Chan) :
    checkCompletionIn (snapshotOf rx tx) ch =
      if movesIn rx tx ch then some (.completionIn ch) else none := by
  simp only [checkCompletionIn, snapshotOf, movesIn, ControlPkt.ready, Bool.and_eq_true,
    bne_iff_ne]
  congr

theorem eq_open_of_checkOpen {w : Byte} {c : Snapshot} {ch : Chan} {cb : Callback}
    (h : checkOpen w c ch = some cb) : cb = .open ch := by
  unfold checkOpen at h
  split_ifs at h
  exact (Option.some.inj h).symm

theorem eq_close_of_checkClose {w : Byte} {c : Snapshot} {ch : Chan} {cb : Callback}
    (h : checkClose w c ch = some cb) : cb = .close ch := by
  unfold checkClose at h
  split_ifs at h
  exact (Option.some.inj h).symm

theorem filter_filterMap_chans {f : Chan → Option Callback}
    (hf : ∀ c cb, f c = some cb → cb.chan = c) (ch : Chan) :
    (chans.filterMap f).filter (·.chan = ch) = (f ch).toList := by
  have hfilter : (fun c => (f c).filter fun cb => cb.chan = ch) =
      fun c => if c = ch then f c else none := by
    funext c
    cases hc : f c with
    | none => simp
    | some cb => simp [Option.filter, hf c cb hc]
  rw [List.filter_filterMap, hfilter]
  fin_cases ch <;> simp [chans, List.filterMap_cons] <;> split <;> simp_all

/-- The callbacks of one channel: it is opened, its transfers are completed, it is closed. -/
theorem callbacks_chan (w : Byte) (rx tx : ControlPkt) (ch : Chan) :
    (callbacks w (snapshotOf rx tx)).filter (·.chan = ch) =
      (checkOpen w (snapshotOf rx tx) ch).toList ++
        (if movesOut rx tx ch then [.completionOut ch (rx.size ch).toNat] else []) ++
        (if movesIn rx tx ch then [.completionIn ch] else []) ++
        (checkClose w (snapshotOf rx tx) ch).toList := by
  have hout : ∀ c cb, checkCompletionOut (snapshotOf rx tx) c = some cb → cb.chan = c := by
    intro c cb h
    rw [checkCompletionOut_snapshotOf] at h
    obtain ⟨-, h⟩ := Option.ite_none_right_eq_some.1 h
    cases h
    rfl
  have hinn : ∀ c cb, checkCompletionIn (snapshotOf rx tx) c = some cb → cb.chan = c := by
    intro c cb h
    rw [checkCompletionIn_snapshotOf] at h
    obtain ⟨-, h⟩ := Option.ite_none_right_eq_some.1 h
    cases h
    rfl
  rw [callbacks, List.filter_append, List.filter_append, List.filter_append,
    filter_filterMap_chans (fun c cb h => by rw [eq_open_of_checkOpen h]; rfl),
    filter_filterMap_chans hout, filter_filterMap_chans hinn,
    filter_filterMap_chans (fun c cb h => by rw [eq_close_of_checkClose h]; rfl),
    checkCompletionOut_snapshotOf, checkCompletionIn_snapshotOf]
  split_ifs <;> rfl

/-- Each in-completion is made once. -/
theorem count_completionIn_callbacks (w : Byte) (rx tx : ControlPkt) (ch : Chan) :
    (callbacks w (snapshotOf rx tx)).count (.completionIn ch) =
      if movesIn rx tx ch then 1 else 0 := by
  have hopen (f : Option Callback) (hf : ∀ cb, f = some cb → cb ≠ .completionIn ch) :
      f.toList.count (.completionIn ch) = 0 := by
    refine List.count_eq_zero.2 fun hm => ?_
    exact hf _ (Option.mem_toList.1 hm) rfl
  have hfilter := List.count_filter (p := fun cb : Callback => cb.chan = ch)
    (a := .completionIn ch) (l := callbacks w (snapshotOf rx tx)) (decide_eq_true rfl)
  rw [← hfilter, callbacks_chan, List.count_append, List.count_append, List.count_append,
    hopen _ fun cb h => by rw [eq_open_of_checkOpen h]; nofun,
    hopen _ fun cb h => by rw [eq_close_of_checkClose h]; nofun]
  split_ifs <;> simp

theorem mem_callbacks_completionIn {w : Byte} {rx tx : ControlPkt} {ch : Chan} :
    .completionIn ch ∈ callbacks w (snapshotOf rx tx) ↔ movesIn rx tx ch := by
  rw [← List.one_le_count_iff, count_completionIn_callbacks]
  split_ifs with hm <;> simp [hm]

end Bridge

end TesselFirmware
