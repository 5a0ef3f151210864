import TesselFirmware.Link.Basic

/-!
# The two sides of the data phase

The MCU derives the data phase from the two headers (`segments`).  `spid` derives it from the header
it has received and from its own state, which it has changed since it sent its header: a channel
that the MCU shows as disabled has been closed.  So the two agree where such a channel has nothing
to transfer, and only there.

* `Link.chain_eq_iff` : the two data phases are the same exactly when `Link.Agrees`;
* `Link.receive_inBuf`, `Link.content_filled` : and then each side receives in each segment what
  the other has sent in it.
-/

namespace TesselFirmware

open Bridge ControlPkt

variable {α : Type}

namespace ChanState

/-- Before the data phase, `manage_channel_active_status` empties a channel that the MCU shows as
disabled, and leaves the transfers of the others as they are. -/
theorem segments_manage (c : ChanState α) (ch : Chan) (connected : Bool) (fd : ℕ) (ready : Bool)
    (size : ℕ) : (c.manage ch connected fd).segments ch ready size =
      if c.enabled && !connected then [] else c.segments ch ready size := by
  have hclosed {d : ChanState α} (hl : d.outLength = 0) (hw : d.writable = false) :
      d.segments ch ready size = [] := by
    simp [segments, hl, hw]
  unfold manage
  cases connected with
  | true =>
    -- a channel that is enabled now has no connection yet, or a new one
    rw [Bool.not_true, Bool.and_false]
    split_ifs <;> simp_all [segments, connect]
  | false =>
    rw [Bool.not_false, Bool.and_true]
    by_cases hen : c.enabled = true
    · rw [if_neg (by simp [hen]), if_neg (by simp), if_pos hen]
      split_ifs <;> exact hclosed rfl rfl
    · rw [if_pos (by simpa using hen), if_neg hen]

end ChanState

namespace Link

/-- `spid` closes the channel after it has received the header `rx`. -/
def closes (l : Link α) (rx : ControlPkt) (ch : Chan) : Bool :=
  (l.spid.chan ch).enabled && !rx.connected ch

/-- No channel that `spid` closes before the data phase has a transfer in it: neither are the MCU
ready and data there, nor is the connection writable and data there. -/
def Agrees (l : Link α) (rx : ControlPkt) : Prop :=
  ∀ ch, l.closes rx ch → ¬ (rx.ready ch ∧ 0 < (l.spid.chan ch).outLength) ∧
    ¬ ((l.spid.chan ch).writable ∧ 0 < (rx.size ch).toNat)

instance (l : Link α) (rx : ControlPkt) : Decidable (l.Agrees rx) := by
  unfold Agrees; infer_instance

/-- The segments that `spid` would prepare for a channel with the state that it sent its header
from. -/
def segmentsOf (l : Link α) (rx : ControlPkt) (ch : Chan) : List Segment :=
  (l.spid.chan ch).segments ch (rx.ready ch) (rx.size ch).toNat

variable {l : Link α}

/-- A channel when its data phase is prepared. -/
def managed (l : Link α) (rx : ControlPkt) (fd : ℕ) (ch : Chan) : ChanState α :=
  (l.spid.chan ch).manage ch (rx.connected ch) fd

theorem chan_managed (l : Link α) (rx : ControlPkt) (fd : ℕ) (ch : Chan) :
    ({ l.spid.manageChannelActiveStatus rx fd with retries := 0 } : Spid α).chan ch =
      l.managed rx fd ch :=
  Spid.chan_manage l.spid rx fd ch

theorem planned_chan (l : Link α) (rx : ControlPkt) (fd : ℕ) (ch : Chan) :
    (l.planned rx fd).1.chan ch = (l.managed rx fd ch).plan (rx.ready ch) := by
  rw [planned, Spid.planTransfer_chan, chan_managed]

theorem planned_segments_managed (l : Link α) (rx : ControlPkt) (fd : ℕ) :
    (l.planned rx fd).2 = chans.flatMap fun ch =>
      (l.managed rx fd ch).segments ch (rx.ready ch) (rx.size ch).toNat := by
  rw [planned, Spid.planTransfer_segments]
  refine List.flatMap_congr fun ch _ => ?_
  rw [chan_managed]

theorem planned_segments (l : Link α) (rx : ControlPkt) (fd : ℕ) :
    (l.planned rx fd).2 =
      chans.flatMap fun ch => if l.closes rx ch then [] else l.segmentsOf rx ch := by
  rw [planned_segments_managed]
  refine List.flatMap_congr fun ch _ => ?_
  rw [managed, ChanState.segments_manage]
  rfl

/-- The segments of a channel by the two headers are those by the state of `spid`. -/
theorem segmentsAt_header (h : l.Sound) (rx : ControlPkt) (ch : Chan) :
    segmentsAt l.spid.header rx ch = l.segmentsOf rx ch := by
  have hlen : (l.spid.chan ch).outLength ≤ spidBufSize :=
    (h.spid ch).outLength.trans (h.spid ch).outBuf
  have hsize : (l.spid.header.size ch).toNat = (l.spid.chan ch).outLength := by
    show (BitVec.ofNat 8 (l.spid.chan ch).outLength).toNat = _
    rw [BitVec.toNat_ofNat]
    refine Nat.mod_eq_of_lt ?_
    simp only [spidBufSize] at hlen
    omega
  have hpos (b : Byte) : b ≠ 0#8 ↔ 0 < b.toNat := by
    rw [Nat.pos_iff_ne_zero, ne_eq, ne_eq, ← BitVec.toNat_inj]
    rfl
  have hout : movesOut l.spid.header rx ch = true ↔
      rx.ready ch = true ∧ 0 < (l.spid.chan ch).outLength := by
    rw [movesOut, Bool.and_eq_true, bne_iff_ne, hpos, hsize]
  have hinn : movesIn l.spid.header rx ch = true ↔
      (l.spid.chan ch).writable = true ∧ 0 < (rx.size ch).toNat := by
    rw [movesIn, Bool.and_eq_true, bne_iff_ne, hpos, Spid.header_ready]
  rw [segmentsAt, segmentsOf, ChanState.segments, hsize]
  congr 1
  · by_cases hm : movesOut l.spid.header rx ch = true
    · rw [if_pos hm, if_pos (hout.1 hm)]
    · rw [if_neg hm, if_neg (hm ∘ hout.2)]
  · by_cases hm : movesIn l.spid.header rx ch = true
    · rw [if_pos hm, if_pos (hinn.1 hm)]
    · rw [if_neg hm, if_neg (hm ∘ hinn.2)]

theorem segmentsOf_eq_nil_iff {rx : ControlPkt} {ch : Chan} :
    l.segmentsOf rx ch = [] ↔ ¬ (rx.ready ch ∧ 0 < (l.spid.chan ch).outLength) ∧
      ¬ ((l.spid.chan ch).writable ∧ 0 < (rx.size ch).toNat) := by
  rw [segmentsOf, ChanState.segments, List.append_eq_nil_iff]
  refine and_congr ?_ ?_ <;> split_ifs with hm <;> simp [hm]

theorem chan_of_mem_segmentsOf {rx : ControlPkt} {ch : Chan} {g : Segment}
    (h : g ∈ l.segmentsOf rx ch) : g.chan = ch := by
  simp only [segmentsOf, ChanState.segments, List.mem_append, List.mem_ite_nil_right,
    List.mem_singleton] at h
  obtain ⟨-, rfl⟩ | ⟨-, rfl⟩ := h <;> rfl

/-- The DMA chain by the state of `spid`. -/
theorem chain_segments (h : l.Sound) {rx : ControlPkt} (hphase : l.phase = .high rx)
    (hmcu : l.bridge.ctrlRx = l.spid.header) (hsoc : rx = l.bridge.ctrlTx) :
    l.bridge.chain.map Desc.toSegment = chans.flatMap (l.segmentsOf rx) := by
  have hcmd : l.bridge.ctrlRx.cmd = 0x53#8 := by rw [hmcu]; rfl
  rw [h.chain rx hphase hcmd, hmcu, ← hsoc, segments]
  exact List.flatMap_congr fun ch _ => segmentsAt_header h rx ch

/-- **Agreement on the data phase.**  After two good headers, the DMA chain of the MCU and the
`spi_ioc_transfer` array of `spid` have the same segments exactly when no channel that `spid`
closes in between has a transfer. -/
theorem chain_eq_iff (h : l.Sound) {rx : ControlPkt} (hphase : l.phase = .high rx)
    (hmcu : l.bridge.ctrlRx = l.spid.header) (hsoc : rx = l.bridge.ctrlTx) (fd : ℕ) :
    l.bridge.chain.map Desc.toSegment = (l.planned rx fd).2 ↔ l.Agrees rx := by
  rw [chain_segments h hphase hmcu hsoc, planned_segments]
  constructor
  · intro heq ch hcl
    rw [← segmentsOf_eq_nil_iff, List.eq_nil_iff_forall_not_mem]
    intro g hg
    -- a segment of a closed channel is in the chain, but not in the data phase of `spid`
    have hmem : g ∈ chans.flatMap (l.segmentsOf rx) :=
      List.mem_flatMap.2 ⟨ch, mem_chans ch, hg⟩
    rw [heq, List.mem_flatMap] at hmem
    obtain ⟨c, -, hc⟩ := hmem
    split_ifs at hc with hcl'
    · cases hc
    · have hcc : c = ch := (chan_of_mem_segmentsOf hc).symm.trans (chan_of_mem_segmentsOf hg)
      exact hcl' (hcc ▸ hcl)
  · intro hagree
    refine List.flatMap_congr fun ch _ => ?_
    split_ifs with hcl
    · exact segmentsOf_eq_nil_iff.2 (hagree ch hcl)
    · rfl

/-! ### What the data phase moves -/

/-- The segments of `spid`, read off its channels when the data phase is prepared. -/
theorem mem_planned {rx : ControlPkt} {fd : ℕ} {g : Segment} :
    g ∈ (l.planned rx fd).2 ↔
      (g.dir = .out ∧ (rx.ready g.chan ∧ 0 < (l.managed rx fd g.chan).outLength) ∧
          g.len = (l.managed rx fd g.chan).outLength) ∨
        (g.dir = .inn ∧ ((l.managed rx fd g.chan).writable ∧ 0 < (rx.size g.chan).toNat) ∧
          g.len = (rx.size g.chan).toNat) := by
  obtain ⟨dir, ch, len⟩ := g
  rw [planned_segments_managed, List.mem_flatMap]
  simp only [ChanState.segments, List.mem_append, List.mem_ite_nil_right, List.mem_singleton,
    Segment.mk.injEq]
  constructor
  · rintro ⟨c, -, ⟨hm, rfl, rfl, rfl⟩ | ⟨hm, rfl, rfl, rfl⟩⟩
    · exact .inl ⟨rfl, hm, rfl⟩
    · exact .inr ⟨rfl, hm, rfl⟩
  · rintro (⟨rfl, hm, rfl⟩ | ⟨rfl, hm, rfl⟩)
    · exact ⟨ch, mem_chans ch, .inl ⟨hm, rfl, rfl, rfl⟩⟩
    · exact ⟨ch, mem_chans ch, .inr ⟨hm, rfl, rfl, rfl⟩⟩

/-- A data phase has at most one segment for each direction of each channel. -/
theorem planned_unique {rx : ControlPkt} {fd : ℕ} {g g' : Segment}
    (hg : g ∈ (l.planned rx fd).2) (hg' : g' ∈ (l.planned rx fd).2) (hdir : g.dir = g'.dir)
    (hch : g.chan = g'.chan) : g = g' := by
  obtain ⟨dir, ch, len⟩ := g
  obtain ⟨dir', ch', len'⟩ := g'
  dsimp only at hdir hch
  subst hdir hch
  obtain ⟨rfl, -, hl⟩ | ⟨rfl, -, hl⟩ := mem_planned.1 hg
  · obtain ⟨-, -, hl'⟩ | ⟨h, -⟩ := mem_planned.1 hg'
    · exact congrArg _ (hl.trans hl'.symm)
    · cases h
  · obtain ⟨h, -⟩ | ⟨-, -, hl'⟩ := mem_planned.1 hg'
    · cases h
    · exact congrArg _ (hl.trans hl'.symm)

section Exchange

variable {rx : ControlPkt} {fd : ℕ} {mem : Desc → List α} {pad : List α} {dummy : α}

/-- What `spid` cuts out of the stream of the MCU when the two data phases agree. -/
theorem slices_clockedOut (hseg : l.bridge.chain.map Desc.toSegment = (l.planned rx fd).2) :
    Buffer.slices ((l.planned rx fd).2.map Segment.len) (l.bridge.clockedOut dummy mem ++ pad) =
      l.bridge.chain.map (Desc.sends dummy mem) := by
  rw [← hseg, List.map_map]
  exact Buffer.slices_flatMap (fun d _ => d.length_sends dummy mem) pad

/-- **IN.**  With agreement, `in_buf` gets what the MCU sends in the segment of the channel. -/
theorem receive_inBuf (s : Spid α) (dummy : α) (pad : List α)
    (hseg : l.bridge.chain.map Desc.toSegment = (l.planned rx fd).2)
    {d : Desc} (hd : d ∈ l.bridge.chain) (hdir : d.dir = .inn)
    (hu : ∀ d' ∈ l.bridge.chain, d'.dir = .inn → d'.chan = d.chan → mem d' = mem d) :
    (s.receive (l.planned rx fd).2 (Buffer.slices ((l.planned rx fd).2.map Segment.len)
      (l.bridge.clockedOut dummy mem ++ pad))).inBuf d.chan = d.sends dummy mem := by
  have hplan {d' : Desc} (h : d' ∈ l.bridge.chain) : d'.toSegment ∈ (l.planned rx fd).2 :=
    hseg ▸ List.mem_map_of_mem h
  rw [slices_clockedOut hseg, Spid.receive, ← hseg, List.zip_map', List.filterMap_map]
  refine Buffer.scatter_of_mem (List.mem_filterMap.2 ⟨d, hd, ?_⟩) fun kb hkb hk => ?_
  · simp [hdir]
  · obtain ⟨d', hd', hkb⟩ := List.mem_filterMap.1 hkb
    cases hdir' : d'.dir with
    | out => simp [hdir'] at hkb
    | inn =>
      simp only [Function.comp_apply, hdir', Option.some.injEq] at hkb
      subst hkb
      have hseg' : d'.toSegment = d.toSegment :=
        planned_unique (hplan hd') (hplan hd) (hdir'.trans hdir.symm) hk
      have hlen : d'.len = d.len := congrArg Segment.len hseg'
      simp only [Desc.sends, hdir, hdir', hu d' hd' hdir' hk, hlen]

/-- **OUT.**  With agreement, the client buffer gets what `out_buf` holds. -/
theorem content_filled {s : Spid α}
    (hseg : l.bridge.chain.map Desc.toSegment = (l.planned rx fd).2)
    (hlen : ∀ g ∈ (l.planned rx fd).2, g.dir = .out → g.len ≤ (s.outBuf g.chan).length)
    {g : Segment} (hg : g ∈ (l.planned rx fd).2) (hdir : g.dir = .out)
    (hfit : g.len ≤ spidBufSize) :
    (filled l.outMem l.bridge.chain (Buffer.slices (l.bridge.chain.map fun d => d.len)
      (s.clockedOut (l.planned rx fd).2)) g.chan).content g.len =
      (s.outBuf g.chan).take g.len := by
  have hlens : (l.bridge.chain.map fun d => d.len) = (l.planned rx fd).2.map Segment.len := by
    rw [← hseg, List.map_map]
    rfl
  -- what the SoC clocks out is cut where the chain cuts it
  have hpieces : Buffer.slices ((l.planned rx fd).2.map Segment.len)
      (s.clockedOut (l.planned rx fd).2) = (l.planned rx fd).2.map s.sends := by
    rw [← List.append_nil (s.clockedOut _)]
    refine Buffer.slices_flatMap (fun g hg => ?_) []
    unfold Spid.sends
    cases hdir : g.dir
    · simpa using hlen g hg hdir
    · simp
  have hplan {d : Desc} (h : d ∈ l.bridge.chain) : d.toSegment ∈ (l.planned rx fd).2 :=
    hseg ▸ List.mem_map_of_mem h
  obtain ⟨d, hd, rfl⟩ : ∃ d ∈ l.bridge.chain, d.toSegment = g := by
    rw [← hseg] at hg
    exact List.mem_map.1 hg
  have hsend : s.sends d.toSegment = (s.outBuf d.chan).take d.len := by
    simp [Spid.sends, hdir]
  have hsendLen : (s.sends d.toSegment).length = d.len := by
    rw [hsend, List.length_take]
    exact Nat.min_eq_left (hlen _ hg hdir)
  -- no other descriptor of the chain writes to the buffer of this channel
  have hfill : filled l.outMem l.bridge.chain ((l.planned rx fd).2.map s.sends) d.chan =
      (l.outMem d.chan).write 0 (s.sends d.toSegment) := by
    rw [filled, ← hseg, List.map_map, ← List.map_prod_left_eq_zip, List.filterMap_map]
    refine Buffer.scatter_of_mem (List.mem_filterMap.2 ⟨d, hd, ?_⟩) fun kb hkb hk => ?_
    · have hdir : d.dir = .out := hdir
      simp [hdir]
    · obtain ⟨d', hd', hkb⟩ := List.mem_filterMap.1 hkb
      cases hdir' : d'.dir with
      | inn => simp [hdir'] at hkb
      | out =>
        simp only [Function.comp_apply, hdir', Option.some.injEq] at hkb
        subst hkb
        have hg' : d'.toSegment = d.toSegment :=
          planned_unique (hplan hd') (hplan hd) (hdir'.trans hdir.symm) hk
        show (l.outMem d'.toSegment.chan).write 0 (s.sends d'.toSegment) = _
        rw [hg']
  rw [hlens, hpieces, hfill, ← hsend, ← hsendLen]
  exact Cells.content_write_zero (hsendLen.le.trans hfit)

end Exchange

end Link

end TesselFirmware
