import TesselFirmware.Link.Order

/-!
# What an orderly pass moves

The end of an orderly pass, one channel at a time: which bytes go from `out_buf` into the client
buffer, and which bytes of the client buffer are written to the connection.  Both follow from the
two headers alone (`movesOut`, `movesIn`), although `spid` acts on its own state.

* `Link.InOrder.written_transfer` : IN;
* `Link.InOrder.outMem_transfer` : OUT.
-/

namespace TesselFirmware

open Bridge ControlPkt

variable {α : Type}

namespace Link

variable {l : Link α} {rx : ControlPkt} {ch : Chan}

/-- With agreement, a segment of the headers is one of `spid`. -/
theorem InOrder.mem_segments_iff (h : l.InOrder) (hphase : l.phase = .high rx)
    (ha : l.Agrees rx) (fd : ℕ) {g : Segment} :
    g ∈ segments l.bridge.ctrlRx l.bridge.ctrlTx ↔ g ∈ (l.planned rx fd).2 := by
  rw [← h.chain_eq hphase ha fd, h.chain rx hphase (h.crossed hphase).header]

theorem InOrder.movesIn_iff (h : l.InOrder) (hphase : l.phase = .high rx) (ha : l.Agrees rx)
    (fd : ℕ) (ch : Chan) : movesIn l.bridge.ctrlRx l.bridge.ctrlTx ch ↔
      (l.managed rx fd ch).writable ∧ 0 < (rx.size ch).toNat := by
  have hg := h.mem_segments_iff hphase ha fd (g := ⟨.inn, ch, (rx.size ch).toNat⟩)
  rw [mem_segments, mem_planned, ← (h.crossed hphase).soc] at hg
  rw [← (h.crossed hphase).soc]
  simpa using hg

theorem InOrder.movesOut_iff (h : l.InOrder) (hphase : l.phase = .high rx) (ha : l.Agrees rx)
    (fd : ℕ) (ch : Chan) : movesOut l.bridge.ctrlRx l.bridge.ctrlTx ch ↔
      rx.ready ch ∧ 0 < (l.managed rx fd ch).outLength := by
  constructor
  · intro hm
    have hg : (⟨.out, ch, (l.bridge.ctrlRx.size ch).toNat⟩ : Segment) ∈ (l.planned rx fd).2 :=
      (h.mem_segments_iff hphase ha fd).1 (mem_segments.2 (.inl ⟨rfl, hm, rfl⟩))
    obtain ⟨-, hr, -⟩ | ⟨hd, -⟩ := mem_planned.1 hg
    · exact hr
    · cases hd
  · intro hr
    have hg : (⟨.out, ch, (l.managed rx fd ch).outLength⟩ : Segment) ∈ (l.planned rx fd).2 :=
      mem_planned.2 (.inl ⟨rfl, hr, rfl⟩)
    obtain ⟨-, hm, -⟩ | ⟨hd, -⟩ := mem_segments.1 ((h.mem_segments_iff hphase ha fd).2 hg)
    · exact hm
    · cases hd

/-- The length of an OUT segment is what `spid` has buffered. -/
theorem InOrder.size_of_movesOut (h : l.InOrder) (hphase : l.phase = .high rx) (ha : l.Agrees rx)
    (fd : ℕ) (hm : movesOut l.bridge.ctrlRx l.bridge.ctrlTx ch) :
    (l.bridge.ctrlRx.size ch).toNat = (l.managed rx fd ch).outLength := by
  have hg : (⟨.out, ch, (l.bridge.ctrlRx.size ch).toNat⟩ : Segment) ∈ (l.planned rx fd).2 :=
    (h.mem_segments_iff hphase ha fd).1 (mem_segments.2 (.inl ⟨rfl, hm, rfl⟩))
  obtain ⟨-, -, hlen⟩ | ⟨hd, -⟩ := mem_planned.1 hg
  · exact hlen
  · cases hd

/-- A segment of the headers has its descriptor in the DMA chain. -/
theorem InOrder.exists_desc (h : l.InOrder) (hphase : l.phase = .high rx) {g : Segment}
    (hg : g ∈ segments l.bridge.ctrlRx l.bridge.ctrlTx) :
    ∃ d ∈ l.bridge.chain, d.toSegment = g := by
  rw [← h.chain rx hphase (h.crossed hphase).header] at hg
  exact List.mem_map.1 hg

/-- **IN.**  An orderly pass writes to the connection what the MCU has sent in the IN segment of the
channel, if the headers have one, and nothing otherwise. -/
theorem InOrder.written_transfer (h : l.InOrder) (hphase : l.phase = .high rx) (ha : l.Agrees rx)
    (dummy : α) (sys : SysCalls) {mem : Desc → List α} (pad : List α)
    (hu : ∀ d ∈ l.bridge.chain, ∀ d' ∈ l.bridge.chain, d.dir = .inn → d'.dir = .inn →
      d.chan = ch → d'.chan = ch → mem d' = mem d) :
    (movesIn l.bridge.ctrlRx l.bridge.ctrlTx ch = false ∧
        (l.transfer dummy rx sys mem pad).spid.written ch =
          (l.managed rx sys.socket ch).written) ∨
      ∃ d ∈ l.bridge.chain, d.toSegment = ⟨.inn, ch, (l.bridge.ctrlTx.size ch).toNat⟩ ∧
        movesIn l.bridge.ctrlRx l.bridge.ctrlTx ch ∧
        (l.transfer dummy rx sys mem pad).spid.written ch =
          (l.managed rx sys.socket ch).written ++ (d.sends dummy mem).take (sys.write ch) := by
  have hsoc := (h.crossed hphase).soc
  have hplan : ((l.planned rx sys.socket).1.chan ch).written =
        (l.managed rx sys.socket ch).written ∧
      ((l.planned rx sys.socket).1.chan ch).writable = (l.managed rx sys.socket ch).writable := by
    rw [planned_chan]
    unfold ChanState.plan
    split_ifs <;> exact ⟨rfl, rfl⟩
  have hmoves : ((l.planned rx sys.socket).1.chan ch).writable ∧ 0 < (rx.size ch).toNat ↔
      movesIn l.bridge.ctrlRx l.bridge.ctrlTx ch := by
    rw [hplan.2, h.movesIn_iff hphase ha sys.socket ch]
  by_cases hm : movesIn l.bridge.ctrlRx l.bridge.ctrlTx ch = true
  · -- the segment is in the chain and in the data phase of `spid`
    obtain ⟨d, hd, hg⟩ := h.exists_desc hphase (mem_segments.2 (.inr ⟨rfl, hm, rfl⟩))
      (g := ⟨.inn, ch, (l.bridge.ctrlTx.size ch).toNat⟩)
    have hdir : d.dir = .inn := congrArg Segment.dir hg
    have hch : d.chan = ch := congrArg Segment.chan hg
    have hlen : d.len = (rx.size ch).toNat := (congrArg Segment.len hg).trans (by rw [hsoc])
    refine .inr ⟨d, hd, hg, hm, ?_⟩
    obtain ⟨hc, -⟩ | ⟨-, he⟩ := h.transfer_cases hphase ha dummy sys mem pad
    · rw [hc] at hd
      cases hd
    · have hin := receive_inBuf (l.planned rx sys.socket).1 dummy pad
        (h.chain_eq hphase ha sys.socket) hd hdir
        fun d' hd' hdir' hch' => hu d hd d' hd' hdir hdir' hch (hch'.trans hch)
      rw [he]
      rw [← Spid.chan_written, Spid.chan_writeReceived, Spid.chan_receive, ChanState.write,
        ← hplan.1]
      rw [hch] at hin
      dsimp only
      rw [if_pos (hmoves.2 hm), hin, ← hlen,
        List.take_of_length_le (d.length_sends dummy mem).le]
  · have hm' := Bool.eq_false_of_not_eq_true hm
    refine .inl ⟨hm', ?_⟩
    rw [← hplan.1]
    obtain ⟨-, he⟩ | ⟨-, he⟩ := h.transfer_cases hphase ha dummy sys mem pad
    · rw [he]
      rfl
    · rw [he, ← Spid.chan_written, Spid.chan_writeReceived, Spid.chan_receive, ChanState.write]
      dsimp only
      rw [if_neg (hm ∘ hmoves.1)]

/-- **OUT.**  An orderly pass puts what `spid` has buffered into the client buffer, if the headers
have an OUT segment for the channel. -/
theorem InOrder.outMem_transfer (h : l.InOrder) (hphase : l.phase = .high rx) (ha : l.Agrees rx)
    (dummy : α) (sys : SysCalls) (mem : Desc → List α) (pad : List α)
    (hm : movesOut l.bridge.ctrlRx l.bridge.ctrlTx ch) :
    ((l.transfer dummy rx sys mem pad).outMem ch).content (l.bridge.ctrlRx.size ch).toNat =
      (l.managed rx sys.socket ch).outBuf.take (l.managed rx sys.socket ch).outLength := by
  have hmem : (⟨.out, ch, (l.bridge.ctrlRx.size ch).toNat⟩ : Segment) ∈
      segments l.bridge.ctrlRx l.bridge.ctrlTx := mem_segments.2 (.inl ⟨rfl, hm, rfl⟩)
  obtain ⟨hc, -⟩ | ⟨-, he⟩ := h.transfer_cases hphase ha dummy sys mem pad
  · obtain ⟨d, hd, -⟩ := h.exists_desc hphase hmem
    rw [hc] at hd
    cases hd
  · have hout (g : Segment) : (l.planned rx sys.socket).1.outBuf g.chan =
        (l.managed rx sys.socket g.chan).outBuf := by
      rw [← Spid.chan_outBuf, planned_chan]
      unfold ChanState.plan
      split_ifs <;> rfl
    have hsound (c : Chan) : (l.managed rx sys.socket c).Sound c := (h.spid c).manage _ _
    have hfill := content_filled (l := l) (s := (l.planned rx sys.socket).1)
      (h.chain_eq hphase ha sys.socket) (fun g hg hdir => ?_)
      ((h.mem_segments_iff hphase ha sys.socket).1 hmem) rfl ?_
    · rw [he, ← h.size_of_movesOut hphase ha sys.socket hm, ← hout ⟨.out, ch, 0⟩]
      exact hfill
    · rw [hout]
      obtain ⟨-, -, hlen⟩ | ⟨hd, -⟩ := mem_planned.1 hg
      · exact hlen ▸ (hsound g.chan).outLength
      · rw [hd] at hdir
        cases hdir
    · have := (l.bridge.ctrlRx.size ch).isLt
      show (l.bridge.ctrlRx.size ch).toNat ≤ spidBufSize
      simp only [spidBufSize]
      omega

/-- A transfer that the headers agree on is in the DMA chain. -/
theorem InOrder.chain_ne_nil (h : l.InOrder) (hphase : l.phase = .high rx)
    (hm : movesOut l.bridge.ctrlRx l.bridge.ctrlTx ch ∨
      movesIn l.bridge.ctrlRx l.bridge.ctrlTx ch) : l.bridge.chain ≠ [] := by
  intro hc
  have hseg := h.chain rx hphase (h.crossed hphase).header
  rw [hc, List.map_nil] at hseg
  obtain ⟨hout, hinn⟩ := segments_eq_nil_iff.1 hseg.symm ch
  rw [hout, hinn] at hm
  obtain hm | hm := hm <;> cases hm

/-- The end of an orderly pass changes a channel beyond its plan only by what it writes to the
connection. -/
theorem InOrder.chan_transfer (h : l.InOrder) (hphase : l.phase = .high rx) (ha : l.Agrees rx)
    (dummy : α) (sys : SysCalls) (mem : Desc → List α) (pad : List α) (ch : Chan) :
    (l.transfer dummy rx sys mem pad).spid.chan ch =
      { (l.managed rx sys.socket ch).plan (rx.ready ch) with
        inBuf := ((l.transfer dummy rx sys mem pad).spid.chan ch).inBuf
        pollOut := ((l.transfer dummy rx sys mem pad).spid.chan ch).pollOut
        writable := ((l.transfer dummy rx sys mem pad).spid.chan ch).writable
        written := ((l.transfer dummy rx sys mem pad).spid.chan ch).written } := by
  obtain ⟨-, he⟩ | ⟨-, he⟩ := h.transfer_cases hphase ha dummy sys mem pad
  · rw [he, ← planned_chan]
  · rw [he, Spid.chan_writeReceived, Spid.chan_receive, ← planned_chan, ChanState.write]
    split_ifs <;> rfl

end Link

end TesselFirmware
