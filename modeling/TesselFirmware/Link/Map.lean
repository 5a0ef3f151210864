import TesselFirmware.Link.Order

/-!
# What the bytes of the MCU stand for

Neither `spid` nor the bridge looks at what the MCU sends.  When every byte of it is replaced by its
image under a function, a step of the link is a step again.

* `Link.map_setup`, `Link.map_transfer`, `Link.map_copy` : the steps that are more than a change of
  the bridge;
* `Link.InOrder.map` : what an orderly run keeps;
* `Link.transfer_congr` : the data phase takes from the client buffers only what it sends.
-/

namespace TesselFirmware

variable {α β : Type}

namespace Spid

variable (f : α → β) (s : Spid α)

/-- The same with other bytes of the MCU. -/
def map (f : α → β) (s : Spid α) : Spid β :=
  { s with
    inBuf := List.map f ∘ s.inBuf
    written := List.map f ∘ s.written }

theorem map_openConn (ch : Chan) (fd : ℕ) :
    (s.map f).openConn ch fd = (s.openConn ch fd).map f := by
  have hwritten : List.map f ∘ Function.update s.written ch [] =
      Function.update (List.map f ∘ s.written) ch [] := Function.comp_update _ _ _ _
  simp only [openConn, map, hwritten]

theorem map_serve (p : Polls) (sys : SysCalls) :
    (s.map f).serve p sys = (s.serve p sys).map f := by
  have haccept (s : Spid α) (ch : Chan) :
      acceptConn p sys (s.map f) ch = (acceptConn p sys s ch).map f := by
    unfold acceptConn
    split_ifs
    · rfl
    · rw [map_openConn]
      rfl
    · rfl
  have hread (bytes : List Byte) (s : Spid α) (ch : Chan) :
      readConn bytes (s.map f) ch = (readConn bytes s ch).map f := by
    unfold readConn
    dsimp only
    split_ifs <;> rfl
  have hserve (s : Spid α) (ch : Chan) :
      serveConn p sys (s.map f) ch = (serveConn p sys s ch).map f := by
    unfold serveConn
    dsimp only
    rw [hread]
    split_ifs <;> rfl
  unfold serve
  rw [List.foldl_hom (map f) haccept, List.foldl_hom (map f) hserve]

theorem map_manage (rx : ControlPkt) (fd : ℕ) :
    (s.map f).manageChannelActiveStatus rx fd = (s.manageChannelActiveStatus rx fd).map f := by
  refine List.foldl_hom (map f) fun s ch => ?_
  unfold manageChannel
  rw [show (s.map f).enabled = s.enabled from rfl]
  dsimp only
  split_ifs
  · rfl
  · rw [enableUsbDaemonSocket, map_openConn]
    rfl
  all_goals rfl

theorem map_planTransfer (rx : ControlPkt) : (s.map f).planTransfer rx =
    ((s.planTransfer rx).1.map f, (s.planTransfer rx).2) := by
  have hplan (a : Spid α × List Segment) (ch : Chan) :
      planChannel rx (Prod.map (map f) id a) ch = Prod.map (map f) id (planChannel rx a ch) := by
    obtain ⟨s, segs⟩ := a
    by_cases hout : rx.ready ch ∧ 0 < s.outLength ch
    · by_cases hin : getChannelBitmaskState s.writable ch ∧ 0 < (rx.size ch).toNat
      · simp [planChannel, map, hout, hin]
      · simp [planChannel, map, hout, hin]
    · by_cases hin : getChannelBitmaskState s.writable ch ∧ 0 < (rx.size ch).toNat
      · simp [planChannel, map, hout, hin]
      · simp [planChannel, map, hout, hin]
  show chans.foldl (planChannel rx) (Prod.map (map f) id (s, [])) = _
  rw [List.foldl_hom (Prod.map (map f) id) hplan]
  rfl

theorem map_receive (segs : List Segment) (pieces : List (List α)) :
    (s.map f).receive segs (pieces.map (List.map f)) = (s.receive segs pieces).map f := by
  have hin : ((s.map f).receive segs (pieces.map (List.map f))).inBuf =
      List.map f ∘ (s.receive segs pieces).inBuf := by
    unfold receive
    rw [Buffer.comp_scatter, List.zip_map_right, List.filterMap_map, List.map_filterMap]
    refine congrArg _ (List.filterMap_congr fun gp _ => ?_)
    obtain ⟨⟨dir, ch, len⟩, piece⟩ := gp
    cases dir <;> rfl
  exact congrArg (fun b => { s.map f with inBuf := b }) hin

theorem map_writeReceived (rx : ControlPkt) (sys : SysCalls) :
    (s.map f).writeReceived rx sys = (s.writeReceived rx sys).map f := by
  refine List.foldl_hom (map f) fun s ch => ?_
  unfold writeConn
  rw [show (s.map f).writable = s.writable from rfl]
  dsimp only
  split_ifs
  · have hwritten : Function.update (List.map f ∘ s.written) ch
        ((s.written ch).map f ++ (((s.inBuf ch).map f).take (rx.size ch).toNat).take
          (sys.write ch)) =
        List.map f ∘ Function.update s.written ch
          (s.written ch ++ ((s.inBuf ch).take (rx.size ch).toNat).take (sys.write ch)) := by
      rw [Function.comp_update, List.map_append, List.map_take, List.map_take]
    simp only [map, Function.comp_apply, hwritten]
  · rfl

end Spid

namespace Link

variable (f : α → β) (l : Link α)

/-- The same with other bytes of the MCU. -/
def map (f : α → β) (l : Link α) : Link β :=
  ⟨l.spid.map f, l.bridge, l.phase, l.handler, l.outMem⟩

theorem map_setup (p : Polls) (sys : SysCalls) (toMcu toSoc : Option ControlPkt) :
    (l.map f).setup p sys toMcu toSoc = (l.setup p sys toMcu toSoc).map f := by
  simp only [setup, map, Spid.map_serve]
  rfl

theorem map_copy : (l.map f).copy = l.copy.map f := by
  unfold copy
  split_ifs with h h' h' <;> first | rfl | exact absurd h h' | exact absurd h' h

theorem map_clockedOut (dummy : α) (mem : Desc → List α) (b : Bridge) :
    b.clockedOut (f dummy) (fun d => (mem d).map f) = (b.clockedOut dummy mem).map f := by
  unfold Bridge.clockedOut
  rw [List.map_flatMap]
  refine List.flatMap_congr fun d _ => ?_
  unfold Desc.sends
  cases d.dir with
  | out => exact List.map_replicate.symm
  | inn => rw [List.map_take, List.map_append, List.map_replicate]

theorem map_transfer (dummy : α) (rx : ControlPkt) (sys : SysCalls) (mem : Desc → List α)
    (pad : List α) : (l.map f).transfer (f dummy) rx sys (fun d => (mem d).map f) (pad.map f) =
      (l.transfer dummy rx sys mem pad).map f := by
  have hplanned (fd : ℕ) : (l.map f).planned rx fd =
      ((l.planned rx fd).1.map f, (l.planned rx fd).2) := by
    unfold planned
    rw [← Spid.map_planTransfer, show (l.map f).spid = l.spid.map f from rfl, Spid.map_manage]
    generalize l.spid.manageChannelActiveStatus rx fd = s
    rfl
  unfold transfer
  split_ifs with hcmd
  · rfl
  · rw [hplanned]
    generalize l.planned rx sys.socket = r
    obtain ⟨s, segs⟩ := r
    dsimp only
    split_ifs with hsegs
    · rfl
    · unfold exchange
      dsimp only
      rw [show (l.map f).bridge = l.bridge from rfl, map_clockedOut, ← List.map_append,
        Buffer.slices_map, Spid.map_receive, Spid.map_writeReceived]
      rfl

theorem InOrder.map {l : Link α} (h : l.InOrder) (f : α → β) : (l.map f).InOrder := by
  obtain ⟨⟨hspid, hpolls, hchain⟩, hdata, hphase⟩ := h
  have hsound (ch : Chan) : ((l.spid.map f).chan ch).Sound ch := by
    obtain ⟨h₁, h₂, h₃, h₄, h₅, h₆, h₇, h₈, h₉⟩ := hspid ch
    exact ⟨h₁, h₂, h₃, h₄, h₅, h₆, h₇, h₈, h₉⟩
  refine ⟨⟨hsound, hpolls, hchain⟩, hdata, ?_⟩
  show InPhase (l.map f) l.phase
  cases hp : l.phase with
  | dead => trivial
  | top =>
    rw [hp] at hphase
    exact hphase
  | low p =>
    rw [hp] at hphase
    exact ⟨⟨hphase.1.handler, hphase.1.rxDone⟩, hphase.2⟩
  | setup rx =>
    rw [hp] at hphase
    exact ⟨⟨hphase.1.handler, hphase.1.rxDone⟩, hphase.2.mcu, hphase.2.soc, hphase.2.cmd⟩
  | high rx =>
    rw [hp] at hphase
    refine ⟨⟨hphase.1.mcu, hphase.1.soc, hphase.1.cmd⟩, fun hc => ?_⟩
    exact ⟨⟨(hphase.2 hc).1.handler, (hphase.2 hc).1.rxDone⟩, (hphase.2 hc).2⟩

/-- The end of a pass depends on the client buffers only by what is sent, and on the system calls
only by the new socket and by how much is written. -/
theorem transfer_congr {l : Link α} {dummy : α} {rx : ControlPkt} {sys sys' : SysCalls}
    {mem mem' : Desc → List α} {pad : List α} (hsock : sys.socket = sys'.socket)
    (hwrite : sys.write = sys'.write)
    (hmem : ∀ d ∈ l.bridge.chain, d.sends dummy mem = d.sends dummy mem') :
    l.transfer dummy rx sys mem pad = l.transfer dummy rx sys' mem' pad := by
  have hsent : l.bridge.clockedOut dummy mem = l.bridge.clockedOut dummy mem' :=
    List.flatMap_congr hmem
  have hw (s : Spid α) : s.writeReceived rx sys = s.writeReceived rx sys' := by
    unfold Spid.writeReceived Spid.writeConn
    rw [hwrite]
  unfold transfer exchange
  simp only [hsock, hsent, hw]

end Link

end TesselFirmware
