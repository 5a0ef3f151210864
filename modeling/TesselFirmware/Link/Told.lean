import TesselFirmware.Link.Transport

/-!
# What the client of a channel has been told

The clients of the bridge learn of their connections by `bridge_open` and `bridge_close`.

* `Link.told` : the last of the two, and `Link.told_step`;
* `Link.Unheard` : nothing is moved on a connection of which the client has not been told, and
  `Link.Unheard.step`.
-/

namespace TesselFirmware

open Bridge ControlPkt Transport

variable {α : Type}

/-- Nothing has been moved on the connection. -/
structure ChanState.Silent (c : ChanState α) : Prop where
  received : c.received = []
  written : c.written = []
  outLength : c.outLength = 0

namespace Link

variable {dummy : α} {l l' : Link α} {rx : ControlPkt} {ch : Chan}

/-! ### Open and close -/

/-- What the client has been told last of its connection. -/
def told (l : Link α) (ch : Chan) : Bool :=
  match l.handler with
  | .idle => l.wasOpen ch
  | .running todo =>
    if todo.filterMap (Preempt.edgeOf ch) = [] then l.bridge.ctrlRx.connected ch
    else l.wasOpen ch

theorem told_of_idle (h : l.handler = .idle) : l.told ch = l.wasOpen ch := by
  unfold told
  rw [h]

theorem told_of_running {todo : List Callback} (h : l.handler = .running todo) : l.told ch =
    if todo.filterMap (Preempt.edgeOf ch) = [] then l.bridge.ctrlRx.connected ch
    else l.wasOpen ch := by
  unfold told
  rw [h]

theorem told_congr (h : l.handler = .idle) (h' : l'.handler = l.handler)
    (hw : l'.wasOpen ch = l.wasOpen ch) : l'.told ch = l.told ch := by
  rw [told_of_idle h, told_of_idle (h'.trans h), hw]

theorem told_call (c : Call) : told { l with bridge := l.bridge.call c } ch = l.told ch := by
  unfold told
  cases c <;> rfl

/-- A callback tells the client what it reports. -/
theorem told_callback (h : l.Opening ch) {cb : Callback} {todo : List Callback}
    (hrun : l.handler = .running (cb :: todo)) :
    told { l with handler := .running todo } ch = (Preempt.edgeOf ch cb).getD (l.told ch) := by
  obtain ⟨-, hedges⟩ := h.todo _ hrun
  rw [told_of_running hrun, told_of_running rfl]
  rw [List.filterMap_cons] at hedges ⊢
  cases hcb : Preempt.edgeOf ch cb with
  | none => rfl
  | some b =>
    rw [hcb] at hedges
    obtain hedges | hedges := hedges
    · cases hedges
    · split_ifs at hedges
      obtain ⟨rfl, hrest⟩ := List.cons.inj hedges
      exact if_pos hrest

/-- A connection is reported to a client that has not been told of it. -/
theorem Opening.closed_of_open (h : l.Opening ch) {todo : List Callback}
    (hrun : l.handler = .running (.open ch :: todo)) : l.wasOpen ch = false := by
  obtain ⟨-, hedges⟩ := h.todo _ hrun
  have hedge : Preempt.edgeOf ch (.open ch) = some true := if_pos rfl
  rw [List.filterMap_cons, hedge] at hedges
  obtain hedges | hedges := hedges
  · cases hedges
  · split_ifs at hedges with heq
    rw [← (List.cons.inj hedges).1] at heq
    exact Bool.eq_false_of_not_eq_true fun hw => heq hw.symm

/-- **Only a callback tells the client something.** -/
theorem told_step (ho : l.InOrder) (lab : LinkLabel α) (hok : l.Orderly lab)
    (hcb : lab ≠ .callback) (hst : step dummy l lab = some l') : l'.told ch = l.told ch := by
  cases lab with
  | callback => exact absurd rfl hcb
  | syncLow p =>
    obtain ⟨-, -, rfl⟩ := step_syncLow.1 hst
    exact told_congr hok.1 rfl rfl
  | setup sys toMcu toSoc =>
    obtain ⟨p, hphase, rfl⟩ := step_setup.1 hst
    have hset := ho.inPhase
    rw [hphase] at hset
    exact told_congr hset.1.handler rfl rfl
  | syncHigh =>
    obtain ⟨rx, hphase, rfl⟩ := step_syncHigh.1 hst
    have hset := ho.inPhase
    rw [hphase] at hset
    refine told_congr hset.1.handler rfl ?_
    exact congrArg (fun w => Byte.has w (ch + 4)) (handleSyncHigh_wasOpen l.bridge)
  | transfer sys mem pad =>
    obtain ⟨rx, hphase, rfl⟩ := step_transfer.1 hst
    obtain ⟨-, he⟩ | ⟨-, he⟩ := ho.transfer_cases hphase (hok rx hphase) dummy sys mem pad
    · rw [he]
      rfl
    · rw [he]
      rfl
  | copy =>
    obtain ⟨hidle, hdone, rfl⟩ := step_copy.1 hst
    have he : l.copy =
        { l with handler := .running (callbacks l.bridge.wasOpen l.bridge.takeSnapshot) } :=
      if_pos (ho.data hdone)
    rw [he, told_of_running rfl, told_of_idle hidle, Preempt.callbacks_edges]
    by_cases heq : l.bridge.ctrlRx.connected ch = l.wasOpen ch
    · exact (if_pos (if_pos heq)).trans heq
    · exact if_neg fun hnil => List.cons_ne_nil _ _ ((if_neg heq).symm.trans hnil)
  | writeBack =>
    obtain ⟨hrun, rfl⟩ := step_writeBack.1 hst
    rw [told_of_running hrun, told_of_idle rfl]
    exact Preempt.has_connected _ ch
  | call c =>
    cases hst
    exact told_call c

/-! ### Connections that the client has not been told of -/

/-- While the client has not been told of the connection, nothing is moved on it: neither a header
nor a callback announces a packet. -/
structure Unheard (l : Link α) (ch : Chan) : Prop where
  alive : l.phase ≠ .dead
  silent : (l.spid.chan ch).opened → l.wasOpen ch = false → (l.spid.chan ch).Silent
  shown : Exchanged l l.phase → l.bridge.ctrlRx.size ch ≠ 0#8 → l.wasOpen ch
  due : l.handler = .idle → l.bridge.rxDone → l.bridge.ctrlRx.size ch ≠ 0#8 → l.wasOpen ch
  todo : ∀ todo, l.handler = .running todo → ∀ len, .completionOut ch len ∈ todo → l.wasOpen ch

theorem unheard_init (ch : Chan) : (init : Link α).Unheard ch where
  alive := nofun
  silent ho := by
    have ho' : Byte.has 0#8 ch = true := ho
    rw [Byte.has_zero] at ho'
    cases ho'
  shown := nofun
  due := nofun
  todo := nofun

/-- A listening channel keeps what has been moved on its connection, or the connection is closed. -/
theorem manage_of_opened {c : ChanState α} (hch : ch ≠ usbdChannel) {connected : Bool} {fd : ℕ}
    (ho : (c.manage ch connected fd).opened) : c.opened ∧
      (c.manage ch connected fd).received = c.received ∧
      (c.manage ch connected fd).written = c.written ∧
      (c.manage ch connected fd).outLength = c.outLength := by
  unfold ChanState.manage at ho ⊢
  split_ifs at ho ⊢
  · exact ⟨ho, rfl, rfl, rfl⟩
  · exact ⟨ho, rfl, rfl, rfl⟩
  · cases ho

/-- A pass writes nothing to a connection that the headers move nothing in on. -/
theorem InOrder.written_of_not_movesIn (h : l.InOrder) (hphase : l.phase = .high rx)
    (ha : l.Agrees rx) (sys : SysCalls) (mem : Desc → List α) (pad : List α)
    (hm : movesIn l.bridge.ctrlRx l.bridge.ctrlTx ch = false) :
    ((l.transfer dummy rx sys mem pad).spid.chan ch).written =
      (l.managed rx sys.socket ch).written := by
  have hplan : ((l.planned rx sys.socket).1.chan ch).written =
        (l.managed rx sys.socket ch).written ∧
      ((l.planned rx sys.socket).1.chan ch).writable = (l.managed rx sys.socket ch).writable := by
    rw [planned_chan]
    unfold ChanState.plan
    split_ifs <;> exact ⟨rfl, rfl⟩
  obtain ⟨-, he⟩ | ⟨-, he⟩ := h.transfer_cases hphase ha dummy sys mem pad
  · rw [he]
    exact hplan.1
  · rw [he, Spid.chan_writeReceived, Spid.chan_receive, ChanState.write]
    dsimp only
    rw [if_neg, hplan.1]
    rw [hplan.2, ← h.movesIn_iff hphase ha sys.socket ch, hm]
    exact Bool.false_ne_true

theorem Unheard.call (h : l.Unheard ch) (c : Call) :
    Unheard { l with bridge := l.bridge.call c } ch := by
  obtain ⟨halive, hsilent, hshown, hdue, htodo⟩ := h
  refine ⟨halive, ?_, ?_, ?_, ?_⟩
  · cases c <;> exact hsilent
  · cases c <;> exact hshown
  · cases c <;> exact hdue
  · cases c <;> exact htodo

/-- A connection that is accepted starts in silence, and so does its first header. -/
theorem Unheard.setup (ho : l.InOrder) (hopen : l.Opening ch) {p : Polls}
    (hphase : l.phase = .low p) (sys : SysCalls) : (l.setup p sys none none).Unheard ch := by
  have hfol := hopen.phase
  have hset := ho.inPhase
  rw [hphase] at hfol hset
  obtain ⟨hsock, hin, hout, -⟩ := ho.polls p hphase ch
  have hserve := Spid.chan_serve l.spid p sys ch
  have hsound := (ho.spid.serve (ho.polls p hphase) sys) ch
  have hcases := (ho.spid ch).keeps_or_fresh_serve sys hsock hin hout
  rw [← hserve] at hcases
  have hsilent : ((l.spid.serve p sys).chan ch).opened → l.wasOpen ch = false →
      ((l.spid.serve p sys).chan ch).Silent := by
    intro hopened hw
    obtain hk | hf := hcases
    · obtain ⟨bytes, hc⟩ := hk.continues hopened
      rw [hfol.1 hc.opened] at hw
      cases hw
    · exact ⟨hf.received, hf.written, hf.outLength⟩
  have hsize : (l.spid.serve p sys).header.size ch ≠ 0#8 → l.wasOpen ch := by
    intro hz
    by_contra hw
    have hw' := Bool.eq_false_of_not_eq_true hw
    have hlen : ((l.spid.serve p sys).chan ch).outLength = 0 := by
      cases hopened : ((l.spid.serve p sys).chan ch).opened with
      | true => exact (hsilent hopened hw').outLength
      | false => exact hsound.empty hopened
    exact hz (congrArg (BitVec.ofNat 8) hlen)
  refine ⟨nofun, hsilent, fun _ => hsize, fun _ _ => hsize, fun todo hrun => ?_⟩
  cases hset.1.handler.symm.trans hrun

theorem Unheard.syncHigh (h : l.Unheard ch) (ho : l.InOrder) (hphase : l.phase = .setup rx) :
    Unheard { l with bridge := l.bridge.handleSyncHigh, phase := .high rx } ch := by
  have hset := ho.inPhase
  rw [hphase] at hset
  have hw : Byte.has l.bridge.handleSyncHigh.wasOpen (ch + 4) = l.wasOpen ch := by
    rw [handleSyncHigh_wasOpen]
    rfl
  have hsize : l.bridge.handleSyncHigh.ctrlRx.size ch ≠ 0#8 →
      Byte.has l.bridge.handleSyncHigh.wasOpen (ch + 4) := by
    rw [hw, handleSyncHigh_ctrlRx]
    exact h.shown (by rw [hphase]; trivial)
  refine ⟨nofun, fun hopened hno => ?_, fun _ => hsize, fun _ _ => hsize, fun todo hrun => ?_⟩
  · exact h.silent hopened (hw.symm.trans hno)
  · cases hset.1.handler.symm.trans hrun

/-- The data phase moves nothing in on a connection that the client has not been told of. -/
theorem Unheard.transfer (h : l.Unheard ch) (ho : l.InOrder) (hopen : l.Opening ch)
    (hch : ch ≠ usbdChannel) (hphase : l.phase = .high rx) (ha : l.Agrees rx) (sys : SysCalls)
    (mem : Desc → List α) (pad : List α) : (l.transfer dummy rx sys mem pad).Unheard ch := by
  have hp := hopen.phase
  rw [hphase] at hp
  have hchan := ho.chan_transfer hphase ha dummy sys mem pad ch
  have hwritten (hm : movesIn l.bridge.ctrlRx l.bridge.ctrlTx ch = false) :
      ((l.transfer dummy rx sys mem pad).spid.chan ch).written =
        (l.managed rx sys.socket ch).written :=
    ho.written_of_not_movesIn hphase ha sys mem pad hm
  have hcases := ho.transfer_cases hphase ha dummy sys mem pad
  have hplan : ((l.managed rx sys.socket ch).plan (rx.ready ch)).opened =
        (l.managed rx sys.socket ch).opened ∧
      ((l.managed rx sys.socket ch).plan (rx.ready ch)).received =
        (l.managed rx sys.socket ch).received ∧
      ((l.managed rx sys.socket ch).outLength = 0 →
        ((l.managed rx sys.socket ch).plan (rx.ready ch)).outLength = 0) := by
    unfold ChanState.plan
    split_ifs
    · exact ⟨rfl, rfl, fun _ => rfl⟩
    · exact ⟨rfl, rfl, id⟩
  have hsilent : ((l.transfer dummy rx sys mem pad).spid.chan ch).opened →
      l.wasOpen ch = false → ((l.transfer dummy rx sys mem pad).spid.chan ch).Silent := by
    intro hopened hw
    have hopened' : (l.managed rx sys.socket ch).opened = true := by
      rw [← hplan.1]
      rw [hchan] at hopened
      exact hopened
    obtain ⟨hbefore, hreceived, hkept, hlen⟩ := manage_of_opened hch hopened'
    have hs := h.silent hbefore hw
    have hno : movesIn l.bridge.ctrlRx l.bridge.ctrlTx ch = false := by
      refine Bool.eq_false_of_not_eq_true fun hm => ?_
      have hc := ho.chain_ne_nil hphase (.inr hm)
      rw [movesIn, Bool.and_eq_true] at hm
      rw [hp.1 hc hm.1] at hw
      cases hw
    refine ⟨?_, (hwritten hno).trans (hkept.trans hs.written), ?_⟩
    · rw [hchan]
      exact hplan.2.1.trans (hreceived.trans hs.received)
    · rw [hchan]
      exact hplan.2.2 (hlen.trans hs.outLength)
  have htop : Phase.top ≠ .dead := by
    rintro ⟨⟩
  obtain ⟨-, he⟩ | ⟨hc, he⟩ := hcases
  · rw [he] at hsilent ⊢
    exact ⟨htop, hsilent, False.elim, h.due, h.todo⟩
  · have hset := ho.settled_of_chain hphase hc
    rw [he] at hsilent ⊢
    exact ⟨htop, hsilent, False.elim, fun _ _ => h.shown (by rw [hphase]; exact hc), h.todo⟩

/-- When the handler has ended, the client has been told of every open connection. -/
theorem Opening.wasOpen_of_opened (h : l.Opening ch) (ho : l.InOrder) (hs : l.Settled)
    (hphase : l.phase = .top ∨ ∃ rx, l.phase = .high rx ∧ l.bridge.chain = [])
    (hopened : (l.spid.chan ch).opened) : l.wasOpen ch := by
  have hp := h.phase
  obtain htop | ⟨rx, hhigh, hc⟩ := hphase
  · rw [htop] at hp
    exact (hp.1 hs).1 hopened
  · rw [hhigh] at hp
    rw [← hp.2 hc hs, (ho.crossed hhigh).mcu, Spid.header_connected (ho.spid ch).stray]
    exact hopened

theorem Unheard.writeBack (h : l.Unheard ch) (ho : l.InOrder) (hopen : l.Opening ch)
    (hst : step dummy l .writeBack = some l') : l'.Unheard ch := by
  have ho' : l'.InOrder := ho.step (show l.Orderly .writeBack from trivial) hst
  have hopen' := hopen.writeBack ho hst
  obtain ⟨hrun, rfl⟩ := step_writeBack.1 hst
  have hs : ¬ l.Settled := fun hs => by simp [hs.handler] at hrun
  obtain ⟨hphase, hc⟩ | hdead := ho.unsettled hs
  · have htold := hopen'.wasOpen_of_opened ho' ⟨rfl, rfl⟩
      (hphase.imp id fun ⟨rx, hhigh, _⟩ => ⟨rx, hhigh, hc⟩)
    refine ⟨h.alive, fun hopened hw => ?_, fun hx => ?_, nofun, nofun⟩
    · rw [htold hopened] at hw
      cases hw
    · -- nothing that the headers agree on is left
      obtain htop | ⟨rx, hhigh, -⟩ := hphase
      · have hx' : Exchanged { l with bridge := l.bridge.writeBack, handler := .idle } l.phase := hx
        rw [htop] at hx'
        exact hx'.elim
      · have hx' : Exchanged { l with bridge := l.bridge.writeBack, handler := .idle } l.phase := hx
        rw [hhigh] at hx'
        exact absurd hc hx'
  · exact absurd hdead h.alive

/-- **Every orderly step** leaves alone what the client has not been told of. -/
theorem Unheard.step (h : l.Unheard ch) (ho : l.InOrder) (hopen : l.Opening ch)
    (hch : ch ≠ usbdChannel) {lab : LinkLabel α} (hok : l.Orderly lab)
    (hst : step dummy l lab = some l') : l'.Unheard ch := by
  cases lab with
  | syncLow p =>
    obtain ⟨-, -, rfl⟩ := step_syncLow.1 hst
    refine ⟨nofun, h.silent, nofun, nofun, fun todo hrun => ?_⟩
    cases hok.1.symm.trans hrun
  | setup sys toMcu toSoc =>
    obtain ⟨p, hphase, rfl⟩ := step_setup.1 hst
    obtain ⟨rfl, rfl⟩ := hok
    exact .setup ho hopen hphase sys
  | syncHigh =>
    obtain ⟨rx, hphase, rfl⟩ := step_syncHigh.1 hst
    exact h.syncHigh ho hphase
  | transfer sys mem pad =>
    obtain ⟨rx, hphase, rfl⟩ := step_transfer.1 hst
    exact h.transfer ho hopen hch hphase (hok rx hphase) sys mem pad
  | copy =>
    obtain ⟨hidle, hdone, rfl⟩ := step_copy.1 hst
    have he : l.copy =
        { l with handler := .running (callbacks l.bridge.wasOpen l.bridge.takeSnapshot) } :=
      if_pos (ho.data hdone)
    rw [he]
    refine ⟨h.alive, h.silent, h.shown, fun hi => ?_, fun todo hrun len hm => ?_⟩
    · cases hi
    cases hrun
    have hm' := mem_callbacks_completionOut hm
    rw [movesOut, Bool.and_eq_true, bne_iff_ne] at hm'
    exact h.due hidle hdone hm'.2
  | callback =>
    obtain ⟨cb, todo, hrun, rfl⟩ := step_callback.1 hst
    refine ⟨h.alive, h.silent, h.shown, fun hi => ?_, fun todo' hrun' len hm => ?_⟩
    · cases hi
    · cases hrun'
      exact h.todo _ hrun len (List.mem_cons_of_mem _ hm)
  | writeBack => exact h.writeBack ho hopen hst
  | call c =>
    cases hst
    exact h.call c

end Link

end TesselFirmware
