import TesselFirmware.Link.Transport

/-!
# One packet for each request

A client asks for a packet with `bridge_start_out`.  In orderly runs a packet comes only to a client
that has asked for one, and only one for each request: between the request and
`bridge_completion_out` the client has one request at the bridge, and otherwise none.

* `Link.Asked` : where the request is, and what each step does with it;
* `Link.Unasked` : a state in which the client can ask.
-/

namespace TesselFirmware

open Bridge ControlPkt Transport

variable {α : Type}

theorem count_completionOut_callbacks (w : Byte) (rx tx : ControlPkt) (ch : Chan) (n : ℕ) :
    (callbacks w (snapshotOf rx tx)).count (.completionOut ch n) ≤ 1 := by
  have hopen : (checkOpen w (snapshotOf rx tx) ch).toList.count (.completionOut ch n) = 0 :=
    List.count_eq_zero.2 fun hm => nomatch eq_open_of_checkOpen (Option.mem_toList.1 hm)
  have hclose : (checkClose w (snapshotOf rx tx) ch).toList.count (.completionOut ch n) = 0 :=
    List.count_eq_zero.2 fun hm => nomatch eq_close_of_checkClose (Option.mem_toList.1 hm)
  have hfilter := List.count_filter (p := fun cb : Callback => cb.chan = ch)
    (l := callbacks w (snapshotOf rx tx)) (a := .completionOut ch n) (decide_eq_true rfl)
  have hout : (if movesOut rx tx ch then [Callback.completionOut ch (rx.size ch).toNat]
      else []).count (.completionOut ch n) ≤ 1 := by
    split_ifs
    · exact List.count_le_length
    · exact Nat.zero_le 1
  have hinn : (if movesIn rx tx ch then [Callback.completionIn ch] else []).count
      (.completionOut ch n) = 0 := by
    split_ifs
    · rfl
    · rfl
  rw [← hfilter, callbacks_chan, List.count_append, List.count_append, List.count_append, hopen,
    hinn, hclose]
  omega

theorem len_of_mem_callbacks {w : Byte} {rx tx : ControlPkt} {ch : Chan} {len : ℕ}
    (h : .completionOut ch len ∈ callbacks w (snapshotOf rx tx)) : len = (rx.size ch).toNat := by
  have hm : Callback.completionOut ch len ∈
      (callbacks w (snapshotOf rx tx)).filter (·.chan = ch) :=
    List.mem_filter.2 ⟨h, decide_eq_true rfl⟩
  rw [callbacks_chan] at hm
  simp only [List.mem_append, Option.mem_toList] at hm
  obtain ((hm | hm) | hm) | hm := hm
  · cases eq_open_of_checkOpen hm
  · cases List.mem_singleton.1 (List.mem_ite_nil_right.1 hm).2
    rfl
  · cases List.mem_singleton.1 (List.mem_ite_nil_right.1 hm).2
  · cases eq_close_of_checkClose hm

/-- Only `bridge_start_out` asks for a packet. -/
theorem ready_of_ready_call {b : Bridge} {ch : Chan} {c : Call} (hc : ∀ data, c ≠ .startOut ch data)
    (h : (b.call c).ready ch) : b.ready ch := by
  have h0 : (ch : ℕ) < 8 := by omega
  cases c with
  | startIn d data n => exact h
  | startOut d data =>
    have hne : ¬ (d : ℕ) = ch := fun he => hc data (Fin.ext he ▸ rfl)
    have hd : (d : ℕ) < 8 := by omega
    simpa [Bridge.call, startOut, Bridge.ready, hd, h0, hne] using h
  | enableChan d =>
    have hne : ¬ (d : ℕ) + 4 = ch := by omega
    have hd : (d : ℕ) + 4 < 8 := by omega
    simpa [Bridge.call, enableChan, Bridge.ready, hd, h0, hne] using h
  | disableChan d =>
    have hd : (d : ℕ) < 8 := by omega
    have hd' : (d : ℕ) + 4 < 8 := by omega
    have h' : Byte.has (Byte.clear (Byte.clear b.outChanReady d) (d + 4)) ch = true := h
    rw [Byte.has_clear _ hd' h0, Byte.has_clear _ hd h0, Bool.and_eq_true, Bool.and_eq_true] at h'
    exact h'.1.1

namespace Link

variable {dummy : α} {l l' : Link α} {rx : ControlPkt} {ch : Chan} {asked : Bool}

/-- The request of a client, with `asked` for a client that waits for its packet: the bridge has it,
or has taken it and is going to report the packet, and never both. -/
structure Asked (l : Link α) (ch : Chan) (asked : Bool) : Prop where
  ready : l.bridge.ready ch → asked
  shown : Shown l l.phase → l.bridge.ctrlTx.ready ch → asked
  high : ∀ rx, l.phase = .high rx → movesOut l.bridge.ctrlRx l.bridge.ctrlTx ch →
    l.bridge.ready ch = false
  due : l.handler = .idle → l.bridge.rxDone → movesOut l.bridge.ctrlRx l.bridge.ctrlTx ch →
    asked ∧ l.bridge.ready ch = false
  todo : ∀ todo, l.handler = .running todo → ∀ len, .completionOut ch len ∈ todo →
    asked ∧ l.bridge.ready ch = false ∧ len = (l.bridge.ctrlRx.size ch).toNat ∧ len ≠ 0
  once : ∀ todo, l.handler = .running todo →
    todo.count (.completionOut ch (l.bridge.ctrlRx.size ch).toNat) ≤ 1

/-- The client has not asked, or the callbacks that remain report no packet to it. -/
def Unasked (l : Link α) (ch : Chan) : Prop :=
  l.Asked ch false ∨ ∃ todo, l.handler = .running todo ∧ ∀ len, .completionOut ch len ∉ todo

theorem ready_of_movesOut {rx tx : ControlPkt} (h : movesOut rx tx ch) : tx.ready ch := by
  rw [movesOut, Bool.and_eq_true] at h
  exact h.1

/-- While the handler is at work, nothing is under way. -/
theorem InOrder.not_movesOut_of_running (ho : l.InOrder) {todo : List Callback}
    (hrun : l.handler = .running todo) (hphase : l.phase = .high rx) :
    ¬ movesOut l.bridge.ctrlRx l.bridge.ctrlTx ch := by
  intro hm
  have hc := ho.chain_ne_nil hphase (.inl hm)
  cases (ho.settled_of_chain hphase hc).handler.symm.trans hrun

/-- A client to which no packet is going to be reported can wait for the next one. -/
theorem asked_of_running (ho : l.InOrder) {todo : List Callback}
    (hrun : l.handler = .running todo) (hno : ∀ len, .completionOut ch len ∉ todo) :
    l.Asked ch true where
  ready _ := rfl
  shown _ _ := rfl
  high rx hphase hm := absurd hm (ho.not_movesOut_of_running hrun hphase)
  due hidle := nomatch hidle.symm.trans hrun
  todo todo' hrun' len hm := by
    cases hrun.symm.trans hrun'
    exact absurd hm (hno len)
  once todo' hrun' := by
    cases hrun.symm.trans hrun'
    rw [List.count_eq_zero.2 (hno _)]
    exact Nat.zero_le 1

/-! ### Calls -/

/-- A call that does not ask for a packet of the channel. -/
theorem Asked.call (h : l.Asked ch asked) {c : Call}
    (hready : (l.bridge.call c).ready ch → l.bridge.ready ch) :
    Asked { l with bridge := l.bridge.call c } ch asked := by
  have hno (hr : l.bridge.ready ch = false) : (l.bridge.call c).ready ch = false := by
    refine Bool.eq_false_of_not_eq_true fun hc => ?_
    rw [hready hc] at hr
    cases hr
  obtain ⟨hask, hshown, hhigh, hdue, htodo, honce⟩ := h
  refine ⟨fun hr => hask (hready hr), ?_, fun rx hphase hm => hno ?_, fun hidle hd hm => ?_,
    fun todo hrun len hm => ?_, ?_⟩
  · cases c <;> exact hshown
  · refine hhigh rx hphase ?_
    cases c <;> exact hm
  · obtain ⟨ha, hr⟩ := hdue hidle (by cases c <;> exact hd) (by cases c <;> exact hm)
    exact ⟨ha, hno hr⟩
  · obtain ⟨ha, hr, hlen, hne⟩ := htodo todo hrun len hm
    refine ⟨ha, hno hr, ?_, hne⟩
    cases c <;> exact hlen
  · cases c <;> exact honce

/-- A request that comes when there is none. -/
theorem Asked.ask (h : l.Asked ch false) (ho : l.InOrder) (data : ℕ) :
    Asked { l with bridge := l.bridge.call (.startOut ch data) } ch true where
  ready _ := rfl
  shown _ _ := rfl
  high rx hphase hm := by
    have hc := ho.chain_ne_nil hphase (.inl hm)
    cases h.shown (by rw [hphase]; exact hc) (ready_of_movesOut hm)
  due hidle hd hm := nomatch (h.due hidle hd hm).1
  todo todo hrun len hm := nomatch (h.todo todo hrun len hm).1
  once := h.once

/-- **A client that can ask gets a request through.** -/
theorem Unasked.ask (h : l.Unasked ch) (ho : l.InOrder) (data : ℕ) :
    Asked { l with bridge := l.bridge.call (.startOut ch data) } ch true := by
  obtain h | ⟨todo, hrun, hno⟩ := h
  · exact h.ask ho data
  · have ho' : InOrder { l with bridge := l.bridge.call (.startOut ch data) } :=
      ho.call (.startOut ch data)
    exact asked_of_running ho' hrun hno

theorem Unasked.call (h : l.Unasked ch) {c : Call}
    (hready : (l.bridge.call c).ready ch → l.bridge.ready ch) :
    Unasked { l with bridge := l.bridge.call c } ch :=
  h.imp (fun ha => ha.call hready) id

/-! ### Transactions -/

theorem Asked.syncLow (h : l.Asked ch asked) (hidle : l.handler = .idle) (p : Polls) :
    Asked { l with bridge := l.bridge.handleSyncLow, phase := .low p } ch asked where
  ready := h.ready
  shown _ := h.ready
  high := nofun
  due := nofun
  todo _ hrun := nomatch hidle.symm.trans hrun
  once _ hrun := nomatch hidle.symm.trans hrun

theorem Asked.setup (h : l.Asked ch asked) (ho : l.InOrder) {p : Polls} (hphase : l.phase = .low p)
    (sys : SysCalls) : Asked (l.setup p sys none none) ch asked := by
  have hset := ho.inPhase
  rw [hphase] at hset
  refine ⟨h.ready, fun _ => h.shown (by rw [hphase]; trivial), nofun, fun _ hd => ?_,
    fun todo hrun => ?_, fun todo hrun => ?_⟩
  · have hd' : l.bridge.rxDone = true := hd
    rw [hset.1.rxDone] at hd'
    cases hd'
  · cases hset.1.handler.symm.trans hrun
  · cases hset.1.handler.symm.trans hrun

/-- SYNC high takes the request that the headers agree on. -/
theorem Asked.syncHigh (h : l.Asked ch asked) (ho : l.InOrder) (hphase : l.phase = .setup rx) :
    Asked { l with bridge := l.bridge.handleSyncHigh, phase := .high rx } ch asked := by
  have hset := ho.inPhase
  rw [hphase] at hset
  obtain ⟨hset, hcr⟩ := hset
  have hready := handleSyncHigh_ready hcr.header ch
  have htaken (hm : movesOut l.bridge.handleSyncHigh.ctrlRx l.bridge.handleSyncHigh.ctrlTx ch) :
      movesOut l.bridge.ctrlRx l.bridge.ctrlTx ch = true := by
    rw [handleSyncHigh_ctrlRx, handleSyncHigh_ctrlTx] at hm
    exact hm
  refine ⟨fun hr => h.ready ?_, fun _ hr => ?_, fun rx' _ hm => ?_, fun _ hd hm => ?_,
    fun todo hrun => ?_, fun todo hrun => ?_⟩
  · have hr' : l.bridge.handleSyncHigh.ready ch = true := hr
    rw [hready, Bool.and_eq_true] at hr'
    exact hr'.1
  · refine h.shown (by rw [hphase]; trivial) ?_
    have hr' : l.bridge.handleSyncHigh.ctrlTx.ready ch = true := hr
    rwa [handleSyncHigh_ctrlTx] at hr'
  · exact hready.trans (by rw [htaken hm, Bool.not_true, Bool.and_false])
  · -- the completion interrupt is raised here only when there is nothing to move
    have hm' := htaken hm
    have hd' : l.bridge.handleSyncHigh.rxDone = true := hd
    have hc : l.bridge.plannedChain ≠ [] := fun hc => by
      have hno := (segments_eq_nil_iff.1 (plannedChain_eq_nil_iff.1 hc) ch).1
      rw [hm'] at hno
      cases hno
    rw [handleSyncHigh_of_cmd hcr.header] at hd'
    dsimp only at hd'
    rw [if_pos hc] at hd'
    cases hd'
  · cases hset.handler.symm.trans hrun
  · cases hset.handler.symm.trans hrun

/-- The end of a pass: the packet is going to be reported. -/
theorem Asked.transfer (h : l.Asked ch asked) (ho : l.InOrder) (hphase : l.phase = .high rx)
    (ha : l.Agrees rx) (sys : SysCalls) (mem : Desc → List α) (pad : List α) :
    (l.transfer dummy rx sys mem pad).Asked ch asked := by
  obtain ⟨-, he⟩ | ⟨hc, he⟩ := ho.transfer_cases hphase ha dummy sys mem pad
  · rw [he]
    exact ⟨h.ready, nofun, nofun, h.due, h.todo, h.once⟩
  · rw [he]
    refine ⟨h.ready, nofun, nofun, fun _ _ hm => ⟨?_, h.high rx hphase hm⟩, h.todo, h.once⟩
    exact h.shown (by rw [hphase]; exact hc) (ready_of_movesOut hm)

/-- Until the client gets to work, it can ask as before. -/
theorem Unasked.syncLow (h : l.Unasked ch) (hidle : l.handler = .idle) (p : Polls) :
    Unasked { l with bridge := l.bridge.handleSyncLow, phase := .low p } ch := by
  obtain h | ⟨todo, hrun, -⟩ := h
  · exact .inl (h.syncLow hidle p)
  · cases hidle.symm.trans hrun

theorem Unasked.setup (h : l.Unasked ch) (ho : l.InOrder) {p : Polls} (hphase : l.phase = .low p)
    (sys : SysCalls) : (l.setup p sys none none).Unasked ch :=
  h.imp (fun ha => ha.setup ho hphase sys) id

theorem Unasked.syncHigh (h : l.Unasked ch) (ho : l.InOrder) (hphase : l.phase = .setup rx) :
    Unasked { l with bridge := l.bridge.handleSyncHigh, phase := .high rx } ch :=
  h.imp (fun ha => ha.syncHigh ho hphase) id

theorem Unasked.transfer (h : l.Unasked ch) (ho : l.InOrder) (hphase : l.phase = .high rx)
    (ha : l.Agrees rx) (sys : SysCalls) (mem : Desc → List α) (pad : List α) :
    (l.transfer dummy rx sys mem pad).Unasked ch := by
  refine h.imp (fun h => h.transfer ho hphase ha sys mem pad) fun ⟨todo, hrun, hno⟩ => ?_
  obtain ⟨-, he⟩ | ⟨-, he⟩ := ho.transfer_cases hphase ha dummy sys mem pad
  · rw [he]
    exact ⟨todo, hrun, hno⟩
  · rw [he]
    exact ⟨todo, hrun, hno⟩

/-! ### The completion handler -/

theorem Asked.copy (h : l.Asked ch asked) (ho : l.InOrder) (hidle : l.handler = .idle)
    (hdone : l.bridge.rxDone) : l.copy.Asked ch asked := by
  have he : l.copy =
      { l with handler := .running (callbacks l.bridge.wasOpen l.bridge.takeSnapshot) } :=
    if_pos (ho.data hdone)
  rw [he]
  refine ⟨h.ready, h.shown, h.high, nofun, fun todo hrun len hm => ?_, fun todo hrun => ?_⟩
  · cases hrun
    have hmoves := mem_callbacks_completionOut hm
    obtain ⟨ha, hr⟩ := h.due hidle hdone hmoves
    have hlen := len_of_mem_callbacks hm
    refine ⟨ha, hr, hlen, fun h0 => ?_⟩
    rw [movesOut, Bool.and_eq_true, bne_iff_ne] at hmoves
    exact hmoves.2 (BitVec.eq_of_toNat_eq (hlen.symm.trans h0))
  · cases hrun
    exact count_completionOut_callbacks _ _ _ ch _

/-- A callback that reports no packet of the channel. -/
theorem Asked.callback (h : l.Asked ch asked) {cb : Callback} {todo : List Callback}
    (hrun : l.handler = .running (cb :: todo)) :
    Asked { l with handler := .running todo } ch asked where
  ready := h.ready
  shown := h.shown
  high := h.high
  due := nofun
  todo todo' hrun' len hm := by
    cases hrun'
    exact h.todo _ hrun len (List.mem_cons_of_mem _ hm)
  once todo' hrun' := by
    cases hrun'
    exact List.count_le_count_cons.trans (h.once _ hrun)

/-- The packet is reported, and the client can ask for the next one. -/
theorem Asked.completed (h : l.Asked ch asked) (ho : l.InOrder) {len : ℕ} {todo : List Callback}
    (hrun : l.handler = .running (.completionOut ch len :: todo)) :
    Asked { l with handler := .running todo } ch false := by
  obtain ⟨-, hready, hlen, -⟩ := h.todo _ hrun len List.mem_cons_self
  have hno : ∀ len', .completionOut ch len' ∉ todo := by
    intro len' hm
    obtain ⟨-, -, hlen', -⟩ := h.todo _ hrun len' (List.mem_cons_of_mem _ hm)
    have honce := h.once _ hrun
    rw [← hlen, List.count_cons_self] at honce
    have := List.one_le_count_iff.2 (hlen'.trans hlen.symm ▸ hm)
    omega
  refine ⟨fun hr => ?_, fun hs => ?_, h.high, nofun, fun todo' hrun' len' hm => ?_, ?_⟩
  · have hr' : l.bridge.ready ch = true := hr
    rw [hready] at hr'
    cases hr'
  · cases (ho.settled_of_shown hs).handler.symm.trans hrun
  · cases hrun'
    exact absurd hm (hno len')
  · exact (h.callback hrun).once

theorem Asked.writeBack (h : l.Asked ch asked) :
    Asked { l with bridge := l.bridge.writeBack, handler := .idle } ch asked :=
  ⟨h.ready, h.shown, h.high, nofun, nofun, nofun⟩

end Link

end TesselFirmware
