import TesselFirmware.Link.Delivery
import TesselFirmware.Port.Page
import TesselFirmware.System.Setup

/-!
# Sessions of a port

A session of a port starts when `port_enable` is called for a new connection.  What the bridge holds
of an earlier session can reach the new one: `port_disable` leaves a pending reply, and a reply that
the port still makes after it, with the bridge.

* `System.Isolated` : everything written to a connection comes from its own session, and so does
  every transfer whose completion a session sees;
* `System.isolated` : this holds in every orderly run in which no reply is pending when a port is
  enabled;
* `System.reply_delivered_late` : and otherwise a reply is delivered to the next client.
-/

namespace TesselFirmware

namespace System

open Bridge ControlPkt Link

variable {s t : System} {i j : Fin 2}

/-- The number of sessions of a port so far. -/
def session (s : System) (i : Fin 2) : ℕ := (s.ports i).session

/-- Each byte written to the current connection of a port belongs to the session that started after
the connection was accepted, and each in-completion completes a `bridge_start_in` of the session in
which it is made. -/
structure Isolated (s : System) : Prop where
  written : ∀ i, ∀ x ∈ s.link.spid.written (portChan i), x.session = s.base i + 1
  completed : ∀ c ∈ s.completedIn, c.2.2 = c.2.1

/-- The transactions are orderly, and nothing is pending on the channel of a port that is about to
be enabled. -/
def Isolating (s : System) : SystemLabel → Prop
  | .callback => ∀ i, s.nextCallback = some (.open (portChan i)) →
      s.link.bridge.inChanSize (portChan i) = 0#8
  | lab => ∀ l, s.onLink lab = some l → s.link.Orderly l

/-- All headers arrive as they were sent, and the handlers run to completion in order. -/
def Intact (s : System) : SystemLabel → Prop
  | .transfer _ _ => True
  | lab => ∀ l, s.onLink lab = some l → s.link.Orderly l

instance decidableForallSome {β : Type*} (o : Option β) (P : β → Prop) [DecidablePred P] :
    Decidable (∀ b, o = some b → P b) :=
  match o with
  | some b => decidable_of_iff (P b) ⟨fun hp _ hb => Option.some.inj hb ▸ hp, fun hp => hp b rfl⟩
  | none => isTrue nofun

instance (s : System) (lab : SystemLabel) : Decidable (s.Isolating lab) := by
  cases lab <;> unfold Isolating <;> infer_instance

instance (s : System) (lab : SystemLabel) : Decidable (s.Intact lab) := by
  cases lab <;> unfold Intact <;> infer_instance

/-! ### What follows the sessions through the bridge -/

/-- A transfer of `n` bytes that was started in session `o` belongs to the running session. -/
def Owns (s : System) (i : Fin 2) (o : ℕ) (n : Byte) : Prop :=
  o = s.session i ∧ (s.ports i).page.Owned n.toNat

/-- Whatever the bridge holds of a port belongs to its running session, and this session is the one
of the current connection once the connection has been reported to the port. -/
structure Sessions (s : System) (i : Fin 2) : Prop where
  page : (s.ports i).page.Sound
  queued : ∀ ptr n, .startIn (portChan i) ptr n ∈ s.queue → (s.ports i).page.Owned n.toNat
  pending : s.link.bridge.inChanSize (portChan i) ≠ 0#8 →
    s.Owns i (s.owner i) (s.link.bridge.inChanSize (portChan i))
  shown : Shown s.link s.link.phase → s.link.bridge.ctrlTx.size (portChan i) ≠ 0#8 →
    s.Owns i (s.snapOwner i) (s.link.bridge.ctrlTx.size (portChan i))
  due : s.link.handler = .idle → s.link.bridge.rxDone →
    movesIn s.link.bridge.ctrlRx s.link.bridge.ctrlTx (portChan i) → s.snapOwner i = s.session i
  todo : ∀ todo, s.link.handler = .running todo → .completionIn (portChan i) ∈ todo →
    s.copyOwner i = s.session i
  opened : s.link.wasOpen (portChan i) → s.session i = s.base i + 1
  awaited : s.link.handler = .idle → Exchanged s.link s.link.phase ∨ s.link.bridge.rxDone →
    s.link.bridge.ctrlRx.connected (portChan i) → s.link.wasOpen (portChan i) = false →
    s.session i = s.base i
  told : ∀ todo, s.link.handler = .running todo →
    s.link.bridge.ctrlRx.connected (portChan i) → s.link.wasOpen (portChan i) = false →
    s.session i =
      if todo.filterMap (Preempt.edgeOf (portChan i)) = [] then s.base i + 1 else s.base i
  written : ∀ x ∈ s.link.spid.written (portChan i), x.session = s.base i + 1
  completed : ∀ c ∈ s.completedIn, c.1 = i → c.2.2 = c.2.1

theorem portChan_ne_usbd (i : Fin 2) : portChan i ≠ usbdChannel := Fin.succ_ne_zero i

theorem sessions_init (answers : Fin 2 → ℕ → BitVec 16) (i : Fin 2) :
    (init answers).Sessions i where
  page := ⟨Page.owned_zero _, Nat.zero_le _⟩
  queued := nofun
  pending h := absurd rfl h
  shown := nofun
  due := nofun
  todo := nofun
  opened h := by
    have h' : Byte.has 0#8 (portChan i + 4) = true := h
    rw [Byte.has_zero] at h'
    cases h'
  awaited _ h := by
    obtain h | h := h
    · exact h.elim
    · cases h
  told := nofun
  written := nofun
  completed := nofun

/-! ### The ports -/

theorem mem_callsOf {es : List Effect} {c : Call} (h : c ∈ callsOf j es) :
    ∃ pc, .call pc ∈ es ∧ c = pc.toCall (portChan j) := by
  obtain ⟨e, he, hc⟩ := List.mem_filterMap.1 h
  cases e with
  | call pc =>
    cases hc
    exact ⟨pc, he, rfl⟩
  | action a => cases hc
  | enabled => cases hc
  | exec cmd => cases hc
  | reply b => cases hc
  | uartPacket p d => cases hc

theorem chan_toCall (pc : PortCall) (ch : Chan) : (pc.toCall ch).chan = ch := by
  cases pc <;> rfl

theorem portChan_injective : Function.Injective portChan := Fin.succ_injective 2

/-- A handler of a port passes at most its reply to `bridge_start_in`. -/
theorem startIn_mem_handlePort {p : PortData} {e : PortEvent} {n : ℕ}
    (hem : PortData.Emits (PortData.startsAtMost n) p (p.handle e)) {ptr : ℕ} {len : Byte}
    (h : .startIn (portChan i) ptr len ∈ callsOf j ((p.handle e).effects.drop p.effects.length)) :
    i = j ∧ len.toNat ≤ n := by
  obtain ⟨es, hes, he⟩ := hem.effects
  rw [he, List.drop_left] at h
  obtain ⟨pc, hpc, hc⟩ := mem_callsOf h
  have hch : portChan i = portChan j := (congrArg Call.chan hc).trans (chan_toCall pc _)
  refine ⟨portChan_injective hch, ?_⟩
  cases pc with
  | startIn bs =>
    have hlen : len = BitVec.ofNat 8 bs.length := by
      simp only [PortCall.toCall, Call.startIn.injEq] at hc
      exact hc.2.2
    have hbs : bs.length ≤ n := hes _ hpc
    rw [hlen, BitVec.toNat_ofNat]
    exact (Nat.mod_le _ _).trans hbs
  | startOut => cases hc
  | enableChan => cases hc
  | disableChan => cases hc

theorem handlePort_ports (s : System) (e : PortEvent) :
    (s.handlePort j e).ports i = if i = j then (s.ports j).handle e else s.ports i := by
  show Function.update s.ports j ((s.ports j).handle e) i = _
  rw [Function.update_apply]

/-- A handler of a port, other than `port_enable`, keeps what belongs to the running session. -/
theorem Sessions.handlePort (h : s.Sessions i) {e : PortEvent} (he : i = j → e ≠ .enable) :
    (s.handlePort j e).Sessions i := by
  have hports := s.handlePort_ports e (i := i) (j := j)
  have hsession : (s.handlePort j e).session i = s.session i := by
    rw [session, hports]
    split_ifs with hij
    · subst hij
      exact PortData.session_handle _ (he rfl)
    · rfl
  have howned {n : ℕ} (hn : (s.ports i).page.Owned n) :
      ((s.handlePort j e).ports i).page.Owned n := by
    rw [hports]
    split_ifs with hij
    · subst hij
      exact (hn.after (he rfl)).pushed (PortData.pushed_handle _ e)
    · exact hn
  have howns {o : ℕ} {n : Byte} (hn : s.Owns i o n) : (s.handlePort j e).Owns i o n :=
    ⟨hn.1.trans hsession.symm, howned hn.2⟩
  constructor
  case page =>
    rw [hports]
    split_ifs with hij
    · subst hij
      exact (h.page.after e).pushed (PortData.pushed_handle _ e)
    · exact h.page
  case queued =>
    intro ptr n hm
    obtain hm | hm := List.mem_append.1 hm
    · exact howned (h.queued ptr n hm)
    · obtain ⟨rfl, hn⟩ := startIn_mem_handlePort (PortData.emits_handle _ e) hm
      exact howned (h.page.owned.mono hn)
  case pending => exact fun hp => howns (h.pending hp)
  case shown => exact fun hs hz => howns (h.shown hs hz)
  case due => exact fun hi hd hm => (h.due hi hd hm).trans hsession.symm
  case todo => exact fun todo hr hm => (h.todo todo hr hm).trans hsession.symm
  case opened => exact fun hw => hsession.trans (h.opened hw)
  case awaited => exact fun hi hx hr hw => hsession.trans (h.awaited hi hx hr hw)
  case told => exact fun todo ht hr hw => hsession.trans (h.told todo ht hr hw)
  case written => exact h.written
  case completed => exact h.completed

/-- The pipe starts nothing on the channel of a port. -/
theorem Sessions.handlePipe (h : s.Sessions i) {r : UsbPipe × List Call}
    (hr : ∀ c ∈ r.2, c.chan = bridgeUsb) : (s.handlePipe r).Sessions i := by
  refine { h with queued := fun ptr n hm => ?_ }
  obtain hm | hm := List.mem_append.1 hm
  · exact h.queued ptr n hm
  · exact absurd (hr _ hm) (portChan_ne_usbd i)

/-- A call that reaches the bridge: what it starts belongs to the running session. -/
theorem Sessions.performed (h : s.Sessions i) {c : Call} {rest : List Call}
    (hq : s.queue = c :: rest) : (s.performed c rest).Sessions i := by
  have hmem : c ∈ s.queue := hq ▸ List.mem_cons_self
  constructor
  case page => exact h.page
  case queued => exact fun ptr n hm => h.queued ptr n (hq ▸ List.mem_cons_of_mem c hm)
  case pending =>
    cases c with
    | startIn ch ptr n =>
      intro hp
      show (if ch = portChan i then s.session i else s.owner i) = s.session i ∧
        (s.ports i).page.Owned
          (Function.update s.link.bridge.inChanSize ch n (portChan i)).toNat
      by_cases hch : ch = portChan i
      · subst hch
        rw [if_pos rfl, Function.update_self]
        exact ⟨rfl, h.queued ptr n hmem⟩
      · have hsize : Function.update s.link.bridge.inChanSize ch n (portChan i) =
            s.link.bridge.inChanSize (portChan i) := Function.update_of_ne (Ne.symm hch) _ _
        rw [if_neg hch, hsize]
        exact h.pending fun hz => hp (hsize.trans hz)
    | startOut ch ptr => exact h.pending
    | enableChan ch => exact h.pending
    | disableChan ch =>
      intro hp
      show s.owner i = s.session i ∧ (s.ports i).page.Owned
        (Function.update s.link.bridge.inChanSize ch 0#8 (portChan i)).toNat
      by_cases hch : ch = portChan i
      · subst hch
        exact absurd (Function.update_self ..) hp
      · have hsize : Function.update s.link.bridge.inChanSize ch 0#8 (portChan i) =
            s.link.bridge.inChanSize (portChan i) := Function.update_of_ne (Ne.symm hch) _ _
        rw [hsize]
        exact h.pending fun hz => hp (hsize.trans hz)
  case shown => cases c <;> exact h.shown
  case due => cases c <;> exact h.due
  case todo => cases c <;> exact h.todo
  case opened => cases c <;> exact h.opened
  case awaited => cases c <;> exact h.awaited
  case told => cases c <;> exact h.told
  case written => cases c <;> exact h.written
  case completed => cases c <;> exact h.completed

/-! ### The transactions -/

/-- SYNC low shows what is pending. -/
theorem Sessions.syncLow (h : s.Sessions i) {p : Polls} (hidle : s.link.handler = .idle) :
    Sessions { s with
      link := { s.link with bridge := s.link.bridge.handleSyncLow, phase := .low p }
      snapOwner := s.owner } i where
  page := h.page
  queued := h.queued
  pending := h.pending
  shown _ := h.pending
  due := nofun
  todo todo hrun := nomatch hidle.symm.trans hrun
  opened := h.opened
  awaited _ hx := by
    obtain hx | hx := hx
    · exact hx.elim
    · cases hx
  told todo hrun := nomatch hidle.symm.trans hrun
  written := h.written
  completed := h.completed

/-- A connection that is accepted waits for its session. -/
theorem Sessions.setup (h : s.Sessions i) (hord : s.link.InOrder)
    (hopen : s.link.Opening (portChan i)) {p : Polls} (hphase : s.link.phase = .low p)
    (sys : SysCalls) :
    Sessions { s with
      link := s.link.setup p sys none none
      base := fun i =>
        if (s.link.setup p sys none none).spid.conns (portChan i) =
          s.link.spid.conns (portChan i) then s.base i else (s.ports i).session } i := by
  have hfol := hopen.phase
  have hset := hord.inPhase
  rw [hphase] at hfol hset
  obtain ⟨hsock, hin, hout, -⟩ := hord.polls p hphase (portChan i)
  have hidle := hset.1.handler
  have hserve := Spid.chan_serve s.link.spid p sys (portChan i)
  have hconn : (s.link.spid.serve p sys).header.connected (portChan i) =
      ((s.link.spid.serve p sys).chan (portChan i)).opened :=
    Spid.header_connected ((hord.spid.serve (hord.polls p hphase) sys) (portChan i)).stray
  generalize hbase : (fun i : Fin 2 =>
    if (s.link.setup p sys none none).spid.conns (portChan i) =
      s.link.spid.conns (portChan i) then s.base i else (s.ports i).session) = base
  -- either the connection is the one that was there, or it has just been accepted
  have hcases : (base i = s.base i ∧
        (s.link.spid.serve p sys).written (portChan i) = s.link.spid.written (portChan i) ∧
        (((s.link.spid.serve p sys).chan (portChan i)).opened → s.link.wasOpen (portChan i))) ∨
      (base i = s.session i ∧ (s.link.spid.serve p sys).written (portChan i) = [] ∧
        s.link.wasOpen (portChan i) = false) := by
    obtain ⟨hconns, hwritten, hopened⟩ | ⟨hconns, hwritten, hk⟩ :=
      ChanState.Sound.conns_serve sys hsock (c := s.link.spid.chan (portChan i))
    · rw [← hserve] at hconns hwritten hopened
      refine .inl ⟨?_, hwritten, fun ho => hfol.1 (hopened ho)⟩
      rw [← hbase]
      exact if_pos hconns
    · rw [← hserve] at hconns hwritten
      refine .inr ⟨?_, hwritten, hfol.2 hk⟩
      rw [← hbase]
      refine if_neg fun heq => ?_
      have hsucc : s.link.spid.conns (portChan i) + 1 = s.link.spid.conns (portChan i) :=
        hconns.symm.trans heq
      omega
  constructor
  case page => exact h.page
  case queued => exact h.queued
  case pending => exact h.pending
  case shown => exact fun _ => h.shown (by rw [hphase]; trivial)
  case due =>
    intro _ hdone
    have hdone' : s.link.bridge.rxDone = true := hdone
    rw [hset.1.rxDone] at hdone'
    cases hdone'
  case todo => exact fun todo hrun => nomatch hidle.symm.trans hrun
  case opened =>
    intro hw
    have hw' : s.link.wasOpen (portChan i) = true := hw
    obtain ⟨hb, -⟩ | ⟨-, -, hno⟩ := hcases
    · exact (h.opened hw').trans (by rw [← hb])
    · rw [hw'] at hno
      cases hno
  case awaited =>
    intro _ _ hr hw
    have hw' : s.link.wasOpen (portChan i) = false := hw
    obtain ⟨-, -, ho⟩ | ⟨hb, -⟩ := hcases
    · rw [ho (hconn ▸ hr)] at hw'
      cases hw'
    · exact hb.symm
  case told => exact fun todo hrun => nomatch hidle.symm.trans hrun
  case written =>
    intro x hx
    obtain ⟨hb, hw, -⟩ | ⟨-, hw, -⟩ := hcases
    · exact (h.written x (hw ▸ hx)).trans (by rw [← hb])
    · exact absurd (hw ▸ hx) (List.not_mem_nil)
  case completed => exact h.completed

/-- SYNC high takes what it is going to move, and touches nothing else. -/
theorem Sessions.syncHigh (h : s.Sessions i) (hord : s.link.InOrder) {rx : ControlPkt}
    (hphase : s.link.phase = .setup rx) :
    Sessions { s with
      link := { s.link with bridge := s.link.bridge.handleSyncHigh, phase := .high rx } } i := by
  have hset := hord.inPhase
  rw [hphase] at hset
  obtain ⟨hset, hcr⟩ := hset
  have hcmd := hcr.header
  constructor
  case page => exact h.page
  case queued => exact h.queued
  case pending =>
    intro hp
    have hsize := handleSyncHigh_inChanSize hcmd (portChan i)
    by_cases hm : movesIn s.link.bridge.ctrlRx s.link.bridge.ctrlTx (portChan i) = true
    · rw [if_pos hm] at hsize
      exact absurd hsize hp
    · rw [if_neg hm] at hsize
      show s.Owns i (s.owner i) (s.link.bridge.handleSyncHigh.inChanSize (portChan i))
      rw [hsize]
      exact h.pending fun hz => hp (hsize.trans hz)
  case shown =>
    intro _ hz
    have hz' : s.link.bridge.ctrlTx.size (portChan i) ≠ 0#8 := by
      rw [← handleSyncHigh_ctrlTx]
      exact hz
    show s.Owns i (s.snapOwner i) (s.link.bridge.handleSyncHigh.ctrlTx.size (portChan i))
    rw [handleSyncHigh_ctrlTx]
    exact h.shown (by rw [hphase]; trivial) hz'
  case due =>
    -- a transfer is not due before the data phase
    intro _ hdone hm
    have hm' : movesIn s.link.bridge.ctrlRx s.link.bridge.ctrlTx (portChan i) := by
      rw [← handleSyncHigh_ctrlTx, ← handleSyncHigh_ctrlRx]
      exact hm
    have hc : s.link.bridge.plannedChain ≠ [] := fun hc => by
      have hno := (segments_eq_nil_iff.1 (plannedChain_eq_nil_iff.1 hc) (portChan i)).2
      rw [hm'] at hno
      cases hno
    have hdone' : s.link.bridge.handleSyncHigh.rxDone = true := hdone
    rw [handleSyncHigh_of_cmd hcmd] at hdone'
    dsimp only at hdone'
    rw [if_pos hc] at hdone'
    cases hdone'
  case todo => exact h.todo
  case opened =>
    intro hw
    refine h.opened ?_
    show Byte.has s.link.bridge.wasOpen _ = true
    rw [← handleSyncHigh_wasOpen]
    exact hw
  case awaited =>
    intro hidle _ hr hw
    refine h.awaited hidle (.inl (by rw [hphase]; trivial)) ?_ ?_
    · rw [← handleSyncHigh_ctrlRx]
      exact hr
    · show Byte.has s.link.bridge.wasOpen _ = false
      rw [← handleSyncHigh_wasOpen]
      exact hw
  case told => exact fun todo hrun => nomatch hset.handler.symm.trans hrun
  case written => exact h.written
  case completed => exact h.completed

theorem memory_portChan {d : Desc} (hd : d.chan = portChan i) : s.memory d =
    List.zipWith Sent.mk (s.ports i).replyBuf.cells (s.ports i).stamps.cells := by
  rw [memory, hd]
  rfl

/-- What is sent from a part of `reply_buf` that the running session has written. -/
theorem session_of_mem_memory {n : ℕ} (hn : (s.ports i).page.Owned n) {d : Desc}
    (hd : d.chan = portChan i) {x : Sent} (hx : x ∈ (s.memory d).take n) :
    x.session = s.session i := by
  rw [memory_portChan hd] at hx
  obtain ⟨k, hk, rfl⟩ := List.mem_iff_getElem.1 hx
  rw [List.getElem_take, List.getElem_zipWith]
  rw [List.length_take, List.length_zipWith] at hk
  have hget := hn k (by omega)
  have hlt : k < (s.ports i).stamps.cells.length := by omega
  have hcell : (s.ports i).stamps.get k = (s.ports i).stamps.cells[k] := by
    rw [Cells.get, List.getD_eq_getElem?_getD, List.getElem?_eq_getElem hlt, Option.getD_some]
  exact hcell.symm.trans hget

/-- **What is written to a connection belongs to its session.** -/
theorem Sessions.written_transfer (h : s.Sessions i) (hord : s.link.InOrder)
    (hopen : s.link.Opening (portChan i)) {rx : ControlPkt} (hphase : s.link.phase = .high rx)
    (ha : s.link.Agrees rx) (sys : SysCalls) (pad : List Sent) :
    ∀ x ∈ (s.link.transfer Sent.dummy rx sys s.memory pad).spid.written (portChan i),
      x.session = s.base i + 1 := by
  have hmanage : (s.link.managed rx sys.socket (portChan i)).written =
      s.link.spid.written (portChan i) :=
    ChanState.written_manage _ (portChan_ne_usbd i) _ _
  have hmem (d : Desc) (_ : d ∈ s.link.bridge.chain) (d' : Desc) (_ : d' ∈ s.link.bridge.chain)
      (_ : d.dir = .inn) (_ : d'.dir = .inn) (hd : d.chan = portChan i)
      (hd' : d'.chan = portChan i) : s.memory d' = s.memory d := by
    rw [memory_portChan hd, memory_portChan hd']
  intro x hx
  obtain ⟨-, hw⟩ | ⟨d, hd, hg, hm, hw⟩ :=
    hord.written_transfer hphase ha Sent.dummy sys pad hmem
  · rw [hw, hmanage] at hx
    exact h.written x hx
  · rw [hw, hmanage] at hx
    obtain hx | hx := List.mem_append.1 hx
    · exact h.written x hx
    · have hdir : d.dir = .inn := congrArg Segment.dir hg
      have hch : d.chan = portChan i := congrArg Segment.chan hg
      have hlen : d.len = (s.link.bridge.ctrlTx.size (portChan i)).toNat :=
        congrArg Segment.len hg
      have hc : s.link.bridge.chain ≠ [] := List.ne_nil_of_mem hd
      simp only [movesIn, Bool.and_eq_true, bne_iff_ne] at hm
      obtain ⟨-, howned⟩ := h.shown (by rw [hphase]; exact hc) hm.2
      have hfit : d.len ≤ (s.memory d).length := by
        have := (s.link.bridge.ctrlTx.size (portChan i)).isLt
        rw [memory_portChan hch, List.length_zipWith, Cells.length_cells, Cells.length_cells]
        simp only [bridgeBufSize]
        omega
      rw [Desc.sends_of_le hdir hfit, hlen] at hx
      rw [session_of_mem_memory howned hch (List.mem_of_mem_take hx)]
      have hp := hopen.phase
      rw [hphase] at hp
      exact h.opened (hp.1 hc hm.1)

/-- The end of a pass. -/
theorem Sessions.transfer (h : s.Sessions i) (hord : s.link.InOrder)
    (hopen : s.link.Opening (portChan i)) {rx : ControlPkt} (hphase : s.link.phase = .high rx)
    (ha : s.link.Agrees rx) (sys : SysCalls) (pad : List Sent) :
    Sessions { s with link := s.link.transfer Sent.dummy rx sys s.memory pad } i := by
  have hwritten := h.written_transfer hord hopen hphase ha sys pad
  obtain ⟨-, he⟩ | ⟨hc, he⟩ := hord.transfer_cases hphase ha Sent.dummy sys s.memory pad
  · rw [he] at hwritten ⊢
    refine { h with shown := nofun, written := hwritten, awaited := fun hidle hx => ?_ }
    obtain hx | hx := hx
    · exact hx.elim
    · exact h.awaited hidle (.inr hx)
  · rw [he] at hwritten ⊢
    have hshown : Shown s.link s.link.phase := by rw [hphase]; exact hc
    have hx : Exchanged s.link s.link.phase := by rw [hphase]; exact hc
    refine { h with
      shown := nofun
      written := hwritten
      awaited := fun hidle _ => h.awaited hidle (.inl hx)
      due := fun _ _ hm => ?_ }
    have hm' : movesIn s.link.bridge.ctrlRx s.link.bridge.ctrlTx (portChan i) = true := hm
    simp only [movesIn, Bool.and_eq_true, bne_iff_ne] at hm'
    exact (h.shown hshown hm'.2).1

/-! ### The completion handler -/

/-- The copies of the headers, and of what their transfers belong to. -/
theorem Sessions.copy (h : s.Sessions i) (hord : s.link.InOrder)
    (hidle : s.link.handler = .idle) (hdone : s.link.bridge.rxDone) :
    Sessions { s with link := s.link.copy, copyOwner := s.snapOwner } i := by
  have he : s.link.copy = { s.link with
      handler := .running (callbacks s.link.bridge.wasOpen s.link.bridge.takeSnapshot) } :=
    if_pos (hord.data hdone)
  rw [he]
  refine { h with
    due := nofun
    awaited := nofun
    todo := fun todo hrun hm => ?_
    told := fun todo hrun hr hw => ?_ }
  · cases hrun
    exact h.due hidle hdone (mem_callbacks_completionIn.1 hm)
  · cases hrun
    have hr' : Byte.has s.link.bridge.takeSnapshot.rxStatus (portChan i + 4) = true := hr
    have hw' : Byte.has s.link.bridge.wasOpen (portChan i + 4) = false := hw
    have hedges : (callbacks s.link.bridge.wasOpen s.link.bridge.takeSnapshot).filterMap
        (Preempt.edgeOf (portChan i)) = [true] := by
      rw [Preempt.callbacks_edges, hr', hw']
      rfl
    rw [hedges, if_neg (List.cons_ne_nil _ _)]
    exact h.awaited hidle (.inr hdone) hr hw

/-- The next callback has been taken off the list. -/
def called (s : System) (todo : List Callback) : System :=
  { s with link := { s.link with handler := .running todo } }

/-- A callback that opens no session of the port is taken off the list. -/
theorem Sessions.tail (h : s.Sessions i) {cb : Callback} {todo : List Callback}
    (hrun : s.link.handler = .running (cb :: todo))
    (hcb : Preempt.edgeOf (portChan i) cb ≠ some true)
    (hopen : s.link.Opening (portChan i)) : (s.called todo).Sessions i := by
  refine { h with
    due := nofun
    awaited := nofun
    todo := fun todo' hrun' hm => ?_
    told := fun todo' hrun' hr hw => ?_ }
  · cases hrun'
    exact h.todo _ hrun (List.mem_cons_of_mem _ hm)
  · cases hrun'
    have ht := h.told _ hrun hr hw
    rw [List.filterMap_cons] at ht
    cases hedge : Preempt.edgeOf (portChan i) cb with
    | none =>
      rw [hedge] at ht
      exact ht
    | some b =>
      -- the connected bit of the header is set, so the channel is not closed
      have hedges := (hopen.todo _ hrun).2
      rw [List.filterMap_cons, hedge] at hedges
      obtain hedges | hedges := hedges
      · cases hedges
      · split_ifs at hedges
        have hb := (List.cons.inj hedges).1
        rw [show s.link.bridge.ctrlRx.connected (portChan i) = true from hr] at hb
        rw [hb] at hedge
        exact absurd hedge hcb

/-- **A session starts** for the connection that is reported, when nothing is pending. -/
theorem Sessions.open (h : s.Sessions i) {todo : List Callback}
    (hrun : s.link.handler = .running (.open (portChan i) :: todo)) (hq : s.queue = [])
    (hsize : s.link.bridge.inChanSize (portChan i) = 0#8)
    (hord : s.link.InOrder) (hopen : s.link.Opening (portChan i)) :
    ((s.called todo).handlePort i .enable).Sessions i := by
  have hports : ((s.called todo).handlePort i .enable).ports i = (s.ports i).handle .enable := by
    rw [handlePort_ports, if_pos rfl]
    rfl
  have hsession : ((s.called todo).handlePort i .enable).session i = s.session i + 1 := by
    rw [session, hports]
    exact PortData.session_enable _
  -- the edge that is reported is the one that the header shows
  obtain ⟨hin, hedges⟩ := hopen.todo _ hrun
  have hedge : Preempt.edgeOf (portChan i) (.open (portChan i)) = some true := if_pos rfl
  rw [List.filterMap_cons, hedge] at hedges
  obtain ⟨hconn, hclosed, hrest⟩ : s.link.bridge.ctrlRx.connected (portChan i) = true ∧
      s.link.wasOpen (portChan i) = false ∧
      todo.filterMap (Preempt.edgeOf (portChan i)) = [] := by
    obtain hedges | hedges := hedges
    · cases hedges
    · split_ifs at hedges with heq
      obtain ⟨hr, hrest⟩ := List.cons.inj hedges
      rw [← hr] at heq
      exact ⟨hr.symm, Bool.eq_false_of_not_eq_true fun hw => heq hw.symm, hrest⟩
  have hbase : s.session i = s.base i := by
    have ht := h.told _ hrun hconn hclosed
    rw [List.filterMap_cons, hedge] at ht
    exact ht
  constructor
  case page =>
    rw [hports]
    exact (h.page.after .enable).pushed (PortData.pushed_handle _ .enable)
  case queued =>
    intro ptr n hm
    obtain hm | hm := List.mem_append.1 hm
    · have hq' : (s.called todo).queue = [] := hq
      rw [hq'] at hm
      cases hm
    · obtain ⟨-, hn⟩ := startIn_mem_handlePort (PortData.emits_enable _) hm
      exact (Page.owned_zero _).mono hn
  case pending => exact fun hp => absurd hsize hp
  case shown =>
    -- while the handler is at work, nothing is under way
    exact fun hshown => nomatch (hord.settled_of_shown hshown).handler.symm.trans hrun
  case due => exact fun hidle => nomatch (show Handler.running todo = .idle from hidle)
  case todo =>
    intro todo' hrun' hm
    cases hrun'
    have hw := hin (List.mem_cons_of_mem _ hm)
    rw [hclosed] at hw
    cases hw
  case opened =>
    intro hw
    have hw' : s.link.wasOpen (portChan i) = true := hw
    rw [hclosed] at hw'
    cases hw'
  case awaited => exact fun hidle => nomatch (show Handler.running todo = .idle from hidle)
  case told =>
    intro todo' hrun' _ _
    cases hrun'
    rw [if_pos hrest, hsession, hbase]
    rfl
  case written => exact h.written
  case completed => exact h.completed

/-- The end of the completion handler: `was_open` follows the connection. -/
theorem Sessions.writeBack (h : s.Sessions i) (hrun : s.link.handler = .running []) :
    Sessions { s with
      link := { s.link with bridge := s.link.bridge.writeBack, handler := .idle } } i := by
  have hw : Byte.has s.link.bridge.writeBack.wasOpen (portChan i + 4) =
      s.link.bridge.ctrlRx.connected (portChan i) := Preempt.has_connected _ _
  refine { h with
    due := nofun
    todo := nofun
    told := nofun
    opened := fun hopen => ?_
    awaited := fun _ hx hr hclosed => ?_ }
  · have hr : s.link.bridge.ctrlRx.connected (portChan i) = true := hw.symm.trans hopen
    cases hw₀ : s.link.wasOpen (portChan i) with
    | true => exact h.opened hw₀
    | false => exact h.told [] hrun hr hw₀
  · have hclosed' : Byte.has s.link.bridge.writeBack.wasOpen (portChan i + 4) = false := hclosed
    rw [hw] at hclosed'
    have hr' : s.link.bridge.ctrlRx.connected (portChan i) = true := hr
    rw [hclosed'] at hr'
    cases hr'

/-! ### A callback -/

theorem handleCallback_usb {cb : Callback} (h : cb.chan = 0) :
    s.handleCallback cb = s.handlePipe (s.pipe.callback cb) := by
  rw [handleCallback, h]
  rfl

theorem handleCallback_port {cb : Callback} (h : cb.chan = portChan j) :
    s.handleCallback cb = s.callbackPort j cb := by
  rw [handleCallback, h]
  rfl

theorem Sessions.countIn (h : s.Sessions i) (hown : i = j → s.copyOwner j = s.session j) :
    (s.countIn j).Sessions i := by
  refine { h with completed := fun c hc hi => ?_ }
  obtain hc | hc := List.mem_append.1 hc
  · exact h.completed c hc hi
  · obtain rfl := List.mem_singleton.1 hc
    exact hown hi.symm

/-- A callback to a port starts no session but by `bridge_open`. -/
theorem Sessions.callbackPort (h : s.Sessions i) {cb : Callback}
    (hcb : i = j → ∀ ch, cb ≠ .open ch)
    (hown : i = j → ∀ ch, cb = .completionIn ch → s.copyOwner j = s.session j) :
    (s.callbackPort j cb).Sessions i := by
  cases cb with
  | «open» ch => exact h.handlePort fun hij => absurd rfl (hcb hij ch)
  | completionOut ch len => exact h.handlePort nofun
  | completionIn ch => exact (h.countIn fun hij => hown hij ch rfl).handlePort nofun
  | close ch => exact h.handlePort nofun

/-- **Every callback keeps the sessions apart**, if nothing is pending when it opens one. -/
theorem Sessions.callback (h : s.Sessions i) (hord : s.link.InOrder)
    (hopen : s.link.Opening (portChan i)) {cb : Callback} {todo : List Callback}
    (hrun : s.link.handler = .running (cb :: todo)) (hq : s.queue = [])
    (hsize : cb = .open (portChan i) → s.link.bridge.inChanSize (portChan i) = 0#8) :
    ((s.called todo).handleCallback cb).Sessions i := by
  by_cases hcb : cb = .open (portChan i)
  · rw [handleCallback_port (j := i) (by rw [hcb]; rfl), hcb]
    subst hcb
    exact h.open hrun hq (hsize rfl) hord hopen
  · have hedge : Preempt.edgeOf (portChan i) cb ≠ some true := by
      intro hedge
      cases cb with
      | «open» c =>
        obtain ⟨rfl, -⟩ := Option.ite_none_right_eq_some.1 hedge
        exact hcb rfl
      | close c => cases (Option.ite_none_right_eq_some.1 hedge).2
      | completionOut c len => cases hedge
      | completionIn c => cases hedge
    have ht := h.tail hrun hedge hopen
    obtain hz | ⟨j, hj⟩ := Fin.eq_zero_or_eq_succ cb.chan
    · rw [handleCallback_usb hz]
      exact ht.handlePipe (UsbPipe.chan_callback _ cb)
    · rw [handleCallback_port (j := j) hj]
      refine ht.callbackPort (fun hij ch hch => ?_) fun hij ch hch => ?_
      · subst hij hch
        obtain rfl : ch = portChan i := hj
        exact hcb rfl
      · subst hij hch
        obtain rfl : ch = portChan i := hj
        exact h.todo _ hrun List.mem_cons_self

/-! ### Runs -/

theorem queue_eq_nil_of_calm (h : s.calm = true) : s.queue = [] := by
  rw [calm, Bool.and_eq_true] at h
  exact List.isEmpty_iff.1 h.1

theorem nextCallback_of_running {cb : Callback} {todo : List Callback}
    (h : s.link.handler = .running (cb :: todo)) : s.nextCallback = some cb := by
  rw [nextCallback, h]

/-- **Every isolating step keeps the sessions apart.** -/
theorem Sessions.step (h : s.Sessions i) (hord : s.link.InOrder)
    (hopen : s.link.Opening (portChan i)) {lab : SystemLabel} (hok : s.Isolating lab)
    (hst : s.step lab = some t) : t.Sessions i := by
  cases lab with
  | syncLow p =>
    obtain ⟨u, hu, rfl⟩ := Option.map_eq_some_iff.1 hst
    obtain ⟨l, hl, rfl⟩ := linkStep_eq_some.1 hu
    obtain ⟨-, -, rfl⟩ := step_syncLow.1 hl
    exact h.syncLow (hok _ rfl).1
  | setup sys toMcu toSoc =>
    obtain ⟨u, hu, rfl⟩ := Option.map_eq_some_iff.1 hst
    obtain ⟨l, hl, rfl⟩ := linkStep_eq_some.1 hu
    obtain ⟨p, hphase, rfl⟩ := step_setup.1 hl
    obtain ⟨rfl, rfl⟩ := hok _ rfl
    exact h.setup hord hopen hphase sys
  | syncHigh =>
    obtain ⟨l, hl, rfl⟩ := linkStep_eq_some.1 hst
    obtain ⟨rx, hphase, rfl⟩ := step_syncHigh.1 hl
    exact h.syncHigh hord hphase
  | transfer sys pad =>
    obtain ⟨l, hl, rfl⟩ := linkStep_eq_some.1 hst
    obtain ⟨rx, hphase, rfl⟩ := step_transfer.1 hl
    exact h.transfer hord hopen hphase (hok _ rfl rx hphase) sys pad
  | copy =>
    obtain ⟨-, hst⟩ := Option.ite_none_right_eq_some.1 hst
    obtain ⟨u, hu, rfl⟩ := Option.map_eq_some_iff.1 hst
    obtain ⟨l, hl, rfl⟩ := linkStep_eq_some.1 hu
    obtain ⟨hidle, hdone, rfl⟩ := step_copy.1 hl
    exact h.copy hord hidle hdone
  | callback =>
    obtain ⟨hcalm, hst⟩ := Option.ite_none_right_eq_some.1 hst
    obtain ⟨cb, hcb, hst⟩ := Option.bind_eq_some_iff.1 hst
    obtain ⟨u, hu, rfl⟩ := Option.map_eq_some_iff.1 hst
    obtain ⟨l, hl, rfl⟩ := linkStep_eq_some.1 hu
    obtain ⟨cb', todo, hrun, rfl⟩ := step_callback.1 hl
    -- the callback that is dispatched is the first one of the handler
    obtain rfl : cb' = cb := Option.some.inj ((nextCallback_of_running hrun).symm.trans hcb)
    exact h.callback hord hopen hrun (queue_eq_nil_of_calm hcalm) fun he => hok i (he ▸ hcb)
  | writeBack =>
    obtain ⟨-, hst⟩ := Option.ite_none_right_eq_some.1 hst
    obtain ⟨l, hl, rfl⟩ := linkStep_eq_some.1 hst
    obtain ⟨hrun, rfl⟩ := step_writeBack.1 hl
    exact h.writeBack hrun
  | perform =>
    cases hq : s.queue with
    | nil => simp [System.step, hq] at hst
    | cons c rest =>
      simp only [System.step, hq, Option.some.injEq] at hst
      subst hst
      exact h.performed hq
  | port j e =>
    obtain ⟨hcond, hst⟩ := Option.ite_none_right_eq_some.1 hst
    cases hst
    refine h.handlePort fun _ he => ?_
    subst he
    cases (Bool.and_eq_true_iff.1 hcond).2
  | iter j =>
    obtain ⟨-, hst⟩ := Option.ite_none_right_eq_some.1 hst
    cases hst
    exact h.handlePort fun _ he => by cases he
  | usb e =>
    obtain ⟨-, hst⟩ := Option.ite_none_right_eq_some.1 hst
    cases hst
    exact h.handlePipe (UsbPipe.chan_handle _ e)

/-- An isolating step of the system is an orderly step of its link. -/
theorem orderly_of_isolating {lab : SystemLabel} (h : s.Isolating lab) {l : LinkLabel Sent}
    (hl : s.onLink lab = some l) : s.link.Orderly l := by
  cases lab with
  | callback =>
    cases hl
    trivial
  | _ => exact h l hl

/-- What holds of the system in an isolating run. -/
structure Tracked (s : System) : Prop where
  order : s.link.InOrder
  opening : ∀ i, s.link.Opening (portChan i)
  sessions : ∀ i, s.Sessions i

theorem tracked_init (answers : Fin 2 → ℕ → BitVec 16) : (init answers).Tracked where
  order := (inOrder_init.call (.enableChan (portChan 0))).call (.enableChan (portChan 1))
  opening _ := ((opening_init _).call (.enableChan (portChan 0))).call (.enableChan (portChan 1))
  sessions := sessions_init answers

theorem Tracked.step (h : s.Tracked) {lab : SystemLabel} (hok : s.Isolating lab)
    (hst : s.step lab = some t) : t.Tracked := by
  have hsessions (i : Fin 2) := (h.sessions i).step h.order (h.opening i) hok hst
  have hl := step_onLink hst
  cases honto : s.onLink lab with
  | none =>
    rw [honto] at hl
    have hl' : t.link = s.link := hl
    exact ⟨hl' ▸ h.order, fun i => hl' ▸ h.opening i, hsessions⟩
  | some l =>
    rw [honto] at hl
    have hokl := orderly_of_isolating hok honto
    exact ⟨h.order.step hokl hl, fun i => (h.opening i).step h.order (portChan_ne_usbd i) hokl hl,
      hsessions⟩

/-- **Sessions are isolated** in every orderly run in which nothing is pending on the channel of a
port when the port is enabled. -/
theorem isolated {answers : Fin 2 → ℕ → BitVec 16} {labs : List SystemLabel}
    (hrun : machine.Run Isolating (init answers) labs s) : s.Isolated := by
  have h : s.Tracked :=
    hrun.invariant (tracked_init answers) fun _ _ _ ht hok hst => ht.step hok hst
  exact ⟨fun i => (h.sessions i).written, fun c hc => (h.sessions c.1).completed c hc rfl⟩

/-- The client of port A sends an ECHO of one byte, and the reply is passed to the bridge. -/
def echoRun (b : Byte) : List SystemLabel :=
  sendRun [0x02#8, 0x01#8, b] ++ [.transfer (reading []) [], .copy, .callback] ++
    [.iter 0, .iter 0, .iter 0, .iter 0, .perform, .perform, .writeBack]

/-- The connection of port A, which is known to be writable, takes what is pending. -/
def takeRun : List SystemLabel := pass noPolls []

/-- The in-completion of port A. -/
def completeRun : List SystemLabel := [.copy, .callback, .iter 0, .writeBack]

/-- The client of port A disconnects, and the next one connects. -/
def nextClientRun : List SystemLabel :=
  pass { noPolls with connHup := fun ch => ch = 1 } [] ++
    [.copy, .callback, .perform, .writeBack] ++
    pass { noPolls with sockIn := fun ch => ch = 1 } [] ++ [.copy, .callback, .perform, .writeBack]

/-- Two clients, one after the other, get the replies to their commands. -/
def twoClientsRun : List SystemLabel :=
  connectRun ++ echoRun 0x41#8 ++ takeRun ++ completeRun ++ nextClientRun ++ echoRun 0x42#8 ++
    takeRun ++ completeRun

theorem isolated_twoClientsRun :
    ∃ s, machine.exec (init fun _ _ => 0#16) twoClientsRun = some s ∧
      s.link.spid.written 1 = [⟨0x84#8, 2⟩, ⟨0x42#8, 2⟩] ∧
      s.completedIn = [(0, 1, 1), (0, 2, 2)] ∧ s.Isolated := by
  have h : (machine.execOk (fun s lab => decide (s.Isolating lab)) (init fun _ _ => 0#16)
      twoClientsRun).map (fun s => (s.link.spid.written 1, s.completedIn)) =
        some ([⟨0x84#8, 2⟩, ⟨0x42#8, 2⟩], [(0, 1, 1), (0, 2, 2)]) := by decide +kernel
  obtain ⟨s, hs, hpair⟩ := Option.map_eq_some_iff.1 h
  obtain ⟨hwritten, hcompleted⟩ := Prod.mk.inj hpair
  have hrun := Machine.run_of_execOk Isolating (fun _ _ => of_decide_eq_true) hs
  exact ⟨s, hrun.exec_eq, hwritten, hcompleted, isolated hrun⟩

/-- Sessions are not isolated in every run: the client of port A disconnects while the reply to its
command is pending, and the next client gets it. -/
theorem reply_delivered_late :
    ¬ ∀ (answers : Fin 2 → ℕ → BitVec 16) (labs : List SystemLabel) (s : System),
      machine.Run Intact (init answers) labs s → s.Isolated := by
  intro hall
  have h : (machine.execOk (fun s lab => decide (s.Intact lab)) (init fun _ _ => 0#16)
      (connectRun ++ echoRun 0x41#8 ++ nextClientRun ++
        pass { noPolls with connOut := fun ch => ch = 1 } [])).map
        (fun s => (s.link.spid.written 1, s.base 0)) =
          some ([⟨0x84#8, 1⟩, ⟨0x41#8, 1⟩], 1) := by decide +kernel
  obtain ⟨s, hs, hpair⟩ := Option.map_eq_some_iff.1 h
  obtain ⟨hwritten, hbase⟩ := Prod.mk.inj hpair
  have hrun := Machine.run_of_execOk Intact (fun _ _ => of_decide_eq_true) hs
  have hlate := (hall _ _ s hrun).written 0 ⟨0x84#8, 1⟩
    (show _ ∈ s.link.spid.written 1 by rw [hwritten]; exact List.mem_cons_self)
  rw [hbase] at hlate
  cases hlate

end System

end TesselFirmware
