import TesselFirmware.Link.Delivery
import TesselFirmware.Spid.Stream

/-!
# Transport between sockets and clients

`Transport` puts a disciplined client on each channel of the link: in each direction it starts a
transfer only after the previous one has completed, and it keeps the buffer of an IN transfer as it
is until then.  Clients start transfers and enable and disable their channels at any time; SYNC
edges do not come while the completion handler is at work, headers arrive as they were sent, and
sockets take everything that is written.

`reported`, `passed` and `kept` record, for the current connection of each channel, the payloads
reported through `bridge_completion_out`, the bytes passed to `bridge_start_in`, and that the
channel has not been disabled.

* `Transport.Delivered` : nothing is lost, repeated or reordered in either direction;
* `Transport.delivered` : this holds in every run in which the completion handler is prompt and
  both sides agree on every data phase;
* `Transport.payload_misplaced` : and without agreement a payload gets lost.
-/

namespace TesselFirmware

open Bridge ControlPkt

structure Transport where
  link : Link Byte
  /-- The buffer of the last `bridge_start_in`. -/
  inMem : Chan → List Byte
  /-- An IN transfer has been started and has not completed. -/
  busyIn : Chan → Bool
  /-- An OUT transfer has been started and has not completed. -/
  busyOut : Chan → Bool
  reported : Chan → List Byte
  passed : Chan → List Byte
  kept : Chan → Bool

inductive TransportLabel
  | syncLow (p : Polls)
  | setup (sys : SysCalls)
  | syncHigh
  | transfer (socket : ℕ) (pad : List Byte)
  | copy
  | callback
  | writeBack
  | startIn (ch : Chan) (data : ℕ) (bytes : List Byte)
  | startOut (ch : Chan) (data : ℕ)
  | enableChan (ch : Chan)
  | disableChan (ch : Chan)

namespace Link

variable {α : Type}

/-- The payload that a callback reports for a channel. -/
def payload (mem : Chan → Cells Byte spidBufSize) (ch : Chan) : Callback → List Byte
  | .completionOut c len => if c = ch then (mem c).content len else []
  | _ => []

/-- What the data phase has put into the client buffer and has not been reported. -/
def inFlight (l : Link α) (ch : Chan) : List Byte :=
  match l.handler with
  | .idle =>
    if l.bridge.rxDone ∧ movesOut l.bridge.ctrlRx l.bridge.ctrlTx ch then
      (l.outMem ch).content (l.bridge.ctrlRx.size ch).toNat
    else []
  | .running todo => todo.flatMap (payload l.outMem ch)

/-- SYNC high has taken the pending transfer of a channel, and it has not been moved yet. -/
def moving (l : Link α) (ch : Chan) : Bool :=
  match l.phase with
  | .high _ => movesIn l.bridge.ctrlRx l.bridge.ctrlTx ch
  | _ => false

/-- The bridge holds a buffer of the channel that has not been moved. -/
def Holds (l : Link α) (ch : Chan) : Prop := l.bridge.inChanSize ch ≠ 0#8 ∨ l.moving ch

instance (l : Link α) (ch : Chan) : Decidable (l.Holds ch) := by unfold Holds; infer_instance

end Link

namespace Transport

open Link

def init : Transport where
  link := Link.init
  inMem := fun _ => []
  busyIn := fun _ => false
  busyOut := fun _ => false
  reported := fun _ => []
  passed := fun _ => []
  kept := fun _ => false

variable (s : Transport)

/-- The client buffer of a descriptor. -/
def memory (d : Desc) : List Byte := s.inMem d.chan

/-- System calls of the end of a pass, with sockets that take everything. -/
def takingAll (socket : ℕ) : SysCalls := ⟨fun _ => 0, socket, fun _ => [], fun _ => spidBufSize⟩

/-- What a label does on the link. -/
def toLink : TransportLabel → LinkLabel Byte
  | .syncLow p => .syncLow p
  | .setup sys => .setup sys none none
  | .syncHigh => .syncHigh
  | .transfer socket pad => .transfer (takingAll socket) s.memory pad
  | .copy => .copy
  | .callback => .callback
  | .writeBack => .writeBack
  | .startIn ch data bytes => .call (.startIn ch data (BitVec.ofNat 8 bytes.length))
  | .startOut ch data => .call (.startOut ch data)
  | .enableChan ch => .call (.enableChan ch)
  | .disableChan ch => .call (.disableChan ch)

/-- SYNC edges do not preempt the completion handler, and clients are disciplined. -/
def Allowed : TransportLabel → Prop
  | .syncLow _ => s.link.handler = .idle
  | .syncHigh => s.link.handler = .idle
  | .startIn ch _ bytes => s.busyIn ch = false ∧ bytes.length ≤ spidBufSize
  | .startOut ch _ => s.busyOut ch = false
  | _ => True

instance (lab : TransportLabel) : Decidable (s.Allowed lab) := by
  cases lab <;> unfold Allowed <;> infer_instance

/-- The client buffer that is still pending at the bridge. -/
def unsent (ch : Chan) : List Byte :=
  if s.link.Holds ch then s.inMem ch else []

/-- The link has moved on, and may have opened connections. -/
def moveOn (l : Link Byte) : Transport :=
  let opened ch := l.spid.conns ch ≠ s.link.spid.conns ch
  { s with
    link := l
    reported := fun ch => if opened ch then [] else s.reported ch
    passed := fun ch => if opened ch then s.unsent ch else s.passed ch
    kept := fun ch => if opened ch then true else s.kept ch }

/-- A client is called back. -/
def callBack (l : Link Byte) : Callback → Transport
  | .completionOut ch len =>
    { s with
      link := l
      reported := Function.update s.reported ch (s.reported ch ++ (l.outMem ch).content len)
      busyOut := Function.update s.busyOut ch false }
  | .completionIn ch => { s with link := l, busyIn := Function.update s.busyIn ch false }
  | _ => { s with link := l }

/-- The state after a label that leads the link to `l`. -/
def after (l : Link Byte) : TransportLabel → Transport
  | .setup _ => s.moveOn l
  | .transfer _ _ => s.moveOn l
  | .callback =>
    match s.link.handler with
    | .running (cb :: _) => s.callBack l cb
    | _ => { s with link := l }
  | .startIn ch _ bytes =>
    { s with
      link := l
      inMem := Function.update s.inMem ch bytes
      busyIn := Function.update s.busyIn ch true
      passed := Function.update s.passed ch (s.passed ch ++ bytes) }
  | .startOut ch _ => { s with link := l, busyOut := Function.update s.busyOut ch true }
  | .disableChan ch => { s with link := l, kept := Function.update s.kept ch false }
  | _ => { s with link := l }

def step (dummy : Byte) (lab : TransportLabel) : Option Transport :=
  if s.Allowed lab then
    (Link.step dummy s.link (s.toLink lab)).map fun l => s.after l lab
  else none

def machine (dummy : Byte) : Machine Transport TransportLabel := ⟨fun s => s.step dummy⟩

/-- **Exactly once and in order**, for the current connection of a channel.  OUT: the payloads
reported to the client, followed by what is in its buffer and by what waits in `spid`, are the bytes
read from the connection.  IN: the bytes written to the connection, followed by at most one pending
buffer, are the bytes passed by the client, as long as it does not disable the channel. -/
structure Delivered (ch : Chan) : Prop where
  out : (s.link.spid.chan ch).opened → (s.link.spid.chan ch).received =
    s.reported ch ++ s.link.inFlight ch ++ (s.link.spid.chan ch).buffered
  inn : (s.link.spid.chan ch).opened → s.kept ch →
    s.passed ch = (s.link.spid.chan ch).written ++ s.unsent ch

/-- The completion handler has run before SYNC goes low again. -/
def Prompt : TransportLabel → Prop
  | .syncLow _ => s.link.bridge.rxDone = false
  | _ => True

/-- The completion handler is prompt, and both sides agree on the data phase. -/
def Coordinated : TransportLabel → Prop
  | .syncLow _ => s.link.bridge.rxDone = false
  | .transfer _ _ => ∀ rx, s.link.phase = .high rx → s.link.Agrees rx
  | _ => True

instance (lab : TransportLabel) : Decidable (s.Prompt lab) := by
  cases lab <;> unfold Prompt <;> infer_instance

instance (lab : TransportLabel) : Decidable (s.Coordinated lab) := by
  cases lab <;> unfold Coordinated <;> infer_instance

/-! ### The link of the transport -/

variable {s} {t : Transport} {dummy : Byte} {lab : TransportLabel} {ch : Chan}

theorem after_link (s : Transport) (l : Link Byte) (lab : TransportLabel) :
    (s.after l lab).link = l := by
  cases lab with
  | callback =>
    unfold after
    dsimp only
    split
    · next cb _ _ => cases cb <;> rfl
    · rfl
  | _ => rfl

theorem step_eq_some : s.step dummy lab = some t ↔
    s.Allowed lab ∧ ∃ l, Link.step dummy s.link (s.toLink lab) = some l ∧ s.after l lab = t := by
  rw [step, Option.ite_none_right_eq_some, Option.map_eq_some_iff]

theorem step_toLink (h : s.step dummy lab = some t) :
    Link.step dummy s.link (s.toLink lab) = some t.link := by
  obtain ⟨-, l, hl, rfl⟩ := step_eq_some.1 h
  rwa [after_link]

theorem orderly_of_coordinated (ha : s.Allowed lab) (h : s.Coordinated lab) :
    s.link.Orderly (s.toLink lab) := by
  cases lab with
  | syncLow p => exact ⟨ha, h⟩
  | setup sys => exact ⟨rfl, rfl⟩
  | transfer socket pad => exact h
  | _ => trivial

/-! ### The account of one channel -/

/-- What `Transport` keeps for one channel. -/
structure Account where
  mem : List Byte
  busy : Bool
  reported : List Byte
  passed : List Byte
  kept : Bool

def account (s : Transport) (ch : Chan) : Account :=
  ⟨s.inMem ch, s.busyIn ch, s.reported ch, s.passed ch, s.kept ch⟩

/-- The account balances: besides `Delivered`, the client is busy with what the bridge holds, and
what the headers announce is what the client has passed. -/
structure Carried (l : Link Byte) (ch : Chan) (a : Account) : Prop where
  out : (l.spid.chan ch).opened → (l.spid.chan ch).received =
    a.reported ++ l.inFlight ch ++ (l.spid.chan ch).buffered
  inn : (l.spid.chan ch).opened → a.kept →
    a.passed = (l.spid.chan ch).written ++ if l.Holds ch then a.mem else []
  pending : l.bridge.inChanSize ch ≠ 0#8 →
    a.busy ∧ (l.bridge.inChanSize ch).toNat = a.mem.length
  shown : Shown l l.phase → l.bridge.ctrlTx.size ch ≠ 0#8 →
    a.busy ∧ (l.bridge.ctrlTx.size ch).toNat = a.mem.length
  low : ∀ p, l.phase = .low p → a.kept → l.bridge.ctrlTx.size ch ≠ 0#8 →
    l.bridge.inChanSize ch = l.bridge.ctrlTx.size ch
  setup : ∀ rx, l.phase = .setup rx → a.kept → movesIn l.bridge.ctrlRx l.bridge.ctrlTx ch →
    l.bridge.inChanSize ch = l.bridge.ctrlTx.size ch
  high : ∀ rx, l.phase = .high rx → movesIn l.bridge.ctrlRx l.bridge.ctrlTx ch →
    a.busy ∧ l.bridge.inChanSize ch = 0#8
  due : l.handler = .idle → l.bridge.rxDone → movesIn l.bridge.ctrlRx l.bridge.ctrlTx ch →
    a.busy ∧ l.bridge.inChanSize ch = 0#8
  todo : ∀ todo, l.handler = .running todo → .completionIn ch ∈ todo →
    a.busy ∧ l.bridge.inChanSize ch = 0#8
  once : ∀ todo, l.handler = .running todo → todo.count (.completionIn ch) ≤ 1
  told : ∀ todo, l.handler = .running todo → ∀ len, .completionOut ch len ∈ todo →
    movesOut l.bridge.ctrlRx l.bridge.ctrlTx ch

variable {l l' : Link Byte} {a : Account}

theorem size_of_movesIn {rx tx : ControlPkt} (h : movesIn rx tx ch) : tx.size ch ≠ 0#8 := by
  rw [movesIn, Bool.and_eq_true, bne_iff_ne] at h
  exact h.2

theorem carried_init (ch : Chan) : Carried Link.init ch (init.account ch) where
  out h := by
    have h' : Byte.has 0#8 ch = true := h
    rw [Byte.has_zero] at h'
    cases h'
  inn _ h := by cases h
  pending h := absurd rfl h
  shown := nofun
  low := nofun
  setup := nofun
  high := nofun
  due := nofun
  todo := nofun
  once := nofun
  told := nofun

/-! ### Calls of the clients -/

/-- A call that leaves what is pending on the channel as it is. -/
theorem Carried.call (h : Carried l ch a) {c : Call}
    (hsize : (l.bridge.call c).inChanSize ch = l.bridge.inChanSize ch) :
    Carried { l with bridge := l.bridge.call c } ch a := by
  have hholds : Holds { l with bridge := l.bridge.call c } ch ↔ l.Holds ch := by
    refine or_congr ?_ ?_
    · rw [← hsize]
    · cases c <;> exact Iff.rfl
  constructor
  case out => cases c <;> exact h.out
  case inn =>
    simp only [hholds]
    exact h.inn
  case pending =>
    intro hp
    obtain ⟨hb, hlen⟩ := h.pending fun hz => hp (hsize.trans hz)
    exact ⟨hb, (congrArg BitVec.toNat hsize).trans hlen⟩
  case shown => cases c <;> exact h.shown
  case low =>
    intro p hp hk hz
    refine hsize.trans ((h.low p hp hk ?_).trans ?_)
    · cases c <;> exact hz
    · cases c <;> rfl
  case setup =>
    intro rx hp hk hm
    refine hsize.trans ((h.setup rx hp hk ?_).trans ?_)
    · cases c <;> exact hm
    · cases c <;> rfl
  case high =>
    intro rx hp hm
    obtain ⟨hb, hz⟩ := h.high rx hp (by cases c <;> exact hm)
    exact ⟨hb, hsize.trans hz⟩
  case due =>
    intro hi hd hm
    obtain ⟨hb, hz⟩ := h.due hi (by cases c <;> exact hd) (by cases c <;> exact hm)
    exact ⟨hb, hsize.trans hz⟩
  case todo =>
    intro todo hr hm
    obtain ⟨hb, hz⟩ := h.todo todo hr hm
    exact ⟨hb, hsize.trans hz⟩
  case once => exact h.once
  case told => cases c <;> exact h.told

/-- A client that is not busy has nothing pending, and no transfer of it is under way. -/
theorem Carried.free (h : Carried l ch a) (hb : a.busy = false) :
    l.bridge.inChanSize ch = 0#8 ∧ ¬ l.Holds ch := by
  have hsize : l.bridge.inChanSize ch = 0#8 := by
    by_contra hz
    exact absurd (hb.symm.trans (h.pending hz).1) (by decide)
  refine ⟨hsize, ?_⟩
  rintro (hz | hm)
  · exact hz hsize
  · cases hphase : l.phase with
    | high rx =>
      simp only [moving, hphase] at hm
      exact absurd (hb.symm.trans (h.high rx hphase hm).1) (by decide)
    | _ => simp [moving, hphase] at hm

/-- A disciplined client passes a buffer. -/
theorem Carried.startIn (h : Carried l ch a) (hb : a.busy = false) (data : ℕ) {bytes : List Byte}
    (hlen : bytes.length ≤ spidBufSize) :
    Carried { l with
      bridge := l.bridge.call (.startIn ch data (BitVec.ofNat 8 bytes.length)) } ch
      { a with mem := bytes, busy := true, passed := a.passed ++ bytes } := by
  obtain ⟨-, hfree⟩ := h.free hb
  have hmoving : l.moving ch = false := Bool.eq_false_of_not_eq_true fun hm => hfree (.inr hm)
  have hnot {P : Prop} (hbusy : a.busy = true) : P := absurd (hb.symm.trans hbusy) (by decide)
  have hsize : (l.bridge.call (.startIn ch data (BitVec.ofNat 8 bytes.length))).inChanSize ch =
      BitVec.ofNat 8 bytes.length := Function.update_self ..
  have hval : (BitVec.ofNat 8 bytes.length).toNat = bytes.length := by
    rw [BitVec.toNat_ofNat]
    simp only [spidBufSize] at hlen
    omega
  constructor
  case out => exact h.out
  case inn =>
    intro ho hk
    have hp := h.inn ho hk
    rw [if_neg hfree, List.append_nil] at hp
    refine (congrArg (· ++ bytes) hp).trans (congrArg ((l.spid.chan ch).written ++ ·) ?_)
    -- an empty buffer is never transferred
    by_cases hz : bytes = []
    · rw [hz, ite_self]
    · refine (if_pos (.inl ?_)).symm
      rw [hsize, ne_eq, ← BitVec.toNat_inj, hval]
      exact fun h0 => hz (List.length_eq_zero_iff.1 h0)
  case pending => exact fun _ => ⟨rfl, (congrArg BitVec.toNat hsize).trans hval⟩
  case shown => exact fun hs hz => hnot (h.shown hs hz).1
  case low =>
    intro p hp hk hz
    exact hnot (h.shown (by rw [hp]; trivial) hz).1
  case setup =>
    intro rx hp hk hm
    exact hnot (h.shown (by rw [hp]; trivial) (size_of_movesIn hm)).1
  case high => exact fun rx hp hm => hnot (h.high rx hp hm).1
  case due => exact fun hi hd hm => hnot (h.due hi hd hm).1
  case todo => exact fun todo hr hm => hnot (h.todo todo hr hm).1
  case once => exact h.once
  case told => exact h.told

/-- A client disables its channel, and what is pending is dropped. -/
theorem Carried.disableChan (h : Carried l ch a) :
    Carried { l with bridge := l.bridge.call (.disableChan ch) } ch { a with kept := false } := by
  have hsize : (l.bridge.call (.disableChan ch)).inChanSize ch = 0#8 := Function.update_self ..
  constructor
  case out => exact h.out
  case inn => exact fun _ hk => nomatch hk
  case pending => exact fun hz => absurd hsize hz
  case shown => exact h.shown
  case low => exact fun _ _ hk => nomatch hk
  case setup => exact fun _ _ hk => nomatch hk
  case high => exact fun rx hp hm => ⟨(h.high rx hp hm).1, hsize⟩
  case due => exact fun hi hd hm => ⟨(h.due hi hd hm).1, hsize⟩
  case todo => exact fun todo hr hm => ⟨(h.todo todo hr hm).1, hsize⟩
  case once => exact h.once
  case told => exact h.told

/-! ### What is in flight -/

theorem inFlight_of_settled (hs : l.Settled) (ch : Chan) : l.inFlight ch = [] := by
  simp only [inFlight, hs.handler, hs.rxDone, Bool.false_eq_true, false_and, ↓reduceIte]

theorem flatMap_payload_callbacks (mem : Chan → Cells Byte spidBufSize) (w : Byte)
    (rx tx : ControlPkt) (ch : Chan) :
    (callbacks w (snapshotOf rx tx)).flatMap (payload mem ch) =
      if movesOut rx tx ch then (mem ch).content (rx.size ch).toNat else [] := by
  have hfilter (cbs : List Callback) :
      (cbs.filter (·.chan = ch)).flatMap (payload mem ch) = cbs.flatMap (payload mem ch) := by
    induction cbs with
    | nil => rfl
    | cons cb cbs ih =>
      rw [List.flatMap_cons, List.filter_cons, ← ih]
      split_ifs with hcb
      · rw [List.flatMap_cons]
      · have hnil : payload mem ch cb = [] := by
          cases cb with
          | completionOut c len => exact if_neg fun hc => hcb (decide_eq_true hc)
          | _ => rfl
        rw [hnil, List.nil_append]
  have hopen : (checkOpen w (snapshotOf rx tx) ch).toList.flatMap (payload mem ch) = [] := by
    unfold checkOpen
    split_ifs <;> rfl
  have hclose : (checkClose w (snapshotOf rx tx) ch).toList.flatMap (payload mem ch) = [] := by
    unfold checkClose
    split_ifs <;> rfl
  have hinn : (if movesIn rx tx ch then [Callback.completionIn ch] else []).flatMap
      (payload mem ch) = [] := by
    split_ifs <;> rfl
  have hout : (if movesOut rx tx ch then [Callback.completionOut ch (rx.size ch).toNat]
      else []).flatMap (payload mem ch) =
        if movesOut rx tx ch then (mem ch).content (rx.size ch).toNat else [] := by
    split_ifs
    · rw [List.flatMap_singleton]
      exact if_pos rfl
    · rfl
  rw [← hfilter, callbacks_chan, List.flatMap_append, List.flatMap_append, List.flatMap_append,
    hopen, hclose, hinn, hout, List.nil_append, List.append_nil, List.append_nil]

theorem mem_callbacks_completionOut {w : Byte} {rx tx : ControlPkt} {len : ℕ}
    (h : .completionOut ch len ∈ callbacks w (snapshotOf rx tx)) : movesOut rx tx ch := by
  have hm : Callback.completionOut ch len ∈
      (callbacks w (snapshotOf rx tx)).filter (·.chan = ch) :=
    List.mem_filter.2 ⟨h, decide_eq_true rfl⟩
  rw [callbacks_chan] at hm
  simp only [List.mem_append, Option.mem_toList] at hm
  obtain ((hm | hm) | hm) | hm := hm
  · cases eq_open_of_checkOpen hm
  · exact (List.mem_ite_nil_right.1 hm).1
  · cases List.mem_singleton.1 (List.mem_ite_nil_right.1 hm).2
  · cases eq_close_of_checkClose hm

/-- Nothing is in flight for a channel that the headers move nothing out on. -/
theorem Carried.inFlight_of_not_movesOut (h : Carried l ch a)
    (hm : movesOut l.bridge.ctrlRx l.bridge.ctrlTx ch = false) : l.inFlight ch = [] := by
  unfold inFlight
  cases hr : l.handler with
  | idle => simp [hm]
  | running todo =>
    refine List.flatMap_eq_nil_iff.2 fun cb hcb => ?_
    cases cb with
    | completionOut c len =>
      refine if_neg fun hc => ?_
      subst hc
      rw [h.told todo hr len hcb] at hm
      cases hm
    | _ => rfl

/-! ### Transactions -/

/-- SYNC low shows what is pending. -/
theorem Carried.syncLow (h : Carried l ch a) (hs : l.Settled) (hphase : l.phase = .top)
    (p : Polls) :
    Carried { l with bridge := l.bridge.handleSyncLow, phase := .low p } ch a := by
  have hholds : Holds { l with bridge := l.bridge.handleSyncLow, phase := .low p } ch ↔
      l.Holds ch := by
    refine or_congr Iff.rfl ?_
    simp [moving, hphase]
  have hin : inFlight { l with bridge := l.bridge.handleSyncLow, phase := .low p } ch = [] := by
    refine inFlight_of_settled ?_ ch
    exact ⟨hs.handler, rfl⟩
  constructor
  case out =>
    intro ho
    rw [hin, ← inFlight_of_settled hs ch]
    exact h.out ho
  case inn =>
    simp only [hholds]
    exact h.inn
  case pending => exact h.pending
  case shown => exact fun _ => h.pending
  case low => exact fun _ _ _ _ => rfl
  case setup => exact nofun
  case high => exact nofun
  case due => exact nofun
  case todo => exact fun todo hr => nomatch hs.handler.symm.trans hr
  case once => exact fun todo hr => nomatch hs.handler.symm.trans hr
  case told => exact fun todo hr => nomatch hs.handler.symm.trans hr

/-- The account of a new connection. -/
def Account.reopen (a : Account) (l : Link Byte) (ch : Chan) : Account :=
  { a with reported := [], passed := if l.Holds ch then a.mem else [], kept := true }

/-- The account after a part of a pass that may have opened a connection. -/
def Account.moveOn (a : Account) (l l' : Link Byte) (ch : Chan) : Account :=
  if l'.spid.conns ch = l.spid.conns ch then a else a.reopen l ch

theorem Account.moveOn_of_keeps (h : (l.spid.chan ch).Keeps (l'.spid.chan ch)) :
    a.moveOn l l' ch = a := if_pos h.conns

theorem Account.moveOn_of_fresh (h : (l.spid.chan ch).Fresh (l'.spid.chan ch)) :
    a.moveOn l l' ch = a.reopen l ch := by
  refine if_neg fun heq => ?_
  have hconns : l'.spid.conns ch = l.spid.conns ch + 1 := h.conns
  omega

@[simp] theorem Account.moveOn_busy : (a.moveOn l l' ch).busy = a.busy := by
  unfold moveOn
  split_ifs <;> rfl

@[simp] theorem Account.moveOn_mem : (a.moveOn l l' ch).mem = a.mem := by
  unfold moveOn
  split_ifs <;> rfl

/-- The connections are served, and the headers cross. -/
theorem Carried.setupHeaders (h : Carried l ch a) (hord : l.InOrder) {p : Polls}
    (hphase : l.phase = .low p) (sys : SysCalls) :
    Carried (l.setup p sys none none) ch (a.moveOn l (l.setup p sys none none) ch) := by
  have hp := hord.inPhase
  rw [hphase] at hp
  obtain ⟨hs, -⟩ := hp
  obtain ⟨hsock, hin, hout, -⟩ := hord.polls p hphase ch
  have hserve := Spid.chan_serve l.spid p sys ch
  have hholds : (l.setup p sys none none).Holds ch ↔ l.Holds ch := by
    refine or_congr Iff.rfl ?_
    simp [moving, hphase, Link.setup]
  have hin₀ : l.inFlight ch = [] := inFlight_of_settled hs ch
  have hin₁ : (l.setup p sys none none).inFlight ch = [] := by
    refine inFlight_of_settled ?_ ch
    exact ⟨hs.handler, hs.rxDone⟩
  have hready : movesIn (l.spid.serve p sys).header l.bridge.ctrlTx ch →
      ((l.spid.serve p sys).chan ch).writable := by
    intro hm
    rw [movesIn, Bool.and_eq_true, Spid.header_ready] at hm
    exact hm.1
  -- a connection is served as it is, or it has been accepted in this pass
  have hcases := (hord.spid ch).keeps_or_fresh_serve sys hsock hin hout
  rw [← hserve] at hcases
  constructor
  case out =>
    intro ho
    rw [hin₁]
    obtain hk | hf := hcases
    · obtain ⟨bytes, hc⟩ := hk.continues ho
      have hprev := h.out hc.opened
      rw [hin₀] at hprev
      rw [Account.moveOn_of_keeps hk]
      show ((l.spid.serve p sys).chan ch).received = _
      rw [hc.received, hprev, List.append_assoc, ← hc.buffered]
      rfl
    · rw [Account.moveOn_of_fresh hf]
      show ((l.spid.serve p sys).chan ch).received = _
      rw [hf.received]
      show [] = [] ++ [] ++ ((l.spid.serve p sys).chan ch).buffered
      rw [ChanState.buffered, hf.outLength]
      rfl
  case inn =>
    intro ho hkept
    simp only [hholds]
    obtain hk | hf := hcases
    · obtain ⟨bytes, hc⟩ := hk.continues ho
      rw [Account.moveOn_of_keeps hk] at hkept ⊢
      show _ = ((l.spid.serve p sys).chan ch).written ++ _
      rw [hk.written]
      exact h.inn hc.opened hkept
    · rw [Account.moveOn_of_fresh hf]
      show _ = ((l.spid.serve p sys).chan ch).written ++ _
      rw [hf.written]
      rfl
  case pending =>
    rw [Account.moveOn_busy, Account.moveOn_mem]
    exact h.pending
  case shown =>
    rw [Account.moveOn_busy, Account.moveOn_mem]
    exact fun _ => h.shown (by rw [hphase]; trivial)
  case low => rintro p ⟨⟩
  case setup =>
    intro rx _ hkept hm
    obtain hk | hf := hcases
    · rw [Account.moveOn_of_keeps hk] at hkept
      exact h.low p hphase hkept (size_of_movesIn hm)
    · have hw := hready hm
      rw [hf.writable] at hw
      cases hw
  case high => rintro p ⟨⟩
  case due =>
    intro _ hd
    have hd' : l.bridge.rxDone = true := hd
    rw [hs.rxDone] at hd'
    cases hd'
  case todo =>
    intro todo hr
    cases hs.handler.symm.trans hr
  case once =>
    intro todo hr
    cases hs.handler.symm.trans hr
  case told =>
    intro todo hr
    cases hs.handler.symm.trans hr

/-- SYNC high takes the transfers that the headers agree on. -/
theorem Carried.syncHigh (h : Carried l ch a) (hord : l.InOrder) {rx : ControlPkt}
    (hphase : l.phase = .setup rx) :
    Carried { l with bridge := l.bridge.handleSyncHigh, phase := .high rx } ch a := by
  have hp := hord.inPhase
  rw [hphase] at hp
  obtain ⟨hs, hcr⟩ := hp
  have hcmd := hcr.header
  have hshown : Shown l l.phase := by rw [hphase]; trivial
  have hsize := handleSyncHigh_inChanSize hcmd ch
  have hin₀ : l.inFlight ch = [] := inFlight_of_settled hs ch
  -- the completion interrupt is raised here only when there is nothing to move
  have hnone (hdone : l.bridge.handleSyncHigh.rxDone = true) :
      movesOut l.bridge.ctrlRx l.bridge.ctrlTx ch = false ∧
        movesIn l.bridge.ctrlRx l.bridge.ctrlTx ch = false := by
    rw [handleSyncHigh_of_cmd hcmd] at hdone
    dsimp only at hdone
    by_cases hc : l.bridge.plannedChain = []
    · exact segments_eq_nil_iff.1 (plannedChain_eq_nil_iff.1 hc) ch
    · rw [if_pos hc] at hdone
      cases hdone
  have hin₁ : inFlight { l with bridge := l.bridge.handleSyncHigh, phase := .high rx } ch = [] := by
    unfold inFlight
    rw [hs.handler]
    dsimp only
    refine if_neg ?_
    rintro ⟨hdone, hm⟩
    rw [handleSyncHigh_ctrlRx, handleSyncHigh_ctrlTx, (hnone hdone).1] at hm
    cases hm
  constructor
  case out =>
    intro ho
    rw [hin₁, ← hin₀]
    exact h.out ho
  case inn =>
    intro ho hk
    have hholds : Holds { l with bridge := l.bridge.handleSyncHigh, phase := .high rx } ch ↔
        l.Holds ch := by
      show l.bridge.handleSyncHigh.inChanSize ch ≠ 0#8 ∨
        movesIn l.bridge.handleSyncHigh.ctrlRx l.bridge.handleSyncHigh.ctrlTx ch = true ↔
          l.bridge.inChanSize ch ≠ 0#8 ∨ l.moving ch = true
      have hmoving : l.moving ch = false := by simp [moving, hphase]
      rw [hsize, handleSyncHigh_ctrlRx, handleSyncHigh_ctrlTx, hmoving]
      by_cases hm : movesIn l.bridge.ctrlRx l.bridge.ctrlTx ch = true
      · have hkeep := h.setup rx hphase hk hm
        have hz := size_of_movesIn hm
        rw [← hkeep] at hz
        exact iff_of_true (.inr hm) (.inl hz)
      · rw [if_neg hm, Bool.eq_false_of_not_eq_true hm]
    simp only [hholds]
    exact h.inn ho hk
  case pending =>
    show l.bridge.handleSyncHigh.inChanSize ch ≠ 0#8 →
      _ ∧ (l.bridge.handleSyncHigh.inChanSize ch).toNat = _
    rw [hsize]
    split_ifs
    · exact fun hz => absurd rfl hz
    · exact h.pending
  case shown =>
    intro _
    show l.bridge.handleSyncHigh.ctrlTx.size ch ≠ 0#8 →
      _ ∧ (l.bridge.handleSyncHigh.ctrlTx.size ch).toNat = _
    rw [handleSyncHigh_ctrlTx]
    exact h.shown hshown
  case low => rintro p ⟨⟩
  case setup => rintro p ⟨⟩
  case high =>
    intro rx' _ hm
    have hm' : movesIn l.bridge.ctrlRx l.bridge.ctrlTx ch = true := by
      rw [← handleSyncHigh_ctrlRx, ← handleSyncHigh_ctrlTx]
      exact hm
    rw [if_pos hm'] at hsize
    exact ⟨(h.shown hshown (size_of_movesIn hm')).1, hsize⟩
  case due =>
    intro _ hd hm
    have hm' : movesIn l.bridge.ctrlRx l.bridge.ctrlTx ch = true := by
      rw [← handleSyncHigh_ctrlRx, ← handleSyncHigh_ctrlTx]
      exact hm
    rw [(hnone hd).2] at hm'
    cases hm'
  case todo =>
    intro todo hr
    cases hs.handler.symm.trans hr
  case once =>
    intro todo hr
    cases hs.handler.symm.trans hr
  case told =>
    intro todo hr
    cases hs.handler.symm.trans hr

section Transfer

variable {rx : ControlPkt} (dummy : Byte) (socket : ℕ) (pad : List Byte)

/-- **OUT**: the data phase moves what is buffered in `spid` to the client. -/
theorem Carried.out_transfer (h : Carried l ch a) (hord : l.InOrder)
    (hphase : l.phase = .high rx) (hagree : l.Agrees rx) (mem : Desc → List Byte) :
    (l.transfer dummy rx (takingAll socket) mem pad).inFlight ch ++
        ((l.transfer dummy rx (takingAll socket) mem pad).spid.chan ch).buffered =
      l.inFlight ch ++ (l.managed rx socket ch).buffered := by
  have hbuf : ((l.transfer dummy rx (takingAll socket) mem pad).spid.chan ch).buffered =
      ((l.managed rx socket ch).plan (rx.ready ch)).buffered := by
    rw [hord.chan_transfer hphase hagree dummy _ mem pad ch]
    rfl
  have hmoves := hord.movesOut_iff hphase hagree socket ch
  by_cases hm : movesOut l.bridge.ctrlRx l.bridge.ctrlTx ch = true
  · have hc := hord.chain_ne_nil hphase (.inl hm)
    have hmem := hord.outMem_transfer hphase hagree dummy (takingAll socket) mem pad hm
    have hplan : ((l.managed rx socket ch).plan (rx.ready ch)).buffered = [] := by
      rw [ChanState.plan, if_pos (hmoves.1 hm)]
      rfl
    rw [hbuf, hplan, List.append_nil, inFlight_of_settled (hord.settled_of_chain hphase hc) ch,
      List.nil_append]
    obtain ⟨hc', -⟩ | ⟨-, he⟩ := hord.transfer_cases hphase hagree dummy (takingAll socket) mem pad
    · exact absurd hc' hc
    · rw [he] at hmem ⊢
      unfold inFlight
      rw [(hord.settled_of_chain hphase hc).handler]
      dsimp only
      rw [if_pos ⟨rfl, hm⟩]
      exact hmem
  · have hplan : (l.managed rx socket ch).plan (rx.ready ch) = l.managed rx socket ch :=
      if_neg (hm ∘ hmoves.2)
    rw [hbuf, hplan]
    congr 1
    have hm' := Bool.eq_false_of_not_eq_true hm
    rw [h.inFlight_of_not_movesOut hm']
    obtain ⟨-, he⟩ | ⟨hc, he⟩ := hord.transfer_cases hphase hagree dummy (takingAll socket) mem pad
    · rw [he]
      exact h.inFlight_of_not_movesOut hm'
    · rw [he]
      unfold inFlight
      rw [(hord.settled_of_chain hphase hc).handler]
      dsimp only
      rw [if_neg fun hd => hm hd.2]

/-- **IN**: the data phase moves the client buffer to the connection. -/
theorem Carried.inn_transfer (h : Carried l ch a) (hord : l.InOrder)
    (hphase : l.phase = .high rx) (hagree : l.Agrees rx) {mem : Desc → List Byte}
    (hmem : ∀ d, d.chan = ch → mem d = a.mem) :
    (((l.transfer dummy rx (takingAll socket) mem pad).spid.chan ch).written ++
        if (l.transfer dummy rx (takingAll socket) mem pad).Holds ch then a.mem else []) =
      (l.managed rx socket ch).written ++ if l.Holds ch then a.mem else [] := by
  have hsize : (l.transfer dummy rx (takingAll socket) mem pad).bridge.inChanSize ch =
      l.bridge.inChanSize ch := by
    obtain ⟨-, he⟩ | ⟨-, he⟩ := hord.transfer_cases hphase hagree dummy (takingAll socket) mem pad
    · rw [he]
    · rw [he]
      rfl
  have htop : (l.transfer dummy rx (takingAll socket) mem pad).moving ch = false := by
    obtain ⟨-, he⟩ | ⟨-, he⟩ := hord.transfer_cases hphase hagree dummy (takingAll socket) mem pad
    · rw [he]
      rfl
    · rw [he]
      rfl
  have hmoving : l.moving ch = movesIn l.bridge.ctrlRx l.bridge.ctrlTx ch := by
    simp [moving, hphase]
  -- after the pass only the bridge can still hold the data of the client
  have hto : (l.transfer dummy rx (takingAll socket) mem pad).Holds ch ↔
      l.bridge.inChanSize ch ≠ 0#8 := by
    unfold Holds
    rw [hsize, htop]
    simp
  have hfrom : l.Holds ch ↔ l.bridge.inChanSize ch ≠ 0#8 ∨
      movesIn l.bridge.ctrlRx l.bridge.ctrlTx ch := by
    unfold Holds
    rw [hmoving]
  simp only [Spid.chan_written, hto, hfrom]
  obtain ⟨hm, hw⟩ | ⟨d, hd, hg, hm, hw⟩ := hord.written_transfer hphase hagree dummy
    (takingAll socket) pad fun d _ d' _ _ _ hd hd' => (hmem d' hd').trans (hmem d hd).symm
  · simp only [hw, hm, Bool.false_eq_true, or_false]
    rfl
  · -- the segment carries the whole of it, and the daemon writes it to the socket at once
    obtain ⟨hbusy, hz⟩ := h.high rx hphase hm
    have hdir : d.dir = .inn := congrArg Segment.dir hg
    have hlen : d.len = (l.bridge.ctrlTx.size ch).toNat := congrArg Segment.len hg
    have hc : l.bridge.chain ≠ [] := List.ne_nil_of_mem hd
    obtain ⟨-, hfit⟩ := h.shown (by rw [hphase]; exact hc) (size_of_movesIn hm)
    have hbuf : mem d = a.mem := hmem d (congrArg Segment.chan hg)
    have hsend : (d.sends dummy mem).take spidBufSize = a.mem := by
      have hle := (l.bridge.ctrlTx.size ch).isLt
      rw [Desc.sends_of_le hdir (by rw [hbuf, hlen, hfit]), hbuf, hlen, hfit, List.take_length]
      refine List.take_of_length_le ?_
      simp only [spidBufSize]
      omega
    rw [if_neg (not_not.2 hz), if_pos (.inr hm), hw, List.append_nil]
    exact congrArg _ hsend

/-- The end of a pass. -/
theorem Carried.transfer (h : Carried l ch a) (hord : l.InOrder) (hphase : l.phase = .high rx)
    (hagree : l.Agrees rx) {mem : Desc → List Byte} (hmem : ∀ d, d.chan = ch → mem d = a.mem) :
    Carried (l.transfer dummy rx (takingAll socket) mem pad) ch
      (a.moveOn l (l.transfer dummy rx (takingAll socket) mem pad) ch) := by
  have hout := h.out_transfer dummy socket pad hord hphase hagree mem
  have hinn := h.inn_transfer dummy socket pad hord hphase hagree hmem
  have hchan := hord.chan_transfer hphase hagree dummy (takingAll socket) mem pad ch
  have hcases := hord.transfer_cases hphase hagree dummy (takingAll socket) mem pad
  generalize l.transfer dummy rx (takingAll socket) mem pad = t at hout hinn hchan hcases ⊢
  have hplan : ((l.managed rx socket ch).plan (rx.ready ch)).opened =
        (l.managed rx socket ch).opened ∧
      ((l.managed rx socket ch).plan (rx.ready ch)).received =
        (l.managed rx socket ch).received ∧
      ((l.managed rx socket ch).plan (rx.ready ch)).conns = (l.managed rx socket ch).conns := by
    unfold ChanState.plan
    split_ifs <;> exact ⟨rfl, rfl, rfl⟩
  have hopened : (t.spid.chan ch).opened = (l.managed rx socket ch).opened := by
    rw [hchan]
    exact hplan.1
  have hreceived : (t.spid.chan ch).received = (l.managed rx socket ch).received := by
    rw [hchan]
    exact hplan.2.1
  have hconns : (t.spid.chan ch).conns = (l.managed rx socket ch).conns := by
    rw [hchan]
    exact hplan.2.2
  have htop : t.phase = .top := by
    obtain ⟨-, he⟩ | ⟨-, he⟩ := hcases <;> rw [he]
  -- either the connection is the one that was there, or it is a new one of the USB channel
  have hmanage : (l.spid.chan ch).Keeps (l.managed rx socket ch) ∧ a.moveOn l t ch = a ∨
      (l.spid.chan ch).Fresh (l.managed rx socket ch) ∧ a.moveOn l t ch = a.reopen l ch := by
    obtain hk | hf := (hord.spid ch).keeps_or_fresh_manage (rx.connected ch) socket
    · exact .inl ⟨hk, if_pos (hconns.trans hk.conns)⟩
    · refine .inr ⟨hf, if_neg fun heq => ?_⟩
      have hnew : t.spid.conns ch = l.spid.conns ch + 1 := hconns.trans hf.conns
      omega
  constructor
  case out =>
    intro ho
    rw [hreceived, List.append_assoc, hout]
    rw [hopened] at ho
    obtain ⟨hk, he⟩ | ⟨hf, he⟩ := hmanage
    · obtain ⟨bytes, hc⟩ := hk.continues ho
      rw [he, hc.received, h.out hc.opened, hc.buffered]
      simp only [List.append_assoc]
    · have hno : movesOut l.bridge.ctrlRx l.bridge.ctrlTx ch = false := by
        refine Bool.eq_false_of_not_eq_true fun hm => ?_
        have hpos := ((hord.movesOut_iff hphase hagree socket ch).1 hm).2
        rw [show (l.managed rx socket ch).outLength = 0 from hf.outLength] at hpos
        omega
      rw [he, h.inFlight_of_not_movesOut hno, hf.received, ChanState.buffered, hf.outLength]
      rfl
  case inn =>
    intro ho hkept
    rw [Account.moveOn_mem, hinn]
    rw [hopened] at ho
    obtain ⟨hk, he⟩ | ⟨hf, he⟩ := hmanage
    · obtain ⟨bytes, hc⟩ := hk.continues ho
      rw [he] at hkept ⊢
      rw [hk.written]
      exact h.inn hc.opened hkept
    · rw [he, hf.written]
      rfl
  case pending =>
    rw [Account.moveOn_busy, Account.moveOn_mem]
    obtain ⟨-, he⟩ | ⟨-, he⟩ := hcases
    · rw [he]
      exact h.pending
    · rw [he]
      exact h.pending
  case shown =>
    intro hs
    rw [htop] at hs
    exact hs.elim
  case low =>
    intro p hp
    cases htop.symm.trans hp
  case setup =>
    intro p hp
    cases htop.symm.trans hp
  case high =>
    intro p hp
    cases htop.symm.trans hp
  case due =>
    rw [Account.moveOn_busy]
    obtain ⟨-, he⟩ | ⟨hc, he⟩ := hcases
    · rw [he]
      exact h.due
    · rw [he]
      exact fun _ _ hm => h.high rx hphase hm
  case todo =>
    rw [Account.moveOn_busy]
    obtain ⟨-, he⟩ | ⟨-, he⟩ := hcases
    · rw [he]
      exact h.todo
    · rw [he]
      exact h.todo
  case once =>
    obtain ⟨-, he⟩ | ⟨-, he⟩ := hcases <;> rw [he] <;> exact h.once
  case told =>
    obtain ⟨-, he⟩ | ⟨-, he⟩ := hcases <;> rw [he] <;> exact h.told

end Transfer

/-! ### The completion handler -/

/-- The handler copies the headers: what was due is now to be reported. -/
theorem Carried.copy (h : Carried l ch a) (hord : l.InOrder) (hidle : l.handler = .idle)
    (hdone : l.bridge.rxDone) : Carried l.copy ch a := by
  have he : l.copy =
      { l with handler := .running (callbacks l.bridge.wasOpen l.bridge.takeSnapshot) } :=
    if_pos (hord.data hdone)
  -- the payloads in flight become those of the callbacks that are planned
  have hin : l.copy.inFlight ch = l.inFlight ch := by
    rw [he]
    show (callbacks l.bridge.wasOpen (snapshotOf l.bridge.ctrlRx l.bridge.ctrlTx)).flatMap
      (payload l.outMem ch) = _
    rw [flatMap_payload_callbacks]
    unfold inFlight
    rw [hidle, hdone]
    simp
  constructor
  case out =>
    rw [hin, he]
    exact h.out
  case inn =>
    rw [he]
    exact h.inn
  case pending =>
    rw [he]
    exact h.pending
  case shown =>
    rw [he]
    exact h.shown
  case low =>
    rw [he]
    exact h.low
  case setup =>
    rw [he]
    exact h.setup
  case high =>
    rw [he]
    exact h.high
  case due =>
    rw [he]
    exact nofun
  case todo =>
    rw [he]
    intro todo hr hm
    cases hr
    exact h.due hidle hdone (mem_callbacks_completionIn.1 hm)
  case once =>
    rw [he]
    intro todo hr
    cases hr
    exact (count_completionIn_callbacks _ _ _ ch).le.trans (by split_ifs <;> omega)
  case told =>
    rw [he]
    intro todo hr len hm
    cases hr
    exact mem_callbacks_completionOut hm

/-- The account after a callback. -/
def Account.credit (a : Account) (mem : Chan → Cells Byte spidBufSize) (ch : Chan)
    (cb : Callback) : Account :=
  { a with
    busy := a.busy && cb != .completionIn ch
    reported := a.reported ++ payload mem ch cb }

/-- The handler makes a callback. -/
theorem Carried.callback (h : Carried l ch a) (hord : l.InOrder) {cb : Callback}
    {todo : List Callback} (hrun : l.handler = .running (cb :: todo)) :
    Carried { l with handler := .running todo } ch (a.credit l.outMem ch cb) := by
  have hbusy {P : Prop} (hb : a.busy = true ∧ P) (hcb : cb ≠ .completionIn ch) :
      (a.credit l.outMem ch cb).busy = true ∧ P := by
    refine ⟨?_, hb.2⟩
    show (a.busy && cb != .completionIn ch) = true
    rw [hb.1, bne_iff_ne.2 hcb]
    rfl
  have hshown (hs : Shown l l.phase) : False :=
    nomatch (hord.settled_of_shown hs).handler.symm.trans hrun
  constructor
  case out =>
    intro ho
    have hsplit : l.inFlight ch =
        payload l.outMem ch cb ++ todo.flatMap (payload l.outMem ch) := by
      unfold inFlight
      rw [hrun]
      exact List.flatMap_cons
    rw [show (l.spid.chan ch).received = _ from h.out ho, hsplit]
    show _ = a.reported ++ payload l.outMem ch cb ++ todo.flatMap (payload l.outMem ch) ++ _
    simp only [List.append_assoc]
  case inn => exact h.inn
  case pending =>
    refine fun hz => hbusy (h.pending hz) fun hcb => ?_
    exact hz (h.todo _ hrun (hcb ▸ List.mem_cons_self)).2
  case shown => exact fun hs => (hshown hs).elim
  case low => exact h.low
  case setup => exact h.setup
  case high =>
    intro rx hphase hm
    refine (hshown ?_).elim
    have hphase' : l.phase = .high rx := hphase
    rw [hphase']
    exact hord.chain_ne_nil hphase (.inr hm)
  case due => exact nofun
  case todo =>
    intro todo' hr hm
    cases hr
    refine hbusy (h.todo _ hrun (List.mem_cons_of_mem _ hm)) fun hcb => ?_
    -- the in-completion has been made, and there is only one
    have honce := h.once _ hrun
    rw [hcb, List.count_cons_self] at honce
    have := List.one_le_count_iff.2 hm
    omega
  case once =>
    intro todo' hr
    cases hr
    exact (List.count_le_count_cons).trans (h.once _ hrun)
  case told =>
    intro todo' hr len hm
    cases hr
    exact h.told _ hrun len (List.mem_cons_of_mem _ hm)

/-- The end of the handler. -/
theorem Carried.writeBack (h : Carried l ch a) (hrun : l.handler = .running []) :
    Carried { l with bridge := l.bridge.writeBack, handler := .idle } ch a := by
  have hin₀ : l.inFlight ch = [] := by
    unfold inFlight
    rw [hrun]
    rfl
  have hin₁ : inFlight { l with bridge := l.bridge.writeBack, handler := .idle } ch = [] :=
    inFlight_of_settled ⟨rfl, rfl⟩ ch
  constructor
  case out =>
    intro ho
    rw [hin₁, ← hin₀]
    exact h.out ho
  case inn => exact h.inn
  case pending => exact h.pending
  case shown => exact h.shown
  case low => exact h.low
  case setup => exact h.setup
  case high => exact h.high
  case due => exact nofun
  case todo => exact nofun
  case once => exact nofun
  case told => exact nofun

/-! ### Runs -/

theorem account_moveOn (s : Transport) (l : Link Byte) (ch : Chan) :
    (s.moveOn l).account ch = (s.account ch).moveOn s.link l ch := by
  unfold Account.moveOn
  by_cases hc : l.spid.conns ch = s.link.spid.conns ch
  · rw [if_pos hc]
    simp [account, moveOn, hc]
  · rw [if_neg hc]
    simp [account, moveOn, Account.reopen, unsent, hc]

theorem account_callBack (s : Transport) (l : Link Byte) (cb : Callback) (ch : Chan) :
    (s.callBack l cb).account ch = (s.account ch).credit l.outMem ch cb := by
  cases cb with
  | completionOut c len =>
    by_cases hc : ch = c
    · subst hc
      simp [account, callBack, Account.credit, payload]
    · simp [account, callBack, Account.credit, payload, hc, Ne.symm hc]
  | completionIn c =>
    by_cases hc : ch = c
    · subst hc
      simp [account, callBack, Account.credit, payload]
    · simp [account, callBack, Account.credit, payload, hc, Ne.symm hc]
  | «open» c => simp [account, callBack, Account.credit, payload]
  | close c => simp [account, callBack, Account.credit, payload]

theorem account_startIn (s : Transport) (l : Link Byte) (c : Chan) (data : ℕ)
    (bytes : List Byte) (ch : Chan) : (s.after l (.startIn c data bytes)).account ch =
      if ch = c then
        { s.account ch with mem := bytes, busy := true, passed := s.passed ch ++ bytes }
      else s.account ch := by
  split_ifs with hc
  · subst hc
    simp [account, after]
  · simp [account, after, hc]

theorem account_disableChan (s : Transport) (l : Link Byte) (c ch : Chan) :
    (s.after l (.disableChan c)).account ch =
      if ch = c then { s.account ch with kept := false } else s.account ch := by
  split_ifs with hc
  · subst hc
    simp [account, after]
  · simp [account, after, hc]

/-- **Every coordinated step keeps the account of each channel balanced.** -/
theorem Carried.step (h : Carried s.link ch (s.account ch)) (hord : s.link.InOrder)
    (hok : s.Coordinated lab) (hst : s.step dummy lab = some t) :
    Carried t.link ch (t.account ch) := by
  obtain ⟨hallow, l, hl, rfl⟩ := step_eq_some.1 hst
  rw [after_link]
  cases lab with
  | syncLow p =>
    obtain ⟨hphase, -, rfl⟩ := step_syncLow.1 hl
    exact h.syncLow ⟨hallow, hok⟩ hphase p
  | setup sys =>
    obtain ⟨p, hphase, rfl⟩ := step_setup.1 hl
    show Carried _ ch ((s.moveOn _).account ch)
    rw [account_moveOn]
    exact h.setupHeaders hord hphase sys
  | syncHigh =>
    obtain ⟨rx, hphase, rfl⟩ := step_syncHigh.1 hl
    exact h.syncHigh hord hphase
  | transfer socket pad =>
    obtain ⟨rx, hphase, rfl⟩ := step_transfer.1 hl
    show Carried _ ch ((s.moveOn _).account ch)
    rw [account_moveOn]
    refine h.transfer dummy socket pad hord hphase (hok rx hphase) fun d hd => ?_
    rw [memory, hd]
    rfl
  | copy =>
    obtain ⟨hidle, hdone, rfl⟩ := step_copy.1 hl
    exact h.copy hord hidle hdone
  | callback =>
    obtain ⟨cb, todo, hrun, rfl⟩ := step_callback.1 hl
    have hafter : s.after { s.link with handler := .running todo } .callback =
        s.callBack { s.link with handler := .running todo } cb := by
      simp only [after, hrun]
    rw [hafter, account_callBack]
    exact h.callback hord hrun
  | writeBack =>
    obtain ⟨hrun, rfl⟩ := step_writeBack.1 hl
    exact h.writeBack hrun
  | startIn c data bytes =>
    cases hl
    rw [account_startIn]
    split_ifs with hc
    · subst hc
      exact h.startIn hallow.1 data hallow.2
    · exact h.call (Function.update_of_ne hc _ _)
  | startOut c data =>
    cases hl
    exact h.call rfl
  | enableChan c =>
    cases hl
    exact h.call rfl
  | disableChan c =>
    cases hl
    rw [account_disableChan]
    split_ifs with hc
    · subst hc
      exact h.disableChan
    · exact h.call (Function.update_of_ne hc _ _)

/-- **Exactly-once, in-order transport** on every channel, in every run in which the completion
handler is prompt and both sides agree on every data phase. -/
theorem delivered {labs : List TransportLabel}
    (hrun : (machine dummy).Run Coordinated init labs s) (ch : Chan) : s.Delivered ch := by
  have h : s.link.InOrder ∧ ∀ ch, Carried s.link ch (s.account ch) := by
    refine hrun.invariant (I := fun s => s.link.InOrder ∧ ∀ ch, Carried s.link ch (s.account ch))
      ⟨inOrder_init, carried_init⟩ fun t lab t' ht hok hst => ?_
    have hallow := (step_eq_some.1 hst).1
    exact ⟨ht.1.step (orderly_of_coordinated hallow hok) (step_toLink hst),
      fun ch => (ht.2 ch).step ht.1 hok hst⟩
  exact ⟨(h.2 ch).out, (h.2 ch).inn⟩

/-- A pass of the main loop. -/
def pass (p : Polls) (bytes : List Byte) : List TransportLabel :=
  [.syncLow p, .setup (reading bytes), .syncHigh, .transfer 6 []]

/-- The two port channels are enabled and ready, and a connection is accepted on each of them. -/
def connectRun : List TransportLabel :=
  [.enableChan 1, .enableChan 2, .startOut 1 0, .startOut 2 0] ++ pass noPolls [] ++
    pass { noPolls with sockIn := fun ch => ch = 1 ∨ ch = 2 } [] ++
    [.copy, .callback, .callback, .writeBack]

/-- On channel 1 a byte goes out and two bytes come in. -/
def exchangeRun : List TransportLabel :=
  connectRun ++ [.startIn 1 0 [0x07#8, 0x08#8]] ++
    pass { noPolls with connIn := fun ch => ch = 1, connOut := fun ch => ch = 1 ∨ ch = 2 }
      [0x05#8] ++
    [.copy, .callback, .callback, .writeBack]

theorem delivered_exchangeRun :
    ∃ s, (machine 0#8).exec init exchangeRun = some s ∧ s.kept 1 = true ∧
      s.reported 1 = [0x05#8] ∧ s.passed 1 = [0x07#8, 0x08#8] ∧
      (s.link.spid.chan 1).written = [0x07#8, 0x08#8] ∧ s.Delivered 1 := by
  have h : ((machine 0#8).execOk (fun s lab => decide (s.Coordinated lab)) init exchangeRun).map
      (fun s => (s.kept 1, s.reported 1, s.passed 1, (s.link.spid.chan 1).written)) =
        some (true, [0x05#8], [0x07#8, 0x08#8], [0x07#8, 0x08#8]) := by decide +kernel
  obtain ⟨s, hs, hval⟩ := Option.map_eq_some_iff.1 h
  simp only [Prod.mk.injEq] at hval
  have hrun := Machine.run_of_execOk Coordinated (fun _ _ => of_decide_eq_true) hs
  exact ⟨s, hrun.exec_eq, hval.1, hval.2.1, hval.2.2.1, hval.2.2.2, delivered hrun 1⟩

/-- After a transfer on channel 1, its client disables the channel and starts the next OUT
transfer; both sockets have a byte to send. -/
def restartRun : List TransportLabel :=
  connectRun ++
    pass { noPolls with connIn := fun ch => ch = 1, connOut := fun ch => ch = 1 ∨ ch = 2 }
      [0x05#8] ++
    [.copy, .callback, .writeBack, .disableChan 1, .startOut 1 0] ++
    pass { noPolls with connIn := fun ch => ch = 1 ∨ ch = 2 } [0x06#8]

/-- Transport is not exactly once in every run with a prompt completion handler: `spid` closes
channel 1, which the MCU is ready to receive on, and the payload of channel 2 never reaches its
client. -/
theorem payload_misplaced :
    ¬ ∀ (dummy : Byte) (labs : List TransportLabel) (s : Transport) (ch : Chan),
      (machine dummy).Run Prompt init labs s → s.Delivered ch := by
  intro hall
  have h : ((machine 0#8).execOk (fun s lab => decide (s.Prompt lab)) init restartRun).map
      (fun s => ((s.link.spid.chan 2).opened, (s.link.spid.chan 2).received,
        s.reported 2 ++ s.link.inFlight 2 ++ (s.link.spid.chan 2).buffered)) =
          some (true, [0x06#8], []) := by decide +kernel
  obtain ⟨s, hs, hval⟩ := Option.map_eq_some_iff.1 h
  simp only [Prod.mk.injEq] at hval
  obtain ⟨ho, hreceived, hrest⟩ := hval
  have hrun := Machine.run_of_execOk Prompt (fun _ _ => of_decide_eq_true) hs
  have hout := (hall _ _ s 2 hrun).out ho
  rw [hreceived, hrest] at hout
  cases hout

end Transport

end TesselFirmware
