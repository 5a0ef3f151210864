import Mathlib.Tactic.FinCases
import TesselFirmware.Bridge.Chain
import TesselFirmware.Spid.Basic

/-!
# `spid` one channel at a time

Every loop of the main loop works on the channels one after the other, and what it does to a
channel depends on that channel alone.  `ChanState` is what `spid` holds for one channel,
`Spid.chan s ch` reads it out of the globals, and for each function of `spid.c` there is one on
`ChanState` with a lemma `chan_…` that connects the two.

* `Spid.chan_serve`, `Spid.chan_manage`, `Spid.chan_planTransfer`, `Spid.chan_writeReceived` : the
  loops, channel by channel;
* `Spid.planTransfer_segments` : the data phase that `spid` prepares, as a function of the header
  received and of the channels.
-/

namespace TesselFirmware

variable {α : Type}

/-- What `spid` holds for one channel. -/
structure ChanState (α : Type) where
  connFd : ℤ
  pollIn : Bool
  pollOut : Bool
  sockIn : Bool
  outBuf : List Byte
  outLength : ℕ
  inBuf : List α
  writable : Bool
  /-- The bit of the writable mask that the header would show as the connected bit. -/
  stray : Bool
  opened : Bool
  enabled : Bool
  received : List Byte
  written : List α
  conns : ℕ

namespace ChanState

variable (c : ChanState α)

/-- `close_channel_connection`. -/
def close (ch : Chan) : ChanState α :=
  { c with
    connFd := -1
    outLength := 0
    sockIn := if c.enabled ∧ ch ≠ usbdChannel then true else c.sockIn
    opened := false
    writable := false }

/-- A new connection. -/
def connect (fd : ℕ) : ChanState α :=
  { c with
    connFd := fd
    pollIn := true
    pollOut := true
    opened := true
    received := []
    written := []
    conns := c.conns + 1 }

/-- `manage_channel_active_status`. -/
def manage (ch : Chan) (connected : Bool) (fd : ℕ) : ChanState α :=
  if connected = c.enabled then c
  else if connected then
    { (if ch = usbdChannel then c.connect fd else { c with sockIn := true }) with enabled := true }
  else if ch = usbdChannel then
    { c.close ch with pollIn := false, pollOut := false, enabled := false }
  else { c.close ch with sockIn := false, enabled := false }

/-- The loop over the listening sockets. -/
def accept (ch : Chan) (polled : Bool) (fd : ℕ) : ChanState α :=
  if ch ≠ usbdChannel ∧ polled then { c.connect fd with sockIn := false } else c

/-- `read` on the connection. -/
def read (bytes : List Byte) : ChanState α :=
  if bytes ≠ [] then
    { c with
      pollIn := false
      outBuf := bytes
      outLength := bytes.length
      received := c.received ++ bytes }
  else { c with pollIn := false }

/-- The loop over the connections. -/
def serve (ch : Chan) (p : Polls) (sys : SysCalls) : ChanState α :=
  let bytes := (sys.read ch).take spidBufSize
  let c := if p.connIn ch then c.read bytes else c
  if (p.connIn ch ∧ bytes = []) ∨ p.connHup ch then c.close ch
  else if p.connOut ch then { c with pollOut := false, writable := true }
  else c

/-- The loop that prepares the data phase. -/
def plan (ready : Bool) : ChanState α :=
  if ready ∧ 0 < c.outLength then { c with pollIn := true, outLength := 0 } else c

/-- The segments of the data phase. -/
def segments (ch : Chan) (ready : Bool) (size : ℕ) : List Segment :=
  (if ready ∧ 0 < c.outLength then [⟨.out, ch, c.outLength⟩] else []) ++
    (if c.writable ∧ 0 < size then [⟨.inn, ch, size⟩] else [])

/-- The loop that writes the received data. -/
def write (size taken : ℕ) : ChanState α :=
  if c.writable ∧ 0 < size then
    { c with
      written := c.written ++ (c.inBuf.take size).take taken
      pollOut := true
      writable := false }
  else c

/-- On a listening channel, `manage_channel_active_status` opens no connection. -/
theorem written_manage {ch : Chan} (hch : ch ≠ usbdChannel) (connected : Bool) (fd : ℕ) :
    (c.manage ch connected fd).written = c.written := by
  unfold manage
  rw [if_neg hch, if_neg hch]
  split_ifs <;> rfl

end ChanState

namespace Spid

/-- The part of the globals that belongs to a channel. -/
def chan (s : Spid α) (ch : Chan) : ChanState α where
  connFd := s.connFd ch
  pollIn := s.pollIn ch
  pollOut := s.pollOut ch
  sockIn := s.sockIn ch
  outBuf := s.outBuf ch
  outLength := s.outLength ch
  inBuf := s.inBuf ch
  writable := getChannelBitmaskState s.writable ch
  stray := Byte.has s.writable (ch + 4)
  opened := getChannelBitmaskState s.opened ch
  enabled := getChannelBitmaskState s.enabled ch
  received := s.received ch
  written := s.written ch
  conns := s.conns ch

theorem chan_written (s : Spid α) (ch : Chan) : (s.chan ch).written = s.written ch := rfl

theorem chan_outBuf (s : Spid α) (ch : Chan) : (s.chan ch).outBuf = s.outBuf ch := rfl

theorem get_set (b : Byte) (c ch : Chan) (st : Bool) :
    getChannelBitmaskState (setChannelBitmaskState b c st) ch =
      if ch = c then st else getChannelBitmaskState b ch := by
  have hc : (c : ℕ) < 8 := by omega
  have hch : (ch : ℕ) < 8 := by omega
  have hval : (c : ℕ) = ch ↔ ch = c := ⟨fun h => Fin.ext h.symm, fun h => by rw [h]⟩
  cases st
  · simp only [getChannelBitmaskState, setChannelBitmaskState, Bool.false_eq_true, ↓reduceIte,
      Byte.has_clear _ hc hch, hval]
    split_ifs with h <;> simp [h]
  · simp only [getChannelBitmaskState, setChannelBitmaskState, ↓reduceIte,
      Byte.has_set _ hc hch, hval]
    split_ifs with h <;> simp [h]

theorem has_set_stray (b : Byte) (c ch : Chan) (st : Bool) :
    Byte.has (setChannelBitmaskState b c st) (ch + 4) = Byte.has b (ch + 4) := by
  have hc : (c : ℕ) < 8 := by omega
  have hch : (ch : ℕ) + 4 < 8 := by omega
  have hne : (c : ℕ) ≠ ch + 4 := by omega
  cases st
  · simp [setChannelBitmaskState, Byte.has_clear _ hc hch, hne]
  · simp [setChannelBitmaskState, Byte.has_set _ hc hch, hne]

/-- A function that changes one channel at a time, in its place in a loop over the channels. -/
theorem chan_foldl {f : Spid α → Chan → Spid α} {F : Chan → ChanState α → ChanState α}
    (h : ∀ s c ch, (f s c).chan ch = if ch = c then F c (s.chan c) else s.chan ch)
    (s : Spid α) (ch : Chan) : (chans.foldl f s).chan ch = F ch (s.chan ch) := by
  simp only [chans, List.foldl_cons, List.foldl_nil, h]
  fin_cases ch <;> simp

theorem chan_close (s : Spid α) (c ch : Chan) :
    (s.closeChannelConnection c).chan ch =
      if ch = c then (s.chan c).close c else s.chan ch := by
  by_cases h : ch = c
  · subst h
    have hsock : (if getChannelBitmaskState s.enabled ch ∧ ch ≠ usbdChannel then
        Function.update s.sockIn ch true else s.sockIn) ch =
        if getChannelBitmaskState s.enabled ch ∧ ch ≠ usbdChannel then true else s.sockIn ch := by
      split_ifs <;> simp
    simp only [chan, closeChannelConnection, ChanState.close, get_set, has_set_stray,
      Function.update_self, ↓reduceIte, hsock]
    rfl
  · have hsock : (if getChannelBitmaskState s.enabled c ∧ c ≠ usbdChannel then
        Function.update s.sockIn c true else s.sockIn) ch = s.sockIn ch := by
      split_ifs <;> simp [h]
    simp only [chan, closeChannelConnection, get_set, has_set_stray, Function.update_of_ne h,
      if_neg h, hsock]

theorem chan_openConn (s : Spid α) (c ch : Chan) (fd : ℕ) :
    (s.openConn c fd).chan ch = if ch = c then (s.chan c).connect fd else s.chan ch := by
  by_cases h : ch = c
  · subst h
    simp [chan, openConn, ChanState.connect, get_set]
  · simp [chan, openConn, get_set, h]

theorem chan_setEnabled (s : Spid α) (c ch : Chan) (st : Bool) :
    (s.setEnabled c st).chan ch =
      if ch = c then { s.chan c with enabled := st } else s.chan ch := by
  by_cases h : ch = c
  · subst h
    simp [chan, setEnabled, get_set]
  · simp [chan, setEnabled, get_set, h]

theorem chan_enableListeningSocket (s : Spid α) (c ch : Chan) :
    (s.enableListeningSocket c).chan ch =
      if ch = c then { s.chan c with sockIn := true } else s.chan ch := by
  by_cases h : ch = c
  · subst h
    simp [chan, enableListeningSocket]
  · simp [chan, enableListeningSocket, h]

theorem chan_disableListeningSocket (s : Spid α) (c ch : Chan) :
    (s.disableListeningSocket c).chan ch =
      if ch = c then { s.chan c with sockIn := false } else s.chan ch := by
  by_cases h : ch = c
  · subst h
    simp [chan, disableListeningSocket]
  · simp [chan, disableListeningSocket, h]

theorem chan_ignoreConn (s : Spid α) (c ch : Chan) :
    (s.ignoreConn c).chan ch =
      if ch = c then { s.chan c with pollIn := false, pollOut := false } else s.chan ch := by
  by_cases h : ch = c
  · subst h
    simp [chan, ignoreConn]
  · simp [chan, ignoreConn, h]

theorem chan_manageChannel (rx : ControlPkt) (fd : ℕ) (s : Spid α) (c ch : Chan) :
    (manageChannel rx fd s c).chan ch =
      if ch = c then (s.chan c).manage c (rx.connected c) fd else s.chan ch := by
  have hnew : rx.connected c = extractEnabledState rx c := rfl
  have hold : getChannelBitmaskState s.enabled c = (s.chan c).enabled := rfl
  rw [hnew, manageChannel, ChanState.manage]
  dsimp only
  rw [hold]
  generalize extractEnabledState rx c = new
  by_cases h : ch = c
  · subst h
    rw [if_pos rfl]
    by_cases hsame : new = (s.chan ch).enabled
    · rw [if_pos hsame, if_pos hsame]
    · rw [if_neg hsame, if_neg hsame]
      cases new
      · by_cases husb : ch = usbdChannel
        · simp [husb, chan_setEnabled, chan_ignoreConn, chan_close]
        · simp [husb, chan_setEnabled, chan_disableListeningSocket, chan_close]
      · by_cases husb : ch = usbdChannel
        · simp [husb, chan_setEnabled, enableUsbDaemonSocket, chan_openConn]
        · simp [husb, chan_setEnabled, chan_enableListeningSocket]
  · rw [if_neg h]
    split_ifs with _ _ husb
    · rfl
    · subst husb
      rw [chan_setEnabled, if_neg h, enableUsbDaemonSocket, chan_openConn, if_neg h]
    · rw [chan_setEnabled, if_neg h, chan_enableListeningSocket, if_neg h]
    · rw [chan_setEnabled, if_neg h, chan_disableListeningSocket, if_neg h, chan_close, if_neg h]
    · rw [chan_setEnabled, if_neg h, chan_ignoreConn, if_neg h, chan_close, if_neg h]

/-- `manage_channel_active_status`, channel by channel. -/
theorem chan_manage (s : Spid α) (rx : ControlPkt) (fd : ℕ) (ch : Chan) :
    (s.manageChannelActiveStatus rx fd).chan ch =
      (s.chan ch).manage ch (rx.connected ch) fd :=
  chan_foldl (F := fun c x => x.manage c (rx.connected c) fd) (chan_manageChannel rx fd) s ch

theorem chan_acceptConn (p : Polls) (sys : SysCalls) (s : Spid α) (c ch : Chan) :
    (acceptConn p sys s c).chan ch =
      if ch = c then (s.chan c).accept c (p.sockIn c) (sys.accept c) else s.chan ch := by
  unfold acceptConn ChanState.accept
  by_cases hacc : c ≠ usbdChannel ∧ p.sockIn c
  · rw [if_neg hacc.1, if_pos hacc.2, if_pos hacc, chan_disableListeningSocket, chan_openConn,
      if_pos rfl, chan_openConn]
    split_ifs <;> rfl
  · rw [if_neg hacc, show (if c = usbdChannel then s else if p.sockIn c then
      (s.openConn c (sys.accept c)).disableListeningSocket c else s) = s by
        split_ifs with h₁ h₂
        · rfl
        · exact absurd ⟨h₁, h₂⟩ hacc
        · rfl]
    split_ifs with h
    · rw [h]
    · rfl

theorem chan_readConn (bytes : List Byte) (s : Spid α) (c ch : Chan) :
    (readConn bytes s c).chan ch = if ch = c then (s.chan c).read bytes else s.chan ch := by
  unfold readConn ChanState.read
  by_cases hb : bytes = []
  · by_cases h : ch = c
    · subst h
      simp [chan, hb]
    · simp [chan, hb, h]
  · by_cases h : ch = c
    · subst h
      simp [chan, hb]
    · simp [chan, hb, h]

theorem chan_serveConn (p : Polls) (sys : SysCalls) (s : Spid α) (c ch : Chan) :
    (serveConn p sys s c).chan ch =
      if ch = c then (s.chan c).serve c p sys else s.chan ch := by
  unfold serveConn ChanState.serve
  dsimp only
  generalize (sys.read c).take spidBufSize = bytes
  have hread : ∀ ch', (if p.connIn c then readConn bytes s c else s).chan ch' =
      if ch' = c then (if p.connIn c then (s.chan c).read bytes else s.chan c)
      else s.chan ch' := by
    intro ch'
    by_cases hp : p.connIn c = true
    · rw [if_pos hp, if_pos hp]
      exact chan_readConn bytes s c ch'
    · rw [if_neg hp, if_neg hp]
      split_ifs with h
      · rw [h]
      · rfl
  generalize (if p.connIn c then readConn bytes s c else s) = t at hread
  have hc := hread c
  rw [if_pos rfl] at hc
  rw [← hc]
  by_cases hclose : (p.connIn c ∧ bytes = []) ∨ p.connHup c
  · rw [if_pos hclose, if_pos hclose, chan_close]
    split_ifs with h
    · rfl
    · exact (hread ch).trans (if_neg h)
  · rw [if_neg hclose, if_neg hclose]
    by_cases hout : p.connOut c = true
    · rw [if_pos hout, if_pos hout]
      by_cases h : ch = c
      · subst h
        simp [chan, get_set, has_set_stray]
      · have := (hread ch).trans (if_neg h)
        rw [if_neg h, ← this]
        simp [chan, get_set, has_set_stray, h]
    · rw [if_neg hout, if_neg hout]
      split_ifs with h
      · rw [h]
      · exact (hread ch).trans (if_neg h)

/-- The part of the main loop before the header, channel by channel. -/
theorem chan_serve (s : Spid α) (p : Polls) (sys : SysCalls) (ch : Chan) :
    (s.serve p sys).chan ch =
      ((s.chan ch).accept ch (p.sockIn ch) (sys.accept ch)).serve ch p sys := by
  have ha := chan_foldl (F := fun c x => x.accept c (p.sockIn c) (sys.accept c))
    (chan_acceptConn p sys) s ch
  rw [serve, chan_foldl (F := fun c x => x.serve c p sys) (chan_serveConn p sys), ha]

/-! ### The data phase -/

theorem planChannel_chan (rx : ControlPkt) (a : Spid α × List Segment) (c ch : Chan) :
    (planChannel rx a c).1.chan ch =
      if ch = c then (a.1.chan c).plan (rx.ready c) else a.1.chan ch := by
  obtain ⟨s, segs⟩ := a
  have hsize : s.outLength c = (s.chan c).outLength := rfl
  have hfst : (planChannel rx (s, segs) c).1 =
      if rx.ready c ∧ 0 < s.outLength c then
        { s with
          pollIn := Function.update s.pollIn c true
          outLength := Function.update s.outLength c 0 }
      else s := by
    simp only [planChannel]
    split_ifs <;> rfl
  rw [hfst, ChanState.plan, ← hsize]
  by_cases hm : rx.ready c ∧ 0 < s.outLength c
  · rw [if_pos hm, if_pos hm]
    by_cases h : ch = c
    · subst h
      simp [chan]
    · simp [chan, h]
  · rw [if_neg hm, if_neg hm]
    split_ifs with h
    · rw [h]
    · rfl

theorem planChannel_segments (rx : ControlPkt) (a : Spid α × List Segment) (c : Chan) :
    (planChannel rx a c).2 =
      a.2 ++ (a.1.chan c).segments c (rx.ready c) (rx.size c).toNat := by
  obtain ⟨s, segs⟩ := a
  have hsize : s.outLength c = (s.chan c).outLength := rfl
  have hwrit : getChannelBitmaskState s.writable c = (s.chan c).writable := rfl
  simp only [planChannel, ChanState.segments, ← hsize]
  split_ifs with h₁ h₂ h₃ h₃ <;> simp_all

theorem planTransfer_chan (s : Spid α) (rx : ControlPkt) (ch : Chan) :
    (s.planTransfer rx).1.chan ch = (s.chan ch).plan (rx.ready ch) := by
  simp only [planTransfer, chans, List.foldl_cons, List.foldl_nil, planChannel_chan]
  fin_cases ch <;> simp

/-- **The data phase that `spid` prepares**: the segments of each channel, in order. -/
theorem planTransfer_segments (s : Spid α) (rx : ControlPkt) :
    (s.planTransfer rx).2 =
      chans.flatMap fun ch => (s.chan ch).segments ch (rx.ready ch) (rx.size ch).toNat := by
  simp [planTransfer, chans, planChannel_segments, planChannel_chan]

theorem chan_receive (s : Spid α) (segs : List Segment) (pieces : List (List α)) (ch : Chan) :
    (s.receive segs pieces).chan ch =
      { s.chan ch with inBuf := (s.receive segs pieces).inBuf ch } := rfl

theorem chan_writeConn (rx : ControlPkt) (sys : SysCalls) (s : Spid α) (c ch : Chan) :
    (writeConn rx sys s c).chan ch =
      if ch = c then (s.chan c).write (rx.size c).toNat (sys.write c) else s.chan ch := by
  have hwrit : getChannelBitmaskState s.writable c = (s.chan c).writable := rfl
  unfold writeConn ChanState.write
  dsimp only
  rw [hwrit]
  by_cases hm : (s.chan c).writable ∧ 0 < (rx.size c).toNat
  · rw [if_pos hm, if_pos hm]
    by_cases h : ch = c
    · subst h
      simp [chan, get_set, has_set_stray]
    · simp [chan, get_set, has_set_stray, h]
  · rw [if_neg hm, if_neg hm]
    split_ifs with h
    · rw [h]
    · rfl

/-- The loop that writes the received data, channel by channel. -/
theorem chan_writeReceived (s : Spid α) (rx : ControlPkt) (sys : SysCalls) (ch : Chan) :
    (s.writeReceived rx sys).chan ch =
      (s.chan ch).write (rx.size ch).toNat (sys.write ch) :=
  chan_foldl (F := fun c x => x.write (rx.size c).toNat (sys.write c)) (chan_writeConn rx sys) s ch

/-! ### The header -/

theorem header_ready (s : Spid α) (ch : Chan) : s.header.ready ch = (s.chan ch).writable := by
  have hlt : (ch : ℕ) < 8 := by omega
  have hshift : (s.opened <<< 4).getLsbD ch = false := by
    rw [BitVec.getLsbD_shiftLeft]
    simp
    omega
  show Byte.has (s.writable ||| s.opened <<< 4) ch = Byte.has s.writable ch
  rw [Byte.has_eq_getLsbD _ hlt, Byte.has_eq_getLsbD _ hlt, BitVec.getLsbD_or, hshift, Bool.or_false]

/-- The connected bits of the header are the opened bits, if nothing strays into them. -/
theorem header_connected {s : Spid α} {ch : Chan} (h : (s.chan ch).stray = false) :
    s.header.connected ch = (s.chan ch).opened := by
  have hlt : (ch : ℕ) < 8 := by omega
  have hlt' : (ch : ℕ) + 4 < 8 := by omega
  have hstray : s.writable.getLsbD (ch + 4) = false :=
    (Byte.has_eq_getLsbD _ hlt').symm.trans h
  have hshift : (s.opened <<< 4).getLsbD (ch + 4) = s.opened.getLsbD ch := by
    rw [BitVec.getLsbD_shiftLeft]
    simp [hlt']
  show Byte.has (s.writable ||| s.opened <<< 4) (ch + 4) = Byte.has s.opened ch
  rw [Byte.has_eq_getLsbD _ hlt', Byte.has_eq_getLsbD _ hlt, BitVec.getLsbD_or, hshift, hstray,
    Bool.false_or]

/-! ### What holds of every channel -/

end Spid

/-- What holds of a channel between the loops of `spid`: there is data or interest only on an open
connection, it is read only when nothing is buffered, and connections are accepted only on an
enabled channel that has none. -/
structure ChanState.Sound (ch : Chan) (c : ChanState α) : Prop where
  outLength : c.outLength ≤ c.outBuf.length
  outBuf : c.outBuf.length ≤ spidBufSize
  stray : c.stray = false
  empty : c.opened = false → c.outLength = 0
  writable : c.writable → c.opened
  enabled : c.opened → c.enabled
  listening : c.sockIn → c.opened = false ∧ c.enabled ∧ ch ≠ usbdChannel
  polled : 0 ≤ c.connFd → c.pollIn ∨ c.pollOut → c.opened
  idle : c.pollIn → c.outLength = 0

namespace ChanState.Sound

variable {c : ChanState α} {ch : Chan}

theorem close (h : c.Sound ch) : (c.close ch).Sound ch where
  outLength := Nat.zero_le _
  outBuf := h.outBuf
  stray := h.stray
  empty _ := rfl
  writable hw := by cases hw
  enabled ho := by cases ho
  listening hs := by
    refine ⟨rfl, ?_⟩
    simp only [ChanState.close] at hs
    split_ifs at hs with hen
    · exact hen
    · exact (h.listening hs).2
  polled hfd := by
    have : (0 : ℤ) ≤ -1 := hfd
    omega
  idle _ := rfl

theorem connect (h : c.Sound ch) (hen : c.enabled) (hno : c.opened = false) (fd : ℕ) :
    { c.connect fd with sockIn := false }.Sound ch where
  outLength := h.outLength
  outBuf := h.outBuf
  stray := h.stray
  empty ho := by cases ho
  writable _ := rfl
  enabled _ := hen
  listening hs := by cases hs
  polled _ _ := rfl
  idle _ := h.empty hno

theorem accept (h : c.Sound ch) {polled : Bool} (hp : polled → c.sockIn) (fd : ℕ) :
    (c.accept ch polled fd).Sound ch := by
  unfold ChanState.accept
  split_ifs with hacc
  · obtain ⟨hno, hen, -⟩ := h.listening (hp hacc.2)
    exact h.connect hen hno fd
  · exact h

theorem read (h : c.Sound ch) (ho : c.opened) {bytes : List Byte}
    (hlen : bytes.length ≤ spidBufSize) : (c.read bytes).Sound ch := by
  unfold ChanState.read
  have hpol : 0 ≤ c.connFd → false ∨ c.pollOut → c.opened := fun hfd hp =>
    h.polled hfd (.inr (by simpa using hp))
  split_ifs
  · exact ⟨le_refl _, hlen, h.stray, fun hc => absurd (ho.symm.trans hc) (by simp), h.writable,
      h.enabled, h.listening, fun _ _ => ho, nofun⟩
  · exact ⟨h.outLength, h.outBuf, h.stray, h.empty, h.writable, h.enabled, h.listening,
      fun _ _ => ho, nofun⟩

/-- A connection is served only if it was open when it was polled, and then none is accepted. -/
theorem serve (h : c.Sound ch) {p : Polls} (sys : SysCalls)
    (hsock : p.sockIn ch → c.sockIn) (hin : p.connIn ch → 0 ≤ c.connFd ∧ c.pollIn)
    (hout : p.connOut ch → 0 ≤ c.connFd ∧ c.pollOut) :
    ((c.accept ch (p.sockIn ch) (sys.accept ch)).serve ch p sys).Sound ch := by
  have ha := h.accept hsock (sys.accept ch)
  have hopen (hc : c.opened) : c.accept ch (p.sockIn ch) (sys.accept ch) = c := by
    refine if_neg fun hacc => ?_
    have := (h.listening (hsock hacc.2)).1
    simp [hc] at this
  have hino (hp : p.connIn ch) : c.opened := h.polled (hin hp).1 (.inl (hin hp).2)
  have houto (hp : p.connOut ch) : c.opened := h.polled (hout hp).1 (.inr (hout hp).2)
  unfold ChanState.serve
  have hlen : ((sys.read ch).take spidBufSize).length ≤ spidBufSize := by
    rw [List.length_take]
    omega
  generalize (sys.read ch).take spidBufSize = bytes at hlen
  dsimp only
  have hread : (if p.connIn ch then (c.accept ch (p.sockIn ch) (sys.accept ch)).read bytes
      else c.accept ch (p.sockIn ch) (sys.accept ch)).Sound ch := by
    split_ifs with hp
    · rw [hopen (hino hp)]
      exact h.read (hino hp) hlen
    · exact ha
  have hropen (hc : c.opened) : (if p.connIn ch then
      (c.accept ch (p.sockIn ch) (sys.accept ch)).read bytes
      else c.accept ch (p.sockIn ch) (sys.accept ch)).opened := by
    rw [hopen hc]
    unfold ChanState.read
    split_ifs <;> exact hc
  generalize (if p.connIn ch then _ else _ : ChanState α) = d at hread hropen
  split_ifs with hclose hpo
  · exact hread.close
  · have ho := hropen (houto hpo)
    exact ⟨hread.outLength, hread.outBuf, hread.stray, hread.empty, fun _ => ho, hread.enabled,
      hread.listening, fun _ _ => ho, hread.idle⟩
  · exact hread

/-- A channel that the MCU has just enabled has no connection. -/
theorem opened_of_ne (h : c.Sound ch) {connected : Bool} (hne : connected ≠ c.enabled)
    (hnew : connected = true) : c.opened = false := by
  by_contra ho
  have hen := h.enabled (by simpa using ho)
  exact hne (hnew.trans hen.symm)

theorem manage (h : c.Sound ch) (connected : Bool) (fd : ℕ) :
    (c.manage ch connected fd).Sound ch := by
  unfold ChanState.manage
  split_ifs with hsame hnew husb husb
  · exact h
  · -- the USB channel never listens
    have hs : c.sockIn = false := by
      by_contra hs
      exact (h.listening (by simpa using hs)).2.2 husb
    have hno := h.opened_of_ne hsame hnew
    exact ⟨h.outLength, h.outBuf, h.stray, (fun ho => by cases ho), fun _ => rfl, fun _ => rfl,
      fun hc => absurd hc (by simp [ChanState.connect, hs]), fun _ _ => rfl, fun _ => h.empty hno⟩
  · have hno := h.opened_of_ne hsame hnew
    exact ⟨h.outLength, h.outBuf, h.stray, h.empty, h.writable, fun _ => rfl,
      fun _ => ⟨hno, rfl, husb⟩, h.polled, h.idle⟩
  · have hc := h.close
    refine ⟨hc.outLength, hc.outBuf, hc.stray, hc.empty, hc.writable, (fun ho => by cases ho), ?_,
      fun hfd => hc.polled hfd ∘ fun hp => by simp at hp, fun _ => rfl⟩
    intro hs
    exact absurd husb (hc.listening hs).2.2
  · have hc := h.close
    exact ⟨hc.outLength, hc.outBuf, hc.stray, hc.empty, hc.writable, (fun ho => by cases ho),
      (fun hs => by cases hs), hc.polled, fun _ => rfl⟩

theorem plan (h : c.Sound ch) (ready : Bool) : (c.plan ready).Sound ch := by
  unfold ChanState.plan
  split_ifs with hr
  · have ho : c.opened := by
      by_contra ho
      have := h.empty (by simpa using ho)
      omega
    exact ⟨Nat.zero_le _, h.outBuf, h.stray, fun _ => rfl, h.writable, h.enabled, h.listening,
      fun _ _ => ho, fun _ => rfl⟩
  · exact h

theorem write (h : c.Sound ch) (size taken : ℕ) : (c.write size taken).Sound ch := by
  unfold ChanState.write
  split_ifs with hw
  · exact ⟨h.outLength, h.outBuf, h.stray, h.empty, (fun hf => by cases hf), h.enabled, h.listening,
      fun _ _ => h.writable hw.1, h.idle⟩
  · exact h

/-- A connection has become writable only if it was open when it was polled. -/
theorem opened_of_writable_serve (h : c.Sound ch) {p : Polls} (sys : SysCalls)
    (hin : p.connIn ch → 0 ≤ c.connFd ∧ c.pollIn)
    (hout : p.connOut ch → 0 ≤ c.connFd ∧ c.pollOut)
    (hw : ((c.accept ch (p.sockIn ch) (sys.accept ch)).serve ch p sys).writable) : c.opened := by
  by_contra ho
  have hw₀ : c.writable = false := by
    by_contra hc
    exact ho (h.writable (by simpa using hc))
  have hno (hfd : 0 ≤ c.connFd) (hp : c.pollIn ∨ c.pollOut) : False := ho (h.polled hfd hp)
  have hpin : p.connIn ch = false := Bool.eq_false_of_not_eq_true fun hp =>
    hno (hin hp).1 (.inl (hin hp).2)
  have hpout : p.connOut ch = false := Bool.eq_false_of_not_eq_true fun hp =>
    hno (hout hp).1 (.inr (hout hp).2)
  have hacc : (c.accept ch (p.sockIn ch) (sys.accept ch)).writable = false := by
    unfold ChanState.accept
    split_ifs <;> exact hw₀
  simp only [ChanState.serve, hpin, hpout, Bool.false_eq_true, ↓reduceIte, false_and,
    false_or] at hw
  split_ifs at hw
  · cases hw
  · simp [hacc] at hw

/-- The loop over the connections opens none. -/
theorem serve_kept (d : ChanState α) (ch : Chan) (p : Polls) (sys : SysCalls) :
    (d.serve ch p sys).conns = d.conns ∧ (d.serve ch p sys).written = d.written ∧
      ((d.serve ch p sys).opened → d.opened) := by
  have hread (bytes : List Byte) : (d.read bytes).conns = d.conns ∧
      (d.read bytes).written = d.written ∧ (d.read bytes).opened = d.opened := by
    unfold ChanState.read
    split_ifs <;> exact ⟨rfl, rfl, rfl⟩
  unfold ChanState.serve
  dsimp only
  have hopen (b : Bool) (bytes : List Byte) : (if b then d.read bytes else d).conns = d.conns ∧
      (if b then d.read bytes else d).written = d.written ∧
      (if b then d.read bytes else d).opened = d.opened := by
    split_ifs
    · exact hread bytes
    · exact ⟨rfl, rfl, rfl⟩
  obtain ⟨hconns, hwritten, hopened⟩ := hopen (p.connIn ch) ((sys.read ch).take spidBufSize)
  generalize (if p.connIn ch then d.read _ else d) = e at hconns hwritten hopened
  split_ifs
  · exact ⟨hconns, hwritten, nofun⟩
  · exact ⟨hconns, hwritten, fun ho => hopened ▸ ho⟩
  · exact ⟨hconns, hwritten, fun ho => hopened ▸ ho⟩

/-- A pass accepts no connection of the channel and opens none, or accepts one. -/
theorem conns_serve {c : ChanState α} {ch : Chan} {p : Polls} (sys : SysCalls)
    (hsock : p.sockIn ch → c.sockIn) :
    let d := (c.accept ch (p.sockIn ch) (sys.accept ch)).serve ch p sys
    (d.conns = c.conns ∧ d.written = c.written ∧ (d.opened → c.opened)) ∨
      (d.conns = c.conns + 1 ∧ d.written = [] ∧ c.sockIn) := by
  obtain ⟨hconns, hwritten, hopened⟩ :=
    serve_kept (c.accept ch (p.sockIn ch) (sys.accept ch)) ch p sys
  dsimp only
  by_cases hacc : ch ≠ usbdChannel ∧ p.sockIn ch
  · refine .inr ⟨hconns.trans ?_, hwritten.trans ?_, hsock hacc.2⟩
    · rw [ChanState.accept, if_pos hacc]
      rfl
    · rw [ChanState.accept, if_pos hacc]
      rfl
  · have ha : c.accept ch (p.sockIn ch) (sys.accept ch) = c := if_neg hacc
    rw [ha] at hconns hwritten hopened ⊢
    exact .inl ⟨hconns, hwritten, hopened⟩

/-- Before the data phase, no channel but the USB channel is opened. -/
theorem opened_of_manage (h : c.Sound ch) (hch : ch ≠ usbdChannel) (connected : Bool) (fd : ℕ) :
    ((c.manage ch connected fd).opened → c.opened) ∧
      ((c.manage ch connected fd).sockIn → c.opened = false) := by
  unfold ChanState.manage
  split_ifs with hsame hnew
  · exact ⟨id, fun hs => (h.listening hs).1⟩
  · exact ⟨id, fun _ => h.opened_of_ne hsame hnew⟩
  · exact ⟨nofun, nofun⟩

end ChanState.Sound

namespace Spid

/-- Every channel is sound. -/
def Sound (s : Spid α) : Prop := ∀ ch, (s.chan ch).Sound ch

theorem sound_init : (Spid.init : Spid α).Sound := fun ch =>
  { outLength := le_refl _
    outBuf := Nat.zero_le _
    stray := by simp [chan, Spid.init]
    empty := fun _ => rfl
    writable := by simp [chan, Spid.init, getChannelBitmaskState]
    enabled := by simp [chan, Spid.init, getChannelBitmaskState]
    listening := by simp [chan, Spid.init]
    polled := by simp [chan, Spid.init]
    idle := fun _ => rfl }

theorem Sound.serve {s : Spid α} (h : s.Sound) {p : Polls} (hp : s.canReport p) (sys : SysCalls) :
    (s.serve p sys).Sound := fun ch => by
  obtain ⟨hsock, hin, hout, -⟩ := hp ch
  rw [chan_serve]
  exact (h ch).serve sys hsock hin hout

theorem Sound.manage {s : Spid α} (h : s.Sound) (rx : ControlPkt) (fd : ℕ) :
    (s.manageChannelActiveStatus rx fd).Sound := fun ch => by
  rw [chan_manage]
  exact (h ch).manage _ fd

theorem Sound.plan {s : Spid α} (h : s.Sound) (rx : ControlPkt) :
    (s.planTransfer rx).1.Sound := fun ch => by
  rw [planTransfer_chan]
  exact (h ch).plan _

theorem Sound.write {s : Spid α} (h : s.Sound) (rx : ControlPkt) (sys : SysCalls) :
    (s.writeReceived rx sys).Sound := fun ch => by
  rw [chan_writeReceived]
  exact (h ch).write _ _

theorem Sound.receive {s : Spid α} (h : s.Sound) (segs : List Segment) (pieces : List (List α)) :
    (s.receive segs pieces).Sound := fun ch =>
  ⟨(h ch).outLength, (h ch).outBuf, (h ch).stray, (h ch).empty, (h ch).writable, (h ch).enabled,
    (h ch).listening, (h ch).polled, (h ch).idle⟩

end Spid

end TesselFirmware
