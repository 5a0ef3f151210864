import TesselFirmware.Machine.Basic
import TesselFirmware.Spid.Spec

/-!
# The descriptors of `spid`

`Spid` holds numbers; what they are descriptors of is known to the kernel.  `SpidProc.machine` is
the main loop of `spid` in two labels, up to the setup header and from the reply of the MCU on, with
the table of the descriptors that are open.

`main` sets the connection descriptor of the USB channel to -1 and leaves those of the port channels
at 0, which `close_channel_connection` then closes.

* `SpidProc.aligned_iff` : the table of the channels is as it should be exactly if each port channel
  has had a connection accepted or closed, in every run in which no live connection is closed with
  such a 0;
* `SpidProc.not_aligned_firstHeader` : the first header is built before that.
-/

namespace TesselFirmware

/-- What an open descriptor of `spid` is. -/
inductive FdUse
  | closed
  /-- A device, a listening socket, or what `spid` was started with. -/
  | other
  | conn (ch : Chan)
  deriving DecidableEq, Repr

/-- `close(fd)`; nothing happens to the table when `fd` is -1 or not open. -/
def closeFd (fds : ℕ → FdUse) (fd : ℤ) : ℕ → FdUse :=
  if 0 ≤ fd then Function.update fds fd.toNat .closed else fds

/-- `spid` in its main loop. -/
structure SpidProc (α : Type) where
  spid : Spid α
  fds : ℕ → FdUse
  /-- A connection of the channel has been accepted or closed. -/
  touched : Chan → Bool
  /-- The setup header has been built, and no reply has been received yet. -/
  built : Bool
  /-- The last header that was accepted. -/
  last : Option ControlPkt

inductive SpidLabel (α : Type)
  /-- The pass up to the header. -/
  | poll (p : Polls) (sys : SysCalls)
  /-- The rest of the pass, with the header of the MCU and the pieces of the data phase. -/
  | reply (sys : SysCalls) (rx : ControlPkt) (pieces : List (List α))

namespace SpidProc

variable {α : Type} (t : SpidProc α)

/-- The state set up by `main` before the loop; `base` are the descriptors that are open. -/
def init (base : ℕ → Bool) : SpidProc α where
  spid := .init
  fds := fun fd => if base fd then .other else .closed
  touched := fun _ => false
  built := false
  last := none

/-- `accept` has returned the descriptor `fd` for the channel, or `socket` has. -/
def opens (ch : Chan) (fd : ℕ) : SpidProc α :=
  { t with
    fds := Function.update t.fds fd (.conn ch)
    touched := Function.update t.touched ch true }

/-- `close` is called for the channel. -/
def closes (ch : Chan) : SpidProc α :=
  { t with
    fds := closeFd t.fds (t.spid.connFd ch)
    touched := Function.update t.touched ch true }

/-- One pass of the loop over the listening sockets. -/
def acceptConn (p : Polls) (sys : SysCalls) (t : SpidProc α) (ch : Chan) : SpidProc α :=
  { (if ch ≠ usbdChannel ∧ p.sockIn ch then t.opens ch (sys.accept ch) else t) with
    spid := Spid.acceptConn p sys t.spid ch }

/-- The connection is closed in this pass. -/
def hangsUp (p : Polls) (sys : SysCalls) (ch : Chan) : Prop :=
  (p.connIn ch ∧ (sys.read ch).take spidBufSize = []) ∨ p.connHup ch

instance (p : Polls) (sys : SysCalls) (ch : Chan) : Decidable (hangsUp p sys ch) := by
  unfold hangsUp; infer_instance

/-- One pass of the loop over the connections. -/
def serveConn (p : Polls) (sys : SysCalls) (t : SpidProc α) (ch : Chan) : SpidProc α :=
  { (if hangsUp p sys ch then t.closes ch else t) with
    spid := Spid.serveConn p sys t.spid ch }

/-- One pass of the loop in `manage_channel_active_status`. -/
def manageChannel (rx : ControlPkt) (fd : ℕ) (t : SpidProc α) (ch : Chan) : SpidProc α :=
  let enabled := Spid.getChannelBitmaskState t.spid.enabled ch
  { (if rx.connected ch = enabled then t
      else if rx.connected ch then
        if ch = usbdChannel then t.opens ch fd else t
      else t.closes ch) with
    spid := Spid.manageChannel rx fd t.spid ch }

/-- The part of the main loop before the header. -/
def serve (p : Polls) (sys : SysCalls) : SpidProc α :=
  chans.foldl (serveConn p sys) (chans.foldl (acceptConn p sys) t)

/-- `manage_channel_active_status`. -/
def manage (rx : ControlPkt) (fd : ℕ) : SpidProc α := chans.foldl (manageChannel rx fd) t

/-- The data phase. -/
def dataPhase (s : Spid α) (sys : SysCalls) (rx : ControlPkt) (pieces : List (List α)) : Spid α :=
  let (s, segs) := s.planTransfer rx
  if segs = [] then s else (s.receive segs pieces).writeReceived rx sys

/-- The end of the pass after a good header. -/
def finish (sys : SysCalls) (rx : ControlPkt) (pieces : List (List α)) : SpidProc α :=
  let t := t.manage rx sys.socket
  { t with
    spid := dataPhase { t.spid with retries := 0 } sys rx pieces
    built := false
    last := some rx }

/-- `poll` reports only what is registered, and a hang-up only of an open descriptor. -/
def canReport (p : Polls) : Prop :=
  t.spid.canReport p ∧ ∀ ch, p.connHup ch → t.fds (t.spid.connFd ch).toNat ≠ .closed

/-- `accept` returns descriptors that are not open. -/
def canAccept (p : Polls) (sys : SysCalls) : Prop :=
  ∀ ch, ch ≠ usbdChannel → p.sockIn ch → t.fds (sys.accept ch) = .closed ∧
    ∀ ch', ch' ≠ usbdChannel → ch' ≠ ch → p.sockIn ch' → sys.accept ch' ≠ sys.accept ch

/-- The USB channel is enabled by the header. -/
def connectsUsb (rx : ControlPkt) : Prop :=
  rx.connected usbdChannel ∧ Spid.getChannelBitmaskState t.spid.enabled usbdChannel = false

instance (p : Polls) : Decidable (t.canReport p) := by unfold canReport; infer_instance

instance (p : Polls) (sys : SysCalls) : Decidable (t.canAccept p sys) := by
  unfold canAccept; infer_instance

instance (rx : ControlPkt) : Decidable (t.connectsUsb rx) := by unfold connectsUsb; infer_instance

/-- The main loop.  There is no state after a fatal error. -/
def machine : Machine (SpidProc α) (SpidLabel α) where
  step t
    | .poll p sys =>
      if ¬ t.built ∧ t.canReport p ∧ t.canAccept p sys then some { t.serve p sys with built := true }
      else none
    | .reply sys rx pieces =>
      if ¬ t.built then none
      else if rx.cmd ≠ 0xCA#8 then
        if 15 < t.spid.retries + 1 then none
        else some { t with
          spid := { t.spid with retries := t.spid.retries + 1 }
          built := false }
      else if t.connectsUsb rx ∧ t.fds sys.socket ≠ .closed then none
      else some (t.finish sys rx pieces)

/-! ### What the table should be -/

/-- The channel is enabled as of the last header that was accepted. -/
def enabledBy (ch : Chan) : Bool := t.last.any fun rx => rx.connected ch

/-- The table of a channel is as it should be when a header is built. -/
structure Aligned (ch : Chan) : Prop where
  opened : (t.spid.chan ch).opened ↔
    ∃ fd : ℕ, t.spid.connFd ch = fd ∧ t.fds fd = .conn ch
  idle : (t.spid.chan ch).opened = false →
    t.spid.connFd ch = -1 ∧ t.spid.outLength ch = 0 ∧ (t.spid.chan ch).writable = false
  enabled : (t.spid.chan ch).opened → t.enabledBy ch
  listening : ch ≠ usbdChannel →
    (t.spid.sockIn ch ↔ t.enabledBy ch ∧ (t.spid.chan ch).opened = false)
  distinct : ∀ ch', ch' ≠ ch → t.spid.connFd ch' = t.spid.connFd ch → t.spid.connFd ch = -1

/-- No live connection is closed with the descriptor 0 that `main` has left for another channel. -/
def careful : SpidLabel α → Prop
  | .poll p _ => ∀ ch, ch ≠ usbdChannel → t.touched ch = false → p.connHup ch → ¬ p.sockIn ch →
      ∀ ch', t.fds 0 ≠ .conn ch'
  | .reply sys rx _ => rx.cmd = 0xCA#8 → ∀ ch, ch ≠ usbdChannel → t.touched ch = false →
      (t.spid.chan ch).enabled → rx.connected ch = false →
        (∀ ch', t.fds 0 ≠ .conn ch') ∧ (t.connectsUsb rx → sys.socket ≠ 0)

end SpidProc

/-! ### One descriptor -/

theorem closeFd_eq_conn {fds : ℕ → FdUse} {fd : ℤ} {x : ℕ} {ch : Chan}
    (h : closeFd fds fd x = .conn ch) : fds x = .conn ch := by
  unfold closeFd at h
  split_ifs at h
  · by_cases hx : x = fd.toNat
    · rw [hx, Function.update_self] at h
      cases h
    · rwa [Function.update_of_ne hx] at h
  · exact h

theorem closeFd_closed {fds : ℕ → FdUse} {x : ℕ} (fd : ℤ) (h : fds x = .closed) :
    closeFd fds fd x = .closed := by
  unfold closeFd
  split_ifs
  · by_cases hx : x = fd.toNat
    · rw [hx, Function.update_self]
    · rw [Function.update_of_ne hx, h]
  · exact h

/-- What is open after a `close` of another descriptor was so before. -/
theorem closeFd_of_ne {fds : ℕ → FdUse} {fd : ℤ} {x : ℕ} (h : 0 ≤ fd → x ≠ fd.toNat) :
    closeFd fds fd x = fds x := by
  unfold closeFd
  split_ifs with hfd
  · exact Function.update_of_ne (h hfd) _ _
  · rfl

variable {α : Type}

/-- A channel and the table of descriptors: the live connection of an opened channel is the one that
it holds, and a channel that is not opened holds -1, or what `main` has left there. -/
structure Owns (fds : ℕ → FdUse) (touched : Bool) (ch : Chan) (c : ChanState α) : Prop where
  conn : c.opened → ∃ fd : ℕ, c.connFd = fd ∧ fds fd = .conn ch
  idle : c.opened = false → c.connFd = if ch ≠ usbdChannel ∧ touched = false then 0 else -1
  only : ∀ fd, fds fd = .conn ch → c.opened ∧ c.connFd = fd
  touched : c.opened → touched

namespace Owns

variable {fds fds' : ℕ → FdUse} {b : Bool} {ch : Chan} {c d : ChanState α}

theorem congr (h : Owns fds b ch c) (ho : d.opened = c.opened) (hf : d.connFd = c.connFd) :
    Owns fds b ch d := by
  obtain ⟨hconn, hidle, honly, htouched⟩ := h
  rw [← ho] at hconn hidle honly htouched
  rw [← hf] at hconn hidle honly
  exact ⟨hconn, hidle, honly, htouched⟩

/-- The descriptors of other channels may come and go. -/
theorem frame (h : Owns fds b ch c) (hk : ∀ fd, fds' fd = .conn ch ↔ fds fd = .conn ch) :
    Owns fds' b ch c := by
  refine ⟨fun ho => ?_, h.idle, fun fd hfd => h.only fd ((hk fd).1 hfd), h.touched⟩
  obtain ⟨fd, hf, hfd⟩ := h.conn ho
  exact ⟨fd, hf, (hk fd).2 hfd⟩

/-- A new connection. -/
theorem opens (h : Owns fds b ch c) (hno : c.opened = false) {fd : ℕ} (ho : d.opened = true)
    (hf : d.connFd = fd) : Owns (Function.update fds fd (.conn ch)) true ch d := by
  refine ⟨fun _ => ⟨fd, hf, Function.update_self ..⟩, fun hx => ?_, fun x hx => ⟨ho, ?_⟩,
    fun _ => rfl⟩
  · rw [ho] at hx
    cases hx
  · by_cases he : x = fd
    · rw [hf, he]
    · rw [Function.update_of_ne he] at hx
      have hopen := (h.only x hx).1
      rw [hno] at hopen
      cases hopen

/-- The end of a connection. -/
theorem closes (h : Owns fds b ch c) (ho : d.opened = false) (hf : d.connFd = -1) :
    Owns (closeFd fds c.connFd) true ch d := by
  refine ⟨fun hx => ?_, fun _ => ?_, fun x hx => ?_, fun _ => rfl⟩
  · rw [ho] at hx
    cases hx
  · rw [hf, if_neg fun hx => absurd hx.2 (by decide)]
  · -- the descriptor of the channel is closed
    obtain ⟨hopen, hfd⟩ := h.only x (closeFd_eq_conn hx)
    rw [hfd, closeFd, if_pos (Int.natCast_nonneg x), Int.toNat_natCast, Function.update_self] at hx
    cases hx

/-- Closing does not reach another channel, except through the descriptor 0. -/
theorem fds_ne (h : Owns fds b ch c) {ch' : Chan} (hne : ch' ≠ ch)
    (hsafe : ch ≠ usbdChannel → b = false → fds 0 ≠ .conn ch') (hfd : 0 ≤ c.connFd) :
    fds c.connFd.toNat ≠ .conn ch' := by
  cases ho : c.opened with
  | true =>
    obtain ⟨fd, hf, hconn⟩ := h.conn ho
    rw [hf, Int.toNat_natCast, hconn]
    exact fun hx => hne (FdUse.conn.inj hx).symm
  | false =>
    have hidle := h.idle ho
    split_ifs at hidle with hfresh
    · rw [hidle]
      exact hsafe hfresh.1 hfresh.2
    · omega

end Owns

/-! ### Loops over the channels -/

/-- A loop over the channels keeps an invariant, if what a pass needs is not changed by the passes
for other channels. -/
theorem chans_foldl_invariant {T : Type} {f : T → Chan → T} {I : T → Prop} {P : Chan → T → Prop}
    (hstep : ∀ t c, I t → P c t → I (f t c))
    (hkeep : ∀ t c ch, I t → P c t → ch ≠ c → P ch t → P ch (f t c)) {t : T} (h : I t)
    (hP : ∀ ch, P ch t) : I (chans.foldl f t) := by
  have h0 := hstep t 0 h (hP 0)
  have hP1 := hkeep t 0 1 h (hP 0) (by decide) (hP 1)
  have h1 := hstep _ 1 h0 hP1
  have hP2 := hkeep _ 1 2 h0 hP1 (by decide) (hkeep t 0 2 h (hP 0) (by decide) (hP 2))
  exact hstep _ 2 h1 hP2

namespace SpidProc

variable {t : SpidProc α} {ch : Chan} {s : Spid α} {p : Polls} {sys : SysCalls} {rx : ControlPkt}
  {fd : ℕ}

/-- Every channel and the table belong together. -/
def Held (t : SpidProc α) : Prop := ∀ ch, Owns t.fds (t.touched ch) ch (t.spid.chan ch)

/-- Closing the connection of the channel closes no other one. -/
def Safe (t : SpidProc α) (ch : Chan) : Prop :=
  ch ≠ usbdChannel → t.touched ch = false → ∀ ch', t.fds 0 ≠ .conn ch'

namespace Held

theorem keeps (h : t.Held) (ho : ∀ ch, (s.chan ch).opened = (t.spid.chan ch).opened)
    (hf : ∀ ch, (s.chan ch).connFd = (t.spid.chan ch).connFd) : { t with spid := s }.Held :=
  fun ch => (h ch).congr (ho ch) (hf ch)

theorem opens (h : t.Held) (hc : t.fds fd = .closed) (hno : (t.spid.chan ch).opened = false)
    (hs : ∀ ch', ch' ≠ ch → s.chan ch' = t.spid.chan ch') (ho : (s.chan ch).opened = true)
    (hf : (s.chan ch).connFd = fd) : { t.opens ch fd with spid := s }.Held := by
  intro ch'
  show Owns (Function.update t.fds fd (.conn ch)) (Function.update t.touched ch true ch') ch'
    (s.chan ch')
  by_cases he : ch' = ch
  · subst he
    rw [Function.update_self]
    exact (h ch').opens hno ho hf
  · rw [Function.update_of_ne he, hs ch' he]
    refine (h ch').frame fun x => ?_
    by_cases hx : x = fd
    · rw [hx, Function.update_self, hc]
      exact iff_of_false (fun hcon => he (FdUse.conn.inj hcon).symm) (fun hcon => by cases hcon)
    · rw [Function.update_of_ne hx]

theorem closes (h : t.Held) (hsafe : t.Safe ch)
    (hs : ∀ ch', ch' ≠ ch → s.chan ch' = t.spid.chan ch') (ho : (s.chan ch).opened = false)
    (hf : (s.chan ch).connFd = -1) : { t.closes ch with spid := s }.Held := by
  intro ch'
  show Owns (closeFd t.fds (t.spid.chan ch).connFd) (Function.update t.touched ch true ch') ch'
    (s.chan ch')
  by_cases he : ch' = ch
  · subst he
    rw [Function.update_self]
    exact (h ch').closes ho hf
  · rw [Function.update_of_ne he, hs ch' he]
    refine (h ch').frame fun x => ⟨closeFd_eq_conn, fun hx => ?_⟩
    rw [closeFd_of_ne fun hfd hxe => ?_, hx]
    have hne := (h ch).fds_ne he (fun husb hb => hsafe husb hb ch') hfd
    rw [← hxe] at hne
    exact hne hx

/-! ### The passes for one channel -/

theorem acceptConn (h : t.Held) (hacc : ch ≠ usbdChannel → p.sockIn ch →
    t.fds (sys.accept ch) = .closed ∧ (t.spid.chan ch).opened = false) :
    (t.acceptConn p sys ch).Held := by
  have hs := fun ch' => Spid.chan_acceptConn p sys t.spid ch ch'
  unfold SpidProc.acceptConn
  by_cases hp : ch ≠ usbdChannel ∧ p.sockIn ch
  · have hself := hs ch
    rw [if_pos rfl, ChanState.accept, if_pos hp] at hself
    obtain ⟨hc, hno⟩ := hacc hp.1 hp.2
    rw [if_pos hp]
    refine h.opens hc hno (fun ch' hne => (hs ch').trans (if_neg hne)) ?_ ?_
    · rw [hself]
      rfl
    · rw [hself]
      rfl
  · have hself := hs ch
    rw [if_pos rfl, ChanState.accept, if_neg hp] at hself
    have hall : ∀ ch', (Spid.acceptConn p sys t.spid ch).chan ch' = t.spid.chan ch' := by
      intro ch'
      by_cases he : ch' = ch
      · rw [he, hself]
      · exact (hs ch').trans (if_neg he)
    rw [if_neg hp]
    exact h.keeps (fun ch' => by rw [hall]) fun ch' => by rw [hall]

theorem serveConn (h : t.Held) (hsafe : hangsUp p sys ch → t.Safe ch) :
    (t.serveConn p sys ch).Held := by
  have hs := fun ch' => Spid.chan_serveConn p sys t.spid ch ch'
  have hread : ∀ c : ChanState α, ∀ bytes,
      (if p.connIn ch then c.read bytes else c).opened = c.opened ∧
        (if p.connIn ch then c.read bytes else c).connFd = c.connFd := by
    intro c bytes
    unfold ChanState.read
    split_ifs <;> exact ⟨rfl, rfl⟩
  have hself := hs ch
  rw [if_pos rfl] at hself
  unfold ChanState.serve at hself
  dsimp only at hself
  obtain ⟨hopened, hfd⟩ := hread (t.spid.chan ch) ((sys.read ch).take spidBufSize)
  generalize (if p.connIn ch then (t.spid.chan ch).read _ else t.spid.chan ch) = d
    at hself hopened hfd
  unfold SpidProc.serveConn
  by_cases hp : hangsUp p sys ch
  · rw [if_pos (show (p.connIn ch ∧ _) ∨ p.connHup ch from hp)] at hself
    rw [if_pos hp]
    refine h.closes (hsafe hp) (fun ch' hne => (hs ch').trans (if_neg hne)) ?_ ?_
    · rw [hself]
      rfl
    · rw [hself]
      rfl
  · rw [if_neg (show ¬ ((p.connIn ch ∧ _) ∨ p.connHup ch) from hp)] at hself
    have hboth : ((Spid.serveConn p sys t.spid ch).chan ch).opened = (t.spid.chan ch).opened ∧
        ((Spid.serveConn p sys t.spid ch).chan ch).connFd = (t.spid.chan ch).connFd := by
      rw [hself]
      split_ifs
      · exact ⟨hopened, hfd⟩
      · exact ⟨hopened, hfd⟩
    rw [if_neg hp]
    refine h.keeps (fun ch' => ?_) fun ch' => ?_
    · by_cases he : ch' = ch
      · rw [he, hboth.1]
      · rw [(hs ch').trans (if_neg he)]
    · by_cases he : ch' = ch
      · rw [he, hboth.2]
      · rw [(hs ch').trans (if_neg he)]

/-- What `manage_channel_active_status` does with the channel closes no other connection, and a new
descriptor is not open. -/
theorem manageChannel (h : t.Held)
    (hsafe : (t.spid.chan ch).enabled → rx.connected ch = false → t.Safe ch)
    (hopen : ch = usbdChannel → t.connectsUsb rx →
      t.fds fd = .closed ∧ (t.spid.chan ch).opened = false) :
    (t.manageChannel rx fd ch).Held := by
  have hs := fun ch' => Spid.chan_manageChannel rx fd t.spid ch ch'
  have hself := hs ch
  have hbit : Spid.getChannelBitmaskState t.spid.enabled ch = (t.spid.chan ch).enabled := rfl
  rw [if_pos rfl] at hself
  unfold ChanState.manage at hself
  unfold SpidProc.manageChannel
  dsimp only
  rw [hbit]
  have hkeeps (ho : ((Spid.manageChannel rx fd t.spid ch).chan ch).opened = (t.spid.chan ch).opened)
      (hf : ((Spid.manageChannel rx fd t.spid ch).chan ch).connFd = (t.spid.chan ch).connFd) :
      { t with spid := Spid.manageChannel rx fd t.spid ch }.Held := by
    refine h.keeps (fun ch' => ?_) fun ch' => ?_
    · by_cases he : ch' = ch
      · rw [he, ho]
      · rw [(hs ch').trans (if_neg he)]
    · by_cases he : ch' = ch
      · rw [he, hf]
      · rw [(hs ch').trans (if_neg he)]
  have hcloses (hoff : (t.spid.chan ch).enabled) (hconn : rx.connected ch = false)
      (ho : ((Spid.manageChannel rx fd t.spid ch).chan ch).opened = false)
      (hf : ((Spid.manageChannel rx fd t.spid ch).chan ch).connFd = -1) :
      { t.closes ch with spid := Spid.manageChannel rx fd t.spid ch }.Held :=
    h.closes (hsafe hoff hconn) (fun ch' hne => (hs ch').trans (if_neg hne)) ho hf
  split_ifs at hself ⊢ with hsame hnew husb husb
  · exact hkeeps (by rw [hself]) (by rw [hself])
  · -- the USB channel connects
    have hwas : (t.spid.chan ch).enabled = false :=
      Bool.eq_false_of_not_eq_true fun hx => hsame (hnew.trans hx.symm)
    have husb' : t.connectsUsb rx := by
      subst husb
      exact ⟨hnew, hwas⟩
    obtain ⟨hc, hno⟩ := hopen husb husb'
    refine h.opens hc hno (fun ch' hne => (hs ch').trans (if_neg hne)) ?_ ?_
    · rw [hself]
      rfl
    · rw [hself]
      rfl
  · exact hkeeps (by rw [hself]) (by rw [hself])
  all_goals
    have hconn : rx.connected ch = false := Bool.eq_false_of_not_eq_true hnew
    have hoff : (t.spid.chan ch).enabled :=
      Bool.eq_true_of_not_eq_false fun hx => hsame (hconn.trans hx.symm)
    refine hcloses hoff hconn ?_ ?_
    · rw [hself]
      rfl
    · rw [hself]
      rfl

end Held

/-! ### The loops -/

theorem spid_manage (t : SpidProc α) (rx : ControlPkt) (fd : ℕ) :
    (t.manage rx fd).spid = t.spid.manageChannelActiveStatus rx fd := rfl

theorem touched_acceptConn (t : SpidProc α) (c : Chan) : (t.acceptConn p sys c).touched ch =
    if ch = c ∧ c ≠ usbdChannel ∧ p.sockIn c then true else t.touched ch := by
  unfold acceptConn
  by_cases hp : c ≠ usbdChannel ∧ p.sockIn c
  · rw [if_pos hp]
    show Function.update t.touched c true ch = _
    by_cases he : ch = c
    · rw [he, Function.update_self, if_pos ⟨rfl, hp⟩]
    · rw [Function.update_of_ne he, if_neg fun hx => he hx.1]
  · rw [if_neg hp, if_neg fun hx => hp hx.2]

theorem last_serve (t : SpidProc α) (p : Polls) (sys : SysCalls) :
    (t.serve p sys).last = t.last := by
  have haccept : ∀ (q : SpidProc α) c, (q.acceptConn p sys c).last = q.last := by
    intro q c
    unfold acceptConn
    split_ifs <;> rfl
  have hserve : ∀ (q : SpidProc α) c, (q.serveConn p sys c).last = q.last := by
    intro q c
    unfold serveConn
    split_ifs <;> rfl
  have hfold : ∀ f : SpidProc α → Chan → SpidProc α, (∀ q c, (f q c).last = q.last) →
      ∀ q, (chans.foldl f q).last = q.last := by
    intro f hf q
    exact List.foldlRecOn (motive := fun r : SpidProc α => r.last = q.last) _ _ rfl
      fun r hr c _ => (hf r c).trans hr
  exact (hfold _ hserve _).trans (hfold _ haccept t)

/-- The loop over the listening sockets. -/
def accepted (t : SpidProc α) (p : Polls) (sys : SysCalls) : SpidProc α :=
  chans.foldl (acceptConn p sys) t

/-- A channel that is untouched after the loop has accepted nothing. -/
theorem untouched_accepted (h : (t.accepted p sys).touched ch = false) :
    t.touched ch = false ∧ ¬ (ch ≠ usbdChannel ∧ p.sockIn ch) := by
  have htouched : (t.accepted p sys).touched ch =
      if ch ≠ usbdChannel ∧ p.sockIn ch then true else t.touched ch := by
    simp only [accepted, chans, List.foldl_cons, List.foldl_nil, touched_acceptConn]
    fin_cases ch <;> simp [usbdChannel]
  rw [htouched] at h
  split_ifs at h with hp
  exact ⟨h, hp⟩

theorem Held.accepted (h : t.Held) (hs : t.spid.Sound) (hp : t.canReport p)
    (ha : t.canAccept p sys) : (t.accepted p sys).Held := by
  refine chans_foldl_invariant (I := Held) (P := fun c q => c ≠ usbdChannel → p.sockIn c →
    q.fds (sys.accept c) = .closed ∧ (q.spid.chan c).opened = false)
    (fun q c hq hc => hq.acceptConn hc) ?_ h fun c hne hsock => ?_
  · intro q c c' _ _ hne hc hne' hsock
    obtain ⟨hclosed, hno⟩ := hc hne' hsock
    refine ⟨?_, ?_⟩
    · show (if c ≠ usbdChannel ∧ p.sockIn c then q.opens c (sys.accept c) else q).fds _ = _
      split_ifs with hp
      · have hd := (ha c' hne' hsock).2 c hp.1 hne.symm hp.2
        exact (Function.update_of_ne hd.symm _ _).trans hclosed
      · exact hclosed
    · show ((Spid.acceptConn p sys q.spid c).chan c').opened = false
      rw [Spid.chan_acceptConn, if_neg hne]
      exact hno
  · exact ⟨(ha c hne hsock).1, ((hs c).listening ((hp.1 c).1 hsock)).1⟩

theorem Held.not_opened (h : t.Held) (hb : t.touched ch = false) :
    (t.spid.chan ch).opened = false := by
  refine Bool.eq_false_of_not_eq_true fun ho => ?_
  have htouched := (h ch).touched ho
  rw [hb] at htouched
  cases htouched

/-- Closing connections leaves the other channels safe. -/
theorem Safe.closes {c : Chan} (h : t.Safe ch) (hne : ch ≠ c) {s : Spid α} :
    { t.closes c with spid := s }.Safe ch := by
  intro husb hb ch' hconn
  replace hb : Function.update t.touched c true ch = false := hb
  rw [Function.update_of_ne hne] at hb
  exact h husb hb ch' (closeFd_eq_conn hconn)

/-- The descriptor 0 of an untouched channel is no live connection when a hang-up is reported. -/
theorem safe_accepted (h : t.Held) (hs : t.spid.Sound) (hp : t.canReport p)
    (ha : t.canAccept p sys) (hc : t.careful (.poll p sys)) (hh : hangsUp p sys ch) :
    (t.accepted p sys).Safe ch := by
  intro husb hb
  obtain ⟨hb₀, hacc⟩ := untouched_accepted hb
  have hno := h.not_opened hb₀
  have hhup : p.connHup ch := by
    refine hh.resolve_left fun hin => ?_
    have hpolled := (hp.1 ch).2.1 hin.1
    have ho := (hs ch).polled hpolled.1 (.inl hpolled.2)
    rw [hno] at ho
    cases ho
  have hfd : t.spid.connFd ch = 0 := ((h ch).idle hno).trans (if_pos ⟨husb, hb₀⟩)
  have hopen := hp.2 ch hhup
  rw [hfd] at hopen
  refine chans_foldl_invariant (I := fun q : SpidProc α => ∀ ch', q.fds 0 ≠ .conn ch')
    (P := fun c _ => c ≠ usbdChannel → p.sockIn c → sys.accept c ≠ 0) (fun q c hq hc' ch' => ?_)
    (fun _ _ _ _ _ _ hc' => hc') ?_ fun c hne hsock he => ?_
  · show (if c ≠ usbdChannel ∧ p.sockIn c then q.opens c (sys.accept c) else q).fds 0 ≠ _
    split_ifs with hacc'
    · exact (Function.update_of_ne (hc' hacc'.1 hacc'.2).symm _ _).trans_ne (hq ch')
    · exact hq ch'
  · exact hc ch husb hb₀ hhup fun hsock => hacc ⟨husb, hsock⟩
  · have hclosed := (ha c hne hsock).1
    rw [he] at hclosed
    exact hopen hclosed

theorem Held.serve (h : t.Held) (hs : t.spid.Sound) (hp : t.canReport p) (ha : t.canAccept p sys)
    (hc : t.careful (.poll p sys)) : (t.serve p sys).Held := by
  refine chans_foldl_invariant (I := Held) (P := fun c q => hangsUp p sys c → q.Safe c)
    (fun q c hq hc => hq.serveConn hc) ?_ (h.accepted hs hp ha)
    fun c hh => safe_accepted h hs hp ha hc hh
  intro q c c' _ _ hne hc' hh
  unfold SpidProc.serveConn
  split_ifs
  · exact (hc' hh).closes hne
  · exact hc' hh

/-- What a pass of the loop in `manage_channel_active_status` does with the table. -/
theorem manageChannel_cases (q : SpidProc α) (rx : ControlPkt) (fd : ℕ) (c : Chan) :
    ((q.manageChannel rx fd c).fds = q.fds ∧ (q.manageChannel rx fd c).touched = q.touched) ∨
      (c = usbdChannel ∧ q.connectsUsb rx ∧
        (q.manageChannel rx fd c).fds = Function.update q.fds fd (.conn c) ∧
        (q.manageChannel rx fd c).touched = Function.update q.touched c true) ∨
      ((q.manageChannel rx fd c).fds = closeFd q.fds (q.spid.connFd c) ∧
        (q.manageChannel rx fd c).touched = Function.update q.touched c true) := by
  unfold manageChannel
  dsimp only
  split_ifs with hsame hnew husb
  · exact .inl ⟨rfl, rfl⟩
  · refine .inr (.inl ⟨husb, ?_, rfl, rfl⟩)
    subst husb
    exact ⟨hnew, Bool.eq_false_of_not_eq_true fun hx => hsame (hnew.trans hx.symm)⟩
  · exact .inl ⟨rfl, rfl⟩
  · exact .inr (.inr ⟨rfl, rfl⟩)

theorem enabled_manage (c : ChanState α) (ch : Chan) (connected : Bool) (fd : ℕ) :
    (c.manage ch connected fd).enabled = connected := by
  unfold ChanState.manage
  split_ifs with hsame hnew husb husb
  · exact hsame.symm
  · exact hnew.symm
  · exact hnew.symm
  · exact (Bool.eq_false_of_not_eq_true hnew).symm
  · exact (Bool.eq_false_of_not_eq_true hnew).symm

theorem enabled_accept (c : ChanState α) (ch : Chan) (polled : Bool) (fd : ℕ) :
    (c.accept ch polled fd).enabled = c.enabled := by
  unfold ChanState.accept
  split_ifs
  · rfl
  · rfl

theorem enabled_serve (c : ChanState α) (ch : Chan) (p : Polls) (sys : SysCalls) :
    (c.serve ch p sys).enabled = c.enabled := by
  have hread : ∀ bytes, (if p.connIn ch then c.read bytes else c).enabled = c.enabled := by
    intro bytes
    unfold ChanState.read
    split_ifs <;> rfl
  unfold ChanState.serve
  dsimp only
  have hd := hread ((sys.read ch).take spidBufSize)
  generalize (if p.connIn ch then c.read _ else c) = d at hd ⊢
  split_ifs
  · exact hd
  · exact hd
  · exact hd

/-- Only one pass connects the USB channel. -/
theorem connectsUsb_manageChannel {q : SpidProc α} {c : Chan}
    (h : (q.manageChannel rx fd c).connectsUsb rx) : q.connectsUsb rx ∧ c ≠ usbdChannel := by
  obtain ⟨hconn, hoff⟩ := h
  replace hoff : ((Spid.manageChannel rx fd q.spid c).chan usbdChannel).enabled = false := hoff
  rw [Spid.chan_manageChannel] at hoff
  split_ifs at hoff with he
  · rw [enabled_manage, ← he, hconn] at hoff
    cases hoff
  · exact ⟨⟨hconn, hoff⟩, fun hc => he hc.symm⟩

theorem Held.manage (h : t.Held) (hsock : t.connectsUsb rx → t.fds fd = .closed)
    (hno : t.connectsUsb rx → (t.spid.chan usbdChannel).opened = false)
    (hc : ∀ ch, ch ≠ usbdChannel → t.touched ch = false → (t.spid.chan ch).enabled →
      rx.connected ch = false → (∀ ch', t.fds 0 ≠ .conn ch') ∧ (t.connectsUsb rx → fd ≠ 0)) :
    (t.manage rx fd).Held := by
  -- the invariant of the loop, and for each channel still to come what its turn needs
  refine chans_foldl_invariant (I := Held) (P := fun c q =>
    ((q.spid.chan c).enabled → rx.connected c = false → c ≠ usbdChannel → q.touched c = false →
      (∀ ch', q.fds 0 ≠ .conn ch') ∧ (q.connectsUsb rx → fd ≠ 0)) ∧
    (c = usbdChannel → q.connectsUsb rx → q.fds fd = .closed ∧ (q.spid.chan c).opened = false))
    (fun q c hq hc => hq.manageChannel (fun he hr husb hb => (hc.1 he hr husb hb).1) hc.2) ?_ h
    fun c => ⟨fun he hr husb hb => hc c husb hb he hr, fun husb hu => ⟨hsock hu, ?_⟩⟩
  · -- the turn of one channel leaves the descriptors of the others alone
    intro q c c' _ _ hne hc'
    have hchan : (q.manageChannel rx fd c).spid.chan c' = q.spid.chan c' :=
      (Spid.chan_manageChannel rx fd q.spid c c').trans (if_neg hne)
    have hcases := manageChannel_cases q rx fd c
    have husb : (q.manageChannel rx fd c).connectsUsb rx → q.connectsUsb rx ∧ c ≠ usbdChannel :=
      connectsUsb_manageChannel
    generalize q.manageChannel rx fd c = q' at hchan hcases husb ⊢
    rw [hchan]
    refine ⟨fun he hr hu hb => ?_, fun hu hx => ?_⟩
    · have hb' : q.touched c' = false := by
        obtain ⟨-, ht⟩ | ⟨-, -, -, ht⟩ | ⟨-, ht⟩ := hcases
        · rw [← ht]
          exact hb
        · rwa [ht, Function.update_of_ne hne] at hb
        · rwa [ht, Function.update_of_ne hne] at hb
      obtain ⟨h0, hfd⟩ := hc'.1 he hr hu hb'
      refine ⟨fun ch' => ?_, fun hx => hfd (husb hx).1⟩
      obtain ⟨hf, -⟩ | ⟨-, hx, hf, -⟩ | ⟨hf, -⟩ := hcases
      · rw [hf]
        exact h0 ch'
      · rw [hf, Function.update_of_ne (hfd hx).symm]
        exact h0 ch'
      · rw [hf]
        exact fun hconn => h0 ch' (closeFd_eq_conn hconn)
    · obtain ⟨hx', hcu⟩ := husb hx
      obtain ⟨hclosed, hno'⟩ := hc'.2 hu hx'
      refine ⟨?_, hno'⟩
      obtain ⟨hf, -⟩ | ⟨hc, -⟩ | ⟨hf, -⟩ := hcases
      · rw [hf, hclosed]
      · exact absurd hc hcu
      · rw [hf]
        exact closeFd_closed _ hclosed
  · subst husb
    exact hno hu

/-! ### The invariant -/

/-- An enabled port channel without a connection listens. -/
def Listens (ch : Chan) (c : ChanState α) : Prop :=
  ch ≠ usbdChannel → c.enabled → c.opened = false → c.sockIn

namespace Listens

variable {c : ChanState α}

theorem accept (h : Listens ch c) (polled : Bool) (fd : ℕ) : Listens ch (c.accept ch polled fd) := by
  unfold ChanState.accept
  split_ifs
  · exact fun _ _ ho => by cases ho
  · exact h

theorem serve (h : Listens ch c) (p : Polls) (sys : SysCalls) : Listens ch (c.serve ch p sys) := by
  have hread : ∀ bytes, Listens ch (if p.connIn ch then c.read bytes else c) := by
    intro bytes
    unfold ChanState.read
    split_ifs
    · exact h
    · exact h
    · exact h
  unfold ChanState.serve
  dsimp only
  have hd := hread ((sys.read ch).take spidBufSize)
  generalize (if p.connIn ch then c.read _ else c) = d at hd ⊢
  split_ifs
  · intro husb hen _
    exact if_pos ⟨hen, husb⟩
  · exact hd
  · exact hd

theorem manage (h : Listens ch c) (connected : Bool) (fd : ℕ) :
    Listens ch (c.manage ch connected fd) := by
  intro husb hen hno
  rw [enabled_manage] at hen
  unfold ChanState.manage at hno ⊢
  rw [if_pos hen, if_neg husb] at hno ⊢
  split_ifs at hno ⊢ with hsame
  · exact h husb (hsame ▸ hen) hno
  · rfl

theorem plan (h : Listens ch c) (ready : Bool) : Listens ch (c.plan ready) := by
  unfold ChanState.plan
  split_ifs
  · exact h
  · exact h

theorem write (h : Listens ch c) (size taken : ℕ) : Listens ch (c.write size taken) := by
  unfold ChanState.write
  split_ifs
  · exact h
  · exact h

end Listens

/-- What holds in every reachable state. -/
structure Inv (t : SpidProc α) : Prop where
  sound : t.spid.Sound
  held : t.Held
  listens : ∀ ch, Listens ch (t.spid.chan ch)
  enabled : ∀ ch, (t.spid.chan ch).enabled = t.enabledBy ch

theorem inv_init (base : ℕ → Bool) : (init (α := α) base).Inv := by
  have hbit : ∀ ch, Spid.getChannelBitmaskState 0#8 ch = false := by decide
  refine ⟨Spid.sound_init, fun ch => ?_, fun ch _ hen => ?_, hbit⟩
  · refine ⟨fun ho => ?_, fun _ => ?_, fun fd hfd => ?_, fun ho => ?_⟩
    · exact absurd ((hbit ch).symm.trans ho) (by decide)
    · by_cases husb : ch = usbdChannel
      · exact (if_pos husb).trans (if_neg fun hx => hx.1 husb).symm
      · exact (if_neg husb).trans (if_pos ⟨husb, rfl⟩).symm
    · replace hfd : (if base fd then FdUse.other else .closed) = .conn ch := hfd
      split_ifs at hfd
    · exact absurd ((hbit ch).symm.trans ho) (by decide)
  · exact absurd ((hbit ch).symm.trans hen) (by decide)

theorem Inv.poll (h : t.Inv) (hp : t.canReport p) (ha : t.canAccept p sys)
    (hc : t.careful (.poll p sys)) : { t.serve p sys with built := true }.Inv := by
  have hchan := fun ch => Spid.chan_serve t.spid p sys ch
  refine ⟨h.sound.serve hp.1 sys, h.held.serve h.sound hp ha hc, fun ch => ?_, fun ch => ?_⟩
  · show Listens ch ((t.spid.serve p sys).chan ch)
    rw [hchan]
    exact ((h.listens ch).accept _ _).serve p sys
  · show ((t.spid.serve p sys).chan ch).enabled = (t.serve p sys).enabledBy ch
    rw [hchan, enabled_serve, enabled_accept, enabledBy, last_serve]
    exact h.enabled ch

/-- What the parts of the data phase keep for each channel. -/
theorem dataPhase_keeps {Q : Chan → ChanState α → Prop}
    (hplan : ∀ {ch c}, Q ch c → ∀ ready, Q ch (c.plan ready))
    (hbuf : ∀ {ch c}, Q ch c → ∀ inBuf, Q ch { c with inBuf := inBuf })
    (hwrite : ∀ {ch c}, Q ch c → ∀ size taken, Q ch (c.write size taken)) (h : ∀ ch, Q ch (s.chan ch))
    (sys : SysCalls) (rx : ControlPkt) (pieces : List (List α)) :
    ∀ ch, Q ch ((dataPhase s sys rx pieces).chan ch) := by
  intro ch
  have hp : Q ch ((s.planTransfer rx).1.chan ch) := by
    rw [Spid.planTransfer_chan]
    exact hplan (h ch) _
  unfold dataPhase
  generalize s.planTransfer rx = a at hp ⊢
  obtain ⟨s', segs⟩ := a
  dsimp only at hp ⊢
  split_ifs
  · exact hp
  · rw [Spid.chan_writeReceived, Spid.chan_receive]
    exact hwrite (hbuf hp _) _ _

/-- What holds of a channel after a header that was accepted. -/
structure Managed (t : SpidProc α) (rx : ControlPkt) (ch : Chan) (c : ChanState α) : Prop where
  sound : c.Sound ch
  owns : Owns t.fds (t.touched ch) ch c
  listens : Listens ch c
  enabled : c.enabled = rx.connected ch

namespace Managed

variable {c : ChanState α}

theorem plan (h : Managed t rx ch c) (ready : Bool) : Managed t rx ch (c.plan ready) := by
  refine ⟨h.sound.plan ready, h.owns.congr ?_ ?_, h.listens.plan ready, ?_⟩
  · unfold ChanState.plan
    split_ifs <;> rfl
  · unfold ChanState.plan
    split_ifs <;> rfl
  · unfold ChanState.plan
    split_ifs
    · exact h.enabled
    · exact h.enabled

theorem inBuf (h : Managed t rx ch c) (b : List α) : Managed t rx ch { c with inBuf := b } := by
  obtain ⟨hs, ho, hl, he⟩ := h
  exact ⟨⟨hs.outLength, hs.outBuf, hs.stray, hs.empty, hs.writable, hs.enabled, hs.listening,
    hs.polled, hs.idle⟩, ho.congr rfl rfl, hl, he⟩

theorem write (h : Managed t rx ch c) (size taken : ℕ) : Managed t rx ch (c.write size taken) := by
  refine ⟨h.sound.write size taken, h.owns.congr ?_ ?_, h.listens.write size taken, ?_⟩
  · unfold ChanState.write
    split_ifs <;> rfl
  · unfold ChanState.write
    split_ifs <;> rfl
  · unfold ChanState.write
    split_ifs
    · exact h.enabled
    · exact h.enabled

end Managed

theorem Inv.finish (h : t.Inv) (hcmd : rx.cmd = 0xCA#8) {pieces : List (List α)}
    (hsock : ¬ (t.connectsUsb rx ∧ t.fds sys.socket ≠ .closed))
    (hc : t.careful (.reply sys rx pieces)) : (t.finish sys rx pieces).Inv := by
  have hheld : (t.manage rx sys.socket).Held := by
    refine h.held.manage (fun hu => ?_) (fun hu => ?_) (hc hcmd)
    · by_contra hno
      exact hsock ⟨hu, hno⟩
    · refine Bool.eq_false_of_not_eq_true fun ho => ?_
      have hen := (h.sound usbdChannel).enabled ho
      exact absurd (hu.2.symm.trans hen) (by decide)
  have hmanaged : ∀ ch, Managed (t.manage rx sys.socket) rx ch
      ((t.manage rx sys.socket).spid.chan ch) := by
    intro ch
    have hchan := Spid.chan_manage t.spid rx sys.socket ch
    refine ⟨h.sound.manage rx sys.socket ch, hheld ch, ?_, ?_⟩
    · rw [spid_manage, hchan]
      exact (h.listens ch).manage _ _
    · rw [spid_manage, hchan]
      exact enabled_manage _ _ _ _
  have hall := dataPhase_keeps (s := { (t.manage rx sys.socket).spid with retries := 0 })
    Managed.plan Managed.inBuf Managed.write hmanaged sys rx pieces
  exact ⟨fun ch => (hall ch).sound, fun ch => (hall ch).owns, fun ch => (hall ch).listens,
    fun ch => (hall ch).enabled⟩

theorem Inv.step {l : SpidLabel α} {t' : SpidProc α} (h : t.Inv) (hc : t.careful l)
    (hst : machine.step t l = some t') : t'.Inv := by
  cases l with
  | poll p sys =>
    simp only [machine, Option.ite_none_right_eq_some, Option.some.injEq] at hst
    obtain ⟨⟨-, hp, ha⟩, rfl⟩ := hst
    exact h.poll hp ha hc
  | reply sys rx pieces =>
    simp only [machine] at hst
    split_ifs at hst with _ hcmd _ hsock
    · obtain rfl := Option.some.inj hst
      exact ⟨h.sound, h.held, h.listens, h.enabled⟩
    · obtain rfl := Option.some.inj hst
      exact h.finish (not_not.1 hcmd) hsock hc

/-! ### The table of the channels -/

/-- A channel that is touched is as it should be. -/
theorem Inv.aligned (h : t.Inv) (ht : ∀ ch, ch ≠ usbdChannel → t.touched ch) (ch : Chan) :
    t.Aligned ch := by
  have hidle : ∀ ch, (t.spid.chan ch).opened = false → t.spid.connFd ch = -1 := by
    intro ch ho
    refine ((h.held ch).idle ho).trans (if_neg fun hx => ?_)
    rw [ht ch hx.1] at hx
    cases hx.2
  refine ⟨⟨(h.held ch).conn, fun ⟨fd, _, hfd⟩ => ((h.held ch).only fd hfd).1⟩, fun ho => ?_,
    fun ho => ?_, fun husb => ⟨fun hs => ?_, fun hx => ?_⟩, fun ch' hne he => ?_⟩
  · refine ⟨hidle ch ho, (h.sound ch).empty ho, Bool.eq_false_of_not_eq_true fun hw => ?_⟩
    exact absurd (ho.symm.trans ((h.sound ch).writable hw)) (by decide)
  · exact (h.enabled ch).symm.trans ((h.sound ch).enabled ho)
  · obtain ⟨hno, hen, -⟩ := (h.sound ch).listening hs
    exact ⟨(h.enabled ch).symm.trans hen, hno⟩
  · exact h.listens ch husb ((h.enabled ch).trans hx.1) hx.2
  · cases ho : (t.spid.chan ch).opened with
    | false => exact hidle ch ho
    | true =>
      -- the connection of the channel is not that of another one
      obtain ⟨fd, hf, hfd⟩ := (h.held ch).conn ho
      cases ho' : (t.spid.chan ch').opened with
      | false =>
        exact he.symm.trans (hidle ch' ho')
      | true =>
        obtain ⟨fd', hf', hfd'⟩ := (h.held ch').conn ho'
        have heq : fd' = fd := Int.natCast_inj.1 (hf'.symm.trans (he.trans hf))
        rw [heq, hfd] at hfd'
        exact absurd (FdUse.conn.inj hfd').symm hne

/-- A port channel that is not touched is not. -/
theorem Inv.touched (h : t.Inv) (ha : t.Aligned ch) (husb : ch ≠ usbdChannel) : t.touched ch := by
  refine Bool.eq_true_of_not_eq_false fun hb => ?_
  have hno := h.held.not_opened hb
  have hfd : t.spid.connFd ch = 0 := ((h.held ch).idle hno).trans (if_pos ⟨husb, hb⟩)
  have hneg := (ha.idle hno).1
  rw [hfd] at hneg
  cases hneg

/-- **The channel table.**  In every run of the main loop, whatever `poll` and the other system calls
return and whatever headers are received, in which no live connection is closed with the descriptor
that `main` has left for another channel: the table of all channels is as it should be exactly if
each port channel has had a connection accepted or closed. -/
theorem aligned_iff {base : ℕ → Bool} {ls : List (SpidLabel α)}
    (h : machine.Run careful (init base) ls t) :
    (∀ ch, t.Aligned ch) ↔ ∀ ch, ch ≠ usbdChannel → t.touched ch := by
  have hinv : t.Inv := h.invariant (inv_init base) fun q l q' hq hc hst => hq.step hc hst
  exact ⟨fun ha ch husb => hinv.touched (ha ch) husb, fun ht ch => hinv.aligned ht ch⟩

/-- Nothing is polled but new clients of some channels. -/
def clients (polled : Chan → Bool) : Polls := ⟨polled, fun _ => false, fun _ => false, fun _ => false⟩

/-- System calls that give the channels the descriptors from 5 on. -/
def calls : SysCalls := ⟨fun ch => 5 + ch, 8, fun _ => [], fun _ => 0⟩

/-- A header that enables the two port channels. -/
def enablesPorts : ControlPkt := ⟨0xCA#8, 0x60#8, fun _ => 0#8⟩

/-- A run in which the port channels are enabled and clients connect to both. -/
def portsRun : List (SpidLabel Byte) :=
  [.poll (clients fun _ => false) calls, .reply calls enablesPorts [],
    .poll (clients fun ch => ch != usbdChannel) calls]

theorem aligned_portsRun :
    ∃ t : SpidProc Byte, machine.exec (init fun fd => fd < 5) portsRun = some t ∧ t.built ∧
      ∀ ch, t.Aligned ch := by
  have h : (machine.execOk (fun t l => (chans.all fun ch => t.fds 0 != .conn ch) &&
      match l with
      | .poll _ _ => true
      | .reply sys _ _ => sys.socket != 0) (init fun fd => fd < 5) portsRun).any (fun t =>
      t.built && t.touched 1 && t.touched 2) := by decide +kernel
  obtain ⟨t, ht, hpair⟩ := (Option.any_eq_true _ _).1 h
  simp only [Bool.and_eq_true] at hpair
  obtain ⟨⟨hb, h1⟩, h2⟩ := hpair
  have hrun := Machine.run_of_execOk careful (fun t l hl => by
    simp only [Bool.and_eq_true, List.all_eq_true, bne_iff_ne] at hl
    have h0 : ∀ ch, t.fds 0 ≠ .conn ch := fun ch => hl.1 ch (by fin_cases ch <;> decide)
    cases l with
    | poll p sys => exact fun _ _ _ _ _ => h0
    | reply sys rx pieces => exact fun _ _ _ _ _ _ => ⟨h0, fun _ => by simpa using hl.2⟩) ht
  refine ⟨t, hrun.exec_eq, hb, (aligned_iff hrun).2 fun ch husb => ?_⟩
  fin_cases ch
  · exact absurd rfl husb
  · exact h1
  · exact h2

/-- The first header is built while the port channels hold a descriptor without a connection, and
both the same one. -/
theorem not_aligned_firstHeader :
    ¬ ∀ (base : ℕ → Bool) (ls : List (SpidLabel Byte)) (t : SpidProc Byte),
      machine.Run Machine.always (init base) ls t → t.built → ∀ ch, t.Aligned ch := by
  intro hall
  have h : (machine.exec (init fun fd => fd < 5) [.poll (clients fun _ => false) calls]).any
      (fun t : SpidProc Byte => t.built && decide (t.spid.connFd 1 = 0) &&
        !(t.spid.chan 1).opened) := by decide +kernel
  obtain ⟨t, ht, hpair⟩ := (Option.any_eq_true _ _).1 h
  simp only [Bool.and_eq_true, decide_eq_true_eq, Bool.not_eq_true'] at hpair
  obtain ⟨⟨hb, hfd⟩, hno⟩ := hpair
  have hneg := ((hall _ _ t (Machine.run_of_exec ht) hb 1).idle hno).1
  rw [hfd] at hneg
  cases hneg

end SpidProc

end TesselFirmware
