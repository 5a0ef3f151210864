import TesselFirmware.Link.Agreement
import TesselFirmware.Port.Step
import TesselFirmware.System.Usbpipe

/-!
# The composed system

`System` puts the clients of `main.c` on the link: the two module ports (`port.c`) and the USB pipe
(`usbpipe.c`).  SYNC edges have the highest priority of the MCU and can come at any time; all other
handlers have one priority, so a label of one of them is possible only when no other one is at work:
`bridge_dma_rx_completion` is at work from `copy` to `writeBack`, a port while it is in the loop of
`port_step`, and every handler while calls that it has made have not yet reached the bridge.  These
calls go through `queue`, one at a time (`perform`), so that a SYNC edge can come between any two of
them.

A byte on its way from a port to a socket carries the session in which it was written into
`reply_buf` (`Sent`); the last five fields of `System` follow the sessions of the ports through the
bridge, and no function reads them.
-/

namespace TesselFirmware

/-- A byte that the MCU sends, with the session of the port in which it was written. -/
structure Sent where
  byte : Byte
  session : ℕ
  deriving DecidableEq, Repr

/-- What an SPI transfer without a source sends. -/
def Sent.dummy : Sent := ⟨PortData.dummyTx, 0⟩

/-- The bridge channel of a port. -/
def portChan (i : Fin 2) : Chan := i.succ

structure System where
  link : Link Sent
  ports : Fin 2 → PortData
  pipe : UsbPipe
  /-- The calls to the bridge that the current handler has still to make. -/
  queue : List Call
  /-- The number of sessions of the port when the current connection was accepted. -/
  base : Fin 2 → ℕ
  /-- The session of the last `bridge_start_in`. -/
  owner : Fin 2 → ℕ
  /-- `owner` when SYNC was last low. -/
  snapOwner : Fin 2 → ℕ
  /-- `owner` of the headers that the completion handler has copied. -/
  copyOwner : Fin 2 → ℕ
  /-- For each in-completion: the port, its session, and the session of the `bridge_start_in` that
  is completed. -/
  completedIn : List (Fin 2 × ℕ × ℕ)

inductive SystemLabel
  | syncLow (p : Polls)
  | setup (sys : SysCalls) (toMcu toSoc : Option ControlPkt)
  | syncHigh
  | transfer (sys : SysCalls) (pad : List Sent)
  | copy
  | callback
  | writeBack
  /-- The next call of the current handler reaches the bridge. -/
  | perform
  /-- An interrupt of a port. -/
  | port (i : Fin 2) (e : PortEvent)
  /-- One pass of the loop of `port_step`. -/
  | iter (i : Fin 2)
  | usb (e : UsbEvent)

namespace System

/-- The system after the initialization in `main`, with what the pins and peripherals of the ports
are going to answer. -/
def init (answers : Fin 2 → ℕ → BitVec 16) : System where
  link := { Link.init with
    bridge := (Bridge.init.enableChan (portChan 0)).enableChan (portChan 1) }
  ports := fun i => PortData.init (if i = 0 then portA else portB) (answers i)
  pipe := UsbPipe.initial
  queue := []
  base := fun _ => 0
  owner := fun _ => 0
  snapOwner := fun _ => 0
  copyOwner := fun _ => 0
  completedIn := []

variable (s : System)

/-- What the client buffer of a descriptor holds. -/
def memory (d : Desc) : List Sent :=
  Fin.cases ((s.pipe.outRingBuf (d.ptr - outRingPtr 0)).cells.map fun b => ⟨b, 0⟩)
    (fun i => List.zipWith Sent.mk (s.ports i).replyBuf.cells (s.ports i).stamps.cells) d.chan

/-- No handler but that of SYNC is between two of its steps. -/
def calm : Bool := s.queue.isEmpty && (List.finRange 2).all fun i => !(s.ports i).stepping

/-- The calls among the effects. -/
def callsOf (i : Fin 2) (es : List Effect) : List Call :=
  es.filterMap fun
    | .call c => some (c.toCall (portChan i))
    | _ => none

/-- A handler, or a pass of the loop, of a port. -/
def handlePort (i : Fin 2) (e : PortEvent) : System :=
  let p := (s.ports i).handle e
  { s with
    ports := Function.update s.ports i p
    queue := s.queue ++ callsOf i (p.effects.drop (s.ports i).effects.length) }

/-- What the pipe does and calls. -/
def handlePipe (r : UsbPipe × List Call) : System :=
  { s with pipe := r.1, queue := s.queue ++ r.2 }

/-- An in-completion is reported to a port. -/
def countIn (i : Fin 2) : System :=
  { s with
    completedIn := s.completedIn ++ [(i, (s.ports i).session, s.copyOwner i)] }

/-- The callbacks of `main.c` for a port. -/
def callbackPort (i : Fin 2) : Callback → System
  | .open _ => s.handlePort i .enable
  | .completionOut _ len =>
    s.handlePort i (.outCompletion ((s.link.outMem (portChan i)).content len))
  | .completionIn _ => (s.countIn i).handlePort i .inCompletion
  | .close _ => s.handlePort i .disable

/-- The callbacks `bridge_open_0` to `bridge_close_2` of `main.c`. -/
def handleCallback (cb : Callback) : System :=
  Fin.cases (s.handlePipe (s.pipe.callback cb)) (fun i => s.callbackPort i cb) cb.chan

/-- A call reaches the bridge. -/
def performed (c : Call) (rest : List Call) : System :=
  { s with
    link := { s.link with bridge := s.link.bridge.call c }
    queue := rest
    owner := fun i =>
      match c with
      | .startIn ch _ _ => if ch = portChan i then (s.ports i).session else s.owner i
      | _ => s.owner i }

/-- The interrupts of a port, apart from the callbacks of the bridge. -/
def interrupts : PortEvent → Bool
  | .dmaRx => true
  | .dmaTx => true
  | .sercom _ _ => true
  | .extint _ => true
  | .tccOverflow => true
  | _ => false

/-- The completion handler is not at work. -/
def handlerIdle : Bool :=
  match s.link.handler with
  | .idle => true
  | .running _ => false

/-- The next callback of the completion handler. -/
def nextCallback : Option Callback :=
  match s.link.handler with
  | .running (cb :: _) => some cb
  | _ => none

/-- A step of the link, with the client buffers of the system. -/
def linkStep (lab : LinkLabel Sent) : Option System :=
  (Link.step Sent.dummy s.link lab).map fun l => { s with link := l }

def step : SystemLabel → Option System
  | .syncLow p => (s.linkStep (.syncLow p)).map fun s => { s with snapOwner := s.owner }
  | .setup sys toMcu toSoc =>
    (s.linkStep (.setup sys toMcu toSoc)).map fun t =>
      { t with
        base := fun i =>
          -- a new connection of the channel
          if t.link.spid.conns (portChan i) = s.link.spid.conns (portChan i) then s.base i
          else (s.ports i).session }
  | .syncHigh => s.linkStep .syncHigh
  | .transfer sys pad => s.linkStep (.transfer sys s.memory pad)
  | .copy =>
    if s.calm then (s.linkStep .copy).map fun s => { s with copyOwner := s.snapOwner } else none
  | .callback =>
    if s.calm then
      s.nextCallback.bind fun cb => (s.linkStep .callback).map fun t => t.handleCallback cb
    else none
  | .writeBack => if s.calm then s.linkStep .writeBack else none
  | .perform =>
    match s.queue with
    | [] => none
    | c :: rest => some (s.performed c rest)
  | .port i e =>
    if s.calm && s.handlerIdle && interrupts e then some (s.handlePort i e) else none
  | .iter i =>
    if s.queue.isEmpty && (s.ports i).stepping then some (s.handlePort i .iter) else none
  | .usb e =>
    if s.calm && s.handlerIdle then some (s.handlePipe (s.pipe.handle e)) else none

def machine : Machine System SystemLabel := ⟨step⟩

/-! ### The link of the system -/

variable {s} {t : System}

theorem linkStep_eq_some {lab : LinkLabel Sent} : s.linkStep lab = some t ↔
    ∃ l, Link.step Sent.dummy s.link lab = some l ∧ { s with link := l } = t :=
  Option.map_eq_some_iff

@[simp] theorem handleCallback_link (s : System) (cb : Callback) :
    (s.handleCallback cb).link = s.link := by
  unfold handleCallback
  generalize cb.chan = ch
  cases ch using Fin.cases with
  | zero => rfl
  | succ i => cases cb <;> rfl

/-- What a label of the system does to the link. -/
def onLink (s : System) : SystemLabel → Option (LinkLabel Sent)
  | .syncLow p => some (.syncLow p)
  | .setup sys toMcu toSoc => some (.setup sys toMcu toSoc)
  | .syncHigh => some .syncHigh
  | .transfer sys pad => some (.transfer sys s.memory pad)
  | .copy => some .copy
  | .callback => some .callback
  | .writeBack => some .writeBack
  | .perform => s.queue.head?.map .call
  | .port _ _ => none
  | .iter _ => none
  | .usb _ => none

/-- A step of the system is a step of the link, or leaves the link as it is. -/
theorem step_onLink {lab : SystemLabel} (h : s.step lab = some t) :
    match s.onLink lab with
    | some l => Link.step Sent.dummy s.link l = some t.link
    | none => t.link = s.link := by
  cases lab with
  | syncLow p =>
    obtain ⟨u, hu, rfl⟩ := Option.map_eq_some_iff.1 h
    obtain ⟨l, hl, rfl⟩ := linkStep_eq_some.1 hu
    exact hl
  | setup sys toMcu toSoc =>
    obtain ⟨u, hu, rfl⟩ := Option.map_eq_some_iff.1 h
    obtain ⟨l, hl, rfl⟩ := linkStep_eq_some.1 hu
    exact hl
  | syncHigh =>
    obtain ⟨l, hl, rfl⟩ := linkStep_eq_some.1 h
    exact hl
  | transfer sys pad =>
    obtain ⟨l, hl, rfl⟩ := linkStep_eq_some.1 h
    exact hl
  | copy =>
    obtain ⟨-, h⟩ := Option.ite_none_right_eq_some.1 h
    obtain ⟨u, hu, rfl⟩ := Option.map_eq_some_iff.1 h
    obtain ⟨l, hl, rfl⟩ := linkStep_eq_some.1 hu
    exact hl
  | callback =>
    obtain ⟨-, h⟩ := Option.ite_none_right_eq_some.1 h
    obtain ⟨cb, -, h⟩ := Option.bind_eq_some_iff.1 h
    obtain ⟨u, hu, rfl⟩ := Option.map_eq_some_iff.1 h
    obtain ⟨l, hl, rfl⟩ := linkStep_eq_some.1 hu
    simpa [onLink] using hl
  | writeBack =>
    obtain ⟨-, h⟩ := Option.ite_none_right_eq_some.1 h
    obtain ⟨l, hl, rfl⟩ := linkStep_eq_some.1 h
    exact hl
  | perform =>
    cases hq : s.queue with
    | nil => simp [step, hq] at h
    | cons c rest =>
      simp only [step, hq, Option.some.injEq] at h
      subst h
      simp only [onLink, hq, List.head?_cons, Option.map_some]
      rfl
  | port i e =>
    obtain ⟨-, h⟩ := Option.ite_none_right_eq_some.1 h
    cases h
    rfl
  | iter i =>
    obtain ⟨-, h⟩ := Option.ite_none_right_eq_some.1 h
    cases h
    rfl
  | usb e =>
    obtain ⟨-, h⟩ := Option.ite_none_right_eq_some.1 h
    cases h
    rfl

/-- **The link of the system is a link.**  Whatever the clients do, every reachable state of the
system has a reachable state of the link in it. -/
theorem link_reachable {answers : Fin 2 → ℕ → BitVec 16} (h : machine.Reachable (init answers) s) :
    (Link.machine Sent.dummy).Reachable Link.init s.link := by
  refine h.invariant (I := fun s => (Link.machine Sent.dummy).Reachable Link.init s.link) ?_
    fun t lab t' ht hst => ?_
  · -- the calls that `port_init` makes for the two ports
    have h₁ : (Link.machine Sent.dummy).Reachable Link.init _ :=
      (Machine.Reachable.refl _).tail (l := .call (.enableChan (portChan 0))) rfl
    exact h₁.tail (l := .call (.enableChan (portChan 1))) rfl
  · have hl := step_onLink hst
    cases honto : t.onLink lab with
    | none =>
      rw [honto] at hl
      rwa [hl]
    | some l =>
      rw [honto] at hl
      exact ht.tail hl

end System

end TesselFirmware
