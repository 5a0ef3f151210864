import TesselFirmware.Node.Emitter
import TesselFirmware.Node.Operation

/-!
# Listeners and the interrupt mode of a pin (`node/tessel-export.js`)

A `Pin` keeps listeners for five kinds of events, and one `interruptMode` for all of them.

`PinState.machine` is a pin with the calls of the program and the handler of pin changes.  Each
listener that the handler calls is a step of its own, and the program can call the methods of the
pin between two of them.

* `PinState.covered_iff` : after every step the mode of the last `GPIO_INT` command covers the
  listeners, exactly if every step meets the condition `PinState.fits`;
* `PinState.not_covered_edgeRun` : and not every step does.
-/

namespace TesselFirmware

namespace Node

/-! ### Events and modes -/

/-- What can be passed as the name of an event. -/
inductive EventName
  | null
  /-- `undefined`, or another value besides `null` that counts as false. -/
  | falsy
  | mode (m : IntMode)
  /-- A name that `INT_MODES` has from `Object.prototype`, as `'toString'`. -/
  | inherited (name : String)
  | other (name : String)
  deriving DecidableEq, Repr

namespace EventName

/-- A value that counts as true. -/
def truthy : EventName → Bool
  | null | falsy => false
  | _ => true

/-- `typeof INT_MODES[event] !== 'undefined'`. -/
def isMode : EventName → Bool
  | mode _ | inherited _ => true
  | _ => false

/-- `event === 'low' || event === 'high'`. -/
def isLevel : EventName → Bool
  | mode .low | mode .high => true
  | _ => false

/-- What the setter of `interruptMode` keeps. -/
def folded : EventName → EventName
  | mode .rise | mode .fall => mode .change
  | event => event

/-- The mode that the setter sends.  What `INT_MODES` has from `Object.prototype` is not a number,
and shifted it is 0. -/
def sentMode : EventName → Option IntMode
  | mode m => some m
  | _ => none

/-- The mode field of the command. -/
def sense (event : EventName) : Byte :=
  match event.sentMode with
  | some m => m.sense
  | none => 0#8

end EventName

/-- The interrupt controller reports an event of the kind `k` in a mode; in the mode for changes it
reports both edges. -/
def IntMode.reportedBy (k : IntMode) (mode : Byte) : Bool :=
  mode == k.sense || (mode == IntMode.change.sense && (k == .rise || k == .fall))

/-- The mode field of a `GPIO_INT` command for the pin. -/
def intField (pin : Fin 8) : List Byte → Option Byte
  | [cmd, arg] =>
    if cmd = BitVec.ofInt 8 Cmd.gpioInt ∧ (arg &&& 0x7#8).toNat = pin then
      some (arg >>> 4 &&& 0x07#8)
    else none
  | _ => none

/-- The mode after one operation on the socket. -/
def modeAfterOp (pin : Fin 8) (mode : Byte) : SockOp → Byte
  | .write bs => (intField pin bs).getD mode
  | _ => mode

/-! ### The pin -/

/-- What is left to do in the handler of a pin change. -/
inductive PinTask
  /-- `pin.emit(event)`. -/
  | emit (event : IntMode)
  | call (event : IntMode) (l : Listener)
  /-- `pin.interruptMode = null`. -/
  | resetMode
  deriving DecidableEq, Repr

/-- A `Pin` with the handler of its changes. -/
structure PinState where
  pin : Fin 8
  emitter : EventEmitter EventName
  interruptMode : EventName
  /-- What the setter of `interruptMode` has done to the socket. -/
  socket : Method
  /-- The tasks of the port that wait on the socket, as far as this pin counts them. -/
  pending : ℕ
  todo : List PinTask
  /-- The handler has just called a listener. -/
  inListener : Bool

namespace PinState

variable (s : PinState)

def init (pin : Fin 8) : PinState := ⟨pin, .init, .null, [], 0, [], false⟩

/-- The setter of `interruptMode`. -/
def setInterruptMode (mode : EventName) : PinState :=
  { s with
    interruptMode := mode.folded
    socket := s.socket ++ Pin.setInterruptMode s.pin mode.sentMode }

def removeListener (event : EventName) (listener : Func) : PinState :=
  let s := { s with emitter := s.emitter.removeListener event listener }
  if event = s.interruptMode ∧ s.emitter.listenerCount event = 0 then s.setInterruptMode .null
  else s

/-- `removeAllListeners` without an argument. -/
def removeEveryListener : PinState :=
  let s := s.setInterruptMode .null
  { s with emitter := s.emitter.removeEveryListener }

/-- `removeAllListeners` with an argument. -/
def removeAllListeners (event : EventName) : PinState :=
  let s :=
    if ¬ event.truthy ∨ event = s.interruptMode then s.setInterruptMode .null else s
  { s with emitter := s.emitter.removeAllListeners event }

/-- `port.ref()`. -/
def ref : PinState := { s with pending := s.pending + 1 }

/-- `port.unref()`. -/
def unref : PinState := { s with pending := s.pending - 1 }

/-- `addListener`, which is also `on`; the result is `none` when it throws. -/
def addListener (mode : EventName) (callback : Listener) : Option PinState :=
  if mode.isMode then
    if ¬ Pin.supportsInt s.pin then none
    else if mode.isLevel ∧ callback.listener = none then none
    else if s.interruptMode.truthy ∧ (mode.isLevel ∨ s.interruptMode.isLevel) then none
    else
      let s := s.ref.setInterruptMode mode
      some { s with emitter := s.emitter.addListener mode callback }
  else none

/-- `once`, of the class `EventEmitter`. -/
def once (mode : EventName) (callback : Func) : Option PinState :=
  let (wrapper, emitter) := s.emitter.onceWrap callback
  addListener { s with emitter := emitter } mode wrapper

/-- The handler of a pin change with the level `pinValue`. -/
def pinChange (pinValue : Bool) : PinState :=
  match s.interruptMode with
  | .mode .low => { s with todo := [.emit .low, .resetMode] }
  | .mode .high => { s with todo := [.emit .high, .resetMode] }
  | _ => { s with todo := [.emit .change, .emit (if pinValue then .rise else .fall)] }

/-- The next step of the handler. -/
def proceed : Option PinState :=
  match s.todo with
  | [] => none
  | .emit event :: tasks =>
    some { s with
      todo := (s.emitter.listeners (.mode event)).map (.call event) ++ tasks
      inListener := false }
  | .call event l :: tasks =>
    let s := if l.isOnce then s.removeListener (.mode event) l.fn else s
    some { s with todo := tasks, inListener := true }
  | .resetMode :: tasks =>
    some { (s.setInterruptMode .null).unref with todo := tasks, inListener := false }

end PinState

/-- What happens to a pin.  Functions that the program passes can have a property `listener`. -/
inductive PinEvent
  | addListener (event : EventName) (callback : ℕ) (listener : Option Func)
  | once (event : EventName) (callback : ℕ)
  | removeListener (event : EventName) (listener : Func)
  | removeEveryListener
  | removeAllListeners (event : EventName)
  /-- The report of a pin change is received. -/
  | report (pinValue : Bool)
  /-- The handler of the report goes on. -/
  | proceed
  deriving DecidableEq, Repr

namespace PinState

/-- The program runs: outside of the handler, or in a listener that it has called. -/
def inProgram (s : PinState) : Bool := s.todo.isEmpty || s.inListener

/-- The program calls methods while it runs, and these do not throw. -/
def machine : Machine PinState PinEvent where
  step s
    | .addListener event callback listener =>
      if s.inProgram then s.addListener event ⟨.program callback, listener⟩ else none
    | .once event callback => if s.inProgram then s.once event (.program callback) else none
    | .removeListener event listener =>
      if s.inProgram then some (s.removeListener event listener) else none
    | .removeEveryListener => if s.inProgram then some s.removeEveryListener else none
    | .removeAllListeners event =>
      if s.inProgram then some (s.removeAllListeners event) else none
    | .report pinValue => if s.todo.isEmpty then some (s.pinChange pinValue) else none
    | .proceed => s.proceed

/-! ### What the mode covers -/

variable (s : PinState)

/-- The mode of the last `GPIO_INT` command. -/
def lastMode : Byte := s.socket.foldl (modeAfterOp s.pin) 0#8

/-- There is a listener for the events of the kind `k`. -/
def registered (k : IntMode) : Prop := s.emitter.listeners (.mode k) ≠ []

/-- The coprocessor reports the events for which there is a listener, and its interrupt is off when
there is no listener. -/
structure Covered : Prop where
  reports : ∀ k, s.registered k → k.reportedBy s.lastMode
  off : (∀ k, ¬ s.registered k) → s.lastMode = 0#8

/-- Removing listeners for an event keeps one for it, if it is the only mode with listeners or the
mode for changes with other edges. -/
def spares (event : EventName) (left : List Listener) : Prop :=
  match event with
  | .mode .change => left = [] → ¬ s.registered .rise ∧ ¬ s.registered .fall
  | .mode .rise => left = [] → s.registered .rise → s.registered .fall ∨ s.registered .change
  | .mode .fall => left = [] → s.registered .fall → s.registered .rise ∨ s.registered .change
  | _ => True

/-- The condition under which a step keeps the listeners covered: a listener is added only to
listeners that its mode reports; a removal leaves a listener for an edge if there is one for another
edge than `change`, and none for those when the last one for `change` goes; and all listeners of a
falsy event are removed, or the mode is reset after a level, only without listeners. -/
def fits : PinEvent → Prop
  | .addListener event _ _ | .once event _ => ∀ k, s.registered k → k.reportedBy event.sense
  | .removeListener event f => s.spares event ((s.emitter.removeListener event f).listeners event)
  | .removeEveryListener => True
  | .removeAllListeners event =>
    s.spares event [] ∧ (¬ event.truthy → ∀ k, ¬ s.registered k)
  | .report _ => True
  | .proceed =>
    match s.todo with
    | .call event l :: _ =>
      l.isOnce → s.spares (.mode event)
        ((s.emitter.removeListener (.mode event) l.fn).listeners (.mode event))
    | .resetMode :: _ => ∀ k, ¬ s.registered k
    | _ => True

variable {s} {s' : PinState} {event : EventName} {k : IntMode}

/-! ### One command -/

theorem intField_command (pin : Fin 8) (event : EventName) :
    intField pin (newBuffer
      [Cmd.gpioInt, (Pin.bits pin ||| Pin.interruptBits event.sentMode).toInt]) =
        some event.sense := by
  obtain ⟨hpin, hmode⟩ := interruptBits_decode pin event.sentMode
  have hcmd : newBuffer [Cmd.gpioInt, (Pin.bits pin ||| Pin.interruptBits event.sentMode).toInt] =
      [BitVec.ofInt 8 Cmd.gpioInt,
        BitVec.ofInt 8 (Pin.bits pin ||| Pin.interruptBits event.sentMode).toInt] := rfl
  rw [hcmd, intField, if_pos ⟨rfl, hpin⟩, hmode]
  rfl

@[simp] theorem lastMode_setInterruptMode (s : PinState) (event : EventName) :
    (s.setInterruptMode event).lastMode = event.sense := by
  have hcmd := intField_command s.pin event
  show (s.socket ++ Pin.setInterruptMode s.pin event.sentMode).foldl (modeAfterOp s.pin) 0#8 = _
  rw [List.foldl_append]
  show (intField s.pin (newBuffer
    [Cmd.gpioInt, (Pin.bits s.pin ||| Pin.interruptBits event.sentMode).toInt])).getD _ = _
  rw [hcmd, Option.getD_some]

theorem not_reportedBy_zero (k : IntMode) : ¬ k.reportedBy 0#8 := by
  cases k <;> decide

theorem reportedBy_sense (k : IntMode) : k.reportedBy k.sense := by
  cases k <;> decide

/-- A mode for a level reports nothing else, and that of an edge no level. -/
theorem level_of_reportedBy {m : IntMode} (h : k.reportedBy m.sense) :
    (EventName.mode m).isLevel = (EventName.mode k).isLevel ∧
      ((EventName.mode m).isLevel → k = m) := by
  revert h
  cases m <;> cases k <;> decide

/-! ### The invariant -/

/-- What holds as long as the listeners are covered. -/
inductive Consistent (s : PinState) : Prop
  | silent (hm : s.interruptMode = .null ∨ ∃ name, s.interruptMode = .inherited name)
      (hreg : ∀ k, ¬ s.registered k) (hmode : s.lastMode = 0#8)
  | edges (hm : s.interruptMode = .mode .change) (hreg : ∃ k, s.registered k)
      (hcov : ∀ k, s.registered k → k.reportedBy s.lastMode ∧ ¬ (EventName.mode k).isLevel)
  | level (m : IntMode) (hm : s.interruptMode = .mode m) (hlevel : (EventName.mode m).isLevel)
      (hreg : s.registered m) (honly : ∀ k, s.registered k → k = m)
      (hmode : s.lastMode = m.sense)

namespace Consistent

theorem covered (h : s.Consistent) : s.Covered := by
  cases h with
  | silent hm hreg hmode => exact ⟨fun k hk => absurd hk (hreg k), fun _ => hmode⟩
  | edges hm hreg hcov =>
    obtain ⟨k, hk⟩ := hreg
    exact ⟨fun k hk => (hcov k hk).1, fun hno => absurd hk (hno k)⟩
  | level m hm hlevel hreg honly hmode =>
    refine ⟨fun k hk => ?_, fun hno => absurd hreg (hno m)⟩
    rw [hmode, honly k hk]
    exact reportedBy_sense m

/-- What the invariant does not mention may change. -/
theorem congr (h : s.Consistent) (he : s'.emitter = s.emitter)
    (hm : s'.interruptMode = s.interruptMode) (hl : s'.lastMode = s.lastMode) : s'.Consistent := by
  have hreg : ∀ k, s'.registered k ↔ s.registered k := by
    intro k
    rw [registered, registered, he]
  cases h with
  | silent hm' hreg' hmode =>
    exact .silent (hm ▸ hm') (by simpa only [hreg] using hreg') (hl ▸ hmode)
  | edges hm' hreg' hcov =>
    exact .edges (hm.trans hm') (by simpa only [hreg] using hreg')
      (by simpa only [hreg, hl] using hcov)
  | level m hm' hlevel hreg' honly hmode =>
    exact .level m (hm.trans hm') hlevel ((hreg m).2 hreg') (by simpa only [hreg] using honly)
      (hl.trans hmode)

/-- With a listener for an edge, the mode is the one for changes and there is none for a level. -/
theorem of_edge (h : s.Consistent) (hk : s.registered k) (hl : (EventName.mode k).isLevel = false) :
    s.interruptMode = .mode .change ∧
      ∀ k', s.registered k' → (EventName.mode k').isLevel = false := by
  cases h with
  | silent _ hreg _ => exact absurd hk (hreg k)
  | edges hm _ hcov => exact ⟨hm, fun k' hk' => Bool.eq_false_of_not_eq_true (hcov k' hk').2⟩
  | level m _ hlevel _ honly _ =>
    rw [honly k hk, hlevel] at hl
    cases hl

end Consistent

/-! ### Removing listeners -/

/-- From `s` to `s'` listeners for one event are removed, and the mode is reset if it was for this
event and none of them is left. -/
structure Removes (event : EventName) (s s' : PinState) : Prop where
  lessens : EventEmitter.Lessens event s.emitter s'.emitter
  reset : event = s.interruptMode → s'.emitter.listeners event = [] →
    s'.interruptMode = .null ∧ s'.lastMode = 0#8
  keeps : ¬ (event = s.interruptMode ∧ s'.emitter.listeners event = []) →
    s'.interruptMode = s.interruptMode ∧ s'.lastMode = s.lastMode

namespace Removes

theorem registered_of (h : Removes event s s') (hk : s'.registered k) : s.registered k :=
  h.lessens.ne_nil hk

theorem registered_iff (h : Removes event s s') (hk : EventName.mode k ≠ event) :
    s'.registered k ↔ s.registered k := by
  rw [registered, registered, h.lessens.other _ hk]

/-- A removal that leaves the listeners covered spares what it has to. -/
theorem spares (h : Removes event s s') (hs : s.Consistent) (hc : s'.Covered) :
    s.spares event (s'.emitter.listeners event) := by
  have hchange : ∀ k, k = .rise ∨ k = .fall → event = .mode .change →
      s'.emitter.listeners event = [] → ¬ s.registered k := by
    intro k hk he hleft hreg
    have hne : EventName.mode k ≠ event := by
      subst he
      rcases hk with rfl | rfl <;> decide
    have hm := (hs.of_edge hreg (by rcases hk with rfl | rfl <;> rfl)).1
    have hrep := hc.reports k ((h.registered_iff hne).2 hreg)
    rw [(h.reset (he.trans hm.symm) hleft).2] at hrep
    exact not_reportedBy_zero k hrep
  -- the mode stays on when the last listener for an edge other than `change` goes
  have hother : ∀ k, k = .rise ∨ k = .fall → event = .mode k → s.registered k →
      ∃ k', s'.registered k' ∧ (EventName.mode k').isLevel = false := by
    intro k hk he hreg
    obtain ⟨hm, hlevels⟩ := hs.of_edge hreg (by rcases hk with rfl | rfl <;> rfl)
    have hkeeps := (h.keeps fun hx => by
      have heq := he.symm.trans (hx.1.trans hm)
      rcases hk with rfl | rfl <;> cases heq).2
    have hrep := hs.covered.reports k hreg
    rw [← hkeeps] at hrep
    by_contra hno
    rw [hc.off fun k' hk' => hno ⟨k', hk', hlevels k' (h.registered_of hk')⟩] at hrep
    exact not_reportedBy_zero k hrep
  unfold PinState.spares
  split
  · exact fun hleft => ⟨hchange .rise (.inl rfl) rfl hleft, hchange .fall (.inr rfl) rfl hleft⟩
  · intro hleft hreg
    obtain ⟨k', hk', hl⟩ := hother .rise (.inl rfl) rfl hreg
    have hk := h.registered_of hk'
    cases k' with
    | rise => exact absurd hleft hk'
    | fall => exact .inl hk
    | change => exact .inr hk
    | low => cases hl
    | high => cases hl
  · intro hleft hreg
    obtain ⟨k', hk', hl⟩ := hother .fall (.inr rfl) rfl hreg
    have hk := h.registered_of hk'
    cases k' with
    | rise => exact .inl hk
    | fall => exact absurd hleft hk'
    | change => exact .inr hk
    | low => cases hl
    | high => cases hl
  · trivial

/-- After a removal that spares what it has to, the mode still covers what is left. -/
theorem consistent (h : Removes event s s') (hs : s.Consistent)
    (hsp : s.spares event (s'.emitter.listeners event)) : s'.Consistent := by
  by_cases hr : event = s.interruptMode ∧ s'.emitter.listeners event = []
  · obtain ⟨he, hleft⟩ := hr
    obtain ⟨hm', hl'⟩ := h.reset he hleft
    refine .silent (.inl hm') (fun k hk => ?_) hl'
    have hreg := h.registered_of hk
    cases hs with
    | silent _ hreg' _ => exact hreg' k hreg
    | edges hm _ hcov =>
      rw [he, hm] at hsp hleft
      obtain ⟨hrise, hfall⟩ := hsp hleft
      have hnl := (hcov k hreg).2
      cases k with
      | rise => exact hrise hreg
      | fall => exact hfall hreg
      | change => exact hk hleft
      | low => exact hnl rfl
      | high => exact hnl rfl
    | level m hm _ _ honly _ =>
      rw [he, hm] at hleft
      rw [honly k hreg] at hk
      exact hk hleft
  · obtain ⟨hm', hl'⟩ := h.keeps hr
    cases hs with
    | silent hm hreg hmode =>
      exact .silent (hm' ▸ hm) (fun k hk => hreg k (h.registered_of hk)) (hl'.trans hmode)
    | edges hm hreg hcov =>
      refine .edges (hm'.trans hm) ?_ fun k hk => ?_
      · obtain ⟨k, hk⟩ := hreg
        by_cases he : EventName.mode k = event
        · by_cases hleft : s'.emitter.listeners event = []
          · -- the last listener for the event goes: another one is spared
            obtain ⟨k', hk', hne⟩ : ∃ k', s.registered k' ∧ k' ≠ k := by
              subst he
              cases k with
              | change => exact absurd ⟨hm.symm, hleft⟩ hr
              | rise =>
                obtain hk' | hk' := hsp hleft hk
                · exact ⟨_, hk', by decide⟩
                · exact ⟨_, hk', by decide⟩
              | fall =>
                obtain hk' | hk' := hsp hleft hk
                · exact ⟨_, hk', by decide⟩
                · exact ⟨_, hk', by decide⟩
              | low => exact absurd rfl (hcov _ hk).2
              | high => exact absurd rfl (hcov _ hk).2
            exact ⟨k', (h.registered_iff fun hx => hne (EventName.mode.inj (hx.trans he.symm))).2 hk'⟩
          · exact ⟨k, by rw [registered, he]; exact hleft⟩
        · exact ⟨k, (h.registered_iff he).2 hk⟩
      · rw [hl']
        exact hcov k (h.registered_of hk)
    | level m hm hlevel hreg honly hmode =>
      refine .level m (hm'.trans hm) hlevel ?_ (fun k hk => honly k (h.registered_of hk))
        (hl'.trans hmode)
      by_cases he : EventName.mode m = event
      · rw [registered, he]
        exact fun hleft => hr ⟨he.symm.trans hm.symm, hleft⟩
      · exact (h.registered_iff he).2 hreg

end Removes

theorem removes_removeListener (s : PinState) (event : EventName) (f : Func) :
    Removes event s (s.removeListener event f) ∧
      (s.removeListener event f).emitter = s.emitter.removeListener event f := by
  have hl := EventEmitter.lessens_removeListener (m := s.emitter) event f
  unfold removeListener
  dsimp only
  split_ifs with hc
  · refine ⟨⟨hl, fun _ _ => ⟨rfl, lastMode_setInterruptMode _ _⟩, fun hno => ?_⟩, rfl⟩
    exact absurd ⟨hc.1, List.length_eq_zero_iff.1 hc.2⟩ hno
  · refine ⟨⟨hl, fun he hleft => ?_, fun _ => ⟨rfl, rfl⟩⟩, rfl⟩
    exact absurd ⟨he, List.length_eq_zero_iff.2 hleft⟩ hc

theorem removes_removeAllListeners (s : PinState) (ht : event.truthy) :
    Removes event s (s.removeAllListeners event) := by
  have hl := EventEmitter.lessens_removeAllListeners (m := s.emitter) event
  have hleft : (s.emitter.removeAllListeners event).listeners event = [] :=
    Function.update_self ..
  unfold removeAllListeners
  dsimp only
  split_ifs with hc
  · refine ⟨hl, fun _ _ => ⟨rfl, lastMode_setInterruptMode s .null⟩, fun hno => ?_⟩
    exact absurd ⟨hc.resolve_left (not_not.2 ht), hleft⟩ hno
  · exact ⟨hl, fun he _ => absurd (.inr he) hc, fun _ => ⟨rfl, rfl⟩⟩

/-! ### One step -/

/-- With the mode off, covered listeners are none. -/
theorem not_registered_of_off (h : s.Covered) (hl : s.lastMode = 0#8) : ¬ s.registered k := by
  intro hk
  have hrep := h.reports k hk
  rw [hl] at hrep
  exact not_reportedBy_zero k hrep

/-- What a step does to the listeners and the mode: its condition is what it has to meet so that the
invariant is kept, and no less. -/
structure Decides (fits : Prop) (s' : PinState) : Prop where
  consistent : fits → s'.Consistent
  fits : s'.Covered → fits

theorem Removes.decides (h : Removes event s s') (hs : s.Consistent) :
    Decides (s.spares event (s'.emitter.listeners event)) s' :=
  ⟨h.consistent hs, h.spares hs⟩

/-- Adding a listener sets the mode, whatever it was. -/
theorem decides_addListener {l : Listener} (h : s.addListener event l = some s') :
    Decides (∀ k, s.registered k → k.reportedBy event.sense) s' := by
  unfold addListener at h
  split_ifs at h with hmode
  rw [Option.some.injEq] at h
  have hlast : s'.lastMode = event.sense := by
    rw [← h]
    exact lastMode_setInterruptMode s.ref event
  have hm : s'.interruptMode = event.folded := by
    rw [← h]
    rfl
  have hreg : ∀ k, s'.registered k ↔ s.registered k ∨ EventName.mode k = event := by
    intro k
    have hlist : s'.emitter = s.emitter.addListener event l := by
      rw [← h]
      rfl
    rw [registered, hlist, EventEmitter.addListener_ne_nil]
    exact Iff.rfl
  -- `setInterruptMode` tells the firmware the mode of the new event, whatever was there before
  refine ⟨fun hfits => ?_, fun hc k hk => ?_⟩
  · have hrep : ∀ k, s'.registered k → k.reportedBy s'.lastMode := by
      intro k hk
      rw [hlast]
      obtain hk | rfl := (hreg k).1 hk
      · exact hfits k hk
      · exact reportedBy_sense k
    cases event with
    | null => cases hmode
    | falsy => cases hmode
    | other name => cases hmode
    | inherited name =>
      refine .silent (.inr ⟨name, hm⟩) (fun k hk => ?_) hlast
      have h0 := hrep k hk
      rw [hlast] at h0
      exact not_reportedBy_zero k h0
    | mode m =>
      have hreg' : s'.registered m := (hreg m).2 (.inr rfl)
      have hall : ∀ k, s'.registered k → (EventName.mode m).isLevel = (EventName.mode k).isLevel ∧
          ((EventName.mode m).isLevel → k = m) := by
        intro k hk
        have hk' := hrep k hk
        rw [hlast] at hk'
        exact level_of_reportedBy hk'
      -- a level leaves room for no other event, an edge only for edges
      by_cases hl : (EventName.mode m).isLevel
      · refine .level m (hm.trans ?_) hl hreg' (fun k hk => (hall k hk).2 hl) hlast
        cases m <;> first | rfl | cases hl
      · refine .edges (hm.trans ?_) ⟨m, hreg'⟩ fun k hk => ⟨hrep k hk, ?_⟩
        · cases m <;> first | rfl | exact absurd rfl hl
        · rw [← (hall k hk).1]
          exact hl
  · rw [← hlast]
    exact hc.reports k ((hreg k).2 (.inl hk))

theorem decides_removeAllListeners (hs : s.Consistent) (event : EventName) :
    Decides (s.spares event [] ∧ (¬ event.truthy → ∀ k, ¬ s.registered k))
      (s.removeAllListeners event) := by
  by_cases ht : event.truthy
  · have hd := (removes_removeAllListeners s ht).decides hs
    have hleft : (s.removeAllListeners event).emitter.listeners event = [] := by
      unfold removeAllListeners
      exact Function.update_self ..
    rw [hleft] at hd
    exact ⟨fun hf => hd.consistent hf.1, fun hc => ⟨hd.fits hc, fun hno => absurd ht hno⟩⟩
  · -- the mode is reset, and no listener goes
    have hlast : (s.removeAllListeners event).lastMode = 0#8 := by
      unfold removeAllListeners
      rw [if_pos (.inl ht)]
      exact lastMode_setInterruptMode s .null
    have hm : (s.removeAllListeners event).interruptMode = .null := by
      unfold removeAllListeners
      rw [if_pos (.inl ht)]
      rfl
    have hreg : ∀ k, (s.removeAllListeners event).registered k ↔ s.registered k := by
      intro k
      have hne : EventName.mode k ≠ event := by
        rintro rfl
        exact ht rfl
      unfold removeAllListeners
      rw [if_pos (.inl ht)]
      exact Iff.of_eq (congrArg (fun l => l ≠ []) (Function.update_of_ne hne _ _))
    refine ⟨fun hf => .silent (.inl hm) (fun k hk => ?_) hlast, fun hc => ⟨?_, fun _ k hk => ?_⟩⟩
    · exact hf.2 ht k ((hreg k).1 hk)
    · cases event with
      | mode m => exact absurd rfl ht
      | _ => trivial
    · exact not_registered_of_off hc hlast ((hreg k).2 hk)

theorem Decides.congr {c : Prop} {s'' : PinState} (h : Decides c s') (he : s''.emitter = s'.emitter)
    (hm : s''.interruptMode = s'.interruptMode) (hl : s''.lastMode = s'.lastMode) :
    Decides c s'' := by
  refine ⟨fun hc => (h.consistent hc).congr he hm hl, fun hc => h.fits ?_⟩
  have hreg : ∀ k, s''.registered k ↔ s'.registered k := by
    intro k
    rw [registered, registered, he]
  refine ⟨fun k hk => ?_, fun hno => ?_⟩
  · rw [← hl]
    exact hc.reports k ((hreg k).2 hk)
  · rw [← hl]
    exact hc.off fun k hk => hno k ((hreg k).1 hk)

/-- A step that changes neither the listeners nor the mode. -/
theorem decides_same (hs : s.Consistent) (he : s'.emitter = s.emitter)
    (hm : s'.interruptMode = s.interruptMode) (hl : s'.lastMode = s.lastMode) :
    Decides True s' :=
  ⟨fun _ => hs.congr he hm hl, fun _ => trivial⟩

theorem decides_proceed (hs : s.Consistent) (h : s.proceed = some s') :
    Decides (s.fits .proceed) s' := by
  unfold proceed at h
  unfold fits
  split at h
  · cases h
  · next event tasks ht =>
    obtain rfl := Option.some.inj h
    rw [ht]
    exact decides_same hs rfl rfl rfl
  · next event l tasks ht =>
    obtain rfl := Option.some.inj h
    rw [ht]
    dsimp only
    split_ifs with hl
    · -- a wrapper removes itself
      obtain ⟨hrem, hem⟩ := removes_removeListener s (.mode event) l.fn
      have hd := hrem.decides hs
      rw [hem] at hd
      exact Decides.congr ⟨fun hf => hd.consistent (hf hl), fun hc _ => hd.fits hc⟩ rfl rfl rfl
    · exact ⟨fun _ => hs.congr rfl rfl rfl, fun _ hno => absurd hno hl⟩
  · next tasks ht =>
    obtain rfl := Option.some.inj h
    rw [ht]
    have hl : (s.setInterruptMode .null).lastMode = 0#8 := lastMode_setInterruptMode s .null
    exact ⟨fun hf => .silent (.inl rfl) hf hl, fun hc k hk => not_registered_of_off hc hl hk⟩

/-- **One step.** -/
theorem decides_step {e : PinEvent} (hs : s.Consistent) (h : machine.step s e = some s') :
    Decides (s.fits e) s' := by
  cases e <;> simp only [machine, Option.ite_none_right_eq_some, Option.some.injEq] at h
  case addListener event callback listener => exact decides_addListener h.2
  case once event callback =>
    obtain ⟨-, h⟩ := h
    exact decides_addListener
      (s := { s with emitter := (s.emitter.onceWrap (.program callback)).2 }) h
  case removeListener event f =>
    obtain ⟨-, rfl⟩ := h
    obtain ⟨hrem, hem⟩ := removes_removeListener s event f
    have hd := hrem.decides hs
    rw [hem] at hd
    exact hd
  case removeEveryListener =>
    obtain ⟨-, rfl⟩ := h
    exact ⟨fun _ => .silent (.inl rfl) (fun k hk => hk rfl) (lastMode_setInterruptMode s .null),
      fun _ => trivial⟩
  case removeAllListeners event =>
    obtain ⟨-, rfl⟩ := h
    exact decides_removeAllListeners hs event
  case report pinValue =>
    obtain ⟨-, rfl⟩ := h
    unfold pinChange
    split
    · exact decides_same hs rfl rfl rfl
    · exact decides_same hs rfl rfl rfl
    · exact decides_same hs rfl rfl rfl
  case proceed => exact decides_proceed hs h

/-! ### Runs -/

theorem consistent_init (pin : Fin 8) : (init pin).Consistent :=
  .silent (.inl rfl) (fun _ hk => hk rfl) rfl

/-- **The mode covers the listeners.**  For every sequence of calls that do not throw and of reports,
with calls in listeners at any place: after every step the last `GPIO_INT` command makes the
coprocessor report every kind of event for which there is a listener, and is for the mode 0 without
listeners, exactly if every step meets `fits`. -/
theorem covered_iff {pin : Fin 8} {es : List PinEvent} {s : PinState} :
    machine.Run (fun s e => ∀ s', machine.step s e = some s' → s'.Covered) (init pin) es s ↔
      machine.Run fits (init pin) es s := by
  constructor
  · intro h
    refine (h.strengthen (consistent_init pin) fun q e q' hq hc hst => ?_).1
    have hd := decides_step hq hst
    have hf := hd.fits (hc q' hst)
    exact ⟨hd.consistent hf, hf⟩
  · intro h
    refine (h.strengthen (consistent_init pin) fun q e q' hq hf hst => ?_).1
    have hcons := (decides_step hq hst).consistent hf
    refine ⟨hcons, fun q'' hst' => ?_⟩
    obtain rfl := Option.some.inj (hst.symm.trans hst')
    exact hcons.covered

/-- A run that adds a listener for each of both edges. -/
def edgeRun : List PinEvent :=
  [.addListener (.mode .rise) 0 none, .addListener (.mode .fall) 1 none]

/-- The second listener takes the reports from the first one. -/
theorem not_covered_edgeRun :
    ¬ ∀ (pin : Fin 8) (es : List PinEvent) (s : PinState),
      machine.Run Machine.always (init pin) es s → s.Covered := by
  intro hall
  have h : (machine.exec (init ⟨2, by decide⟩) edgeRun).any (fun s =>
      decide (s.emitter.listeners (.mode .rise) ≠ []) && decide (s.lastMode = 2#8)) := by
    decide +kernel
  obtain ⟨s, hs, hpair⟩ := (Option.any_eq_true _ _).1 h
  simp only [Bool.and_eq_true, decide_eq_true_eq] at hpair
  obtain ⟨hreg, hmode⟩ := hpair
  have hrep := (hall _ _ _ (Machine.run_of_exec hs)).reports .rise hreg
  rw [hmode] at hrep
  exact absurd hrep (by decide)

end PinState

end Node

end TesselFirmware
