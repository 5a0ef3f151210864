import Mathlib.Algebra.BigOperators.Group.Finset.Basic
import TesselFirmware.Machine.Basic
import TesselFirmware.Node.Mode
import TesselFirmware.Node.Readable

/-!
# The tasks that wait on a socket (`node/tessel-export.js`)

`port.pending` counts the commands that wait for their replies, the listeners for interrupts and
the UART of a port, and the socket keeps the script running while it is not 0.

`Client.machine` is a port with the calls of the program and the `'readable'` handler.  A listener
that the handler calls can call methods of the port, so the handler takes several steps for a pin
change.

* `PinState.tally_step` : a step of a pin changes the tasks that it owns and `pending` by the same
  number, if it meets `PinState.keepsCount`;
* `Client.exact_of_run` : `pending` is exact, and the socket is referenced exactly if something
  waits on it, in every run whose steps meet `Client.keepsCount`;
* `Client.not_exact_removeListener` : and it is not when a listener is removed.
-/

namespace TesselFirmware

namespace Node

open Finset

/-- One summand changes. -/
theorem sum_change {ι : Type} [DecidableEq ι] {s : Finset ι} {i : ι} {f g : ι → ℕ}
    (hi : i ∈ s) (h : ∀ j, j ≠ i → g j = f j) :
    ∑ j ∈ s, g j + f i = ∑ j ∈ s, f j + g i := by
  have hrest : ∑ j ∈ s.erase i, g j = ∑ j ∈ s.erase i, f j :=
    sum_congr rfl fun j hj => h j (ne_of_mem_erase hj)
  rw [← add_sum_erase s g hi, ← add_sum_erase s f hi, hrest]
  omega

/-! ### The socket -/

/-- The tasks that a port counts, and whether its socket keeps the script running. -/
structure Tasks where
  pending : ℕ
  referenced : Bool
  deriving DecidableEq, Repr

namespace Tasks

variable (t : Tasks)

def ref : Tasks := ⟨t.pending + 1, true⟩

def unref : Tasks :=
  let pending := if 0 < t.pending then t.pending - 1 else t.pending
  ⟨pending, if pending = 0 then false else t.referenced⟩

/-- The constructor of `Port` unreferences a new socket. -/
def init : Tasks := unref ⟨0, true⟩

end Tasks

namespace Client

/-- The socket of a port is referenced while tasks are pending. -/
def tasks (c : Client) : Tasks := ⟨c.pending, c.pending ≠ 0⟩

theorem tasks_ref (c : Client) : c.ref.tasks = c.tasks.ref := rfl

theorem tasks_unref (c : Client) : c.unref.tasks = c.tasks.unref := by
  obtain ⟨replyQueue, pending, uart, pins, told⟩ := c
  -- `pending` stays 0, comes to 0, or does not
  match pending with
  | 0 => rfl
  | 1 => rfl
  | n + 2 => rfl

/-! ### The machine -/

variable (c : Client)

/-- A port on which nothing has happened. -/
def start : Client := ⟨[], 0, false, .init, []⟩

theorem tasks_start : start.tasks = Tasks.init := rfl

/-- The handler of pin changes does not run. -/
def idle : Bool := decide (∀ i, (c.pins i).todo = [])

/-- The program runs: outside of the handler, or in a listener that it has called. -/
def inProgram : Bool := decide (∀ i, (c.pins i).inProgram)

/-- A method that sends commands. -/
def perform : Method → Client → Client
  | [], c => c
  | .enqueue reply :: m, c => perform m (c.enqueue reply)
  | .throw :: _, c => c
  | .cork :: m, c | .uncork :: m, c | .write _ :: m, c => perform m c

/-- `disable` of a UART. -/
def disableUart : Client := { c.unref with uart := false }

/-- The constructor `UART` of the port.  The last UART is disabled also if the constructor of the
new one throws. -/
def openUart (baudrate : Option ℚ) : Client :=
  let c := if c.uart then c.disableUart else c
  if UART.Valid baudrate then { c with uart := true }.ref else c

/-- A pin event is possible. -/
def allows : PinEvent → Bool
  | .report _ => c.idle
  | .proceed => true
  | _ => c.inProgram

/-- A step of a pin, which counts its tasks on the port. -/
def stepPin (i : Fin 8) (e : PinEvent) : Option Client :=
  if c.allows e then
    (PinState.machine.step { c.pins i with pending := c.pending } e).map fun s =>
      { c with pins := Function.update c.pins i s, pending := s.pending }
  else none

end Client

/-- What happens to a port. -/
inductive ClientEvent
  | request (m : Method)
  /-- The reply to the command that waits longest has been received. -/
  | reply
  | pin (i : Fin 8) (e : PinEvent)
  | uart (baudrate : Option ℚ)
  /-- `disable` of a UART of this port, not necessarily of the last one. -/
  | uartDisable

namespace Client

def machine : Machine Client ClientEvent where
  step c
    | .request m => if c.inProgram then some (c.perform m) else none
    | .reply => if c.idle ∧ c.replyQueue ≠ [] then some c.dequeue else none
    | .pin i e => c.stepPin i e
    | .uart baudrate => if c.inProgram then some (c.openUart baudrate) else none
    | .uartDisable => if c.inProgram then some c.disableUart else none

end Client

/-! ### What waits -/

/-- The kinds of interrupts. -/
def IntMode.all : Finset IntMode := {.rise, .fall, .change, .high, .low}

theorem IntMode.mem_all (m : IntMode) : m ∈ all := by
  cases m <;> decide

namespace PinState

variable (s : PinState)

/-- The listeners for interrupts that are registered on the pin. -/
def listenerCount : ℕ := ∑ m ∈ IntMode.all, s.emitter.listenerCount (.mode m)

/-- No listener is there that `removeListener` would take for `f`. -/
def lacks (m : IntMode) (f : Func) : Bool := (s.emitter.listeners (.mode m)).all (!·.isFor f)

/-- The only listener is one that `once` has added. -/
def soleOnce (m : IntMode) : Bool :=
  match s.emitter.listeners (.mode m) with
  | [l] => l.isOnce
  | _ => false

/-- The condition under which a step keeps the count: no listener is added under a name that
`INT_MODES` inherits, and none is removed, except for the only one of a level by its report, when
`once` has added it. -/
def keepsCount : PinEvent → Bool
  | .addListener event _ _ | .once event _ =>
    match event with
    | .inherited _ => false
    | _ => true
  | .removeListener event f =>
    match event with
    | .mode m => s.lacks m f
    | _ => true
  | .removeEveryListener => s.listenerCount = 0
  | .removeAllListeners event =>
    match event with
    | .mode m => (s.emitter.listeners (.mode m)).isEmpty
    | _ => true
  | .report _ => true
  | .proceed =>
    match s.todo with
    -- the mode is reset for a level only
    | .emit m :: tasks => tasks != [.resetMode] || s.soleOnce m
    | .call m l :: tasks => tasks == [.resetMode] || !l.isOnce || s.lacks m l.fn
    | _ => true

end PinState

namespace Client

variable (c : Client)

/-- What waits on the socket: commands, listeners for interrupts, and the UART. -/
def waiting : ℕ :=
  c.replyQueue.length + ∑ i, (c.pins i).listenerCount + if c.uart then 1 else 0

/-- `pending` counts what waits, and the socket is referenced exactly if something does. -/
structure Exact : Prop where
  pending : c.pending = c.waiting
  referenced : c.tasks.referenced ↔ c.waiting ≠ 0

/-- The condition under which a step keeps the count: that of a pin, and `disable` of a UART only
when there is one, or when nothing is pending. -/
def keepsCount : ClientEvent → Bool
  | .pin i e => (c.pins i).keepsCount e
  | .uartDisable => c.uart || c.pending == 0
  | _ => true

end Client

/-! ### The tasks of a pin -/

namespace PinState

variable {s s' : PinState} {event : EventName} {m : IntMode} {l : Listener} {f : Func}

/-- The handler still has to unreference the socket for a listener that is gone. -/
def owed (s : PinState) : ℕ := if s.todo = [.resetMode] then 1 else 0

/-- The tasks that the pin owns. -/
def tally (s : PinState) : ℕ := s.listenerCount + s.owed

/-- How far the handler of a pin change has come. -/
inductive Orderly (s : PinState) : Prop
  | edges (h : .resetMode ∉ s.todo)
  | emit (m : IntMode) (h : s.todo = [.emit m, .resetMode])
  /-- The only listener for a level is to be called. -/
  | call (m : IntMode) (l : Listener) (h : s.todo = [.call m l, .resetMode])
      (hl : s.emitter.listeners (.mode m) = [l]) (honce : l.isOnce) (hin : s.inListener = false)
  | reset (h : s.todo = [.resetMode])

/-- The program runs, and the handler has as much to do as before. -/
theorem Orderly.of_todo (h : s.Orderly) (hp : s.inProgram) (ht : s'.todo = s.todo) :
    s'.Orderly := by
  cases h with
  | edges h => exact .edges (ht ▸ h)
  | emit m h => exact .emit m (ht.trans h)
  | call m l h hl honce hin =>
    rw [inProgram, h, hin] at hp
    cases hp
  | reset h => exact .reset (ht.trans h)

/-- The handler does not depend on the count. -/
theorem Orderly.count (h : s.Orderly) (n : ℕ) : ({ s with pending := n } : PinState).Orderly := by
  cases h with
  | edges h => exact .edges h
  | emit m h => exact .emit m h
  | call m l h hl honce hin => exact .call m l h hl honce hin
  | reset h => exact .reset h

theorem owed_of_todo (h : s'.todo = s.todo) : s'.owed = s.owed := by
  rw [owed, owed, h]

theorem owed_of_not_mem (h : .resetMode ∉ s.todo) : s.owed = 0 := by
  refine if_neg fun he => h ?_
  rw [he]
  exact List.mem_singleton_self PinTask.resetMode

/-- The listeners for one kind of interrupt change. -/
theorem listenerCount_change
    (h : ∀ event, event ≠ .mode m → s'.emitter.listeners event = s.emitter.listeners event) :
    s'.listenerCount + s.emitter.listenerCount (.mode m) =
      s.listenerCount + s'.emitter.listenerCount (.mode m) :=
  sum_change m.mem_all fun k hk =>
    congrArg List.length (h (.mode k) fun he => hk (EventName.mode.inj he))

theorem listenerCount_congr
    (h : ∀ m, s'.emitter.listeners (.mode m) = s.emitter.listeners (.mode m)) :
    s'.listenerCount = s.listenerCount :=
  sum_congr rfl fun m _ => congrArg List.length (h m)

/-- From `s` to `s'` the pin has counted what it has changed. -/
structure Pays (s s' : PinState) : Prop where
  orderly : s'.Orderly
  pending : s'.pending + s.tally = s.pending + s'.tally

/-- A call of the program that neither adds nor removes a listener. -/
theorem Pays.of_same (h : s.Orderly) (hp : s.inProgram) (ht : s'.todo = s.todo)
    (hc : s'.listenerCount = s.listenerCount) (hpend : s'.pending = s.pending) : Pays s s' := by
  refine ⟨h.of_todo hp ht, ?_⟩
  rw [tally, tally, hc, owed_of_todo ht, hpend]

/-! ### One step of a pin -/

theorem pays_addListener (h : s.Orderly) (hp : s.inProgram) (hs : s.addListener event l = some s')
    (hname : ∀ name, event ≠ .inherited name) : Pays s s' := by
  unfold addListener at hs
  split_ifs at hs with hmode
  rw [Option.some.injEq] at hs
  cases event with
  | null => cases hmode
  | falsy => cases hmode
  | other name => cases hmode
  | inherited name => exact absurd rfl (hname name)
  | mode m =>
    have hem : s'.emitter = s.emitter.addListener (.mode m) l := by
      rw [← hs]
      rfl
    have hlen : s'.emitter.listenerCount (.mode m) = s.emitter.listenerCount (.mode m) + 1 := by
      rw [hem]
      simp [EventEmitter.listenerCount, EventEmitter.addListener]
    have hc : s'.listenerCount + s.emitter.listenerCount (.mode m) =
        s.listenerCount + s'.emitter.listenerCount (.mode m) := by
      refine listenerCount_change fun event he => ?_
      rw [hem]
      exact Function.update_of_ne he _ _
    have ht : s'.todo = s.todo := by
      rw [← hs]
      rfl
    have hpend : s'.pending = s.pending + 1 := by
      rw [← hs]
      rfl
    refine ⟨h.of_todo hp ht, ?_⟩
    rw [tally, tally, owed_of_todo ht, hpend]
    omega

theorem todo_removeListener (s : PinState) (event : EventName) (f : Func) :
    (s.removeListener event f).todo = s.todo := by
  unfold removeListener
  dsimp only
  split_ifs <;> rfl

theorem pending_removeListener (s : PinState) (event : EventName) (f : Func) :
    (s.removeListener event f).pending = s.pending := by
  unfold removeListener
  dsimp only
  split_ifs <;> rfl

/-- The listeners for an event after `removeListener`. -/
theorem listeners_removeListener (s : PinState) (event : EventName) (f : Func) :
    (s.removeListener event f).emitter.listeners event =
      ((s.emitter.listeners event).reverse.eraseP fun l => l.isFor f).reverse := by
  rw [(removes_removeListener s event f).2]
  exact Function.update_self ..

/-- No listener goes if there is none for the function. -/
theorem listenerCount_removeListener
    (h : ∀ m, event = .mode m → s.lacks m f) :
    (s.removeListener event f).listenerCount = s.listenerCount := by
  refine listenerCount_congr fun m => ?_
  by_cases he : EventName.mode m = event
  · have hl := h m he.symm
    rw [he, listeners_removeListener, List.eraseP_of_forall_not, List.reverse_reverse]
    intro l hl'
    rw [lacks, List.all_eq_true, he] at hl
    have hnot := hl l (List.mem_reverse.1 hl')
    simpa using hnot
  · exact (removes_removeListener s event f).1.lessens.other _ he

theorem pays_removeListener (h : s.Orderly) (hp : s.inProgram)
    (hlacks : ∀ m, event = .mode m → s.lacks m f) : Pays s (s.removeListener event f) :=
  .of_same h hp (todo_removeListener s event f) (listenerCount_removeListener hlacks)
    (pending_removeListener s event f)

theorem pays_removeEveryListener (h : s.Orderly) (hp : s.inProgram)
    (hnone : s.listenerCount = 0) : Pays s s.removeEveryListener := by
  refine .of_same h hp rfl ?_ rfl
  rw [hnone]
  exact sum_eq_zero fun m _ => rfl

theorem pays_removeAllListeners (h : s.Orderly) (hp : s.inProgram)
    (hnone : ∀ m, event = .mode m → s.emitter.listeners (.mode m) = []) :
    Pays s (s.removeAllListeners event) := by
  have hem : (s.removeAllListeners event).emitter = s.emitter.removeAllListeners event := by
    unfold removeAllListeners
    dsimp only
    split_ifs <;> rfl
  refine .of_same h hp ?_ (listenerCount_congr fun m => ?_) ?_
  · unfold removeAllListeners
    dsimp only
    split_ifs <;> rfl
  · rw [hem]
    by_cases he : EventName.mode m = event
    · rw [hnone m he.symm, he]
      exact Function.update_self ..
    · exact Function.update_of_ne he _ _
  · unfold removeAllListeners
    dsimp only
    split_ifs <;> rfl

theorem pays_pinChange (hidle : s.todo = []) (pinValue : Bool) : Pays s (s.pinChange pinValue) := by
  have howed : s.owed = 0 := by
    refine if_neg fun he => ?_
    rw [hidle] at he
    cases he
  unfold pinChange
  split
  · exact ⟨.emit .low rfl, by rw [tally, tally, howed]; rfl⟩
  · exact ⟨.emit .high rfl, by rw [tally, tally, howed]; rfl⟩
  · exact ⟨.edges (by simp), by rw [tally, tally, howed]; rfl⟩

/-- The only listener for a level is called, which takes it off. -/
theorem pays_call {m : IntMode} (ht : s.todo = [.call m l, .resetMode])
    (hl : s.emitter.listeners (.mode m) = [l]) (honce : l.isOnce) (hs : s.proceed = some s') :
    Pays s s' := by
  unfold proceed at hs
  rw [ht] at hs
  dsimp only at hs
  rw [if_pos honce, Option.some.injEq] at hs
  have hleft : (s.removeListener (.mode m) l.fn).emitter.listeners (.mode m) = [] := by
    rw [listeners_removeListener, hl]
    simp [Listener.isFor]
  have hem : s'.emitter = (s.removeListener (.mode m) l.fn).emitter := by
    rw [← hs]
  have ht' : s'.todo = [.resetMode] := by
    rw [← hs]
  have hpend : s'.pending = s.pending := by
    rw [← hs]
    exact pending_removeListener s _ _
  have hc : s'.listenerCount + s.emitter.listenerCount (.mode m) =
      s.listenerCount + s'.emitter.listenerCount (.mode m) := by
    refine listenerCount_change fun event he => ?_
    rw [hem]
    exact (removes_removeListener s _ _).1.lessens.other _ he
  have hone : s.emitter.listenerCount (.mode m) = 1 := by
    rw [EventEmitter.listenerCount, hl]
    rfl
  have hzero : s'.emitter.listenerCount (.mode m) = 0 := by
    rw [EventEmitter.listenerCount, hem, hleft]
    rfl
  have howed : s.owed = 0 := by
    refine if_neg fun he => ?_
    rw [ht] at he
    cases he
  have howed' : s'.owed = 1 := if_pos ht'
  refine ⟨.reset ht', ?_⟩
  rw [tally, tally, hpend]
  omega

/-- The handler goes on with edges. -/
theorem pays_edges (h : .resetMode ∉ s.todo) (hk : s.keepsCount .proceed)
    (hs : s.proceed = some s') : Pays s s' := by
  have howed := owed_of_not_mem h
  have hsame : ∀ {s' : PinState}, .resetMode ∉ s'.todo → s'.listenerCount = s.listenerCount →
      s'.pending = s.pending → Pays s s' := by
    intro s' hmem hc hpend
    refine ⟨.edges hmem, ?_⟩
    rw [tally, tally, hc, hpend, howed, owed_of_not_mem hmem]
  unfold proceed at hs
  unfold keepsCount at hk
  split at hs
  · cases hs
  · next m tasks ht =>
    obtain rfl := Option.some.inj hs
    rw [ht] at h
    refine hsame ?_ rfl rfl
    simp only [List.mem_append, List.mem_map, not_or]
    refine ⟨?_, fun hmem => h (List.mem_cons_of_mem _ hmem)⟩
    rintro ⟨l, -, hl⟩
    cases hl
  · next m l tasks ht =>
    obtain rfl := Option.some.inj hs
    rw [ht] at h hk
    have hmem : .resetMode ∉ tasks := fun hmem => h (List.mem_cons_of_mem _ hmem)
    have hk' : l.isOnce → s.lacks m l.fn := by
      intro honce
      simp only [honce, Bool.not_true, Bool.or_false, Bool.or_eq_true, beq_iff_eq] at hk
      refine hk.resolve_left fun he => hmem ?_
      rw [he]
      exact List.mem_singleton_self PinTask.resetMode
    split_ifs with honce
    · have hpend := pending_removeListener s (.mode m) l.fn
      refine hsame hmem (listenerCount_removeListener fun m' hm' => ?_) hpend
      obtain rfl := EventName.mode.inj hm'
      exact hk' honce
    · exact hsame hmem rfl rfl
  · next tasks ht =>
    rw [ht] at h
    exact absurd (List.mem_cons_self ..) h

theorem soleOnce_iff :
    s.soleOnce m ↔ ∃ l, s.emitter.listeners (.mode m) = [l] ∧ l.isOnce := by
  unfold soleOnce
  constructor
  · intro h
    split at h
    · next l hl => exact ⟨l, hl, h⟩
    · cases h
  · rintro ⟨l, hl, honce⟩
    rw [hl]
    exact honce

theorem pays_proceed (h : s.Orderly) (hk : s.keepsCount .proceed) (hs : s.proceed = some s')
    (hle : s.tally ≤ s.pending) : Pays s s' := by
  cases h with
  | edges h => exact pays_edges h hk hs
  | emit m ht =>
    unfold keepsCount at hk
    rw [ht] at hk
    obtain ⟨l, hl, honce⟩ := soleOnce_iff.1 hk
    unfold proceed at hs
    rw [ht] at hs
    obtain rfl := Option.some.inj hs
    have howed : s.owed = 0 := by
      refine if_neg fun he => ?_
      rw [ht] at he
      cases he
    have htodo : (s.emitter.listeners (.mode m)).map (PinTask.call m) ++ [.resetMode] =
        [.call m l, .resetMode] := by
      rw [hl]
      rfl
    refine ⟨.call m l htodo hl honce rfl, ?_⟩
    rw [tally, tally, howed]
    dsimp only
    rw [owed, htodo]
    rfl
  | call m l ht hl honce hin => exact pays_call ht hl honce hs
  | reset ht =>
    unfold proceed at hs
    rw [ht] at hs
    obtain rfl := Option.some.inj hs
    have howed : s.owed = 1 := if_pos ht
    refine ⟨.edges (List.not_mem_nil), ?_⟩
    -- the listener is gone, but has been counted until now
    show s.pending - 1 + (s.listenerCount + s.owed) = s.pending + (s.listenerCount + 0)
    rw [tally] at hle
    omega

/-- **One step of a pin.** -/
theorem tally_step {e : PinEvent} (h : s.Orderly) (hk : s.keepsCount e)
    (hs : machine.step s e = some s') (hle : s.tally ≤ s.pending) : Pays s s' := by
  cases e <;> simp only [machine, Option.ite_none_right_eq_some, Option.some.injEq] at hs
  case addListener event callback listener =>
    refine pays_addListener h hs.1 hs.2 ?_
    rintro name rfl
    cases hk
  case once event callback =>
    -- a wrapper is made, and added
    have hpays := pays_addListener
      (s := { s with emitter := (s.emitter.onceWrap (.program callback)).2 })
      (h.of_todo hs.1 rfl) hs.1 hs.2 (by rintro name rfl; cases hk)
    exact ⟨hpays.orderly, hpays.pending⟩
  case removeListener event f =>
    obtain ⟨hp, rfl⟩ := hs
    refine pays_removeListener h hp ?_
    rintro m rfl
    exact hk
  case removeEveryListener =>
    obtain ⟨hp, rfl⟩ := hs
    exact pays_removeEveryListener h hp (of_decide_eq_true hk)
  case removeAllListeners event =>
    obtain ⟨hp, rfl⟩ := hs
    refine pays_removeAllListeners h hp ?_
    rintro m rfl
    exact List.isEmpty_iff.1 hk
  case report pinValue =>
    obtain ⟨hidle, rfl⟩ := hs
    exact pays_pinChange (List.isEmpty_iff.1 hidle) pinValue
  case proceed => exact pays_proceed h hk hs hle

end PinState

/-! ### The tasks of a port -/

namespace Client

variable {c c' : Client}

/-- The tasks that are pending, with those that a handler still has to take off. -/
def tally (c : Client) : ℕ :=
  c.replyQueue.length + ∑ i, (c.pins i).tally + if c.uart then 1 else 0

/-- The invariant of the runs that keep the count. -/
structure Accounted (c : Client) : Prop where
  orderly : ∀ i, (c.pins i).Orderly
  pending : c.pending = c.tally

namespace Accounted

theorem perform (h : c.Accounted) (m : Method) : (c.perform m).Accounted := by
  induction m generalizing c with
  | nil => exact h
  | cons op m ih =>
    cases op with
    | cork => exact ih h
    | uncork => exact ih h
    | write bytes => exact ih h
    | enqueue reply =>
      refine ih ⟨h.orderly, ?_⟩
      show c.pending + 1 = (c.replyQueue ++ [reply]).length + ∑ i, (c.pins i).tally +
        if c.uart then 1 else 0
      rw [h.pending, tally, List.length_append, List.length_singleton]
      omega
    | throw => exact h

theorem dequeue (h : c.Accounted) (hq : c.replyQueue ≠ []) : c.dequeue.Accounted := by
  refine ⟨h.orderly, ?_⟩
  have hpos := List.length_pos_iff.2 hq
  show c.pending - 1 = c.replyQueue.tail.length + ∑ i, (c.pins i).tally + if c.uart then 1 else 0
  rw [h.pending, tally, List.length_tail]
  omega

theorem disableUart (h : c.Accounted) (hu : c.uart ∨ c.pending = 0) :
    c.disableUart.Accounted := by
  refine ⟨h.orderly, ?_⟩
  have hpending := h.pending
  show c.pending - 1 = c.replyQueue.length + ∑ i, (c.pins i).tally + 0
  unfold tally at hpending
  rcases hu with hu | hzero
  · rw [if_pos hu] at hpending
    omega
  · omega

/-- The last UART is disabled before the next one is constructed. -/
theorem released (h : c.Accounted) : (if c.uart then c.disableUart else c).Accounted := by
  split_ifs with hu
  · exact h.disableUart (.inl hu)
  · exact h

theorem openUart (h : c.Accounted) (baudrate : Option ℚ) : (c.openUart baudrate).Accounted := by
  have hu : (if c.uart then c.disableUart else c).uart = false := by
    split_ifs with hu
    · rfl
    · exact Bool.eq_false_of_not_eq_true hu
  have hr := h.released
  unfold Client.openUart
  dsimp only
  generalize (if c.uart then c.disableUart else c) = c' at hr hu ⊢
  split_ifs
  · refine ⟨hr.orderly, ?_⟩
    show c'.pending + 1 = c'.replyQueue.length + ∑ i, (c'.pins i).tally + 1
    rw [hr.pending, tally, hu]
    rfl
  · exact hr

theorem stepPin (h : c.Accounted) {i : Fin 8} {e : PinEvent} (hk : (c.pins i).keepsCount e)
    (hs : c.stepPin i e = some c') : c'.Accounted := by
  unfold Client.stepPin at hs
  split_ifs at hs
  obtain ⟨s', hstep, rfl⟩ := Option.map_eq_some_iff.1 hs
  have hpending : c.pending =
      c.replyQueue.length + ∑ j, (c.pins j).tally + if c.uart then 1 else 0 := h.pending
  have hle : (c.pins i).tally ≤ c.pending := by
    have hsplit := add_sum_erase univ (fun j => (c.pins j).tally) (mem_univ i)
    omega
  -- the pin counts on the port
  have hpays := PinState.tally_step ((h.orderly i).count c.pending) hk hstep hle
  refine ⟨fun j => ?_, ?_⟩
  · show (Function.update c.pins i s' j).Orderly
    by_cases hj : j = i
    · subst hj
      rw [Function.update_self]
      exact hpays.orderly
    · rw [Function.update_of_ne hj]
      exact h.orderly j
  · have hpin : s'.pending + (c.pins i).tally = c.pending + s'.tally := hpays.pending
    have hsum := sum_change (f := fun j => (c.pins j).tally)
      (g := fun j => (Function.update c.pins i s' j).tally) (mem_univ i) fun j hj => by
        rw [Function.update_of_ne hj]
    rw [Function.update_self] at hsum
    show s'.pending = c.replyQueue.length + ∑ j, (Function.update c.pins i s' j).tally +
      if c.uart then 1 else 0
    omega

end Accounted

/-- **One step of a port.** -/
theorem accounted_step {e : ClientEvent} (h : c.Accounted) (hk : c.keepsCount e)
    (hs : machine.step c e = some c') : c'.Accounted := by
  cases e with
  | request m =>
    obtain ⟨-, hs⟩ := Option.ite_none_right_eq_some.1 hs
    obtain rfl := Option.some.inj hs
    exact h.perform m
  | reply =>
    obtain ⟨⟨-, hq⟩, hs⟩ := Option.ite_none_right_eq_some.1 hs
    obtain rfl := Option.some.inj hs
    exact h.dequeue hq
  | pin i e => exact h.stepPin hk hs
  | uart baudrate =>
    obtain ⟨-, hs⟩ := Option.ite_none_right_eq_some.1 hs
    obtain rfl := Option.some.inj hs
    exact h.openUart baudrate
  | uartDisable =>
    obtain ⟨-, hs⟩ := Option.ite_none_right_eq_some.1 hs
    obtain rfl := Option.some.inj hs
    refine h.disableUart ?_
    simpa only [keepsCount, Bool.or_eq_true, beq_iff_eq] using hk

theorem accounted_start : start.Accounted := by
  refine ⟨fun i => .edges List.not_mem_nil, ?_⟩
  have hpin : ∀ i, (PinState.init i).tally = 0 := by
    intro i
    have hcount : (PinState.init i).listenerCount = 0 := sum_eq_zero fun m _ => rfl
    rw [PinState.tally, hcount]
    rfl
  show 0 = 0 + ∑ i, (PinState.init i).tally + 0
  rw [sum_eq_zero fun i _ => hpin i]
  rfl

/-- Outside of the handler, nothing is owed. -/
theorem Accounted.exact (h : c.Accounted) (hidle : c.idle) : c.Exact := by
  have hpins : ∑ i, (c.pins i).tally = ∑ i, (c.pins i).listenerCount := by
    refine sum_congr rfl fun i _ => ?_
    have htodo : (c.pins i).todo = [] := of_decide_eq_true hidle i
    rw [PinState.tally, PinState.owed_of_not_mem (by rw [htodo]; exact List.not_mem_nil)]
    rfl
  have hpending : c.pending = c.waiting := by
    rw [h.pending, tally, waiting, hpins]
  refine ⟨hpending, ?_⟩
  rw [← hpending]
  exact decide_eq_true_iff

/-- **The count of pending tasks.**  For every sequence of methods that send commands, of replies,
of listeners that are added, removed and called, and of UARTs that are enabled and disabled, with
calls in listeners at any place: if every step meets `keepsCount`, then whenever the handler does
not run `pending` is the number of commands, listeners and UARTs that wait, and the socket is
referenced exactly if this is not 0. -/
theorem exact_of_run {es : List ClientEvent}
    (h : machine.Run (fun c e => c.keepsCount e) start es c) (hidle : c.idle) : c.Exact :=
  (h.invariant accounted_start fun _ _ _ hI hok hst => accounted_step hI hok hst).exact hidle

/-- Two pins with interrupts. -/
def pin2 : Fin 8 := ⟨2, by decide⟩
def pin5 : Fin 8 := ⟨5, by decide⟩

/-- A command, a listener for changes, one for a low level that is reported while a UART is enabled,
and another command in that listener. -/
def levelRun : List ClientEvent :=
  [.request (Pin.read pin2 0), .pin pin2 (.addListener (.mode .change) 1 none),
    .pin pin5 (.once (.mode .low) 2), .uart none, .reply, .pin pin5 (.report false),
    .pin pin5 .proceed, .pin pin5 .proceed, .request (Pin.read pin2 3), .pin pin5 .proceed]

theorem exact_levelRun : ∃ c, machine.exec start levelRun = some c ∧ c.pending = 3 ∧ c.Exact := by
  have h : (machine.execOk keepsCount start levelRun).any fun c => c.idle && c.pending == 3 := by
    decide +kernel
  obtain ⟨c, hc, hpair⟩ := (Option.any_eq_true _ _).1 h
  rw [Bool.and_eq_true, beq_iff_eq] at hpair
  have hrun := Machine.run_of_execOk (fun c e => c.keepsCount e) (fun _ _ hk => hk) hc
  exact ⟨c, hrun.exec_eq, hpair.2, exact_of_run hrun hpair.1⟩

/-- A listener is added and removed again. -/
def removeRun : List ClientEvent :=
  [.pin pin2 (.addListener (.mode .change) 0 none),
    .pin pin2 (.removeListener (.mode .change) (.program 0))]

/-- The listener that has been removed is still counted. -/
theorem not_exact_removeListener :
    ¬ ∀ es c, machine.Run Machine.always start es c → c.idle → c.Exact := by
  intro hall
  have h : (machine.exec start removeRun).any fun c =>
      c.idle && decide (c.pending = 1 ∧ c.waiting = 0) := by
    decide +kernel
  obtain ⟨c, hc, hpair⟩ := (Option.any_eq_true _ _).1 h
  rw [Bool.and_eq_true, decide_eq_true_iff] at hpair
  obtain ⟨hidle, hone, hzero⟩ := hpair
  have hexact := (hall removeRun c (Machine.run_of_exec hc) hidle).pending
  rw [hone, hzero] at hexact
  cases hexact

end Client

end Node

end TesselFirmware
