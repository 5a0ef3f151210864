import Mathlib.Data.List.Basic
import Mathlib.Logic.Function.Basic

/-!
# Event emitters

The class `EventEmitter` of node, as far as it keeps listeners: for each event the list of those
that are called for it, in order.  `E` are the names of the events.

* `EventEmitter.addListener`, `onceWrap`, `removeListener`, `removeAllListeners` : its methods;
* `EventEmitter.Lessens e m m'` : from `m` to `m'` listeners for `e` may go, and no others.
-/

namespace TesselFirmware

namespace Node

/-- A function: one of the program, or a wrapper that `once` has made. -/
inductive Func
  | program (n : ℕ)
  | wrapper (n : ℕ)
  deriving DecidableEq, Repr

/-- A function in a list of listeners, with its property `listener`: a wrapper has there the
function that it calls. -/
structure Listener where
  fn : Func
  listener : Option Func
  deriving DecidableEq, Repr

namespace Listener

/-- A wrapper removes itself before it calls its function. -/
def isOnce (l : Listener) : Bool :=
  match l.fn with
  | .wrapper _ => true
  | .program _ => false

/-- `removeListener` takes `l` for the function `f`. -/
def isFor (l : Listener) (f : Func) : Bool := l.fn == f || l.listener == some f

end Listener

structure EventEmitter (E : Type) where
  listeners : E → List Listener
  /-- How many wrappers `once` has made. -/
  wrappers : ℕ

namespace EventEmitter

variable {E : Type} [DecidableEq E] (m : EventEmitter E)

def init : EventEmitter E := ⟨fun _ => [], 0⟩

def listenerCount (e : E) : ℕ := (m.listeners e).length

def addListener (e : E) (l : Listener) : EventEmitter E :=
  { m with listeners := Function.update m.listeners e (m.listeners e ++ [l]) }

/-- `_onceWrap`: a new wrapper of the function `f`. -/
def onceWrap (f : Func) : Listener × EventEmitter E :=
  (⟨.wrapper m.wrappers, some f⟩, { m with wrappers := m.wrappers + 1 })

/-- `removeListener`: the listener for `f` that was added last goes. -/
def removeListener (e : E) (f : Func) : EventEmitter E :=
  { m with
    listeners := Function.update m.listeners e
      ((m.listeners e).reverse.eraseP fun l => l.isFor f).reverse }

/-- `removeAllListeners` without an argument. -/
def removeEveryListener : EventEmitter E := { m with listeners := fun _ => [] }

/-- `removeAllListeners` with the argument `e`. -/
def removeAllListeners (e : E) : EventEmitter E :=
  { m with listeners := Function.update m.listeners e [] }

variable {m} {m' : EventEmitter E} {e e' : E} {left : List Listener}

/-- There is a listener for the event now, and for the others as before. -/
theorem addListener_ne_nil {l : Listener} :
    (m.addListener e l).listeners e' ≠ [] ↔ m.listeners e' ≠ [] ∨ e' = e := by
  by_cases he : e' = e
  · subst he
    simp only [addListener, Function.update_self, ne_eq, List.append_eq_nil_iff, List.cons_ne_self,
      and_false, not_false_eq_true, or_true]
  · simp only [addListener, Function.update_of_ne he, he, or_false]

/-- From `m` to `m'` listeners for `e` may go, and no others. -/
structure Lessens (e : E) (m m' : EventEmitter E) : Prop where
  sub : ∀ l ∈ m'.listeners e, l ∈ m.listeners e
  other : ∀ e', e' ≠ e → m'.listeners e' = m.listeners e'

theorem lessens_removeListener (e : E) (f : Func) : Lessens e m (m.removeListener e f) := by
  refine ⟨fun l hl => ?_, fun e' he => Function.update_of_ne he _ _⟩
  simp only [removeListener, Function.update_self, List.mem_reverse] at hl
  exact List.mem_reverse.1 (List.mem_of_mem_eraseP hl)

theorem lessens_removeAllListeners (e : E) : Lessens e m (m.removeAllListeners e) := by
  refine ⟨fun l hl => ?_, fun e' he => Function.update_of_ne he _ _⟩
  simp only [removeAllListeners, Function.update_self, List.not_mem_nil] at hl

/-- What is left for an event had been there. -/
theorem Lessens.ne_nil (h : Lessens e m m') (hne : m'.listeners e' ≠ []) :
    m.listeners e' ≠ [] := by
  by_cases he : e' = e
  · subst he
    obtain ⟨l, hl⟩ := List.exists_mem_of_ne_nil _ hne
    exact List.ne_nil_of_mem (h.sub l hl)
  · rw [← h.other e' he]
    exact hne

end EventEmitter

end Node

end TesselFirmware
