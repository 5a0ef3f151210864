import TesselFirmware.Bridge.Chain
import TesselFirmware.Port.Effects

/-!
# A port error stops the port

`port_error` disables the channel in the bridge, and the host has to reset the port.  The code that
runs after it does not look at this: the loop of `port_step` goes on after a command that
`port_begin_cmd` has no case for, some handlers call `port_step` after `port_error`, and a later
handler calls it as if nothing had happened; each `bridge_start_out` and `bridge_start_in` then
arms the disabled channel again.

`Wired.machine` is one port with the bridge; SYNC edges, headers, the DMA and the calls of the other
clients come in any order.

* `Wired.stopped_after_error` : the port stays stopped until `port_enable` in every run in which
  every command has a case and `port_step` is not called in error unless the port is `settled`;
* `Wired.unhandled_goes_on` : and otherwise it need not.
-/

namespace TesselFirmware

/-! ### What the history says about errors -/

/-- Whether `port_error` has been called since the last `port_enable`, and whether a command has
ever been executed in that time. -/
structure ErrorLog where
  errored : Bool
  executed : Bool
  deriving DecidableEq, Repr

namespace ErrorLog

def next (l : ErrorLog) : Effect → ErrorLog
  | .call .disableChan => { l with errored := true }
  | .enabled => { l with errored := false }
  | .exec _ => { l with executed := l.executed || l.errored }
  | _ => l

/-- The log of a list of effects. -/
def of (es : List Effect) : ErrorLog := es.foldl next ⟨false, false⟩

theorem of_append (es es' : List Effect) : of (es ++ es') = es'.foldl next (of es) :=
  List.foldl_append

end ErrorLog

/-- The effect neither executes a command nor starts a transfer nor ends an error. -/
def Effect.tame : Effect → Prop
  | .action _ | .reply _ | .uartPacket _ _ => True
  | .call .disableChan | .call .enableChan => True
  | _ => False

/-- The effect is not a `port_error`. -/
def Effect.calm (e : Effect) : Prop := e ≠ .call .disableChan

namespace ErrorLog

theorem foldl_tame {es : List Effect} (h : ∀ e ∈ es, e.tame) (l : ErrorLog) :
    es.foldl next l = { l with errored := l.errored || es.contains (.call .disableChan) } := by
  induction es generalizing l with
  | nil => simp
  | cons e es ih =>
    have he := h e List.mem_cons_self
    rw [List.foldl_cons, ih fun e' he => h e' (List.mem_cons_of_mem e he)]
    cases e with
    | call c => cases c <;> simp_all [Effect.tame, next]
    | enabled => exact he.elim
    | exec cmd => exact he.elim
    | _ => simp [next]

theorem foldl_calm {es : List Effect} (h : ∀ e ∈ es, e.calm) {l : ErrorLog}
    (hl : l.errored = false) : es.foldl next l = l := by
  obtain ⟨errored, executed⟩ := l
  obtain rfl : errored = false := hl
  induction es with
  | nil => rfl
  | cons e es ih =>
    have hnext : next ⟨false, executed⟩ e = ⟨false, executed⟩ := by
      have := h e List.mem_cons_self
      cases e with
      | call c => cases c <;> simp_all [next, Effect.calm]
      | _ => simp [next]
    rw [List.foldl_cons, hnext]
    exact ih fun e' he => h e' (List.mem_cons_of_mem e he)

end ErrorLog

/-! ### The channel of the port in the bridge -/

namespace Bridge

/-- The channel does not take part in a transaction: not ready, nothing to send. -/
def Shut (b : Bridge) (ch : Chan) : Prop := b.ready ch = false ∧ b.inChanSize ch = 0#8

variable {b : Bridge} {ch : Chan}

theorem shut_disableChan (b : Bridge) (ch : Chan) : (b.disableChan ch).Shut ch := by
  refine ⟨?_, by simp [disableChan]⟩
  have h4 : (ch : ℕ) + 4 < 8 := by omega
  have h0 : (ch : ℕ) < 8 := by omega
  simp [ready, disableChan, h4, h0]

theorem Shut.enableChan (h : b.Shut ch) (c : Chan) : (b.enableChan c).Shut ch := by
  refine ⟨?_, h.2⟩
  have hr : Byte.has b.outChanReady ch = false := h.1
  have hne : ¬ (c : ℕ) + 4 = ch := by omega
  have h4 : (c : ℕ) + 4 < 8 := by omega
  have h0 : (ch : ℕ) < 8 := by omega
  simp [ready, Bridge.enableChan, h4, h0, hr, hne]

theorem Shut.call (h : b.Shut ch) {c : Call} (hc : c.chan ≠ ch) : (b.call c).Shut ch := by
  have hr : Byte.has b.outChanReady ch = false := h.1
  have h0 : (ch : ℕ) < 8 := by omega
  cases c with
  | startIn d data length =>
    have hne : ch ≠ d := fun he => hc he.symm
    exact ⟨h.1, by simpa [Bridge.call, startIn, hne] using h.2⟩
  | startOut d data =>
    have hne : ¬ (d : ℕ) = ch := fun he => hc (Fin.ext he)
    have hd : (d : ℕ) < 8 := by omega
    exact ⟨by simp [Bridge.call, startOut, ready, hd, h0, hr, hne], h.2⟩
  | enableChan d => exact h.enableChan d
  | disableChan d =>
    have hne : ch ≠ d := fun he => hc he.symm
    have h4 : (d : ℕ) + 4 < 8 := by omega
    have hd : (d : ℕ) < 8 := by omega
    exact ⟨by simp [Bridge.call, disableChan, ready, h4, hd, h0, hr],
      by simpa [Bridge.call, disableChan, hne] using h.2⟩

theorem Shut.handleSyncHigh (h : b.Shut ch) : b.handleSyncHigh.Shut ch := by
  by_cases hcmd : b.ctrlRx.cmd = 0x53#8
  · refine ⟨by rw [handleSyncHigh_ready hcmd, h.1]; rfl, ?_⟩
    rw [handleSyncHigh_inChanSize hcmd]
    split_ifs
    · rfl
    · exact h.2
  · rw [handleSyncHigh_of_cmd_ne hcmd]
    exact h

/-- After tame effects with an error among them, or on a channel that was shut, it is shut. -/
theorem shut_foldl_tame {es : List Effect} (h : ∀ e ∈ es, e.tame) (b : Bridge)
    (hs : b.Shut ch ∨ Effect.call .disableChan ∈ es) : (es.foldl (perform ch) b).Shut ch := by
  induction es generalizing b with
  | nil => simpa using hs
  | cons e es ih =>
    rw [List.foldl_cons]
    have he := h e List.mem_cons_self
    refine ih (fun e' he => h e' (List.mem_cons_of_mem e he)) _ ?_
    cases e with
    | call c =>
      cases c with
      | disableChan => exact .inl (shut_disableChan b ch)
      | enableChan => exact hs.imp (fun hb => hb.enableChan ch) fun hm => by simpa using hm
      | startOut => exact he.elim
      | startIn reply => exact he.elim
    | enabled => exact he.elim
    | exec cmd => exact he.elim
    | _ => simpa [perform] using hs

end Bridge

/-! ### Effects of the handlers -/

namespace PortData

variable {p q : PortData}

/-- The port has called `port_error` since the last `port_enable`. -/
def errored (p : PortData) : Bool := (ErrorLog.of p.effects).errored

/-- A pass of the loop finds nothing to do: nothing to request, nothing to flush, and the port
waits for a bridge transfer or for the end of an asynchronous command. -/
def settled (p : PortData) : Prop :=
  ¬ p.requestDue ∧ ¬ p.flushDue ∧ (p.waits ∨ p.state = .execAsync)

instance : Decidable p.settled := by unfold settled; infer_instance

/-- A pass of the loop in a settled port only leaves the loop. -/
theorem iter_of_settled (h : p.settled) :
    p.iter.effects = p.effects ∧ p.iter.stepping = false := by
  obtain ⟨hr, hf, hw⟩ := h
  have ht : p.transfers = p := by
    rw [transfers, requestPacket, if_neg hr, flushReply, if_neg hf]
  unfold iter
  rw [ht]
  split_ifs with hwait
  · unfold wait
    split_ifs <;> exact ⟨rfl, rfl⟩
  · have hs := hw.resolve_left hwait
    simp [dispatch, hs]

namespace Emits

/-- Outside the loop, and except for `port_enable`, the port has only tame effects. -/
theorem handle (p : PortData) {e : PortEvent} (he : e ≠ .enable) (hi : e ≠ .iter) :
    Emits Effect.tame p (p.handle e) := by
  have hA (a : Action) : (Effect.action a).tame := trivial
  have hR (b : Byte) : (Effect.reply b).tame := trivial
  have hD : (Effect.call .disableChan).tame := trivial
  cases e with
  | enable => exact absurd rfl he
  | iter => exact absurd rfl hi
  | disable => exact disable hA p trivial
  | outCompletion packet =>
    refine step hD ((Emits.refl p).congr_right ?_)
    rfl
  | inCompletion =>
    refine step hD ((Emits.refl p).congr_right ?_)
    rfl
  | dmaRx => exact asyncCompletion hD (.refl p)
  | dmaTx => exact asyncCompletion hD (.refl p)
  | sercom rxc err => exact handleSercomUartI2c hA hR hD p rxc err fun _ => trivial
  | extint flags => exact handleExtint hA hR hD flags p
  | tccOverflow => exact uartSendData hR hD (.refl p) trivial

theorem transfers (p : PortData) : Emits Effect.calm p p.transfers := by
  have hr : Emits Effect.calm p p.requestPacket := by
    obtain ⟨he, -⟩ | ⟨he, -⟩ := requestPacket_cases p
    · rw [he]
      exact .refl p
    · rw [he]
      exact ⟨[.call .startOut], by simp [Effect.calm], rfl⟩
  obtain ⟨he, -⟩ | ⟨he, -⟩ := flushReply_cases p.requestPacket
  · rw [PortData.transfers, he]
    exact hr
  · rw [PortData.transfers, he]
    exact hr.trans ⟨[_], by simp [Effect.calm], rfl⟩

/-- A pass of the loop that begins no unhandled command signals no error, but for one that leaves
the loop at once. -/
theorem iter (p : PortData) (hh : p.begins.all handled) :
    Emits Effect.calm p p.iter ∨ (Emits Effect.tame p p.iter ∧ p.iter.stepping = false) := by
  have hA (a : Action) : (Effect.action a).calm := by simp [Effect.calm]
  have hR (b : Byte) : (Effect.reply b).calm := by simp [Effect.calm]
  have hX (cmd : Byte) : (Effect.exec cmd).calm := by simp [Effect.calm]
  obtain ⟨-, hi⟩ | ⟨ht, hw, ⟨-, hi⟩ | ⟨hs, hpos, hl, hi⟩⟩ := iter_cases p
  · rw [hi]
    refine .inl ((transfers p).congr_right ?_)
    unfold wait
    split_ifs <;> rfl
  · rw [hi]
    exact .inl ((Emits.refl p).congr_right rfl)
  · rw [hi]
    simp only [begins, ht, hw] at hh
    unfold PortData.dispatch
    cases hst : p.state <;> simp only [hst] at hh ⊢
    case disable => exact .inl (.refl p)
    case execAsync => exact absurd hst hs
    case exec => exact .inl (continued hA hR p (hX _))
    case readCmd =>
      have hf : Emits Effect.calm p p.fetchCmd := (Emits.refl p).congr_right rfl
      unfold readCommand
      split_ifs with harg
      · exact .inl (hf.congr_right rfl)
      · have hzero : p.fetchCmd.argLen = 0 := by omega
        simp only [hzero, ↓reduceIte] at hh
        exact .inl (hf.trans (begun hA hR _ (hX _) (.inl ⟨hh, hl⟩)))
    case readArg =>
      have hf : Emits Effect.calm p p.fetchArg := (Emits.refl p).congr_right rfl
      unfold readArgument
      split_ifs with h0 h1
      · exact .inr ⟨(emit p trivial).congr_right rfl, rfl⟩
      · simp only [h0, h1, ne_eq, not_false_eq_true, and_self, ↓reduceIte] at hh
        exact .inl (hf.trans (begun hA hR _ (hX _) (.inl ⟨hh, hl⟩)))
      · exact .inl hf

end Emits

end PortData

/-! ### A port on the bridge -/

/-- The bridge and one of the ports. -/
structure Wired where
  bridge : Bridge
  port : PortData

namespace Wired

/-- What happens to the port and to the bridge; `call` is a call of the client of another
channel. -/
inductive Event
  | port (e : PortEvent)
  | syncLow
  | header (h : ControlPkt)
  | syncHigh
  | chainDone
  | writeBack
  | call (c : Call)

def init (ch : Chan) (port : TesselPort) (answers : ℕ → BitVec 16) : Wired where
  bridge := Bridge.init.enableChan ch
  port := PortData.init port answers

/-- The effects of an event of the port reach the bridge in their order. -/
def step (ch : Chan) (w : Wired) : Event → Option Wired
  | .port e =>
    (PortData.machine.step w.port e).map fun p =>
      ⟨(p.effects.drop w.port.effects.length).foldl (Bridge.perform ch) w.bridge, p⟩
  | .syncLow => some { w with bridge := w.bridge.handleSyncLow }
  | .header h => some { w with bridge := w.bridge.receiveHeader h }
  | .syncHigh => some { w with bridge := w.bridge.handleSyncHigh }
  | .chainDone => some { w with bridge := w.bridge.chainDone }
  | .writeBack => some { w with bridge := w.bridge.writeBack }
  | .call c => if c.chan = ch then none else some { w with bridge := w.bridge.call c }

def machine (ch : Chan) : Machine Wired Event := ⟨step ch⟩

/-- In error, the channel is shut; and no command has ever been executed in error. -/
structure Stopped (ch : Chan) (w : Wired) : Prop where
  executed : (ErrorLog.of w.port.effects).executed = false
  shut : w.port.errored → w.bridge.Shut ch

/-- The event begins no command that `port_begin_cmd` has no case for, and does not enter the loop
of `port_step` in error with something to do. -/
def heedsError (w : Wired) : Event → Bool
  | .port .iter => w.port.begins.all PortData.handled
  | .port e =>
    !((w.port.handle e).stepping && (w.port.handle e).errored) ||
      decide (w.port.handle e).settled
  | _ => true

/-! ### The invariant -/

/-- A handler that is in the loop in error has nothing to do there. -/
structure Inv (ch : Chan) (w : Wired) : Prop extends Stopped ch w where
  settled : w.port.errored → w.port.stepping → w.port.settled

variable {ch : Chan} {w w' : Wired}

theorem inv_init (ch : Chan) (port : TesselPort) (answers : ℕ → BitVec 16) :
    Inv ch (init ch port answers) :=
  ⟨⟨rfl, by simp [init, PortData.errored, PortData.init, ErrorLog.of, ErrorLog.next]⟩,
    by simp [init, PortData.init]⟩

/-- Tame effects keep a stopped port stopped. -/
theorem stopped_of_tame (h : Stopped ch w) {p : PortData}
    (he : PortData.Emits Effect.tame w.port p) :
    Stopped ch ⟨(p.effects.drop w.port.effects.length).foldl (Bridge.perform ch) w.bridge, p⟩ := by
  obtain ⟨es, htame, hes⟩ := he.effects
  have hlog : ErrorLog.of p.effects = { ErrorLog.of w.port.effects with
      errored := w.port.errored || es.contains (.call .disableChan) } := by
    rw [hes, ErrorLog.of_append, ErrorLog.foldl_tame htame]
    rfl
  refine ⟨by rw [hlog]; exact h.executed, fun herr => ?_⟩
  have herr' : w.port.errored ∨ Effect.call .disableChan ∈ es := by
    have : (ErrorLog.of p.effects).errored = true := herr
    rw [hlog] at this
    simpa using this
  rw [hes, List.drop_left]
  exact Bridge.shut_foldl_tame htame w.bridge (herr'.imp_left h.shut)

/-- Without an error, calm effects leave the port without an error. -/
theorem log_of_calm {p q : PortData} (hes : (ErrorLog.of p.effects).errored = false)
    (h : PortData.Emits Effect.calm p q) :
    ErrorLog.of q.effects = ErrorLog.of p.effects := by
  obtain ⟨es, hcalm, he⟩ := h.effects
  rw [he, ErrorLog.of_append, ErrorLog.foldl_calm hcalm hes]

theorem inv_port (h : Inv ch w) {e : PortEvent} (hacc : w.port.accepts e)
    (hok : heedsError w (.port e)) :
    Inv ch ⟨((w.port.handle e).effects.drop w.port.effects.length).foldl
      (Bridge.perform ch) w.bridge, w.port.handle e⟩ := by
  by_cases hen : e = .enable
  · subst hen
    have hlog : ErrorLog.of (w.port.emit .enabled).effects =
        { ErrorLog.of w.port.effects with errored := false } := by
      rw [PortData.emit, ErrorLog.of_append]
      rfl
    have hfinal : ErrorLog.of (w.port.handle .enable).effects =
        { ErrorLog.of w.port.effects with errored := false } := by
      rw [← hlog]
      exact log_of_calm (by rw [hlog])
        (PortData.Emits.enable (fun _ => by simp [Effect.calm]) w.port (by simp [Effect.calm]))
    refine ⟨⟨by rw [hfinal]; exact h.executed, fun herr => ?_⟩, fun herr => ?_⟩
    all_goals
      have : (ErrorLog.of (w.port.handle .enable).effects).errored = true := herr
      rw [hfinal] at this
      cases this
  · by_cases hit : e = .iter
    · subst hit
      by_cases herr : w.port.errored = true
      · -- a handler in the loop in error has nothing to do
        have hst : w.port.stepping = true := hacc
        obtain ⟨heff, hstep⟩ := PortData.iter_of_settled (h.settled herr hst)
        refine ⟨stopped_of_tame h.toStopped ((PortData.Emits.refl w.port).congr_right heff),
          fun _ hs => ?_⟩
        exact absurd hs (by simp [PortData.handle, hstep])
      · obtain hcalm | ⟨htame, hstep⟩ := PortData.Emits.iter w.port hok
        · have hlog := log_of_calm (Bool.eq_false_of_not_eq_true herr) hcalm
          have hno : (w.port.handle .iter).errored = w.port.errored :=
            congrArg ErrorLog.errored hlog
          refine ⟨⟨by rw [PortData.handle, hlog]; exact h.executed, fun he => ?_⟩, fun he => ?_⟩
          · exact absurd (hno ▸ he) herr
          · exact absurd (hno ▸ he) herr
        · refine ⟨stopped_of_tame h.toStopped htame, fun _ hs => ?_⟩
          exact absurd hs (by simp [PortData.handle, hstep])
    · refine ⟨stopped_of_tame h.toStopped (PortData.Emits.handle w.port hen hit), fun herr hs => ?_⟩
      have hset : heedsError w (.port e) = (!((w.port.handle e).stepping &&
          (w.port.handle e).errored) || decide (w.port.handle e).settled) := by
        cases e <;> first | rfl | exact absurd rfl hit
      have herr' : (w.port.handle e).errored = true := herr
      have hs' : (w.port.handle e).stepping = true := hs
      rw [hset] at hok
      simpa [herr', hs'] using hok

/-- Each event keeps a stopped port stopped, if it heeds the error. -/
theorem inv_step (h : Inv ch w) {e : Event} (hok : heedsError w e)
    (hst : step ch w e = some w') : Inv ch w' := by
  cases e with
  | port e =>
    obtain ⟨p, hp, rfl⟩ := Option.map_eq_some_iff.1 hst
    obtain ⟨hacc, rfl⟩ := PortData.machine_step_eq_some.1 hp
    exact inv_port h hacc hok
  | syncLow =>
    cases hst
    exact ⟨⟨h.executed, fun he => h.shut he⟩, h.settled⟩
  | header hd =>
    cases hst
    exact ⟨⟨h.executed, fun he => h.shut he⟩, h.settled⟩
  | syncHigh =>
    cases hst
    exact ⟨⟨h.executed, fun he => (h.shut he).handleSyncHigh⟩, h.settled⟩
  | chainDone =>
    cases hst
    exact ⟨⟨h.executed, fun he => h.shut he⟩, h.settled⟩
  | writeBack =>
    cases hst
    exact ⟨⟨h.executed, fun he => h.shut he⟩, h.settled⟩
  | call c =>
    simp only [step] at hst
    split at hst <;> cases hst
    next hc => exact ⟨⟨h.executed, fun he => (h.shut he).call hc⟩, h.settled⟩

/-! ### Runs -/

/-- **A port error stops the port until it is reset.**  In every run of a port on the bridge in
which no command without a case is begun and `port_step` is not entered in error with something to
do: between a `port_error` and the next `port_enable` no command is executed, and the channel stays
neither ready nor with data to send, whatever the SoC, the other clients and the interrupts of the
port do. -/
theorem stopped_after_error {port : TesselPort} {answers : ℕ → BitVec 16} {es : List Event}
    (h : (machine ch).Run (fun w e => heedsError w e) (init ch port answers) es w) :
    Stopped ch w :=
  (h.invariant (inv_init ch port answers)
    fun _ _ _ hi hok hst => inv_step hi hok hst).toStopped

/-- A DMA completion that nobody waits for signals an error; the in-completion and the transaction
after it change nothing. -/
def heededRun : List Event :=
  [.port .enable, .port .dmaRx, .port .inCompletion, .port .iter, .syncLow,
    .header ⟨0x53#8, 0x22#8, fun _ => 1#8⟩, .syncHigh]

theorem stopped_after_error_heededRun :
    ∃ w, (machine 1).exec (init 1 portA fun _ => 0#16) heededRun = some w ∧
      w.port.errored = true ∧ Stopped 1 w := by
  have h : (((machine 1).execOk heedsError (init 1 portA fun _ => 0#16) heededRun).map fun w =>
      w.port.errored) = some true := by decide +kernel
  obtain ⟨w, hw, herr⟩ := Option.map_eq_some_iff.1 h
  have hrun := Machine.run_of_execOk (fun w e => heedsError w e) (fun _ _ => id) hw
  exact ⟨w, hrun.exec_eq, herr, stopped_after_error hrun⟩

/-- `CMD_FLUSH` has no case in `port_begin_cmd`, but the `CMD_GPIO_HIGH` after it is executed. -/
def unhandledRun : List Event :=
  [.port .enable, .port (.outCompletion [1, 4, 0]), .port .iter, .port .iter, .port .iter,
    .port .iter]

/-- Not every run stops at an error: the next command is executed and the channel armed again. -/
theorem unhandled_goes_on :
    ¬ ∀ (ch : Chan) (port : TesselPort) (answers : ℕ → BitVec 16) (es : List Event) (w : Wired),
      (machine ch).Run Machine.always (init ch port answers) es w → Stopped ch w := by
  intro hall
  have h : ((machine 1).exec (init 1 portA fun _ => 0#16) unhandledRun).map
      (fun w => (w.port.errored, (ErrorLog.of w.port.effects).executed, w.bridge.ready 1)) =
        some (true, true, true) := by decide +kernel
  obtain ⟨w, hw, htriple⟩ := Option.map_eq_some_iff.1 h
  have hex := (hall _ _ _ _ w (Machine.run_of_exec hw)).executed
  rw [(Prod.mk.inj (Prod.mk.inj htriple).2).1] at hex
  exact absurd hex (by decide)

end Wired

end TesselFirmware
