import Mathlib.Data.Fin.VecNotation
import TesselFirmware.Port.Effects

/-!
# The pin interrupts of the two ports (`EIC_Handler` in `firmware/main.c`)

The flags of the interrupt controller are latched whether or not their interrupt is enabled, and
`EIC_Handler` picks the port by the flags alone: a flag of port A that was latched while its
interrupts were masked goes to `port_handle_extint` of port A as soon as any other interrupt is
taken.

* `Eic.isolated_iff` : a handled interrupt leaves every port with masked interrupts as it was
  exactly if no flag of port A is latched while the interrupts of port A are masked, or the reset
  button has been pressed;
* `Eic.masked_port_in_error` : an interrupt of port B that puts port A in error.
-/

namespace TesselFirmware

/-- A byte is put into the reply, or the port is put in error. -/
def Effect.marks (e : Effect) : Prop := (∃ b, e = .reply b) ∨ e = .call .disableChan

namespace PortData

variable {p q r : PortData}

/-! ### The board of a port -/

theorem port_step (p : PortData) : p.step.port = p.port := by
  unfold step
  split_ifs <;> rfl

theorem port_sendStatus (p : PortData) (b : Byte) : (p.sendStatus b).port = p.port :=
  congrArg Control.port (control_sendStatus p b)

theorem port_append (p : PortData) (bs : List Byte) : (p.append bs).port = p.port :=
  congrArg Control.port (control_append p bs)

theorem port_begun (p : PortData) : p.begun.port = p.port :=
  congrArg Control.port (control_begun p)

theorem port_continued (p : PortData) : p.continued.port = p.port := by
  show p.continueCmd.1.control.port = p.control.port
  rcases hop : p.opcode with _ | c
  · simp only [continueCmd, opcode_emit, hop, control_emit]
  · cases c <;> simp only [continueCmd, opcode_emit, hop, mode_emit, control_emit]
    case echo => simp only [control_subArg0, control_append, control_takeCmd, control_emit]
    all_goals
      cases p.mode <;> simp only [control_startTransfer, control_subArg0, control_sendCmd,
        control_receiveReply, control_emit, control_act, control_acts]

theorem port_transfers (p : PortData) : p.transfers.port = p.port := by
  have hr : p.requestPacket.port = p.port := by
    unfold requestPacket
    split_ifs <;> rfl
  rw [transfers, ← hr]
  unfold flushReply
  split_ifs <;> rfl

theorem port_iter (p : PortData) : p.iter.port = p.port := by
  rw [← port_transfers p]
  unfold iter
  generalize p.transfers = q
  split_ifs
  · unfold wait
    split_ifs <;> rfl
  · unfold dispatch
    cases q.state
    case disable => rfl
    case execAsync => rfl
    case exec => exact port_continued q
    case readCmd =>
      simp only [readCommand]
      split_ifs
      · rfl
      · exact port_begun q.fetchCmd
    case readArg =>
      simp only [readArgument]
      split_ifs
      · rfl
      · exact port_begun q.fetchArg
      · rfl

theorem port_foldl {f : PortData → ℕ → PortData} (hf : ∀ q i, (f q i).port = q.port)
    (p : PortData) (is : List ℕ) : (is.foldl f p).port = p.port :=
  List.foldlRecOn (motive := fun q : PortData => q.port = p.port) is f rfl
    fun q hq i _ => (hf q i).trans hq

theorem port_disablePin (p : PortData) (i : ℕ) : (p.disablePin i).port = p.port := by
  show (p.disablePin i).control.port = p.control.port
  unfold disablePin
  dsimp only
  split_ifs <;> simp only [control_gpio, control_eicConfig]

theorem port_uartSendData (p : PortData) : p.uartSendData.port = p.port := by
  unfold uartSendData
  dsimp only
  split_ifs
  · rfl
  · exact (port_step _).trans (port_append _ _)
  · rfl

theorem port_asyncCompletion (p : PortData) : p.asyncCompletion.port = p.port := by
  unfold asyncCompletion
  split_ifs
  · exact port_step _
  · rfl

theorem port_handleSercomUartI2c (p : PortData) (rxc : Option Byte) (err : Bool) :
    (p.handleSercomUartI2c rxc err).port = p.port := by
  unfold handleSercomUartI2c
  split
  · split
    · dsimp only
      split_ifs
      · exact port_uartSendData _
      · rfl
    · rfl
  · cases err <;> exact port_asyncCompletion _
  · rfl
  · rfl

theorem port_extintPin (flags : BitVec 32) (p : PortData) (i : ℕ) :
    (p.extintPin flags i).port = p.port := by
  show (p.extintPin flags i).control.port = p.control.port
  unfold extintPin
  split_ifs
  · dsimp only
    generalize (if ((p.check _).pinRead _).1 = true then _ else _ : Byte) = response
    split_ifs <;>
      simp only [control_eicConfig, control_sendStatus, control_pinRead, control_check]
  · rfl

theorem port_handleExtint (p : PortData) (flags : BitVec 32) :
    (p.handleExtint flags).port = p.port := by
  unfold handleExtint
  split_ifs
  · exact (port_step _).trans (port_foldl (port_extintPin flags) _ _)
  · rfl

/-- No handler changes the board of the port. -/
theorem port_handle (p : PortData) (e : PortEvent) : (p.handle e).port = p.port := by
  cases e with
  | enable => exact port_foldl (f := fun p i => p.gpio .pullUp i) (fun _ _ => rfl) _ _
  | disable => exact port_foldl port_disablePin _ _
  | outCompletion packet => exact port_step _
  | inCompletion => exact port_step _
  | dmaRx => exact port_asyncCompletion p
  | dmaTx => exact port_asyncCompletion p
  | sercom rxc err => exact port_handleSercomUartI2c p rxc err
  | extint flags => exact port_handleExtint p flags
  | tccOverflow => exact port_uartSendData p
  | iter => exact port_iter p

/-- A reachable state has the board with which the port was initialized. -/
theorem port_reachable {port : TesselPort} {answers : ℕ → BitVec 16}
    (h : machine.Reachable (init port answers) p) : p.port = port :=
  h.invariant (I := fun q : PortData => q.port = port) rfl fun q e q' hq hst => by
    obtain ⟨-, rfl⟩ := machine_step_eq_some.1 hst
    exact (port_handle q e).trans hq

/-! ### Reports of flagged pins -/

/-- From `p` to `q` a byte was put into the reply, or the port was put in error. -/
def Marked (p q : PortData) : Prop :=
  ∃ es, q.effects = p.effects ++ es ∧ ∃ e ∈ es, e.marks

theorem Marked.ne (h : Marked p q) : q ≠ p := by
  rintro rfl
  obtain ⟨es, he, e, hmem, -⟩ := h
  rw [List.self_eq_append_right] at he
  rw [he] at hmem
  cases hmem

theorem Marked.of_emits_left (h : Emits (fun _ => True) p q) (h' : Marked q r) : Marked p r := by
  obtain ⟨es, -, he⟩ := h.effects
  obtain ⟨es', he', e, hmem, hm⟩ := h'
  exact ⟨es ++ es', by rw [he', he, List.append_assoc], e, List.mem_append_right _ hmem, hm⟩

theorem Marked.of_emits_right (h : Marked p q) (h' : Emits (fun _ => True) q r) : Marked p r := by
  obtain ⟨es, he, e, hmem, hm⟩ := h
  obtain ⟨es', -, he'⟩ := h'.effects
  exact ⟨es ++ es', by rw [he', he, List.append_assoc], e, List.mem_append_left _ hmem, hm⟩

theorem marked_error (p : PortData) : Marked p p.error :=
  ⟨[.call .disableChan], rfl, _, List.mem_singleton.2 rfl, .inr rfl⟩

theorem marked_sendStatus (p : PortData) (b : Byte) : Marked p (p.sendStatus b) := by
  unfold sendStatus
  split_ifs
  · exact marked_error p
  · exact ⟨[.reply b], rfl, _, List.mem_singleton.2 rfl, .inl ⟨b, rfl⟩⟩

/-- The pin is one of the interrupt pins of the port and its flag is set. -/
def flagged (p : PortData) (flags : BitVec 32) (i : ℕ) : Prop :=
  p.port.pinSupportsInterrupt i ∧ flags.getLsbD (p.port.pinExtint i)

theorem emits_extintPin (flags : BitVec 32) (p : PortData) (i : ℕ) :
    Emits (fun _ => True) p (p.extintPin flags i) :=
  .extintPin (fun _ => trivial) (fun _ => trivial) trivial flags p i

/-- A flagged pin is reported. -/
theorem marked_extintPin {flags : BitVec 32} {i : ℕ} (h : p.flagged flags i) :
    Marked p (p.extintPin flags i) := by
  unfold extintPin
  unfold flagged at h
  rw [if_pos h]
  have hread : Emits (fun _ => True) p ((p.check (i < 8)).pinRead p.selectedPin).2 :=
    .trans (q := p.check (i < 8)) ((Emits.refl p).congr_right rfl)
      (.pinRead (fun _ => trivial) _ _)
  generalize (p.check (i < 8)).pinRead p.selectedPin = r at hread ⊢
  obtain ⟨high, q⟩ := r
  dsimp only at hread ⊢
  generalize (if high = true then _ else _ : Byte) = response
  have hst : Marked p (q.sendStatus response) := .of_emits_left hread (marked_sendStatus q response)
  split_ifs
  · exact hst.of_emits_right (.eicConfig (fun _ => trivial) _ _ _)
  · exact hst

/-- The loop over the pins reports a flagged pin that it reaches. -/
theorem marked_foldl {flags : BitVec 32} {i : ℕ} {is : List ℕ} (hi : i ∈ is)
    (h : p.flagged flags i) : Marked p (is.foldl (fun p i => p.extintPin flags i) p) := by
  induction is generalizing p with
  | nil => cases hi
  | cons j js ih =>
    rw [List.foldl_cons]
    rcases List.mem_cons.1 hi with rfl | hjs
    · exact (marked_extintPin h).of_emits_right
        (.foldl _ (emits_extintPin flags) (.refl _) js)
    · refine .of_emits_left (emits_extintPin flags p j) (ih hjs ?_)
      unfold flagged
      rw [port_extintPin]
      exact h

/-- A port that gets a flag of one of its pins answers it with a report or with an error. -/
theorem marked_handleExtint {flags : BitVec 32} {i : ℕ} (hi : i < 8) (h : p.flagged flags i) :
    Marked p (p.handleExtint flags) := by
  unfold handleExtint
  split_ifs
  · exact (marked_foldl (List.mem_range.2 hi) h).of_emits_right
      (.step trivial (.refl _))
  · exact marked_error p

end PortData

/-! ### The handler of the interrupt controller -/

namespace Eic

/-- `EIC_INTFLAG_EXTINT9`, the reset button. -/
def extint9 : BitVec 32 := BitVec.twoPow 32 9

/-- The flags of the pins of a port, `pin_interrupts`. -/
def portFlags (t : TesselPort) : BitVec 32 := t.pinInterrupts.setWidth 32

/-- The flags whose interrupt is enabled: the one of the reset button, and those of the ports that
take asynchronous events. -/
def enabledFlags (ports : Fin 2 → PortData) : BitVec 32 :=
  extint9 ||| (if (ports 0).eicEnabled then portFlags portA else 0#32) |||
    (if (ports 1).eicEnabled then portFlags portB else 0#32)

/-- `EIC_Handler`; `handle_reset_pin` does not return. -/
def handler (ports : Fin 2 → PortData) (flags : BitVec 32) : Option (Fin 2 → PortData) :=
  if flags &&& extint9 ≠ 0#32 then none
  else if flags &&& portFlags portA ≠ 0#32 then
    some (Function.update ports 0 ((ports 0).handleExtint flags))
  else if flags &&& portFlags portB ≠ 0#32 then
    some (Function.update ports 1 ((ports 1).handleExtint flags))
  else some ports

/-- The handler leaves every port whose asynchronous events are not enabled as it was. -/
def Isolated (ports : Fin 2 → PortData) (flags : BitVec 32) : Prop :=
  ∀ ports', handler ports flags = some ports' →
    ∀ i, (ports i).eicEnabled = false → ports' i = ports i

variable {ports : Fin 2 → PortData} {flags : BitVec 32}

/-- Every interrupt line of port A belongs to one of its pins. -/
theorem exists_pin_of_portFlags (h : flags &&& portFlags portA ≠ 0#32) :
    ∃ i < 8, portA.pinSupportsInterrupt i ∧ flags.getLsbD (portA.pinExtint i) := by
  by_contra hno
  refine h (BitVec.eq_of_getLsbD_eq fun k hk => ?_)
  have hpins : ∀ k < 32, (portFlags portA).getLsbD k →
      ∃ i < 8, portA.pinSupportsInterrupt i ∧ portA.pinExtint i = k := by decide
  rw [BitVec.getLsbD_and, BitVec.getLsbD_zero, Bool.and_eq_false_iff]
  by_cases hp : (portFlags portA).getLsbD k
  · obtain ⟨i, hi, hsup, rfl⟩ := hpins k hk hp
    exact .inl (Bool.eq_false_of_not_eq_true fun hf => hno ⟨i, hi, hsup, hf⟩)
  · exact .inr (Bool.eq_false_of_not_eq_true hp)

/-- Without a flag of port A or of the reset button, the enabled flag is one of port B. -/
theorem enabled_of_flags (henter : flags &&& enabledFlags ports ≠ 0#32)
    (h₉ : flags &&& extint9 = 0#32) (hA : flags &&& portFlags portA = 0#32) :
    (ports 1).eicEnabled = true := by
  by_contra hB
  refine henter ?_
  rw [enabledFlags, if_neg hB, BitVec.or_zero, BitVec.and_or_distrib_left, h₉, BitVec.zero_or]
  split_ifs
  · exact hA
  · exact BitVec.and_zero

/-- **Interrupt isolation of the two ports.**  For every reachable state of port A, every state of
port B and every content of the latched flags with which the handler is entered, it changes only
ports whose asynchronous events are enabled exactly if the reset button is pressed, or no flag of
port A is latched, or the asynchronous events of port A are enabled. -/
theorem isolated_iff {answers : ℕ → BitVec 16}
    (hA : PortData.machine.Reachable (.init portA answers) (ports 0))
    (henter : flags &&& enabledFlags ports ≠ 0#32) :
    Isolated ports flags ↔ flags &&& extint9 ≠ 0#32 ∨ flags &&& portFlags portA = 0#32 ∨
      (ports 0).eicEnabled := by
  by_cases h₉ : flags &&& extint9 ≠ 0#32
  · refine iff_of_true (fun ports' hh => ?_) (.inl h₉)
    rw [handler, if_pos h₉] at hh
    cases hh
  rw [not_not] at h₉
  by_cases hfA : flags &&& portFlags portA ≠ 0#32
  · have hhandle : handler ports flags =
        some (Function.update ports 0 ((ports 0).handleExtint flags)) := by
      rw [handler, if_neg (not_not.2 h₉), if_pos hfA]
    by_cases hen : (ports 0).eicEnabled
    · refine iff_of_true (fun ports' hh i hi => ?_) (.inr (.inr hen))
      rw [hhandle, Option.some.injEq] at hh
      subst hh
      refine Function.update_of_ne (fun h0 => ?_) _ _
      rw [h0, hen] at hi
      cases hi
    · refine iff_of_false (fun hiso => ?_) ?_
      · -- the masked port reports the pin or signals an error
        have hsame := hiso _ hhandle 0 (Bool.eq_false_of_not_eq_true hen)
        rw [Function.update_self] at hsame
        obtain ⟨i, hi, hpin⟩ := exists_pin_of_portFlags hfA
        have hflag : (ports 0).flagged flags i := by
          unfold PortData.flagged
          rw [PortData.port_reachable hA]
          exact hpin
        exact (PortData.marked_handleExtint hi hflag).ne hsame
      · rintro (h | h | h)
        · exact h h₉
        · exact hfA h
        · exact hen h
  · rw [not_not] at hfA
    refine iff_of_true (fun ports' hh i hi => ?_) (.inr (.inl hfA))
    rw [handler, if_neg (not_not.2 h₉), if_neg (not_not.2 hfA)] at hh
    split_ifs at hh
    · obtain rfl := Option.some.inj hh
      refine Function.update_of_ne (fun h1 => ?_) _ _
      rw [h1, enabled_of_flags henter h₉ hfA] at hi
      cases hi
    · obtain rfl := Option.some.inj hh
      rfl

/-- A port that waits for commands. -/
def waitingRun : List PortEvent := [.enable, .outCompletion [0], .iter, .iter]

/-- A port that waits for the payload of `CMD_ECHO`. -/
def payloadRun : List PortEvent := [.enable, .outCompletion [2, 4, 1], .iter, .iter, .iter, .iter]

theorem enabledFlags_pair (p q : PortData) : enabledFlags ![p, q] =
    extint9 ||| (if p.eicEnabled then portFlags portA else 0#32) |||
      (if q.eicEnabled then portFlags portB else 0#32) := rfl

/-- Both ports wait for commands, and a pin of port B changes. -/
theorem isolated_waitingRun :
    ∃ p q, PortData.machine.exec (.init portA fun _ => 0#16) waitingRun = some p ∧
      PortData.machine.exec (.init portB fun _ => 0#16) waitingRun = some q ∧
      Isolated ![p, q] (BitVec.twoPow 32 10) := by
  have hp : ((PortData.machine.exec (.init portA fun _ => 0#16) waitingRun).map
      fun p => p.eicEnabled) = some true := by decide +kernel
  have hq : ((PortData.machine.exec (.init portB fun _ => 0#16) waitingRun).map
      fun p => p.eicEnabled) = some true := by decide +kernel
  obtain ⟨p, hp, hen⟩ := Option.map_eq_some_iff.1 hp
  obtain ⟨q, hq, hen'⟩ := Option.map_eq_some_iff.1 hq
  refine ⟨p, q, hp, hq, (@isolated_iff _ _ (fun _ => 0#16) ?_ ?_).2 (.inr (.inr hen))⟩
  · exact Machine.reachable_of_exec hp
  · rw [enabledFlags_pair, hen, hen']
    decide

/-- Not every interrupt leaves the other port alone: port A waits for the payload of `CMD_ECHO`
with a latched flag of its pin 5 when a pin of port B changes; port A is put in error. -/
theorem masked_port_in_error :
    ¬ ∀ (answers : Fin 2 → ℕ → BitVec 16) (ports : Fin 2 → PortData) (flags : BitVec 32),
      PortData.machine.Reachable (.init portA (answers 0)) (ports 0) →
      PortData.machine.Reachable (.init portB (answers 1)) (ports 1) →
      flags &&& enabledFlags ports ≠ 0#32 → Isolated ports flags := by
  intro hall
  have hp : ((PortData.machine.exec (.init portA fun _ => 0#16) payloadRun).map
      fun p => (p.eicEnabled, (p.handleExtint (BitVec.twoPow 32 14 ||| BitVec.twoPow 32 10)).effects
        == p.effects ++ [.call .disableChan])) = some (false, true) := by decide +kernel
  have hq : ((PortData.machine.exec (.init portB fun _ => 0#16) waitingRun).map
      fun p => p.eicEnabled) = some true := by decide +kernel
  obtain ⟨p, hp, hen⟩ := Option.map_eq_some_iff.1 hp
  obtain ⟨q, hq, hen'⟩ := Option.map_eq_some_iff.1 hq
  obtain ⟨hen, herr⟩ := Prod.mk.inj hen
  have hiso := hall (fun _ _ => 0#16) ![p, q] (BitVec.twoPow 32 14 ||| BitVec.twoPow 32 10)
    (Machine.reachable_of_exec hp) (Machine.reachable_of_exec hq) (by
      rw [enabledFlags_pair, hen, hen']
      decide)
  have hsame := hiso _ (by rw [handler, if_neg (by decide), if_pos (by decide)]) 0 hen
  rw [Function.update_self] at hsame
  have heff : p.effects ++ [.call .disableChan] = p.effects :=
    (eq_of_beq herr).symm.trans (congrArg PortData.effects hsame)
  rw [List.append_right_eq_self] at heff
  cases heff

end Eic

end TesselFirmware
