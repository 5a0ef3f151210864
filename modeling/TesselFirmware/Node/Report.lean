import TesselFirmware.Port.Report

/-!
# Pin changes as the host sees them (`tessel-export.js`)

The `'readable'` handler of the node module takes a byte from `0xC0` to `0xCF` for the report of a
pin and its level.

* `Node.truthful_iff` : `port_handle_extint` reports to the host the pins that changed, with their
  levels, exactly if the pin that the last argument byte selects has the level of all of them.
-/

namespace TesselFirmware

/-- Two pins of one port have different interrupt lines. -/
theorem TesselPort.pinExtint_inj : ∀ t ∈ [portA, portB], ∀ i < 8, ∀ j < 8,
    t.pinExtint i = t.pinExtint j → i = j := by
  decide

namespace Node

/-- The pin and the value that the `'readable'` handler takes from a byte, if it is a pin
change. -/
def pinChange (byte : Byte) : Option (ℕ × Bool) :=
  if byte = replyAsyncUartRx then none
  else if 0xA0 ≤ byte.toNat ∧ 0xC0 ≤ byte.toNat ∧ byte.toNat < 0xC0 + 16 then
    some ((BitVec.ofNat 32 (byte.toNat - 0xC0) &&& ~~~ (1#32 <<< 3)).toNat, Byte.has byte 3)
  else none

/-- The host reads a report as it was meant. -/
theorem pinChange_report (high : Bool) {i : ℕ} (hi : i < 8) :
    pinChange (PortData.report high i) = some (i, high) := by
  revert i
  cases high <;> decide

/-- Every pin that is read while the port goes from `p` to `q` answers with its level. -/
def Observes (levels : ℕ → Bool) (p q : PortData) : Prop :=
  ∀ es, q.effects = p.effects ++ es → ∀ k i, (es.filterMap Effect.readPin)[k]? = some i →
    (p.answers k != 0#16) = levels i

/-- From `p` to `q` the port reported the flagged pins in order, the host reads from each byte the
pin and the level that the pin had, and exactly the pins with a level interrupt were disarmed, in
`sense` and in the registers of the controller. -/
structure Truthful (flags : BitVec 32) (levels : ℕ → Bool) (p q : PortData) : Prop where
  reports : ∃ bs, PortData.Appended bs p q ∧
    bs.map pinChange = (p.flaggedPins flags).map fun i => some (i, levels i)
  sense : ∀ i, q.sense i =
    if i ∈ p.flaggedPins flags ∧ Byte.has (p.sense i) 2 then 0#8 else p.sense i
  lines : ∀ es, q.effects = p.effects ++ es → ∀ regs,
    (∀ i < 8, p.port.pinSupportsInterrupt i →
      Eic.readConfig regs (p.port.pinExtint i) = p.sense i) →
    ∀ line, Eic.readConfig (Eic.after p.port regs es) line =
      if ∃ i ∈ p.flaggedPins flags, line = p.port.pinExtint i ∧
          Byte.has (Eic.readConfig regs line) 2 then 0#8
      else Eic.readConfig regs line

variable {p q : PortData} {flags : BitVec 32} {levels : ℕ → Bool}

theorem lt_of_flagged {i : ℕ} (h : i ∈ p.flaggedPins flags) : i < 8 :=
  List.mem_range.1 (List.mem_filter.1 h).1

theorem supports_of_flagged {i : ℕ} (h : i ∈ p.flaggedPins flags) :
    p.port.pinSupportsInterrupt i := by
  have hf : p.flagged flags i := of_decide_eq_true (List.mem_filter.1 h).2
  unfold PortData.flagged at hf
  exact hf.1

/-- The registers after the handler. -/
theorem readConfig_after (h : PortData.PinsReported (p.flaggedPins flags) p q) {es : List Effect}
    (hes : q.effects = p.effects ++ es) {regs : Eic.Config}
    (hregs : ∀ i < 8, p.port.pinSupportsInterrupt i →
      Eic.readConfig regs (p.port.pinExtint i) = p.sense i) (line : ℕ) :
    Eic.readConfig (Eic.after p.port regs es) line =
      if ∃ i ∈ p.flaggedPins flags, line = p.port.pinExtint i ∧
          Byte.has (Eic.readConfig regs line) 2 then 0#8
      else Eic.readConfig regs line := by
  have hconf : es.filterMap Effect.configPin =
      ((p.flaggedPins flags).filter p.levelSense).map fun i => (i, 0#8) := by
    have hq := h.configs
    rw [PortData.configs, hes, List.filterMap_append] at hq
    exact List.append_cancel_left hq
  rw [Eic.after, hconf, List.foldl_map]
  refine (Eic.readConfig_disarm p.port _ regs line).trans (if_congr ⟨?_, ?_⟩ rfl rfl)
  · rintro ⟨i, hi, rfl⟩
    obtain ⟨hflag, hlevel⟩ := List.mem_filter.1 hi
    refine ⟨i, hflag, rfl, ?_⟩
    rw [hregs i (lt_of_flagged hflag) (supports_of_flagged hflag)]
    exact hlevel
  · rintro ⟨i, hflag, rfl, hlevel⟩
    rw [hregs i (lt_of_flagged hflag) (supports_of_flagged hflag)] at hlevel
    exact ⟨i, List.mem_filter.2 ⟨hflag, hlevel⟩, rfl⟩

/-- Every report carries the level of the selected pin. -/
theorem answers_of_observes (h : PortData.PinsReported (p.flaggedPins flags) p q)
    (hem : PortData.Emits (fun _ => True) p q) (hobs : Observes levels p q) :
    ∀ k < (p.flaggedPins flags).length, (p.answers k != 0#16) = levels p.selectedPin := by
  intro k hk
  obtain ⟨es, -, hes⟩ := hem.effects
  have hread : es.filterMap Effect.readPin =
      List.replicate (p.flaggedPins flags).length p.selectedPin := by
    have hq := h.reads
    rw [PortData.reads, hes, List.filterMap_append] at hq
    exact List.append_cancel_left hq
  refine hobs es hes k p.selectedPin ?_
  rw [hread, List.getElem?_replicate, if_pos hk]

/-- The level of the selected pin stands for the level of every flagged pin. -/
theorem reports_iff {bs : List Byte}
    (hbs : bs = (p.flaggedPins flags).map (PortData.report (levels p.selectedPin))) :
    (bs.map pinChange = (p.flaggedPins flags).map fun i => some (i, levels i)) ↔
      ∀ i ∈ p.flaggedPins flags, levels i = levels p.selectedPin := by
  rw [hbs, List.map_map, List.map_inj_left]
  refine forall₂_congr fun i hi => ?_
  rw [Function.comp_apply, pinChange_report _ (lt_of_flagged hi), Option.some.injEq,
    Prod.mk.injEq]
  exact ⟨fun h => h.2.symm, fun h => ⟨rfl, h.symm⟩⟩

section Handler

variable {port : TesselPort} {answers : ℕ → BitVec 16}
  (h : PortData.machine.Reachable (PortData.init port answers) p) (he : p.eicEnabled)
  (hs : p.state = .readCmd)

include h he hs

/-- The reports of the handler carry the level of the selected pin. -/
theorem appended_handleExtint (hobs : Observes levels p (p.handleExtint flags)) :
    PortData.Appended ((p.flaggedPins flags).map (PortData.report (levels p.selectedPin))) p
      (p.handleExtint flags) := by
  have hrep := PortData.reported_handleExtint hs (PortData.replyLen_of_waiting h he hs) flags
  have hem : PortData.Emits (fun _ => True) p (p.handleExtint flags) :=
    .handleExtint (fun _ => trivial) (fun _ => trivial) trivial flags p
  exact hrep.appended _ (answers_of_observes hrep hem hobs)

theorem levels_of_truthful (hobs : Observes levels p (p.handleExtint flags))
    (ht : Truthful flags levels p (p.handleExtint flags)) :
    ∀ i ∈ p.flaggedPins flags, levels i = levels p.selectedPin := by
  obtain ⟨bs, hbs, hmap⟩ := ht.reports
  have happ := appended_handleExtint h he hs hobs
  exact (reports_iff (List.append_cancel_left (hbs.replied.symm.trans happ.replied))).1 hmap

/-- **Reports of pin changes.**  In every reachable state in which a port waits for a command with
its pin interrupts enabled, whatever flags are set, whatever the levels of the pins are and
whatever earlier commands left in `arg`: the reports of `port_handle_extint` tell the host the
truth exactly if every flagged pin has the level of the pin `arg[0] % 8`. -/
theorem truthful_iff (hobs : Observes levels p (p.handleExtint flags)) :
    Truthful flags levels p (p.handleExtint flags) ↔
      ∀ i ∈ p.flaggedPins flags, levels i = levels p.selectedPin := by
  refine ⟨levels_of_truthful h he hs hobs, fun hlev => ?_⟩
  have hrep := PortData.reported_handleExtint hs (PortData.replyLen_of_waiting h he hs) flags
  exact ⟨⟨_, appended_handleExtint h he hs hobs, (reports_iff rfl).2 hlev⟩, hrep.sense,
    fun es hes regs hregs line => readConfig_after hrep hes hregs line⟩

end Handler

/-- The pins that are read answer with their levels if the selected one does. -/
theorem observes_of_answers (h : PortData.PinsReported (p.flaggedPins flags) p q)
    (hans : ∀ k < (p.flaggedPins flags).length, (p.answers k != 0#16) = levels p.selectedPin) :
    Observes levels p q := by
  intro es hes k i hki
  have hq := h.reads
  rw [PortData.reads, hes, List.filterMap_append] at hq
  rw [List.append_cancel_left hq, List.getElem?_replicate] at hki
  split_ifs at hki with hk
  rw [← Option.some.inj hki]
  exact hans k hk

/-- Pin 5 and then pin 2 report their changes. -/
def changeRun : List PortEvent :=
  [PortEvent.enable, .outCompletion [8, 0x35, 8, 0x32]] ++ List.replicate 5 PortEvent.iter

/-- The port waits for a command, its selected pin is pin 2, which is high, and with a flag of
line `n` it reports the pin `i`. -/
def changed (n i : ℕ) (p : PortData) : Bool :=
  p.eicEnabled && p.state == .readCmd && p.replyLen == 0 && p.selectedPin == 2 &&
    p.flaggedPins (BitVec.twoPow 32 n) == [i] && p.answers 0 == 1#16

/-- A state after `changeRun` in which the pin of line `n` of port A has changed. -/
theorem exists_changeRun (n i : ℕ)
    (h : (PortData.machine.exec (PortData.init portA fun _ => 1#16) changeRun).any (changed n i)) :
    ∃ p, PortData.machine.Reachable (PortData.init portA fun _ => 1#16) p ∧ p.eicEnabled ∧
      p.state = .readCmd ∧ p.selectedPin = 2 ∧ p.flaggedPins (BitVec.twoPow 32 n) = [i] ∧
      Observes (· == 2) p (p.handleExtint (BitVec.twoPow 32 n)) := by
  obtain ⟨p, hp, hf⟩ := (Option.any_eq_true _ _).1 h
  simp only [changed, Bool.and_eq_true, beq_iff_eq] at hf
  obtain ⟨⟨⟨⟨⟨he, hs⟩, hl⟩, hsel⟩, hflag⟩, hans⟩ := hf
  refine ⟨p, Machine.reachable_of_exec hp, he, hs, hsel, hflag, ?_⟩
  refine observes_of_answers (PortData.reported_handleExtint hs hl _) fun k hk => ?_
  rw [hflag, List.length_singleton, Nat.lt_one_iff] at hk
  rw [hk, hans, hsel]
  decide

/-- Pin 2 has changed, and is the last one configured. -/
theorem truthful_changeRun :
    ∃ p, PortData.machine.Reachable (PortData.init portA fun _ => 1#16) p ∧ p.eicEnabled ∧
      p.state = .readCmd ∧
      Truthful (BitVec.twoPow 32 7) (· == 2) p (p.handleExtint (BitVec.twoPow 32 7)) := by
  obtain ⟨p, hreach, he, hs, hsel, hflag, hobs⟩ := exists_changeRun 7 2 (by decide +kernel)
  refine ⟨p, hreach, he, hs, (truthful_iff hreach he hs hobs).2 fun i hi => ?_⟩
  rw [hflag, List.mem_singleton] at hi
  rw [hi, hsel]

/-- Pin 5 has changed to low, and is reported to be high because pin 2 is. -/
theorem not_truthful_changeRun :
    ¬ ∀ (port : TesselPort) (answers : ℕ → BitVec 16) (p : PortData) (flags : BitVec 32)
      (levels : ℕ → Bool), PortData.machine.Reachable (PortData.init port answers) p →
        p.eicEnabled → p.state = .readCmd → Observes levels p (p.handleExtint flags) →
          Truthful flags levels p (p.handleExtint flags) := by
  intro hall
  obtain ⟨p, hreach, he, hs, hsel, hflag, hobs⟩ := exists_changeRun 14 5 (by decide +kernel)
  have hlev := levels_of_truthful hreach he hs hobs (hall _ _ p _ _ hreach he hs hobs) 5
    (by rw [hflag]; exact List.mem_singleton.2 rfl)
  rw [hsel] at hlev
  exact absurd hlev (by decide)

end Node

end TesselFirmware
