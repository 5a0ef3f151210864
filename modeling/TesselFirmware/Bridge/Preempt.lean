import TesselFirmware.Bridge.Chain
import TesselFirmware.Machine.Basic

/-!
# The completion handler under preemption

`EVSYS_Handler` (SYNC edges) has a higher priority than `DMAC_Handler`, so `bridge_handle_sync`,
and with it the arrival of the next header, can run between any two of the three parts of
`bridge_dma_rx_completion`: copying the headers, calling the clients, and writing back
`was_open` and `bridge_state`.  `Preempt.machine` has a label for each of these parts, for each
SYNC edge, for the DMA hardware and for the calls of the clients, in any order the hardware allows.

The history of a run is kept in two fields: `done` lists the transactions that ended in a
completed data phase or in a status-change notification, and `made` the callbacks made.
`Preempt.Exact` says that the callbacks are those of the transactions:

* `Preempt.completions_exact` : they are, in every run in which the handler is `Undisturbed`;
* `Preempt.completion_lost` : and otherwise a completion can get lost.

The handler is disturbed when a SYNC edge overtakes it before it has copied the headers, when
SYNC high starts a data phase or a notification before the write-back, or when the header that
has arrived by the write-back has other connected bits than the copy.
-/

namespace TesselFirmware

namespace Preempt

open Bridge ControlPkt

/-! ### What a list of transactions should be answered with -/

/-- A transaction by its two headers. -/
structure Transaction where
  rx : ControlPkt
  tx : ControlPkt

/-- One completion for each segment of the data phase: OUT with its length, then IN. -/
def Transaction.completions (t : Transaction) : List Callback :=
  ((segments t.rx t.tx).filter (·.dir = .out)).map (fun s => .completionOut s.chan s.len) ++
    ((segments t.rx t.tx).filter (·.dir = .inn)).map (fun s => .completionIn s.chan)

/-- The new values at the places where a sequence of bits, starting from `prev`, changes. -/
def changes : Bool → List Bool → List Bool
  | _, [] => []
  | prev, b :: bs => if b = prev then changes b bs else b :: changes b bs

theorem changes_concat (prev : Bool) (bs : List Bool) (b : Bool) :
    changes prev (bs ++ [b]) =
      changes prev bs ++ if b = bs.getLast?.getD prev then [] else [b] := by
  induction bs generalizing prev with
  | nil => by_cases h : b = prev <;> simp [changes, h]
  | cons c bs ih =>
    have hlast : (c :: bs).getLast?.getD prev = bs.getLast?.getD c := by
      cases bs <;> simp [List.getLast?_cons]
    simp only [List.cons_append, changes, ih, hlast]
    split_ifs <;> rfl

/-- The callback completes a transfer. -/
def isCompletion : Callback → Bool
  | .completionOut _ _ => true
  | .completionIn _ => true
  | _ => false

/-- The value that an open or close callback of the channel reports. -/
def edgeOf (ch : Chan) : Callback → Option Bool
  | .open c => if c = ch then some true else none
  | .close c => if c = ch then some false else none
  | _ => none

/-- The callbacks `made` are exactly those of the transactions `ts`: each completes its own
segments, in order, and each channel is opened and closed where its connected bit changes. -/
structure Exact (ts : List Transaction) (made : List Callback) : Prop where
  completions : made.filter isCompletion = ts.flatMap Transaction.completions
  edges : ∀ ch, made.filterMap (edgeOf ch) = changes false (ts.map fun t => t.rx.connected ch)

/-! ### The machine -/

/-- Where `bridge_dma_rx_completion` stands. -/
inductive Pc
  | idle
  | copied (c : Snapshot)
  | called (c : Snapshot)

/-- The SYNC line, and whether the header has arrived since it went low. -/
inductive Line
  | high
  | low
  | header
  deriving DecidableEq

structure State where
  bridge : Bridge
  line : Line
  pc : Pc
  done : List Transaction
  made : List Callback

inductive Label
  | syncLow
  | header (h : ControlPkt)
  | syncHigh
  | chainDone
  | copy
  | callbacks
  | writeBack
  | call (c : Call)

/-- The headers in the global variables. -/
def State.current (s : State) : Transaction := ⟨s.bridge.ctrlRx, s.bridge.ctrlTx⟩

def step (s : State) : Label → Option State
  | .syncLow =>
    if s.line = .high then
      some { s with bridge := s.bridge.handleSyncLow, line := .low }
    else none
  | .header h =>
    if s.line = .low then
      some { s with bridge := s.bridge.receiveHeader h, line := .header }
    else none
  | .syncHigh =>
    if s.line ≠ .high then
      let b := s.bridge.handleSyncHigh
      -- a status-change notification has no data phase to wait for
      some { s with
        bridge := b
        line := .high
        done := if b.state = .data ∧ b.chain = [] then s.done ++ [s.current] else s.done }
    else none
  | .chainDone =>
    if s.bridge.chain ≠ [] then
      some { s with bridge := s.bridge.chainDone, done := s.done ++ [s.current] }
    else none
  | .copy =>
    match s.pc with
    | .idle =>
      if s.bridge.rxDone then
        if s.bridge.state = .data then
          some { s with pc := .copied s.bridge.takeSnapshot }
        else
          some { s with bridge := { s.bridge with rxDone := false } }
      else none
    | _ => none
  | .callbacks =>
    match s.pc with
    | .copied c =>
      some { s with pc := .called c, made := s.made ++ callbacks s.bridge.wasOpen c }
    | _ => none
  | .writeBack =>
    match s.pc with
    | .called _ => some { s with bridge := s.bridge.writeBack, pc := .idle }
    | _ => none
  | .call c => some { s with bridge := s.bridge.call c }

def machine : Machine State Label := ⟨step⟩

/-- After `bridge_init`, with SYNC high. -/
def init : State := ⟨Bridge.init, .high, .idle, [], []⟩

/-- The handler has still to make the callbacks of the last transaction of `done`. -/
def State.outstanding (s : State) : Bool :=
  match s.pc with
  | .idle => s.bridge.rxDone
  | .copied _ => true
  | .called _ => false

/-- The transactions whose callbacks are due by now. -/
def State.served (s : State) : List Transaction :=
  if s.outstanding then s.done.dropLast else s.done

/-- SYNC high brings neither data nor a change of the connected bits. -/
def Quiet (b : Bridge) : Prop :=
  b.ctrlRx.cmd ≠ 0x53#8 ∨ (segments b.ctrlRx b.ctrlTx = [] ∧ ¬ b.statusChanged)

instance (b : Bridge) : Decidable (Quiet b) := by unfold Quiet; infer_instance

/-- The step does not disturb the completion handler: a SYNC edge does not overtake it before it
has copied the headers, SYNC high starts nothing while it is at work, and by its write-back no
header with other connected bits has arrived. -/
def Undisturbed (s : State) : Label → Prop
  | .syncLow =>
    match s.pc with
    | .idle => s.bridge.rxDone = false
    | _ => True
  | .syncHigh =>
    match s.pc with
    | .idle => True
    | _ => Quiet s.bridge
  | .writeBack =>
    match s.pc with
    | .called c => s.bridge.ctrlRx.status &&& 0xF0#8 = c.rxStatus &&& 0xF0#8
    | _ => True
  | _ => True

instance (s : State) (l : Label) : Decidable (Undisturbed s l) := by
  cases l <;> cases hpc : s.pc <;> simp only [Undisturbed, hpc] <;> infer_instance

/-! ### The answers to a list of transactions -/

/-- `was_open` and all the callbacks after the handler has run once for each transaction. -/
def answers (ts : List Transaction) : Byte × List Callback :=
  ts.foldl (fun a t =>
    (t.rx.status &&& 0xF0#8, a.2 ++ callbacks a.1 (snapshotOf t.rx t.tx))) (0#8, [])

theorem answers_concat (ts : List Transaction) (t : Transaction) :
    answers (ts ++ [t]) = (t.rx.status &&& 0xF0#8,
      (answers ts).2 ++ callbacks (answers ts).1 (snapshotOf t.rx t.tx)) := by
  simp [answers, List.foldl_append]

/-- Masking with `0xF0` keeps the connected bits. -/
theorem has_connected (s : Byte) (ch : Chan) :
    Byte.has (s &&& 0xF0#8) (ch + 4) = Byte.has s (ch + 4) := by
  have hlt : (ch : ℕ) + 4 < 8 := by omega
  rw [Byte.has_eq_getLsbD _ hlt, Byte.has_eq_getLsbD _ hlt, BitVec.getLsbD_and]
  have hmask : (0xF0#8).getLsbD (ch + 4) = true := by fin_cases ch <;> decide
  rw [hmask, Bool.and_true]

theorem has_answers (ts : List Transaction) (ch : Chan) :
    Byte.has (answers ts).1 (ch + 4) =
      (ts.map fun t => t.rx.connected ch).getLast?.getD false := by
  induction ts using List.reverseRecOn with
  | nil => simp [answers]
  | append_singleton ts t _ => simp [answers_concat, has_connected, ControlPkt.connected]

theorem completions_eq (t : Transaction) :
    t.completions = chans.filterMap (checkCompletionOut (snapshotOf t.rx t.tx)) ++
      chans.filterMap (checkCompletionIn (snapshotOf t.rx t.tx)) := by
  simp only [Transaction.completions, segments, List.filter_flatMap, List.map_flatMap,
    List.filterMap_eq_flatMap_toList]
  congr 1
  · refine List.flatMap_congr fun ch _ => ?_
    rw [checkCompletionOut_snapshotOf, segmentsAt]
    split_ifs <;> simp
  · refine List.flatMap_congr fun ch _ => ?_
    rw [checkCompletionIn_snapshotOf, segmentsAt]
    split_ifs <;> simp

/-- The completions among the callbacks are those of the transaction. -/
theorem callbacks_completions (w : Byte) (t : Transaction) :
    (callbacks w (snapshotOf t.rx t.tx)).filter isCompletion = t.completions := by
  have hopen (c : Snapshot) : (chans.filterMap (checkOpen w c)).filter isCompletion = [] := by
    rw [List.filter_filterMap]
    refine List.filterMap_eq_nil_iff.2 fun ch _ => ?_
    unfold checkOpen
    split_ifs <;> rfl
  have hclose (c : Snapshot) : (chans.filterMap (checkClose w c)).filter isCompletion = [] := by
    rw [List.filter_filterMap]
    refine List.filterMap_eq_nil_iff.2 fun ch _ => ?_
    unfold checkClose
    split_ifs <;> rfl
  have hout (c : Snapshot) : (chans.filterMap (checkCompletionOut c)).filter isCompletion =
      chans.filterMap (checkCompletionOut c) := by
    rw [List.filter_filterMap]
    refine List.filterMap_congr fun ch _ => ?_
    unfold checkCompletionOut
    split_ifs <;> rfl
  have hinn (c : Snapshot) : (chans.filterMap (checkCompletionIn c)).filter isCompletion =
      chans.filterMap (checkCompletionIn c) := by
    rw [List.filter_filterMap]
    refine List.filterMap_congr fun ch _ => ?_
    unfold checkCompletionIn
    split_ifs <;> rfl
  rw [callbacks, List.filter_append, List.filter_append, List.filter_append, hopen, hclose,
    hout, hinn, completions_eq]
  simp

/-- The open and close callbacks of a channel report a change of its connected bit. -/
theorem callbacks_edges (w : Byte) (c : Snapshot) (ch : Chan) :
    (callbacks w c).filterMap (edgeOf ch) =
      if Byte.has c.rxStatus (ch + 4) = Byte.has w (ch + 4) then []
      else [Byte.has c.rxStatus (ch + 4)] := by
  have hout (c' : Chan) : (checkCompletionOut c c').bind (edgeOf ch) = none := by
    unfold checkCompletionOut
    split_ifs <;> rfl
  have hinn (c' : Chan) : (checkCompletionIn c c').bind (edgeOf ch) = none := by
    unfold checkCompletionIn
    split_ifs <;> rfl
  have hopen (c' : Chan) : (checkOpen w c c').bind (edgeOf ch) =
      if c' = ch ∧ Byte.has c.rxStatus (ch + 4) ∧ ¬ Byte.has w (ch + 4) then some true
      else none := by
    unfold checkOpen
    by_cases h : c' = ch
    · subst h
      simp only [true_and]
      split_ifs
      · exact if_pos rfl
      · rfl
    · simp only [h, false_and, if_false]
      split_ifs
      · exact if_neg h
      · rfl
  have hclose (c' : Chan) : (checkClose w c c').bind (edgeOf ch) =
      if c' = ch ∧ ¬ Byte.has c.rxStatus (ch + 4) ∧ Byte.has w (ch + 4) then some false
      else none := by
    unfold checkClose
    by_cases h : c' = ch
    · subst h
      simp only [true_and]
      split_ifs
      · exact if_pos rfl
      · rfl
    · simp only [h, false_and, if_false]
      split_ifs
      · exact if_neg h
      · rfl
  simp only [callbacks, List.filterMap_append, List.filterMap_filterMap, hout, hinn, hopen, hclose]
  generalize Byte.has c.rxStatus (ch + 4) = r
  generalize Byte.has w (ch + 4) = o
  cases r <;> cases o <;> fin_cases ch <;> rfl

/-- Running the handler once for each transaction, undisturbed, is exact. -/
theorem exact_answers (ts : List Transaction) : Exact ts (answers ts).2 := by
  induction ts using List.reverseRecOn with
  | nil => exact ⟨rfl, fun _ => rfl⟩
  | append_singleton ts t ih =>
    rw [answers_concat]
    refine ⟨?_, fun ch => ?_⟩
    · rw [List.filter_append, ih.completions, callbacks_completions, List.flatMap_append]
      simp
    · rw [List.filterMap_append, ih.edges, callbacks_edges, has_answers, List.map_append,
        List.map_singleton, changes_concat]
      rfl

/-! ### The invariant -/

/-- What holds between the labels of an undisturbed run: a running chain belongs to the
transaction of the global headers and nobody has overtaken the handler; the callbacks made are
the answers to the transactions served so far. -/
structure Inv (s : State) : Prop where
  chain : s.bridge.chain ≠ [] →
    s.line = .high ∧ s.pc = .idle ∧ s.bridge.state = .data ∧ s.bridge.rxDone = false
  due : s.pc = .idle → s.bridge.rxDone = true →
    s.line = .high ∧ s.bridge.state = .data ∧ ∃ ds, s.done = ds ++ [s.current] ∧
      (s.bridge.wasOpen, s.made) = answers ds
  idle : s.pc = .idle → s.bridge.rxDone = false → (s.bridge.wasOpen, s.made) = answers s.done
  copied : ∀ c, s.pc = .copied c → ∃ ds t, s.done = ds ++ [t] ∧ c = snapshotOf t.rx t.tx ∧
    (s.bridge.wasOpen, s.made) = answers ds
  called : ∀ c, s.pc = .called c → s.made = (answers s.done).2 ∧
    c.rxStatus &&& 0xF0#8 = (answers s.done).1

theorem inv_init : Inv init := by
  constructor <;> simp [init, Bridge.init, answers]

/-- A quiet SYNC high starts nothing. -/
theorem quiet_chain {b : Bridge} (hq : Quiet b) (hc : b.chain = []) :
    b.handleSyncHigh.chain = [] ∧ b.handleSyncHigh.state = .idle := by
  by_cases h : b.ctrlRx.cmd = 0x53#8
  · obtain ⟨hs, hn⟩ := hq.resolve_left (not_not.2 h)
    have hp := plannedChain_eq_nil_iff.2 hs
    rw [handleSyncHigh_chain h, handleSyncHigh_of_cmd h]
    simp [hp, hn]
  · rw [handleSyncHigh_of_cmd_ne h]
    exact ⟨hc, rfl⟩

/-- SYNC high with the handler idle: a chain is started, or a notification is due, or nothing
happens. -/
theorem inv_syncHigh_idle {b : Bridge} {done : List Transaction} {made : List Callback}
    (hc : b.chain = []) (hd : b.rxDone = false) (hans : (b.wasOpen, made) = answers done) :
    Inv ⟨b.handleSyncHigh, .high, .idle,
      if b.handleSyncHigh.state = .data ∧ b.handleSyncHigh.chain = [] then
        done ++ [⟨b.ctrlRx, b.ctrlTx⟩] else done, made⟩ := by
  by_cases h : b.ctrlRx.cmd = 0x53#8
  · have hch := handleSyncHigh_chain h
    rw [handleSyncHigh_of_cmd h] at hch ⊢
    simp only [consumed] at hch ⊢
    by_cases hp : b.plannedChain = []
    · by_cases hs : b.statusChanged
      · simp only [hp, hs, ne_eq, not_true_eq_false, or_true, and_self, ↓reduceIte]
        exact ⟨by simp, fun _ _ => ⟨rfl, rfl, done, rfl, hans⟩, by simp, by simp, by simp⟩
      · simp only [hp, hs, ne_eq, not_true_eq_false, or_self, ↓reduceIte, reduceCtorEq, and_true]
        exact ⟨by simp, by simp [hd], fun _ _ => hans, by simp, by simp⟩
    · simp only [hp, ne_eq, not_false_eq_true, true_or, and_false, ↓reduceIte]
      exact ⟨fun _ => ⟨rfl, rfl, rfl, rfl⟩, by simp, fun _ _ => hans, by simp, by simp⟩
  · rw [handleSyncHigh_of_cmd_ne h]
    simp only [reduceCtorEq, false_and, ↓reduceIte]
    exact ⟨by simp [hc], by simp [hd], fun _ _ => hans, by simp, by simp⟩

/-- Each label preserves the invariant. -/
theorem inv_step {s s' : State} {l : Label} (hi : Inv s) (hok : Undisturbed s l)
    (hst : step s l = some s') : Inv s' := by
  obtain ⟨b, line, pc, done, made⟩ := s
  cases l with
  | syncLow =>
    simp only [step] at hst
    split at hst <;> cases hst
    next hline =>
    refine ⟨by simp [handleSyncLow], by simp [handleSyncLow], fun hpc _ => ?_,
      hi.copied, hi.called⟩
    dsimp only at hpc
    subst hpc
    exact hi.idle rfl hok
  | header h =>
    simp only [step] at hst
    split at hst <;> cases hst
    next hline =>
    refine ⟨fun hc => ?_, fun hpc hd => ?_, hi.idle, hi.copied, hi.called⟩
    · have := (hi.chain hc).1
      simp [hline] at this
    · have := (hi.due hpc hd).1
      simp [hline] at this
  | syncHigh =>
    simp only [step] at hst
    split at hst <;> cases hst
    next hline =>
    have hchain : b.chain = [] := by
      by_contra hc
      exact hline (hi.chain hc).1
    by_cases hpc : pc = .idle
    · subst hpc
      have hd : b.rxDone = false := by
        by_contra hd
        exact hline (hi.due rfl (by simpa using hd)).1
      exact inv_syncHigh_idle hchain hd (hi.idle rfl hd)
    · -- the handler is at work, so SYNC high has nothing to start
      have hq : Quiet b := by
        cases pc with
        | idle => exact absurd rfl hpc
        | copied c => exact hok
        | called c => exact hok
      obtain ⟨hc', hs'⟩ := quiet_chain hq hchain
      refine ⟨fun hc => absurd hc' hc, fun h => absurd h hpc, fun h => absurd h hpc, ?_, ?_⟩
      · simpa [hs'] using hi.copied
      · simpa [hs'] using hi.called
  | chainDone =>
    simp only [step] at hst
    split at hst <;> cases hst
    next hc =>
    obtain ⟨hl, hpc, hstate, hd⟩ := hi.chain hc
    subst hpc
    refine ⟨by simp [Bridge.chainDone], fun _ _ => ⟨hl, hstate, done, rfl, ?_⟩,
      by simp [Bridge.chainDone], by simp, by simp⟩
    exact hi.idle rfl hd
  | copy =>
    simp only [step] at hst
    split at hst
    · split at hst
      · next hd =>
        split at hst <;> cases hst
        · next hstate =>
          obtain ⟨hl, -, ds, hds, hans⟩ := hi.due rfl hd
          refine ⟨fun hc => ?_, by simp, by simp, ?_, by simp⟩
          · exact absurd (hi.chain hc).2.2.2 (by simp [hd])
          · rintro c ⟨⟩
            exact ⟨ds, _, hds, rfl, hans⟩
        · next hstate =>
          exact absurd (hi.due rfl hd).2.1 hstate
      · cases hst
    · cases hst
  | callbacks =>
    simp only [step] at hst
    split at hst <;> cases hst
    next c =>
    obtain ⟨ds, t, hds, rfl, hans⟩ := hi.copied _ rfl
    refine ⟨fun hc => ?_, by simp, by simp, by simp, ?_⟩
    · have := (hi.chain hc).2.1
      simp at this
    · rintro c ⟨⟩
      rw [hds, answers_concat, ← hans]
      exact ⟨rfl, rfl⟩
  | writeBack =>
    simp only [step] at hst
    split at hst <;> cases hst
    next c =>
    obtain ⟨hmade, hc⟩ := hi.called c rfl
    refine ⟨fun h => ?_, by simp [Bridge.writeBack], fun _ _ => ?_, by simp, by simp⟩
    · have := (hi.chain h).2.1
      simp at this
    · exact Prod.ext (Eq.trans hok hc) hmade
  | call c =>
    simp only [step] at hst
    cases hst
    cases c <;> exact ⟨hi.chain, hi.due, hi.idle, hi.copied, hi.called⟩

/-! ### Runs -/

theorem inv_run {ls : List Label} {s : State} (h : machine.Run Undisturbed init ls s) : Inv s :=
  h.invariant inv_init fun _ _ _ hi hok hst => inv_step hi hok hst

theorem exact_served {s : State} (hi : Inv s) : Exact s.served s.made := by
  have hans : s.made = (answers s.served).2 := by
    unfold State.served State.outstanding
    cases hpc : s.pc with
    | idle =>
      cases hd : s.bridge.rxDone with
      | true =>
        obtain ⟨-, -, ds, hds, hans⟩ := hi.due hpc hd
        simp [hds, ← hans]
      | false => simp [← hi.idle hpc hd]
    | copied c =>
      obtain ⟨ds, t, hds, -, hans⟩ := hi.copied c hpc
      simp [hds, ← hans]
    | called c => simpa using (hi.called c hpc).1
  rw [hans]
  exact exact_answers _

/-- **Completion callbacks are exact while the handler is undisturbed.**  In every state of every
run whose steps do not disturb `bridge_dma_rx_completion`, the callbacks made so far are exactly
those of the transactions served so far (all of them, or all but the last while the handler has
still to call the clients): every completed data phase gets its out and in completions once, with
the sizes of its own headers, and the open and close callbacks of each channel are the changes of
its connected bit. -/
theorem completions_exact {ls : List Label} {s : State}
    (h : machine.Run Undisturbed init ls s) : Exact s.served s.made :=
  exact_served (inv_run h)

/-- A header with one byte for the given channel. -/
def oneByte (ch : Chan) : ControlPkt := ⟨0x53#8, 0#8, fun c => if c = ch then 1#8 else 0#8⟩

/-- A transaction with one OUT byte on the USB channel; the next header exchange, which transfers
nothing, goes on between the copy and the write-back of its handler. -/
def servedRun : List Label :=
  [.call (.startOut 0 0), .syncLow, .header (oneByte 0), .syncHigh, .chainDone, .copy, .syncLow,
    .header ⟨0x53#8, 0#8, fun _ => 0#8⟩, .callbacks, .syncHigh, .writeBack]

theorem completions_exact_servedRun :
    ∃ s, machine.exec init servedRun = some s ∧ s.made = [.completionOut 0 1] ∧
      Exact s.served s.made := by
  have h : (machine.execOk (fun s l => decide (Undisturbed s l)) init servedRun).isSome = true := by
    decide
  obtain ⟨s, hs⟩ := Option.isSome_iff_exists.1 h
  have hrun := Machine.run_of_execOk Undisturbed (fun _ _ => of_decide_eq_true) hs
  refine ⟨s, hrun.exec_eq, ?_, completions_exact hrun⟩
  have hmade : (machine.exec init servedRun).map State.made = some [.completionOut 0 1] := by decide
  simpa [hrun.exec_eq] using hmade

/-- A second transaction, with one OUT byte for port A, reaches SYNC high while the handler of the
first one is between its copy and its callbacks.  The write-back resets `bridge_state`, so the
second completion interrupt finds nothing to do. -/
def overtakenRun : List Label :=
  [.call (.startOut 0 0), .call (.startOut 1 0), .syncLow, .header (oneByte 0), .syncHigh,
    .chainDone, .copy, .syncLow, .header (oneByte 1), .syncHigh, .callbacks, .writeBack,
    .chainDone, .copy]

/-- Under arbitrary preemption the callbacks are not exact: a completion gets lost. -/
theorem completion_lost :
    ¬ ∀ ls s, machine.Run Machine.always init ls s → Exact s.served s.made := by
  intro hall
  have h : (machine.exec init overtakenRun).map
      (fun s => (s.made.filter isCompletion, s.served.flatMap Transaction.completions)) =
        some ([.completionOut 0 1], [.completionOut 0 1, .completionOut 1 1]) := by decide
  obtain ⟨s, hs, heq⟩ := Option.map_eq_some_iff.1 h
  have hex := (hall _ s (Machine.run_of_exec hs)).completions
  obtain ⟨hmade, hserved⟩ := Prod.mk.inj heq
  rw [hmade, hserved] at hex
  exact absurd hex (by decide)

end Preempt

end TesselFirmware
