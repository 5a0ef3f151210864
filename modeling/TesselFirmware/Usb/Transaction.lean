import TesselFirmware.Machine.Basic
import TesselFirmware.Usb.Flash

/-!
# Flash mode (`firmware/flash.c`)

The flash interface on its own, from `flash_init` on: `flash.c` with the endpoints, the DMA channels
and the flash chip.  The chip answers with the bytes of its status register while it is polled, and
with the bytes that are read; both are lists from which the transfers take what they receive.  The
machine keeps a log of what happens on the SPI bus and at the IN endpoint.

* `FlashMode.readyOrBusy_iff` : the interface waits for a transfer of the host or for exactly one
  transfer of its own, throughout a run, if and only if every OUT transfer has a header;
* `FlashMode.transaction` : from one OUT transfer to the next, every run is one and the same, and
  its log is the transaction that the header asks for.
-/

namespace TesselFirmware

/-- What happens on the SPI bus and at the IN endpoint. -/
inductive FlashEvent
  /-- Chip select goes low. -/
  | select
  /-- Chip select goes high. -/
  | deselect
  | sent (data : List Byte)
  /-- A byte of the status register is read. -/
  | status (b : Byte)
  | read (data : List Byte)
  /-- An IN transfer is complete. -/
  | delivered (data : List Byte)
  deriving DecidableEq

structure FlashMode where
  flash : Flash
  /-- The OUT endpoint is armed with `flash_buffer`. -/
  armed : Bool
  /-- The DMA transfer that has been started. -/
  dma : Option FlashTransfer
  /-- The IN transfer that has been started. -/
  inn : Option (List Byte)
  /-- `flash.c` has reached `invalid()`. -/
  invalid : Bool
  /-- What the status register will be when it is read. -/
  status : List Byte
  /-- What will be read. -/
  cells : List Byte
  log : List FlashEvent

inductive FlashLabel
  /-- An OUT transfer of the host is complete. -/
  | out (data : List Byte)
  /-- The DMA transfer is complete. -/
  | dma
  /-- The IN transfer is complete. -/
  | inn
  deriving DecidableEq

/-- The host sends something. -/
def FlashLabel.isOut : FlashLabel → Bool
  | .out _ => true
  | .dma | .inn => false

namespace FlashMode

variable (m : FlashMode)

/-- Something has happened. -/
def record (e : FlashEvent) : FlashMode := { m with log := m.log ++ [e] }

def act (m : FlashMode) : FlashAct → FlashMode
  | .configure | .abort => { m with dma := none }
  | .select => m.record .select
  | .deselect => m.record .deselect
  | .start t => { m with dma := some t }
  | .startOut => { m with armed := true }
  | .startIn data => { m with inn := some data }
  | .invalid => { m with invalid := true }

/-- What a function of `flash.c` does. -/
def run (r : Flash × List FlashAct) : FlashMode := r.2.foldl act { m with flash := r.1 }

/-- The DMA has received `data` for the transfer `t`, and `flash_dma_rx_completion` is called. -/
def dmaDone (t : FlashTransfer) (data : List Byte) (e : FlashEvent) : FlashMode :=
  FlashMode.run { m.record e with flash := m.flash.receive data t, dma := none }
    (m.flash.receive data t).dmaRxCompletion

/-- The completions, as `usb_cb_completion` and `DMAC_Handler` dispatch them. -/
def step (m : FlashMode) : FlashLabel → Option FlashMode
  | .out data =>
    if m.armed ∧ data.length ≤ flashBufferSize then
      some ({ m with armed := false }.run (m.flash.usbOutCompletion data))
    else none
  | .dma =>
    match m.dma with
    | none => none
    | some (.send data) => some (m.dmaDone (.send data) [] (.sent data))
    | some .readByte =>
      match m.status with
      | [] => none
      | b :: status => some ({ m with status := status }.dmaDone .readByte [b] (.status b))
    | some (.read len) =>
      if len ≤ m.cells.length then
        some ({ m with cells := m.cells.drop len }.dmaDone (.read len) (m.cells.take len)
          (.read (m.cells.take len)))
      else none
  | .inn =>
    match m.inn with
    | none => none
    | some data => some ({ m.record (.delivered data) with inn := none }.run m.flash.usbInCompletion)

def machine : Machine FlashMode FlashLabel := ⟨step⟩

/-- After `flash_init`, whatever the globals and the chip. -/
def init (f : Flash) (status cells : List Byte) : FlashMode :=
  FlashMode.run ⟨f, false, none, none, false, status, cells, []⟩ f.init

/-- The transfers that have been started and are not complete. -/
def outstanding : ℕ := m.dma.toList.length + m.inn.toList.length

/-- A flash that is idle waits for an OUT transfer into `flash_buffer`; otherwise exactly one
transfer is outstanding. -/
structure ReadyOrBusy (m : FlashMode) : Prop where
  ready : m.flash.state = .idle → m.armed
  busy : m.flash.state ≠ .idle → m.flash.state ≠ .disable → m.outstanding = 1

/-! ### One transfer at a time -/

/-- Nothing is armed or outstanding, as in a completion handler. -/
structure Quiet (m : FlashMode) : Prop where
  armed : m.armed = false
  dma : m.dma = none
  inn : m.inn = none

/-- The flash waits for an OUT transfer. -/
structure Idle (m : FlashMode) : Prop where
  state : m.flash.state = .idle
  armed : m.armed = true
  dma : m.dma = none
  inn : m.inn = none

/-- The flash waits for a DMA transfer. -/
structure OnDma (m : FlashMode) : Prop where
  state : m.flash.state.waitsForDma
  armed : m.armed = false
  dma : m.dma.isSome
  inn : m.inn = none

/-- The flash waits for an IN transfer. -/
structure OnIn (m : FlashMode) : Prop where
  state : m.flash.state = .inUsb
  armed : m.armed = false
  dma : m.dma = none
  inn : m.inn.isSome

/-- The flash waits for one transfer, of the host or of its own. -/
inductive Settled (m : FlashMode) : Prop
  | idle (h : m.Idle)
  | dma (h : m.OnDma)
  | inn (h : m.OnIn)

variable {m} {t : FlashMode}

theorem Quiet.record (h : m.Quiet) (e : FlashEvent) : (m.record e).Quiet := ⟨h.armed, h.dma, h.inn⟩

theorem run_select (f : Flash) (acts : List FlashAct) :
    m.run (f, .select :: acts) = (m.record .select).run (f, acts) := rfl

theorem run_deselect (f : Flash) (acts : List FlashAct) :
    m.run (f, .deselect :: acts) = (m.record .deselect).run (f, acts) := rfl

namespace Settled

theorem startRead (h : m.Quiet) (f : Flash) : (m.run f.startRead).Settled := by
  rw [Flash.startRead]
  split_ifs
  · exact .dma ⟨rfl, h.armed, rfl, h.inn⟩
  · exact .idle ⟨rfl, rfl, h.dma, h.inn⟩

theorem startWrite (h : m.Quiet) (f : Flash) : (m.run f.startWrite).Settled := by
  rw [Flash.startWrite]
  split_ifs
  · exact .dma ⟨rfl, h.armed, rfl, h.inn⟩
  · rw [run_select]
    exact startRead (h.record _) f

theorem startWren (h : m.Quiet) (f : Flash) : (m.run f.startWren).Settled := by
  rw [Flash.startWren]
  split_ifs
  · exact .dma ⟨rfl, h.armed, rfl, h.inn⟩
  · exact startWrite h f

theorem readSrPoll (h : m.Quiet) (f : Flash) : (m.run f.readSrPoll).Settled :=
  .dma ⟨rfl, h.armed, rfl, h.inn⟩

theorem startSrPoll (h : m.Quiet) (f : Flash) : (m.run f.startSrPoll).Settled := by
  rw [Flash.startSrPoll]
  split_ifs
  · exact .dma ⟨rfl, h.armed, rfl, h.inn⟩
  · exact startWren h f

theorem dmaRxCompletion {f : Flash} (h : m.Quiet) (hw : f.state.waitsForDma) :
    (m.run f.dmaRxCompletion).Settled := by
  rw [Flash.dmaRxCompletion]
  cases hs : f.state <;> simp only [hs, FlashState.waitsForDma] at hw ⊢
  case out => exact startRead h _
  case inSpi => exact .inn ⟨rfl, h.armed, h.dma, rfl⟩
  case srPollOut => exact readSrPoll h _
  case srPollIn =>
    split_ifs
    · exact readSrPoll h _
    · rw [Flash.andThen, run_deselect]
      exact startWren (h.record _) _
  case wrenOut =>
    rw [Flash.andThen, run_deselect]
    exact startWrite (h.record _) _
  all_goals exact absurd hw Bool.false_ne_true

theorem dmaDone (h : m.OnDma) (tr : FlashTransfer) (data : List Byte) (e : FlashEvent) :
    (m.dmaDone tr data e).Settled := by
  refine dmaRxCompletion ⟨h.armed, rfl, h.inn⟩ ?_
  rw [Flash.receive_state]
  exact h.state

theorem usbInCompletion {f : Flash} (h : m.Quiet) (hs : f.state = .inUsb) :
    (m.run f.usbInCompletion).Settled := by
  rw [Flash.usbInCompletion, if_pos hs]
  exact startRead h _

/-- An OUT transfer with a header. -/
theorem usbOutCompletion {f : Flash} {data : List Byte} (h : m.Quiet) (hs : f.state = .idle)
    (hlen : 4 ≤ data.length) : (m.run (f.usbOutCompletion data)).Settled := by
  rw [Flash.usbOutCompletion]
  dsimp only
  rw [if_pos hs, if_neg (Nat.not_lt.2 hlen)]
  exact startSrPoll h _

/-- **A completion** leads from one transfer to the next. -/
theorem step {l : FlashLabel} (h : m.Settled) (hl : ∀ data, l = .out data → 4 ≤ data.length)
    (hst : m.step l = some t) : t.Settled := by
  cases l with
  | out data =>
    obtain ⟨⟨harmed, -⟩, hst⟩ := Option.ite_none_right_eq_some.1 hst
    cases hst
    cases h with
    | idle h => exact usbOutCompletion ⟨rfl, h.dma, h.inn⟩ h.state (hl _ rfl)
    | dma h => exact absurd harmed (by rw [h.armed]; decide)
    | inn h => exact absurd harmed (by rw [h.armed]; decide)
  | dma =>
    cases h with
    | idle h => simp only [FlashMode.step, h.dma, reduceCtorEq] at hst
    | inn h => simp only [FlashMode.step, h.dma, reduceCtorEq] at hst
    | dma h =>
      rw [FlashMode.step] at hst
      split at hst
      next => cases hst
      next data _ =>
        cases hst
        exact dmaDone h _ _ _
      next =>
        split at hst
        next => cases hst
        next b status _ =>
          cases hst
          exact dmaDone (m := { m with status := status }) ⟨h.state, h.armed, h.dma, h.inn⟩ _ _ _
      next len _ =>
        obtain ⟨-, hst⟩ := Option.ite_none_right_eq_some.1 hst
        cases hst
        exact dmaDone (m := { m with cells := m.cells.drop len })
          ⟨h.state, h.armed, h.dma, h.inn⟩ _ _ _
  | inn =>
    cases h with
    | idle h => simp only [FlashMode.step, h.inn, reduceCtorEq] at hst
    | dma h => simp only [FlashMode.step, h.inn, reduceCtorEq] at hst
    | inn h =>
      rw [FlashMode.step] at hst
      split at hst
      next => cases hst
      next data _ =>
        cases hst
        exact usbInCompletion ⟨h.armed, h.dma, rfl⟩ h.state

theorem readyOrBusy (h : m.Settled) : m.ReadyOrBusy := by
  constructor
  · intro hs
    cases h with
    | idle h => exact h.armed
    | dma h => exact absurd h.state (by rw [hs]; decide)
    | inn h => exact absurd (h.state.symm.trans hs) (by decide)
  · intro hs _
    cases h with
    | idle h => exact absurd h.state hs
    | dma h =>
      obtain ⟨tr, htr⟩ := Option.isSome_iff_exists.1 h.dma
      rw [outstanding, htr, h.inn]
      rfl
    | inn h =>
      obtain ⟨data, hdata⟩ := Option.isSome_iff_exists.1 h.inn
      rw [outstanding, hdata, h.dma]
      rfl

end Settled

theorem settled_init (f : Flash) (status cells : List Byte) : (init f status cells).Settled :=
  .idle ⟨rfl, rfl, rfl, rfl⟩

/-- After an OUT transfer without a header the flash is idle and nothing is armed. -/
theorem not_ready_of_short {data : List Byte} (h : m.Settled) (hlen : data.length < 4)
    (hst : m.step (.out data) = some t) : ¬ t.ReadyOrBusy := by
  obtain ⟨⟨harmed, -⟩, hst⟩ := Option.ite_none_right_eq_some.1 hst
  have hs : m.flash.state = .idle := by
    cases h with
    | idle h => exact h.state
    | dma h => exact absurd harmed (by rw [h.armed]; decide)
    | inn h => exact absurd harmed (by rw [h.armed]; decide)
  cases hst
  rw [Flash.usbOutCompletion]
  dsimp only
  rw [if_pos hs, if_pos hlen]
  intro hready
  exact absurd (hready.ready hs) Bool.false_ne_true

theorem Settled.exec {ls : List FlashLabel} (h : m.Settled)
    (hlen : ∀ data, .out data ∈ ls → 4 ≤ data.length) (hex : machine.exec m ls = some t) :
    t.Settled := by
  induction ls generalizing m with
  | nil =>
    cases hex
    exact h
  | cons l ls ih =>
    obtain ⟨m', hst, hex⟩ := Option.bind_eq_some_iff.1 hex
    have h' : m'.Settled := h.step (fun data hl => hlen data (hl ▸ List.mem_cons_self)) hst
    exact ih h' (fun data hd => hlen data (List.mem_cons_of_mem _ hd)) hex

/-- **The flash interface is ready or busy throughout a run if and only if every OUT transfer has a
header.** -/
theorem readyOrBusy_iff {f : Flash} {status cells : List Byte} {ls : List FlashLabel}
    (h : machine.exec (init f status cells) ls = some t) :
    (∀ ls' t', ls' <+: ls → machine.exec (init f status cells) ls' = some t' → t'.ReadyOrBusy) ↔
      ∀ data, .out data ∈ ls → 4 ≤ data.length := by
  constructor
  · have hinit := settled_init f status cells
    -- along the run: before the first OUT transfer without a header everything is settled
    generalize init f status cells = m at h hinit
    induction ls generalizing m with
    | nil => simp
    | cons l ls ih =>
      intro hready
      obtain ⟨m', hst, hex⟩ := Option.bind_eq_some_iff.1 h
      have hlong : ∀ data, l = .out data → 4 ≤ data.length := by
        rintro data rfl
        by_contra hshort
        refine not_ready_of_short hinit (Nat.lt_of_not_le hshort) hst ?_
        refine hready [.out data] m' (List.prefix_append _ _) ?_
        rw [Machine.exec, show machine.step m (.out data) = some m' from hst]
        rfl
      have hrest := ih m' hex (hinit.step hlong hst) fun ls' t' hpre hex' => by
        refine hready (l :: ls') t' (List.cons_prefix_cons.2 ⟨rfl, hpre⟩) ?_
        rw [Machine.exec, show machine.step m l = some m' from hst]
        exact hex'
      intro data hmem
      rcases List.mem_cons.1 hmem with hl | hmem
      · exact hlong data hl.symm
      · exact hrest data hmem
  · intro hlen ls' t' hpre hex
    exact ((settled_init f status cells).exec (fun data hd => hlen data (hpre.subset hd))
      hex).readyOrBusy

/-! ### One transaction -/

/-- What is read, in pieces of the size of `flash_buffer`. -/
def blocks (bytes : List Byte) : List (List Byte) :=
  (List.range ((bytes.length + 511) / 512)).map fun i => (bytes.drop (512 * i)).take 512

/-- The transaction that a header asks for. -/
def transactionLog (srPoll wren : Bool) (polled payload bytes : List Byte) : List FlashEvent :=
  (if srPoll then [.select, .sent [0x05#8]] ++ polled.map .status ++ [.deselect] else []) ++
    (if wren then [.select, .sent [0x06#8], .deselect] else []) ++
    [.select] ++ (if payload = [] then [] else [.sent payload]) ++
    (blocks bytes).flatMap (fun b => [.read b, .delivered b]) ++ [.deselect]

/-- Completions lead from `m` to an idle flash, with this log, and this is what the chip has not
been asked for. -/
def Ends (m : FlashMode) (log : List FlashEvent) (status cells : List Byte) : Prop :=
  ∃ ls t, (∀ l ∈ ls, l.isOut = false) ∧ machine.exec m ls = some t ∧ t.Idle ∧ t.log = log ∧
    t.status = status ∧ t.cells = cells ∧ t.invalid = m.invalid

theorem blocks_nil : blocks [] = [] := rfl

theorem blocks_of_ne_nil {bytes : List Byte} (h : bytes ≠ []) :
    blocks bytes = bytes.take 512 :: blocks (bytes.drop 512) := by
  have hpos := List.length_pos_iff.2 h
  have hcount : (bytes.length + 511) / 512 = ((bytes.drop 512).length + 511) / 512 + 1 := by
    rw [List.length_drop]
    omega
  rw [blocks, blocks, hcount, List.range_succ_eq_map, List.map_cons, List.map_map]
  congr 1
  refine List.map_congr_left fun i _ => ?_
  show (bytes.drop (512 * (i + 1))).take 512 = ((bytes.drop 512).drop (512 * i)).take 512
  rw [List.drop_drop, Nat.mul_add, Nat.add_comm]

theorem flatten_blocks (bytes : List Byte) : (blocks bytes).flatten = bytes := by
  induction hn : bytes.length using Nat.strongRecOn generalizing bytes with
  | ind n ih =>
    subst hn
    by_cases h : bytes = []
    · subst h
      rfl
    · have hpos := List.length_pos_iff.2 h
      rw [blocks_of_ne_nil h, List.flatten_cons,
        ih (bytes.drop 512).length (by rw [List.length_drop]; omega) _ rfl, List.take_append_drop]

theorem length_le_of_mem_blocks {bytes b : List Byte} (h : b ∈ blocks bytes) : b.length ≤ 512 := by
  obtain ⟨i, -, rfl⟩ := List.mem_map.1 h
  exact List.length_take_le _ _

theorem Ends.head (l : FlashLabel) (m' : FlashMode) {log : List FlashEvent}
    {status cells : List Byte} (hst : m.step l = some m') (hl : l.isOut = false)
    (hinv : m'.invalid = m.invalid) (h : m'.Ends log status cells) : m.Ends log status cells := by
  obtain ⟨ls, t, hls, hex, hidle, hlog, hstatus, hcells, hinvalid⟩ := h
  refine ⟨l :: ls, t, ?_, ?_, hidle, hlog, hstatus, hcells, hinvalid.trans hinv⟩
  · rintro l' hl'
    rcases List.mem_cons.1 hl' with rfl | hl'
    · exact hl
    · exact hls l' hl'
  · rw [Machine.exec, show machine.step m l = some m' from hst]
    exact hex

/-- `flash_start_read`: the bytes are read and sent to the host block by block. -/
theorem ends_startRead {f : Flash} {bytes rest : List Byte} (h : m.Quiet)
    (hin : f.inCount = bytes.length) (hcells : m.cells = bytes ++ rest) :
    (m.run f.startRead).Ends
      (m.log ++ (blocks bytes).flatMap (fun b => [.read b, .delivered b]) ++ [.deselect])
      m.status rest := by
  induction hn : bytes.length using Nat.strongRecOn generalizing bytes m f with
  | ind n ih =>
    subst hn
    by_cases hnil : bytes = []
    · subst hnil
      rw [Flash.startRead, if_neg (by rw [hin]; decide), blocks_nil]
      refine ⟨[], _, List.forall_mem_nil _, rfl, ⟨rfl, rfl, h.dma, h.inn⟩, ?_, rfl, hcells, rfl⟩
      show m.log ++ [.deselect] = _
      rw [List.flatMap_nil, List.append_nil]
    · have hpos := List.length_pos_iff.2 hnil
      have hlen : (bytes.take 512).length = f.inPacketLen := by
        rw [List.length_take, Flash.inPacketLen, hin, flashBufferSize]
        split_ifs <;> omega
      have hcut : m.cells = bytes.take 512 ++ (bytes.drop 512 ++ rest) := by
        rw [← List.append_assoc, List.take_append_drop, hcells]
      have htake : m.cells.take f.inPacketLen = bytes.take 512 := by
        rw [hcut, ← hlen, List.take_left]
      have hdrop : m.cells.drop f.inPacketLen = bytes.drop 512 ++ rest := by
        rw [hcut, ← hlen, List.drop_left]
      have hle : f.inPacketLen ≤ m.cells.length := by
        rw [hcut, List.length_append, hlen]
        exact Nat.le_add_right _ _
      have hcontent : (f.buffer.write 0 (bytes.take 512)).content f.inPacketLen = bytes.take 512 := by
        rw [← hlen]
        exact Cells.content_write_zero (List.length_take_le _ _)
      rw [Flash.startRead, if_pos (by rw [hin]; exact hpos), blocks_of_ne_nil hnil]
      -- a block has been read, and then sent to the host
      let f₁ : Flash := { f with buffer := f.buffer.write 0 (bytes.take 512), state := .inUsb }
      let m₁ : FlashMode :=
        { m with
          flash := f₁, inn := some (bytes.take 512), dma := none, cells := bytes.drop 512 ++ rest
          log := m.log ++ [.read (bytes.take 512)] }
      let m₂ : FlashMode := { m₁.record (.delivered (bytes.take 512)) with inn := none }
      refine Ends.head .dma (m₁) ?_ rfl rfl (Ends.head .inn
        (m₂.run (Flash.startRead { f₁ with inCount := f₁.inCount - f₁.inPacketLen }))
        ?_ rfl ?_ ?_)
      · show (if f.inPacketLen ≤ m.cells.length then some (FlashMode.dmaDone
          { m with
            flash := { f with state := .inSpi }, dma := some (.read f.inPacketLen)
            cells := m.cells.drop f.inPacketLen }
          (.read f.inPacketLen) (m.cells.take f.inPacketLen) (.read (m.cells.take f.inPacketLen)))
          else none) = _
        rw [if_pos hle, htake, hdrop]
        show some { m₁ with
          inn := some ((f.buffer.write 0 (bytes.take 512)).content f.inPacketLen) } = some m₁
        rw [hcontent]
      · rfl
      · rw [Flash.startRead]
        split_ifs <;> rfl
      · have hleft : f.inCount - f.inPacketLen = (bytes.drop 512).length := by
          rw [hin, ← hlen, List.length_drop, List.length_take]
          omega
        have hrest : (m₂.run (Flash.startRead { f₁ with
            inCount := f₁.inCount - f₁.inPacketLen })).Ends
            (m₂.log ++ (blocks (bytes.drop 512)).flatMap (fun b => [.read b, .delivered b]) ++
              [.deselect]) m₂.status rest :=
          ih _ (by rw [List.length_drop]; omega) ⟨h.armed, rfl, rfl⟩ hleft rfl rfl
        rw [List.flatMap_cons, ← List.append_assoc]
        have hlog : m₂.log = m.log ++ [.read (bytes.take 512), .delivered (bytes.take 512)] := by
          show m.log ++ [.read (bytes.take 512)] ++ [.delivered (bytes.take 512)] = _
          rw [List.append_assoc]
          rfl
        rwa [hlog] at hrest

/-- The end of a transaction: the payload and the read. -/
def writeLog (payload bytes : List Byte) : List FlashEvent :=
  [.select] ++ (if payload = [] then [] else [.sent payload]) ++
    (blocks bytes).flatMap (fun b => [.read b, .delivered b]) ++ [.deselect]

/-- The header has been stored, and this is what is to be sent and read. -/
structure Asks (f : Flash) (payload bytes : List Byte) : Prop where
  inCount : f.inCount = bytes.length
  outCount : f.outCount = payload.length
  payload : f.buffer.slice 4 f.outCount = payload

theorem ends_startWrite {f : Flash} {payload bytes rest : List Byte} (h : m.Quiet)
    (hf : Asks f payload bytes) (hcells : m.cells = bytes ++ rest) :
    (m.run f.startWrite).Ends (m.log ++ writeLog payload bytes) m.status rest := by
  rw [Flash.startWrite, writeLog]
  by_cases hnil : payload = []
  · rw [if_neg (by rw [hf.outCount, hnil]; decide), run_select, if_pos hnil, List.append_nil]
    have hread := ends_startRead (h.record .select) hf.inCount hcells
    rwa [FlashMode.record, List.append_assoc, List.append_assoc, ← List.append_assoc [_]] at hread
  · have hpos := List.length_pos_iff.2 hnil
    rw [if_pos (by rw [hf.outCount]; exact hpos), hf.payload, if_neg hnil]
    refine Ends.head .dma (FlashMode.run
        { m with dma := none, log := m.log ++ [.select] ++ [.sent payload] }
        (Flash.startRead { f with state := .out })) rfl rfl ?_ ?_
    · rw [Flash.startRead]
      split_ifs <;> rfl
    · have hread := ends_startRead (m := { m with
        dma := none, log := m.log ++ [.select] ++ [.sent payload] }) (f := { f with state := .out })
        ⟨h.armed, rfl, h.inn⟩ hf.inCount hcells
      simpa only [List.append_assoc] using hread

/-- `flash_start_wren`: the write enable command, if the header asks for it. -/
theorem ends_startWren {f : Flash} {payload bytes rest : List Byte} (h : m.Quiet)
    (hf : Asks f payload bytes) (hcells : m.cells = bytes ++ rest) :
    (m.run f.startWren).Ends
      (m.log ++ ((if f.flagWren then [.select, .sent [0x06#8], .deselect] else []) ++
        writeLog payload bytes)) m.status rest := by
  rw [Flash.startWren]
  by_cases hw : f.flagWren
  · rw [if_pos hw, if_pos hw]
    refine Ends.head .dma (FlashMode.run
        { m with dma := none, log := m.log ++ [.select] ++ [.sent [0x06#8]] ++ [.deselect] }
        (Flash.startWrite { f with byte := 0x06#8, state := .wrenOut })) rfl rfl ?_ ?_
    · rw [Flash.startWrite, Flash.startRead]
      split_ifs <;> rfl
    · have hwrite := ends_startWrite (m := { m with
        dma := none, log := m.log ++ [.select] ++ [.sent [0x06#8]] ++ [.deselect] })
        (f := { f with byte := 0x06#8, state := .wrenOut })
        ⟨h.armed, rfl, h.inn⟩ ⟨hf.inCount, hf.outCount, hf.payload⟩ hcells
      simpa only [List.append_assoc, List.cons_append, List.nil_append] using hwrite
  · rw [if_neg hw, if_neg hw, List.nil_append]
    exact ends_startWrite h hf hcells

/-- `flash_read_sr_poll`: the status register is read until bit 0 is clear. -/
theorem ends_readSrPoll {f : Flash} {payload bytes rest busy status : List Byte} {ready : Byte}
    (h : m.Quiet) (hf : Asks f payload bytes) (hcells : m.cells = bytes ++ rest)
    (hstatus : m.status = busy ++ ready :: status) (hbusy : ∀ b ∈ busy, Byte.has b 0)
    (hready : Byte.has ready 0 = false) :
    (m.run f.readSrPoll).Ends
      (m.log ++ ((busy ++ [ready]).map .status ++ [.deselect] ++
        (if f.flagWren then [.select, .sent [0x06#8], .deselect] else []) ++
        writeLog payload bytes)) status rest := by
  induction busy generalizing m f with
  | nil =>
    -- the last byte: bit 0 is clear
    let m₁ : FlashMode :=
      { m with dma := none, status := status, log := m.log ++ [.status ready] ++ [.deselect] }
    let f₁ : Flash := { f with byte := ready, state := .srPollIn }
    refine Ends.head .dma (m₁.run f₁.startWren) ?_ rfl ?_ ?_
    · show (match m.status with
        | [] => none
        | b :: status => some (FlashMode.dmaDone
          { m with
            flash := { f with state := .srPollIn }, dma := some .readByte, status := status }
          .readByte [b] (.status b))) = _
      rw [hstatus]
      show some (FlashMode.run _ (if Byte.has ready 0 then _ else _)) = _
      rw [hready]
      rfl
    · rw [Flash.startWren, Flash.startWrite, Flash.startRead]
      split_ifs <;> rfl
    · have hwren := ends_startWren (m := m₁) (f := f₁) ⟨h.armed, rfl, h.inn⟩
        ⟨hf.inCount, hf.outCount, hf.payload⟩ hcells
      simpa only [m₁, f₁, List.append_assoc, List.cons_append, List.nil_append, List.map_cons,
        List.map_nil] using hwren
  | cons b busy ih =>
    let m₁ : FlashMode :=
      { m with dma := none, status := busy ++ ready :: status, log := m.log ++ [.status b] }
    let f₁ : Flash := { f with byte := b, state := .srPollIn }
    refine Ends.head .dma (m₁.run f₁.readSrPoll) ?_ rfl rfl ?_
    · show (match m.status with
        | [] => none
        | b :: status => some (FlashMode.dmaDone
          { m with
            flash := { f with state := .srPollIn }, dma := some .readByte, status := status }
          .readByte [b] (.status b))) = _
      rw [hstatus]
      show some (FlashMode.run _ (if Byte.has b 0 then _ else _)) = _
      rw [hbusy b List.mem_cons_self]
      rfl
    · have hpoll := ih (m := m₁) (f := f₁) ⟨h.armed, rfl, h.inn⟩
        ⟨hf.inCount, hf.outCount, hf.payload⟩ hcells rfl
        fun b hb => hbusy b (List.mem_cons_of_mem _ hb)
      simpa only [m₁, f₁, List.append_assoc, List.cons_append, List.nil_append,
        List.map_cons] using hpoll

/-- The bytes that the status register returns: they are read only if the header asks for it, and
bit 0 is clear in the last one. -/
structure Polled (m : FlashMode) (srPoll : Bool) (busy : List Byte) (ready : Byte)
    (status : List Byte) : Prop where
  polled : srPoll → m.status = busy ++ ready :: status
  skipped : srPoll = false → m.status = status
  busy : ∀ b ∈ busy, Byte.has b 0
  ready : Byte.has ready 0 = false

theorem ends_startSrPoll {f : Flash} {payload bytes rest busy status : List Byte} {ready : Byte}
    (h : m.Quiet) (hf : Asks f payload bytes) (hcells : m.cells = bytes ++ rest)
    (hp : m.Polled f.flagSrPoll busy ready status) :
    (m.run f.startSrPoll).Ends
      (m.log ++ transactionLog f.flagSrPoll f.flagWren (busy ++ [ready]) payload bytes)
      status rest := by
  have hlog : ∀ p w, transactionLog p w (busy ++ [ready]) payload bytes =
      (if p then [.select, .sent [0x05#8]] ++ (busy ++ [ready]).map .status ++ [.deselect] else []) ++
        ((if w then [.select, .sent [0x06#8], .deselect] else []) ++ writeLog payload bytes) := by
    intro p w
    simp only [transactionLog, writeLog, List.append_assoc]
  rw [Flash.startSrPoll, hlog]
  by_cases hpoll : f.flagSrPoll
  · rw [if_pos hpoll, if_pos hpoll]
    let m₁ : FlashMode := { m with dma := none, log := m.log ++ [.select] ++ [.sent [0x05#8]] }
    let f₁ : Flash := { f with byte := 0x05#8, state := .srPollOut }
    refine Ends.head .dma (m₁.run f₁.readSrPoll) rfl rfl rfl ?_
    have hread := ends_readSrPoll (m := m₁) (f := f₁) ⟨h.armed, rfl, h.inn⟩
      ⟨hf.inCount, hf.outCount, hf.payload⟩ hcells (hp.polled hpoll) hp.busy hp.ready
    simpa only [m₁, f₁, List.append_assoc, List.cons_append, List.nil_append] using hread
  · have hskip := eq_false_of_ne_true hpoll
    rw [if_neg hpoll, if_neg hpoll, List.nil_append, ← hp.skipped hskip]
    exact ends_startWren h hf hcells

/-! ### The order of the completions -/

theorem Idle.not_step {l : FlashLabel} (h : m.Idle) (hl : l.isOut = false) : m.step l ≠ some t := by
  intro hst
  cases l with
  | out => cases hl
  | dma => simp only [FlashMode.step, h.dma, reduceCtorEq] at hst
  | inn => simp only [FlashMode.step, h.inn, reduceCtorEq] at hst

theorem OnDma.label_eq {l : FlashLabel} (h : m.OnDma) (hl : l.isOut = false)
    (hst : m.step l = some t) : l = .dma := by
  cases l with
  | out => cases hl
  | dma => rfl
  | inn => simp only [FlashMode.step, h.inn, reduceCtorEq] at hst

theorem OnIn.label_eq {l : FlashLabel} (h : m.OnIn) (hl : l.isOut = false)
    (hst : m.step l = some t) : l = .inn := by
  cases l with
  | out => cases hl
  | dma => simp only [FlashMode.step, h.dma, reduceCtorEq] at hst
  | inn => rfl

/-- Only the transfer that the flash waits for can be completed. -/
theorem Settled.label_unique {l l' : FlashLabel} {t' : FlashMode} (h : m.Settled)
    (hl : l.isOut = false) (hl' : l'.isOut = false) (hst : m.step l = some t)
    (hst' : m.step l' = some t') : l = l' := by
  cases h with
  | idle h => exact absurd hst (h.not_step hl)
  | dma h => exact (h.label_eq hl hst).trans (h.label_eq hl' hst').symm
  | inn h => exact (h.label_eq hl hst).trans (h.label_eq hl' hst').symm

/-- Two series of completions from one state agree as far as the first does not lead to an idle
flash. -/
theorem Settled.prefix_of_idle {ls ls' : List FlashLabel} {t' : FlashMode} (h : m.Settled)
    (hls : ∀ l ∈ ls, l.isOut = false) (hls' : ∀ l ∈ ls', l.isOut = false)
    (hex : machine.exec m ls = some t) (hidle : t.Idle) (hex' : machine.exec m ls' = some t') :
    ls' <+: ls := by
  induction ls' generalizing m ls with
  | nil => exact List.nil_prefix
  | cons l' ls' ih =>
    obtain ⟨m₁', hst', hex'⟩ := Option.bind_eq_some_iff.1 hex'
    have hl' := hls' l' List.mem_cons_self
    cases ls with
    | nil =>
      cases hex
      exact absurd hst' (hidle.not_step hl')
    | cons l ls =>
      obtain ⟨m₁, hst, hex⟩ := Option.bind_eq_some_iff.1 hex
      have hl := hls l List.mem_cons_self
      obtain rfl := h.label_unique hl hl' hst hst'
      obtain rfl : m₁ = m₁' := Option.some.inj (hst.symm.trans hst')
      have h₁ : m₁.Settled := h.step (fun data hd => by rw [hd] at hl; cases hl) hst
      exact List.cons_prefix_cons.2 ⟨rfl, ih h₁ (fun l hl => hls l (List.mem_cons_of_mem _ hl))
        (fun l hl => hls' l (List.mem_cons_of_mem _ hl)) hex hex'⟩

/-- `invalid()` is not taken back. -/
theorem invalid_run (r : Flash × List FlashAct) (h : m.invalid) : (m.run r).invalid := by
  obtain ⟨f, acts⟩ := r
  show (acts.foldl act { m with flash := f }).invalid
  have hfold : ∀ m : FlashMode, m.invalid → (acts.foldl act m).invalid := by
    induction acts with
    | nil => exact fun m hm => hm
    | cons a acts ih =>
      intro m hm
      refine ih (m.act a) ?_
      cases a <;> first | exact hm | rfl
  exact hfold _ h

theorem invalid_exec {ls : List FlashLabel} (h : m.invalid) (hex : machine.exec m ls = some t) :
    t.invalid := by
  induction ls generalizing m with
  | nil =>
    cases hex
    exact h
  | cons l ls ih =>
    obtain ⟨m', hst, hex⟩ := Option.bind_eq_some_iff.1 hex
    refine ih ?_ hex
    change m.step l = some m' at hst
    rw [step.eq_def] at hst
    split at hst
    · obtain ⟨-, hst⟩ := Option.ite_none_right_eq_some.1 hst
      cases hst
      exact invalid_run _ h
    · split at hst
      · cases hst
      · cases hst
        exact invalid_run _ h
      · split at hst
        · cases hst
        · cases hst
          exact invalid_run _ h
      · obtain ⟨-, hst⟩ := Option.ite_none_right_eq_some.1 hst
        cases hst
        exact invalid_run _ h
    · split at hst
      · cases hst
      · cases hst
        exact invalid_run _ h

/-- `flash_usb_out_completion` stores the header. -/
theorem usbOutCompletion_eq {f : Flash} {b₀ b₁ b₂ flags : Byte} {payload : List Byte}
    (hs : f.state = .idle) (hlen : payload.length ≤ 508) :
    ∃ f₁ : Flash, f.usbOutCompletion (b₀ :: b₁ :: b₂ :: flags :: payload) = f₁.startSrPoll ∧
      f₁.inCount = b₀.toNat + b₁.toNat * 0x100 + b₂.toNat * 0x10000 ∧
      f₁.flagSrPoll = Byte.has flags 0 ∧ f₁.flagWren = Byte.has flags 1 ∧
      f₁.outCount = payload.length ∧ f₁.buffer.slice 4 f₁.outCount = payload := by
  have hfit : (b₀ :: b₁ :: b₂ :: flags :: payload).length ≤ flashBufferSize := by
    simp only [List.length_cons, flashBufferSize]
    omega
  have hget : ∀ i, i < 4 → (f.buffer.write 0 (b₀ :: b₁ :: b₂ :: flags :: payload)).get i =
      (b₀ :: b₁ :: b₂ :: flags :: payload).getD i default :=
    fun i hi => Cells.get_write_zero hfit (by simp only [List.length_cons]; omega)
  rw [Flash.usbOutCompletion]
  dsimp only
  rw [if_pos hs, if_neg (by simp only [List.length_cons]; omega)]
  refine ⟨_, rfl, ?_, ?_, ?_, rfl, Cells.slice_write_drop hfit 4⟩
  · show ((f.buffer.write 0 _).get 0).toNat + ((f.buffer.write 0 _).get 1).toNat * 0x100 +
      ((f.buffer.write 0 _).get 2).toNat * 0x10000 = _
    rw [hget 0 (by decide), hget 1 (by decide), hget 2 (by decide)]
    rfl
  · show Byte.has ((f.buffer.write 0 _).get 3) 0 = _
    rw [hget 3 (by decide)]
    rfl
  · show Byte.has ((f.buffer.write 0 _).get 3) 1 = _
    rw [hget 3 (by decide)]
    rfl

/-- **One transaction.**  A flash that is idle receives an OUT transfer with a header and at most 508
bytes behind it, and the chip answers a poll with a last byte in which bit 0 is clear.  Then the
completions lead to an idle flash with the OUT endpoint armed; the log is the transaction that the
header asks for, with the bytes read cut into blocks of at most 512 for the host; and there is no
other order of completions, no idle state on the way, and no `invalid()`. -/
theorem transaction {b₀ b₁ b₂ flags ready : Byte}
    {payload busy status bytes cells : List Byte} (h : m.Idle) (hlen : payload.length ≤ 508)
    (hp : m.Polled (Byte.has flags 0) busy ready status)
    (hbytes : bytes.length = b₀.toNat + b₁.toNat * 0x100 + b₂.toNat * 0x10000)
    (hcells : m.cells = bytes ++ cells) :
    (∃ ls t, machine.exec m (.out (b₀ :: b₁ :: b₂ :: flags :: payload) :: ls) = some t ∧ t.Idle ∧
      t.log = m.log ++ transactionLog (Byte.has flags 0) (Byte.has flags 1) (busy ++ [ready]) payload
        bytes ∧
      t.invalid = m.invalid ∧ t.status = status ∧ t.cells = cells ∧
      ∀ ls' t', (∀ l ∈ ls', l.isOut = false) →
        machine.exec m (.out (b₀ :: b₁ :: b₂ :: flags :: payload) :: ls') = some t' →
        ls' <+: ls ∧ t'.invalid = m.invalid ∧ (t'.flash.state = .idle → ls' = ls)) ∧
    (blocks bytes).flatten = bytes ∧ (blocks bytes).length = (bytes.length + 511) / 512 ∧
      ∀ b ∈ blocks bytes, b.length ≤ 512 := by
  refine ⟨?_, flatten_blocks bytes, by rw [blocks, List.length_map, List.length_range],
    fun b hb => length_le_of_mem_blocks hb⟩
  obtain ⟨f₁, hf₁, hin, hpoll, hwren, hout, hpayload⟩ :=
    @usbOutCompletion_eq m.flash b₀ b₁ b₂ flags payload h.state hlen
  generalize hdata : b₀ :: b₁ :: b₂ :: flags :: payload = data at hf₁ ⊢
  have hlength : data.length ≤ flashBufferSize ∧ 4 ≤ data.length := by
    rw [← hdata]
    simp only [List.length_cons, flashBufferSize]
    omega
  -- the OUT transfer
  let m₁ : FlashMode := FlashMode.run { m with armed := false } f₁.startSrPoll
  have hst : machine.step m (.out data) = some m₁ := by
    show (if m.armed ∧ data.length ≤ flashBufferSize then _ else none) = _
    rw [if_pos ⟨h.armed, hlength.1⟩, hf₁]
  have hset : m₁.Settled :=
    Settled.startSrPoll (m := { m with armed := false }) ⟨rfl, h.dma, h.inn⟩ f₁
  have hexec : ∀ ls, machine.exec m (.out data :: ls) = machine.exec m₁ ls := by
    intro ls
    rw [Machine.exec, hst]
    rfl
  obtain ⟨ls, t, hls, hex, hidle, hlog, hstatus, hcells', hinvalid⟩ :=
    ends_startSrPoll (m := { m with armed := false }) (f := f₁) ⟨rfl, h.dma, h.inn⟩
      ⟨hin.trans hbytes.symm, hout, hpayload⟩ hcells
      (by rw [hpoll]; exact ⟨hp.polled, hp.skipped, hp.busy, hp.ready⟩)
  rw [hpoll, hwren] at hlog
  have hinv₁ : m₁.invalid = m.invalid := by
    show (FlashMode.run _ f₁.startSrPoll).invalid = _
    rw [Flash.startSrPoll, Flash.startWren, Flash.startWrite, Flash.startRead]
    split_ifs <;> rfl
  have hinv : t.invalid = m.invalid := hinvalid.trans hinv₁
  refine ⟨ls, t, (hexec ls).trans hex, hidle, hlog, hinv, hstatus, hcells', ?_⟩
  intro ls' t' hls' hex'
  rw [hexec] at hex'
  have hpre := hset.prefix_of_idle hls hls' hex hidle hex'
  refine ⟨hpre, ?_, fun hs => ?_⟩
  · rw [← hinv]
    obtain ⟨rest, rfl⟩ := hpre
    rw [Machine.exec_append, hex'] at hex
    by_cases hi : t'.invalid
    · rw [hi, invalid_exec hi hex]
    · have hi₁ : ¬ m₁.invalid := fun hi₁ => hi (invalid_exec hi₁ hex')
      rw [hinv, ← hinv₁, eq_false_of_ne_true hi, eq_false_of_ne_true hi₁]
  · have hidle' : t'.Idle := by
      have hnoOut : ∀ d, .out d ∈ ls' → 4 ≤ d.length := by
        intro d hd
        exact absurd (hls' _ hd) (by simp [FlashLabel.isOut])
      cases hset.exec hnoOut hex' with
      | idle h => exact h
      | dma h => exact absurd h.state (by rw [hs]; decide)
      | inn h => exact absurd (h.state.symm.trans hs) (by decide)
    have hpre' := hset.prefix_of_idle hls' hls hex' hidle' hex
    exact hpre.eq_of_length (Nat.le_antisymm hpre.length_le hpre'.length_le)

/-- A flash that has been initialized, with this chip. -/
def ready (status cells : List Byte) : FlashMode := init Flash.initial status cells

/-- Poll until the chip is ready, enable writing, send `0x9F`, and read two bytes. -/
def readRun : List FlashLabel :=
  [.out [2#8, 0#8, 0#8, 3#8, 0x9F#8], .dma, .dma, .dma, .dma, .dma, .dma, .inn]

theorem readyOrBusy_readRun :
    ∃ t, machine.exec (ready [1#8, 0#8] [7#8, 8#8]) readRun = some t ∧
      ((∀ ls' t', ls' <+: readRun → machine.exec (ready [1#8, 0#8] [7#8, 8#8]) ls' = some t' →
        t'.ReadyOrBusy) ↔ ∀ data, .out data ∈ readRun → 4 ≤ data.length) := by
  have h : (machine.exec (ready [1#8, 0#8] [7#8, 8#8]) readRun).isSome := by decide +kernel
  obtain ⟨t, ht⟩ := Option.isSome_iff_exists.1 h
  exact ⟨t, ht, readyOrBusy_iff ht⟩

/-- An OUT transfer of one byte: the flash is idle, and nothing is armed. -/
theorem not_readyOrBusy_short :
    ∃ t, machine.exec (ready [] []) [.out [0x9F#8]] = some t ∧ t.flash.state = .idle ∧
      t.armed = false ∧ t.outstanding = 0 ∧ ¬ t.ReadyOrBusy := by
  have h : ((machine.exec (ready [] []) [.out [0x9F#8]]).map
      fun t => (t.flash.state, t.armed, t.outstanding)) = some (.idle, false, 0) := by
    decide +kernel
  obtain ⟨t, ht, htriple⟩ := Option.map_eq_some_iff.1 h
  obtain ⟨hs, hrest⟩ := Prod.mk.inj htriple
  obtain ⟨harmed, hout⟩ := Prod.mk.inj hrest
  refine ⟨t, ht, hs, harmed, hout, fun hready => ?_⟩
  exact absurd (hready.ready hs) (by rw [harmed]; decide)

theorem transaction_read :
    ∃ ls t, machine.exec (ready [1#8, 0#8] [7#8, 8#8, 9#8])
        (.out [2#8, 0#8, 0#8, 3#8, 0x9F#8] :: ls) = some t ∧ t.Idle ∧ t.cells = [9#8] ∧
      t.log = [.deselect, .select, .sent [0x05#8], .status 1#8, .status 0#8, .deselect, .select,
        .sent [0x06#8], .deselect, .select, .sent [0x9F#8], .read [7#8, 8#8],
        .delivered [7#8, 8#8], .deselect] := by
  obtain ⟨⟨ls, t, hex, hidle, hlog, -, -, hcells, -⟩, -⟩ :=
    @transaction (ready [1#8, 0#8] [7#8, 8#8, 9#8]) 2#8 0#8 0#8 3#8 0#8 [0x9F#8] [1#8] []
      [7#8, 8#8] [9#8] ⟨rfl, rfl, rfl, rfl⟩ (by decide)
      ⟨fun _ => rfl, fun h => absurd h (by decide), by decide, by decide⟩ rfl rfl
  refine ⟨ls, t, hex, hidle, hcells, ?_⟩
  rw [hlog]
  decide +kernel

end FlashMode

end TesselFirmware
