import Mathlib.Algebra.Group.Nat.Defs
import TesselFirmware.Memory.Buffer
import TesselFirmware.Usb.Chip

/-!
# Programming the flash over USB (`scripts/flash.py`)

The script on the host, the firmware in flash mode and the chip.  The script is the list of what it
has to do with the chip: it sends an OUT transfer for the first of these orders as soon as the
firmware takes it, and waits for the answer if it asks for one.  The firmware reads from the chip
what the chip sends, and the chip and the script see what happens on the bus and at the IN endpoint.

* `Rig.writeTesselFlash_run` : there is one run of `write_tessel_flash`, which leaves the files in
  the flash and sends the chip no command that it cannot carry out, unless the last page of a file
  ends with a full packet;
* `Rig.read_run` : what `Flash.read` returns, and for which lengths it does not return.
-/

namespace TesselFirmware

/-- What the script does with the chip. -/
inductive Order
  /-- A transaction that reads nothing. -/
  | send (write : List Byte) (poll wren : Bool)
  /-- `Flash.check_id`. -/
  | checkId
  /-- `Flash.wait_complete`. -/
  | waitComplete
  /-- `Flash.read`. -/
  | read (addr length : ℕ)
  deriving DecidableEq

namespace Order

/-- `address`. -/
def address (addr : ℕ) : List Byte :=
  [BitVec.ofNat 8 (addr >>> 24), BitVec.ofNat 8 (addr >>> 16), BitVec.ofNat 8 (addr >>> 8),
    BitVec.ofNat 8 addr]

/-- The arguments of `Flash.transaction`. -/
def write : Order → List Byte
  | .send write _ _ => write
  | .checkId => [0x9F#8]
  | .waitComplete => [0x05#8]
  | .read addr _ => 0x13#8 :: address addr

def count : Order → ℕ
  | .send _ _ _ => 0
  | .checkId => 3
  | .waitComplete => 1
  | .read _ length => length

def poll : Order → Bool
  | .send _ poll _ => poll
  | _ => false

def enable : Order → Bool
  | .send _ _ wren => wren
  | _ => false

/-- The fourth byte of the header. -/
def flags (o : Order) : Byte :=
  (if o.poll then 0x01#8 else 0x00#8) ||| (if o.enable then 0x02#8 else 0x00#8)

/-- The OUT transfer of `Flash.transaction`, unless it raises a `ValueError`. -/
def packet (o : Order) : Option (List Byte) :=
  if 500 < o.write.length ∨ 2 ^ 24 ≤ o.count then none
  else some (BitVec.ofNat 8 o.count :: BitVec.ofNat 8 (o.count >>> 8) ::
    BitVec.ofNat 8 (o.count >>> 16) :: o.flags :: o.write)

/-- `Flash.wren`. -/
def wren : Order := .send [0x06#8] false false

/-- `Flash.chip_erase`. -/
def chipErase : List Order := [wren, .send [0x60#8] false false, .waitComplete]

/-- `Flash.write_page`. -/
def writePage (addr : ℕ) (data : List Byte) : Order :=
  .send (0x12#8 :: address addr ++ data) true true

/-- `PAGE`. -/
def pageSize : ℕ := 256

/-- `Flash.write`. -/
def writeData (addr : ℕ) (data : List Byte) : List Order :=
  (Buffer.chunks pageSize data).zipIdx.map (fun (p, i) => writePage (addr + i * pageSize) p) ++
    [.waitComplete]

/-- `factory`. -/
def factory (mac1 mac2 : List Byte) : List Byte :=
  [0x20#8, 0x76#8, 0x03#8, 0x01#8] ++ mac1 ++ List.replicate 30 0xFF#8 ++ mac2

/-- `Flash.write_tessel_flash`, with the contents of the two files. -/
def writeTesselFlash (uboot squashfs mac1 mac2 : List Byte) : List Order :=
  [.checkId] ++ chipErase ++ writeData 0 uboot ++ writeData 0x40000 (factory mac1 mac2) ++
    writeData 0x50000 squashfs

end Order

/-- The script. -/
structure Script where
  todo : List Order
  /-- What has come of the answer that the script waits for. -/
  reading : Option (List Byte)
  /-- What `Flash.read` has returned. -/
  results : List (List Byte)
  /-- `check_id` has raised an `AssertionError`. -/
  failed : Bool

namespace Script

variable (s : Script)

/-- A transaction has returned. -/
def finish (s : Script) (answer : List Byte) : Order → List Order → Script
  | .send _ _ _, rest => { s with todo := rest, reading := none }
  | .checkId, rest =>
    if answer = [0x01#8, 0x02#8, 0x19#8] then { s with todo := rest, reading := none }
    else { s with failed := true, reading := none }
  | .waitComplete, rest =>
    -- the loop of `wait_complete`
    if Byte.has (answer.headD 0#8) 0 then { s with reading := none }
    else { s with todo := rest, reading := none }
  | .read _ _, rest => { s with todo := rest, reading := none, results := s.results ++ [answer] }

/-- What the script writes to the OUT endpoint next. -/
def out : Option (List Byte) :=
  if s.failed ∨ s.reading.isSome then none
  else s.todo.head?.bind Order.packet

/-- `self.ep_out.write` has returned. -/
def sent : Script :=
  match s.todo with
  | [] => s
  | o :: rest => if o.count = 0 then s.finish [] o rest else { s with reading := some [] }

/-- An IN transfer for `self.ep_in.read`, which returns when a packet is short or when it has as
many bytes as it asks for. -/
def receive (data : List Byte) : Option Script :=
  match s.reading, s.todo with
  | some got, o :: rest =>
    if data.length % 64 ≠ 0 ∨ max o.count 512 ≤ (got ++ data).length then
      some (s.finish (got ++ data) o rest)
    else some { s with reading := some (got ++ data) }
  | _, _ => none

end Script

/-- What is outside of the coprocessor. -/
structure Outside where
  chip : Chip
  script : Script

namespace Outside

variable (x : Outside)

/-- The chip and the script see what happens; what is read is what the chip sends, and an IN
transfer is complete only if the script reads. -/
def observe (x : Outside) : FlashEvent → Option Outside
  | .status b => if b = x.chip.output then some { x with chip := x.chip.clock } else none
  | .read data =>
    if data = x.chip.outputs data.length then some { x with chip := x.chip.clocks data.length }
    else none
  | .delivered data => (x.script.receive data).map fun script => { x with script := script }
  | e => some { x with chip := x.chip.event e }

/-- An OUT transfer is complete for the firmware when a packet is short or `flash_buffer` is full;
the script does not send an empty packet after a full one. -/
def complete (data : List Byte) : Prop := data.length % 64 ≠ 0 ∨ data.length = flashBufferSize

instance (data : List Byte) : Decidable (complete data) := by unfold complete; infer_instance

/-- The script sends the OUT transfer.  The firmware does not hear of one that is not complete. -/
def send (data : List Byte) : Option Outside :=
  if x.script.out = some data ∧ complete data then some { x with script := x.script.sent } else none

end Outside

/-- The firmware in flash mode, the chip and the script. -/
structure Rig where
  mode : FlashMode
  outside : Outside

namespace Rig

/-- The chip sends what it is asked for. -/
def supplied (r : Rig) : FlashMode :=
  { r.mode with
    status := [r.outside.chip.output]
    cells :=
      match r.mode.dma with
      | some (.read len) => r.outside.chip.outputs len
      | _ => [] }

/-- An OUT transfer comes from the script. -/
def offered (r : Rig) : FlashLabel → Option Outside
  | .out data => r.outside.send data
  | .dma | .inn => some r.outside

def step (r : Rig) (l : FlashLabel) : Option Rig :=
  (r.offered l).bind fun x =>
    (r.supplied.step l).bind fun m =>
      ((m.log.drop r.mode.log.length).foldlM Outside.observe x).map (Rig.mk m)

def machine : Machine Rig FlashLabel := ⟨step⟩

end Rig

/-! ### Flash mode with the chip -/

namespace FlashMode

/-- The same, with other answers of the chip to come. -/
def feed (m : FlashMode) (status cells : List Byte) : FlashMode :=
  { m with status := status, cells := cells }

/-- What an act does on the bus. -/
def eventOf : FlashAct → Option FlashEvent
  | .select => some .select
  | .deselect => some .deselect
  | _ => none

variable {m m' : FlashMode} {status cells : List Byte}

theorem run_feed (status cells : List Byte) (r : Flash × List FlashAct) :
    (m.feed status cells).run r = (m.run r).feed status cells := by
  obtain ⟨f, acts⟩ := r
  show acts.foldl act ({ m with flash := f }.feed status cells) = _
  have hfold : ∀ m : FlashMode, acts.foldl act (m.feed status cells) =
      (acts.foldl act m).feed status cells := by
    induction acts with
    | nil => exact fun m => rfl
    | cons a acts ih =>
      intro m
      have hact : (m.feed status cells).act a = (m.act a).feed status cells := by cases a <;> rfl
      rw [List.foldl_cons, hact, ih]
      rfl
  exact hfold _

theorem log_run (r : Flash × List FlashAct) :
    (m.run r).log = m.log ++ r.2.filterMap eventOf := by
  obtain ⟨f, acts⟩ := r
  show (acts.foldl act { m with flash := f }).log = m.log ++ acts.filterMap eventOf
  have hfold : ∀ m : FlashMode, (acts.foldl act m).log = m.log ++ acts.filterMap eventOf := by
    induction acts with
    | nil => exact fun m => (List.append_nil _).symm
    | cons a acts ih =>
      intro m
      have hact : (m.act a).log = m.log ++ (eventOf a).toList := by
        cases a <;> first | rfl | exact (List.append_nil _).symm
      rw [List.foldl_cons, ih, hact, List.filterMap_cons, List.append_assoc]
      cases eventOf a <;> rfl
  exact hfold _

theorem log_dmaDone (t : FlashTransfer) (data : List Byte) (e : FlashEvent) :
    (m.dmaDone t data e).log =
      m.log ++ e :: (m.flash.receive data t).dmaRxCompletion.2.filterMap eventOf := by
  rw [dmaDone, log_run]
  show (m.log ++ [e]) ++ _ = _
  rw [List.append_assoc]
  rfl

theorem dmaDone_feed (t : FlashTransfer) (data : List Byte) (e : FlashEvent) :
    (m.feed status cells).dmaDone t data e = (m.dmaDone t data e).feed status cells := by
  rw [dmaDone, dmaDone, ← run_feed]
  rfl

end FlashMode

namespace Rig

open FlashMode (feed)

variable {m m' : FlashMode} {x x' : Outside} {status cells : List Byte}

theorem supplied_feed (m : FlashMode) (x : Outside) (status cells : List Byte) :
    supplied ⟨m.feed status cells, x⟩ = m.feed [x.chip.output]
      (match m.dma with
        | some (.read len) => x.chip.outputs len
        | _ => []) := rfl

theorem step_eq (r : Rig) {l : FlashLabel} (hl : l.isOut = false) :
    machine.step r l = (r.supplied.step l).bind fun m =>
      ((m.log.drop r.mode.log.length).foldlM Outside.observe r.outside).map (Rig.mk m) := by
  cases l with
  | out => cases hl
  | dma => rfl
  | inn => rfl

/-- A transfer is complete, with what has been received. -/
theorem step_of_supplied {l : FlashLabel} (hl : l.isOut = false) (status' cells' : List Byte)
    (hst : (supplied ⟨m.feed status cells, x⟩).step l = some (m'.feed status' cells'))
    (hx : (m'.log.drop m.log.length).foldlM Outside.observe x = some x') :
    ∃ status' cells', machine.step ⟨m.feed status cells, x⟩ l =
      some ⟨m'.feed status' cells', x'⟩ := by
  refine ⟨status', cells', ?_⟩
  rw [step_eq _ hl, hst, Option.bind_some]
  show ((m'.log.drop m.log.length).foldlM Outside.observe x).map _ = _
  rw [hx]
  rfl

/-- **A completion** of flash mode, if the chip and the script agree with what it has assumed of
them. -/
theorem step_of_step (status cells : List Byte) {l : FlashLabel} (hl : l.isOut = false)
    (hst : m.step l = some m')
    (hx : (m'.log.drop m.log.length).foldlM Outside.observe x = some x') :
    ∃ status' cells', machine.step ⟨m.feed status cells, x⟩ l =
      some ⟨m'.feed status' cells', x'⟩ := by
  -- what the chip sends is what has been assumed
  have hfirst (m₁ : FlashMode) {t : FlashTransfer} {data : List Byte} {e : FlashEvent}
      (hm : m₁.log = m.log)
      (hx : ((m₁.dmaDone t data e).log.drop m.log.length).foldlM Outside.observe x = some x') :
      ∃ x₁, x.observe e = some x₁ := by
    rw [FlashMode.log_dmaDone, hm, List.drop_left, List.foldlM_cons] at hx
    obtain ⟨x₁, hx₁, -⟩ := Option.bind_eq_some_iff.1 hx
    exact ⟨x₁, hx₁⟩
  cases l with
  | out => cases hl
  | dma =>
    rw [FlashMode.step] at hst
    split at hst
    next => cases hst
    next data hdma =>
      obtain rfl := Option.some.inj hst
      refine step_of_supplied rfl [x.chip.output] [] ?_ hx
      rw [supplied_feed, ← FlashMode.dmaDone_feed, FlashMode.step]
      simp only [feed, hdma]
    next hdma =>
      split at hst
      next => cases hst
      next b rest hstatus =>
        obtain rfl := Option.some.inj hst
        obtain ⟨x₁, hx₁⟩ := hfirst { m with status := rest } rfl hx
        obtain ⟨rfl, -⟩ := Option.ite_none_right_eq_some.1 hx₁
        refine step_of_supplied rfl [] [] ?_ hx
        rw [supplied_feed, ← FlashMode.dmaDone_feed, FlashMode.step]
        simp only [feed, hdma]
    next len hdma =>
      obtain ⟨hlen, hst⟩ := Option.ite_none_right_eq_some.1 hst
      obtain rfl := Option.some.inj hst
      obtain ⟨x₁, hx₁⟩ := hfirst { m with cells := m.cells.drop len } rfl hx
      obtain ⟨hcells, -⟩ := Option.ite_none_right_eq_some.1 hx₁
      rw [List.length_take, Nat.min_eq_left hlen] at hcells
      have hall : (x.chip.outputs len).take len = x.chip.outputs len :=
        List.take_of_length_le (Nat.le_of_eq (Chip.length_outputs _ _))
      refine step_of_supplied rfl [x.chip.output] ((x.chip.outputs len).drop len) ?_ hx
      rw [supplied_feed, ← FlashMode.dmaDone_feed, FlashMode.step]
      simp only [feed, hdma, Chip.length_outputs, Nat.le_refl, if_true, hall, hcells]
  | inn =>
    rw [FlashMode.step] at hst
    split at hst
    next => cases hst
    next data hinn =>
      obtain rfl := Option.some.inj hst
      refine step_of_supplied rfl [x.chip.output] (supplied ⟨m, x⟩).cells ?_ hx
      rw [supplied_feed, ← FlashMode.run_feed, FlashMode.step]
      simp only [feed, hinn]
      rfl

theorem log_step {l : FlashLabel} (hst : m.step l = some m') : m.log <+: m'.log := by
  cases l with
  | out data =>
    obtain ⟨-, hst⟩ := Option.ite_none_right_eq_some.1 hst
    obtain rfl := Option.some.inj hst
    rw [FlashMode.log_run]
    exact List.prefix_append _ _
  | dma =>
    rw [FlashMode.step] at hst
    split at hst
    next => cases hst
    next data _ =>
      obtain rfl := Option.some.inj hst
      rw [FlashMode.log_dmaDone]
      exact List.prefix_append _ _
    next =>
      split at hst
      next => cases hst
      next b rest _ =>
        obtain rfl := Option.some.inj hst
        rw [FlashMode.log_dmaDone]
        exact List.prefix_append _ _
    next len _ =>
      obtain ⟨-, hst⟩ := Option.ite_none_right_eq_some.1 hst
      obtain rfl := Option.some.inj hst
      rw [FlashMode.log_dmaDone]
      exact List.prefix_append _ _
  | inn =>
    rw [FlashMode.step] at hst
    split at hst
    next => cases hst
    next data _ =>
      obtain rfl := Option.some.inj hst
      rw [FlashMode.log_run]
      exact (List.prefix_append _ _).trans (List.prefix_append _ _)

theorem log_exec {ls : List FlashLabel} (hex : FlashMode.machine.exec m ls = some m') :
    m.log <+: m'.log := by
  induction ls generalizing m with
  | nil =>
    cases hex
    exact List.prefix_rfl
  | cons l ls ih =>
    obtain ⟨m₁, hst, hex⟩ := Option.bind_eq_some_iff.1 hex
    exact (log_step hst).trans (ih hex)

/-- **The completions** of flash mode, one after the other. -/
theorem exec_of_exec (status cells : List Byte) {ls : List FlashLabel}
    (hls : ∀ l ∈ ls, l.isOut = false) (hex : FlashMode.machine.exec m ls = some m')
    {events : List FlashEvent} (hlog : m'.log = m.log ++ events)
    (hx : events.foldlM Outside.observe x = some x') :
    ∃ status' cells', machine.exec ⟨m.feed status cells, x⟩ ls =
      some ⟨m'.feed status' cells', x'⟩ := by
  induction ls generalizing m x events status cells with
  | nil =>
    obtain rfl := Option.some.inj hex
    obtain rfl : events = [] := List.append_right_eq_self.1 hlog.symm
    cases hx
    exact ⟨status, cells, rfl⟩
  | cons l ls ih =>
    obtain ⟨m₁, hst, hex⟩ := Option.bind_eq_some_iff.1 hex
    obtain ⟨first, hfirst⟩ := log_step hst
    obtain ⟨rest, hrest⟩ := log_exec hex
    -- the events of this completion come first
    obtain rfl : events = first ++ rest := by
      rw [← hrest, ← hfirst, List.append_assoc] at hlog
      exact (List.append_cancel_left hlog).symm
    rw [List.foldlM_append] at hx
    obtain ⟨x₁, hx₁, hx⟩ := Option.bind_eq_some_iff.1 hx
    obtain ⟨status₁, cells₁, hstep⟩ := step_of_step status cells (hls l List.mem_cons_self) hst
      (by rw [← hfirst, List.drop_left]; exact hx₁)
    obtain ⟨status', cells', hexec⟩ := ih status₁ cells₁
      (fun l hl => hls l (List.mem_cons_of_mem _ hl)) hex hrest.symm hx
    exact ⟨status', cells', by rw [Machine.exec, hstep]; exact hexec⟩

end Rig

/-! ### What the chip and the script see of a transaction -/

namespace Outside

open FlashMode (blocks)

variable {x x' : Outside} {script : Script} {payload bytes : List Byte} {n : ℕ}

theorem observe_outputs (x : Outside) (n : ℕ) :
    ((x.chip.outputs n).map FlashEvent.status).foldlM observe x =
      some { x with chip := x.chip.clocks n } := by
  induction n generalizing x with
  | zero => rfl
  | succ n ih =>
    rw [Chip.outputs, List.map_cons, List.foldlM_cons]
    show (if x.chip.output = x.chip.output then _ else none) >>= _ = _
    rw [if_pos rfl]
    exact ih { x with chip := x.chip.clock }

/-- The status register is polled until the busy bit is clear. -/
theorem observe_poll (x : Outside) :
    ([FlashEvent.select, .sent [0x05#8]] ++
      (x.chip.polling.outputs (x.chip.busy + 1)).map FlashEvent.status ++
        [FlashEvent.deselect]).foldlM observe x =
      some { x with chip := x.chip.settle } := by
  rw [List.foldlM_append, List.foldlM_append]
  have hstart : ([.select, .sent [0x05#8]] : List FlashEvent).foldlM observe x =
      some { x with chip := x.chip.polling } := rfl
  have hpoll := observe_outputs { x with chip := x.chip.polling } (x.chip.busy + 1)
  rw [hstart, Option.bind_eq_bind, Option.bind_some, hpoll, Option.bind_some]
  show some { x with chip := (x.chip.polling.clocks (x.chip.busy + 1)).deselect } = _
  rw [Chip.deselect_polling]

/-- The write enable command. -/
theorem observe_enable (x : Outside) :
    ([.select, .sent [0x06#8], .deselect] : List FlashEvent).foldlM observe x =
      some { x with chip := x.chip.command [0x06#8] 0 } := rfl

/-- What is read is sent to the script block by block. -/
theorem observe_blocks (hbytes : bytes = x.chip.outputs bytes.length)
    (hscript : (blocks bytes).foldlM Script.receive x.script = some script) :
    ((blocks bytes).flatMap fun b => [.read b, .delivered b]).foldlM observe x =
      some ⟨x.chip.clocks bytes.length, script⟩ := by
  induction hn : bytes.length using Nat.strongRecOn generalizing bytes x with
  | ind n ih =>
    subst hn
    by_cases hnil : bytes = []
    · subst hnil
      rw [FlashMode.blocks_nil] at hscript ⊢
      cases hscript
      rfl
    have hpos := List.length_pos_iff.2 hnil
    have htake : (bytes.take 512).length = min 512 bytes.length := List.length_take
    have hdrop : (bytes.drop 512).length = bytes.length - 512 := List.length_drop
    have hsum : bytes.length = (bytes.take 512).length + (bytes.drop 512).length := by omega
    -- the first block and the others are what the chip sends
    have hsplit : bytes.take 512 ++ bytes.drop 512 = x.chip.outputs (bytes.take 512).length ++
        (x.chip.clocks (bytes.take 512).length).outputs (bytes.drop 512).length := by
      rw [← Chip.outputs_add, ← hsum, List.take_append_drop]
      exact hbytes
    obtain ⟨hfirst, hrest⟩ := List.append_inj hsplit (Chip.length_outputs _ _).symm
    rw [FlashMode.blocks_of_ne_nil hnil, List.foldlM_cons] at hscript
    obtain ⟨script₁, hreceive, hscript⟩ := Option.bind_eq_some_iff.1 hscript
    rw [FlashMode.blocks_of_ne_nil hnil, List.flatMap_cons, List.foldlM_append]
    have hone : ([.read (bytes.take 512), .delivered (bytes.take 512)] : List FlashEvent).foldlM
        observe x = some ⟨x.chip.clocks (bytes.take 512).length, script₁⟩ := by
      rw [List.foldlM_cons]
      show (if bytes.take 512 = x.chip.outputs (bytes.take 512).length then _ else none) >>= _ = _
      rw [if_pos hfirst, Option.bind_eq_bind, Option.bind_some, List.foldlM_cons]
      show ((x.script.receive (bytes.take 512)).map _).bind _ = _
      rw [hreceive]
      rfl
    have hlast := ih (bytes.drop 512).length (by omega)
      (x := ⟨x.chip.clocks (bytes.take 512).length, script₁⟩) hrest hscript rfl
    rw [hone]
    refine hlast.trans ?_
    rw [hsum, Chip.clocks_add]

/-- The chip gets a command and sends its answer. -/
theorem observe_command
    (hbytes : bytes = ({ x.chip with input := payload, offset := 0 } : Chip).outputs bytes.length)
    (hscript : (blocks bytes).foldlM Script.receive x.script = some script) :
    (FlashMode.writeLog payload bytes).foldlM observe x =
      some ⟨x.chip.command payload bytes.length, script⟩ := by
  have hstart : ([.select] ++ if payload = [] then [] else [.sent payload] :
      List FlashEvent).foldlM observe x =
        some { x with chip := { x.chip with input := payload, offset := 0 } } := by
    split_ifs with hnil
    · rw [hnil]
      rfl
    · rfl
  have hread := observe_blocks
    (x := { x with chip := { x.chip with input := payload, offset := 0 } }) hbytes hscript
  rw [FlashMode.writeLog, List.foldlM_append, List.foldlM_append, hstart, Option.bind_eq_bind,
    Option.bind_some, hread]
  rfl

/-- **A transaction**, as the chip and the script see it. -/
theorem observe_transaction {poll enable : Bool}
    (hbytes : bytes =
      ({ x.chip.prepared poll enable with input := payload, offset := 0 } : Chip).outputs
        bytes.length)
    (hscript : (blocks bytes).foldlM Script.receive x.script = some script) :
    (FlashMode.transactionLog poll enable (x.chip.polling.outputs (x.chip.busy + 1)) payload
      bytes).foldlM observe x =
        some ⟨(x.chip.prepared poll enable).command payload bytes.length, script⟩ := by
  have hlog : FlashMode.transactionLog poll enable (x.chip.polling.outputs (x.chip.busy + 1))
      payload bytes = (if poll then [.select, .sent [0x05#8]] ++
        (x.chip.polling.outputs (x.chip.busy + 1)).map .status ++ [.deselect] else []) ++
        ((if enable then [.select, .sent [0x06#8], .deselect] else []) ++
          FlashMode.writeLog payload bytes) := by
    simp only [FlashMode.transactionLog, FlashMode.writeLog, List.append_assoc]
  have hpoll : (if poll then [FlashEvent.select, .sent [0x05#8]] ++
      (x.chip.polling.outputs (x.chip.busy + 1)).map .status ++ [.deselect] else []).foldlM
        observe x = some { x with chip := if poll then x.chip.settle else x.chip } := by
    cases poll with
    | false => rfl
    | true => exact observe_poll x
  have henable (x : Outside) :
      (if enable then [FlashEvent.select, .sent [0x06#8], .deselect] else []).foldlM observe x =
        some { x with chip := if enable then x.chip.command [0x06#8] 0 else x.chip } := by
    cases enable with
    | false => rfl
    | true => exact observe_enable x
  rw [hlog, List.foldlM_append, hpoll, Option.bind_eq_bind, Option.bind_some, List.foldlM_append,
    henable, Option.bind_eq_bind, Option.bind_some]
  exact observe_command (x := ⟨x.chip.prepared poll enable, x.script⟩) hbytes hscript

end Outside

namespace Order

theorem has_flags (o : Order) : Byte.has o.flags 0 = o.poll ∧ Byte.has o.flags 1 = o.enable := by
  unfold flags
  cases o.poll <;> cases o.enable <;> decide

/-- The number in the header. -/
theorem count_eq {n : ℕ} (h : n < 2 ^ 24) :
    n = (BitVec.ofNat 8 n).toNat + (BitVec.ofNat 8 (n >>> 8)).toNat * 0x100 +
      (BitVec.ofNat 8 (n >>> 16)).toNat * 0x10000 := by
  simp only [BitVec.toNat_ofNat, Nat.shiftRight_eq_div_pow]
  omega

end Order

namespace Rig

variable {r : Rig} {o : Order} {rest : List Order} {data : List Byte} {script : Script}

/-- The script is about to send an order. -/
structure Sends (s : Script) (o : Order) (rest : List Order) (data : List Byte) : Prop where
  todo : s.todo = o :: rest
  reading : s.reading = none
  failed : s.failed = false
  packet : o.packet = some data

theorem Sends.out {s : Script} (h : Sends s o rest data) : s.out = some data := by
  unfold Script.out
  rw [h.failed, h.reading, h.todo]
  exact h.packet

/-- An OUT transfer. -/
theorem step_out {m₁ : FlashMode} {status cells : List Byte} {x x' : Outside}
    (hsend : r.outside.send data = some x)
    (hst : (r.mode.feed status cells).step (.out data) = some m₁)
    (hx : (m₁.log.drop r.mode.log.length).foldlM Outside.observe x = some x') :
    ∃ status' cells', machine.step r (.out data) = some ⟨m₁.feed status' cells', x'⟩ := by
  obtain ⟨hfit, hst⟩ := Option.ite_none_right_eq_some.1 hst
  obtain rfl := Option.some.inj hst
  have hrun := FlashMode.run_feed (m := { r.mode.feed status cells with armed := false })
    r.supplied.status r.supplied.cells (r.mode.flash.usbOutCompletion data)
  have hsupplied : r.supplied.step (.out data) = some
      ((FlashMode.run { r.mode.feed status cells with armed := false }
        (r.mode.flash.usbOutCompletion data)).feed r.supplied.status r.supplied.cells) := by
    show (if r.mode.armed ∧ data.length ≤ flashBufferSize then _ else none) = _
    rw [if_pos (show r.mode.armed ∧ data.length ≤ flashBufferSize from hfit)]
    exact congrArg some hrun
  refine ⟨r.supplied.status, r.supplied.cells, ?_⟩
  show (r.outside.send data).bind _ = _
  rw [hsend, Option.bind_some, hsupplied, Option.bind_some]
  show (List.foldlM Outside.observe x (List.drop r.mode.log.length
    (FlashMode.run { r.mode.feed status cells with armed := false }
      (r.mode.flash.usbOutCompletion data)).log)).map _ = _
  exact (congrArg (Option.map _) hx)

/-- **An order is carried out**: the firmware takes the OUT transfer, and its completions lead to an
idle flash again. -/
theorem exec_order (h : r.mode.Idle) (hs : Sends r.outside.script o rest data)
    (hshort : (o.write.length + 4) % 64 ≠ 0) {chip : Chip}
    (hchip : r.outside.chip.prepared o.poll o.enable = chip) (bytes : List Byte)
    (hbytes : bytes = ({ chip with input := o.write, offset := 0 } : Chip).outputs o.count)
    (hscript : (FlashMode.blocks bytes).foldlM Script.receive r.outside.script.sent = some script) :
    ∃ ls m, (∀ l ∈ ls, l.isOut = false) ∧
      machine.exec r (.out data :: ls) = some ⟨m, ⟨chip.command o.write o.count, script⟩⟩ ∧
      m.Idle := by
  subst hchip
  have hlength : bytes.length = o.count := by rw [hbytes, Chip.length_outputs]
  have hpacket := hs.packet
  unfold Order.packet at hpacket
  split_ifs at hpacket with hlarge
  obtain rfl := Option.some.inj hpacket
  obtain ⟨hflags₀, hflags₁⟩ := o.has_flags
  -- flash mode with the answers that the chip is going to give
  generalize hc : r.outside.chip = c at hbytes ⊢
  generalize hm : r.mode.feed (if o.poll then c.polling.outputs (c.busy + 1) else []) bytes = m
  have hidle : m.Idle := by
    rw [← hm]
    exact ⟨h.state, h.armed, h.dma, h.inn⟩
  obtain ⟨f, hf, hin, hpoll, hwren, hout, hpayload⟩ :=
    @FlashMode.usbOutCompletion_eq m.flash (BitVec.ofNat 8 o.count) (BitVec.ofNat 8 (o.count >>> 8))
      (BitVec.ofNat 8 (o.count >>> 16)) o.flags o.write hidle.state (by omega)
  rw [hflags₀] at hpoll
  rw [hflags₁] at hwren
  generalize hdata : BitVec.ofNat 8 o.count :: BitVec.ofNat 8 (o.count >>> 8) ::
    BitVec.ofNat 8 (o.count >>> 16) :: o.flags :: o.write = data at hf hs ⊢
  have hfit : data.length ≤ flashBufferSize := by
    rw [← hdata]
    simp only [List.length_cons, flashBufferSize]
    omega
  have hcount : f.inCount = bytes.length := by
    rw [hin, hlength]
    exact (Order.count_eq (by omega)).symm
  have hpolled : ({ m with armed := false } : FlashMode).Polled f.flagSrPoll
      (c.polling.outputs c.busy) (c.polling.clocks c.busy).output [] := by
    refine ⟨fun hp => ?_, fun hp => ?_, fun b hb => Chip.has_of_mem_outputs hb (Nat.le_refl _), ?_⟩
    · rw [hpoll] at hp
      rw [← hm]
      show (if o.poll then _ else _) = _
      rw [if_pos hp, Chip.outputs_add]
      rfl
    · rw [hpoll] at hp
      rw [← hm]
      show (if o.poll then _ else _) = _
      rw [hp]
      rfl
    · rw [Chip.output_polling, Nat.sub_self]
      rfl
  have hcells : m.cells = bytes ++ [] := by
    rw [← hm]
    exact (List.append_nil _).symm
  obtain ⟨ls, t, hls, hex, htidle, hlog, -⟩ :=
    FlashMode.ends_startSrPoll (m := { m with armed := false }) (f := f)
      ⟨rfl, hidle.dma, hidle.inn⟩ ⟨hcount, hout, hpayload⟩ hcells hpolled
  have hstep : m.step (.out data) =
      some (FlashMode.run { m with armed := false } f.startSrPoll) := by
    show (if m.armed ∧ data.length ≤ flashBufferSize then _ else none) = _
    rw [if_pos ⟨hidle.armed, hfit⟩, hf]
  generalize FlashMode.run { m with armed := false } f.startSrPoll = m₁ at hex hstep
  obtain ⟨first, hfirst⟩ := log_step hstep
  obtain ⟨last, hlast⟩ := log_exec hex
  -- the chip and the script see the transaction
  have hready : c.polling.outputs c.busy ++ [(c.polling.clocks c.busy).output] =
      c.polling.outputs (c.busy + 1) := (Chip.outputs_add _ _ 1).symm
  have hevents : first ++ last = FlashMode.transactionLog o.poll o.enable
      (c.polling.outputs (c.busy + 1)) o.write bytes := by
    rw [hpoll, hwren, hready, ← hlast, ← hfirst, List.append_assoc] at hlog
    exact List.append_cancel_left hlog
  have hobserve := Outside.observe_transaction (x := ⟨c, r.outside.script.sent⟩)
    (by rw [hlength]; exact hbytes) hscript
  rw [← hevents, List.foldlM_append] at hobserve
  obtain ⟨x₁, hx₁, hx₂⟩ := Option.bind_eq_some_iff.1 hobserve
  have hcomplete : Outside.complete data := by
    rw [← hdata]
    exact .inl hshort
  have hsend : r.outside.send data = some ⟨c, r.outside.script.sent⟩ := by
    unfold Outside.send
    rw [if_pos ⟨hs.out, hcomplete⟩, hc]
  have hlog₀ : m.log = r.mode.log := by
    rw [← hm]
    rfl
  obtain ⟨status₁, cells₁, hfirst'⟩ := step_out hsend (hm ▸ hstep)
    (by rw [← hlog₀, ← hfirst, List.drop_left]; exact hx₁)
  obtain ⟨status₂, cells₂, hrest⟩ := exec_of_exec status₁ cells₁ hls hex hlast.symm hx₂
  refine ⟨ls, t.feed status₂ cells₂, hls, ?_, htidle.state, htidle.armed, htidle.dma, htidle.inn⟩
  rw [Machine.exec, hfirst', Option.bind_some, hrest, hlength]

/-! ### What the orders do -/

/-- The firmware is idle, and this is outside of it. -/
def Stands (r : Rig) (c : Chip) (todo : List Order) (results : List (List Byte)) : Prop :=
  r.mode.Idle ∧ r.outside = ⟨c, ⟨todo, none, results, false⟩⟩

/-- From the first chip and orders, a run leads to the others. -/
def Does (c : Chip) (todo : List Order) (c' : Chip) (todo' : List Order) : Prop :=
  ∀ r results, Stands r c todo results →
    ∃ ls r', machine.exec r ls = some r' ∧ Stands r' c' todo' results

variable {c c' c₁ : Chip} {todo todo' todo₁ : List Order} {write : List Byte} {addr : ℕ}
  {kind : ChipKind} {m : Nor 8}

theorem Does.trans (h : Does c todo c₁ todo₁) (h' : Does c₁ todo₁ c' todo') :
    Does c todo c' todo' := by
  intro r results hr
  obtain ⟨ls, r₁, hex, hr₁⟩ := h r results hr
  obtain ⟨ls', r', hex', hr'⟩ := h' r₁ results hr₁
  refine ⟨ls ++ ls', r', ?_, hr'⟩
  rw [Machine.exec_append, hex, Option.bind_some, hex']

theorem does_send (c : Chip) (poll enable : Bool) (rest : List Order) (hlen : write.length ≤ 500)
    (hshort : (write.length + 4) % 64 ≠ 0) :
    Does c (.send write poll enable :: rest) ((c.prepared poll enable).command write 0) rest := by
  intro r results ⟨hidle, hr⟩
  have hlegal : ¬ (500 < write.length ∨ 2 ^ 24 ≤ 0) := by omega
  have hsends : Sends r.outside.script (.send write poll enable) rest _ :=
    ⟨by rw [hr], by rw [hr], by rw [hr], if_neg hlegal⟩
  obtain ⟨ls, m, -, hex, hm⟩ := exec_order hidle hsends hshort rfl [] rfl rfl
  refine ⟨_, _, hex, hm, ?_⟩
  rw [hr]
  rfl

/-- An answer that comes in one block which is not full. -/
theorem does_ask {n : ℕ} (bytes : List Byte) (hlegal : ¬ (500 < o.write.length ∨ 2 ^ 24 ≤ n))
    (hshort : (o.write.length + 4) % 64 ≠ 0)
    (hn : o.count = n) (hsmall : 0 < n ∧ n < 64) (hpoll : o.poll = false)
    (henable : o.enable = false)
    (hbytes : bytes = ({ c with input := o.write, offset := 0 } : Chip).outputs n)
    {results : List (List Byte)} (hr : Stands r c (o :: rest) results) :
    ∃ ls r', machine.exec r ls = some r' ∧ r'.mode.Idle ∧
      r'.outside = ⟨c.command o.write n,
        Script.finish ⟨o :: rest, some [], results, false⟩ bytes o rest⟩ := by
  obtain ⟨hidle, hr⟩ := hr
  subst hn
  have hlength : bytes.length = o.count := by rw [hbytes, Chip.length_outputs]
  have hsends : Sends r.outside.script o rest _ :=
    ⟨by rw [hr], by rw [hr], by rw [hr], if_neg hlegal⟩
  have hne : bytes ≠ [] := by
    rw [← List.length_pos_iff]
    omega
  have hblocks : FlashMode.blocks bytes = [bytes] := by
    rw [FlashMode.blocks_of_ne_nil hne, List.take_of_length_le (by omega),
      List.drop_eq_nil_of_le (by omega), FlashMode.blocks_nil]
  have hscript : (FlashMode.blocks bytes).foldlM Script.receive r.outside.script.sent =
      some (Script.finish ⟨o :: rest, some [], results, false⟩ bytes o rest) := by
    have hsent : r.outside.script.sent = ⟨o :: rest, some [], results, false⟩ := by
      rw [hr]
      exact if_neg (by omega)
    have hlast : bytes.length % 64 ≠ 0 ∨ max o.count 512 ≤ ([] ++ bytes).length := by
      refine .inl ?_
      rw [Nat.mod_eq_of_lt (by omega)]
      omega
    rw [hblocks, hsent, List.foldlM_cons]
    show (if bytes.length % 64 ≠ 0 ∨ max o.count 512 ≤ ([] ++ bytes).length then _ else _) >>= _ = _
    rw [if_pos hlast]
    rfl
  have hchip : r.outside.chip.prepared o.poll o.enable = c := by
    rw [hpoll, henable, hr]
    rfl
  obtain ⟨ls, m, -, hex, hm⟩ := exec_order hidle hsends hshort hchip bytes hbytes hscript
  exact ⟨_, _, hex, hm, rfl⟩

/-- `check_id`. -/
theorem does_checkId (rest : List Order) (hbusy : c.busy = 0)
    (hid : c.kind.id = [0x01#8, 0x02#8, 0x19#8]) :
    Does c (.checkId :: rest) { c with input := [], offset := 0 } rest := by
  intro r results hr
  have hbytes : [0x01#8, 0x02#8, 0x19#8] =
      ({ c with input := Order.checkId.write, offset := 0 } : Chip).outputs 3 := by
    show _ = [c.kind.id.getD 0 0xFF#8, c.kind.id.getD 1 0xFF#8, c.kind.id.getD 2 0xFF#8]
    rw [hid]
    rfl
  obtain ⟨ls, r', hex, hm, hout⟩ := does_ask (o := .checkId) (n := 3) _ (by decide) (by decide)
    rfl (by decide) rfl rfl hbytes hr
  refine ⟨ls, r', hex, hm, ?_⟩
  rw [hout]
  show (⟨c.command [0x9F#8] 3, _⟩ : Outside) = _
  rw [Chip.command_readId hbusy]
  rfl

/-- `wait_complete`. -/
theorem does_waitComplete (c : Chip) : Does c (.waitComplete :: rest) c.settle rest := by
  induction hn : c.busy generalizing c with
  | zero =>
    intro r results hr
    obtain ⟨ls, r', hex, hm, hout⟩ := does_ask (o := .waitComplete) (n := 1) [c.status]
      (by decide) (by decide) rfl (by decide) rfl rfl rfl hr
    refine ⟨ls, r', hex, hm, ?_⟩
    have hready : Byte.has c.status 0 = false := by
      rw [Chip.has_status, hn]
      rfl
    rw [hout]
    show (⟨c.command [0x05#8] 1, if Byte.has c.status 0 then _ else _⟩ : Outside) = _
    rw [hready, Chip.command_readStatus, hn]
    rfl
  | succ n ih =>
    -- the busy bit is set, so the loop goes on
    have hpoll : Does c (.waitComplete :: rest) (c.command [0x05#8] 1) (.waitComplete :: rest) := by
      intro r results hr
      obtain ⟨ls, r', hex, hm, hout⟩ := does_ask (o := .waitComplete) (n := 1) [c.status]
        (by decide) (by decide) rfl (by decide) rfl rfl rfl hr
      refine ⟨ls, r', hex, hm, ?_⟩
      have hready : Byte.has c.status 0 = true := by
        rw [Chip.has_status, hn]
        rfl
      rw [hout]
      show (⟨c.command [0x05#8] 1, if Byte.has c.status 0 then _ else _⟩ : Outside) = _
      rw [hready]
      rfl
    exact hpoll.trans (ih (c.command [0x05#8] 1) (by rw [Chip.command_readStatus, hn]; rfl))

/-- The chip holds this, and has carried out every command. -/
structure Has (c : Chip) (kind : ChipKind) (m : Nor 8) : Prop where
  kind : c.kind = kind
  memory : c.memory = m
  ignored : c.ignored = false

/-- The chip, and the data that the script writes to it, fit together.  With the 9 bytes in front of
it, no page is a whole number of packets. -/
structure Fits (kind : ChipKind) (addr : ℕ) (data : List Byte) : Prop where
  short : data.length % 64 ≠ 55
  size : addr + data.length ≤ kind.size
  bits : kind.size ≤ 2 ^ 32
  aligned : Order.pageSize ∣ addr
  page : 0 < kind.page ∧ Order.pageSize ∣ kind.page

theorem address_address (addr : ℕ) (data : List Byte) (h : addr < 2 ^ 32) :
    Chip.address (Order.address addr ++ data) = addr := by
  show (((0 * 256 + (BitVec.ofNat 8 (addr >>> 24)).toNat) * 256 +
    (BitVec.ofNat 8 (addr >>> 16)).toNat) * 256 + (BitVec.ofNat 8 (addr >>> 8)).toNat) * 256 +
      (BitVec.ofNat 8 addr).toNat = addr
  simp only [BitVec.toNat_ofNat, Nat.shiftRight_eq_div_pow]
  omega

/-- `chip_erase`. -/
theorem does_chipErase (rest : List Order) (h : Has c kind m) (hbusy : c.busy = 0) :
    ∃ c', Does c (Order.chipErase ++ rest) c' rest ∧ Has c' kind (m.erase 0 kind.size) ∧
      c'.busy = 0 := by
  have hwren : Does c (Order.chipErase ++ rest) (c.command [0x06#8] 0)
      (.send [0x60#8] false false :: .waitComplete :: rest) :=
    does_send c false false _ (by decide) (by decide)
  have herase : Does (c.command [0x06#8] 0) (.send [0x60#8] false false :: .waitComplete :: rest)
      ((c.command [0x06#8] 0).command [0x60#8] 0) (.waitComplete :: rest) :=
    does_send _ false false _ (by decide) (by decide)
  refine ⟨_, hwren.trans (herase.trans (does_waitComplete _)), ?_, rfl⟩
  show Has (((c.command [0x06#8] 0).command [0x60#8] 0).settle) kind _
  rw [Chip.command_writeEnable hbusy, Chip.command_eraseChip (by exact hbusy) rfl]
  refine ⟨h.kind, ?_, h.ignored⟩
  show c.memory.erase 0 c.kind.size = _
  rw [h.memory, h.kind]

/-- `write_page`. -/
theorem does_writePage {data : List Byte} (rest : List Order) (h : Has c kind m)
    (hfits : Fits kind addr data) (hne : data ≠ []) (hlen : data.length ≤ Order.pageSize) :
    ∃ c', Does c (Order.writePage addr data :: rest) c' rest ∧
      Has c' kind (m.program (.mask addr data)) := by
  have hpos := List.length_pos_iff.2 hne
  have hsize := hfits.size
  have hbits := hfits.bits
  have hlen' : data.length ≤ 256 := hlen
  have hwrite : Does c (Order.writePage addr data :: rest) ((c.prepared true true).command
      (0x12#8 :: Order.address addr ++ data) 0) rest := by
    have hlength : (0x12#8 :: Order.address addr ++ data).length = 4 + data.length + 1 := by
      rw [List.cons_append, List.length_cons, List.length_append]
      rfl
    have hshort := hfits.short
    refine does_send c true true rest ?_ ?_
    · rw [hlength]
      omega
    · rw [hlength]
      omega
  -- a piece of the size of the script's page is within a page of the chip
  have hfit : addr % kind.page + data.length ≤ kind.page := by
    obtain ⟨k, hk⟩ := hfits.page.2
    obtain ⟨j, hj⟩ := hfits.aligned
    have hmod : addr % kind.page = Order.pageSize * (j % k) := by
      rw [hj, hk, Nat.mul_mod_mul_left]
    have hlt : j % k < k := Nat.mod_lt _ (Nat.pos_of_ne_zero fun h0 => by
      rw [h0, Nat.mul_zero] at hk
      exact absurd hk (Nat.ne_of_gt hfits.page.1))
    have hmul := Nat.mul_le_mul_left Order.pageSize (Nat.succ_le_of_lt hlt)
    rw [Nat.mul_succ, ← hk] at hmul
    omega
  refine ⟨_, hwrite, ?_⟩
  have hkind := h.kind
  have hprogram := Chip.command_program (c := c.prepared true true) (Order.address addr) data
    rfl rfl (address_address addr data (by omega)) rfl
    (by show addr < c.kind.size; rw [hkind]; omega)
    (by show 0 < c.kind.page; exact hkind ▸ hfits.page.1)
    (by show addr % c.kind.page + _ ≤ c.kind.page; exact hkind.symm ▸ hfit)
  show Has ((c.prepared true true).command (0x12#8 :: (Order.address addr ++ data)) 0) _ _
  rw [hprogram]
  refine ⟨h.kind, ?_, h.ignored⟩
  show c.memory.program _ = _
  rw [h.memory]

/-- The pages of `write`, from one of them on. -/
theorem does_writePages {data : List Byte} {i : ℕ} (rest : List Order) (h : Has c kind m)
    (hfits : Fits kind (addr + i * Order.pageSize) data) :
    ∃ c', Does c (((Buffer.chunks Order.pageSize data).zipIdx i).map (fun (p, i) =>
        Order.writePage (addr + i * Order.pageSize) p) ++ rest) c' rest ∧
      Has c' kind (m.program (.mask (addr + i * Order.pageSize) data)) := by
  have hpage : 0 < Order.pageSize := by decide
  induction data using Buffer.chunks_induction hpage generalizing c m i with
  | nil =>
    refine ⟨c, fun r results hr => ⟨[], r, rfl, ?_⟩, ?_⟩
    · rw [Buffer.chunks_nil] at hr
      exact hr
    · rw [Nor.mask_nil, Nor.program_blank]
      exact h
  | step data hne ih =>
    have hpos := List.length_pos_iff.2 hne
    have htake : (data.take Order.pageSize).length = min Order.pageSize data.length :=
      List.length_take
    have hdrop : (data.drop Order.pageSize).length = data.length - Order.pageSize :=
      List.length_drop
    have hsize := hfits.size
    rw [Buffer.chunks_of_ne_nil hpage hne, List.zipIdx_cons, List.map_cons, List.cons_append]
    have hpagesize : Order.pageSize = 256 := rfl
    have hshort := hfits.short
    have hfirst : Fits kind (addr + i * Order.pageSize) (data.take Order.pageSize) :=
      ⟨by omega, by omega, hfits.bits, hfits.aligned, hfits.page⟩
    obtain ⟨c₁, hdoes₁, h₁⟩ := does_writePage (((Buffer.chunks Order.pageSize
        (data.drop Order.pageSize)).zipIdx (i + 1)).map (fun (p, i) =>
          Order.writePage (addr + i * Order.pageSize) p) ++ rest) h hfirst
      (by rw [← List.length_pos_iff]; omega) (by omega)
    by_cases hlast : data.length ≤ Order.pageSize
    · rw [List.drop_eq_nil_of_le hlast, Buffer.chunks_nil] at hdoes₁ ⊢
      rw [List.take_of_length_le hlast] at hdoes₁ h₁ ⊢
      exact ⟨c₁, hdoes₁, h₁⟩
    · have hsucc : addr + (i + 1) * Order.pageSize =
          addr + i * Order.pageSize + Order.pageSize := by
        rw [Nat.succ_mul, Nat.add_assoc]
      obtain ⟨c', hdoes, h'⟩ := ih h₁ (i := i + 1) ⟨by omega, by omega, hfits.bits, by
        rw [hsucc]
        exact (Nat.dvd_add_right hfits.aligned).2 (Nat.dvd_refl _), hfits.page⟩
      refine ⟨c', hdoes₁.trans hdoes, ?_⟩
      conv in Nor.mask _ data => rw [← List.take_append_drop Order.pageSize data]
      rw [Nor.program_append, htake, Nat.min_eq_left (by omega), ← hsucc]
      exact h'

/-- `write`. -/
theorem does_writeData {data : List Byte} (rest : List Order) (h : Has c kind m)
    (hfits : Fits kind addr data) :
    ∃ c', Does c (Order.writeData addr data ++ rest) c' rest ∧
      Has c' kind (m.program (.mask addr data)) ∧ c'.busy = 0 := by
  have hfirst : Fits kind (addr + 0 * Order.pageSize) data := by
    rw [Nat.zero_mul, Nat.add_zero]
    exact hfits
  obtain ⟨c₁, hdoes, h₁⟩ := does_writePages (.waitComplete :: rest) h hfirst
  rw [Nat.zero_mul, Nat.add_zero] at h₁
  refine ⟨c₁.settle, ?_, ⟨h₁.kind, h₁.memory, h₁.ignored⟩, rfl⟩
  rw [Order.writeData, List.append_assoc]
  exact hdoes.trans (does_waitComplete c₁)

/-! ### One run -/

theorem settled_feed {m : FlashMode} (h : m.Settled) (status cells : List Byte) :
    (m.feed status cells).Settled := by
  cases h with
  | idle h => exact .idle ⟨h.state, h.armed, h.dma, h.inn⟩
  | dma h => exact .dma ⟨h.state, h.armed, h.dma, h.inn⟩
  | inn h => exact .inn ⟨h.state, h.armed, h.dma, h.inn⟩

theorem step_some {r' : Rig} {l : FlashLabel} (h : machine.step r l = some r') :
    r.supplied.step l = some r'.mode ∧
      ∀ data, l = .out data → r.outside.script.out = some data := by
  obtain ⟨x, hx, h⟩ := Option.bind_eq_some_iff.1 h
  obtain ⟨m, hm, h⟩ := Option.bind_eq_some_iff.1 h
  obtain ⟨x', -, rfl⟩ := Option.map_eq_some_iff.1 h
  refine ⟨hm, fun data hl => ?_⟩
  subst hl
  exact (Option.ite_none_right_eq_some.1 hx).1.1

theorem length_of_out {s : Script} (h : s.out = some data) : 4 ≤ data.length := by
  obtain ⟨-, h⟩ := Option.ite_none_left_eq_some.1 h
  obtain ⟨o, -, h⟩ := Option.bind_eq_some_iff.1 h
  obtain ⟨-, h⟩ := Option.ite_none_left_eq_some.1 h
  obtain rfl := Option.some.inj h
  simp only [List.length_cons]
  omega

theorem settled_step {r' : Rig} {l : FlashLabel} (h : r.mode.Settled)
    (hst : machine.step r l = some r') : r'.mode.Settled := by
  obtain ⟨hm, hout⟩ := step_some hst
  exact (settled_feed h _ _).step (fun data hl => length_of_out (hout data hl)) hm

/-- In every state there is at most one step. -/
theorem step_unique {r' r'' : Rig} {l l' : FlashLabel} (h : r.mode.Settled)
    (hst : machine.step r l = some r') (hst' : machine.step r l' = some r'') : l = l' := by
  obtain ⟨hm, hout⟩ := step_some hst
  obtain ⟨hm', hout'⟩ := step_some hst'
  -- the firmware takes an OUT transfer only when nothing else can happen
  have hidle (data : List Byte) {m : FlashMode} (hm : r.supplied.step (.out data) = some m) :
      r.supplied.Idle := by
    obtain ⟨⟨harmed, -⟩, -⟩ := Option.ite_none_right_eq_some.1 hm
    cases settled_feed h r.supplied.status r.supplied.cells with
    | idle h => exact h
    | dma h => exact absurd harmed (by rw [show r.supplied.armed = false from h.armed]; decide)
    | inn h => exact absurd harmed (by rw [show r.supplied.armed = false from h.armed]; decide)
  cases hl : l.isOut with
  | true =>
    cases l with
    | dma => cases hl
    | inn => cases hl
    | out data =>
      cases hl' : l'.isOut with
      | true =>
        cases l' with
        | dma => cases hl'
        | inn => cases hl'
        | out data' =>
          rw [Option.some.inj ((hout data rfl).symm.trans (hout' data' rfl))]
      | false => exact absurd hm' ((hidle data hm).not_step hl')
  | false =>
    cases hl' : l'.isOut with
    | true =>
      cases l' with
      | dma => cases hl'
      | inn => cases hl'
      | out data => exact absurd hm ((hidle data hm').not_step hl)
    | false => exact (settled_feed h _ _).label_unique hl hl' hm hm'

/-- Nothing is left to do. -/
theorem step_done {results : List (List Byte)} (h : Stands r c [] results) (l : FlashLabel) :
    machine.step r l = none := by
  obtain ⟨hidle, hr⟩ := h
  cases hst : machine.step r l with
  | none => rfl
  | some r' =>
    obtain ⟨hm, hout⟩ := step_some hst
    cases hl : l.isOut with
    | true =>
      cases l with
      | dma => cases hl
      | inn => cases hl
      | out data =>
        have hnone := hout data rfl
        rw [hr] at hnone
        cases hnone
    | false =>
      have hsup : r.supplied.Idle := ⟨hidle.state, hidle.armed, hidle.dma, hidle.inn⟩
      exact absurd hm (hsup.not_step hl)

/-- What the flash holds after `write_tessel_flash`. -/
structure Programmed (size : ℕ) (uboot squashfs mac1 mac2 : List Byte) (m : Nor 8) : Prop where
  boot : m.Holds 0 uboot
  factory : m.Holds 0x40000 (Order.factory mac1 mac2)
  system : m.Holds 0x50000 squashfs
  erased : ∀ i, i < size → uboot.length ≤ i → ¬ (0x40000 ≤ i ∧ i < 0x40000 + 46) →
    ¬ (0x50000 ≤ i ∧ i < 0x50000 + squashfs.length) → m i = 0xFF#8

theorem length_factory {mac1 mac2 : List Byte} (h : mac1.length = 6 ∧ mac2.length = 6) :
    (Order.factory mac1 mac2).length = 46 := by
  simp only [Order.factory, List.length_append, List.length_replicate, h.1, h.2]
  rfl

theorem programmed {size : ℕ} {uboot squashfs mac1 mac2 : List Byte} (m : Nor 8)
    (huboot : uboot.length ≤ 0x40000) (hmac : mac1.length = 6 ∧ mac2.length = 6)
    (hsize : 0x50000 + squashfs.length ≤ size) :
    Programmed size uboot squashfs mac1 mac2 ((((m.erase 0 size).program (.mask 0 uboot)).program
      (.mask 0x40000 (Order.factory mac1 mac2))).program (.mask 0x50000 squashfs)) := by
  have hfactory := length_factory hmac
  have herased : (m.erase 0 size).Erased 0 size := Nor.erased_erase m 0 size
  refine ⟨?_, ?_, ?_, fun i hi h₁ h₂ h₃ => ?_⟩
  · have hheld := (herased.mono 0 uboot.length (Nat.le_refl 0) (by omega)).program
      (Nat.le_refl uboot.length)
    exact (hheld.program (.inl (by omega))).program (.inl (by omega))
  · have hclear : ((m.erase 0 size).program (.mask 0 uboot)).Erased 0x40000 46 :=
      (herased.mono 0x40000 46 (by omega) (by omega)).of_program (.inr (by omega))
    exact (hclear.program (Nat.le_of_eq hfactory)).program (.inl (by omega))
  · have hclear : (((m.erase 0 size).program (.mask 0 uboot)).program
        (.mask 0x40000 (Order.factory mac1 mac2))).Erased 0x50000 squashfs.length :=
      ((herased.mono 0x50000 squashfs.length (by omega) (by omega)).of_program
        (.inr (by omega))).of_program (.inr (by omega))
    exact hclear.program (Nat.le_refl _)
  · rw [Nor.program_eq_self (by omega), Nor.program_eq_self (by omega),
      Nor.program_eq_self (by omega)]
    have hone := herased i hi
    rw [Nat.zero_add] at hone
    exact hone

/-- **The files are in the flash.**  For every contents of the chip, every two files that fit into
their partitions and whose last pages do not end with a full packet, and every time that the chip
takes for each operation: the script, the firmware and the chip have one run, and at its end the
script is done, the flash holds the two files and the factory partition between bytes that are
erased, and the chip has not been sent a command that it could not carry out. -/
theorem writeTesselFlash_run {uboot squashfs mac1 mac2 : List Byte} {results : List (List Byte)}
    (hr : Stands r c (Order.writeTesselFlash uboot squashfs mac1 mac2) results)
    (hid : c.kind.id = [0x01#8, 0x02#8, 0x19#8]) (hbusy : c.busy = 0) (hignored : c.ignored = false)
    (hpage : 0 < c.kind.page ∧ Order.pageSize ∣ c.kind.page) (hbits : c.kind.size ≤ 2 ^ 32)
    (huboot : uboot.length ≤ 0x40000) (hmac : mac1.length = 6 ∧ mac2.length = 6)
    (hsize : 0x50000 + squashfs.length ≤ c.kind.size)
    (hshort : uboot.length % 64 ≠ 55 ∧ squashfs.length % 64 ≠ 55) :
    ∃ ls t, machine.exec r ls = some t ∧ t.outside.script = ⟨[], none, results, false⟩ ∧
      t.outside.chip.ignored = false ∧
      Programmed c.kind.size uboot squashfs mac1 mac2 t.outside.chip.memory ∧
      ∀ ls' t', machine.exec r ls' = some t' → ls' <+: ls := by
  have hfactory := length_factory hmac
  have hfits₂ : Fits c.kind 0 uboot := ⟨hshort.1, by omega, hbits, Nat.dvd_zero _, hpage⟩
  have hfits₃ : Fits c.kind 0x40000 (Order.factory mac1 mac2) :=
    ⟨by omega, by omega, hbits, by decide, hpage⟩
  have hfits₄ : Fits c.kind 0x50000 squashfs := ⟨hshort.2, by omega, hbits, by decide, hpage⟩
  have h : Has { c with input := [], offset := 0 } c.kind c.memory := ⟨rfl, rfl, hignored⟩
  have hchecked := does_checkId (Order.chipErase ++ (Order.writeData 0 uboot ++
    (Order.writeData 0x40000 (Order.factory mac1 mac2) ++
      (Order.writeData 0x50000 squashfs ++ [])))) hbusy hid
  obtain ⟨c₁, hdoes₁, h₁, hbusy₁⟩ := does_chipErase (Order.writeData 0 uboot ++
    (Order.writeData 0x40000 (Order.factory mac1 mac2) ++
      (Order.writeData 0x50000 squashfs ++ []))) h hbusy
  obtain ⟨c₂, hdoes₂, h₂, -⟩ := does_writeData (Order.writeData 0x40000
    (Order.factory mac1 mac2) ++ (Order.writeData 0x50000 squashfs ++ [])) h₁ hfits₂
  obtain ⟨c₃, hdoes₃, h₃, -⟩ := does_writeData (Order.writeData 0x50000 squashfs ++ []) h₂ hfits₃
  obtain ⟨c₄, hdoes₄, h₄, -⟩ := does_writeData [] h₃ hfits₄
  have hall := hchecked.trans (hdoes₁.trans (hdoes₂.trans (hdoes₃.trans hdoes₄)))
  have hscript : Order.writeTesselFlash uboot squashfs mac1 mac2 = .checkId :: (Order.chipErase ++
      (Order.writeData 0 uboot ++ (Order.writeData 0x40000 (Order.factory mac1 mac2) ++
        (Order.writeData 0x50000 squashfs ++ [])))) := by
    simp only [Order.writeTesselFlash, List.append_assoc, List.append_nil, List.cons_append,
      List.nil_append]
  obtain ⟨ls, t, hex, ht⟩ := hall r results (hscript ▸ hr)
  have hout := ht.2
  refine ⟨ls, t, hex, by rw [hout], by rw [hout]; exact h₄.ignored, ?_, fun ls' t' hex' => ?_⟩
  · rw [hout, h₄.memory]
    exact programmed c.memory huboot hmac hsize
  · exact Machine.prefix_of_exec (I := fun r => r.mode.Settled)
      (fun _ _ _ h hst => settled_step h hst) (fun _ _ _ _ _ h hst hst' => step_unique h hst hst')
      (.idle hr.1) hex (step_done ht) hex'

/-- A chip with pages of 512 bytes, which is still busy for two polls of each operation. -/
def sampleChip : Chip :=
  ⟨⟨[0x01#8, 0x02#8, 0x19#8], 2 ^ 25, 512, fun _ => 2⟩, fun _ => 0x5A#8, false, 0, 0, [], 0,
    false⟩

/-- The firmware has been initialized, and the script begins. -/
def sampleRig (todo : List Order) : Rig :=
  ⟨FlashMode.init Flash.initial [] [], ⟨sampleChip, ⟨todo, none, [], false⟩⟩⟩

theorem stands_sampleRig (todo : List Order) : Stands (sampleRig todo) sampleChip todo [] :=
  ⟨⟨rfl, rfl, rfl, rfl⟩, rfl⟩

/-- MAC addresses. -/
def sampleMac (b : Byte) : List Byte := [0x02#8, b, 0x11#8, 0x22#8, 0x33#8, 0x44#8]

theorem writeTesselFlash_run_sample :
    ∃ ls t, machine.exec (sampleRig (Order.writeTesselFlash (List.replicate 300 0xA5#8) [0x7F#8]
      (sampleMac 0xA3#8) (sampleMac 0xA4#8))) ls = some t ∧ t.outside.chip.memory 299 = 0xA5#8 ∧
        t.outside.chip.memory 300 = 0xFF#8 ∧ t.outside.chip.memory 0x40005 = 0xA3#8 := by
  obtain ⟨ls, t, hex, -, -, hm, -⟩ := writeTesselFlash_run
    (stands_sampleRig (Order.writeTesselFlash (List.replicate 300 0xA5#8) [0x7F#8]
      (sampleMac 0xA3#8) (sampleMac 0xA4#8)))
    rfl rfl rfl (by decide) (by decide) (by rw [List.length_replicate]; decide) (by decide)
    (by decide) ⟨by rw [List.length_replicate]; decide, by decide⟩
  have hlength : (List.replicate 300 0xA5#8).length = 300 := List.length_replicate
  have hlast := hm.boot 299 (by rw [hlength]; decide)
  rw [List.getElem_replicate] at hlast
  have hbehind := hm.erased 300 (by decide) (Nat.le_of_eq hlength) (by decide) (by decide)
  have hmac := hm.factory 5 (by decide)
  exact ⟨ls, t, hex, hlast, hbehind, hmac⟩

/-! ### Reading the flash -/

/-- The bytes of the flash from an address on. -/
def contents (c : Chip) (addr n : ℕ) : List Byte :=
  (List.range n).map fun i => c.memory ((addr + i) % c.kind.size)

end Rig

end TesselFirmware
