import TesselFirmware.Memory.Nor
import TesselFirmware.Usb.Transaction

/-!
# The flash chip on the SPI bus

The chip as `scripts/flash.py` and `firmware/flash.c` use it.  The first byte after chip select is a
command; it is carried out when chip select goes high.  While the chip programs or erases, it
carries out no command and only its status register can be read.  How long it takes is up to the
chip: it is given as the number of times that the status register is still read with the busy bit
set.

`Chip.ignored` is set by a command that the chip does not carry out.
-/

namespace TesselFirmware

/-- The commands of the chip that `write_tessel_flash` and `Flash.read` use. -/
inductive Opcode
  | readStatus
  | writeEnable
  | readId
  | read
  | program
  | eraseChip
  deriving DecidableEq

def opcodes : List (Byte × Opcode) :=
  [(0x05#8, .readStatus), (0x06#8, .writeEnable), (0x9F#8, .readId), (0x13#8, .read),
    (0x12#8, .program), (0x60#8, .eraseChip)]

def Opcode.ofByte (b : Byte) : Option Opcode := opcodes.lookup b

/-- What does not change about a chip. -/
structure ChipKind where
  id : List Byte
  size : ℕ
  page : ℕ
  /-- For each operation, the number of times that the status register is read while it lasts. -/
  delay : ℕ → ℕ

structure Chip where
  kind : ChipKind
  memory : Nor 8
  /-- The write enable latch. -/
  wel : Bool
  /-- The number of times that the status register will be read before the operation is over. -/
  busy : ℕ
  /-- The number of operations so far. -/
  count : ℕ
  /-- The bytes received since the chip has been selected, and the number of bytes sent. -/
  input : List Byte
  offset : ℕ
  ignored : Bool

namespace Chip

variable (c : Chip)

/-- The status register. -/
def status : Byte := (if c.busy = 0 then 0x00#8 else 0x01#8) ||| (if c.wel then 0x02#8 else 0x00#8)

/-- The address that comes with a command. -/
def address (args : List Byte) : ℕ := (args.take 4).foldl (fun a b => a * 256 + b.toNat) 0

/-- The next byte that the chip sends. -/
def output : Byte :=
  match c.input with
  | [] => 0xFF#8
  | b :: args =>
    match Opcode.ofByte b with
    | some .readStatus => c.status
    | some .readId => c.kind.id.getD c.offset 0xFF#8
    | some .read => c.memory ((address args + c.offset) % c.kind.size)
    | _ => 0xFF#8

/-- A byte has been sent. -/
def clock : Chip :=
  { c with
    offset := c.offset + 1
    busy := if (c.input.head?.bind Opcode.ofByte) = some .readStatus then c.busy - 1 else c.busy }

/-- The next `n` bytes that the chip sends, and the chip after them. -/
def outputs (c : Chip) : ℕ → List Byte
  | 0 => []
  | n + 1 => c.output :: c.clock.outputs n

def clocks (c : Chip) : ℕ → Chip
  | 0 => c
  | n + 1 => c.clock.clocks n

/-- A command is not carried out. -/
def ignore : Chip := { c with ignored := true }

/-- A command that changes the memory, which must have been enabled. -/
def start (f : Nor 8 → Nor 8) : Chip :=
  if c.busy = 0 ∧ c.wel then
    { c with
      memory := f c.memory
      wel := false
      busy := c.kind.delay c.count
      count := c.count + 1 }
  else c.ignore

/-- Chip select goes high. -/
def deselect : Chip :=
  let c' := { c with input := [], offset := 0 }
  match c.input with
  | [] => c'
  | b :: args =>
    let addr := address args % c.kind.size
    match Opcode.ofByte b with
    | some .readStatus => c'
    | some .readId | some .read => if c.busy = 0 then c' else c'.ignore
    | some .writeEnable => if c.busy = 0 then { c' with wel := true } else c'.ignore
    | some .program =>
      c'.start fun m => m.program (.spread c.kind.page addr
        (.load c.kind.page .blank addr (args.drop 4)))
    | some .eraseChip => c'.start fun m => m.erase 0 c.kind.size
    | none => c'.ignore

/-- What the chip does when something happens on the bus. -/
def event (c : Chip) : FlashEvent → Chip
  | .select => { c with input := [], offset := 0 }
  | .deselect => c.deselect
  | .sent data => { c with input := c.input ++ data }
  | .status _ => c.clock
  | .read data => c.clocks data.length
  | .delivered _ => c

/-- A command with its arguments, after which the chip sends `n` bytes. -/
def command (bytes : List Byte) (n : ℕ) : Chip :=
  ({ c with input := bytes, offset := 0 }.clocks n).deselect

variable {c} {n k : ℕ}

@[simp] theorem length_outputs (c : Chip) (n : ℕ) : (c.outputs n).length = n := by
  induction n generalizing c with
  | zero => rfl
  | succ n ih => exact congrArg (· + 1) (ih _)

theorem outputs_add (c : Chip) (n k : ℕ) :
    c.outputs (n + k) = c.outputs n ++ (c.clocks n).outputs k := by
  induction n generalizing c with
  | zero => rw [Nat.zero_add]; rfl
  | succ n ih =>
    rw [Nat.succ_add]
    exact congrArg (c.output :: ·) (ih _)

theorem clocks_add (c : Chip) (n k : ℕ) : c.clocks (n + k) = (c.clocks n).clocks k := by
  induction n generalizing c with
  | zero => rw [Nat.zero_add]; rfl
  | succ n ih =>
    rw [Nat.succ_add]
    exact ih _

/-- While the status register is read, time passes. -/
theorem clocks_status {c : Chip} (h : (c.input.head?.bind Opcode.ofByte) = some .readStatus)
    (n : ℕ) : c.clocks n = { c with offset := c.offset + n, busy := c.busy - n } := by
  induction n generalizing c with
  | zero => rfl
  | succ n ih =>
    have hclock : c.clock = { c with offset := c.offset + 1, busy := c.busy - 1 } := by
      unfold clock
      rw [if_pos h]
    rw [clocks, hclock, ih (by exact h)]
    show Chip.mk _ _ _ (c.busy - 1 - n) _ _ (c.offset + 1 + n) _ =
      Chip.mk _ _ _ (c.busy - (n + 1)) _ _ (c.offset + (n + 1)) _
    rw [Nat.sub_sub, Nat.add_comm 1 n, Nat.add_right_comm, Nat.add_assoc]

/-- Bit 0 of the status register. -/
theorem has_status (c : Chip) : Byte.has c.status 0 = decide (c.busy ≠ 0) := by
  unfold status
  by_cases hbusy : c.busy = 0
  · rw [if_pos hbusy, decide_eq_false (not_not_intro hbusy)]
    cases c.wel <;> decide
  · rw [if_neg hbusy, decide_eq_true hbusy]
    cases c.wel <;> decide

/-- The chip while its status register is read. -/
def polling (c : Chip) : Chip := { c with input := [0x05#8], offset := 0 }

theorem polling_status (c : Chip) :
    ((c.polling.input.head?.bind Opcode.ofByte) = some .readStatus) := rfl

theorem output_polling (c : Chip) (n : ℕ) : Byte.has (c.polling.clocks n).output 0 =
    decide (c.busy - n ≠ 0) := by
  rw [clocks_status c.polling_status]
  exact has_status _

/-- The busy bit is set as long as the operation lasts. -/
theorem has_of_mem_outputs {b : Byte} (h : b ∈ c.polling.outputs n) (hn : n ≤ c.busy) :
    Byte.has b 0 := by
  induction n with
  | zero => cases h
  | succ n ih =>
    rw [outputs_add] at h
    obtain h | h := List.mem_append.1 h
    · exact ih h (by omega)
    · obtain rfl := List.mem_singleton.1 h
      rw [output_polling]
      exact decide_eq_true (by omega)

/-- The operation is over. -/
def settle (c : Chip) : Chip := { c with busy := 0, input := [], offset := 0 }

theorem deselect_polling (c : Chip) : (c.polling.clocks (c.busy + 1)).deselect = c.settle := by
  rw [clocks_status c.polling_status]
  show Chip.mk _ _ _ (c.busy - (c.busy + 1)) _ _ _ _ = Chip.mk _ _ _ 0 _ _ _ _
  rw [Nat.sub_eq_zero_of_le (Nat.le_succ _)]
  rfl

/-- The chip when the command of a transaction comes. -/
def prepared (c : Chip) (poll enable : Bool) : Chip :=
  let c := if poll then c.settle else c
  if enable then c.command [0x06#8] 0 else c

/-! ### Commands -/

theorem command_readStatus (c : Chip) :
    c.command [0x05#8] 1 = { c with busy := c.busy - 1, input := [], offset := 0 } := rfl

theorem command_readId (h : c.busy = 0) :
    c.command [0x9F#8] 3 = { c with input := [], offset := 0 } := by
  show (if c.busy = 0 then _ else _ : Chip) = _
  rw [if_pos h]
  rfl

theorem command_writeEnable (h : c.busy = 0) :
    c.command [0x06#8] 0 = { c with wel := true, input := [], offset := 0 } := by
  show (if c.busy = 0 then _ else _ : Chip) = _
  rw [if_pos h]
  rfl

/-- A command that changes the memory has been enabled, and the chip is not busy. -/
theorem start_eq (f : Nor 8 → Nor 8) (h : c.busy = 0) (hwel : c.wel) :
    c.start f = { c with
      memory := f c.memory
      wel := false
      busy := c.kind.delay c.count
      count := c.count + 1 } := if_pos ⟨h, hwel⟩

theorem command_eraseChip (h : c.busy = 0) (hwel : c.wel) :
    c.command [0x60#8] 0 = { c with
      memory := c.memory.erase 0 c.kind.size
      wel := false
      busy := c.kind.delay c.count
      count := c.count + 1
      input := []
      offset := 0 } :=
  start_eq (c := { c with input := [], offset := 0 }) (fun m => m.erase 0 c.kind.size) h hwel

/-- A page is programmed. -/
theorem command_program {addr : ℕ} (args data : List Byte) (h : c.busy = 0) (hwel : c.wel)
    (haddr : address (args ++ data) = addr) (hargs : args.length = 4) (hsize : addr < c.kind.size)
    (hpage : 0 < c.kind.page) (hfit : addr % c.kind.page + data.length ≤ c.kind.page) :
    c.command (0x12#8 :: (args ++ data)) 0 = { c with
      memory := c.memory.program (.mask addr data)
      wel := false
      busy := c.kind.delay c.count
      count := c.count + 1
      input := []
      offset := 0 } := by
  have hdata : (args ++ data).drop 4 = data := List.drop_left' hargs
  have hmask : Nor.spread c.kind.page (address (args ++ data) % c.kind.size)
      (.load c.kind.page .blank (address (args ++ data) % c.kind.size) ((args ++ data).drop 4)) =
      Nor.mask addr data := by
    rw [haddr, hdata, Nat.mod_eq_of_lt hsize, Nor.spread_load hpage hfit]
  have hstart := start_eq (c := { c with input := [], offset := 0 })
    (fun m => m.program (.mask addr data)) h hwel
  rw [← hmask] at hstart ⊢
  exact hstart

end Chip

end TesselFirmware
