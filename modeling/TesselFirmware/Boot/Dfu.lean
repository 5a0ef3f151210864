import TesselFirmware.Machine.Basic
import TesselFirmware.Memory.Byte

/-!
# The flash rows that the DFU bootloader writes (`boot/main.c`, `common/nvm.h`)

A download request names a block.  `dfu_cb_dnload_block` checks its address and erases its row,
and `dfu_cb_dnload_packet_completed` programs the packets of the block.  The check compares the
*start* of the block with the size of the firmware region, and lets the block through that starts
at the end of the region.

* `Dfu.firmwareOnly_iff` : in every run, all that is erased or programmed lies in the firmware
  region exactly if no request names this block;
* `Dfu.erases_config` : a run that erases the row behind the region.
-/

namespace TesselFirmware

/-- `FLASH_PAGE_SIZE`. -/
def flashPageSize : ℕ := 64

/-- `FLASH_BOOT_SIZE`. -/
def flashBootSize : ℕ := 4096

/-- `FLASH_CONFIG_SIZE`. -/
def flashConfigSize : ℕ := 1024

/-- `FLASH_FW_SIZE`. -/
def flashFwSize : ℕ := 256 * 1024 - flashBootSize - flashConfigSize

/-- `FLASH_FW_START`. -/
def flashFwStart : ℕ := 4096

/-- `DFU_TRANSFER_SIZE`, which is also the size of a row. -/
def dfuTransferSize : ℕ := flashPageSize * 4

/-! ### The NVM controller -/

/-- What the controller does; addresses are those of 16-bit words. -/
inductive NvmOp
  /-- `NVMCTRL_CTRLA_CMD_ER`. -/
  | eraseRow (addr : ℕ)
  /-- A word is put into the page buffer. -/
  | store (addr : ℕ) (data : BitVec 16)
  /-- `NVMCTRL_CTRLA_CMD_WP`. -/
  | writePage (addr : ℕ)
  deriving DecidableEq, Repr

namespace NvmOp

/-- The first byte that is erased or programmed. -/
def start : NvmOp → ℕ
  | eraseRow addr => addr * 2 / dfuTransferSize * dfuTransferSize
  | store addr _ => addr * 2
  | writePage addr => addr * 2 / flashPageSize * flashPageSize

/-- The number of bytes that are erased or programmed. -/
def size : NvmOp → ℕ
  | eraseRow _ => dfuTransferSize
  | store _ _ => 2
  | writePage _ => flashPageSize

/-- All these bytes are in the row with the given number. -/
def InRow (r : ℕ) (op : NvmOp) : Prop :=
  r * dfuTransferSize ≤ op.start ∧ op.start + op.size ≤ (r + 1) * dfuTransferSize

/-- All these bytes are in the firmware region. -/
def InFirmware (op : NvmOp) : Prop :=
  flashFwStart ≤ op.start ∧ op.start + op.size ≤ flashFwStart + flashFwSize

instance (op : NvmOp) : Decidable op.InFirmware := by unfold InFirmware; infer_instance

end NvmOp

/-- The controller: its `ADDR` register, which follows the stores, and what it has done. -/
structure Nvm where
  addr : ℕ
  ops : List NvmOp

namespace Nvm

/-- The word with the given address is in the row. -/
def At (n : Nvm) (r : ℕ) : Prop :=
  r * dfuTransferSize ≤ n.addr * 2 ∧ n.addr * 2 + 2 ≤ (r + 1) * dfuTransferSize

/-- `nvm_command` with `NVMCTRL_CTRLA_CMD_ER` or `NVMCTRL_CTRLA_CMD_WP`. -/
def command (n : Nvm) (cmd : ℕ → NvmOp) : Nvm := { n with ops := n.ops ++ [cmd n.addr] }

/-- `nvm_address`. -/
def address (n : Nvm) (addr : ℕ) : Nvm := { n with addr := addr / 2 }

/-- `nvm_erase_row`. -/
def eraseRow (n : Nvm) (addr : ℕ) : Nvm := (n.address addr).command .eraseRow

/-- `NVM_MEMORY[addr] = data`. -/
def store (n : Nvm) (addr : ℕ) (data : BitVec 16) : Nvm :=
  ⟨addr, n.ops ++ [.store addr data]⟩

/-- The loop of `nvm_write_page`: the bytes go out in words, the last one alone if their number is
odd. -/
def storeWords : Nvm → ℕ → List Byte → Nvm
  | n, _, [] => n
  | n, addr, [b] => n.store addr (b.setWidth 16)
  | n, addr, b :: c :: bs => (n.store addr (c ++ b)).storeWords (addr + 1) bs

/-- `nvm_write_page`. -/
def writePage (n : Nvm) (addr : ℕ) (buf : List Byte) : Nvm :=
  (n.storeWords (addr / 2) buf).command .writePage

/-- From `n` to `n'` there were only operations in the row `r`, and the controller is left
there. -/
structure Works (r : ℕ) (n n' : Nvm) : Prop where
  ops : ∃ new, (∀ op ∈ new, op.InRow r) ∧ n'.ops = n.ops ++ new
  addr : n'.At r

variable {n n' n'' : Nvm} {r : ℕ}

theorem Works.refl (h : n.At r) : Works r n n := ⟨⟨[], by simp, by simp⟩, h⟩

theorem Works.trans (h : Works r n n') (h' : Works r n' n'') : Works r n n'' := by
  obtain ⟨new, hnew, he⟩ := h.ops
  obtain ⟨new', hnew', he'⟩ := h'.ops
  refine ⟨⟨new ++ new', fun op hop => ?_, by rw [he', he, List.append_assoc]⟩, h'.addr⟩
  rcases List.mem_append.1 hop with hop | hop
  · exact hnew op hop
  · exact hnew' op hop

/-- A page or a row that contains a word of the row is in the row. -/
theorem works_writePage (h : n.At r) : Works r n (n.command .writePage) := by
  refine ⟨⟨[.writePage n.addr], ?_, rfl⟩, h⟩
  intro op hop
  rw [List.mem_singleton.1 hop]
  obtain ⟨h₁, h₂⟩ := h
  simp only [NvmOp.InRow, NvmOp.start, NvmOp.size, dfuTransferSize, flashPageSize] at h₁ h₂ ⊢
  omega

theorem works_eraseRow (n : Nvm) (r : ℕ) (hn : n.At r) : Works r n (n.command .eraseRow) := by
  refine ⟨⟨[.eraseRow n.addr], ?_, rfl⟩, hn⟩
  intro op hop
  rw [List.mem_singleton.1 hop]
  obtain ⟨h₁, h₂⟩ := hn
  simp only [NvmOp.InRow, NvmOp.start, NvmOp.size, dfuTransferSize, flashPageSize] at h₁ h₂ ⊢
  omega

theorem works_store {addr : ℕ} (data : BitVec 16) (h₁ : r * dfuTransferSize ≤ addr * 2)
    (h₂ : addr * 2 + 2 ≤ (r + 1) * dfuTransferSize) : Works r n (n.store addr data) := by
  refine ⟨⟨[.store addr data], ?_, rfl⟩, h₁, h₂⟩
  intro op hop
  rw [List.mem_singleton.1 hop]
  exact ⟨h₁, h₂⟩

/-- The words of a buffer that ends in the row. -/
theorem works_storeWords {bs : List Byte} {addr : ℕ} (hn : n.At r)
    (h₁ : r * dfuTransferSize ≤ addr * 2)
    (h₂ : addr * 2 + bs.length ≤ (r + 1) * dfuTransferSize) :
    Works r n (n.storeWords addr bs) := by
  have hd : dfuTransferSize = 256 := rfl
  induction n, addr, bs using storeWords.induct with
  | case1 n addr => exact .refl hn
  | case2 n addr b =>
    rw [List.length_singleton] at h₂
    -- the row has an even number of bytes
    exact works_store _ h₁ (by rw [hd] at h₂ ⊢; omega)
  | case3 n addr b c bs ih =>
    simp only [List.length_cons] at h₂
    have hs : Works r n (n.store addr (c ++ b)) := works_store _ h₁ (by omega)
    exact hs.trans (ih hs.addr (by omega) (by omega))

end Nvm

/-! ### The callbacks of the DFU library -/

/-- The controller, and the block of which the library delivers packets, with the `wLength` of its
request; there is none before the first request and after `dfu_error`. -/
structure Dfu where
  nvm : Nvm
  block : Option (BitVec 16 × BitVec 16)

inductive DfuEvent
  /-- A download request. -/
  | block (blockNum wLength : BitVec 16)
  /-- A packet of the block has been received. -/
  | packet (offset : BitVec 16) (data : List Byte)
  deriving DecidableEq, Repr

namespace Dfu

/-- `dfu_error`. -/
def error (d : Dfu) : Dfu := { d with block := none }

/-- `dfu_cb_dnload_block`. -/
def dnloadBlock (d : Dfu) (blockNum wLength : BitVec 16) : Dfu :=
  if dfuTransferSize < wLength.toNat then d.error
  else if flashFwSize < blockNum.toNat * dfuTransferSize then d.error
  else
    { nvm := d.nvm.eraseRow (flashFwStart + blockNum.toNat * dfuTransferSize)
      block := some (blockNum, wLength) }

/-- `dfu_cb_dnload_packet_completed`.  The length of the packet becomes a byte. -/
def dnloadPacketCompleted (d : Dfu) (blockNum offset : BitVec 16) (data : List Byte) : Dfu :=
  { d with
    nvm := d.nvm.writePage (flashFwStart + blockNum.toNat * dfuTransferSize + offset.toNat)
      (data.take (data.length % 256)) }

/-- The library delivers packets of the current block only, within its `wLength`. -/
def step (d : Dfu) : DfuEvent → Option Dfu
  | .block blockNum wLength => some (d.dnloadBlock blockNum wLength)
  | .packet offset data =>
    match d.block with
    | some (blockNum, wLength) =>
      if offset.toNat + data.length ≤ wLength.toNat then
        some (d.dnloadPacketCompleted blockNum offset data)
      else none
    | none => none

def machine : Machine Dfu DfuEvent := ⟨step⟩

/-- The bootloader before the first request. -/
def init (addr : ℕ) : Dfu := ⟨⟨addr, []⟩, none⟩

/-- All that has been erased or programmed is in the firmware region. -/
def FirmwareOnly (d : Dfu) : Prop := ∀ op ∈ d.nvm.ops, op.InFirmware

instance (d : Dfu) : Decidable d.FirmwareOnly := by unfold FirmwareOnly; infer_instance

/-- The row of a block. -/
def rowOf (blockNum : BitVec 16) : ℕ := flashFwStart / dfuTransferSize + blockNum.toNat

/-- The request names a block that passes the check and starts at the end of the region. -/
def Overruns : DfuEvent → Prop
  | .block blockNum wLength =>
    wLength.toNat ≤ dfuTransferSize ∧ blockNum.toNat * dfuTransferSize = flashFwSize
  | .packet _ _ => False

instance (e : DfuEvent) : Decidable (Overruns e) := by unfold Overruns; split <;> infer_instance

/-! ### Steps -/

variable {d d' : Dfu} {blockNum wLength : BitVec 16} {e : DfuEvent} {es : List DfuEvent}

/-- What an accepted request does. -/
theorem dnloadBlock_cases (d : Dfu) (blockNum wLength : BitVec 16) :
    d.dnloadBlock blockNum wLength = d.error ∧ ¬ Overruns (.block blockNum wLength) ∨
      wLength.toNat ≤ dfuTransferSize ∧ blockNum.toNat * dfuTransferSize ≤ flashFwSize ∧
        d.dnloadBlock blockNum wLength =
          ⟨d.nvm.eraseRow (flashFwStart + blockNum.toNat * dfuTransferSize),
            some (blockNum, wLength)⟩ := by
  unfold dnloadBlock
  split_ifs with hlen hnum
  · exact .inl ⟨rfl, fun h => by have := h.1; omega⟩
  · exact .inl ⟨rfl, fun h => by have := h.2; omega⟩
  · exact .inr ⟨by omega, by omega, rfl⟩

/-- The row of a block is in the region unless the block starts at its end. -/
theorem inFirmware_of_inRow {op : NvmOp} (h : op.InRow (rowOf blockNum))
    (hnum : blockNum.toNat * dfuTransferSize ≤ flashFwSize)
    (hne : blockNum.toNat * dfuTransferSize ≠ flashFwSize) : op.InFirmware := by
  obtain ⟨h₁, h₂⟩ := h
  simp only [NvmOp.InFirmware, rowOf, dfuTransferSize, flashPageSize, flashFwStart, flashFwSize,
    flashBootSize, flashConfigSize] at h₁ h₂ hnum hne ⊢
  omega

theorem at_eraseRow (n : Nvm) (blockNum : BitVec 16) :
    (n.address (flashFwStart + blockNum.toNat * dfuTransferSize)).At (rowOf blockNum) := by
  simp only [Nvm.At, Nvm.address, rowOf, dfuTransferSize, flashPageSize, flashFwStart]
  omega

/-- Erasing the row of a block. -/
theorem works_dnloadBlock (n : Nvm) (blockNum : BitVec 16) :
    Nvm.Works (rowOf blockNum) (n.address (flashFwStart + blockNum.toNat * dfuTransferSize))
      (n.eraseRow (flashFwStart + blockNum.toNat * dfuTransferSize)) :=
  Nvm.works_eraseRow _ _ (at_eraseRow n blockNum)

/-- Programming a packet of a block. -/
theorem works_dnloadPacketCompleted {n : Nvm} (hn : n.At (rowOf blockNum)) {offset : BitVec 16}
    {data : List Byte} (hlen : offset.toNat + data.length ≤ dfuTransferSize) :
    Nvm.Works (rowOf blockNum) n
      (n.writePage (flashFwStart + blockNum.toNat * dfuTransferSize + offset.toNat)
        (data.take (data.length % 256))) := by
  have htake := List.length_take_le (data.length % 256) data
  simp only [dfuTransferSize, flashPageSize] at hlen
  have hs := @Nvm.works_storeWords n (rowOf blockNum) (data.take (data.length % 256))
    ((flashFwStart + blockNum.toNat * dfuTransferSize + offset.toNat) / 2) hn
    (by simp only [rowOf, dfuTransferSize, flashPageSize, flashFwStart]; omega)
    (by
      simp only [List.length_take, rowOf, dfuTransferSize, flashPageSize, flashFwStart]
      omega)
  exact hs.trans (Nvm.works_writePage hs.addr)

/-- The erased row of the block at the end of the region is behind the region. -/
theorem not_firmwareOnly_of_overruns (n : Nvm)
    (hend : blockNum.toNat * dfuTransferSize = flashFwSize)
    (block : Option (BitVec 16 × BitVec 16)) :
    ¬ FirmwareOnly ⟨n.eraseRow (flashFwStart + blockNum.toNat * dfuTransferSize), block⟩ := by
  intro h
  have hop := h (.eraseRow ((flashFwStart + blockNum.toNat * dfuTransferSize) / 2))
    (List.mem_append_right _ (List.mem_singleton.2 rfl))
  have hstop := hop.2
  simp only [NvmOp.start, NvmOp.size, hend] at hstop
  revert hstop
  decide

/-! ### Runs -/

/-- After the events `es`: the current block has passed the check and the controller is in its
row; and everything was in the region exactly if no request overran it. -/
structure Tracked (es : List DfuEvent) (d : Dfu) : Prop where
  block : ∀ blockNum wLength, d.block = some (blockNum, wLength) →
    wLength.toNat ≤ dfuTransferSize ∧ blockNum.toNat * dfuTransferSize ≤ flashFwSize ∧
      d.nvm.At (rowOf blockNum)
  overrun : ∀ blockNum wLength, d.block = some (blockNum, wLength) →
    blockNum.toNat * dfuTransferSize = flashFwSize → ¬ d.FirmwareOnly
  firmwareOnly : d.FirmwareOnly ↔ ∀ e ∈ es, ¬ Overruns e

theorem tracked_init (addr : ℕ) : Tracked [] (init addr) where
  block _ _ h := by cases h
  overrun _ _ h := by cases h
  firmwareOnly := iff_of_true (fun op hop => by cases hop) (fun e he => by cases he)

/-- Whether everything was in the region, after more operations in one row. -/
theorem firmwareOnly_of_works {n : Nvm} {r : ℕ} (hw : Nvm.Works r n d'.nvm)
    (hn : n.ops = d.nvm.ops) (hr : ∀ op : NvmOp, op.InRow r → op.InFirmware) :
    d'.FirmwareOnly ↔ d.FirmwareOnly := by
  obtain ⟨new, hnew, he⟩ := hw.ops
  simp only [FirmwareOnly, he, hn, List.mem_append]
  constructor
  · intro h op hop
    exact h op (.inl hop)
  · rintro h op (hop | hop)
    · exact h op hop
    · exact hr op (hnew op hop)

theorem Tracked.dnloadBlock (h : Tracked es d) (blockNum wLength : BitVec 16) :
    Tracked (es ++ [.block blockNum wLength]) (d.dnloadBlock blockNum wLength) := by
  rcases dnloadBlock_cases d blockNum wLength with ⟨he, hno⟩ | ⟨hlen, hnum, he⟩
  · rw [he]
    refine ⟨fun _ _ hb => ?_, fun _ _ hb => ?_, ?_⟩
    · cases hb
    · cases hb
    rw [List.forall_mem_append, List.forall_mem_singleton, ← h.firmwareOnly]
    exact (and_iff_left hno).symm
  · rw [he]
    have hw := works_dnloadBlock d.nvm blockNum
    refine ⟨?_, ?_, ?_⟩
    · rintro num len ⟨⟩
      exact ⟨hlen, hnum, hw.addr⟩
    · rintro num len ⟨⟩ hend
      exact not_firmwareOnly_of_overruns d.nvm hend _
    · rw [List.forall_mem_append, List.forall_mem_singleton, ← h.firmwareOnly]
      by_cases hend : blockNum.toNat * dfuTransferSize = flashFwSize
      · refine iff_of_false (not_firmwareOnly_of_overruns d.nvm hend _) ?_
        rintro ⟨-, hno⟩
        exact hno ⟨hlen, hend⟩
      · have hno : ¬ Overruns (.block blockNum wLength) := fun ho => hend ho.2
        rw [and_iff_left hno]
        exact firmwareOnly_of_works hw rfl fun op hop => inFirmware_of_inRow hop hnum hend

theorem Tracked.packet (h : Tracked es d) {offset : BitVec 16} {data : List Byte}
    (hst : d.step (.packet offset data) = some d') : Tracked (es ++ [.packet offset data]) d' := by
  simp only [step] at hst
  split at hst
  · next blockNum wLength hb =>
    obtain ⟨hfit, hd⟩ := Option.ite_none_right_eq_some.1 hst
    obtain rfl := Option.some.inj hd
    obtain ⟨hlen, hnum, hat⟩ := h.block _ _ hb
    have hw := works_dnloadPacketCompleted hat (Nat.le_trans hfit hlen)
    have hsub : (d.dnloadPacketCompleted blockNum offset data).FirmwareOnly → d.FirmwareOnly := by
      obtain ⟨new, -, he⟩ := hw.ops
      intro hf op hop
      refine hf op ?_
      show op ∈ (d.nvm.writePage _ _).ops
      rw [he]
      exact List.mem_append_left _ hop
    refine ⟨?_, ?_, ?_⟩
    · intro num len hb'
      obtain ⟨rfl, rfl⟩ := Prod.mk.inj (Option.some.inj (hb.symm.trans hb'))
      exact ⟨hlen, hnum, hw.addr⟩
    · intro num len hb' hend hf
      exact h.overrun num len hb' hend (hsub hf)
    · have hno : ¬ Overruns (.packet offset data) := fun ho => ho
      rw [List.forall_mem_append, List.forall_mem_singleton, ← h.firmwareOnly, and_iff_left hno]
      by_cases hend : blockNum.toNat * dfuTransferSize = flashFwSize
      · have hno := h.overrun _ _ hb hend
        exact iff_of_false (fun hf => hno (hsub hf)) hno
      · exact firmwareOnly_of_works (d := d) hw rfl
          fun op hop => inFirmware_of_inRow hop hnum hend
  · cases hst

/-- **The bootloader writes only the firmware region**, in every sequence of download requests
and packets, exactly if no request of at most one row names the block that starts at the end of
the region. -/
theorem firmwareOnly_iff {addr : ℕ} (h : machine.Run Machine.always (init addr) es d) :
    d.FirmwareOnly ↔ ∀ e ∈ es, ¬ Overruns e := by
  have ht : Tracked es d := h.invariant_labels (tracked_init addr) fun es d e d' ht _ hst => by
    cases e with
    | block blockNum wLength =>
      obtain rfl := Option.some.inj hst
      exact ht.dnloadBlock blockNum wLength
    | packet offset data => exact ht.packet hst
  exact ht.firmwareOnly

/-- A download of the last block of the region. -/
def lastBlockRun : List DfuEvent :=
  [.block 1003#16 256#16, .packet 0#16 (List.replicate 64 0xA5#8),
    .packet 192#16 (List.replicate 63 0x5A#8)]

theorem firmwareOnly_lastBlockRun :
    ∃ d, machine.exec (init 0) lastBlockRun = some d ∧ d.FirmwareOnly := by
  have h : (machine.exec (init 0) lastBlockRun).map (fun _ => ()) = some () := by decide +kernel
  obtain ⟨d, hd, -⟩ := Option.map_eq_some_iff.1 h
  exact ⟨d, hd, (firmwareOnly_iff (Machine.run_of_exec hd)).2 (by decide)⟩

/-- Not every request stays in the region: block 1004 passes the check, and the first row of the
config area is erased. -/
theorem erases_config :
    ¬ ∀ (addr : ℕ) (es : List DfuEvent) (d : Dfu),
      machine.Run Machine.always (init addr) es d → d.FirmwareOnly := by
  intro hall
  have h : (machine.exec (init 0) [.block 1004#16 256#16]).map (fun d => decide d.FirmwareOnly) =
      some false := by decide +kernel
  obtain ⟨d, hd, hno⟩ := Option.map_eq_some_iff.1 h
  exact of_decide_eq_false hno (hall _ _ d (Machine.run_of_exec hd))

end Dfu

end TesselFirmware
