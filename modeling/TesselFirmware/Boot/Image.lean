import TesselFirmware.Boot.Dfu
import TesselFirmware.Memory.Buffer
import TesselFirmware.Memory.Nor

/-!
# The firmware image in the flash (`boot/main.c`, `common/nvm.h`)

What the operations of the NVM controller do to the flash.  The words that `nvm_write_page` stores
come into the page buffer of the controller, and the command that follows programs the buffer into
the page of the last word and clears it.

* `Dfu.downloaded` : whatever has been downloaded before, with or without errors, after a download
  the flash holds the image, and nothing else has changed;
* `Dfu.flashValid_cutOff` : how much of a download the bootloader needs before it starts an image.
-/

namespace TesselFirmware

/-- The flash, and the page buffer of its controller. -/
structure NvmFlash where
  memory : Nor 8
  latch : Nor 8

namespace NvmFlash

/-- The low byte of a word comes first. -/
def wordBytes (data : BitVec 16) : List Byte := [data.setWidth 8, (data >>> 8).setWidth 8]

def op (f : NvmFlash) : NvmOp → NvmFlash
  | .eraseRow addr =>
    { f with memory := f.memory.erase (NvmOp.eraseRow addr).start dfuTransferSize }
  | .store addr data => { f with latch := .load flashPageSize f.latch (addr * 2) (wordBytes data) }
  | .writePage addr => ⟨f.memory.program (.spread flashPageSize (addr * 2) f.latch), .blank⟩

end NvmFlash

/-- What `nvm_write_page` stores: whole words. -/
def padded (buf : List Byte) : List Byte := if buf.length % 2 = 0 then buf else buf ++ [0#8]

/-- A little-endian word. -/
def flashWord (m : Nor 8) (i : ℕ) : BitVec 32 := m (i + 3) ++ m (i + 2) ++ m (i + 1) ++ m i

/-- `flash_valid`, on the contents of the flash. -/
def flashValid (m : Nor 8) : Bool :=
  let sp := flashWord m flashFwStart
  let ip := flashWord m (flashFwStart + 4)
  0x20000000#32 < sp && sp < 0x20008000#32 && ip < 0x00400000#32

namespace Dfu

/-- The flash after what the controller has done. -/
def flash (d : Dfu) (f : NvmFlash) : NvmFlash := d.nvm.ops.foldl NvmFlash.op f

/-- The block with the number `i`, in packets of 64 bytes. -/
def blockEvents (i : ℕ) (data : List Byte) : List DfuEvent :=
  .block (BitVec.ofNat 16 i) (BitVec.ofNat 16 data.length) ::
    (Buffer.chunks 64 data).zipIdx.map fun (packet, j) => .packet (BitVec.ofNat 16 (64 * j)) packet

/-- The host downloads an image. -/
def download (image : List Byte) : List DfuEvent :=
  (Buffer.chunks dfuTransferSize image).zipIdx.flatMap fun (data, i) => blockEvents i data

end Dfu

/-! ### The controller -/

namespace NvmFlash

variable {f : NvmFlash} {n : Nvm}

theorem wordBytes_setWidth (b : Byte) : wordBytes (b.setWidth 16) = [b, 0#8] := by
  unfold wordBytes
  congr 1
  · bv_omega
  · congr 1
    bv_omega

theorem wordBytes_append (b c : Byte) : wordBytes (c ++ b) = [b, c] := by
  unfold wordBytes
  have hb : (c ++ b).setWidth 8 = b := by
    refine BitVec.eq_of_getLsbD_eq fun i hi => ?_
    rw [BitVec.getLsbD_setWidth, BitVec.getLsbD_append]
    simp [hi]
  have hc : ((c ++ b) >>> 8).setWidth 8 = c := by
    refine BitVec.eq_of_getLsbD_eq fun i hi => ?_
    rw [BitVec.getLsbD_setWidth, BitVec.getLsbD_ushiftRight, BitVec.getLsbD_append]
    simp [hi]
  rw [hb, hc]

/-- Words that are stored are loaded into the page buffer. -/
theorem ops_storeWords (n : Nvm) (addr : ℕ) (bs : List Byte) (f : NvmFlash) :
    (n.storeWords addr bs).ops.foldl op f =
      { n.ops.foldl op f with
        latch := .load flashPageSize (n.ops.foldl op f).latch (addr * 2) (padded bs) } := by
  induction n, addr, bs using Nvm.storeWords.induct with
  | case1 n addr => rfl
  | case2 n addr b =>
    rw [Nvm.storeWords, Nvm.store, List.foldl_append]
    show NvmFlash.mk _ (Nor.load flashPageSize _ (addr * 2) (wordBytes _)) = _
    rw [wordBytes_setWidth]
    rfl
  | case3 n addr b c bs ih =>
    have hstore : (n.store addr (c ++ b)).ops.foldl op f = { n.ops.foldl op f with
        latch := .load flashPageSize (n.ops.foldl op f).latch (addr * 2) [b, c] } := by
      rw [Nvm.store, List.foldl_append]
      show NvmFlash.mk _ (Nor.load flashPageSize _ (addr * 2) (wordBytes _)) = _
      rw [wordBytes_append]
    have hpad : padded (b :: c :: bs) = [b, c] ++ padded bs := by
      unfold padded
      rw [List.length_cons, List.length_cons, Nat.add_assoc, Nat.add_mod_right]
      split_ifs <;> rfl
    rw [Nvm.storeWords, ih, hstore, hpad, Nor.load_append, Nat.add_mul]
    rfl

/-- The controller is left at the last word. -/
theorem addr_storeWords (n : Nvm) (addr : ℕ) {bs : List Byte} (h : bs ≠ []) :
    addr ≤ (n.storeWords addr bs).addr ∧
      (n.storeWords addr bs).addr * 2 < addr * 2 + bs.length := by
  induction n, addr, bs using Nvm.storeWords.induct with
  | case1 n addr => exact absurd rfl h
  | case2 n addr b =>
    show addr ≤ addr ∧ addr * 2 < addr * 2 + 1
    omega
  | case3 n addr b c bs ih =>
    rw [Nvm.storeWords]
    by_cases hnil : bs = []
    · subst hnil
      show addr ≤ addr ∧ addr * 2 < addr * 2 + 2
      omega
    · have hlast := ih hnil
      rw [List.length_cons, List.length_cons]
      omega

theorem length_padded_le {bs : List Byte} {k : ℕ} (h : bs.length ≤ k) (hk : k % 2 = 0) :
    (padded bs).length ≤ k := by
  unfold padded
  split_ifs
  · exact h
  · rw [List.length_append, List.length_singleton]
    omega

/-- **A packet is programmed**: one that begins at a word and does not reach over the end of its
page comes to its place in the flash. -/
theorem ops_writePage {n : Nvm} {addr : ℕ} {buf : List Byte} {f : NvmFlash}
    (hlatch : (n.ops.foldl op f).latch = .blank) (heven : addr % 2 = 0)
    (hfit : addr % flashPageSize + buf.length ≤ flashPageSize) :
    (n.writePage addr buf).ops.foldl op f =
      ⟨(n.ops.foldl op f).memory.program (.mask addr (padded buf)), .blank⟩ := by
  have hword : addr / 2 * 2 = addr := by omega
  rw [Nvm.writePage, Nvm.command, List.foldl_append, ops_storeWords, hlatch, hword]
  show (⟨Nor.program _ (Nor.spread flashPageSize ((n.storeWords (addr / 2) buf).addr * 2) _),
    .blank⟩ : NvmFlash) = _
  by_cases hnil : buf = []
  · subst hnil
    have hblank (a : ℕ) : Nor.spread flashPageSize a (.blank : Nor 8) = .blank := by
      funext i
      unfold Nor.spread
      split_ifs <;> rfl
    show (⟨Nor.program _ (Nor.spread flashPageSize _ (.blank : Nor 8)), .blank⟩ : NvmFlash) =
      ⟨Nor.program _ (Nor.mask addr []), .blank⟩
    rw [hblank, Nor.mask_nil]
  · obtain ⟨hle, hlt⟩ := addr_storeWords n (addr / 2) hnil
    -- the last word is in the page of the first one
    have hpage : (n.storeWords (addr / 2) buf).addr * 2 / flashPageSize = addr / flashPageSize := by
      simp only [flashPageSize] at hfit ⊢
      omega
    have hlen : (padded buf).length ≤ flashPageSize - addr % flashPageSize := by
      refine length_padded_le (by omega) ?_
      simp only [flashPageSize]
      omega
    have hmod := Nat.mod_lt addr (show 0 < flashPageSize by decide)
    have hfits : addr % flashPageSize + (padded buf).length ≤ flashPageSize := by omega
    have hspread := Nor.spread_load (by decide) hfits
    unfold Nor.spread at hspread ⊢
    rw [hpage, hspread]

end NvmFlash

/-! ### Blocks and packets -/

theorem padded_append {bs cs : List Byte} (h : bs.length % 2 = 0) :
    padded (bs ++ cs) = bs ++ padded cs := by
  unfold padded
  rw [List.length_append, Nat.add_mod, h, Nat.zero_add, Nat.mod_mod]
  split_ifs
  · rfl
  · rw [List.append_assoc]

namespace Dfu

variable {d d' : Dfu} {f : NvmFlash} {es : List DfuEvent} {addr : ℕ}

/-- Between two events, the page buffer is empty. -/
theorem latch_blank (h : machine.Run Machine.always (init addr) es d) (hf : f.latch = .blank) :
    (d.flash f).latch = .blank := by
  refine h.invariant (I := fun d => (d.flash f).latch = .blank) hf fun d e d' hd _ hst => ?_
  cases e with
  | block num len =>
    obtain rfl := Option.some.inj hst
    show ((d.dnloadBlock num len).nvm.ops.foldl NvmFlash.op f).latch = .blank
    obtain ⟨he, -⟩ | ⟨-, -, he⟩ := dnloadBlock_cases d num len
    · rw [he]
      exact hd
    · rw [he]
      show ((d.nvm.ops ++ _).foldl NvmFlash.op f).latch = .blank
      rw [List.foldl_append]
      exact hd
  | packet offset data =>
    simp only [machine, step] at hst
    split at hst
    next num len hb =>
      obtain ⟨-, hd'⟩ := Option.ite_none_right_eq_some.1 hst
      obtain rfl := Option.some.inj hd'
      show (((Nvm.storeWords _ _ _).ops ++ _).foldl NvmFlash.op f).latch = .blank
      rw [List.foldl_append]
      rfl
    next => cases hst

/-- A request for a block in the firmware region. -/
theorem step_block (num len : BitVec 16) (f : NvmFlash) (hlen : len.toNat ≤ dfuTransferSize)
    (hnum : num.toNat * dfuTransferSize ≤ flashFwSize) :
    ∃ d', machine.step d (.block num len) = some d' ∧ d'.block = some (num, len) ∧
      d'.flash f = { d.flash f with
        memory := (d.flash f).memory.erase (flashFwStart + num.toNat * dfuTransferSize)
          dfuTransferSize } := by
  refine ⟨_, rfl, ?_⟩
  unfold dnloadBlock
  rw [if_neg (Nat.not_lt.2 hlen), if_neg (Nat.not_lt.2 hnum)]
  refine ⟨rfl, ?_⟩
  show (d.nvm.ops ++ _).foldl NvmFlash.op f = _
  rw [List.foldl_append]
  have hstart : (NvmOp.eraseRow
      (d.nvm.address (flashFwStart + num.toNat * dfuTransferSize)).addr).start =
      flashFwStart + num.toNat * dfuTransferSize := by
    simp only [NvmOp.start, Nvm.address, flashFwStart, dfuTransferSize, flashPageSize]
    omega
  show NvmFlash.mk (Nor.erase _ (NvmOp.start _) _) _ = _
  rw [hstart]
  rfl

theorem step_of_block {num len : BitVec 16} (hb : d.block = some (num, len)) (offset : BitVec 16)
    (data : List Byte) : machine.step d (.packet offset data) =
      if offset.toNat + data.length ≤ len.toNat then
        some (d.dnloadPacketCompleted num offset data) else none := by
  simp only [machine, step, hb]

theorem step_of_no_block (hb : d.block = none) (offset : BitVec 16) (data : List Byte) :
    machine.step d (.packet offset data) = none := by
  simp only [machine, step, hb]

/-- A packet within a page of the block. -/
theorem step_packet {num len : BitVec 16} (offset : BitVec 16) (data : List Byte)
    (hb : d.block = some (num, len)) (hin : offset.toNat + data.length ≤ len.toNat)
    (hlatch : (d.flash f).latch = .blank) (heven : offset.toNat % 2 = 0)
    (hfit : offset.toNat % flashPageSize + data.length ≤ flashPageSize) :
    ∃ d', machine.step d (.packet offset data) = some d' ∧ d'.block = some (num, len) ∧
      d'.flash f = ⟨(d.flash f).memory.program
        (.mask (flashFwStart + num.toNat * dfuTransferSize + offset.toNat) (padded data)),
        .blank⟩ := by
  refine ⟨d.dnloadPacketCompleted num offset data, ?_, hb, ?_⟩
  · rw [step_of_block hb]
    exact if_pos hin
  · have hwhole : data.take (data.length % 256) = data := by
      refine List.take_of_length_le ?_
      simp only [flashPageSize] at hfit
      omega
    unfold dnloadPacketCompleted
    rw [hwhole]
    refine NvmFlash.ops_writePage hlatch ?_ ?_
    · simp only [flashFwStart, dfuTransferSize, flashPageSize]
      omega
    · simp only [flashFwStart, dfuTransferSize, flashPageSize] at hfit ⊢
      omega

/-- The packets of a block, from one of them on. -/
theorem exec_packets {num len : BitVec 16} {j : ℕ} (data : List Byte)
    (hb : d.block = some (num, len)) (hlen : len.toNat ≤ dfuTransferSize)
    (hin : 64 * j + data.length ≤ len.toNat) (hlatch : (d.flash f).latch = .blank) :
    ∃ d', machine.exec d (((Buffer.chunks 64 data).zipIdx j).map fun (packet, j) =>
        .packet (BitVec.ofNat 16 (64 * j)) packet) = some d' ∧
      d'.flash f = ⟨(d.flash f).memory.program
        (.mask (flashFwStart + num.toNat * dfuTransferSize + 64 * j) (padded data)), .blank⟩ := by
  induction data using Buffer.chunks_induction (show 0 < 64 by decide) generalizing d j with
  | nil =>
    refine ⟨d, by rw [Buffer.chunks_nil]; rfl, ?_⟩
    show d.flash f = NvmFlash.mk (Nor.program _ (Nor.mask _ [])) _
    rw [Nor.mask_nil, Nor.program_blank, ← hlatch]
  | step data hne ih =>
    have hpos := List.length_pos_iff.2 hne
    have htake : (data.take 64).length = min 64 data.length := List.length_take
    have hsmall : len.toNat ≤ 256 := hlen
    have hoffset : (BitVec.ofNat 16 (64 * j)).toNat = 64 * j := by
      rw [BitVec.toNat_ofNat]
      omega
    obtain ⟨d₁, hst, hb₁, hflash₁⟩ := step_packet (BitVec.ofNat 16 (64 * j))
      (data.take 64) hb (by omega) hlatch (by omega) (by
        simp only [flashPageSize]
        omega)
    rw [hoffset] at hflash₁
    have hlatch₁ : (d₁.flash f).latch = .blank := by rw [hflash₁]
    rw [Buffer.chunks_of_ne_nil (by decide) hne, List.zipIdx_cons, List.map_cons]
    by_cases hlast : data.length ≤ 64
    · have hdrop : data.drop 64 = [] := List.drop_eq_nil_of_le hlast
      refine ⟨d₁, ?_, ?_⟩
      · rw [hdrop, Buffer.chunks_nil, Machine.exec, hst]
        rfl
      · rw [hflash₁, List.take_of_length_le hlast]
    · have hdrop : (data.drop 64).length = data.length - 64 := List.length_drop
      obtain ⟨d₂, hex, hflash₂⟩ := ih hb₁ (j := j + 1) (by omega) hlatch₁
      refine ⟨d₂, ?_, ?_⟩
      · rw [Machine.exec, hst]
        exact hex
      · have hpad : padded data = data.take 64 ++ padded (data.drop 64) := by
          conv_lhs => rw [← List.take_append_drop 64 data]
          exact padded_append (by omega)
        have hwhole : padded (data.take 64) = data.take 64 := if_pos (by omega)
        rw [hflash₂, hflash₁, hwhole, hpad, Nor.program_append, htake, Nat.min_eq_left (by omega)]
        rfl

/-- A block: its row is erased and programmed. -/
theorem exec_block {k : ℕ} (data : List Byte) (hlen : data.length ≤ dfuTransferSize)
    (hk : k * dfuTransferSize ≤ flashFwSize) (hlatch : (d.flash f).latch = .blank) :
    ∃ d', machine.exec d (blockEvents k data) = some d' ∧
      d'.flash f = ⟨((d.flash f).memory.erase (flashFwStart + k * dfuTransferSize)
        dfuTransferSize).program
          (.mask (flashFwStart + k * dfuTransferSize) (padded data)), .blank⟩ := by
  have hk' : (BitVec.ofNat 16 k).toNat = k := by
    rw [BitVec.toNat_ofNat]
    simp only [dfuTransferSize, flashPageSize, flashFwSize, flashBootSize, flashConfigSize] at hk
    omega
  have hlen' : (BitVec.ofNat 16 data.length).toNat = data.length := by
    rw [BitVec.toNat_ofNat]
    simp only [dfuTransferSize, flashPageSize] at hlen
    omega
  obtain ⟨d₁, hst, hb₁, hflash₁⟩ := step_block (d := d) (BitVec.ofNat 16 k)
    (BitVec.ofNat 16 data.length) f (by omega) (by rw [hk']; exact hk)
  rw [hk'] at hflash₁
  obtain ⟨d₂, hex, hflash₂⟩ := exec_packets (f := f) (j := 0) data hb₁ (by omega)
    (by omega) (by rw [hflash₁]; exact hlatch)
  rw [hk', hflash₁] at hflash₂
  exact ⟨d₂, by rw [blockEvents, Machine.exec, hst]; exact hex, hflash₂⟩

/-- The blocks of an image, from one of them on. -/
theorem exec_blocks {k : ℕ} (image : List Byte)
    (hlen : k * dfuTransferSize + image.length ≤ flashFwSize)
    (hlatch : (d.flash f).latch = .blank) :
    ∃ d', machine.exec d (((Buffer.chunks dfuTransferSize image).zipIdx k).flatMap
        fun (data, i) => blockEvents i data) = some d' ∧
      (d'.flash f).memory.Holds (flashFwStart + k * dfuTransferSize) image ∧
      ∀ i, i < flashFwStart + k * dfuTransferSize ∨
        flashFwStart + (k + (Buffer.chunks dfuTransferSize image).length) * dfuTransferSize ≤ i →
          (d'.flash f).memory i = (d.flash f).memory i := by
  have hsize : 0 < dfuTransferSize := by decide
  induction image using Buffer.chunks_induction hsize generalizing d k with
  | nil => exact ⟨d, by rw [Buffer.chunks_nil]; rfl, Nor.holds_nil, fun _ _ => rfl⟩
  | step image hne ih =>
    have hpos := List.length_pos_iff.2 hne
    have htake : (image.take dfuTransferSize).length = min dfuTransferSize image.length :=
      List.length_take
    have hdrop : (image.drop dfuTransferSize).length = image.length - dfuTransferSize :=
      List.length_drop
    obtain ⟨d₁, hex₁, hflash₁⟩ := exec_block (d := d) (k := k) (image.take dfuTransferSize)
      (by omega) (by omega) hlatch
    rw [Buffer.chunks_of_ne_nil hsize hne, List.zipIdx_cons, List.flatMap_cons, List.length_cons]
    have hpadded : (padded (image.take dfuTransferSize)).length ≤ dfuTransferSize :=
      NvmFlash.length_padded_le (by omega) (by decide)
    -- the first block
    have hheld : (d₁.flash f).memory.Holds (flashFwStart + k * dfuTransferSize)
        (image.take dfuTransferSize) := by
      have hpad := (Nor.erased_erase (d.flash f).memory (flashFwStart + k * dfuTransferSize)
        dfuTransferSize).program hpadded
      rw [hflash₁]
      unfold padded at hpad ⊢
      split_ifs at hpad ⊢
      · exact hpad
      · exact (Nor.holds_append.1 hpad).1
    have hframe₁ (i : ℕ) (hi : i < flashFwStart + k * dfuTransferSize ∨
        flashFwStart + (k + 1) * dfuTransferSize ≤ i) :
        (d₁.flash f).memory i = (d.flash f).memory i := by
      rw [hflash₁]
      rw [Nat.add_mul] at hi
      show Nor.program _ _ i = _
      rw [Nor.program_eq_self (by omega), Nor.erase_eq_self (by omega)]
    by_cases hlast : image.length ≤ dfuTransferSize
    · have hnil : image.drop dfuTransferSize = [] := List.drop_eq_nil_of_le hlast
      rw [List.take_of_length_le hlast] at hex₁ hheld ⊢
      rw [hnil, Buffer.chunks_nil]
      refine ⟨d₁, ?_, hheld, hframe₁⟩
      show machine.exec d (blockEvents k image ++ []) = some d₁
      rw [List.append_nil, hex₁]
    · -- the others, which leave the first one alone
      have hsucc : (k + 1) * dfuTransferSize = k * dfuTransferSize + dfuTransferSize :=
        Nat.succ_mul _ _
      obtain ⟨d₂, hex₂, hheld₂, hframe₂⟩ := ih (d := d₁) (k := k + 1) (by omega)
        (by rw [hflash₁])
      refine ⟨d₂, ?_, ?_, fun i hi => ?_⟩
      · rw [Machine.exec_append, hex₁]
        exact hex₂
      · rw [← List.take_append_drop dfuTransferSize image]
        refine Nor.holds_append.2 ⟨fun i hi => ?_, ?_⟩
        · exact (hframe₂ _ (by omega)).trans (hheld i hi)
        · rw [htake, Nat.min_eq_left (by omega), Nat.add_assoc, ← hsucc]
          exact hheld₂
      · rw [← Nat.add_assoc, Nat.add_right_comm] at hi
        have hle := Nat.mul_le_mul_right dfuTransferSize (Nat.le_add_right (k + 1)
          (Buffer.chunks dfuTransferSize (image.drop dfuTransferSize)).length)
        rw [hframe₂ i (by omega), hframe₁ i (by omega)]

/-- **The flash holds the image.**  After any requests and packets, in particular after downloads
that have been cut off, a download of an image that fits into the firmware region is carried out,
the region begins with the image, and nothing outside of the rows of the image has changed. -/
theorem downloaded (h : machine.Run Machine.always (init addr) es d) (hf : f.latch = .blank)
    {image : List Byte} (hlen : image.length ≤ flashFwSize) :
    ∃ d', machine.exec d (download image) = some d' ∧
      (d'.flash f).memory.Holds flashFwStart image ∧
      ∀ i, i < flashFwStart ∨
        flashFwStart + (Buffer.chunks dfuTransferSize image).length * dfuTransferSize ≤ i →
          (d'.flash f).memory i = (d.flash f).memory i := by
  have hblocks := exec_blocks (k := 0) image (by omega) (latch_blank h hf)
  rw [Nat.zero_mul, Nat.add_zero, Nat.zero_add] at hblocks
  exact hblocks

/-- An image of one whole block and three bytes, with the stack pointer `0x20001000` and the entry
point `0x1101`. -/
def smallImage : List Byte :=
  [0x00#8, 0x10#8, 0x00#8, 0x20#8, 0x01#8, 0x11#8, 0x00#8, 0x00#8] ++ List.replicate 251 0xA5#8

/-- The flash has been erased. -/
def erasedFlash : NvmFlash := ⟨.blank, .blank⟩

theorem downloaded_smallImage :
    ∃ d', machine.exec (init 0) (lastBlockRun ++ download smallImage) = some d' ∧
      (d'.flash erasedFlash).memory.Holds flashFwStart smallImage ∧
      (d'.flash erasedFlash).memory (flashFwStart + 1003 * 256 + 254) = 0x5A#8 := by
  have h : (machine.exec (init 0) lastBlockRun).map (fun d =>
      (d.flash erasedFlash).memory (flashFwStart + 1003 * 256 + 254)) = some 0x5A#8 := by
    decide +kernel
  obtain ⟨d, hd, hbyte⟩ := Option.map_eq_some_iff.1 h
  have hlen : smallImage.length ≤ flashFwSize := by decide +kernel
  obtain ⟨d', hd', hheld, hframe⟩ := downloaded (f := erasedFlash) (Machine.run_of_exec hd) rfl hlen
  refine ⟨d', ?_, hheld, ?_⟩
  · rw [Machine.exec_append, hd, Option.bind_some, hd']
  · exact (hframe _ (.inr (by decide +kernel))).trans hbyte

/-! ### A download that is cut off -/

/-- The first page of the firmware is not touched: a later block, or a later packet of the first
one. -/
def Beyond : Bool → List DfuEvent → Prop
  | _, [] => True
  | _, .block num _ :: es => 1 ≤ num.toNat ∧ Beyond false es
  | first, .packet offset data :: es =>
    (first → flashPageSize ≤ offset.toNat) ∧ offset.toNat % 2 = 0 ∧
      offset.toNat % flashPageSize + data.length ≤ flashPageSize ∧ Beyond first es

theorem Beyond.initial {first : Bool} {es es' : List DfuEvent} (h : Beyond first es)
    (hpre : es' <+: es) : Beyond first es' := by
  induction es' generalizing first es with
  | nil => trivial
  | cons e es' ih =>
    obtain ⟨rest, rfl⟩ := hpre
    cases e with
    | block num len => exact ⟨h.1, ih h.2 (List.prefix_append _ _)⟩
    | packet offset data =>
      exact ⟨h.1, h.2.1, h.2.2.1, ih h.2.2.2 (List.prefix_append _ _)⟩

theorem beyond_packets {first : Bool} {j : ℕ} (data : List Byte) {es : List DfuEvent}
    (hfirst : first → 1 ≤ j) (hlen : 64 * j + data.length ≤ dfuTransferSize)
    (hes : Beyond first es) :
    Beyond first ((((Buffer.chunks 64 data).zipIdx j).map fun (packet, j) =>
      .packet (BitVec.ofNat 16 (64 * j)) packet) ++ es) := by
  induction data using Buffer.chunks_induction (show 0 < 64 by decide) generalizing j with
  | nil =>
    rw [Buffer.chunks_nil]
    exact hes
  | step data hne ih =>
    have hpos := List.length_pos_iff.2 hne
    have htake : (data.take 64).length = min 64 data.length := List.length_take
    have hdrop : (data.drop 64).length = data.length - 64 := List.length_drop
    simp only [dfuTransferSize, flashPageSize] at hlen
    have hoffset : (BitVec.ofNat 16 (64 * j)).toNat = 64 * j := by
      rw [BitVec.toNat_ofNat]
      omega
    rw [Buffer.chunks_of_ne_nil (by decide) hne, List.zipIdx_cons, List.map_cons]
    refine ⟨fun hf => ?_, by omega, ?_, ?_⟩
    · have := hfirst hf
      simp only [flashPageSize]
      omega
    · simp only [flashPageSize]
      omega
    · by_cases hlast : data.length ≤ 64
      · rw [List.drop_eq_nil_of_le hlast, Buffer.chunks_nil]
        exact hes
      · exact ih (fun hf => by omega) (by simp only [dfuTransferSize, flashPageSize]; omega)

theorem beyond_blocks {k : ℕ} (image : List Byte) (hk : 1 ≤ k)
    (hlen : k * dfuTransferSize + image.length ≤ flashFwSize) :
    Beyond false (((Buffer.chunks dfuTransferSize image).zipIdx k).flatMap
      fun (data, i) => blockEvents i data) := by
  have hsize : 0 < dfuTransferSize := by decide
  induction image using Buffer.chunks_induction hsize generalizing k with
  | nil =>
    rw [Buffer.chunks_nil]
    trivial
  | step image hne ih =>
    have hpos := List.length_pos_iff.2 hne
    have htake : (image.take dfuTransferSize).length = min dfuTransferSize image.length :=
      List.length_take
    have hdrop : (image.drop dfuTransferSize).length = image.length - dfuTransferSize :=
      List.length_drop
    have hk' : (BitVec.ofNat 16 k).toNat = k := by
      rw [BitVec.toNat_ofNat]
      simp only [dfuTransferSize, flashPageSize, flashFwSize, flashBootSize, flashConfigSize]
        at hlen
      omega
    rw [Buffer.chunks_of_ne_nil hsize hne, List.zipIdx_cons, List.flatMap_cons]
    refine ⟨hk'.symm ▸ hk, beyond_packets _ (fun hf => absurd hf Bool.false_ne_true) (by omega) ?_⟩
    by_cases hlast : image.length ≤ dfuTransferSize
    · rw [List.drop_eq_nil_of_le hlast, Buffer.chunks_nil]
      trivial
    · have hsucc : (k + 1) * dfuTransferSize = k * dfuTransferSize + dfuTransferSize :=
        Nat.succ_mul _ _
      exact ih (by omega) (by omega)

/-- Such events leave the first page alone. -/
theorem Beyond.memory_eq {first : Bool} (h : Beyond first es)
    (hblock : first = false → ∀ num len, d.block = some (num, len) → 1 ≤ num.toNat)
    (hlatch : (d.flash f).latch = .blank) (hex : machine.exec d es = some d') {i : ℕ}
    (hi : i < flashFwStart + flashPageSize) : (d'.flash f).memory i = (d.flash f).memory i := by
  have hsize : dfuTransferSize = 256 := rfl
  have hpage : flashPageSize = 64 := rfl
  induction es generalizing d first with
  | nil =>
    cases hex
    rfl
  | cons e es ih =>
    obtain ⟨d₁, hst, hex'⟩ := Option.bind_eq_some_iff.1 hex
    cases e with
    | block num len =>
      obtain ⟨hnum, h⟩ := h
      obtain rfl : d.dnloadBlock num len = d₁ := Option.some.inj hst
      obtain ⟨he, -⟩ | ⟨hlen, hle, he⟩ := dnloadBlock_cases d num len
      · -- a request that is refused
        rw [he] at hex'
        exact ih h (d := d.error) (fun _ _ _ hb => by cases hb) hlatch hex'
      · obtain ⟨d₂, hst₂, hb₂, hflash⟩ := step_block (d := d) num len f hlen hle
        obtain rfl : d.dnloadBlock num len = d₂ := Option.some.inj hst₂
        rw [ih h (fun _ num' len' hb => ?_) (by rw [hflash]; exact hlatch) hex', hflash]
        · have hmul := Nat.mul_le_mul_right dfuTransferSize hnum
          exact Nor.erase_eq_self (by omega)
        · rw [hb₂] at hb
          cases hb
          exact hnum
    | packet offset data =>
      obtain ⟨hfirst, heven, hfit, h⟩ := h
      cases hb : d.block with
      | none =>
        rw [step_of_no_block hb] at hst
        cases hst
      | some request =>
        obtain ⟨num, len⟩ := request
        have hin : offset.toNat + data.length ≤ len.toNat := by
          rw [step_of_block hb] at hst
          exact (Option.ite_none_right_eq_some.1 hst).1
        obtain ⟨d₂, hst₂, hb₂, hflash⟩ := step_packet offset data hb hin hlatch heven hfit
        obtain rfl : d₁ = d₂ := Option.some.inj (hst.symm.trans hst₂)
        rw [ih h (fun hf num' len' hb' => ?_) (by rw [hflash]) hex', hflash]
        · refine Nor.program_eq_self (.inl ?_)
          cases first with
          | true =>
            have := hfirst rfl
            omega
          | false =>
            have hmul := Nat.mul_le_mul_right dfuTransferSize (hblock rfl num len hb)
            omega
        · rw [hb₂] at hb'
          cases hb'
          exact hblock hf num len hb

theorem flashWord_congr {m m' : Nor 8} {i : ℕ} (h : ∀ j, i ≤ j → j < i + 4 → m j = m' j) :
    flashWord m i = flashWord m' i := by
  unfold flashWord
  rw [h i (by omega) (by omega), h (i + 1) (by omega) (by omega), h (i + 2) (by omega) (by omega),
    h (i + 3) (by omega) (by omega)]

/-- Only the first two words count. -/
theorem flashValid_congr {m m' : Nor 8}
    (h : ∀ i, flashFwStart ≤ i → i < flashFwStart + 8 → m i = m' i) :
    flashValid m = flashValid m' := by
  unfold flashValid
  rw [flashWord_congr fun j hj hj' => h j hj (by omega),
    flashWord_congr (i := flashFwStart + 4) fun j hj hj' => h j (by omega) (by omega)]

theorem flashValid_of_erased {m : Nor 8} (h : m.Erased flashFwStart 8) : flashValid m = false := by
  have hword : flashWord m flashFwStart = 0xFFFFFFFF#32 := by
    unfold flashWord
    have h0 := h 0 (by decide)
    rw [Nat.add_zero] at h0
    rw [h0, h 1 (by decide), h 2 (by decide), h 3 (by decide)]
    decide
  unfold flashValid
  rw [hword]
  rfl

/-- A download begins with a request and a packet for the first page. -/
theorem download_eq {image : List Byte} (hne : image ≠ []) (hlen : image.length ≤ flashFwSize) :
    ∃ len es, len.toNat ≤ dfuTransferSize ∧ (image.take 64).length ≤ len.toNat ∧
      download image = .block 0#16 len :: .packet 0#16 (image.take 64) :: es ∧
      Beyond true es := by
  have hsize : 0 < dfuTransferSize := by decide
  have hpos := List.length_pos_iff.2 hne
  have htake : (image.take dfuTransferSize).length = min dfuTransferSize image.length :=
    List.length_take
  have hdrop : (image.drop dfuTransferSize).length = image.length - dfuTransferSize :=
    List.length_drop
  have hrest : ((image.take dfuTransferSize).drop 64).length =
      (image.take dfuTransferSize).length - 64 := List.length_drop
  have hfirst : (image.take dfuTransferSize).take 64 = image.take 64 := by
    rw [List.take_take]
    rfl
  have hne' : image.take dfuTransferSize ≠ [] := by
    rw [← List.length_pos_iff]
    omega
  have hfit : dfuTransferSize = 256 := rfl
  have hlen' : (BitVec.ofNat 16 (image.take dfuTransferSize).length).toNat =
      (image.take dfuTransferSize).length := by
    rw [BitVec.toNat_ofNat]
    omega
  have hlater : Beyond true (((Buffer.chunks dfuTransferSize (image.drop dfuTransferSize)).zipIdx
      1).flatMap fun (data, i) => blockEvents i data) := by
    by_cases hlast : image.length ≤ dfuTransferSize
    · rw [List.drop_eq_nil_of_le hlast, Buffer.chunks_nil]
      trivial
    · have hblocks := beyond_blocks (k := 1) (image.drop dfuTransferSize) (Nat.le_refl 1) (by omega)
      -- nothing comes before the next request
      rw [Buffer.chunks_of_ne_nil hsize (by rw [← List.length_pos_iff]; omega), List.zipIdx_cons,
        List.flatMap_cons] at hblocks ⊢
      exact hblocks
  refine ⟨BitVec.ofNat 16 (image.take dfuTransferSize).length, _, by omega, ?_, ?_,
    beyond_packets (j := 1) ((image.take dfuTransferSize).drop 64) (fun _ => Nat.le_refl 1)
      (by omega) hlater⟩
  · rw [hlen', List.length_take]
    omega
  · rw [download, Buffer.chunks_of_ne_nil hsize hne, List.zipIdx_cons, List.flatMap_cons]
    show blockEvents 0 (image.take dfuTransferSize) ++ _ = _
    rw [blockEvents, Buffer.chunks_of_ne_nil (by decide) hne', List.zipIdx_cons, List.map_cons,
      hfirst]
    rfl

/-- **What the bootloader takes for an image.**  When a download is cut off after the first request,
the bootloader does not start what is in the flash; from the first packet on, it decides by the
vector table of the new image, although the rest has not come. -/
theorem flashValid_cutOff (h : machine.Run Machine.always (init addr) es d) (hf : f.latch = .blank)
    {image : List Byte} (hmin : 8 ≤ image.length) (hlen : image.length ≤ flashFwSize)
    {ls : List DfuEvent} (hpre : ls <+: download image) (hex : machine.exec d ls = some d') :
    flashValid (d'.flash f).memory =
      if ls.length = 0 then flashValid (d.flash f).memory
      else if ls.length = 1 then false
      else flashValid (.mask flashFwStart image) := by
  have hpage : flashPageSize = 64 := rfl
  have hsize : dfuTransferSize = 256 := rfl
  have hne : image ≠ [] := by
    rw [← List.length_pos_iff]
    omega
  obtain ⟨len, rest, hle, hfirst, hdownload, hbeyond⟩ := download_eq hne hlen
  rw [hdownload] at hpre
  have hstart : flashFwStart + (0#16).toNat * dfuTransferSize = flashFwStart := by
    rw [BitVec.toNat_ofNat, Nat.zero_mod, Nat.zero_mul, Nat.add_zero]
  -- the request erases the row
  obtain ⟨d₁, hst₁, hb₁, hflash₁⟩ := step_block (d := d) 0#16 len f hle (by
    rw [BitVec.toNat_ofNat, Nat.zero_mod, Nat.zero_mul]
    exact Nat.zero_le _)
  rw [hstart] at hflash₁
  have herased : (d₁.flash f).memory.Erased flashFwStart dfuTransferSize := by
    rw [hflash₁]
    exact Nor.erased_erase _ _ _
  have hlatch₁ : (d₁.flash f).latch = .blank := by
    rw [hflash₁]
    exact latch_blank h hf
  rcases ls with _ | ⟨e, _ | ⟨e', ls⟩⟩
  · cases hex
    rfl
  · obtain ⟨rfl, -⟩ := List.cons_prefix_cons.1 hpre
    obtain ⟨_, hst, hex⟩ := Option.bind_eq_some_iff.1 hex
    cases hex
    obtain rfl := Option.some.inj (hst₁.symm.trans hst)
    exact flashValid_of_erased (herased.mono _ _ (Nat.le_refl _) (by omega))
  · obtain ⟨rfl, htail⟩ := List.cons_prefix_cons.1 hpre
    obtain ⟨rfl, hlater⟩ := List.cons_prefix_cons.1 htail
    obtain ⟨_, hst, hex⟩ := Option.bind_eq_some_iff.1 hex
    obtain rfl := Option.some.inj (hst₁.symm.trans hst)
    obtain ⟨d₂, hst₂, hex⟩ := Option.bind_eq_some_iff.1 hex
    have htake : (image.take 64).length = min 64 image.length := List.length_take
    have hzero : (0#16).toNat = 0 := rfl
    obtain ⟨_, hst', hb₂, hflash₂⟩ := step_packet (f := f) 0#16
      (image.take 64) hb₁ (by omega) hlatch₁ rfl (by rw [hzero, Nat.zero_mod]; omega)
    obtain rfl := Option.some.inj (hst₂.symm.trans hst')
    rw [hstart, hzero, Nat.add_zero] at hflash₂
    have hkeep (i : ℕ) (hi : i < flashFwStart + flashPageSize) :
        (d'.flash f).memory i = (d₂.flash f).memory i :=
      (hbeyond.initial hlater).memory_eq (fun hf => absurd hf.symm Bool.false_ne_true)
        (by rw [hflash₂]) hex hi
    -- the first page holds the beginning of the image
    have hpadded : (padded (image.take 64)).length ≤ dfuTransferSize :=
      NvmFlash.length_padded_le (by omega) (by decide)
    have hheld : (d₂.flash f).memory.Holds flashFwStart (padded (image.take 64)) := by
      rw [hflash₂]
      exact herased.program hpadded
    refine flashValid_congr fun i hi hi' => ?_
    obtain ⟨j, rfl⟩ := Nat.exists_eq_add_of_le hi
    have hj : j < (image.take 64).length := by omega
    have hjp : j < (padded (image.take 64)).length := by
      unfold padded
      split_ifs
      · exact hj
      · rw [List.length_append]
        omega
    have hbyte : (padded (image.take 64))[j] = (image.take 64)[j] := by
      unfold padded
      split_ifs
      · rfl
      · exact List.getElem_append_left hj
    rw [hkeep _ (by omega), hheld j hjp, hbyte, List.getElem_take,
      Nor.mask_add (by omega : j < image.length)]

/-- A whole image is started, and so is one of which only the first packet has come. -/
theorem flashValid_smallImage :
    ∃ d', machine.exec (init 0) ((download smallImage).take 2) = some d' ∧
      flashValid (d'.flash erasedFlash).memory = true := by
  have h : ((machine.exec (init 0) ((download smallImage).take 2)).map fun _ => ()) = some () := by
    decide +kernel
  obtain ⟨d', hd', -⟩ := Option.map_eq_some_iff.1 h
  refine ⟨d', hd', ?_⟩
  have hlen : 8 ≤ smallImage.length ∧ smallImage.length ≤ flashFwSize := by decide +kernel
  rw [flashValid_cutOff (f := erasedFlash) .nil rfl hlen.1 hlen.2 (List.take_prefix _ _) hd']
  decide +kernel

end Dfu

end TesselFirmware
