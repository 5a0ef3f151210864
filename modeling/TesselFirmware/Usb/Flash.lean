import TesselFirmware.Memory.Buffer
import TesselFirmware.Memory.Byte

/-!
# SPI flash over USB (`firmware/flash.c`)

An OUT transfer holds a header and the bytes for the flash: the firmware polls the status register
and sends the write enable command if the header says so, sends the bytes, and reads as many bytes
as the header asks for, which go to the IN endpoint in pieces of the size of `flash_buffer`.

Every function returns what it does with the pins, the DMA channels and the endpoints, in order.
`Flash.Busy` says what they have in common: the state they leave waits for what they have started.
-/

namespace TesselFirmware

/-- `FLASH_BUFFER_SIZE`. -/
def flashBufferSize : ℕ := 512

/-- `FlashState`. -/
inductive FlashState
  | disable
  | idle
  | out
  | inSpi
  | inUsb
  | srPollOut
  | srPollIn
  | wrenOut
  deriving DecidableEq, Repr

/-- The state is left when a DMA transfer is complete. -/
def FlashState.waitsForDma : FlashState → Bool
  | out | inSpi | srPollOut | srPollIn | wrenOut => true
  | _ => false

/-- A pair of DMA transfers on the SPI bus: what is sent, and where the received bytes go. -/
inductive FlashTransfer
  /-- Send these bytes and drop what is received. -/
  | send (data : List Byte)
  /-- Receive one byte into `flash_byte`. -/
  | readByte
  /-- Receive into `flash_buffer`. -/
  | read (len : ℕ)
  deriving DecidableEq

inductive FlashAct
  /-- `sercom_spi_master_init`, and both DMA channels are reset and configured. -/
  | configure
  /-- `dma_abort` of both DMA channels. -/
  | abort
  /-- `pin_low(PIN_FLASH_CS)`. -/
  | select
  /-- `pin_high(PIN_FLASH_CS)`. -/
  | deselect
  | start (t : FlashTransfer)
  /-- `usb_ep_start_out(USB_EP_FLASH_OUT, flash_buffer, FLASH_BUFFER_SIZE)`. -/
  | startOut
  /-- `usb_ep_start_in(USB_EP_FLASH_IN, flash_buffer, ...)` of these bytes. -/
  | startIn (data : List Byte)
  | invalid
  deriving DecidableEq

/-- The globals of `flash.c`. -/
structure Flash where
  inCount : ℕ
  outCount : ℕ
  flagSrPoll : Bool
  flagWren : Bool
  byte : Byte
  state : FlashState
  buffer : Cells Byte flashBufferSize

namespace Flash

/-- The globals before `flash_init`. -/
def initial : Flash where
  inCount := 0
  outCount := 0
  flagSrPoll := false
  flagWren := false
  byte := 0#8
  state := .disable
  buffer := .fill 0#8

variable (f : Flash)

/-- `flash_init`. -/
def init : Flash × List FlashAct :=
  ({ f with state := .idle }, [.configure, .deselect, .startOut])

/-- `flash_disable`. -/
def disable : Flash × List FlashAct := ({ f with state := .disable }, [.abort])

/-- `flash_in_packet_len`. -/
def inPacketLen : ℕ := if flashBufferSize < f.inCount then flashBufferSize else f.inCount

/-- `flash_start_read`. -/
def startRead : Flash × List FlashAct :=
  if 0 < f.inCount then
    ({ f with state := .inSpi }, [.start (.read f.inPacketLen)])
  else
    ({ f with state := .idle }, [.deselect, .startOut])

/-- `flash_start_write`. -/
def startWrite : Flash × List FlashAct :=
  if 0 < f.outCount then
    ({ f with state := .out }, [.select, .start (.send (f.buffer.slice 4 f.outCount))])
  else
    -- only a read, with the chip selected for it
    (f.startRead.1, .select :: f.startRead.2)

/-- `flash_start_wren`. -/
def startWren : Flash × List FlashAct :=
  if f.flagWren then
    ({ f with byte := 0x06#8, state := .wrenOut }, [.select, .start (.send [0x06#8])])
  else f.startWrite

/-- `flash_read_sr_poll`. -/
def readSrPoll : Flash × List FlashAct := ({ f with state := .srPollIn }, [.start .readByte])

/-- `flash_start_sr_poll`. -/
def startSrPoll : Flash × List FlashAct :=
  if f.flagSrPoll then
    ({ f with byte := 0x05#8, state := .srPollOut }, [.select, .start (.send [0x05#8])])
  else f.startWren

/-- `flash_usb_out_completion`, with what the endpoint has received into `flash_buffer`. -/
def usbOutCompletion (data : List Byte) : Flash × List FlashAct :=
  let f := { f with buffer := f.buffer.write 0 data }
  if f.state = .idle then
    -- a transfer without a whole header is dropped
    if data.length < 4 then (f, [])
    else startSrPoll { f with
      outCount := data.length - 4
      inCount := (f.buffer.get 0).toNat + (f.buffer.get 1).toNat * 0x100 +
        (f.buffer.get 2).toNat * 0x10000
      flagSrPoll := Byte.has (f.buffer.get 3) 0
      flagWren := Byte.has (f.buffer.get 3) 1 }
  else (f, [.invalid])

/-- Puts an act before those of a function. -/
def andThen (act : FlashAct) (r : Flash × List FlashAct) : Flash × List FlashAct :=
  (r.1, act :: r.2)

/-- `flash_dma_rx_completion`. -/
def dmaRxCompletion : Flash × List FlashAct :=
  match f.state with
  | .disable => (f, [])
  | .srPollOut => f.readSrPoll
  | .srPollIn =>
    -- the chip is still busy
    if Byte.has f.byte 0 then f.readSrPoll else andThen .deselect f.startWren
  | .wrenOut => andThen .deselect f.startWrite
  | .out => f.startRead
  | .inSpi => ({ f with state := .inUsb }, [.startIn (f.buffer.content f.inPacketLen)])
  | _ => (f, [.invalid])

/-- `flash_usb_in_completion`. -/
def usbInCompletion : Flash × List FlashAct :=
  if f.state = .inUsb then startRead { f with inCount := f.inCount - f.inPacketLen }
  else (f, [.invalid])

/-- What the DMA writes to memory. -/
def receive (data : List Byte) : FlashTransfer → Flash
  | .send _ => f
  | .readByte => { f with byte := data.headD f.byte }
  | .read _ => { f with buffer := f.buffer.write 0 data }

@[simp] theorem receive_state (data : List Byte) (t : FlashTransfer) :
    (f.receive data t).state = f.state := by
  cases t <;> rfl

/-! ### Transfers that are started -/

/-- The acts start a transfer. -/
def starts (acts : List FlashAct) : Bool :=
  acts.any fun
    | .start _ => true
    | _ => false

/-- The acts start an IN transfer. -/
def startsIn (acts : List FlashAct) : Bool :=
  acts.any fun
    | .startIn _ => true
    | _ => false

/-- The flash has been left enabled, waiting for what has been started; nothing has been configured
or aborted. -/
structure Busy (r : Flash × List FlashAct) : Prop where
  enabled : r.1.state ≠ .disable
  waits : r.1.state.waitsForDma = starts r.2
  startOut : .startOut ∈ r.2 → r.1.state = .idle
  startIn : startsIn r.2 → r.1.state = .inUsb
  configure : .configure ∉ r.2
  abort : .abort ∉ r.2

attribute [local simp] FlashState.waitsForDma starts startsIn

variable {f}

theorem Busy.andThen {r : Flash × List FlashAct} {act : FlashAct} (h : Busy r)
    (hact : act = .select ∨ act = .deselect) : Busy (andThen act r) := by
  have hmem {a : FlashAct} (hm : a ∈ act :: r.2) (hs : a ≠ .select) (hd : a ≠ .deselect) :
      a ∈ r.2 := by
    obtain rfl | hm := List.mem_cons.1 hm
    · obtain rfl | rfl := hact
      · exact absurd rfl hs
      · exact absurd rfl hd
    · exact hm
  have hstarts : starts (act :: r.2) = starts r.2 := by obtain rfl | rfl := hact <;> rfl
  have hstartsIn : startsIn (act :: r.2) = startsIn r.2 := by obtain rfl | rfl := hact <;> rfl
  refine ⟨h.enabled, h.waits.trans hstarts.symm, ?_, ?_, ?_, ?_⟩
  · intro hm
    exact h.startOut (hmem hm (by simp) (by simp))
  · intro hm
    exact h.startIn (hstartsIn ▸ hm)
  · intro hm
    exact h.configure (hmem hm (by simp) (by simp))
  · intro hm
    exact h.abort (hmem hm (by simp) (by simp))

variable (f)

theorem startRead_busy : Busy f.startRead := by
  rw [startRead]
  split <;> constructor <;> simp

theorem startWrite_busy : Busy f.startWrite := by
  rw [startWrite]
  split
  · constructor <;> simp
  · exact f.startRead_busy.andThen (.inl rfl)

theorem startWren_busy : Busy f.startWren := by
  rw [startWren]
  split
  · constructor <;> simp
  · exact f.startWrite_busy

theorem readSrPoll_busy : Busy f.readSrPoll := by
  constructor <;> simp [readSrPoll]

theorem startSrPoll_busy : Busy f.startSrPoll := by
  rw [startSrPoll]
  split
  · constructor <;> simp
  · exact f.startWren_busy

variable {f}

/-- An OUT transfer has come for a flash that waits for one. -/
theorem usbOutCompletion_busy (data : List Byte) (h : f.state = .idle) :
    Busy (f.usbOutCompletion data) := by
  rw [usbOutCompletion]
  dsimp only
  rw [if_pos h]
  split
  · constructor <;> simp [h]
  · exact startSrPoll_busy _

/-- An IN transfer that the flash waits for is complete. -/
theorem usbInCompletion_busy (h : f.state = .inUsb) : Busy f.usbInCompletion := by
  rw [usbInCompletion, if_pos h]
  exact startRead_busy _

/-- A DMA transfer that the flash waits for is complete. -/
theorem dmaRxCompletion_busy (hw : f.state.waitsForDma = true) : Busy f.dmaRxCompletion := by
  rw [dmaRxCompletion]
  cases hs : f.state <;> simp only [hs, FlashState.waitsForDma] at hw ⊢
  case out => exact f.startRead_busy
  case inSpi => constructor <;> simp
  case srPollOut => exact f.readSrPoll_busy
  case srPollIn =>
    split
    · exact f.readSrPoll_busy
    · exact f.startWren_busy.andThen (.inr rfl)
  case wrenOut => exact f.startWrite_busy.andThen (.inr rfl)
  all_goals exact absurd hw Bool.false_ne_true

end Flash

end TesselFirmware
