import Mathlib.Data.Int.Notation
import TesselFirmware.Memory.Byte
import TesselFirmware.Memory.Ring

/-!
# Pipe buffers of the USB daemon (`soc/usbexecd.c`)

A `pipebuf_t` is a ring of 32 KiB between the socket to the host and one end of a pipe to a child
process.  Readable ones (stdout, stderr) take what the child writes and send it to the host within
the credit that the host has granted; writable ones (control, stdin) take what the host sends and
write it to the child.

What the kernel answers is an argument of the handlers: the results of `write`, the results of
`read` on the child's pipe, the bytes that come from the socket.  A handler that does not return
to the event loop stops with a `Stop`.
-/

namespace TesselFirmware

/-- Why a handler does not return to the event loop. -/
inductive Stop
  /-- `fatal`. -/
  | fatal
  /-- `exit`. -/
  | exit
  /-- A pipe buffer is used after it has been freed. -/
  | useAfterFree
  /-- The socket was closed in the middle of a packet, `handle_closed_spid_socket`. -/
  | sockClosed
  /-- The kernel does not answer a call, or not as `read` and `write` do. -/
  | noAnswer
  deriving DecidableEq

theorem Except.bind_eq_ok {ε α β : Type} {x : Except ε α} {f : α → Except ε β} {b : β} :
    (x >>= f) = .ok b ↔ ∃ a, x = .ok a ∧ f a = .ok b := by
  cases x with
  | error e =>
    constructor
    · rintro ⟨⟩
    · rintro ⟨a, ⟨⟩, -⟩
  | ok a =>
    constructor
    · intro h
      exact ⟨a, rfl, h⟩
    · rintro ⟨_, ⟨⟩, hf⟩
      exact hf

theorem Except.bind_eq_error {ε α β : Type} {x : Except ε α} {f : α → Except ε β} {e : ε} :
    (x >>= f) = .error e ↔ x = .error e ∨ ∃ a, x = .ok a ∧ f a = .error e := by
  cases x with
  | error e' =>
    constructor
    · intro h
      exact .inl (by cases h; rfl)
    · rintro (h | ⟨a, ⟨⟩, -⟩)
      cases h
      rfl
  | ok a =>
    constructor
    · intro h
      exact .inr ⟨a, rfl, h⟩
    · rintro (⟨⟨⟩⟩ | ⟨_, ⟨⟩, hf⟩)
      exact hf

/-- The value of an `int` as a `size_t`. -/
def sizeT (i : ℤ) : ℕ := (i % 0x100000000).toNat

/-- A number stored in an `int`. -/
def toInt32 (i : ℤ) : ℤ := (BitVec.ofInt 32 i).toInt

/-- The bytes of a memory from `i` on. -/
def load (memory : ℤ → Byte) (i : ℤ) (n : ℕ) : List Byte :=
  (List.range n).map fun k : ℕ => memory (i + k)

/-- A memory after `bytes` have been put at `i`. -/
def store (memory : ℤ → Byte) (i : ℤ) (bytes : List Byte) : ℤ → Byte := fun j =>
  if i ≤ j ∧ j < i + bytes.length then bytes.getD (j - i).toNat 0 else memory j

inductive Role
  | ctrl | stdin | stdout | stderr
  deriving DecidableEq

/-- The value of the role in `enum Roles`. -/
def Role.code : Role → Byte
  | .ctrl => 0#8
  | .stdin => 1#8
  | .stdout => 2#8
  | .stderr => 3#8

def cmdWriteControl : Byte := 0x10#8
def cmdAckControl : Byte := 0x20#8
def cmdCloseControl : Byte := 0x30#8

/-- `INTERNAL_PIPE_BUF_SIZE`. -/
def internalPipeBufSize : ℕ := 32768

/-- `MAX_WRITE_LEN`. -/
def maxWriteLen : ℤ := 255

/-- A packet on the socket: the header and what follows it. -/
structure Frame where
  cmd : Byte
  id : Byte
  arg : Byte
  len : Byte
  payload : List Byte
  deriving DecidableEq

inductive CloseFlag
  | flush | noFlush
  deriving DecidableEq

inductive CloseResult
  | success | alreadyClosed | bufferNotEmpty
  deriving DecidableEq

/-- What `read` on the pipe of a child returns. -/
inductive ReadResult
  | data (bytes : List Byte)
  | again
  | eof
  | error
  deriving DecidableEq

/-- `pipebuf_t`.  An offset outside of the ring is an address outside of the buffer. -/
structure Pipebuf where
  id : Byte
  role : Role
  eof : Bool
  credit : ℤ
  /-- `fd != -1`. -/
  fd : Bool
  startpos : ℤ
  endpos : ℤ
  bufcount : ℤ
  buffer : ℤ → Byte
  /-- The descriptor is registered with epoll, in the kernel. -/
  registered : Bool

/-- `send_header`.  Nothing is sent when the socket has been closed. -/
def sendHeader (sock : Bool) (cmd id arg len : Byte) : List Frame :=
  if sock then [⟨cmd, id, arg, len, []⟩] else []

/-- The number of credits in the bytes of an ACK, as `pipebuf_in_ack` adds them up.  Shifts are
taken modulo 32, as the processor does. -/
def ackSum : ℕ → List Byte → BitVec 32
  | _, [] => 0#32
  | i, b :: bytes => (b.setWidth 32 <<< (i * 8 % 32)) + ackSum (i + 1) bytes

/-- `ack_size`. -/
def ackSize (bytes : List Byte) : ℤ := (ackSum 0 bytes).toInt

/-- The four bytes of an `acksize`, in little-endian order. -/
def sizeBytes (acksize : ℕ) : List Byte :=
  [BitVec.ofNat 8 acksize, BitVec.ofNat 8 (acksize / 0x100), BitVec.ofNat 8 (acksize / 0x10000),
    BitVec.ofNat 8 (acksize / 0x1000000)]

/-- What `write_from_pipebuf` leaves behind: the pipe buffer, the returned total, the bytes that
the descriptor has taken, and the answers of `write` that are left. -/
structure Written where
  pb : Pipebuf
  total : ℤ
  bytes : List Byte
  writes : List ℤ

namespace Pipebuf

variable (pb : Pipebuf)

/-- `pipebuf_common_init`, in memory that `malloc` has returned. -/
def commonInit (buffer : ℤ → Byte) (id : Byte) (role : Role) : Pipebuf where
  id := id
  role := role
  eof := false
  credit := 0
  fd := true
  startpos := 0
  endpos := 0
  bufcount := 0
  buffer := buffer
  registered := false

/-- The loop of `write_from_pipebuf`, with the answers of `write` and the bytes taken so far. -/
def writeLoop : List ℤ → Pipebuf → ℤ → List Byte → Except Stop (Pipebuf × List Byte × List ℤ)
  | [], pb, writeLen, taken =>
    if writeLen = 0 then .ok (pb, taken, []) else .error .noAnswer
  | written :: writes, pb, writeLen, taken =>
    if writeLen = 0 then .ok (pb, taken, written :: writes)
    else
      -- a write stops at the end of the array
      let toWrite := if pb.startpos + writeLen > internalPipeBufSize then
        internalPipeBufSize - pb.startpos else writeLen
      if written < -1 ∨ toWrite < written then .error .noAnswer
      else
        -- the error -1 is added like a number of bytes
        let startpos := pb.startpos + written
        writeLoop writes
          { pb with
            startpos := if startpos = internalPipeBufSize then 0 else startpos
            bufcount := pb.bufcount - written }
          (writeLen - written) (taken ++ load pb.buffer pb.startpos written.toNat)

/-- `write_from_pipebuf`.  The loop ends when `write_len` is 0. -/
def writeFromPipebuf (writeLen : ℤ) (writes : List ℤ) : Except Stop Written := do
  let (pb', bytes, rest) ← writeLoop writes pb writeLen []
  return ⟨pb', writeLen - 0, bytes, rest⟩

/-- `add_pipebuf_epoll`: the kernel refuses a descriptor that is closed or registered. -/
def addEpoll : Except Stop Pipebuf :=
  if pb.fd && !pb.registered then .ok { pb with registered := true } else .error .fatal

/-- `delete_pipebuf_epoll`: the kernel refuses a descriptor that is not registered. -/
def deleteEpoll : Except Stop Pipebuf :=
  if pb.fd && pb.registered then .ok { pb with registered := false } else .error .fatal

/-- `pipebuf_common_close`.  A descriptor that is closed leaves epoll. -/
def commonClose (flag : CloseFlag) : Pipebuf × CloseResult :=
  if pb.bufcount = 0 ∨ flag = .noFlush then
    if pb.fd then
      ({ pb with
          eof := true, fd := false, startpos := 0, endpos := 0, bufcount := 0,
          registered := false }, .success)
    else ({ pb with eof := true }, .alreadyClosed)
  else ({ pb with eof := true }, .bufferNotEmpty)

/-! ### Readable pipe buffers: stdout and stderr -/

/-- `pipebuf_in_init`. -/
def inInit (buffer : ℤ → Byte) (id : Byte) (role : Role) : Except Stop Pipebuf :=
  (commonInit buffer id role).addEpoll

/-- `pipebuf_in_close`. -/
def inClose (sock : Bool) (flag : CloseFlag) : Pipebuf × List Frame :=
  match pb.commonClose flag with
  | (pb', .success) => (pb', sendHeader sock (cmdCloseControl + pb.role.code) pb.id 0#8 0#8)
  | (pb', _) => (pb', [])

/-- A packet of `pipebuf_in_write_to_sock`: the header and the bytes that follow it. -/
def packet (packetWriteSize : ℤ) (bytes : List Byte) : Frame where
  cmd := cmdWriteControl + pb.role.code
  id := pb.id
  arg := BitVec.ofInt 8 (packetWriteSize / 256)
  len := BitVec.ofInt 8 packetWriteSize
  payload := bytes

/-- The packets of `pipebuf_in_write_to_sock`.  Every packet has at least one byte, so there are
at most `num_to_write` of them. -/
def packetLoop (numToWrite : ℕ) : ℕ → Pipebuf → ℤ → List ℤ → List Frame →
    Except Stop (Pipebuf × ℤ × List Frame)
  | 0, pb, written, _, frames => .ok (pb, written, frames)
  | fuel + 1, pb, written, writes, frames =>
    if sizeT written = numToWrite then .ok (pb, written, frames)
    else do
      let remaining := toInt32 (numToWrite - written)
      let packetWriteSize := if remaining < maxWriteLen then remaining else maxWriteLen
      let w ← pb.writeFromPipebuf packetWriteSize writes
      packetLoop numToWrite fuel w.pb (written + w.total) w.writes
        (frames ++ [pb.packet packetWriteSize w.bytes])

/-- `pipebuf_in_write_to_sock`. -/
def inWriteToSock (numToWrite : ℕ) (writes : List ℤ) : Except Stop (Pipebuf × List Frame) := do
  let num := if pb.bufcount ≥ 0 ∧ sizeT pb.bufcount < numToWrite then sizeT pb.bufcount
    else numToWrite
  -- both are compared as `size_t`: a negative credit does not bound anything
  let num := if num > sizeT pb.credit then sizeT pb.credit else num
  let (pb', written, frames) ← packetLoop num num pb 0 writes []
  return ({ pb' with credit := pb'.credit - written }, frames)

/-- `pipebuf_in_ack`.  The socket is closed before the bytes have come when they are `none`. -/
def inAck (bytes : Option (List Byte)) (writes : List ℤ) : Except Stop (Pipebuf × List Frame) :=
  match bytes with
  | none => .error .sockClosed
  | some bytes => do
    -- a ring that was full is not polled
    let pb ← (if pb.bufcount = internalPipeBufSize ∧ ackSize bytes > 0 then pb.addEpoll
      else .ok pb)
    let pb := { pb with credit := pb.credit + ackSize bytes }
    let (pb, frames) ← (if pb.bufcount > 0 then
        pb.inWriteToSock
          -- credit that is left from before is not used here
          (sizeT (if pb.bufcount < ackSize bytes then pb.bufcount else ackSize bytes)) writes
      else .ok (pb, []))
    if pb.eof ∧ pb.bufcount = 0 then
      let (pb, close) := pb.inClose true .flush
      return (pb, frames ++ close)
    else return (pb, frames)

/-- The loop of `pipebuf_in_to_internal_buffer`, with the bytes read so far. -/
def readLoop : List ReadResult → Pipebuf → ℤ → List Byte → Except Stop (Pipebuf × List Byte)
  | [], pb, spaceAvailable, got =>
    if spaceAvailable = 0 then .ok (pb, got) else .error .noAnswer
  | r :: reads, pb, spaceAvailable, got =>
    if spaceAvailable = 0 then .ok (pb, got)
    else
      -- a read stops at the end of the array
      let tryToRead := if pb.endpos + spaceAvailable > internalPipeBufSize then
        internalPipeBufSize - pb.endpos else spaceAvailable
      if pb.fd = false then .error .fatal
      else match r with
        | .again => .ok (pb, got)
        | .data bytes =>
          if bytes = [] ∨ tryToRead < bytes.length then .error .noAnswer
          else
            let endpos := pb.endpos + bytes.length
            readLoop reads
              { pb with
                buffer := store pb.buffer pb.endpos bytes
                bufcount := pb.bufcount + bytes.length
                endpos := if endpos = internalPipeBufSize then 0 else endpos }
              (spaceAvailable - bytes.length) (got ++ bytes)
        | .eof => do
          let pb ← Pipebuf.deleteEpoll { pb with eof := true }
          return (pb, got)
        | .error => .error .fatal

/-- `pipebuf_in_to_internal_buffer`: the bytes read from the child and the packets sent. -/
def inToInternalBuffer (reads : List ReadResult) (writes : List ℤ) :
    Except Stop (Pipebuf × List Byte × List Frame) := do
  let (pb, got) ← readLoop reads pb (internalPipeBufSize - pb.bufcount) []
  let (pb, frames) ← (if pb.credit ≠ 0 ∧ pb.bufcount > 0 then
      pb.inWriteToSock (sizeT pb.bufcount) writes
    else .ok (pb, []))
  -- nothing more can be read before an ACK
  if pb.bufcount = internalPipeBufSize then
    let pb ← pb.deleteEpoll
    return (pb, got, frames)
  else if pb.eof ∧ pb.bufcount = 0 then
    let (pb, close) := pb.inClose true .flush
    return (pb, got, frames ++ close)
  else return (pb, got, frames)

/-! ### Writable pipe buffers: control and stdin -/

/-- `pipebuf_out_ack`. -/
def outAck (acksize : ℕ) : Pipebuf × List Frame :=
  ({ pb with credit := toInt32 (pb.credit + acksize) },
    [⟨cmdAckControl + pb.role.code, pb.id, 0#8, 4#8, sizeBytes acksize⟩])

/-- `pipebuf_out_init`. -/
def outInit (buffer : ℤ → Byte) (id : Byte) (role : Role) : Pipebuf × List Frame :=
  let (pb, frames) := (commonInit buffer id role).outAck internalPipeBufSize
  ({ pb with credit := internalPipeBufSize }, frames)

/-- `pipebuf_out_close`. -/
def outClose (flag : CloseFlag) : Pipebuf := (pb.commonClose flag).1

/-- The loop of `pipebuf_out_to_internal_buffer`, with the bytes that come from the socket before
it is closed.  Every pass takes at least one byte, so there are at most `read_len` of them. -/
def sockLoop : ℕ → Pipebuf → ℤ → List Byte → Except Stop Pipebuf
  | 0, pb, _, _ => .ok pb
  | fuel + 1, pb, readLen, bytes =>
    if readLen = 0 then .ok pb
    else
      let toRead := if pb.endpos + readLen > internalPipeBufSize then
        internalPipeBufSize - pb.endpos else readLen
      if bytes.length < toRead then .error .sockClosed
      else
        let endpos := pb.endpos + toRead
        sockLoop fuel
          { pb with
            buffer := store pb.buffer pb.endpos (bytes.take toRead.toNat)
            bufcount := pb.bufcount + toRead
            endpos := if endpos = internalPipeBufSize then 0 else endpos
            credit := pb.credit - toRead }
          (readLen - toRead) (bytes.drop toRead.toNat)

/-- `pipebuf_out_to_internal_buffer`. -/
def outToInternalBuffer (readLen : ℕ) (bytes : List Byte) : Except Stop Pipebuf :=
  if pb.eof then .error .fatal
  else do
    -- an empty ring is not polled
    let pb ← (if pb.bufcount = 0 ∧ readLen > 0 then pb.addEpoll else .ok pb)
    sockLoop readLen pb readLen bytes

/-- `pipebuf_out_is_writable`: the bytes that the child's pipe has taken and the packets sent. -/
def outIsWritable (writes : List ℤ) : Except Stop (Pipebuf × List Byte × List Frame) := do
  let w ← pb.writeFromPipebuf pb.bufcount writes
  -- `written` is what was asked for, so nothing is left in the ring
  let pb ← (if pb.bufcount = w.total then w.pb.deleteEpoll else .ok w.pb)
  let (pb, frames) := pb.outAck (sizeT w.total)
  if pb.eof ∧ pb.bufcount = 0 then return (pb.outClose .flush, w.bytes, frames)
  else return (pb, w.bytes, frames)

end Pipebuf

end TesselFirmware
