import TesselFirmware.Bridge.Basic
import TesselFirmware.Memory.Buffer

/-!
# The SoC side of the SPI bridge (`soc/spid.c`)

`spid` connects each bridge channel to a Unix domain socket.  One pass of its main loop polls the
descriptors, accepts connections (`acceptConns`), reads from and closes connections
(`serveConns`), exchanges the setup headers, follows the enable bits of the MCU
(`manageChannelActiveStatus`), derives the data phase from the header received and its own state
(`planTransfer`), and writes what it received to the connections (`writeReceived`).

`spid` never looks at the bytes it receives from the MCU, so their type `α` is a parameter: other
modules put bytes there, or bytes with their origin.  The last three fields of `Spid` record the
bytes that crossed the current connection of each channel and count the connections; no function
reads them.
-/

namespace TesselFirmware

/-- `USBD_CHANNEL`, the channel for which `spid` is the client of a socket. -/
def usbdChannel : Chan := 0

/-- `BUFSIZE`. -/
def spidBufSize : ℕ := 255

/-- The globals of `spid.c`: for each channel the descriptor and the interest of `CONN_POLL`, the
interest of `SOCK_POLL` and the buffers, and the three bit masks. -/
structure Spid (α : Type) where
  connFd : Chan → ℤ
  pollIn : Chan → Bool
  pollOut : Chan → Bool
  sockIn : Chan → Bool
  outBuf : Chan → List Byte
  outLength : Chan → ℕ
  inBuf : Chan → List α
  writable : Byte
  opened : Byte
  enabled : Byte
  retries : ℕ
  /-- The bytes read from the current connection. -/
  received : Chan → List Byte
  /-- The bytes written to the current connection. -/
  written : Chan → List α
  /-- The number of connections so far. -/
  conns : Chan → ℕ

/-- What `poll` reports: `POLLIN` on the listening sockets, and `POLLIN`, `POLLOUT` and any of
`POLLHUP`, `POLLERR`, `POLLRDHUP` on the connections. -/
structure Polls where
  sockIn : Chan → Bool
  connIn : Chan → Bool
  connOut : Chan → Bool
  connHup : Chan → Bool

/-- What the calls of one pass return: the descriptors from `accept` and `socket`, the bytes from
`read` (none at the end of the stream and on an error), and how many bytes each `write` takes. -/
structure SysCalls where
  accept : Chan → ℕ
  socket : ℕ
  read : Chan → List Byte
  write : Chan → ℕ

namespace Spid

variable {α : Type}

/-- The state set up by `main` before the loop.  `memset` leaves the connection descriptors of the
two port channels at 0; that of the USB channel is set to -1. -/
def init : Spid α where
  connFd := fun ch => if ch = usbdChannel then -1 else 0
  pollIn := fun _ => false
  pollOut := fun _ => false
  sockIn := fun _ => false
  outBuf := fun _ => []
  outLength := fun _ => 0
  inBuf := fun _ => []
  writable := 0#8
  opened := 0#8
  enabled := 0#8
  retries := 0
  received := fun _ => []
  written := fun _ => []
  conns := fun _ => 0

/-- `get_channel_bitmask_state`. -/
def getChannelBitmaskState (bitmask : Byte) (ch : Chan) : Bool := Byte.has bitmask ch

/-- `set_channel_bitmask_state`. -/
def setChannelBitmaskState (bitmask : Byte) (ch : Chan) (state : Bool) : Byte :=
  if state then Byte.set bitmask ch else Byte.clear bitmask ch

/-- `extract_enabled_state`. -/
def extractEnabledState (rx : ControlPkt) (ch : Chan) : Bool := rx.connected ch

/-- The polls that the kernel can report for the registered descriptors and events. -/
def canReport (s : Spid α) (p : Polls) : Prop :=
  ∀ ch, (p.sockIn ch → s.sockIn ch) ∧ (p.connIn ch → 0 ≤ s.connFd ch ∧ s.pollIn ch) ∧
    (p.connOut ch → 0 ≤ s.connFd ch ∧ s.pollOut ch) ∧ (p.connHup ch → 0 ≤ s.connFd ch)

instance (s : Spid α) (p : Polls) : Decidable (s.canReport p) := by
  unfold canReport; infer_instance

/-- `close_channel_connection`. -/
def closeChannelConnection (s : Spid α) (ch : Chan) : Spid α :=
  { s with
    connFd := Function.update s.connFd ch (-1)
    outLength := Function.update s.outLength ch 0
    -- the next client can be accepted
    sockIn :=
      if getChannelBitmaskState s.enabled ch ∧ ch ≠ usbdChannel then
        Function.update s.sockIn ch true
      else s.sockIn
    opened := setChannelBitmaskState s.opened ch false
    writable := setChannelBitmaskState s.writable ch false }

/-- A new connection on a channel: the descriptor, the interest and the opened bit. -/
def openConn (s : Spid α) (ch : Chan) (fd : ℕ) : Spid α :=
  { s with
    connFd := Function.update s.connFd ch fd
    pollIn := Function.update s.pollIn ch true
    pollOut := Function.update s.pollOut ch true
    opened := setChannelBitmaskState s.opened ch true
    received := Function.update s.received ch []
    written := Function.update s.written ch []
    conns := Function.update s.conns ch (s.conns ch + 1) }

/-- `enable_usb_daemon_socket`. -/
def enableUsbDaemonSocket (s : Spid α) (fd : ℕ) : Spid α := s.openConn usbdChannel fd

/-- `enable_listening_socket`. -/
def enableListeningSocket (s : Spid α) (ch : Chan) : Spid α :=
  { s with sockIn := Function.update s.sockIn ch true }

/-- `disable_listening_socket`. -/
def disableListeningSocket (s : Spid α) (ch : Chan) : Spid α :=
  { s with sockIn := Function.update s.sockIn ch false }

/-- `CONN_POLL(ch).events = 0`. -/
def ignoreConn (s : Spid α) (ch : Chan) : Spid α :=
  { s with
    pollIn := Function.update s.pollIn ch false
    pollOut := Function.update s.pollOut ch false }

/-- `set_channel_bitmask_state` on `channels_enabled_bitmask`. -/
def setEnabled (s : Spid α) (ch : Chan) (state : Bool) : Spid α :=
  { s with enabled := setChannelBitmaskState s.enabled ch state }

/-- One pass of the loop in `manage_channel_active_status`. -/
def manageChannel (rx : ControlPkt) (fd : ℕ) (s : Spid α) (ch : Chan) : Spid α :=
  let newStatus := extractEnabledState rx ch
  let oldStatus := getChannelBitmaskState s.enabled ch
  if newStatus = oldStatus then s
  else if newStatus then
    if ch = usbdChannel then (s.enableUsbDaemonSocket fd).setEnabled ch true
    else (s.enableListeningSocket ch).setEnabled ch true
  else
    let s := s.closeChannelConnection ch
    if ch ≠ usbdChannel then (s.disableListeningSocket ch).setEnabled ch false
    else (s.ignoreConn ch).setEnabled ch false

/-- `manage_channel_active_status`; `fd` is the descriptor that `socket` returns. -/
def manageChannelActiveStatus (s : Spid α) (rx : ControlPkt) (fd : ℕ) : Spid α :=
  chans.foldl (manageChannel rx fd) s

/-- One pass of the loop over the listening sockets. -/
def acceptConn (p : Polls) (sys : SysCalls) (s : Spid α) (ch : Chan) : Spid α :=
  -- the USB daemon is connected to, and does not connect
  if ch = usbdChannel then s
  else if p.sockIn ch then
    (s.openConn ch (sys.accept ch)).disableListeningSocket ch
  else s

/-- `read` on a readable connection.  A read of at most `BUFSIZE` bytes replaces `out_buf`. -/
def readConn (bytes : List Byte) (s : Spid α) (ch : Chan) : Spid α :=
  let s := { s with pollIn := Function.update s.pollIn ch false }
  if bytes ≠ [] then
    { s with
      outBuf := Function.update s.outBuf ch bytes
      outLength := Function.update s.outLength ch bytes.length
      received := Function.update s.received ch (s.received ch ++ bytes) }
  else s

/-- One pass of the loop over the connections. -/
def serveConn (p : Polls) (sys : SysCalls) (s : Spid α) (ch : Chan) : Spid α :=
  let bytes := (sys.read ch).take spidBufSize
  let s := if p.connIn ch then readConn bytes s ch else s
  -- the client has hung up
  if (p.connIn ch ∧ bytes = []) ∨ p.connHup ch then s.closeChannelConnection ch
  else if p.connOut ch then
    { s with
      pollOut := Function.update s.pollOut ch false
      writable := setChannelBitmaskState s.writable ch true }
  else s

/-- The part of the main loop between SYNC low and the header. -/
def serve (s : Spid α) (p : Polls) (sys : SysCalls) : Spid α :=
  chans.foldl (serveConn p sys) (chans.foldl (acceptConn p sys) s)

/-- The header `tx_buf`. -/
def header (s : Spid α) : ControlPkt where
  cmd := 0x53#8
  status := s.writable ||| (s.opened <<< 4)
  size := fun ch => BitVec.ofNat 8 (s.outLength ch)

/-- One pass of the loop that prepares the data phase; `rx` is the header of the MCU. -/
def planChannel (rx : ControlPkt) (a : Spid α × List Segment) (ch : Chan) : Spid α × List Segment :=
  let (s, segs) := a
  let size := s.outLength ch
  let (s, segs) :=
    -- the MCU can take the bytes: they are sent, and the connection is read again
    if rx.ready ch ∧ 0 < size then
      ({ s with
          pollIn := Function.update s.pollIn ch true
          outLength := Function.update s.outLength ch 0 },
        segs ++ [⟨.out, ch, size⟩])
    else (s, segs)
  let size := (rx.size ch).toNat
  if getChannelBitmaskState s.writable ch ∧ 0 < size then
    (s, segs ++ [⟨.inn, ch, size⟩])
  else (s, segs)

/-- The loop that prepares the data phase: the state and the `spi_ioc_transfer` array. -/
def planTransfer (s : Spid α) (rx : ControlPkt) : Spid α × List Segment :=
  chans.foldl (planChannel rx) (s, [])

/-- What `spid` clocks out in a segment: `out_buf` in an OUT segment, and the zeros of a transfer
without `tx_buf` in an IN segment. -/
def sends (s : Spid α) (g : Segment) : List Byte :=
  match g.dir with
  | .out => (s.outBuf g.chan).take g.len
  | .inn => List.replicate g.len 0#8

/-- What `spid` clocks out during the data phase. -/
def clockedOut (s : Spid α) (segs : List Segment) : List Byte := segs.flatMap s.sends

/-- The pieces of the data phase that `spid` receives into `in_buf`. -/
def receive (s : Spid α) (segs : List Segment) (pieces : List (List α)) : Spid α :=
  { s with
    inBuf := Buffer.scatter s.inBuf ((segs.zip pieces).filterMap fun gp =>
      match gp.1.dir with
      | .inn => some (gp.1.chan, gp.2)
      | .out => none) }

/-- One pass of the loop that writes the received data to the connections. -/
def writeConn (rx : ControlPkt) (sys : SysCalls) (s : Spid α) (ch : Chan) : Spid α :=
  let size := (rx.size ch).toNat
  if getChannelBitmaskState s.writable ch ∧ 0 < size then
    { s with
      written := Function.update s.written ch
        (s.written ch ++ ((s.inBuf ch).take size).take (sys.write ch))
      pollOut := Function.update s.pollOut ch true
      writable := setChannelBitmaskState s.writable ch false }
  else s

/-- The loop that writes the received data to the connections. -/
def writeReceived (s : Spid α) (rx : ControlPkt) (sys : SysCalls) : Spid α :=
  chans.foldl (writeConn rx sys) s

end Spid

end TesselFirmware
