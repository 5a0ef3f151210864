import TesselFirmware.Usbexecd.Readable

/-!
# The event loop of the USB daemon (`soc/usbexecd.c`)

The daemon waits for events with `epoll_wait` and handles them one after the other.  An event of a
stream carries the address of its pipe buffer, which has been put there when the descriptor was
registered.  A packet from the socket may close a stream or free a whole process, so the event of
that stream, if it comes later in the same batch, finds a dead pipe buffer.
-/

namespace TesselFirmware

/-- `procinfo_t`. -/
structure Procinfo where
  pid : ℕ
  ctrl : Pipebuf
  stdin : Pipebuf
  stdout : Pipebuf
  stderr : Pipebuf

/-- The streams that the child writes to. -/
def Role.isIn : Role → Bool
  | .stdout | .stderr => true
  | .ctrl | .stdin => false

namespace Procinfo

variable (p : Procinfo)

def stream : Role → Pipebuf
  | .ctrl => p.ctrl
  | .stdin => p.stdin
  | .stdout => p.stdout
  | .stderr => p.stderr

def setStream : Role → Pipebuf → Procinfo
  | .ctrl, pb => { p with ctrl := pb }
  | .stdin, pb => { p with stdin := pb }
  | .stdout, pb => { p with stdout := pb }
  | .stderr, pb => { p with stderr := pb }

@[simp] theorem stream_setStream (role : Role) (pb : Pipebuf) :
    (p.setStream role pb).stream role = pb := by cases role <;> rfl

theorem stream_setStream_of_ne {role role' : Role} (h : role' ≠ role) (pb : Pipebuf) :
    (p.setStream role pb).stream role' = p.stream role' := by
  cases role <;> cases role' <;> first | rfl | exact absurd rfl h

/-- `close_process`: the packets sent for the streams that are still open.  The process is killed
and its memory is freed. -/
def close (sock : Bool) : List Frame :=
  (if p.stdout.fd then (p.stdout.inClose sock .noFlush).2 else []) ++
    if p.stderr.fd then (p.stderr.inClose sock .noFlush).2 else []

end Procinfo

/-- The commands that the daemon handles. -/
inductive Command
  | reset
  | openProcess
  | closeProcess
  | kill
  | write (role : Role)
  | ack (role : Role)
  | closeStream (role : Role)
  deriving DecidableEq

/-- `enum Commands`, without those that only the daemon sends. -/
def commands : List (Byte × Command) :=
  [(0x00#8, .reset), (0x01#8, .openProcess), (0x02#8, .closeProcess), (0x03#8, .kill),
    (0x10#8, .write .ctrl), (0x11#8, .write .stdin), (0x22#8, .ack .stdout), (0x23#8, .ack .stderr),
    (0x30#8, .closeStream .ctrl), (0x31#8, .closeStream .stdin), (0x32#8, .closeStream .stdout),
    (0x33#8, .closeStream .stderr)]

/-- The command of a packet, if the daemon handles it. -/
def Command.ofByte (cmd : Byte) : Option Command := commands.lookup cmd

/-- What is written goes to writable streams, what is acknowledged comes from readable ones. -/
def Command.fits : Command → Bool
  | .write role => !role.isIn
  | .ack role => role.isIn
  | _ => true

theorem Command.fits_of_ofByte {cmd : Byte} {c : Command} (h : Command.ofByte cmd = some c) :
    c.fits := by
  obtain ⟨l₁, l₂, hl, -⟩ := List.lookup_eq_some_iff.1 h
  have hall : commands.all fun x => x.2.fits := rfl
  exact List.all_eq_true.1 hall (cmd, c) (hl ▸ List.mem_append_right _ List.mem_cons_self)

def cmdExitStatus : Byte := 0x05#8
def cmdCloseAck : Byte := 0x06#8

/-- What the daemon watches with epoll. -/
inductive Event
  | listener
  | sock
  | sig
  | pipe (id : Byte) (role : Role)
  deriving DecidableEq

/-- The result for which a handler has to wait, and what the kernel answers to its calls. -/
structure Answer where
  /-- The socket reports `EPOLLERR`, `EPOLLHUP` or `EPOLLRDHUP`. -/
  hangup : Bool
  /-- The header of the packet and the bytes behind it that come before the socket is closed. -/
  header : Option Frame
  reads : List ReadResult
  writes : List ℤ
  /-- The process created by `fork`, and the memory that `malloc` returns for its streams. -/
  pid : ℕ
  memory : Role → ℤ → Byte
  /-- The children reported by `waitpid`, with their exit codes. -/
  deaths : List (ℕ × Byte)

/-- What has happened so far, as the host can tell. -/
inductive Entry
  | opened (id : Byte)
  | sent (f : Frame)
  deriving DecidableEq

structure Daemon where
  /-- `sock_fd > -1`. -/
  sock : Bool
  processes : Byte → Option Procinfo
  history : List Entry
  /-- The events of the current batch that have not been handled. -/
  pending : List Event

/-- With this many credits more, all that a stream holds back is sent, and the stream is closed
because it has been asked to. -/
def Pipebuf.drainedBy (pb : Pipebuf) (ack : ℤ) : Bool :=
  pb.eof && pb.bufcount ≤ sizeT (if pb.bufcount < ack then pb.bufcount else ack) &&
    pb.bufcount ≤ sizeT (pb.credit + ack)

/-- The command closes the descriptor of a stream of this or another process: that of a process
which is closed, of a stream that holds nothing back when it is to be closed, of one that is
drained by an ACK, and all of them when the socket is closed in the middle of a packet. -/
def Procinfo.closedBy (p : Procinfo) (f : Frame) (id : Byte) (role : Role) : Option Command → Bool
  | some .closeProcess => f.id = id
  | some (.write _) => f.payload.length < f.arg.toNat * 256 + f.len.toNat
  | some (.ack role') => f.payload.length < f.len.toNat || f.id = id && role' = role &&
      (p.stream role').drainedBy (ackSize (f.payload.take f.len.toNat))
  | some (.closeStream role') => f.id = id && role' = role && (p.stream role').bufcount = 0
  | _ => false

namespace Daemon

variable (d : Daemon)

/-- A daemon that waits for a connection. -/
def init : Daemon := ⟨false, fun _ => none, [], []⟩

/-- The event can be reported: its descriptor is registered. -/
def watches : Event → Bool
  | .listener => !d.sock
  | .sock => d.sock
  | .sig => true
  | .pipe id role => (d.processes id).any fun p => (p.stream role).registered

/-- A stream after a handler, and the packets that the handler has sent. -/
def setStream (id : Byte) (p : Procinfo) (role : Role) (pb : Pipebuf) (frames : List Frame) :
    Daemon :=
  { d with
    processes := Function.update d.processes id (some (p.setStream role pb))
    history := d.history ++ frames.map .sent }

/-- `handle_closed_spid_socket`.  `wipe_existing_processes` sends nothing, because the socket has
been closed before. -/
def handleClosedSpidSocket : Daemon :=
  { d with sock := false, processes := fun _ => none }

/-- `CMD_OPEN`. -/
def openProcess (id : Byte) (pid : ℕ) (memory : Role → ℤ → Byte) : Except Stop Daemon := do
  let (ctrl, frames) := Pipebuf.outInit (memory .ctrl) id .ctrl
  let (stdin, frames') := Pipebuf.outInit (memory .stdin) id .stdin
  let stdout ← Pipebuf.inInit (memory .stdout) id .stdout
  let stderr ← Pipebuf.inInit (memory .stderr) id .stderr
  return { d with
    processes := Function.update d.processes id (some ⟨pid, ctrl, stdin, stdout, stderr⟩)
    history := d.history ++ .opened id :: (frames ++ frames').map .sent }

/-- `CMD_CLOSE`. -/
def closeProcess (id : Byte) (p : Procinfo) : Daemon :=
  { d with
    processes := Function.update d.processes id none
    history := d.history ++
      (p.close d.sock ++ sendHeader d.sock cmdCloseAck id 255#8 0#8).map .sent }

/-- The commands of `handle_socket_readable` for a process that exists. -/
def handleCommand (f : Frame) (p : Procinfo) (a : Answer) : Option Command → Except Stop Daemon
  | some .openProcess => .error .fatal
  | some .closeProcess => .ok (d.closeProcess f.id p)
  | some (.write role) => do
    let pb ← (p.stream role).outToInternalBuffer (f.arg.toNat * 256 + f.len.toNat) f.payload
    return d.setStream f.id p role pb []
  | some (.ack role) => do
    let bytes := if f.payload.length < f.len.toNat then none else some (f.payload.take f.len.toNat)
    let (pb, frames) ← (p.stream role).inAck bytes a.writes
    return d.setStream f.id p role pb frames
  | some (.closeStream role) =>
    if role.isIn then
      let (pb, frames) := (p.stream role).inClose d.sock .flush
      .ok (d.setStream f.id p role pb frames)
    else .ok (d.setStream f.id p role ((p.stream role).outClose .flush) [])
  | some .reset | some .kill | none => .ok d

/-- `handle_socket_readable`. -/
def handleSocketReadable (a : Answer) : Except Stop Daemon :=
  match a.header with
  | none => .error .fatal
  | some f =>
    -- a reset needs no process
    if Command.ofByte f.cmd = some .reset then .error .exit
    else match d.processes f.id with
      | none =>
        if Command.ofByte f.cmd = some .openProcess then d.openProcess f.id a.pid a.memory
        else .error .fatal
      | some p => d.handleCommand f p a (Command.ofByte f.cmd)

/-- `find_by_pid`. -/
def findByPid (pid : ℕ) : Option (Byte × Procinfo) :=
  (List.range 256).findSome? fun i =>
    match d.processes (BitVec.ofNat 8 i) with
    | some p => if p.pid = pid then some (BitVec.ofNat 8 i, p) else none
    | none => none

/-- `handle_sigchld`, with the children reported by `waitpid`. -/
def handleSigchld (d : Daemon) : List (ℕ × Byte) → Daemon
  | [] => d
  | (pid, code) :: deaths =>
    match d.findByPid pid with
    | none => handleSigchld d deaths
    | some (id, p) =>
      handleSigchld
        { d with
          processes := Function.update d.processes id (some { p with pid := 0 })
          history := d.history ++ (sendHeader d.sock cmdExitStatus id code 0#8).map .sent }
        deaths

/-- The event of a stream. -/
def handlePipe (id : Byte) (role : Role) (a : Answer) : Except Stop Daemon :=
  match d.processes id with
  | none => .error .useAfterFree
  | some p =>
    if role.isIn then do
      let (pb, _, frames) ← (p.stream role).inToInternalBuffer a.reads a.writes
      return d.setStream id p role pb frames
    else do
      let (pb, _, frames) ← (p.stream role).outIsWritable a.writes
      return d.setStream id p role pb frames

/-- One pass of the loop over the events of a batch. -/
def handleEvent (a : Answer) : Event → Except Stop Daemon
  | .listener => .ok { d with sock := true }
  -- the errors of the socket come before its data
  | .sock => if a.hangup then .ok d.handleClosedSpidSocket else d.handleSocketReadable a
  | .sig => .ok (d.handleSigchld a.deaths)
  | .pipe id role => d.handlePipe id role a

inductive Label
  /-- `epoll_wait` returns a batch of events. -/
  | poll (batch : List Event)
  /-- The next event of the batch is handled. -/
  | handle (a : Answer)

/-- A write to the socket, which blocks, takes at least one byte. -/
def proper (a : Answer) : Event → Bool
  | .pipe _ role => !role.isIn || a.writes.all (0 < ·)
  | _ => a.writes.all (0 < ·)

def step : Label → Option Daemon
  | .poll batch =>
    if d.pending = [] ∧ batch.length ≤ 16 ∧ batch.Nodup ∧ batch.all d.watches then
      some { d with pending := batch }
    else none
  | .handle a =>
    match d.pending with
    | [] => none
    | e :: pending =>
      if proper a e then
        match { d with pending := pending }.handleEvent a e with
        | .ok d' => some d'
        -- the handler has called `handle_closed_spid_socket` in its middle
        | .error .sockClosed => some { d with pending := pending }.handleClosedSpidSocket
        | .error _ => none
      else none

def machine : Machine Daemon Label := ⟨step⟩

/-- The event of the socket closes the descriptor of this stream. -/
def closes (a : Answer) (id : Byte) (role : Role) : Bool :=
  a.hangup || match a.header with
    | none => false
    | some f =>
      match d.processes f.id with
      | none => false
      | some p => p.closedBy f id role (Command.ofByte f.cmd)

/-- An event of the socket closes no stream that has a later event in the same batch. -/
def harmless : Label → Bool
  | .poll _ => true
  | .handle a =>
    match d.pending with
    | .sock :: pending => pending.all fun e =>
      match e with
      | .pipe id role => !d.closes a id role
      | _ => true
    | _ => true

end Daemon

end TesselFirmware
