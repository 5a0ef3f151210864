import Mathlib.Data.List.Nodup
import TesselFirmware.Usbexecd.Batch

/-!
# The children of the USB daemon (`soc/usbexecd.c`)

The daemon creates a child for each process that the host opens, signals it, and reports how it
ended.  `Reaper` puts the daemon next to the part of the kernel that knows its children: a child
that has died stays in the table of the kernel, and keeps its pid, until the daemon has waited for
it.  Children die at any time, also between the read of the signal descriptor and the calls of
`waitpid` in `handle_sigchld`; all signals that have come before a read are one for the reader.

* `Reaper.signals_received` : every signal of the daemon reaches the child of the process that it
  is meant for, whichever pids the kernel has given away and taken back;
* `Reaper.lives` : the host sees each process opened, ended at most once with the exit code of its
  child, and closed, in this order, and nothing of a process outside of its life;
* `Reaper.deaths_reported` : children that have died between two batches are reported, each with a
  frame that has its exit code.
-/

namespace TesselFirmware

/-! ### Packets of streams -/

/-- A packet of a stream, and not one about its process. -/
def Frame.OfStream (f : Frame) (id : Byte) : Prop := f.OfProcess id ∧ f.cmd ≠ cmdExitStatus

theorem mem_sendHeader_iff {sock : Bool} {cmd id arg len : Byte} {f : Frame} :
    f ∈ sendHeader sock cmd id arg len ↔ sock ∧ f = ⟨cmd, id, arg, len, []⟩ := by
  unfold sendHeader
  split_ifs with h <;> simp [h]

namespace Pipebuf

/-- A handler keeps the id of a stream, and sends packets of this stream. -/
structure Speaks (pb pb' : Pipebuf) (frames : List Frame) : Prop where
  id : pb'.id = pb.id
  frames : ∀ f ∈ frames, f.OfStream pb.id

variable {pb pb' pb₁ : Pipebuf} {frames frames' : List Frame}

theorem Speaks.silent (h : pb'.id = pb.id) : Speaks pb pb' [] := ⟨h, fun _ hf => by cases hf⟩

theorem Speaks.append (h : Speaks pb pb₁ frames) (h' : Speaks pb₁ pb' frames') :
    Speaks pb pb' (frames ++ frames') := by
  refine ⟨h'.id.trans h.id, fun f hf => ?_⟩
  obtain hf | hf := List.mem_append.1 hf
  · exact h.frames f hf
  · exact h.id ▸ h'.frames f hf

theorem Speaks.trans (h : Speaks pb pb₁ []) (h' : Speaks pb₁ pb' frames) : Speaks pb pb' frames :=
  h.append h'

/-- A packet with one of the commands of the streams. -/
theorem ofStream_of_role {f : Frame} {id : Byte} {role : Role} (hid : f.id = id)
    (hcmd : f.cmd = cmdWriteControl + role.code ∨ f.cmd = cmdAckControl + role.code ∨
      f.cmd = cmdCloseControl + role.code) : f.OfStream id := by
  refine ⟨⟨hid, ?_⟩, ?_⟩
  all_goals
    rcases hcmd with hcmd | hcmd | hcmd <;> rw [hcmd] <;> cases role <;> decide

theorem addEpoll_id (h : pb.addEpoll = .ok pb') : pb'.id = pb.id := by
  obtain ⟨-, -, rfl⟩ := addEpoll_ok h
  rfl

theorem deleteEpoll_id (h : pb.deleteEpoll = .ok pb') : pb'.id = pb.id := by
  obtain ⟨-, -, rfl⟩ := deleteEpoll_ok h
  rfl

theorem speaks_packetLoop {num fuel : ℕ} {written total : ℤ} {writes : List ℤ}
    (h : packetLoop num fuel pb written writes frames = .ok (pb', total, frames')) :
    ∃ sent, frames' = frames ++ sent ∧ Speaks pb pb' sent := by
  induction fuel generalizing pb written writes frames with
  | zero =>
    cases h
    exact ⟨[], (List.append_nil _).symm, .silent rfl⟩
  | succ fuel ih =>
    rw [packetLoop] at h
    by_cases h0 : sizeT written = num
    · rw [if_pos h0] at h
      cases h
      exact ⟨[], (List.append_nil _).symm, .silent rfl⟩
    rw [if_neg h0] at h
    obtain ⟨w, hw, h⟩ := Except.bind_eq_ok.1 h
    obtain ⟨-, -, -, hsame⟩ := writeFromPipebuf_count hw
    obtain ⟨sent, rfl, hsent⟩ := ih h
    refine ⟨_, List.append_assoc _ [_] _, Speaks.append ⟨hsame.id, fun f hf => ?_⟩ hsent⟩
    obtain rfl := List.mem_singleton.1 hf
    exact ofStream_of_role rfl (.inl rfl)

theorem speaks_inWriteToSock {num : ℕ} {writes : List ℤ}
    (h : pb.inWriteToSock num writes = .ok (pb', frames)) : Speaks pb pb' frames := by
  obtain ⟨⟨pb₁, written, frames₁⟩, hloop, hret⟩ := Except.bind_eq_ok.1 h
  obtain ⟨sent, rfl, hsent⟩ := speaks_packetLoop hloop
  cases hret
  exact ⟨hsent.id, hsent.frames⟩

theorem speaks_inClose (pb : Pipebuf) (sock : Bool) (flag : CloseFlag) :
    Speaks pb (pb.inClose sock flag).1 (pb.inClose sock flag).2 := by
  unfold inClose commonClose
  split_ifs
  · refine ⟨rfl, fun f hf => ?_⟩
    obtain ⟨-, rfl⟩ := mem_sendHeader_iff.1 hf
    exact ofStream_of_role rfl (.inr (.inr rfl))
  · exact .silent rfl
  · exact .silent rfl

theorem outClose_id (pb : Pipebuf) (flag : CloseFlag) : (pb.outClose flag).id = pb.id := by
  unfold outClose commonClose
  split_ifs <;> rfl

theorem speaks_outAck (pb : Pipebuf) (n : ℕ) : Speaks pb (pb.outAck n).1 (pb.outAck n).2 := by
  refine ⟨rfl, fun f hf => ?_⟩
  obtain rfl := List.mem_singleton.1 hf
  exact ofStream_of_role rfl (.inr (.inl rfl))

theorem speaks_inAck {bytes : Option (List Byte)} {writes : List ℤ}
    (h : pb.inAck bytes writes = .ok (pb', frames)) : Speaks pb pb' frames := by
  cases bytes with
  | none => cases h
  | some bytes =>
    obtain ⟨pb₁, hadd, h⟩ := Except.bind_eq_ok.1 h
    have h₁ : pb₁.id = pb.id := by
      split_ifs at hadd
      · exact addEpoll_id hadd
      · cases hadd
        rfl
    obtain ⟨⟨pb₂, frames₂⟩, hsend, h⟩ := Except.bind_eq_ok.1 h
    have h₂ : Speaks pb pb₂ frames₂ := by
      dsimp only at hsend
      by_cases hc : pb₁.bufcount > 0
      · rw [if_pos hc] at hsend
        have hs := speaks_inWriteToSock hsend
        exact (Speaks.silent h₁).trans ⟨hs.id, hs.frames⟩
      · rw [if_neg hc] at hsend
        cases hsend
        exact .silent h₁
    dsimp only at h
    split_ifs at h
    · cases h
      exact h₂.append (speaks_inClose _ _ _)
    · cases h
      exact h₂

theorem readLoop_id {reads : List ReadResult} {space : ℤ} {got got' : List Byte}
    (h : readLoop reads pb space got = .ok (pb', got')) : pb'.id = pb.id := by
  induction reads generalizing pb space got with
  | nil =>
    rw [readLoop] at h
    split_ifs at h
    cases h
    rfl
  | cons r reads ih =>
    rw [readLoop] at h
    by_cases h0 : space = 0
    · rw [if_pos h0] at h
      cases h
      rfl
    rw [if_neg h0] at h
    dsimp only at h
    by_cases hfd : pb.fd = false
    · rw [if_pos hfd] at h
      cases h
    rw [if_neg hfd] at h
    cases r with
    | again =>
      cases h
      rfl
    | error => cases h
    | eof =>
      obtain ⟨pb₁, hdel, hret⟩ := Except.bind_eq_ok.1 h
      cases hret
      exact (deleteEpoll_id hdel).trans rfl
    | data bytes =>
      dsimp only at h
      by_cases hbad : bytes = [] ∨ (if pb.endpos + space > internalPipeBufSize then
          internalPipeBufSize - pb.endpos else space) < bytes.length
      · rw [if_pos hbad] at h
        cases h
      · rw [if_neg hbad] at h
        exact (ih h).trans rfl

theorem speaks_inToInternalBuffer {reads : List ReadResult} {writes : List ℤ} {got : List Byte}
    (h : pb.inToInternalBuffer reads writes = .ok (pb', got, frames)) : Speaks pb pb' frames := by
  obtain ⟨⟨pb₁, got₁⟩, hread, h⟩ := Except.bind_eq_ok.1 h
  have h₁ := readLoop_id hread
  obtain ⟨⟨pb₂, frames₂⟩, hsend, h⟩ := Except.bind_eq_ok.1 h
  have h₂ : Speaks pb pb₂ frames₂ := by
    split_ifs at hsend
    · exact (Speaks.silent h₁).trans (speaks_inWriteToSock hsend)
    · cases hsend
      exact .silent h₁
  dsimp only at h
  split_ifs at h
  · obtain ⟨pb₃, hdel, hret⟩ := Except.bind_eq_ok.1 h
    cases hret
    exact ⟨(deleteEpoll_id hdel).trans h₂.id, h₂.frames⟩
  · cases h
    exact h₂.append (speaks_inClose _ _ _)
  · cases h
    exact h₂

theorem sockLoop_id {fuel : ℕ} {readLen : ℤ} {bytes : List Byte}
    (h : sockLoop fuel pb readLen bytes = .ok pb') : pb'.id = pb.id := by
  induction fuel generalizing pb readLen bytes with
  | zero =>
    cases h
    rfl
  | succ fuel ih =>
    rw [sockLoop] at h
    by_cases h0 : readLen = 0
    · rw [if_pos h0] at h
      cases h
      rfl
    rw [if_neg h0] at h
    dsimp only at h
    by_cases hshort : (bytes.length : ℤ) < (if pb.endpos + readLen > internalPipeBufSize then
        internalPipeBufSize - pb.endpos else readLen)
    · rw [if_pos hshort] at h
      cases h
    · rw [if_neg hshort] at h
      exact (ih h).trans rfl

theorem outToInternalBuffer_id {n : ℕ} {bytes : List Byte}
    (h : pb.outToInternalBuffer n bytes = .ok pb') : pb'.id = pb.id := by
  unfold outToInternalBuffer at h
  by_cases heof : pb.eof
  · rw [if_pos heof] at h
    cases h
  rw [if_neg heof] at h
  obtain ⟨pb₁, hadd, h⟩ := Except.bind_eq_ok.1 h
  refine (sockLoop_id h).trans ?_
  split_ifs at hadd
  · exact addEpoll_id hadd
  · cases hadd
    rfl

theorem speaks_outIsWritable {writes : List ℤ} {bytes : List Byte}
    (h : pb.outIsWritable writes = .ok (pb', bytes, frames)) : Speaks pb pb' frames := by
  obtain ⟨w, hw, h⟩ := Except.bind_eq_ok.1 h
  obtain ⟨-, -, -, hsame⟩ := writeFromPipebuf_count hw
  obtain ⟨pb₁, hdel, h⟩ := Except.bind_eq_ok.1 h
  have h₁ : pb₁.id = pb.id := by
    split_ifs at hdel
    · exact (deleteEpoll_id hdel).trans hsame.id
    · cases hdel
      exact hsame.id
  have hack := (Speaks.silent h₁).trans (speaks_outAck pb₁ (sizeT w.total))
  dsimp only at h
  split_ifs at h
  · cases h
    exact ⟨(outClose_id _ _).trans hack.id, hack.frames⟩
  · cases h
    exact hack

end Pipebuf

/-! ### Handlers that create and end no process -/

namespace Daemon

variable {d d' : Daemon} {a : Answer} {id : Byte} {role : Role} {p : Procinfo} {pb : Pipebuf}
  {frames : List Frame}

/-- The streams have the ids of their processes. -/
def Named (d : Daemon) : Prop :=
  ∀ id p, d.processes id = some p → ∀ role, (p.stream role).id = id

/-- The pid of each process. -/
def pids (d : Daemon) (id : Byte) : Option ℕ := (d.processes id).map Procinfo.pid

/-- A handler leaves the processes as they are, and sends packets of their streams. -/
structure Serves (d d' : Daemon) : Prop where
  sock : d'.sock = d.sock
  pending : d'.pending = d.pending
  pids : d'.pids = d.pids
  named : d'.Named
  history : ∃ frames : List Frame, d'.history = d.history ++ frames.map .sent ∧
    ∀ f ∈ frames, ∃ id pid, d.pids id = some pid ∧ f.OfStream id

/-- A handler changes one process, which gets a pid or is taken out of the table. -/
structure Changes (d d' : Daemon) (id : Byte) (pid : Option ℕ) (entries : List Entry) : Prop where
  pids : d'.pids = Function.update d.pids id pid
  named : d'.Named
  history : d'.history = d.history ++ entries

theorem Serves.refl (hd : d.Named) : Serves d d :=
  ⟨rfl, rfl, rfl, hd, [], (List.append_nil _).symm, fun _ hf => by cases hf⟩

theorem pids_eq_some (hp : d.processes id = some p) : d.pids id = some p.pid := by
  rw [Daemon.pids, hp]
  rfl

/-- The table of processes has a new entry. -/
theorem Changes.update (hd : d.Named) (q : Option Procinfo) (entries : List Entry)
    (hq : ∀ p, q = some p → ∀ role, (p.stream role).id = id) :
    Changes d
      { d with
        processes := Function.update d.processes id q
        history := d.history ++ entries } id (q.map Procinfo.pid) entries where
  pids := by
    funext i
    show (Function.update d.processes id q i).map Procinfo.pid = _
    rw [Function.update_apply, Function.update_apply]
    split_ifs
    · rfl
    · rfl
  named i p hp role := by
    have hp' : Function.update d.processes id q i = some p := hp
    rw [Function.update_apply] at hp'
    split_ifs at hp' with hi
    · rw [hi]
      exact hq p hp' role
    · exact hd i p hp' role
  history := rfl

/-- `CMD_OPEN` begins with credits for the writable streams. -/
theorem changes_openProcess {pid : ℕ} {memory : Role → ℤ → Byte} (hd : d.Named)
    (h : d.openProcess id pid memory = .ok d') : ∃ frames : List Frame,
      Changes d d' id (some pid) (.opened id :: frames.map .sent) ∧ d'.sock = d.sock ∧
        d'.pending = d.pending ∧ ∀ f ∈ frames, f.OfStream id := by
  cases h
  refine ⟨_, .update hd (some _) _ fun p hp role => ?_, rfl, rfl, fun f hf => ?_⟩
  · cases hp
    cases role <;> rfl
  · obtain hf | hf := List.mem_append.1 hf
    · exact (Pipebuf.speaks_outAck _ _).frames f hf
    · exact (Pipebuf.speaks_outAck _ _).frames f hf

/-- `CMD_CLOSE` ends with the acknowledgement. -/
theorem changes_closeProcess (hd : d.Named) (hp : d.processes id = some p) (hsock : d.sock) :
    ∃ frames : List Frame, (∀ f ∈ frames, f.OfStream id) ∧
      Changes d (d.closeProcess id p) id none
        (frames.map .sent ++ [.sent ⟨cmdCloseAck, id, 255#8, 0#8, []⟩]) := by
  refine ⟨p.close d.sock, fun f hf => ?_, ?_⟩
  · have hstream (role : Role) (hf : f ∈ if (p.stream role).fd then
        ((p.stream role).inClose d.sock .noFlush).2 else []) : f.OfStream id := by
      split_ifs at hf
      · exact hd id p hp role ▸ (Pipebuf.speaks_inClose _ _ _).frames f hf
      · cases hf
    obtain hf | hf := List.mem_append.1 hf
    · exact hstream .stdout hf
    · exact hstream .stderr hf
  · have hentries : (p.close d.sock ++ sendHeader d.sock cmdCloseAck id 255#8 0#8).map Entry.sent =
        (p.close d.sock).map .sent ++ [.sent ⟨cmdCloseAck, id, 255#8, 0#8, []⟩] := by
      rw [List.map_append, sendHeader, if_pos hsock]
      rfl
    rw [closeProcess, hentries]
    exact .update hd none _ fun p hp => by cases hp

theorem Serves.setStream (hd : d.Named) (hp : d.processes id = some p)
    (h : Pipebuf.Speaks (p.stream role) pb frames) :
    Serves d (d.setStream id p role pb frames) := by
  have hid := hd id p hp role
  have hpid : (p.setStream role pb).pid = p.pid := by cases role <;> rfl
  refine ⟨rfl, rfl, ?_, ?_, frames, rfl, fun f hf => ?_⟩
  · funext i
    by_cases hi : i = id
    · subst hi
      rw [pids_eq_some hp, pids_eq_some (Function.update_self _ _ _), hpid]
    · exact congrArg (Option.map Procinfo.pid) (Function.update_of_ne hi _ _)
  · intro i q hq role'
    by_cases hi : i = id
    · subst hi
      have hself : (d.setStream i p role pb frames).processes i = some (p.setStream role pb) :=
        Function.update_self _ _ _
      obtain rfl := Option.some.inj (hself.symm.trans hq)
      by_cases hrole : role' = role
      · subst hrole
        rw [Procinfo.stream_setStream]
        exact h.id.trans hid
      · rw [Procinfo.stream_setStream_of_ne p hrole]
        exact hd i p hp role'
    · exact hd i q ((Function.update_of_ne hi _ _).symm.trans hq) role'
  · exact ⟨id, p.pid, pids_eq_some hp, hid ▸ h.frames f hf⟩

theorem Serves.handlePipe (hd : d.Named) (h : d.handlePipe id role a = .ok d') : Serves d d' := by
  unfold Daemon.handlePipe at h
  cases hp : d.processes id with
  | none =>
    rw [hp] at h
    cases h
  | some p =>
    rw [hp] at h
    dsimp only at h
    split_ifs at h
    · obtain ⟨⟨pb, got, frames⟩, hin, hret⟩ := Except.bind_eq_ok.1 h
      cases hret
      exact .setStream hd hp (Pipebuf.speaks_inToInternalBuffer hin)
    · obtain ⟨⟨pb, got, frames⟩, hout, hret⟩ := Except.bind_eq_ok.1 h
      cases hret
      exact .setStream hd hp (Pipebuf.speaks_outIsWritable hout)

/-- The event of a stream does not find the socket closed. -/
theorem handlePipe_ne_sockClosed : d.handlePipe id role a ≠ .error .sockClosed := by
  intro h
  unfold Daemon.handlePipe at h
  cases hp : d.processes id with
  | none =>
    rw [hp] at h
    cases h
  | some p =>
    rw [hp] at h
    dsimp only at h
    split_ifs at h
    · rcases Except.bind_eq_error.1 h with h | ⟨_, _, h⟩
      · rcases Except.bind_eq_error.1 h with h | ⟨x, _, h⟩
        · rcases Pipebuf.readLoop_error h with h | ⟨h, -⟩ <;> cases h
        rcases Except.bind_eq_error.1 h with h | ⟨y, _, h⟩
        · split_ifs at h
          cases Pipebuf.inWriteToSock_error h
        dsimp only at h
        split_ifs at h
        · rcases Except.bind_eq_error.1 h with h | ⟨_, _, h⟩
          · cases (Pipebuf.deleteEpoll_error h).1
          · cases h
        · cases h
        · cases h
      · cases h
    · rcases Except.bind_eq_error.1 h with h | ⟨_, _, h⟩
      · rcases Except.bind_eq_error.1 h with h | ⟨w, _, h⟩
        · cases Pipebuf.writeFromPipebuf_error h
        rcases Except.bind_eq_error.1 h with h | ⟨_, _, h⟩
        · split_ifs at h
          cases (Pipebuf.deleteEpoll_error h).1
        · dsimp only at h
          split_ifs at h <;> cases h
      · cases h

/-- A command for a process that exists, other than `CMD_CLOSE`. -/
theorem Serves.handleCommand {f : Frame} (hd : d.Named) (hp : d.processes f.id = some p)
    {c : Option Command} (hc : c ≠ some .closeProcess) (h : d.handleCommand f p a c = .ok d') :
    Serves d d' := by
  rcases c with _ | (_ | _ | _ | _ | role | role | role)
  · cases h
    exact .refl hd
  · cases h
    exact .refl hd
  · cases h
  · exact absurd rfl hc
  · cases h
    exact .refl hd
  · obtain ⟨pb, hw, hret⟩ := Except.bind_eq_ok.1 h
    cases hret
    exact .setStream hd hp (.silent (Pipebuf.outToInternalBuffer_id hw))
  · obtain ⟨⟨pb, frames⟩, hack, hret⟩ := Except.bind_eq_ok.1 h
    cases hret
    exact .setStream hd hp (Pipebuf.speaks_inAck hack)
  · rw [Daemon.handleCommand] at h
    split_ifs at h
    · cases h
      exact .setStream hd hp (Pipebuf.speaks_inClose _ _ _)
    · cases h
      exact .setStream hd hp (.silent (Pipebuf.outClose_id _ _))

end Daemon

/-! ### The life of a process, as the host sees it -/

/-- The process of an entry. -/
def Entry.process : Entry → Byte
  | .opened id => id
  | .sent f => f.id

/-- What the host knows of a process. -/
inductive Life
  | closed
  | running
  | exited (code : Byte)
  deriving DecidableEq, Repr

namespace Life

/-- The life of a process by the pid in the table of the daemon, which is 0 when the child has been
reported, and the exit code of the child. -/
def ofPid (pid : Option ℕ) (exit : Option Byte) : Life :=
  match pid with
  | none => .closed
  | some pid => if pid = 0 then .exited (exit.getD 0#8) else .running

theorem ofPid_ne_closed (pid : ℕ) (exit : Option Byte) : ofPid (some pid) exit ≠ .closed := by
  show (if pid = 0 then Life.exited _ else .running) ≠ .closed
  split_ifs
  · exact Life.noConfusion
  · exact Life.noConfusion

/-- The next entry of the history: `none` if it must not come now. -/
def next (id : Byte) (l : Life) : Entry → Option Life
  | .opened i => if i = id then if l = .closed then some .running else none else some l
  | .sent f =>
    if f.id = id then
      if f.cmd = cmdExitStatus then if l = .running then some (.exited f.arg) else none
      else if l = .closed then none
      else if f.cmd = cmdCloseAck then some .closed
      else some l
    else some l

/-- What the host knows after a history that begins with all processes closed. -/
def ofHistory (id : Byte) (entries : List Entry) : Option Life := entries.foldlM (next id) .closed

variable {id : Byte} {l l' l'' : Life} {entries entries' : List Entry}

theorem ofHistory_append (h : ofHistory id entries = some l) :
    ofHistory id (entries ++ entries') = entries'.foldlM (next id) l := by
  rw [ofHistory] at h
  rw [ofHistory, List.foldlM_append, h]
  rfl

/-- What is said of another process changes nothing. -/
theorem foldlM_of_ne (h : ∀ e ∈ entries, e.process ≠ id) :
    entries.foldlM (next id) l = some l := by
  induction entries with
  | nil => rfl
  | cons e entries ih =>
    have hnext : next id l e = some l := by
      cases e <;> exact if_neg (h _ List.mem_cons_self)
    rw [List.foldlM_cons, hnext]
    exact ih fun e he => h e (List.mem_cons_of_mem _ he)

/-- Packets of streams change nothing, and do not come when the process is closed. -/
theorem foldlM_streams {frames : List Frame}
    (h : ∀ f ∈ frames, ∃ i, (i = id → l ≠ .closed) ∧ f.OfStream i) :
    (frames.map Entry.sent).foldlM (next id) l = some l := by
  induction frames with
  | nil => rfl
  | cons f frames ih =>
    have hnext : next id l (.sent f) = some l := by
      obtain ⟨i, hl, ⟨hid, hack⟩, hexit⟩ := h f List.mem_cons_self
      rw [next]
      split_ifs with hi hl'
      · exact absurd hl' (hl (hid.symm.trans hi))
      · rfl
      · rfl
    rw [List.map_cons, List.foldlM_cons, hnext]
    exact ih fun g hg => h g (List.mem_cons_of_mem f hg)

end Life

/-! ### The kernel -/

/-- A child of the daemon. -/
structure ChildProcess where
  pid : ℕ
  /-- The process that it was created for. -/
  id : Byte
  /-- Its exit code, once it has died. -/
  exit : Option Byte
  deriving DecidableEq, Repr

/-- A call of `kill`. -/
structure Signal where
  /-- The process for which the call is made. -/
  id : Byte
  sig : Byte
  /-- The process of the child that has the pid now. -/
  receiver : Option Byte
  deriving DecidableEq, Repr

/-- `SIGKILL`. -/
def sigkill : Byte := 9#8

/-- The daemon, and what the kernel knows of its children. -/
structure Reaper where
  daemon : Daemon
  /-- The children for which the daemon has not waited. -/
  children : List ChildProcess
  /-- `SIGCHLD` is pending: the signal descriptor is readable. -/
  sigchld : Bool
  /-- `handle_sigchld` has read the signal descriptor, and has not called `waitpid` yet. -/
  drained : Bool
  signals : List Signal
  /-- The exit code of the last child of each process. -/
  exits : Byte → Option Byte
  /-- The length of the history when the last connection was closed. -/
  base : ℕ

inductive ReaperLabel
  /-- A child dies. -/
  | die (pid : ℕ) (code : Byte)
  /-- `handle_sigchld` reads the signal descriptor until nothing is left. -/
  | drain
  /-- A step of the event loop; for `SIGCHLD`, the loop of `waitpid`. -/
  | daemon (l : Daemon.Label)

namespace Reaper

def init : Reaper := ⟨.init, [], false, false, [], fun _ => none, 0⟩

variable (s : Reaper)

/-- The children that have died, with their exit codes. -/
def dead : List (ℕ × Byte) := s.children.filterMap fun c => c.exit.map (c.pid, ·)

/-- `kill`. -/
def kill (id : Byte) (pid : ℕ) (sig : Byte) : Reaper :=
  { s with
    signals := s.signals ++ [⟨id, sig, (s.children.find? (·.pid = pid)).map ChildProcess.id⟩] }

/-- `waitpid` for a child that has been killed: it dies, if it has not died before. -/
def waitpid (pid : ℕ) : Reaper :=
  { s with
    children := s.children.filter (·.pid ≠ pid)
    sigchld := s.sigchld || s.children.any fun c => c.pid = pid && c.exit.isNone }

/-- `close_process`, for the child. -/
def closeProcess (id : Byte) (p : Procinfo) : Reaper :=
  if p.pid = 0 then s else (s.kill id p.pid sigkill).waitpid p.pid

/-- `wipe_existing_processes`, for the children. -/
def wipeExistingProcesses : Reaper :=
  (List.range 256).foldl (fun t i =>
    match s.daemon.processes (BitVec.ofNat 8 i) with
    | some p => t.closeProcess (BitVec.ofNat 8 i) p
    | none => t) s

/-- `handle_closed_spid_socket`, for the children. -/
def handleClosedSpidSocket : Reaper :=
  { s.wipeExistingProcesses with base := s.daemon.history.length }

/-- `fork` in the handler of `CMD_OPEN`. -/
def fork (id : Byte) (pid : ℕ) : Reaper :=
  { s with
    children := ⟨pid, id, none⟩ :: s.children
    exits := Function.update s.exits id none }

/-- The commands of the host that touch a child. -/
def command (f : Frame) (pid : ℕ) : Reaper :=
  match s.daemon.processes f.id, Command.ofByte f.cmd with
  | none, some .openProcess => s.fork f.id pid
  | some p, some .closeProcess => s.closeProcess f.id p
  | some p, some .kill => if p.pid = 0 then s else s.kill f.id p.pid f.arg
  | _, _ => s

/-- The loop of `waitpid` in `handle_sigchld`. -/
def reap (deaths : List (ℕ × Byte)) : Reaper :=
  { s with
    children := s.children.filter fun c => c.pid ∉ deaths.map Prod.fst
    drained := false }

/-- What an event does to the children, when its handler returns to the event loop. -/
def event (a : Answer) : Event → Reaper
  | .listener | .pipe _ _ => s
  | .sig => s.reap a.deaths
  | .sock =>
    if a.hangup then s.handleClosedSpidSocket
    else match a.header with
      | none => s
      | some f => s.command f a.pid

/-- What a step of the event loop does to the children. -/
def react : Daemon.Label → Reaper
  | .poll _ => s
  | .handle a =>
    match s.daemon.pending with
    | [] => s
    | e :: pending =>
      let s := { s with daemon := { s.daemon with pending := pending } }
      match s.daemon.handleEvent a e with
      | .ok _ => s.event a e
      | .error _ => s.handleClosedSpidSocket

/-- The kernel answers so: `epoll_wait` reports a readable signal descriptor, `waitpid` returns the
children that have died, in any order, and `fork` a pid that is not in use. -/
def admits : Daemon.Label → Bool
  | .poll batch => !batch.contains .sig || s.sigchld
  | .handle a =>
    match s.daemon.pending with
    | .sig :: _ => s.drained && a.deaths.isPerm s.dead
    | .sock :: _ => a.pid ≠ 0 && s.children.all (·.pid ≠ a.pid)
    | _ => true

def step : ReaperLabel → Option Reaper
  | .die pid code =>
    match s.children.find? fun c => c.pid = pid && c.exit.isNone with
    | none => none
    | some child =>
      some { s with
        children := s.children.map fun c => if c.pid = pid then { c with exit := some code } else c
        sigchld := true
        exits := Function.update s.exits child.id (some code) }
  | .drain =>
    if s.daemon.pending.head? = some .sig && !s.drained then
      some { s with sigchld := false, drained := true }
    else none
  | .daemon l =>
    if s.admits l then (s.daemon.step l).map fun d => { s.react l with daemon := d } else none

def machine : Machine Reaper ReaperLabel := ⟨step⟩

/-- What has become of a process. -/
def life (id : Byte) : Life := .ofPid (s.daemon.pids id) (s.exits id)

/-! ### The table of the daemon and the table of the kernel -/

/-- Every child is the one that the table of the daemon has for its process, and every pid of the
table is that of a child. -/
structure Matches (children : List ChildProcess) (pids : Byte → Option ℕ) : Prop where
  nodup : (children.map ChildProcess.pid).Nodup
  owned : ∀ c ∈ children, c.pid ≠ 0 ∧ pids c.id = some c.pid
  alive : ∀ id pid, pids id = some pid → pid ≠ 0 → ∃ c ∈ children, c.id = id ∧ c.pid = pid

namespace Matches

variable {children : List ChildProcess} {pids : Byte → Option ℕ} {id : Byte} {pid : ℕ}
  {c c' : ChildProcess}

theorem eq_of_pid (h : Matches children pids) (hc : c ∈ children) (hc' : c' ∈ children)
    (heq : c.pid = c'.pid) : c = c' := List.inj_on_of_nodup_map h.nodup hc hc' heq

theorem eq_of_id (h : Matches children pids) (hc : c ∈ children) (hc' : c' ∈ children)
    (heq : c.id = c'.id) : c = c' := by
  have hpid := (h.owned c hc).2
  rw [heq, (h.owned c' hc').2] at hpid
  exact h.eq_of_pid hc hc' (Option.some.inj hpid).symm

/-- The child with the pid of a process is the child of this process. -/
theorem find_pid (h : Matches children pids) (hp : pids id = some pid) (hpid : pid ≠ 0) :
    (children.find? (·.pid = pid)).map ChildProcess.id = some id := by
  obtain ⟨c, hc, hid, hcp⟩ := h.alive id pid hp hpid
  cases hfind : children.find? (·.pid = pid) with
  | none => exact absurd hcp (of_decide_eq_false (by simpa using List.find?_eq_none.1 hfind c hc))
  | some c' =>
    have hc' : c'.pid = pid := of_decide_eq_true (by simpa using List.find?_some hfind)
    obtain rfl := h.eq_of_pid (List.mem_of_find?_eq_some hfind) hc (hc'.trans hcp.symm)
    rw [Option.map_some, hid]

/-- A process and its child are gone. -/
theorem erase (h : Matches children pids) (id : Byte) :
    Matches (children.filter (·.id ≠ id)) (Function.update pids id none) where
  nodup := (List.filter_sublist.map _).nodup h.nodup
  owned c hc := by
    obtain ⟨hmem, hne⟩ := List.mem_filter.1 hc
    obtain ⟨h0, hp⟩ := h.owned c hmem
    exact ⟨h0, (Function.update_of_ne (of_decide_eq_true hne) _ _).trans hp⟩
  alive id' pid hp h0 := by
    by_cases hid : id' = id
    · subst hid
      rw [Function.update_self] at hp
      cases hp
    · rw [Function.update_of_ne hid] at hp
      obtain ⟨c, hc, rfl, hcp⟩ := h.alive id' pid hp h0
      exact ⟨c, List.mem_filter.2 ⟨hc, decide_eq_true hid⟩, rfl, hcp⟩

/-- The child of a process is gone. -/
theorem reap (h : Matches children pids) (hp : pids id = some pid) (h0 : pid ≠ 0) :
    Matches (children.filter (·.pid ≠ pid)) (Function.update pids id (some 0)) where
  nodup := (List.filter_sublist.map _).nodup h.nodup
  owned c hc := by
    obtain ⟨hmem, hne⟩ := List.mem_filter.1 hc
    obtain ⟨hc0, hcp⟩ := h.owned c hmem
    refine ⟨hc0, (Function.update_of_ne ?_ _ _).trans hcp⟩
    rintro rfl
    exact of_decide_eq_true hne (Option.some.inj (hcp.symm.trans hp))
  alive id' pid' hp' h0' := by
    by_cases hid : id' = id
    · subst hid
      rw [Function.update_self] at hp'
      exact absurd (Option.some.inj hp').symm h0'
    · rw [Function.update_of_ne hid] at hp'
      obtain ⟨c, hc, rfl, hcp⟩ := h.alive id' pid' hp' h0'
      refine ⟨c, List.mem_filter.2 ⟨hc, decide_eq_true fun hpid => hid ?_⟩, rfl, hcp⟩
      obtain ⟨c', hc', rfl, hcp'⟩ := h.alive id pid hp h0
      rw [h.eq_of_pid hc hc' (hpid.trans hcp'.symm)]

/-- A child with a new pid. -/
theorem fork (h : Matches children pids) (hp : pids id = none) (h0 : pid ≠ 0)
    (hnew : ∀ c ∈ children, c.pid ≠ pid) :
    Matches (⟨pid, id, none⟩ :: children) (Function.update pids id (some pid)) where
  nodup := by
    rw [List.map_cons, List.nodup_cons]
    refine ⟨fun hmem => ?_, h.nodup⟩
    obtain ⟨c, hc, hcp⟩ := List.mem_map.1 hmem
    exact hnew c hc hcp
  owned c hc := by
    obtain rfl | hc := List.mem_cons.1 hc
    · exact ⟨h0, Function.update_self _ _ _⟩
    · obtain ⟨hc0, hcp⟩ := h.owned c hc
      refine ⟨hc0, (Function.update_of_ne ?_ _ _).trans hcp⟩
      rintro rfl
      rw [hp] at hcp
      cases hcp
  alive id' pid' hp' h0' := by
    by_cases hid : id' = id
    · subst hid
      rw [Function.update_self] at hp'
      exact ⟨_, List.mem_cons_self, rfl, Option.some.inj hp'⟩
    · rw [Function.update_of_ne hid] at hp'
      obtain ⟨c, hc, hcid, hcp⟩ := h.alive id' pid' hp' h0'
      exact ⟨c, List.mem_cons_of_mem _ hc, hcid, hcp⟩

/-- A child dies. -/
theorem die (h : Matches children pids) (f : ChildProcess → ChildProcess)
    (hf : ∀ c, (f c).pid = c.pid ∧ (f c).id = c.id) : Matches (children.map f) pids where
  nodup := by
    rw [List.map_map]
    exact (List.map_congr_left fun c _ => (hf c).1) ▸ h.nodup
  owned c hc := by
    obtain ⟨c, hmem, rfl⟩ := List.mem_map.1 hc
    rw [(hf c).1, (hf c).2]
    exact h.owned c hmem
  alive id pid hp h0 := by
    obtain ⟨c, hc, hcid, hcp⟩ := h.alive id pid hp h0
    exact ⟨f c, List.mem_map_of_mem hc, (hf c).2.trans hcid, (hf c).1.trans hcp⟩

end Matches

/-! ### Children that are killed -/

variable {s} {t u : Reaper} {id : Byte} {pids : Byte → Option ℕ} {p : Procinfo}

/-- Some children have been killed and waited for. -/
structure Kills (s t : Reaper) : Prop where
  daemon : t.daemon = s.daemon
  exits : t.exits = s.exits
  base : t.base = s.base
  drained : t.drained = s.drained
  sigchld : s.sigchld → t.sigchld
  children : t.children.Sublist s.children
  signals : ∀ x ∈ t.signals, x ∈ s.signals ∨ x.receiver = some x.id

theorem Kills.refl (s : Reaper) : Kills s s :=
  ⟨rfl, rfl, rfl, rfl, fun h => h, .refl _, fun _ hx => .inl hx⟩

theorem Kills.trans (h : Kills s t) (h' : Kills t u) : Kills s u where
  daemon := h'.daemon.trans h.daemon
  exits := h'.exits.trans h.exits
  base := h'.base.trans h.base
  drained := h'.drained.trans h.drained
  sigchld hs := h'.sigchld (h.sigchld hs)
  children := h'.children.trans h.children
  signals x hx := (h'.signals x hx).elim (h.signals x) .inr

theorem Kills.dead (h : Kills s t) (hd : t.dead ≠ []) : s.dead ≠ [] := by
  intro hnil
  have hsub : t.dead.Sublist s.dead := h.children.filterMap _
  rw [hnil] at hsub
  exact hd (List.sublist_nil.1 hsub)

/-- `close_process` kills the child of the process, and no other one. -/
theorem kills_closeProcess (h : Matches s.children pids) (hp : pids id = some p.pid) :
    Kills s (s.closeProcess id p) ∧
      Matches (s.closeProcess id p).children (Function.update pids id none) := by
  unfold closeProcess
  split_ifs with h0
  · -- a process whose child has been reported has none
    refine ⟨.refl s, ?_⟩
    have hnone : s.children.filter (·.id ≠ id) = s.children := by
      refine List.filter_eq_self.2 fun c hc => decide_eq_true ?_
      rintro rfl
      obtain ⟨hc0, hcp⟩ := h.owned c hc
      exact hc0 ((Option.some.inj (hcp.symm.trans hp)).trans h0)
    exact hnone ▸ h.erase id
  · refine ⟨⟨rfl, rfl, rfl, rfl, fun hs => ?_, List.filter_sublist, fun x hx => ?_⟩, ?_⟩
    · show (s.sigchld || _) = true
      rw [hs, Bool.true_or]
    · obtain hx | hx := List.mem_append.1 hx
      · exact .inl hx
      · obtain rfl := List.mem_singleton.1 hx
        exact .inr (h.find_pid hp h0)
    · have hsame : s.children.filter (·.id ≠ id) = s.children.filter (·.pid ≠ p.pid) := by
        refine List.filter_congr fun c hc =>
          decide_eq_decide.2 (not_congr ⟨fun hid => ?_, fun hpid => ?_⟩)
        · exact Option.some.inj ((hid ▸ (h.owned c hc).2).symm.trans hp)
        · obtain ⟨c', hc', hid, hcp⟩ := h.alive id _ hp h0
          rw [h.eq_of_pid hc hc' (hpid.trans hcp.symm), hid]
      have herase := h.erase id
      rw [hsame] at herase
      exact herase

theorem kills_fold {d : Daemon} {l : List ℕ} (h : Matches s.children pids)
    (hl : (l.map (BitVec.ofNat 8)).Nodup)
    (hp : ∀ i ∈ l, pids (BitVec.ofNat 8 i) = d.pids (BitVec.ofNat 8 i)) :
    Kills s (l.foldl (fun t i => match d.processes (BitVec.ofNat 8 i) with
      | some p => t.closeProcess (BitVec.ofNat 8 i) p
      | none => t) s) ∧
    ∃ pids', Matches (l.foldl (fun t i => match d.processes (BitVec.ofNat 8 i) with
      | some p => t.closeProcess (BitVec.ofNat 8 i) p
      | none => t) s).children pids' ∧ (∀ i ∈ l, pids' (BitVec.ofNat 8 i) = none) ∧
        ∀ id, pids id = none → pids' id = none := by
  induction l generalizing s pids with
  | nil => exact ⟨.refl s, pids, h, nofun, fun _ hid => hid⟩
  | cons i l ih =>
    rw [List.map_cons, List.nodup_cons] at hl
    obtain ⟨hnot, hl⟩ := hl
    have hi := hp i List.mem_cons_self
    -- one process is closed, if there is one
    obtain ⟨t, ht, hkill, hmatch⟩ : ∃ t, (match d.processes (BitVec.ofNat 8 i) with
        | some p => s.closeProcess (BitVec.ofNat 8 i) p
        | none => s) = t ∧ Kills s t ∧
          Matches t.children (Function.update pids (BitVec.ofNat 8 i) none) := by
      cases hproc : d.processes (BitVec.ofNat 8 i) with
      | none =>
        refine ⟨s, rfl, .refl s, ?_⟩
        rw [Daemon.pids, hproc] at hi
        rwa [Function.update_eq_self_iff.2 hi.symm]
      | some p =>
        rw [Daemon.pids_eq_some hproc] at hi
        exact ⟨_, rfl, kills_closeProcess h hi⟩
    rw [List.foldl_cons, ht]
    obtain ⟨hkills, pids', hm', hnone, hkeep⟩ := ih hmatch hl fun j hj => by
      have hne : BitVec.ofNat 8 j ≠ BitVec.ofNat 8 i := fun he =>
        hnot (he ▸ List.mem_map_of_mem hj)
      rw [Function.update_of_ne hne]
      exact hp j (List.mem_cons_of_mem i hj)
    refine ⟨hkill.trans hkills, pids', hm', fun j hj => ?_, fun id hid => hkeep id ?_⟩
    · obtain rfl | hj := List.mem_cons.1 hj
      · exact hkeep _ (Function.update_self _ _ _)
      · exact hnone j hj
    · by_cases he : id = BitVec.ofNat 8 i
      · subst he
        exact Function.update_self _ _ _
      · exact (Function.update_of_ne he _ _).trans hid

/-- **No child is left** when the connection has been closed. -/
theorem kills_wipe (h : Matches s.children s.daemon.pids) :
    Kills s s.wipeExistingProcesses ∧ s.wipeExistingProcesses.children = [] := by
  have hnodup : ((List.range 256).map (BitVec.ofNat 8)).Nodup := by
    refine List.nodup_range.map_on fun i hi j hj he => ?_
    have := congrArg BitVec.toNat he
    rw [BitVec.toNat_ofNat, BitVec.toNat_ofNat] at this
    have := List.mem_range.1 hi
    have := List.mem_range.1 hj
    omega
  obtain ⟨hkills, pids', hmatch, hnone, -⟩ :=
    kills_fold (d := s.daemon) h hnodup fun _ _ => rfl
  refine ⟨hkills, List.eq_nil_iff_forall_not_mem.2 fun c hc => ?_⟩
  have hid := hnone c.id.toNat (List.mem_range.2 c.id.isLt)
  rw [BitVec.ofNat_toNat, BitVec.setWidth_eq] at hid
  exact absurd (hid.symm.trans (hmatch.owned c hc).2) (by simp)

/-! ### The invariant -/

/-- What holds of the daemon and its children, whatever events are pending. -/
structure Core (s : Reaper) : Prop where
  named : s.daemon.Named
  table : Matches s.children s.daemon.pids
  exit : ∀ c ∈ s.children, c.exit = s.exits c.id
  ended : ∀ id, s.daemon.pids id = some 0 → (s.exits id).isSome
  received : ∀ x ∈ s.signals, x.receiver = some x.id
  connected : ∀ id pid, s.daemon.pids id = some pid → s.daemon.sock
  base : s.base ≤ s.daemon.history.length
  life : ∀ id, Life.ofHistory id (s.daemon.history.drop s.base) = some (s.life id)

/-- Every death is noticed, and only one handler is at work. -/
structure Noticed (s : Reaper) : Prop where
  noticed : s.dead ≠ [] → s.sigchld ∨ s.drained
  drained : s.drained → s.daemon.pending.head? = some .sig
  nodup : s.daemon.pending.Nodup
  sock : .sock ∈ s.daemon.pending → s.daemon.sock

theorem matches_nil : Matches [] fun _ => none where
  nodup := .nil
  owned c hc := by cases hc
  alive id pid hp := by cases hp

theorem core_init : Core init where
  named id p hp := by cases hp
  table := matches_nil
  exit c hc := by cases hc
  ended id hp := by cases hp
  received x hx := by cases hx
  connected id pid hp := by cases hp
  base := Nat.le_refl 0
  life id := rfl

theorem noticed_init : Noticed init where
  noticed h := absurd rfl h
  drained h := by cases h
  nodup := .nil
  sock h := by cases h

/-- The history goes on. -/
theorem Core.life_append (h : Core s) {entries : List Entry} {l : Life}
    (hl : entries.foldlM (Life.next id) (s.life id) = some l) :
    Life.ofHistory id ((s.daemon.history ++ entries).drop s.base) = some l := by
  rw [List.drop_append_of_le_length h.base, Life.ofHistory_append (h.life id)]
  exact hl

/-- A handler that only sends packets of streams. -/
theorem Core.serves (h : Core s) {d : Daemon} (hd : Daemon.Serves s.daemon d) :
    Core { s with daemon := d } where
  named := hd.named
  table := hd.pids ▸ h.table
  exit := h.exit
  ended id hp := h.ended id (hd.pids ▸ hp)
  received := h.received
  connected id pid hp := hd.sock ▸ h.connected id pid (hd.pids ▸ hp)
  base := by
    obtain ⟨frames, hh, -⟩ := hd.history
    show s.base ≤ d.history.length
    rw [hh, List.length_append]
    exact Nat.le_add_right_of_le h.base
  life id := by
    obtain ⟨frames, hh, hf⟩ := hd.history
    have hlife : Reaper.life { s with daemon := d } id = s.life id :=
      congrArg (Life.ofPid · (s.exits id)) (congrFun hd.pids id)
    rw [hlife]
    show Life.ofHistory id (d.history.drop s.base) = _
    rw [hh]
    refine h.life_append (Life.foldlM_streams fun f hmem => ?_)
    obtain ⟨i, pid, hi, hfi⟩ := hf f hmem
    refine ⟨i, ?_, hfi⟩
    rintro rfl
    rw [Reaper.life, hi]
    exact Life.ofPid_ne_closed pid _

/-- The children of closed connections are gone, and so is what the host knows. -/
theorem Core.disconnect (h : Core s) (hk : Kills s t) (hnil : t.children = []) :
    Core { t with
      base := s.daemon.history.length
      daemon := s.daemon.handleClosedSpidSocket } where
  named id p hp := by cases hp
  table := by
    show Matches t.children fun _ => none
    rw [hnil]
    exact matches_nil
  exit c hc := by
    have hc' : c ∈ t.children := hc
    rw [hnil] at hc'
    cases hc'
  ended id hp := by cases hp
  received x hx := (hk.signals x hx).elim (h.received x) id
  connected id pid hp := by cases hp
  base := Nat.le_refl _
  life id := by
    show Life.ofHistory id (s.daemon.history.drop s.daemon.history.length) = _
    rw [List.drop_length]
    rfl

/-- A child dies. -/
theorem Core.die (h : Core s) {c : ChildProcess} {code : Byte} (hc : c ∈ s.children) :
    Core { s with
      children := s.children.map fun c' =>
        if c'.pid = c.pid then { c' with exit := some code } else c'
      sigchld := true
      exits := Function.update s.exits c.id (some code) } where
  named := h.named
  table := h.table.die _ fun c' => by split_ifs <;> exact ⟨rfl, rfl⟩
  exit c' hc' := by
    obtain ⟨c₀, hmem, rfl⟩ := List.mem_map.1 hc'
    show _ = Function.update s.exits c.id (some code) _
    split_ifs with hpid
    · rw [h.table.eq_of_pid hmem hc hpid]
      exact (Function.update_self c.id (some code) s.exits).symm
    · rw [Function.update_of_ne fun hid => hpid (h.table.eq_of_id hmem hc hid ▸ rfl)]
      exact h.exit c₀ hmem
  ended id hp := by
    show (Function.update s.exits c.id (some code) id).isSome
    by_cases hid : id = c.id
    · rw [hid, Function.update_self]
      rfl
    · rw [Function.update_of_ne hid]
      exact h.ended id hp
  received := h.received
  connected := h.connected
  base := h.base
  life id := by
    refine (h.life id).trans (congrArg some ?_)
    show s.life id = Life.ofPid (s.daemon.pids id) (Function.update s.exits c.id (some code) id)
    by_cases hid : id = c.id
    · -- the process of the child has its pid, so the code is not looked at
      obtain ⟨h0, hp⟩ := h.table.owned c hc
      rw [hid, Reaper.life, hp, Life.ofPid, Life.ofPid, if_neg h0, if_neg h0]
    · rw [Function.update_of_ne hid]
      rfl

/-- `CMD_KILL`. -/
theorem Core.kill (h : Core s) (hp : s.daemon.processes id = some p) (h0 : p.pid ≠ 0) (sig : Byte) :
    Core (s.kill id p.pid sig) := by
  refine { h with received := fun x hx => ?_ }
  obtain hx | hx := List.mem_append.1 hx
  · exact h.received x hx
  · obtain rfl := List.mem_singleton.1 hx
    exact h.table.find_pid (Daemon.pids_eq_some hp) h0

/-- The child of one process is created or is gone. -/
theorem Core.changes (h : Core s) {d : Daemon} {pid : Option ℕ} {entries : List Entry}
    (hd : Daemon.Changes s.daemon d id pid entries)
    (htable : Matches t.children (Function.update s.daemon.pids id pid))
    (hexit : ∀ c ∈ t.children, c.exit = t.exits c.id)
    (hexits : ∀ i, i ≠ id → t.exits i = s.exits i) (hended : pid = some 0 → (t.exits id).isSome)
    (hreceived : ∀ x ∈ t.signals, x.receiver = some x.id) (hsock : d.sock) (hbase : t.base = s.base)
    (hentries : ∀ e ∈ entries, e.process = id)
    (hlife : entries.foldlM (Life.next id) (s.life id) = some (.ofPid pid (t.exits id))) :
    Core { t with daemon := d } where
  named := hd.named
  table := hd.pids ▸ htable
  exit := hexit
  ended i hp := by
    have hp' : d.pids i = some 0 := hp
    rw [hd.pids, Function.update_apply] at hp'
    show (t.exits i).isSome
    split_ifs at hp' with hi
    · exact hi ▸ hended hp'
    · exact hexits i hi ▸ h.ended i hp'
  received := hreceived
  connected _ _ _ := hsock
  base := by
    show t.base ≤ d.history.length
    rw [hbase, hd.history, List.length_append]
    exact Nat.le_add_right_of_le h.base
  life i := by
    show Life.ofHistory i (d.history.drop t.base) = some (.ofPid (d.pids i) (t.exits i))
    rw [hbase, hd.history, hd.pids, Function.update_apply]
    by_cases hi : i = id
    · rw [if_pos hi, hi]
      exact h.life_append hlife
    · rw [if_neg hi, hexits i hi]
      refine h.life_append (Life.foldlM_of_ne fun e he heq => hi ?_)
      exact heq.symm.trans (hentries e he)

theorem Core.life_eq (h : s.daemon.pids id = none) : s.life id = .closed := by
  rw [Reaper.life, h]
  rfl

/-- `CMD_OPEN`. -/
theorem Core.openProcess (h : Core s) {d : Daemon} {pid : ℕ} {memory : Role → ℤ → Byte}
    (hp : s.daemon.processes id = none) (h0 : pid ≠ 0) (hnew : ∀ c ∈ s.children, c.pid ≠ pid)
    (hsock : s.daemon.sock) (hd : s.daemon.openProcess id pid memory = .ok d) :
    Core { s.fork id pid with daemon := d } := by
  have hnone : s.daemon.pids id = none := congrArg (Option.map Procinfo.pid) hp
  obtain ⟨frames, hchanges, hs, -, hf⟩ := Daemon.changes_openProcess h.named hd
  refine h.changes (t := s.fork id pid) hchanges (h.table.fork hnone h0 hnew) (fun c hc => ?_)
    (fun i hi => Function.update_of_ne hi _ _) (fun he => absurd (Option.some.inj he) h0)
    h.received (hs ▸ hsock) rfl (fun e he => ?_) ?_
  · obtain rfl | hmem := List.mem_cons.1 hc
    · exact (Function.update_self id none s.exits).symm
    · refine (h.exit c hmem).trans (Function.update_of_ne ?_ _ _).symm
      rintro rfl
      cases hnone.symm.trans (h.table.owned c hmem).2
  · obtain rfl | he := List.mem_cons.1 he
    · rfl
    · obtain ⟨f, hmem, rfl⟩ := List.mem_map.1 he
      exact (hf f hmem).1.1
  · have hopen : Life.next id .closed (.opened id) = some .running := by
      rw [Life.next, if_pos rfl, if_pos rfl]
    rw [Core.life_eq hnone, List.foldlM_cons, hopen]
    show (frames.map Entry.sent).foldlM (Life.next id) .running = some _
    rw [Life.ofPid, if_neg h0]
    exact Life.foldlM_streams fun f hmem => ⟨id, fun _ => Life.noConfusion, hf f hmem⟩

/-- `CMD_CLOSE`. -/
theorem Core.closeProcess (h : Core s) (hp : s.daemon.processes id = some p) :
    Core { s.closeProcess id p with daemon := s.daemon.closeProcess id p } := by
  have hpid := Daemon.pids_eq_some hp
  have hsock := h.connected id _ hpid
  obtain ⟨hkills, hmatch⟩ := kills_closeProcess h.table hpid
  obtain ⟨frames, hf, hchanges⟩ := Daemon.changes_closeProcess h.named hp hsock
  refine h.changes (t := s.closeProcess id p) hchanges hmatch (fun c hc => ?_)
    (fun i _ => congrFun hkills.exits i) nofun
    (fun x hx => (hkills.signals x hx).elim (h.received x) fun hr => hr) hsock hkills.base
    (fun e he => ?_) ?_
  · rw [hkills.exits]
    exact h.exit c (hkills.children.subset hc)
  · obtain he | he := List.mem_append.1 he
    · obtain ⟨f, hmem, rfl⟩ := List.mem_map.1 he
      exact (hf f hmem).1.1
    · obtain rfl := List.mem_singleton.1 he
      rfl
  · have hopen : s.life id ≠ .closed := by
      rw [Reaper.life, hpid]
      exact Life.ofPid_ne_closed _ _
    have hack : Life.next id (s.life id) (.sent ⟨cmdCloseAck, id, 255#8, 0#8, []⟩) =
        some .closed := by
      have hcmd : cmdCloseAck ≠ cmdExitStatus := by decide
      rw [Life.next, if_pos rfl, if_neg hcmd, if_neg hopen, if_pos rfl]
    rw [List.foldlM_append,
      Life.foldlM_streams fun f hmem => ⟨id, fun _ => hopen, hf f hmem⟩]
    show [Entry.sent _].foldlM (Life.next id) (s.life id) = _
    rw [List.foldlM_cons, hack]
    rfl

/-- `find_by_pid` finds the process of a child. -/
theorem findByPid_of_matches {d : Daemon} {children : List ChildProcess} {c : ChildProcess}
    (h : Matches children d.pids) (hc : c ∈ children) :
    ∃ p, d.findByPid c.pid = some (c.id, p) ∧ d.processes c.id = some p := by
  obtain ⟨hc0, hcp⟩ := h.owned c hc
  obtain ⟨p, hp, hpid⟩ := Option.map_eq_some_iff.1 hcp
  cases hfind : d.findByPid c.pid with
  | none =>
    have hnone := List.findSome?_eq_none_iff.1 hfind c.id.toNat (List.mem_range.2 c.id.isLt)
    rw [BitVec.ofNat_toNat, BitVec.setWidth_eq, hp] at hnone
    dsimp only at hnone
    rw [if_pos hpid] at hnone
    cases hnone
  | some found =>
    obtain ⟨id, q⟩ := found
    have hq := Daemon.findByPid_eq hfind
    have hqpid : q.pid = c.pid := by
      obtain ⟨i, -, hi⟩ := List.exists_of_findSome?_eq_some hfind
      split at hi
      next q' _ =>
        split_ifs at hi with he
        cases hi
        exact he
      next => cases hi
    -- the process found has the same pid, so it has the same child
    obtain ⟨c', hc', hid, hpid'⟩ := h.alive id q.pid (Daemon.pids_eq_some hq) (hqpid.trans_ne hc0)
    obtain rfl := h.eq_of_pid hc' hc (hpid'.trans hqpid)
    subst hid
    exact ⟨q, rfl, hq⟩

theorem mem_dead {pid : ℕ} {code : Byte} :
    (pid, code) ∈ s.dead ↔ ∃ c ∈ s.children, c.exit = some code ∧ c.pid = pid := by
  unfold dead
  rw [List.mem_filterMap]
  refine exists_congr fun c => and_congr_right fun _ => ?_
  rw [Option.map_eq_some_iff]
  refine ⟨fun ⟨e, he, heq⟩ => ?_, fun ⟨he, heq⟩ => ⟨code, he, heq ▸ rfl⟩⟩
  cases heq
  exact ⟨he, rfl⟩

/-- One pass of the loop of `waitpid` in `handle_sigchld`: the death of a child is reported. -/
theorem Core.reapOne (h : Core s) {c : ChildProcess} {code : Byte} (hc : c ∈ s.children)
    (hcode : c.exit = some code) :
    Core { s with
      daemon := s.daemon.handleSigchld [(c.pid, code)]
      children := s.children.filter (·.pid ≠ c.pid) } := by
  obtain ⟨p, hfind, hp⟩ := findByPid_of_matches h.table hc
  obtain ⟨hc0, hcp⟩ := h.table.owned c hc
  have hsock := h.connected c.id _ hcp
  have hexit : s.exits c.id = some code := (h.exit c hc).symm.trans hcode
  have hd : s.daemon.handleSigchld [(c.pid, code)] =
      { s.daemon with
        processes := Function.update s.daemon.processes c.id (some { p with pid := 0 })
        history := s.daemon.history ++ [.sent ⟨cmdExitStatus, c.id, code, 0#8, []⟩] } := by
    rw [Daemon.handleSigchld, hfind]
    dsimp only
    rw [Daemon.handleSigchld, sendHeader, if_pos hsock]
    rfl
  rw [hd]
  refine h.changes (t := { s with children := s.children.filter (·.pid ≠ c.pid) })
    (.update h.named (some { p with pid := 0 }) _ fun q hq role => ?_) (h.table.reap hcp hc0)
    (fun c' hc' => h.exit c' (List.mem_of_mem_filter hc')) (fun _ _ => rfl) (fun _ => ?_)
    h.received hsock rfl (fun e he => ?_) ?_
  · cases hq
    refine Eq.trans ?_ (h.named c.id p hp role)
    cases role <;> rfl
  · show (s.exits c.id).isSome
    rw [hexit]
    rfl
  · obtain rfl := List.mem_singleton.1 he
    rfl
  · have hrun : s.life c.id = .running := by
      rw [Reaper.life, hcp, Life.ofPid, if_neg hc0]
    have hend : Life.next c.id .running (.sent ⟨cmdExitStatus, c.id, code, 0#8, []⟩) =
        some (.exited code) := by
      rw [Life.next, if_pos rfl, if_pos rfl, if_pos rfl]
    rw [hrun, List.foldlM_cons, hend]
    show some (Life.exited code) = some (Life.ofPid (some 0) (s.exits c.id))
    rw [hexit]
    rfl

theorem handleSigchld_cons (d : Daemon) (x : ℕ × Byte) (deaths : List (ℕ × Byte)) :
    d.handleSigchld (x :: deaths) = (d.handleSigchld [x]).handleSigchld deaths := by
  obtain ⟨pid, code⟩ := x
  rw [Daemon.handleSigchld, Daemon.handleSigchld]
  cases d.findByPid pid with
  | none => rfl
  | some found => rfl

/-- The loop of `waitpid` in `handle_sigchld`. -/
theorem Core.reapAll (h : Core s) {deaths : List (ℕ × Byte)} (hdead : ∀ x ∈ deaths, x ∈ s.dead)
    (hnodup : (deaths.map Prod.fst).Nodup) :
    Core { s with
      daemon := s.daemon.handleSigchld deaths
      children := s.children.filter fun c => c.pid ∉ deaths.map Prod.fst } := by
  induction deaths generalizing s with
  | nil =>
    have hall : (s.children.filter fun c => c.pid ∉ ([] : List (ℕ × Byte)).map Prod.fst) =
        s.children := List.filter_eq_self.2 fun c _ => decide_eq_true (List.not_mem_nil)
    rw [hall]
    exact h
  | cons x deaths ih =>
    obtain ⟨pid, code⟩ := x
    rw [List.map_cons, List.nodup_cons] at hnodup
    obtain ⟨c, hc, hcode, rfl⟩ := mem_dead.1 (hdead _ List.mem_cons_self)
    have hrest := ih (h.reapOne hc hcode) (fun x hx => ?_) hnodup.2
    · have hfilter : (s.children.filter (·.pid ≠ c.pid)).filter
            (fun c' => c'.pid ∉ deaths.map Prod.fst) =
          s.children.filter fun c' => c'.pid ∉ ((c.pid, code) :: deaths).map Prod.fst := by
        rw [List.filter_filter]
        refine List.filter_congr fun c' _ => ?_
        rw [← Bool.decide_and]
        refine decide_eq_decide.2 ?_
        rw [List.map_cons, List.mem_cons, not_or, and_comm]
      rw [handleSigchld_cons]
      rw [hfilter] at hrest
      exact hrest
    · -- the other children that have died are still there
      obtain ⟨pid', code'⟩ := x
      obtain ⟨c', hc', hcode', rfl⟩ := mem_dead.1 (hdead _ (List.mem_cons_of_mem _ hx))
      refine mem_dead.2 ⟨c', List.mem_filter.2 ⟨hc', decide_eq_true fun he => ?_⟩, hcode', rfl⟩
      exact hnodup.1 (List.mem_map.2 ⟨_, hx, he⟩)

theorem dead_nodup (h : Matches s.children pids) : (s.dead.map Prod.fst).Nodup := by
  have hsub : (s.dead.map Prod.fst).Sublist (s.children.map ChildProcess.pid) := by
    unfold dead
    generalize s.children = children
    induction children with
    | nil => exact .refl _
    | cons c children ih =>
      rw [List.filterMap_cons]
      cases hexit : c.exit with
      | none => exact ih.cons _
      | some code => exact ih.cons_cons _
  exact hsub.nodup h.nodup

/-! ### Steps -/

variable {a : Answer} {e : Event}

theorem Core.setPending (h : Core s) (pending : List Event) :
    Core { s with daemon := { s.daemon with pending := pending } } :=
  ⟨h.named, h.table, h.exit, h.ended, h.received, h.connected, h.base, h.life⟩

theorem handleSigchld_frame (d : Daemon) (deaths : List (ℕ × Byte)) :
    (d.handleSigchld deaths).pending = d.pending ∧ (d.handleSigchld deaths).sock = d.sock := by
  induction deaths generalizing d with
  | nil => exact ⟨rfl, rfl⟩
  | cons x deaths ih =>
    obtain ⟨pid, code⟩ := x
    rw [Daemon.handleSigchld]
    cases d.findByPid pid with
    | none => exact ih d
    | some found => exact ih _

/-- All children that have died have been waited for. -/
theorem Core.sig (h : Core s) (hperm : a.deaths.Perm s.dead) :
    Core { s.reap a.deaths with daemon := s.daemon.handleSigchld a.deaths } ∧
      (s.reap a.deaths).dead = [] := by
  have hcore := h.reapAll (fun x hx => hperm.mem_iff.1 hx)
    ((hperm.map Prod.fst).nodup_iff.2 (dead_nodup h.table))
  refine ⟨⟨hcore.named, hcore.table, hcore.exit, hcore.ended, hcore.received, hcore.connected,
    hcore.base, hcore.life⟩, List.eq_nil_iff_forall_not_mem.2 fun x hx => ?_⟩
  obtain ⟨pid, code⟩ := x
  obtain ⟨c, hc, hcode, rfl⟩ := mem_dead.1 hx
  obtain ⟨hmem, hnot⟩ := List.mem_filter.1 hc
  refine of_decide_eq_true hnot (List.mem_map.2 ⟨(c.pid, code), hperm.mem_iff.2 ?_, rfl⟩)
  exact mem_dead.2 ⟨c, hmem, hcode, rfl⟩

/-- Outside of `handle_sigchld`, no death is forgotten. -/
structure Keeps (s t : Reaper) : Prop where
  drained : t.drained = s.drained
  sigchld : s.sigchld → t.sigchld
  dead : t.dead ≠ [] → s.dead ≠ []

theorem Kills.keeps (h : Kills s t) : Keeps s t := ⟨h.drained, h.sigchld, h.dead⟩

theorem Keeps.refl (s : Reaper) : Keeps s s := ⟨rfl, fun h => h, fun h => h⟩

/-- `handle_closed_spid_socket`. -/
theorem Core.closed (h : Core s) :
    Core { s.handleClosedSpidSocket with daemon := s.daemon.handleClosedSpidSocket } ∧
      Keeps s s.handleClosedSpidSocket := by
  obtain ⟨hk, hnil⟩ := kills_wipe h.table
  unfold handleClosedSpidSocket
  generalize s.wipeExistingProcesses = w at hk hnil ⊢
  have hcore := h.disconnect hk hnil
  exact ⟨hcore, hk.drained, hk.sigchld, hk.dead⟩

/-- The other commands touch no child. -/
theorem command_eq_self {f : Frame} {pid : ℕ} (hp : s.daemon.processes f.id = some p)
    (hclose : Command.ofByte f.cmd ≠ some .closeProcess)
    (hkill : Command.ofByte f.cmd ≠ some .kill) : s.command f pid = s := by
  unfold command
  rw [hp]
  generalize Command.ofByte f.cmd = c at hclose hkill ⊢
  rcases c with _ | (_ | _ | _ | _ | _ | _ | _)
  case some.closeProcess => exact absurd rfl hclose
  case some.kill => exact absurd rfl hkill
  all_goals rfl

theorem command_eq_kill {f : Frame} {pid : ℕ} (hp : s.daemon.processes f.id = some p)
    (hkill : Command.ofByte f.cmd = some .kill) :
    s.command f pid = if p.pid = 0 then s else s.kill f.id p.pid f.arg := by
  unfold command
  rw [hp, hkill]

theorem command_eq_close {f : Frame} {pid : ℕ} (hp : s.daemon.processes f.id = some p)
    (hclose : Command.ofByte f.cmd = some .closeProcess) :
    s.command f pid = s.closeProcess f.id p := by
  unfold command
  rw [hp, hclose]

theorem command_eq_open {f : Frame} {pid : ℕ} (hp : s.daemon.processes f.id = none)
    (hopen : Command.ofByte f.cmd = some .openProcess) : s.command f pid = s.fork f.id pid := by
  unfold command
  rw [hp, hopen]

/-- A packet of the host. -/
theorem Core.packet (h : Core s) {f : Frame} {d : Daemon} (hsock : s.daemon.sock)
    (hf : a.header = some f) (h0 : a.pid ≠ 0) (hnew : ∀ c ∈ s.children, c.pid ≠ a.pid)
    (hd : s.daemon.handleSocketReadable a = .ok d) :
    Core { s.command f a.pid with daemon := d } ∧ Keeps s (s.command f a.pid) ∧
      d.pending = s.daemon.pending := by
  rw [Daemon.handleSocketReadable, hf] at hd
  dsimp only at hd
  by_cases hreset : Command.ofByte f.cmd = some .reset
  · rw [if_pos hreset] at hd
    cases hd
  rw [if_neg hreset] at hd
  cases hp : s.daemon.processes f.id with
  | none =>
    rw [hp] at hd
    dsimp only at hd
    obtain ⟨hopen, hd⟩ : Command.ofByte f.cmd = some .openProcess ∧
        s.daemon.openProcess f.id a.pid a.memory = .ok d := by
      split_ifs at hd with hopen
      exact ⟨hopen, hd⟩
    rw [command_eq_open hp hopen]
    obtain ⟨frames, -, -, hpending, -⟩ := Daemon.changes_openProcess h.named hd
    exact ⟨h.openProcess hp h0 hnew hsock hd, ⟨rfl, fun hs => hs, fun hs => hs⟩, hpending⟩
  | some p =>
    rw [hp] at hd
    dsimp only at hd
    have hpid := Daemon.pids_eq_some hp
    by_cases hclose : Command.ofByte f.cmd = some .closeProcess
    · rw [hclose] at hd
      cases hd
      rw [command_eq_close hp hclose]
      exact ⟨h.closeProcess hp, (kills_closeProcess h.table hpid).1.keeps, rfl⟩
    have hserves := Daemon.Serves.handleCommand h.named hp hclose hd
    by_cases hkill : Command.ofByte f.cmd = some .kill
    · rw [command_eq_kill hp hkill]
      split_ifs with hzero
      · exact ⟨h.serves hserves, .refl s, hserves.pending⟩
      · exact ⟨(h.kill hp hzero f.arg).serves hserves, ⟨rfl, fun hs => hs, fun hs => hs⟩,
          hserves.pending⟩
    · rw [command_eq_self hp hclose hkill]
      exact ⟨h.serves hserves, .refl s, hserves.pending⟩

/-- A handler other than `handle_sigchld` has returned. -/
theorem Noticed.handled (h : Noticed s) {d₀ d : Daemon} {pending : List Event}
    (hp : s.daemon.pending = e :: pending) (he : e ≠ .sig) (hk : Keeps { s with daemon := d₀ } t)
    (hd : d.pending = pending) (hsock : .sock ∈ pending → d.sock) :
    Noticed { t with daemon := d } where
  noticed hdead := by
    refine .inl (hk.sigchld ((h.noticed (hk.dead hdead)).resolve_right fun hdr => he ?_))
    exact Option.some.inj ((congrArg List.head? hp).symm.trans (h.drained hdr))
  drained hdr := by
    have hdr' : s.drained = true := hk.drained.symm.trans hdr
    exact absurd (Option.some.inj ((congrArg List.head? hp).symm.trans (h.drained hdr'))) he
  nodup := by
    have hnodup := h.nodup
    rw [hp] at hnodup
    exact hd ▸ (List.nodup_cons.1 hnodup).2
  sock hmem := hsock (hd ▸ hmem)

/-- What holds of the daemon and the kernel in every state that is reached. -/
structure Tracked (s : Reaper) : Prop extends Core s, Noticed s

theorem tracked_init : Tracked init := ⟨core_init, noticed_init⟩

/-- The handlers of the event loop. -/
theorem Tracked.handle (h : Tracked s) {d : Daemon} {pending : List Event}
    (hp : s.daemon.pending = e :: pending) (hadm : s.admits (.handle a))
    (hstep : s.daemon.step (.handle a) = some d) :
    Tracked { s.react (.handle a) with daemon := d } := by
  have hnodup := h.nodup
  rw [hp, List.nodup_cons] at hnodup
  have hlater : .sock ∈ pending → s.daemon.sock := fun hmem =>
    h.sock (hp ▸ List.mem_cons_of_mem e hmem)
  have hcore := h.toCore.setPending pending
  -- the handler of this event, which returns or finds the socket closed
  obtain hok | ⟨herr, rfl⟩ : { s.daemon with pending := pending }.handleEvent a e = .ok d ∨
      { s.daemon with pending := pending }.handleEvent a e = .error .sockClosed ∧
        { s.daemon with pending := pending }.handleClosedSpidSocket = d := by
    unfold Daemon.step at hstep
    rw [hp] at hstep
    dsimp only at hstep
    split_ifs at hstep
    split at hstep
    next d' hd => exact .inl (Option.some.inj hstep ▸ hd)
    next hd => exact .inr ⟨hd, Option.some.inj hstep⟩
    next => cases hstep
  · have hreact : s.react (.handle a) =
        { s with daemon := { s.daemon with pending := pending } }.event a e := by
      unfold react
      rw [hp]
      dsimp only
      rw [hok]
    rw [hreact]
    cases e with
    | listener =>
      cases hok
      exact ⟨⟨hcore.named, hcore.table, hcore.exit, hcore.ended, hcore.received, fun _ _ _ => rfl,
        hcore.base, hcore.life⟩,
        h.toNoticed.handled hp Event.noConfusion (.refl _) rfl fun _ => rfl⟩
    | sig =>
      cases hok
      unfold admits at hadm
      rw [hp] at hadm
      obtain ⟨-, hperm⟩ := Bool.and_eq_true_iff.1 hadm
      obtain ⟨hsig, hdead⟩ := hcore.sig (a := a) (List.isPerm_iff.1 hperm)
      obtain ⟨hpending, hsock⟩ := handleSigchld_frame { s.daemon with pending := pending } a.deaths
      refine ⟨hsig, ⟨fun hne => absurd hdead hne, Bool.noConfusion, ?_, fun hmem => ?_⟩⟩
      · exact hpending ▸ hnodup.2
      · have hmem' : .sock ∈ pending := (congrArg (Event.sock ∈ ·) hpending).mp hmem
        exact hsock.trans (hlater hmem')
    | pipe id role =>
      have hserves := Daemon.Serves.handlePipe hcore.named hok
      exact ⟨hcore.serves hserves, h.toNoticed.handled hp Event.noConfusion (.refl _)
        hserves.pending fun hmem => hserves.sock ▸ hlater hmem⟩
    | sock =>
      unfold Daemon.handleEvent at hok
      unfold event
      dsimp only at hok ⊢
      split_ifs at hok ⊢ with hhup
      · cases hok
        obtain ⟨hclosed, hk⟩ := hcore.closed
        exact ⟨hclosed, h.toNoticed.handled hp Event.noConfusion hk rfl
          fun hmem => absurd hmem hnodup.1⟩
      · cases hf : a.header with
        | none =>
          rw [Daemon.handleSocketReadable, hf] at hok
          cases hok
        | some f =>
          unfold admits at hadm
          rw [hp] at hadm
          obtain ⟨h0, hnew⟩ := Bool.and_eq_true_iff.1 hadm
          have hsock : s.daemon.sock := h.sock (hp ▸ List.mem_cons_self)
          obtain ⟨hpacket, hk, hpending⟩ := hcore.packet hsock hf (of_decide_eq_true h0)
            (fun c hc => of_decide_eq_true (List.all_eq_true.1 hnew c hc)) hok
          exact ⟨hpacket, h.toNoticed.handled hp Event.noConfusion hk hpending
            fun hmem => absurd hmem hnodup.1⟩
  · have hreact : s.react (.handle a) =
        { s with daemon := { s.daemon with pending := pending } }.handleClosedSpidSocket := by
      unfold react
      rw [hp]
      dsimp only
      rw [herr]
    rw [hreact]
    obtain rfl : e = .sock := by
      cases e with
      | listener => cases herr
      | sig => cases herr
      | pipe id role => exact absurd herr Daemon.handlePipe_ne_sockClosed
      | sock => rfl
    obtain ⟨hclosed, hk⟩ := hcore.closed
    exact ⟨hclosed, h.toNoticed.handled hp Event.noConfusion hk rfl
      fun hmem => absurd hmem hnodup.1⟩

theorem Tracked.step (h : Tracked s) {l : ReaperLabel} (hstep : s.step l = some t) :
    Tracked t := by
  cases l with
  | die pid code =>
    unfold Reaper.step at hstep
    dsimp only at hstep
    split at hstep
    next => cases hstep
    next c hc =>
      obtain ⟨hpid, -⟩ := Bool.and_eq_true_iff.1
        (List.find?_some (p := fun c : ChildProcess => decide (c.pid = pid) && c.exit.isNone) hc)
      obtain rfl := of_decide_eq_true hpid
      cases hstep
      exact ⟨h.toCore.die (List.mem_of_find?_eq_some hc), fun _ => .inl rfl, h.drained, h.nodup,
        h.sock⟩
  | drain =>
    unfold Reaper.step at hstep
    dsimp only at hstep
    split_ifs at hstep with hhead
    obtain ⟨hsig, -⟩ := Bool.and_eq_true_iff.1 hhead
    cases hstep
    exact ⟨⟨h.named, h.table, h.exit, h.ended, h.received, h.connected, h.base, h.life⟩,
      fun _ => .inr rfl, fun _ => of_decide_eq_true hsig, h.nodup, h.sock⟩
  | daemon l =>
    unfold Reaper.step at hstep
    dsimp only at hstep
    split_ifs at hstep with hadm
    obtain ⟨d, hd, rfl⟩ := Option.map_eq_some_iff.1 hstep
    cases l with
    | poll batch =>
      unfold Daemon.step at hd
      dsimp only at hd
      split_ifs at hd with hbatch
      obtain ⟨hnil, -, hnodup, hwatch⟩ := hbatch
      cases hd
      have hidle : ¬ s.drained := fun hdr => by
        have hhead := h.drained hdr
        rw [hnil] at hhead
        cases hhead
      exact ⟨h.toCore.setPending batch, h.noticed, fun hdr => absurd hdr hidle, hnodup,
        fun hmem => List.all_eq_true.1 hwatch .sock hmem⟩
    | handle a =>
      cases hp : s.daemon.pending with
      | nil =>
        unfold Daemon.step at hd
        rw [hp] at hd
        cases hd
      | cons e pending => exact h.handle hp hadm hd

theorem tracked (h : machine.Reachable init s) : Tracked s :=
  h.invariant tracked_init fun _ _ _ ht hstep => ht.step hstep

/-! ### Main results -/

/-- **Every signal reaches the child that it is meant for**, also when the kernel has given the pid
of a child that has died to another one. -/
theorem signals_received (h : machine.Reachable init s) :
    ∀ x ∈ s.signals, x.receiver = some x.id := (tracked h).received

/-- The kernel's answers to a packet from the host, with this pid for a child. -/
def packetAnswer (pid : ℕ) (f : Frame) : Answer := { Daemon.packetAnswer f with pid := pid }

/-- A packet from the host that comes alone. -/
def packetRun (pid : ℕ) (f : Frame) : List ReaperLabel :=
  [.daemon (.poll [.sock]), .daemon (.handle (packetAnswer pid f))]

/-- The host opens process 7, whose child dies and is then signalled. -/
def deathRun : List ReaperLabel :=
  [.daemon (.poll [.listener]), .daemon (.handle (packetAnswer 0 ⟨0, 0, 0, 0, []⟩))] ++
    packetRun 42 ⟨0x01#8, 7#8, 0#8, 0#8, []⟩ ++ [.die 42 3#8] ++
    packetRun 1 ⟨0x03#8, 7#8, 15#8, 0#8, []⟩

/-- The death is reported, the pid is given to the child of process 8, process 7 is closed, and
process 8 is signalled. -/
def reuseRun : List ReaperLabel :=
  deathRun ++
    [.daemon (.poll [.sig]), .drain,
      .daemon (.handle ⟨false, none, [], [], 0, fun _ _ => 0#8, [(42, 3#8)]⟩)] ++
    packetRun 42 ⟨0x01#8, 8#8, 0#8, 0#8, []⟩ ++ packetRun 1 ⟨0x02#8, 7#8, 0#8, 0#8, []⟩ ++
    packetRun 1 ⟨0x03#8, 8#8, 9#8, 0#8, []⟩

theorem signals_received_reuse :
    ∃ s, machine.exec init reuseRun = some s ∧
      s.signals = [⟨7#8, 15#8, some 7#8⟩, ⟨8#8, 9#8, some 8#8⟩] ∧
      ∀ x ∈ s.signals, x.receiver = some x.id := by
  have h : (machine.exec init reuseRun).map Reaper.signals =
      some [⟨7#8, 15#8, some 7#8⟩, ⟨8#8, 9#8, some 8#8⟩] := by decide +kernel
  obtain ⟨s, hs, hsignals⟩ := Option.map_eq_some_iff.1 h
  exact ⟨s, hs, hsignals, signals_received (Machine.reachable_of_exec hs)⟩

/-- **What the host is told is what happens.**  Each process is opened, ends at most once, with the
exit code of its child, and is closed; nothing is said of a process that is not open. -/
theorem lives (h : machine.Reachable init s) :
    ∀ id, Life.ofHistory id (s.daemon.history.drop s.base) = some (s.life id) := (tracked h).life

theorem lives_reuse :
    ∃ s, machine.exec init reuseRun = some s ∧ s.life 7#8 = .closed ∧ s.life 8#8 = .running ∧
      ∀ id, Life.ofHistory id (s.daemon.history.drop s.base) = some (s.life id) := by
  have h : (machine.exec init reuseRun).map (fun s => (s.life 7#8, s.life 8#8)) =
      some (.closed, .running) := by decide +kernel
  obtain ⟨s, hs, hpair⟩ := Option.map_eq_some_iff.1 h
  obtain ⟨h7, h8⟩ := Prod.mk.inj hpair
  exact ⟨s, hs, h7, h8, lives (Machine.reachable_of_exec hs)⟩

theorem handleSigchld_pids (d : Daemon) (deaths : List (ℕ × Byte)) (id : Byte) :
    ((d.handleSigchld deaths).pids id).isSome = (d.pids id).isSome := by
  induction deaths generalizing d with
  | nil => rfl
  | cons x deaths ih =>
    obtain ⟨pid, code⟩ := x
    rw [Daemon.handleSigchld]
    cases hfind : d.findByPid pid with
    | none => exact ih d
    | some found =>
      obtain ⟨i, p⟩ := found
      refine (ih _).trans ?_
      show ((Function.update d.processes i (some { p with pid := 0 }) id).map Procinfo.pid).isSome =
        ((d.processes id).map Procinfo.pid).isSome
      rw [Option.isSome_map, Option.isSome_map, Function.update_apply]
      split_ifs with hid
      · rw [hid, Daemon.findByPid_eq hfind]
        rfl
      · rfl

/-- The loop of `waitpid` finds the children that have died. -/
def sigAnswer (s : Reaper) : Answer := ⟨false, none, [], [], 0, fun _ _ => 0#8, s.dead⟩

/-- What `handle_sigchld` does in the event loop. -/
def sigRun (s : Reaper) : List ReaperLabel :=
  [.daemon (.poll [.sig]), .drain, .daemon (.handle s.sigAnswer)]

/-- The children that have died have been waited for. -/
def reported (s : Reaper) : Reaper :=
  { s.reap s.dead with
    daemon := { s.daemon with pending := [] }.handleSigchld s.dead
    sigchld := false }

/-- A child that has died between two batches has a signal for it, and its handler runs. -/
theorem exec_sigRun (h : Noticed s) (hp : s.daemon.pending = []) (hdead : s.dead ≠ []) :
    machine.exec s s.sigRun = some s.reported := by
  have hidle : s.drained = false := by
    rw [Bool.eq_false_iff]
    intro hdr
    have hhead := h.drained hdr
    rw [hp] at hhead
    cases hhead
  have hsig : s.sigchld = true := (h.noticed hdead).resolve_right fun hdr => by
    rw [hidle] at hdr
    cases hdr
  have hpoll : machine.step s (.daemon (.poll [.sig])) =
      some { s with daemon := { s.daemon with pending := [.sig] } } := by
    have hadm : s.admits (.poll [.sig]) = true := by
      rw [admits, hsig, Bool.or_true]
    have hstep : s.daemon.step (.poll [.sig]) = some { s.daemon with pending := [.sig] } :=
      if_pos ⟨hp, by decide, List.nodup_singleton _, rfl⟩
    show (if s.admits (.poll [.sig]) then _ else _) = _
    rw [if_pos hadm, hstep]
    rfl
  have hdrain : machine.step { s with daemon := { s.daemon with pending := [.sig] } } .drain =
      some { s with
        daemon := { s.daemon with pending := [.sig] }
        sigchld := false
        drained := true } := by
    refine if_pos ?_
    rw [hidle]
    rfl
  have hhandle : machine.step { s with
      daemon := { s.daemon with pending := [.sig] }
      sigchld := false
      drained := true } (.daemon (.handle s.sigAnswer)) = some s.reported :=
    if_pos (List.isPerm_iff.2 (.refl _))
  rw [sigRun, Machine.exec, hpoll, Option.bind_some, Machine.exec, hdrain, Option.bind_some,
    Machine.exec, hhandle]
  rfl

theorem exited_of_dead (h : Matches s.children s.daemon.pids)
    (h' : Matches s.reported.children s.reported.daemon.pids) {c : ChildProcess} {code : Byte}
    (hc : c ∈ s.children) (hcode : c.exit = some code) :
    s.reported.daemon.pids c.id = some 0 := by
  obtain ⟨pid, hpid⟩ : ∃ pid, s.reported.daemon.pids c.id = some pid := by
    refine Option.isSome_iff_exists.1 ((handleSigchld_pids _ _ _).trans ?_)
    exact Option.isSome_iff_exists.2 ⟨_, (h.owned c hc).2⟩
  rw [hpid]
  refine congrArg some (by_contra fun h0 => ?_)
  -- otherwise the process has a child, which is this one
  obtain ⟨c', hc', hid, -⟩ := h'.alive c.id pid hpid h0
  obtain ⟨hmem, hnot⟩ := List.mem_filter.1 hc'
  obtain rfl := h.eq_of_id hmem hc hid
  exact of_decide_eq_true hnot (List.mem_map.2 ⟨_, mem_dead.2 ⟨c', hc, hcode, rfl⟩, rfl⟩)

/-- **No child is stranded.**  Between two batches, the children that have died are reported to the
host with their exit codes by the handler of the signal, which comes. -/
theorem deaths_reported (h : machine.Reachable init s) (hp : s.daemon.pending = [])
    (hdead : s.dead ≠ []) :
    ∃ t, machine.exec s s.sigRun = some t ∧ t.dead = [] ∧
      ∀ c ∈ s.children, ∀ code, c.exit = some code →
        Life.ofHistory c.id (t.daemon.history.drop t.base) = some (.exited code) := by
  have ht := tracked h
  have hexec := exec_sigRun ht.toNoticed hp hdead
  obtain ⟨ls, hrun⟩ := h
  have hrep : Tracked s.reported := tracked ⟨_, hrun.append (Machine.run_of_exec hexec)⟩
  have hnone : s.reported.dead = [] := (ht.toCore.sig (a := s.sigAnswer) (.refl _)).2
  refine ⟨s.reported, hexec, hnone, fun c hc code hcode => ?_⟩
  -- the frames say what the table says, and there the process has ended with this code
  rw [hrep.life c.id, Reaper.life, exited_of_dead ht.table hrep.table hc hcode]
  show some (Life.ofPid (some 0) (s.exits c.id)) = _
  rw [← ht.exit c hc, hcode]
  rfl

theorem deaths_reported_deathRun :
    ∃ s t, machine.exec init deathRun = some s ∧ machine.exec s s.sigRun = some t ∧
      Life.ofHistory 7#8 (t.daemon.history.drop t.base) = some (.exited 3#8) := by
  have h : (machine.exec init deathRun).map (fun s => (s.daemon.pending, s.dead, s.children)) =
      some ([], [(42, 3#8)], [⟨42, 7#8, some 3#8⟩]) := by decide +kernel
  obtain ⟨s, hs, hall⟩ := Option.map_eq_some_iff.1 h
  obtain ⟨hp, hrest⟩ := Prod.mk.inj hall
  obtain ⟨hdead, hchildren⟩ := Prod.mk.inj hrest
  obtain ⟨t, ht, -, hlife⟩ := deaths_reported (Machine.reachable_of_exec hs) hp
    (hdead ▸ List.cons_ne_nil _ _)
  exact ⟨s, t, hs, ht, hlife _ (hchildren ▸ List.mem_cons_self) _ rfl⟩

end Reaper

end TesselFirmware
