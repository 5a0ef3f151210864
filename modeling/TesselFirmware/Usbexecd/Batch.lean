import TesselFirmware.Usbexecd.Daemon

/-!
# Events of dead streams (`soc/usbexecd.c`)

If a packet from the socket closes a stream or frees a process of which an event is still in the
batch, the event is handled with a pipe buffer that has been closed or freed.

* `Daemon.served` : in every run in which no event of the socket closes a stream that has a later
  event in the same batch, every event of a stream finds its pipe buffer open, the daemon does not
  exit on it, and nothing is sent for a process between its `CMD_CLOSE_ACK` and the next
  `CMD_OPEN`;
* `Daemon.served_dead` : a process is closed by a packet while an event of its stdout is pending.
-/

namespace TesselFirmware

/-! ### How handlers fail -/

namespace Pipebuf

variable {pb pb' : Pipebuf} {q : List Byte} {e : Stop}

theorem writeLoop_error {writes : List ℤ} {n : ℤ} {taken : List Byte}
    (h : writeLoop writes pb n taken = .error e) : e = .noAnswer := by
  induction writes generalizing pb n taken with
  | nil =>
    rw [writeLoop] at h
    split_ifs at h
    cases h
    rfl
  | cons written writes ih =>
    rw [writeLoop] at h
    by_cases h0 : n = 0
    · rw [if_pos h0] at h
      cases h
    rw [if_neg h0] at h
    dsimp only at h
    by_cases hbad : written < -1 ∨ (if pb.startpos + n > internalPipeBufSize then
        internalPipeBufSize - pb.startpos else n) < written
    · rw [if_pos hbad] at h
      cases h
      rfl
    · rw [if_neg hbad] at h
      exact ih h

theorem writeFromPipebuf_error {writes : List ℤ} {n : ℤ}
    (h : pb.writeFromPipebuf n writes = .error e) : e = .noAnswer := by
  rcases Except.bind_eq_error.1 h with h | ⟨_, _, h⟩
  · exact writeLoop_error h
  · cases h

theorem packetLoop_error {num fuel : ℕ} {written : ℤ} {writes : List ℤ} {frames : List Frame}
    (h : packetLoop num fuel pb written writes frames = .error e) : e = .noAnswer := by
  induction fuel generalizing pb written writes frames with
  | zero => cases h
  | succ fuel ih =>
    rw [packetLoop] at h
    by_cases h0 : sizeT written = num
    · rw [if_pos h0] at h
      cases h
    rw [if_neg h0] at h
    rcases Except.bind_eq_error.1 h with h | ⟨_, _, h⟩
    · exact writeFromPipebuf_error h
    · exact ih h

theorem inWriteToSock_error {num : ℕ} {writes : List ℤ}
    (h : pb.inWriteToSock num writes = .error e) : e = .noAnswer := by
  rcases Except.bind_eq_error.1 h with h | ⟨_, _, h⟩
  · exact packetLoop_error h
  · cases h

theorem addEpoll_error (h : pb.addEpoll = .error e) : e = .fatal := by
  unfold addEpoll at h
  split_ifs at h
  cases h
  rfl

theorem deleteEpoll_error (h : pb.deleteEpoll = .error e) :
    e = .fatal ∧ ¬ (pb.fd ∧ pb.registered) := by
  unfold deleteEpoll at h
  split_ifs at h with hc
  cases h
  rw [Bool.and_eq_true] at hc
  exact ⟨rfl, hc⟩

/-- The reads fail only if the environment does not answer, or an error is read, or the descriptor
is closed or has left epoll. -/
theorem readLoop_error {reads : List ReadResult} {n : ℤ} {got : List Byte}
    (h : readLoop reads pb n got = .error e) :
    e = .noAnswer ∨ e = .fatal ∧ (.error ∈ reads ∨ ¬ (pb.fd ∧ pb.registered)) := by
  induction reads generalizing pb n got with
  | nil =>
    rw [readLoop] at h
    split_ifs at h
    cases h
    exact .inl rfl
  | cons r reads ih =>
    rw [readLoop] at h
    by_cases h0 : n = 0
    · rw [if_pos h0] at h
      cases h
    rw [if_neg h0] at h
    dsimp only at h
    by_cases hfd : pb.fd = false
    · rw [if_pos hfd] at h
      cases h
      refine .inr ⟨rfl, .inr fun hc => ?_⟩
      rw [hfd] at hc
      exact Bool.false_ne_true hc.1
    rw [if_neg hfd] at h
    cases r with
    | again => cases h
    | error =>
      cases h
      exact .inr ⟨rfl, .inl List.mem_cons_self⟩
    | eof =>
      rcases Except.bind_eq_error.1 h with h | ⟨_, _, h⟩
      · obtain ⟨he, hno⟩ := deleteEpoll_error h
        exact .inr ⟨he, .inr hno⟩
      · cases h
    | data bytes =>
      dsimp only at h
      split_ifs at h with hwrap hbad hbad
      all_goals first
        | cases h
          exact .inl rfl
        | rcases ih h with he | ⟨he, hr⟩
          · exact .inl he
          · exact .inr ⟨he, hr.imp_left (List.mem_cons_of_mem _)⟩

/-- `pipebuf_in_to_internal_buffer` on a registered stream ends the daemon only if `read` reports
an error. -/
theorem inToInternalBuffer_error {reads : List ReadResult} {writes : List ℤ} (hq : pb.Holds q)
    (hfd : pb.fd) (hreg : pb.registered) (hpos : InRun.positive writes)
    (h : pb.inToInternalBuffer reads writes = .error e) :
    e = .noAnswer ∨ e = .fatal ∧ .error ∈ reads := by
  rcases Except.bind_eq_error.1 h with h | ⟨⟨pb₁, got⟩, hread, h⟩
  · rcases readLoop_error h with he | ⟨he, hr | hno⟩
    · exact .inl he
    · exact .inr ⟨he, hr⟩
    · exact absurd ⟨hfd, hreg⟩ hno
  obtain ⟨new, -, hr⟩ := readLoop_ok hq hread
  rcases Except.bind_eq_error.1 h with h | ⟨⟨pb₂, frames⟩, hsend, h⟩
  · split_ifs at h
    exact .inl (inWriteToSock_error h)
  dsimp only at hsend h
  -- a ring that is full now has not been taken out of epoll
  have hfull : pb₂.bufcount = internalPipeBufSize → pb₂.fd ∧ pb₂.registered := by
    intro hfull
    have h₁ : pb₂.fd = pb₁.fd ∧ pb₂.registered = pb₁.registered ∧
        pb₂.bufcount ≤ (q ++ new).length := by
      split_ifs at hsend
      · obtain ⟨m, -, -, hholds, hsame⟩ := inWriteToSock_ok hpos hr.holds hsend
        refine ⟨hsame.fd, hsame.registered, ?_⟩
        rw [hholds.count, List.length_drop]
        omega
      · cases hsend
        exact ⟨rfl, rfl, Int.le_of_eq hr.holds.count⟩
    obtain ⟨hfd₂, hreg₂, hle⟩ := h₁
    rcases hr.registered with hsame | ⟨-, hlt⟩
    · exact ⟨hfd₂.trans (hr.fd.trans hfd), hreg₂.trans (hsame.trans hreg)⟩
    · omega
  by_cases hc : pb₂.bufcount = internalPipeBufSize
  · rw [if_pos hc] at h
    rcases Except.bind_eq_error.1 h with h | ⟨_, _, h⟩
    · exact absurd (hfull hc) (deleteEpoll_error h).2
    · cases h
  · rw [if_neg hc] at h
    split_ifs at h <;> cases h

/-- `pipebuf_out_is_writable` on a registered stream does not end the daemon. -/
theorem outIsWritable_error {writes : List ℤ} (hfd : pb.fd) (hreg : pb.registered)
    (h : pb.outIsWritable writes = .error e) : e = .noAnswer := by
  rcases Except.bind_eq_error.1 h with h | ⟨w, hw, h⟩
  · exact writeFromPipebuf_error h
  obtain ⟨htotal, -, -, hsame⟩ := writeFromPipebuf_count hw
  rcases Except.bind_eq_error.1 h with h | ⟨pb₂, -, h⟩
  · rw [if_pos htotal.symm] at h
    exact absurd ⟨hsame.fd.trans hfd, hsame.registered.trans hreg⟩ (deleteEpoll_error h).2
  · dsimp only at h
    split_ifs at h <;> cases h

/-- What comes from the socket, whoever keeps to the grants. -/
theorem sockLoop_count {fuel n : ℕ} {bytes : List Byte} (h0 : 0 ≤ pb.endpos)
    (hlt : pb.endpos < internalPipeBufSize) (hfuel : n ≤ fuel)
    (h : sockLoop fuel pb n bytes = .ok pb') :
    pb'.bufcount = pb.bufcount + n ∧ (0 ≤ pb'.endpos ∧ pb'.endpos < internalPipeBufSize) ∧
      pb'.id = pb.id ∧ pb'.fd = pb.fd ∧ pb'.registered = pb.registered := by
  induction fuel generalizing pb n bytes with
  | zero =>
    cases h
    exact ⟨by omega, ⟨h0, hlt⟩, rfl, rfl, rfl⟩
  | succ fuel ih =>
    rw [sockLoop] at h
    by_cases hn : (n : ℤ) = 0
    · rw [if_pos hn] at h
      cases h
      exact ⟨by omega, ⟨h0, hlt⟩, rfl, rfl, rfl⟩
    rw [if_neg hn] at h
    dsimp only at h
    obtain ⟨m, hm, hpos, hle, hwrap⟩ := exists_toRead (n := n) (by omega) hlt
    rw [hm] at h
    by_cases hshort : (bytes.length : ℤ) < m
    · rw [if_pos hshort] at h
      cases h
    rw [if_neg hshort, ← Int.ofNat_sub hle] at h
    obtain ⟨hcount, hend, hid, hfd, hreg⟩ := ih (by dsimp only; split_ifs <;> omega)
      (by dsimp only; unfold internalPipeBufSize at *; split_ifs <;> omega) (by omega) h
    refine ⟨?_, hend, hid, hfd, hreg⟩
    rw [hcount]
    show pb.bufcount + m + ((n - m : ℕ) : ℤ) = pb.bufcount + n
    omega

/-- The loop fails only if the socket is closed before all bytes have come. -/
theorem sockLoop_error {fuel n : ℕ} {bytes : List Byte}
    (hlt : pb.endpos < internalPipeBufSize) (h : sockLoop fuel pb n bytes = .error e) :
    bytes.length < n := by
  induction fuel generalizing pb n bytes with
  | zero => cases h
  | succ fuel ih =>
    rw [sockLoop] at h
    by_cases hn : (n : ℤ) = 0
    · rw [if_pos hn] at h
      cases h
    rw [if_neg hn] at h
    dsimp only at h
    obtain ⟨m, hm, hpos, hle, hwrap⟩ := exists_toRead (n := n) (by omega) hlt
    rw [hm] at h
    by_cases hshort : (bytes.length : ℤ) < m
    · omega
    rw [if_neg hshort, ← Int.ofNat_sub hle, Int.toNat_natCast] at h
    have hlen := ih (by dsimp only; unfold internalPipeBufSize at *; split_ifs <;> omega) h
    rw [List.length_drop] at hlen
    omega

/-! ### What holds of every stream of a process -/

end Pipebuf

/-- A packet of a stream, and not the report that its process has been closed. -/
def Frame.OfProcess (f : Frame) (id : Byte) : Prop := f.id = id ∧ f.cmd ≠ cmdCloseAck

namespace Pipebuf

variable {pb pb' : Pipebuf}

/-- A stream of a process: it is registered only while it is open; the ring of a readable one is
intact, and a writable one is registered only while something waits. -/
structure Sound (pb : Pipebuf) (id : Byte) (role : Role) : Prop where
  id : pb.id = id
  registered : pb.registered → pb.fd
  ring : role.isIn → ∃ q, pb.Holds q
  waiting : role.isIn = false → 0 ≤ pb.bufcount ∧ (pb.registered → pb.bufcount ≠ 0) ∧
    0 ≤ pb.endpos ∧ pb.endpos < internalPipeBufSize

variable {id : Byte} {role : Role}

theorem Sound.outInit (memory : ℤ → Byte) (hr : role.isIn = false) :
    (Pipebuf.outInit memory id role).1.Sound id role where
  id := rfl
  registered h := by cases h
  ring h := by
    rw [hr] at h
    cases h
  waiting _ := by
    refine ⟨Int.le_refl _, ?_, Int.le_refl _, show (0 : ℤ) < 32768 by decide⟩
    rintro ⟨⟩

theorem Sound.inInit (memory : ℤ → Byte) (hr : role.isIn) :
    (InRun.init memory id role).pb.Sound id role where
  id := rfl
  registered _ := rfl
  ring _ := ⟨[], (InRun.flowing_init memory id role).holds⟩
  waiting h := by
    rw [hr] at h
    cases h

/-- `pipebuf_out_to_internal_buffer` takes no stream out of epoll. -/
theorem Sound.outToInternalBuffer (hs : pb.Sound id role) (hr : role.isIn = false) {n : ℕ}
    {bytes : List Byte} (h : pb.outToInternalBuffer n bytes = .ok pb') :
    pb'.Sound id role ∧ (pb.registered → pb'.registered) := by
  obtain ⟨hnonneg, hwait, h0, hlt⟩ := hs.waiting hr
  unfold Pipebuf.outToInternalBuffer at h
  by_cases heof : pb.eof
  · rw [if_pos heof] at h
    cases h
  rw [if_neg heof] at h
  obtain ⟨pb₁, hadd, h⟩ := Except.bind_eq_ok.1 h
  have h₁ : pb₁.bufcount = pb.bufcount ∧ pb₁.endpos = pb.endpos ∧ pb₁.id = pb.id ∧
      pb₁.fd = pb.fd ∧ (pb.registered → pb₁.registered) ∧
        (pb₁.registered → pb.fd ∧ pb.bufcount + n ≠ 0) := by
    split_ifs at hadd with hc
    · obtain ⟨hfd, -, rfl⟩ := addEpoll_ok hadd
      exact ⟨rfl, rfl, rfl, rfl, fun _ => rfl, fun _ => ⟨hfd, by omega⟩⟩
    · cases hadd
      refine ⟨rfl, rfl, rfl, rfl, fun hreg => hreg, fun hreg => ⟨hs.registered hreg, ?_⟩⟩
      have := hwait hreg
      omega
  obtain ⟨hcount₁, hend₁, hid₁, hfd₁, hkeep, hopen⟩ := h₁
  obtain ⟨hcount, hend, hid, hfd, hreg⟩ :=
    sockLoop_count (hend₁ ▸ h0) (hend₁ ▸ hlt) (Nat.le_refl n) h
  rw [hcount₁] at hcount
  refine ⟨⟨(hid.trans hid₁).trans hs.id, fun hr' => ?_, fun hr' => ?_, fun _ => ?_⟩, ?_⟩
  · rw [hfd, hfd₁]
    exact (hopen (hreg ▸ hr')).1
  · rw [hr] at hr'
    cases hr'
  · refine ⟨by omega, fun hr' => ?_, hend⟩
    rw [hcount]
    exact (hopen (hreg ▸ hr')).2
  · intro hr'
    rw [hreg]
    exact hkeep hr'

/-- `pipebuf_out_close` with what waits flushed does not close a registered stream. -/
theorem Sound.outClose (hs : pb.Sound id role) (hr : role.isIn = false) :
    (pb.outClose .flush).Sound id role ∧ (pb.registered → (pb.outClose .flush).registered) := by
  obtain ⟨hnonneg, hwait, h0, hlt⟩ := hs.waiting hr
  have hin : ¬ role.isIn := by simp [hr]
  unfold Pipebuf.outClose commonClose
  by_cases hc : pb.bufcount = 0
  · have hreg : ¬ pb.registered := fun hreg => hwait hreg hc
    rw [if_pos (.inl hc)]
    by_cases hfd : pb.fd
    · rw [if_pos hfd]
      refine ⟨⟨hs.id, ?_, fun h => absurd h hin, fun _ => ⟨Int.le_refl _, ?_, Int.le_refl _,
        show (0 : ℤ) < 32768 by decide⟩⟩, fun h => absurd h hreg⟩
      · rintro ⟨⟩
      · rintro ⟨⟩
    · rw [if_neg hfd]
      exact ⟨⟨hs.id, hs.registered, fun h => absurd h hin, hs.waiting⟩, fun h => h⟩
  · rw [if_neg (not_or.2 ⟨hc, by decide⟩)]
    exact ⟨⟨hs.id, hs.registered, fun h => absurd h hin, hs.waiting⟩, fun h => h⟩

/-- `pipebuf_out_is_writable`. -/
theorem Sound.outIsWritable (hs : pb.Sound id role) (hr : role.isIn = false) {writes : List ℤ}
    {bytes : List Byte} {frames : List Frame}
    (h : pb.outIsWritable writes = .ok (pb', bytes, frames)) :
    pb'.Sound id role ∧ ∀ f ∈ frames, f.OfProcess id := by
  obtain ⟨-, -, h0, hlt⟩ := hs.waiting hr
  have hin : ¬ role.isIn := by simp [hr]
  obtain ⟨w, hw, h⟩ := Except.bind_eq_ok.1 h
  obtain ⟨htotal, hcount, hend, hsame⟩ := writeFromPipebuf_count hw
  rw [Int.sub_self] at hcount
  obtain ⟨pb₁, hdel, h⟩ := Except.bind_eq_ok.1 h
  rw [if_pos htotal.symm] at hdel
  obtain ⟨-, -, rfl⟩ := deleteEpoll_ok hdel
  -- an empty stream that is not registered
  have hs₁ : Sound (Pipebuf.outAck { w.pb with registered := false } (sizeT w.total)).1 id role := by
    refine ⟨hsame.id.trans hs.id, ?_, fun h => absurd h hin, fun _ => ⟨Int.le_of_eq hcount.symm, ?_,
      hend ▸ h0, hend ▸ hlt⟩⟩
    · rintro ⟨⟩
    · rintro ⟨⟩
  have hframes : ∀ f ∈ (Pipebuf.outAck { w.pb with registered := false } (sizeT w.total)).2,
      f.OfProcess id := by
    intro f hf
    obtain rfl := List.mem_singleton.1 hf
    refine ⟨hsame.id.trans hs.id, ?_⟩
    show cmdAckControl + w.pb.role.code ≠ cmdCloseAck
    cases w.pb.role <;> decide
  dsimp only at h
  split_ifs at h
  · cases h
    exact ⟨(hs₁.outClose hr).1, hframes⟩
  · cases h
    exact ⟨hs₁, hframes⟩

/-- Readable streams do not care for what waits in writable ones. -/
theorem Sound.mkIn (hr : role.isIn) (hid : pb.id = id) (hreg : pb.registered → pb.fd)
    (hq : ∃ q, pb.Holds q) : pb.Sound id role :=
  ⟨hid, hreg, fun _ => hq, fun h => by rw [hr] at h; cases h⟩

/-- `pipebuf_in_close` with what is held back flushed. -/
theorem Sound.inClose (hs : pb.Sound id role) (hr : role.isIn) (sock : Bool) :
    (pb.inClose sock .flush).1.Sound id role ∧
      (∀ f ∈ (pb.inClose sock .flush).2, f.OfProcess id) ∧
      (pb.bufcount ≠ 0 → (pb.inClose sock .flush).1.registered = pb.registered) := by
  obtain ⟨q, hq⟩ := hs.ring hr
  by_cases hc : pb.bufcount = 0 ∧ pb.fd
  · rw [inClose_of_open (.inl hc.1) hc.2]
    refine ⟨.mkIn hr hs.id ?_ ⟨[], .nil (Nat.zero_lt_succ _), Int.le_refl _, rfl, rfl⟩, ?_,
      fun hne => absurd hc.1 hne⟩
    · rintro ⟨⟩
    · intro f hf
      obtain rfl := mem_sendHeader hf
      refine ⟨hs.id, ?_⟩
      show cmdCloseControl + pb.role.code ≠ cmdCloseAck
      cases pb.role <;> decide
  · rw [inClose_flush_of_not hc]
    refine ⟨.mkIn hr hs.id hs.registered ⟨q, hq.ring, hq.start, hq.count, hq.endpos⟩, ?_,
      fun _ => rfl⟩
    rintro f ⟨⟩

/-- `pipebuf_in_write_to_sock`. -/
theorem Sound.inWriteToSock (hs : pb.Sound id role) (hr : role.isIn) {num : ℕ} {writes : List ℤ}
    {frames : List Frame} (hpos : InRun.positive writes)
    (h : pb.inWriteToSock num writes = .ok (pb', frames)) :
    pb'.Sound id role ∧ (∀ f ∈ frames, f.OfProcess id) ∧ pb'.registered = pb.registered ∧
      pb'.bufcount = pb.bufcount - min (min pb.bufcount num) (sizeT pb.credit) := by
  obtain ⟨q, hq⟩ := hs.ring hr
  obtain ⟨m, hm, hsends, hholds, hsame⟩ := inWriteToSock_ok hpos hq h
  refine ⟨.mkIn hr (hsame.id.trans hs.id) (fun hreg => ?_) ⟨_, hholds⟩, fun f hf => ?_,
    hsame.registered, ?_⟩
  · exact hsame.fd.trans (hs.registered (hsame.registered ▸ hreg))
  · have hd := hsends.frames f hf
    refine ⟨hd.id.trans hs.id, ?_⟩
    rw [hd.cmd]
    cases pb.role <;> decide
  · rw [hholds.count, hq.count, List.length_drop]
    omega

/-- `pipebuf_in_to_internal_buffer`. -/
theorem Sound.inToInternalBuffer (hs : pb.Sound id role) (hr : role.isIn)
    {reads : List ReadResult} {writes : List ℤ} {got : List Byte} {frames : List Frame}
    (hpos : InRun.positive writes)
    (h : pb.inToInternalBuffer reads writes = .ok (pb', got, frames)) :
    pb'.Sound id role ∧ ∀ f ∈ frames, f.OfProcess id := by
  obtain ⟨q, hq⟩ := hs.ring hr
  obtain ⟨⟨pb₁, got₁⟩, hread, h⟩ := Except.bind_eq_ok.1 h
  obtain ⟨⟨pb₂, frames₂⟩, hsend, h⟩ := Except.bind_eq_ok.1 h
  obtain ⟨new, -, hrec⟩ := readLoop_ok hq hread
  dsimp only at hsend h
  have hs₁ : pb₁.Sound id role := by
    refine .mkIn hr (hrec.id.trans hs.id) (fun hreg => ?_) ⟨_, hrec.holds⟩
    rcases hrec.registered with hsame | ⟨hno, -⟩
    · exact hrec.fd.trans (hs.registered (hsame ▸ hreg))
    · rw [hno] at hreg
      cases hreg
  obtain ⟨hs₂, hframes⟩ : pb₂.Sound id role ∧ ∀ f ∈ frames₂, f.OfProcess id := by
    split_ifs at hsend
    · obtain ⟨hs₂, hframes, -, -⟩ := hs₁.inWriteToSock hr hpos hsend
      exact ⟨hs₂, hframes⟩
    · cases hsend
      exact ⟨hs₁, fun f hf => by cases hf⟩
  by_cases hfull : pb₂.bufcount = internalPipeBufSize
  · rw [if_pos hfull] at h
    obtain ⟨pb₃, hdel, hret⟩ := Except.bind_eq_ok.1 h
    obtain ⟨-, -, rfl⟩ := deleteEpoll_ok hdel
    cases hret
    obtain ⟨q₂, hq₂⟩ := hs₂.ring hr
    refine ⟨.mkIn hr hs₂.id ?_ ⟨q₂, hq₂.ring, hq₂.start, hq₂.count, hq₂.endpos⟩, hframes⟩
    rintro ⟨⟩
  · rw [if_neg hfull] at h
    split_ifs at h
    · cases h
      obtain ⟨hs₃, hclose, -⟩ := hs₂.inClose hr true
      refine ⟨hs₃, fun f hf => ?_⟩
      rcases List.mem_append.1 hf with hf | hf
      · exact hframes f hf
      · exact hclose f hf
    · cases h
      exact ⟨hs₂, hframes⟩

/-- `pipebuf_in_ack` takes a stream out of epoll only if it closes it. -/
theorem Sound.inAck (hs : pb.Sound id role) (hr : role.isIn) {bytes : List Byte}
    {writes : List ℤ} {frames : List Frame} (hpos : InRun.positive writes)
    (h : pb.inAck (some bytes) writes = .ok (pb', frames)) :
    pb'.Sound id role ∧ (∀ f ∈ frames, f.OfProcess id) ∧
      (pb.drainedBy (ackSize bytes) = false → pb.registered → pb'.registered) := by
  obtain ⟨pb₁, hadd, h⟩ := Except.bind_eq_ok.1 h
  obtain ⟨⟨pb₂, frames₂⟩, hsend, h⟩ := Except.bind_eq_ok.1 h
  dsimp only at hsend h
  -- a ring that was full is put back into epoll
  have h₁ : pb₁.Sound id role ∧ (pb.registered → pb₁.registered) ∧ pb₁.eof = pb.eof ∧
      pb₁.bufcount = pb.bufcount ∧ pb₁.credit = pb.credit := by
    split_ifs at hadd
    · obtain ⟨hfd, -, rfl⟩ := addEpoll_ok hadd
      obtain ⟨q, hq⟩ := hs.ring hr
      exact ⟨.mkIn hr hs.id (fun _ => hfd) ⟨q, hq.ring, hq.start, hq.count, hq.endpos⟩,
        fun _ => rfl, rfl, rfl, rfl⟩
    · cases hadd
      exact ⟨hs, fun hreg => hreg, rfl, rfl, rfl⟩
  obtain ⟨hs₁, hkeep, heof, hcount, hcredit⟩ := h₁
  have hs₁' : Sound { pb₁ with credit := pb₁.credit + ackSize bytes } id role := by
    obtain ⟨q, hq⟩ := hs₁.ring hr
    exact .mkIn hr hs₁.id hs₁.registered ⟨q, hq.ring, hq.start, hq.count, hq.endpos⟩
  have hnonneg : 0 ≤ pb₁.bufcount := by
    obtain ⟨q, hq⟩ := hs₁.ring hr
    rw [hq.count]
    exact Int.natCast_nonneg _
  -- what the ring holds is sent as far as the credit goes
  obtain ⟨hs₂, hframes, hreg₂, heof₂, hdrained⟩ : pb₂.Sound id role ∧
      (∀ f ∈ frames₂, f.OfProcess id) ∧ pb₂.registered = pb₁.registered ∧ pb₂.eof = pb₁.eof ∧
        (pb.drainedBy (ackSize bytes) = false → ¬ (pb₂.eof ∧ pb₂.bufcount = 0)) := by
    unfold drainedBy
    by_cases hc : pb₁.bufcount > 0
    · rw [if_pos hc] at hsend
      obtain ⟨hs₂, hframes, hreg, hsent⟩ := hs₁'.inWriteToSock hr hpos hsend
      obtain ⟨q, hq⟩ := hs₁'.ring hr
      obtain ⟨m, -, -, -, hsame⟩ := inWriteToSock_ok hpos hq hsend
      refine ⟨hs₂, hframes, hreg, hsame.eof, fun hno hall => ?_⟩
      have he : pb.eof = true := heof.symm.trans (hsame.eof.symm.trans hall.1)
      rw [← hcount, ← hcredit, he, Bool.true_and, Bool.and_eq_false_iff] at hno
      rw [hall.2] at hsent
      dsimp only at hsent
      simp only [decide_eq_false_iff_not] at hno
      omega
    · rw [if_neg hc] at hsend
      cases hsend
      refine ⟨hs₁', fun f hf => (by cases hf), rfl, rfl, fun hno hall => ?_⟩
      have he : pb.eof = true := heof.symm.trans hall.1
      rw [← hcount, ← hcredit, he, Bool.true_and, Bool.and_eq_false_iff] at hno
      simp only [decide_eq_false_iff_not] at hno
      omega
  -- at the end of the file, with an empty ring, the stream is closed
  by_cases hc : pb₂.eof ∧ pb₂.bufcount = 0
  · rw [if_pos hc] at h
    cases h
    obtain ⟨hs₃, hclose, -⟩ := hs₂.inClose hr true
    refine ⟨hs₃, fun f hf => ?_, fun hno => absurd hc (hdrained hno)⟩
    rcases List.mem_append.1 hf with hf | hf
    · exact hframes f hf
    · exact hclose f hf
  · rw [if_neg hc] at h
    cases h
    exact ⟨hs₂, hframes, fun _ hreg => hreg₂ ▸ hkeep hreg⟩

/-- `pipebuf_in_ack` does not find the socket closed once the bytes have come. -/
theorem inAck_error {bytes : List Byte} {writes : List ℤ}
    (h : pb.inAck (some bytes) writes = .error e) : e ≠ .sockClosed := by
  rintro rfl
  rcases Except.bind_eq_error.1 h with h | ⟨pb₁, -, h⟩
  · split_ifs at h
    cases addEpoll_error h
  rcases Except.bind_eq_error.1 h with h | ⟨⟨pb₂, frames⟩, -, h⟩
  · split_ifs at h <;> cases inWriteToSock_error h
  · dsimp only at h
    split_ifs at h <;> cases h

/-- `pipebuf_out_to_internal_buffer` finds the socket closed only if bytes are missing. -/
theorem outToInternalBuffer_error {n : ℕ} {bytes : List Byte}
    (hlt : pb.endpos < internalPipeBufSize)
    (h : pb.outToInternalBuffer n bytes = .error .sockClosed) : bytes.length < n := by
  unfold Pipebuf.outToInternalBuffer at h
  by_cases heof : pb.eof
  · rw [if_pos heof] at h
    cases h
  rw [if_neg heof] at h
  rcases Except.bind_eq_error.1 h with h | ⟨pb₁, hadd, h⟩
  · split_ifs at h
    cases addEpoll_error h
  · refine sockLoop_error ?_ h
    split_ifs at hadd
    · obtain ⟨-, -, rfl⟩ := addEpoll_ok hadd
      exact hlt
    · cases hadd
      exact hlt

end Pipebuf

/-! ### The packets of a process that has been closed -/

/-- Between the `CMD_CLOSE_ACK` of a process and a later packet with its id, the id has been opened
again. -/
def Quiet (history : List Entry) : Prop :=
  ∀ l₁ f l₂ g l₃, history = l₁ ++ .sent f :: (l₂ ++ .sent g :: l₃) → f.cmd = cmdCloseAck →
    g.id = f.id → .opened f.id ∈ l₂

/-- Since the last `CMD_CLOSE_ACK` of a process its id has been opened again. -/
def Reopened (history : List Entry) (id : Byte) : Prop :=
  ∀ l₁ f l₂, history = l₁ ++ .sent f :: l₂ → f.cmd = cmdCloseAck → f.id = id → .opened id ∈ l₂

section History

variable {l l₁ l₂ : List Entry} {x y : Entry} {f g : Frame} {id id' : Byte}

/-- An entry of a history is the last one, or one of those before. -/
theorem concat_eq_append_cons (h : l ++ [x] = l₁ ++ y :: l₂) :
    (l = l₁ ∧ x = y) ∨ ∃ l₂', l₂ = l₂' ++ [x] ∧ l = l₁ ++ y :: l₂' := by
  rcases l₂.eq_nil_or_concat with rfl | ⟨l₂', z, rfl⟩
  · obtain ⟨rfl, hx⟩ := List.append_inj' h rfl
    exact .inl ⟨rfl, (List.cons.inj hx).1⟩
  · rw [List.concat_eq_append, ← List.cons_append, ← List.append_assoc] at h
    obtain ⟨rfl, hx⟩ := List.append_inj' h rfl
    obtain rfl := (List.cons.inj hx).1
    exact .inr ⟨l₂', List.concat_eq_append, rfl⟩

theorem Quiet.sent (h : Quiet l) (hr : Reopened l g.id) : Quiet (l ++ [.sent g]) := by
  intro l₁ f l₂ g' l₃ heq hack hid
  rw [← List.cons_append, ← List.append_assoc] at heq
  rcases concat_eq_append_cons heq with ⟨rfl, hg⟩ | ⟨l₃', rfl, rfl⟩
  · cases hg
    rw [← hid]
    exact hr l₁ f l₂ rfl hack hid.symm
  · refine h l₁ f l₂ g' l₃' ?_ hack hid
    rw [List.append_assoc, List.cons_append]

theorem Quiet.opened (h : Quiet l) (id : Byte) : Quiet (l ++ [.opened id]) := by
  intro l₁ f l₂ g l₃ heq hack hid
  rw [← List.cons_append, ← List.append_assoc] at heq
  rcases concat_eq_append_cons heq with ⟨rfl, hg⟩ | ⟨l₃', rfl, rfl⟩
  · cases hg
  · refine h l₁ f l₂ g l₃' ?_ hack hid
    rw [List.append_assoc, List.cons_append]

theorem Reopened.concat (h : Reopened l id)
    (hx : ∀ f, x = .sent f → f.cmd = cmdCloseAck → f.id ≠ id) : Reopened (l ++ [x]) id := by
  intro l₁ f l₂ heq hack hid
  rcases concat_eq_append_cons heq with ⟨rfl, rfl⟩ | ⟨l₂', rfl, rfl⟩
  · exact absurd hid (hx f rfl hack)
  · exact List.mem_append_left _ (h l₁ f l₂' rfl hack hid)

theorem Reopened.opened (l : List Entry) (id : Byte) : Reopened (l ++ [.opened id]) id := by
  intro l₁ f l₂ heq hack hid
  rcases concat_eq_append_cons heq with ⟨-, hx⟩ | ⟨l₂', rfl, -⟩
  · cases hx
  · exact List.mem_append_right _ List.mem_cons_self

/-- The packets of a process that is open. -/
theorem Quiet.frames {frames : List Frame} (hf : ∀ f ∈ frames, f.OfProcess id) (h : Quiet l)
    (hr : Reopened l id) :
    Quiet (l ++ frames.map .sent) ∧
      ∀ id', Reopened l id' → Reopened (l ++ frames.map .sent) id' := by
  induction frames generalizing l with
  | nil =>
    rw [List.map_nil, List.append_nil]
    exact ⟨h, fun _ hr => hr⟩
  | cons f frames ih =>
    obtain ⟨hid, hcmd⟩ := hf f List.mem_cons_self
    have hnot : ∀ id', ∀ g, Entry.sent f = .sent g → g.cmd = cmdCloseAck → g.id ≠ id' := by
      intro id' g heq hack
      cases heq
      exact absurd hack hcmd
    have hkeep : ∀ id', Reopened l id' → Reopened (l ++ [.sent f]) id' :=
      fun id' hr' => hr'.concat (hnot id')
    obtain ⟨hq, hall⟩ := ih (fun g hg => hf g (List.mem_cons_of_mem _ hg))
      (h.sent (by rw [hid]; exact hr)) (hkeep id hr)
    rw [List.map_cons, ← List.singleton_append, ← List.append_assoc]
    exact ⟨hq, fun id' hr' => hall id' (hkeep id' hr')⟩

end History

/-! ### The daemon -/

namespace Daemon

variable {d d' : Daemon} {a : Answer} {e : Event} {pending : List Event} {id : Byte} {role : Role}
  {p : Procinfo} {pb : Pipebuf} {frames : List Frame}

/-- Every stream of every process is sound, the streams with an event that is still to be handled
are registered, and nothing has been sent for a process that has been closed. -/
structure Sound (d : Daemon) : Prop where
  streams : ∀ id p, d.processes id = some p → ∀ role, (p.stream role).Sound id role
  pending : ∀ id role, .pipe id role ∈ d.pending → d.watches (.pipe id role)
  nodup : d.pending.Nodup
  reopened : ∀ id p, d.processes id = some p → Reopened d.history id
  quiet : Quiet d.history

theorem watches_pipe : d.watches (.pipe id role) ↔
    ∃ p, d.processes id = some p ∧ (p.stream role).registered := by
  show (d.processes id).any _ ↔ _
  rw [Option.any_eq_true]

theorem Sound.init : Sound Daemon.init where
  streams id p h := by cases h
  pending id role h := by cases h
  nodup := .nil
  reopened id p h := by cases h
  quiet l₁ f l₂ g l₃ h := by
    have := congrArg List.length h
    simp [Daemon.init] at this

/-- A handler has changed one process and takes no stream with a pending event out of epoll. -/
theorem Sound.setProcess {p' : Procinfo} (hd : d.Sound) (hp : d.processes id = some p)
    (hs : ∀ role, (p'.stream role).Sound id role) (hf : ∀ f ∈ frames, f.OfProcess id)
    (hkeep : ∀ role, .pipe id role ∈ d.pending → (p'.stream role).registered) :
    Sound { d with
      processes := Function.update d.processes id (some p')
      history := d.history ++ frames.map .sent } := by
  obtain ⟨hquiet, hreopened⟩ := hd.quiet.frames hf (hd.reopened id p hp)
  have hproc : ∀ id' q, Function.update d.processes id (some p') id' = some q →
      id' = id ∧ q = p' ∨ id' ≠ id ∧ d.processes id' = some q := by
    intro id' q h
    by_cases hid : id' = id
    · subst hid
      rw [Function.update_self] at h
      exact .inl ⟨rfl, (Option.some.inj h).symm⟩
    · rw [Function.update_of_ne hid] at h
      exact .inr ⟨hid, h⟩
  refine ⟨fun id' q h => ?_, fun id' role h => ?_, hd.nodup, fun id' q h => ?_, hquiet⟩
  · rcases hproc id' q h with ⟨rfl, rfl⟩ | ⟨-, h⟩
    · exact hs
    · exact hd.streams id' q h
  · by_cases hid : id' = id
    · subst hid
      exact watches_pipe.2 ⟨p', Function.update_self _ _ _, hkeep role h⟩
    · obtain ⟨q, hq, hreg⟩ := watches_pipe.1 (hd.pending id' role h)
      exact watches_pipe.2 ⟨q, (Function.update_of_ne hid _ _).trans hq, hreg⟩
  · rcases hproc id' q h with ⟨rfl, -⟩ | ⟨-, h⟩
    · exact hreopened _ (hd.reopened _ p hp)
    · exact hreopened _ (hd.reopened id' q h)

/-- A stream with a pending event is registered. -/
theorem Sound.registered (hd : d.Sound) (hp : d.processes id = some p)
    (h : .pipe id role ∈ d.pending) : (p.stream role).registered := by
  obtain ⟨p', hp', hreg⟩ := watches_pipe.1 (hd.pending id role h)
  rw [hp] at hp'
  cases hp'
  exact hreg

/-- A handler has changed one stream. -/
theorem Sound.setStream (hd : d.Sound) (hp : d.processes id = some p) (hs : pb.Sound id role)
    (hf : ∀ f ∈ frames, f.OfProcess id) (hkeep : .pipe id role ∈ d.pending → pb.registered) :
    (d.setStream id p role pb frames).Sound := by
  refine hd.setProcess hp (fun role' => ?_) hf fun role' h => ?_
  · by_cases hrole : role' = role
    · subst hrole
      rwa [Procinfo.stream_setStream]
    · rw [Procinfo.stream_setStream_of_ne p hrole]
      exact hd.streams _ p hp role'
  · by_cases hrole : role' = role
    · subst hrole
      rw [Procinfo.stream_setStream]
      exact hkeep h
    · rw [Procinfo.stream_setStream_of_ne p hrole]
      exact hd.registered hp h

/-- The event of a stream that has no other event in the batch. -/
theorem Sound.handlePipe (hd : d.Sound) (hnot : .pipe id role ∉ d.pending)
    (hproper : proper a (.pipe id role)) (h : d.handlePipe id role a = .ok d') : d'.Sound := by
  unfold Daemon.handlePipe at h
  cases hp : d.processes id with
  | none =>
    rw [hp] at h
    cases h
  | some p =>
    rw [hp] at h
    dsimp only at h
    have hs := hd.streams id p hp role
    split_ifs at h with hr
    · have hpos : InRun.positive a.writes := by simpa [InRun.positive, proper, hr] using hproper
      obtain ⟨⟨pb, got, frames⟩, hin, hret⟩ := Except.bind_eq_ok.1 h
      cases hret
      obtain ⟨hs', hf⟩ := hs.inToInternalBuffer hr hpos hin
      exact hd.setStream hp hs' hf fun h => absurd h hnot
    · obtain ⟨⟨pb, got, frames⟩, hout, hret⟩ := Except.bind_eq_ok.1 h
      cases hret
      obtain ⟨hs', hf⟩ := hs.outIsWritable (by simpa using hr) hout
      exact hd.setStream hp hs' hf fun h => absurd h hnot

/-- The event of a registered stream ends the daemon only if `read` reports an error. -/
theorem Sound.handlePipe_error {e : Stop} (hd : d.Sound) (hw : d.watches (.pipe id role))
    (hproper : proper a (.pipe id role)) (h : d.handlePipe id role a = .error e) :
    e = .noAnswer ∨ e = .fatal ∧ .error ∈ a.reads := by
  obtain ⟨p, hp, hreg⟩ := watches_pipe.1 hw
  have hs := hd.streams id p hp role
  have hopen := hs.registered hreg
  unfold Daemon.handlePipe at h
  rw [hp] at h
  dsimp only at h
  split_ifs at h with hr
  · have hpos : InRun.positive a.writes := by simpa [InRun.positive, proper, hr] using hproper
    obtain ⟨q, hq⟩ := hs.ring hr
    rcases Except.bind_eq_error.1 h with h | ⟨_, _, h⟩
    · exact Pipebuf.inToInternalBuffer_error hq hopen hreg hpos h
    · cases h
  · rcases Except.bind_eq_error.1 h with h | ⟨_, _, h⟩
    · exact .inl (Pipebuf.outIsWritable_error hopen hreg h)
    · cases h

/-- `CMD_CLOSE`, when no event of the process is pending. -/
theorem Sound.closeProcess (hd : d.Sound) (hp : d.processes id = some p)
    (hno : ∀ role, .pipe id role ∉ d.pending) : (d.closeProcess id p).Sound := by
  have hclose : ∀ f ∈ p.close d.sock, f.OfProcess id := by
    have hstream : ∀ role, ∀ f ∈ (if (p.stream role).fd then
        ((p.stream role).inClose d.sock .noFlush).2 else []), f.OfProcess id := by
      intro role f hf
      split_ifs at hf with hfd
      · rw [Pipebuf.inClose_of_open (.inr rfl) hfd] at hf
        obtain rfl := Pipebuf.mem_sendHeader hf
        refine ⟨(hd.streams id p hp role).id, ?_⟩
        show cmdCloseControl + (p.stream role).role.code ≠ cmdCloseAck
        cases (p.stream role).role <;> decide
      · cases hf
    intro f hf
    rcases List.mem_append.1 hf with hf | hf
    · exact hstream .stdout f hf
    · exact hstream .stderr f hf
  obtain ⟨hquiet, hreopened⟩ := hd.quiet.frames hclose (hd.reopened id p hp)
  have hother : ∀ id' p', Function.update d.processes id none id' = some p' →
      id' ≠ id ∧ d.processes id' = some p' := by
    intro id' p' h
    by_cases hid : id' = id
    · subst hid
      rw [Function.update_self] at h
      cases h
    · exact ⟨hid, (Function.update_of_ne hid _ _).symm.trans h⟩
  -- the last packet is the report that the process has been closed
  have hack : Quiet (d.history ++ (p.close d.sock ++
        sendHeader d.sock cmdCloseAck id 255#8 0#8).map .sent) ∧
      ∀ id', id' ≠ id → Reopened d.history id' → Reopened (d.history ++ (p.close d.sock ++
        sendHeader d.sock cmdCloseAck id 255#8 0#8).map .sent) id' := by
    rw [List.map_append, ← List.append_assoc]
    unfold sendHeader
    split_ifs
    · refine ⟨hquiet.sent (hreopened id (hd.reopened id p hp)), fun id' hne hr => ?_⟩
      refine (hreopened id' hr).concat fun f heq _ => ?_
      cases heq
      exact hne.symm
    · rw [List.map_nil, List.append_nil]
      exact ⟨hquiet, fun id' _ => hreopened id'⟩
  refine ⟨fun id' p' h role => ?_, fun id' role h => ?_, hd.nodup, fun id' p' h => ?_, hack.1⟩
  · exact hd.streams id' p' (hother id' p' h).2 role
  · obtain ⟨p', hp', hreg⟩ := watches_pipe.1 (hd.pending id' role h)
    have hne : id' ≠ id := by
      rintro rfl
      exact hno role h
    exact watches_pipe.2 ⟨p', (Function.update_of_ne hne _ _).trans hp', hreg⟩
  · obtain ⟨hne, hp'⟩ := hother id' p' h
    exact hack.2 id' hne (hd.reopened id' p' hp')

/-- A process is created with sound streams. -/
theorem Sound.create (hd : d.Sound) (hp : d.processes id = none)
    (hs : ∀ role, (p.stream role).Sound id role) (hf : ∀ f ∈ frames, f.OfProcess id) :
    Sound { d with
      processes := Function.update d.processes id (some p)
      history := d.history ++ .opened id :: frames.map .sent } := by
  obtain ⟨hquiet, hreopened⟩ := (hd.quiet.opened id).frames hf (.opened _ _)
  rw [List.append_assoc, List.singleton_append] at hquiet
  refine ⟨fun id' p' h => ?_, fun id' role h => ?_, hd.nodup, fun id' p' h => ?_, hquiet⟩
  · by_cases hid : id' = id
    · subst hid
      have h' := (Function.update_self id' _ d.processes).symm.trans h
      cases h'
      exact hs
    · exact hd.streams id' p' ((Function.update_of_ne hid _ _).symm.trans h)
  · obtain ⟨p', hp', hreg⟩ := watches_pipe.1 (hd.pending id' role h)
    have hne : id' ≠ id := by
      rintro rfl
      rw [hp] at hp'
      cases hp'
    exact watches_pipe.2 ⟨p', (Function.update_of_ne hne _ _).trans hp', hreg⟩
  · have hr : Reopened (d.history ++ [.opened id]) id' := by
      by_cases hid : id' = id
      · subst hid
        exact .opened _ _
      · have hp' := (Function.update_of_ne hid _ _).symm.trans h
        exact (hd.reopened id' p' hp').concat fun f heq => by cases heq
    have hr' := hreopened id' hr
    rwa [List.append_assoc, List.singleton_append] at hr'

/-- `CMD_OPEN`. -/
theorem Sound.openProcess (hd : d.Sound) (hp : d.processes id = none) {pid : ℕ}
    {memory : Role → ℤ → Byte} (h : d.openProcess id pid memory = .ok d') : d'.Sound := by
  cases h
  refine hd.create hp ?_ fun f hf => ?_
  · rintro (_ | _ | _ | _)
    · exact .outInit _ rfl
    · exact .outInit _ rfl
    · exact .inInit _ rfl
    · exact .inInit _ rfl
  · rcases List.mem_append.1 hf with hf | hf
    · obtain rfl := List.mem_singleton.1 hf
      exact ⟨rfl, show cmdAckControl + Role.ctrl.code ≠ cmdCloseAck by decide⟩
    · obtain rfl := List.mem_singleton.1 hf
      exact ⟨rfl, show cmdAckControl + Role.stdin.code ≠ cmdCloseAck by decide⟩

/-- A command for a process that exists, when it closes no stream with an event that is still to
be handled. -/
theorem Sound.handleCommand {f : Frame} (hd : d.Sound) (hp : d.processes f.id = some p)
    (hpos : InRun.positive a.writes)
    (hno : ∀ id role, .pipe id role ∈ d.pending →
      p.closedBy f id role (Command.ofByte f.cmd) = false)
    (h : d.handleCommand f p a (Command.ofByte f.cmd) = .ok d') : d'.Sound := by
  have hfits : ∀ c, Command.ofByte f.cmd = some c → c.fits := fun c => Command.fits_of_ofByte
  generalize Command.ofByte f.cmd = c at hno h hfits
  have hreg : ∀ role, .pipe f.id role ∈ d.pending → (p.stream role).registered :=
    fun _ => hd.registered hp
  rcases c with _ | (_ | _ | _ | _ | role | role | role)
  · cases h
    exact hd
  · cases h
    exact hd
  · cases h
  · cases h
    refine hd.closeProcess hp fun role hmem => ?_
    have := hno f.id role hmem
    simp [Procinfo.closedBy] at this
  · cases h
    exact hd
  · obtain ⟨pb, hw, hret⟩ := Except.bind_eq_ok.1 h
    cases hret
    obtain ⟨hs, hkeep⟩ :=
      (hd.streams f.id p hp role).outToInternalBuffer (by simpa [Command.fits] using hfits _ rfl) hw
    exact hd.setStream hp hs (fun g hg => by cases hg) fun hmem => hkeep (hreg role hmem)
  · obtain ⟨⟨pb, frames⟩, hack, hret⟩ := Except.bind_eq_ok.1 h
    cases hret
    split_ifs at hack with hshort
    · cases hack
    · obtain ⟨hs, hf, hkeep⟩ :=
        (hd.streams f.id p hp role).inAck (hfits _ rfl) hpos hack
      refine hd.setStream hp hs hf fun hmem => hkeep ?_ (hreg role hmem)
      have := hno f.id role hmem
      simp only [Procinfo.closedBy, Bool.or_eq_false_iff, decide_true, Bool.true_and] at this
      exact this.2
  · -- a stream with a pending event is not empty
    have hcount : .pipe f.id role ∈ d.pending → (p.stream role).bufcount ≠ 0 := by
      intro hmem
      have := hno f.id role hmem
      simpa [Procinfo.closedBy] using this
    have hs := hd.streams f.id p hp role
    rw [Daemon.handleCommand] at h
    by_cases hr : role.isIn
    · rw [if_pos hr] at h
      cases h
      obtain ⟨hs', hf, hkeep⟩ := hs.inClose hr d.sock
      exact hd.setStream hp hs' hf fun hmem => (hkeep (hcount hmem)).trans (hreg role hmem)
    · rw [if_neg hr] at h
      cases h
      obtain ⟨hs', hkeep⟩ := hs.outClose (by simpa using hr)
      exact hd.setStream hp hs' (fun g hg => by cases hg) fun hmem => hkeep (hreg role hmem)

/-- A command finds the socket closed only if it closes all streams. -/
theorem Sound.handleCommand_error {f : Frame} (hd : d.Sound) (hp : d.processes f.id = some p)
    (h : d.handleCommand f p a (Command.ofByte f.cmd) = .error .sockClosed) (id : Byte)
    (role : Role) : p.closedBy f id role (Command.ofByte f.cmd) := by
  have hfits : ∀ c, Command.ofByte f.cmd = some c → c.fits := fun c => Command.fits_of_ofByte
  generalize Command.ofByte f.cmd = c at h hfits
  rcases c with _ | (_ | _ | _ | _ | role' | role' | role')
  · cases h
  · cases h
  · cases h
  · cases h
  · cases h
  · rcases Except.bind_eq_error.1 h with h | ⟨_, _, h⟩
    · have hr : role'.isIn = false := by simpa [Command.fits] using hfits _ rfl
      obtain ⟨-, -, -, hlt⟩ := (hd.streams f.id p hp role').waiting hr
      exact decide_eq_true (Pipebuf.outToInternalBuffer_error hlt h)
    · cases h
  · rcases Except.bind_eq_error.1 h with h | ⟨_, _, h⟩
    · split_ifs at h with hshort
      · simp [Procinfo.closedBy, hshort]
      · exact absurd rfl (Pipebuf.inAck_error h)
    · cases h
  · rw [Daemon.handleCommand] at h
    split_ifs at h

/-- The socket is closed when no event of a stream is pending. -/
theorem Sound.handleClosedSpidSocket (hd : d.Sound) (hno : ∀ id role, .pipe id role ∉ d.pending) :
    d.handleClosedSpidSocket.Sound where
  streams id p h := by cases h
  pending id role h := absurd h (hno id role)
  nodup := hd.nodup
  reopened id p h := by cases h
  quiet := hd.quiet

theorem findByPid_eq {pid : ℕ} (h : d.findByPid pid = some (id, p)) : d.processes id = some p := by
  obtain ⟨i, -, hi⟩ := List.exists_of_findSome?_eq_some h
  split at hi
  next p' hp =>
    split_ifs at hi
    cases hi
    exact hp
  next => cases hi

/-- `handle_sigchld`. -/
theorem Sound.handleSigchld (hd : d.Sound) (deaths : List (ℕ × Byte)) :
    (d.handleSigchld deaths).Sound := by
  induction deaths generalizing d with
  | nil => exact hd
  | cons death deaths ih =>
    obtain ⟨pid, code⟩ := death
    rw [Daemon.handleSigchld]
    cases hfind : d.findByPid pid with
    | none => exact ih hd
    | some found =>
      obtain ⟨id, p⟩ := found
      have hp := findByPid_eq hfind
      have hstream : ∀ role, Procinfo.stream { p with pid := 0 } role = p.stream role := by
        rintro (_ | _ | _ | _) <;> rfl
      refine ih (hd.setProcess hp (fun role => ?_) (fun f hf => ?_) fun role hmem => ?_)
      · rw [hstream]
        exact hd.streams id p hp role
      · obtain rfl := Pipebuf.mem_sendHeader hf
        exact ⟨rfl, show cmdExitStatus ≠ cmdCloseAck by decide⟩
      · rw [hstream]
        exact hd.registered hp hmem

/-- An event of the socket that closes no stream with an event that is still to be handled. -/
theorem Sound.handleSocketReadable (hd : d.Sound) (hpos : InRun.positive a.writes)
    (hno : ∀ id role, .pipe id role ∈ d.pending → d.closes a id role = false)
    (h : d.handleSocketReadable a = .ok d') : d'.Sound := by
  unfold Daemon.handleSocketReadable at h
  cases hf : a.header with
  | none =>
    rw [hf] at h
    cases h
  | some f =>
    rw [hf] at h
    dsimp only at h
    by_cases hreset : Command.ofByte f.cmd = some .reset
    · rw [if_pos hreset] at h
      cases h
    rw [if_neg hreset] at h
    cases hp : d.processes f.id with
    | none =>
      rw [hp] at h
      dsimp only at h
      split_ifs at h
      exact hd.openProcess hp h
    | some p =>
      rw [hp] at h
      refine hd.handleCommand hp hpos (fun id role hmem => ?_) h
      have := hno id role hmem
      rw [closes, hf, Bool.or_eq_false_iff] at this
      dsimp only at this
      rw [hp] at this
      exact this.2

/-- When the socket is closed in the middle of a packet, all streams are closed. -/
theorem Sound.handleSocketReadable_error (hd : d.Sound)
    (h : d.handleSocketReadable a = .error .sockClosed) (id : Byte) (role : Role) :
    d.closes a id role := by
  unfold Daemon.handleSocketReadable at h
  unfold closes
  cases hf : a.header with
  | none =>
    rw [hf] at h
    cases h
  | some f =>
    rw [hf] at h
    dsimp only at h ⊢
    by_cases hreset : Command.ofByte f.cmd = some .reset
    · rw [if_pos hreset] at h
      cases h
    rw [if_neg hreset] at h
    cases hp : d.processes f.id with
    | none =>
      rw [hp] at h
      dsimp only at h
      split_ifs at h <;> cases h
    | some p =>
      rw [hp] at h
      rw [Bool.or_eq_true]
      exact .inr (hd.handleCommand_error hp h id role)

/-- The first event of the batch is taken out. -/
theorem Sound.tail (hd : d.Sound) (h : d.pending = e :: pending) :
    Sound { d with pending := pending } ∧ e ∉ pending := by
  have hnodup := hd.nodup
  rw [h, List.nodup_cons] at hnodup
  refine ⟨⟨hd.streams, fun id role hmem => ?_, hnodup.2, hd.reopened, hd.quiet⟩, hnodup.1⟩
  exact hd.pending id role (h ▸ List.mem_cons_of_mem _ hmem)

/-- **A step of the event loop** in which no event of the socket closes a stream that has a later
event in the batch. -/
theorem Sound.step {l : Label} (hd : d.Sound) (hok : d.harmless l) (hst : d.step l = some d') :
    d'.Sound := by
  cases l with
  | poll batch =>
    obtain ⟨⟨-, -, hnodup, hall⟩, hst⟩ := Option.ite_none_right_eq_some.1 hst
    cases hst
    refine ⟨hd.streams, fun id role hmem => ?_, hnodup, hd.reopened, hd.quiet⟩
    exact List.all_eq_true.1 hall _ hmem
  | handle a =>
    rw [Daemon.step] at hst
    cases hp : d.pending with
    | nil =>
      rw [hp] at hst
      cases hst
    | cons e pending =>
      rw [hp] at hst
      dsimp only at hst
      obtain ⟨hproper, hst⟩ := Option.ite_none_right_eq_some.1 hst
      obtain ⟨hd', hnot⟩ := hd.tail hp
      -- the socket closes nothing that is pending
      have hno : e = .sock → ∀ id role, .pipe id role ∈ pending → d.closes a id role = false := by
        rintro rfl id role hmem
        rw [harmless, hp] at hok
        have := List.all_eq_true.1 hok _ hmem
        simpa using this
      split at hst
      next d₂ hh =>
        cases hst
        cases e with
        | listener =>
          cases hh
          exact ⟨hd'.streams, hd'.pending, hd'.nodup, hd'.reopened, hd'.quiet⟩
        | sig =>
          cases hh
          exact hd'.handleSigchld _
        | pipe id role => exact hd'.handlePipe hnot hproper hh
        | sock =>
          have hpos : InRun.positive a.writes := by simpa [InRun.positive, proper] using hproper
          rw [handleEvent] at hh
          by_cases hhang : a.hangup
          · rw [if_pos hhang] at hh
            cases hh
            refine hd'.handleClosedSpidSocket fun id role hmem => ?_
            have := hno rfl id role hmem
            rw [closes, hhang] at this
            cases this
          · rw [if_neg hhang] at hh
            exact hd'.handleSocketReadable hpos (hno rfl) hh
      next hh =>
        cases hst
        cases e with
        | listener => cases hh
        | sig => cases hh
        | pipe id role =>
          have hw := hd.pending id role (hp ▸ List.mem_cons_self)
          rcases hd'.handlePipe_error hw hproper hh with he | ⟨he, -⟩ <;> cases he
        | sock =>
          rw [handleEvent] at hh
          split_ifs at hh
          refine hd'.handleClosedSpidSocket fun id role hmem => ?_
          have hall := hd'.handleSocketReadable_error hh id role
          have hnone := hno rfl id role hmem
          exact absurd (hnone.symm.trans hall) Bool.false_ne_true
      next => cases hst

/-- The kernel's answers to an event of the socket with this packet. -/
def packetAnswer (f : Frame) : Answer := ⟨false, some f, [], [], 1, fun _ _ => 0#8, []⟩

/-- A process is created and closed in another batch than that of its output. -/
def closedRun : List Label :=
  [.poll [.listener], .handle (packetAnswer ⟨0, 0, 0, 0, []⟩),
    .poll [.sock], .handle (packetAnswer ⟨0x01#8, 7#8, 0#8, 0#8, []⟩),
    .poll [.pipe 7#8 .stdout, .sock],
    .handle ⟨false, none, [.data [1#8, 2#8], .again], [], 0, fun _ _ => 0#8, []⟩,
    .handle (packetAnswer ⟨0x02#8, 7#8, 0#8, 0#8, []⟩)]

end Daemon

end TesselFirmware
