import TesselFirmware.Spid.Spec

/-!
# The two streams of a connection

What `spid` has read from the connection of a channel is what it still has in `out_buf`
(`ChanState.buffered`) behind what it has passed on.  Each part of a pass either belongs to the
connection that is there, or opens a new one, which starts with nothing (`ChanState.Fresh`).
-/

namespace TesselFirmware

variable {α : Type}

namespace ChanState

variable {c d : ChanState α} {ch : Chan}

/-- The bytes that wait in `out_buf`. -/
def buffered (c : ChanState α) : List Byte := c.outBuf.take c.outLength

/-- From `c` to `d` the connection is the same one, and `bytes` were read from it. -/
structure Continues (c d : ChanState α) (bytes : List Byte) : Prop where
  opened : c.opened
  received : d.received = c.received ++ bytes
  buffered : d.buffered = c.buffered ++ bytes

/-- From `c` to `d` no connection is opened, and nothing is written. -/
structure Keeps (c d : ChanState α) : Prop where
  conns : d.conns = c.conns
  written : d.written = c.written
  continues : d.opened → ∃ bytes, c.Continues d bytes

/-- From `c` to `d` a connection is opened. -/
structure Fresh (c d : ChanState α) : Prop where
  closed : c.opened = false
  conns : d.conns = c.conns + 1
  received : d.received = []
  written : d.written = []
  outLength : d.outLength = 0
  writable : d.writable = false

theorem Continues.refl (ho : c.opened) : c.Continues c [] :=
  ⟨ho, (List.append_nil _).symm, (List.append_nil _).symm⟩

theorem Keeps.refl (c : ChanState α) : c.Keeps c := ⟨rfl, rfl, fun ho => ⟨[], .refl ho⟩⟩

theorem keeps_close (c : ChanState α) (ch : Chan) : c.Keeps (c.close ch) := ⟨rfl, rfl, nofun⟩

/-- A read replaces `out_buf`, which is empty then. -/
theorem keeps_read (h : c.Sound ch) (hp : c.pollIn) (bytes : List Byte) : c.Keeps (c.read bytes) := by
  have hempty : c.buffered = [] := by
    rw [ChanState.buffered, h.idle hp, List.take_zero]
  unfold ChanState.read
  split_ifs with hne
  · refine ⟨rfl, rfl, fun ho => ⟨bytes, ho, rfl, ?_⟩⟩
    rw [hempty, List.nil_append]
    exact List.take_length
  · exact ⟨rfl, rfl, fun ho => ⟨[], ho, (List.append_nil _).symm, (List.append_nil _).symm⟩⟩

theorem Keeps.trans {e : ChanState α} (h : c.Keeps d) (h' : d.Keeps e) : c.Keeps e := by
  refine ⟨h'.conns.trans h.conns, h'.written.trans h.written, fun ho => ?_⟩
  obtain ⟨bytes', hc'⟩ := h'.continues ho
  obtain ⟨bytes, hc⟩ := h.continues hc'.opened
  refine ⟨bytes ++ bytes', hc.opened, ?_, ?_⟩
  · rw [hc'.received, hc.received, List.append_assoc]
  · rw [hc'.buffered, hc.buffered, List.append_assoc]

/-- The part of a pass before the header keeps the connection, or accepts one. -/
theorem Sound.keeps_or_fresh_serve (h : c.Sound ch) {p : Polls} (sys : SysCalls)
    (hsock : p.sockIn ch → c.sockIn) (hin : p.connIn ch → 0 ≤ c.connFd ∧ c.pollIn)
    (hout : p.connOut ch → 0 ≤ c.connFd ∧ c.pollOut) :
    c.Keeps ((c.accept ch (p.sockIn ch) (sys.accept ch)).serve ch p sys) ∨
      c.Fresh ((c.accept ch (p.sockIn ch) (sys.accept ch)).serve ch p sys) := by
  by_cases hacc : ch ≠ usbdChannel ∧ p.sockIn ch
  · -- a connection that has just been accepted is not polled yet
    have hno := (h.listening (hsock hacc.2)).1
    have hpolled (hfd : 0 ≤ c.connFd) (hp : c.pollIn ∨ c.pollOut) : False := by
      have ho := h.polled hfd hp
      rw [hno] at ho
      cases ho
    have hpin : p.connIn ch = false := Bool.eq_false_of_not_eq_true fun hp =>
      hpolled (hin hp).1 (.inl (hin hp).2)
    have hpout : p.connOut ch = false := Bool.eq_false_of_not_eq_true fun hp =>
      hpolled (hout hp).1 (.inr (hout hp).2)
    have hwrit : c.writable = false := by
      by_contra hw
      have ho := h.writable (by simpa using hw)
      rw [hno] at ho
      cases ho
    refine .inr ?_
    rw [ChanState.accept, if_pos hacc]
    simp only [ChanState.serve, hpin, hpout, Bool.false_eq_true, ↓reduceIte, false_and, false_or]
    split_ifs
    · exact ⟨hno, rfl, rfl, rfl, rfl, rfl⟩
    · exact ⟨hno, rfl, rfl, rfl, h.empty hno, hwrit⟩
  · refine .inl ?_
    rw [ChanState.accept, if_neg hacc]
    have hread : c.Keeps (if p.connIn ch then c.read ((sys.read ch).take spidBufSize) else c) := by
      split_ifs with hp
      · exact keeps_read h (hin hp).2 _
      · exact .refl c
    unfold ChanState.serve
    dsimp only
    generalize (if p.connIn ch then c.read _ else c) = d at hread
    split_ifs
    · exact hread.trans (keeps_close d ch)
    · refine ⟨hread.conns, hread.written, fun ho => ?_⟩
      obtain ⟨bytes, hc⟩ := hread.continues ho
      exact ⟨bytes, hc.opened, hc.received, hc.buffered⟩
    · exact hread

/-- `manage_channel_active_status` keeps the connection, or opens that of the USB channel. -/
theorem Sound.keeps_or_fresh_manage (h : c.Sound ch) (connected : Bool) (fd : ℕ) :
    c.Keeps (c.manage ch connected fd) ∨ c.Fresh (c.manage ch connected fd) := by
  unfold ChanState.manage
  split_ifs with hsame hnew husb husb
  · exact .inl (.refl c)
  · have hno := h.opened_of_ne hsame hnew
    have hwrit : c.writable = false := by
      by_contra hw
      have ho := h.writable (by simpa using hw)
      rw [hno] at ho
      cases ho
    exact .inr ⟨hno, rfl, rfl, rfl, h.empty hno, hwrit⟩
  · exact .inl ⟨rfl, rfl, fun ho => ⟨[], ho, (List.append_nil _).symm, (List.append_nil _).symm⟩⟩
  · exact .inl ⟨rfl, rfl, nofun⟩
  · exact .inl ⟨rfl, rfl, nofun⟩

end ChanState

end TesselFirmware
