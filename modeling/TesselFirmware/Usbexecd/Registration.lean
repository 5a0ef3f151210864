import TesselFirmware.Usbexecd.Batch
import TesselFirmware.Usbexecd.Writable

/-!
# Registration of the streams with epoll (`soc/usbexecd.c`)

Whether a descriptor is registered with epoll is not stored in its pipe buffer: the handlers add
and remove it where the ring becomes full or empty, where the output of the child ends, and where
credit comes.  The kernel refuses to add a descriptor twice or to remove one that is not there,
and then the daemon exits.

* `Safely` : a handler does not stop with `fatal`, and what holds when it returns;
* `WritableInv`, `ReadableInv` : what the handlers keep, for the two kinds of streams;
* `Streams.disciplined` : in every run of the streams of one process the registrations are right
  between the handlers, and the kernel refuses none of the calls.
-/

namespace TesselFirmware

/-- The handler does not stop with `fatal`, and `P` holds of what it returns. -/
structure Safely {α : Type} (x : Except Stop α) (P : α → Prop) : Prop where
  ok : ∀ a, x = .ok a → P a
  not_fatal : x ≠ .error .fatal

namespace Safely

variable {α β : Type} {x : Except Stop α} {f : α → Except Stop β} {P : α → Prop} {Q : β → Prop}
  {a : α} {e : Stop}

theorem of_ok (h : P a) : Safely (.ok a) P := by
  constructor
  · rintro b ⟨⟩
    exact h
  · rintro ⟨⟩

theorem of_error (h : e ≠ .fatal) : Safely (.error e) P := by
  constructor
  · rintro a ⟨⟩
  · rintro ⟨⟩
    exact h rfl

theorem bind (h : Safely x P) (hf : ∀ a, P a → Safely (f a) Q) : Safely (x >>= f) Q := by
  constructor
  · intro b hb
    obtain ⟨a, ha, hb⟩ := Except.bind_eq_ok.1 hb
    exact (hf a (h.ok a ha)).ok b hb
  · intro he
    rcases Except.bind_eq_error.1 he with hx | ⟨a, ha, hfa⟩
    · exact h.not_fatal hx
    · exact (hf a (h.ok a ha)).not_fatal hfa

/-- A handler whose only other stops are not `fatal`. -/
theorem of_forall (hok : ∀ a, x = .ok a → P a) (herr : ∀ e, x = .error e → e ≠ .fatal) :
    Safely x P := ⟨hok, fun h => herr _ h rfl⟩

end Safely

namespace Pipebuf

variable {pb pb' : Pipebuf} {q : List Byte}

/-! ### Why a handler stops -/

theorem eq_sockClosed_of_sockLoop {fuel : ℕ} {n : ℤ} {bytes : List Byte} {e : Stop}
    (h : sockLoop fuel pb n bytes = .error e) : e = .sockClosed := by
  induction fuel generalizing pb n bytes with
  | zero => cases h
  | succ fuel ih =>
    rw [sockLoop] at h
    by_cases h0 : n = 0
    · rw [if_pos h0] at h
      cases h
    rw [if_neg h0] at h
    dsimp only at h
    by_cases hshort : bytes.length < if pb.endpos + n > internalPipeBufSize then
        internalPipeBufSize - pb.endpos else n
    · rw [if_pos hshort] at h
      cases h
      rfl
    · rw [if_neg hshort] at h
      exact ih h

/-- The loop returns only if all the bytes have come. -/
theorem sockLoop_length {fuel n : ℕ} {bytes : List Byte} (hfuel : n ≤ fuel)
    (hlt : pb.endpos < internalPipeBufSize) (hnonneg : 0 ≤ pb.endpos)
    (h : sockLoop fuel pb n bytes = .ok pb') : n ≤ bytes.length := by
  induction fuel generalizing pb n bytes with
  | zero => omega
  | succ fuel ih =>
    by_cases h0 : n = 0
    · omega
    rw [sockLoop, if_neg (by omega)] at h
    dsimp only at h
    obtain ⟨m, hm, hpos, hle, hwrap⟩ := exists_toRead h0 hlt
    rw [hm] at h
    by_cases hshort : (bytes.length : ℤ) < m
    · rw [if_pos hshort] at h
      cases h
    · rw [if_neg hshort, ← Int.ofNat_sub hle] at h
      have hrest := ih (by omega) (by
        show (if pb.endpos + (m : ℤ) = internalPipeBufSize then 0 else pb.endpos + m) < _
        unfold internalPipeBufSize at *
        split_ifs <;> omega) (by
        show 0 ≤ if pb.endpos + (m : ℤ) = internalPipeBufSize then 0 else pb.endpos + m
        split_ifs <;> omega) h
      rw [List.length_drop, Int.toNat_natCast] at hrest
      omega

theorem addEpoll_safely (hfd : pb.fd) (hreg : pb.registered = false) :
    Safely pb.addEpoll (· = { pb with registered := true }) := by
  rw [addEpoll, hfd, hreg]
  exact .of_ok rfl

theorem deleteEpoll_safely (hfd : pb.fd) (hreg : pb.registered) :
    Safely pb.deleteEpoll (· = { pb with registered := false }) := by
  rw [deleteEpoll, hfd, hreg]
  exact .of_ok rfl

/-! ### Writable streams: control and stdin -/

/-- A writable stream: the bytes `q` wait, the host may send `allowance` more, and the descriptor is
registered as long as it is open and something waits. -/
structure WritableInv (pb : Pipebuf) (allowance : ℕ) (q : List Byte) : Prop where
  holds : pb.Holds q
  allowance : allowance + q.length = internalPipeBufSize
  closed : pb.fd = false → pb.eof ∧ q = []
  registered : pb.fd → (pb.registered ↔ q ≠ [])

namespace WritableInv

variable {allowance : ℕ}

theorem write {n : ℕ} {bytes : List Byte} (h : WritableInv pb allowance q) (heof : pb.eof = false)
    (hn : n ≤ allowance) (hlen : bytes.length ≤ n) :
    Safely (pb.outToInternalBuffer n bytes) fun pb' =>
      WritableInv pb' (allowance - n) (q ++ bytes) := by
  have hfd : pb.fd := by
    by_contra hc
    exact absurd (h.closed (eq_false_of_ne_true hc)).1 (by rw [heof]; decide)
  have hroom := h.allowance
  have hcount := h.holds.count
  rw [Pipebuf.outToInternalBuffer, if_neg (by rw [heof]; decide)]
  -- the descriptor is added if nothing has waited before
  have hadd : Safely (if pb.bufcount = 0 ∧ n > 0 then pb.addEpoll else .ok pb) fun pb' =>
      pb' = { pb with registered := pb.registered || (decide (q = []) && decide (0 < n)) } := by
    by_cases hc : pb.bufcount = 0 ∧ n > 0
    · obtain rfl : q = [] := List.eq_nil_of_length_eq_zero (by omega)
      have hreg : pb.registered = false := by
        simpa using h.registered hfd
      rw [if_pos hc]
      refine ⟨fun pb' hpb => ?_, (addEpoll_safely hfd hreg).not_fatal⟩
      rw [(addEpoll_safely hfd hreg).ok _ hpb, decide_eq_true hc.2, hreg]
      rfl
    · rw [if_neg hc]
      refine .of_ok ?_
      have hnot : (decide (q = []) && decide (0 < n)) = false := by
        rw [Bool.and_eq_false_iff, decide_eq_false_iff_not, decide_eq_false_iff_not]
        by_contra hboth
        rw [not_or, not_not, not_not] at hboth
        exact hc ⟨by rw [hcount, hboth.1]; rfl, hboth.2⟩
      rw [hnot, Bool.or_false]
  refine hadd.bind fun pb₁ hpb₁ => ?_
  subst hpb₁
  have hq₁ : Pipebuf.Holds
      { pb with registered := pb.registered || (decide (q = []) && decide (0 < n)) } q :=
    ⟨h.holds.ring, h.holds.start, hcount, h.holds.endpos⟩
  refine .of_forall (fun pb' hpb' => ?_) fun e he => ?_
  · have hle := sockLoop_length (Nat.le_refl _) hq₁.endpos_lt hq₁.endpos_nonneg hpb'
    obtain rfl : n = bytes.length := by omega
    obtain ⟨hholds, hsame⟩ := sockLoop_ok hq₁ (Nat.le_refl _) (by omega) hpb'
    refine ⟨hholds, by rw [List.length_append]; omega, fun hc => ?_, fun _ => ?_⟩
    · rw [hsame.fd] at hc
      exact absurd hfd (by rw [hc]; decide)
    · rw [hsame.registered]
      show (pb.registered || (decide (q = []) && decide (0 < bytes.length))) = true ↔ _
      have happend : q ++ bytes ≠ [] ↔ ¬ (q = [] ∧ bytes = []) := not_congr List.append_eq_nil_iff
      rw [Bool.or_eq_true, h.registered hfd, Bool.and_eq_true, decide_eq_true_eq, decide_eq_true_eq,
        List.length_pos_iff, happend]
      tauto
  · rw [eq_sockClosed_of_sockLoop he]
    decide

theorem close (h : WritableInv pb allowance q) : WritableInv (pb.outClose .flush) allowance q := by
  obtain ⟨hholds, -, -, heof, -, hfd⟩ := outClose_flush h.holds
  refine ⟨hholds, h.allowance, fun hc => ⟨heof, ?_⟩, fun hopen => ?_⟩
  · rcases hfd.1 hc with hc | hq
    · exact (h.closed hc).2
    · exact hq
  · have hstill : ¬ (pb.fd = false ∨ q = []) := fun hc => absurd hopen (by rw [hfd.2 hc]; decide)
    rw [not_or, Bool.not_eq_false] at hstill
    have hne : ¬ (pb.bufcount = 0 ∨ CloseFlag.flush = .noFlush) := by
      rw [or_iff_left (by decide), h.holds.count]
      exact fun hc => hstill.2 (List.eq_nil_of_length_eq_zero (by omega))
    rw [outClose, commonClose, if_neg hne]
    exact h.registered hstill.1

theorem writable {writes : List ℤ} (h : WritableInv pb allowance q) (hpos : ∀ w ∈ writes, 0 < w)
    (hfd : pb.fd) (hreg : pb.registered) :
    Safely (pb.outIsWritable writes) fun r =>
      WritableInv r.1 (allowance + r.2.2.foldr (fun f n => ofSizeBytes f.payload + n) 0) [] := by
  have hlen := h.holds.length_le
  rw [outIsWritable, h.holds.count]
  refine Safely.bind (P := fun w : Written =>
      w.total = (q.length : ℤ) ∧ w.pb.Holds [] ∧ SameBesidesRing pb w.pb)
    (.of_forall (fun w hw => ?_) fun e he => by rw [writeFromPipebuf_error he]; decide) ?_
  · obtain ⟨-, htotal, hholds, hsame, -⟩ := writeFromPipebuf_ok hpos h.holds (Nat.le_refl _) hw
    rw [List.drop_length] at hholds
    exact ⟨htotal, hholds, hsame⟩
  rintro w ⟨htotal, hholds, hsame⟩
  rw [if_pos htotal.symm]
  refine (deleteEpoll_safely (hsame.fd ▸ hfd) (hsame.registered ▸ hreg)).bind fun pb₁ hpb₁ => ?_
  subst hpb₁
  have hsize : sizeT w.total = q.length := by
    rw [htotal]
    exact sizeT_natCast (by unfold internalPipeBufSize at hlen; omega)
  have hgrant : ∀ a b c : Byte, ([⟨a, b, 0#8, c, sizeBytes (sizeT w.total)⟩] : List Frame).foldr
      (fun f n => ofSizeBytes f.payload + n) 0 = q.length := by
    intro a b c
    rw [List.foldr_cons, List.foldr_nil, hsize, ofSizeBytes_sizeBytes
      (by unfold internalPipeBufSize at hlen; omega), Nat.add_zero]
  have hinv : ∀ credit : ℤ, WritableInv
      { w.pb with credit := credit, registered := false } (allowance + q.length) [] := by
    intro credit
    refine ⟨⟨hholds.ring, hholds.start, hholds.count, hholds.endpos⟩, h.allowance, fun hc => ?_,
      fun _ => ?_⟩
    · have hc' : w.pb.fd = false := hc
      exact absurd hfd (by rw [← hsame.fd, hc']; decide)
    · exact iff_of_false Bool.false_ne_true fun hne => hne rfl
  dsimp only [outAck]
  split_ifs
  · refine .of_ok ?_
    dsimp only
    rw [hgrant]
    exact (hinv _).close
  · refine .of_ok ?_
    dsimp only
    rw [hgrant]
    exact hinv _

end WritableInv

/-! ### Readable streams: stdout and stderr -/

/-- The kernel reports the end of the output before the ring is full. -/
def readsEof : List ReadResult → ℤ → Bool
  | [], _ => false
  | r :: reads, spaceAvailable =>
    if spaceAvailable = 0 then false
    else match r with
      | .again => false
      | .data bytes => readsEof reads (spaceAvailable - bytes.length)
      | .eof => true
      | .error => false

/-- A readable stream: the bytes `q` are held back, only because no credit is left, and the
descriptor is registered as long as it is open, the output has not ended and there is room. -/
structure ReadableInv (pb : Pipebuf) (eofRead : Bool) (q : List Byte) : Prop where
  holds : pb.Holds q
  closed : pb.fd = false → q = []
  stalled : q = [] ∨ sizeT pb.credit = 0
  room : eofRead → q.length < internalPipeBufSize
  registered : pb.fd → (pb.registered ↔ eofRead = false ∧ q.length < internalPipeBufSize)

/-- The reads of one call: the descriptor leaves epoll at the end of the output. -/
theorem readLoop_safely {reads : List ReadResult} {space : ℤ} {got : List Byte} (hfd : pb.fd)
    (hreg : pb.registered) (herr : .error ∉ reads) :
    Safely (readLoop reads pb space got) fun r => r.1.registered = !readsEof reads space := by
  induction reads generalizing pb space got with
  | nil =>
    rw [readLoop]
    split_ifs
    · exact .of_ok hreg
    · exact .of_error (by decide)
  | cons r reads ih =>
    rw [List.mem_cons, not_or] at herr
    rw [readLoop]
    by_cases h0 : space = 0
    · have hnone : readsEof (r :: reads) space = false := by cases r <;> exact if_pos h0
      rw [if_pos h0, hnone]
      exact .of_ok hreg
    rw [if_neg h0]
    dsimp only
    rw [if_neg (by rw [hfd]; decide)]
    cases r with
    | again =>
      rw [readsEof, if_neg h0]
      exact .of_ok hreg
    | error => exact absurd rfl herr.1
    | eof =>
      rw [readsEof, if_neg h0]
      refine Safely.bind (deleteEpoll_safely hfd hreg) fun pb₁ hpb₁ => ?_
      subst hpb₁
      exact .of_ok rfl
    | data bytes =>
      rw [readsEof, if_neg h0]
      dsimp only
      by_cases hbad : bytes = [] ∨ (if pb.endpos + space > internalPipeBufSize then
          internalPipeBufSize - pb.endpos else space) < bytes.length
      · rw [if_pos hbad]
        exact .of_error (by decide)
      · rw [if_neg hbad]
        exact ih hfd hreg herr.2

theorem inWriteToSock_safely {num : ℕ} {writes : List ℤ} (hpos : InRun.positive writes)
    (hq : pb.Holds q) :
    Safely (pb.inWriteToSock num writes) fun r =>
      ∃ m, m = min (min q.length num) (sizeT pb.credit) ∧ r.1.Holds (q.drop m) ∧
        SameBesidesRing { pb with credit := pb.credit - m } r.1 := by
  refine .of_forall (fun r hr => ?_) fun e he => by rw [inWriteToSock_error he]; decide
  obtain ⟨m, hm, -, hholds, hsame⟩ := inWriteToSock_ok hpos hq hr
  exact ⟨m, hm, hholds, hsame⟩

theorem sizeT_sub_self {credit : ℤ} {m : ℕ} (h : m = sizeT credit) : sizeT (credit - m) = 0 := by
  subst h
  unfold sizeT
  omega

theorem sizeT_add {credit ack : ℤ} (h : sizeT credit = 0) (hack : 0 ≤ ack)
    (hlt : ack < 0x100000000) : (sizeT (credit + ack) : ℤ) = ack := by
  unfold sizeT at *
  omega

theorem ackSize_lt (bytes : List Byte) : ackSize bytes < 0x80000000 := by
  have := (ackSum 0 bytes).toInt_lt
  exact this

namespace ReadableInv

variable {eofRead : Bool}

/-- An open stream that holds nothing back is closed. -/
theorem close (h : ReadableInv pb eofRead q) (sock : Bool) :
    ReadableInv (pb.inClose sock .flush).1 eofRead q := by
  by_cases hc : pb.bufcount = 0 ∧ pb.fd
  · obtain rfl : q = [] := List.eq_nil_of_length_eq_zero (by have := h.holds.count; omega)
    rw [inClose_of_open (.inl hc.1) hc.2]
    refine ⟨⟨.nil (Nat.zero_lt_succ _), Int.le_refl _, rfl, rfl⟩, fun _ => rfl, .inl rfl, h.room, ?_⟩
    exact fun hopen => absurd hopen Bool.false_ne_true
  · rw [inClose_flush_of_not hc]
    exact ⟨⟨h.holds.ring, h.holds.start, h.holds.count, h.holds.endpos⟩, h.closed, h.stalled,
      h.room, h.registered⟩

/-- What is left after packets have been sent. -/
theorem drop {num m : ℕ} {credit : ℤ} (hinv : eofRead → q.length < internalPipeBufSize)
    (hm : m = min (min q.length num) (sizeT credit)) (hnum : q.length ≤ num ∨ sizeT credit ≤ num)
    (hholds : pb'.Holds (q.drop m)) (hcredit : pb'.credit = credit - m)
    (hclosed : pb'.fd = false → q = [])
    (hreg : pb'.fd → (pb'.registered ↔ eofRead = false ∧ (q.drop m).length < internalPipeBufSize)) :
    ReadableInv pb' eofRead (q.drop m) := by
  refine ⟨hholds, fun hc => by rw [hclosed hc, List.drop_nil], ?_, fun heof => ?_, hreg⟩
  · by_cases hall : q.length ≤ m
    · exact .inl (List.drop_eq_nil_iff.2 hall)
    · exact .inr (hcredit ▸ sizeT_sub_self (by omega))
  · have := hinv heof
    rw [List.length_drop]
    omega

theorem ack {bytes : Option (List Byte)} {writes : List ℤ} (h : ReadableInv pb eofRead q)
    (hack : 0 ≤ ackSize (bytes.getD [])) (hpos : InRun.positive writes) :
    Safely (pb.inAck bytes writes) fun r => ∃ q', ReadableInv r.1 eofRead q' := by
  cases bytes with
  | none => exact .of_error (by decide)
  | some bytes =>
    change 0 ≤ ackSize bytes at hack
    have hlt := ackSize_lt bytes
    have hcount := h.holds.count
    have hlen := h.holds.length_le
    -- a full ring from which something will be sent is registered again
    have hadd : Safely (if pb.bufcount = internalPipeBufSize ∧ ackSize bytes > 0 then pb.addEpoll
        else .ok pb) fun pb' => ∃ b, pb' = { pb with registered := b } ∧ (pb.fd → (b = true ↔
          eofRead = false ∧ (q.length < internalPipeBufSize ∨ 0 < ackSize bytes))) := by
      by_cases hc : pb.bufcount = internalPipeBufSize ∧ ackSize bytes > 0
      · have hne : q ≠ [] := by
          rintro rfl
          rw [hcount] at hc
          exact absurd hc.1 (by decide)
        have hfd : pb.fd := by
          by_contra hclosed
          exact hne (h.closed (eq_false_of_ne_true hclosed))
        have hfull : ¬ q.length < internalPipeBufSize := by omega
        have heof : eofRead = false := eq_false_of_ne_true fun heof => hfull (h.room heof)
        have hreg : pb.registered = false :=
          eq_false_of_ne_true fun hreg => hfull ((h.registered hfd).1 hreg).2
        rw [if_pos hc]
        refine ⟨fun pb' hpb => ?_, (addEpoll_safely hfd hreg).not_fatal⟩
        exact ⟨true, (addEpoll_safely hfd hreg).ok _ hpb, fun _ => iff_of_true rfl ⟨heof, .inr hc.2⟩⟩
      · rw [if_neg hc]
        refine .of_ok ⟨pb.registered, rfl, fun hfd => ?_⟩
        rw [h.registered hfd]
        have : q.length < internalPipeBufSize ∨ ¬ 0 < ackSize bytes := by omega
        tauto
    rw [inAck]
    refine hadd.bind ?_
    rintro _ ⟨b, rfl, hb⟩
    dsimp only
    have hsend : Safely (if pb.bufcount > 0 then
        inWriteToSock { pb with credit := pb.credit + ackSize bytes, registered := b }
          (sizeT (if pb.bufcount < ackSize bytes then pb.bufcount else ackSize bytes)) writes
        else .ok ({ pb with credit := pb.credit + ackSize bytes, registered := b }, [])) fun r =>
        ∃ q', ReadableInv r.1 eofRead q' := by
      have hholds : Holds { pb with credit := pb.credit + ackSize bytes, registered := b } q :=
        ⟨h.holds.ring, h.holds.start, hcount, h.holds.endpos⟩
      by_cases hc : pb.bufcount > 0
      · rw [if_pos hc]
        have hstalled : sizeT pb.credit = 0 := by
          rcases h.stalled with rfl | hstalled
          · rw [hcount] at hc
            exact absurd hc (by decide)
          · exact hstalled
        have hcredit := sizeT_add hstalled hack (by omega)
        have hnum :
            (sizeT (if pb.bufcount < ackSize bytes then pb.bufcount else ackSize bytes) : ℤ) =
              min pb.bufcount (ackSize bytes) := by
          unfold internalPipeBufSize at hlen
          rw [sizeT_of_nonneg (by split_ifs <;> omega) (by split_ifs <;> omega)]
          split_ifs <;> omega
        refine ⟨fun r hr => ?_, (inWriteToSock_safely hpos hholds).not_fatal⟩
        obtain ⟨m, hm, hq', hsame⟩ := (inWriteToSock_safely hpos hholds).ok r hr
        have hleft : r.1.credit = pb.credit + ackSize bytes - m := hsame.credit
        change m = min (min q.length _) (sizeT (pb.credit + ackSize bytes)) at hm
        refine ⟨q.drop m, drop h.room hm (by omega) hq' hleft
          (fun hclosed => h.closed (hsame.fd ▸ hclosed)) fun hopen => ?_⟩
        rw [hsame.registered, hb (hsame.fd ▸ hopen), List.length_drop]
        refine and_congr_right fun _ => ?_
        omega
      · rw [if_neg hc]
        obtain rfl : q = [] := List.eq_nil_of_length_eq_zero (by omega)
        refine .of_ok ⟨[], hholds, fun _ => rfl, .inl rfl, h.room, fun hopen => ?_⟩
        rw [hb hopen]
        exact and_congr_right fun _ => iff_of_true (.inl (by decide)) (by decide)
    refine hsend.bind ?_
    rintro ⟨pb', frames⟩ ⟨q', h'⟩
    dsimp only
    split_ifs
    · exact .of_ok ⟨q', h'.close true⟩
    · exact .of_ok ⟨q', h'⟩

theorem readable {reads : List ReadResult} {writes : List ℤ} (h : ReadableInv pb eofRead q)
    (hpos : InRun.positive writes) (herr : .error ∉ reads) (hfd : pb.fd) (hreg : pb.registered) :
    Safely (pb.inToInternalBuffer reads writes) fun r =>
      ∃ q', ReadableInv r.1 (eofRead || readsEof reads (internalPipeBufSize - pb.bufcount)) q' := by
  have hopen := ((h.registered hfd).1 hreg).1
  have hsafe : Safely (readLoop reads pb (internalPipeBufSize - pb.bufcount) []) _ :=
    readLoop_safely hfd hreg herr
  rw [hopen, Bool.false_or]
  rw [inToInternalBuffer]
  refine Safely.bind (P := fun r : Pipebuf × List Byte => ∃ q', r.1.Holds q' ∧ r.1.fd ∧
      r.1.registered = !readsEof reads (internalPipeBufSize - pb.bufcount) ∧
      (readsEof reads (internalPipeBufSize - pb.bufcount) → q'.length < internalPipeBufSize))
    ⟨fun r hr => ?_, hsafe.not_fatal⟩ ?_
  · obtain ⟨new, -, hreceives⟩ := readLoop_ok h.holds hr
    have hreg' := hsafe.ok r hr
    refine ⟨q ++ new, hreceives.holds, hreceives.fd ▸ hfd, hreg', fun heof => ?_⟩
    rcases hreceives.registered with hsame | hend
    · rw [hreg', hreg, heof] at hsame
      cases hsame
    · exact hend.2
  generalize readsEof reads (internalPipeBufSize - pb.bufcount) = ended
  rintro ⟨pb₁, got⟩ ⟨q₁, hq₁, hfd₁, hreg₁, hroom₁⟩
  have hcount₁ := hq₁.count
  dsimp only at hq₁ hfd₁ hreg₁ hcount₁ ⊢
  -- what is sent; the registration is not touched
  have hsend : Safely (if pb₁.credit ≠ 0 ∧ pb₁.bufcount > 0 then
      pb₁.inWriteToSock (sizeT pb₁.bufcount) writes else .ok (pb₁, [])) fun r =>
      ∃ q', r.1.Holds q' ∧ r.1.fd ∧ (q' = [] ∨ sizeT r.1.credit = 0) ∧
        q'.length ≤ q₁.length ∧ r.1.registered = !ended := by
    by_cases hc : pb₁.credit ≠ 0 ∧ pb₁.bufcount > 0
    · rw [if_pos hc]
      refine ⟨fun r hr => ?_, (inWriteToSock_safely hpos hq₁).not_fatal⟩
      obtain ⟨m, hm, hq', hsame⟩ := (inWriteToSock_safely hpos hq₁).ok r hr
      have hsize : sizeT pb₁.bufcount = q₁.length := by
        rw [hcount₁]
        exact sizeT_natCast (by have := hq₁.length_le; unfold internalPipeBufSize at this; omega)
      rw [hsize] at hm
      refine ⟨q₁.drop m, hq', hsame.fd ▸ hfd₁, ?_, by rw [List.length_drop]; omega,
        hsame.registered.trans hreg₁⟩
      by_cases hall : q₁.length ≤ m
      · exact .inl (List.drop_eq_nil_iff.2 hall)
      · exact .inr (hsame.credit ▸ sizeT_sub_self (by omega))
    · rw [if_neg hc]
      refine .of_ok ⟨q₁, hq₁, hfd₁, ?_, Nat.le_refl _, hreg₁⟩
      by_cases hcr : pb₁.credit = 0
      · exact .inr (by dsimp only; rw [hcr]; rfl)
      · exact .inl (List.eq_nil_of_length_eq_zero (by omega))
  refine hsend.bind ?_
  rintro ⟨pb₂, frames⟩ ⟨q₂, hq₂, hfd₂, hstalled, hle, hreg₂⟩
  have hcount₂ := hq₂.count
  dsimp only at hq₂ hfd₂ hstalled hreg₂ hcount₂ ⊢
  have hclosed : pb₂.fd = false → q₂ = [] := fun hc => absurd hfd₂ (by rw [hc]; decide)
  by_cases hfull : pb₂.bufcount = internalPipeBufSize
  · have hended : ended = false := eq_false_of_ne_true fun he => by have := hroom₁ he; omega
    rw [if_pos hfull]
    refine (deleteEpoll_safely hfd₂ (by rw [hreg₂, hended]; rfl)).bind fun pb₃ hpb₃ => ?_
    subst hpb₃
    refine .of_ok ⟨q₂, ⟨hq₂.ring, hq₂.start, hcount₂, hq₂.endpos⟩, hclosed, hstalled, ?_, ?_⟩
    · exact fun he => absurd he (by rw [hended]; decide)
    · exact fun _ => iff_of_false Bool.false_ne_true fun hlt => by omega
  · rw [if_neg hfull]
    have h₂ : ReadableInv pb₂ ended q₂ := by
      refine ⟨hq₂, hclosed, hstalled, fun he => by have := hroom₁ he; omega, fun _ => ?_⟩
      have := hq₂.length_le
      rw [hreg₂, Bool.not_eq_true', and_iff_left (by omega)]
    split_ifs
    · exact .of_ok ⟨q₂, h₂.close true⟩
    · exact .of_ok ⟨q₂, h₂⟩

end ReadableInv

end Pipebuf

/-! ### The streams of one process -/

/-- The streams of a process, whether `read` has reported the end of their output, and how much the
host may still send. -/
structure Streams where
  p : Procinfo
  eofRead : Role → Bool
  allowance : Role → ℕ

inductive StreamEvent
  /-- `CMD_WRITE_CONTROL`, `CMD_WRITE_STDIN`: a packet of `n` bytes, and those that come before the
  socket is closed. -/
  | write (role : Role) (n : ℕ) (bytes : List Byte)
  /-- `CMD_ACK_STDOUT`, `CMD_ACK_STDERR`. -/
  | ack (role : Role) (bytes : Option (List Byte)) (writes : List ℤ)
  /-- `CMD_CLOSE_CONTROL` to `CMD_CLOSE_STDERR`. -/
  | close (role : Role)
  /-- The event of a stream. -/
  | ready (role : Role) (reads : List ReadResult) (writes : List ℤ)

namespace Streams

variable (s : Streams)

/-- After `CMD_OPEN`. -/
def init (id : Byte) (pid : ℕ) (memory : Role → ℤ → Byte) : Streams where
  p :=
    { pid := pid
      ctrl := (Pipebuf.outInit (memory .ctrl) id .ctrl).1
      stdin := (Pipebuf.outInit (memory .stdin) id .stdin).1
      stdout := { Pipebuf.commonInit (memory .stdout) id .stdout with registered := true }
      stderr := { Pipebuf.commonInit (memory .stderr) id .stderr with registered := true } }
  eofRead := fun _ => false
  allowance := fun _ => internalPipeBufSize

/-- The handlers of the streams. -/
def handle (s : Streams) : StreamEvent → Except Stop Streams
  | .write role n bytes => do
    let pb ← (s.p.stream role).outToInternalBuffer n bytes
    return { s with
      p := s.p.setStream role pb
      allowance := Function.update s.allowance role (s.allowance role - n) }
  | .ack role bytes writes => do
    let (pb, _) ← (s.p.stream role).inAck bytes writes
    return { s with p := s.p.setStream role pb }
  | .close role =>
    if role.isIn then
      .ok { s with p := s.p.setStream role ((s.p.stream role).inClose true .flush).1 }
    else .ok { s with p := s.p.setStream role ((s.p.stream role).outClose .flush) }
  | .ready role reads writes =>
    if role.isIn then do
      let (pb, _, _) ← (s.p.stream role).inToInternalBuffer reads writes
      return { s with
        p := s.p.setStream role pb
        eofRead := Function.update s.eofRead role (s.eofRead role ||
          Pipebuf.readsEof reads (internalPipeBufSize - (s.p.stream role).bufcount)) }
    else do
      let (pb, _, frames) ← (s.p.stream role).outIsWritable writes
      return { s with
        p := s.p.setStream role pb
        allowance := Function.update s.allowance role (s.allowance role +
          frames.foldr (fun f n => ofSizeBytes f.payload + n) 0) }

/-- A handler that stops ends the run: the daemon exits, or the process is closed with the
socket. -/
def step (s : Streams) (e : StreamEvent) : Option Streams := (s.handle e).toOption

def machine : Machine Streams StreamEvent := ⟨step⟩

/-- The host keeps to its credit and does not take credit back, every `write` takes at least one
byte, and a stream has an event only while its descriptor is open and registered. -/
def Proper (s : Streams) : StreamEvent → Prop
  | .write role n bytes => role.isIn = false ∧ n ≤ s.allowance role ∧ bytes.length ≤ n
  | .ack role bytes writes =>
    role.isIn ∧ 0 ≤ ackSize (bytes.getD []) ∧ ∀ w ∈ writes, 0 < w
  | .close _ => True
  | .ready role reads writes =>
    (s.p.stream role).fd ∧ (s.p.stream role).registered ∧ .error ∉ reads ∧ ∀ w ∈ writes, 0 < w

/-- A packet for a stream that has been asked to close: the daemon exits before it has called
epoll. -/
def WritesClosed (s : Streams) : StreamEvent → Prop
  | .write role _ _ => (s.p.stream role).eof
  | _ => False

/-- The registrations between the handlers. -/
structure Disciplined (s : Streams) : Prop where
  writable : ∀ role, role.isIn = false → (s.p.stream role).fd →
    ((s.p.stream role).registered ↔ 0 < (s.p.stream role).bufcount)
  readable : ∀ role, role.isIn → (s.p.stream role).fd →
    ((s.p.stream role).registered ↔
      s.eofRead role = false ∧ (s.p.stream role).bufcount < internalPipeBufSize)

/-- What the handlers keep, for all streams. -/
structure Inv (s : Streams) : Prop where
  writable : ∀ role, role.isIn = false →
    ∃ q, (s.p.stream role).WritableInv (s.allowance role) q
  readable : ∀ role, role.isIn → ∃ q, (s.p.stream role).ReadableInv (s.eofRead role) q

variable {s} {t : Streams} {e : StreamEvent}

theorem handle_of_step (h : machine.step s e = some t) : s.handle e = .ok t := by
  change (s.handle e).toOption = some t at h
  cases hx : s.handle e with
  | error => rw [hx] at h; cases h
  | ok a =>
    rw [hx] at h
    exact congrArg _ (Option.some.inj h)

theorem handle_of_writesClosed (h : s.WritesClosed e) : s.handle e = .error .fatal := by
  cases e with
  | write role n bytes =>
    have heof : (s.p.stream role).eof = true := h
    rw [handle, Pipebuf.outToInternalBuffer, if_pos heof]
    rfl
  | ack => cases h
  | close => cases h
  | ready => cases h

theorem inv_init (id : Byte) (pid : ℕ) (memory : Role → ℤ → Byte) : (init id pid memory).Inv := by
  constructor
  · rintro role hrole
    refine ⟨[], ?_⟩
    cases role <;> first
      | exact absurd hrole (by decide)
      | exact ⟨⟨.nil (Nat.zero_lt_succ _), Int.le_refl _, rfl, rfl⟩, rfl,
          fun hc => absurd hc (Bool.false_ne_true ∘ Eq.symm),
          fun _ => iff_of_false Bool.false_ne_true fun hne => hne rfl⟩
  · rintro role hrole
    refine ⟨[], ?_⟩
    cases role <;> first
      | exact absurd hrole (by decide)
      | exact ⟨⟨.nil (Nat.zero_lt_succ _), Int.le_refl _, rfl, rfl⟩, fun _ => rfl, .inl rfl,
          fun _ => (by decide : 0 < internalPipeBufSize),
          fun _ => iff_of_true rfl ⟨rfl, (by decide : 0 < internalPipeBufSize)⟩⟩

/-- One writable stream has changed. -/
theorem Inv.setWritable {role : Role} {pb : Pipebuf} {n : ℕ} {q : List Byte} (h : s.Inv)
    (hrole : role.isIn = false) (hpb : pb.WritableInv n q) :
    Inv { s with
      p := s.p.setStream role pb, allowance := Function.update s.allowance role n } := by
  constructor
  · intro role' hrole'
    by_cases heq : role' = role
    · subst heq
      refine ⟨q, ?_⟩
      dsimp only
      rw [Procinfo.stream_setStream, Function.update_self]
      exact hpb
    · obtain ⟨q', hq'⟩ := h.writable role' hrole'
      refine ⟨q', ?_⟩
      dsimp only
      rw [Procinfo.stream_setStream_of_ne _ heq, Function.update_of_ne heq]
      exact hq'
  · intro role' hrole'
    have hne : role' ≠ role := by
      rintro rfl
      exact Bool.false_ne_true (hrole.symm.trans hrole')
    obtain ⟨q', hq'⟩ := h.readable role' hrole'
    refine ⟨q', ?_⟩
    rw [Procinfo.stream_setStream_of_ne _ hne]
    exact hq'

/-- One readable stream has changed. -/
theorem Inv.setReadable {role : Role} {pb : Pipebuf} {b : Bool} {q : List Byte} (h : s.Inv)
    (hrole : role.isIn) (hpb : pb.ReadableInv b q) :
    Inv { s with p := s.p.setStream role pb, eofRead := Function.update s.eofRead role b } := by
  constructor
  · intro role' hrole'
    have hne : role' ≠ role := by
      rintro rfl
      exact Bool.false_ne_true (hrole'.symm.trans hrole)
    obtain ⟨q', hq'⟩ := h.writable role' hrole'
    refine ⟨q', ?_⟩
    rw [Procinfo.stream_setStream_of_ne _ hne]
    exact hq'
  · intro role' hrole'
    by_cases heq : role' = role
    · subst heq
      refine ⟨q, ?_⟩
      dsimp only
      rw [Procinfo.stream_setStream, Function.update_self]
      exact hpb
    · obtain ⟨q', hq'⟩ := h.readable role' hrole'
      refine ⟨q', ?_⟩
      dsimp only
      rw [Procinfo.stream_setStream_of_ne _ heq, Function.update_of_ne heq]
      exact hq'

/-- **One handler** keeps what the streams keep, and the kernel refuses none of its calls. -/
theorem Inv.handle (h : s.Inv) (hok : s.Proper e) (hopen : ¬ s.WritesClosed e) :
    Safely (s.handle e) Inv := by
  cases e with
  | write role n bytes =>
    obtain ⟨hrole, hn, hlen⟩ := hok
    obtain ⟨q, hq⟩ := h.writable role hrole
    refine (hq.write (eq_false_of_ne_true hopen) hn hlen).bind fun pb hpb => ?_
    exact .of_ok (h.setWritable hrole hpb)
  | ack role bytes writes =>
    obtain ⟨hrole, hack, hpos⟩ := hok
    obtain ⟨q, hq⟩ := h.readable role hrole
    refine (hq.ack hack hpos).bind ?_
    rintro ⟨pb, frames⟩ ⟨q', hq'⟩
    have hset := h.setReadable hrole hq'
    rw [Function.update_eq_self] at hset
    exact .of_ok hset
  | close role =>
    rw [Streams.handle]
    by_cases hrole : role.isIn
    · obtain ⟨q, hq⟩ := h.readable role hrole
      have hset := h.setReadable hrole (hq.close true)
      rw [Function.update_eq_self] at hset
      rw [if_pos hrole]
      exact .of_ok hset
    · obtain ⟨q, hq⟩ := h.writable role (eq_false_of_ne_true hrole)
      have hset := h.setWritable (eq_false_of_ne_true hrole) hq.close
      rw [Function.update_eq_self] at hset
      rw [if_neg hrole]
      exact .of_ok hset
  | ready role reads writes =>
    obtain ⟨hfd, hreg, herr, hpos⟩ := hok
    rw [Streams.handle]
    by_cases hrole : role.isIn
    · obtain ⟨q, hq⟩ := h.readable role hrole
      rw [if_pos hrole]
      refine (hq.readable hpos herr hfd hreg).bind ?_
      rintro ⟨pb, got, frames⟩ ⟨q', hq'⟩
      exact .of_ok (h.setReadable hrole hq')
    · obtain ⟨q, hq⟩ := h.writable role (eq_false_of_ne_true hrole)
      rw [if_neg hrole]
      refine (hq.writable hpos hfd hreg).bind ?_
      rintro ⟨pb, bytes, frames⟩ hq'
      exact .of_ok (h.setWritable (eq_false_of_ne_true hrole) hq')

theorem Inv.isDisciplined (h : s.Inv) : s.Disciplined := by
  constructor
  · intro role hrole hfd
    obtain ⟨q, hq⟩ := h.writable role hrole
    rw [hq.registered hfd, hq.holds.count, ← List.length_pos_iff]
    omega
  · intro role hrole hfd
    obtain ⟨q, hq⟩ := h.readable role hrole
    rw [hq.registered hfd, hq.holds.count]
    exact and_congr_right fun _ => Int.ofNat_lt.symm

/-- **The registrations with epoll.**  In every run of the streams of one process in which the host
keeps to its credit, and between all handlers: an open stdin or control stream is registered if and
only if something waits, an open stdout or stderr stream if and only if its output has not ended and
there is room.  The kernel refuses no call of the next handler either: it stops with `fatal` only
for a packet to a stream that has been asked to close, before it has called epoll. -/
theorem disciplined {id : Byte} {pid : ℕ} {memory : Role → ℤ → Byte} {es : List StreamEvent}
    (h : machine.Run Proper (init id pid memory) es s) :
    s.Disciplined ∧
      ∀ e, s.Proper e → s.handle e = .error .fatal → s.WritesClosed e := by
  have hinv : s.Inv := h.invariant (inv_init id pid memory) fun s e t hs hok hst => by
    have hret : s.handle e = .ok t := handle_of_step hst
    refine (hs.handle hok fun hclosed => ?_).ok t hret
    rw [handle_of_writesClosed hclosed] at hret
    cases hret
  refine ⟨hinv.isDisciplined, fun e hok hfatal => ?_⟩
  by_contra hopen
  exact (hinv.handle hok hopen).not_fatal hfatal

/-- Something for stdin, which the child takes; the child writes three bytes and ends, and gets
credit for two of them and then for the last one. -/
def endedRun : List StreamEvent :=
  [.write .stdin 3 [1#8, 2#8, 3#8], .ready .stdin [] [2, 1],
    .ready .stdout [.data [4#8, 5#8], .data [6#8], .eof] [], .ack .stdout (some [2#8]) [2],
    .close .stdin, .ack .stdout (some [1#8, 0#8, 0#8]) [1]]

theorem disciplined_endedRun :
    ∃ s, machine.exec (init 1#8 5 fun _ _ => 0#8) endedRun = some s ∧ s.p.stdout.fd = false ∧
      s.p.stdin.fd = false ∧ s.p.stderr.registered ∧ s.Disciplined := by
  have h : ((machine.execOk (fun s e => match e with
      | .write role n bytes => !role.isIn && n ≤ s.allowance role && bytes.length ≤ n
      | .ack role bytes writes =>
        role.isIn && 0 ≤ ackSize (bytes.getD []) && writes.all (0 < ·)
      | .close _ => true
      | .ready role reads writes => (s.p.stream role).fd && (s.p.stream role).registered &&
        !reads.contains .error && writes.all (0 < ·)) (init 1#8 5 fun _ _ => 0#8) endedRun).map
          fun s => (s.p.stdout.fd, s.p.stdin.fd, s.p.stderr.registered)) =
      some (false, false, true) := by
    decide +kernel
  obtain ⟨s, hs, htriple⟩ := Option.map_eq_some_iff.1 h
  have hrun := Machine.run_of_execOk Proper (fun s e hok => ?_) hs
  · obtain ⟨hstdout, hrest⟩ := Prod.mk.inj htriple
    obtain ⟨hstdin, hstderr⟩ := Prod.mk.inj hrest
    exact ⟨s, hrun.exec_eq, hstdout, hstdin, hstderr, (disciplined hrun).1⟩
  · cases e with
    | write role n bytes => simpa [Proper, and_assoc] using hok
    | ack role bytes writes => simpa [Proper, and_assoc] using hok
    | close role => trivial
    | ready role reads writes => simpa [Proper, and_assoc] using hok

end Streams

end TesselFirmware
