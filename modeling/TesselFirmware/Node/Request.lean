import TesselFirmware.Node.Readable
import TesselFirmware.Port.Answers

/-!
# Requests (`node/tessel-export.js`)

A request is a call of a method of `Port` or `Pin`.  It writes whole commands, of which at most the
last one is answered, and it puts an entry into `replyQueue` if there is an answer.

* `Due p part u os` : the port `p` has begun a reply with `part`, and while it executes the bytes
  `u` it completes it and gives the replies `os`;
* `due_request` : the reply of each request is the one for its own entry in the queue;
* `decodesTxs_tx` : `tx` splits its data into TX commands.
-/

namespace TesselFirmware

namespace Node

open PortData

/-! ### Replies that are due -/

/-- What the handler takes a complete reply for. -/
def ReplyData.ofBytes : List Byte → ReplyData
  | [] => .data []
  | [b] => .byte b
  | _ :: bs => .data bs

/-- The bytes of a reply. -/
def ReplyData.bytes : ReplyData → List Byte
  | .data bs => replyData :: bs
  | .byte b => [b]

/-- An entry of `replyQueue` with what its callback is to be called with. -/
structure Owed where
  reply : Reply
  data : ReplyData
  deriving DecidableEq, Repr

/-- The data has the size that the handler expects for the entry. -/
def Owed.Sound (o : Owed) : Prop :=
  match o.data with
  | .data bytes => bytes ≠ [] ∧ bytes.length = o.reply.size
  | .byte byte => byte = replyHigh ∨ byte = replyLow

theorem Owed.Sound.ofBytes {o : Owed} (h : o.Sound) : ReplyData.ofBytes o.data.bytes = o.data := by
  obtain ⟨reply, data⟩ := o
  cases data with
  | byte byte => rfl
  | data bytes =>
    obtain ⟨b, bs, rfl⟩ := List.exists_cons_of_ne_nil h.1
    rfl

/-- The port has begun a reply with `part`, and while it executes the bytes `u` it completes it and
gives the replies of `os` one after the other.  The port knows when it has begun one. -/
inductive Due : PortData → List Byte → List Byte → List Owed → Prop
  | idle {p : PortData} (hs : p.state = .readCmd) : Due p [] [] []
  | part {p : PortData} {part u : List Byte} {b : Byte} {os : List Owed}
      (hopen : p.dataOpen = false → part = [])
      (h : Due (p.consume b) (part ++ p.added b) u os) : Due p part (b :: u) os
  | whole {p : PortData} {part u : List Byte} {b : Byte} {o : Owed} {os : List Owed}
      (hopen : p.dataOpen = false → part = []) (hadd : p.added b ≠ [])
      (heq : part ++ p.added b = o.data.bytes) (hsound : o.Sound)
      (h : Due (p.consume b) [] u os) : Due p part (b :: u) (o :: os)

namespace Due

variable {p : PortData} {part u u' : List Byte} {os os' : List Owed} {o : Owed}

theorem part_eq_nil (h : Due p part u os) (hp : p.dataOpen = false) : part = [] := by
  cases h with
  | idle hs => rfl
  | part hopen h => exact hopen hp
  | whole hopen hadd heq hsound h => exact hopen hp

/-- All bytes together are whole commands. -/
theorem state (h : Due p part u os) : (p.consumeAll u).state = .readCmd := by
  induction h with
  | idle hs => exact hs
  | part hopen h ih => exact ih
  | whole hopen hadd heq hsound h ih => exact ih

/-- A reply that has been begun is not complete. -/
theorem proper (h : Due p part u os) (hne : part ≠ []) :
    ∃ o os' rest, os = o :: os' ∧ rest ≠ [] ∧ part ++ rest = o.data.bytes ∧ o.Sound := by
  induction h with
  | idle hs => exact absurd rfl hne
  | @part p part u b os hopen h ih =>
    obtain ⟨o, os', rest, hos, hrest, heq, hsound⟩ := ih (by simp [hne])
    refine ⟨o, os', p.added b ++ rest, hos, by simp [hrest], ?_, hsound⟩
    rw [← heq, List.append_assoc]
  | @whole p part u b o os hopen hadd heq hsound h ih =>
    exact ⟨o, os, p.added b, rfl, hadd, heq, hsound⟩

/-- The replies are what the port replies. -/
theorem replyOf (h : Due p part u os) :
    part ++ p.replyOf u = os.flatMap fun o => o.data.bytes := by
  induction h with
  | idle hs => rw [replyOf_nil]; rfl
  | part hopen h ih => rw [replyOf_cons, ← List.append_assoc, ih]
  | whole hopen hadd heq hsound h ih =>
    rw [replyOf_cons, ← List.append_assoc, heq, List.flatMap_cons, ← ih, List.nil_append]

theorem sound (h : Due p part u os) : ∀ o ∈ os, o.Sound := by
  induction h with
  | idle hs => exact fun _ ho => absurd ho List.not_mem_nil
  | part hopen h ih => exact ih
  | whole hopen hadd heq hsound h ih =>
    intro o ho
    obtain rfl | ho := List.mem_cons.1 ho
    · exact hsound
    · exact ih o ho

/-- Requests one after the other. -/
theorem append (h : Due p part u os) (h' : Due (p.consumeAll u) [] u' os') :
    Due p part (u ++ u') (os ++ os') := by
  induction h with
  | idle hs => exact h'
  | part hopen h ih => exact .part hopen (ih h')
  | whole hopen hadd heq hsound h ih => exact .whole hopen hadd heq hsound (ih h')

/-- The data of a single reply. -/
theorem data_eq (h : Due p [] u [o]) : o.data = ReplyData.ofBytes (p.replyOf u) := by
  have heq := h.replyOf
  rw [List.nil_append, List.flatMap_cons, List.flatMap_nil, List.append_nil] at heq
  rw [heq, (h.sound o (List.mem_singleton_self o)).ofBytes]

end Due

/-- The port answers the bytes `bs` with replies for the entries `rs`. -/
def Answered (p : PortData) (bs : List Byte) (rs : List Reply) : Prop :=
  ∃ os : List Owed, os.map Owed.reply = rs ∧ Due p [] bs os

namespace Answered

variable {p : PortData} {bs bs' : List Byte} {rs rs' : List Reply}

theorem append (h : Answered p bs rs) (h' : Answered (p.consumeAll bs) bs' rs') :
    Answered p (bs ++ bs') (rs ++ rs') := by
  obtain ⟨os, hos, hdue⟩ := h
  obtain ⟨os', hos', hdue'⟩ := h'
  exact ⟨os ++ os', by rw [List.map_append, hos, hos'], hdue.append hdue'⟩

/-- Whole commands that are not answered. -/
theorem silent (hs : (p.consumeAll bs).state = .readCmd) (hreply : p.replyOf bs = []) :
    Answered p bs [] := by
  refine ⟨[], rfl, ?_⟩
  induction bs generalizing p with
  | nil => exact .idle hs
  | cons b bs ih =>
    rw [replyOf_cons, List.append_eq_nil_iff] at hreply
    refine .part (fun _ => rfl) ?_
    rw [hreply.1]
    exact ih hs hreply.2

/-- The only entry gets all that the port replies. -/
theorem due (h : Answered p bs rs) (hrs : rs.length ≤ 1) :
    Due p [] bs (rs.map fun r => ⟨r, .ofBytes (p.replyOf bs)⟩) := by
  obtain ⟨os, rfl, hdue⟩ := h
  match os, hrs with
  | [], _ => exact hdue
  | [o], _ =>
    have hdata := hdue.data_eq
    obtain ⟨reply, data⟩ := o
    subst hdata
    exact hdue

end Answered

/-! ### The replies to the commands -/

variable {p : PortData} {u bs : List Byte} {os : List Owed} {r : Reply} {op a : Byte}

/-- The opcode of a command with an argument is not answered. -/
theorem due_opcode (hs : p.state = .readCmd) (hargs : portCmdArgs (PortCmd.ofByte op) = 1)
    (h : Due (p.consume op) [] u os) : Due p [] (op :: u) os := by
  refine .part (fun _ => rfl) ?_
  rwa [p.added_opcode hs hargs]

/-- A command that is answered when its argument has been read. -/
theorem answered_whole (hs : p.state = .readCmd) (hargs : portCmdArgs (PortCmd.ofByte op) = 1)
    (hstate : (p.consumeAll [op, a]).state = .readCmd) {o : Owed}
    (hreply : p.replyOf [op, a] = o.data.bytes) (hsound : o.Sound) :
    Answered p [op, a] [o.reply] := by
  have hadd : (p.consume op).added a = o.data.bytes := (added_argument hs a hargs).trans hreply
  refine ⟨[o], rfl, due_opcode hs hargs (.whole (fun _ => rfl) ?_ hadd hsound (.idle hstate))⟩
  rw [hadd]
  cases o.data <;> exact List.cons_ne_nil _ _

/-- The level of a pin. -/
theorem answered_level (hs : p.state = .readCmd) (a : Byte)
    (hop : PortCmd.ofByte op = some .gpioIn ∨ PortCmd.ofByte op = some .gpioRawRead) :
    Answered p [op, a] [r] := by
  have hargs : portCmdArgs (PortCmd.ofByte op) = 1 := by
    obtain hop | hop := hop <;> rw [hop] <;> rfl
  have hone : [a].length = portCmdArgs (PortCmd.ofByte op) := hargs.symm
  have hst : statusOf (PortCmd.ofByte op) = .done := by
    obtain hop | hop := hop <;> rw [hop] <;> rfl
  have hpwm : PortCmd.ofByte op ≠ some .pwmDutyCycle := by
    obtain hop | hop := hop <;> rw [hop] <;> decide
  obtain ⟨hstate, q, hq, hreply⟩ := consumeAll_simple hs hone hst hpwm
  have hbegin : q.beginReply = [replyLevel (q.answer != 0#16)] := by
    unfold beginReply
    obtain hop | hop := hop <;> rw [hq, hop]
  refine answered_whole (o := ⟨r, .byte (replyLevel (q.answer != 0#16))⟩) hs hargs hstate
    (hreply.trans hbegin) ?_
  show replyLevel _ = replyHigh ∨ replyLevel _ = replyLow
  cases (q.answer != 0#16)
  · exact .inr rfl
  · exact .inl rfl

/-- The two bytes of an analog value. -/
theorem answered_analog (hs : p.state = .readCmd) (a : Byte)
    (hop : PortCmd.ofByte op = some .analogRead) (hsize : r.size = 2) :
    Answered p [op, a] [r] := by
  have hargs : portCmdArgs (PortCmd.ofByte op) = 1 := by rw [hop]; rfl
  have hone : [a].length = portCmdArgs (PortCmd.ofByte op) := hargs.symm
  obtain ⟨hstate, q, hq, hreply⟩ := consumeAll_simple hs hone (by rw [hop]; rfl)
    (by rw [hop]; decide)
  have hbegin : q.beginReply =
      [replyData, q.answer.setWidth 8, (q.answer >>> 8).setWidth 8] := by
    unfold beginReply
    rw [hq, hop]
  exact answered_whole (o := ⟨r, .data [q.answer.setWidth 8, (q.answer >>> 8).setWidth 8]⟩) hs
    hargs hstate (hreply.trans hbegin) ⟨List.cons_ne_nil _ _, hsize.symm⟩

/-- RX. -/
theorem answered_rx (hs : p.state = .readCmd) {n : ℕ} (hn : n ≠ 0) (hle : n ≤ 255)
    (hserves : serves (some .rx) p.mode) (hsize : r.size = n) :
    Answered p [17#8, BitVec.ofNat 8 n] [r] := by
  have htoNat : (BitVec.ofNat 8 n).toNat = n := Nat.mod_eq_of_lt (by omega)
  have h0 : BitVec.ofNat 8 n ≠ 0#8 := by
    intro h
    rw [h] at htoNat
    exact hn htoNat.symm
  obtain ⟨hstate, bs, hbs, hreply⟩ := consumeAll_rx hs h0 hserves
  refine answered_whole (o := ⟨r, .data bs⟩) hs rfl hstate hreply ⟨?_, ?_⟩
  · rintro rfl
    exact hn (htoNat.symm.trans hbs.symm)
  · rw [hbs, htoNat, hsize]

/-- A payload that is answered byte by byte, after `done` has been replied. -/
theorem due_payload {payload : List Byte} (hs : p.state = .exec)
    (hserves : serves p.opcode p.mode) (hop : echoes p.opcode) (hne : payload ≠ [])
    (hlen : payload.length = (p.argAt 0).toNat) :
    ∃ bs, bs.length = payload.length ∧ ∀ (done : List Byte) (o : Owed),
      done ++ bs = o.data.bytes → o.Sound → Due p done payload [o] := by
  induction payload generalizing p with
  | nil => exact absurd rfl hne
  | cons b payload ih =>
    rw [List.length_cons] at hlen
    have h0 : p.argAt 0 ≠ 0#8 := by
      intro h
      rw [h] at hlen
      exact Nat.succ_ne_zero _ hlen
    have hrx : p.opcode ≠ some .rx := by
      intro h
      rw [h] at hop
      cases hop
    have hopen (part : List Byte) : p.dataOpen = false → part = [] := fun h => by
      rw [dataOpen_of_exec hs hop] at h
      cases h
    have hadd := added_payload hs hserves hop h0 b
    obtain ⟨-, hcmd, -, hmode, harg, hstate⟩ := consume_payload hs hserves hrx h0 b
    have hsub := sub_one_toNat h0
    cases payload with
    | nil =>
      -- the last byte completes the reply
      have hz : p.argAt 0 - 1#8 = 0#8 := BitVec.eq_of_toNat_eq (by rw [hsub, ← hlen]; rfl)
      rw [if_pos hz] at hstate
      refine ⟨p.added b, hadd, fun done o heq hsound => ?_⟩
      refine .whole (hopen _) (fun h => ?_) heq hsound (.idle hstate)
      rw [h] at hadd
      exact Nat.zero_ne_one hadd
    | cons b' payload =>
      have hop' : (p.consume b).opcode = p.opcode := by
        rw [PortData.opcode, hcmd, PortData.opcode]
      rw [← harg] at hsub hstate
      have hlen' : (b' :: payload).length = ((p.consume b).argAt 0).toNat := by
        rw [hsub, ← hlen]
        rfl
      have hz : (p.consume b).argAt 0 ≠ 0#8 := by
        intro hz
        rw [hz] at hlen'
        exact Nat.succ_ne_zero _ hlen'
      rw [if_neg hz] at hstate
      obtain ⟨bs, hbs, hdue⟩ := ih hstate (by rw [hop', hmode]; exact hserves)
        (by rw [hop']; exact hop) (List.cons_ne_nil _ _) hlen'
      refine ⟨p.added b ++ bs, ?_, fun done o heq hsound => .part (hopen _) ?_⟩
      · rw [List.length_append, hadd, hbs, Nat.add_comm]
        rfl
      · exact hdue _ o (by rw [List.append_assoc, heq]) hsound

/-- ECHO or TXRX, with its payload. -/
theorem answered_echoes (hs : p.state = .readCmd) (hargs : portCmdArgs (PortCmd.ofByte op) = 1)
    (hop : echoes (PortCmd.ofByte op)) (hserves : serves (PortCmd.ofByte op) p.mode)
    {payload : List Byte} (hne : payload ≠ []) (hle : payload.length ≤ 255)
    (hsize : r.size = payload.length) :
    Answered p (op :: BitVec.ofNat 8 payload.length :: payload) [r] := by
  have hst : statusOf (PortCmd.ofByte op) = .continue := by
    simp only [echoes, Bool.or_eq_true, beq_iff_eq] at hop
    obtain hop | hop := hop <;> rw [hop] <;> rfl
  have hrx : PortCmd.ofByte op ≠ some .rx := by
    intro h
    rw [h] at hop
    cases hop
  have htx : PortCmd.ofByte op ≠ some .tx := by
    intro h
    rw [h] at hop
    cases hop
  have ho := opened_consumeAll hs (BitVec.ofNat 8 payload.length) hargs hst hrx
  have hreply : p.replyOf [op, BitVec.ofNat 8 payload.length] = [replyData] := by
    refine replyOf_eq (ho.replied.trans ?_)
    rw [openReply, if_neg htx]
  have hlen : payload.length =
      ((p.consumeAll [op, BitVec.ofNat 8 payload.length]).argAt 0).toNat := by
    rw [ho.arg]
    exact (Nat.mod_eq_of_lt (by omega)).symm
  obtain ⟨bs, hbs, hdue⟩ := due_payload ho.state (by rw [ho.opcode, ho.mode]; exact hserves)
    (by rw [ho.opcode]; exact hop) hne hlen
  have hsound : Owed.Sound ⟨r, .data bs⟩ := by
    refine ⟨?_, hbs.trans hsize.symm⟩
    rintro rfl
    exact hne (List.length_eq_zero_iff.1 hbs.symm)
  refine ⟨[⟨r, .data bs⟩], rfl, due_opcode hs hargs (.part (fun _ => rfl) ?_)⟩
  rw [added_argument hs _ hargs, hreply]
  exact hdue [replyData] _ rfl hsound

/-! ### Requests -/

/-- `ADC_PINS`. -/
def adcPins : List ℕ := [4, 7]

namespace Pin

/-- `supports.ADC`. -/
def supportsAdc (name : PortName) (pin : Fin 8) : Bool := adcPins.contains pin || name == .B

def analogRead (name : PortName) (pin : Fin 8) (callback : Callback) : Method :=
  if supportsAdc name pin then
    [.write (newBuffer [Cmd.analogRead, pin]), .enqueue ⟨2, some callback⟩]
  else [.throw]

end Pin

/-- A call of the program. -/
inductive Request
  | command (data : List ℤ) (callback : Option Callback)
  | sync (callback : Option Callback)
  | tx (data : List Byte) (callback : Option Callback)
  | rx (len : ℕ) (callback : Option Callback)
  | txrx (buf : List Byte) (callback : Option Callback)
  | read (pin : Fin 8) (callback : Callback)
  | rawRead (pin : Fin 8) (callback : Callback)
  | analogRead (pin : Fin 8) (callback : Callback)
  deriving DecidableEq, Repr

/-- The entries that a method of an otherwise idle port puts into `replyQueue`. -/
def Method.replies (m : Method) : List Reply := (Sock.run () m .init).1.replyQueue

namespace Request

variable (name : PortName) (c : Request)

def method : Request → Method
  | command data callback => Port.command data callback
  | sync callback => Port.sync callback
  | tx data callback => Port.tx data callback
  | rx len callback => Port.rx len callback
  | txrx buf callback => Port.txrx buf callback
  | read pin callback => Pin.read pin callback
  | rawRead pin callback => Pin.rawRead pin callback
  | analogRead pin callback => Pin.analogRead name pin callback

/-- The bytes that the request writes, and the entries that it puts into `replyQueue`. -/
def bytes : List Byte := (c.method name).bytes
def replies : List Reply := (c.method name).replies

/-- The request has a size that the API admits, and the port `p` that is going to execute it has a
peripheral mode that it needs.  `command` is for whole commands that are not answered. -/
def admitted (p : PortData) : Request → Bool
  | command data _ =>
    (p.consumeAll (newBuffer data)).state == .readCmd && (p.replyOf (newBuffer data)).isEmpty
  | sync _ => true
  | tx data _ => !data.isEmpty && p.mode != .none
  | rx len _ => len != 0 && decide (len ≤ 255) && (p.mode == .spi || p.mode == .i2c)
  | txrx buf _ => !buf.isEmpty && decide (buf.length ≤ 255) && p.mode == .spi
  | read _ _ => true
  | rawRead _ _ => true
  | analogRead pin _ => Pin.supportsAdc name pin

/-- The replies that the request gets when the port `p` executes its bytes. -/
def owed (p : PortData) : List Owed :=
  (c.replies name).map fun r => ⟨r, .ofBytes (p.replyOf (c.bytes name))⟩

/-- A whole command with neither a payload nor a reply is one for `command`. -/
theorem admitted_command {name : PortName} {p : PortData} (hs : p.state = .readCmd) {data : List ℤ}
    {op : Byte} {args : List Byte} (hdata : newBuffer data = op :: args)
    (hlen : args.length = portCmdArgs (PortCmd.ofByte op))
    (hst : statusOf (PortCmd.ofByte op) = .done) (hpwm : PortCmd.ofByte op ≠ some .pwmDutyCycle)
    (hreply : PortData.replies (PortCmd.ofByte op) = false) (callback : Option Callback) :
    (command data callback).admitted name p := by
  obtain ⟨hstate, q, hq, hreplyOf⟩ := consumeAll_simple hs hlen hst hpwm
  rw [admitted, hdata, hreplyOf, beginReply_eq_nil (by rwa [hq]), Bool.and_eq_true, beq_iff_eq]
  exact ⟨hstate, rfl⟩

end Request

theorem Sends.replies {m : Method} {bs : List Byte} {rs : List Reply} (h : Sends m bs rs) :
    m.replies = rs := by
  have hinit : (Sock.init : Sock Unit).Valid := fun _ => rfl
  rw [Method.replies, h.run () hinit]
  rfl

/-! ### The commands of a request -/

/-- `tx` splits its data into TX commands. -/
theorem decodesTxs_txBytes (data : List Byte) (offset : ℕ) (hs : p.state = .readCmd)
    (hm : p.mode ≠ .none) :
    ∃ payloads, DecodesTxs p (txBytes data offset) payloads ∧
      payloads.flatten = data.drop offset := by
  induction offset using txBytes.induct data generalizing p with
  | case1 offset h ih =>
    have hlen : ((data.drop offset).take 255).length ≤ 255 := List.length_take_le _ _
    have hne : (data.drop offset).take 255 ≠ [] := by
      intro h0
      have := congrArg List.length h0
      rw [List.length_take, List.length_drop, List.length_nil] at this
      omega
    have hd := decodesTx hs hm hne hlen
    obtain ⟨payloads, hpayloads, hflat⟩ := ih hd.state (by rw [hd.mode]; exact hm)
    refine ⟨(data.drop offset).take 255 :: payloads, ?_, ?_⟩
    · rw [txBytes, if_pos h]
      have hbytes : newBuffer [Cmd.tx, ((data.drop offset).take 255).length] =
          [16#8, BitVec.ofNat 8 ((data.drop offset).take 255).length] := by
        rw [← BitVec.ofInt_natCast]
        rfl
      dsimp only
      rw [hbytes]
      exact .cons hd hpayloads
    · rw [List.flatten_cons, hflat, ← List.drop_drop, List.take_append_drop]
  | case2 offset h =>
    refine ⟨[], ?_, ?_⟩
    · rw [txBytes, if_neg h]
      exact .nil hs
    · rw [List.drop_of_length_le (by omega)]
      rfl

/-- The ECHO of `sync`. -/
theorem answered_sync (hs : p.state = .readCmd) (callback : Option Callback) :
    Answered p (syncBytes callback) (syncReplies callback) := by
  cases callback with
  | none => exact ⟨[], rfl, .idle hs⟩
  | some cb =>
    have hecho : Answered p (2#8 :: BitVec.ofNat 8 [0x88#8].length :: [0x88#8]) [⟨1, some cb⟩] :=
      answered_echoes hs rfl rfl rfl (List.cons_ne_nil _ _) (by decide) rfl
    exact hecho

namespace Request

variable {name : PortName} {c : Request}

/-- What an admitted request writes and expects is what the port answers. -/
theorem sends_answered (hs : p.state = .readCmd) (h : c.admitted name p) :
    ∃ bs rs, Sends (c.method name) bs rs ∧ Answered p bs rs ∧ rs.length ≤ 1 := by
  have hsync (callback : Option Callback) : (syncReplies callback).length ≤ 1 := by
    cases callback with
    | none => exact Nat.zero_le _
    | some cb => exact le_rfl
  -- each method sends a command whose answer the port decides by its opcode
  cases c with
  | command data callback =>
    rw [admitted, Bool.and_eq_true, beq_iff_eq, List.isEmpty_iff] at h
    have hdata := Answered.silent h.1 h.2
    exact ⟨_, _, sends_command data callback, hdata.append (answered_sync h.1 callback),
      hsync callback⟩
  | sync callback => exact ⟨_, _, sends_sync callback, answered_sync hs callback, hsync callback⟩
  | tx data callback =>
    simp only [admitted, Bool.and_eq_true, Bool.not_eq_true', List.isEmpty_eq_false_iff,
      bne_iff_ne] at h
    obtain ⟨hne, hmode⟩ := h
    obtain ⟨payloads, htx, -⟩ := decodesTxs_txBytes data 0 hs hmode
    have hdata := Answered.silent htx.state htx.replied
    exact ⟨_, _, sends_tx hne callback, hdata.append (answered_sync htx.state callback),
      hsync callback⟩
  | rx len callback =>
    simp only [admitted, Bool.and_eq_true, bne_iff_ne, decide_eq_true_eq, Bool.or_eq_true,
      beq_iff_eq] at h
    obtain ⟨⟨hne, hle⟩, hmode⟩ := h
    have hserves : serves (some .rx) p.mode := by
      obtain hmode | hmode := hmode <;> rw [hmode] <;> rfl
    refine ⟨_, _, sends_rx hne hle callback, ?_, le_rfl⟩
    have hrx := answered_rx (r := ⟨len, callback⟩) hs hne hle hserves rfl
    rwa [← BitVec.ofInt_natCast] at hrx
  | txrx buf callback =>
    simp only [admitted, Bool.and_eq_true, Bool.not_eq_true', List.isEmpty_eq_false_iff,
      decide_eq_true_eq, beq_iff_eq] at h
    obtain ⟨⟨hne, hle⟩, hmode⟩ := h
    have hpos : buf.length ≠ 0 := fun h0 => hne (List.length_eq_zero_iff.1 h0)
    refine ⟨_, _, sends_txrx hpos hle callback, ?_, le_rfl⟩
    have htxrx : Answered p (18#8 :: BitVec.ofNat 8 buf.length :: buf) [⟨buf.length, callback⟩] :=
      answered_echoes hs rfl rfl (by rw [hmode]; rfl) hne hle rfl
    rwa [← BitVec.ofInt_natCast] at htxrx
  | read pin callback =>
    exact ⟨_, _, sends_readPin pin _ callback, answered_level hs _ (.inl rfl), le_rfl⟩
  | rawRead pin callback =>
    exact ⟨_, _, sends_readPin pin _ callback, answered_level hs _ (.inr rfl), le_rfl⟩
  | analogRead pin callback =>
    have hadc : Pin.supportsAdc name pin := h
    refine ⟨newBuffer [Cmd.analogRead, pin], [⟨2, some callback⟩], ?_,
      answered_analog hs _ rfl rfl, le_rfl⟩
    rw [method, Pin.analogRead, if_pos hadc]
    exact (Sends.write _).append (.enqueue _)

theorem sends (hs : p.state = .readCmd) (h : c.admitted name p) :
    Sends (c.method name) (c.bytes name) (c.replies name) := by
  obtain ⟨bs, rs, hsends, -, -⟩ := sends_answered hs h
  rw [bytes, replies, hsends.bytes, hsends.replies]
  exact hsends

/-- **The replies to a request** are those for its own entries. -/
theorem due (hs : p.state = .readCmd) (h : c.admitted name p) :
    Due p [] (c.bytes name) (c.owed name p) := by
  obtain ⟨bs, rs, hsends, hanswered, hrs⟩ := sends_answered hs h
  rw [owed, bytes, replies, hsends.bytes, hsends.replies]
  exact hanswered.due hrs

end Request

end Node

end TesselFirmware
