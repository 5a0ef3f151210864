import Mathlib.Logic.Relation
import TesselFirmware.Node.Listener
import TesselFirmware.Node.Report

/-!
# The reply parser (`node/tessel-export.js`)

The `'readable'` handler of a port appends what it reads from the socket to `replyBuf`, and takes
one message after the other from its front.

* `Reader.pass_message`, `Reader.pass_cases` : an iteration of the loop takes one whole message, or
  it waits or throws, or it leaves everything as it is;
* `Reader.ends_flatten` : the handler does the same however the stream is cut into reads;
* `Reader.terminates_iff` : the loop ends, in at most `replyBuf.length` iterations, exactly if no
  byte that it does not dispatch is at the front while a command waits for its reply;
* `Reader.not_terminates_ack` : it goes on forever with an `ACK`.
-/

namespace TesselFirmware

namespace Node

/-! ### The port -/

/-- What the callback of a command is called with. -/
inductive ReplyData
  | data (bytes : List Byte)
  | byte (byte : Byte)
  deriving DecidableEq, Repr

/-- What the handler tells the program. -/
inductive Told
  /-- A command has been dequeued, and its callback is called if it has one. -/
  | reply (queued : Reply) (data : ReplyData)
  /-- `uart.push(rxData)`. -/
  | uart (rxData : List Byte)
  /-- `pin.emit(event)`, `pin.emit(event, pinValue)`. -/
  | emit (pin : Fin 8) (event : IntMode) (pinValue : Option Bool)
  | listener (pin : Fin 8) (event : IntMode) (fn : Func)
  /-- `this.emit('async-event', byte)`. -/
  | asyncEvent (byte : Byte)
  deriving DecidableEq, Repr

/-- A `Port` as its handler uses it, and what the program has been told. -/
structure Client where
  replyQueue : List Reply
  /-- The tasks that wait on the socket; it is referenced unless there are none. -/
  pending : ℕ
  /-- A UART is enabled. -/
  uart : Bool
  pins : Fin 8 → PinState
  told : List Told

/-- What the program does when it is told something. -/
abbrev Program := Told → Client → Client

namespace Client

variable (program : Program) (c : Client)

def ref : Client := { c with pending := c.pending + 1 }

def unref : Client := { c with pending := c.pending - 1 }

def enqueue (reply : Reply) : Client := { c.ref with replyQueue := c.replyQueue ++ [reply] }

def dequeue : Client := { c.unref with replyQueue := c.replyQueue.tail }

/-- A method of a pin, which counts its tasks on the port. -/
def onPin (pin : Fin 8) (f : PinState → PinState) : Client :=
  let s := f { c.pins pin with pending := c.pending }
  { c with pins := Function.update c.pins pin s, pending := s.pending }

def tell (t : Told) : Client := { program t c with told := c.told ++ [t] }

/-- A listener is called; a wrapper removes itself before. -/
def callListener (pin : Fin 8) (event : IntMode) (l : Listener) : Client :=
  let c := if l.isOnce then c.onPin pin (·.removeListener (.mode event) l.fn) else c
  c.tell program (.listener pin event l.fn)

/-- `pin.emit`. -/
def emit (pin : Fin 8) (event : IntMode) (pinValue : Option Bool) : Client :=
  let c := { c with told := c.told ++ [Told.emit pin event pinValue] }
  ((c.pins pin).emitter.listeners (.mode event)).foldl (·.callListener program pin event ·) c

/-- A pin has changed. -/
def pinChange (pin : Fin 8) (pinValue : Bool) : Client :=
  match (c.pins pin).interruptMode with
  | .mode .low => (c.emit program pin .low none).onPin pin fun s => (s.setInterruptMode .null).unref
  | .mode .high =>
    (c.emit program pin .high none).onPin pin fun s => (s.setInterruptMode .null).unref
  | _ =>
    (c.emit program pin .change (some pinValue)).emit program pin
      (if pinValue then .rise else .fall) none

/-- An asynchronous message of one byte. -/
def async (byte : Byte) : Client :=
  match Node.pinChange byte with
  | some (pin, pinValue) => c.pinChange program ⟨pin % 8, Nat.mod_lt pin (by decide)⟩ pinValue
  | none => c.tell program (.asyncEvent byte)

/-- The command that waits longest is dequeued. -/
def answer (data : ReplyData) : Client :=
  match c.replyQueue with
  | [] => c
  | queued :: _ => c.dequeue.tell program (.reply queued data)

end Client

/-! ### The loop -/

/-- The text of the error for a reply that no command waits for. -/
def unexpectedResponse (byte : Byte) : String :=
  s!"Received unexpected response with no commands pending: {byte.toNat}"

/-- The handler with its buffer. -/
structure Reader where
  replyBuf : List Byte
  client : Client

/-- How an iteration of the loop ends. -/
inductive Pass
  | again (r : Reader)
  /-- `break`. -/
  | wait
  | throw (error : String)

/-- How the handler ends. -/
inductive Ending
  | returned (r : Reader)
  | threw (r : Reader) (error : String)

namespace Reader

variable (program : Program) (r : Reader)

/-- Bytes have been read from the socket. -/
def receive (available : List Byte) : Reader := { r with replyBuf := r.replyBuf ++ available }

/-- `replyBuf = replyBuf.slice(n)`, and the port has become `c`. -/
def slice (n : ℕ) (c : Client) : Reader := ⟨r.replyBuf.drop n, c⟩

/-- One iteration of the loop. -/
def pass : Pass :=
  match r.replyBuf with
  | [] => .wait
  | byte :: _ =>
    if byte = replyAsyncUartRx then
      match r.replyBuf[1]? with
      | none => .wait
      | some rxNum =>
        if 2 + rxNum.toNat ≤ r.replyBuf.length then
          let rxData := (r.replyBuf.drop 2).take rxNum.toNat
          .again (r.slice (2 + rxNum.toNat)
            (if r.client.uart then r.client.tell program (.uart rxData) else r.client))
        else .wait
    else if 0xA0 ≤ byte.toNat then .again (r.slice 1 (r.client.async program byte))
    else
      match r.client.replyQueue with
      | [] => .throw (unexpectedResponse byte)
      | queued :: _ =>
        if byte = replyData then
          if queued.size = 0 then .throw "Received unexpected data packet"
          else if 1 + queued.size ≤ r.replyBuf.length then
            let data := (r.replyBuf.drop 1).take queued.size
            .again (r.slice (1 + queued.size) (r.client.answer program (.data data)))
          else .wait
        else if byte = replyHigh ∨ byte = replyLow then
          .again (r.slice 1 (r.client.answer program (.byte byte)))
        -- any other byte stays where it is
        else .again r

/-- The loop with at most `n` iterations. -/
def loop (n : ℕ) (r : Reader) : Option Ending :=
  if r.replyBuf = [] then some (.returned r)
  else
    match n with
    | 0 => none
    | n + 1 =>
      match r.pass program with
      | .again r' => loop n r'
      | .wait => some (.returned r)
      | .throw error => some (.threw r error)

/-- The handler is called for one read of the socket after the other, until it throws. -/
def feed (n : ℕ) (r : Reader) : List (List Byte) → Option Ending
  | [] => some (.returned r)
  | available :: reads =>
    match (r.receive available).loop program n with
    | some (.returned r') => feed n r' reads
    | o => o

/-- The loop ends. -/
def Ends (r : Reader) (o : Ending) : Prop := ∃ n, r.loop program n = some o

/-- Every call of the handler ends. -/
def FeedEnds (r : Reader) (reads : List (List Byte)) (o : Ending) : Prop :=
  ∃ n, r.feed program n reads = some o

end Reader

/-- The program has been told the same, and what is left is the same unless the handler has
thrown. -/
def Ending.Agrees : Ending → Ending → Prop
  | .returned r, .returned r' => r = r'
  | .threw r e, .threw r' e' => r.client = r'.client ∧ e = e'
  | _, _ => False

/-! ### Messages -/

/-- A message of the coprocessor. -/
inductive Message
  | uart (rxData : List Byte)
  /-- A pin change, or another asynchronous event. -/
  | async (byte : Byte)
  | data (bytes : List Byte)
  | level (byte : Byte)
  deriving DecidableEq, Repr

namespace Message

variable (program : Program)

def bytes : Message → List Byte
  | uart rxData => replyAsyncUartRx :: BitVec.ofNat 8 rxData.length :: rxData
  | async byte => [byte]
  | data bytes => replyData :: bytes
  | level byte => [byte]

/-- The handler takes the message when the commands in the queue wait for their replies. -/
def Fits (queue : List Reply) : Message → Prop
  | uart rxData => rxData.length < 256
  | async byte => 0xA0 ≤ byte.toNat ∧ byte ≠ replyAsyncUartRx
  | data bytes => bytes ≠ [] ∧ queue.head?.map Reply.size = some bytes.length
  | level byte => (byte = replyHigh ∨ byte = replyLow) ∧ queue ≠ []

/-- What the port does with the message. -/
def handle (c : Client) : Message → Client
  | uart rxData => if c.uart then c.tell program (.uart rxData) else c
  | async byte => c.async program byte
  | data bytes => c.answer program (.data bytes)
  | level byte => c.answer program (.byte byte)

def handleAll (c : Client) (ms : List Message) : Client := ms.foldl (handle program) c

/-- Each message fits when the ones before it have been handled. -/
def AllFit : Client → List Message → Prop
  | _, [] => True
  | c, m :: ms => m.Fits c.replyQueue ∧ AllFit (m.handle program c) ms

end Message

/-- The handler has no branch for this byte. -/
def undispatched (byte : Byte) : Bool :=
  byte.toNat < 0xA0 && byte != replyData && byte != replyHigh && byte != replyLow

namespace Reader

variable {program : Program} {r r' : Reader} {c : Client} {rest : List Byte} {m : Message}

/-! ### One iteration -/

/-- A marker of received bytes. -/
theorem pass_uart (bs : List Byte) :
    pass program ⟨replyAsyncUartRx :: bs, c⟩ =
      match bs with
      | [] => .wait
      | rxNum :: bs =>
        if rxNum.toNat ≤ bs.length then
          .again ⟨bs.drop rxNum.toNat, Message.handle program c (.uart (bs.take rxNum.toNat))⟩
        else .wait := by
  cases bs with
  | nil => rfl
  | cons rxNum bs =>
    have hlen : 2 + rxNum.toNat ≤ (replyAsyncUartRx :: rxNum :: bs).length ↔
        rxNum.toNat ≤ bs.length := by
      simp only [List.length_cons]
      omega
    have hdrop : (replyAsyncUartRx :: rxNum :: bs).drop (2 + rxNum.toNat) =
        bs.drop rxNum.toNat := by
      rw [Nat.add_comm]
      rfl
    show ite (2 + rxNum.toNat ≤ (replyAsyncUartRx :: rxNum :: bs).length)
      (Pass.again ⟨(replyAsyncUartRx :: rxNum :: bs).drop (2 + rxNum.toNat), _⟩) Pass.wait = _
    rw [hdrop]
    exact if_congr hlen rfl rfl

/-- Another asynchronous byte. -/
theorem pass_async {byte : Byte} (h : 0xA0 ≤ byte.toNat) (hne : byte ≠ replyAsyncUartRx)
    (bs : List Byte) :
    pass program ⟨byte :: bs, c⟩ = .again ⟨bs, Message.handle program c (.async byte)⟩ := by
  unfold pass
  dsimp only
  rw [if_neg hne, if_pos h]
  rfl

/-- A byte that can be a reply. -/
theorem pass_reply {byte : Byte} (h : byte.toNat < 0xA0) (bs : List Byte) :
    pass program ⟨byte :: bs, c⟩ =
      match c.replyQueue with
      | [] => .throw (unexpectedResponse byte)
      | queued :: _ =>
        if byte = replyData then
          if queued.size = 0 then .throw "Received unexpected data packet"
          else if queued.size ≤ bs.length then
            .again ⟨bs.drop queued.size, Message.handle program c (.data (bs.take queued.size))⟩
          else .wait
        else if byte = replyHigh ∨ byte = replyLow then
          .again ⟨bs, Message.handle program c (.level byte)⟩
        else .again ⟨byte :: bs, c⟩ := by
  have hne : byte ≠ replyAsyncUartRx := by
    rintro rfl
    exact absurd h (by decide)
  unfold pass
  dsimp only
  rw [if_neg hne, if_neg (by omega)]
  cases hq : c.replyQueue with
  | nil => rfl
  | cons queued queue =>
    have hlen : 1 + queued.size ≤ (byte :: bs).length ↔ queued.size ≤ bs.length := by
      rw [List.length_cons]
      omega
    have hdrop : (byte :: bs).drop (1 + queued.size) = bs.drop queued.size := by
      rw [Nat.add_comm]
      rfl
    simp only [slice, hlen, hdrop, List.drop_succ_cons, List.drop_zero, Message.handle]

/-- **A message at the front** is taken. -/
theorem pass_message (h : m.Fits c.replyQueue) (rest : List Byte) :
    pass program ⟨m.bytes ++ rest, c⟩ = .again ⟨rest, m.handle program c⟩ := by
  cases m with
  | uart rxData =>
    have hnum : (BitVec.ofNat 8 rxData.length).toNat = rxData.length := by
      rw [BitVec.toNat_ofNat]
      exact Nat.mod_eq_of_lt h
    refine (pass_uart (BitVec.ofNat 8 rxData.length :: (rxData ++ rest))).trans ?_
    dsimp only
    rw [hnum, if_pos (by simp), List.drop_left, List.take_left]
  | async byte => exact pass_async h.1 h.2 rest
  | data bytes =>
    obtain ⟨hne, hsize⟩ := h
    have hdata : replyData.toNat < 0xA0 := by decide
    refine (pass_reply hdata (bytes ++ rest)).trans ?_
    obtain ⟨queued, hq, hlen⟩ := Option.map_eq_some_iff.1 hsize
    obtain ⟨queue, hqueue⟩ := List.head?_eq_some_iff.1 hq
    have hpos : queued.size ≠ 0 := by
      rw [hlen]
      exact fun h0 => hne (List.length_eq_zero_iff.1 h0)
    rw [hqueue]
    dsimp only
    rw [if_pos rfl, if_neg hpos, hlen, if_pos (by simp), List.drop_left, List.take_left]
  | level byte =>
    obtain ⟨hbyte, hne⟩ := h
    have hlt : byte.toNat < 0xA0 := by
      rcases hbyte with rfl | rfl
      · decide
      · decide
    have hdata : byte ≠ replyData := by
      rcases hbyte with rfl | rfl
      · decide
      · decide
    refine (pass_reply hlt rest).trans ?_
    obtain ⟨queued, queue, hq⟩ := List.exists_cons_of_ne_nil hne
    rw [hq]
    dsimp only
    rw [if_neg hdata, if_pos hbyte]

/-- The first byte is one that the handler does not dispatch, and a command waits. -/
def Stuck (r : Reader) : Prop :=
  ∃ byte rest, r.replyBuf = byte :: rest ∧ undispatched byte ∧ r.client.replyQueue ≠ []

/-- An iteration ends by waiting or throwing, whatever comes after the bytes that have been
received in the second case. -/
inductive Leaves (program : Program) (r : Reader) : Prop
  | wait (h : r.pass program = .wait)
  | throw (error : String) (h : ∀ bs, (r.receive bs).pass program = .throw error)

/-- **What an iteration does.** -/
theorem pass_cases (program : Program) (r : Reader) :
    (∃ (m : Message) (rest : List Byte),
      m.Fits r.client.replyQueue ∧ r.replyBuf = m.bytes ++ rest) ∨ r.Stuck ∨
      r.Leaves program := by
  obtain ⟨buf, c⟩ := r
  rcases buf with _ | ⟨byte, bs⟩
  · exact .inr (.inr (.wait rfl))
  by_cases huart : byte = replyAsyncUartRx
  · subst huart
    cases bs with
    | nil => exact .inr (.inr (.wait rfl))
    | cons rxNum bs =>
      by_cases hlen : rxNum.toNat ≤ bs.length
      · refine .inl ⟨.uart (bs.take rxNum.toNat), bs.drop rxNum.toNat, ?_, ?_⟩
        · show (bs.take rxNum.toNat).length < 256
          rw [List.length_take_of_le hlen]
          exact rxNum.isLt
        · show _ = replyAsyncUartRx :: BitVec.ofNat 8 (bs.take rxNum.toNat).length ::
            (bs.take rxNum.toNat ++ bs.drop rxNum.toNat)
          rw [List.length_take_of_le hlen, BitVec.ofNat_toNat, BitVec.setWidth_eq,
            List.take_append_drop]
      · refine .inr (.inr (.wait ?_))
        rw [pass_uart]
        exact if_neg hlen
  -- asynchronous events need no request
  by_cases hasync : 0xA0 ≤ byte.toNat
  · exact .inl ⟨.async byte, bs, ⟨hasync, huart⟩, rfl⟩
  have hlt : byte.toNat < 0xA0 := by omega
  -- from here on the byte belongs to the oldest request
  cases hq : c.replyQueue with
  | nil =>
    refine .inr (.inr (.throw (unexpectedResponse byte) fun bs' => ?_))
    refine (pass_reply hlt (bs ++ bs')).trans ?_
    rw [hq]
  | cons queued queue =>
    have hne : c.replyQueue ≠ [] := by
      rw [hq]
      exact List.cons_ne_nil queued queue
    by_cases hdata : byte = replyData
    · subst hdata
      by_cases hsize : queued.size = 0
      · refine .inr (.inr (.throw "Received unexpected data packet" fun bs' => ?_))
        refine (pass_reply hlt (bs ++ bs')).trans ?_
        rw [hq]
        dsimp only
        rw [if_pos rfl, if_pos hsize]
      · by_cases hlen : queued.size ≤ bs.length
        · refine .inl ⟨.data (bs.take queued.size), bs.drop queued.size, ⟨?_, ?_⟩, ?_⟩
          · rw [← List.length_pos_iff, List.length_take_of_le hlen]
            omega
          · show some queued.size = some (bs.take queued.size).length
            rw [List.length_take_of_le hlen]
          · show _ = replyData :: bs.take queued.size ++ _
            rw [List.cons_append, List.take_append_drop]
        · refine .inr (.inr (.wait ?_))
          rw [pass_reply hlt, hq]
          dsimp only
          rw [if_pos rfl, if_neg hsize, if_neg hlen]
    · by_cases hlevel : byte = replyHigh ∨ byte = replyLow
      · exact .inl ⟨.level byte, bs, ⟨hlevel, List.cons_ne_nil queued queue⟩, rfl⟩
      · obtain ⟨hhigh, hlow⟩ := not_or.1 hlevel
        -- no branch of the handler takes the byte, so the loop goes round with the same buffer
        refine .inr (.inl ⟨byte, bs, rfl, ?_, hne⟩)
        simp [undispatched, hlt, hdata, hhigh, hlow]

theorem pass_stuck (h : r.Stuck) : r.pass program = .again r := by
  obtain ⟨buf, c⟩ := r
  obtain ⟨byte, rest, rfl, hbyte, hne⟩ := h
  obtain ⟨queued, queue, hq⟩ := List.exists_cons_of_ne_nil hne
  simp only [undispatched, Bool.and_eq_true, decide_eq_true_eq, bne_iff_ne, ne_eq] at hbyte
  obtain ⟨⟨⟨hlt, hdata⟩, hhigh⟩, hlow⟩ := hbyte
  rw [pass_reply hlt, hq]
  dsimp only
  rw [if_neg hdata, if_neg (not_or.2 ⟨hhigh, hlow⟩)]

theorem receive_nil (r : Reader) : r.receive [] = r := by
  rw [receive, List.append_nil]

theorem receive_receive (r : Reader) (bs bs' : List Byte) :
    (r.receive bs).receive bs' = r.receive (bs ++ bs') := by
  rw [receive, receive, receive, List.append_assoc]

/-- **More bytes do not change an iteration.** -/
theorem pass_receive (h : r.pass program = .again r') (bs : List Byte) :
    (r.receive bs).pass program = .again (r'.receive bs) := by
  obtain ⟨m, rest, hfit, hbuf⟩ | hstuck | hleaves := pass_cases program r
  · obtain ⟨buf, c⟩ := r
    obtain rfl : buf = m.bytes ++ rest := hbuf
    obtain rfl := Pass.again.inj ((pass_message hfit rest).symm.trans h)
    show pass program ⟨m.bytes ++ rest ++ bs, c⟩ = _
    rw [List.append_assoc]
    exact pass_message hfit (rest ++ bs)
  · obtain rfl := Pass.again.inj ((pass_stuck hstuck).symm.trans h)
    obtain ⟨byte, rest, hbuf, hbyte, hne⟩ := hstuck
    refine pass_stuck ⟨byte, rest ++ bs, ?_, hbyte, hne⟩
    rw [receive, hbuf]
    rfl
  · cases hleaves with
    | wait hwait =>
      rw [hwait] at h
      cases h
    | throw error hthrow =>
      have hnil := hthrow []
      rw [receive_nil, h] at hnil
      cases hnil

theorem throw_receive {error : String} (h : r.pass program = .throw error) (bs : List Byte) :
    (r.receive bs).pass program = .throw error := by
  obtain ⟨m, rest, hfit, hbuf⟩ | hstuck | hleaves := pass_cases program r
  · obtain ⟨buf, c⟩ := r
    obtain rfl : buf = m.bytes ++ rest := hbuf
    cases (pass_message hfit rest).symm.trans h
  · cases (pass_stuck hstuck).symm.trans h
  · cases hleaves with
    | wait hwait => cases hwait.symm.trans h
    | throw error' hthrow =>
      have hnil := hthrow []
      rw [receive_nil, h] at hnil
      rw [hthrow bs, ← hnil]

/-! ### The loop -/

variable {o o' : Ending} {bs : List Byte}

theorem replyBuf_ne_nil (h : r.pass program ≠ .wait) : r.replyBuf ≠ [] := by
  intro hnil
  obtain ⟨buf, c⟩ := r
  obtain rfl : buf = [] := hnil
  exact h rfl

theorem loop_mono {n m : ℕ} (hle : n ≤ m) (h : r.loop program n = some o) :
    r.loop program m = some o := by
  induction n generalizing r m with
  | zero =>
    unfold loop at h ⊢
    split_ifs at h ⊢
    exact h
  | succ n ih =>
    obtain ⟨m, rfl⟩ := Nat.exists_eq_add_of_le' (Nat.lt_of_lt_of_le n.succ_pos hle)
    unfold loop at h ⊢
    split_ifs at h ⊢
    · exact h
    · dsimp only at h ⊢
      cases hp : r.pass program with
      | again r' =>
        rw [hp] at h
        exact ih (Nat.le_of_succ_le_succ hle) h
      | wait =>
        rw [hp] at h
        exact h
      | throw error =>
        rw [hp] at h
        exact h

theorem Ends.unique (h : Ends program r o) (h' : Ends program r o') : o = o' := by
  obtain ⟨n, hn⟩ := h
  obtain ⟨m, hm⟩ := h'
  have hmax := loop_mono (Nat.le_max_left n m) hn
  have hmax' := loop_mono (Nat.le_max_right n m) hm
  exact Option.some.inj (hmax.symm.trans hmax')

/-- An iteration that goes on. -/
theorem ends_again (h : r.pass program = .again r') : Ends program r o ↔ Ends program r' o := by
  have hne : r.replyBuf ≠ [] := replyBuf_ne_nil (by rw [h]; exact Pass.noConfusion)
  constructor
  · rintro ⟨n, hn⟩
    cases n with
    | zero =>
      rw [loop, if_neg hne] at hn
      cases hn
    | succ n =>
      rw [loop, if_neg hne, h] at hn
      exact ⟨n, hn⟩
  · rintro ⟨n, hn⟩
    refine ⟨n + 1, ?_⟩
    rw [loop, if_neg hne, h]
    exact hn

theorem ends_wait (h : r.pass program = .wait) : Ends program r (.returned r) := by
  refine ⟨1, ?_⟩
  unfold loop
  split_ifs
  · rfl
  · dsimp only
    rw [h]

theorem ends_throw {error : String} (h : r.pass program = .throw error) :
    Ends program r (.threw r error) := by
  refine ⟨1, ?_⟩
  rw [loop, if_neg (replyBuf_ne_nil (by rw [h]; exact Pass.noConfusion)), h]

/-- What the handler does with the bytes that it has it does before it needs others. -/
theorem ends_receive (h : Ends program r (.returned r')) (bs : List Byte) :
    Ends program (r.receive bs) o ↔ Ends program (r'.receive bs) o := by
  obtain ⟨n, hn⟩ := h
  induction n generalizing r with
  | zero =>
    unfold loop at hn
    split_ifs at hn
    cases hn
    rfl
  | succ n ih =>
    unfold loop at hn
    split_ifs at hn
    · cases hn
      rfl
    · dsimp only at hn
      cases hp : r.pass program with
      | again r₁ =>
        rw [hp] at hn
        exact (ends_again (pass_receive hp bs)).trans (ih hn)
      | wait =>
        rw [hp] at hn
        cases hn
        rfl
      | throw error =>
        rw [hp] at hn
        cases hn

theorem ends_self (h : Ends program r (.returned r')) : Ends program r' (.returned r') := by
  have hself := (ends_receive (o := .returned r') h []).1
  rw [receive_nil, receive_nil] at hself
  exact hself h

/-- An error is thrown before more bytes are looked at. -/
theorem threw_receive {error : String} (h : Ends program r (.threw r' error)) (bs : List Byte) :
    Ends program (r.receive bs) (.threw (r'.receive bs) error) := by
  obtain ⟨n, hn⟩ := h
  induction n generalizing r with
  | zero =>
    unfold loop at hn
    split_ifs at hn
    cases hn
  | succ n ih =>
    unfold loop at hn
    split_ifs at hn
    · cases hn
    · dsimp only at hn
      cases hp : r.pass program with
      | again r₁ =>
        rw [hp] at hn
        exact (ends_again (pass_receive hp bs)).2 (ih hn)
      | wait =>
        rw [hp] at hn
        cases hn
      | throw error' =>
        rw [hp] at hn
        cases hn
        exact ends_throw (throw_receive hp bs)

/-- A loop that ends has ended for the bytes that came first. -/
theorem exists_ends (h : Ends program (r.receive bs) o) : ∃ o', Ends program r o' := by
  obtain ⟨n, hn⟩ := h
  induction n generalizing r with
  | zero =>
    unfold loop at hn
    split_ifs at hn with hnil
    exact ⟨_, 0, if_pos (List.append_eq_nil_iff.1 hnil).1⟩
  | succ n ih =>
    cases hp : r.pass program with
    | again r₁ =>
      have hp' := pass_receive hp bs
      unfold loop at hn
      rw [if_neg (replyBuf_ne_nil (by rw [hp']; exact Pass.noConfusion))] at hn
      dsimp only at hn
      rw [hp'] at hn
      obtain ⟨o', ho'⟩ := ih hn
      exact ⟨o', (ends_again hp).2 ho'⟩
    | wait => exact ⟨_, ends_wait hp⟩
    | throw error => exact ⟨_, ends_throw hp⟩

/-! ### Reads of the stream -/

variable {reads reads' : List (List Byte)}

theorem feed_mono {n m : ℕ} (hle : n ≤ m) (h : r.feed program n reads = some o) :
    r.feed program m reads = some o := by
  induction reads generalizing r with
  | nil => exact h
  | cons available reads ih =>
    unfold feed at h ⊢
    cases hl : (r.receive available).loop program n with
    | none =>
      rw [hl] at h
      cases h
    | some o₁ =>
      rw [hl] at h
      rw [loop_mono hle hl]
      cases o₁ with
      | returned r₁ => exact ih h
      | threw r₁ error => exact h

/-- The handler has returned from a read. -/
theorem feedEnds_returned {available : List Byte}
    (h : Ends program (r.receive available) (.returned r')) :
    FeedEnds program r (available :: reads) o ↔ FeedEnds program r' reads o := by
  constructor
  · rintro ⟨n, hn⟩
    unfold feed at hn
    cases hl : (r.receive available).loop program n with
    | none =>
      rw [hl] at hn
      cases hn
    | some o₁ =>
      obtain rfl : o₁ = .returned r' := Ends.unique ⟨n, hl⟩ h
      rw [hl] at hn
      exact ⟨n, hn⟩
  · rintro ⟨n, hn⟩
    obtain ⟨k, hk⟩ := h
    refine ⟨max k n, ?_⟩
    rw [feed, loop_mono (Nat.le_max_left k n) hk]
    exact feed_mono (Nat.le_max_right k n) hn

theorem feedEnds_threw {available : List Byte} {error : String}
    (h : Ends program (r.receive available) (.threw r' error)) :
    FeedEnds program r (available :: reads) o ↔ o = .threw r' error := by
  constructor
  · rintro ⟨n, hn⟩
    unfold feed at hn
    cases hl : (r.receive available).loop program n with
    | none =>
      rw [hl] at hn
      cases hn
    | some o₁ =>
      obtain rfl : o₁ = .threw r' error := Ends.unique ⟨n, hl⟩ h
      rw [hl] at hn
      exact (Option.some.inj hn).symm
  · rintro rfl
    obtain ⟨k, hk⟩ := h
    refine ⟨k, ?_⟩
    rw [feed, hk]

/-- A read ends if the handler ends for all of the stream. -/
theorem exists_feedEnds (hself : Ends program r (.returned r))
    (h : Ends program (r.receive reads.flatten) o) : ∃ o', FeedEnds program r reads o' := by
  induction reads generalizing r with
  | nil => exact ⟨.returned r, 0, rfl⟩
  | cons available reads ih =>
    rw [List.flatten_cons, ← receive_receive] at h
    obtain ⟨o₁, ho₁⟩ := exists_ends h
    cases o₁ with
    | returned r₁ =>
      obtain ⟨o', ho'⟩ := ih (ends_self ho₁) ((ends_receive ho₁ _).1 h)
      exact ⟨o', (feedEnds_returned ho₁).2 ho'⟩
    | threw r₁ error => exact ⟨_, (feedEnds_threw ho₁).2 rfl⟩

/-- **Reads and the stream.**  The handler, called for each read, ends as it would for all of the
stream at once. -/
theorem ends_of_feedEnds (hself : Ends program r (.returned r))
    (h : FeedEnds program r reads o) :
    ∃ o', Ends program (r.receive reads.flatten) o' ∧ o.Agrees o' := by
  induction reads generalizing r with
  | nil =>
    obtain ⟨n, hn⟩ := h
    cases hn
    refine ⟨.returned r, ?_, rfl⟩
    rw [List.flatten_nil, receive_nil]
    exact hself
  | cons available reads ih =>
    rw [List.flatten_cons, ← receive_receive]
    obtain ⟨o₁, ho₁⟩ : ∃ o₁, Ends program (r.receive available) o₁ := by
      obtain ⟨n, hn⟩ := h
      unfold feed at hn
      cases hl : (r.receive available).loop program n with
      | none =>
        rw [hl] at hn
        cases hn
      | some o₁ => exact ⟨o₁, n, hl⟩
    cases o₁ with
    | returned r₁ =>
      obtain ⟨o', ho', hagrees⟩ := ih (ends_self ho₁) ((feedEnds_returned ho₁).1 h)
      exact ⟨o', (ends_receive ho₁ _).2 ho', hagrees⟩
    | threw r₁ error =>
      obtain rfl := (feedEnds_threw ho₁).1 h
      exact ⟨_, threw_receive ho₁ _, rfl, rfl⟩

theorem ends_nil (program : Program) (client : Client) :
    Ends program ⟨[], client⟩ (.returned ⟨[], client⟩) := ⟨0, rfl⟩

end Reader

theorem Ending.Agrees.trans_symm {o o' w : Ending} (h : o.Agrees w) (h' : o'.Agrees w) :
    o.Agrees o' := by
  cases w with
  | returned r =>
    cases o with
    | returned r₁ =>
      cases o' with
      | returned r₂ => exact Eq.trans h (Eq.symm h')
      | threw r₂ e₂ => exact h'.elim
    | threw r₁ e₁ => exact h.elim
  | threw r e =>
    cases o with
    | returned r₁ => exact h.elim
    | threw r₁ e₁ =>
      cases o' with
      | returned r₂ => exact h'.elim
      | threw r₂ e₂ => exact ⟨h.1.trans h'.1.symm, h.2.trans h'.2.symm⟩

namespace Reader

variable {program : Program} {r r' : Reader} {reads reads' : List (List Byte)} {o : Ending}

/-- **The reads do not matter.**  If the handler ends for one partition of a stream into reads, with
any commands in the queue and whatever the program does, then it ends for every other one, and it
tells the program the same.  Either it throws the same error, or it returns with the same bytes
left. -/
theorem feedEnds_flatten (client : Client) (hflat : reads.flatten = reads'.flatten)
    (h : FeedEnds program ⟨[], client⟩ reads o) :
    (∃ o', FeedEnds program ⟨[], client⟩ reads' o') ∧
      ∀ o', FeedEnds program ⟨[], client⟩ reads' o' → o.Agrees o' := by
  have hnil := ends_nil program client
  obtain ⟨w, hw, hagrees⟩ := ends_of_feedEnds hnil h
  rw [hflat] at hw
  refine ⟨exists_feedEnds hnil hw, fun o' ho' => ?_⟩
  obtain ⟨w', hw', hagrees'⟩ := ends_of_feedEnds hnil ho'
  rw [Ends.unique hw' hw] at hagrees'
  exact hagrees.trans_symm hagrees'

/-- A port with a UART on which a command for two bytes and a command for a level wait. -/
def twoReplies : Client where
  replyQueue := [⟨2, some 0⟩, ⟨0, some 1⟩]
  pending := 3
  uart := true
  pins := fun pin => .init pin
  told := []

/-- Two bytes of data, two bytes from the UART and a level, cut everywhere and not at all. -/
theorem feedEnds_twoReplies :
    ∃ o', FeedEnds (fun _ c => c) ⟨[], twoReplies⟩
      [[0x84#8], [1#8], [], [2#8, 0xD0#8], [2#8], [3#8], [4#8], [0x82#8]] o' := by
  have h : FeedEnds (fun _ c => c) ⟨[], twoReplies⟩
      [[0x84#8, 1#8, 2#8, 0xD0#8, 2#8, 3#8, 4#8, 0x82#8]] _ := ⟨3, rfl⟩
  have hflat : [[0x84#8, 1#8, 2#8, 0xD0#8, 2#8, 3#8, 4#8, 0x82#8]].flatten =
      [[0x84#8], [1#8], [], [2#8, 0xD0#8], [2#8], [3#8], [4#8], [0x82#8]].flatten := rfl
  exact (feedEnds_flatten twoReplies hflat h).1

/-! ### Termination -/

/-- One iteration after the other. -/
def Continues (program : Program) (r r' : Reader) : Prop := r.pass program = .again r'

/-- Every iteration takes at least a byte unless it waits or throws, and the handler ends in at most
`replyBuf.length` iterations. -/
structure Terminates (program : Program) (r : Reader) : Prop where
  takes : ∀ r' r'', Relation.ReflTransGen (Continues program) r r' →
    r'.pass program = .again r'' → r''.replyBuf.length < r'.replyBuf.length
  ends : (r.loop program r.replyBuf.length).isSome

/-- No command waits when, after some messages, there is a byte that is not dispatched. -/
def Dispatches (program : Program) (r : Reader) : Prop :=
  ∀ ms byte rest, r.replyBuf = ms.flatMap Message.bytes ++ byte :: rest →
    Message.AllFit program r.client ms → undispatched byte →
      (Message.handleAll program r.client ms).replyQueue = []

theorem bytes_length_pos (m : Message) : 0 < m.bytes.length := by
  cases m <;> exact Nat.succ_pos _

theorem Dispatches.not_stuck (h : r.Dispatches program) : ¬ r.Stuck := by
  rintro ⟨byte, rest, hbuf, hbyte, hne⟩
  exact hne (h [] byte rest hbuf trivial hbyte)

theorem Dispatches.message {m : Message} {rest : List Byte} {c : Client}
    (h : Dispatches program ⟨m.bytes ++ rest, c⟩) (hfit : m.Fits c.replyQueue) :
    Dispatches program ⟨rest, m.handle program c⟩ := by
  intro ms byte rest' hbuf hall hbyte
  refine h (m :: ms) byte rest' ?_ ⟨hfit, hall⟩ hbyte
  obtain rfl : rest = ms.flatMap Message.bytes ++ byte :: rest' := hbuf
  rw [List.flatMap_cons, List.append_assoc]

/-- An iteration without an undispatched byte. -/
theorem Dispatches.continues (h : r.Dispatches program) (hpass : r.pass program = .again r') :
    r'.Dispatches program ∧ r'.replyBuf.length < r.replyBuf.length := by
  obtain ⟨m, rest, hfit, hbuf⟩ | hstuck | hleaves := pass_cases program r
  · obtain ⟨buf, c⟩ := r
    obtain rfl : buf = m.bytes ++ rest := hbuf
    obtain rfl := Pass.again.inj ((pass_message hfit rest).symm.trans hpass)
    refine ⟨h.message hfit, ?_⟩
    show rest.length < (m.bytes ++ rest).length
    have hpos := bytes_length_pos m
    rw [List.length_append]
    omega
  · exact absurd hstuck h.not_stuck
  · cases hleaves with
    | wait hwait => cases hwait.symm.trans hpass
    | throw error hthrow =>
      have hnil := hthrow []
      rw [receive_nil, hpass] at hnil
      cases hnil

theorem Dispatches.reaches (h : r.Dispatches program)
    (hreach : Relation.ReflTransGen (Continues program) r r') : r'.Dispatches program := by
  induction hreach with
  | refl => exact h
  | tail _ hstep ih => exact (ih.continues hstep).1

theorem Dispatches.loop_isSome (h : r.Dispatches program) {n : ℕ} (hn : r.replyBuf.length ≤ n) :
    (r.loop program n).isSome := by
  induction n generalizing r with
  | zero =>
    have hnil : r.replyBuf = [] := List.length_eq_zero_iff.1 (Nat.le_zero.1 hn)
    rw [loop, if_pos hnil]
    rfl
  | succ n ih =>
    rw [loop]
    split_ifs
    · rfl
    · cases hp : r.pass program with
      | again r' =>
        obtain ⟨hdisp, hlt⟩ := h.continues hp
        exact ih hdisp (by omega)
      | wait => rfl
      | throw error => rfl

/-- With a byte that is not dispatched at the front, the loop goes on forever. -/
theorem loop_stuck (h : r.Stuck) (n : ℕ) : r.loop program n = none := by
  have hne : r.replyBuf ≠ [] := by
    obtain ⟨byte, rest, hbuf, -, -⟩ := h
    rw [hbuf]
    exact List.cons_ne_nil byte rest
  induction n with
  | zero => rw [loop, if_neg hne]
  | succ n ih =>
    rw [loop, if_neg hne, pass_stuck h]
    exact ih

theorem stuck_of_messages {ms : List Message} {byte : Byte} {rest : List Byte} {c : Client}
    (hall : Message.AllFit program c ms) (hbyte : undispatched byte)
    (hne : (Message.handleAll program c ms).replyQueue ≠ []) (n : ℕ) :
    loop program n ⟨ms.flatMap Message.bytes ++ byte :: rest, c⟩ = none := by
  induction ms generalizing c n with
  | nil => exact loop_stuck ⟨byte, rest, rfl, hbyte, hne⟩ n
  | cons m ms ih =>
    have hpass : pass program ⟨m.bytes ++ (ms.flatMap Message.bytes ++ byte :: rest), c⟩ =
        .again ⟨ms.flatMap Message.bytes ++ byte :: rest, m.handle program c⟩ :=
      pass_message hall.1 _
    rw [← List.append_assoc, ← List.flatMap_cons] at hpass
    have hbuf : (m :: ms).flatMap Message.bytes ++ byte :: rest ≠ [] :=
      replyBuf_ne_nil (by rw [hpass]; exact Pass.noConfusion)
    cases n with
    | zero => rw [loop, if_neg hbuf]
    | succ n =>
      rw [loop, if_neg hbuf, hpass]
      exact ih hall.2 hne n

/-- **Termination of the reply parser.**  For every content of `replyBuf`, every queue and whatever
the program does, every iteration takes a byte unless it is the last one, and there are at most
`replyBuf.length` of them, exactly if no command waits when a byte that is not dispatched comes to
the front. -/
theorem terminates_iff (program : Program) (r : Reader) :
    r.Terminates program ↔ r.Dispatches program := by
  constructor
  · intro h ms byte rest hbuf hall hbyte
    by_contra hne
    obtain ⟨buf, c⟩ := r
    obtain rfl : buf = ms.flatMap Message.bytes ++ byte :: rest := hbuf
    have hends := h.ends
    rw [stuck_of_messages hall hbyte hne] at hends
    cases hends
  · intro h
    refine ⟨fun r' r'' hreach hpass => ?_, h.loop_isSome le_rfl⟩
    exact ((h.reaches hreach).continues hpass).2

/-- The handler never returns from an `ACK` for which a command waits. -/
theorem not_terminates_ack : ¬ ∀ (program : Program) (r : Reader), r.Terminates program := by
  intro hall
  have h := (hall (fun _ c => c) ⟨[0x80#8], twoReplies⟩).ends
  exact absurd h (by decide +kernel)

end Reader

end Node

end TesselFirmware
