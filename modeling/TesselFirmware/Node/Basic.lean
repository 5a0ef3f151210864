import Mathlib.Data.Rat.Floor
import TesselFirmware.Memory.Byte

/-!
# Ports and pins as node sees them (`node/tessel-export.js`)

A method of `Port`, `Pin` or one of the peripheral classes is the list of what it does to the
socket and the reply queue of its port, in order (`Method`); its control flow depends on its
arguments only.  `Sock` is the socket: what is written while it is corked stays in node until the
last `uncork`, and a method that throws leaves out the `uncork` that would have followed.

Numbers are rationals.  The result of an operation whose exact value may not be a double is passed
through a `Rounding`, of which only what the rounding modes have in common is used.

* `Sends m bs rs` : the method `m` writes `bytes` and enqueues `rs`, and returns;
* `sends_command`, `sends_tx`, `sends_rx`, `sends_txrx` : what the methods of `Port` send.
-/

namespace TesselFirmware

namespace Node

/-! ### Numbers -/

/-- Rounding to a double.  A number with sixteen binary digits after the point is a double. -/
structure Rounding where
  round : ℚ → ℚ
  mono : Monotone round
  exact : ∀ n : ℤ, -9007199254740992 ≤ n → n ≤ 9007199254740992 → round (n / 65536) = n / 65536

namespace Rounding

/-- No rounding. -/
def ideal : Rounding := ⟨id, monotone_id, fun _ _ _ => rfl⟩

theorem round_int (fl : Rounding) {n : ℤ} (h : -137438953472 ≤ n) (h' : n ≤ 137438953472) :
    fl.round n = n := by
  have := fl.exact (n * 65536) (by omega) (by omega)
  push_cast at this
  rwa [mul_div_assoc, div_self (by norm_num), mul_one] at this

end Rounding

/-- The integer that a shift or a mask works with. -/
def toInteger (x : ℚ) : ℤ := if 0 ≤ x then ⌊x⌋ else ⌈x⌉

/-- `undefined`, as an element of an array that becomes a `Buffer`. -/
def undefined : ℤ := 0

/-- `new Buffer(data)`. -/
def newBuffer (data : List ℤ) : List Byte := data.map (BitVec.ofInt 8)

/-! ### Commands and replies -/

namespace Cmd

def echo : ℤ := 2
def gpioIn : ℤ := 3
def gpioHigh : ℤ := 4
def gpioLow : ℤ := 5
def gpioInt : ℤ := 8
def enableSpi : ℤ := 10
def enableI2c : ℤ := 12
def enableUart : ℤ := 14
def disableUart : ℤ := 15
def tx : ℤ := 16
def rx : ℤ := 17
def txrx : ℤ := 18
def start : ℤ := 19
def stop : ℤ := 20
def gpioRawRead : ℤ := 23
def analogRead : ℤ := 24
def analogWrite : ℤ := 25
def gpioPull : ℤ := 26
def pwmDutyCycle : ℤ := 27
def pwmPeriod : ℤ := 28

/-- `CMD` has no property of this name. -/
def cmdDisableSpi : ℤ := undefined

end Cmd

/-- A callback of the program. -/
abbrev Callback := ℕ

/-- An entry of `replyQueue`. -/
structure Reply where
  size : ℕ
  callback : Option Callback
  deriving DecidableEq, Repr

/-- What a method does to the socket and the reply queue of its port. -/
inductive SockOp
  | cork
  | uncork
  | write (bytes : List Byte)
  | enqueue (reply : Reply)
  | throw
  deriving DecidableEq, Repr

abbrev Method := List SockOp

/-! ### The socket -/

/-- The socket of a port and its reply queue; `α` says who wrote a byte. -/
structure Sock (α : Type) where
  corked : ℕ
  /-- What has been written since the socket was corked. -/
  pending : List (α × Byte)
  /-- What the coprocessor is given. -/
  sent : List (α × Byte)
  replyQueue : List Reply
  deriving Repr

namespace Sock

variable {α : Type} (s : Sock α) (tag : α)

/-- A new socket. -/
def init : Sock α := ⟨0, [], [], []⟩

def write (bs : List Byte) : Sock α :=
  if s.corked = 0 then { s with sent := s.sent ++ bs.map (tag, ·) }
  else { s with pending := s.pending ++ bs.map (tag, ·) }

def cork : Sock α := { s with corked := s.corked + 1 }

def uncork : Sock α :=
  match s.corked with
  | 0 => s
  | 1 => { s with corked := 0, pending := [], sent := s.sent ++ s.pending }
  | n + 2 => { s with corked := n + 1 }

def enqueue (r : Reply) : Sock α := { s with replyQueue := s.replyQueue ++ [r] }

/-- Perform the operations of a method; the result is false when it throws. -/
def run : Method → Sock α → Sock α × Bool
  | [], s => (s, true)
  | .cork :: m, s => run m s.cork
  | .uncork :: m, s => run m s.uncork
  | .write bs :: m, s => run m (s.write tag bs)
  | .enqueue r :: m, s => run m (s.enqueue r)
  | .throw :: _, s => (s, false)

/-- Nothing is held back by a socket that is not corked. -/
def Valid : Prop := s.corked = 0 → s.pending = []

/-- Bytes are written and replies are expected. -/
def push (bs : List Byte) (rs : List Reply) : Sock α :=
  { s.write tag bs with replyQueue := s.replyQueue ++ rs }

end Sock

/-- A method of an otherwise idle port does not throw. -/
def Method.returns (m : Method) : Prop := (Sock.run () m .init).2 = true

/-- The bytes that a method of an otherwise idle port writes. -/
def Method.bytes (m : Method) : List Byte := (Sock.run () m .init).1.sent.map Prod.snd

/-! ### Methods of `Port` -/

namespace Port

def sync (callback : Option Callback) : Method :=
  match callback with
  | some cb => [.write (newBuffer [Cmd.echo, 1, 0x88]), .enqueue ⟨1, some cb⟩]
  | none => []

def command (data : List ℤ) (callback : Option Callback) : Method :=
  .cork :: .write (newBuffer data) :: (sync callback ++ [.uncork])

/-- The loop of `tx`. -/
def txLoop (data : List Byte) (offset : ℕ) : Method :=
  if offset < data.length then
    let chunk := (data.drop offset).take 255
    .write (newBuffer [Cmd.tx, chunk.length]) :: .write chunk :: txLoop data (offset + 255)
  else []
termination_by data.length - offset
decreasing_by omega

def tx (data : List Byte) (callback : Option Callback) : Method :=
  if data.length = 0 then [.throw]
  else .cork :: (txLoop data 0 ++ sync callback ++ [.uncork])

def rx (len : ℕ) (callback : Option Callback) : Method :=
  if len = 0 ∨ 255 < len then [.throw]
  else [.write (newBuffer [Cmd.rx, len]), .enqueue ⟨len, callback⟩]

def txrx (buf : List Byte) (callback : Option Callback) : Method :=
  if buf.length = 0 ∨ 255 < buf.length then [.throw]
  else [.cork, .write (newBuffer [Cmd.txrx, buf.length]), .write buf,
    .enqueue ⟨buf.length, callback⟩, .uncork]

end Port

/-! ### Methods of `Pin` -/

namespace Pin

variable (pin : Fin 8)

def high (callback : Option Callback) : Method := Port.command [Cmd.gpioHigh, pin] callback

def low (callback : Option Callback) : Method := Port.command [Cmd.gpioLow, pin] callback

/-- `_readPin`. -/
def readPin (cmd : ℤ) (callback : Callback) : Method :=
  [.cork, .write (newBuffer [cmd, pin]), .enqueue ⟨0, some callback⟩, .uncork]

def rawRead (callback : Callback) : Method := readPin pin Cmd.gpioRawRead callback

def read (callback : Callback) : Method := readPin pin Cmd.gpioIn callback

end Pin

/-! ### What a method sends -/

namespace Sock

variable {α : Type} {s : Sock α} {tag : α} {m m' : Method} {bs bs' : List Byte}
  {rs rs' : List Reply}

@[simp] theorem corked_push : (s.push tag bs rs).corked = s.corked := by
  simp only [push, write]
  split_ifs <;> rfl

theorem Valid.push (h : s.Valid) : (s.push tag bs rs).Valid := by
  intro h0
  rw [corked_push] at h0
  simp only [Sock.push, write, if_pos h0]
  exact h h0

theorem push_push :
    (s.push tag bs rs).push tag bs' rs' = s.push tag (bs ++ bs') (rs ++ rs') := by
  by_cases h : s.corked = 0
  · simp [push, write, h]
  · simp [push, write, h]

@[simp] theorem push_nil : s.push tag [] [] = s := by
  simp only [push, write]
  split_ifs <;> simp

theorem write_eq_push (bs : List Byte) : s.write tag bs = s.push tag bs [] := by
  simp only [push, write]
  split_ifs <;> simp

theorem enqueue_eq_push (r : Reply) : s.enqueue r = s.push tag [] [r] := by
  simp only [push, write, enqueue]
  split_ifs <;> simp

theorem Valid.cork (s : Sock α) : s.cork.Valid := nofun

/-- What is written between `cork` and `uncork` is sent in the end. -/
theorem uncork_push_cork (h : s.Valid) : (s.cork.push tag bs rs).uncork = s.push tag bs rs := by
  obtain ⟨corked, pending, sent, queue⟩ := s
  cases corked with
  | zero =>
    obtain rfl : pending = [] := h rfl
    rfl
  | succ n => rfl

/-- A socket that is not corked has sent what was pushed. -/
theorem sent_push (h : s.corked = 0) :
    (s.push tag bs rs).sent = s.sent ++ bs.map (tag, ·) := by
  simp [push, write, h]

/-- A corked socket sends nothing. -/
theorem sent_push_of_corked (h : s.corked ≠ 0) : (s.push tag bs rs).sent = s.sent := by
  simp [push, write, h]

end Sock

/-- The method writes `bs`, expects the replies `rs` and returns. -/
def Sends (m : Method) (bs : List Byte) (rs : List Reply) : Prop :=
  ∀ ⦃α : Type⦄ (tag : α) (s : Sock α) (rest : Method), s.Valid →
    Sock.run tag (m ++ rest) s = Sock.run tag rest (s.push tag bs rs)

namespace Sends

variable {m m' : Method} {bs bs' : List Byte} {rs rs' : List Reply}

theorem nil : Sends [] [] [] := by
  intro α tag s rest _
  rw [Sock.push_nil]
  rfl

theorem write (bs : List Byte) : Sends [.write bs] bs [] := by
  intro α tag s rest _
  rw [← Sock.write_eq_push]
  rfl

theorem enqueue (r : Reply) : Sends [.enqueue r] [] [r] := by
  intro α tag s rest _
  rw [← Sock.enqueue_eq_push]
  rfl

theorem append (h : Sends m bs rs) (h' : Sends m' bs' rs') :
    Sends (m ++ m') (bs ++ bs') (rs ++ rs') := by
  intro α tag s rest hs
  rw [List.append_assoc, h tag s _ hs, h' tag _ _ hs.push, Sock.push_push]

/-- A corked method sends the same. -/
theorem corked (h : Sends m bs rs) : Sends (.cork :: (m ++ [.uncork])) bs rs := by
  intro α tag s rest hs
  show Sock.run tag (m ++ [.uncork] ++ rest) s.cork = _
  rw [List.append_assoc, h tag _ _ (Sock.Valid.cork s), ← Sock.uncork_push_cork hs]
  rfl

theorem run (h : Sends m bs rs) {α : Type} (tag : α) {s : Sock α} (hs : s.Valid) :
    Sock.run tag m s = (s.push tag bs rs, true) := by
  have := h tag s [] hs
  rwa [List.append_nil] at this

theorem bytes (h : Sends m bs rs) : Method.bytes m = bs := by
  have hinit : (Sock.init : Sock Unit).Valid := fun _ => rfl
  rw [Method.bytes, h.run () hinit, Sock.sent_push rfl]
  simp [Sock.init, Function.comp_def]

end Sends

/-- An exception leaves the rest of the method out. -/
theorem run_throw {m : Method} {bs : List Byte} {rs : List Reply} (h : Sends m bs rs) {α : Type}
    (tag : α) {s : Sock α} (hs : s.Valid) (rest : Method) :
    Sock.run tag (m ++ .throw :: rest) s = (s.push tag bs rs, false) := h tag s _ hs

theorem not_returns {m : Method} {bs : List Byte} {rs : List Reply} (h : Sends m bs rs)
    (rest : Method) : ¬ Method.returns (m ++ .throw :: rest) := by
  have hinit : (Sock.init : Sock Unit).Valid := fun _ => rfl
  rw [Method.returns, run_throw h () hinit rest]
  exact Bool.false_ne_true

/-- An exception while the socket is corked leaves it corked. -/
theorem run_throw_corked {m : Method} {bs : List Byte} {rs : List Reply} (h : Sends m bs rs)
    {α : Type} (tag : α) (s : Sock α) (rest : Method) :
    Sock.run tag (.cork :: (m ++ .throw :: rest)) s = (s.cork.push tag bs rs, false) :=
  h tag s.cork _ (Sock.Valid.cork s)

/-! ### What the methods of `Port` and `Pin` send -/

/-- The bytes of `sync`. -/
def syncBytes (callback : Option Callback) : List Byte :=
  if callback.isSome then newBuffer [Cmd.echo, 1, 0x88] else []

/-- The entry that `sync` adds to the reply queue. -/
def syncReplies (callback : Option Callback) : List Reply :=
  if callback.isSome then [⟨1, callback⟩] else []

theorem sends_sync (callback : Option Callback) :
    Sends (Port.sync callback) (syncBytes callback) (syncReplies callback) := by
  cases callback with
  | none => exact .nil
  | some cb => exact (Sends.write _).append (.enqueue _)

theorem sends_command (data : List ℤ) (callback : Option Callback) :
    Sends (Port.command data callback) (newBuffer data ++ syncBytes callback)
      (syncReplies callback) :=
  ((Sends.write _).append (sends_sync callback)).corked

theorem sends_data (data : List ℤ) : Sends (Port.command data none) (newBuffer data) [] := by
  have := sends_command data none
  rwa [syncBytes, if_neg (by simp), List.append_nil] at this

/-- The TX commands that `tx` splits its data into. -/
def txBytes (data : List Byte) (offset : ℕ) : List Byte :=
  if offset < data.length then
    let chunk := (data.drop offset).take 255
    newBuffer [Cmd.tx, chunk.length] ++ chunk ++ txBytes data (offset + 255)
  else []
termination_by data.length - offset
decreasing_by omega

theorem sends_txLoop (data : List Byte) (offset : ℕ) :
    Sends (Port.txLoop data offset) (txBytes data offset) [] := by
  induction offset using txBytes.induct data with
  | case1 offset h ih =>
    rw [Port.txLoop, if_pos h, txBytes, if_pos h]
    exact ((Sends.write _).append (.write _)).append ih
  | case2 offset h =>
    rw [Port.txLoop, if_neg h, txBytes, if_neg h]
    exact .nil

theorem sends_tx {data : List Byte} (h : data ≠ []) (callback : Option Callback) :
    Sends (Port.tx data callback) (txBytes data 0 ++ syncBytes callback)
      (syncReplies callback) := by
  rw [Port.tx, if_neg (by simpa using h)]
  exact ((sends_txLoop data 0).append (sends_sync callback)).corked

theorem sends_rx {len : ℕ} (h : len ≠ 0) (h' : len ≤ 255) (callback : Option Callback) :
    Sends (Port.rx len callback) (newBuffer [Cmd.rx, len]) [⟨len, callback⟩] := by
  rw [Port.rx, if_neg (by omega)]
  exact (Sends.write _).append (.enqueue _)

theorem sends_txrx {buf : List Byte} (h : buf.length ≠ 0) (h' : buf.length ≤ 255)
    (callback : Option Callback) :
    Sends (Port.txrx buf callback) (newBuffer [Cmd.txrx, buf.length] ++ buf)
      [⟨buf.length, callback⟩] := by
  rw [Port.txrx, if_neg (by omega)]
  have h := ((Sends.write (newBuffer [Cmd.txrx, buf.length])).append (.write buf)).append
    (.enqueue ⟨buf.length, callback⟩)
  rw [List.append_nil] at h
  exact h.corked

theorem sends_readPin (pin : Fin 8) (cmd : ℤ) (callback : Callback) :
    Sends (Pin.readPin pin cmd callback) (newBuffer [cmd, pin]) [⟨0, some callback⟩] :=
  ((Sends.write _).append (.enqueue _)).corked

end Node

end TesselFirmware
