import TesselFirmware.Node.Peripheral
import TesselFirmware.Port.Issue

/-!
# Peripheral objects and the mode of the coprocessor

`NodePort` is a port with the `I2C`, `SPI` and `UART` objects that the program has constructed on
it.  The program calls constructors, `disable` methods and transfers in any order; each byte that
reaches the coprocessor carries the protocol of the object that wrote it.

* `Outcome` : a call sends whole commands, or throws, perhaps with its socket corked;
* `agrees_iff` : the runs in which transfer commands are executed in the mode of the object's
  protocol.
-/

namespace TesselFirmware

namespace Node

open PortData (Agrees Packets tagged)

/-- A port and the objects on it that the program holds. -/
structure NodePort where
  /-- `I2C.enabled`. -/
  i2cEnabled : Bool
  /-- There is a current `spi`. -/
  spi : Bool
  /-- There is a current `uart`. -/
  uart : Bool
  i2cs : List I2C
  spis : List SPI
  uarts : ℕ
  sock : Sock PortMode

/-- A call of the program; a transfer or `disable` is a method of an object. -/
inductive PeripheralCall
  | i2c (params : I2CParams)
  | spi (params : SPIParams)
  | uart (baudrate : Option ℚ)
  | spiDisable (i : ℕ)
  | uartDisable (i : ℕ)
  | i2cSend (i : ℕ) (data : List Byte) (callback : Option Callback)
  | i2cRead (i : ℕ) (length : ℕ) (callback : Option Callback)
  | i2cTransfer (i : ℕ) (txbuf : List Byte) (rxlen : ℕ) (callback : Option Callback)
  | spiSend (i : ℕ) (data : List Byte) (callback : Option Callback)
  | spiReceive (i : ℕ) (length : ℕ) (callback : Option Callback)
  | spiTransfer (i : ℕ) (data : List Byte) (callback : Option Callback)
  | uartWrite (i : ℕ) (chunk : List Byte) (callback : Option Callback)

/-- The mode of the protocol of the object. -/
def PeripheralCall.protocol : PeripheralCall → PortMode
  | i2c _ | i2cSend .. | i2cRead .. | i2cTransfer .. => .i2c
  | spi _ | spiDisable _ | spiSend .. | spiReceive .. | spiTransfer .. => .spi
  | uart _ | uartDisable _ | uartWrite .. => .uart

namespace NodePort

variable (fl : Rounding) (n : NodePort)

/-- A port on which nothing has been constructed. -/
def init : NodePort := ⟨false, false, false, [], [], 0, .init⟩

/-- What a call does to the socket; there is none if the program has no such object. -/
def method : PeripheralCall → Option Method
  | .i2c params => some (I2C.construct fl params n.i2cEnabled)
  | .spi params => some (Port.spi fl n.spi params)
  | .uart baudrate => some (Port.uart fl n.uart baudrate)
  | .spiDisable i => n.spis[i]?.map fun _ => SPI.disable
  | .uartDisable i => if i < n.uarts then some UART.disable else none
  | .i2cSend i data callback => n.i2cs[i]?.map (·.send data callback)
  | .i2cRead i length callback => n.i2cs[i]?.map (·.read length callback)
  | .i2cTransfer i txbuf rxlen callback => n.i2cs[i]?.map (·.transfer txbuf rxlen callback)
  | .spiSend i data callback => n.spis[i]?.map (·.send data callback)
  | .spiReceive i length callback => n.spis[i]?.map (·.receive length callback)
  | .spiTransfer i data callback => n.spis[i]?.map (·.transfer data callback)
  | .uartWrite i chunk callback =>
    if i < n.uarts then some (UART.write n.uart chunk callback) else none

/-- What a call does to the objects; `ok` says whether it returned. -/
def update (ok : Bool) : PeripheralCall → NodePort
  | .i2c params =>
    if ok then { n with i2cEnabled := true, i2cs := n.i2cs ++ [I2C.ofParams params] } else n
  | .spi params =>
    -- the previous object has been disabled before the constructor throws
    if ok then { n with spi := true, spis := n.spis ++ [SPI.ofParams fl params] }
    else { n with spi := false }
  | .uart _ => if ok then { n with uart := true, uarts := n.uarts + 1 } else { n with uart := false }
  | .spiDisable _ => { n with spi := false }
  | .uartDisable _ => { n with uart := false }
  | _ => n

/-- A call of the program. -/
def call (c : PeripheralCall) : Option NodePort :=
  (n.method fl c).map fun m =>
    let (sock, ok) := Sock.run c.protocol m n.sock
    { n.update fl ok c with sock := sock }

/-- A sequence of calls. -/
def calls : NodePort → List PeripheralCall → Option NodePort
  | n, [] => some n
  | n, c :: cs => (n.call fl c).bind fun n' => calls n' cs

end NodePort

/-! ### What a call asks for -/

/-- The address is there, and the frequency is one of the two that are supported. -/
def I2CParams.Valid (params : I2CParams) : Prop :=
  params.address ≠ none ∧
    (I2C.frequencyOf params = 100000 ∨ I2C.frequencyOf params = 400000)

instance (params : I2CParams) : Decidable params.Valid := by
  unfold I2CParams.Valid
  infer_instance

/-- The clock speed is in its range. -/
def SPIParams.Valid (params : SPIParams) : Prop :=
  368 ≤ orDefault params.clockSpeed 2000000 ∧ orDefault params.clockSpeed 2000000 ≤ 24000000

instance (params : SPIParams) : Decidable params.Valid := by
  unfold SPIParams.Valid
  infer_instance

/-- The baud rate is in its range. -/
def UART.Valid (baudrate : Option ℚ) : Prop :=
  9600 ≤ orDefault baudrate 9600 ∧ orDefault baudrate 9600 ≤ 230400

instance (baudrate : Option ℚ) : Decidable (UART.Valid baudrate) := by
  unfold UART.Valid
  infer_instance

namespace NodePort

variable (n : NodePort)

/-- The call is a transfer with a number of bytes that the API admits. -/
def transfers : PeripheralCall → Bool
  | .i2cSend _ data _ | .spiSend _ data _ => data ≠ []
  | .i2cRead _ length _ | .spiReceive _ length _ | .i2cTransfer _ _ length _ =>
    0 < length ∧ length ≤ 255
  | .spiTransfer _ data _ => 0 < data.length ∧ data.length ≤ 255
  | .uartWrite _ chunk _ => n.uart ∧ chunk ≠ []
  | _ => false

/-- The mode that a call sets: the first construction of an `I2C`, any of an `SPI` or a `UART`, and
`disable` of a `UART`. -/
def sets (c : PeripheralCall) (m : PortMode) : PortMode :=
  match c with
  | .i2c params => if params.Valid ∧ ¬ n.i2cEnabled then .i2c else m
  | .spi params => if params.Valid then .spi else m
  | .uart baudrate =>
    if UART.Valid baudrate then .uart else if n.uart then .none else m
  | .uartDisable _ => .none
  | _ => m

end NodePort

/-- Before every transfer that is sent, the last call that set the mode was one of the same
protocol; `m` is the mode that was set last. -/
def Ordered (fl : Rounding) : PortMode → NodePort → List PeripheralCall → Prop
  | _, _, [] => True
  | m, n, c :: cs => (n.sock.corked = 0 → n.transfers c → m = c.protocol) ∧
    ∀ n', n.call fl c = some n' → Ordered fl (n.sets c m) n' cs

/-! ### The bytes of the methods -/

section Bytes

variable {tag : PortMode}

theorem packets_echo (tag : PortMode) : Packets tag false id (newBuffer [Cmd.echo, 1, 0x88]) :=
  Packets.payload tag 2#8 rfl rfl (by decide) rfl (fun _ _ => rfl) (List.cons_ne_nil 0x88#8 [])
    (by simp)

theorem packets_sync (tag : PortMode) (callback : Option Callback) :
    Packets tag false id (syncBytes callback) := by
  cases callback with
  | none => exact .nil tag
  | some cb => exact packets_echo tag

/-- A pin is set. -/
theorem packets_level (tag : PortMode) (pin : Fin 8) {cmd : ℤ}
    (h : cmd = Cmd.gpioHigh ∨ cmd = Cmd.gpioLow) : Packets tag false id (newBuffer [cmd, pin]) := by
  obtain rfl | rfl := h
  · exact Packets.done tag 4#8 [BitVec.ofInt 8 pin] rfl rfl rfl
  · exact Packets.done tag 5#8 [BitVec.ofInt 8 pin] rfl rfl rfl

theorem packets_stop (tag : PortMode) : Packets tag false id (newBuffer [Cmd.stop]) :=
  Packets.done tag 20#8 [] rfl rfl rfl

theorem packets_start (tag : PortMode) (a : ℤ) : Packets tag true id (newBuffer [Cmd.start, a]) :=
  Packets.start tag (BitVec.ofInt 8 a)

theorem packets_rx {len : ℕ} (h : len ≠ 0) (h' : len ≤ 255) (htag : tag = .spi ∨ tag = .i2c) :
    Packets tag true id (newBuffer [Cmd.rx, len]) := by
  have := Packets.rx h h' htag
  rwa [← BitVec.ofInt_natCast] at this

theorem packets_txrx {buf : List Byte} (h : buf ≠ []) (h' : buf.length ≤ 255) :
    Packets .spi true id (newBuffer [Cmd.txrx, buf.length] ++ buf) := by
  have := Packets.payload .spi 18#8 rfl rfl (by decide) rfl
    (fun m hm => by rw [hm rfl]; rfl) h h'
  rwa [← BitVec.ofInt_natCast] at this

theorem packets_chunk {chunk : List Byte} (h : chunk ≠ []) (h' : chunk.length ≤ 255)
    (htag : tag ≠ .none) : Packets tag true id (newBuffer [Cmd.tx, chunk.length] ++ chunk) := by
  have hserves : PortData.serves (PortCmd.ofByte 16#8) tag := by
    cases tag with
    | none => exact absurd rfl htag
    | spi => rfl
    | i2c => rfl
    | uart => rfl
  have := Packets.payload tag 16#8 rfl rfl (by decide) rfl
    (fun m hm => by rw [hm rfl]; exact hserves) h h'
  rwa [← BitVec.ofInt_natCast] at this

/-- **The TX commands of `tx`** have 1 to 255 bytes each. -/
theorem packets_tx (tag : PortMode) (data : List Byte) (htag : tag ≠ .none) (offset : ℕ) :
    Packets tag (offset < data.length) id (txBytes data offset) := by
  induction offset using txBytes.induct data with
  | case1 offset h ih =>
    have hchunk : (data.drop offset).take 255 ≠ [] := by
      intro hnil
      have := congrArg List.length hnil
      simp only [List.length_take, List.length_drop, List.length_nil] at this
      omega
    have hlen : ((data.drop offset).take 255).length ≤ 255 := List.length_take_le _ _
    rw [txBytes, if_pos h]
    have := (packets_chunk hchunk hlen htag).append ih fun _ => rfl
    simpa [h] using this
  | case2 offset h =>
    rw [txBytes, if_neg h]
    simpa [h] using Packets.nil tag

/-! ### What the methods send -/

/-- What becomes of a call: it returns and has sent whole commands, or it throws.  In the second
case it has sent whole commands before, or it has left its socket corked. -/
inductive Outcome (tag : PortMode) (m : Method) (needs : Bool) (sets : PortMode → PortMode) : Prop
  | sends {bs : List Byte} {rs : List Reply} (h : Sends m bs rs) (hp : Packets tag needs sets bs)
  | throws {a b : Method} {bs : List Byte} {rs : List Reply} (hm : m = a ++ .throw :: b)
    (h : Sends a bs rs) (hp : Packets tag needs sets bs)
  | hangs {a b : Method} {bs : List Byte} {rs : List Reply}
    (hm : m = .cork :: (a ++ .throw :: b)) (h : Sends a bs rs) (hn : needs = false)
    (hs : sets = id)

theorem tx_nil (callback : Option Callback) : Port.tx [] callback = [.throw] := rfl

theorem rx_of_invalid {len : ℕ} (h : ¬ (0 < len ∧ len ≤ 255)) (callback : Option Callback) :
    Port.rx len callback = [.throw] := by
  rw [Port.rx, if_pos (by omega)]

/-- `I2C.send`. -/
theorem outcome_i2cSend (o : I2C) (data : List Byte) (callback : Option Callback) :
    Outcome .i2c (o.send data callback) (data ≠ []) id := by
  have hstart := sends_data [Cmd.start, o.address * 2]
  by_cases hd : data = []
  · subst hd
    refine .hangs (a := Port.command [Cmd.start, o.address * 2] none)
      (b := Port.command [Cmd.stop] callback ++ [.uncork]) ?_ hstart (by simp) rfl
    simp [I2C.send, tx_nil]
  · refine .sends ((hstart.append (sends_tx hd none)).append
      (sends_command [Cmd.stop] callback)).corked ?_
    have hp := ((packets_start .i2c (o.address * 2)).append
      ((packets_tx .i2c data (by decide) 0).append (packets_sync .i2c none) nofun)
        fun _ => rfl).append ((packets_stop .i2c).append (packets_sync .i2c callback) nofun) nofun
    simpa [hd] using hp

/-- `I2C.read`. -/
theorem outcome_i2cRead (o : I2C) (length : ℕ) (callback : Option Callback) :
    Outcome .i2c (o.read length callback) (0 < length ∧ length ≤ 255) id := by
  have hstart := sends_data [Cmd.start, o.address * 2 + 1]
  by_cases hl : 0 < length ∧ length ≤ 255
  · refine .sends ((hstart.append (sends_rx (by omega) hl.2 callback)).append
      (sends_data [Cmd.stop])).corked ?_
    have hp := ((packets_start .i2c (o.address * 2 + 1)).append
      (packets_rx (by omega) hl.2 (.inr rfl)) fun _ => rfl).append (packets_stop .i2c) nofun
    simpa [hl] using hp
  · refine .hangs (a := Port.command [Cmd.start, o.address * 2 + 1] none)
      (b := Port.command [Cmd.stop] none ++ [.uncork]) ?_ hstart (by simpa using hl) rfl
    simp [I2C.read, rx_of_invalid hl]

/-- The first part of `I2C.transfer`. -/
theorem sends_transferTx (o : I2C) (txbuf : List Byte) :
    ∃ bs rs needs, Sends (if 0 < txbuf.length then
      Port.command [Cmd.start, o.address * 2] none ++ Port.tx txbuf none else []) bs rs ∧
      Packets .i2c needs id bs := by
  by_cases hd : txbuf = []
  · subst hd
    exact ⟨_, _, _, .nil, .nil _⟩
  · rw [if_pos (List.length_pos_iff.2 hd)]
    exact ⟨_, _, _, (sends_data [Cmd.start, o.address * 2]).append (sends_tx hd none),
      (packets_start .i2c (o.address * 2)).append ((packets_tx .i2c txbuf (by decide) 0).append
        (packets_sync .i2c none) nofun) fun _ => rfl⟩

/-- `I2C.transfer`. -/
theorem outcome_i2cTransfer (o : I2C) (txbuf : List Byte) (rxlen : ℕ)
    (callback : Option Callback) :
    Outcome .i2c (o.transfer txbuf rxlen callback) (0 < rxlen ∧ rxlen ≤ 255) id := by
  obtain ⟨bs, rs, needs, hsend, hpack⟩ := sends_transferTx o txbuf
  have hstart := hsend.append (sends_data [Cmd.start, o.address * 2 + 1])
  by_cases hl : 0 < rxlen ∧ rxlen ≤ 255
  · refine .sends ((hstart.append (sends_rx (by omega) hl.2 callback)).append
      (sends_data [Cmd.stop])).corked ?_
    have hp := ((hpack.append (packets_start .i2c (o.address * 2 + 1)) fun _ => rfl).append
      (packets_rx (by omega) hl.2 (.inr rfl)) fun _ => rfl).append (packets_stop .i2c) nofun
    simpa [hl] using hp
  · refine .hangs (b := Port.command [Cmd.stop] none ++ [.uncork]) ?_ hstart
      (by simpa using hl) rfl
    simp [I2C.transfer, rx_of_invalid hl]

/-- The chip select around a transfer. -/
theorem sends_select (cs : ChipSelect) : ∃ bs bs', Sends cs.low bs [] ∧ Sends cs.high bs' [] ∧
    Packets .spi false id bs ∧ Packets .spi false id bs' := by
  cases cs with
  | own pin =>
    exact ⟨_, _, sends_data [Cmd.gpioLow, pin], sends_data [Cmd.gpioHigh, pin],
      packets_level .spi pin (.inr rfl), packets_level .spi pin (.inl rfl)⟩
  | other => exact ⟨_, _, .nil, .nil, .nil _, .nil _⟩

/-- A transfer of `SPI` is a transfer of its port while the chip select is low. -/
theorem outcome_select (cs : ChipSelect) {m : Method} {needs : Bool} (bs : List Byte)
    (rs : List Reply) (h : needs → Sends m bs rs ∧ Packets .spi true id bs)
    (h' : needs = false → m = [.throw]) :
    Outcome .spi (.cork :: (cs.low ++ m ++ cs.high ++ [.uncork])) needs id := by
  obtain ⟨low, high, hlow, hhigh, plow, phigh⟩ := sends_select cs
  cases needs with
  | false =>
    refine .hangs (b := cs.high ++ [.uncork]) ?_ hlow rfl rfl
    rw [h' rfl]
    simp
  | true =>
    obtain ⟨hsend, hpack⟩ := h rfl
    refine .sends ((hlow.append hsend).append hhigh).corked ?_
    exact (plow.append hpack fun _ => rfl).append phigh nofun

/-- `SPI.send`. -/
theorem outcome_spiSend (o : SPI) (data : List Byte) (callback : Option Callback) :
    Outcome .spi (o.send data callback) (data ≠ []) id := by
  refine outcome_select o.chipSelect (txBytes data 0 ++ syncBytes callback)
    (syncReplies callback) (fun h => ?_) fun h => ?_
  · have hd : data ≠ [] := by simpa using h
    refine ⟨sends_tx hd callback, ?_⟩
    have hp := (packets_tx .spi data (by decide) 0).append
      (packets_sync .spi callback) nofun
    simpa [List.length_pos_iff.2 hd] using hp
  · obtain rfl : data = [] := by simpa using h
    rfl

/-- `SPI.receive`. -/
theorem outcome_spiReceive (o : SPI) (length : ℕ) (callback : Option Callback) :
    Outcome .spi (o.receive length callback) (0 < length ∧ length ≤ 255) id := by
  refine outcome_select o.chipSelect (newBuffer [Cmd.rx, length])
    [⟨length, callback⟩] (fun h => ?_) fun h => ?_
  · obtain ⟨hl, hl'⟩ : 0 < length ∧ length ≤ 255 := by simpa using h
    exact ⟨sends_rx (by omega) hl' callback, packets_rx (by omega) hl' (.inl rfl)⟩
  · exact rx_of_invalid (by simpa using h) callback

/-- `SPI.transfer`. -/
theorem outcome_spiTransfer (o : SPI) (data : List Byte) (callback : Option Callback) :
    Outcome .spi (o.transfer data callback) (0 < data.length ∧ data.length ≤ 255) id := by
  refine outcome_select o.chipSelect (newBuffer [Cmd.txrx, data.length] ++ data)
    [⟨data.length, callback⟩] (fun h => ?_) fun h => ?_
  · obtain ⟨hl, hl'⟩ : 0 < data.length ∧ data.length ≤ 255 := by simpa using h
    exact ⟨sends_txrx (by omega) hl' callback, packets_txrx (List.length_pos_iff.1 hl) hl'⟩
  · have hno : ¬ (0 < data.length ∧ data.length ≤ 255) := by simpa using h
    rw [Port.txrx, if_pos (by omega)]

/-- `UART._write`. -/
theorem outcome_uartWrite (current : Bool) (chunk : List Byte) (callback : Option Callback) :
    Outcome .uart (UART.write current chunk callback) (current ∧ chunk ≠ []) id := by
  cases current with
  | false => exact .throws (a := []) (b := []) rfl .nil (by simpa using Packets.nil .uart)
  | true =>
    by_cases hd : chunk = []
    · subst hd
      exact .throws (a := []) (b := []) rfl .nil (by simpa using Packets.nil .uart)
    · refine .sends (sends_tx hd callback) ?_
      have hp := (packets_tx .uart chunk (by decide) 0).append
        (packets_sync .uart callback) nofun
      simpa [hd, List.length_pos_iff.2 hd] using hp

/-- The constructor of `I2C`. -/
theorem outcome_i2c (fl : Rounding) (params : I2CParams) (enabled : Bool) :
    Outcome .i2c (I2C.construct fl params enabled) false
      (fun m => if params.Valid ∧ ¬ enabled then .i2c else m) := by
  have hthrow (h : ¬ params.Valid) : Outcome .i2c [.throw] false
      (fun m => if params.Valid ∧ ¬ enabled then .i2c else m) := by
    simp only [h, false_and, if_false]
    exact .throws (a := []) (b := []) rfl .nil (.nil _)
  rw [I2C.construct]
  by_cases haddress : params.address = none
  · rw [if_pos haddress]
    exact hthrow fun h => h.1 haddress
  by_cases hfreq : I2C.frequencyOf params ≠ 100000 ∧ I2C.frequencyOf params ≠ 400000
  · rw [if_neg haddress, if_pos hfreq]
    exact hthrow fun h => h.2.elim hfreq.1 hfreq.2
  have hvalid : params.Valid := ⟨haddress, by
    by_contra hno
    exact hfreq (not_or.1 hno)⟩
  rw [if_neg haddress, if_neg hfreq]
  cases enabled with
  | true =>
    simp only [not_true_eq_false, and_false, if_false, if_true]
    exact .sends .nil (.nil _)
  | false =>
    simp only [hvalid, Bool.false_eq_true, not_false_eq_true, and_self, if_true, if_false]
    exact .sends (sends_data _) (Packets.done .i2c 12#8 [_] rfl rfl rfl)

/-- `SPI.disable` writes a NOP. -/
theorem packets_nop (tag : PortMode) : Packets tag false id (newBuffer [Cmd.cmdDisableSpi]) :=
  Packets.done tag 0#8 [] rfl rfl rfl

theorem packets_disableUart (tag : PortMode) :
    Packets tag false (fun _ => .none) (newBuffer [Cmd.disableUart, 0, 0]) :=
  ((Packets.done tag 15#8 [] rfl rfl rfl).append (packets_nop tag) nofun).append
    (packets_nop tag) nofun

/-- `Port.SPI`. -/
theorem outcome_spi (fl : Rounding) (current : Bool) (params : SPIParams) :
    Outcome .spi (Port.spi fl current params) false
      (fun m => if params.Valid then .spi else m) := by
  obtain ⟨bs₁, h₁, p₁⟩ : ∃ bs, Sends (if current then SPI.disable else []) bs [] ∧
      Packets .spi false id bs := by
    cases current with
    | true => exact ⟨_, sends_data _, packets_nop .spi⟩
    | false => exact ⟨_, .nil, .nil _⟩
  obtain ⟨low, high, hlow, hhigh, plow, phigh⟩ := sends_select (SPI.ofParams fl params).chipSelect
  obtain ⟨bs₂, h₂, p₂⟩ : ∃ bs, Sends (if (SPI.ofParams fl params).chipSelectActive = 1 then
      (SPI.ofParams fl params).chipSelect.low else (SPI.ofParams fl params).chipSelect.high) bs [] ∧
      Packets .spi false id bs := by
    split_ifs
    · exact ⟨low, hlow, plow⟩
    · exact ⟨high, hhigh, phigh⟩
  have hsend := h₁.append h₂
  have hpack := p₁.append p₂ nofun
  by_cases hvalid : params.Valid
  · have hrange : ¬ ((SPI.ofParams fl params).clockSpeed < 368 ∨
        24000000 < (SPI.ofParams fl params).clockSpeed) := by
      rw [not_or, not_lt, not_lt]
      exact hvalid
    simp only [Port.spi, SPI.construct, if_neg hrange, if_pos hvalid]
    rw [← List.append_assoc]
    exact .sends (hsend.append (sends_data _)) (hpack.append
      (Packets.done .spi 10#8 [_, _, _] rfl rfl rfl) nofun)
  · have hrange : (SPI.ofParams fl params).clockSpeed < 368 ∨
        24000000 < (SPI.ofParams fl params).clockSpeed := by
      by_contra hno
      rw [not_or, not_lt, not_lt] at hno
      exact hvalid hno
    simp only [Port.spi, SPI.construct, if_pos hrange, if_neg hvalid]
    rw [← List.append_assoc]
    exact .throws (b := []) rfl hsend hpack

/-- `Port.UART`. -/
theorem outcome_uart (fl : Rounding) (current : Bool) (baudrate : Option ℚ) :
    Outcome .uart (Port.uart fl current baudrate) false
      (fun m => if UART.Valid baudrate then .uart else if current then .none else m) := by
  obtain ⟨bs, hsend, hpack⟩ : ∃ bs, Sends (if current then UART.disable else []) bs [] ∧
      Packets .uart false (fun m => if current then .none else m) bs := by
    cases current with
    | true => exact ⟨_, sends_data _, packets_disableUart .uart⟩
    | false => exact ⟨_, .nil, .nil _⟩
  by_cases hvalid : UART.Valid baudrate
  · have hrange : ¬ (orDefault baudrate 9600 < 9600 ∨ 230400 < orDefault baudrate 9600) := by
      rw [not_or, not_lt, not_lt]
      exact hvalid
    simp only [Port.uart, UART.construct, UART.setBaudrate, if_neg hrange, if_pos hvalid]
    exact .sends (hsend.append (sends_data _)) (hpack.append
      (Packets.done .uart 14#8 [_, _] rfl rfl rfl) nofun)
  · have hrange : orDefault baudrate 9600 < 9600 ∨ 230400 < orDefault baudrate 9600 := by
      by_contra hno
      rw [not_or, not_lt, not_lt] at hno
      exact hvalid hno
    simp only [Port.uart, UART.construct, UART.setBaudrate, if_pos hrange, if_neg hvalid]
    exact .throws (b := []) rfl hsend hpack

end Bytes

/-! ### Calls -/

section Calls

variable {fl : Rounding} {n n' : NodePort} {c : PeripheralCall}

/-- **What becomes of a call of the program.** -/
theorem outcome {m : Method} (h : n.method fl c = some m) :
    Outcome c.protocol m (n.transfers c) (n.sets c) := by
  cases c with
  | i2c params =>
    obtain rfl := Option.some.inj h
    exact outcome_i2c fl params n.i2cEnabled
  | spi params =>
    obtain rfl := Option.some.inj h
    exact outcome_spi fl n.spi params
  | uart baudrate =>
    obtain rfl := Option.some.inj h
    exact outcome_uart fl n.uart baudrate
  | spiDisable i =>
    obtain ⟨o, -, rfl⟩ := Option.map_eq_some_iff.1 h
    exact .sends (sends_data _) (packets_nop .spi)
  | uartDisable i =>
    obtain ⟨-, h⟩ := Option.ite_none_right_eq_some.1 h
    obtain rfl := Option.some.inj h
    exact .sends (sends_data _) (packets_disableUart .uart)
  | i2cSend i data callback =>
    obtain ⟨o, -, rfl⟩ := Option.map_eq_some_iff.1 h
    exact outcome_i2cSend o data callback
  | i2cRead i length callback =>
    obtain ⟨o, -, rfl⟩ := Option.map_eq_some_iff.1 h
    exact outcome_i2cRead o length callback
  | i2cTransfer i txbuf rxlen callback =>
    obtain ⟨o, -, rfl⟩ := Option.map_eq_some_iff.1 h
    exact outcome_i2cTransfer o txbuf rxlen callback
  | spiSend i data callback =>
    obtain ⟨o, -, rfl⟩ := Option.map_eq_some_iff.1 h
    exact outcome_spiSend o data callback
  | spiReceive i length callback =>
    obtain ⟨o, -, rfl⟩ := Option.map_eq_some_iff.1 h
    exact outcome_spiReceive o length callback
  | spiTransfer i data callback =>
    obtain ⟨o, -, rfl⟩ := Option.map_eq_some_iff.1 h
    exact outcome_spiTransfer o data callback
  | uartWrite i chunk callback =>
    obtain ⟨-, h⟩ := Option.ite_none_right_eq_some.1 h
    obtain rfl := Option.some.inj h
    exact outcome_uartWrite n.uart chunk callback

/-- What a call does to the socket. -/
inductive Step (n n' : NodePort) (c : PeripheralCall) : Prop
  /-- Whole commands are written. -/
  | pushed {bs : List Byte} {rs : List Reply} (h : n'.sock = n.sock.push c.protocol bs rs)
    (hp : Packets c.protocol (n.transfers c) (n.sets c) bs)
  /-- The socket stays corked. -/
  | corked {bs : List Byte} {rs : List Reply} (h : n'.sock = n.sock.cork.push c.protocol bs rs)
    (hn : n.transfers c = false)

theorem step_of_call (hs : n.sock.Valid) (h : n.call fl c = some n') : Step n n' c := by
  obtain ⟨m, hm, rfl⟩ := Option.map_eq_some_iff.1 h
  cases outcome hm with
  | sends h hp =>
    rw [h.run c.protocol hs]
    exact .pushed rfl hp
  | throws hm h hp =>
    rw [hm, run_throw h c.protocol hs]
    exact .pushed rfl hp
  | hangs hm h hn _ =>
    rw [hm, run_throw_corked h c.protocol]
    exact .corked rfl hn

theorem Step.valid (h : Step n n' c) (hs : n.sock.Valid) : n'.sock.Valid := by
  cases h with
  | pushed h _ =>
    rw [h]
    exact hs.push
  | corked h _ =>
    rw [h]
    exact (Sock.Valid.cork _).push

/-- A corked socket stays corked, and sends nothing. -/
theorem Step.of_corked (h : Step n n' c) (hc : n.sock.corked ≠ 0) :
    n'.sock.corked ≠ 0 ∧ n'.sock.sent = n.sock.sent := by
  cases h with
  | pushed h _ =>
    rw [h, Sock.corked_push, Sock.sent_push_of_corked hc]
    exact ⟨hc, rfl⟩
  | corked h _ =>
    rw [h, Sock.corked_push, Sock.sent_push_of_corked (Nat.succ_ne_zero _)]
    exact ⟨Nat.succ_ne_zero _, rfl⟩

/-- A call only adds to what has been sent. -/
theorem Step.sent (h : Step n n' c) : ∃ stream, n'.sock.sent = n.sock.sent ++ stream := by
  by_cases hc : n.sock.corked = 0
  · cases h with
    | pushed h _ => exact ⟨_, by rw [h, Sock.sent_push hc]⟩
    | corked h _ =>
      refine ⟨[], ?_⟩
      rw [h, Sock.sent_push_of_corked (Nat.succ_ne_zero _), List.append_nil]
      rfl
  · exact ⟨[], by rw [(h.of_corked hc).2, List.append_nil]⟩

/-- On a corked socket nothing is executed any more. -/
theorem ordered_of_corked (cs : List PeripheralCall) : ∀ (n : NodePort) (m : PortMode),
    n.sock.Valid → n.sock.corked ≠ 0 → Ordered fl m n cs := by
  induction cs with
  | nil => exact fun _ _ _ _ => trivial
  | cons c cs ih =>
    intro n m hs hc
    refine ⟨fun h => absurd h hc, fun n' hn' => ?_⟩
    have hstep := step_of_call hs hn'
    exact ih n' _ (hstep.valid hs) (hstep.of_corked hc).1

theorem sent_calls (cs : List PeripheralCall) : ∀ n : NodePort, n.sock.Valid →
    n.calls fl cs = some n' → ∃ stream, n'.sock.sent = n.sock.sent ++ stream ∧
      (n.sock.corked ≠ 0 → stream = []) := by
  induction cs with
  | nil =>
    intro n _ h
    obtain rfl := Option.some.inj h
    exact ⟨[], by rw [List.append_nil], fun _ => rfl⟩
  | cons c cs ih =>
    intro n hs h
    obtain ⟨n₁, h₁, h⟩ := Option.bind_eq_some_iff.1 h
    have hstep := step_of_call hs h₁
    obtain ⟨stream₁, hsent₁⟩ := hstep.sent
    obtain ⟨stream, hsent, hnil⟩ := ih n₁ (hstep.valid hs) h
    refine ⟨stream₁ ++ stream, by rw [hsent, hsent₁, List.append_assoc], fun hc => ?_⟩
    obtain ⟨hc₁, hsame⟩ := hstep.of_corked hc
    rw [hsame] at hsent₁
    rw [hnil hc₁, List.append_nil]
    exact List.self_eq_append_right.1 hsent₁

/-- A run of the program, from a port that waits for a command. -/
theorem agrees_calls (cs : List PeripheralCall) : ∀ (n : NodePort) (p : PortData),
    n.sock.Valid → n.calls fl cs = some n' → p.state = .readCmd → n.sock.corked = 0 →
    ∃ stream, n'.sock.sent = n.sock.sent ++ stream ∧ (Agrees p stream ↔ Ordered fl p.mode n cs) := by
  induction cs with
  | nil =>
    intro n p _ h _ _
    obtain rfl := Option.some.inj h
    exact ⟨[], by rw [List.append_nil], Iff.rfl⟩
  | cons c cs ih =>
    intro n p hs h hp hc
    obtain ⟨n₁, h₁, h⟩ := Option.bind_eq_some_iff.1 h
    have hstep := step_of_call hs h₁
    have hs₁ := hstep.valid hs
    have hordered : Ordered fl p.mode n (c :: cs) ↔
        (n.transfers c → p.mode = c.protocol) ∧ Ordered fl (n.sets c p.mode) n₁ cs := by
      refine ⟨fun ho => ⟨ho.1 hc, ho.2 n₁ h₁⟩, fun ho => ⟨fun _ => ho.1, fun n₂ h₂ => ?_⟩⟩
      obtain rfl : n₁ = n₂ := Option.some.inj (h₁.symm.trans h₂)
      exact ho.2
    rw [hordered]
    cases hstep with
    | corked hsock hn =>
      -- the bytes of the call stay in node, and so do all later ones
      have hc₁ : n₁.sock.corked ≠ 0 := by
        rw [hsock, Sock.corked_push]
        exact Nat.succ_ne_zero _
      have hsame : n₁.sock.sent = n.sock.sent := by
        rw [hsock, Sock.sent_push_of_corked (Nat.succ_ne_zero _)]
        rfl
      obtain ⟨stream, hsent, hnil⟩ := sent_calls cs n₁ hs₁ h
      rw [hnil hc₁] at hsent
      refine ⟨[], by rw [hsent, hsame], fun _ => ⟨by simp [hn], ?_⟩, fun _ => trivial⟩
      exact ordered_of_corked cs n₁ _ hs₁ hc₁
    | @pushed bs rs hsock hpack =>
      have hc₁ : n₁.sock.corked = 0 := by rw [hsock, Sock.corked_push, hc]
      have hpush : n₁.sock.sent = n.sock.sent ++ tagged c.protocol bs := by
        rw [hsock, Sock.sent_push hc]
        rfl
      by_cases hmode : n.transfers c → p.mode = c.protocol
      · obtain ⟨hagrees, hstate, hset⟩ := hpack.run p hp hmode
        obtain ⟨stream, hsent, hiff⟩ := ih n₁ (p.consumeAll bs) hs₁ h hstate hc₁
        refine ⟨tagged c.protocol bs ++ stream, by rw [hsent, hpush, List.append_assoc], ?_⟩
        rw [PortData.agrees_append, PortData.map_snd_tagged, hiff, hset]
        exact ⟨fun h => ⟨hmode, h.2⟩, fun h => ⟨hagrees, h.2⟩⟩
      · obtain ⟨stream, hsent, -⟩ := sent_calls cs n₁ hs₁ h
        refine ⟨tagged c.protocol bs ++ stream, by rw [hsent, hpush, List.append_assoc], ?_⟩
        rw [PortData.agrees_append]
        simp only [not_forall] at hmode
        obtain ⟨htransfers, hne⟩ := hmode
        exact iff_of_false (fun h => hpack.stop htransfers p hp hne h.1)
          fun h => hne (h.1 htransfers)

end Calls

/-- **Which runs of the program execute their transfers in the mode of the object's protocol.** -/
theorem agrees_iff_ordered {fl : Rounding} {cs : List PeripheralCall} {n : NodePort}
    (h : NodePort.init.calls fl cs = some n) {p : PortData} (hp : p.state = .readCmd)
    (hm : p.mode = .none) :
    Agrees p n.sock.sent ↔ Ordered fl .none .init cs := by
  obtain ⟨stream, hsent, hiff⟩ := agrees_calls cs .init p (fun _ => rfl) h hp rfl
  rw [hsent, ← hm]
  exact hiff

/-- An `I2C` with the default frequency. -/
def i2cParams : I2CParams := ⟨some 0x1d, none⟩

/-- An `SPI` with default parameters. -/
def spiParams : SPIParams := ⟨none, .undefined, none, none, .undefined, .undefined⟩

/-- A port of the coprocessor after `port_enable`. -/
def enabledPort : PortData :=
  { PortData.init portA (fun _ => 0#16) with state := .readCmd }

/-- A read of an `I2C` that has just been constructed. -/
theorem agrees_i2cRead : ∃ n,
    NodePort.init.calls .ideal [.i2c i2cParams, .i2cRead 0 2 none] = some n ∧
      Agrees enabledPort n.sock.sent := by
  have hrun : (NodePort.init.calls .ideal [.i2c i2cParams, .i2cRead 0 2 none]).isSome := by
    decide +kernel
  obtain ⟨n, hn⟩ := Option.isSome_iff_exists.1 hrun
  have hset : NodePort.init.sets (.i2c i2cParams) .none = .i2c := by decide +kernel
  have hordered : Ordered .ideal .none .init [.i2c i2cParams, .i2cRead 0 2 none] :=
    ⟨fun _ h => (Bool.false_ne_true h).elim, fun _ _ => ⟨fun _ _ => hset, fun _ _ => trivial⟩⟩
  exact ⟨n, hn, (agrees_iff_ordered hn rfl rfl).2 hordered⟩

/-- After an `SPI` has been constructed, an `I2C` sends its START to a coprocessor in SPI mode. -/
theorem i2c_read_in_spi_mode : ∃ n,
    NodePort.init.calls .ideal [.i2c i2cParams, .spi spiParams, .i2cRead 0 2 none] = some n ∧
      ¬ Agrees enabledPort n.sock.sent := by
  have hrun : (NodePort.init.calls .ideal
      [.i2c i2cParams, .spi spiParams, .i2cRead 0 2 none]).map (·.sock.sent) =
      some ((tagged .i2c [12#8, 234#8] ++ tagged .spi [4#8, 5#8, 10#8, 0#8, 11#8, 1#8]) ++
        tagged .i2c [19#8, 0x3b#8, 17#8, 2#8, 20#8]) := by
    decide +kernel
  obtain ⟨n, hn, hsent⟩ := Option.map_eq_some_iff.1 hrun
  refine ⟨n, hn, fun h => ?_⟩
  rw [hsent, PortData.agrees_append] at h
  exact PortData.not_agrees_command (by decide +kernel) (by decide +kernel) rfl _ _ h.2

end Node

end TesselFirmware
