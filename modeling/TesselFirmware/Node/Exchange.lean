import TesselFirmware.Node.Pending
import TesselFirmware.Node.Request
import TesselFirmware.Port.Packets

/-!
# Commands and replies (`node/tessel-export.js`, `firmware/port.c`)

`Exchange` is a port of node together with the coprocessor that executes its commands.  Requests,
the execution of single bytes, reports of pins and of the UART, reads of the socket and iterations
of the `'readable'` handler come in any order.

* `Exchange.Agreed` : the replies between the port and the handler are those for the entries of
  `replyQueue`, in order;
* `Exchange.agreement` : the handler never throws, and each callback is called with the reply to
  its own request.
-/

namespace TesselFirmware

namespace Node

open PortData

/-- The calls that a callback makes are steps of their own, after the iteration that has called
it. -/
def quiet : Program := fun _ c => c

/-- A report of a pin, or of what the UART has received. -/
def Message.isReport : Message → Bool
  | uart rxData => decide (rxData.length < 256)
  | async byte => decide (0xA0 ≤ byte.toNat) && byte != replyAsyncUartRx
  | _ => false

namespace Client

variable {c c' : Client}

/-- The callbacks that have been called, with what they were called with. -/
def called (c : Client) : List Owed :=
  c.told.filterMap fun
    | .reply queued data => some ⟨queued, data⟩
    | _ => none

/-- From `c` to `c'` no command has been dequeued or added. -/
structure Undisturbed (c c' : Client) : Prop where
  replyQueue : c'.replyQueue = c.replyQueue
  called : c'.called = c.called

namespace Undisturbed

theorem trans {c'' : Client} (h : Undisturbed c c') (h' : Undisturbed c' c'') :
    Undisturbed c c'' := ⟨h'.replyQueue.trans h.replyQueue, h'.called.trans h.called⟩

theorem onPin (c : Client) (pin : Fin 8) (f : PinState → PinState) :
    Undisturbed c (c.onPin pin f) := ⟨rfl, rfl⟩

theorem told (c : Client) {t : Told} (h : ∀ queued data, t ≠ .reply queued data) :
    Undisturbed c { c with told := c.told ++ [t] } := by
  refine ⟨rfl, ?_⟩
  rw [Client.called, List.filterMap_append]
  cases t with
  | reply queued data => exact absurd rfl (h queued data)
  | _ => exact List.append_nil _

theorem callListener (c : Client) (pin : Fin 8) (event : IntMode) (l : Listener) :
    Undisturbed c (c.callListener quiet pin event l) := by
  unfold Client.callListener
  dsimp only
  split_ifs
  · exact (onPin c pin _).trans (told _ fun _ _ h => Told.noConfusion h)
  · exact told _ fun _ _ h => Told.noConfusion h

theorem emit (c : Client) (pin : Fin 8) (event : IntMode) (pinValue : Option Bool) :
    Undisturbed c (c.emit quiet pin event pinValue) := by
  have hfold (ls : List Listener) : ∀ c : Client,
      Undisturbed c (ls.foldl (·.callListener quiet pin event ·) c) := by
    induction ls with
    | nil => exact fun c => ⟨rfl, rfl⟩
    | cons l ls ih => exact fun c => (callListener c pin event l).trans (ih _)
  exact (told c fun _ _ h => Told.noConfusion h).trans (hfold _ _)

theorem pinChange (c : Client) (pin : Fin 8) (pinValue : Bool) :
    Undisturbed c (c.pinChange quiet pin pinValue) := by
  unfold Client.pinChange
  split
  · exact (emit c pin .low none).trans (onPin _ pin _)
  · exact (emit c pin .high none).trans (onPin _ pin _)
  · exact (emit c pin .change (some pinValue)).trans (emit _ pin _ none)

/-- A report of a pin or of the UART. -/
theorem report (c : Client) {m : Message} (h : m.isReport) : Undisturbed c (m.handle quiet c) := by
  cases m with
  | uart rxData =>
    unfold Message.handle
    split_ifs
    · exact told c fun _ _ h => Told.noConfusion h
    · exact ⟨rfl, rfl⟩
  | async byte =>
    show Undisturbed c (c.async quiet byte)
    unfold Client.async
    split
    · exact pinChange c _ _
    · exact told c fun _ _ h => Told.noConfusion h
  | data bytes => cases h
  | level byte => cases h

end Undisturbed

end Client

/-- A method puts into the queue of the port what it puts into that of a socket, and calls no
callback. -/
theorem Client.perform_run (m : Method) {c : Client} {s : Sock Unit}
    (h : s.replyQueue = c.replyQueue) :
    (c.perform m).replyQueue = (Sock.run () m s).1.replyQueue ∧ (c.perform m).told = c.told := by
  induction m generalizing c s with
  | nil => exact ⟨h.symm, rfl⟩
  | cons op m ih =>
    cases op with
    | cork => exact ih h
    | uncork =>
      refine ih (s := s.uncork) ?_
      rw [← h]
      unfold Sock.uncork
      split <;> rfl
    | write bs =>
      refine ih (s := s.write () bs) ?_
      rw [← h]
      unfold Sock.write
      split_ifs <;> rfl
    | enqueue r => exact ih (s := s.enqueue r) (congrArg (· ++ [r]) h)
    | throw => exact ⟨h.symm, rfl⟩

/-- A method that returns adds its entries to the queue. -/
theorem Sends.perform {m : Method} {bs : List Byte} {rs : List Reply} (h : Sends m bs rs)
    (c : Client) :
    (c.perform m).replyQueue = c.replyQueue ++ rs ∧ (c.perform m).called = c.called := by
  have hvalid : Sock.Valid (⟨0, [], [], c.replyQueue⟩ : Sock Unit) := fun _ => rfl
  obtain ⟨hqueue, htold⟩ := c.perform_run m (s := ⟨0, [], [], c.replyQueue⟩) rfl
  rw [h.run () hvalid] at hqueue
  refine ⟨hqueue, ?_⟩
  rw [Client.called, htold]
  rfl

/-! ### What is on its way -/

/-- A report, or the reply for an entry of the queue. -/
inductive Sent
  | report (m : Message)
  | reply (o : Owed)

namespace Sent

def message : Sent → Message
  | report m => m
  | reply ⟨_, .data bs⟩ => .data bs
  | reply ⟨_, .byte b⟩ => .level b

def owed : Sent → Option Owed
  | report _ => none
  | reply o => some o

def Sound : Sent → Prop
  | report m => m.isReport
  | reply o => o.Sound

theorem bytes_reply (o : Owed) : (reply o).message.bytes = o.data.bytes := by
  obtain ⟨reply, data⟩ := o
  cases data <;> rfl

variable {s : Sent} {c : Client} {queue : List Reply}

/-- The handler takes what the first entry of the queue waits for. -/
theorem fits (h : s.Sound) (hq : c.replyQueue = s.owed.toList.map Owed.reply ++ queue) :
    s.message.Fits c.replyQueue := by
  cases s with
  | report m =>
    cases m with
    | uart rxData =>
      have hlen : rxData.length < 256 := of_decide_eq_true h
      exact hlen
    | async byte =>
      simp only [Sound, Message.isReport, Bool.and_eq_true, decide_eq_true_eq, bne_iff_ne] at h
      exact h
    | data bytes => cases h
    | level byte => cases h
  | reply o =>
    obtain ⟨reply, data⟩ := o
    rw [hq]
    cases data with
    | data bs => exact ⟨h.1, congrArg some h.2.symm⟩
    | byte b => exact ⟨h, List.cons_ne_nil _ _⟩

/-- The handler calls the callback of the entry. -/
theorem handle (h : s.Sound) (hq : c.replyQueue = s.owed.toList.map Owed.reply ++ queue) :
    (s.message.handle quiet c).replyQueue = queue ∧
      (s.message.handle quiet c).called = c.called ++ s.owed.toList := by
  cases s with
  | report m =>
    obtain ⟨hqueue, hcalled⟩ := Client.Undisturbed.report c h
    exact ⟨hqueue.trans hq, hcalled.trans (List.append_nil _).symm⟩
  | reply o =>
    obtain ⟨reply, data⟩ := o
    have hanswer (d : ReplyData) : c.answer quiet d = c.dequeue.tell quiet (.reply reply d) := by
      unfold Client.answer
      rw [hq]
      rfl
    have hboth (d : ReplyData) : (c.answer quiet d).replyQueue = queue ∧
        (c.answer quiet d).called = c.called ++ [⟨reply, d⟩] := by
      rw [hanswer]
      refine ⟨?_, ?_⟩
      · show c.replyQueue.tail = queue
        rw [hq]
        rfl
      · show (c.told ++ [Told.reply reply d]).filterMap _ = _
        rw [List.filterMap_append]
        rfl
    cases data with
    | data bs => exact hboth _
    | byte b => exact hboth _

end Sent

/-- An iteration that has not received all of a message waits for the rest. -/
theorem Reader.pass_prefix (program : Program) {c : Client} {m : Message}
    {buf rest more : List Byte} (h : m.Fits c.replyQueue)
    (heq : buf ++ more = m.bytes ++ rest) :
    (∃ rest', buf = m.bytes ++ rest' ∧ rest = rest' ++ more) ∨
      pass program ⟨buf, c⟩ = .wait := by
  have hall : pass program (receive ⟨buf, c⟩ more) = .again ⟨rest, m.handle program c⟩ := by
    rw [receive, heq]
    exact pass_message h rest
  obtain ⟨m', rest', hfit, hbuf⟩ | hstuck | hleaves := pass_cases program ⟨buf, c⟩
  · obtain rfl : buf = m'.bytes ++ rest' := hbuf
    have hpart : pass program ⟨m'.bytes ++ rest', c⟩ = .again ⟨rest', m'.handle program c⟩ :=
      pass_message hfit rest'
    have hpass := pass_receive hpart more
    have hrest : rest' ++ more = rest :=
      congrArg Reader.replyBuf (Pass.again.inj (hpass.symm.trans hall))
    rw [← hrest, ← List.append_assoc] at heq
    exact .inl ⟨rest', List.append_cancel_right heq, hrest.symm⟩
  · -- a byte that is not dispatched would not have been taken
    have hpart : pass program ⟨buf, c⟩ = .again ⟨buf, c⟩ := pass_stuck hstuck
    have hpass := pass_receive hpart more
    have hrest : buf ++ more = rest :=
      congrArg Reader.replyBuf (Pass.again.inj (hpass.symm.trans hall))
    have hlen := congrArg List.length (hrest.symm.trans heq)
    have hpos := bytes_length_pos m
    rw [List.length_append] at hlen
    omega
  · cases hleaves with
    | wait hwait => exact .inr hwait
    | throw error hthrow => cases (hthrow more).symm.trans hall

/-! ### The exchange -/

structure Exchange where
  /-- The requests so far. -/
  calls : List Request
  /-- What has been written, and not executed. -/
  outgoing : List Byte
  port : PortData
  /-- What has been replied, and not read from the socket. -/
  wire : List Byte
  reader : Reader

/-- What happens next. -/
inductive ExchangeEvent
  | request (c : Request)
  /-- The coprocessor executes a byte. -/
  | execute
  /-- The coprocessor reports a pin or what the UART has received. -/
  | report (m : Message)
  /-- The handler is called, and reads `n` bytes. -/
  | readable (n : ℕ)
  /-- An iteration of its loop. -/
  | pass

namespace Exchange

variable (name : PortName) (x : Exchange)

/-- Nothing has been requested, and the coprocessor waits for a command. -/
def start (p : PortData) : Exchange := ⟨[], [], p, [], ⟨[], .start⟩⟩

def request (c : Request) : Exchange :=
  { x with
    calls := x.calls ++ [c]
    outgoing := x.outgoing ++ c.bytes name
    reader := { x.reader with client := x.reader.client.perform (c.method name) } }

def machine : Machine Exchange ExchangeEvent where
  step x
    | .request c => some (x.request name c)
    | .execute =>
      match x.outgoing with
      | [] => none
      | b :: outgoing =>
        some { x with
          outgoing := outgoing
          port := x.port.consume b
          wire := x.wire ++ x.port.added b }
    | .report m => some { x with wire := x.wire ++ m.bytes }
    | .readable n =>
      some { x with wire := x.wire.drop n, reader := x.reader.receive (x.wire.take n) }
    | .pass =>
      match x.reader.pass quiet with
      | .again r => some { x with reader := r }
      | _ => none

/-- Requests are admitted when they will be executed, and reports come between complete replies. -/
def allows : ExchangeEvent → Bool
  | .request c => c.admitted name (x.port.consumeAll x.outgoing)
  | .report m => m.isReport && !x.port.dataOpen
  | _ => true

/-- The entries of the queue with the replies to their own requests, in the order of the calls. -/
def expected : PortData → List Request → List Owed
  | _, [] => []
  | p, c :: cs => c.owed name p ++ expected (p.consumeAll (c.bytes name)) cs

/-- The replies between the coprocessor and the handler, `part` of the next one, and those that are
still to be given, are those for the commands in the queue. -/
structure Agreed (p : PortData) (items : List Sent) (part : List Byte) (os : List Owed) : Prop where
  stream : x.reader.replyBuf ++ x.wire = items.flatMap (·.message.bytes) ++ part
  due : Due x.port part x.outgoing os
  queue : x.reader.client.replyQueue = (items.filterMap Sent.owed ++ os).map Owed.reply
  sound : ∀ s ∈ items, s.Sound
  expected : expected name p x.calls =
    x.reader.client.called ++ (items.filterMap Sent.owed ++ os)
  port : p.consumeAll (x.calls.flatMap (·.bytes name)) = x.port.consumeAll x.outgoing

variable {name x} {x' : Exchange} {p : PortData} {items : List Sent} {part : List Byte}
  {os : List Owed}

theorem expected_concat (cs : List Request) (c : Request) :
    expected name p (cs ++ [c]) = expected name p cs ++
      c.owed name (p.consumeAll (cs.flatMap (·.bytes name))) := by
  induction cs generalizing p with
  | nil => exact List.append_nil _
  | cons c' cs ih =>
    rw [List.cons_append, expected, ih, expected, List.append_assoc, List.flatMap_cons,
      consumeAll_append]

namespace Agreed

theorem request (h : Agreed name x p items part os) {c : Request}
    (hc : c.admitted name (x.port.consumeAll x.outgoing)) :
    ∃ os', Agreed name (x.request name c) p items part os' := by
  have hs := h.due.state
  obtain ⟨hperform, hcalled⟩ := (c.sends hs hc).perform x.reader.client
  have howed : (c.owed name (x.port.consumeAll x.outgoing)).map Owed.reply = c.replies name := by
    rw [Request.owed, List.map_map]
    exact List.map_id _
  refine ⟨os ++ c.owed name (x.port.consumeAll x.outgoing), h.stream, h.due.append (c.due hs hc),
    ?_, h.sound, ?_, ?_⟩
  · show (x.reader.client.perform (c.method name)).replyQueue = _
    rw [hperform, h.queue, ← howed, ← List.map_append, List.append_assoc]
  · show Exchange.expected name p (x.calls ++ [c]) =
      (x.reader.client.perform (c.method name)).called ++ _
    rw [expected_concat, h.expected, h.port, hcalled, List.append_assoc, List.append_assoc]
  · show p.consumeAll ((x.calls ++ [c]).flatMap _) = x.port.consumeAll (x.outgoing ++ _)
    rw [List.flatMap_append, consumeAll_append, h.port, consumeAll_append, List.flatMap_cons,
      List.flatMap_nil, List.append_nil]

theorem execute (h : Agreed name x p items part os) {b : Byte} {outgoing : List Byte}
    (hx : x.outgoing = b :: outgoing) :
    ∃ items' part' os', Agreed name { x with
      outgoing := outgoing
      port := x.port.consume b
      wire := x.wire ++ x.port.added b } p items' part' os' := by
  obtain ⟨hstream, hdue, hqueue, hsound, hexpected, hport⟩ := h
  rw [hx] at hdue hport
  cases hdue with
  | part hopen hdue =>
    refine ⟨items, part ++ x.port.added b, os, ?_, hdue, hqueue, hsound, hexpected, hport⟩
    show x.reader.replyBuf ++ (x.wire ++ x.port.added b) = _
    rw [← List.append_assoc, hstream, List.append_assoc]
  | @whole _ _ _ _ o os hopen hadd heq hsound' hdue =>
    -- a reply is complete
    have howed : (items ++ [Sent.reply o]).filterMap Sent.owed ++ os =
        items.filterMap Sent.owed ++ o :: os := by
      rw [List.filterMap_append, List.append_assoc]
      rfl
    refine ⟨items ++ [.reply o], [], os, ?_, hdue, ?_, ?_, ?_, hport⟩
    · show x.reader.replyBuf ++ (x.wire ++ x.port.added b) = _
      rw [← List.append_assoc, hstream, List.append_assoc, heq, List.flatMap_append,
        List.flatMap_cons, List.flatMap_nil, Sent.bytes_reply, List.append_nil, List.append_nil]
    · rw [howed]
      exact hqueue
    · intro s hs
      obtain hs | hs := List.mem_append.1 hs
      · exact hsound s hs
      · obtain rfl := List.mem_singleton.1 hs
        exact hsound'
    · rw [howed]
      exact hexpected

theorem report (h : Agreed name x p items part os) {m : Message} (hm : m.isReport)
    (hopen : x.port.dataOpen = false) :
    ∃ items', Agreed name { x with wire := x.wire ++ m.bytes } p items' part os := by
  obtain ⟨hstream, hdue, hqueue, hsound, hexpected, hport⟩ := h
  obtain rfl := hdue.part_eq_nil hopen
  have howed : (items ++ [Sent.report m]).filterMap Sent.owed = items.filterMap Sent.owed := by
    rw [List.filterMap_append]
    exact List.append_nil _
  refine ⟨items ++ [.report m], ?_, hdue, by rwa [howed], ?_, by rwa [howed], hport⟩
  · show x.reader.replyBuf ++ (x.wire ++ m.bytes) = _
    rw [← List.append_assoc, hstream, List.flatMap_append, List.append_nil, List.append_nil]
    simp [Sent.message]
  · intro s hs
    obtain hs | hs := List.mem_append.1 hs
    · exact hsound s hs
    · obtain rfl := List.mem_singleton.1 hs
      exact hm

theorem readable (h : Agreed name x p items part os) (n : ℕ) :
    Agreed name { x with wire := x.wire.drop n, reader := x.reader.receive (x.wire.take n) } p
      items part os := by
  obtain ⟨hstream, hdue, hqueue, hsound, hexpected, hport⟩ := h
  refine ⟨?_, hdue, hqueue, hsound, hexpected, hport⟩
  show x.reader.replyBuf ++ x.wire.take n ++ x.wire.drop n = _
  rw [List.append_assoc, List.take_append_drop, hstream]

/-- **An iteration** takes the next reply or report when all of it has been received, and waits
otherwise. -/
theorem pass (h : Agreed name x p items part os) :
    (x.reader.pass quiet = .wait ∧ (x.wire = [] → part = [] → items = [])) ∨
      ∃ r s items', items = s :: items' ∧ x.reader.pass quiet = .again r ∧
        Agreed name { x with reader := r } p items' part os := by
  obtain ⟨hstream, hdue, hqueue, hsound, hexpected, hport⟩ := h
  obtain ⟨calls, outgoing, port, wire, ⟨buf, client⟩⟩ := x
  dsimp only at hstream hdue hqueue hexpected hport ⊢
  cases items with
  | nil =>
    -- at most a part of the next reply is there
    refine .inl ⟨?_, fun _ _ => rfl⟩
    rw [List.flatMap_nil, List.nil_append] at hstream
    by_cases hpart : part = []
    · rw [hpart] at hstream
      obtain ⟨rfl, -⟩ := List.append_eq_nil_iff.1 hstream
      rfl
    · obtain ⟨o, os', rest, rfl, hrest, heq, hsound'⟩ := hdue.proper hpart
      have hfits : (Sent.reply o).message.Fits client.replyQueue :=
        Sent.fits (s := .reply o) hsound' hqueue
      have hbytes : buf ++ (wire ++ rest) = (Sent.reply o).message.bytes ++ [] := by
        rw [← List.append_assoc, hstream, heq, Sent.bytes_reply, List.append_nil]
      obtain ⟨rest', hbuf, hnil⟩ | hwait := Reader.pass_prefix quiet hfits hbytes
      · exact absurd (List.append_eq_nil_iff.1 (List.append_eq_nil_iff.1 hnil.symm).2).2 hrest
      · exact hwait
  | cons s items =>
    have hs := hsound s (List.mem_cons_self ..)
    have hsplit : (s :: items).filterMap Sent.owed = s.owed.toList ++ items.filterMap Sent.owed := by
      cases s <;> rfl
    rw [hsplit, List.append_assoc, List.map_append] at hqueue
    rw [hsplit, List.append_assoc] at hexpected
    have hfits := Sent.fits hs hqueue
    have hbytes : buf ++ wire =
        s.message.bytes ++ (items.flatMap (·.message.bytes) ++ part) := by
      rw [hstream, List.flatMap_cons, List.append_assoc]
    obtain ⟨rest', rfl, hrest⟩ | hwait := Reader.pass_prefix quiet hfits hbytes
    · obtain ⟨hqueue', hcalled⟩ := Sent.handle hs hqueue
      refine .inr ⟨_, s, items, rfl, Reader.pass_message hfits rest', hrest.symm, hdue, hqueue',
        fun t ht => hsound t (List.mem_cons_of_mem _ ht), ?_, hport⟩
      rw [hexpected, hcalled, List.append_assoc]
    · refine .inl ⟨hwait, ?_⟩
      rintro rfl rfl
      -- all of the message has been received
      rw [List.append_nil] at hbytes
      rw [hbytes, Reader.pass_message hfits] at hwait
      cases hwait

/-- The handler takes all replies and reports that have been received, and returns. -/
theorem ends (h : Agreed name x p items part os) :
    ∃ r items', Reader.Ends quiet x.reader (.returned r) ∧
      Agreed name { x with reader := r } p items' part os ∧
        (x.wire = [] → part = [] → items' = []) := by
  induction items generalizing x with
  | nil =>
    obtain ⟨hwait, -⟩ | ⟨r, s, items', hnil, -⟩ := h.pass
    · exact ⟨x.reader, [], Reader.ends_wait hwait, h, fun _ _ => rfl⟩
    · cases hnil
  | cons s items ih =>
    obtain ⟨hwait, hall⟩ | ⟨r, s, items', heq, hpass, h'⟩ := h.pass
    · exact ⟨x.reader, _, Reader.ends_wait hwait, h, hall⟩
    · obtain ⟨rfl, rfl⟩ := List.cons.inj heq
      obtain ⟨r', items', hends, h'', hall⟩ := ih h'
      exact ⟨r', items', (Reader.ends_again hpass).2 hends, h'', hall⟩

end Agreed

theorem agreed_start (hp : p.state = .readCmd) : Agreed name (start p) p [] [] [] :=
  ⟨rfl, .idle hp, rfl, fun _ hs => absurd hs List.not_mem_nil, rfl, rfl⟩

/-- **One step.** -/
theorem agreed_step {e : ExchangeEvent} (h : ∃ items part os, Agreed name x p items part os)
    (hok : x.allows name e) (hst : (machine name).step x e = some x') :
    ∃ items part os, Agreed name x' p items part os := by
  obtain ⟨items, part, os, h⟩ := h
  cases e with
  | request c =>
    obtain rfl := Option.some.inj hst
    exact ⟨items, part, h.request hok⟩
  | execute =>
    cases hx : x.outgoing with
    | nil =>
      simp only [machine, hx] at hst
      cases hst
    | cons b outgoing =>
      simp only [machine, hx] at hst
      obtain rfl := Option.some.inj hst
      exact h.execute hx
  | report m =>
    obtain rfl := Option.some.inj hst
    rw [allows, Bool.and_eq_true, Bool.not_eq_true'] at hok
    obtain ⟨items', h'⟩ := h.report hok.1 hok.2
    exact ⟨items', part, os, h'⟩
  | readable n =>
    obtain rfl := Option.some.inj hst
    exact ⟨items, part, os, h.readable n⟩
  | pass =>
    obtain ⟨hwait, -⟩ | ⟨r, s, items', -, hpass, h'⟩ := h.pass
    · simp only [machine, hwait] at hst
      cases hst
    · simp only [machine, hpass] at hst
      obtain rfl := Option.some.inj hst
      exact ⟨items', part, os, h'⟩

/-- The callbacks get the replies to their own requests. -/
structure Agrees (x : Exchange) (expected : List Owed) : Prop where
  /-- An iteration does not throw. -/
  pass : ∀ error, x.reader.pass quiet ≠ .throw error
  /-- The handler returns. -/
  returns : ∃ r, Reader.Ends quiet x.reader (.returned r)
  /-- The callbacks are called in order, each at most once, with their own replies. -/
  called : x.reader.client.called <+: expected
  /-- When all commands have been executed and all replies delivered, all of them are called. -/
  complete : x.outgoing = [] → x.wire = [] → ∃ r, Reader.Ends quiet x.reader (.returned r) ∧
    r.client.replyQueue = [] ∧ r.client.called = expected

theorem Agreed.agrees (h : Agreed name x p items part os) :
    x.Agrees (Exchange.expected name p x.calls) := by
  obtain ⟨r, items', hends, h', hall⟩ := h.ends
  refine ⟨fun error herror => ?_, ⟨r, hends⟩, ?_, fun hout hwire => ⟨r, hends, ?_⟩⟩
  · obtain ⟨hwait, -⟩ | ⟨r, s, items', -, hpass, -⟩ := h.pass
    · cases hwait.symm.trans herror
    · cases hpass.symm.trans herror
  · rw [h.expected]
    exact List.prefix_append _ _
  · have hdue := h.due
    rw [hout] at hdue
    cases hdue
    obtain rfl := hall hwire rfl
    exact ⟨h'.queue, (h'.expected.trans (List.append_nil _)).symm⟩

/-- **Agreement of commands and replies.**  For every sequence of requests with the sizes that the
API admits and in the modes that they need, whenever their bytes are executed, however the replies
are cut into reads and whatever reports come between them: the handler neither throws nor hangs, and
the callbacks are called in the order of the requests, each at most once and with what the
coprocessor has replied to its own request; all of them are called when everything has been executed
and delivered.  `tx` is executed as TX commands of 1 to 255 bytes each, which make up its data. -/
theorem agreement {es : List ExchangeEvent} (hp : p.state = .readCmd)
    (h : (machine name).Run (fun x e => x.allows name e) (start p) es x) :
    x.Agrees (expected name p x.calls) ∧
      ∀ (q : PortData) (data : List Byte) (callback : Option Callback), q.state = .readCmd →
        q.mode ≠ .none → data ≠ [] → ∃ bs payloads,
          (Request.tx data callback).bytes name = bs ++ syncBytes callback ∧
            DecodesTxs q bs payloads ∧ payloads.flatten = data := by
  constructor
  · have hinv : ∃ items part os, Agreed name x p items part os :=
      h.invariant ⟨[], [], [], agreed_start hp⟩ fun t e t' hI hok hst => agreed_step hI hok hst
    obtain ⟨items, part, os, hagreed⟩ := hinv
    exact hagreed.agrees
  · intro q data callback hq hm hne
    obtain ⟨payloads, htx, hflat⟩ := decodesTxs_txBytes data 0 hq hm
    exact ⟨_, payloads, (sends_tx hne callback).bytes, htx, hflat⟩

/-- SPI is enabled, two bytes are exchanged, and a pin is read.  The replies come in three reads, with
reports between them. -/
def txrxRun : List ExchangeEvent :=
  [.request (.command [Cmd.enableSpi, 0, 0, 1] (some 0)), .request (.txrx [5#8, 6#8] (some 1))] ++
    List.replicate 7 .execute ++ [.report (.async 0xC5#8)] ++ List.replicate 4 .execute ++
    [.report (.uart [9#8]), .readable 4, .pass, .pass, .request (.read Client.pin2 2), .execute, .execute,
      .readable 3, .readable 4, .pass, .pass, .pass]

theorem agreement_txrxRun :
    ∃ x, (machine .A).exec (start (started portA fun _ => 7#16)) txrxRun = some x ∧
      x.Agrees (expected .A (started portA fun _ => 7#16) x.calls) ∧
        x.reader.client.called = [⟨⟨1, some 0⟩, .data [0x88#8]⟩, ⟨⟨2, some 1⟩, .data [7#8, 7#8]⟩,
          ⟨⟨0, some 2⟩, .byte replyHigh⟩] := by
  have h : ((machine .A).execOk (allows .A) (start (started portA fun _ => 7#16)) txrxRun).any
      fun x => decide (x.reader.client.called = [⟨⟨1, some 0⟩, .data [0x88#8]⟩,
        ⟨⟨2, some 1⟩, .data [7#8, 7#8]⟩, ⟨⟨0, some 2⟩, .byte replyHigh⟩]) := by
    decide +kernel
  obtain ⟨x, hx, hcalled⟩ := (Option.any_eq_true _ _).1 h
  have hrun := Machine.run_of_execOk (fun x e => x.allows .A e) (fun _ _ hok => hok) hx
  have hstate : (started portA fun _ => 7#16).state = .readCmd := by decide +kernel
  exact ⟨x, hrun.exec_eq, (agreement hstate hrun).1, of_decide_eq_true hcalled⟩

end Exchange

end Node

end TesselFirmware
