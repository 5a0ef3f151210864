import TesselFirmware.System.Client
import TesselFirmware.System.Session

/-!
# What the client of a port gets

From the report of a connection to a port until it is reported closed, and as long as its pins, its
UART receiver and its timer are silent, all layers together (the sockets of `spid`, the transactions
of the bridge, its completion handler, the calls that go through `queue`, and `port.c`) do what the
port does alone with the bytes that its client sends.

* `System.Serves` : the session of a port in the system against a run of the port alone, and
  `System.Serves.step` : every step of the system is a step of this run or leaves it as it is;
* `System.run_of_session` : what a client sends is what this run receives;
* `System.written_prefix` : what the client gets is what the reference replies first;
* `System.written_eq` : at rest it gets all of it.
-/

namespace TesselFirmware

namespace System

open Bridge ControlPkt Link Transport

variable {s t : System} {i j : Fin 2} {start : PortData} {past : List Effect}

/-- A step of a session of a port: the transactions are orderly, sockets take everything that is
written, the operations of the port complete when they have been started, its pins, its UART
receiver and its timer do not interrupt, and the connection is neither opened nor closed. -/
def InSession (i : Fin 2) (s : System) : SystemLabel → Prop
  | .transfer sys pad => s.Isolating (.transfer sys pad) ∧ ∀ ch, sys.write ch = spidBufSize
  | .callback =>
    s.Isolating .callback ∧ ∀ cb, s.nextCallback = some cb → Preempt.edgeOf (portChan i) cb = none
  | .port j e => i = j → (s.ports j).scheduled e
  | lab => s.Isolating lab

instance (i : Fin 2) (s : System) (lab : SystemLabel) : Decidable (s.InSession i lab) :=
  match lab with
  | .transfer sys pad => inferInstanceAs
      (Decidable (s.Isolating (.transfer sys pad) ∧ ∀ ch, sys.write ch = spidBufSize))
  | .callback => inferInstanceAs (Decidable (s.Isolating .callback ∧
      ∀ cb, s.nextCallback = some cb → Preempt.edgeOf (portChan i) cb = none))
  | .port j e => inferInstanceAs (Decidable (i = j → (s.ports j).scheduled e))
  | .syncLow p => inferInstanceAs (Decidable (s.Isolating (.syncLow p)))
  | .setup sys toMcu toSoc => inferInstanceAs (Decidable (s.Isolating (.setup sys toMcu toSoc)))
  | .syncHigh => inferInstanceAs (Decidable (s.Isolating .syncHigh))
  | .copy => inferInstanceAs (Decidable (s.Isolating .copy))
  | .writeBack => inferInstanceAs (Decidable (s.Isolating .writeBack))
  | .perform => inferInstanceAs (Decidable (s.Isolating .perform))
  | .iter j => inferInstanceAs (Decidable (s.Isolating (.iter j)))
  | .usb e => inferInstanceAs (Decidable (s.Isolating (.usb e)))

theorem InSession.isolating {lab : SystemLabel} (h : s.InSession i lab) : s.Isolating lab := by
  cases lab with
  | transfer sys pad => exact h.1
  | callback => exact h.1
  | port j e => exact nofun
  | _ => exact h

/-- The port has been enabled for a connection in the step to `s₀`, and its session leads to `s`. -/
def Session (i : Fin 2) (s₀ s : System) : Prop :=
  ∃ (answers : Fin 2 → ℕ → BitVec 16) (labs labs' : List SystemLabel) (r : System),
    machine.Run Isolating (init answers) labs r ∧ r.Isolating .callback ∧
      r.nextCallback = some (.open (portChan i)) ∧ r.step .callback = some s₀ ∧
      machine.Run (InSession i) s₀ labs' s

/-- What a session of a port has come to: the events of the port, the port without its history, the
account of its connection, and the request and the reply that have not reached the bridge. -/
structure Serving where
  events : List PortEvent
  port : PortData
  account : Account
  out : Bool
  inn : Option (List Byte)

/-- The calls that pass a request and a reply to the bridge. -/
def calls (i : Fin 2) (out : Bool) (inn : Option (List Byte)) : List Call :=
  (if out then [.startOut (portChan i) cmdBufPtr] else []) ++
    (inn.map fun bs => .startIn (portChan i) replyBufPtr (BitVec.ofNat 8 bs.length)).toList

/-- The session has come to `x`, in which the port has the history `past` behind it. -/
structure Serves (s : System) (i : Fin 2) (start : PortData) (past : List Effect) (x : Serving) :
    Prop where
  port : s.ports i = x.port.after past
  run : PortData.machine.Run (fun p e => p.scheduled e) start x.events x.port
  client : Client s.link (portChan i) x.port x.account x.out x.inn
  reported : x.account.reported = received x.events
  queue : ∃ rest, (∀ c ∈ rest, c = .disableChan (portChan i) ∧
      .call .disableChan ∈ x.port.effects) ∧
    s.queue.filter (·.chan = portChan i) = calls i x.out x.inn ++ rest

/-! ### The calls of a port -/

theorem callsOf_append (i : Fin 2) (es es' : List Effect) :
    callsOf i (es ++ es') = callsOf i es ++ callsOf i es' := List.filterMap_append

theorem chan_callsOf {es : List Effect} {c : Call} (h : c ∈ callsOf i es) :
    c.chan = portChan i := by
  obtain ⟨pc, -, rfl⟩ := mem_callsOf h
  exact chan_toCall pc _

theorem filter_callsOf (i : Fin 2) (es : List Effect) :
    (callsOf i es).filter (·.chan = portChan i) = callsOf i es :=
  List.filter_eq_self.2 fun _ hc => decide_eq_true (chan_callsOf hc)

theorem filter_callsOf_of_ne (hij : i ≠ j) (es : List Effect) :
    (callsOf j es).filter (·.chan = portChan i) = [] := by
  refine List.filter_eq_nil_iff.2 fun c hc heq => hij ?_
  exact portChan_injective ((of_decide_eq_true heq).symm.trans (chan_callsOf hc))

/-- Of the calls of a handler, those after the request and the reply disable the channel. -/
theorem callsOf_passes {p q : PortData} {out : Bool} {inn : Option (List Byte)}
    (h : p.Passes q out inn) : ∃ rest, (∀ c ∈ rest, c = .disableChan (portChan i) ∧
      .call .disableChan ∈ q.effects) ∧
    callsOf i (q.effects.drop p.effects.length) = calls i out inn ++ rest := by
  obtain ⟨es, hes, heff⟩ := h.effects
  refine ⟨callsOf i es, fun c hc => ?_, ?_⟩
  · obtain ⟨pc, hpc, rfl⟩ := mem_callsOf hc
    obtain rfl := hes _ hpc pc rfl
    refine ⟨rfl, ?_⟩
    rw [heff]
    exact List.mem_append_right _ (List.mem_append_right _ hpc)
  · have hout : callsOf i (if out then [Effect.call .startOut] else []) =
        if out then [.startOut (portChan i) cmdBufPtr] else [] := by
      split_ifs <;> rfl
    have hinn : callsOf i (inn.map fun bs => Effect.call (.startIn bs)).toList =
        (inn.map fun bs =>
          Call.startIn (portChan i) replyBufPtr (BitVec.ofNat 8 bs.length)).toList := by
      cases inn <;> rfl
    rw [heff, List.drop_left, callsOf_append, callsOf_append, hout, hinn]
    rfl

/-! ### Steps of the session -/

variable {x : Serving}

theorem stepping_of_calm (h : s.calm) (i : Fin 2) : (s.ports i).stepping = false := by
  rw [calm, Bool.and_eq_true, List.all_eq_true] at h
  have hport := h.2 i (List.mem_finRange i)
  rwa [Bool.not_eq_true'] at hport

/-- What is not seen by the session. -/
theorem Serves.frame (h : s.Serves i start past x) (hports : t.ports i = s.ports i)
    (hqueue : t.queue.filter (·.chan = portChan i) = s.queue.filter (·.chan = portChan i))
    (hclient : Client t.link (portChan i) x.port x.account x.out x.inn) :
    t.Serves i start past x where
  port := hports.trans h.port
  run := h.run
  client := hclient
  reported := h.reported
  queue := by
    obtain ⟨rest, hrest, hq⟩ := h.queue
    exact ⟨rest, hrest, hqueue.trans hq⟩

/-- When the queue is empty, everything is with the bridge. -/
theorem Serves.client_of_idle (h : s.Serves i start past x) (hq : s.queue = []) :
    Client s.link (portChan i) x.port x.account false none := by
  obtain ⟨rest, -, hfilter⟩ := h.queue
  rw [hq, List.filter_nil] at hfilter
  have hcalls : calls i x.out x.inn = [] := (List.append_eq_nil_iff.1 hfilter.symm).1
  have hclient := h.client
  obtain ⟨events, p, a, out, inn⟩ := x
  cases out with
  | true => cases hcalls
  | false =>
    cases inn with
    | none => exact hclient
    | some bs => cases hcalls

theorem Serves.idle (h : s.Serves i start past x) (hports : t.ports i = s.ports i)
    (hqueue : t.queue = [])
    (hclient : Client t.link (portChan i) x.port x.account false none) :
    t.Serves i start past ⟨x.events, x.port, x.account, false, none⟩ where
  port := hports.trans h.port
  run := h.run
  client := hclient
  reported := h.reported
  queue := ⟨[], nofun, congrArg (List.filter (·.chan = portChan i)) hqueue⟩

/-- **An event of the port** is an event of its run. -/
theorem serves_handlePort {e : PortEvent} {a : Account} (hport : s.ports i = x.port.after past)
    (hrun : PortData.machine.Run (fun p e => p.scheduled e) start x.events x.port)
    (hacc : x.port.accepts e) (hok : x.port.scheduled e)
    (hclient : Client s.link (portChan i) (x.port.taken e) a false none)
    (hreported : a.reported = received (x.events ++ [e])) (hqueue : s.queue = []) :
    ∃ y, (s.handlePort i e).Serves i start past y := by
  obtain ⟨out, inn, hp⟩ := PortData.passes_handle hok
  have hport' : (s.handlePort i e).ports i = (x.port.handle e).after past := by
    rw [handlePort_ports, if_pos rfl, hport, PortData.handle_after]
  have heffects : ((s.ports i).handle e).effects.drop (s.ports i).effects.length =
      (x.port.handle e).effects.drop (x.port.taken e).effects.length := by
    have htaken : (x.port.taken e).effects = x.port.effects := by
      cases e <;> rfl
    rw [hport, PortData.handle_after, htaken]
    show (past ++ _).drop (past ++ _).length = _
    rw [List.length_append, List.drop_length_add_append]
  refine ⟨⟨x.events ++ [e], x.port.handle e, a, out, inn⟩, hport', ?_, hclient.handle hp,
    hreported, ?_⟩
  · exact hrun.snoc hok (PortData.machine_step_eq_some.2 ⟨hacc, rfl⟩)
  · obtain ⟨rest, hrest, hcalls⟩ := callsOf_passes (i := i) hp
    refine ⟨rest, hrest, ?_⟩
    show (s.queue ++ callsOf i _).filter _ = _
    rw [hqueue, List.nil_append, filter_callsOf, heffects, hcalls]

/-- A call reaches the bridge. -/
theorem Serves.performed (h : s.Serves i start past x) (hord : s.link.InOrder) {c : Call}
    {rest : List Call} (hq : s.queue = c :: rest) :
    ∃ y, (s.performed c rest).Serves i start past y := by
  by_cases hc : c.chan = portChan i
  · obtain ⟨late, hlate, hfilter⟩ := h.queue
    have hclient := h.client
    rw [hq, List.filter_cons, if_pos (decide_eq_true hc)] at hfilter
    obtain ⟨events, p, a, out, inn⟩ := x
    cases out with
    | true =>
      -- the request is the first call
      obtain ⟨rfl, hrest⟩ := List.cons.inj hfilter
      exact ⟨⟨events, p, a, false, inn⟩, h.port, h.run, hclient.startOut hord cmdBufPtr,
        h.reported, late, hlate, hrest⟩
    | false =>
      cases inn with
      | some bs =>
        obtain ⟨rfl, hrest⟩ := List.cons.inj hfilter
        exact ⟨⟨events, p, { a with mem := bs, busy := true, passed := a.passed ++ bs }, false,
          none⟩, h.port, h.run, hclient.startIn replyBufPtr, h.reported, late, hlate, hrest⟩
      | none =>
        have hfilter' : c :: rest.filter (·.chan = portChan i) = late := hfilter
        obtain ⟨rfl, hp⟩ := hlate c (hfilter' ▸ List.mem_cons_self)
        refine ⟨⟨events, p, { a with kept := false }, false, none⟩, h.port, h.run,
          hclient.disableChan hp, h.reported, _, fun d hd => hlate d ?_, rfl⟩
        rw [← hfilter']
        exact List.mem_cons_of_mem _ hd
  · refine ⟨x, h.frame rfl ?_ (h.client.call hc)⟩
    rw [hq, List.filter_cons, if_neg fun heq => hc (of_decide_eq_true heq)]
    rfl

/-- A handler of the other port. -/
theorem Serves.handlePort_of_ne (h : s.Serves i start past x) (hij : i ≠ j) (e : PortEvent) :
    (s.handlePort j e).Serves i start past x := by
  refine h.frame ?_ ?_ h.client
  · rw [handlePort_ports, if_neg hij]
  · show (s.queue ++ callsOf j _).filter _ = _
    rw [List.filter_append, filter_callsOf_of_ne hij, List.append_nil]

theorem Serves.handlePipe (h : s.Serves i start past x) {r : UsbPipe × List Call}
    (hr : ∀ c ∈ r.2, c.chan = bridgeUsb) : (s.handlePipe r).Serves i start past x := by
  have hnil : r.2.filter (·.chan = portChan i) = [] := by
    refine List.filter_eq_nil_iff.2 fun c hc heq => ?_
    exact portChan_ne_usbd i ((of_decide_eq_true heq).symm.trans (hr c hc))
  refine h.frame rfl ?_ h.client
  show (s.queue ++ r.2).filter _ = _
  rw [List.filter_append, hnil, List.append_nil]

/-- An interrupt of the port, or a pass of the loop. -/
theorem Serves.handlePort (h : s.Serves i start past x) {e : PortEvent} (hq : s.queue = [])
    (hacc : (s.ports i).accepts e) (hok : (s.ports i).scheduled e)
    (htaken : ∀ p : PortData, p.taken e = p) (he : e.received = []) :
    ∃ y, (s.handlePort i e).Serves i start past y := by
  have hacc' : x.port.accepts e := by
    rw [h.port] at hacc
    cases e <;> exact hacc
  have hok' : x.port.scheduled e := by
    rw [h.port] at hok
    cases e <;> exact hok
  refine serves_handlePort h.port h.run hacc' hok' ?_ ?_ hq (a := x.account)
  · rw [htaken]
    exact h.client_of_idle hq
  · rw [received_append, received_singleton, he, List.append_nil]
    exact h.reported

/-- A callback to the port, other than those that open and close its connection. -/
theorem Serves.callbackPort (h : s.Serves i start past x) (hord : s.link.InOrder)
    (hopen : s.link.Opening (portChan i)) {cb : Callback} {todo : List Callback}
    (hrun : s.link.handler = .running (cb :: todo)) (hcalm : s.calm)
    (hcb : cb.chan = portChan i) (hedge : Preempt.edgeOf (portChan i) cb = none) :
    ∃ y, ((s.called todo).callbackPort i cb).Serves i start past y := by
  have hq := queue_eq_nil_of_calm hcalm
  have hclient := h.client_of_idle hq
  have hstep : x.port.stepping = false := by
    have hport := stepping_of_calm hcalm i
    rw [h.port] at hport
    exact hport
  cases cb with
  | «open» c =>
    obtain rfl : c = portChan i := hcb
    cases (if_pos rfl).symm.trans hedge
  | close c =>
    obtain rfl : c = portChan i := hcb
    cases (if_pos rfl).symm.trans hedge
  | completionOut c len =>
    obtain rfl : c = portChan i := hcb
    obtain ⟨hout, hpos, hle⟩ := hclient.packet hrun
    refine serves_handlePort (s := s.called todo) h.port h.run ?_ hout
      (hclient.completionOut hord hopen hrun) ?_ hq
    · simp only [PortData.accepts, hstep, Bool.not_false, Bool.true_and, Bool.and_eq_true,
        decide_eq_true_eq]
      exact ⟨hpos, hle⟩
    · rw [received_append, received_singleton]
      exact congrArg (· ++ (s.link.outMem (portChan i)).content len) h.reported
  | completionIn c =>
    obtain rfl : c = portChan i := hcb
    obtain ⟨hin, hclient'⟩ := hclient.completionIn hord hopen hrun
    refine serves_handlePort (s := (s.called todo).countIn i) h.port h.run ?_ hin hclient' ?_ hq
    · simp only [PortData.accepts, hstep, Bool.not_false]
    · rw [received_append, received_singleton]
      exact h.reported.trans (List.append_nil _).symm

/-- A callback to another client. -/
theorem Serves.callback_of_ne (h : s.Serves i start past x) (hord : s.link.InOrder)
    (hopen : s.link.Opening (portChan i)) {cb : Callback} {todo : List Callback}
    (hrun : s.link.handler = .running (cb :: todo)) (hq : s.queue = [])
    (hcb : cb.chan ≠ portChan i) :
    ∃ y, ((s.called todo).handleCallback cb).Serves i start past y := by
  have hcalled : (s.called todo).Serves i start past ⟨x.events, x.port, x.account, false, none⟩ :=
    h.idle rfl hq ((h.client_of_idle hq).callback hord hopen hrun hcb)
  obtain hz | ⟨j, hj⟩ := Fin.eq_zero_or_eq_succ cb.chan
  · rw [handleCallback_usb hz]
    exact ⟨_, hcalled.handlePipe (UsbPipe.chan_callback _ cb)⟩
  · have hij : i ≠ j := by
      rintro rfl
      exact hcb hj
    rw [handleCallback_port (j := j) hj]
    cases cb with
    | «open» c => exact ⟨_, hcalled.handlePort_of_ne hij _⟩
    | completionOut c len => exact ⟨_, hcalled.handlePort_of_ne hij _⟩
    | completionIn c =>
      have hcount : ((s.called todo).countIn j).Serves i start past
          ⟨x.events, x.port, x.account, false, none⟩ := hcalled.frame rfl rfl hcalled.client
      exact ⟨_, hcount.handlePort_of_ne hij _⟩
    | close c => exact ⟨_, hcalled.handlePort_of_ne hij _⟩

/-- The buffer of the port as the bridge sees it. -/
theorem map_memory {d : Desc} (hd : d.chan = portChan i) :
    (s.memory d).map Sent.byte = (s.ports i).replyBuf.cells := by
  have hlen : (s.ports i).replyBuf.cells.length ≤ (s.ports i).stamps.cells.length := by
    rw [Cells.length_cells, Cells.length_cells]
  rw [memory_portChan hd, List.map_zipWith]
  refine Eq.trans ?_ (List.map_fst_zip hlen)
  rw [List.zip_eq_zipWith, List.map_zipWith]

theorem taken_of_interrupts {e : PortEvent} (h : interrupts e) :
    (∀ p : PortData, p.taken e = p) ∧ e.received = [] := by
  cases e with
  | outCompletion packet => cases h
  | inCompletion => cases h
  | _ => exact ⟨fun _ => rfl, rfl⟩

/-- **Every step of the system** is an event of the run of the port, or leaves it as it is. -/
theorem Serves.step (h : s.Serves i start past x) (ht : s.Tracked) {lab : SystemLabel}
    (hok : s.InSession i lab) (hst : s.step lab = some t) : ∃ y, t.Serves i start past y := by
  have hord := ht.order
  have hopen := ht.opening i
  cases lab with
  | syncLow p =>
    obtain ⟨u, hu, rfl⟩ := Option.map_eq_some_iff.1 hst
    obtain ⟨l, hl, rfl⟩ := linkStep_eq_some.1 hu
    obtain ⟨hphase, -, rfl⟩ := step_syncLow.1 hl
    obtain ⟨hidle, hdone⟩ := hok _ rfl
    exact ⟨x, h.frame rfl rfl (h.client.syncLow ⟨hidle, hdone⟩ hphase p)⟩
  | setup sys toMcu toSoc =>
    obtain ⟨u, hu, rfl⟩ := Option.map_eq_some_iff.1 hst
    obtain ⟨l, hl, rfl⟩ := linkStep_eq_some.1 hu
    obtain ⟨p, hphase, rfl⟩ := step_setup.1 hl
    obtain ⟨rfl, rfl⟩ := hok _ rfl
    exact ⟨x, h.frame rfl rfl (h.client.setup hord hopen hphase sys)⟩
  | syncHigh =>
    obtain ⟨l, hl, rfl⟩ := linkStep_eq_some.1 hst
    obtain ⟨rx, hphase, rfl⟩ := step_syncHigh.1 hl
    exact ⟨x, h.frame rfl rfl (h.client.syncHigh hord hphase)⟩
  | transfer sys pad =>
    obtain ⟨l, hl, rfl⟩ := linkStep_eq_some.1 hst
    obtain ⟨rx, hphase, rfl⟩ := step_transfer.1 hl
    have hmem (d : Desc) (hd : d.chan = portChan i) :
        (s.memory d).map Sent.byte = x.port.replyBuf.cells := by
      rw [map_memory hd, h.port]
      rfl
    exact ⟨x, h.frame rfl rfl (h.client.transfer hord (portChan_ne_usbd i) hphase
      (hok.1 _ rfl rx hphase) hok.2 hmem pad)⟩
  | copy =>
    obtain ⟨hcalm, hst⟩ := Option.ite_none_right_eq_some.1 hst
    obtain ⟨u, hu, rfl⟩ := Option.map_eq_some_iff.1 hst
    obtain ⟨l, hl, rfl⟩ := linkStep_eq_some.1 hu
    obtain ⟨hidle, hdone, rfl⟩ := step_copy.1 hl
    have hq := queue_eq_nil_of_calm hcalm
    exact ⟨_, h.idle rfl hq ((h.client_of_idle hq).copy hord hidle hdone)⟩
  | callback =>
    obtain ⟨hcalm, hst⟩ := Option.ite_none_right_eq_some.1 hst
    obtain ⟨cb, hcb, hst⟩ := Option.bind_eq_some_iff.1 hst
    obtain ⟨u, hu, rfl⟩ := Option.map_eq_some_iff.1 hst
    obtain ⟨l, hl, rfl⟩ := linkStep_eq_some.1 hu
    obtain ⟨cb', todo, hrun, rfl⟩ := step_callback.1 hl
    obtain rfl : cb' = cb := Option.some.inj ((nextCallback_of_running hrun).symm.trans hcb)
    by_cases hchan : cb'.chan = portChan i
    · have hport := h.callbackPort hord hopen hrun hcalm hchan (hok.2 cb' hcb)
      rw [← handleCallback_port hchan] at hport
      exact hport
    · exact h.callback_of_ne hord hopen hrun (queue_eq_nil_of_calm hcalm) hchan
  | writeBack =>
    obtain ⟨hcalm, hst⟩ := Option.ite_none_right_eq_some.1 hst
    obtain ⟨l, hl, rfl⟩ := linkStep_eq_some.1 hst
    obtain ⟨hrun, rfl⟩ := step_writeBack.1 hl
    have hq := queue_eq_nil_of_calm hcalm
    exact ⟨_, h.idle rfl hq ((h.client_of_idle hq).writeBack hord hrun)⟩
  | perform =>
    cases hq : s.queue with
    | nil => simp [System.step, hq] at hst
    | cons c rest =>
      simp only [System.step, hq, Option.some.injEq] at hst
      subst hst
      exact h.performed hord hq
  | port j e =>
    obtain ⟨hcond, hst⟩ := Option.ite_none_right_eq_some.1 hst
    cases hst
    by_cases hij : i = j
    · subst hij
      rw [Bool.and_eq_true, Bool.and_eq_true] at hcond
      obtain ⟨⟨hcalm, -⟩, hint⟩ := hcond
      have hacc : (s.ports i).accepts e := by
        have hstep : (!(s.ports i).stepping) = true := by
          rw [stepping_of_calm hcalm i, Bool.not_false]
        cases e with
        | outCompletion packet => cases hint
        | iter => cases hint
        | _ => exact hstep
      obtain ⟨htaken, he⟩ := taken_of_interrupts hint
      exact h.handlePort (queue_eq_nil_of_calm hcalm) hacc (hok rfl) htaken he
    · exact ⟨x, h.handlePort_of_ne hij e⟩
  | iter j =>
    obtain ⟨hcond, hst⟩ := Option.ite_none_right_eq_some.1 hst
    cases hst
    by_cases hij : i = j
    · subst hij
      rw [Bool.and_eq_true, List.isEmpty_iff] at hcond
      exact h.handlePort hcond.1 hcond.2 rfl (fun _ => rfl) rfl
    · exact ⟨x, h.handlePort_of_ne hij .iter⟩
  | usb e =>
    obtain ⟨-, hst⟩ := Option.ite_none_right_eq_some.1 hst
    cases hst
    exact ⟨x, h.handlePipe (UsbPipe.chan_handle _ e)⟩

/-! ### Sessions -/

/-- The one call of `port_enable`. -/
theorem callsOf_enable (p : PortData) :
    callsOf i (p.enable.effects.drop p.effects.length) = calls i true none := by
  have hact : PortData.Emits (fun e => ∃ a, e = .action a)
      (p.emit .enabled).bridgeStartOut.reset p.enable :=
    (PortData.Emits.act (fun a => ⟨a, rfl⟩) _ _).trans
      (PortData.Emits.foldl _ (fun q i => PortData.Emits.gpio (fun a => ⟨a, rfl⟩) q .pullUp i)
        (.refl _) _)
  obtain ⟨es, hes, heff⟩ := hact.effects
  have hnone : callsOf i es = [] := by
    refine List.filterMap_eq_nil_iff.2 fun e he => ?_
    obtain ⟨a, rfl⟩ := hes e he
    rfl
  have heff' : p.enable.effects = p.effects ++ ([.enabled, .call .startOut] ++ es) := by
    rw [heff, ← List.append_assoc]
    exact congrArg (· ++ es) (List.append_assoc p.effects [_] [_])
  rw [heff', List.drop_left, callsOf_append, hnone]
  rfl

/-- A connection is reported to the port. -/
theorem step_open (hcb : s.nextCallback = some (.open (portChan i)))
    (hst : s.step .callback = some t) : s.calm ∧
      ∃ todo, s.link.handler = .running (.open (portChan i) :: todo) ∧
        t = (s.called todo).handlePort i .enable := by
  obtain ⟨hcalm, hst⟩ := Option.ite_none_right_eq_some.1 hst
  obtain ⟨cb, hcb', hst⟩ := Option.bind_eq_some_iff.1 hst
  obtain ⟨u, hu, rfl⟩ := Option.map_eq_some_iff.1 hst
  obtain ⟨l, hl, rfl⟩ := linkStep_eq_some.1 hu
  obtain ⟨cb', todo, hrun, rfl⟩ := step_callback.1 hl
  obtain rfl : cb' = cb := Option.some.inj ((nextCallback_of_running hrun).symm.trans hcb')
  obtain rfl : cb' = .open (portChan i) := Option.some.inj (hcb'.symm.trans hcb)
  exact ⟨hcalm, todo, hrun, handleCallback_port (j := i) rfl⟩

theorem ports_enable (s : System) (i : Fin 2) :
    (s.handlePort i .enable).ports i = (s.ports i).enable := by
  rw [handlePort_ports, if_pos rfl]
  rfl

/-- **A session starts** when a connection is reported to the port. -/
theorem serves_of_open (ht : s.Tracked) (hun : s.link.Unheard (portChan i))
    (hok : s.Isolating .callback) (hcb : s.nextCallback = some (.open (portChan i)))
    (hst : s.step .callback = some t) :
    ∃ x, t.Serves i (t.ports i).fresh (t.ports i).effects x := by
  obtain ⟨hcalm, todo, hrun, rfl⟩ := step_open hcb hst
  have hclient := Client.of_open ht.order (ht.opening i) hun hrun (hok i hcb)
    (p := (s.ports i).enable.fresh) rfl (PortData.pendingOut_enable (s.ports i))
  refine ⟨⟨[], (s.ports i).enable.fresh, ⟨[], false, [], [], true⟩, true, none⟩, ?_, ?_, hclient,
    rfl, [], nofun, ?_⟩
  · rw [ports_enable]
    exact (PortData.fresh_after _).symm
  · rw [ports_enable]
    exact .nil
  · have hq : s.queue = [] := queue_eq_nil_of_calm hcalm
    show (s.queue ++ callsOf i ((s.ports i).enable.effects.drop (s.ports i).effects.length)).filter
      _ = _
    rw [hq, List.nil_append, filter_callsOf, callsOf_enable, List.append_nil]

/-- Before a connection is reported, nothing is moved on it. -/
theorem tracked_of_isolating {answers : Fin 2 → ℕ → BitVec 16} {labs : List SystemLabel}
    (h : machine.Run Isolating (init answers) labs s) :
    s.Tracked ∧ s.link.Unheard (portChan i) := by
  refine h.invariant (I := fun s => s.Tracked ∧ s.link.Unheard (portChan i)) ?_
    fun t lab t' ⟨ht, hun⟩ hok hst => ⟨ht.step hok hst, ?_⟩
  · exact ⟨tracked_init answers,
      ((unheard_init _).call (.enableChan (portChan 0))).call (.enableChan (portChan 1))⟩
  · have hl := step_onLink hst
    cases honto : t.onLink lab with
    | none =>
      rw [honto] at hl
      have hl' : t'.link = t.link := hl
      rwa [hl']
    | some l =>
      rw [honto] at hl
      exact hun.step ht.order (ht.opening i) (portChan_ne_usbd i) (orderly_of_isolating hok honto)
        hl

variable {s₀ : System}

theorem serves_of_session (h : Session i s₀ s) :
    ∃ x, s.Serves i (s₀.ports i).fresh (s₀.ports i).effects x := by
  obtain ⟨answers, labs, labs', r, hbefore, hok, hcb, hst, hrun⟩ := h
  obtain ⟨ht, hun⟩ := tracked_of_isolating (i := i) hbefore
  have hinv : s.Tracked ∧ ∃ x, s.Serves i (s₀.ports i).fresh (s₀.ports i).effects x := by
    refine hrun.invariant (I := fun s => s.Tracked ∧
      ∃ x, s.Serves i (s₀.ports i).fresh (s₀.ports i).effects x)
      ⟨ht.step hok hst, serves_of_open ht hun hok hcb hst⟩ fun t lab t' ⟨ht, x, hx⟩ hok hst => ?_
    exact ⟨ht.step hok.isolating hst, hx.step ht hok hst⟩
  exact hinv.2

/-- A session starts with a port that has just been enabled. -/
theorem fresh_of_session (h : Session i s₀ s) : (s₀.ports i).fresh.Fresh := by
  obtain ⟨answers, labs, labs', r, -, -, hcb, hst, -⟩ := h
  obtain ⟨-, todo, -, rfl⟩ := step_open hcb hst
  rw [ports_enable]
  exact PortData.fresh_enable _

/-! ### What a client sends, and what it gets -/

/-- **A session is a run of the port alone**, in which packets and in-completions come only when the
port has asked for them.  As long as the connection is open, what `spid` has read from it is what
the port receives in this run, what is on its way and what waits in `spid`; and what has been
written to it is what the port sends first in this run, unless it has disabled its channel. -/
theorem run_of_session (h : Session i s₀ s) :
    ∃ es p, s.ports i = p.after (s₀.ports i).effects ∧
      PortData.machine.Run (fun p e => p.scheduled e) (s₀.ports i).fresh es p ∧
      ((s.link.spid.chan (portChan i)).opened →
        (s.link.spid.chan (portChan i)).received = received es ++ s.link.inFlight (portChan i) ++
            (s.link.spid.chan (portChan i)).buffered ∧
          (.call .disableChan ∉ p.effects →
            (s.link.spid.written (portChan i)).map Sent.byte <+: p.sentBytes)) := by
  obtain ⟨x, hx⟩ := serves_of_session h
  refine ⟨x.events, x.port, hx.port, hx.run, fun hopened => ⟨?_, fun hno => ?_⟩⟩
  · rw [← hx.reported]
    exact hx.client.carried.out hopened
  · have hkept : x.account.kept := by
      by_contra hk
      exact hno (hx.client.kept (Bool.eq_false_of_not_eq_true hk))
    rw [hx.client.passed, hx.client.carried.inn hopened hkept, List.append_assoc]
    exact List.prefix_append _ _

/-- What a port has done in a session. -/
def sessionEffects (i : Fin 2) (s₀ s : System) : List Effect :=
  (s.ports i).effects.drop (s₀.ports i).effects.length

theorem sessionEffects_of_after {p : PortData} (h : s.ports i = p.after (s₀.ports i).effects) :
    sessionEffects i s₀ s = p.effects := by
  rw [sessionEffects, h]
  exact List.drop_left

/-- **What a client gets** is what the reference replies first to what it has sent. -/
theorem written_prefix (h : Session i s₀ s) (hopened : (s.link.spid.chan (portChan i)).opened)
    (hno : .call .disableChan ∉ sessionEffects i s₀ s)
    (hlegal : (s₀.ports i).fresh.legal (s.link.spid.chan (portChan i)).received) :
    (s.link.spid.written (portChan i)).map Sent.byte <+:
      ((s₀.ports i).fresh.consumeAll (s.link.spid.chan (portChan i)).received).replied := by
  obtain ⟨es, p, hport, hrun, hconn⟩ := run_of_session h
  obtain ⟨hreceived, hwritten⟩ := hconn hopened
  rw [sessionEffects_of_after hport] at hno
  refine (hwritten hno).trans (PortData.sentBytes_prefix (fresh_of_session h) hrun ?_ hlegal)
  rw [hreceived, List.append_assoc]
  exact List.prefix_append _ _

/-- **At rest a client has got every reply**, and the port has done what the reference does, unless
what the client has sent ends with the length of an RX command. -/
theorem written_eq (h : Session i s₀ s) (hopened : (s.link.spid.chan (portChan i)).opened)
    (hno : .call .disableChan ∉ sessionEffects i s₀ s)
    (hlegal : (s₀.ports i).fresh.legal (s.link.spid.chan (portChan i)).received)
    (hq : (s.ports i).Quiescent) (hflight : s.link.inFlight (portChan i) = [])
    (hbuffered : (s.link.spid.chan (portChan i)).buffered = [])
    (hrx : (s₀.ports i).fresh.endsInRx (s.link.spid.chan (portChan i)).received = false) :
    (s.link.spid.written (portChan i)).map Sent.byte =
        ((s₀.ports i).fresh.consumeAll (s.link.spid.chan (portChan i)).received).replied ∧
      (sessionEffects i s₀ s).filterMap Effect.acted =
        ((s₀.ports i).fresh.consumeAll (s.link.spid.chan (portChan i)).received).actions := by
  obtain ⟨x, hx⟩ := serves_of_session h
  have hreceived : (s.link.spid.chan (portChan i)).received = received x.events := by
    have hout := hx.client.carried.out hopened
    have hflight' : inFlight (s.link.map Sent.byte) (portChan i) = [] := hflight
    have hbuffered' : ((s.link.map Sent.byte).spid.chan (portChan i)).buffered = [] := hbuffered
    rw [hflight', hbuffered', List.append_nil, List.append_nil, hx.reported] at hout
    exact hout
  rw [hreceived] at hlegal hrx ⊢
  rw [sessionEffects_of_after hx.port] at hno ⊢
  have hq' : x.port.Quiescent := by
    rw [hx.port] at hq
    exact ⟨hq.stepping, hq.state, hq.pendingOut, hq.pendingIn, hq.transfer⟩
  obtain ⟨hactions, hsent⟩ := PortData.agrees_of_fresh (fresh_of_session h) hx.run hlegal hq' hrx
  refine ⟨?_, hactions⟩
  -- nothing of the port is on its way
  have hbusy : x.account.busy = false := by
    refine Bool.eq_false_of_not_eq_true fun hb => ?_
    have hin := (hx.client.buffer hb).1
    rw [hq'.pendingIn] at hin
    cases hin
  have hinn : x.inn = none := by
    cases hi : x.inn with
    | none => rfl
    | some bs =>
      have hin := (hx.client.inn bs hi).2.1
      rw [hq'.pendingIn] at hin
      cases hin
  have hkept : x.account.kept := by
    by_contra hk
    exact hno (hx.client.kept (Bool.eq_false_of_not_eq_true hk))
  have hpassed := hx.client.carried.inn hopened hkept
  rw [if_neg (hx.client.carried.free hbusy).2, List.append_nil] at hpassed
  rw [← hsent, hx.client.passed, hinn, hpassed]
  exact (List.append_nil _).symm

/-! ### A client of port A -/

/-- The connection of port A is about to be reported. -/
def reportRun : List SystemLabel :=
  pass noPolls [] ++ pass { noPolls with sockIn := fun ch => ch = 1 } [] ++ [.copy]

/-- The client sends an ECHO of one byte, and gets it back. -/
def servedRun : List SystemLabel :=
  [.perform, .writeBack] ++ echoRun 0x41#8 ++ takeRun ++ completeRun

/-- What is asked of the states of a session. -/
def summary (i : Fin 2) (s₀ s : System) : Bool × Bool × Bool × List Byte :=
  let c := s.link.spid.chan (portChan i)
  (c.opened && decide (.call .disableChan ∉ sessionEffects i s₀ s) && c.buffered.isEmpty &&
      (s.link.inFlight (portChan i)).isEmpty,
    (s₀.ports i).fresh.legal c.received && !(s₀.ports i).fresh.endsInRx c.received,
    decide ((s.ports i).rest = (false, .readCmd, true, false, none)),
    (s.link.spid.written (portChan i)).map Sent.byte)

theorem session_servedRun : ∃ s₀ s, Session 0 s₀ s ∧
    summary 0 s₀ s = (true, true, true, [0x84#8, 0x41#8]) := by
  have h : ((machine.execOk (fun s lab => decide (s.Isolating lab)) (init fun _ _ => 0#16)
      reportRun).bind fun r =>
        if decide (r.Isolating .callback) && decide (r.nextCallback = some (.open 1)) then
          (r.step .callback).bind fun s₀ =>
            (machine.execOk (fun s lab => decide (s.InSession 0 lab)) s₀ servedRun).map
              fun s => summary 0 s₀ s
        else none) = some (true, true, true, [0x84#8, 0x41#8]) := by decide +kernel
  obtain ⟨r, hr, h⟩ := Option.bind_eq_some_iff.1 h
  obtain ⟨hcond, h⟩ := Option.ite_none_right_eq_some.1 h
  obtain ⟨s₀, hst, h⟩ := Option.bind_eq_some_iff.1 h
  obtain ⟨s, hs, hsummary⟩ := Option.map_eq_some_iff.1 h
  rw [Bool.and_eq_true, decide_eq_true_eq, decide_eq_true_eq] at hcond
  have hbefore := Machine.run_of_execOk Isolating (fun _ _ => of_decide_eq_true) hr
  have hrun := Machine.run_of_execOk (InSession 0) (fun _ _ => of_decide_eq_true) hs
  exact ⟨s₀, s, ⟨_, _, _, r, hbefore, hcond.1, hcond.2, hst, hrun⟩, hsummary⟩

/-- What the summary says. -/
theorem summary_eq {b : List Byte} (h : summary i s₀ s = (true, true, true, b)) :
    (s.link.spid.chan (portChan i)).opened ∧ .call .disableChan ∉ sessionEffects i s₀ s ∧
      (s.link.spid.chan (portChan i)).buffered = [] ∧ s.link.inFlight (portChan i) = [] ∧
      (s₀.ports i).fresh.legal (s.link.spid.chan (portChan i)).received ∧
      (s₀.ports i).fresh.endsInRx (s.link.spid.chan (portChan i)).received = false ∧
      (s.ports i).Quiescent ∧ (s.link.spid.written (portChan i)).map Sent.byte = b := by
  simp only [summary, Prod.mk.injEq, Bool.and_eq_true, decide_eq_true_eq, List.isEmpty_iff,
    Bool.not_eq_true'] at h
  obtain ⟨⟨⟨⟨hopened, hno⟩, hbuffered⟩, hflight⟩, ⟨hlegal, hrx⟩, hrest, hwritten⟩ := h
  exact ⟨hopened, hno, hbuffered, hflight, hlegal, hrx,
    PortData.quiescent_of_rest hrest (by decide), hwritten⟩

theorem run_of_session_servedRun : ∃ s₀ s es p, Session 0 s₀ s ∧
    s.ports 0 = p.after (s₀.ports 0).effects ∧
      PortData.machine.Run (fun p e => p.scheduled e) (s₀.ports 0).fresh es p ∧
      (s.link.spid.chan 1).received = received es ∧
      (s.link.spid.written 1).map Sent.byte = [0x84#8, 0x41#8] ∧
      [0x84#8, 0x41#8] <+: p.sentBytes := by
  obtain ⟨s₀, s, h, hsummary⟩ := session_servedRun
  obtain ⟨hopened, hno, hbuffered, hflight, -, -, -, hwritten⟩ := summary_eq hsummary
  obtain ⟨es, p, hport, hrun, hconn⟩ := run_of_session h
  obtain ⟨hreceived, hsent⟩ := hconn hopened
  rw [hflight, hbuffered, List.append_nil, List.append_nil] at hreceived
  rw [sessionEffects_of_after hport] at hno
  exact ⟨s₀, s, es, p, h, hport, hrun, hreceived, hwritten, hwritten ▸ hsent hno⟩

theorem written_prefix_servedRun : ∃ s₀ s, Session 0 s₀ s ∧ [0x84#8, 0x41#8] <+:
    ((s₀.ports 0).fresh.consumeAll (s.link.spid.chan 1).received).replied := by
  obtain ⟨s₀, s, h, hsummary⟩ := session_servedRun
  obtain ⟨hopened, hno, -, -, hlegal, -, -, hwritten⟩ := summary_eq hsummary
  exact ⟨s₀, s, h, hwritten ▸ written_prefix h hopened hno hlegal⟩

theorem written_eq_servedRun : ∃ s₀ s, Session 0 s₀ s ∧ [0x84#8, 0x41#8] =
    ((s₀.ports 0).fresh.consumeAll (s.link.spid.chan 1).received).replied := by
  obtain ⟨s₀, s, h, hsummary⟩ := session_servedRun
  obtain ⟨hopened, hno, hbuffered, hflight, hlegal, hrx, hq, hwritten⟩ := summary_eq hsummary
  exact ⟨s₀, s, h, hwritten.symm.trans
    (written_eq h hopened hno hlegal hq hflight hbuffered hrx).1⟩

end System

end TesselFirmware
