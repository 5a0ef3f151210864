import TesselFirmware.Port.Answers
import TesselFirmware.Port.History

/-!
# What a port asks of the bridge

A handler of a port passes at most one request for a packet and one reply to the bridge, the request
first, and disables its channel any number of times behind them.

* `PortData.Passes` : the calls of a handler, and `PortData.passes_handle`;
* `PortData.sentBytes_prefix` : what a port has sent since it was enabled is what the reference
  replies first;
* `PortData.agrees_of_fresh` : at rest it is all that the reference replies.
-/

namespace TesselFirmware

/-- Of the calls to the bridge, only that of `port_error`. -/
def Effect.quiet (e : Effect) : Prop := ∀ c, e = .call c → c = .disableChan

namespace PortData

variable {p q s : PortData}

/-! ### The calls of a handler -/

/-- The port when the environment has done its part of an event. -/
def taken (p : PortData) : PortEvent → PortData
  | .outCompletion _ => { p with pendingOut := false }
  | .inCompletion => { p with pendingIn := false }
  | _ => p

/-- From `p` to `q` a packet was requested (`out`), and then a reply was passed to the bridge
(`inn`); while a reply is with the bridge, `reply_buf` is left as it is. -/
structure Passes (p q : PortData) (out : Bool) (inn : Option (List Byte)) : Prop where
  effects : ∃ es, (∀ e ∈ es, e.quiet) ∧ q.effects =
    p.effects ++ ((if out then [.call .startOut] else []) ++
      (inn.map fun bs => Effect.call (.startIn bs)).toList ++ es)
  pendingOut : q.pendingOut = (p.pendingOut || out)
  pendingIn : q.pendingIn = (p.pendingIn || inn.isSome)
  out : out → p.pendingOut = false
  inn : ∀ bs, inn = some bs → p.pendingIn = false ∧ q.replyBuf.content bs.length = bs
  replyBuf : p.pendingIn → q.replyBuf = p.replyBuf

theorem quiet_action (a : Action) : Effect.quiet (.action a) := nofun

theorem quiet_reply (b : Byte) : Effect.quiet (.reply b) := nofun

theorem quiet_exec (cmd : Byte) : Effect.quiet (.exec cmd) := nofun

theorem quiet_disableChan : Effect.quiet (.call .disableChan) := by
  rintro c ⟨⟩
  rfl

namespace Passes

/-- Nothing is passed to the bridge. -/
theorem of_quiet (he : Emits Effect.quiet p q) (hout : q.pendingOut = p.pendingOut)
    (hin : q.pendingIn = p.pendingIn) (hbuf : p.pendingIn → q.replyBuf = p.replyBuf) :
    Passes p q false none := by
  obtain ⟨es, hes, heq⟩ := he.effects
  exact ⟨⟨es, hes, heq⟩, by rw [hout, Bool.or_false],
    by rw [hin, Option.isSome_none, Bool.or_false], nofun, nofun, hbuf⟩

theorem step (p : PortData) : Passes p p.step false none := by
  refine of_quiet (.step quiet_disableChan (.refl p)) ?_ ?_ fun _ => ?_
  all_goals
    unfold PortData.step
    split_ifs <;> rfl

theorem congr_left {r : PortData} {out : Bool} {inn : Option (List Byte)} (h : Passes p q out inn)
    (he : r.effects = p.effects) (hout : r.pendingOut = p.pendingOut)
    (hin : r.pendingIn = p.pendingIn) (hbuf : r.replyBuf = p.replyBuf) : Passes r q out inn := by
  obtain ⟨heff, hpo, hpi, ho, hi, hb⟩ := h
  rw [← he] at heff
  rw [← hout] at hpo ho
  rw [← hin] at hpi hi hb
  rw [← hbuf] at hb
  exact ⟨heff, hpo, hpi, ho, hi, hb⟩

theorem asyncCompletion (p : PortData) : Passes p p.asyncCompletion false none := by
  unfold PortData.asyncCompletion
  split_ifs
  · exact (step p.transferred).congr_left rfl rfl rfl rfl
  · exact of_quiet (.emit p quiet_disableChan) rfl rfl fun _ => rfl

theorem handleSercomUartI2c (p : PortData) (err : Bool) :
    Passes p (p.handleSercomUartI2c none err) false none := by
  have herror : Emits Effect.quiet p p.error := .emit p quiet_disableChan
  unfold PortData.handleSercomUartI2c
  cases p.mode with
  | none => exact of_quiet herror rfl rfl fun _ => rfl
  | spi => exact of_quiet herror rfl rfl fun _ => rfl
  | uart => exact of_quiet (.refl p) rfl rfl fun _ => rfl
  | i2c =>
    dsimp only
    split_ifs
    · obtain ⟨-, hpo, hpi, -, -, hbuf⟩ := asyncCompletion p.error
      rw [Bool.or_false] at hpo
      rw [Option.isSome_none, Bool.or_false] at hpi
      exact of_quiet (.asyncCompletion quiet_disableChan herror) hpo hpi hbuf
    · exact asyncCompletion p

/-- A pass of the loop that works on the state. -/
theorem dispatch (p : PortData) (hin : p.pendingIn = false) : Passes p p.dispatch false none := by
  have hbegun (q : PortData) :
      q.begun.pendingOut = q.pendingOut ∧ q.begun.pendingIn = q.pendingIn :=
    ⟨congrArg Control.pendingOut (control_begun q), congrArg Control.pendingIn (control_begun q)⟩
  have harg : p.fetchArg.pendingOut = p.pendingOut ∧ p.fetchArg.pendingIn = p.pendingIn := by
    rw [fetchArg_eq]
    exact ⟨rfl, rfl⟩
  have hpending : p.dispatch.pendingOut = p.pendingOut ∧ p.dispatch.pendingIn = p.pendingIn := by
    unfold PortData.dispatch
    cases p.state with
    | disable => exact ⟨rfl, rfl⟩
    | execAsync => exact ⟨rfl, rfl⟩
    | exec =>
      obtain ⟨n, hc⟩ := control_continueCmd_eq p
      exact ⟨congrArg Control.pendingOut hc, congrArg Control.pendingIn hc⟩
    | readCmd =>
      simp only [readCommand]
      split_ifs
      · exact ⟨rfl, rfl⟩
      · exact hbegun p.fetchCmd
    | readArg =>
      simp only [readArgument]
      split_ifs
      · exact ⟨rfl, rfl⟩
      · exact ⟨(hbegun _).1.trans harg.1, (hbegun _).2.trans harg.2⟩
      · exact harg
  refine of_quiet (.dispatch quiet_action quiet_reply quiet_disableChan p quiet_exec) hpending.1
    hpending.2 fun h => ?_
  rw [hin] at h
  cases h

/-- The transfers of a pass of the loop: first the request, and then the reply. -/
theorem transfers (p : PortData) : ∃ out inn, Passes p p.transfers out inn := by
  have hrequest : ∃ out, Passes p p.requestPacket out none ∧ p.requestPacket.effects =
      p.effects ++ if out then [.call .startOut] else [] := by
    obtain ⟨he, -⟩ | ⟨he, hout, -⟩ := requestPacket_cases p
    · rw [he]
      exact ⟨false, of_quiet (.refl p) rfl rfl fun _ => rfl, (List.append_nil _).symm⟩
    · rw [he]
      refine ⟨true, ⟨⟨[], nofun, rfl⟩, ?_, ?_, fun _ => hout, nofun, fun _ => rfl⟩, rfl⟩
      · rw [Bool.or_true]
      · rw [Option.isSome_none, Bool.or_false]
        rfl
  obtain ⟨out, hp, heff⟩ := hrequest
  obtain ⟨he, -⟩ | ⟨he, hin, -⟩ := flushReply_cases p.requestPacket
  · rw [PortData.transfers, he]
    exact ⟨out, none, hp⟩
  · rw [PortData.transfers, he]
    generalize p.requestPacket = q at hp heff hin
    have hin' : p.pendingIn = false := by
      have hpi := hp.pendingIn
      rw [hin, Option.isSome_none, Bool.or_false] at hpi
      exact hpi.symm
    refine ⟨out, some (q.replyBuf.content q.replyLen), ⟨⟨[], nofun, ?_⟩, hp.pendingOut, ?_, hp.out,
      fun bs hbs => ?_, fun h => ?_⟩⟩
    · rw [List.append_nil]
      show q.effects ++ [_] = _
      rw [heff, List.append_assoc]
      rfl
    · rw [Option.isSome_some, Bool.or_true]
    · cases hbs
      refine ⟨hin', ?_⟩
      show q.replyBuf.content _ = _
      rw [Cells.content, Cells.content, List.length_take, ← List.take_take, List.take_length]
    · rw [hin'] at h
      cases h

theorem iter (p : PortData) : ∃ out inn, Passes p p.iter out inn := by
  obtain ⟨-, hi⟩ | ⟨-, hw, ⟨-, hi⟩ | ⟨-, -, -, hi⟩⟩ := iter_cases p
  · rw [hi]
    obtain ⟨out, inn, ⟨heff, hpo, hpi, ho, hbs, hbuf⟩⟩ := transfers p
    generalize p.transfers = q at heff hpo hpi hbs hbuf
    refine ⟨out, inn, ?_⟩
    unfold PortData.wait
    split_ifs
    · exact ⟨heff, hpo, hpi, ho, hbs, hbuf⟩
    · exact ⟨heff, hpo, hpi, ho, hbs, hbuf⟩
  · rw [hi]
    exact ⟨false, none, of_quiet ⟨[], nofun, (List.append_nil _).symm⟩ rfl rfl fun _ => rfl⟩
  · rw [hi]
    exact ⟨false, none, dispatch p (Bool.or_eq_false_iff.1 hw).1⟩

end Passes

/-- **The calls of a handler.** -/
theorem passes_handle {e : PortEvent} (hok : p.scheduled e) :
    ∃ out inn, Passes (p.taken e) (p.handle e) out inn := by
  cases e with
  | enable => cases hok
  | disable => cases hok
  | extint flags => cases hok
  | tccOverflow => cases hok
  | outCompletion packet =>
    exact ⟨false, none, (Passes.step { p.receivePacket packet with
      pendingOut := false, cmdLen := packet.length % 256, cmdPos := 0 }).congr_left rfl rfl rfl rfl⟩
  | inCompletion =>
    exact ⟨false, none, (Passes.step { p with pendingIn := false, replyLen := 0 }).congr_left
      rfl rfl rfl rfl⟩
  | dmaRx => exact ⟨false, none, .asyncCompletion p⟩
  | dmaTx => exact ⟨false, none, .asyncCompletion p⟩
  | sercom rxc err =>
    cases rxc with
    | none => exact ⟨false, none, .handleSercomUartI2c p err⟩
    | some b => cases hok
  | iter => exact Passes.iter p

/-! ### What a session replies -/

variable {es : List PortEvent}

theorem replied_prefix_consume (p : PortData) (bs bs' : List Byte) :
    (p.consumeAll bs).replied <+: (p.consumeAll (bs ++ bs')).replied := by
  rw [consumeAll_append, replied_consumeAll (p.consumeAll bs)]
  exact List.prefix_append _ _

/-- A port that follows the reference has not replied more. -/
theorem replied_prefix_of_follows {r : PortData} (h : Follows p r) : p.replied <+: r.replied := by
  obtain ⟨-, -, hprog⟩ | ⟨-, -, hprog⟩ := h
  · rw [show p.replied = r.replied from congrArg Progress.replied hprog]
  · have hreplied : r.replied = p.replied ++
        p.progress.partReply (List.replicate (p.argAt 0).toNat dummyTx) :=
      congrArg Progress.replied hprog
    rw [hreplied]
    exact List.prefix_append _ _

/-- **What a port has sent** since it was enabled is what the reference replies first. -/
theorem sentBytes_prefix (hs : s.Fresh) (h : machine.Run (fun p e => p.scheduled e) s es p)
    {bs : List Byte} (hbs : received es <+: bs) (hlegal : s.legal bs) :
    p.sentBytes <+: (s.consumeAll bs).replied := by
  obtain ⟨rest, rfl⟩ := hbs
  rw [legal_append, Bool.and_eq_true] at hlegal
  obtain ⟨-, ⟨-, done, hdone, hfollows, -⟩, hc⟩ := tracks_of_fresh hs h hlegal.1
  have hsent : p.sentBytes <+: p.replied := by
    rw [hc.replied]
    exact List.prefix_append _ _
  rw [← hdone, List.append_assoc]
  exact hsent.trans ((replied_prefix_of_follows hfollows).trans (replied_prefix_consume s done _))

/-- **At rest** a port has done and sent what the reference does and replies, unless the stream ends
with the length of an RX command. -/
theorem agrees_of_fresh (hs : s.Fresh) (h : machine.Run (fun p e => p.scheduled e) s es p)
    (hlegal : s.legal (received es)) (hq : p.Quiescent) (hrx : s.endsInRx (received es) = false) :
    p.agrees (s.consumeAll (received es)) := by
  obtain ⟨hr, ⟨hex, done, hdone, hfollows, hend⟩, hc⟩ := tracks_of_fresh hs h hlegal
  have hasync : p.state ≠ .execAsync := fun hst => (hex.started hst).1 hq.transfer
  have hunread : p.unread = [] := by
    rw [unread, Nat.sub_eq_zero_of_le (hr.drained hq.pendingOut), Cells.slice_zero]
  have hlen := hr.flushed hq.stepping ⟨hq.state, hasync⟩ hq.pendingIn
  have hreplied := hc.replied
  rw [hlen, Cells.content_zero, ite_self, List.append_nil] at hreplied
  rw [hunread, List.append_nil] at hdone
  subst hdone
  have hno : ¬ p.inRx := fun hin => by
    rw [(hend hunread).2 hin] at hrx
    cases hrx
  obtain ⟨-, -, hprog⟩ | ⟨hin, -⟩ := hfollows
  · exact ⟨congrArg Progress.actions hprog, hreplied.symm.trans (congrArg Progress.replied hprog)⟩
  · exact absurd hin hno

end PortData

end TesselFirmware
