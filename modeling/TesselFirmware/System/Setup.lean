import TesselFirmware.System.Basic

/-!
# What follows from the setup headers

Two properties of single transactions, in every reachable state of the composed system.

* `System.chain_eq_plan_iff` : after two good headers both sides perform the same data phase exactly
  when no channel that `spid` closes in between takes part in it, and `System.chain_ne_plan` : after
  a `port_error` one can;
* `System.rejected_noop_iff` : a setup that `spid` rejects leaves both sides as they were exactly
  when the MCU has received no good header or agreed on no transfer, and
  `System.rejected_consumes` : otherwise the ready bit is lost.
-/

namespace TesselFirmware

namespace System

open Bridge ControlPkt Link

variable {s : System} {rx : ControlPkt}

/-! ### The data phase -/

/-- **Both sides perform the same data phase** after two good headers, exactly when every channel
that `spid` closes before the data phase, because the header of the MCU shows it as disabled, has
nothing to transfer by the two headers. -/
theorem chain_eq_plan_iff {answers : Fin 2 → ℕ → BitVec 16}
    (h : machine.Reachable (init answers) s) (hphase : s.link.phase = .high rx)
    (hmcu : s.link.bridge.ctrlRx = s.link.spid.header) (hsoc : rx = s.link.bridge.ctrlTx)
    (fd : ℕ) :
    s.link.bridge.chain.map Desc.toSegment = (s.link.planned rx fd).2 ↔ s.link.Agrees rx :=
  Link.chain_eq_iff (Link.sound_of_reachable (link_reachable h)) hphase hmcu hsoc fd

/-- A pass of the main loop up to SYNC high. -/
def started (p : Polls) (bytes : List Byte) : List SystemLabel :=
  [.syncLow p, .setup (reading bytes) none none, .syncHigh]

/-- A pass of the main loop. -/
def pass (p : Polls) (bytes : List Byte) : List SystemLabel :=
  started p bytes ++ [.transfer (reading []) []]

/-- A client connects to port A. -/
def connectRun : List SystemLabel :=
  pass noPolls [] ++ pass { noPolls with sockIn := fun ch => ch = 1 } [] ++
    [.copy, .callback, .perform, .writeBack]

/-- The first poll of the connection of port A, which is writable: its client sends bytes, and they
are about to be transferred. -/
def sendRun (bytes : List Byte) : List SystemLabel :=
  started { noPolls with connIn := fun ch => ch = 1, connOut := fun ch => ch = 1 } bytes

/-- A client sends the unknown command 0xFF to port A, and then one more byte. -/
def unknownCommandRun : List SystemLabel :=
  connectRun ++ sendRun [0xFF#8] ++ [.transfer (reading []) []] ++
    [.copy, .callback, .iter 0, .perform, .iter 0, .perform, .writeBack] ++
    started { noPolls with connIn := fun ch => ch = 1 } [0x00#8]

/-- The headers of the transaction that has reached SYNC high have arrived as they were sent. -/
def intact (s : System) : Bool :=
  match s.link.phase with
  | .high rx => s.link.bridge.ctrlRx = s.link.spid.header && rx = s.link.bridge.ctrlTx
  | _ => false

/-- The data phase of the transaction that has reached SYNC high. -/
def plan (s : System) : List Segment :=
  match s.link.phase with
  | .high rx => (s.link.planned rx 0).2
  | _ => []

theorem chain_eq_plan_connectRun :
    ∃ s rx, machine.exec (init fun _ _ => 0#16) (connectRun ++ sendRun [0x00#8]) = some s ∧
      s.link.phase = .high rx ∧ s.link.bridge.chain.map Desc.toSegment = [⟨.out, 1, 1⟩] ∧
      (s.link.bridge.chain.map Desc.toSegment = (s.link.planned rx 0).2 ↔ s.link.Agrees rx) := by
  have h : (machine.exec (init fun _ _ => 0#16) (connectRun ++ sendRun [0x00#8])).map
      (fun s => (s.intact, s.link.bridge.chain.map Desc.toSegment)) =
        some (true, [⟨.out, 1, 1⟩]) := by decide +kernel
  obtain ⟨s, hs, hpair⟩ := Option.map_eq_some_iff.1 h
  obtain ⟨hint, hchain⟩ := Prod.mk.inj hpair
  cases hphase : s.link.phase with
  | high rx =>
    simp only [intact, hphase, Bool.and_eq_true, decide_eq_true_eq] at hint
    exact ⟨s, rx, hs, hphase, hchain,
      chain_eq_plan_iff (Machine.reachable_of_exec hs) hphase hint.1 hint.2 0⟩
  | _ => simp [intact, hphase] at hint

/-- The two sides need not perform the same data phase: the unknown command disables the channel,
but `port_step` goes on and sets its ready bit again, so that the MCU prepares an OUT transfer on a
channel that `spid` closes. -/
theorem chain_ne_plan :
    ¬ ∀ (answers : Fin 2 → ℕ → BitVec 16) (s : System) (rx : ControlPkt) (fd : ℕ),
      machine.Reachable (init answers) s → s.link.phase = .high rx →
      s.link.bridge.ctrlRx = s.link.spid.header → rx = s.link.bridge.ctrlTx →
      s.link.bridge.chain.map Desc.toSegment = (s.link.planned rx fd).2 := by
  intro hall
  have h : (machine.exec (init fun _ _ => 0#16) unknownCommandRun).map
      (fun s => (s.intact, decide (s.link.bridge.chain.map Desc.toSegment = s.plan))) =
        some (true, false) := by decide +kernel
  obtain ⟨s, hs, hpair⟩ := Option.map_eq_some_iff.1 h
  obtain ⟨hint, hne⟩ := Prod.mk.inj hpair
  cases hphase : s.link.phase with
  | high rx =>
    simp only [intact, hphase, Bool.and_eq_true, decide_eq_true_eq] at hint
    have heq := hall _ s rx 0 (Machine.reachable_of_exec hs) hphase hint.1 hint.2
    simp only [plan, hphase, decide_eq_false_iff_not] at hne
    exact hne heq
  | _ => simp [intact, hphase] at hint

/-! ### A rejected setup -/

/-- The MCU has the same transfers pending. -/
structure KeepsMcu (b b' : Bridge) : Prop where
  outChanReady : b'.outChanReady = b.outChanReady
  inChanSize : b'.inChanSize = b.inChanSize
  outChanPtr : b'.outChanPtr = b.outChanPtr
  inChanPtr : b'.inChanPtr = b.inChanPtr

/-- `spid` has the same data, and the same interest in its connections. -/
structure KeepsSoc (s s' : Spid Sent) : Prop where
  outLength : s'.outLength = s.outLength
  writable : s'.writable = s.writable
  pollIn : s'.pollIn = s.pollIn

/-- SYNC high consumes something: by the headers that the MCU has, a channel has a transfer, and
its ready bit or its pending size is still set. -/
def consumes (b : Bridge) : Prop :=
  b.ctrlRx.cmd = 0x53#8 ∧ ∃ ch, (movesOut b.ctrlRx b.ctrlTx ch ∧ b.ready ch) ∨
    (movesIn b.ctrlRx b.ctrlTx ch ∧ b.inChanSize ch ≠ 0#8)

instance (b : Bridge) : Decidable (consumes b) := by unfold consumes; infer_instance

/-- SYNC high keeps the pending transfers of the MCU exactly when it consumes none of them. -/
theorem keepsMcu_handleSyncHigh_iff (b : Bridge) :
    KeepsMcu b b.handleSyncHigh ↔ ¬ consumes b := by
  constructor
  · rintro ⟨hready, hsize, -, -⟩ ⟨hcmd, ch, ⟨hm, hr⟩ | ⟨hm, hs⟩⟩
    · have hr' : b.handleSyncHigh.ready ch = b.ready ch := by
        rw [Bridge.ready, hready, Bridge.ready]
      rw [handleSyncHigh_ready hcmd, hm, hr] at hr'
      cases hr'
    · have hs' := congrFun hsize ch
      rw [handleSyncHigh_inChanSize hcmd, if_pos hm] at hs'
      exact hs hs'.symm
  · intro hno
    by_cases hcmd : b.ctrlRx.cmd = 0x53#8
    · have hno' (ch : Chan) : ¬ (movesOut b.ctrlRx b.ctrlTx ch ∧ b.ready ch) ∧
          ¬ (movesIn b.ctrlRx b.ctrlTx ch ∧ b.inChanSize ch ≠ 0#8) :=
        not_or.1 fun h => hno ⟨hcmd, ch, h⟩
      refine ⟨?_, funext fun ch => ?_, handleSyncHigh_outChanPtr b, handleSyncHigh_inChanPtr b⟩
      · refine handleSyncHigh_outChanReady_of_forall hcmd fun ch hm => ?_
        exact Bool.eq_false_of_not_eq_true fun hr => (hno' ch).1 ⟨hm, hr⟩
      · rw [handleSyncHigh_inChanSize hcmd]
        split_ifs with hm
        · exact (not_not.1 fun hs => (hno' ch).2 ⟨hm, hs⟩).symm
        · rfl
    · rw [handleSyncHigh_of_cmd_ne hcmd]
      exact ⟨rfl, rfl, rfl, rfl⟩

/-- A label by which the MCU takes a step of its own. -/
def isMcu : SystemLabel → Prop
  | .syncLow _ => False
  | .setup _ _ _ => False
  | .syncHigh => False
  | .transfer _ _ => False
  | _ => True

/-- A step of the MCU changes neither `spid` nor where it stands. -/
theorem step_isMcu {lab : SystemLabel} {t : System} (hmcu : isMcu lab) (h : s.step lab = some t) :
    t.link.spid = s.link.spid ∧ t.link.phase = s.link.phase := by
  have hl := step_onLink h
  cases honto : s.onLink lab with
  | none =>
    rw [honto] at hl
    have hl' : t.link = s.link := hl
    rw [hl']
    exact ⟨rfl, rfl⟩
  | some l =>
    rw [honto] at hl
    have hl' : Link.step Sent.dummy s.link l = some t.link := hl
    refine Link.step_isMcu ?_ hl'
    cases lab with
    | copy => cases honto; trivial
    | callback => cases honto; trivial
    | writeBack => cases honto; trivial
    | perform =>
      obtain ⟨c, -, rfl⟩ := Option.map_eq_some_iff.1 honto
      trivial
    | syncLow p => exact hmcu.elim
    | setup sys toMcu toSoc => exact hmcu.elim
    | syncHigh => exact hmcu.elim
    | transfer sys pad => exact hmcu.elim
    | port i e => cases honto
    | iter i => cases honto
    | usb e => cases honto

theorem run_isMcu {labs : List SystemLabel} {t : System}
    (h : machine.Run (fun _ lab => isMcu lab) s labs t) :
    t.link.spid = s.link.spid ∧ t.link.phase = s.link.phase := by
  refine h.invariant (I := fun t => t.link.spid = s.link.spid ∧ t.link.phase = s.link.phase)
    ⟨rfl, rfl⟩ fun t lab t' ht hmcu hst => ?_
  obtain ⟨hspid, hphase⟩ := step_isMcu hmcu hst
  exact ⟨hspid.trans ht.1, hphase.trans ht.2⟩

/-- The pending transfers are kept over a rejected setup: by SYNC high, by the end of the pass, and
by `spid` from its header on.  In between the clients of the MCU make their calls. -/
structure KeptOver (s s₁ t u : System) : Prop where
  syncHigh : KeepsMcu s.link.bridge s₁.link.bridge
  retry : KeepsMcu t.link.bridge u.link.bridge
  soc : KeepsSoc s.link.spid u.link.spid

/-- **A rejected setup is a no-op** exactly when SYNC high consumes nothing at the MCU. -/
theorem rejected_noop_iff {s₁ t u : System} {labs : List SystemLabel} {sys : SysCalls}
    {pad : List Sent} (hphase : s.link.phase = .setup rx) (hcmd : rx.cmd ≠ 0xCA#8)
    (hhigh : machine.step s .syncHigh = some s₁)
    (hrun : machine.Run (fun _ lab => isMcu lab) s₁ labs t)
    (hend : machine.step t (.transfer sys pad) = some u) :
    KeptOver s s₁ t u ↔ ¬ consumes s.link.bridge := by
  obtain ⟨l₁, hl₁, rfl⟩ := linkStep_eq_some.1 hhigh
  obtain ⟨rx', hphase', rfl⟩ := Link.step_syncHigh.1 hl₁
  obtain rfl : rx = rx' := by
    rw [hphase] at hphase'
    cases hphase'
    rfl
  obtain ⟨hspid, hhighPhase⟩ := run_isMcu hrun
  obtain ⟨l₂, hl₂, rfl⟩ := linkStep_eq_some.1 hend
  obtain ⟨rx', hphase₂, rfl⟩ := Link.step_transfer.1 hl₂
  obtain rfl : rx = rx' := by
    rw [hhighPhase] at hphase₂
    cases hphase₂
    rfl
  -- `spid` has not moved since it sent its header, and only counts the retry
  have hretry : t.link.transfer Sent.dummy rx sys t.memory pad = t.link.retry := if_pos hcmd
  rw [hretry, ← keepsMcu_handleSyncHigh_iff]
  refine ⟨KeptOver.syncHigh, fun hkeep => ⟨hkeep, ⟨rfl, rfl, rfl, rfl⟩, ?_⟩⟩
  show KeepsSoc s.link.spid { t.link.spid with retries := t.link.spid.retries + 1 }
  rw [hspid]
  exact ⟨rfl, rfl, rfl⟩

/-- A header that `spid` rejects. -/
def badReply : ControlPkt := ⟨0x00#8, 0x00#8, fun _ => 0x00#8⟩

/-- The client of port A sends a byte, and the setup is rejected although the MCU has received a
good header. -/
def rejectedRun : List SystemLabel :=
  connectRun ++ [.syncLow { noPolls with connIn := fun ch => ch = 1, connOut := fun ch => ch = 1 },
    .setup (reading [0x00#8]) none (some badReply)]

/-- The same without a byte to send. -/
def idleRejectedRun : List SystemLabel :=
  connectRun ++ [.syncLow { noPolls with connOut := fun ch => ch = 1 },
    .setup (reading []) none (some badReply)]

/-- The header that `spid` has received is bad, and whether SYNC high is going to consume a
transfer. -/
def rejects (s : System) : Option Bool :=
  match s.link.phase with
  | .setup rx => if rx.cmd ≠ 0xCA#8 then some (decide (consumes s.link.bridge)) else none
  | _ => none

theorem phase_of_rejects {c : Bool} (h : s.rejects = some c) :
    ∃ rx, s.link.phase = .setup rx ∧ rx.cmd ≠ 0xCA#8 ∧ decide (consumes s.link.bridge) = c := by
  cases hphase : s.link.phase with
  | setup rx =>
    simp only [rejects, hphase, Option.ite_none_right_eq_some, Option.some.injEq] at h
    exact ⟨rx, rfl, h⟩
  | _ => simp [rejects, hphase] at h

/-- After its setup, a transaction can be brought to its end. -/
theorem steps_of_setup (hphase : s.link.phase = .setup rx) : ∃ s₁ u,
    machine.step s .syncHigh = some s₁ ∧
      machine.step s₁ (.transfer (reading []) []) = some u := by
  have hhigh : ∃ s₁, machine.step s .syncHigh = some s₁ ∧ s₁.link.phase = .high rx :=
    ⟨_, linkStep_eq_some.2 ⟨_, Link.step_syncHigh.2 ⟨rx, hphase, rfl⟩, rfl⟩, rfl⟩
  obtain ⟨s₁, h₁, hphase₁⟩ := hhigh
  exact ⟨s₁, _, h₁, linkStep_eq_some.2 ⟨_, Link.step_transfer.2 ⟨rx, hphase₁, rfl⟩, rfl⟩⟩

theorem rejected_noop_idleRejectedRun :
    ∃ s s₁ u, machine.exec (init fun _ _ => 0#16) idleRejectedRun = some s ∧
      s.rejects = some false ∧ machine.step s .syncHigh = some s₁ ∧
      machine.step s₁ (.transfer (reading []) []) = some u ∧ KeptOver s s₁ s₁ u := by
  have h : (machine.exec (init fun _ _ => 0#16) idleRejectedRun).map rejects =
      some (some false) := by decide +kernel
  obtain ⟨s, hs, hrej⟩ := Option.map_eq_some_iff.1 h
  obtain ⟨rx, hphase, hcmd, hno⟩ := phase_of_rejects hrej
  obtain ⟨s₁, u, h₁, hu⟩ := steps_of_setup hphase
  exact ⟨s, s₁, u, hs, hrej, h₁, hu,
    (rejected_noop_iff hphase hcmd h₁ .nil hu).2 (of_decide_eq_false hno)⟩

/-- A rejected setup need not be a no-op: the MCU takes back the ready bit of port A for a byte that
is not going to be sent. -/
theorem rejected_consumes :
    ¬ ∀ (answers : Fin 2 → ℕ → BitVec 16) (s s₁ t u : System) (rx : ControlPkt)
      (labs : List SystemLabel) (sys : SysCalls) (pad : List Sent),
      machine.Reachable (init answers) s → s.link.phase = .setup rx → rx.cmd ≠ 0xCA#8 →
      machine.step s .syncHigh = some s₁ →
      machine.Run (fun _ lab => isMcu lab) s₁ labs t →
      machine.step t (.transfer sys pad) = some u → KeptOver s s₁ t u := by
  intro hall
  have h : (machine.exec (init fun _ _ => 0#16) rejectedRun).map rejects = some (some true) := by
    decide +kernel
  obtain ⟨s, hs, hrej⟩ := Option.map_eq_some_iff.1 h
  obtain ⟨rx, hphase, hcmd, hcons⟩ := phase_of_rejects hrej
  obtain ⟨s₁, u, h₁, hu⟩ := steps_of_setup hphase
  have hkept := hall _ s s₁ s₁ u rx [] _ [] (Machine.reachable_of_exec hs) hphase hcmd h₁ .nil hu
  obtain ⟨l₁, hl₁, rfl⟩ := linkStep_eq_some.1 h₁
  obtain ⟨rx', -, rfl⟩ := Link.step_syncHigh.1 hl₁
  exact (keepsMcu_handleSyncHigh_iff _).1 hkept.syncHigh (of_decide_eq_true hcons)

end System

end TesselFirmware
