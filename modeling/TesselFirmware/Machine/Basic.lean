import Mathlib.Data.List.Basic
import Mathlib.Tactic.Cases

/-!
# Machines and their runs

Every component of this development is a *machine*: from a state, a label either cannot be
taken or leads to exactly one state.  Everything that is not determined by the component (which
interrupt comes next, what a peripheral answers, what a peer sends) is part of the label, so
quantifying over runs quantifies over all environments and all interleavings.

## Main definitions

* `Machine S L` : the step function, `none` where the label is impossible.
* `Machine.exec` : the state after a list of labels, executable.
* `Machine.Run ok s ls s'` : the labels `ls` lead from `s` to `s'`, and each of them meets the
  side condition `ok` in the state in which it is taken.
* `Machine.Reachable` : some run without side condition leads there.

`Run.invariant` packages the induction: what holds initially and is preserved by every step
that meets the side condition holds at the end of the run.
-/

namespace TesselFirmware

/-- A machine with states `S` and labels `L`. -/
structure Machine (S : Type*) (L : Type*) where
  /-- `step s l` is the state after `l`, or `none` when `l` is impossible in `s`. -/
  step : S → L → Option S

namespace Machine

variable {S L : Type*} (M : Machine S L)

/-- The state after the labels `ls`, or `none` when one of them is impossible. -/
def exec : S → List L → Option S
  | s, [] => some s
  | s, l :: ls => (M.step s l).bind fun t => exec t ls

/-- The labels `ls` lead from `s` to `s'`, and every step meets `ok` where it is taken. -/
inductive Run (ok : S → L → Prop) (s : S) : List L → S → Prop
  | nil : Run ok s [] s
  | snoc {ls : List L} {l : L} {t t' : S} :
      Run ok s ls t → ok t l → M.step t l = some t' → Run ok s (ls ++ [l]) t'

/-- The side condition that every step meets. -/
def always : S → L → Prop := fun _ _ => True

/-- Some run leads from `s` to `t`. -/
def Reachable (s t : S) : Prop := ∃ ls, M.Run always s ls t

variable {M} {ok ok' : S → L → Prop} {s t u : S} {l : L} {ls ls' : List L}

/-- **Invariance.**  What holds at the start and is preserved by every step that meets the side
condition holds at the end of the run. -/
theorem Run.invariant {I : S → Prop} (h : M.Run ok s ls t) (h₀ : I s)
    (hstep : ∀ t l t', I t → ok t l → M.step t l = some t' → I t') : I t := by
  induction h with
  | nil => exact h₀
  | snoc _ hok hst ih => exact hstep _ _ _ ih hok hst

/-- Invariance with the labels taken so far in view. -/
theorem Run.invariant_labels {I : List L → S → Prop} (h : M.Run ok s ls t) (h₀ : I [] s)
    (hstep : ∀ ls t l t', I ls t → ok t l → M.step t l = some t' → I (ls ++ [l]) t') :
    I ls t := by
  induction h with
  | nil => exact h₀
  | snoc _ hok hst ih => exact hstep _ _ _ _ ih hok hst

/-- A side condition that turns into another one where an invariant holds, and keeps it. -/
theorem Run.strengthen {I : S → Prop} (h : M.Run ok s ls t) (h₀ : I s)
    (hstep : ∀ t l t', I t → ok t l → M.step t l = some t' → I t' ∧ ok' t l) :
    M.Run ok' s ls t ∧ I t := by
  induction h with
  | nil => exact ⟨.nil, h₀⟩
  | snoc _ hok hst ih =>
    obtain ⟨hI, hok'⟩ := hstep _ _ _ ih.2 hok hst
    exact ⟨ih.1.snoc hok' hst, hI⟩

/-- A side condition that an invariant turns into another one. -/
theorem Run.mono_invariant {I : S → Prop} (h : M.Run ok s ls t) (h₀ : I s)
    (hstep : ∀ t l t', I t → M.step t l = some t' → I t')
    (himp : ∀ t l t', I t → M.step t l = some t' → ok t l → ok' t l) : M.Run ok' s ls t :=
  (h.strengthen h₀ fun t l t' hI hok hst => ⟨hstep t l t' hI hst, himp t l t' hI hst hok⟩).1

theorem Run.append (h : M.Run ok s ls t) (h' : M.Run ok t ls' u) : M.Run ok s (ls ++ ls') u := by
  induction h' with
  | nil => simpa using h
  | snoc _ hok hst ih => simpa [List.append_assoc] using ih.snoc hok hst

theorem Reachable.refl (s : S) : M.Reachable s s := ⟨[], .nil⟩

theorem Reachable.tail (h : M.Reachable s t) (hst : M.step t l = some u) : M.Reachable s u := by
  obtain ⟨ls, hr⟩ := h
  exact ⟨_, hr.snoc trivial hst⟩

theorem Reachable.trans (h : M.Reachable s t) (h' : M.Reachable t u) : M.Reachable s u := by
  obtain ⟨ls, hr⟩ := h
  obtain ⟨ls', hr'⟩ := h'
  exact ⟨ls ++ ls', hr.append hr'⟩

theorem Reachable.invariant {I : S → Prop} (h : M.Reachable s t) (h₀ : I s)
    (hstep : ∀ t l t', I t → M.step t l = some t' → I t') : I t := by
  obtain ⟨ls, hr⟩ := h
  exact hr.invariant h₀ fun t l t' hI _ hst => hstep t l t' hI hst

theorem exec_append (s : S) (ls ls' : List L) :
    M.exec s (ls ++ ls') = (M.exec s ls).bind fun t => M.exec t ls' := by
  induction ls generalizing s with
  | nil => simp [exec]
  | cons l ls ih =>
    simp only [List.cons_append, exec]
    cases M.step s l with
    | none => rfl
    | some t => simpa using ih t

/-- A run is an execution each of whose steps meets the side condition. -/
theorem Run.exec_eq (h : M.Run ok s ls t) : M.exec s ls = some t := by
  induction h with
  | nil => rfl
  | snoc _ _ hst ih => simp [exec_append, ih, exec, hst]

variable (M) in
/-- The executable check that `ls` is a run whose steps meet a decidable side condition. -/
def execOk (ok : S → L → Bool) : S → List L → Option S
  | s, [] => some s
  | s, l :: ls => if ok s l then (M.step s l).bind fun t => execOk ok t ls else none

variable (ok) in
theorem run_of_execOk {okb : S → L → Bool} (himp : ∀ s l, okb s l = true → ok s l) :
    ∀ {ls : List L} {s t : S}, M.execOk okb s ls = some t → M.Run ok s ls t := by
  intro ls
  induction ls with
  | nil =>
    intro s t h
    obtain rfl : s = t := by simpa [execOk] using h
    exact .nil
  | cons l ls ih =>
    intro s t h
    simp only [execOk] at h
    split at h
    · next hok =>
      obtain ⟨m, hst, hr⟩ := Option.bind_eq_some_iff.1 h
      exact (Run.nil.snoc (himp _ _ hok) hst).append (ih hr)
    · cases h

/-- A successful execution is a run without side condition. -/
theorem run_of_exec (h : M.exec s ls = some t) : M.Run always s ls t := by
  have heq : ∀ (ls : List L) (s : S), M.execOk (fun _ _ => true) s ls = M.exec s ls := by
    intro ls
    induction ls with
    | nil => intro s; rfl
    | cons l ls ih => intro s; simp [execOk, exec, ih]
  exact run_of_execOk always (fun _ _ _ => trivial) ((heq ls s).trans h)

/-- **Determinism.**  When at most one label can be taken in each state that an invariant allows,
every execution is the beginning of one that ends where none can be taken. -/
theorem prefix_of_exec {I : S → Prop} {t' : S}
    (hstep : ∀ s l t, I s → M.step s l = some t → I t)
    (hunique : ∀ s l l' t t', I s → M.step s l = some t → M.step s l' = some t' → l = l')
    (h : I s) (hex : M.exec s ls = some t) (hstuck : ∀ l, M.step t l = none)
    (hex' : M.exec s ls' = some t') : ls' <+: ls := by
  induction ls' generalizing s ls with
  | nil => exact List.nil_prefix
  | cons l' ls' ih =>
    obtain ⟨s₁', hst', hex'⟩ := Option.bind_eq_some_iff.1 hex'
    cases ls with
    | nil =>
      cases hex
      rw [hstuck l'] at hst'
      cases hst'
    | cons l ls =>
      obtain ⟨s₁, hst, hex⟩ := Option.bind_eq_some_iff.1 hex
      obtain rfl := hunique _ _ _ _ _ h hst hst'
      obtain rfl : s₁ = s₁' := Option.some.inj (hst.symm.trans hst')
      exact List.cons_prefix_cons.2 ⟨rfl, ih (hstep _ _ _ h hst) hex hex'⟩

theorem reachable_of_exec (h : M.exec s ls = some t) : M.Reachable s t := ⟨ls, run_of_exec h⟩

end Machine

end TesselFirmware
