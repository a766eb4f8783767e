import PicoSoc.TinyJambu.FailClosed
import PicoSoc.TinyJambu.Refinement
import PicoSoc.Xoodyak.Refinement
import PicoSoc.Xoodyak.Outcome

set_option autoImplicit false

/-! # Every start ends

A start of either core is followed by one cycle of `done`, after a number of cycles that only the
lengths and the mode determine; the firmware, which polls without a timeout, always leaves its
loop. -/

namespace PicoSoc

open Clocked

/-! ## TinyJAMBU -/

namespace TinyJambu

/-- The cycles of an operation. -/
def cycles (adLength dataLength : BitVec 5) : ℕ :=
  156 + 22 * (calcWords adLength).toNat + 34 * (calcWords dataLength).toNat

theorem settles : Settles Core.step (fun _ => True) Core.Returns (fun s => s.fsm.fsm = .idle)
    Core.done CoreIn.ena where
  keep := by
    intro s i _ hs
    by_cases hidle : s.fsm.fsm = .idle
    · intro hperm
      have hnext : (Core.step i s).fsm.fsm = if i.ena then .latchAd else .idle := by
        simp only [Core.step, Fsm.step, hidle]
        split <;> rfl
      rw [hnext] at hperm
      split at hperm <;> cases hperm
    · by_cases hdone : s.fsm.fsm = .done
      · intro hperm
        rw [Core.step, Fsm.step, hdone] at hperm
        cases hperm
      · exact (fsm_step_busy i.ena s.dp s.nlfsr.w2 hidle hdone hs).2
  rest := by
    intro s i _ hs hena
    simp [Core.step, Fsm.step, Core.done, hs, hena]
  accept := by
    intro s i _ hs hena
    simp [Core.step, Fsm.step, hs, hena]
  finish := by
    intro s i _ hinv hs hidle
    by_cases hdone : s.fsm.fsm = .done
    · rw [Core.done, Core.step, Fsm.step, hdone]
    · exact absurd hidle (fsm_step_busy i.ena s.dp s.nlfsr.w2 hs hdone hinv).1

end TinyJambu

/-! ## Xoodyak -/

namespace Xoodyak

/-- The cycles of an operation. -/
def cycles (n : ℕ) (selType : BitVec 3) (adLength dataLength : BitVec 5) : ℕ :=
  if selType = modeHash then hashTime n dataLength + 2 else aeadCycles n adLength dataLength + 2

theorem settles (n : ℕ) : Settles (Core.step n) NoRestart (fun _ => True)
    (fun s => s.stateR = .idle) Core.done CoreIn.ena where
  keep := fun _ _ _ _ => trivial
  rest := by
    intro s i hi hs hena
    have hi : i.restart = false := hi
    simp [Core.step, Core.advance, Core.stateNext, hi, hs, hena]
  accept := by
    intro s i hi hs hena
    have hi : i.restart = false := hi
    have hnext : (Core.step n i s).stateR = if i.selType = modeHash then .hashLoad else .loadKey := by
      simp [Core.step, Core.advance, Core.stateNext, hi, hs, hena]
    rw [hnext]
    split <;> decide
  finish := by
    intro s i hi _ hs hidle
    have hi : i.restart = false := hi
    have hnext : (Core.step n i s).stateR = s.stateNext i := by simp [Core.step, Core.advance, hi]
    rw [hnext] at hidle
    have hdone := (stateNext_eq_idle hidle).resolve_left hs
    simp [Core.step, Core.advance, hi, hdone]

/-- The cycles do not depend on the data. -/
theorem run_time {n : ℕ} (hn : n ∣ 12) {s : Core} (hs : s.FromReset n) (hidle : s.stateR = .idle)
    {env : ℕ → CoreIn} (henv : ∀ k, NoRestart (env k)) (hena : (env 0).ena = true) :
    FirstDone (Core.step n) env s Core.done
        (cycles n (env 0).selType (env 0).adLength (env 0).dataLength) ∧
      (run (Core.step n) env s
        (cycles n (env 0).selType (env 0).adLength (env 0).dataLength)).stateR = .idle := by
  have hinv := reachable_inv hn hs
  have hstarted := step_start_op hn hinv hidle (henv 0) hena
  by_cases hmode : (env 0).selType = modeHash
  · obtain ⟨t, hpath, hstate, -⟩ := path_hash hn hstarted hmode
    obtain ⟨hdone, hend, -⟩ := run_op hn hinv hidle henv hena hpath hstate
    rw [cycles, if_pos hmode]
    exact ⟨hdone, hend⟩
  · obtain ⟨t, hpath, hstate, -⟩ := path_aead hn hstarted hmode
    obtain ⟨hdone, hend, -⟩ := run_op hn hinv hidle henv hena hpath hstate
    rw [cycles, if_neg hmode]
    exact ⟨hdone, hend⟩

end Xoodyak

/-! ## Both cores -/

/-- An accepted start of either core ends with one cycle of `done`. The number of cycles until then
    is given by the lengths and the mode, whatever they are; the data, the history and the inputs of
    the other cycles, further starts among them, do not change it. -/
theorem starts_complete {n : ℕ} (hn : n ∣ 12) :
    (∀ (s : TinyJambu.Core) (env : ℕ → TinyJambu.CoreIn), s.fsm.fsm = .idle →
        (env 0).ena = true →
      Completes TinyJambu.Core.step env s (fun s => s.fsm.fsm = .idle) TinyJambu.Core.done
        TinyJambu.CoreIn.ena (TinyJambu.cycles (env 0).adLength (env 0).dataLength)) ∧
    (∀ (s : Xoodyak.Core) (env : ℕ → Xoodyak.CoreIn), s.FromReset n → s.stateR = .idle →
        (∀ k, (env k).restart = false) → (env 0).ena = true →
      Completes (Xoodyak.Core.step n) env s (fun s => s.stateR = .idle) Xoodyak.Core.done
        Xoodyak.CoreIn.ena
        (Xoodyak.cycles n (env 0).selType (env 0).adLength (env 0).dataLength)) := by
  refine ⟨fun s env hidle hena => ?_, fun s env hs hidle henv hena => ?_⟩
  · obtain ⟨hdone, hend, -⟩ := TinyJambu.run_op_any hidle hena
    exact TinyJambu.settles.completes (fun _ => trivial) (fun h => by rw [hidle] at h; cases h)
      hidle hena hdone hend
  · obtain ⟨hdone, hend⟩ := Xoodyak.run_time hn hs hidle henv hena
    exact (Xoodyak.settles n).completes henv trivial hidle hena hdone hend

/-- With every length out of the contract, where TinyJAMBU counts no words at all. -/
theorem starts_complete_long :
    Completes TinyJambu.Core.step (fun _ => { TinyJambu.firmwareOp with
        adLength := 31, dataLength := 29 }) .reset (fun s => s.fsm.fsm = .idle)
        TinyJambu.Core.done TinyJambu.CoreIn.ena 156 ∧
      Completes (Xoodyak.Core.step 1) (fun _ => { Xoodyak.firmwareOp with
        adLength := 31, dataLength := 29 }) .reset (fun s => s.stateR = .idle)
        Xoodyak.Core.done Xoodyak.CoreIn.ena 64 :=
  ⟨(starts_complete (by decide : 1 ∣ 12)).1 .reset _ rfl rfl,
    (starts_complete (by decide : 1 ∣ 12)).2 .reset _ (.init rfl) rfl (fun _ => rfl) rfl⟩

end PicoSoc
