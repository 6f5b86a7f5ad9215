import ContractAudit.Analysis.Renaming
import ContractAudit.Proofs.Outcomes

/-! # Runs of renaming steps

A run that succeeds is taken apart into runs of its parts. Loops are described by what holds after each of their rounds.
-/

namespace ContractAudit.Rename

open List

/-- What a renaming step works on. -/
abbrev State := Naming × Analysis

/-- A step succeeds from a state, with a result and a state after it. -/
def Runs {α : Type} (x : Rename α) (σ : State) (r : α) (τ : State) : Prop := x σ.1 σ.2 = .ok (r, τ.1) τ.2

variable {xs : List α}

/-! ## Taking runs apart -/

theorem runs_bind : Runs (x >>= k) σ r τ ↔ ∃ y υ, Runs x σ y υ ∧ Runs (k y) υ r τ := by
  constructor
  · intro h
    obtain ⟨⟨y, s⟩, a, hx, hk⟩ := bind_runs (x := x σ.1) (k := fun p => k p.1 p.2) h
    exact ⟨y, (s, a), hx, hk⟩
  · rintro ⟨y, υ, hx, hk⟩
    show EStateM.bind (x σ.1) (fun p => k p.1 p.2) σ.2 = _
    rw [EStateM.bind, hx]
    exact hk

theorem runs_pure {x r : α} : Runs (pure x) σ r τ ↔ r = x ∧ τ = σ := by
  constructor
  · intro h
    have h' : EStateM.Result.ok (x, σ.1) σ.2 = (.ok (r, τ.1) τ.2 : EStateM.Result Fault Analysis (α × Naming)) := h
    injection h' with h₁ h₂
    injection h₁ with h₃ h₄
    exact ⟨h₃.symm, Prod.ext h₄.symm h₂.symm⟩
  · rintro ⟨rfl, rfl⟩
    rfl

theorem runs_bind_pure {g : α → β} (h : Runs (x >>= fun y => pure (g y)) σ r τ) : ∃ y, Runs x σ y τ ∧ r = g y := by
  obtain ⟨y, υ, hy, h⟩ := runs_bind.1 h
  obtain ⟨rfl, rfl⟩ := runs_pure.1 h
  exact ⟨y, hy, rfl⟩

theorem runs_modify (h : Runs (modify g) σ u τ) : τ = (g σ.1, σ.2) := (runs_pure.1 h).2

theorem runs_modifyAnalysis (h : Runs (modifyAnalysis g) σ u τ) : τ = (σ.1, g σ.2) := (runs_pure.1 h).2

theorem not_runs_fail : ¬ Runs (fail e) σ r τ := fun h => nomatch h

theorem runs_lifted (h : Runs (lifted x) σ r τ) : x = .ok r ∧ τ = σ := by
  cases x with
  | ok y =>
    obtain ⟨rfl, rfl⟩ := runs_pure.1 h
    exact ⟨rfl, rfl⟩
  | error e => exact nomatch h

/-! A step whose outcome is known leaves the run of what follows it. -/

theorem runs_get_bind (h : Runs (get >>= k) σ r τ) : Runs (k σ.1) σ r τ := h

theorem runs_modify_bind (h : Runs (modify g >>= k) σ r τ) : Runs (k ()) (g σ.1, σ.2) r τ := h

theorem runs_analysis_bind : Runs (analysis >>= k) σ r τ ↔ Runs (k σ.2) σ r τ := .rfl

/-! ## Loops -/

theorem forIn_runs (P : List α → State → Prop) (h : Runs (forIn xs PUnit.unit body) σ r τ) (hstart : P [] σ)
    (hround : ∀ done x rest, xs = done ++ x :: rest → ∀ υ r υ', P done υ → Runs (body x PUnit.unit) υ r υ' →
      r = .yield PUnit.unit ∧ P (done ++ [x]) υ') : P xs τ := by
  suffices key : ∀ rest done υ, xs = done ++ rest → P done υ → Runs (forIn rest PUnit.unit body) υ r τ → P xs τ from
    key xs [] σ rfl hstart h
  intro rest
  induction rest with
  | nil =>
    intro done υ hxs hP hr
    rw [forIn_nil, runs_pure] at hr
    rw [hxs, hr.2, append_nil]
    exact hP
  | cons x rest ih =>
    intro done υ hxs hP hr
    rw [forIn_cons, runs_bind] at hr
    obtain ⟨y, υ', hb, hk⟩ := hr
    obtain ⟨rfl, hP'⟩ := hround done x rest hxs υ y υ' hP hb
    exact ih (done ++ [x]) υ' (by simpa using hxs) hP' hk

/-- A relation that each step of a kind keeps, step after step. -/
def Keeps (R : State → State → Prop) (x : Rename α) : Prop := ∀ ⦃σ r τ⦄, Runs x σ r τ → R σ τ

namespace Keeps

variable {R : State → State → Prop} [IsPreorder State R]

theorem pure (y : α) : Keeps R (Pure.pure y) := by
  intro σ r τ h
  rw [(runs_pure.1 h).2]
  exact refl σ

theorem analysis : Keeps R analysis := by
  intro σ r τ h
  rw [(runs_pure.1 h).2]
  exact refl σ

theorem bind (hx : Keeps R x) (hk : ∀ y, Keeps R (k y)) : Keeps R (x >>= k) := by
  intro σ r τ h
  obtain ⟨y, υ, hxr, hkr⟩ := runs_bind.1 h
  exact IsTrans.trans _ _ _ (hx hxr) (hk y hkr)

theorem forIn (hbody : ∀ x, Keeps R (body x PUnit.unit)) : Keeps R (ForIn.forIn xs PUnit.unit body) := by
  intro σ r τ h
  induction xs generalizing σ with
  | nil =>
    rw [forIn_nil, runs_pure] at h
    rw [h.2]
    exact refl σ
  | cons x xs ih =>
    rw [forIn_cons, runs_bind] at h
    obtain ⟨y, υ, hb, hk⟩ := h
    have hb' := hbody x hb
    cases y with
    | done u =>
      rw [(runs_pure.1 hk).2]
      exact hb'
    | yield u => exact IsTrans.trans _ _ _ hb' (ih hk)

theorem mapM (hg : ∀ x, Keeps R (g x)) : Keeps R (xs.mapM g) := by
  induction xs with
  | nil => exact pure _
  | cons x xs ih =>
    rw [mapM_cons]
    refine bind (hg x) fun y => ?_
    exact bind ih fun ys => pure (y :: ys)

end Keeps

end ContractAudit.Rename
