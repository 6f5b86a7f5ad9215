import ContractAudit.Upgrade.Change

/-! # Checks of the order of variables -/

namespace ContractAudit.Upgrade

open List

variable (old new : Seat)

/-- Each variable of the area is still at its place, with its name and its type. -/
def Area.Keeps (area : Area) : Prop :=
  ∀ (i : Nat) v, (area.variablesOf old)[i]? = some v →
    ∃ w, (area.variablesOf new)[i]? = some w ∧ sameDeclaration old new v w = true

theorem misplacedIn_eq_nil {i : Nat} (h : misplacedIn area old new = [])
    (hv : (area.variablesOf old)[i]? = some v) (hw : (area.variablesOf new)[i]? = some w) :
    sameDeclaration old new v w = true := by
  have hpair : (v, w) ∈ (area.variablesOf old).zip (area.variablesOf new) :=
    mem_of_getElem? (getElem?_zip_eq_some.2 ⟨hv, hw⟩)
  simpa using filter_eq_nil_iff.1 h _ hpair

theorem Area.keeps_iff (h : misplacedIn area old new = []) :
    area.Keeps old new ↔ (area.variablesOf old).length ≤ (area.variablesOf new).length := by
  refine ⟨fun hkeeps => ?_, fun hle i v hv => ?_⟩
  · rcases Nat.lt_or_ge (area.variablesOf new).length (area.variablesOf old).length with hlt | hle
    · obtain ⟨w, hw, -⟩ := hkeeps _ _ (getElem?_eq_getElem hlt)
      simp at hw
    · exact hle
  · obtain ⟨hi, -⟩ := List.getElem?_eq_some_iff.1 hv
    have hw := getElem?_eq_getElem (Nat.lt_of_lt_of_le hi hle)
    exact ⟨_, hw, misplacedIn_eq_nil old new h hv hw⟩

/-- If the checks of missing and of misplaced variables find nothing, the variables of an area are at their places unless there
are fewer than before; and if there are fewer in all, their names are still there. -/
theorem variables_kept (hmissing : missingVariables old new = []) (hplaced : misplacedVariables old new = []) :
    (∀ area : Area, area.Keeps old new ↔ (area.variablesOf old).length ≤ (area.variablesOf new).length) ∧
      ((slotVariables new).length < (slotVariables old).length →
        ∀ v ∈ slotVariables old, ∃ w ∈ slotVariables new, sameName old new v w = true) := by
  obtain ⟨hstored, htransient⟩ := append_eq_nil_iff.1 hplaced
  refine ⟨fun area => ?_, fun hlt v hv => ?_⟩
  · cases area with
    | stored => exact Area.keeps_iff old new hstored
    | transient => exact Area.keeps_iff old new htransient
  · rw [missingVariables, if_pos hlt] at hmissing
    simpa using filter_eq_nil_iff.1 hmissing v hv

/-- The second contract has one of the two variables `x` of the first. -/
def shrunk : Analysis where
  program := {
    variableTable := #[{ kind := .state 0, name := "x" }, { kind := .state 0, name := "x" }]
    contractTable := #[{ (default : Contract) with variablesOrdered := [0, 1] },
      { (default : Contract) with variablesOrdered := [0] }] }

theorem shrunk_kept : Area.stored.Keeps ⟨shrunk, 1⟩ ⟨shrunk, 0⟩ :=
  ((variables_kept ⟨shrunk, 1⟩ ⟨shrunk, 0⟩ (by decide) (by decide)).1 .stored).2 (by decide)

theorem shrunk_passes : missingVariables ⟨shrunk, 0⟩ ⟨shrunk, 1⟩ = [] ∧ misplacedVariables ⟨shrunk, 0⟩ ⟨shrunk, 1⟩ = [] ∧
    ¬ Area.stored.Keeps ⟨shrunk, 0⟩ ⟨shrunk, 1⟩ := by
  refine ⟨by decide, by decide, fun h => ?_⟩
  obtain ⟨w, hw, -⟩ := h 1 1 (by decide)
  cases hw

end ContractAudit.Upgrade
