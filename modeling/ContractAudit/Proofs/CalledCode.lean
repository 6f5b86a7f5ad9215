import ContractAudit.Detect.Functions
import ContractAudit.Detect.Variables
import ContractAudit.Proofs.CallEffects
import ContractAudit.Proofs.Outcomes
import ContractAudit.Proofs.Summaries

/-! # Code that calls lead to

Functions that are never used, and variables that are never written, are told from the code that calls lead to.
-/

namespace ContractAudit

open Relation List

theorem mem_filterM {test : α → Result Bool} {xs ys : List α} (h : xs.filterM test = .ok ys) :
    x ∈ ys ↔ x ∈ xs ∧ test x = .ok true := by
  obtain ⟨zs, hzs, ⟨⟩⟩ := bind_eq_ok.1 h
  suffices key : ∀ found, xs.filterAuxM test found = .ok zs → (x ∈ zs ↔ x ∈ found ∨ x ∈ xs ∧ test x = .ok true) by
    simpa using key [] hzs
  clear h hzs
  induction xs with
  | nil => rintro found ⟨⟩; simp
  | cons y xs ih =>
    intro found h
    obtain ⟨keeps, hy, h⟩ := bind_eq_ok.1 h
    cases keeps <;> grind

namespace Analysis

variable {a : Analysis}

/-- Calls lead from a function to a call of another one in the contract. -/
def Uses (a : Analysis) (e g : FunctionId) : Prop :=
  ∃ f, ReflTransGen a.Calls e f ∧ ∃ i ∈ a.internalCalls f, calledFunction? i.op = some g

theorem mem_allInternalCalls : g ∈ (a.allInternalCalls e).filterMap (calledFunction? ·.op) ↔ a.Uses e g := by
  simp only [allInternalCalls, overCallees, mem_filterMap, mem_flatMap, mem_withCallees, Uses]
  grind

/-- What is not shadowed in a contract and what that uses, and the constructors of its bases, but not what these use. -/
def InCode (a : Analysis) (c : ContractId) (g : FunctionId) : Prop :=
  (∃ e ∈ a.program.functionsOf c ++ a.program.modifiersOf c, (a.program.function e).shadowed = false ∧ (g = e ∨ a.Uses e g)) ∨
    ∃ b ∈ (a.program.contract c).inheritance, a.program.constructor? b = some g

theorem mem_contractCode : g ∈ a.contractCode c ↔ a.InCode c g := by
  simp only [contractCode, InCode, mem_eraseDups, mem_append, mem_flatMap, mem_allInternalCalls]
  grind

end Analysis

namespace Detect

open Analysis

theorem mem_usedNames : name ∈ usedNames a ↔ ∃ c ∈ a.program.mostDerived, ∃ e ∈ a.program.entryPoints c,
    ∃ g, a.Uses e g ∧ a.program.functionCanonicalName g = name := by
  simp only [usedNames, mem_eraseDups, mem_map, ← mem_allInternalCalls]
  grind

/-- A function is reported exactly if it may be, and none with its name is used from an entry point of a contract that no other
derives from. What constructors of bases and initial values use is not seen. -/
theorem deadFunctions_exact {dead : List FunctionId} (h : deadFunctions a = .ok dead) :
    f ∈ dead ↔ f ∈ a.program.allFunctions ∧ mayBeDead a.program f = .ok true ∧
      ∀ c ∈ a.program.mostDerived, ∀ e ∈ a.program.entryPoints c, ∀ g, a.Uses e g →
        a.program.functionCanonicalName g ≠ a.program.functionCanonicalName f := by
  obtain ⟨found, hfound, ⟨⟩⟩ := bind_eq_ok.1 h
  have hkept : ∀ name f, (do return (← mayBeDead a.program f) && !(usedNames a).contains name) = Except.ok true ↔
      mayBeDead a.program f = .ok true ∧ name ∉ usedNames a := by
    intro name f
    cases mayBeDead a.program f <;> simp [bind, Except.bind, pure, Except.pure]
  simp only [mem_map, mem_filterM hfound, mem_mergeSort, Prod.exists, hkept, mem_usedNames]
  grind

/-- A variable whose initial value is what a function gives that is called nowhere else. -/
def calledInitially : Analysis where
  program := {
    contractTable := #[{ name := "C", id := 0, scope := 0, functions := [("f", 0), ("g", 1)] }]
    contracts := [0]
    allFunctions := [0, 1]
    functionTable := #[{ place := .inContract 0 0, visibility := some "internal", implemented := some true, flow := { order := [0] } },
      { place := .inContract 0 0, kind := .constructorVariables, visibility := some "internal", flow := { order := [0] } }] }
  code := #[{}, { callsKnown := true, callees := [0], nodes := #[{ internalCalls := [{ op := .call { kind := .internal (some 0) "f" "" } }] }] }]

theorem calledInitially_unused : mayBeDead calledInitially.program 0 = .ok true ∧ ∀ c ∈ calledInitially.program.mostDerived,
    ∀ e ∈ calledInitially.program.entryPoints c, ∀ g, calledInitially.Uses e g →
      calledInitially.program.functionCanonicalName g ≠ calledInitially.program.functionCanonicalName 0 := by
  have h : deadFunctions calledInitially = .ok [0] := by cbv
  exact ((deadFunctions_exact h).1 (mem_singleton_self 0)).2

theorem calledInitially_reported : deadFunctions calledInitially = .ok [0] ∧
    calledInitially.program.isInitial 1 = true ∧ calledInitially.Calls 1 0 :=
  ⟨by cbv, rfl, .inl (by decide)⟩

theorem steadiness?_unwritten (h : steadiness? p later inConstructor initially v = .ok (some s)) :
    v ∉ later ∧ (s = .constant → v ∉ inConstructor) := by
  unfold steadiness? at h
  by_cases hlater : v ∈ later
  · simp [hlater, pure, Except.pure] at h
  cases knowsImmutable p <;> simp [pure, Except.pure, bind, Except.bind] at h <;> grind

theorem steadyVariables_unwritten {found : List (VariableId × Steadiness)} (h : steadyVariables a = .ok found)
    (hv : (v, s) ∈ found) :
    ∃ c ∈ a.program.mostDerived, v ∈ a.program.storedVariables c ∧ ∀ g, a.InCode c g →
      (a.program.function g).kind ≠ .constructorVariables → ((a.program.function g).kind = .constructor → s = .constant) →
      v ∉ a.stateWritten g ∧ (a.program.isStateVariable v → (a.functionCode g).usageKnown → a.AloneIn g (·.written) v →
        ∀ n ∈ a.nodeIds g, .var v ∉ (a.nodeCode g n).written) := by
  obtain ⟨lists, hlists, ⟨⟩⟩ := bind_eq_ok.1 h
  obtain ⟨⟨w, t⟩, hfound, hs⟩ := mem_filterMap.1 hv
  obtain ⟨rfl, rfl⟩ : t = some s ∧ w = v := by simpa using hs
  obtain ⟨xs, hxs, hx⟩ := mem_flatten.1 hfound
  obtain ⟨c, hc, hrun⟩ := mem_of_mapM hlists hxs
  obtain ⟨v, hstored, hrun⟩ := mem_of_mapM hrun hx
  obtain ⟨_, hsteady, ⟨⟩⟩ := bind_eq_ok.1 hrun
  obtain ⟨hlater, hconstructor⟩ := steadiness?_unwritten hsteady
  refine ⟨c, mem_of_mem_filter hc, mem_of_mem_filter hstored, fun g hg hkind hconst => ?_⟩
  have hunwritten : w ∉ a.stateWritten g := by
    intro hwritten
    rw [← mem_contractCode] at hg
    simp only [writtenBy, mem_flatMap, mem_filter] at hlater hconstructor
    by_cases hk : (a.program.function g).kind = .constructor
    · exact hconstructor (hconst hk) ⟨g, ⟨hg, by simp [hk]⟩, hwritten⟩
    · exact hlater ⟨g, ⟨hg, by simp [hk, hkind]⟩, hwritten⟩
  refine ⟨hunwritten, fun hstate hknown halone n hn hw => hunwritten ?_⟩
  exact ((variablesWritten_collects hknown).mem_statesIn hstate halone).2 ⟨n, hn, hw⟩

/-- A contract whose base has a constructor that calls what writes the variable. -/
def writtenAbove : Analysis where
  program := {
    variableTable := #[{ kind := .state 1, name := "x", type := some (.elementary (.uint 256)) }]
    contractTable := #[{ name := "B", id := 0, scope := 0, inheritance := [1], functions := [("constructor()", 2)], variablesOrdered := [0] },
      { name := "A", id := 1, scope := 0, functions := [("constructor()", 0), ("f()", 1)] }]
    contracts := [0, 1]
    functionTable := #[{ place := .inContract 1 1, kind := .constructor }, { place := .inContract 1 1, flow := { order := [0] } },
      { place := .inContract 0 0, kind := .constructor, implemented := some true }] }
  code := #[{ callees := [1] }, { usageKnown := true, nodes := #[{ written := [.var 0] }] }]

theorem writtenAbove_unwritten : ∃ c ∈ writtenAbove.program.mostDerived, 0 ∈ writtenAbove.program.storedVariables c ∧
    ∀ g, writtenAbove.InCode c g → (writtenAbove.program.function g).kind ≠ .constructorVariables → 0 ∉ writtenAbove.stateWritten g := by
  have h : steadyVariables writtenAbove = .ok [(0, .constant)] := by cbv
  obtain ⟨c, hc, hstored, hcode⟩ := steadyVariables_unwritten h (mem_singleton_self _)
  exact ⟨c, hc, hstored, fun g hg hkind => (hcode g hg hkind fun _ => rfl).1⟩

theorem writtenAbove_constant : steadyVariables writtenAbove = .ok [(0, .constant)] ∧ writtenAbove.program.constructor? 1 = some 0 ∧
    writtenAbove.Calls 0 1 ∧ 0 ∈ writtenAbove.stateWritten 1 := by
  exact ⟨by cbv, by cbv, .inl (by decide), elem_iff.1 (by cbv)⟩

end Detect

end ContractAudit
