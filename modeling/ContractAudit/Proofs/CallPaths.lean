import ContractAudit.Analysis.Summary
import Mathlib.Data.List.Chain

/-! # Paths of calls

The paths to a function are the simple ones that lead to it through declared code and start at a function that can be called
from outside.
-/

namespace ContractAudit.Analysis

open List

variable {a : Analysis}

/-- A function calls another one of a contract, or what a base of that contract declares under its full name. -/
def GoesTo (a : Analysis) (f g : FunctionId) : Prop :=
  ∃ c, a.program.functionContract? g = some c ∧ ∃ h ∈ a.calledFunctions f,
    h = g ∨ ∃ d ∈ (a.program.contract c).inheritance,
      h ∈ a.program.declaredCode d ∧ a.program.functionFullName h = a.program.functionFullName g

theorem leadsTo_iff : a.leadsTo f g = true ↔ a.GoesTo f g := by
  unfold leadsTo GoesTo definitionsOf
  cases hg : a.program.functionContract? g <;> simp [hg]

theorem mem_callers : g ∈ a.declaredCode.filter (fun g => !(f :: rest).contains g && a.leadsTo g f) ↔
    g ∈ a.declaredCode ∧ g ∉ f :: rest ∧ a.GoesTo g f := by
  rw [mem_filter, Bool.and_eq_true, leadsTo_iff]
  simp

section

variable (hcode : a.declaredCode ⊆ l ++ f :: rest)

include hcode

/-- Where `l` is all that is declared and not on the path, each step takes one of it away. -/
theorem declared_subset_erase (hg : g ∈ a.declaredCode) (hnew : g ∉ f :: rest) :
    a.declaredCode ⊆ l.erase g ++ g :: f :: rest ∧ (l.erase g).length + 1 = l.length := by
  have hmem : g ∈ l := (mem_append.1 (hcode hg)).resolve_right hnew
  refine ⟨fun h hh => ?_, ?_⟩
  · by_cases hgh : h = g
    · simp [hgh]
    · have := hcode hh
      simp_all [mem_erase_of_ne hgh]
  · have := length_pos_of_mem hmem
    rw [length_erase_of_mem hmem]
    omega

theorem pathsEndingWith_congr (h : l.length < fuel) (h' : l.length < fuel') :
    a.pathsEndingWith fuel (f :: rest) = a.pathsEndingWith fuel' (f :: rest) := by
  induction fuel generalizing fuel' f rest l with
  | zero => omega
  | succ fuel ih =>
    cases fuel' with
    | zero => omega
    | succ fuel' =>
      rw [pathsEndingWith, pathsEndingWith]
      rw [flatMap_def, flatMap_def]
      congr 2
      refine map_congr_left fun g hg => ?_
      obtain ⟨hdeclared, hnew, -⟩ := mem_callers.1 hg
      obtain ⟨hcode', hlength⟩ := declared_subset_erase hcode hdeclared hnew
      exact ih hcode' (by omega) (by omega)

theorem mem_pathsEndingWith (hfuel : l.length < fuel) (hnodup : (f :: rest).Nodup) :
    path ∈ a.pathsEndingWith fuel (f :: rest) ↔ ∃ callers, path = callers ++ f :: rest ∧ path.Nodup ∧
      (callers ++ [f]).IsChain a.GoesTo ∧ callers ⊆ a.declaredCode ∧ 2 ≤ path.length ∧ path.head?.any a.program.isPublic := by
  induction fuel generalizing f rest l with
  | zero => omega
  | succ fuel ih =>
    rw [pathsEndingWith, mem_append, mem_flatMap]
    constructor
    · rintro (⟨g, hg, hpath⟩ | hpath)
      · obtain ⟨hdeclared, hnew, hleads⟩ := mem_callers.1 hg
        obtain ⟨hcode', hlength⟩ := declared_subset_erase hcode hdeclared hnew
        obtain ⟨callers, rfl, hpath, hchain, hcallers, hrest⟩ := (ih hcode' (by omega) (nodup_cons.2 ⟨hnew, hnodup⟩)).1 hpath
        refine ⟨callers ++ [g], by simp, hpath, ?_, by simp [hcallers, hdeclared], hrest⟩
        exact hchain.append (isChain_singleton f) (by simpa using hleads)
      · split at hpath
        next h =>
          obtain rfl := mem_singleton.1 hpath
          rw [Bool.and_eq_true, Bool.not_eq_true', isEmpty_eq_false_iff, ← length_pos_iff] at h
          exact ⟨[], rfl, hnodup, isChain_singleton f, nil_subset _, Nat.succ_le_succ h.2, by simpa using h.1⟩
        next => cases hpath
    · rintro ⟨callers, rfl, hpath, hchain, hcallers, hlength, hpublic⟩
      rcases eq_nil_or_concat' callers with rfl | ⟨callers, g, rfl⟩
      · have hrest : rest ≠ [] := by
          rintro rfl
          simp at hlength
        exact .inr (by simpa [hrest] using hpublic)
      · rw [isChain_append] at hchain
        have hsplit : callers ++ [g] ++ f :: rest = callers ++ g :: f :: rest := by simp
        have hdeclared : g ∈ a.declaredCode := hcallers (by simp)
        have hnew : (g :: f :: rest).Nodup := (nodup_append.1 (hsplit ▸ hpath)).2.1
        obtain ⟨hcode', herase⟩ := declared_subset_erase hcode hdeclared (nodup_cons.1 hnew).1
        refine .inl ⟨g, mem_callers.2 ⟨hdeclared, (nodup_cons.1 hnew).1, hchain.2.2 g (by simp) f (by simp)⟩, ?_⟩
        exact (ih hcode' (by omega) hnew).2
          ⟨callers, hsplit, hpath, hchain.1, fun h hh => hcallers (mem_append_left _ hh), hlength, hpublic⟩

end

end ContractAudit.Analysis
