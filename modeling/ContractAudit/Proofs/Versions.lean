import ContractAudit.Proofs.Arrays
import ContractAudit.Proofs.Runs
import Mathlib.Tactic.ByContra

/-! # Versions and the tables that keep them

Local variables go by their names, state variables by their full names. The tables of a place give for each key the version
at the place and the latest of all; here is what each elementary change does to them.
-/

namespace ContractAudit

open Ir Program

variable {x y : Version} {p : Program}

/-! ## Keys -/

namespace Naming

variable (s : Naming) (K K' : Key) (i : Nat)

theorem current_put : (s.put K i).current K' = if K' = K then some i else s.current K' := by
  cases K <;> cases K' <;> simp [put, current, Table.find?_insert]

theorem latest_put : (s.put K i).latest K' = if K' = K then some i else s.latest K' := by
  cases K <;> cases K' <;> simp [put, latest, Table.find?_insert]

@[simp] theorem visited_put : (s.put K i).visited = s.visited := by cases K <;> rfl

@[simp] theorem parts_put : (s.put K i).parts = s.parts := by cases K <;> rfl

end Naming

/-! ## Versions -/

/-- Two versions differ at most in what they refer to. -/
def Ir.Version.Alike (x y : Version) : Prop :=
  x.variable_ = y.variable_ ∧ x.index = y.index ∧ x.standIn = y.standIn

theorem Ir.Version.Alike.refl (x : Version) : x.Alike x := ⟨rfl, rfl, rfl⟩

theorem Ir.Version.Alike.trans (h₁ : x.Alike y) (h₂ : y.Alike z) : x.Alike z :=
  ⟨h₁.1.trans h₂.1, h₁.2.1.trans h₂.2.1, h₁.2.2.trans h₂.2.2⟩

theorem Program.versionName_congr (h : x.Alike y) : p.versionName x = p.versionName y := by
  simp [versionName, h.1, h.2.2]

theorem Program.keyOf_congr (h : x.Alike y) : p.keyOf x = p.keyOf y := by
  simp [keyOf, h.1, versionName_congr h]

theorem Program.keyOf_first (hv : p.isLocalVariable v = true) :
    p.keyOf { variable_ := v, index } = .inner (p.var v).name := by
  simp [keyOf, hv, versionName]

theorem Program.keyOf_state (hk : (p.var v).kind = .state c) :
    p.keyOf { variable_ := v } = .state (p.variableCanonicalName v) := by
  simp [keyOf, isLocalVariable, hk]

namespace Analysis

variable (a : Analysis) (f : FunctionId) (n m : NodeId)

theorem version_addVersion :
    (a.addVersion x).store.version i = if i = a.store.versions.size then x else a.store.version i := by
  rw [addVersion, Store.version, getD_push]
  rfl

@[simp] theorem size_addVersion : (a.addVersion x).store.versions.size = a.store.versions.size + 1 := by
  simp [addVersion]

theorem key_addVersion :
    (a.addVersion x).key i = if i = a.store.versions.size then a.program.keyOf x else a.key i := by
  have hp : (a.addVersion x).program = a.program := rfl
  rw [key, hp, version_addVersion]
  by_cases h : i = a.store.versions.size
  · simp [h]
  · simp [h, key]

/-! ## Operations of nodes -/

theorem lt_size_grown (xs : Array α) (i : Nat) (d : α) : i < (grown xs i d).size := by
  unfold grown
  by_cases hi : i < xs.size
  · rwa [if_pos hi]
  · rw [if_neg hi, Array.size_append, Array.size_replicate]
    omega

theorem getD_grown (xs : Array α) (i j : Nat) (d : α) : (grown xs i d).getD j d = xs.getD j d := by
  unfold grown
  by_cases hi : i < xs.size
  · rw [if_pos hi]
  · rw [if_neg hi, Array.getD_eq_getD_getElem?, Array.getD_eq_getD_getElem?, Array.getElem?_append]
    by_cases hj : j < xs.size
    · rw [if_pos hj]
    · rw [if_neg hj, Array.getElem?_replicate, Array.getElem?_eq_none (Nat.le_of_not_lt hj)]
      by_cases hk : j - xs.size < i + 1 - xs.size
      · rw [if_pos hk]
        rfl
      · rw [if_neg hk]

theorem getD_modify_grown (xs : Array α) (i j : Nat) (d : α) (g : α → α) :
    ((grown xs i d).modify i g).getD j d = if j = i then g (xs.getD i d) else xs.getD j d := by
  have hsize := lt_size_grown xs i d
  rw [getD_modify, getD_grown]
  grind

theorem modify_congr (xs : Array α) (i : Nat) (d : α) (hgh : g (xs.getD i d) = h (xs.getD i d)) :
    xs.modify i g = xs.modify i h := by
  apply Array.ext
  · simp
  · intro j hj hj'
    rw [Array.getElem_modify, Array.getElem_modify]
    by_cases hij : i = j
    · subst hij
      have hlt : i < xs.size := by simpa using hj
      simpa [hlt] using hgh
    · simp [hij]

theorem functionCode_modifyCode (g : FunctionCode → FunctionCode) :
    (a.modifyCode f g).functionCode f = g (a.functionCode f) := by
  have h := getD_modify_grown a.code f f {} g
  rw [if_pos rfl] at h
  exact h

theorem nodeCode_modifyCode (hg : ∀ c, (g c).nodes = c.nodes) :
    (a.modifyCode f g).nodeCode f m = a.nodeCode f m := by
  rw [nodeCode, functionCode_modifyCode, hg]
  rfl

theorem nodeCode_modifyNode (g : NodeCode → NodeCode) :
    (a.modifyNode f n g).nodeCode f m = if m = n then g (a.nodeCode f n) else a.nodeCode f m := by
  rw [modifyNode, nodeCode, functionCode_modifyCode]
  exact getD_modify_grown (a.functionCode f).nodes n m {} g

theorem modifyNode_congr (hgh : g (a.nodeCode f n) = h (a.nodeCode f n)) :
    a.modifyNode f n g = a.modifyNode f n h := by
  have hnodes : ∀ c : FunctionCode, c = a.functionCode f →
      (grown c.nodes n default).modify n g = (grown c.nodes n default).modify n h := by
    rintro c rfl
    refine modify_congr _ n default ?_
    rw [getD_grown]
    exact hgh
  have hcode := modify_congr (grown a.code f default) f default
    (g := fun c => { c with nodes := (grown c.nodes n default).modify n g })
    (h := fun c => { c with nodes := (grown c.nodes n default).modify n h })
    (by rw [getD_grown, hnodes (a.code.getD f default) rfl])
  exact congrArg (fun code => { a with code }) hcode

theorem dominance_modifyNode (g : NodeCode → NodeCode) : (a.modifyNode f n g).dominance f = a.dominance f := by
  rw [modifyNode, dominance, functionCode_modifyCode]
  rfl

/-- Sets the operations on versions of a node. -/
def setSsa (ops : List Instr) : Analysis := a.modifyNode f n fun c => { c with ssa := ops }

theorem modifySsa (g : List Instr → List Instr) :
    (a.modifyNode f n fun c => { c with ssa := g c.ssa }) = a.setSsa f n (g (a.ssa f n)) :=
  modifyNode_congr _ _ _ rfl

theorem ssa_setSsa (ops : List Instr) : (a.setSsa f n ops).ssa f m = if m = n then ops else a.ssa f m := by
  rw [setSsa, ssa, nodeCode_modifyNode]
  by_cases h : m = n
  · simp [h]
  · simp [h, ssa]

theorem instrs_setSsa (ops : List Instr) : (a.setSsa f n ops).instrs f m = a.instrs f m := by
  rw [setSsa, instrs, nodeCode_modifyNode]
  by_cases h : m = n
  · simp [h, instrs]
  · simp [h, instrs]

theorem dominance_setSsa (ops : List Instr) : (a.setSsa f n ops).dominance f = a.dominance f :=
  dominance_modifyNode a f n _

end Analysis

/-! ## Elementary runs -/

namespace Rename

theorem runs_make (h : Runs (make x) σ i τ) : i = σ.2.store.versions.size ∧ τ = (σ.1, σ.2.addVersion x) := by
  obtain ⟨u, hu, rfl⟩ := runs_bind_pure (runs_analysis_bind.1 h)
  exact ⟨rfl, runs_modifyAnalysis hu⟩

theorem runs_emit (h : Runs (emit f n i) σ u τ) : τ = (σ.1, σ.2.setSsa f n (σ.2.ssa f n ++ [i])) := by
  rw [← σ.2.modifySsa f n (· ++ [i])]
  exact runs_modifyAnalysis h

theorem runs_version_bind (h : Runs (version i >>= k) σ r τ) : Runs (k (σ.2.store.version i)) σ r τ := h

theorem runs_make_bind :
    Runs (make x >>= k) σ r τ ↔ Runs (k σ.2.store.versions.size) (σ.1, σ.2.addVersion x) r τ := .rfl

theorem runs_replace (h : Runs (replace f n k op) σ u τ) :
    τ = (σ.1, σ.2.setSsa f n ((σ.2.ssa f n).modify k fun i => { i with op })) := by
  rw [← σ.2.modifySsa f n (·.modify k fun i => { i with op })]
  exact runs_modifyAnalysis h

end Rename

end ContractAudit
