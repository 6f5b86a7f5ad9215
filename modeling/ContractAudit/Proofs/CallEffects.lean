import ContractAudit.Proofs.DataDependency

/-! # Versions after calls

After an internal call, a state variable gets the versions that it has when the callee ends. They are found by a search that
starts with nothing at the entry of the callee, so the version before the call is not among them, even if the callee can end
without a write.
-/

namespace ContractAudit

open Ir List Table

variable {name : String}

variable {W : Nat → Prop}

theorem all_addAllNew (hx : ∀ v ∈ xs, W v) (hy : ∀ v ∈ ys, W v) : ∀ v ∈ addAllNew xs ys, W v := by
  refine foldlRecOn (motive := fun zs => ∀ v ∈ zs, W v) _ _ hx fun zs hz y hmem => ?_
  unfold addNew
  split
  · exact hz
  · exact forall_mem_append.2 ⟨hz, forall_mem_singleton.2 (hy y hmem)⟩

namespace LastVersions

/-- All versions that a search has met are of a kind. -/
structure Holds (W : Nat → Prop) (s : LastVersions) : Prop where
  cells : ∀ i, ∀ v ∈ s.cell i, W v
  result : ∀ p ∈ s.result, ∀ v ∈ p.2, W v

namespace Holds

variable {s : LastVersions} {values known : Table String Nat} (h : s.Holds W)
include h

theorem add (hx : ∀ v ∈ xs, W v) : (s.add xs).1.Holds W := by
  refine ⟨fun i v hv => ?_, h.result⟩
  simp only [LastVersions.add, cell, getD_push] at hv
  split at hv
  · exact hx v hv
  · exact h.cells i v hv

theorem grow (hx : ∀ v ∈ xs, W v) : Holds W { s with cells := s.cells.modify j fun vs => addAllNew vs xs } := by
  refine ⟨fun i v hv => ?_, h.result⟩
  simp only [cell, getD_modify] at hv
  split at hv
  · exact all_addAllNew (h.cells i) hx v hv
  · exact h.cells i v hv

theorem merge : (s.merge known values).1.Holds W := by
  refine foldlRecOn (motive := fun q : LastVersions × Table String Nat => q.1.Holds W) _ _ h fun q hq p _ => ?_
  obtain ⟨s, known⟩ := q
  dsimp only
  split
  · exact hq.grow (hq.cells p.2)
  · have hnew : (s.add []).1.Holds W := hq.add (by simp)
    exact hnew.grow (hnew.cells p.2)

theorem finish : (s.finish values).Holds W := by
  refine ⟨h.cells, foldlRecOn (motive := fun r : Table String (List Nat) => ∀ p ∈ r, ∀ v ∈ p.2, W v) _ _ h.result ?_⟩
  intro r hr p _ q hq
  rcases mem_insert hq with rfl | hq
  · refine all_addAllNew (fun v hv => ?_) (h.cells p.2)
    cases hfind : find? p.1 r with
    | none => simp [hfind] at hv
    | some vs => exact hr _ (mem_of_find? hfind) v (by simpa [hfind] using hv)
  · exact hr q hq

end Holds

end LastVersions

namespace Analysis

variable {a s t : Analysis}

/-- A function writes a version of a state variable, not at its entry. -/
def Writes (a : Analysis) (g : FunctionId) (v : Nat) : Prop :=
  ∃ m, (a.flow g).kind m ≠ .entryPoint ∧ v ∈ a.stateVersionsWritten g m

theorem afterWrites_holds {values : Table String Nat} (h : q.Holds (a.Writes f)) :
    (a.afterWrites f n q values).1.Holds (a.Writes f) := by
  unfold afterWrites
  split
  · exact h
  · rename_i hkind
    refine foldlRecOn (motive := fun q : LastVersions × Table String Nat => q.1.Holds (a.Writes f)) _ _ h fun q hq v hv => ?_
    exact hq.add (forall_mem_singleton.2 ⟨n, by simpa using hkind, hv⟩)

theorem lastFrom_holds (fuel : Nat) (todo : List (NodeId × Table String Nat))
    (h : q.Holds (a.Writes f)) : (a.lastFrom f fuel todo q).Holds (a.Writes f) := by
  induction fuel generalizing todo q with
  | zero => exact h
  | succ fuel ih =>
    cases todo with
    | nil => exact h
    | cons p todo =>
      obtain ⟨n, values⟩ := p
      have hwrites : (a.afterWrites f n q values).1.Holds (a.Writes f) := afterWrites_holds h
      have hproceed : ∀ {q : LastVersions} {values}, q.Holds (a.Writes f) → LastVersions.Holds (a.Writes f)
          (if a.willReturn f n then LastVersions.finish { q with known := insert n values q.known } values
            else { q with known := insert n values q.known }) := by
        intro q values hq
        have hq' : LastVersions.Holds (a.Writes f) { q with known := insert n values q.known } := ⟨hq.cells, hq.result⟩
        split
        · exact hq'.finish
        · exact hq'
      rw [lastFrom]
      dsimp only
      split
      · split
        · exact ih _ hwrites
        · exact ih _ (hproceed hwrites.merge)
      · exact ih _ (hproceed hwrites)

theorem lastVersions_written (h : find? name (a.lastVersions g) = some vs) : ∀ v ∈ vs, a.Writes g v := by
  have hmem := mem_of_find? h
  unfold lastVersions at hmem
  split at hmem
  · exact (lastFrom_holds _ _ ⟨by simp [LastVersions.cell], by simp⟩).result _ hmem
  · cases hmem

theorem ssa_setSsa_of_ne (h : ¬ (g = f ∧ m = n)) : (s.setSsa f n ops).ssa g m = s.ssa g m := by
  by_cases hg : g = f
  · subst hg
    rw [ssa_setSsa, if_neg fun hm => h ⟨rfl, hm⟩]
  · have hcode : (s.setSsa f n ops).functionCode g = s.functionCode g :=
      (getD_modify_grown s.code f g {} _).trans (if_neg hg)
    rw [ssa, nodeCode, hcode]
    rfl

/-- Operations are dropped, or change in what they read. -/
structure Merging (a s : Analysis) : Prop where
  program : s.program = a.program
  store : s.store = a.store
  written : ∀ g m, (s.ssa g m).map (·.op.lvalue?) ⊆ (a.ssa g m).map (·.op.lvalue?)

theorem Merging.writes (hs : Merging a s) (hv : s.Writes g v) : a.Writes g v := by
  obtain ⟨m, hkind, hv⟩ := hv
  refine ⟨m, by simpa [flow, hs.program] using hkind, ?_⟩
  obtain ⟨i, hi, hv⟩ := mem_filterMap.1 hv
  obtain ⟨j, hj, hij⟩ := mem_map.1 (hs.written g m (mem_map_of_mem hi))
  exact mem_filterMap.2 ⟨j, hj, by simpa [hij, hs.store, hs.program] using hv⟩

theorem Merging.setSsa (hs : Merging a s) (hops : ops.map (·.op.lvalue?) ⊆ (s.ssa f n).map (·.op.lvalue?)) :
    Merging a (s.setSsa f n ops) := by
  refine ⟨hs.program, hs.store, fun g m => ?_⟩
  by_cases hgm : g = f ∧ m = n
  · obtain ⟨rfl, rfl⟩ := hgm
    rw [ssa_setSsa, if_pos rfl]
    exact Subset.trans hops (hs.written g m)
  · rw [ssa_setSsa_of_ne hgm]
    exact hs.written g m

/-- A version after an internal call is the one before it, or the callee writes it. -/
def FromCallee (a : Analysis) (op : Op) : Prop :=
  ∀ r values call old g t x, op = .phiCallback (.version r) values call old → call.kind = .internal (some g) t x →
    values = [.version r] ∨ ∀ v ∈ values, ∃ w, v = .version w ∧ a.Writes g w

theorem mergedOp_spec (hs : Merging a s)
    (h : s.mergedOp e f isEntry op = .ok op') : op'.lvalue? = op.lvalue? ∧ FromCallee a op' := by
  unfold mergedOp at h
  split at h
  · split at h
    · obtain ⟨values, -, h⟩ := bind_eq_ok.1 h
      cases h
      exact ⟨rfl, fun _ _ _ _ _ _ _ hop => by cases hop⟩
    · cases h
      exact ⟨rfl, fun _ _ _ _ _ _ _ hop => by cases hop⟩
  next r values call old =>
    obtain ⟨values', hvalues, h⟩ := bind_eq_ok.1 h
    cases h
    refine ⟨rfl, fun _ _ _ _ g t x hop hkind => ?_⟩
    cases hop
    simp only [callValues, hkind] at hvalues
    split at hvalues
    next vs hfind =>
      cases hvalues
      refine .inr fun v hv => ?_
      obtain ⟨w, hw, rfl⟩ := mem_map.1 hv
      exact ⟨w, rfl, hs.writes (lastVersions_written hfind w hw)⟩
    next =>
      cases hvalues
      exact .inl rfl
  next hcall =>
    cases h
    exact ⟨rfl, fun r values call old _ _ _ hop => absurd hop (hcall r values call old)⟩

end Analysis

namespace Analyze

open Analysis

/-- What the calls of a node do is known. -/
def Merged (a s : Analysis) (f : FunctionId) (n : NodeId) : Prop :=
  ∀ i ∈ s.ssa f n, a.FromCallee i.op ∧ isIdle i.op = false

theorem mergeNode_runs (hs : Merging a s) (hrun : mergeNode e f n s = .ok u t) :
    Merging a t ∧ Merged a t f n ∧ ∀ g m, Merged a s g m → Merged a t g m := by
  obtain ⟨_, _, hget, hrun⟩ := bind_runs hrun
  cases hget
  obtain ⟨ops, _, hlifted, hrun⟩ := bind_runs hrun
  obtain ⟨hops, rfl⟩ := lifted_runs hlifted
  cases hrun
  have hspec : ∀ j ∈ ops, (∃ i ∈ s.ssa f n, j.op.lvalue? = i.op.lvalue?) ∧ a.FromCallee j.op := by
    intro j hj
    obtain ⟨i, hi, hij⟩ := mem_of_mapM hops hj
    obtain ⟨op, hop, hij⟩ := bind_eq_ok.1 hij
    cases hij
    obtain ⟨hlvalue, hcallee⟩ := mergedOp_spec hs hop
    exact ⟨⟨i, hi, hlvalue⟩, hcallee⟩
  have hall : Merged a (s.setSsa f n (ops.filter fun i => !isIdle i.op)) f n := by
    intro i hi
    rw [ssa_setSsa, if_pos rfl, mem_filter] at hi
    exact ⟨(hspec i hi.1).2, by simpa using hi.2⟩
  refine ⟨hs.setSsa fun x hx => ?_, hall, fun g m hgm => ?_⟩
  · obtain ⟨j, hj, rfl⟩ := mem_map.1 hx
    obtain ⟨i, hi, hij⟩ := (hspec j (mem_filter.1 hj).1).1
    exact mem_map.2 ⟨i, hi, hij.symm⟩
  · by_cases hsame : g = f ∧ m = n
    · obtain ⟨rfl, rfl⟩ := hsame
      exact hall
    · exact fun i hi => hgm i (ssa_setSsa_of_ne hsame ▸ hi)

/-- `s = 2; g();` where `g` is `if (_) s = 1;`, on versions. -/
def branchedCallee : Analysis where
  program := {
    variableTable := #[{ kind := .state 0, name := "s" }]
    functionTable := #[
      { place := .inContract 0 0, implemented := some true, flow := {
        nodes := #[{ kind := .entryPoint, sons := [1] }, { kind := .branch, sons := [2, 3] },
          { kind := .expression, sons := [3] }, { kind := .endIf }]
        order := [0, 1, 2, 3]
        entry := some 0 } },
      { place := .inContract 0 0, implemented := some true, flow := {
        nodes := #[{ kind := .entryPoint, sons := [1] }, { kind := .expression }]
        order := [0, 1]
        entry := some 0 } }]
    contractTable := #[{ name := "C", id := 0, scope := 0, functions := [("g()", 0), ("f()", 1)] }] }
  store := { versions := (Array.range 4).map fun i => { variable_ := 0, index := i } }
  initialVersions := [(0, [0])]
  code := #[
    { nodes := #[{}, {}, { ssa := [{ op := .assign (.version 1) (.temporary 0) }] }] },
    { nodes := #[{}, { ssa := [{ op := .assign (.version 2) (.temporary 0) }, { op := .call callOfG },
      { op := .phiCallback (.version 3) [.version 2] callOfG (.version 2) }] }] }]
where
  callOfG : Call := { kind := .internal (some 0) "g" "C" }

/-- Of the versions that come together after a call of `g`, none is the version before it. -/
def losesOld (i : Instr) : Bool :=
  match i.op with
  | .phiCallback (.version _) values { kind := .internal (some 0) .., .. } old => !values.any (·.same old)
  | _ => false

end Analyze

end ContractAudit
