import ContractAudit.Proofs.Renaming
import Mathlib.Logic.Relation

/-! # After the walk

The places where versions meet are filled, and what is written through local variables in storage is added. All that is added
has one node as its origin.
-/

namespace ContractAudit.Rename

open Ir List
open Keeps (bind mapM)

variable {first : Table String Nat} {n : NodeId} {σ τ υ : State}

/-- A change after the walk. `P` is said of the values that are filled in for a version and the nodes they come from. -/
inductive Amend (f : FunctionId) (P : Analysis → Nat → List NodeId → List Value → Prop) : State → State → Prop
  | quiet {σ τ : State} : Quiet σ τ → τ.2.store.versionParts = σ.2.store.versionParts → Amend f P σ τ
  /-- Going back to the versions of a place. -/
  | back (s : Naming) (σ : State) : Amend f P σ ({ σ.1 with locals := s.locals, states := s.states }, σ.2)
  | make (v : VariableId) (σ : State) : Amend f P σ (σ.1, σ.2.addVersion { variable_ := v })
  | fill {σ : State} {n k : Nat} {r : Nat} {nodes : List NodeId} {e : Option Expr} (values : List Value) :
      (σ.2.ssa f n)[k]? = some ⟨.phi (.version r) [] nodes, e⟩ →
      P σ.2 r nodes values →
      Amend f P σ (σ.1, σ.2.setSsa f n ((σ.2.ssa f n).modify k fun i => { i with op := .phi (.version r) values nodes }))
  | extend (n : NodeId) {w : Value} (i : Nat) (σ : State) : (∀ j, w ≠ .version j) →
      Amend f P σ (adding f n { op := .phi w [.version i] [n] } σ)
  | renew (n : NodeId) {j : Nat} (i : Nat) {σ τ : State} : Renews σ j τ →
      Amend f P σ (adding f n { op := .phi (.version σ.2.store.versions.size) [.version i] [n] } τ)

/-- Changes after the walk, one after the other. -/
abbrev Amends (f : FunctionId) (P : Analysis → Nat → List NodeId → List Value → Prop) : State → State → Prop :=
  Relation.ReflTransGen (Amend f P)

theorem filterMap_modify {l : List α}
    (hx : l[k]? = some x) (hg : h (g x) = h x) : (l.modify k g).filterMap h = l.filterMap h := by
  induction l generalizing k with
  | nil => simp at hx
  | cons y l ih =>
    cases k with
    | zero =>
      have hy : y = x := by simpa using hx
      rw [modify_zero_cons, filterMap_cons, filterMap_cons, hy, hg]
    | succ k =>
      rw [modify_succ_cons, filterMap_cons, filterMap_cons, ih (by simpa using hx)]

/-- What a change after the walk does to the operations of a node. -/
inductive Amended (Q : Nat → List NodeId → List Value → Prop) (n : NodeId) (ops : List Instr) : List Instr → Prop
  | same : Amended Q n ops ops
  | added (w : Value) (j : Nat) : Amended Q n ops (ops ++ [{ op := .phi w [.version j] [n] }])
  | filled {k r : Nat} {nodes : List NodeId} {x : Option Expr} (values : List Value) :
      ops[k]? = some ⟨.phi (.version r) [] nodes, x⟩ → Q r nodes values →
      Amended Q n ops (ops.modify k fun i => { i with op := .phi (.version r) values nodes })

theorem Amend.amended (h : Amend f P σ τ) : Amended (P σ.2) m (σ.2.ssa f m) (τ.2.ssa f m) := by
  have hadding {υ : State} {w : Value} {j : Nat} (n : NodeId) (hυ : ∀ m, υ.2.ssa f m = σ.2.ssa f m) :
      Amended (P σ.2) m (σ.2.ssa f m) ((adding f n { op := .phi w [.version j] [n] } υ).2.ssa f m) := by
    rw [ssa_adding, hυ, hυ]
    split
    next hm => exact hm ▸ .added w j
    next => exact .same
  cases h with
  | quiet hq _ => exact (hq.ssa m).symm ▸ .same
  | back _ => exact .same
  | make _ => exact .same
  | @fill _ n _ _ _ _ values hk hP =>
    rw [Analysis.ssa_setSsa]
    split
    next hm =>
      subst hm
      exact .filled values hk hP
    next => exact .same
  | extend n _ _ _ => exact hadding n fun _ => rfl
  | renew n _ hr => exact hadding n hr.ssa

namespace Amended

variable (h : Amended Q n ops ops')

include h

theorem mem (hi : i ∈ ops') : i ∈ ops ∨ (∃ w j, i.op = .phi w [.version j] [n]) ∨
    ∃ r nodes values x, ⟨.phi (.version r) [] nodes, x⟩ ∈ ops ∧ i = ⟨.phi (.version r) values nodes, x⟩ ∧ Q r nodes values := by
  cases h with
  | same => exact .inl hi
  | added w j => exact (mem_append.1 hi).imp_right fun hi => .inl ⟨w, j, by rw [mem_singleton.1 hi]⟩
  | @filled k r nodes x values hk hQ =>
    obtain ⟨p, hp⟩ := mem_iff_getElem?.1 hi
    rw [getElem?_modify] at hp
    by_cases hkp : k = p
    · subst hkp
      rw [hk] at hp
      exact .inr (.inr ⟨r, nodes, values, x, mem_of_getElem? hk, by simpa using hp.symm, hQ⟩)
    · exact .inl (mem_of_getElem? (i := p) (by simpa [hkp] using hp))

theorem kept (hi : i ∈ ops) : ∃ i' ∈ ops', i'.op.lvalue? = i.op.lvalue? := by
  cases h with
  | same => exact ⟨i, hi, rfl⟩
  | added => exact ⟨i, by simp [hi], rfl⟩
  | @filled k r nodes x values hk _ =>
    obtain ⟨p, hp⟩ := mem_iff_getElem?.1 hi
    by_cases hkp : k = p
    · rw [← hkp, hk] at hp
      cases hp
      exact ⟨⟨.phi (.version r) values nodes, x⟩, mem_of_getElem? (i := k) (by simp [hk]), rfl⟩
    · exact ⟨i, mem_of_getElem? (i := p) (by simp [hkp, hp]), rfl⟩

theorem filter : (ops'.filter fun i => !i.op.isPhi) = ops.filter fun i => !i.op.isPhi := by
  cases h with
  | same => rfl
  | added => simp [Op.isPhi]
  | filled values hk _ => rw [← filterMap_eq_filter, filterMap_modify hk rfl]

end Amended

/-! ## What completion does -/

instance : IsPreorder State (Amends f P) where

theorem declaredVersion_cases (h : Runs (declaredVersion f name m) σ ds τ) :
    (ds = [] ∧ τ = σ) ∨ ∃ v, ((σ.2.flow f).node m).declared = some v ∧ (σ.2.program.var v).name = name ∧
      ds = [.version σ.2.store.versions.size] ∧ τ = (σ.1, σ.2.addVersion { variable_ := v }) := by
  replace h := runs_analysis_bind.1 h
  split at h
  next v hv =>
    split at h
    next hname =>
      replace h := runs_make_bind.1 h
      obtain ⟨rfl, rfl⟩ := runs_pure.1 h
      exact .inr ⟨v, hv, by simpa using hname, rfl, rfl⟩
    next => exact .inl (runs_pure.1 h)
  next => exact .inl (runs_pure.1 h)

theorem lastVersion_makes (h : Runs (lastVersion f first name m) σ w τ) :
    Amends f P σ τ ∧ ∀ n, τ.2.ssa f n = σ.2.ssa f n := by
  replace h := runs_analysis_bind.1 h
  obtain ⟨ds, υ, hds, h⟩ := runs_bind.1 h
  replace h := runs_analysis_bind.1 h
  split at h
  · obtain ⟨-, rfl⟩ := runs_pure.1 h
    rcases declaredVersion_cases hds with ⟨-, rfl⟩ | ⟨v, -, -, -, rfl⟩
    · exact ⟨.refl, fun _ => rfl⟩
    · exact ⟨.single (.make v σ), fun _ => rfl⟩
  · exact absurd h not_runs_fail

theorem lastVersions_make {nodes : List NodeId}
    (h : Runs (nodes.mapM (lastVersion f first name)) σ values τ) : Amends f P σ τ ∧ ∀ n, τ.2.ssa f n = σ.2.ssa f n :=
  have : IsPreorder State fun σ τ => Amends f P σ τ ∧ ∀ n, τ.2.ssa f n = σ.2.ssa f n :=
    { refl _ := ⟨.refl, fun _ => rfl⟩, trans _ _ _ h h' := ⟨h.1.trans h'.1, fun m => (h'.2 m).trans (h.2 m)⟩ }
  mapM (fun _ _ _ _ => lastVersion_makes) h

theorem writeReferred_amends : Keeps (Amends f P) (writeReferred f n i v) := by
  intro σ u τ h
  obtain ⟨op, σ₁, hop, h⟩ := runs_bind.1 h
  obtain rfl := runs_emit h
  rcases writeNew_cases hop with ⟨rfl, rfl, hlv⟩ | ⟨j, hlv, hr, rfl⟩ | ⟨j, r, υ, hlv, ht, -⟩
  · exact .single (.extend n i _ fun j hj => hlv j (by simp [Op.lvalue?, hj]))
  · exact .single (.renew n i hr)
  · simp [throughPart] at ht

theorem writeThrough_amends {a : Analysis} : Keeps (Amends f P) (writeThrough f n a r) := by
  unfold writeThrough
  split
  · dsimp only
    split
    · refine bind ?_ fun _ => .pure _
      refine .forIn fun v => ?_
      exact bind writeReferred_amends fun _ => .pure _
    · exact .pure _
  · exact .pure _

theorem joinReferred_amends {a : Analysis} {values : List Value} : Keeps (Amends f P) (joinReferred a r values) := by
  intro σ u τ h
  unfold joinReferred at h
  split at h
  · obtain ⟨referred, σ₁, hr, hm⟩ := runs_bind.1 h
    obtain ⟨-, rfl⟩ := runs_lifted hr
    refine .single (.quiet (modifyVersion_quiet hm fun _ => ⟨rfl, rfl, rfl⟩) ?_)
    rw [runs_modifyAnalysis hm]
  · obtain ⟨-, rfl⟩ := runs_pure.1 h
    exact .refl

theorem noteStorage_amends {op : Option Op} : Keeps (Amends f P) (noteStorage f n op) := by
  refine bind .analysis fun a => ?_
  split
  · exact joinReferred_amends
  · exact joinReferred_amends
  · exact writeThrough_amends
  · exact writeThrough_amends
  · exact .pure _

theorem completeAt_amends (h : Runs (completeAt f first n k) σ u τ)
    (hP : ∀ r nodes values υ x, (σ.2.ssa f n)[k]? = some ⟨.phi (.version r) [] nodes, x⟩ →
      Runs (nodes.mapM (lastVersion f first (σ.2.program.versionName (σ.2.store.version r)))) σ values υ →
      P υ.2 r nodes values) : Amends f P σ τ := by
  replace h := runs_analysis_bind.1 h
  split at h
  next => exact (runs_pure.1 h).2 ▸ .refl
  next i hi =>
    obtain ⟨op, x⟩ := i
    obtain ⟨v, υ, hv, h⟩ := runs_bind.1 h
    refine .trans ?_ (noteStorage_amends h)
    unfold fillPhi at hv
    split at hv
    next r nodes hop =>
      subst hop
      replace hv := runs_version_bind (runs_analysis_bind.1 hv)
      obtain ⟨values, ρ, hvalues, hv⟩ := runs_bind.1 hv
      obtain ⟨hmakes, hssa⟩ := lastVersions_make hvalues
      obtain rfl := runs_replace hv
      exact hmakes.tail (.fill values (by rw [hssa]; exact hi) (hP r nodes values ρ x hi hvalues))
    next => exact (runs_pure.1 hv).2 ▸ .refl

/-! ## Over the whole function -/

section

variable [IsPreorder State R] (hat : ∀ n k, Keeps R (completeAt f first n k))

include hat

theorem completeFrom_keeps (n : NodeId) (fuel k : Nat) : Keeps R (completeFrom f first n fuel k) := by
  induction fuel generalizing k with
  | zero => exact .pure _
  | succ fuel ih =>
    refine bind .analysis fun a => ?_
    split
    · exact bind (hat n k) fun _ => ih (k + 1)
    · exact .pure _

theorem complete_keeps (hback : ∀ {σ τ : State} (s : Naming), R σ τ →
    R σ ({ τ.1 with locals := s.locals, states := s.states }, τ.2)) (fuel : Nat) (n : NodeId) :
    Keeps R (complete f first fuel n) := by
  induction fuel generalizing n with
  | zero => exact .pure _
  | succ fuel ih =>
    refine bind .analysis fun a => ?_
    refine bind (completeFrom_keeps hat n _ 0) fun _ => ?_
    refine bind (.forIn fun m => ?_) fun _ => .pure _
    refine bind (fun σ u τ h => ?_) fun _ => .pure _
    replace h := runs_get_bind h
    obtain ⟨v, υ, hv, h⟩ := runs_bind.1 h
    obtain rfl := runs_modify h
    exact hback _ (ih m hv)

end

theorem complete_amends (fuel : Nat) (n : NodeId) : Keeps (Amends f fun _ _ _ _ => True) (complete f first fuel n) :=
  complete_keeps (fun _ _ _ _ _ h => completeAt_amends h fun _ _ _ _ _ _ _ => trivial)
    (fun s h => h.tail (.back s _)) fuel n

end ContractAudit.Rename
