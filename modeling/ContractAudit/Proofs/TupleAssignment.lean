import ContractAudit.Ir.Expression
import ContractAudit.Proofs.Outcomes

/-! # Assignments of tuples

A tuple is assigned component by component. This comes to the same as all at once as long as no component is read after its
place, or one that shares with it, is written.
-/

namespace ContractAudit

open Ir List

/-- A way to keep what values stand for. What is written at a place is read there; it may be read at other places too. -/
structure Ir.Memory (M V : Type) where
  read : M → Value → V
  write : M → Value → V → M
  read_write : ∀ m v x, v.isConstant = false → read (write m v x) v = x

namespace Ir.Memory

variable {M V : Type} (mem : Memory M V)

/-- Each value stands for what is in a cell. -/
def cells {P V : Type} [DecidableEq P] (place : Value → P) : Memory (P → V) V where
  read m v := m (place v)
  write m v x := fun c => if c = place v then x else m c
  read_write _ _ _ _ := if_pos rfl

/-- What is written at a place cannot be seen at another. -/
def Apart (l v : Value) : Prop := ∀ m x, mem.read (mem.write m l x) v = mem.read m v

/-- Assignments are carried out; no other operation is. -/
def step (m : M) : DraftKind → Option M
  | .done (.assign l r) => some (mem.write m l (mem.read m r))
  | _ => none

def run (ds : List DraftKind) (m : M) : Option M := ds.foldlM mem.step m

variable {mem} {before after pairs : List (Value × Value)}

/-- The assignments of those components that have a place. -/
def assigns (pairs : List (Value × Value)) : List DraftKind :=
  (pairs.filter (!·.1.isAbsent)).map fun (l, r) => .done (.assign l r)

theorem run_assigns (mem : Memory M V) (pairs : List (Value × Value)) (m : M) : ∃ n, mem.run (assigns pairs) m = some n ∧
    ∀ v, (∀ q ∈ pairs, q.1.isAbsent = false → mem.Apart q.1 v) → mem.read n v = mem.read m v := by
  induction pairs generalizing m with
  | nil => exact ⟨m, rfl, fun _ _ => rfl⟩
  | cons q pairs ih =>
    by_cases hq : q.1.isAbsent = true
    · obtain ⟨n, hrun, hread⟩ := ih m
      refine ⟨n, ?_, fun v hv => hread v fun p hp => hv p (by simp [hp])⟩
      rwa [assigns, filter_cons_of_neg (by simp [hq])]
    · obtain ⟨n, hrun, hread⟩ := ih (mem.write m q.1 (mem.read m q.2))
      refine ⟨n, ?_, fun v hv => ?_⟩
      · rwa [assigns, filter_cons_of_pos (by simp [hq])]
      · rw [hread v fun p hp => hv p (by simp [hp])]
        exact hv q (by simp) (by simpa using hq) _ _

theorem read_assigned (hl : l.isAbsent = false) (hconstant : l.isConstant = false)
    (hbefore : ∀ q ∈ before, q.1.isAbsent = false → mem.Apart q.1 r)
    (hafter : ∀ q ∈ after, q.1.isAbsent = false → mem.Apart q.1 l)
    (hrun : mem.run (assigns (before ++ (l, r) :: after)) m = some n) : mem.read n l = mem.read m r := by
  have hparts : assigns (before ++ (l, r) :: after) = assigns before ++ .done (.assign l r) :: assigns after := by
    simp [assigns, hl]
  obtain ⟨m₁, hrun₁, hread₁⟩ := run_assigns mem before m
  obtain ⟨m₂, hrun₂, hread₂⟩ := run_assigns mem after (mem.write m₁ l (mem.read m₁ r))
  rw [hparts, run, foldlM_append, ← run, hrun₁] at hrun
  obtain rfl : m₂ = n := Option.some.inj (hrun₂.symm.trans hrun)
  calc mem.read m₂ l = mem.read (mem.write m₁ l (mem.read m₁ r)) l := hread₂ l hafter
    _ = mem.read m₁ r := mem.read_write _ _ _ hconstant
    _ = mem.read m r := hread₁ r hbefore

end Ir.Memory

namespace Lower

open Ir.Memory

theorem require_runs (hrun : require b s = .ok u t) : b = true ∧ t = s := by
  unfold require at hrun
  split at hrun <;> cases hrun
  exact ⟨‹_›, rfl⟩

theorem assignWith_runs (hop : op.binary? = none) (hrun : assignWith op l r s = .ok o t) :
    t = s ∧ o = .assign l r ∧ l.isConstant = false := by
  rw [assignWith, hop] at hrun
  obtain ⟨_, _, hwritable, hassign⟩ := bind_runs hrun
  cases hwritable
  obtain ⟨_, _, hrequire, hright⟩ := bind_runs hassign
  obtain ⟨hl, rfl⟩ := require_runs hrequire
  obtain ⟨_, _, hreadable, hright⟩ := bind_runs hright
  cases hreadable
  obtain ⟨_, _, hrequire, hend⟩ := bind_runs hright
  obtain ⟨-, rfl⟩ := require_runs hrequire
  cases hend
  refine ⟨rfl, rfl, ?_⟩
  cases l with
  | constant c => cases hl
  | _ => rfl

/-- What is drafted, in its order. -/
def kinds (s : State) : List DraftKind := s.drafts.toList.map (·.kind)

/-- The components are assigned that have a place. -/
def Assigned (s : State) (pairs : List (Value × Value)) (t : State) : Prop :=
  kinds t = kinds s ++ assigns pairs ∧ ∀ q ∈ pairs, q.1.isAbsent = false → q.1.isConstant = false

theorem Assigned.append (h : Assigned s pairs s₁) (ht : kinds t = kinds s₁ ++ assigns [q])
    (hq : q.1.isAbsent = false → q.1.isConstant = false) : Assigned s (pairs ++ [q]) t := by
  exact ⟨by simp [ht, h.1, assigns], forall_mem_append.2 ⟨h.2, forall_mem_singleton.2 hq⟩⟩

theorem assignTo_runs (hop : op.binary? = none)
    (htype : isTypeGiven type = true) (hrun : assignTo e op type (.list ls) (.list rs) s = .ok v t) :
    ls.length = rs.length ∧ kinds t = kinds s ++ assigns (ls.zip rs) ∧
      ∀ q ∈ ls.zip rs, q.1.isAbsent = false → q.1.isConstant = false := by
  obtain ⟨_, _, hrequire, hloop⟩ := bind_runs hrun
  obtain ⟨hlength, rfl⟩ := require_runs hrequire
  obtain ⟨_, _, hloop, hend⟩ := bind_runs hloop
  cases hend
  refine ⟨by simpa using hlength, forIn_runs (P := Assigned _) (fun done q s₁ r t h hround => ?_)
    ⟨by simp [assigns], by simp⟩ hloop⟩
  dsimp only at hround
  split at hround
  next hl =>
    obtain ⟨o, _, hassign, hemit⟩ := bind_runs hround
    obtain ⟨rfl, rfl, hconstant⟩ := assignWith_runs hop hassign
    cases hemit
    exact ⟨rfl, h.append (by simp_all [kinds, assigns]) fun _ => hconstant⟩
  next hl =>
    cases hround
    exact ⟨rfl, h.append (by simp_all [assigns]) (by simp_all)⟩

/-- An assignment to a tuple ends with the assignments of its components. A place gets what its component was before, if
no place that is written earlier shares with the component and none that is written later with the place. -/
theorem tuple_assigned {i : ExprInfo} {el er : Expr} {type : AssignedType} {v : Option Value} {ls rs : List Value}
    (hop : op.binary? = none) (htype : isTypeGiven type = true) (hl : visit el s = .ok (some (.list ls)) s₁)
    (hr : visit er s₁ = .ok (some (.list rs)) s₂) (hrun : visit (.assign i op el er type) s = .ok v t) :
    ls.length = rs.length ∧ ∃ new, kinds t = kinds s₂ ++ new ∧ ∀ {M V : Type} (mem : Memory M V) (m : M),
      ∃ n, mem.run new m = some n ∧ ∀ before l r after, ls.zip rs = before ++ (l, r) :: after → l.isAbsent = false →
        (∀ q ∈ before, q.1.isAbsent = false → mem.Apart q.1 r) →
        (∀ q ∈ after, q.1.isAbsent = false → mem.Apart q.1 l) → mem.read n l = mem.read m r := by
  have hassign : assignTo (.assign i op el er type) op type (.list ls) (.list rs) s₂ = .ok v t := by
    rw [visit] at hrun
    obtain ⟨_, _, hl', hrun⟩ := bind_runs hrun
    cases hl.symm.trans hl'
    obtain ⟨_, _, hr', hrun⟩ := bind_runs hrun
    cases hr.symm.trans hr'
    exact hrun
  obtain ⟨hlength, hkinds, hplaces⟩ := assignTo_runs hop htype hassign
  refine ⟨hlength, assigns (ls.zip rs), hkinds, fun mem m => ?_⟩
  obtain ⟨n, hn, -⟩ := run_assigns mem (ls.zip rs) m
  refine ⟨n, hn, fun before l r after hzip hl hbefore hafter => ?_⟩
  have hconstant := hplaces (l, r) (by simp [hzip]) hl
  exact read_assigned hl hconstant hbefore hafter (hzip ▸ hn)

/-- Variables `a`, `b` and `c`. -/
def threeNames : State where
  program := { variableTable := #["a", "b", "c"].map fun name => { kind := .inFunction (some 0) none, name } }

/-- A pair of variables is assigned to `a` and `b`. -/
def assignPair (x y : VariableId) : Expr :=
  .assign {} .assign (pair 0 1) (pair x y) (.type (some .bool))
where
  pair (x y : VariableId) : Expr := .tuple {} [.name {} (.var x) .plain none, .name {} (.var y) .plain none]

def cellOf : Value → Nat
  | .target (.var v) => v
  | _ => 0

/-- What is read before it is written moves on: `(a, b) = (b, c)`. -/
theorem shifted_pair : ∃ v t n, visit (assignPair 1 2) threeNames = .ok v t ∧
    (cells cellOf).run (kinds t) id = some n ∧ n 0 = 1 ∧ n 1 = 2 := by
  obtain ⟨v, t, hrun, -⟩ := exists_runs (x := visit (assignPair 1 2)) (s := threeNames) (fun _ _ => True)
    (by decide +kernel)
  obtain ⟨-, new, hkinds, hnew⟩ := tuple_assigned rfl rfl rfl rfl hrun
  obtain ⟨n, hn, hread⟩ := hnew (cells cellOf) id
  refine ⟨v, t, n, hrun, ?_, ?_, ?_⟩
  · rw [hkinds]
    exact hn
  · refine hread [] (.var 0) (.var 1) [(.var 1, .var 2)] rfl rfl (by simp) ?_
    exact List.forall_mem_singleton.2 fun _ _ _ => rfl
  · refine hread [(.var 0, .var 1)] (.var 1) (.var 2) [] rfl rfl ?_ (by simp)
    exact List.forall_mem_singleton.2 fun _ _ _ => rfl

/-- After `(a, b) = (b, a)` both variables are what `b` was. -/
theorem swapped_pair_lost : ∃ v t, visit (assignPair 1 0) threeNames = .ok v t ∧
    ((cells cellOf).run (kinds t) id).map (fun n => (n 0, n 1)) = some (1, 1) :=
  exists_runs _ (by decide +kernel)

end Lower

end ContractAudit
