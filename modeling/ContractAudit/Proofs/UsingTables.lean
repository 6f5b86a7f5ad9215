import ContractAudit.Proofs.Versions
import ContractAudit.Reader.Usings
import Mathlib.Logic.Relation

/-! # What contracts bind with `using`

A list that a directive begins is shared by all contracts that inherit it, and what any of them adds to it all of them see.
-/

namespace ContractAudit.Reader.Usings

open Relation List

/-- The second contract is the first or one it inherits from. -/
abbrev Descends (p : Program) : ContractId -> ContractId -> Prop := ReflTransGen fun c b => b ∈ (p.contract c).inheritance

abbrev Alike (p : Program) : Option Ty -> Option Ty -> Prop := EqvGen fun a b => p.sameType? a b

/-- Contract and type of the directive that began a list. -/
abbrev Origins := Nat -> ContractId × Option Ty

variable {u : Usings}
  {x : Option Ty × List UsingItem} {cells theirs : List (Option Ty × Nat)}

/-- The contract may have the list under the type. -/
structure Fits (p : Program) (u : Usings) (o : Origins) (c : ContractId) (k : Option Ty) (i : Nat) : Prop where
  lt : i < u.lists.size
  descends : Descends p c (o i).1
  alike : Alike p k (o i).2

structure Kept (p : Program) (bound : ContractId -> List (Option Ty × List UsingItem)) (u : Usings) (o : Origins) : Prop where
  cells : ∀ c k i, (k, i) ∈ u.cellsOf c → Fits p u o c k i
  began : ∀ i < u.lists.size, ∃ x ∈ bound (o i).1, x.1 = (o i).2
  items : ∀ i, ∀ item ∈ u.lists[i]?.getD [],
    ∃ d, Descends p d (o i).1 ∧ ∃ x ∈ bound d, Alike p x.1 (o i).2 ∧ item ∈ x.2

theorem cell?_mem (h : cell? p k cells = some i) : ∃ k', (k', i) ∈ cells ∧ Alike p k' k := by
  obtain ⟨⟨k', _⟩, hfind, rfl⟩ := Option.map_eq_some_iff.1 h
  exact ⟨k', mem_of_find?_eq_some hfind, .rel _ _ (by simpa using find?_some hfind)⟩

theorem inherit_fits (hc : ∀ k i, (k, i) ∈ cells → Fits p u o c k i) (ht : ∀ k i, (k, i) ∈ theirs → Fits p u o c k i) :
    ∀ k i, (k, i) ∈ inherit p cells theirs → Fits p u o c k i := by
  induction theirs generalizing cells with
  | nil => exact hc
  | cons t theirs ih =>
    have hfit := ht t.1 t.2 (.head _)
    refine ih (fun k i h => ?_) fun k i h => ht k i (.tail _ h)
    dsimp only at h
    split at h
    · obtain ⟨y, hy, hyx⟩ := mem_map.1 h
      split at hyx
      · rename_i hsame
        cases hyx
        exact ⟨hfit.lt, hfit.descends, .trans _ _ _ (.rel _ _ hsame) hfit.alike⟩
      · exact hc k i (hyx ▸ hy)
    · rcases mem_append.1 h with h | h
      · exact hc k i h
      · cases mem_singleton.1 h
        exact hfit

theorem cellsOf_insert {lists : Array (List UsingItem)} :
    cellsOf ⟨u.cells.insert c cells, lists⟩ d = if d = c then cells else u.cellsOf d := by
  simp only [cellsOf, Table.find?_insert]
  split <;> rfl

theorem Kept.bind (h : Kept p bound u o) (hx : x ∈ bound c) : ∃ o, Kept p bound (bind p u c x) o := by
  unfold Usings.bind
  split
  · -- the list is shared with all who have it
    rename_i i hi
    obtain ⟨k, hk, hkx⟩ := cell?_mem hi
    have hfit := h.cells c k i hk
    refine ⟨o, fun d k j hj => ?_, by simpa using h.began, fun j item hj => ?_⟩
    · obtain ⟨hlt, hd, ha⟩ := h.cells d k j hj
      exact ⟨by simpa using hlt, hd, ha⟩
    · have hcases : item ∈ u.lists[j]?.getD [] ∨ j = i ∧ item ∈ x.2 := by grind
      rcases hcases with hold | ⟨rfl, hnew⟩
      · exact h.items j item hold
      · exact ⟨c, hfit.descends, x, hx, .trans _ _ _ (.symm _ _ hkx) hfit.alike, hnew⟩
  · -- a new list, which only this contract has
    let o' : Origins := fun j => if j = u.lists.size then (c, x.1) else o j
    have hold : ∀ j < u.lists.size, o' j = o j := fun j hj => if_neg (Nat.ne_of_lt hj)
    have hnew : o' u.lists.size = (c, x.1) := if_pos rfl
    refine ⟨o', fun d k j hj => ?_, fun j hj => ?_, fun j item hj => ?_⟩
    · have hcases : (k, j) ∈ u.cellsOf d ∨ d = c ∧ (k, j) = (x.1, u.lists.size) := by
        rw [cellsOf_insert] at hj
        grind
      rcases hcases with hcell | ⟨rfl, hcell⟩
      · obtain ⟨hlt, hd, ha⟩ := h.cells d k j hcell
        exact ⟨by grind, by rwa [hold j hlt], by rwa [hold j hlt]⟩
      · cases hcell
        exact ⟨by grind, by rw [hnew], by rw [hnew]; exact .refl _⟩
    · rcases Nat.lt_succ_iff_lt_or_eq.1 (by simpa using hj : j < u.lists.size + 1) with hlt | rfl
      · exact hold j hlt ▸ h.began j hlt
      · exact ⟨x, by rwa [hnew], by rw [hnew]⟩
    · have hcases : (j < u.lists.size ∧ item ∈ u.lists[j]?.getD []) ∨ j = u.lists.size ∧ item ∈ x.2 := by grind
      rcases hcases with ⟨hlt, hitem⟩ | ⟨rfl, hitem⟩
      · exact hold j hlt ▸ h.items j item hitem
      · exact ⟨c, by rw [hnew], x, hx, by rw [hnew]; exact .refl _, hitem⟩

theorem Kept.take (h : Kept p bound u o) (c : ContractId) : ∃ o, Kept p bound (take p u c bound) o := by
  have hcells : ∀ k i, (k, i) ∈ (p.contract c).inheritance.foldl (fun cells f => inherit p cells (u.cellsOf f)) [] →
      Fits p u o c k i := by
    refine foldlRecOn (motive := fun cells => ∀ k i, (k, i) ∈ cells → Fits p u o c k i) _ _ (by simp) fun cells hc f hf =>
      inherit_fits hc fun k i hi => ?_
    obtain ⟨hlt, hd, ha⟩ := h.cells f k i hi
    exact ⟨hlt, .head hf hd, ha⟩
  refine foldlRecOn (motive := fun u => ∃ o, Kept p bound u o) _ _ ⟨o, fun d k i hi => ?_, h.began, h.items⟩
    fun u ⟨o, h⟩ x hx => h.bind hx
  rw [cellsOf_insert] at hi
  have : Fits p u o d k i := by
    split at hi
    · subst d
      exact hcells k i hi
    · exact h.cells d k i hi
  exact ⟨this.lt, this.descends, this.alike⟩

theorem settled_kept {p : Program} (bound : ContractId -> List (Option Ty × List UsingItem)) {order : List ContractId} :
    ∃ o, Kept p bound (settled p bound order) o :=
  foldlRecOn (motive := fun u => ∃ o, Kept p bound u o) order _
    ⟨fun _ => default, by simp [cellsOf, Table.find?], by simp, by simp⟩ fun _ ⟨_, h⟩ c _ => h.take c

/-- What a contract has for a type was bound to it by contracts that share a base with it, or are it, where the base has a
directive for the type as well. -/
theorem table_from_kin (p : Program) (bound : ContractId -> List (Option Ty × List UsingItem)) (order : List ContractId)
    (c : ContractId) {k : Option Ty} {items : List UsingItem} {item : UsingItem}
    (hk : (k, items) ∈ (settled p bound order).table c) (hi : item ∈ items) :
    ∃ d base, Descends p c base ∧ Descends p d base ∧ (∃ x ∈ bound base, Alike p x.1 k) ∧
      ∃ x ∈ bound d, Alike p x.1 k ∧ item ∈ x.2 := by
  obtain ⟨o, h⟩ := settled_kept bound
  obtain ⟨⟨k, i⟩, hmem, heq⟩ := List.mem_map.1 hk
  cases heq
  have hfit := h.cells c k i hmem
  obtain ⟨d, hd, x, hx, halike, hitem⟩ := h.items i item hi
  obtain ⟨y, hy, hyk⟩ := h.began i hfit.lt
  exact ⟨d, (o i).1, hfit.descends, hd, ⟨y, hy, hyk ▸ .symm _ _ hfit.alike⟩, x, hx,
    .trans _ _ _ halike (.symm _ _ hfit.alike), hitem⟩

/-- The second contract inherits from the first, and both bind a function to one type. -/
def derivedUnit : Program :=
  { contractTable := #[default, { (default : Contract) with inheritance := [0] }] }

def derivedBindings (c : ContractId) : List (Option Ty × List UsingItem) := [(some (.elementary .bool), [.func c])]

theorem derivedUnit_kin : ∃ d base, Descends derivedUnit 0 base ∧ Descends derivedUnit d base ∧
    (∃ x ∈ derivedBindings base, Alike derivedUnit x.1 (some (.elementary .bool))) ∧
    ∃ x ∈ derivedBindings d, Alike derivedUnit x.1 (some (.elementary .bool)) ∧ .func 1 ∈ x.2 :=
  table_from_kin derivedUnit derivedBindings [0, 1] 0 (.head _) (.tail _ (.head _))

/-- The base has what the contract that inherits from it binds. -/
theorem derivedUnit_shared :
    (settled derivedUnit derivedBindings [0, 1]).table 0 = [(some (.elementary .bool), [.func 0, .func 1])] ∧
      ∀ d, Descends derivedUnit 0 d → ∀ x ∈ derivedBindings d, .func 1 ∉ x.2 := by
  refine ⟨rfl, fun d hd => ?_⟩
  obtain rfl | ⟨b, hb, -⟩ := hd.cases_head
  · simp [derivedBindings]
  · cases hb

end ContractAudit.Reader.Usings
