import ContractAudit.Proofs.Completion

/-! # What operations write

Renaming lets no two operations write one version: each step that writes makes the version that it writes.
-/

namespace ContractAudit

open Ir Instr Analysis List

variable {i : Instr}

/-- The version that an operation writes. -/
def Ir.Instr.made? (i : Instr) : Option Nat :=
  match i.op.lvalue? with
  | some (.version k) => some k
  | _ => none

theorem Ir.Instr.made?_eq_some : i.made? = some k ↔ i.op.lvalue? = some (.version k) := by
  unfold made?
  split
  · rename_i k' hk
    rw [hk]
    simp
  · rename_i hno
    simp only [reduceCtorEq, false_iff]
    exact hno k

/-- The version that the operation at a place writes. -/
def Analysis.madeAt (a : Analysis) (f : FunctionId) (n : NodeId) (p : Nat) : Option Nat :=
  ((a.ssa f n)[p]?).bind made?

namespace Rename

/-- No two operations write one version. -/
structure Distinct (f : FunctionId) (a : Analysis) : Prop where
  lt : ∀ n p k, a.madeAt f n p = some k → k < a.store.versions.size
  inj : ∀ n p n' p' k, a.madeAt f n p = some k → a.madeAt f n' p' = some k → n = n' ∧ p = p'

namespace Distinct

variable {a b : Analysis} (h : Distinct f a) (hsize : a.store.versions.size ≤ b.store.versions.size)

include h hsize

theorem same (hmade : ∀ n p, b.madeAt f n p = a.madeAt f n p) : Distinct f b where
  lt n p k hk := Nat.lt_of_lt_of_le (h.lt n p k (hmade n p ▸ hk)) hsize
  inj n p n' p' k hk hk' := h.inj n p n' p' k (hmade n p ▸ hk) (hmade n' p' ▸ hk')

theorem extend (S : NodeId → Nat → Prop) (hsame : ∀ n p, ¬ S n p → b.madeAt f n p = a.madeAt f n p)
    (hnew : ∀ n p k, S n p → b.madeAt f n p = some k → a.store.versions.size ≤ k ∧ k < b.store.versions.size)
    (hinj : ∀ n p n' p' k, S n p → S n' p' → b.madeAt f n p = some k → b.madeAt f n' p' = some k → n = n' ∧ p = p') :
    Distinct f b := by
  have hold : ∀ {n p k}, ¬ S n p → b.madeAt f n p = some k → k < a.store.versions.size :=
    fun hne hk => h.lt _ _ _ (hsame _ _ hne ▸ hk)
  constructor
  · intro n p k hk
    by_cases hn : S n p
    · exact (hnew n p k hn hk).2
    · exact Nat.lt_of_lt_of_le (hold hn hk) hsize
  · intro n p n' p' k hk hk'
    by_cases hn : S n p <;> by_cases hn' : S n' p'
    · exact hinj n p n' p' k hn hn' hk hk'
    · exact absurd (hold hn' hk') (Nat.not_lt.2 (hnew n p k hn hk).1)
    · exact absurd (hold hn hk) (Nat.not_lt.2 (hnew n' p' k hn' hk').1)
    · exact h.inj n p n' p' k (hsame n p hn ▸ hk) (hsame n' p' hn' ▸ hk')

theorem extendOne (n₀ : NodeId) (p₀ : Nat) (hsame : ∀ n p, ¬ (n = n₀ ∧ p = p₀) → b.madeAt f n p = a.madeAt f n p)
    (hnew : ∀ k, b.madeAt f n₀ p₀ = some k → a.store.versions.size ≤ k ∧ k < b.store.versions.size) : Distinct f b := by
  refine h.extend hsize _ hsame ?_ fun n p n' p' k hn hn' _ _ => ⟨hn.1.trans hn'.1.symm, hn.2.trans hn'.2.symm⟩
  rintro n p k ⟨rfl, rfl⟩
  exact hnew k

end Distinct

variable {σ τ υ : State}

theorem madeAt_congr {a b : Analysis} (h : ∀ m, b.ssa f m = a.ssa f m) (m : NodeId) (p : Nat) :
    b.madeAt f m p = a.madeAt f m p := by
  rw [madeAt, madeAt, h]

theorem madeAt_adding (f : FunctionId) (n : NodeId) (i : Instr) (σ : State) (m : NodeId) (p : Nat) :
    (adding f n i σ).2.madeAt f m p = if m = n ∧ p = (σ.2.ssa f n).length then i.made? else σ.2.madeAt f m p := by
  rw [madeAt, ssa_adding]
  by_cases hm : m = n
  · subst hm
    rw [if_pos rfl, getElem?_append]
    by_cases hp : p < (σ.2.ssa f m).length
    · rw [if_pos hp, if_neg (by omega)]
      rfl
    · rw [if_neg hp]
      by_cases hp' : p = (σ.2.ssa f m).length
      · simp [hp']
      · rw [if_neg (by omega), madeAt, getElem?_eq_none (Nat.le_of_not_lt hp), getElem?_eq_none (by simp; omega)]
  · rw [if_neg hm, if_neg (fun h => hm h.1)]
    rfl

theorem Distinct.adding (h : Distinct f σ.2) (hg : Grows f σ.2 τ.2) (hssa : ∀ m, τ.2.ssa f m = σ.2.ssa f m)
    (hi : ∀ k, i.made? = some k → σ.2.store.versions.size ≤ k ∧ k < τ.2.store.versions.size) :
    Distinct f (adding f n i τ).2 := by
  refine h.extendOne hg.size n (τ.2.ssa f n).length (fun m p hne => ?_) (fun k hk => ?_)
  · rw [madeAt_adding, if_neg hne]
    exact madeAt_congr hssa m p
  · rw [madeAt_adding, if_pos ⟨rfl, rfl⟩] at hk
    exact hi k hk

theorem size_renews (h : Renews σ j τ) : τ.2.store.versions.size = σ.2.store.versions.size + 1 := by
  obtain ⟨l, -, rfl⟩ := h
  exact size_addVersion _

theorem index_renews (h : Renews σ j τ) : (τ.2.store.version σ.2.store.versions.size).index ≠ 0 := by
  obtain ⟨l, -, rfl⟩ := h
  rw [version_addVersion, if_pos rfl]
  exact Nat.succ_ne_zero _

/-- Nothing happens to what operations write, or one more writes the version that is made for it. -/
structure Change (f : FunctionId) (σ τ : State) : Prop where
  grows : Grows f σ.2 τ.2
  visited : τ.1.visited = σ.1.visited
  made : (∀ m p, τ.2.madeAt f m p = σ.2.madeAt f m p) ∨ ∃ n p, τ.2.madeAt f n p = some σ.2.store.versions.size ∧
    (∀ m q, ¬ (m = n ∧ q = p) → τ.2.madeAt f m q = σ.2.madeAt f m q) ∧
    σ.2.store.versions.size < τ.2.store.versions.size ∧ (τ.2.store.version σ.2.store.versions.size).index ≠ 0

abbrev Changes (f : FunctionId) : State → State → Prop := Relation.ReflTransGen (Change f)

namespace Change

theorem quiet (hq : Quiet σ τ) : Change f σ τ := ⟨hq.grows, by rw [hq.naming], .inl (madeAt_congr hq.ssa)⟩

theorem keep (n : NodeId) (hi : ∀ k, i.op.lvalue? ≠ some (.version k)) (σ : State) : Change f σ (adding f n i σ) := by
  refine ⟨grows_adding, rfl, .inl fun m p => ?_⟩
  rw [madeAt_adding]
  split
  next h =>
    rw [h.1, h.2, madeAt, getElem?_eq_none (Nat.le_refl _), Option.bind_none, Option.eq_none_iff_forall_ne_some]
    exact fun k hk => hi k (made?_eq_some.1 hk)
  next => rfl

theorem renews (hr : Renews σ j τ) (hi : i.op.lvalue? = some (.version σ.2.store.versions.size)) :
    Change f σ (adding f n i τ) := by
  refine ⟨hr.grows.trans grows_adding, hr.visited, .inr ⟨n, (τ.2.ssa f n).length, ?_, fun m q hne => ?_,
    Nat.lt_of_lt_of_eq (Nat.lt_succ_self _) (size_renews hr).symm, (index_renews hr :)⟩⟩
  · rw [madeAt_adding, if_pos ⟨rfl, rfl⟩, made?_eq_some, hi]
  · rw [madeAt_adding, if_neg hne]
    exact madeAt_congr hr.ssa m q

end Change

theorem Changes.grows (h : Changes f σ τ) : Grows f σ.2 τ.2 := by
  induction h with
  | refl => exact .refl f _
  | tail _ hs ih => exact ih.trans hs.grows

theorem Step.changes (h : Step f n new σ τ) : Changes f σ τ := by
  cases h with
  | enters he => exact .single ⟨he.grows, he.visited, .inl (madeAt_congr he.ssa)⟩
  | keep _ _ hlv => exact .single (.keep n hlv σ)
  | write _ _ _ hr hlv => exact .single (.renews hr hlv)
  | part _ _ _ hr hlv hq => exact .tail (.tail (.single (.renews hr rfl)) (.quiet hq)) (.keep n (by simp [hlv]) _)
  | callback _ hr => exact .single (.renews hr rfl)

theorem Steps.changes (h : Steps f n new σ τ) : Changes f σ τ := by
  induction h with
  | nil => exact .refl
  | cons hs _ ih => exact hs.changes.trans ih

theorem Distinct.changes (h : Distinct f σ.2) (hs : Changes f σ τ) : Distinct f τ.2 := by
  induction hs with
  | refl => exact h
  | tail _ hs ih =>
    rcases hs.made with hmade | ⟨n, p, hk, hsame, hlt, -⟩
    · exact ih.same hs.grows.size hmade
    · refine ih.extendOne hs.grows.size n p hsame fun k hk' => ?_
      rw [hk] at hk'
      cases hk'
      exact ⟨Nat.le_refl _, hlt⟩

/-- The versions are made one after the other. -/
theorem RenewsAll.made (h : RenewsAll old new σ τ) : τ.2.store.versions.size = σ.2.store.versions.size + new.length ∧
    ∀ p, (new[p]?).bind made? = if p < new.length then some (σ.2.store.versions.size + p) else none := by
  induction h with
  | nil => simp
  | @snoc old new σ τ υ j nodes _ hr ih =>
    obtain ⟨hsize, hmade⟩ := ih
    have := size_renews hr
    rw [length_append, length_singleton]
    refine ⟨by omega, fun p => ?_⟩
    rcases Nat.lt_trichotomy p new.length with hp | rfl | hp
    · rw [getElem?_append_left hp, hmade, if_pos hp, if_pos (by omega)]
    · rw [getElem?_concat_length, if_pos (by omega), ← hsize]
      rfl
    · rw [getElem?_eq_none (by simp; omega), if_neg (by omega)]
      rfl

theorem Distinct.renewsAll (h : Distinct f σ.2) (hall : RenewsAll old new σ τ) (hs : Sets f n new τ υ) : Distinct f υ.2 := by
  obtain ⟨hsize, hmade⟩ := hall.made
  have hgrows : Grows f σ.2 υ.2 := hall.grows.trans hs.grows
  have hat : ∀ p, υ.2.madeAt f n p = if p < new.length then some (σ.2.store.versions.size + p) else none := fun p => by
    rw [madeAt, hs.ssa, if_pos rfl, hmade]
  refine h.extend hgrows.size (fun m _ => m = n) (fun m p hm => ?_) ?_ ?_
  · rw [madeAt, hs.ssa, if_neg hm, hall.ssa]
    rfl
  · rw [hs.store]
    grind
  · grind

theorem Distinct.converts (h : Distinct f σ.2) (ht : Tabled σ) (hp : Prepared f σ.2) (hc : Converts f n σ τ) :
    Distinct f τ.2 := by
  obtain ⟨phis, new, υ, υ', hall, hsets, hsteps, -⟩ := hc.steps ht (hp.plain n)
  have hentering : Distinct f (entering n σ).2 := h
  exact (hentering.renewsAll hall hsets).changes hsteps.changes

theorem madeAt_modify {a : Analysis} {op : Op} (hi : (a.ssa f n)[k]? = some i)
    (hop : op.lvalue? = i.op.lvalue?) (m : NodeId) (p : Nat) :
    (a.setSsa f n ((a.ssa f n).modify k fun i => { i with op })).madeAt f m p = a.madeAt f m p := by
  rw [madeAt, ssa_setSsa]
  by_cases hm : m = n
  · subst hm
    rw [if_pos rfl, getElem?_modify]
    by_cases hp : k = p
    · subst hp
      rw [madeAt, hi]
      simp [made?, hop]
    · simp [hp, madeAt]
  · rw [if_neg hm]
    rfl

theorem Amend.change (h : Amend f P σ τ) : Change f σ τ := by
  cases h with
  | quiet hq _ => exact .quiet hq
  | back s => exact ⟨.refl f _, rfl, .inl fun _ _ => rfl⟩
  | make v => exact ⟨.addVersion f _ _, rfl, .inl fun _ _ => rfl⟩
  | fill values hi _ => exact ⟨.setSsa f _ _ _, rfl, .inl (madeAt_modify hi rfl)⟩
  | extend n i _ hw => exact .keep n (i := ⟨.phi _ _ _, _⟩) (fun k hk => hw k (Option.some.inj hk)) σ
  | renew n i hr => exact .renews hr rfl

theorem Amends.changes (h : Amends f P σ τ) : Changes f σ τ := h.lift id fun _ _ => Amend.change

theorem Amends.grows (h : Amends f P σ τ) : Grows f σ.2 τ.2 := Changes.grows (Amends.changes h)

end Rename

end ContractAudit
