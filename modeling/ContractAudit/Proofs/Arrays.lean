import ContractAudit.Table
import Mathlib.Data.List.Perm.Subperm

/-! # Arrays that are read with a default, and tables -/

namespace ContractAudit

open List

theorem length_le_of_lt {V : List Nat} (hV : V.Nodup) (hlt : ∀ v ∈ V, v < size) : V.length ≤ size := by
  have hsub : V ⊆ range size := fun v hv => mem_range.2 (hlt v hv)
  simpa using (hV.subperm hsub).length_le

section Arrays

variable (xs : Array α) (i j : Nat) (d : α)

theorem getD_modify (g : α → α) :
    (xs.modify i g).getD j d = if i = j ∧ j < xs.size then g (xs.getD j d) else xs.getD j d := by
  simp only [Array.getD_eq_getD_getElem?, Array.getElem?_modify]
  by_cases hij : i = j
  · by_cases hj : j < xs.size <;> simp [hij, hj]
  · simp [hij]

theorem getD_setIfInBounds (x : α) : (xs.setIfInBounds i x).getD j d = if i = j ∧ i < xs.size then x else xs.getD j d := by
  simp only [Array.getD_eq_getD_getElem?, Array.getElem?_setIfInBounds]
  by_cases hij : i = j
  · by_cases hj : j < xs.size <;> simp [hij, hj]
  · simp [hij]

theorem getD_push (x : α) : (xs.push x).getD j d = if j = xs.size then x else xs.getD j d := by
  simp only [Array.getD_eq_getD_getElem?, Array.getElem?_push]
  split <;> rfl

theorem getD_mem : xs.getD j d ∈ xs ∨ xs.getD j d = d := by
  rw [Array.getD_eq_getD_getElem?]
  cases h : xs[j]? with
  | none => exact .inr rfl
  | some x => exact .inl (Array.mem_of_getElem? h)

end Arrays

theorem mem_addAllNew [BEq α] [LawfulBEq α] {xs ys : List α} : x ∈ addAllNew xs ys ↔ x ∈ xs ∨ x ∈ ys := by
  unfold addAllNew
  induction ys generalizing xs with
  | nil => simp
  | cons y ys ih =>
    rw [foldl_cons, addNew]
    split <;> grind

namespace Table

variable [BEq κ] [LawfulBEq κ] {t : Table κ α}

theorem find?_insert [DecidableEq κ] (k k' : κ) (v : α) (t : Table κ α) :
    find? k' (insert k v t) = if k' = k then some v else find? k' t := by
  induction t with
  | nil =>
    by_cases h : k' = k
    · simp [insert, find?, h]
    · simp [insert, find?, h, Ne.symm h]
  | cons p t ih =>
    obtain ⟨k₀, w⟩ := p
    by_cases h₀ : k₀ = k
    · subst h₀
      by_cases h : k' = k₀
      · simp [insert, find?, h]
      · simp [insert, find?, h, Ne.symm h]
    · by_cases h : k₀ = k'
      · subst h
        simp [insert, find?, h₀]
      · simp [insert, find?, h₀, h, ih]

theorem mem_insert (h : e ∈ insert k v t) : e = (k, v) ∨ e ∈ t := by
  induction t with
  | nil => exact .inl (mem_singleton.1 h)
  | cons p t ih =>
    rw [insert] at h
    split at h
    · rename_i hk
      rcases mem_cons.1 h with h | h
      · exact .inl (h.trans (by rw [eq_of_beq hk]))
      · exact .inr (by simp [h])
    · rcases mem_cons.1 h with h | h
      · exact .inr (by simp [h])
      · rcases ih h with h | h
        · exact .inl h
        · exact .inr (by simp [h])

theorem mem_of_find? (h : find? k t = some v) : (k, v) ∈ t := by
  induction t with
  | nil => cases h
  | cons p t ih =>
    obtain ⟨k', w⟩ := p
    rw [find?] at h
    split at h
    · rename_i hk
      cases h
      rw [eq_of_beq hk]
      exact mem_cons_self
    · exact mem_cons_of_mem _ (ih h)

theorem find?_of_mem (hkeys : (keys t).Nodup) (h : (k, v) ∈ t) : find? k t = some v := by
  induction t with
  | nil => cases h
  | cons p t ih =>
    obtain ⟨k', w⟩ := p
    rw [keys, map_cons, nodup_cons] at hkeys
    rw [find?]
    rcases mem_cons.1 h with heq | hmem
    · cases heq
      simp
    · have hkey : k ∈ t.map (·.1) := mem_map.2 ⟨(k, v), hmem, rfl⟩
      have hne : k' ≠ k := fun hk => hkeys.1 (hk ▸ hkey)
      rw [if_neg (by simpa using hne)]
      exact ih hkeys.2 hmem

theorem find?_map (g : κ → α → β) :
    find? k (t.map fun p => (p.1, g p.1 p.2)) = (find? k t).map (g k) := by
  induction t with
  | nil => rfl
  | cons p t ih =>
    by_cases hk : p.1 = k
    · subst hk
      simp [find?]
    · simpa [find?, hk] using ih

end Table

end ContractAudit
