import ContractAudit.Program.Occurrence
import ContractAudit.Proofs.Outcomes

/-! # Places that name something -/

namespace ContractAudit.Occurrence

open List

theorem mem_once {found seen : List Source} (h : (∃ x ∈ seen, x.same s = true) ∨ s ∈ found) :
    ∃ x ∈ found.foldl (fun seen s => if seen.any (·.same s) then seen else seen ++ [s]) seen, x.same s = true := by
  have hself : s.same s = true := by simp [Source.same]
  induction found generalizing seen with
  | nil => exact h.resolve_right (by simp)
  | cons t found ih =>
    refine ih ?_
    dsimp only
    split
    next hany =>
      rw [any_eq_true] at hany
      grind
    next => grind

theorem mem_placesAt (hstart : start ∈ starts os file offset) (ho : o ∈ os)
    (hs : s ∈ pick start o) : ∃ ps, placesAt os file offset pick = .ok ps ∧ ∃ x ∈ ps, x.same s = true := by
  have hsome : someStarts os file offset = .ok (starts os file offset) := by
    rw [someStarts, if_neg]
    simpa using ne_nil_of_mem hstart
  refine ⟨_, by rw [placesAt, hsome]; rfl, mem_once (.inr ?_)⟩
  exact mem_flatMap.2 ⟨start, hstart, mem_flatMap.2 ⟨o, ho, hs⟩⟩

theorem within_eq_none {all : List Program} {e : Entry} (he : e.occurrence all p = .ok o)
    (hplain : ∀ f c d, e = .declared (.func f) → (p.function f).place ≠ .inContract c d) : o.within = none := by
  obtain ⟨d, -, ho⟩ := bind_eq_ok.1 he
  cases ho
  dsimp only
  split
  next f =>
    cases hplace : (p.function f).place with
    | inContract c d => exact absurd hplace (hplain f c d rfl)
    | topLevel => rfl
  next => rfl

/-- References in the file of the definition are found, with the definition, from each of their offsets. -/
theorem reference_found {all : List Program} {p : Program} {e : Entry} (he : e.occurrence all p = .ok o) (ho : o ∈ os)
    (hplain : ∀ f c d, e = .declared (.func f) → (p.function f).place ≠ .inContract c d)
    (hr : r ∈ o.references) (hfile : r.file = o.definition.file) (hcovers : r.start ≤ offset ∧ offset ≤ r.stop) :
    (∃ ds, definitionsAt os r.file offset = .ok ds ∧ ∃ d ∈ ds, d.same o.definition = true) ∧
      ∃ rs, referencesAt os r.file offset = .ok rs ∧ ∃ x ∈ rs, x.same r = true := by
  have hat : startsAt r.file r.start r = true := by simp [startsAt, isIn]
  have hstart : r.start ∈ starts os r.file offset := by
    simp only [starts, mem_eraseDups, mem_flatMap]
    refine ⟨o, ho, ?_⟩
    rw [if_pos (by simp [isIn, hfile])]
    exact mem_map_of_mem (mem_filter.2 ⟨.tail _ hr, by simpa [covers] using hcovers⟩)
  have hdefines : o.definesAt r.file r.start = true := by
    simp only [definesAt, within_eq_none he hplain, Option.all_none, Bool.and_true, Bool.or_eq_true, any_eq_true]
    exact .inr ⟨r, hr, hat⟩
  have htouches : o.touches r.file r.start = true := by
    simp only [touches, Bool.or_eq_true, any_eq_true]
    exact .inr ⟨r, hr, hat⟩
  exact ⟨mem_placesAt hstart ho (by simp [hdefines]), mem_placesAt hstart ho (by simpa [htouches] using hr)⟩

def fileOf (name : String) : FileName := ⟨name, name⟩

/-- A contract that is named once in its file and once in another one. -/
def namedTwice : Program where
  contractTable := #[{ (default : Contract) with name := "A", source := { file := fileOf "a" } }]
  contracts := [0]
  files := [.ofText (fileOf "a") ""]
  references := #[(.contract 0, { start := 5, stop := 6, file := fileOf "a" }),
    (.contract 0, { start := 7, stop := 8, file := fileOf "b" })]

theorem namedTwice_found : ∃ o r, (Entry.declared (.contract 0)).occurrence [namedTwice] namedTwice = .ok o ∧
    r ∈ o.references ∧ ∃ rs, referencesAt [o] r.file 6 = .ok rs ∧ ∃ x ∈ rs, x.same r = true :=
  have he : (Entry.declared (.contract 0)).occurrence [namedTwice] namedTwice = .ok _ := rfl
  ⟨_, _, he, .head _, (reference_found he (.head _) (fun _ _ _ h => nomatch h) (.head _) rfl (by decide)).2⟩

theorem namedTwice_lost : ∃ ps, ofPrograms [namedTwice] = .ok ps ∧ ps.map (·.2.references.length) = [2] ∧
    definitionsAt (ps.map (·.2)) (fileOf "b") 7 = .error (.badIndex "Unable to find reference for offset 7") :=
  ⟨_, rfl, by decide, rfl⟩

end ContractAudit.Occurrence
