import ContractAudit.Ir.Expression

/-! # Names in imported files

A name under which something was imported is followed to what it was imported as. The search says that it is over for every
such name, so it is right about having found something only where following the name comes to an end at something declared.
-/

namespace ContractAudit.Lower

/-- A number of renames lead from a name to one that is not renamed. -/
inductive Follows (scope : FileScope) : Nat → String → String → Prop
  | here {name : String} : scope.renames.find? name = none → Follows scope 0 name name
  | next {n : Nat} {name other last : String} : scope.renames.find? name = some other → Follows scope n other last →
      Follows scope (n + 1) name last

theorem inScope_of_follows (h : Follows scope n name last) (hn : n < fuel) : inScope p scope type fuel name =
    .ok (n != 0 || (inFile? p scope type last).isSome, inFile? p scope type last) := by
  induction h generalizing fuel with
  | here hname =>
    obtain ⟨fuel, rfl⟩ := Nat.exists_eq_add_of_lt hn
    rw [inScope, hname]
    rfl
  | next hname _ ih =>
    cases fuel with
    | zero => cases hn
    | succ fuel =>
      simp only [inScope, hname]
      rw [ih (Nat.lt_of_succ_lt_succ hn)]
      rfl

theorem follows_of_inScope (h : inScope p scope type fuel name = .ok r) :
    ∃ n < fuel, ∃ last, Follows scope n name last := by
  induction fuel generalizing name r with
  | zero => cases h
  | succ fuel ih =>
    rw [inScope] at h
    split at h
    next other hname =>
      cases hother : inScope p scope type fuel other with
      | error e =>
        rw [hother] at h
        cases h
      | ok r =>
        obtain ⟨n, hn, last, hfollows⟩ := ih hother
        exact ⟨n + 1, Nat.succ_lt_succ hn, last, .next hname hfollows⟩
    next hname => exact ⟨0, fuel.succ_pos, name, .here hname⟩

/-- The search for a name ends, and has found something if it says that it is over, exactly if fewer renames than it may follow
lead to a name that is not renamed, and this is the name itself or stands for something in the file. -/
theorem inScope_answers_iff (p : Program) (scope : FileScope) (type name : String) (fuel : Nat) :
    (∃ done v, inScope p scope type fuel name = .ok (done, v) ∧ (done = true → v.isSome = true)) ↔
      ∃ n < fuel, ∃ last, Follows scope n name last ∧ (n = 0 ∨ (inFile? p scope type last).isSome = true) := by
  constructor
  · rintro ⟨done, v, h, hfound⟩
    obtain ⟨n, hn, last, hfollows⟩ := follows_of_inScope h
    rw [inScope_of_follows hfollows hn] at h
    cases h
    refine ⟨n, hn, last, hfollows, ?_⟩
    by_cases hzero : n = 0
    · exact .inl hzero
    · exact .inr (hfound (by simp [hzero]))
  · rintro ⟨n, hn, last, hfollows, hfound⟩
    refine ⟨_, _, inScope_of_follows hfollows hn, fun hdone => ?_⟩
    rcases hfound with rfl | hfound
    · simpa using hdone
    · exact hfound

/-- A name under which an event was imported stands for nothing, and the search says that it is over. A name that was imported
under itself is followed without end. -/
theorem inScope_misled :
    inScope {} { file := default, renames := [("Y", "E")] } "function ()" 1000 "Y" = .ok (true, none) ∧
      ∀ fuel, inScope {} { file := default, renames := [("Y", "Y")] } "function ()" fuel "Y" = .error .depth := by
  refine ⟨rfl, fun fuel => ?_⟩
  induction fuel with
  | zero => rfl
  | succ fuel ih =>
    rw [inScope]
    exact congrArg (· >>= _) ih

end ContractAudit.Lower
