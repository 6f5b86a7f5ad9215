import ContractAudit.Report.Filter

/-! # What the screen leaves out -/

namespace ContractAudit.Report.Screen

variable (s : Screen) (seen : List String) (rs : List Report) (r : Report)

theorem mem_seen (id : String) : id ∈ (s.keep seen rs).2 ↔ id ∈ seen ∨ ∃ q ∈ rs, q.id = id := by
  induction rs generalizing seen with
  | nil => simp [keep]
  | cons q rs ih =>
    rw [keep]
    split
    next hq =>
      have hold : q.id = id → id ∈ seen := fun h => h ▸ List.contains_iff_mem.1 hq
      grind
    next => simp [ih, or_assoc, or_left_comm, eq_comm]

theorem shown_append {ts : List Report} :
    (s.keep seen (rs ++ ts)).1 = (s.keep seen rs).1 ++ (s.keep (s.keep seen rs).2 ts).1 := by
  induction rs generalizing seen with
  | nil => simp [keep]
  | cons q rs ih =>
    rw [List.cons_append, keep, keep]
    split
    · exact ih seen
    · dsimp only
      split <;> simp [ih]

/-- A finding is left out as one that was seen exactly if an earlier one has its identity, shown or not. -/
theorem shown_next (earlier : List Report) : (s.keep [] (earlier ++ [r])).1 =
    (s.keep [] earlier).1 ++ if ∃ q ∈ earlier, q.id = r.id then [] else [r].filter s.accepts := by
  have hseen : (s.keep [] earlier).2.contains r.id = true ↔ ∃ q ∈ earlier, q.id = r.id := by
    simpa using s.mem_seen [] earlier r.id
  rw [shown_append, keep]
  simp only [hseen]
  split <;> simp [keep, List.filter]
  split <;> simp_all

theorem finds_map {es : List Element} :
    finds (es.map pathOf) pattern = es.any (finds [pathOf ·] pattern) := by
  unfold finds
  cases Text.Pattern.parse? (inner pattern) <;> simp [Function.comp_def]

/-- Without paths to include, a finding stands elsewhere exactly if the path of one of its elements matches a pattern. -/
theorem isElsewhere_iff (hi : s.includePaths = []) :
    s.isElsewhere r = true ↔ ∃ e ∈ r.elements, ∃ pattern ∈ s.filterPaths, finds [pathOf e] pattern = true := by
  simp only [isElsewhere, hi, List.isEmpty_nil, if_true, Bool.and_eq_true, List.any_eq_true, finds_map]
  grind

def placedIn (path : String) : Contract := { (default : Contract) with name := "C", source := { file := ⟨path, path⟩ } }

/-- Contracts of one name, in two files. -/
def namesakes : Program := { contractTable := #[placedIn "/a.sol", placedIn "/b.sol"] }

def about (cs : List ContractId) : Result Report :=
  ({ info := cs.map Phrase.contract } : Finding).report namesakes "" true "odd" .low .low

def withoutA : Screen := { filterPaths := ["a.sol"] }

theorem isElsewhere_one : ∃ r, about [0, 1] = .ok r ∧
    ∃ e ∈ r.elements, ∃ pattern ∈ withoutA.filterPaths, finds [pathOf e] pattern = true :=
  ⟨_, rfl, (isElsewhere_iff withoutA _ rfl).1 (by decide)⟩

theorem isElsewhere_both : ∃ r, about [0, 1] = .ok r ∧ withoutA.isElsewhere r = true ∧
    ¬ ∀ e ∈ r.elements, ∃ pattern ∈ withoutA.filterPaths, finds [pathOf e] pattern = true :=
  ⟨_, rfl, by decide, by decide⟩

theorem namesakes_lost : ∃ r t, about [0] = .ok r ∧ about [1] = .ok t ∧ withoutA.accepts r = false ∧
    withoutA.accepts t = true ∧ (withoutA.keep [] [r, t]).1 = [] := by
  have hlost (r t : Report) (hid : r.id = t.id) (hr : withoutA.accepts r = false) : (withoutA.keep [] [r, t]).1 = [] := by
    simp [keep, hid, hr]
  exact ⟨_, _, rfl, rfl, by decide, by decide, hlost _ _ rfl (by decide)⟩

end ContractAudit.Report.Screen
