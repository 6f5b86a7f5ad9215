import ContractAudit.Proofs.Arrays
import ContractAudit.Proofs.LineCounts
import ContractAudit.Report.Filter

/-! # Silences

Where the marks of a check start and end its silence in turn, what is recorded for it is one range after another.
-/

namespace ContractAudit.Report.Silences

open Text List Source.LineCount

def marksOf (text check : String) : List Mark := (marksFrom 1 (lines text)).filter (·.check == check)

/-- Starts and ends in turn. -/
def Alternates : Bool → List Mark → Prop
  | _, [] => True
  | starts, m :: ms => m.starts = starts ∧ Alternates (!starts) ms

/-- From each start to the end that follows it. -/
def ranges : List Mark → List Silence
  | [] => []
  | [m] => [⟨m.line, none⟩]
  | m :: n :: rest => ⟨m.line, some n.line⟩ :: ranges rest

/-! ## Recording -/

theorem ranges_extend {ms : List Mark} (h : Alternates true (ms ++ m :: more)) :
    ranges (ms ++ [m]) = m.extend (ranges ms) ∧ (ranges ms).getLast?.any (·.stop.isNone) = !m.starts := by
  fun_induction ranges ms with
  | case1 => simp [ranges, Mark.extend, h.1]
  | case2 n => simp [ranges, Mark.extend, h.2.1]
  | case3 n k rest ih =>
    obtain ⟨hr, hl⟩ := ih h.2.2
    cases hs : m.starts <;> cases hranges : ranges rest <;> simp_all [ranges, Mark.extend, getLast?_cons]

/-- The marks so far are recorded. -/
def Records (t : Silences) (ms : List Mark) : Prop :=
  ∀ check, (t.find? check).getD [] = ranges (ms.filter (·.check == check))

theorem Records.record {t : Silences} (ht : Records t ms)
    (h : ∀ check, Alternates true ((ms ++ more).filter (·.check == check))) : Records (record more t) (ms ++ more) := by
  induction more generalizing t ms with
  | nil => simpa [Silences.record] using ht
  | cons m more ih =>
    have hm := h m.check
    rw [filter_append, filter_cons_of_pos (by simp)] at hm
    obtain ⟨hnext, hopen⟩ := ranges_extend hm
    rw [← ht] at hnext hopen
    have hfits : (t.isOpen m.check == m.starts) = false := by simp [isOpen, hopen]
    rw [Silences.record, hfits, append_cons]
    refine ih (fun check => ?_) (by simpa using h)
    rw [Table.alter, Table.find?_insert, filter_append]
    by_cases hc : check = m.check
    · simpa [hc] using hnext.symm
    · simpa [hc, Ne.symm hc] using ht check

/-! ## Lines -/

theorem not_marked_twice {l : String} (h : marked? "start" l = some xs) : marked? "end" l = none := by
  cases he : marked? "end" l with
  | none => rfl
  | some ys =>
    simp only [marked?, Option.bind_eq_bind, Option.bind_eq_some_iff, afterPrefix?_eq_some] at h he
    obtain ⟨cs, hcs, ds, hds, -⟩ := h
    obtain ⟨cs', hcs', ds', hds', -⟩ := he
    obtain rfl := append_cancel_left (hcs.symm.trans hcs')
    have hletter := congrArg (·[16]?) (hds.symm.trans hds')
    rw [getElem?_append_left (by decide), getElem?_append_left (by decide)] at hletter
    exact absurd hletter (by decide)

/-- Marks of one line all start silences, or all end them. -/
def Follows (m n : Mark) : Prop := m.line < n.line ∨ m.line = n.line ∧ m.starts = n.starts

theorem marksFrom_follow (line : Nat) (ls : List String) :
    (∀ m ∈ marksFrom line ls, line ≤ m.line) ∧ (marksFrom line ls).Pairwise Follows := by
  induction ls generalizing line with
  | nil => simp [marksFrom]
  | cons l ls ih =>
    obtain ⟨hle, hrest⟩ := ih (line + 1)
    have hjoin (b : Bool) (cs : List String) : let ms := cs.map (.mk line b) ++ marksFrom (line + 1) ls
        (∀ m ∈ ms, line ≤ m.line) ∧ ms.Pairwise Follows :=
      ⟨by grind, pairwise_append.2 ⟨pairwise_map.2 (pairwise_of_forall fun _ _ => .inr ⟨rfl, rfl⟩), hrest, by grind [Follows]⟩⟩
    cases hs : marked? "start" l with
    | none => simpa [marksFrom, hs] using hjoin false _
    | some xs => simpa [marksFrom, hs, not_marked_twice hs] using hjoin true xs

theorem Alternates.increase {b : Bool} (h : Alternates b ms) (hms : ms.Pairwise Follows) : ms.IsChain (·.line < ·.line) := by
  induction ms generalizing b with
  | nil => exact .nil
  | cons m ms ih =>
    cases ms with
    | nil => exact .singleton _
    | cons n ms =>
      have hn := (rel_of_pairwise_cons hms (.head _)).resolve_right fun heq => by simp [h.1, h.2.1] at heq
      exact .cons_cons hn (ih h.2 hms.tail)

instance : IsTrans Mark (·.line < ·.line) := ⟨fun _ _ _ => Nat.lt_trans⟩

theorem ranges_apart {ms : List Mark} (h : ms.Pairwise (·.line < ·.line)) :
    (∀ r ∈ ranges ms, (∃ m ∈ ms, r.start = m.line) ∧ r.stop.all (r.start < ·)) ∧
      (ranges ms).Pairwise fun r s => r.stop.any (· < s.start) := by
  fun_induction ranges ms with
  | case1 => simp
  | case2 m => simp
  | case3 m n rest ih =>
    obtain ⟨hm, hn, hrest⟩ := by simpa only [pairwise_cons] using h
    obtain ⟨hall, hapart⟩ := ih hrest
    refine ⟨by grind, pairwise_cons.2 ⟨fun r hr => ?_, hapart⟩⟩
    obtain ⟨⟨k, hk, hstart⟩, -⟩ := hall r hr
    simpa [hstart] using hn k hk

/-- A file in which the silences of two checks overlap. -/
def overlapping : String := "// slither-disable-start a,b\n\n// slither-disable-end a\n// slither-disable-start a"

end ContractAudit.Report.Silences
