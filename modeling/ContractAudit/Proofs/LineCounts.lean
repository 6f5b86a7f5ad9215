import ContractAudit.Source.Position
import Mathlib.Tactic.Common

/-! # Lines of code

What a line counts as is told by the first mark of a comment on it, which is right if no mark behind it changes what is open.
-/

namespace ContractAudit.Source

open Text

/-- The marks of comments. -/
inductive CommentMark where
  | line | opens | closes
  deriving DecidableEq

namespace LineCount

open CommentMark

/-- The marks on a line, from inside of a block comment or not. -/
def marks : Bool → List Char → List CommentMark
  | false, '/' :: '/' :: _ => [line]
  | false, '/' :: '*' :: cs => opens :: marks true cs
  | true, '*' :: '/' :: cs => closes :: marks false cs
  | inside, _ :: cs => marks inside cs
  | _, [] => []

variable (inside : Bool) (l : String)

/-- A block comment is open after the line. -/
def staysOpen : Bool := ((marks inside l.toList).getLast?.map (· == opens)).getD inside

/-- Behind the end of a block comment none stays open, and a line comment behind code has no start of a block comment. -/
structure Clear : Prop where
  once : closes ∈ marks inside l.toList → staysOpen inside l = false
  plain : marks inside l.toList = [line] → startsWith (stripLeft l) "//" = true ∨ behind? ['/', '*'] l.toList = none

def AllClear : Bool → List String → Prop
  | _, [] => True
  | inside, l :: ls => Clear inside l ∧ AllClear (staysOpen inside l) ls

/-- A line that is not blank, does not start with a line comment and has no part of a block comment. -/
abbrev IsCode : Prop := inside = false ∧ opens ∉ marks inside l.toList ∧ startsWith (stripLeft l) "//" = false ∧ strip l ≠ ""

variable {inside l}

theorem afterPrefix?_eq_some : afterPrefix? ps cs = some r ↔ cs = ps ++ r := by
  fun_induction afterPrefix? ps cs with
  | case1 cs => simp
  | case2 => simp
  | case3 ps p cs ih => simp_all
  | case4 p ps c cs hne => simpa using fun h => absurd h.symm (by simpa using hne)

theorem behind?_skip (h : ∀ r, c :: cs ≠ pat ++ r) : behind? pat (c :: cs) = behind? pat cs := by
  rw [behind?, Option.eq_none_iff_forall_ne_some.2 fun r hr => h r (afterPrefix?_eq_some.1 hr), Option.none_or]

theorem marks_cases (inside : Bool) (cs : List Char) :
    (inside = true → marks inside cs = (behind? ['*', '/'] cs).elim [] fun rest => closes :: marks false rest) ∧
    (inside = false → marks inside cs = [line] ∨ marks inside cs = (behind? ['/', '*'] cs).elim [] fun rest => opens :: marks true rest) := by
  fun_induction marks inside cs with
  | case1 cs => simp
  | case2 cs => exact ⟨nofun, fun _ => .inr rfl⟩
  | case3 cs => exact ⟨fun _ => rfl, nofun⟩
  | case4 inside c cs hline hopens hcloses ih =>
    refine ⟨fun h => ?_, fun h => ?_⟩
    · rw [behind?_skip, ih.1 h]
      rintro r ⟨⟩
      exact hcloses r h rfl rfl
    · rw [behind?_skip]
      · exact ih.2 h
      · rintro r ⟨⟩
        exact hopens r h rfl rfl
  | case5 inside => exact ⟨fun _ => rfl, fun _ => .inr rfl⟩

theorem marks_dropBlanks {cs : List Char} : marks false (dropBlanks cs) = marks false cs := by
  induction cs with
  | nil => rfl
  | cons c cs ih =>
    by_cases hc : isBlank c = true
    · have hslash : c ≠ '/' := by
        rintro rfl
        cases hc
      rw [dropBlanks, List.dropWhile_cons_of_pos hc, ← dropBlanks, ih]
      simp [marks, hslash]
    · rw [dropBlanks, List.dropWhile_cons_of_neg hc]

theorem marks_of_startsWith (h : startsWith (stripLeft l) "//" = true) : marks false l.toList = [line] := by
  obtain ⟨rest, hrest⟩ := Option.isSome_iff_exists.1 h
  rw [stripLeft, afterPrefix?_eq_some, String.toList_ofList] at hrest
  rw [← marks_dropBlanks, hrest]
  rfl

theorem ofLine_clear (h : Clear inside l) :
    (ofLine inside l).2.2 = staysOpen inside l ∧ (ofLine inside l).2.1 = if IsCode inside l then 1 else 0 := by
  obtain ⟨honce, hplain⟩ := h
  obtain ⟨htrue, hfalse⟩ := marks_cases inside l.toList
  cases inside with
  | true =>
    cases hbehind : behind? ['*', '/'] l.toList with
    | none => simp [ofLine, staysOpen, htrue, hbehind]
    | some rest => simp [ofLine, hbehind, honce (by simp [htrue, hbehind])]
  | false =>
    by_cases hstarts : startsWith (stripLeft l) "//" = true
    · simp [ofLine, staysOpen, hstarts, marks_of_startsWith]
    · rcases hfalse rfl with hmarks | hmarks
      · simp [ofLine, staysOpen, IsCode, hstarts, hmarks, (hplain hmarks).resolve_left hstarts]
      · cases hbehind : behind? ['/', '*'] l.toList with
        | none => simp [ofLine, staysOpen, IsCode, hstarts, hmarks, hbehind]
        | some rest =>
          have hrest := (marks_cases true rest).1 rfl
          rw [hbehind, Option.elim_some] at hmarks
          cases hends : behind? ['*', '/'] rest with
          | none => simp [ofLine, staysOpen, hstarts, hmarks, hbehind, hrest, hends]
          | some more => simp [ofLine, hstarts, hmarks, hbehind, hends, honce (by simp [hmarks, hrest, hends])]

theorem foldl_next (ls : List String) (c : LineCount × Bool) (h : AllClear c.2 (ls ++ [l])) :
    (ls.foldl next c).2 = ls.foldl staysOpen c.2 ∧ Clear (ls.foldl staysOpen c.2) l := by
  induction ls generalizing c with
  | nil => exact ⟨rfl, h.1⟩
  | cons k ls ih =>
    have hk : (next c k).2 = staysOpen c.2 k := (ofLine_clear h.1).1
    simpa [hk] using ih (next c k) (hk ▸ h.2)

/-- After lines that are clear, the count knows whether a block comment is open, and the next line counts as code if it is not
blank, does not start with a line comment and has no part of a block comment. -/
theorem next_clear (ls : List String) (l : String) (h : AllClear false (ls ++ [l])) : let inside := ls.foldl staysOpen false
    (ls.foldl next ({}, false)).2 = inside ∧ (ofLines (ls ++ [l])).code = (ofLines ls).code + if IsCode inside l then 1 else 0 := by
  obtain ⟨hinside, hclear⟩ := foldl_next ls ({}, false) h
  refine ⟨hinside, ?_⟩
  rw [ofLines, ofLines, List.foldl_append, List.foldl_cons, List.foldl_nil, next, hinside, ← (ofLine_clear hclear).2]

theorem next_clear_block : (["/* a", "b */"].foldl next ({}, false)).2 = false ∧ (ofLines ["/* a", "b */", "x;"]).code = 1 :=
  next_clear ["/* a", "b */"] "x;" ⟨⟨by decide, by decide⟩, ⟨by decide, by decide⟩, ⟨by decide, by decide⟩, trivial⟩

/-- A line of code with a comment behind it counts as code. -/
theorem ofLines_trailing : (ofLines ["x; // y"]).code = 1 ∧ marks false "x; // y".toList = [line] := by decide

end LineCount

end ContractAudit.Source
