import ContractAudit.Reader.Unit
import Mathlib.Data.Fintype.EquivFin
import Mathlib.Order.WellFounded

/-! # The order in which contracts are read

A contract that is not ready goes to the end of the queue. Where no contract inherits from itself some contract in the queue
is ready, so at most one round passes between two that are taken.
-/

namespace ContractAudit.Reader

open Relation List

variable {bases : ContractId -> List ContractId} {done done' xs ys q : List ContractId}

/-- Each contract comes after those it inherits from, save for those that are `done`. -/
def AfterBases (bases : ContractId -> List ContractId) : List ContractId -> List ContractId -> Prop
  | _, [] => True
  | done, c :: rest => (∀ b ∈ bases c, b ∈ done) ∧ AfterBases bases (c :: done) rest

theorem AfterBases.mono (h : AfterBases bases done q) (hd : done ⊆ done') : AfterBases bases done' q := by
  induction q generalizing done done' with
  | nil => trivial
  | cons c q ih => exact ⟨fun b hb => hd (h.1 b hb), ih h.2 (cons_subset_cons c hd)⟩

/-- Contracts without bases may stand before any. -/
theorem AfterBases.append (hx : ∀ x ∈ xs, bases x = []) (h : AfterBases bases (done ++ xs) q) :
    AfterBases bases done (xs ++ q) := by
  induction xs generalizing done with
  | nil => simpa using h
  | cons x xs ih =>
    refine ⟨by simp [hx x], ih (fun y hy => hx y (.tail _ hy)) (h.mono fun y hy => ?_)⟩
    grind

/-- The first contract that is ready is taken, and those before it come after the others. -/
theorem takeReady_append (hc : ∀ b ∈ bases c, b ∈ done) (hx : ∀ x ∈ xs, ∃ b ∈ bases x, b ∉ done) :
    takeReady bases (fuel + xs.length + 1) done (xs ++ c :: ys) = c :: takeReady bases fuel (c :: done) (ys ++ xs) := by
  induction xs generalizing ys with
  | nil => simpa [takeReady] using fun b hb hd => absurd (hc b hb) hd
  | cons x xs ih =>
    obtain ⟨b, hb, hd⟩ := hx x (.head _)
    have hwait : (bases x).all done.contains = false := by simpa using ⟨b, hb, hd⟩
    simpa [takeReady, hwait, Nat.add_assoc] using @ih (ys ++ [x]) fun y hy => hx y (.tail _ hy)

/-- A contract that inherits from none of the others in the queue is ready. -/
theorem exists_ready (hacyclic : ∀ c, ¬ TransGen (fun b c => b ∈ bases c) c c) (hq : q ≠ [])
    (hclosed : ∀ c ∈ q, ∀ b ∈ bases c, b ∈ done ∨ b ∈ q) : ∃ c ∈ q, ∀ b ∈ bases c, b ∈ done := by
  let R (b c : {c // c ∈ q}) : Prop := TransGen (fun b c => b ∈ bases c) b.1 c.1
  have : Std.Irrefl R := ⟨fun c => hacyclic c⟩
  obtain ⟨x, hx⟩ := exists_mem_of_ne_nil q hq
  obtain ⟨c, -, hmin⟩ := (Finite.wellFounded_of_trans_of_irrefl R).has_min Set.univ ⟨⟨x, hx⟩, trivial⟩
  refine ⟨c, c.2, fun b hb => ?_⟩
  rcases hclosed c c.2 b hb with hd | hb'
  · exact hd
  · exact absurd (.single hb) (hmin ⟨b, hb'⟩ trivial)

theorem takeReady_complete (hacyclic : ∀ c, ¬ TransGen (fun b c => b ∈ bases c) c c)
    (hclosed : ∀ c ∈ q, ∀ b ∈ bases c, b ∈ done ∨ b ∈ q) :
    ∃ l, (∀ fuel, (q.length + 1) * (q.length + 1) ≤ fuel → takeReady bases fuel done q = l) ∧ l.Perm q ∧
      AfterBases bases done l := by
  induction h : q.length generalizing done q with
  | zero =>
    obtain rfl := length_eq_zero_iff.1 h
    exact ⟨[], fun fuel _ => by cases fuel <;> rfl, .refl _, trivial⟩
  | succ n ih =>
    obtain ⟨x, hx, hready⟩ := exists_ready hacyclic (by grind) hclosed
    -- the first ready one of the queue
    obtain ⟨c, hfound⟩ : ∃ c, q.find? (fun c => (bases c).all done.contains) = some c :=
      Option.isSome_iff_exists.1 (find?_isSome.2 ⟨x, hx, by simpa using hready⟩)
    obtain ⟨hc, xs, ys, rfl, hxs⟩ := find?_eq_some_iff_append.1 hfound
    have hc' : ∀ b ∈ bases c, b ∈ done := by simpa using hc
    have hlen : (ys ++ xs).length = n := by grind
    obtain ⟨l, hl, hperm, hafter⟩ := @ih (c :: done) (ys ++ xs) (by grind) hlen
    refine ⟨c :: l, fun fuel hfuel => ?_, (hperm.cons c).trans (by grind), hc', hafter⟩
    obtain ⟨rest, rfl⟩ : ∃ rest, fuel = rest + xs.length + 1 := ⟨fuel - xs.length - 1, by grind⟩
    rw [takeReady_append hc' (by simpa using hxs)]
    grind

theorem inOrder_complete (done : List ContractId)
    (hacyclic : ∀ c, ¬ TransGen (fun b c => b ∈ (p.contract c).inheritance) c c)
    (hclosed : ∀ c ∈ q, ∀ b ∈ (p.contract c).inheritance, b ∈ done ∨ b ∈ q) :
    (inOrder p done q).Perm q ∧ AfterBases (fun c => (p.contract c).inheritance) done (inOrder p done q) ∧
      ∀ fuel, (q.length + 1) * (q.length + 1) ≤ fuel →
        takeReady (fun c => (p.contract c).inheritance) fuel done q = inOrder p done q := by
  obtain ⟨l, hl, hperm, hafter⟩ := takeReady_complete hacyclic hclosed
  obtain rfl : inOrder p done q = l := hl _ le_rfl
  exact ⟨hperm, hafter, hl⟩

/-- Where no contract inherits from itself, each has its bases in the unit and libraries take no part in it, every stage
that goes by inheritance ends, meets each contract once and meets it after those it inherits from, whatever the order in
which the contracts are given. -/
theorem orders_complete (p : Program) (all : List ContractId)
    (hclosed : ∀ c ∈ all, (p.contract c).lacksBase = false ∧ (p.contract c).inheritance ⊆ all)
    (hacyclic : ∀ c, ¬ TransGen (fun b c => b ∈ (p.contract c).inheritance) c c)
    (hlibraries : ∀ c ∈ all, ofLibraryKind p c →
      (p.contract c).inheritance = [] ∧ ∀ d ∈ all, c ∉ (p.contract d).inheritance) :
    let bases c := (p.contract c).inheritance
    let o := Orders.of p all
    (∀ l ∈ [o.enums, o.libraries ++ o.others, o.usings], l.Perm all ∧ AfterBases bases [] l) ∧
    ∀ fuel, (all.length + 1) * (all.length + 1) ≤ fuel →
      let others := all.filter (!ofLibraryKind p ·)
      takeReady bases fuel [] all = o.enums ∧ takeReady bases fuel o.libraries others = o.others ∧
        o.libraries ++ takeReady bases fuel [] others = o.usings := by
  intro bases o
  have hlack : all.filter (fun c => (p.contract c).lacksBase) = [] := by simpa using fun c hc => (hclosed c hc).1
  have henums : o.enums = inOrder p [] all := by rw [← hlack]; rfl
  have hall : (o.libraries ++ all.filter (!ofLibraryKind p ·)).Perm all := filter_append_perm _ all
  have hroots : ∀ c ∈ o.libraries, bases c = [] := fun c hc =>
    (hlibraries c (mem_filter.1 hc).1 (mem_filter.1 hc).2).1
  have hown : ∀ c ∈ all.filter (!ofLibraryKind p ·), ∀ b ∈ bases c, b ∈ all.filter (!ofLibraryKind p ·) := by
    intro c hc b hb
    have hc := mem_of_mem_filter hc
    have hb' := (hclosed c hc).2 hb
    exact mem_filter.2 ⟨hb', by simpa using fun hk => (hlibraries b hb' hk).2 c hc hb⟩
  obtain ⟨hperm, hafter, hfuel⟩ := inOrder_complete (q := all) [] hacyclic fun c hc b hb => .inr ((hclosed c hc).2 hb)
  have hstage (done) := inOrder_complete done hacyclic fun c hc b hb => .inr (hown c hc b hb)
  have hjoin {done} (hd : done ⊆ o.libraries) :
      (o.libraries ++ inOrder p done (all.filter (!ofLibraryKind p ·))).Perm all ∧
        AfterBases bases [] (o.libraries ++ inOrder p done (all.filter (!ofLibraryKind p ·))) :=
    ⟨((hstage done).1.append_left _).trans hall, .append hroots ((hstage done).2.1.mono hd)⟩
  refine ⟨?_, fun fuel h => ?_⟩
  · simpa [henums] using ⟨⟨hperm, hafter⟩, hjoin (List.Subset.refl _), hjoin (nil_subset _)⟩
  · have hless := Nat.succ_le_succ (length_filter_le (!ofLibraryKind p ·) all)
    have hstage (done) := (hstage done).2.2 fuel ((Nat.mul_le_mul hless hless).trans h)
    exact ⟨henums ▸ hfuel fuel h, hstage _, congrArg _ (hstage _)⟩

/-- Each contract comes before those it inherits from. -/
def invertedUnit : Program :=
  { contractTable := toArray <| [([1, 2], none), ([2], none), ([], none), ([], some "library")].map fun (bases, kind) =>
      { (default : Contract) with inheritance := bases, kind } }

theorem invertedUnit_acyclic (c : ContractId) : ¬ TransGen (fun b c => b ∈ (invertedUnit.contract c).inheritance) c c := by
  have hup : ∀ b c, b ∈ (invertedUnit.contract c).inheritance → c < b
    | b, 0, h | b, 1, h | b, 2, h | b, 3, h => by
      revert b
      decide
    | b, c + 4, h => absurd h not_mem_nil
  intro h
  have := TransGen.mono (p := (· > ·)) hup c c h
  rw [transGen_eq_self] at this
  exact lt_irrefl c this

theorem orders_of_invertedUnit :
    let o := Orders.of invertedUnit [0, 3, 1, 2]
    ∀ l ∈ [o.enums, o.libraries ++ o.others, o.usings],
      l.Perm [0, 3, 1, 2] ∧ AfterBases (fun c => (invertedUnit.contract c).inheritance) [] l :=
  (orders_complete invertedUnit [0, 3, 1, 2] (by decide) invertedUnit_acyclic (by decide)).1

end ContractAudit.Reader
