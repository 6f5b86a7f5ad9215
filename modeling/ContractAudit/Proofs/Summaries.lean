import ContractAudit.Analysis.Summary
import ContractAudit.Proofs.Versions
import Mathlib.Algebra.Order.BigOperators.Group.Finset
import Mathlib.Data.List.Permutation
import Mathlib.Data.String.Basic
import Mathlib.Logic.Relation

/-! # What is gathered over nodes and called functions

Values are gathered over the functions that calls lead to, each taken once. Two of the lists are not copied before others
are added to them, and keep what they were asked for. Over the nodes of a function one variable for each name is gathered.
-/

namespace ContractAudit

open Ir Relation List

theorem nodup_eraseDups [BEq α] [LawfulBEq α] (xs : List α) : xs.eraseDups.Nodup := by
  match xs with
  | [] => simp
  | x :: xs =>
    rw [eraseDups_cons, nodup_cons]
    exact ⟨by simp, nodup_eraseDups _⟩
termination_by xs.length
decreasing_by exact Nat.lt_succ_of_le (length_filter_le ..)

/-! ## Searches -/

namespace Search

variable [BEq α] {next : α → List α} {P : α → Prop} {cost : List α → Nat} {todo seen : List α}

theorem of_mem_run (hnext : ∀ x, P x → ∀ y ∈ next x, P y) (hseen : ∀ x ∈ seen, P x) (htodo : ∀ x ∈ todo, P x) :
    ∀ x ∈ run next fuel todo seen, P x := by
  induction fuel generalizing todo seen with
  | zero => simpa [run] using hseen
  | succ fuel ih =>
    cases todo with
    | nil => simpa [run] using hseen
    | cons x todo =>
      have hx := htodo x (by simp)
      rw [run]
      split
      · exact ih hseen fun y hy => htodo y (by simp [hy])
      · refine ih (forall_mem_append.2 ⟨hseen, forall_mem_singleton.2 hx⟩) (forall_mem_append.2 ⟨?_, hnext x hx⟩)
        exact fun y hy => htodo y (by simp [hy])

/-- With fuel for all steps to come, more of it changes nothing: a search ends with all it was started for, and with the steps
from what it took up. -/
theorem run_settles [LawfulBEq α] (hcost : ∀ seen x, x ∉ seen → (next x).length + cost (seen ++ [x]) ≤ cost seen)
    (hfuel : todo.length + cost seen ≤ fuel) :
    (∀ more, run next (fuel + more) todo seen = run next fuel todo seen) ∧
    (∀ x, x ∈ seen ∨ x ∈ todo → x ∈ run next fuel todo seen) ∧
      ∀ x ∈ run next fuel todo seen, x ∉ seen → ∀ y ∈ next x, y ∈ run next fuel todo seen := by
  induction fuel generalizing todo seen with
  | zero =>
    obtain rfl : todo = [] := length_eq_zero_iff.1 (by omega)
    refine ⟨fun more => by cases more <;> rfl, ?_⟩
    simpa [run] using fun x hx hnot => absurd hx hnot
  | succ fuel ih =>
    simp only [Nat.add_right_comm fuel 1]
    cases todo with
    | nil => simpa [run] using fun x hx hnot => absurd hx hnot
    | cons x todo =>
      rw [length_cons] at hfuel
      simp only [run]
      split
      next hx =>
        have hfuel : todo.length + cost seen ≤ fuel := by omega
        obtain ⟨hmore, hall, hsteps⟩ := ih hfuel
        exact ⟨hmore, fun y hy => hall y (by grind), hsteps⟩
      next hx =>
        have hbudget := hcost seen x (by simpa using hx)
        have hfuel : (todo ++ next x).length + cost (seen ++ [x]) ≤ fuel := by
          rw [length_append]
          omega
        obtain ⟨hmore, hall, hsteps⟩ := ih hfuel
        refine ⟨hmore, fun y hy => hall y (by grind), fun y hy hnot => ?_⟩
        by_cases hyx : y = x
        · exact fun z hz => hall z (by simp [hyx ▸ hz])
        · exact hsteps y hy (by simpa using ⟨hnot, hyx⟩)

theorem nodup_run [LawfulBEq α] (hseen : seen.Nodup) : (run next fuel todo seen).Nodup := by
  fun_induction run next fuel todo seen with
  | case1 | case2 => exact hseen
  | case3 _ _ _ _ _ ih => exact ih hseen
  | case4 _ _ _ _ hx ih => exact ih (by grind)

/-! Steps that only lead on below a bound are paid for by their number. -/

section Bounded

variable {next : Nat → List Nat} {bound : Nat} {start : List Nat}

/-- The number of steps from those that are not `seen`. -/
def stepsLeft (next : Nat → List Nat) (bound : Nat) (seen : List Nat) : Nat :=
  ∑ x ∈ Finset.range bound \ seen.toFinset, (next x).length

theorem stepsLeft_append (hnext : ∀ x, bound ≤ x → next x = []) (seen : List Nat) (x : Nat) (hx : x ∉ seen) :
    (next x).length + stepsLeft next bound (seen ++ [x]) ≤ stepsLeft next bound seen := by
  have hrest : Finset.range bound \ (seen ++ [x]).toFinset = (Finset.range bound \ seen.toFinset).erase x := by
    ext y
    simp
    tauto
  rw [stepsLeft, hrest]
  by_cases hbound : x < bound
  · exact (Finset.add_sum_erase _ (fun x => (next x).length) (by simp [hbound, hx])).le
  · rw [hnext x (not_lt.1 hbound), length_nil, Nat.zero_add]
    exact Finset.sum_le_sum_of_subset (Finset.erase_subset ..)

variable (hnext : ∀ x, bound ≤ x → next x = []) (hfuel : start.length + stepsLeft next bound [] ≤ fuel)

include hnext hfuel

theorem mem_reach : y ∈ reach next fuel start ↔ ∃ x ∈ start, ReflTransGen (fun x y => y ∈ next x) x y := by
  constructor
  · exact of_mem_run (P := fun y => ∃ x ∈ start, ReflTransGen (fun x y => y ∈ next x) x y)
      (fun x ⟨z, hz, hx⟩ y hy => ⟨z, hz, hx.tail hy⟩) (by simp) (fun x hx => ⟨x, hx, .refl⟩) y
  · rintro ⟨x, hx, h⟩
    obtain ⟨-, hall, hsteps⟩ := run_settles (stepsLeft_append hnext) hfuel
    induction h with
    | refl => exact hall x (.inr hx)
    | tail _ hy ih => exact hsteps _ ih (by simp) _ hy

theorem reach_add (more : Nat) : reach next (fuel + more) start = reach next fuel start :=
  (run_settles (stepsLeft_append hnext) hfuel).1 more

end Bounded

end Search

namespace Analysis

variable {a : Analysis}

/-! ## Functions that calls lead to -/

/-- A function calls another one, in the contract or in a library, or has it as a modifier. -/
def Calls (a : Analysis) (f g : FunctionId) : Prop :=
  g ∈ (a.functionCode f).callees ∨ ∃ m ∈ (a.program.function f).modifiers, m.target = .func g

/-- A function has a call of another one. -/
def IsCaller (a : Analysis) (g f : FunctionId) : Prop := ∃ c ∈ (a.functionCode f).callers, c.function = g

theorem mem_directCallees : g ∈ a.directCallees f ↔ a.Calls f g := by
  simp only [directCallees, Calls]
  grind

theorem function_eq_default (hf : a.functionBound ≤ f) : a.program.function f = default := by
  have htable : a.program.functionTable.size ≤ f := (le_max_left ..).trans hf
  simp [Program.function, htable.not_gt]

theorem functionCode_eq_default (hf : a.functionBound ≤ f) : a.functionCode f = default := by
  have hcode : a.code.size ≤ f := (le_max_right ..).trans hf
  rw [functionCode, Array.getD, dif_neg hcode.not_gt]
  rfl

theorem directCallees_eq_nil (hf : a.functionBound ≤ f) : a.directCallees f = [] := by
  rw [directCallees, function_eq_default hf, functionCode_eq_default hf]
  rfl

theorem callBound_eq (next : FunctionId → List FunctionId) :
    a.callBound next = Search.stepsLeft next a.functionBound [] + 2 := by
  rw [callBound, length_flatMap]
  rfl

theorem fuel_withCallees : [f].length + Search.stepsLeft a.directCallees a.functionBound [] ≤ a.callBound a.directCallees := by
  rw [callBound_eq, length_singleton]
  omega

theorem mem_withCallees : g ∈ a.withCallees f ↔ ReflTransGen a.Calls f g := by
  rw [withCallees, Search.mem_reach (fun _ => directCallees_eq_nil) fuel_withCallees]
  simp [mem_directCallees]

theorem mem_directCallers : g ∈ a.directCallers f ↔ a.IsCaller g f := by
  simp [directCallers, IsCaller]

theorem directCallers_eq_nil (hf : a.functionBound ≤ f) : a.directCallers f = [] := by
  rw [directCallers, functionCode_eq_default hf]
  rfl

theorem fuel_allCallers : (a.directCallers f).length + Search.stepsLeft a.directCallers a.functionBound [] ≤
    a.callBound a.directCallers + (a.directCallers f).length := by
  rw [callBound_eq]
  omega

theorem mem_allCallers : g ∈ a.allCallers f ↔ TransGen a.IsCaller g f := by
  rw [allCallers, Search.mem_reach (fun _ => directCallers_eq_nil) fuel_allCallers]
  simp only [mem_directCallers]
  -- The search goes from a function to its callers, so its ways are read backwards.
  have hswap (h : FunctionId) : ReflTransGen (fun x y => a.IsCaller y x) h g ↔ ReflTransGen a.IsCaller g h :=
    reflTransGen_swap (r := a.IsCaller)
  simp only [hswap]
  exact ⟨fun ⟨h, hh, hg⟩ => .tail' hg hh, fun h => by simpa [and_comm] using TransGen.tail'_iff.1 h⟩

/-- What can be asked for over all called functions. -/
inductive Gathered where
  | operations | expressions | other
  deriving DecidableEq

def expressionsOf (a : Analysis) (f : FunctionId) : List Expr :=
  (a.nodeIds f).filterMap fun n => ((a.flow f).node n).expr

/-- Operations and expressions are added to what is kept, all else is copied before. -/
def askFor (a : Analysis) (kept : Gathered → Table FunctionId (List FunctionId)) (q : Gathered × FunctionId) (k : Gathered) :
    Table FunctionId (List FunctionId) :=
  if k = q.1 ∧ k ≠ .other then a.widenOne (kept k) q.2 else kept k

/-- Of the functions that were asked for, those are kept that calls lead to. -/
structure Keeps (a : Analysis) (kept : Table FunctionId (List FunctionId)) (asked : List FunctionId) : Prop where
  asked : ∀ {f}, Table.find? f kept = none ↔ f ∉ asked
  nodup : ∀ {f gs}, Table.find? f kept = some gs → gs.Nodup
  called : ∀ {f gs g}, Table.find? f kept = some gs → (g ∈ gs ↔ ReflTransGen a.Calls f g)

namespace Keeps

variable {asked : List FunctionId}

variable (h : a.Keeps kept asked)

include h

theorem mem_keptFor (hg : g ∈ keptFor kept f) : ReflTransGen a.Calls f g := by
  unfold keptFor at hg
  cases hf : Table.find? f kept with
  | none =>
    obtain rfl : g = f := by simpa [hf] using hg
    exact .refl
  | some gs => exact (h.called hf).1 (by simpa [hf] using hg)

theorem self_mem : f ∈ keptFor kept f := by
  unfold keptFor
  cases hf : Table.find? f kept with
  | none => simp
  | some gs => simpa using (h.called hf).2 .refl

theorem widenOne (k : FunctionId) : a.Keeps (a.widenOne kept k) (asked ++ [k]) := by
  unfold Analysis.widenOne
  split
  next hk =>
    have hmem : k ∈ asked := by
      by_contra hnot
      simp [Table.has, h.asked.2 hnot] at hk
    refine ⟨fun {f} => ?_, h.nodup, h.called⟩
    rw [h.asked]
    grind
  next hk =>
    refine ⟨fun {f} => ?_, fun {f gs} => ?_, fun {f gs g} => ?_⟩ <;> rw [Table.find?_insert]
    · have := h.asked (f := f)
      split <;> grind
    · split
      · rintro ⟨⟩
        exact nodup_eraseDups _
      · exact h.nodup
    · split
      next hf =>
        rintro ⟨⟩
        subst hf
        simp only [mem_eraseDups, mem_flatMap, mem_withCallees]
        exact ⟨fun ⟨_, hway, hg⟩ => hway.trans (h.mem_keptFor hg), fun hway => ⟨g, hway, h.self_mem⟩⟩
      next => exact h.called

theorem foldl (fs : List FunctionId) : a.Keeps (fs.foldl a.widenOne kept) (asked ++ fs) := by
  induction fs generalizing kept asked with
  | nil => simpa using h
  | cons f fs ih => simpa using ih (h.widenOne f)

/-- What is kept for a function are its own values unless it was asked for and calls lead to others. -/
theorem flatMap_keptFor (own : FunctionId → List α) :
    (keptFor kept f).flatMap own = own f ↔ f ∉ asked ∨ ∀ g, ReflTransGen a.Calls f g → g ≠ f → own g = [] := by
  unfold keptFor
  cases hf : Table.find? f kept with
  | none => simp [h.asked.1 hf]
  | some gs =>
    have hasked : f ∈ asked := by
      by_contra hnot
      simp [h.asked.2 hnot] at hf
    obtain ⟨before, after, rfl⟩ := append_of_mem ((h.called hf).2 .refl)
    have hmem := fun g => h.called (g := g) hf
    have hnodup := h.nodup hf
    simp only [← hmem, Option.getD_some, flatMap_append, flatMap_cons, hasked, not_true_eq_false, false_or]
    constructor
    · intro heq g hg hne
      have hlen := congrArg length heq
      simp only [length_append] at hlen
      have hbefore : before.flatMap own = [] := length_eq_zero_iff.1 (by omega)
      have hafter : after.flatMap own = [] := length_eq_zero_iff.1 (by omega)
      rw [flatMap_eq_nil_iff] at hbefore hafter
      rcases mem_append.1 hg with hg | hg
      · exact hbefore g hg
      · exact hafter g ((mem_cons.1 hg).resolve_left hne)
    · intro hnil
      have hbefore : before.flatMap own = [] := flatMap_eq_nil_iff.2 fun g hg => hnil g (by simp [hg]) (by grind)
      have hafter : after.flatMap own = [] := flatMap_eq_nil_iff.2 fun g hg => hnil g (by simp [hg]) (by grind)
      simp [hbefore, hafter]

end Keeps

theorem foldl_askFor {qs : List (Gathered × FunctionId)} (kept : Gathered → Table FunctionId (List FunctionId))
    (hk : k ≠ .other) :
    qs.foldl a.askFor kept k = ((qs.filter (·.1 = k)).map (·.2)).foldl a.widenOne (kept k) := by
  induction qs generalizing kept with
  | nil => rfl
  | cons q qs ih =>
    rw [foldl_cons, ih, askFor]
    by_cases hq : q.1 = k
    · simp [hq, hk]
    · simp [hq, Ne.symm hq]

theorem keeps_askFor {qs : List (Gathered × FunctionId)} (hk : k ≠ .other) :
    a.Keeps (qs.foldl a.askFor (fun _ => []) k) ((qs.filter (·.1 = k)).map (·.2)) := by
  rw [foldl_askFor _ hk]
  have hnone : a.Keeps [] [] := ⟨by simp [Table.find?], by simp [Table.find?], by simp [Table.find?]⟩
  simpa using hnone.foldl ((qs.filter (·.1 = k)).map (·.2))

/-- Whatever was asked for over called functions, a function has its own operations and expressions, unless just these were
asked for it and calls lead from it to functions with such values. -/
theorem own_values_kept_iff (qs : List (Gathered × FunctionId)) :
    let kept := qs.foldl a.askFor fun _ => []
    ({ a with memo := { a.memo with widened := kept .operations } }.operationsOf f = a.placedInstrs f ↔
      (.operations, f) ∉ qs ∨ ∀ g, ReflTransGen a.Calls f g → g ≠ f → a.placedInstrs g = []) ∧
    ((keptFor (kept .expressions) f).flatMap a.expressionsOf = a.expressionsOf f ↔
      (.expressions, f) ∉ qs ∨ ∀ g, ReflTransGen a.Calls f g → g ≠ f → a.expressionsOf g = []) := by
  have hasked (k : Gathered) : f ∈ (qs.filter (·.1 = k)).map (·.2) ↔ (k, f) ∈ qs := by
    simp
  rw [← hasked, ← hasked]
  exact ⟨(keeps_askFor (by decide)).flatMap_keptFor a.placedInstrs,
    (keeps_askFor (by decide)).flatMap_keptFor a.expressionsOf⟩

/-- A function that calls another one, which has the only operation. -/
def operationBelow : Analysis where
  program := { functionTable := #[{ place := .inContract 0 0 }, { place := .inContract 0 1, flow := { order := [0] } }] }
  code := #[{ callees := [1] }, { nodes := #[{ instrs := [{ op := .returns [] }] }] }]

/-- The operation is taken for the caller's own once it was asked for. -/
theorem operationBelow_grows :
    (operationBelow.operationsOf 0).length = 0 ∧ ((operationBelow.widen [0]).operationsOf 0).length = 1 := by
  decide

/-! ## Variables of the nodes -/

abbrev text (a : Analysis) (v : Value) : String := a.program.valueText a.store v

/-- One step through values in the order of their names. -/
def addNamed (seen : List (String × Value)) (x : String × Value) : List (String × Value) :=
  match seen with
  | y :: _ => if x.1 == y.1 then seen else x :: seen
  | [] => [x]

/-- Of values in the order of their names, one for each name is taken up. -/
structure Takes (taken xs : List (String × Value)) : Prop where
  mem : ∀ y ∈ taken, y ∈ xs
  named : ∀ x ∈ xs, ∃ y ∈ taken, y.1 = x.1
  ordered : taken.Pairwise fun y z => z.1 < y.1
  head : ∀ y ∈ taken.head?, ∀ x ∈ xs, x.1 ≤ y.1

theorem Takes.add (h : Takes taken xs) (hx : ∀ y ∈ xs, y.1 ≤ x.1) : Takes (addNamed taken x) (xs ++ [x]) := by
  obtain ⟨hmem, hnamed, hordered, hhead⟩ := h
  cases taken with
  | nil =>
    obtain rfl : xs = [] := eq_nil_iff_forall_not_mem.2 fun y hy => by simpa using hnamed y hy
    constructor <;> simp [addNamed]
  | cons y taken =>
    have hy : ∀ z ∈ xs, z.1 ≤ y.1 := hhead y (by simp)
    by_cases hxy : x.1 = y.1
    · rw [addNamed, if_pos (by simpa using hxy)]
      exact ⟨by grind, by grind, hordered, by grind⟩
    · have hlt : y.1 < x.1 := lt_of_le_of_ne (hx y (hmem y (by simp))) (Ne.symm hxy)
      rw [addNamed, if_neg (by simpa using hxy)]
      refine ⟨by grind, by grind, pairwise_cons.2 ⟨fun z hz => ?_, hordered⟩, by grind⟩
      exact (hy z (hmem z hz)).trans_lt hlt

theorem Takes.foldl (h : Takes taken xs)
    (hsorted : (xs ++ ys).Pairwise fun x y => x.1 ≤ y.1) : Takes (ys.foldl addNamed taken) (xs ++ ys) := by
  induction ys generalizing taken xs with
  | nil => simpa using h
  | cons y ys ih =>
    rw [append_cons] at hsorted ⊢
    exact ih (h.add fun x hx => (pairwise_append.1 (pairwise_append.1 hsorted).1).2.2 x hx y (by simp)) hsorted

theorem eq_of_same {v w : Value} (hv : v.isConstant = false) (h : v.same w = true) : w = v := by
  unfold Value.same at h
  split at h <;> simp_all [Value.isConstant]

theorem mem_foldl_addNew (v : Value) (vs seen : List Value) :
    (v ∈ vs.foldl (fun seen v => Value.addNew v seen) seen → v ∈ seen ∨ v ∈ vs) ∧
      (v.isConstant = false → v ∈ seen ∨ v ∈ vs → v ∈ vs.foldl (fun seen v => Value.addNew v seen) seen) := by
  induction vs generalizing seen with
  | nil => simp
  | cons w vs ih =>
    obtain ⟨hmem, hkeep⟩ := ih (Value.addNew w seen)
    have hnew : v ∈ seen ∨ v = w → v.isConstant = false → v ∈ Value.addNew w seen := by
      rintro (hv | rfl) hconstant <;> unfold Value.addNew <;> split
      · exact hv
      · exact mem_append_left _ hv
      next hany =>
        obtain ⟨x, hx, hsame⟩ := any_eq_true.1 hany
        exact eq_of_same hconstant hsame ▸ hx
      · simp
    grind [Value.addNew]

/-- What is gathered for a function is what its nodes have, but only one value for each name. -/
structure Collects (a : Analysis) (f : FunctionId) (use : NodeCode → List Value) (vs : List Value) : Prop where
  mem : ∀ v ∈ vs, ∃ n ∈ a.nodeIds f, v ∈ use (a.nodeCode f n)
  named : ∀ n ∈ a.nodeIds f, ∀ t, .target t ∈ use (a.nodeCode f n) → ∃ v ∈ vs, a.text v = a.text (.target t)
  apart : ∀ v ∈ vs, ∀ w ∈ vs, a.text v = a.text w → v = w

theorem Takes.collects (h : Takes taken xs) (hxs : ∀ x ∈ xs, x.1 = a.text x.2 ∧ x.2 ∈ a.overNodes f use)
    (hall : ∀ t, .target t ∈ a.overNodes f use → (a.text (.target t), .target t) ∈ xs) :
    a.Collects f use (taken.reverse.map (·.2)) := by
  have hnames : (taken.map (·.1)).Nodup := pairwise_map.2 (h.ordered.imp fun hlt => hlt.ne')
  have hmem (v : Value) : v ∈ taken.reverse.map (·.2) ↔ (a.text v, v) ∈ taken := by
    simp only [mem_reverse, mem_map]
    refine ⟨?_, fun hv => ⟨_, hv, rfl⟩⟩
    rintro ⟨y, hy, rfl⟩
    exact (hxs y (h.mem y hy)).1 ▸ hy
  refine ⟨fun v hv => ?_, fun n hn t ht => ?_, fun v hv w hw hvw => ?_⟩
  · exact mem_flatMap.1 (hxs _ (h.mem _ ((hmem v).1 hv))).2
  · obtain ⟨y, hy, hname⟩ := h.named _ (hall t (mem_flatMap.2 ⟨n, hn, ht⟩))
    exact ⟨y.2, by simpa using ⟨y.1, hy⟩, (hxs y (h.mem y hy)).1 ▸ hname⟩
  · exact congrArg (·.2) (inj_on_of_nodup_map hnames ((hmem v).1 hv) ((hmem w).1 hw) hvw)

/-- The values `vs` are those of the nodes, perhaps without values that are the same. -/
theorem oneForEachName_collects (hmem : ∀ v ∈ vs, v ∈ a.overNodes f use)
    (hall : ∀ t, .target t ∈ a.overNodes f use → .target t ∈ vs) : a.Collects f use (a.oneForEachName vs) := by
  have hsorted : ((vs.map fun v => (a.text v, v)).mergeSort fun x y => decide (x.1 ≤ y.1)).Pairwise fun x y => x.1 ≤ y.1 :=
    (pairwise_mergeSort (fun x y z hxy hyz => by simpa using le_trans (of_decide_eq_true hxy) (of_decide_eq_true hyz))
      (fun x y => by simpa using le_total x.1 y.1) _).imp of_decide_eq_true
  have hnone : Takes [] [] := by constructor <;> simp
  exact (hnone.foldl hsorted).collects (by simpa using fun v hv => hmem v hv) (by simpa using hall)

/-- A variable is called like no other value that the nodes have. -/
def AloneIn (a : Analysis) (f : FunctionId) (use : NodeCode → List Value) (x : VariableId) : Prop :=
  ∀ n ∈ a.nodeIds f, ∀ v ∈ use (a.nodeCode f n), a.text v = a.text (.var x) → v = .var x

theorem Collects.mem_statesIn (h : a.Collects f use vs)
    (hx : a.program.isStateVariable x) (halone : a.AloneIn f use x) :
    x ∈ a.statesIn vs ↔ ∃ n ∈ a.nodeIds f, .var x ∈ use (a.nodeCode f n) := by
  have hmem : x ∈ a.statesIn vs ↔ .var x ∈ vs := by
    simp only [statesIn]
    grind
  rw [hmem]
  refine ⟨h.mem _, fun ⟨n, hn, hv⟩ => ?_⟩
  obtain ⟨v, hv, hname⟩ := h.named n hn _ hv
  obtain ⟨m, hm, hvm⟩ := h.mem v hv
  exact halone m hm v hvm hname ▸ hv

theorem variablesWritten_collects (hf : (a.functionCode f).usageKnown = true) :
    a.Collects f (·.written) (a.variablesWritten f) := by
  rw [variablesWritten, if_pos hf]
  refine oneForEachName_collects (fun v hv => ?_) fun t ht => (mem_foldl_addNew _ _ []).2 rfl (.inr ht)
  simpa using (mem_foldl_addNew v _ []).1 hv

/-- The variables of a function are those of its nodes, but only one for each name, and a state variable is missing only if
another value is called like it. -/
theorem variables_gathered (hf : (a.functionCode f).usageKnown = true) :
    a.Collects f (·.read) (a.variablesRead f) ∧ a.Collects f (·.written) (a.variablesWritten f) ∧
    ∀ x, a.program.isStateVariable x →
      (a.AloneIn f (·.read) x → (x ∈ a.stateRead f ↔ ∃ n ∈ a.nodeIds f, .var x ∈ (a.nodeCode f n).read)) ∧
      (a.AloneIn f (·.written) x → (x ∈ a.stateWritten f ↔ ∃ n ∈ a.nodeIds f, .var x ∈ (a.nodeCode f n).written)) := by
  have hread : a.Collects f (·.read) (a.variablesRead f) := by
    rw [variablesRead, if_pos hf]
    exact oneForEachName_collects (fun _ => id) fun _ => id
  have hwritten := variablesWritten_collects hf
  exact ⟨hread, hwritten, fun x hx => ⟨hread.mem_statesIn hx, hwritten.mem_statesIn hx⟩⟩

/-- The node of a function reads a local variable and a state variable of one name, and writes the latter. -/
def shadowed : Analysis where
  program := { variableTable := #[{ kind := .state 0, name := "x" }, { kind := .inFunction (some 0) none, name := "x" }],
               functionTable := #[{ place := .inContract 0 0, flow := { order := [0] } }] }
  code := #[{ usageKnown := true, nodes := #[{ read := [.var 1, .var 0], written := [.var 0] }] }]

theorem shadowed_writes : shadowed.Collects 0 (·.read) (shadowed.variablesRead 0) ∧ 0 ∈ shadowed.stateWritten 0 := by
  obtain ⟨hread, -, hstate⟩ := variables_gathered (a := shadowed) (f := 0) rfl
  have halone : shadowed.AloneIn 0 (·.written) 0 := by
    intro n hn v hv _
    obtain rfl : n = 0 := mem_singleton.1 hn
    exact mem_singleton.1 hv
  exact ⟨hread, ((hstate 0 rfl).2 halone).2 ⟨0, by decide, mem_singleton.2 rfl⟩⟩

theorem shadowed_read_missing : shadowed.statesIn (shadowed.nodeCode 0 0).read = [0] ∧ shadowed.stateRead 0 = [] := by
  exact ⟨by decide, by cbv⟩

end Analysis

end ContractAudit
