import ContractAudit.Proofs.Checks
import Mathlib.Logic.Function.Iterate

/-! # Dominance is found

The sets are those of the nodes that no way can go around, immediate dominators make a tree of all nodes that can be reached,
the frontiers are where dominance ends, and along both all nodes are listed after their dominators. An `if` has its end in its
frontier, too, if it leads there by itself.
-/

namespace ContractAudit.Flow

variable {g : Flow}

/-! ## Ways -/

/-- The nodes that are passed from one node to another, both of them included. -/
inductive Way (g : Flow) (e : NodeId) : List NodeId → NodeId → Prop
  | start : Way g e [e] e
  | step {ns : List NodeId} {m n : NodeId} : Way g e ns m → n ∈ g.sons m → Way g e (ns ++ [n]) n

theorem Way.avoids (h : g.Way e ns n) (hd : d ∉ ns) : g.Avoids e d n := by
  induction h with
  | start =>
    rw [List.mem_singleton] at hd
    exact .entry (Ne.symm hd)
  | step _ hs ih =>
    simp only [List.mem_append, List.mem_singleton, not_or] at hd
    exact .step (ih hd.1) hs (Ne.symm hd.2)

theorem Avoids.exists_way (h : g.Avoids e d n) : ∃ ns, g.Way e ns n ∧ d ∉ ns := by
  induction h with
  | entry hne => exact ⟨[e], .start, by simpa using hne.symm⟩
  | @step m n _ hs hne ih =>
    obtain ⟨ns, hns, hd⟩ := ih
    refine ⟨ns ++ [n], .step hns hs, ?_⟩
    simp [hd, hne.symm]

theorem dominates_iff_forall_way (hn : g.Reaches e n) : g.Dominates e d n ↔ ∀ ns, g.Way e ns n → d ∈ ns := by
  constructor
  · intro h ns hns
    by_contra hd
    exact h.2 (hns.avoids hd)
  · intro h
    refine ⟨hn, fun ha => ?_⟩
    obtain ⟨ns, hns, hd⟩ := ha.exists_way
    exact hd (h ns hns)

/-! ## Sets of dominators -/

/-- The sweeps come to an end. What they leave on a node that can be reached are the nodes on all ways to it, and on any
other node the node itself. -/
theorem dominatorSets_exact (hg : g.Regular e) :
    (∃ k, g.dominatorSweep^[k] g.allDominators = g.dominatorSets ∧
      g.dominatorSweep g.dominatorSets = g.dominatorSets) ∧
    (∀ n, g.Reaches e n → ∀ d, d ∈ g.dominatorSets.getD n [] ↔ ∀ ns, g.Way e ns n → d ∈ ns) ∧
    ∀ n ∈ g.order, ¬ g.Reaches e n → g.dominatorSets.getD n [] = [n] := by
  refine ⟨?_, ?_, fun n hn hr => dominatorSets_of_not_reaches hg hn hr⟩
  · obtain ⟨-, ⟨k, hk⟩, hfix⟩ := dominatorSets_stable hg (fun sets => ∃ k, g.dominatorSweep^[k] g.allDominators = sets)
      (fun _ ⟨k, hk⟩ => ⟨k + 1, by rw [Function.iterate_succ_apply', hk]⟩) ⟨0, rfl⟩
    exact ⟨k, hk, hfix⟩
  · intro n hn d
    rw [mem_dominatorSets hg hn, dominates_iff_forall_way hn]

/-- A loop around an `if` without an `else`, then an `if` with nothing in it. Code that cannot be reached leads to the end
of the loop. -/
def branchInLoop : Flow :=
  .ofLines [
    .of .entryPoint [1] [],
    .of .startLoop [2] [0],
    .of .loopBranch [3, 6] [1, 5],
    .of .branch [4, 5] [2],
    .of .expression [5] [3],
    .of .endIf [2] [4, 3],
    .of .endLoop [8] [2, 7],
    .of .expression [6] [],
    .of .branch [9, 9] [6],
    .of .endIf [] [8, 8]]

theorem branchInLoop_regular : branchInLoop.Regular 0 := Forward.regular (by decide)

/-- All ways behind the loop pass its condition, but not its body. -/
theorem branchInLoop_ways : branchInLoop.Regular 0 ∧
    (∀ ns, branchInLoop.Way 0 ns 9 → 2 ∈ ns) ∧ ¬ ∀ ns, branchInLoop.Way 0 ns 9 → 3 ∈ ns := by
  have hreach : branchInLoop.Reaches 0 9 := (branchInLoop_regular.marked 9 (by decide)).1 rfl
  have hsets := (dominatorSets_exact branchInLoop_regular).2.1 9 hreach
  exact ⟨branchInLoop_regular, (hsets 2).1 (by decide +kernel), fun h => absurd ((hsets 3).2 h) (by decide +kernel)⟩

/-! ## The tree of immediate dominators -/

/-- The members of a tree are what comes from its root. The root comes from nowhere, and any other from one place. -/
structure IsTree (next : NodeId → List NodeId) (root : NodeId) (member : NodeId → Prop) : Prop where
  root_first : ∀ a, root ∉ next a
  one_parent : ∀ a b n, n ∈ next a → n ∈ next b → a = b
  inside : ∀ a n, n ∈ next a → member a
  spans : ∀ n, Relation.ReflTransGen (fun a b => b ∈ next a) root n ↔ member n

theorem IsDominance.spans (hg : g.Regular e) (hD : g.IsDominance e D) (hn : g.Reaches e n) :
    Relation.ReflTransGen (fun a b => b ∈ D.successors g.order a) e n := by
  induction hk : g.depth n using Nat.strongRecOn generalizing n with
  | _ k ih =>
    by_cases hne : n = e
    · rw [hne]
    · obtain ⟨d, hd⟩ := exists_immediate hg hn hne
      have hlt : g.depth d < k := hk ▸ depth_lt hg hd.1
      exact (ih (g.depth d) hlt hd.1.1.reaches rfl).tail ((hD.mem_successors hg).2 hd)

theorem IsDominance.isTree (hg : g.Regular e) (hD : g.IsDominance e D) : IsTree (D.successors g.order) e (g.Reaches e) where
  root_first := fun a h => ((hD.mem_successors hg).1 h).ne_entry rfl
  one_parent := fun a b n ha hb => ((hD.mem_successors hg).1 ha).unique ((hD.mem_successors hg).1 hb)
  inside := fun a n h => ((hD.mem_successors hg).1 h).1.1.reaches
  spans := by
    refine fun n => ⟨fun h => ?_, hD.spans hg⟩
    induction h with
    | refl => exact .entry
    | tail _ hs _ => exact ((hD.mem_successors hg).1 hs).reaches

/-- No choice of a closest dominator fails, in whatever order the dominators come. A node that can be reached gets the
strict dominator that all others dominate, the entry and nodes that cannot be reached get none, and what is dominated
immediately makes a tree of the nodes that can be reached. -/
theorem immediate_dominators_tree (hg : g.Regular e) : ∃ D, g.dominance = .ok D ∧
    (∀ n ∈ g.order, ∀ cs, cs.Perm ((g.dominatorSets.getD n []).filter (· != n)) →
      closestOf g.dominatorSets cs = .ok (D.immediateOf n)) ∧
    (∀ n, g.Reaches e n → n ≠ e → ∃ d, D.immediateOf n = some d ∧ g.StrictlyDominates e d n ∧
      ∀ d', g.StrictlyDominates e d' n → g.Dominates e d' d) ∧
    (∀ n, n = e ∨ ¬ g.Reaches e n → D.immediateOf n = none) ∧
    IsTree (D.successors g.order) e (g.Reaches e) := by
  obtain ⟨D, hD, hdom⟩ := dominance_spec hg
  have hnone : ∀ n, n = e ∨ ¬ g.Reaches e n → D.immediateOf n = none := by
    intro n hn
    refine Option.eq_none_iff_forall_ne_some.2 fun d hd => ?_
    have himm := (hdom.immediate n d).1 hd
    rcases hn with rfl | hn
    · exact himm.ne_entry rfl
    · exact hn himm.reaches
  refine ⟨D, hD, fun n hn cs hcs => ?_, fun n hn hne => ?_, hnone, hdom.isTree hg⟩
  · by_cases h : n = e ∨ ¬ g.Reaches e n
    · have hothers : g.others n = [] := by
        rcases h with rfl | h
        · exact others_entry hg
        · exact others_of_not_reaches hg hn h
      have hnil : cs = [] := List.perm_nil.1 (hothers ▸ hcs)
      rw [hnone n h, hnil]
      rfl
    · rw [not_or, not_not] at h
      obtain ⟨d, hd⟩ := exists_immediate hg h.2 h.1
      rw [(hdom.immediate n d).2 hd]
      exact closestOf_some hg hd hcs
  · obtain ⟨d, hd⟩ := exists_immediate hg hn hne
    exact ⟨d, (hdom.immediate n d).2 hd, hd.1, hd.2⟩

/-- The end of the `if` without an `else` hangs below the `if`, and the code that cannot be reached nowhere. -/
theorem branchInLoop_tree : branchInLoop.Regular 0 ∧ ∃ D, branchInLoop.dominance = .ok D ∧
    D.immediateOf 5 = some 3 ∧ D.immediateOf 7 = none ∧
    IsTree (D.successors branchInLoop.order) 0 (branchInLoop.Reaches 0) := by
  obtain ⟨D, hD, hclosest, -, hnone, htree⟩ := immediate_dominators_tree branchInLoop_regular
  have hfive : (closestOf branchInLoop.dominatorSets [3, 1, 0, 2]).toOption = some (some 3) := by decide +kernel
  rw [hclosest 5 (by decide) [3, 1, 0, 2] (by decide +kernel)] at hfive
  have hseven : ¬ branchInLoop.Reaches 0 7 := fun h =>
    absurd ((branchInLoop_regular.marked 7 (by decide)).2 h) (by decide)
  exact ⟨branchInLoop_regular, D, hD, Option.some.inj hfive, hnone 7 (.inr hseven), htree⟩

/-! ## Frontiers -/

/-- No climb fails or goes on for ever. In the frontier of a node are exactly the nodes with a father that it dominates and
that it does not dominate strictly, and the end of an `if` that the `if` leads to and dominates immediately. -/
theorem frontier_exact (hg : g.Regular e) : ∃ D, g.dominance = .ok D ∧ ∀ q n, n ∈ D.frontierOf q ↔
    (∃ p, g.Reaches e p ∧ n ∈ g.sons p ∧ g.Dominates e q p ∧ ¬ g.StrictlyDominates e q n) ∨
    g.kind q = .branch ∧ g.kind n = .endIf ∧ n ∈ g.sons q ∧ g.IsImmediate e q n ∧ 2 ≤ (g.fathers n).length := by
  obtain ⟨D, hD, hdom⟩ := dominance_spec hg
  refine ⟨D, hD, fun q n => ?_⟩
  rw [hdom.frontier q n]
  refine or_congr_right ⟨?_, ?_⟩
  · rintro ⟨himm, hson, hbranch, hend, htwo⟩
    exact ⟨hbranch, hend, hson, himm, htwo⟩
  · rintro ⟨hbranch, hend, hson, himm, htwo⟩
    exact ⟨himm, hson, hbranch, hend, htwo⟩

/-- The condition of the loop is in its own frontier. The end of an `if` that may be skipped is in the frontier of the `if`,
although the `if` dominates it. -/
theorem branchInLoop_frontier : branchInLoop.Regular 0 ∧ ∃ D, branchInLoop.dominance = .ok D ∧
    2 ∈ D.frontierOf 2 ∧ 5 ∈ D.frontierOf 3 ∧ 9 ∈ D.frontierOf 8 ∧ 6 ∉ D.frontierOf 2 := by
  obtain ⟨D, hD, hfrontier⟩ := frontier_exact branchInLoop_regular
  have hreach : ∀ n ∈ branchInLoop.order, (branchInLoop.node n).reachable = true → branchInLoop.Reaches 0 n :=
    fun n hn => (branchInLoop_regular.marked n hn).1
  obtain ⟨D', hD', hdom⟩ := dominance_spec branchInLoop_regular
  have himm : branchInLoop.dominance.toOption.map (fun D => (D.immediateOf 5, D.immediateOf 9)) =
      some (some 3, some 8) := by decide +kernel
  rw [hD'] at himm
  obtain ⟨hfive, hnine⟩ := Prod.mk.inj (Option.some.inj himm)
  have hloop : branchInLoop.Dominates 0 2 5 :=
    (mem_dominatorSets branchInLoop_regular (hreach 5 (by decide) rfl)).1 (by decide +kernel)
  have hend : branchInLoop.StrictlyDominates 0 2 6 :=
    ⟨(mem_dominatorSets branchInLoop_regular (hreach 6 (by decide) rfl)).1 (by decide +kernel), by decide⟩
  refine ⟨branchInLoop_regular, D, hD, ?_, ?_, ?_, ?_⟩
  · exact (hfrontier 2 2).2 (.inl ⟨5, hloop.1, by decide, hloop, fun h => h.2 rfl⟩)
  · exact (hfrontier 3 5).2 (.inr ⟨rfl, rfl, by decide, (hdom.immediate 5 3).1 hfive, by decide⟩)
  · exact (hfrontier 8 9).2 (.inr ⟨rfl, rfl, by decide, (hdom.immediate 9 8).1 hnine, by decide⟩)
  · intro h
    rcases (hfrontier 2 6).1 h with ⟨p, -, -, -, hnot⟩ | ⟨hkind, -⟩
    · exact hnot hend
    · exact absurd hkind (by decide)

/-! ## The order along dominance -/

section

open List

/-- Each node comes once, after its strict dominators. -/
inductive Sorted (g : Flow) (e : NodeId) : List NodeId → Prop
  | nil : Sorted g e []
  | snoc : Sorted g e l → n ∉ l → g.Reaches e n → (∀ d, g.StrictlyDominates e d n → d ∈ l) → Sorted g e (l ++ [n])

namespace Sorted

variable (h : g.Sorted e l)
include h

theorem nodup : l.Nodup := by
  induction h with
  | nil => exact .nil
  | snoc _ hn _ _ ih => exact nodup_append.2 ⟨ih, by simp, by simp only [mem_singleton]; grind⟩

theorem reaches (hn : n ∈ l) : g.Reaches e n := by
  induction h with
  | nil => cases hn
  | snoc _ _ hr _ ih =>
    rcases mem_append.1 hn with hn | hn
    · exact ih hn
    · exact mem_singleton.1 hn ▸ hr

theorem before (hn : n ∈ l) (hd : g.StrictlyDominates e d n) : [d, n].Sublist l := by
  induction h with
  | nil => cases hn
  | snoc _ _ _ hall ih =>
    rcases mem_append.1 hn with hn | hn
    · exact (ih hn).trans (sublist_append_left ..)
    · rw [mem_singleton] at hn
      subst hn
      exact (singleton_sublist.2 (hall d hd)).append (.refl [n])

theorem length_le (hg : g.Regular e) : l.length ≤ g.order.length :=
  (h.nodup.subperm fun _ hn => hg.reaches_mem (h.reaches hn)).length_le

end Sorted

/-- A list goes on to one that has all that follows what is new in it. -/
structure Continues (g : Flow) (e : NodeId) (next : NodeId → List NodeId) (l l' : List NodeId) : Prop where
  sorted : g.Sorted e l'
  kept : ∀ n ∈ l, n ∈ l'
  closed : ∀ n ∈ l', n ∉ l → ∀ m ∈ next n, m ∈ l'

variable {next : NodeId → List NodeId} {ns : List NodeId}

theorem Continues.trans (h : Continues g e next l l') (h' : Continues g e next l' l'') : Continues g e next l l'' where
  sorted := h'.sorted
  kept n hn := h'.kept n (h.kept n hn)
  closed n hn hnl m hm := by
    by_cases hmem : n ∈ l'
    · exact h'.kept m (h.closed n hmem hnl m hm)
    · exact h'.closed n hn hmem m hm

theorem Continues.foldl {step : List NodeId → NodeId → List NodeId} (hl : g.Sorted e l)
    (hstep : ∀ m ∈ ns, ∀ l', g.Sorted e l' →
      (∀ n ∈ l, n ∈ l') → Continues g e next l' (step l' m) ∧ m ∈ step l' m) :
    Continues g e next l (ns.foldl step l) ∧ ∀ m ∈ ns, m ∈ ns.foldl step l := by
  induction ns generalizing l with
  | nil => exact ⟨⟨hl, fun _ h => h, fun _ h hno => (hno h).elim⟩, nofun⟩
  | cons m ns ih =>
    obtain ⟨hfirst, hm⟩ := hstep m mem_cons_self l hl fun _ h => h
    obtain ⟨hrest, hns⟩ := ih hfirst.sorted fun x hx l' hl' hsub =>
      hstep x (mem_cons_of_mem m hx) l' hl' fun n hn => hsub n (hfirst.kept n hn)
    exact ⟨hfirst.trans hrest, forall_mem_cons.2 ⟨hrest.kept m hm, hns⟩⟩

theorem listFrom_continues (hg : g.Regular e) (hD : g.IsDominance e D) (hl : g.Sorted e l) (hn : g.Reaches e n)
    (hd : ∀ d, g.StrictlyDominates e d n → d ∈ l) (hfuel : g.order.length < fuel + l.length) :
    Continues g e (D.onward g.order) l (listFrom (D.onward g.order) fuel l n) ∧
      n ∈ listFrom (D.onward g.order) fuel l n := by
  induction fuel generalizing l n with
  | zero => exact absurd (hl.length_le hg) (by omega)
  | succ fuel ih =>
    rw [listFrom]
    split
    · next hmem => exact ⟨⟨hl, fun _ h => h, fun _ h hno => (hno h).elim⟩, by simpa using hmem⟩
    next hmem =>
    have hsorted : g.Sorted e (l ++ [n]) := .snoc hl (by simpa using hmem) hn hd
    -- what follows needs no other dominators than the node and its own
    have hready : ∀ m ∈ D.onward g.order n, ∀ d, g.StrictlyDominates e d m → d ∈ l ++ [n] := by
      intro m hm d hdm
      rcases (hD.dominates_of_onward hg hm hdm).eq_or_strictly with rfl | hdn
      · simp
      · exact mem_append_left _ (hd d hdn)
    obtain ⟨hall, hin⟩ : Continues g e (D.onward g.order) (l ++ [n]) _ ∧ _ :=
      Continues.foldl hsorted fun m hm l' hl' hsub => by
        have hlen := (hsorted.nodup.subperm hsub).length_le
        rw [length_append, length_singleton] at hlen
        exact ih hl' (hD.reaches_of_onward hg hm) (fun d hdm => hsub d (hready m hm d hdm)) (by omega)
    refine ⟨⟨hall.sorted, fun m hm => hall.kept m (mem_append_left _ hm), fun x hx hxl => ?_⟩, hall.kept n (by simp)⟩
    by_cases hxn : x = n
    · exact hxn ▸ hin
    · exact hall.closed x hx (by simp [hxl, hxn])

theorem foldl_listFrom_of_last (hns : ns.Nodup) (hlast : ∀ n ∈ ns, n ∉ l → next n = []) :
    ns.foldl (listFrom next (fuel + 1)) l = l ++ ns.filter (· ∉ l) := by
  induction ns generalizing l with
  | nil => simp
  | cons n ns ih =>
    rw [nodup_cons] at hns
    rw [foldl_cons, listFrom]
    by_cases hn : n ∈ l
    · rw [if_pos (by simpa using hn), ih hns.2 fun m hm => hlast m (mem_cons_of_mem n hm)]
      simp [hn]
    · rw [if_neg (by simpa using hn), hlast n mem_cons_self hn, foldl_nil, ih hns.2 fun m hm hml =>
        hlast m (mem_cons_of_mem n hm) fun h => hml (mem_append_left _ h)]
      have hfilter : ns.filter (· ∉ l ++ [n]) = ns.filter (· ∉ l) := filter_congr fun m hm => by
        have hne : m ≠ n := fun h => hns.1 (h ▸ hm)
        simp [hne]
      rw [hfilter, filter_cons_of_pos (by simpa using hn), append_assoc, singleton_append]

/-- All nodes are listed once. A node that can be reached comes after its strict dominators, and before what cannot be
reached. -/
theorem byDominance_sorted (hg : g.Regular e) (he : g.entry = some e) : ∃ D, g.dominance = .ok D ∧
    (g.byDominance D).Perm g.order ∧
    (∀ n d, g.Reaches e n → g.StrictlyDominates e d n → [d, n].Sublist (g.byDominance D)) ∧
    ∀ n m, g.Reaches e n → m ∈ g.order → ¬ g.Reaches e m → [n, m].Sublist (g.byDominance D) := by
  obtain ⟨D, hrun, hD⟩ := dominance_spec hg
  obtain ⟨hwalk, hentry⟩ := listFrom_continues hg hD .nil .entry
    (fun d hd => (hd.ne_entry rfl).elim) (Nat.lt_succ_self _)
  generalize hl : listFrom (D.onward g.order) (g.order.length + 1) [] e = l at hwalk hentry
  have hmem : ∀ n, n ∈ l ↔ g.Reaches e n := by
    refine fun n => ⟨hwalk.sorted.reaches, fun hn => ?_⟩
    have hspan := hD.spans hg hn
    clear hn
    induction hspan with
    | refl => exact hentry
    | tail _ hs ih => exact hwalk.closed _ ih not_mem_nil _ (mem_append_left _ hs)
  have hlist : g.byDominance D = l ++ g.order.filter (· ∉ l) := by
    rw [byDominance, he, Option.toList, foldl_append, foldl_cons, foldl_nil, hl]
    refine foldl_listFrom_of_last hg.nodup fun n _ hn => eq_nil_iff_forall_not_mem.2 fun m hm => hn ((hmem n).2 ?_)
    rcases (hD.mem_onward hg).1 hm with h | ⟨p, -, -, h, -⟩
    · exact h.1.1.reaches
    · exact h.reaches
  refine ⟨D, hrun, ?_⟩
  rw [hlist]
  refine ⟨?_, fun n d hn hd => ?_, fun n m hn hm hno => ?_⟩
  · have hfirst : l.Perm (g.order.filter (· ∈ l)) :=
      (perm_ext_iff_of_nodup hwalk.sorted.nodup (hg.nodup.filter _)).2 fun n => by
        simpa using fun hn => hg.reaches_mem ((hmem n).1 hn)
    have hall := (hfirst.append_right _).trans (filter_append_perm (· ∈ l) g.order)
    simpa using hall
  · exact (hwalk.sorted.before ((hmem n).2 hn) hd).trans (sublist_append_left ..)
  · exact (singleton_sublist.2 ((hmem n).2 hn)).append (singleton_sublist.2 (by simp [hm, hmem, hno]))

/-- The end of the branch comes after the condition of the loop, and the code that cannot be reached after both. -/
theorem branchInLoop_byDominance : branchInLoop.Regular 0 ∧ branchInLoop.entry = some 0 ∧
    ∃ D, branchInLoop.dominance = .ok D ∧ [2, 5].Sublist (branchInLoop.byDominance D) ∧
      [5, 7].Sublist (branchInLoop.byDominance D) := by
  obtain ⟨D, hD, -, hsorted, hlast⟩ := byDominance_sorted branchInLoop_regular rfl
  have hfive : branchInLoop.Reaches 0 5 := (branchInLoop_regular.marked 5 (by decide)).1 rfl
  have hloop : branchInLoop.Dominates 0 2 5 := (mem_dominatorSets branchInLoop_regular hfive).1 (by decide +kernel)
  have hseven : ¬ branchInLoop.Reaches 0 7 := fun h =>
    absurd ((branchInLoop_regular.marked 7 (by decide)).2 h) (by decide)
  exact ⟨branchInLoop_regular, rfl, D, hD, hsorted 5 2 hfive ⟨hloop, by decide⟩, hlast 5 7 hfive (by decide) hseven⟩

end

end ContractAudit.Flow
