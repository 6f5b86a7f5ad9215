import ContractAudit.Proofs.Dominators

/-! # Immediate dominators and frontiers

The strict dominators of a node lie on one line, and the lowest is the immediate dominator. Climbing from a father of a node
to it passes exactly the nodes that dominate the father and do not dominate the node strictly.
-/

namespace ContractAudit.Flow

open List

variable {g : Flow}

/-! ## Immediate dominators -/

/-- The strict dominator of a node that all others dominate. -/
def IsImmediate (g : Flow) (e d n : NodeId) : Prop :=
  g.StrictlyDominates e d n ∧ ∀ d', g.StrictlyDominates e d' n → g.Dominates e d' d

theorem IsImmediate.reaches (h : g.IsImmediate e d n) : g.Reaches e n := h.1.1.1

theorem IsImmediate.ne_entry (h : g.IsImmediate e d n) : n ≠ e := h.1.ne_entry

theorem IsImmediate.unique (h : g.IsImmediate e d n) (h' : g.IsImmediate e d' n) : d = d' :=
  (h'.2 d h.1).antisymm (h.2 d' h'.1)

theorem exists_lowest (hne : l ≠ []) (hl : ∀ a ∈ l, g.Dominates e a n) : ∃ d ∈ l, ∀ a ∈ l, g.Dominates e a d := by
  induction l with
  | nil => exact absurd rfl hne
  | cons a l ih =>
    have ha := hl a (by simp)
    by_cases hnil : l = []
    · subst hnil
      exact ⟨a, by simp, by simpa using Dominates.refl ha.reaches⟩
    · obtain ⟨d, hd, hlow⟩ := ih hnil fun b hb => hl b (by simp [hb])
      rcases ha.total (hl d (by simp [hd])) with h | h
      · exact ⟨d, by simp [hd], forall_mem_cons.2 ⟨h, hlow⟩⟩
      · exact ⟨a, by simp, forall_mem_cons.2 ⟨.refl ha.reaches, fun b hb => (hlow b hb).trans h⟩⟩

/-- The dominators of a node that are found, without the node. -/
def others (g : Flow) (n : NodeId) : List NodeId := (g.dominatorSets.getD n []).filter (· != n)

section

variable (hg : g.Regular e)

include hg

theorem mem_others (hn : g.Reaches e n) : d ∈ g.others n ↔ g.StrictlyDominates e d n := by
  rw [others, mem_filter, mem_dominatorSets hg hn]
  simp [StrictlyDominates]

theorem others_of_not_reaches (hn : n ∈ g.order) (hr : ¬ g.Reaches e n) : g.others n = [] := by
  rw [others, dominatorSets_of_not_reaches hg hn hr]
  simp

theorem others_entry : g.others e = [] := by
  refine eq_nil_iff_forall_not_mem.2 fun d hd => ?_
  have h := (mem_others hg .entry).1 hd
  exact h.2 h.1.eq_entry

theorem exists_immediate (hn : g.Reaches e n) (hne : n ≠ e) : ∃ d, g.IsImmediate e d n := by
  have hmem : e ∈ g.others n := (mem_others hg hn).2 ⟨.entry hn, hne.symm⟩
  obtain ⟨d, hd, hlow⟩ := exists_lowest (ne_nil_of_mem hmem) fun a ha => ((mem_others hg hn).1 ha).1
  exact ⟨d, (mem_others hg hn).1 hd, fun d' hd' => hlow d' ((mem_others hg hn).2 hd')⟩

omit hg in
theorem eq_singleton_of_mem_iff (hl : l.Nodup) (h : ∀ a, a ∈ l ↔ a = d) : l = [d] := by
  rw [← perm_singleton]
  exact (perm_ext_iff_of_nodup hl (by simp)).2 fun a => by simp [h a]

/-- A list of nodes holds with each node all that dominates the node strictly. -/
def ClosedAbove (g : Flow) (e : NodeId) (above : List NodeId) : Prop :=
  ∀ a ∈ above, ∀ q, g.StrictlyDominates e q a → q ∈ above

theorem mem_addAbove (hclosed : g.ClosedAbove e above) (hn : g.Reaches e n) :
    q ∈ addAbove g.dominatorSets above n ↔ q ∈ above ∨ g.StrictlyDominates e q n := by
  unfold addAbove
  by_cases h : n ∈ above
  · rw [if_pos (by simpa using h)]
    refine ⟨.inl, ?_⟩
    rintro (hq | hq)
    · exact hq
    · exact hclosed n h q hq
  · rw [if_neg (by simpa using h), mem_append, mem_filter, mem_dominatorSets hg hn]
    by_cases hq : q ∈ above
    · simp [hq]
    · simp [hq, StrictlyDominates]

theorem ClosedAbove.add (hclosed : g.ClosedAbove e above)
    (hn : g.Reaches e n) : g.ClosedAbove e (addAbove g.dominatorSets above n) := by
  intro a ha q hq
  rw [mem_addAbove hg hclosed hn] at ha ⊢
  rcases ha with ha | ha
  · exact .inl (hclosed a ha q hq)
  · exact .inr (hq.trans_dominates ha.1)

theorem mem_allAbove (hcs : ∀ c ∈ cs, g.Reaches e c) :
    q ∈ allAbove g.dominatorSets cs ↔ ∃ c ∈ cs, g.StrictlyDominates e q c := by
  have key : ∀ above, g.ClosedAbove e above → (q ∈ cs.foldl (addAbove g.dominatorSets) above ↔
      q ∈ above ∨ ∃ c ∈ cs, g.StrictlyDominates e q c) := by
    induction cs with
    | nil => simp
    | cons c cs ih =>
      intro above hclosed
      have hc : g.Reaches e c := hcs c (by simp)
      rw [foldl_cons, ih (fun c' hc' => hcs c' (by simp [hc'])) _ (hclosed.add hg hc), mem_addAbove hg hclosed hc, or_assoc]
      simp
  simpa [allAbove] using key [] (by simp [ClosedAbove])

omit hg in
theorem immediateDominator_none (h : g.others n = []) : immediateDominator g.dominatorSets n = .ok none := by
  change (g.dominatorSets.getD n []).filter (· != n) = [] at h
  unfold immediateDominator
  rw [h]
  rfl

theorem closestOf_some (h : g.IsImmediate e d n) (hcs : cs.Perm (g.others n)) :
    closestOf g.dominatorSets cs = .ok (some d) := by
  have hn := h.reaches
  have hmem : ∀ b, b ∈ cs ↔ g.StrictlyDominates e b n := fun b => hcs.mem_iff.trans (mem_others hg hn)
  have hnodup : cs.Nodup := hcs.nodup_iff.2 ((dominatorSets_nodup hg (hg.reaches_mem hn)).filter _)
  have habove : ∀ b, b ∈ allAbove g.dominatorSets cs ↔ ∃ c, g.StrictlyDominates e c n ∧ g.StrictlyDominates e b c := by
    simp [mem_allAbove hg fun c hc => ((hmem c).1 hc).1.reaches, hmem]
  have hkept : cs.filter (fun b => !(allAbove g.dominatorSets cs).contains b) = [d] := by
    refine eq_singleton_of_mem_iff (hnodup.filter _) fun b => ?_
    simp only [mem_filter, hmem, Bool.not_eq_true', contains_eq_mem, decide_eq_false_iff_not, habove, not_exists, not_and]
    constructor
    · rintro ⟨hb, hlow⟩
      exact ((h.2 b hb).eq_or_strictly).resolve_right (hlow d h.1)
    · rintro rfl
      exact ⟨h.1, fun c hc hbc => hbc.2 (hbc.1.antisymm (h.2 c hc))⟩
  have hgone : (allAbove g.dominatorSets cs).filter (fun b => !cs.contains b) = [] := by
    refine filter_eq_nil_iff.2 fun b hb => ?_
    obtain ⟨c, hc, hbc⟩ := (habove b).1 hb
    simp only [contains_eq_mem, Bool.not_eq_true', decide_eq_false_iff_not, Decidable.not_not]
    exact (hmem b).2 (hbc.trans_dominates hc.1)
  unfold closestOf
  split
  · have hd := (hmem d).2 h.1
    rw [mem_singleton] at hd
    rw [hd]
  · dsimp only
    rw [hkept, hgone]
    rfl

/-! ## The table of immediate dominators -/

/-- A table has the immediate dominators of all nodes. -/
def HasImmediate (g : Flow) (e : NodeId) (immediate : Array (Option NodeId)) : Prop :=
  ∀ n d, immediate.getD n none = some d ↔ g.IsImmediate e d n

theorem immediateDominator_spec (hn : n ∈ g.order) :
    ∃ v, immediateDominator g.dominatorSets n = .ok v ∧ ∀ d, v = some d ↔ g.IsImmediate e d n := by
  by_cases h : ∃ d, g.IsImmediate e d n
  · obtain ⟨d, hd⟩ := h
    refine ⟨some d, closestOf_some hg hd (.refl _), fun d' => ?_⟩
    constructor
    · rintro ⟨⟩
      exact hd
    · exact fun hd' => congrArg some (hd.unique hd')
  · refine ⟨none, immediateDominator_none ?_, fun d => ⟨nofun, fun hd => absurd ⟨d, hd⟩ h⟩⟩
    by_cases hr : g.Reaches e n
    · by_cases hne : n = e
      · exact hne ▸ others_entry hg
      · exact absurd (exists_immediate hg hr hne) h
    · exact others_of_not_reaches hg hn hr

theorem fillImmediate_spec (ns : List NodeId) (hns : ∀ n ∈ ns, n ∈ g.order)
    (known : Array (Option NodeId)) (hsize : known.size = g.nodes.size) :
    ∃ filled, ns.foldlM (fun (known : Array (Option NodeId)) n => do
        return known.setIfInBounds n (← immediateDominator g.dominatorSets n)) known = .ok filled ∧
      filled.size = g.nodes.size ∧ ∀ m d, filled.getD m none = some d ↔
        (if m ∈ ns then g.IsImmediate e d m else known.getD m none = some d) := by
  induction ns generalizing known with
  | nil => exact ⟨known, rfl, hsize, by simp⟩
  | cons n ns ih =>
    have hn : n ∈ g.order := hns n (by simp)
    obtain ⟨v, hv, hvd⟩ := immediateDominator_spec hg hn
    obtain ⟨filled, hfill, hfs, hspec⟩ := ih (fun m hm => hns m (by simp [hm])) (known.setIfInBounds n v) (by simpa using hsize)
    refine ⟨filled, ?_, hfs, fun m d => ?_⟩
    · rw [foldlM_cons, hv]
      exact hfill
    · rw [hspec m d]
      by_cases hm : m ∈ ns
      · simp [hm]
      · by_cases hnm : n = m
        · subst hnm
          simp [hsize, hg.inTable n hn, hvd]
        · simp [hnm, Ne.symm hnm]

/-- The number of dominators of a node. -/
def depth (g : Flow) (n : NodeId) : Nat := (g.dominatorSets.getD n []).length

theorem depth_le (hn : g.Reaches e n) : g.depth n ≤ g.nodes.size :=
  length_le_of_lt (dominatorSets_nodup hg (hg.reaches_mem hn)) fun d hd =>
    hg.inTable d (hg.dominates_mem ((mem_dominatorSets hg hn).1 hd))

theorem depth_lt (h : g.StrictlyDominates e d n) : g.depth d < g.depth n := by
  have hd := h.1.reaches
  have hnot : n ∉ g.dominatorSets.getD d [] := fun hn =>
    h.2 (h.1.antisymm ((mem_dominatorSets hg hd).1 hn))
  have hsub : n :: g.dominatorSets.getD d [] ⊆ g.dominatorSets.getD n [] := by
    intro q hq
    rw [mem_dominatorSets hg h.1.1]
    rcases mem_cons.1 hq with rfl | hq
    · exact .refl h.1.1
    · exact ((mem_dominatorSets hg hd).1 hq).trans h.1
  have hnodup := nodup_cons.2 ⟨hnot, dominatorSets_nodup hg (hg.reaches_mem hd)⟩
  exact (hnodup.subperm hsub).length_le

end

/-! ## Frontiers -/

/-- A node dominates a father of another one but not strictly the node itself. -/
def InFrontier (g : Flow) (e q n : NodeId) : Prop :=
  ∃ p, g.Reaches e p ∧ n ∈ g.sons p ∧ g.Dominates e q p ∧ ¬ g.StrictlyDominates e q n

/-- The end of an `if` without an `else`, seen from the `if`. -/
def IsSkipped (g : Flow) (e q n : NodeId) : Prop :=
  g.IsImmediate e q n ∧ n ∈ g.sons q ∧ g.kind q = .branch ∧ g.kind n = .endIf ∧ 2 ≤ (g.fathers n).length

theorem InFrontier.reaches (h : g.InFrontier e q n) : g.Reaches e n := by
  obtain ⟨p, hp, hs, -⟩ := h
  exact .step hp hs

theorem InFrontier.two_fathers (hg : g.Regular e) (h : g.InFrontier e q n) : 2 ≤ (g.fathers n).length := by
  have hn := h.reaches
  have hmem := hg.reaches_mem hn
  obtain ⟨p, hp, hs, hq, hstrict⟩ := h
  have hne : n ≠ e := fun h => hg.no_son_entry hp (h ▸ hs)
  have hfather : ∀ {m}, g.Reaches e m → n ∈ g.sons m → m ∈ g.fathers n := fun hm hs =>
    (hg.mirrored _ (hg.reaches_mem hm) n hmem).1 hs
  by_contra hlen
  have honly : ∀ m, g.Reaches e m → n ∈ g.sons m → m = p := by
    intro m hm hsm
    have h₁ := hfather hm hsm
    have h₂ := hfather hp hs
    rcases hf : g.fathers n with _ | ⟨a, _ | ⟨b, l⟩⟩
    · simp [hf] at h₁
    · rw [hf, mem_singleton] at h₁ h₂
      rw [h₁, h₂]
    · simp [hf] at hlen
  have hdom : g.Dominates e q n := dominates_of_fathers hn hne fun m hm hsm => honly m hm hsm ▸ hq
  have hqn : q = n := hdom.eq_or_strictly.resolve_right hstrict
  obtain ⟨m, hm, hsm⟩ := exists_father_avoiding hn hne
  have hmp := honly m hm.reaches hsm
  subst hmp hqn
  exact hq.2 hm

theorem IsImmediate.inFrontier_iff (hd : g.IsImmediate e d n) (hp : g.Reaches e p) (hs : n ∈ g.sons p) :
    g.Dominates e q p ∧ g.StrictlyDominates e d q ↔ g.Dominates e q p ∧ ¬ g.StrictlyDominates e q n := by
  refine and_congr_right fun hq => ⟨fun hdq hqn => hdq.2 (hdq.1.antisymm (hd.2 q hqn)), fun hqn => ?_⟩
  rcases (hd.1.father hp hs).total hq with h | h
  · exact h.eq_or_strictly.resolve_left fun hdq => hqn (hdq ▸ hd.1)
  · exact absurd (h.trans_strictly hd.1) hqn

/-! ## Climbing to the immediate dominator -/

/-- Frontiers are made from others by adding nodes. -/
def Adds (g : Flow) (x : Result (Array (List NodeId))) (frontier : Array (List NodeId)) (P : NodeId → NodeId → Prop) : Prop :=
  ∃ added, x = .ok added ∧ added.size = g.nodes.size ∧ ∀ m q, m ∈ added.getD q [] ↔ m ∈ frontier.getD q [] ∨ P m q

variable {frontier : Array (List NodeId)}

theorem Adds.foldlM {xs : List NodeId} {P : NodeId → NodeId → NodeId → Prop}
    (h : ∀ x ∈ xs, ∀ frontier, frontier.size = g.nodes.size → g.Adds (step frontier x) frontier (P x))
    (hsize : frontier.size = g.nodes.size) : g.Adds (xs.foldlM step frontier) frontier fun m q => ∃ x ∈ xs, P x m q := by
  induction xs generalizing frontier with
  | nil => exact ⟨frontier, rfl, hsize, by simp⟩
  | cons x xs ih =>
    obtain ⟨next, hnext, hs, hspec⟩ := h x (by simp) frontier hsize
    obtain ⟨added, hadd, hs', hspec'⟩ := ih (fun y hy => h y (by simp [hy])) hs
    refine ⟨added, ?_, hs', fun m q => ?_⟩
    · rw [foldlM_cons, hnext]
      exact hadd
    · rw [hspec', hspec, or_assoc]
      simp

theorem mem_modify_addNew (hr : r < frontier.size) :
    m ∈ (frontier.modify r fun ns => if ns.contains n then ns else ns ++ [n]).getD q [] ↔
      m ∈ frontier.getD q [] ∨ m = n ∧ q = r := by
  rw [getD_modify]
  grind

/-- What one father of a node adds to the frontiers. -/
def FatherAdds (g : Flow) (e n p q : NodeId) : Prop :=
  g.Dominates e q p ∧ ¬ g.StrictlyDominates e q n ∨
    q = p ∧ g.IsImmediate e p n ∧ g.kind p = .branch ∧ g.kind n = .endIf

variable (hg : g.Regular e) (hi : g.HasImmediate e immediate)

include hg hi

/-- Climbing from a node below the immediate dominator of `n` adds `n` to the frontiers of the nodes on the way. -/
theorem climb_spec (hd : g.IsImmediate e d n) (fuel : Nat) (hr : g.Dominates e d r) (hfuel : g.depth r < fuel)
    (hsize : frontier.size = g.nodes.size) : g.Adds (climb immediate n fuel r frontier) frontier fun m q =>
      m = n ∧ g.Dominates e q r ∧ g.StrictlyDominates e d q := by
  induction fuel generalizing r frontier with
  | zero => omega
  | succ fuel ih =>
    have hn : immediate.getD n none = some d := (hi n d).2 hd
    rw [climb, hn]
    by_cases hrd : d = r
    · subst hrd
      refine ⟨frontier, by simp, hsize, fun m q => ⟨.inl, ?_⟩⟩
      rintro (h | ⟨-, hq, hq'⟩)
      · exact h
      · exact absurd (hq'.1.antisymm hq) hq'.2
    · have hrmem := hg.reaches_mem hr.1
      have hrne : r ≠ e := StrictlyDominates.ne_entry ⟨hr, hrd⟩
      obtain ⟨up, hup⟩ := exists_immediate hg hr.1 hrne
      have hstop : (some d == some r) = false := by simpa using hrd
      have hlt := depth_lt hg hup.1
      have hsize' : (frontier.modify r fun ns => if ns.contains n then ns else ns ++ [n]).size = g.nodes.size := by
        simpa using hsize
      obtain ⟨climbed, hc, hcs, hspec⟩ := ih (hup.2 d ⟨hr, hrd⟩) (by omega) hsize'
      refine ⟨climbed, ?_, hcs, fun m q => ?_⟩
      · simp only [hstop, (hi r up).2 hup]
        exact hc
      · rw [hspec m q, mem_modify_addNew (hsize ▸ hg.inTable r hrmem), or_assoc]
        refine or_congr_right ⟨?_, ?_⟩
        · rintro (⟨rfl, rfl⟩ | ⟨rfl, hq, hdq⟩)
          · exact ⟨rfl, .refl hr.1, hr, hrd⟩
          · exact ⟨rfl, hq.trans hup.1.1, hdq⟩
        · rintro ⟨rfl, hq, hdq⟩
          rcases hq.eq_or_strictly with rfl | hq
          · exact .inl ⟨rfl, rfl⟩
          · exact .inr ⟨rfl, hup.2 q hq, hdq⟩

theorem fatherStep_spec (hp : g.Reaches e p) (hs : n ∈ g.sons p) (hsize : frontier.size = g.nodes.size)
    (hstart : start = if immediate.getD n none == some p && g.kind p == .branch && g.kind n == .endIf then
      frontier.modify p fun ns => if ns.contains n then ns else ns ++ [n] else frontier) :
    g.Adds (climb immediate n (g.nodes.size + 1) p start) frontier fun m q => m = n ∧ g.FatherAdds e n p q := by
  have hne : n ≠ e := fun h => hg.no_son_entry hp (h ▸ hs)
  obtain ⟨d, hd⟩ := exists_immediate hg (.step hp hs) hne
  have hskip : ∀ m q, m ∈ start.getD q [] ↔ m ∈ frontier.getD q [] ∨
      m = n ∧ q = p ∧ g.IsImmediate e p n ∧ g.kind p = .branch ∧ g.kind n = .endIf := by
    intro m q
    rw [← hi n p, hstart]
    split
    next hc =>
      rw [mem_modify_addNew (hsize ▸ hg.inTable p (hg.reaches_mem hp))]
      simp_all
    next hc => simp_all
  have hsize' : start.size = g.nodes.size := by
    rw [hstart]
    split <;> simpa using hsize
  obtain ⟨climbed, hclimb, hcs, hspec⟩ := climb_spec hg hi hd (g.nodes.size + 1) (hd.1.father hp hs)
    (Nat.lt_succ_of_le (depth_le hg hp)) hsize'
  refine ⟨climbed, hclimb, hcs, fun m q => ?_⟩
  rw [hspec m q, hskip, or_assoc]
  dsimp only [FatherAdds]
  rw [hd.inFrontier_iff hp hs, ← and_or_left, or_comm (a := q = p ∧ _)]

theorem addToFrontiers_spec (hn : n ∈ g.order) (hsize : frontier.size = g.nodes.size) :
    g.Adds (g.addToFrontiers immediate frontier n) frontier fun m q =>
      m = n ∧ (g.InFrontier e q n ∨ g.IsSkipped e q n) := by
  unfold addToFrontiers
  by_cases hlen : (g.fathers n).length < 2
  · refine ⟨frontier, by simp [hlen], hsize, fun m q => ⟨.inl, fun h => h.resolve_right ?_⟩⟩
    rintro ⟨-, h | h⟩
    · exact absurd (h.two_fathers hg) (by omega)
    · exact absurd h.2.2.2.2 (by omega)
  · simp only [hlen]
    have hlive : ∀ p, p ∈ g.liveFathers n ↔ g.Reaches e p ∧ n ∈ g.sons p := fun p => hg.mem_liveFathers hn
    obtain ⟨added, hadd, has, hspec⟩ := Adds.foldlM (P := fun p m q => m = n ∧ g.FatherAdds e n p q)
      (fun p hp frontier hsize => fatherStep_spec hg hi ((hlive p).1 hp).1 ((hlive p).1 hp).2 hsize rfl) hsize
    refine ⟨added, hadd, has, fun m q => ?_⟩
    rw [hspec m q]
    refine or_congr_right ⟨?_, ?_⟩
    · rintro ⟨p, hp, rfl, h | ⟨rfl, h⟩⟩
      · exact ⟨rfl, .inl ⟨p, ((hlive p).1 hp).1, ((hlive p).1 hp).2, h⟩⟩
      · exact ⟨rfl, .inr ⟨h.1, ((hlive q).1 hp).2, h.2.1, h.2.2, by omega⟩⟩
    · rintro ⟨rfl, ⟨p, hpr, hps, h⟩ | h⟩
      · exact ⟨p, (hlive p).2 ⟨hpr, hps⟩, rfl, .inl h⟩
      · exact ⟨q, (hlive q).2 ⟨h.1.1.1.reaches, h.2.1⟩, rfl, .inr ⟨rfl, h.1, h.2.2.1, h.2.2.2.1⟩⟩

omit hg hi

/-! ## The dominance of a flow graph -/

/-- A dominance says what is true of the flow graph. -/
structure IsDominance (g : Flow) (e : NodeId) (D : Dominance) : Prop where
  dominators : ∀ n d, g.Reaches e n → (d ∈ D.dominatorsOf n ↔ g.Dominates e d n)
  immediate : ∀ n d, D.immediateOf n = some d ↔ g.IsImmediate e d n
  frontier : ∀ q n, n ∈ D.frontierOf q ↔ g.InFrontier e q n ∨ g.IsSkipped e q n

theorem getD_replicate (size q : Nat) (x : α) : (Array.replicate size x).getD q x = x := by
  rw [Array.getD_eq_getD_getElem?, Array.getElem?_replicate]
  split <;> rfl

theorem dominance_spec (hg : g.Regular e) : ∃ D, g.dominance = .ok D ∧ g.IsDominance e D := by
  obtain ⟨immediate, hfill, -, hspec⟩ := fillImmediate_spec hg g.order (fun _ h => h)
    (Array.replicate g.nodes.size none) (by simp)
  have hi : g.HasImmediate e immediate := by
    intro n d
    rw [hspec n d]
    by_cases hn : n ∈ g.order
    · rw [if_pos hn]
    · have hout : ¬ g.IsImmediate e d n := fun h => hn (hg.reaches_mem h.reaches)
      rw [if_neg hn, getD_replicate]
      exact ⟨nofun, fun h => absurd h hout⟩
  have hsize : (Array.replicate g.nodes.size ([] : List NodeId)).size = g.nodes.size := by simp
  obtain ⟨frontier, hfront, -, hmem⟩ := Adds.foldlM (P := fun n m q => m = n ∧ (g.InFrontier e q n ∨ g.IsSkipped e q n))
    (fun n (hn : n ∈ g.order) _ hsize => addToFrontiers_spec hg hi hn hsize) hsize
  refine ⟨{ dominators := g.dominatorSets, immediate, frontier }, ?_,
    fun n d hn => mem_dominatorSets hg hn, hi, fun q n => ?_⟩
  · simp only [dominance]
    rw [hfill]
    change (g.order.foldlM (g.addToFrontiers immediate) (Array.replicate g.nodes.size []) >>= _) = _
    rw [hfront]
    rfl
  · change n ∈ frontier.getD q [] ↔ _
    rw [hmem n q, getD_replicate]
    constructor
    · rintro (h | ⟨n, -, rfl, h⟩)
      · cases h
      · exact h
    · refine fun h => .inr ⟨n, hg.reaches_mem ?_, rfl, h⟩
      exact h.elim (·.reaches) (·.1.reaches)

/-! ## Where a walk along dominance goes on -/

theorem InFrontier.dominates (h : g.InFrontier e u n) (hd : g.StrictlyDominates e d n) : g.Dominates e d u := by
  obtain ⟨p, hp, hs, hu, hno⟩ := h
  rcases (hd.father hp hs).total hu with h | h
  · exact h
  · exact (hno (h.trans_strictly hd)).elim

namespace IsDominance

variable (hD : g.IsDominance e D) (hg : g.Regular e)

include hD hg

theorem mem_successors : n ∈ D.successors g.order d ↔ g.IsImmediate e d n := by
  rw [Dominance.successors, mem_filter, beq_iff_eq, hD.immediate]
  exact ⟨fun h => h.2, fun h => ⟨hg.reaches_mem h.reaches, h⟩⟩

theorem mem_onward : m ∈ D.onward g.order n ↔ g.IsImmediate e n m ∨ g.InFrontier e n m := by
  rw [Dominance.onward, mem_append, hD.mem_successors hg, hD.frontier]
  exact ⟨fun h => h.elim .inl fun h => h.elim .inr (.inl ·.1), fun h => h.imp_right .inl⟩

theorem reaches_of_onward (hm : m ∈ D.onward g.order n) : g.Reaches e m :=
  ((hD.mem_onward hg).1 hm).elim (·.reaches) (·.reaches)

theorem dominates_of_onward (hm : m ∈ D.onward g.order n) (hd : g.StrictlyDominates e d m) : g.Dominates e d n :=
  ((hD.mem_onward hg).1 hm).elim (·.2 d hd) (·.dominates hd)

end IsDominance

end ContractAudit.Flow
