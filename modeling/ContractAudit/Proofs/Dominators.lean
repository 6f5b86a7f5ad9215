import ContractAudit.Flow.Graph
import ContractAudit.Proofs.Arrays
import Mathlib.Algebra.Order.BigOperators.Group.List
import Mathlib.Algebra.Order.Ring.Nat
import Mathlib.Tactic.ByContra

/-! # Correctness of dominators

The sweeps over the sets of dominators start from everything and only take away. They keep all true dominators, and where
they stop nothing else is left.
-/

namespace ContractAudit.Flow

open List

/-! ## Ways through a flow graph -/

/-- What can be reached from a node by edges. -/
inductive Reaches (g : Flow) (e : NodeId) : NodeId → Prop
  | entry : Reaches g e e
  | step {m n : NodeId} : Reaches g e m → n ∈ g.sons m → Reaches g e n

/-- What can be reached from a node without passing `d`. -/
inductive Avoids (g : Flow) (e d : NodeId) : NodeId → Prop
  | entry : e ≠ d → Avoids g e d e
  | step {m n : NodeId} : Avoids g e d m → n ∈ g.sons m → n ≠ d → Avoids g e d n

/-- All ways from the entry to `n` pass `d`, and there are such ways. -/
def Dominates (g : Flow) (e d n : NodeId) : Prop := g.Reaches e n ∧ ¬ g.Avoids e d n

def StrictlyDominates (g : Flow) (e d n : NodeId) : Prop := g.Dominates e d n ∧ d ≠ n

/-- Edges are kept at both ends and stay among the nodes of the graph, nothing leads to the entry, and the nodes that can be
reached are marked. -/
structure Regular (g : Flow) (e : NodeId) : Prop where
  nodup : g.order.Nodup
  inTable : ∀ n ∈ g.order, n < g.nodes.size
  entry_mem : e ∈ g.order
  entry_first : g.fathers e = []
  sons_mem : ∀ m ∈ g.order, ∀ n ∈ g.sons m, n ∈ g.order
  fathers_mem : ∀ n ∈ g.order, ∀ m ∈ g.fathers n, m ∈ g.order
  mirrored : ∀ m ∈ g.order, ∀ n ∈ g.order, n ∈ g.sons m ↔ m ∈ g.fathers n
  marked : ∀ n ∈ g.order, (g.node n).reachable = true ↔ g.Reaches e n

variable {g : Flow}

/-! ## Ways that avoid a node -/

theorem Avoids.reaches (h : g.Avoids e d n) : g.Reaches e n := by
  induction h with
  | entry _ => exact .entry
  | step _ hs _ ih => exact .step ih hs

theorem Avoids.ne (h : g.Avoids e d n) : n ≠ d := by
  cases h with
  | entry h => exact h
  | step _ _ h => exact h

/-- Of two nodes that can each be reached without the other, one is avoided on the way to any node. -/
theorem avoids_or_avoids (hab : g.Avoids e a b) (hba : g.Avoids e b a) (hn : g.Reaches e n) :
    g.Avoids e a n ∨ g.Avoids e b n := by
  induction hn with
  | entry =>
    by_cases h : e = a
    · exact .inr (.entry (fun hb => hab.ne (hb.symm.trans h)))
    · exact .inl (.entry h)
  | @step m n _ hs ih =>
    rcases ih with ih | ih
    · by_cases h : n = a
      · exact .inr (h ▸ hba)
      · exact .inl (.step ih hs h)
    · by_cases h : n = b
      · exact .inl (h ▸ hab)
      · exact .inr (.step ih hs h)

theorem exists_father_avoiding (hn : g.Reaches e n) (hne : n ≠ e) : ∃ p, g.Avoids e n p ∧ n ∈ g.sons p := by
  have key : ∀ {m}, g.Reaches e m → g.Avoids e n m ∨ ∃ p, g.Avoids e n p ∧ n ∈ g.sons p := by
    intro m hm
    induction hm with
    | entry => exact .inl (.entry hne.symm)
    | @step p m _ hs ih =>
      rcases ih with ih | ih
      · by_cases hmn : m = n
        · exact .inr ⟨p, ih, hmn ▸ hs⟩
        · exact .inl (.step ih hs hmn)
      · exact .inr ih
  exact (key hn).resolve_left fun h => h.ne rfl

/-! ## Dominance is a tree order -/

theorem Dominates.refl (hn : g.Reaches e n) : g.Dominates e n n := ⟨hn, fun h => h.ne rfl⟩

theorem Dominates.entry (hn : g.Reaches e n) : g.Dominates e e n := by
  refine ⟨hn, fun h => ?_⟩
  induction h with
  | entry h => exact h rfl
  | step h _ _ ih => exact ih h.reaches

theorem Dominates.reaches (h : g.Dominates e d n) : g.Reaches e d := by
  obtain ⟨hn, hd⟩ := h
  by_contra hr
  apply hd
  induction hn with
  | entry => exact .entry (fun he => hr (he ▸ .entry))
  | @step m n hm hs ih =>
    refine .step (ih fun h => hd (.step h hs fun hnd => hr (hnd ▸ .step hm hs))) hs ?_
    exact fun hnd => hr (hnd ▸ .step hm hs)

theorem Avoids.of_dominates (h : g.Avoids e d n) (hb : ¬ g.Avoids e b n) : g.Avoids e d b := by
  induction h with
  | entry he =>
    by_cases heb : e = b
    · exact heb ▸ .entry he
    · exact absurd (.entry heb) hb
  | @step m n hm hs hne ih =>
    by_cases hbm : g.Avoids e b m
    · by_cases hnb : n = b
      · exact hnb ▸ .step hm hs hne
      · exact absurd (.step hbm hs hnb) hb
    · exact ih hbm

theorem Dominates.eq_entry (h : g.Dominates e d e) : d = e := by
  by_contra hne
  exact h.2 (.entry fun he => hne he.symm)

theorem Dominates.trans (hab : g.Dominates e a b) (hbn : g.Dominates e b n) : g.Dominates e a n :=
  ⟨hbn.1, fun h => hab.2 (h.of_dominates hbn.2)⟩

theorem Dominates.antisymm (hab : g.Dominates e a b) (hba : g.Dominates e b a) : a = b := by
  by_contra hne
  by_cases ha : a = e
  · exact hne (ha.trans (ha ▸ hba).eq_entry.symm)
  -- The way to `a` that meets it only at its end passes `b`, so `b` is reached without `a`.
  obtain ⟨p, hp, hs⟩ := exists_father_avoiding hba.1 ha
  exact hab.2 (hp.of_dominates fun hb => hba.2 (.step hb hs hne))

theorem Dominates.total (ha : g.Dominates e a n) (hb : g.Dominates e b n) : g.Dominates e a b ∨ g.Dominates e b a := by
  by_contra h
  rw [not_or] at h
  have hab : g.Avoids e a b := by
    by_contra hno
    exact h.1 ⟨hb.reaches, hno⟩
  have hba : g.Avoids e b a := by
    by_contra hno
    exact h.2 ⟨ha.reaches, hno⟩
  rcases avoids_or_avoids hab hba ha.1 with h | h
  · exact ha.2 h
  · exact hb.2 h

theorem StrictlyDominates.father (h : g.StrictlyDominates e d n) (hm : g.Reaches e m)
    (hs : n ∈ g.sons m) : g.Dominates e d m := ⟨hm, fun ha => h.1.2 (.step ha hs h.2.symm)⟩

theorem StrictlyDominates.trans_dominates (hab : g.StrictlyDominates e a b)
    (hbn : g.Dominates e b n) : g.StrictlyDominates e a n := by
  refine ⟨hab.1.trans hbn, fun han => ?_⟩
  subst han
  exact hab.2 (hab.1.antisymm hbn)

theorem Dominates.trans_strictly (hab : g.Dominates e a b) (hbn : g.StrictlyDominates e b n) :
    g.StrictlyDominates e a n := by
  refine ⟨hab.trans hbn.1, fun han => ?_⟩
  subst han
  exact hbn.2 (hbn.1.antisymm hab)

theorem StrictlyDominates.ne_entry (h : g.StrictlyDominates e d n) : n ≠ e := by
  rintro rfl
  exact h.2 h.1.eq_entry

theorem Dominates.eq_or_strictly (h : g.Dominates e d n) : d = n ∨ g.StrictlyDominates e d n := by
  by_cases hd : d = n
  · exact .inl hd
  · exact .inr ⟨h, hd⟩

theorem dominates_of_fathers (hn : g.Reaches e n) (hne : n ≠ e)
    (h : ∀ m, g.Reaches e m → n ∈ g.sons m → g.Dominates e d m) : g.Dominates e d n := by
  refine ⟨hn, fun ha => ?_⟩
  cases ha with
  | entry _ => exact hne rfl
  | step hm hs _ => exact (h _ hm.reaches hs).2 hm

/-! ## Nodes of a regular graph -/

variable (hg : g.Regular e)

include hg

namespace Regular

theorem reaches_mem (h : g.Reaches e n) : n ∈ g.order := by
  induction h with
  | entry => exact hg.entry_mem
  | step _ hs ih => exact hg.sons_mem _ ih _ hs

theorem dominates_mem (h : g.Dominates e d n) : d ∈ g.order := hg.reaches_mem h.reaches

theorem mem_liveFathers (hn : n ∈ g.order) : f ∈ g.liveFathers n ↔ g.Reaches e f ∧ n ∈ g.sons f := by
  rw [liveFathers, mem_filter]
  constructor
  · intro h
    have hf := hg.fathers_mem n hn f h.1
    exact ⟨(hg.marked f hf).1 h.2, (hg.mirrored f hf n hn).2 h.1⟩
  · intro h
    have hf := hg.reaches_mem h.1
    exact ⟨(hg.mirrored f hf n hn).1 h.2, (hg.marked f hf).2 h.1⟩

theorem no_son_entry (hm : g.Reaches e m) : e ∉ g.sons m := by
  intro hs
  have hf := (hg.mirrored m (hg.reaches_mem hm) e hg.entry_mem).1 hs
  simp [hg.entry_first] at hf

theorem liveFathers_eq_nil (hn : n ∈ g.order) : g.liveFathers n = [] ↔ g.Reaches e n → n = e := by
  constructor
  · intro h hr
    cases hr with
    | entry => rfl
    | step hm hs =>
      have hf := (hg.mem_liveFathers hn).2 ⟨hm, hs⟩
      simp [h] at hf
  · intro h
    refine eq_nil_iff_forall_not_mem.2 fun m hm => ?_
    obtain ⟨hr, hs⟩ := (hg.mem_liveFathers hn).1 hm
    exact hg.no_son_entry hr (h (.step hr hs) ▸ hs)

end Regular

omit hg

/-! ## Sweeps take away -/

/-- The second sets come from the first by taking away. -/
def Shrinks (old new : Array (List NodeId)) : Prop :=
  new.size = old.size ∧ ∀ n, (new.getD n []).Sublist (old.getD n [])

theorem Shrinks.refl (sets : Array (List NodeId)) : Shrinks sets sets := ⟨rfl, fun _ => .refl _⟩

theorem Shrinks.trans (h₁ : Shrinks r s) (h₂ : Shrinks s t) :
    Shrinks r t :=
  ⟨h₂.1.trans h₁.1, fun n => (h₂.2 n).trans (h₁.2 n)⟩

theorem dominatorStep_sublist (h : Shrinks old new) :
    (g.dominatorStep new n).Sublist (g.dominatorStep old n) := by
  unfold dominatorStep
  cases g.liveFathers n with
  | nil => exact .refl _
  | cons f fs =>
    apply monotone_filter_right
    intro d hd
    simp only [Bool.or_eq_true, all_eq_true, contains_iff_mem] at hd ⊢
    rcases hd with hd | hd
    · exact .inl hd
    · exact .inr fun f' hf' => (h.2 f').subset (hd f' hf')

/-- A step at any node takes away from the set of the node. -/
structure Roomy (g : Flow) (sets : Array (List NodeId)) : Prop where
  size : sets.size = g.nodes.size
  step : ∀ n ∈ g.order, (g.dominatorStep sets n).Sublist (sets.getD n [])

include hg

theorem Roomy.update (h : Roomy g sets) (hn : n ∈ g.order) : Shrinks sets (sets.setIfInBounds n (g.dominatorStep sets n)) ∧
      Roomy g (sets.setIfInBounds n (g.dominatorStep sets n)) := by
  have hlt : n < sets.size := h.size ▸ hg.inTable n hn
  have hs : Shrinks sets (sets.setIfInBounds n (g.dominatorStep sets n)) := by
    refine ⟨by simp, fun m => ?_⟩
    by_cases hm : n = m
    · subst hm
      simpa [hlt] using h.step n hn
    · simp [hm]
  refine ⟨hs, ⟨by simpa using h.size, fun m hm => ?_⟩⟩
  by_cases hnm : n = m
  · subst hnm
    simpa [hlt] using dominatorStep_sublist hs
  · simpa [hnm] using (dominatorStep_sublist hs).trans (h.step m hm)

def sweepOver (g : Flow) (ns : List NodeId) (sets : Array (List NodeId)) : Array (List NodeId) :=
  ns.foldl (fun sets n => sets.setIfInBounds n (g.dominatorStep sets n)) sets

theorem sweepOver_shrinks (ns : List NodeId) (hns : ∀ n ∈ ns, n ∈ g.order) (h : Roomy g sets) :
    Shrinks sets (sweepOver g ns sets) ∧ Roomy g (sweepOver g ns sets) ∧
      ∀ n ∈ ns, ((sweepOver g ns sets).getD n []).Sublist (g.dominatorStep sets n) := by
  induction ns generalizing sets with
  | nil => exact ⟨.refl _, h, by simp⟩
  | cons n ns ih =>
    have hn : n ∈ g.order := hns n (by simp)
    have hlt : n < sets.size := h.size ▸ hg.inTable n hn
    obtain ⟨hs, hr⟩ := h.update hg hn
    obtain ⟨hs', hr', hle⟩ := ih (fun m hm => hns m (by simp [hm])) hr
    refine ⟨hs.trans hs', hr', ?_⟩
    intro m hm
    rcases mem_cons.1 hm with rfl | hm
    · have hlast := hs'.2 m
      simp only [getD_setIfInBounds, hlt] at hlast
      exact hlast
    · exact (hle m hm).trans (dominatorStep_sublist hs)

omit hg in
theorem sweepOver_getD_of_not_mem {ns : List NodeId} {sets : Array (List NodeId)} (hm : m ∉ ns) :
    (sweepOver g ns sets).getD m [] = sets.getD m [] := by
  refine foldlRecOn (motive := fun new : Array (List NodeId) => new.getD m [] = sets.getD m []) _ _ rfl fun new h n hn => ?_
  rw [getD_setIfInBounds, if_neg, h]
  exact fun hnm => hm (hnm.1 ▸ hn)

def weight (g : Flow) (sets : Array (List NodeId)) : Nat := (g.order.map fun n => (sets.getD n []).length).sum

theorem weight_sweep_lt (h : Roomy g sets)
    (hne : g.dominatorSweep sets ≠ sets) : weight g (g.dominatorSweep sets) < weight g sets := by
  obtain ⟨hs, -, -⟩ := sweepOver_shrinks hg g.order (fun _ h => h) h
  refine sum_lt_sum _ _ (fun n _ => (hs.2 n).length_le) ?_
  by_contra hall
  apply hne
  change sweepOver g g.order sets = sets
  refine Array.ext hs.1 fun i hi hi' => ?_
  have hget : (sweepOver g g.order sets).getD i [] = sets.getD i [] := by
    by_cases hi : i ∈ g.order
    · refine (hs.2 i).eq_of_length ?_
      have hle := (hs.2 i).length_le
      have hno : ¬ ((sweepOver g g.order sets).getD i []).length < (sets.getD i []).length :=
        fun hlt => hall ⟨i, hi, hlt⟩
      omega
    · exact sweepOver_getD_of_not_mem hi
  simpa [Array.getElem?_eq_getElem hi, Array.getElem?_eq_getElem hi'] using hget

/-- With enough fuel the sweeps end where nothing changes. What each sweep keeps holds at the end. -/
theorem dominatorSweeps_spec {P : Array (List NodeId) → Prop} (hP : ∀ sets, P sets → P (g.dominatorSweep sets))
    (fuel : Nat) (h : Roomy g sets) (hs : P sets) (hfuel : weight g sets < fuel) :
    Roomy g (g.dominatorSweeps fuel sets) ∧ P (g.dominatorSweeps fuel sets) ∧
      g.dominatorSweep (g.dominatorSweeps fuel sets) = g.dominatorSweeps fuel sets := by
  induction fuel generalizing sets with
  | zero => omega
  | succ fuel ih =>
    rw [dominatorSweeps]
    by_cases hfix : g.dominatorSweep sets = sets
    · simpa [hfix] using ⟨h, hs⟩
    · have hlt := weight_sweep_lt hg h hfix
      have hbeq : (g.dominatorSweep sets == sets) = false := by simpa using hfix
      simp only [hbeq]
      exact ih (sweepOver_shrinks hg g.order (fun _ h => h) h).2.1 (hP sets hs) (by omega)

/-! ## The sets are those of the dominators -/

/-- Each set holds at least the dominators of its node. -/
def Covers (g : Flow) (e : NodeId) (sets : Array (List NodeId)) : Prop :=
  ∀ n d, g.Dominates e d n → d ∈ sets.getD n []

theorem Covers.step (h : Covers g e sets) (hd : g.Dominates e d n) : d ∈ g.dominatorStep sets n := by
  have hn : n ∈ g.order := hg.reaches_mem hd.1
  unfold dominatorStep
  cases hf : g.liveFathers n with
  | nil =>
    have hne := (hg.liveFathers_eq_nil hn).1 hf hd.1
    subst hne
    simp [hd.eq_entry]
  | cons f fs =>
    rw [mem_filter]
    refine ⟨hg.dominates_mem hd, ?_⟩
    simp only [Bool.or_eq_true, beq_iff_eq, all_eq_true, contains_iff_mem]
    by_cases hdn : d = n
    · exact .inl hdn
    · refine .inr fun m hm => h m d ?_
      obtain ⟨hr, hs⟩ := (hg.mem_liveFathers hn).1 (hf ▸ hm)
      exact StrictlyDominates.father ⟨hd, hdn⟩ hr hs

theorem Covers.sweep (ns : List NodeId) (h : Covers g e sets) : Covers g e (sweepOver g ns sets) := by
  refine foldlRecOn (motive := Covers g e) _ _ h fun sets h n _ m d hd => ?_
  rw [getD_setIfInBounds]
  split
  next hm => exact h.step hg (hm.1 ▸ hd)
  next => exact h m d hd

omit hg

theorem allOver_getD (ns : List NodeId) (v : List NodeId) (sets : Array (List NodeId)) (m : NodeId) (hm : m < sets.size) :
    (ns.foldl (fun sets n => sets.setIfInBounds n v) sets).getD m [] = if m ∈ ns then v else sets.getD m [] := by
  induction ns generalizing sets with
  | nil => simp
  | cons n ns ih =>
    rw [foldl_cons, ih _ (by simpa using hm)]
    by_cases hns : m ∈ ns
    · simp [hns]
    · by_cases hnm : n = m
      · simp [hnm, hm]
      · simp [hnm, Ne.symm hnm]

theorem allDominators_size : g.allDominators.size = g.nodes.size :=
  foldlRecOn (motive := fun sets : Array (List NodeId) => sets.size = g.nodes.size) _ _ (by simp) fun _ h _ _ => by simpa using h

include hg

theorem allDominators_getD (hn : n ∈ g.order) : g.allDominators.getD n [] = g.order := by
  rw [allDominators, allOver_getD _ _ _ _ (by simpa using hg.inTable n hn)]
  simp [hn]

theorem allDominators_roomy : Roomy g g.allDominators := by
  refine ⟨allDominators_size, fun n hn => ?_⟩
  rw [allDominators_getD hg hn]
  unfold dominatorStep
  cases g.liveFathers n with
  | nil => exact singleton_sublist.2 hn
  | cons f fs => exact filter_sublist

theorem allDominators_weight : weight g g.allDominators = g.order.length * g.order.length := by
  rw [weight, map_congr_left fun n hn => by rw [allDominators_getD hg hn]]
  simp

theorem dominatorSets_stable (P : Array (List NodeId) → Prop) (hP : ∀ sets, P sets → P (g.dominatorSweep sets))
    (hstart : P g.allDominators) :
    Roomy g g.dominatorSets ∧ P g.dominatorSets ∧ g.dominatorSweep g.dominatorSets = g.dominatorSets :=
  dominatorSweeps_spec hg hP (g.order.length * g.order.length + 1) (allDominators_roomy hg) hstart
    (by rw [allDominators_weight hg]; omega)

theorem dominatorSets_spec :
    Covers g e g.dominatorSets ∧ ∀ n ∈ g.order, g.dominatorSets.getD n [] = g.dominatorStep g.dominatorSets n := by
  have hstart : Covers g e g.allDominators := by
    intro n d hd
    rw [allDominators_getD hg (hg.reaches_mem hd.1)]
    exact hg.dominates_mem hd
  obtain ⟨hr, hc, hfix⟩ := dominatorSets_stable hg (Covers g e) (fun _ h => h.sweep hg g.order) hstart
  refine ⟨hc, fun n hn => ?_⟩
  have hle := (sweepOver_shrinks hg g.order (fun _ h => h) hr).2.2 n hn
  have hsame : sweepOver g g.order g.dominatorSets = g.dominatorSets := hfix
  rw [hsame] at hle
  exact hle.antisymm (hr.step n hn)

theorem mem_dominatorSets (hn : g.Reaches e n) : d ∈ g.dominatorSets.getD n [] ↔ g.Dominates e d n := by
  obtain ⟨hc, hfix⟩ := dominatorSets_spec hg
  refine ⟨fun hd => ⟨hn, fun ha => ?_⟩, hc n d⟩
  -- By induction on the way that avoids `d`: no set on it holds `d`.
  induction ha with
  | entry hne =>
    rw [hfix e hg.entry_mem, dominatorStep, (hg.liveFathers_eq_nil hg.entry_mem).2 fun _ => rfl] at hd
    exact hne (mem_singleton.1 hd).symm
  | @step m n hm hs hne ih =>
    have hmem := hg.reaches_mem hn
    have hlive : m ∈ g.liveFathers n := (hg.mem_liveFathers hmem).2 ⟨hm.reaches, hs⟩
    refine ih hm.reaches ?_
    rw [hfix n hmem, dominatorStep] at hd
    cases hf : g.liveFathers n with
    | nil => simp [hf] at hlive
    | cons f fs =>
      rw [hf] at hd hlive
      simp only [mem_filter, Bool.or_eq_true, beq_iff_eq, all_eq_true, contains_iff_mem] at hd
      rcases hd.2 with hdn | hall
      · exact absurd hdn.symm hne
      · exact hall m hlive

theorem dominatorSets_of_not_reaches (hn : n ∈ g.order) (hr : ¬ g.Reaches e n) : g.dominatorSets.getD n [] = [n] := by
  rw [(dominatorSets_spec hg).2 n hn, dominatorStep, (hg.liveFathers_eq_nil hn).2 fun h => absurd h hr]

theorem dominatorSets_nodup (hn : n ∈ g.order) : (g.dominatorSets.getD n []).Nodup := by
  rw [(dominatorSets_spec hg).2 n hn, dominatorStep]
  cases g.liveFathers n with
  | nil => simp
  | cons f fs => exact hg.nodup.filter _

end ContractAudit.Flow
