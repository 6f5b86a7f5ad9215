import ContractAudit.Proofs.Walk

/-! # Which nodes are renamed

A node is renamed exactly if it is served: it can be reached, and so can, in turn, all fathers of the joins on all ways to it
be served.
-/

namespace ContractAudit

open List

/-! ## Served nodes -/

namespace Flow

variable {g : Flow}

/-- The node waits for all its fathers. -/
def IsJoin (g : Flow) (n : NodeId) : Prop := g.kind n = .endIf ∨ g.kind n = .endLoop

/-- A node that the walk comes to. -/
inductive Served (g : Flow) (e : NodeId) : NodeId → Prop
  | mk {n : NodeId} : g.Reaches e n →
      (∀ j, g.Dominates e j n → g.IsJoin j → ∀ p ∈ g.fathers j, g.Served e p) → g.Served e n

theorem Served.reaches (h : g.Served e n) : g.Reaches e n := by
  cases h with
  | mk hr _ => exact hr

theorem Served.fathers (h : g.Served e n) (hj : g.Dominates e j n) (hjoin : g.IsJoin j)
    (hp : p ∈ g.fathers j) : g.Served e p := by
  cases h with
  | mk _ hall => exact hall j hj hjoin p hp

/-- The walk may come to a node once it is no join that waits. -/
def Callable (g : Flow) (e n : NodeId) : Prop :=
  g.Reaches e n ∧ ∀ j, g.StrictlyDominates e j n → g.IsJoin j → ∀ p ∈ g.fathers j, g.Served e p

theorem Callable.served (h : g.Callable e n) (hn : g.IsJoin n → ∀ p ∈ g.fathers n, g.Served e p) : g.Served e n := by
  refine .mk h.1 fun j hj hjoin p hp => ?_
  rcases hj.eq_or_strictly with rfl | hj
  · exact hn hjoin p hp
  · exact h.2 j hj hjoin p hp

theorem callable_entry : g.Callable e e := ⟨.entry, fun _ hj => (hj.2 hj.1.eq_entry).elim⟩

theorem IsImmediate.father (hd : g.IsImmediate e d n) (hp : g.Reaches e m) (hs : n ∈ g.sons m) :
    m = d ∨ g.InFrontier e m n := by
  by_cases hmd : m = d
  · exact .inl hmd
  · refine .inr ⟨m, hp, hs, .refl hp, fun hm => hmd ?_⟩
    exact (hd.2 m hm).antisymm (hd.1.father hp hs)

end Flow

namespace Rename

open Ir ContractAudit.Flow

theorem Grows.next (h : Grows f a b) : next f b = next f a := by
  funext n
  rw [Rename.next, Rename.next, h.dominance, h.flow]

theorem callable_of_mem_next (hr : Ready f e σ) (hn : (σ.2.flow f).Served e n) (hm : m ∈ next f σ.2 n) :
    (σ.2.flow f).Callable e m :=
  ⟨hr.dominance.reaches_of_onward hr.regular hm,
    fun _ hj hjoin _ hp => hn.fathers (hr.dominance.dominates_of_onward hr.regular hm hj) hjoin hp⟩

theorem isWaiting_iff :
    isWaiting g visited n = true ↔ g.IsJoin n ∧ ∃ p ∈ g.fathers n, p ∉ visited := by
  simp [isWaiting, IsJoin]

theorem not_waiting_of_skips (h : skips f σ n = false) (hj : (σ.2.flow f).IsJoin n) :
    ∀ p ∈ (σ.2.flow f).fathers n, p ∈ σ.1.visited := by
  intro p hp
  by_contra hno
  have hwait := isWaiting_iff.2 ⟨hj, p, hp, hno⟩
  simp [skips, hwait] at h

/-! ## Visits -/

/-- What is known about a visit of a walk that comes to a state. -/
structure Visit.Within (f : FunctionId) (e : NodeId) (τ : State) (v : Visit) : Prop where
  ready : Ready f e v.before
  skips : skips f v.before v.node = false
  converts : Converts f v.node v.before v.after
  afterwards : Grows f v.after.2 τ.2
  after_ssa : τ.2.ssa f v.node = v.after.2.ssa f v.node

/-- What is known when a node is renamed and the nodes after it are walked to. -/
theorem Converts.onwards (hr : Ready f e σ) (hc : Converts f m σ υ) (h : Walks f ms υ t υ') :
    Grows f σ.2 υ.2 ∧ υ.1.visited = m :: σ.1.visited ∧ (∀ n, n ≠ m → υ.2.ssa f n = σ.2.ssa f n) ∧ Ready f e υ ∧
      Grows f υ.2 υ'.2 ∧ Ready f e (restored σ υ') := by
  obtain ⟨hg, hvis, -, hssa⟩ := hc.frame hr
  have hrυ := hr.converts hc
  obtain ⟨hrυ', hg', -⟩ := h.frame hrυ
  exact ⟨hg, hvis, hssa, hrυ, hg', hr.restored hrυ' (hg.trans hg')⟩

theorem exists_last {P : α → Prop} (h : ∃ x ∈ l, P x) :
    ∃ l₁ x l₂, l = l₁ ++ x :: l₂ ∧ P x ∧ ∀ y ∈ l₂, ¬ P y := by
  induction l with
  | nil => simp at h
  | cons a l ih =>
    by_cases hl : ∃ x ∈ l, P x
    · obtain ⟨l₁, x, l₂, rfl, hx, hlast⟩ := ih hl
      exact ⟨a :: l₁, x, l₂, rfl, hx, hlast⟩
    · obtain ⟨x, hx, hP⟩ := h
      rcases mem_cons.1 hx with rfl | hx
      · exact ⟨[], x, l, rfl, hP, fun y hy hPy => hl ⟨y, hy, hPy⟩⟩
      · exact (hl ⟨x, hx, hP⟩).elim

theorem append_eq_append_cons (h : l ++ l' = xs ++ x :: ys) :
    (∃ zs, l = xs ++ x :: zs) ∨ ∃ zs, xs = l ++ zs ∧ l' = zs ++ x :: ys := by
  rcases append_eq_append_iff.1 h with ⟨zs, hxs, hzs⟩ | ⟨zs, hl, hzs⟩
  · exact .inr ⟨zs, hxs, hzs⟩
  · cases zs with
    | nil => exact .inr ⟨[], by simpa using hl.symm, hzs.symm⟩
    | cons z zs => exact .inl ⟨zs, by simp_all⟩

section

variable (h : Walks f ms σ t τ) (hr : Ready f e σ)

include h hr

theorem Walks.ssa (hn : n ∉ t.map Visit.node) : τ.2.ssa f n = σ.2.ssa f n := by
  induction h with
  | nil => rfl
  | skip _ _ ih => exact ih hr hn
  | visit hs hc hnext _ ih ih' =>
    rw [map_cons, map_append, mem_cons, mem_append] at hn
    push Not at hn
    obtain ⟨hg, -, hssa, hrυ, hg', hrρ⟩ := hc.onwards hr hnext
    rw [ih' hrρ hn.2.2]
    exact (ih hrυ hn.2.1).trans (hssa n hn.1)

theorem Walks.visited_mem : n ∈ τ.1.visited ↔ n ∈ t.map Visit.node ∨ n ∈ σ.1.visited := by
  rw [(h.frame hr).2.2, mem_append, mem_reverse]

theorem Walks.not_visited (hn : n ∈ σ.1.visited) : n ∉ t.map Visit.node := by
  induction h with
  | nil => simp
  | skip _ _ ih => exact ih hr hn
  | @visit m ms σ υ υ' τ t t' hs hc hnext _ ih ih' =>
    obtain ⟨hg, hvis, -, hrυ, hg', hrρ⟩ := hc.onwards hr hnext
    have hn' : n ∈ υ.1.visited := by simp [hvis, hn]
    simp only [map_cons, map_append, mem_cons, mem_append, not_or]
    refine ⟨fun h => not_mem_of_skips hs (h ▸ hn), ih hrυ hn', ?_⟩
    exact ih' hrρ ((hnext.visited_mem hrυ).2 (.inr hn'))

theorem Walks.within : ∀ v ∈ t, v.Within f e τ := by
  induction h with
  | nil => simp
  | skip _ _ ih => exact ih hr
  | @visit m ms σ υ υ' τ t t' hs hc hnext hrest ih ih' =>
    obtain ⟨-, hvis, -, hrυ, hg', hrρ⟩ := hc.onwards hr hnext
    obtain ⟨-, hg'', -⟩ := hrest.frame hrρ
    -- What is done when the walk comes back is not visited again.
    have hkeeps : ∀ n ∈ υ'.1.visited, τ.2.ssa f n = υ'.2.ssa f n := fun n hn => hrest.ssa hrρ (hrest.not_visited hrρ hn)
    intro v hv
    rcases mem_cons.1 hv with rfl | hv
    · have hm : m ∈ υ.1.visited := by simp [hvis]
      refine ⟨hr, hs, hc, hg'.trans hg'', (hkeeps m ((hnext.visited_mem hrυ).2 (.inr hm))).trans ?_⟩
      exact hnext.ssa hrυ (hnext.not_visited hrυ hm)
    · rcases mem_append.1 hv with hv | hv
      · have hw := ih hrυ v hv
        have hdone : v.node ∈ υ'.1.visited := (hnext.visited_mem hrυ).2 (.inl (mem_map_of_mem hv))
        exact ⟨hw.ready, hw.skips, hw.converts, hw.afterwards.trans hg'', (hkeeps _ hdone).trans hw.after_ssa⟩
      · exact ih' hrρ v hv

theorem Walks.visited_before (ht : t = t₁ ++ v :: t₂) :
    v.before.1.visited = (t₁.map Visit.node).reverse ++ σ.1.visited := by
  induction h generalizing t₁ t₂ with
  | nil => simp at ht
  | skip _ _ ih => exact ih hr ht
  | @visit m ms σ υ υ' τ t t' hs hc hnext hrest ih ih' =>
    obtain ⟨-, hvis, -, hrυ, -, hrρ⟩ := hc.onwards hr hnext
    obtain ⟨-, -, hvis'⟩ := hnext.frame hrυ
    cases t₁ with
    | nil =>
      simp only [nil_append, cons.injEq] at ht
      rw [← ht.1]
      simp
    | cons w t₁ =>
      simp only [cons_append, cons.injEq] at ht
      obtain ⟨rfl, ht⟩ := ht
      rcases append_eq_append_cons ht with ⟨s, rfl⟩ | ⟨s, rfl, hs⟩
      · rw [ih hrυ rfl, hvis]
        simp
      · have hρ : (restored σ υ').1.visited = υ'.1.visited := rfl
        rw [ih' hrρ hs, hρ, hvis', hvis]
        simp

theorem Walks.parent (hv : v ∈ t) : (v.node ∈ ms ∧ v.before.1.locals = σ.1.locals ∧ v.before.1.states = σ.1.states) ∨
    ∃ u ∈ t, v.node ∈ next f σ.2 u.node ∧ u.node ∈ v.before.1.visited ∧
      v.before.1.locals = u.after.1.locals ∧ v.before.1.states = u.after.1.states := by
  induction h with
  | nil => simp at hv
  | skip _ _ ih =>
    rcases ih hr hv with ⟨hm, heq⟩ | h
    · exact .inl ⟨by simp [hm], heq⟩
    · exact .inr h
  | @visit m ms σ υ υ' τ t t' hs hc hnext hrest ih ih' =>
    obtain ⟨hg, hvis, -, hrυ, hg', hrρ⟩ := hc.onwards hr hnext
    rcases mem_cons.1 hv with rfl | hv
    · exact .inl ⟨by simp, rfl, rfl⟩
    · rcases mem_append.1 hv with hv | hv
      · rcases ih hrυ hv with ⟨hm, heq⟩ | ⟨u, hu, hm, hrest⟩
        · refine .inr ⟨⟨m, σ, υ⟩, by simp, hg.next ▸ hm, ?_, heq⟩
          obtain ⟨t₁, t₂, rfl⟩ := append_of_mem hv
          rw [hnext.visited_before hrυ rfl, hvis]
          simp
        · exact .inr ⟨u, by simp [hu], hg.next ▸ hm, hrest⟩
      · rcases ih' hrρ hv with ⟨hm, heq⟩ | ⟨u, hu, hm, hrest⟩
        · exact .inl ⟨by simp [hm], heq⟩
        · exact .inr ⟨u, by simp [hu], (hg.trans hg').next ▸ hm, hrest⟩

/-- What the renaming of a node keeps, and going back to a place, holds all along a walk. -/
theorem Walks.keeps {P : State → Prop} (hP : P σ)
    (hconverts : ∀ {n σ τ}, Ready f e σ → n ∉ σ.1.visited → P σ → Converts f n σ τ → P τ)
    (hback : ∀ {σ τ}, Grows f σ.2 τ.2 → P σ → P τ → P (restored σ τ)) : P τ ∧ ∀ v ∈ t, P v.before := by
  induction h with
  | nil => exact ⟨hP, by simp⟩
  | skip _ _ ih => exact ih hr hP
  | @visit m ms σ υ υ' τ t t' hs hc hnext _ ih ih' =>
    obtain ⟨hg, -, -, hrυ, hg', hrρ⟩ := hc.onwards hr hnext
    obtain ⟨hPυ', ht⟩ := ih hrυ (hconverts hr (not_mem_of_skips hs) hP hc)
    obtain ⟨hPτ, ht'⟩ := ih' hrρ (hback (hg.trans hg') hP hPυ')
    exact ⟨hPτ, forall_mem_cons.2 ⟨hP, forall_mem_append.2 ⟨ht, ht'⟩⟩⟩

/-! ## Only served nodes are visited -/

theorem Walks.served (hms : ∀ m ∈ ms, (σ.2.flow f).Callable e m)
    (hσ : ∀ n ∈ σ.1.visited, (σ.2.flow f).Served e n) : ∀ n ∈ τ.1.visited, (σ.2.flow f).Served e n := by
  induction h with
  | nil => exact hσ
  | skip _ _ ih => exact ih hr (fun m hm => hms m (by simp [hm])) hσ
  | @visit m ms σ υ υ' τ t t' hs hc hnext hrest ih ih' =>
    obtain ⟨hg, hvis, -, hrυ, hg', hrρ⟩ := hc.onwards hr hnext
    have hm : (σ.2.flow f).Served e m :=
      (hms m (by simp)).served fun hj p hp => hσ p (not_waiting_of_skips hs hj p hp)
    have hυ : ∀ n ∈ υ.1.visited, (υ.2.flow f).Served e n := by
      rw [hvis, hg.flow]
      exact forall_mem_cons.2 ⟨hm, hσ⟩
    have hυ' := ih hrυ (fun x hx => callable_of_mem_next hrυ (hg.flow ▸ hm) hx) hυ
    have hflow : (restored σ υ').2.flow f = σ.2.flow f := (hg.trans hg').flow
    have hτ := ih' hrρ (fun x hx => hflow ▸ hms x (by simp [hx])) (by
      rw [hflow, ← hg.flow]
      exact hυ')
    rwa [hflow] at hτ

/-! ## All served nodes are visited -/

theorem Walks.done_or_waiting (hm : m ∈ ms) :
    m ∈ τ.1.visited ∨ ∃ done, σ.1.visited ⊆ done ∧ isWaiting (σ.2.flow f) done m = true := by
  induction h with
  | nil => simp at hm
  | @skip m' ms σ τ t hs hrest ih =>
    rcases mem_cons.1 hm with rfl | hm
    · rcases Bool.or_eq_true_iff.1 hs with hs | hs
      · exact .inl ((hrest.visited_mem hr).2 (.inr (by simpa using hs)))
      · exact .inr ⟨_, Subset.refl _, hs⟩
    · exact ih hr hm
  | @visit m' ms σ υ υ' τ t t' hs hc hnext hrest ih ih' =>
    obtain ⟨hg, hvis, -, hrυ, hg', hrρ⟩ := hc.onwards hr hnext
    have hsub : σ.1.visited ⊆ (restored σ υ').1.visited := fun x hx =>
      (hnext.visited_mem hrυ).2 (.inr (by simp [hvis, hx]))
    rcases mem_cons.1 hm with rfl | hm
    · exact .inl ((hrest.visited_mem hrρ).2 (.inr ((hnext.visited_mem hrυ).2 (.inr (by simp [hvis])))))
    · rcases ih' hrρ hm with h | ⟨done, hdone, hw⟩
      · exact .inl h
      · refine .inr ⟨done, fun x hx => hdone (hsub hx), ?_⟩
        have hflow : (restored σ υ').2.flow f = σ.2.flow f := (hg.trans hg').flow
        rwa [hflow] at hw

theorem Walks.next_done_or_waiting (hv : v ∈ t) (hm : m ∈ next f σ.2 v.node) :
    m ∈ τ.1.visited ∨ ∃ done, v.node :: v.before.1.visited ⊆ done ∧ isWaiting (σ.2.flow f) done m = true := by
  induction h with
  | nil => simp at hv
  | skip _ _ ih => exact ih hr hv hm
  | @visit m' ms σ υ υ' τ t t' hs hc hnext hrest ih ih' =>
    obtain ⟨hg, hvis, -, hrυ, hg', hrρ⟩ := hc.onwards hr hnext
    have hlater : m ∈ υ'.1.visited → m ∈ τ.1.visited := fun h => (hrest.visited_mem hrρ).2 (.inr h)
    rcases mem_cons.1 hv with rfl | hv
    · rw [← hg.next] at hm
      rcases hnext.done_or_waiting hrυ hm with h | ⟨done, hdone, hw⟩
      · exact .inl (hlater h)
      · rw [hvis] at hdone
        rw [hg.flow] at hw
        exact .inr ⟨done, hdone, hw⟩
    · rcases mem_append.1 hv with hv | hv
      · rw [← hg.next] at hm
        rcases ih hrυ hv hm with h | ⟨done, hdone, hw⟩
        · exact .inl (hlater h)
        · rw [hg.flow] at hw
          exact .inr ⟨done, hdone, hw⟩
      · have hflow : (restored σ υ').2.flow f = σ.2.flow f := (hg.trans hg').flow
        rw [← (hg.trans hg').next] at hm
        rcases ih' hrρ hv hm with h | ⟨done, hdone, hw⟩
        · exact .inl h
        · rw [hflow] at hw
          exact .inr ⟨done, hdone, hw⟩

/-- A join all of whose fathers are done is done as well: the last of them walks to it. -/
theorem Walks.join_done (hσ : σ.1.visited = []) (hn : (σ.2.flow f).Reaches e n) (hne : n ≠ e)
    (hp : ∀ p ∈ (σ.2.flow f).fathers n, (σ.2.flow f).Reaches e p ∧ p ∈ τ.1.visited) : n ∈ τ.1.visited := by
  obtain ⟨d, hd⟩ := exists_immediate hr.regular hn hne
  obtain ⟨q, hq, hqs⟩ := exists_father_avoiding hn hne
  have hnmem := hr.regular.reaches_mem hn
  have hqf := (hr.regular.mirrored q (hr.regular.reaches_mem hq.reaches) n hnmem).1 hqs
  have hvisit : ∀ p ∈ τ.1.visited, p ∈ t.map Visit.node := fun p hp => by
    simpa [hσ] using (h.visited_mem hr).1 hp
  obtain ⟨w, hw, hwq⟩ := mem_map.1 (hvisit q (hp q hqf).2)
  obtain ⟨t₁, v, t₂, ht, hv, hlast⟩ := exists_last (P := fun v : Visit => v.node ∈ (σ.2.flow f).fathers n) ⟨w, hw, hwq ▸ hqf⟩
  -- When the last father is visited, all fathers are done.
  have hall : ∀ p ∈ (σ.2.flow f).fathers n, p ∈ v.node :: v.before.1.visited := by
    intro p hpf
    obtain ⟨x, hx, rfl⟩ := mem_map.1 (hvisit p (hp p hpf).2)
    rw [h.visited_before hr ht, hσ, append_nil, mem_cons, mem_reverse]
    rw [ht, mem_append, mem_cons] at hx
    rcases hx with hx | rfl | hx
    · exact .inr (mem_map_of_mem hx)
    · exact .inl rfl
    · exact (hlast x hx hpf).elim
  have hson := (hr.regular.mirrored v.node (hr.regular.reaches_mem (hp _ hv).1) n hnmem).2 hv
  have hnext : n ∈ next f σ.2 v.node := by
    rw [mem_next hr]
    rcases hd.father (hp _ hv).1 hson with hvd | hfront
    · exact .inl (hvd ▸ hd)
    · exact .inr hfront
  rcases h.next_done_or_waiting hr (ht ▸ by simp) hnext with hdone | ⟨done, hdone, hwait⟩
  · exact hdone
  · obtain ⟨-, p, hpf, hno⟩ := isWaiting_iff.1 hwait
    exact (hno (hdone (hall p hpf))).elim

theorem Walks.child_done (hσ : σ.1.visited = []) (hd : (σ.2.flow f).IsImmediate e d n) (hdone : d ∈ τ.1.visited)
    (hjoin : ¬ (σ.2.flow f).IsJoin n) :
    n ∈ τ.1.visited := by
  obtain ⟨v, hv, rfl⟩ := mem_map.1 (((h.visited_mem hr).1 hdone).resolve_right (by simp [hσ]))
  rcases h.next_done_or_waiting hr hv ((mem_next hr).2 (.inl hd)) with hdone | ⟨done, -, hwait⟩
  · exact hdone
  · exact (hjoin (isWaiting_iff.1 hwait).1).elim

end

theorem Walks.entry_done (h : Walks f [e] σ t τ) (hr : Ready f e σ) : e ∈ τ.1.visited := by
  rcases h.done_or_waiting hr (m := e) (by simp) with hdone | ⟨done, -, hwait⟩
  · exact hdone
  · obtain ⟨-, p, hp, -⟩ := isWaiting_iff.1 hwait
    rw [hr.regular.entry_first] at hp
    simp at hp

theorem Walks.visited_iff (h : Walks f [e] σ t τ) (hr : Ready f e σ) (hσ : σ.1.visited = []) :
    n ∈ τ.1.visited ↔ (σ.2.flow f).Served e n := by
  have hserved : ∀ n ∈ τ.1.visited, (σ.2.flow f).Served e n :=
    h.served hr (fun m hm => mem_singleton.1 hm ▸ callable_entry) (by simp [hσ])
  refine ⟨hserved n, fun hn => ?_⟩
  induction hn with
  | @mk n hn _ ih =>
    -- The dominators of the node are done one after the other.
    suffices key : ∀ k d, (σ.2.flow f).depth d = k → (σ.2.flow f).Dominates e d n → d ∈ τ.1.visited from
      key _ n rfl (.refl hn)
    intro k
    induction k using Nat.strongRecOn with
    | ind k ihk =>
      intro d hdk hd
      by_cases hde : d = e
      · exact hde ▸ h.entry_done hr
      · by_cases hjoin : (σ.2.flow f).IsJoin d
        · refine h.join_done hr hσ hd.reaches hde fun p hp => ?_
          have hdone := ih d hd hjoin p hp
          exact ⟨(hserved p hdone).reaches, hdone⟩
        · obtain ⟨i, hi⟩ := exists_immediate hr.regular hd.reaches hde
          have hidone := ihk _ (hdk ▸ depth_lt hr.regular hi.1) i rfl (hi.1.1.trans hd)
          exact h.child_done hr hσ hi hidone hjoin

end Rename

end ContractAudit
