import ContractAudit.Proofs.DominatorTree
import ContractAudit.Proofs.Renaming

/-! # The walk over the nodes of a function

The walk renames a node, then goes to the nodes that it dominates immediately and to those of its frontier, but for nodes
that are done and joins that still wait for a father. Without its fuel it is a relation between states, with the list of
visits.
-/

namespace ContractAudit.Rename

open Ir ContractAudit.Flow List

/-! ## What a node is renamed in -/

/-- What holds whenever a node of a function is renamed. -/
structure Ready (f : FunctionId) (e : NodeId) (σ : State) : Prop where
  regular : (σ.2.flow f).Regular e
  dominance : (σ.2.flow f).IsDominance e (σ.2.dominance f)
  prepared : Prepared f σ.2
  tabled : Tabled σ
  /-- Nodes that are not done hold only places where versions meet. -/
  pristine : ∀ n ∉ σ.1.visited, ∀ i ∈ σ.2.ssa f n, IsMeeting i

/-- Back to the versions of a place. -/
def restored (σ τ : State) : State := ({ τ.1 with locals := σ.1.locals, states := σ.1.states }, τ.2)

theorem current_restored {σ τ : State} {K : Key} : (restored σ τ).1.current K = σ.1.current K := by
  cases K <;> rfl

theorem latest_restored {σ τ : State} {K : Key} : (restored σ τ).1.latest K = τ.1.latest K := by
  cases K <;> rfl

theorem Ready.meeting (h : Ready f e σ) (hn : n ∉ σ.1.visited) :
    ∀ i ∈ σ.2.ssa f n, ∃ j nodes, i = { op := .phi (.version j) [] nodes } := by
  intro i hi
  obtain ⟨k, nodes, rfl, -⟩ := h.pristine n hn i hi
  exact ⟨k, nodes, rfl⟩

theorem Converts.frame (hr : Ready f e σ) (h : Converts f n σ τ) :
    Grows f σ.2 τ.2 ∧ τ.1.visited = n :: σ.1.visited ∧ Tabled τ ∧ ∀ m, m ≠ n → τ.2.ssa f m = σ.2.ssa f m := by
  obtain ⟨phis, new, υ, υ', hall, hsets, hsteps, -⟩ := h.steps hr.tabled (hr.prepared.plain n)
  refine ⟨hall.grows.trans (hsets.grows.trans hsteps.grows), ?_, ?_, fun m hm => ?_⟩
  · rw [hsteps.visited, hsets.naming, hall.visited]
    rfl
  · exact stable_tabled.converts hr.tabled (hr.prepared.plain n) hr.tabled.entering h
  · rw [hsteps.ssa, if_neg hm, hsets.ssa, if_neg hm, hall.ssa]
    rfl

theorem Ready.converts (hr : Ready f e σ) (h : Converts f n σ τ) : Ready f e τ := by
  obtain ⟨hg, hvis, ht, hssa⟩ := h.frame hr
  refine ⟨?_, ?_, hr.prepared.grows hg, ht, ?_⟩
  · rw [hg.flow]
    exact hr.regular
  · rw [hg.flow, hg.dominance]
    exact hr.dominance
  · intro m hm i hi
    rw [hvis, mem_cons, not_or] at hm
    rw [hssa m hm.1] at hi
    exact hr.pristine m hm.2 i hi

theorem Tabled.restored (hσ : Tabled σ) (hτ : Tabled τ) (hg : Grows f σ.2 τ.2) : Tabled (restored σ τ) where
  current K i hi := by
    obtain ⟨hlt, hkey⟩ := hσ.current K i hi
    exact ⟨Nat.lt_of_lt_of_le hlt hg.size, (hg.key hlt).trans hkey⟩
  latest K i hi := hτ.latest K i (by rwa [latest_restored] at hi)

theorem Ready.restored (hσ : Ready f e σ) (hτ : Ready f e τ) (hg : Grows f σ.2 τ.2) : Ready f e (restored σ τ) where
  regular := hτ.regular
  dominance := hτ.dominance
  prepared := hτ.prepared
  tabled := hσ.tabled.restored hτ.tabled hg
  pristine := hτ.pristine

/-! ## Walks -/

/-- The renaming of a node, with the states before and after it. -/
structure Visit where
  node : NodeId
  before : State
  after : State

def skips (f : FunctionId) (σ : State) (m : NodeId) : Bool :=
  σ.1.visited.contains m || isWaiting (σ.2.flow f) σ.1.visited m

/-- The nodes that are walked to after a node. -/
def next (f : FunctionId) (a : Analysis) (n : NodeId) : List NodeId :=
  (a.dominance f).onward (a.flow f).order n

/-- A walk to some nodes, one after the other and each from the same place, with its visits. -/
inductive Walks (f : FunctionId) : List NodeId → State → List Visit → State → Prop
  | nil (σ : State) : Walks f [] σ [] σ
  | skip {ms : List NodeId} : skips f σ m = true → Walks f ms σ t τ →
      Walks f (m :: ms) σ t τ
  | visit {ms : List NodeId} {σ υ υ' τ : State} {t t' : List Visit} : skips f σ m = false →
      Converts f m σ υ → Walks f (next f υ.2 m) υ t υ' → Walks f ms (restored σ υ') t' τ →
      Walks f (m :: ms) σ (⟨m, σ, υ⟩ :: (t ++ t')) τ

theorem not_mem_of_skips (h : skips f σ m = false) : m ∉ σ.1.visited := by
  simp only [skips, Bool.or_eq_false_iff] at h
  simpa using h.1

theorem Walks.frame (h : Walks f ms σ t τ) (hr : Ready f e σ) :
    Ready f e τ ∧ Grows f σ.2 τ.2 ∧ τ.1.visited = (t.map Visit.node).reverse ++ σ.1.visited := by
  induction h with
  | nil σ => exact ⟨hr, .refl f _, rfl⟩
  | skip _ _ ih => exact ih hr
  | @visit m ms σ υ υ' τ t t' _ hc _ _ ih ih' =>
    obtain ⟨hg₁, hv₁, -, -⟩ := hc.frame hr
    obtain ⟨hr₂, hg₂, hv₂⟩ := ih (hr.converts hc)
    have hg := hg₁.trans hg₂
    obtain ⟨hr₃, hg₃, hv₃⟩ := ih' (hr.restored hr₂ hg)
    refine ⟨hr₃, hg.trans hg₃, ?_⟩
    have hvis : (restored σ υ').1.visited = υ'.1.visited := rfl
    rw [hv₃, hvis, hv₂, hv₁]
    simp

/-! ## The walk is a walk -/

theorem Walks.append (h : Walks f ms σ t τ) (h' : Walks f ms' τ t' υ) :
    Walks f (ms ++ ms') σ (t ++ t') υ := by
  induction h with
  | nil => exact h'
  | skip hs _ ih => exact .skip hs (ih h')
  | visit hs hc hnext _ _ ih' =>
    have hvisit := Walks.visit hs hc hnext (ih' h')
    rw [← append_assoc] at hvisit
    exact hvisit

theorem mem_next (hr : Ready f e σ) :
    m ∈ next f σ.2 n ↔ (σ.2.flow f).IsImmediate e n m ∨ (σ.2.flow f).InFrontier e n m :=
  hr.dominance.mem_onward hr.regular

theorem Ready.next_mem (hr : Ready f e σ) : ∀ m ∈ next f σ.2 n, m ∈ (σ.2.flow f).order :=
  fun _ hm => hr.regular.reaches_mem (hr.dominance.reaches_of_onward hr.regular hm)

/-- There is fuel for all nodes that are not done. -/
structure Fuelled (f : FunctionId) (fuel : Nat) (σ : State) : Prop where
  nodup : σ.1.visited.Nodup
  mem : ∀ n ∈ σ.1.visited, n ∈ (σ.2.flow f).order
  length : (σ.2.flow f).order.length ≤ fuel + σ.1.visited.length

theorem Fuelled.succ (h : Fuelled f fuel σ) : Fuelled f (fuel + 1) σ :=
  ⟨h.nodup, h.mem, by have := h.length; omega⟩

theorem Fuelled.restored (h : Fuelled f fuel τ) : Fuelled f fuel (restored σ τ) :=
  ⟨h.nodup, h.mem, h.length⟩

theorem Fuelled.skips (h : Fuelled f 0 σ) (hm : m ∈ (σ.2.flow f).order) : skips f σ m = true := by
  by_contra hno
  have hle := ((nodup_cons.2 ⟨not_mem_of_skips (Bool.eq_false_iff.2 hno), h.nodup⟩).subperm
    (cons_subset.2 ⟨hm, h.mem⟩)).length_le
  have hlen := h.length
  simp only [length_cons] at hle
  omega

theorem Fuelled.converts (h : Fuelled f (fuel + 1) σ) (hr : Ready f e σ) (hs : Rename.skips f σ m = false)
    (hm : m ∈ (σ.2.flow f).order) (hc : Converts f m σ τ) : Fuelled f fuel τ := by
  obtain ⟨hg, hvis, -, -⟩ := hc.frame hr
  refine ⟨?_, ?_, ?_⟩
  · rw [hvis]
    exact nodup_cons.2 ⟨not_mem_of_skips hs, h.nodup⟩
  · rw [hvis, hg.flow]
    exact cons_subset.2 ⟨hm, h.mem⟩
  · rw [hvis, hg.flow, length_cons]
    have := h.length
    omega

theorem Walks.fuelled (h : Walks f ms σ t τ) (hr : Ready f e σ)
    (hms : ∀ m ∈ ms, m ∈ (σ.2.flow f).order) (hf : Fuelled f fuel σ) : Fuelled f fuel τ := by
  induction h with
  | nil => exact hf
  | skip _ _ ih => exact ih hr (fun m hm => hms m (by simp [hm])) hf
  | @visit m ms σ υ υ' τ t t' hs hc hnext _ ih ih' =>
    have hrυ := hr.converts hc
    have hfυ' := ih hrυ hrυ.next_mem (hf.succ.converts hr hs (hms m (by simp)) hc)
    obtain ⟨hrυ', hg, -⟩ := hnext.frame hrυ
    have hg' := (hc.frame hr).1.trans hg
    refine ih' (hr.restored hrυ' hg') (fun x hx => ?_) hfυ'.restored
    change x ∈ (υ'.2.flow f).order
    rw [hg'.flow]
    exact hms x (by simp [hx])

theorem runs_inPlace (h : Runs (inPlace x) σ u τ) : ∃ v υ, Runs x σ v υ ∧ τ = restored σ υ := by
  replace h := runs_get_bind h
  obtain ⟨v, υ, hv, h⟩ := runs_bind.1 h
  exact ⟨v, υ, hv, runs_modify h⟩

/-- Walking to some nodes one after the other, with fuel for each. -/
def walkAll (f : FunctionId) (fuel : Nat) (ms : List NodeId) : Rename PUnit :=
  forIn ms PUnit.unit fun m _ => do
    inPlace (walk f fuel m)
    pure (.yield PUnit.unit)

/-- A step of the walk: a node is passed over, or renamed before the nodes after it are walked to. -/
theorem walk_cases (hr : Ready f e σ) (hf : Fuelled f fuel σ) (hm : m ∈ (σ.2.flow f).order)
    (h : Runs (walk f fuel m) σ u τ) :
    skips f σ m = true ∧ τ = σ ∨ skips f σ m = false ∧ ∃ k υ υ' r r', fuel = k + 1 ∧ Converts f m σ υ ∧
      Runs (walkAll f k ((υ.2.dominance f).successors (υ.2.flow f).order m)) υ r υ' ∧
      Runs (walkAll f k ((υ.2.dominance f).frontierOf m)) υ' r' τ := by
  cases fuel with
  | zero => exact .inl ⟨hf.skips hm, (runs_pure.1 h).2⟩
  | succ k =>
    change Runs (if skips f σ m = true then _ else _) σ u τ at h
    by_cases hskip : skips f σ m = true
    · rw [if_pos hskip] at h
      exact .inl ⟨hskip, (runs_pure.1 h).2⟩
    · rw [if_neg hskip] at h
      have hskip := Bool.eq_false_iff.2 hskip
      obtain ⟨v, υ, hv, h⟩ := runs_bind.1 h
      have hc := node_converts hr.prepared hr.tabled (hr.meeting (not_mem_of_skips hskip)) hv
      replace h := runs_analysis_bind.1 h
      obtain ⟨r, υ', hloop, h⟩ := runs_bind.1 h
      obtain ⟨r', hloop', -⟩ := runs_bind_pure h
      rw [← (hc.frame hr).1.flow] at hloop
      exact .inr ⟨hskip, k, υ, υ', r, r', rfl, hc, hloop, hloop'⟩

theorem walks_of_walkAll : ∀ {ms : List NodeId} {σ τ : State} {r : PUnit}, Ready f e σ → Fuelled f fuel σ →
    (∀ m ∈ ms, m ∈ (σ.2.flow f).order) → Runs (walkAll f fuel ms) σ r τ → ∃ t, Walks f ms σ t τ := by
  induction fuel using Nat.strongRecOn with
  | ind fuel ih =>
    intro ms σ τ r hr hf hms h
    refine forIn_runs (fun done υ => ∃ t, Walks f done σ t υ) h ⟨[], .nil σ⟩ fun done m rest heq υ _ _ ⟨t, ht⟩ hround => ?_
    obtain ⟨u, hu, rfl⟩ := runs_bind_pure hround
    obtain ⟨v, ρ, hv, rfl⟩ := runs_inPlace hu
    replace hf := ht.fuelled hr (fun x hx => hms x (by simp [heq, hx])) hf
    obtain ⟨hr, hg, -⟩ := ht.frame hr
    have hm : m ∈ (υ.2.flow f).order := hg.flow ▸ hms m (by simp [heq])
    suffices hone : ∃ t', Walks f [m] υ t' (restored υ ρ) from ⟨rfl, _, ht.append hone.choose_spec⟩
    rcases walk_cases hr hf hm hv with ⟨hs, rfl⟩ | ⟨hs, k, υ, υ', r₁, r₂, rfl, hc, hsucc, hfront⟩
    · exact ⟨[], .skip hs (.nil _)⟩
    · have hrυ := hr.converts hc
      have hfυ := hf.converts hr hs hm hc
      have hnext := hrυ.next_mem (n := m)
      obtain ⟨t₁, ht₁⟩ := ih k k.lt_succ_self hrυ hfυ (fun x hx => hnext x (mem_append_left _ hx)) hsucc
      have hfυ' := ht₁.fuelled hrυ (fun x hx => hnext x (mem_append_left _ hx)) hfυ
      obtain ⟨hrυ', hg', -⟩ := ht₁.frame hrυ
      obtain ⟨t₂, ht₂⟩ := ih k k.lt_succ_self hrυ' hfυ' (fun x hx => hg'.flow ▸ hnext x (mem_append_right _ hx)) hfront
      exact ⟨_, .visit hs hc (ht₁.append ht₂) (.nil _)⟩

end ContractAudit.Rename
