import ContractAudit.Proofs.Outcomes
import ContractAudit.Proofs.Written

/-! # Before the walk

Places where versions meet are put into the nodes, and parameters, results and declared variables get their first versions.
Nothing is read or written yet.
-/

namespace ContractAudit

open Ir Table List Analysis Program

variable {x : String}

theorem foldlM_keeps {α β : Type} {g : β → α → Result β} (P : β → Prop) {xs : List α} {b c : β}
    (h : xs.foldlM g b = .ok c) (hb : P b) (hstep : ∀ b x c, x ∈ xs → P b → g b x = .ok c → P c) : P c := by
  induction xs generalizing b with
  | nil =>
    cases h
    exact hb
  | cons x xs ih =>
    obtain ⟨b', hx, h⟩ := bind_eq_ok.1 h
    exact ih h (hstep b x b' (by simp) hb hx) fun b y c hy => hstep b y c (by simp [hy])

/-! ## Which versions meet -/

namespace Analysis

variable {a : Analysis} {Q : VariableId → Prop}

/-- A variable that has a version from the beginning: a parameter or a result with a name, or one that a node
declares. -/
def Begins (a : Analysis) (f : FunctionId) (v : VariableId) : Prop :=
  (v ∈ (a.program.function f).parameters ++ (a.program.function f).returns ∧ (a.program.var v).name ≠ "") ∨
    ∃ n ∈ a.nodeIds f, ((a.flow f).node n).declared = some v

/-- A local or a state variable that a node writes. -/
def Written (a : Analysis) (f : FunctionId) (v : VariableId) : Prop :=
  (∃ n, .target (.var v) ∈ (a.nodeCode f n).written) ∧
    (a.program.isLocalVariable v = true ∨ a.program.isStateVariable v = true)

/-- All definitions are of variables of a kind. -/
def DefinesOnly (Q : VariableId → Prop) (d : Definitions) : Prop :=
  (∀ e ∈ d.locals, Q e.2.1) ∧ ∀ e ∈ d.states, Q e.2.1

/-- All origins are of variables of a kind. -/
def OriginsOnly (Q : VariableId → Prop) (o : Origins) : Prop :=
  ∀ n, (∀ e ∈ o.locals.getD n [], Q e.2.variable_) ∧ ∀ e ∈ o.states.getD n [], Q e.2.variable_

theorem foldl_insert_only {k : VariableId → String} {vs : List VariableId} {t : Table String (VariableId × NodeId)}
    (h : ∀ e ∈ t, Q e.2.1) (hvs : ∀ v ∈ vs, Q v) : ∀ e ∈ vs.foldl (fun t v => t.insert (k v) (v, n)) t, Q e.2.1 := by
  refine foldlRecOn (motive := fun t : Table String (VariableId × NodeId) => ∀ e ∈ t, Q e.2.1) _ _ h fun t ht v hv e he => ?_
  rcases mem_insert he with rfl | he
  · exact hvs v hv
  · exact ht e he

theorem addTo_only {name : String} (hv : Q v)
    (h : ∀ e ∈ t, Q e.2.variable_) (hadd : Origins.addTo t name v n = .ok t') : ∀ e ∈ t', Q e.2.variable_ := by
  unfold Origins.addTo at hadd
  dsimp only at hadd
  split at hadd
  · cases hadd
  · rename_i hsame
    cases hadd
    intro e he
    rcases mem_insert he with rfl | he
    · have hsame : ((find? name t).getD { variable_ := v }).variable_ = v := by simpa using hsame
      rw [hsame]
      exact hv
    · exact h e he

theorem OriginsOnly.add (hd : DefinesOnly Q d) (h : OriginsOnly Q o) (hadd : addOrigins d o n = .ok o') :
    OriginsOnly Q o' := by
  obtain ⟨locals, hl, hadd⟩ := bind_eq_ok.1 hadd
  obtain ⟨states, hs, hadd⟩ := bind_eq_ok.1 hadd
  cases hadd
  have hlocals : ∀ e ∈ locals, Q e.2.variable_ := by
    refine foldlM_keeps (fun t : Table String Origin => ∀ e ∈ t, Q e.2.variable_) hl (h n).1 fun t x t' hx ht hstep => ?_
    dsimp only at hstep
    split at hstep
    · cases hstep
    · exact addTo_only (hd.1 x hx) ht hstep
  have hstates : ∀ e ∈ states, Q e.2.variable_ :=
    foldlM_keeps (fun t : Table String Origin => ∀ e ∈ t, Q e.2.variable_) hs (h n).2
      fun t x t' hx ht hstep => addTo_only (hd.2 x hx) ht hstep
  intro m
  simp only [getD_setIfInBounds]
  constructor <;> split
  · exact hlocals
  · exact (h m).1
  · exact hstates
  · exact (h m).2

variable (hQ : ∀ v, a.Begins f v ∨ a.Written f v → Q v)

include hQ

theorem DefinesOnly.define (hn : n ∈ a.nodeIds f) (h : DefinesOnly Q d) : DefinesOnly Q (a.define f n d) := by
  have hwritten : ∀ v ∈ a.localsWritten (a.nodeCode f n), Q v := fun v hv => by
    obtain ⟨x, hx, hxv⟩ := mem_filterMap.1 hv
    refine hQ v (.inr ⟨⟨n, ?_⟩, .inl ?_⟩) <;> grind
  have hlocals := foldl_insert_only (k := fun v => (a.program.var v).name) (n := n) h.1 hwritten
  constructor
  · unfold Analysis.define
    dsimp only
    split
    · rename_i v hd
      split
      · exact hlocals
      · intro e he
        rcases mem_insert he with rfl | he
        · exact hQ v (.inl (.inr ⟨n, hn, hd⟩))
        · exact hlocals e he
    · exact hlocals
  · refine foldl_insert_only h.2 fun v hv => ?_
    obtain ⟨x, hx, hxv⟩ := mem_filterMap.1 hv
    refine hQ v (.inr ⟨⟨n, ?_⟩, .inr ?_⟩) <;> grind

theorem OriginsOnly.from (fuel : Nat) (hn : n ∈ a.nodeIds f) (hd : DefinesOnly Q d) (h : OriginsOnly Q o)
    (hrun : a.originsFrom f fuel n d o = .ok o') : OriginsOnly Q o' := by
  induction fuel generalizing n d o o' with
  | zero =>
    cases hrun
    exact h
  | succ fuel ih =>
    have hd' := hd.define hQ hn
    have hbelow : ∀ {o₁}, OriginsOnly Q o₁ → ((a.dominance f).successors (a.nodeIds f) n).foldlM
        (fun o m => a.originsFrom f fuel m (a.define f n d) o) o₁ = .ok o' → OriginsOnly Q o' := fun ho₁ hrun =>
      foldlM_keeps (OriginsOnly Q) hrun ho₁ fun o m o' hm ho hstep => ih (mem_filter.1 hm).1 hd' ho hstep
    rw [originsFrom] at hrun
    split at hrun
    · obtain ⟨o₁, hf, hrun⟩ := bind_eq_ok.1 hrun
      exact hbelow (foldlM_keeps (OriginsOnly Q) hf h fun o m o' _ ho hstep => ho.add hd' hstep) hrun
    · exact hbelow h hrun

/-- Versions meet of variables that are there from the beginning or are written. -/
theorem origins_only (he : e ∈ a.nodeIds f) (h : a.origins f e = .ok o) : OriginsOnly Q o := by
  refine OriginsOnly.from hQ _ he ⟨?_, by simp⟩ ?_ h
  · refine foldl_insert_only (by simp) fun v hv => ?_
    obtain ⟨hmem, hname⟩ := mem_filter.1 hv
    exact hQ v (.inl (.inl ⟨hmem, by simpa using hname⟩))
  · intro n
    simp [Array.getElem?_replicate]
    split <;> simp

end Analysis

namespace Rename

/-! ## Places where versions meet -/

/-- Versions of variables of a kind meet at some places, and that is all that is different. -/
structure Places (f : FunctionId) (Q : VariableId → Prop) (σ τ : State) : Prop where
  naming : τ.1 = σ.1
  grows : Grows f σ.2 τ.2
  meeting : ∀ n, ∀ i ∈ τ.2.ssa f n, IsMeeting i
  first : ∀ n p k, τ.2.madeAt f n p = some k → ∃ v, Q v ∧ (τ.2.store.version k).Alike { variable_ := v }
  distinct : Distinct f τ.2

theorem Places.refl (h : ∀ n, σ.2.ssa f n = []) : Places f Q σ σ where
  naming := rfl
  grows := .refl f _
  meeting n i hi := by simp [h] at hi
  first n p k hk := by simp [madeAt, h] at hk
  distinct := ⟨fun n p k hk => by simp [madeAt, h] at hk, fun n p _ _ k hk => by simp [madeAt, h] at hk⟩

theorem Places.place (h : Places f Q σ τ) (hv : Q v) (hnodes : nodes.length ≠ 1)
    (hrun : Runs (placePhi f n v nodes) τ u υ) : Places f Q σ υ := by
  replace hrun := runs_make_bind.1 hrun
  obtain rfl := runs_emit hrun
  change Places f Q σ (adding f n { op := .phi (.version τ.2.store.versions.size) [] nodes }
    (τ.1, τ.2.addVersion { variable_ := v }))
  have hadd : Grows f τ.2 (τ.2.addVersion { variable_ := v }) := .addVersion f _ _
  refine ⟨h.naming, h.grows.trans (hadd.trans (grows_adding (σ := (τ.1, _)))), fun m i hi => ?_, fun m p k hk => ?_, ?_⟩
  · rw [ssa_adding] at hi
    split at hi
    · rcases mem_append.1 hi with hi | hi
      · exact h.meeting n i hi
      · exact ⟨_, nodes, mem_singleton.1 hi, hnodes⟩
    · exact h.meeting m i hi
  · rw [madeAt_adding] at hk
    change ∃ v', Q v' ∧ ((τ.2.addVersion { variable_ := v }).store.version k).Alike { variable_ := v' }
    split at hk
    · cases hk
      rw [version_addVersion, if_pos rfl]
      exact ⟨v, hv, .refl _⟩
    · have hlt := h.distinct.lt m p k hk
      rw [version_addVersion, if_neg (Nat.ne_of_lt hlt)]
      exact h.first m p k hk
  · refine h.distinct.adding (τ := (τ.1, τ.2.addVersion { variable_ := v })) hadd (fun _ => rfl) fun k hk => ?_
    cases hk
    simp

theorem Places.loop {α : Type} {xs : List α} {c : α → Prop} [∀ x, Decidable (c x)] {v : α → VariableId}
    {nodes : α → List NodeId} (h : Places f Q σ τ) (hxs : ∀ x ∈ xs, c x → Q (v x) ∧ (nodes x).length ≠ 1)
    (hrun : Runs (forIn xs PUnit.unit fun x _ => if c x then do
        placePhi f n (v x) (nodes x)
        pure (ForInStep.yield PUnit.unit)
      else pure (ForInStep.yield PUnit.unit)) τ r υ) : Places f Q σ υ := by
  refine forIn_runs (fun _ υ => Places f Q σ υ) hrun h ?_
  rintro done x rest rfl υ r υ' hυ hround
  split at hround
  · rename_i hc
    obtain ⟨u, hu, rfl⟩ := runs_bind_pure hround
    obtain ⟨hv, hnodes⟩ := hxs x (by simp) hc
    exact ⟨rfl, hυ.place hv hnodes hu⟩
  · obtain ⟨rfl, rfl⟩ := runs_pure.1 hround
    exact ⟨rfl, hυ⟩

/-- A variable of which versions may meet. -/
def Meets (a : Analysis) (f : FunctionId) (states : Table String Nat) (v : VariableId) : Prop :=
  a.Begins f v ∨ a.Written f v ∨ ∃ i ∈ states.values, (a.store.version i).variable_ = v

theorem placePhis_places (hssa : ∀ n, σ.2.ssa f n = []) (he : e ∈ σ.2.nodeIds f)
    (hstates : ∀ i ∈ σ.1.allStates.values, i < σ.2.store.versions.size) (h : Runs (placePhis f e) σ u τ) :
    Places f (Meets σ.2 f σ.1.allStates) σ τ := by
  let Q := Meets σ.2 f σ.1.allStates
  replace h := runs_analysis_bind.1 h
  dsimp only at h
  obtain ⟨r, υ, hrun, h⟩ := runs_bind.1 h
  have hparams : Places f Q σ υ := by
    refine (Places.refl hssa).loop (fun v hv hname => ⟨.inl (.inl ⟨?_, ?_⟩), by simp⟩) hrun
    · exact mem_append_left _ hv
    · simpa using hname
  replace h := runs_get_bind h
  obtain ⟨r, ρ, hrun', h⟩ := runs_bind.1 h
  have hvalues : Places f Q σ ρ := by
    refine forIn_runs (fun _ υ => Places f Q σ υ) hrun' hparams ?_
    rintro done i rest hxs υ r υ' hυ hround
    have hi : i ∈ σ.1.allStates.values := by rw [← hparams.naming, hxs]; simp
    replace hround := runs_version_bind hround
    split at hround
    · obtain ⟨u, hu, rfl⟩ := runs_bind_pure hround
      refine ⟨rfl, hυ.place (.inr (.inr ⟨i, hi, ?_⟩)) (by simp) hu⟩
      exact (hυ.grows.alike i (hstates i hi)).1.symm
    · obtain ⟨rfl, rfl⟩ := runs_pure.1 hround
      exact ⟨rfl, hυ⟩
  obtain ⟨origins, σ₃, hrun'', hrest⟩ := runs_bind.1 h
  obtain ⟨horigins, rfl⟩ := runs_lifted hrun''
  have honly : OriginsOnly Q origins :=
    origins_only (fun v hv => hv.imp_right .inl) he horigins
  obtain ⟨r, hnodes, -⟩ := runs_bind_pure hrest
  refine forIn_runs (fun _ υ => Places f Q σ υ) hnodes hvalues ?_
  rintro done n rest - υ r υ' hυ hround
  obtain ⟨r₁, υ₁, hlocals, hround⟩ := runs_bind.1 hround
  obtain ⟨r₂, hstates', rfl⟩ := runs_bind_pure hround
  refine ⟨rfl, (hυ.loop (fun x hx hc => ⟨(honly n).1 x hx, ?_⟩) hlocals).loop
    (fun x hx hc => ⟨(honly n).2 x hx, by omega⟩) hstates'⟩
  simp only [Bool.and_eq_true, decide_eq_true_eq] at hc
  omega

/-! ## First versions -/

/-- Local variables get their first versions, and that is all that is different. -/
structure Opens (f : FunctionId) (σ τ : State) : Prop where
  naming : τ.1 = { σ.1 with locals := τ.1.locals, allLocals := τ.1.allLocals }
  grows : Grows f σ.2 τ.2
  ssa : ∀ m, τ.2.ssa f m = σ.2.ssa f m
  locals : ∀ x i, Table.find? x τ.1.locals = some i → i < τ.2.store.versions.size ∧ τ.2.key i = .inner x ∧
    σ.2.Begins f (τ.2.store.version i).variable_

@[simp] abbrev Knows (σ : State) (x : String) : Prop := (find? x σ.1.locals).isSome

theorem isSome_insert (hy : (Table.find? y t).isSome) : (Table.find? y (insert x i t)).isSome := by
  rw [Table.find?_insert]
  split
  · rfl
  · exact hy

variable (h : Opens f σ τ)

include h

theorem Opens.enter (hg : Grows f τ.2 b)
    (hssa : ∀ m, b.ssa f m = τ.2.ssa f m) (hk : k < b.store.versions.size) (hkey : b.key k = .inner x)
    (hb : σ.2.Begins f (b.store.version k).variable_)
    (hs : s = { τ.1 with locals := insert x k τ.1.locals, allLocals := s.allLocals }) : Opens f σ (s, b) := by
  refine ⟨?_, h.grows.trans hg, fun m => (hssa m).trans (h.ssa m), fun y i hi => ?_⟩
  · rw [hs, h.naming]
  · rw [hs, find?_insert] at hi
    split at hi
    · rename_i hy
      cases hi
      exact ⟨hk, hy ▸ hkey, hb⟩
    · obtain ⟨hi₁, hi₂, hi₃⟩ := h.locals y i hi
      refine ⟨Nat.lt_of_lt_of_le hi₁ hg.size, (hg.key hi₁).trans hi₂, ?_⟩
      rw [(hg.alike i hi₁).1]
      exact hi₃

/-- A local variable of this name has a version. -/
theorem Opens.firstVersion (hv : τ.2.program.isLocalVariable v = true) (hb : σ.2.Begins f v) (hrun : Runs (firstVersion v) τ i υ) :
    Opens f σ υ ∧ Knows υ (τ.2.program.var v).name ∧ ∀ y, Knows τ y → Knows υ y := by
  replace hrun := runs_make_bind.1 (runs_analysis_bind.1 hrun)
  -- The version itself, whatever is done after it was made.
  have hadd : Grows f τ.2 (τ.2.addVersion { variable_ := v }) := .addVersion f _ _
  have hlt : τ.2.store.versions.size < (τ.2.addVersion { variable_ := v }).store.versions.size := by simp
  have hself : ∀ {b : Analysis}, Grows f (τ.2.addVersion { variable_ := v }) b →
      b.key τ.2.store.versions.size = .inner (τ.2.program.var v).name ∧
        (b.store.version τ.2.store.versions.size).variable_ = v := by
    intro b hg
    have halike := hg.alike _ hlt
    rw [version_addVersion, if_pos rfl] at halike
    rw [hg.key hlt, key_addVersion, if_pos rfl]
    exact ⟨keyOf_first hv, halike.1⟩
  dsimp only at hrun
  split at hrun
  · obtain ⟨j, τ₃, hj, hrun⟩ := runs_bind.1 hrun
    obtain ⟨hjsize, rfl⟩ := runs_make hj
    obtain ⟨u, τ₄, hu, hrun⟩ := runs_bind.1 hrun
    have hq := modifyVersion_quiet hu fun _ => ⟨rfl, rfl, rfl⟩
    replace hrun := runs_modify_bind (runs_modify_bind hrun)
    obtain ⟨rfl, rfl⟩ := runs_pure.1 hrun
    have hnaming : τ₄.1 = τ.1 := by
      obtain rfl := runs_modifyAnalysis hu
      rfl
    have hgrows : Grows f (τ.2.addVersion { variable_ := v }) τ₄.2 :=
      (Grows.addVersion f _ { variable_ := v, standIn := true }).trans hq.grows
    obtain ⟨hkey, hvar⟩ := hself hgrows
    -- The version that stands for what the first one refers to.
    have halike := hq.alike j
    rw [version_addVersion, if_pos hjsize] at halike
    have hkey' : τ₄.2.key j = .inner ("STORAGE_" ++ (τ.2.program.var v).name) := by
      have hv' : (τ.2.addVersion { variable_ := v }).program.isLocalVariable v = true := hv
      rw [hq.key, key_addVersion, if_pos hjsize]
      simp only [keyOf, hv', if_true, versionName]
      rfl
    have hlt' : j < τ₄.2.store.versions.size := by
      rw [hq.size, hjsize]
      simp
    have hbj : σ.2.Begins f (τ₄.2.store.version j).variable_ := by
      rw [halike.1]
      exact hb
    have hentered : Opens f σ ({ τ.1 with
        locals := insert ("STORAGE_" ++ (τ.2.program.var v).name) j τ.1.locals }, τ₄.2) :=
      h.enter (hadd.trans hgrows) (fun m => hq.ssa m) hlt' hkey' hbj rfl
    rw [← hnaming] at hentered
    refine ⟨hentered.enter (.refl f _) (fun _ => rfl) (Nat.lt_of_lt_of_le hlt hgrows.size) hkey (hvar.symm ▸ hb) rfl, ?_,
      fun y hy => isSome_insert (isSome_insert ?_)⟩
    · simp [Table.find?_insert]
    · rw [hnaming]
      exact hy
  · replace hrun := runs_modify_bind hrun
    obtain ⟨rfl, rfl⟩ := runs_pure.1 hrun
    obtain ⟨hkey, hvar⟩ := hself (.refl f _)
    refine ⟨h.enter hadd (fun _ => rfl) hlt hkey (hvar.symm ▸ hb) rfl, ?_, fun y hy => isSome_insert hy⟩
    simp [Table.find?_insert]

theorem Opens.firstVersions {vs : List VariableId}
    (hvs : ∀ v ∈ vs, σ.2.program.isLocalVariable v = true ∧ σ.2.Begins f v) (hrun : Runs (vs.mapM Rename.firstVersion) τ is υ) :
    Opens f σ υ ∧ (∀ v ∈ vs, Knows υ (σ.2.program.var v).name) ∧ ∀ y, Knows τ y → Knows υ y := by
  induction vs generalizing τ is with
  | nil =>
    rw [mapM_nil, runs_pure] at hrun
    obtain ⟨-, rfl⟩ := hrun
    exact ⟨h, by simp, fun _ hy => hy⟩
  | cons v vs ih =>
    rw [mapM_cons] at hrun
    obtain ⟨i, τ₁, hi, hrun⟩ := runs_bind.1 hrun
    obtain ⟨is', his, -⟩ := runs_bind_pure hrun
    obtain ⟨hv, hb⟩ := hvs v (by simp)
    obtain ⟨h₁, hsome, hkeep⟩ := h.firstVersion (h.grows.program.symm ▸ hv) hb hi
    obtain ⟨h₂, hall, hkeep'⟩ := ih h₁ (fun w hw => hvs w (by simp [hw])) his
    rw [h.grows.program] at hsome
    exact ⟨h₂, forall_mem_cons.2 ⟨hkeep' _ hsome, hall⟩, fun y hy => hkeep' y (hkeep y hy)⟩

theorem Opens.declareAll (hlatest : τ.1.allLocals = τ.1.locals)
    (hl : ∀ v, σ.2.Begins f v → σ.2.program.isLocalVariable v = true) (hrun : Runs (declareAll f) τ u υ) :
    Opens f σ υ ∧ υ.1.allLocals = υ.1.locals ∧ (∀ y, Knows τ y → Knows υ y) ∧
      ∀ n ∈ σ.2.nodeIds f, ∀ v, ((σ.2.flow f).node n).declared = some v → Knows υ (σ.2.program.var v).name := by
  replace hrun := runs_analysis_bind.1 hrun
  obtain ⟨r, hloop, -⟩ := runs_bind_pure hrun
  have hnodes : τ.2.nodeIds f = σ.2.nodeIds f := congrArg Flow.order h.grows.flow
  rw [hnodes] at hloop
  refine forIn_runs (fun done υ => Opens f σ υ ∧ υ.1.allLocals = υ.1.locals ∧
      (∀ y, Knows τ y → Knows υ y) ∧
      ∀ n ∈ done, ∀ v, ((σ.2.flow f).node n).declared = some v → Knows υ (σ.2.program.var v).name) hloop
    ⟨h, hlatest, fun _ hy => hy, by simp⟩ ?_
  rintro done n rest hxs υ r υ' ⟨hυ, hsame, hkeep, hdone⟩ hround
  have hn : n ∈ σ.2.nodeIds f := hxs ▸ by simp
  rw [h.grows.flow] at hround
  split at hround
  · rename_i v hv
    have hb : σ.2.Begins f v := .inr ⟨n, hn, hv⟩
    obtain ⟨index, υ₁, hindex, hmake⟩ := runs_bind.1 hround
    have hquiet : υ₁ = υ := by
      replace hindex := runs_get_bind hindex
      split at hindex
      · replace hindex := runs_version_bind hindex
        exact (runs_pure.1 hindex).2
      · exact (runs_pure.1 hindex).2
    subst hquiet
    have hend := runs_modify_bind (runs_make_bind.1 hmake)
    obtain ⟨rfl, rfl⟩ := runs_pure.1 hend
    have hp : υ₁.2.program = σ.2.program := hυ.grows.program
    have hkey : (υ₁.2.addVersion { variable_ := v, index }).key υ₁.2.store.versions.size =
        .inner (σ.2.program.var v).name := by
      rw [key_addVersion, if_pos rfl, hp]
      exact keyOf_first (hl v hb)
    have hvar : σ.2.Begins f ((υ₁.2.addVersion { variable_ := v, index }).store.version
        υ₁.2.store.versions.size).variable_ := by
      rw [version_addVersion, if_pos rfl]
      exact hb
    rw [h.grows.program]
    refine ⟨rfl, hυ.enter (.addVersion f _ _) (fun _ => rfl) (by simp) hkey hvar rfl, ?_,
      fun y hy => isSome_insert (hkeep y hy), fun m hm w hw => ?_⟩
    · simp [Naming.put, hsame]
    · rcases mem_append.1 hm with hm | hm
      · exact isSome_insert (hdone m hm w hw)
      · rw [mem_singleton.1 hm, hv] at hw
        cases hw
        simp [Naming.put, Table.find?_insert]
  · rename_i hnone
    obtain ⟨rfl, rfl⟩ := runs_pure.1 hround
    refine ⟨rfl, hυ, hsame, hkeep, fun m hm v hv => ?_⟩
    rcases mem_append.1 hm with hm | hm
    · exact hdone m hm v hv
    · rw [mem_singleton.1 hm, hnone] at hv
      cases hv

end Rename

end ContractAudit
