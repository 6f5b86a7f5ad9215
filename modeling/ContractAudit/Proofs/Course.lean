import ContractAudit.Proofs.Beginning
import ContractAudit.Proofs.Filling
import ContractAudit.Proofs.Visits

/-! # The course of renaming

First versions and places where versions meet, a walk from the entry, and what is completed after it.
-/

namespace ContractAudit

open Ir List Analysis

/-- What renaming may rely on: a body with a regular flow graph, operations without versions, parameters, results and declared
variables that are local, and a table with versions of state variables. -/
structure Convertible (a : Analysis) (f : FunctionId) (e : NodeId) (states : Table String Nat) : Prop where
  implemented : (a.program.function f).implemented = some true
  entry : (a.flow f).entry = some e
  regular : (a.flow f).Regular e
  prepared : Rename.Prepared f a
  fresh : ∀ n, a.ssa f n = []
  locals : ∀ v, a.Begins f v → a.program.isLocalVariable v = true
  tabled : ∀ x i, (x, i) ∈ states → i < a.store.versions.size ∧ a.key i = .state x
  keys : (Table.keys states).Nodup

namespace Rename

/-- The state in which the walk starts. -/
structure Begun (f : FunctionId) (a : Analysis) (states : Table String Nat) (σ : State) : Prop where
  grows : Grows f a σ.2
  current : σ.1.states = states
  allStates : σ.1.allStates = states
  visited : σ.1.visited = []
  parts : σ.1.parts = []
  latest : σ.1.allLocals = σ.1.locals
  locals : ∀ x i, Table.find? x σ.1.locals = some i → i < σ.2.store.versions.size ∧ σ.2.key i = .inner x ∧
    a.Begins f (σ.2.store.version i).variable_
  begins : ∀ v, a.Begins f v → (Table.find? (a.program.var v).name σ.1.locals).isSome
  meeting : ∀ n, ∀ i ∈ σ.2.ssa f n, IsMeeting i
  first : ∀ n p k, σ.2.madeAt f n p = some k →
    ∃ v, Meets a f states v ∧ (σ.2.store.version k).Alike { variable_ := v }
  distinct : Distinct f σ.2

theorem Begun.tabled (h : Begun f a states σ)
    (hstates : ∀ x i, (x, i) ∈ states → i < a.store.versions.size ∧ a.key i = .state x) : Tabled σ := by
  have hstate : ∀ x i, Table.find? x states = some i → i < σ.2.store.versions.size ∧ σ.2.key i = .state x := by
    intro x i hi
    obtain ⟨hlt, hkey⟩ := hstates x i (Table.mem_of_find? hi)
    exact ⟨Nat.lt_of_lt_of_le hlt h.grows.size, (h.grows.key hlt).trans hkey⟩
  constructor
  · intro K i hi
    cases K with
    | inner x => exact ⟨(h.locals x i hi).1, (h.locals x i hi).2.1⟩
    | state x => exact hstate x i (h.current ▸ hi)
  · intro K i hi
    cases K with
    | inner x =>
      have hi : Table.find? x σ.1.locals = some i := h.latest ▸ hi
      exact ⟨(h.locals x i hi).1, (h.locals x i hi).2.1⟩
    | state x => exact hstate x i (h.allStates ▸ hi)

section

variable (hc : Convertible a f e states)

include hc

theorem Begun.ready (h : Begun f a states σ) (hd : (a.flow f).IsDominance e (a.dominance f)) : Ready f e σ where
  regular := h.grows.flow.symm ▸ hc.regular
  dominance := by
    rw [h.grows.flow, h.grows.dominance]
    exact hd
  prepared := hc.prepared.grows h.grows
  tabled := h.tabled hc.tabled
  pristine n _ := h.meeting n

theorem Begun.fuelled (h : Begun f a states σ) : Fuelled f ((a.flow f).nodes.size + 2) σ := by
  have hlen : (a.flow f).order.length ≤ (a.flow f).nodes.size :=
    length_le_of_lt hc.regular.nodup hc.regular.inTable
  refine ⟨by simp [h.visited], by simp [h.visited], ?_⟩
  rw [h.grows.flow]
  omega

theorem begun_of_opening (hplace : Runs (placePhis f e) ({ states, allStates := states }, a) u τ₁)
    (hparams : Runs (((a.program.function f).parameters.filter fun v => (a.program.var v).name != "").mapM
      firstVersion) τ₁ parameters τ₂)
    (hreturns : Runs (((a.program.function f).returns.filter fun v => (a.program.var v).name != "").mapM
      firstVersion) τ₂ returns τ₃)
    (hdeclare : Runs (declareAll f) ({ τ₃.1 with allLocals := τ₃.1.locals }, τ₃.2.modifyCode f fun c =>
      { c with parameterVersions := parameters, returnVersions := returns }) u' τ₄) :
    Begun f a states ({ τ₄.1 with states }, τ₄.2) := by
  have hentry : e ∈ a.nodeIds f := hc.regular.entry_mem
  have hplaces := placePhis_places (σ := ({ states, allStates := states }, a)) hc.fresh hentry (fun i hi => by
      obtain ⟨⟨x, i⟩, hmem, rfl⟩ := mem_map.1 hi
      exact (hc.tabled x i hmem).1) hplace
  have hp := hplaces.grows.program
  have hbegins : ∀ v, τ₁.2.Begins f v ↔ a.Begins f v := fun v => by
    simp [Begins, nodeIds, flow, hp]
  have hnamed : ∀ vs ⊆ (a.program.function f).parameters ++ (a.program.function f).returns,
      ∀ v ∈ vs.filter fun v => (a.program.var v).name != "", τ₁.2.program.isLocalVariable v = true ∧ τ₁.2.Begins f v := by
    intro vs hvs v hv
    obtain ⟨hmem, hname⟩ := mem_filter.1 hv
    have hb : a.Begins f v := .inl ⟨hvs hmem, by simpa using hname⟩
    exact ⟨hp.symm ▸ hc.locals v hb, (hbegins v).2 hb⟩
  have hopens : Opens f τ₁ τ₁ := ⟨rfl, .refl f _, fun _ => rfl, by simp [hplaces.naming, Table.find?]⟩
  obtain ⟨ho₂, hp₂, -⟩ := hopens.firstVersions (hnamed _ (subset_append_left ..)) hparams
  obtain ⟨ho₃, hr₃, hkeep₃⟩ := ho₂.firstVersions (hnamed _ (subset_append_right ..)) hreturns
  -- What is noted about the function does not matter here.
  generalize hb : (τ₃.2.modifyCode f fun c => { c with parameterVersions := parameters, returnVersions := returns }) = b
    at hdeclare
  have hnote : ∀ m, b.nodeCode f m = τ₃.2.nodeCode f m := fun m => hb ▸ nodeCode_modifyCode _ _ _ fun _ => rfl
  have hnoted : Grows f τ₃.2 b := by
    refine ⟨hb ▸ rfl, hb ▸ rfl, hb ▸ Nat.le_refl _, fun _ _ => hb ▸ .refl _, fun m => by rw [instrs, hnote]; rfl, ?_,
      fun _ _ => hb ▸ .inl⟩
    rw [← hb, dominance, functionCode_modifyCode]
    rfl
  have hset : Opens f τ₁ ({ τ₃.1 with allLocals := τ₃.1.locals }, b) := by
    refine ⟨?_, ho₃.grows.trans hnoted, fun m => ?_, hb ▸ ho₃.locals⟩
    · rw [ho₃.naming]
    · rw [← ho₃.ssa m, ssa, hnote]
      rfl
  obtain ⟨ho₄, hlatest, hkeep₄, hd₄⟩ := hset.declareAll rfl (fun v hv => by
    rw [hp]
    exact hc.locals v ((hbegins v).1 hv)) hdeclare
  have hnaming : τ₄.1 = { locals := τ₄.1.locals, allLocals := τ₄.1.allLocals, states, allStates := states } := by
    rw [ho₄.naming, hplaces.naming]
  have hmade : ∀ m p, τ₄.2.madeAt f m p = τ₁.2.madeAt f m p := madeAt_congr ho₄.ssa
  refine ⟨hplaces.grows.trans ho₄.grows, rfl, ?_, ?_, ?_, hlatest, fun x i hi => ?_, ?_, fun m i hi => ?_,
    fun m p k hk => ?_, hplaces.distinct.same ho₄.grows.size hmade⟩
  · rw [hnaming]
  · rw [hnaming]
  · rw [hnaming]
  · obtain ⟨hlt, hkey, hb⟩ := ho₄.locals x i hi
    exact ⟨hlt, hkey, (hbegins _).1 hb⟩
  · rintro v (⟨hmem, hname⟩ | ⟨m, hm, hv⟩)
    · rw [hp] at hp₂ hr₃
      rcases mem_append.1 hmem with hmem | hmem
      · exact hkeep₄ _ (hkeep₃ _ (hp₂ v (mem_filter.2 ⟨hmem, by simpa using hname⟩)))
      · exact hkeep₄ _ (hr₃ v (mem_filter.2 ⟨hmem, by simpa using hname⟩))
    · rw [hp] at hd₄
      have hflow := hplaces.grows.flow
      refine hd₄ m ?_ v ?_
      · rw [nodeIds, hflow]
        exact hm
      · rw [hflow]
        exact hv
  · exact hplaces.meeting m i (ho₄.ssa m ▸ hi)
  · have hk₁ : τ₁.2.madeAt f m p = some k := hmade m p ▸ hk
    obtain ⟨v, hv, halike⟩ := hplaces.first m p k hk₁
    exact ⟨v, hv, (ho₄.grows.alike k (hplaces.distinct.lt m p k hk₁)).trans halike⟩

theorem function_course (hd : (a.flow f).IsDominance e (a.dominance f))
    (h : Runs (function f) ({ states, allStates := states }, a) u υ) :
    ∃ σ visits τ, Begun f a states σ ∧ Walks f [e] σ visits τ ∧ Amends f (fun _ _ _ _ => True) τ υ ∧
      Completes f σ.1.locals τ υ := by
  replace h := runs_get_bind (runs_analysis_bind.1 h)
  have hentry : (a.program.function f).flow.entry = some e := hc.entry
  rw [hc.implemented, hentry] at h
  obtain ⟨u₁, τ₁, hplace, h⟩ := runs_bind.1 h
  obtain ⟨parameters, τ₂, hparams, h⟩ := runs_bind.1 h
  obtain ⟨returns, τ₃, hreturns, h⟩ := runs_bind.1 h
  obtain ⟨u₂, ρ₁, hnote, h⟩ := runs_bind.1 h
  obtain rfl := runs_modifyAnalysis hnote
  replace h := runs_modify_bind h
  obtain ⟨u₄, τ₄, hdeclare, h⟩ := runs_bind.1 h
  have hrest := runs_modify_bind (runs_get_bind h)
  obtain ⟨u₆, τ, hwalk, hcomplete⟩ := runs_bind.1 hrest
  have hbegun := begun_of_opening hc hplace hparams hreturns hdeclare
  have hready := hbegun.ready hc hd
  have hall : Runs (walkAll f ((a.flow f).nodes.size + 2) [e]) ({ τ₄.1 with states }, τ₄.2) PUnit.unit τ := by
    rw [walkAll, forIn_cons]
    refine runs_bind.2 ⟨.yield PUnit.unit, τ, runs_bind.2 ⟨u₆, τ, hwalk, runs_pure.2 ⟨rfl, rfl⟩⟩, ?_⟩
    exact runs_pure.2 ⟨rfl, rfl⟩
  obtain ⟨visits, hwalks⟩ := walks_of_walkAll hready (hbegun.fuelled hc) (fun m hm => by
    rw [mem_singleton.1 hm]
    exact hready.regular.entry_mem) hall
  exact ⟨_, visits, τ, hbegun, hwalks, complete_amends _ _ hcomplete, complete_completes hcomplete⟩

end

/-- Two analyses have the same operations of a function. -/
structure SameCode (f : FunctionId) (a b : Analysis) : Prop where
  program : b.program = a.program
  store : b.store = a.store
  nodeCode : ∀ n, b.nodeCode f n = a.nodeCode f n

section

variable (h : SameCode f a b)

include h

theorem SameCode.flow : b.flow f = a.flow f := by
  rw [Analysis.flow, h.program]
  rfl

theorem SameCode.begins (v : VariableId) : b.Begins f v ↔ a.Begins f v := by
  simp [Begins, nodeIds, h.flow, h.program]

theorem SameCode.written (v : VariableId) : b.Written f v ↔ a.Written f v := by
  simp [Written, h.nodeCode, h.program]

theorem SameCode.instrs (n : NodeId) : b.instrs f n = a.instrs f n := by
  rw [Analysis.instrs, h.nodeCode]
  rfl

theorem SameCode.key (i : Nat) : b.key i = a.key i := by
  rw [Analysis.key, h.program, h.store]
  rfl

theorem SameCode.convertible (hc : Convertible a f e states) : Convertible b f e states where
  implemented := h.program ▸ hc.implemented
  entry := h.flow ▸ hc.entry
  regular := h.flow ▸ hc.regular
  prepared := ⟨fun n => by rw [h.instrs]; exact hc.prepared.plain n, by rw [h.store]; exact hc.prepared.parts⟩
  fresh n := by
    rw [ssa, h.nodeCode]
    exact hc.fresh n
  locals v hv := h.program ▸ hc.locals v ((h.begins v).1 hv)
  tabled x i hi := by
    rw [h.key, h.store]
    exact hc.tabled x i hi
  keys := hc.keys

end

/-- The renaming of a function, with all that is done on the way. -/
inductive Course (f : FunctionId) (e : NodeId) (states : Table String Nat) (a a' : Analysis) : Prop
  | mk {b : Analysis} {σ τ : State} {visits : List Visit} {s : Naming} : SameCode f a b → Convertible b f e states →
      Begun f b states σ → Ready f e σ → Walks f [e] σ visits τ → Amends f (fun _ _ _ _ => True) τ (s, a') →
      Completes f σ.1.locals τ (s, a') → Course f e states a a'

theorem dominate_runs (hg : (a.flow f).Regular e) (h : Analyze.dominate f a = .ok u b) :
    SameCode f a b ∧ (b.flow f).IsDominance e (b.dominance f) := by
  obtain ⟨D, hD, hdominance⟩ := Flow.dominance_spec hg
  have hrun : Analyze.dominate f a = EStateM.bind (Analyze.lifted (a.flow f).dominance)
      (fun d => modify fun a => a.modifyCode f fun c => { c with dominance := d }) a := rfl
  rw [hrun, hD] at h
  cases h
  refine ⟨⟨rfl, rfl, fun n => nodeCode_modifyCode _ _ _ fun _ => rfl⟩, ?_⟩
  rw [dominance, functionCode_modifyCode]
  exact hdominance

theorem versions_course (hc : Convertible a f e states)
    (h : (do Analyze.dominate f; Analyze.versions f states : Analyze _) a = .ok t a') : Course f e states a a' := by
  obtain ⟨_, b, hd, h⟩ := bind_runs h
  obtain ⟨hsame, hdominance⟩ := dominate_runs hc.regular hd
  have hcb := hsame.convertible hc
  obtain ⟨⟨_, s⟩, b', hf, ⟨⟩⟩ := bind_runs (x := function f { states, allStates := states })
    (k := fun p => pure p.2.allStates) h
  obtain ⟨σ, visits, τ, hbegun, hwalks, hamends, hcompletes⟩ := function_course (υ := (s, a')) hcb hdominance hf
  exact .mk hsame hcb hbegun (hbegun.ready hcb hdominance) hwalks hamends hcompletes

end Rename

end ContractAudit
