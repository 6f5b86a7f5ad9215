import ContractAudit.Proofs.Steps

/-! # Renaming goes in steps

The parts of the renaming of a node are runs of steps. An operation is converted by resolving its values in the tables of the
place; what it writes is a version that is held.
-/

namespace ContractAudit.Rename

open Ir Value List Op

variable {op op' : Op}

/-! ## Looking up values -/

/-- What stands for a variable, given the tables of a place. -/
def resolveVariable (p : Program) (s : Naming) (v : VariableId) : Value :=
  match (p.var v).kind with
  | .inFunction _ _ => ((s.current (.inner (p.var v).name)).map Value.version).getD (.var v)
  | .state _ => ((s.current (.state (p.variableCanonicalName v))).map Value.version).getD (.var v)
  | _ => .var v

mutual
/-- What stands for a value, given the tables of a place. -/
def resolve (p : Program) (s : Naming) : Value → Value
  | .list items => .list (resolveAll p s items)
  | .reference i => .versionReference i
  | .target (.var v) => resolveVariable p s v
  | v => v

def resolveAll (p : Program) (s : Naming) : List Value → List Value
  | [] => []
  | v :: vs => resolve p s v :: resolveAll p s vs
end

theorem resolveVariable_cases (p : Program) (s : Naming) (v : VariableId) : resolveVariable p s v = .var v ∨
    ∃ i, resolveVariable p s v = .version i ∧ s.current (p.keyOf { variable_ := v }) = some i ∧
      (p.isLocalVariable v = true ∨ p.isStateVariable v = true) := by
  cases hk : (p.var v).kind with
  | inFunction o c =>
    have hl : p.isLocalVariable v = true := by simp [Program.isLocalVariable, hk]
    rw [Program.keyOf_first hl]
    cases hc : s.current (.inner (p.var v).name) <;> simp [resolveVariable, hk, hc, hl]
  | state c =>
    rw [Program.keyOf_state hk]
    cases hc : s.current (.state (p.variableCanonicalName v)) <;> simp [resolveVariable, hk, hc, Program.isStateVariable]
  | _ => simp [resolveVariable, hk]

abbrev resolved (σ : State) (v : Value) : Value := resolve σ.2.program σ.1 v

mutual
theorem version_mem_resolve (p : Program) (s : Naming) (v : Value) (hv : v.Plain) (h : .version k ∈ (resolve p s v).flat) :
    ∃ K, s.current K = some k := by
  have hself : .version k ∉ v.flat := fun hk => (hv _ hk).1 k rfl
  cases v with
  | list items =>
    rw [resolve, flat] at h
    exact version_mem_resolveAll hv.of_list h
  | reference i =>
    simp [resolve, flat] at h
  | target t =>
    cases t with
    | var x =>
      rw [resolve] at h
      rcases resolveVariable_cases p s x with hx | ⟨i, hx, hi, -⟩ <;> rw [hx] at h
      · exact (hself h).elim
      · obtain rfl : k = i := by simpa [flat] using h
        exact ⟨_, hi⟩
    | _ => exact (hself h).elim
  | _ => exact (hself h).elim

theorem version_mem_resolveAll {p : Program} {s : Naming} {vs : List Value} (hvs : ∀ v ∈ vs, v.Plain)
    (h : .version k ∈ flatAll (resolveAll p s vs)) :
    ∃ K, s.current K = some k := by
  cases vs with
  | nil => simp [resolveAll, flatAll] at h
  | cons v vs =>
    rw [resolveAll, flatAll, mem_append] at h
    rcases h with h | h
    · exact version_mem_resolve p s v (hvs v (by simp)) h
    · exact version_mem_resolveAll (fun w hw => hvs w (by simp [hw])) h
end

/-- A value of the operations of a function, before versions. -/
structure Fits (f : FunctionId) (σ : State) (v : Value) : Prop where
  plain : v.Plain
  mentions : ∀ x, Leads σ.2.store.references v x → σ.2.Mentions f x
  parts : ∀ r w, (σ.2.store.reference r).pointsTo = some w → w.Plain
  tabled : Tabled σ

theorem Fits.enters (hv : Fits f σ v) (h : Enters f σ τ) : Fits f τ v := by
  have hg := h.grows
  have href := hg.references
  refine ⟨hv.plain, fun x hx => (hg.mentions x).2 (hv.mentions x (href ▸ hx)), fun r w hw => hv.parts r w ?_,
    stable_tabled.enters hv.tabled h⟩
  rwa [Store.reference, href] at hw

theorem ofLocal_spec (hv : σ.2.program.isLocalVariable v = true) (hm : σ.2.Mentions f v)
    (h : Runs (ofLocal v) σ i τ) :
    Enters f σ τ ∧ τ.1.current (.inner (σ.2.program.var v).name) = some i := by
  replace h := runs_get_bind (runs_analysis_bind.1 h)
  cases hf : σ.1.current (.inner (σ.2.program.var v).name) with
  | some k =>
    rw [hf] at h
    obtain ⟨rfl, rfl⟩ := runs_pure.1 h
    exact ⟨.refl _, hf⟩
  | none =>
    rw [hf] at h
    replace h := runs_modify_bind (runs_make_bind.1 h)
    obtain ⟨rfl, rfl⟩ := runs_pure.1 h
    exact ⟨.enter v hv hm hf (.refl _), by simp [Naming.current_put]⟩

theorem ofVariable_spec (hm : σ.2.Mentions f v) (h : Runs (ofVariable v) σ w τ) :
    Enters f σ τ ∧ (∀ υ, Enters f τ υ → resolved υ (.var v) = w) ∧ (∀ j, w = .version j → ∃ K, τ.1.current K = some j) ∧
      ∀ r, w ≠ .versionReference r := by
  replace h := runs_analysis_bind.1 h
  have hkind : ∀ {υ}, Enters f σ υ → resolved υ (.var v) = resolveVariable σ.2.program υ.1 v := fun hυ => by
    rw [resolved, hυ.grows.program]
    rfl
  cases hk : (σ.2.program.var v).kind with
  | inFunction o c =>
    simp only [hk] at h
    obtain ⟨i, hi, rfl⟩ := runs_bind_pure h
    obtain ⟨he, hcur⟩ := ofLocal_spec (by simp [Program.isLocalVariable, hk]) hm hi
    refine ⟨he, fun υ hυ => ?_, fun j hj => ⟨_, version.inj hj ▸ hcur⟩, by simp⟩
    rw [hkind (he.trans hυ), resolveVariable, hk]
    simp [hυ.current hcur]
  | state c =>
    simp only [hk] at h
    replace h := runs_get_bind h
    cases hf : σ.1.current (.state (σ.2.program.variableCanonicalName v)) with
    | none =>
      rw [hf] at h
      exact absurd h not_runs_fail
    | some i =>
      rw [hf] at h
      obtain ⟨rfl, rfl⟩ := runs_pure.1 h
      refine ⟨.refl _, fun υ hυ => ?_, fun j hj => ⟨_, version.inj hj ▸ hf⟩, by simp⟩
      rw [hkind hυ, resolveVariable, hk]
      simp [hυ.current hf]
  | topLevel c =>
    simp only [hk] at h
    obtain ⟨rfl, rfl⟩ := runs_pure.1 h
    refine ⟨.refl _, fun υ hυ => ?_, by simp, by simp⟩
    rw [hkind hυ, resolveVariable, hk]
  | _ =>
    simp only [hk] at h
    exact absurd h not_runs_fail

/-! ## Parts -/

theorem getD_setPart {parts : Array (Option Value)} {v : Option Value} :
    ((Analysis.grown parts i none).setIfInBounds i v).getD r none = if r = i then v else parts.getD r none := by
  have hsize := Analysis.lt_size_grown parts i (none : Option Value)
  rw [getD_setIfInBounds, Analysis.getD_grown]
  grind

/-- A part is set, and perhaps noted as met. -/
theorem quiet_setPart (h : Runs (setPart i v) σ u υ)
    (hτ : τ = ({ υ.1 with parts }, υ.2)) (hsub : σ.1.parts ⊆ parts) (hparts : ∀ r ∈ parts, r = i ∨ r ∈ σ.1.parts)
    (hheld : ∀ j, v = some (.version j) → Held σ j ∧ j < σ.2.store.versions.size)
    (hclosed : ∀ r, v = some (.versionReference r) → r ∈ σ.1.parts) : Quiet σ τ := by
  obtain rfl := runs_modifyAnalysis h
  subst hτ
  refine ⟨rfl, rfl, rfl, rfl, rfl, fun _ => .refl _, hsub, fun r hr j hj => ?_, fun hc r hr r' hr' => hsub ?_, fun r j hj => ?_⟩
  · rw [getD_setPart] at hj
    split at hj
    · exact (hheld j hj).1
    next hne => exact .inr (.inr ⟨r, (hparts r hr).resolve_left hne, hj⟩)
  · rw [getD_setPart] at hr'
    split at hr'
    · exact hclosed r' hr'
    next hne => exact hc r ((hparts r hr).resolve_left hne) r' hr'
  · rw [getD_setPart] at hj
    split at hj
    · exact .inr (hheld j hj).2
    · exact .inl hj

theorem notePart_quiet (h : Runs (setPart i v) σ u υ)
    (h' : Runs (modify fun s => { s with parts := i :: s.parts }) υ u' τ)
    (ht : Tabled σ) (hheld : ∀ j, v = some (.version j) → ∃ K, σ.1.current K = some j)
    (hclosed : ∀ r, v = some (.versionReference r) → r ∈ σ.1.parts) : Quiet σ τ ∧ i ∈ τ.1.parts := by
  obtain rfl := runs_modify h'
  have hparts : υ.1.parts = σ.1.parts := by rw [runs_modifyAnalysis h]
  refine ⟨quiet_setPart h rfl (by simp [hparts]) (by simp [hparts]) (fun j hj => ?_) hclosed, mem_cons_self⟩
  obtain ⟨K, hK⟩ := hheld j hj
  exact ⟨.inl ⟨K, hK⟩, (ht.current K j hK).1⟩

theorem modifyVersion_quiet (h : Runs (modifyVersion i g) σ u τ)
    (hg : ∀ x, (g x).Alike x) : Quiet σ τ := by
  obtain rfl := runs_modifyAnalysis h
  refine ⟨rfl, rfl, rfl, rfl, by simp, fun k => ?_, Subset.refl _, fun r hr j hj => .inr (.inr ⟨r, hr, hj⟩),
    fun hc => hc, fun _ _ => .inl⟩
  rw [Store.version, getD_modify]
  split
  · exact hg _
  · exact .refl _

theorem ofPart_spec (hv : Fits f σ v) (h : Runs (ofPart fuel v) σ w τ) :
    Enters f σ τ ∧ (∀ j, w = .version j → ∃ K, τ.1.current K = some j) ∧
      (∀ r, w = .versionReference r → r ∈ τ.1.parts) ∧ ∀ i, 0 < fuel → v = .reference i → w = .versionReference i := by
  induction fuel, v using ofPart.induct generalizing σ τ w with
  | case1 fuel i ih =>
    replace h := runs_get_bind h
    have hw : Enters f σ τ ∧ w = .versionReference i ∧ i ∈ τ.1.parts := by
      by_cases hp : (!σ.1.parts.contains i) = true
      · rw [if_pos hp] at h
        replace h := runs_analysis_bind.1 h
        cases hpt : (σ.2.store.reference i).pointsTo with
        | some x =>
          rw [hpt] at h
          obtain ⟨y, σ₃, hy, h⟩ := runs_bind.1 h
          obtain ⟨u, σ₄, hu, h⟩ := runs_bind.1 h
          obtain ⟨u', hu', rfl⟩ := runs_bind_pure h
          have hx : Fits f σ x := ⟨hv.parts i x hpt, fun z hz => hv.mentions z (.part hpt hz), hv.parts, hv.tabled⟩
          obtain ⟨he, hcur, hparts, -⟩ := ih x hx hy
          obtain ⟨hq, hi⟩ := notePart_quiet hu hu' (stable_tabled.enters hv.tabled he) (fun j hj => hcur j (Option.some.inj hj))
            (fun r hr => hparts r (Option.some.inj hr))
          exact ⟨he.trans (.quiet hq (.refl _)), rfl, hi⟩
        | none =>
          rw [hpt] at h
          obtain ⟨u, σ₄, hu, h⟩ := runs_bind.1 h
          obtain ⟨u', hu', rfl⟩ := runs_bind_pure h
          obtain ⟨hq, hi⟩ := notePart_quiet hu hu' hv.tabled (by simp) (by simp)
          exact ⟨.quiet hq (.refl _), rfl, hi⟩
      · rw [if_neg hp] at h
        obtain ⟨rfl, rfl⟩ := runs_pure.1 h
        exact ⟨.refl _, rfl, by simpa using hp⟩
    obtain ⟨he, rfl, hi⟩ := hw
    refine ⟨he, by simp, fun r hr => ?_, fun j _ hj => ?_⟩
    · exact versionReference.inj hr ▸ hi
    · rw [reference.inj hj]
  | case2 fuel v =>
    rw [ofPart] at h
    obtain ⟨he, -, hcur, hno⟩ := ofVariable_spec (hv.mentions v (.var v)) h
    exact ⟨he, hcur, fun r hr => (hno r hr).elim, fun i _ hi => nomatch hi⟩
  | case3 fuel v hvar href =>
    rw [ofPart.eq_3 fuel v hvar href] at h
    obtain ⟨rfl, rfl⟩ := runs_pure.1 h
    refine ⟨.refl _, fun j hj => ?_, fun r hr => ?_, fun i hf hi => ?_⟩
    · exact ((hv.plain w (by simp [hj, flat])).1 j hj).elim
    · exact ((hv.plain w (by simp [hr, flat])).2 r hr).elim
    · obtain ⟨k, rfl⟩ := Nat.exists_eq_succ_of_ne_zero (Nat.ne_of_gt hf)
      exact (href k i rfl hi).elim

/-! ## Values -/

theorem ofValue_spec (hlist : ∀ items, v ≠ .list items) (hv : Fits f σ v) (h : Runs (ofValue v) σ w τ) :
    Enters f σ τ ∧ (∀ υ, Enters f τ υ → resolved υ v = w) ∧ ∀ r, v = .reference r → r ∈ τ.1.parts := by
  unfold ofValue at h
  split at h
  · rename_i i
    obtain ⟨he, -, hparts, hw⟩ := ofPart_spec hv h
    have hw := hw i (by omega) rfl
    exact ⟨he, fun υ _ => hw.symm, fun r hr => hparts r (reference.inj hr ▸ hw)⟩
  · rename_i v
    obtain ⟨he, hres, -⟩ := ofVariable_spec (hv.mentions v (.var v)) h
    exact ⟨he, hres, by simp⟩
  · exact absurd h not_runs_fail
  · exact absurd h not_runs_fail
  · exact absurd h not_runs_fail
  · exact absurd h not_runs_fail
  · rename_i href hvar _ _ _ _
    obtain ⟨rfl, rfl⟩ := runs_pure.1 h
    refine ⟨.refl _, fun υ _ => ?_, fun r hr => (href r hr).elim⟩
    cases w with
    | list items => exact (hlist items rfl).elim
    | reference i => exact (href i rfl).elim
    | target t =>
      cases t with
      | var x => exact (hvar x rfl).elim
      | _ => rfl
    | _ => rfl

theorem Fits.of_list (h : Fits f σ (.list items)) : ∀ v ∈ items, Fits f σ v := fun v hv =>
  ⟨h.plain.of_list v hv, fun x hx => h.mentions x (.list hv hx), h.parts, h.tabled⟩

mutual
theorem ofAny_spec (hv : Fits f σ v) (h : Runs (ofAny v) σ w τ) :
    Enters f σ τ ∧ (∀ υ, Enters f τ υ → resolved υ v = w) ∧ ∀ r, v = .reference r → r ∈ τ.1.parts := by
  cases v with
  | list items =>
    rw [ofAny] at h
    obtain ⟨ws, hws, rfl⟩ := runs_bind_pure h
    obtain ⟨he, hall⟩ := ofAll_spec hv.of_list hws
    exact ⟨he, fun υ hυ => by rw [resolved, resolve, hall υ hυ], by simp⟩
  | _ => exact ofValue_spec (by simp) hv h

theorem ofAll_spec {vs : List Value} (hvs : ∀ v ∈ vs, Fits f σ v) (h : Runs (ofAll vs) σ ws τ) :
    Enters f σ τ ∧ ∀ υ, Enters f τ υ → resolveAll υ.2.program υ.1 vs = ws := by
  cases vs with
  | nil =>
    rw [ofAll] at h
    obtain ⟨rfl, rfl⟩ := runs_pure.1 h
    exact ⟨.refl _, fun _ _ => rfl⟩
  | cons v vs =>
    rw [ofAll] at h
    obtain ⟨w, σ₁, hw, h⟩ := runs_bind.1 h
    obtain ⟨ws', hws, rfl⟩ := runs_bind_pure h
    obtain ⟨e₁, hv, -⟩ := ofAny_spec (hvs v (by simp)) hw
    obtain ⟨e₂, hvs⟩ := ofAll_spec (fun x hx => (hvs x (by simp [hx])).enters e₁) hws
    exact ⟨e₁.trans e₂, fun υ hυ => by rw [resolveAll, hvs υ hυ, ← hv υ (e₂.trans hυ)]⟩
end

theorem ofAny_resolves : Resolves (Enters f) (Fits f) resolved ofAny where
  refl := .refl
  trans _ _ _ := .trans
  keeps _ _ _ h hv := hv.enters h
  step v _ _ _ hv h := ⟨(ofAny_spec hv h).1, (ofAny_spec hv h).2.1⟩

theorem ofOp_spec (hop : ∀ v ∈ op.values, Fits f σ v) (h : Runs (ofOp op) σ op' τ) :
    Enters f σ τ ∧ op' = op.bare.map (resolved τ) := by
  obtain ⟨he, hop'⟩ := ofAny_resolves.opMapM (fun v hv => hop v (op.values_bare hv)) h
  exact ⟨he, (hop' τ (.refl _)).symm⟩

theorem resolve_eq_versionReference (hv : v.Plain)
    (h : resolve p s v = .versionReference r) : v = .reference r := by
  have hself : v ≠ .versionReference r := fun hr => (hv v (by simp [hr, flat])).2 r hr
  cases v with
  | reference i =>
    rw [versionReference.inj h]
  | list items =>
    cases h
  | target t =>
    cases t with
    | var x =>
      rw [resolve] at h
      rcases resolveVariable_cases p s x with hx | ⟨i, hx, -⟩ <;> simp [hx] at h
    | _ => exact (hself h).elim
  | _ => exact (hself h).elim

theorem first_met (hv : Fits f σ v)
    (h : Runs (ofAny v >>= k) σ op τ) (hk : ∀ w υ, Enters f σ υ → Runs (k w) υ op τ → Enters f υ τ)
    (hr : resolved τ v = .versionReference r) : r ∈ τ.1.parts := by
  obtain rfl := resolve_eq_versionReference hv.plain hr
  obtain ⟨w, υ, hw, h⟩ := runs_bind.1 h
  obtain ⟨he, -, hmet⟩ := ofAny_spec hv hw
  exact (hk w υ he h).parts (hmet r rfl)

theorem ofOp_met (hop : ∀ v ∈ op.values, Fits f σ v) (h : Runs (ofOp op) σ op' τ)
    (ht : throughPart op' = true) (hr : op'.lvalue? = some (.versionReference r)) : r ∈ τ.1.parts := by
  obtain ⟨-, hop'⟩ := ofOp_spec hop h
  rw [hop'] at ht hr
  cases op with
  | assign r₀ v =>
    refine first_met (hop r₀ (by simp [values])) h (fun w υ he h => ?_) (Option.some.inj hr)
    exact ((ofAny_resolves).one (c := assign w) (fun x hx => (hop x (by simp_all [values])).enters he) h).1
  | binary r₀ o x y =>
    refine first_met (hop r₀ (by simp [values])) h (fun w υ he h => ?_) (Option.some.inj hr)
    exact ((ofAny_resolves).two (c := binary w o) (fun x hx => (hop x (by simp_all [values])).enters he) h).1
  | _ => simp [Op.bare, Op.map, throughPart] at ht

theorem originFrom_keeps {s : Store} {P : Value → Prop} (hP : ∀ v w, P v → s.pointsTo v = some w → P w)
    (hv : P v) (h : s.originFrom fuel v = some w) : P w := by
  induction fuel generalizing v with
  | zero => exact Option.some.inj h ▸ hv
  | succ fuel ih =>
    rw [Store.originFrom] at h
    split at h
    · obtain ⟨u, hu, h⟩ := Option.bind_eq_some_iff.1 h
      exact ih (hP v u hv hu) h
    · exact Option.some.inj h ▸ hv

theorem originFrom_part {s : Store} (hs : ∀ r w, (s.reference r).pointsTo = some w → w.Plain) {P : Nat → Prop}
    (hP : ∀ r r', P r → s.versionParts.getD r none = some (.versionReference r') → P r') (fuel : Nat)
    (hv : v.Plain ∨ ∃ r, P r ∧ (v = .versionReference r ∨ s.versionParts.getD r none = some v))
    (h : s.originFrom fuel v = some (.version j)) : ∃ r, P r ∧ s.versionParts.getD r none = some (.version j) := by
  have hend := originFrom_keeps (P := fun v => v.Plain ∨ ∃ r, P r ∧ (v = .versionReference r ∨ s.versionParts.getD r none = some v))
    (fun v w hv hw => ?_) hv h
  · rcases hend with hj | ⟨r, hr, hj⟩
    · exact ((hj _ version_mem_flat).1 j rfl).elim
    · exact ⟨r, hr, by simpa using hj⟩
  cases v with
  | reference i => exact .inl (hs i w hw)
  | versionReference i =>
    refine .inr ⟨i, ?_, .inr hw⟩
    rcases hv with hv | ⟨r, hr, hv | hv⟩
    · exact ((hv _ (by simp [flat])).2 i rfl).elim
    · exact versionReference.inj hv ▸ hr
    · exact hP r i hr hv
  | _ => cases hw

theorem origin_held (hc : Closed σ) (hs : ∀ r w, (σ.2.store.reference r).pointsTo = some w → w.Plain)
    (hr : r ∈ σ.1.parts) (h : σ.2.store.origin (.versionReference r) = some (.version j)) : Held σ j := by
  obtain ⟨r', hr', hj⟩ := originFrom_part hs (P := (· ∈ σ.1.parts)) (fun r r' hr => hc r hr r') _ (.inr ⟨r, hr, .inl rfl⟩) h
  exact .inr (.inr ⟨r', hr', hj⟩)

/-! ## Writing -/

theorem renew_spec (h : Runs (renew i) σ k τ) : k = σ.2.store.versions.size ∧ Renews σ i τ := by
  replace h := runs_get_bind (runs_analysis_bind.1 h)
  split at h
  · exact absurd h not_runs_fail
  · rename_i l hl
    replace h := runs_modify_bind (runs_make_bind.1 h)
    obtain ⟨rfl, rfl⟩ := runs_pure.1 h
    exact ⟨rfl, l, hl, rfl⟩

theorem lvalue_of_throughPart (h : throughPart op = true) : ∃ r, op.lvalue? = some (.versionReference r) := by
  unfold throughPart at h
  split at h
  · exact ⟨_, rfl⟩
  · exact ⟨_, rfl⟩
  · cases h

/-- What an operation is given to write: nothing new, a new version, or a new version of what a part belongs to. -/
theorem writeNew_cases (h : Runs (writeNew f n op) σ op' τ) : (τ = σ ∧ op' = op ∧ ∀ k, op.lvalue? ≠ some (.version k)) ∨
    (∃ j, op.lvalue? = some (.version j) ∧ Renews σ j τ ∧ op' = op.withLvalue (.version σ.2.store.versions.size)) ∨
    ∃ j r υ, op.lvalue? = some (.versionReference r) ∧ throughPart op = true ∧
      σ.2.store.origin (.versionReference r) = some (.version j) ∧ op' = op ∧ Renews σ j υ ∧
      Quiet (adding f n (partPhi n σ.2.store.versions.size j) υ) τ := by
  replace h := runs_analysis_bind.1 h
  by_cases ht : throughPart op = true
  · obtain ⟨r, hr⟩ := lvalue_of_throughPart ht
    simp only [hr, ht] at h
    split at h
    · rename_i j hj
      obtain ⟨k, σ₂, hk, h⟩ := runs_bind.1 h
      obtain ⟨rfl, hrenew⟩ := renew_spec hk
      obtain ⟨u, σ₃, hu, h⟩ := runs_bind.1 h
      obtain rfl := runs_emit hu
      obtain ⟨u, hu, rfl⟩ := runs_bind_pure h
      have hnew : Held (adding f n (partPhi n σ.2.store.versions.size j) σ₂) σ.2.store.versions.size ∧
          σ.2.store.versions.size < σ₂.2.store.versions.size := by
        obtain ⟨l, -, rfl⟩ := hrenew
        exact ⟨.inl ⟨σ.2.key j, by rw [adding, Naming.current_put, if_pos rfl]⟩, by simp⟩
      refine .inr (.inr ⟨j, r, σ₂, hr, ht, hj, rfl, hrenew, ?_⟩)
      refine quiet_setPart hu (runs_modifyAnalysis hu ▸ rfl) (Subset.refl _) (fun _ => .inr) (fun i hi => ?_) (by simp)
      cases hi
      exact hnew
    · obtain ⟨rfl, rfl⟩ := runs_pure.1 h
      exact .inl ⟨rfl, rfl, by simp [hr]⟩
  · simp only [ht] at h
    split at h
    · rename_i j hj
      have hlv : op.lvalue? = some (.version j) := by
        cases hv : op.lvalue? with
        | none => simp [hv] at hj
        | some v => simpa [hv] using hj
      obtain ⟨k, σ₂, hk, h⟩ := runs_bind.1 h
      obtain ⟨rfl, hrenew⟩ := renew_spec hk
      simp only [hlv] at h
      obtain ⟨rfl, rfl⟩ := runs_pure.1 h
      exact .inr (.inl ⟨j, hlv, hrenew, rfl⟩)
    · rename_i hno
      obtain ⟨rfl, rfl⟩ := runs_pure.1 h
      refine .inl ⟨rfl, rfl, fun k hk => ?_⟩
      simp only [hk] at hno
      exact hno k rfl

/-- An operation is given what it writes and is added, with its expression. -/
inductive Writes (f : FunctionId) (n : NodeId) (op : Op) (e : Option Expr) : List Instr → State → State → Prop
  | keep {σ : State} : (∀ k, op.lvalue? ≠ some (.version k)) → Writes f n op e [⟨op, e⟩] σ (adding f n ⟨op, e⟩ σ)
  | write {σ τ : State} {j : Nat} : op.lvalue? = some (.version j) → Held σ j → Renews σ j τ →
      Writes f n op e [⟨op.withLvalue (.version σ.2.store.versions.size), e⟩] σ
        (adding f n ⟨op.withLvalue (.version σ.2.store.versions.size), e⟩ τ)
  | part {σ τ υ : State} {j r : Nat} : op.lvalue? = some (.versionReference r) → Held σ j → Renews σ j τ →
      Quiet (adding f n (partPhi n σ.2.store.versions.size j) τ) υ →
      Writes f n op e [partPhi n σ.2.store.versions.size j, ⟨op, e⟩] σ (adding f n ⟨op, e⟩ υ)

theorem Writes.step (h : Writes f n op e new σ τ) (hphi : op.isPhi = false) (hsees : Sees σ op) : Step f n new σ τ := by
  cases h with
  | keep hlv => exact .keep hphi hsees hlv
  | write hlv hj hr =>
    refine .write ?_ ?_ hj hr (lvalue_withLvalue hlv)
    · rw [isPhi_withLvalue, hphi]
    · intro k hk
      rw [reads_withLvalue] at hk
      exact hsees k hk
  | part hlv hj hr hq => exact .part hphi hsees hj hr hlv hq

theorem writeNew_emit (h : Runs (writeNew f n op) σ op' υ)
    (hemit : Runs (emit f n ⟨op', e⟩) υ u τ) (hheld : ∀ j, op.lvalue? = some (.version j) → Held σ j)
    (hpart : ∀ r j, op.lvalue? = some (.versionReference r) → throughPart op = true →
      σ.2.store.origin (.versionReference r) = some (.version j) → Held σ j) : ∃ new, Writes f n op e new σ τ := by
  obtain rfl := runs_emit hemit
  rcases writeNew_cases h with ⟨rfl, rfl, hlv⟩ | ⟨j, hlv, hr, rfl⟩ | ⟨j, r, υ', hlv, ht, horigin, rfl, hr, hq⟩
  · exact ⟨_, .keep hlv⟩
  · exact ⟨_, .write hlv (hheld j hlv) hr⟩
  · exact ⟨_, .part hlv (hpart r j hlv ht horigin) hr hq⟩

theorem addReferred_enters (h : Runs (addReferred i v) σ u τ) : Enters f σ τ := by
  unfold addReferred at h
  split at h
  · split at h
    all_goals first
      | exact absurd h not_runs_fail
      | exact .quiet (modifyVersion_quiet h fun x => ⟨rfl, rfl, rfl⟩) (.refl _)
  · exact absurd h not_runs_fail

theorem noteReferred_enters (h : Runs (noteReferred op) σ u τ) : Enters f σ τ := by
  replace h := runs_analysis_bind.1 h
  have hnone : ∀ {u : Unit}, Runs (pure ()) σ u τ → Enters f σ τ := fun h => by
    obtain ⟨-, rfl⟩ := runs_pure.1 h
    exact .refl _
  repeat' split at h
  all_goals first
    | exact addReferred_enters h
    | exact absurd h not_runs_fail
    | exact hnone h

theorem afterCall_steps (h : Runs (afterCall f n c) σ u τ) :
    ∃ new, Steps f n new σ τ ∧ ∀ i ∈ new, i.op.isPhi = true := by
  replace h := runs_get_bind h
  obtain ⟨r, hloop, -⟩ := runs_bind_pure h
  refine forIn_runs (fun _ υ => ∃ new, Steps f n new σ υ ∧ ∀ i ∈ new, i.op.isPhi = true) hloop ⟨[], .nil _, by simp⟩ ?_
  rintro done name rest - υ r υ' ⟨new, hsteps, hphi⟩ hround
  replace hround := runs_get_bind (runs_analysis_bind.1 hround)
  split at hround
  · rename_i i hi
    split at hround
    · obtain ⟨k, σ₅, hk, hround⟩ := runs_bind.1 hround
      obtain ⟨rfl, hrenew⟩ := renew_spec hk
      obtain ⟨u, σ₃, hu, hround⟩ := runs_bind.1 hround
      obtain rfl := runs_emit hu
      obtain ⟨rfl, rfl⟩ := runs_pure.1 hround
      refine ⟨rfl, _, hsteps.append (.single (.callback (.inr (.inl ⟨.state name, hi⟩)) hrenew)), ?_⟩
      exact forall_mem_append.2 ⟨hphi, forall_mem_singleton.2 rfl⟩
    · obtain ⟨rfl, rfl⟩ := runs_pure.1 hround
      exact ⟨rfl, new, hsteps, hphi⟩
  · obtain ⟨rfl, rfl⟩ := runs_pure.1 hround
    exact ⟨rfl, new, hsteps, hphi⟩

/-! ## The operations of a node -/

/-- The conversion of one operation, with all operations that it adds. -/
inductive Turn (f : FunctionId) (n : NodeId) (i : Instr) : List Instr → State → State → Prop
  | mk {σ υ υ' τ : State} {new calls : List Instr} : Enters f σ υ →
      Writes f n (i.op.bare.map (resolved υ)) i.expr new υ υ' → Steps f n calls υ' τ →
      (∀ i ∈ calls, i.op.isPhi = true) → Turn f n i (new ++ calls) σ τ

inductive Turns (f : FunctionId) (n : NodeId) : List Instr → List Instr → State → State → Prop
  | nil (σ : State) : Turns f n [] [] σ σ
  | snoc {is new more : List Instr} {i : Instr} {σ τ υ : State} : Turns f n is new σ τ → Turn f n i more τ υ →
      Turns f n (is ++ [i]) (new ++ more) σ υ

theorem sees_resolved (ht : Tabled σ) (hop : op.Plain) : Sees σ (op.map (resolved σ)) := by
  intro k hk
  obtain ⟨v, hv, hkv⟩ := version_mem_reads ((isPhi_map _ op).trans hop.isPhi) hk
  rw [values_map] at hv
  obtain ⟨w, hw, rfl⟩ := mem_map.1 hv
  obtain ⟨K, hK⟩ := version_mem_resolve _ _ w (hop.values w hw) hkv
  rw [(ht.current K k hK).2]
  exact hK

theorem held_lvalue (hop : op.Plain) (h : (op.map (resolved σ)).lvalue? = some (.version j)) :
    Held σ j := by
  rw [lvalue_map _ hop.isPhi] at h
  obtain ⟨v, hv, hj⟩ := Option.map_eq_some_iff.1 h
  refine .inl (version_mem_resolve σ.2.program σ.1 v (hop.values v (lvalue_mem_values hop.isPhi hv)) ?_)
  change Value.version j ∈ (resolved σ v).flat
  rw [hj]
  exact version_mem_flat

theorem Turn.steps (ht : Tabled σ) (hi : i.op.Plain) (h : Turn f n i new σ τ) :
    Steps f n new σ τ := by
  obtain ⟨he, hw, hcalls, -⟩ := h
  have hplain := hi.bare
  have hstep := hw.step ((isPhi_map _ _).trans hplain.isPhi) (sees_resolved (stable_tabled.enters ht he) hplain)
  exact (Steps.single (.enters he)).append ((Steps.single hstep).append hcalls)

theorem Turns.steps (ht : Tabled σ) (hi : ∀ i ∈ is, i.op.Plain) (h : Turns f n is new σ τ) :
    Steps f n new σ τ := by
  induction h with
  | nil σ => exact .nil σ
  | @snoc is new more i σ τ υ _ hturn ih =>
    have hprev := ih ht fun j hj => hi j (by simp [hj])
    exact hprev.append (hturn.steps (stable_tabled.steps ht hprev) (hi i (by simp)))

theorem convert_turn (hc : Closed σ) (hi : i.op.Plain) (hfits : ∀ v ∈ i.op.values, Fits f σ v)
    (hparts : ∀ r w, (σ.2.store.reference r).pointsTo = some w → w.Plain) (h : Runs (convert f n i) σ u τ) :
    ∃ new, Turn f n i new σ τ := by
  obtain ⟨op, σ₁, hop, h⟩ := runs_bind.1 h
  obtain ⟨he, hop₁⟩ := ofOp_spec hfits hop
  obtain ⟨op', σ₂, hop', h⟩ := runs_bind.1 h
  obtain ⟨u, σ₃, hu, h⟩ := runs_bind.1 h
  have hheld : ∀ j, op.lvalue? = some (.version j) → Held σ₁ j := fun j hj => held_lvalue hi.bare (hop₁ ▸ hj)
  have hpart : ∀ r j, op.lvalue? = some (.versionReference r) → throughPart op = true →
      σ₁.2.store.origin (.versionReference r) = some (.version j) → Held σ₁ j := fun r j hr ht horigin => by
    refine origin_held (stable_closed.enters hc he) (fun r w hw => hparts r w ?_) (ofOp_met hfits hop ht hr) horigin
    rwa [Store.reference, (he.grows (f := f)).references] at hw
  obtain ⟨new, hw⟩ := writeNew_emit hop' hu hheld hpart
  rw [hop₁] at hw
  split at h
  · obtain ⟨u, σ₄, hu, h⟩ := runs_bind.1 h
    obtain ⟨calls, hcalls, hphi⟩ := afterCall_steps hu
    refine ⟨new ++ calls, .mk he hw ?_ hphi⟩
    have hs := hcalls.append (.single (.enters (noteReferred_enters h)))
    rwa [append_nil] at hs
  · exact ⟨new ++ [], .mk he hw (.single (.enters (noteReferred_enters h))) (by simp)⟩

/-- What the operations of a function have to be for renaming: without versions, as are the parts they lead to. -/
structure Prepared (f : FunctionId) (a : Analysis) : Prop where
  plain : ∀ n, ∀ i ∈ a.instrs f n, i.op.Plain
  parts : ∀ r w, (a.store.reference r).pointsTo = some w → w.Plain

theorem Prepared.grows (h : Prepared f a) (hg : Grows f a b) : Prepared f b where
  plain m := by
    rw [hg.instrs]
    exact h.plain m
  parts r w hw := by
    rw [Store.reference, hg.references] at hw
    exact h.parts r w hw

theorem Prepared.fits (h : Prepared f σ.2) (ht : Tabled σ) (hi : i ∈ σ.2.instrs f n) :
    ∀ v ∈ i.op.values, Fits f σ v :=
  fun v hv => ⟨(h.plain n i hi).values v hv, fun _ hx => ⟨n, i, hi, v, hv, hx⟩, h.parts, ht⟩

theorem Turns.of_loop (hp : Prepared f σ.2) (ht : Tabled σ) (hc : Closed σ)
    (h : Runs (forIn (σ.2.instrs f n) PUnit.unit fun i _ => do
      convert f n i
      pure (ForInStep.yield PUnit.unit)) σ r τ) : ∃ new, Turns f n (σ.2.instrs f n) new σ τ := by
  refine forIn_runs (fun done υ => ∃ new, Turns f n done new σ υ) h ⟨[], .nil σ⟩ ?_
  rintro done i rest hxs υ r υ' ⟨new, hnew⟩ hround
  have hsteps := hnew.steps ht fun j hj => hp.plain n j (by rw [hxs]; simp [hj])
  have hpυ := hp.grows hsteps.grows
  have hi : i ∈ υ.2.instrs f n := by
    rw [(hsteps.grows (f := f)).instrs, hxs]
    simp
  obtain ⟨u, hu, rfl⟩ := runs_bind_pure hround
  obtain ⟨more, hmore⟩ := convert_turn (stable_closed.steps hc hsteps) (hpυ.plain n i hi) (hpυ.fits (stable_tabled.steps ht hsteps) hi)
    hpυ.parts hu
  exact ⟨rfl, new ++ more, .snoc hnew hmore⟩

/-! ## Places where versions meet -/

theorem modify_append_cons {xs ys : List α} {x : α} (g : α → α) :
    (xs ++ x :: ys).modify xs.length g = xs ++ g x :: ys := by
  simp [modify_eq_take_cons_drop]

theorem of_zipIdx_eq {l : List α} (h : l.zipIdx = done ++ (x, k) :: rest) :
    k = done.length ∧ l.drop done.length = x :: l.drop (done.length + 1) := by
  have hget : (l.zipIdx)[done.length]? = some (x, k) := by simp [h]
  rw [getElem?_zipIdx, Option.map_eq_some_iff] at hget
  obtain ⟨y, hy, hyk⟩ := hget
  obtain ⟨hlt, rfl⟩ := List.getElem?_eq_some_iff.1 hy
  cases hyk
  exact ⟨by omega, drop_eq_getElem_cons hlt⟩

theorem writeNew_phi (h : Runs (writeNew f n (.phi (.version j) [] nodes)) σ op' τ) :
    Renews σ j τ ∧ op' = .phi (.version σ.2.store.versions.size) [] nodes := by
  rcases writeNew_cases h with ⟨-, -, hlv⟩ | ⟨j', hlv, hr, rfl⟩ | ⟨j', r, υ, hlv, -⟩
  · exact (hlv j rfl).elim
  · cases hlv
    exact ⟨hr, rfl⟩
  · cases hlv

theorem renewPhis_spec (hops : ∀ i ∈ σ.2.ssa f n, ∃ j nodes, i = { op := .phi (.version j) [] nodes })
    (h : Runs (renewPhis f n) σ u τ) :
    ∃ new υ, RenewsAll (σ.2.ssa f n) new σ υ ∧ Sets f n new υ τ := by
  replace h := runs_analysis_bind.1 h
  obtain ⟨r, hloop, -⟩ := runs_bind_pure h
  -- The operations that are done have their new versions, those to do are as before.
  have key := forIn_runs (fun done υ => ∃ new ρ, new.length = done.length ∧ RenewsAll (done.map (·.1)) new σ ρ ∧
      Sets f n (new ++ (σ.2.ssa f n).drop done.length) ρ υ) hloop
    ⟨[], σ, rfl, .nil σ, by simpa using Sets.refl f n σ⟩ ?_
  · obtain ⟨new, ρ, hlen, hall, hsets⟩ := key
    refine ⟨new, ρ, ?_, ?_⟩
    · simpa using hall
    · simpa using hsets
  · rintro done ⟨i, k⟩ rest hxs υ r υ' ⟨new, ρ, hlen, hall, hsets⟩ hround
    obtain ⟨rfl, hdrop⟩ := of_zipIdx_eq hxs
    obtain ⟨j, nodes, rfl⟩ := hops i (mem_of_mem_drop (hdrop ▸ mem_cons_self))
    obtain ⟨op, σ₃, hop, hround⟩ := runs_bind.1 hround
    obtain ⟨u, hu, rfl⟩ := runs_bind_pure hround
    obtain ⟨hr, rfl⟩ := writeNew_phi hop
    obtain rfl := runs_replace hu
    obtain ⟨ρ', hr', hsets'⟩ := hsets.renews hr
    refine ⟨rfl, new ++ [{ op := .phi (.version ρ.2.store.versions.size) [] nodes }], ρ', by simp [hlen], ?_, ?_⟩
    · rw [map_append]
      exact .snoc hall hr'
    · have hssa : σ₃.2.ssa f n = new ++ (σ.2.ssa f n).drop done.length := by
        rw [hsets'.ssa, if_pos rfl]
      have hset := hsets'.set (new ++ [{ op := .phi (.version ρ.2.store.versions.size) [] nodes }] ++
        (σ.2.ssa f n).drop (done.length + 1))
      rw [hssa, hdrop, ← hlen, modify_append_cons, hsets.store]
      simpa [hlen] using hset

/-- The renaming of a node: the places where versions meet are renewed, then the operations are converted. -/
inductive Converts (f : FunctionId) (n : NodeId) : State → State → Prop
  | mk {σ υ υ' τ : State} {phis new : List Instr} : RenewsAll (σ.2.ssa f n) phis (entering n σ) υ →
      Sets f n phis υ υ' → Turns f n (υ'.2.instrs f n) new υ' τ → Converts f n σ τ

theorem node_converts (hp : Prepared f σ.2) (ht : Tabled σ)
    (hops : ∀ i ∈ σ.2.ssa f n, ∃ j nodes, i = { op := .phi (.version j) [] nodes }) (h : Runs (node f n) σ u τ) :
    Converts f n σ τ := by
  replace h := runs_modify_bind h
  obtain ⟨v, σ₂, hv, h⟩ := runs_bind.1 h
  obtain ⟨phis, υ, hall, hsets⟩ := renewPhis_spec (σ := entering n σ) hops hv
  replace h := runs_analysis_bind.1 h
  obtain ⟨r, hloop, -⟩ := runs_bind_pure h
  have hg : Grows f σ.2 σ₂.2 := hall.grows.trans hsets.grows
  have hc : Closed (entering n σ) := nofun
  replace hc := stable_closed.meeting hc hall hsets
  have ht := stable_tabled.meeting ht.entering hall hsets
  obtain ⟨new, hturns⟩ := Turns.of_loop (hp.grows hg) ht hc hloop
  exact .mk hall hsets hturns

theorem Converts.steps (ht : Tabled σ) (hi : ∀ i ∈ σ.2.instrs f n, i.op.Plain) (h : Converts f n σ τ) :
    ∃ phis new υ υ', RenewsAll (σ.2.ssa f n) phis (entering n σ) υ ∧ Sets f n phis υ υ' ∧ Steps f n new υ' τ ∧
      τ.2.ssa f n = phis ++ new := by
  obtain ⟨hall, hsets, hturns⟩ := h
  have ht' := stable_tabled.meeting ht.entering hall hsets
  have hinstrs := (hsets.instrs n).trans (hall.grows.instrs n)
  have hsteps := hturns.steps ht' (by rw [hinstrs]; exact hi)
  refine ⟨_, _, _, _, hall, hsets, hsteps, ?_⟩
  rw [hsteps.ssa, if_pos rfl, hsets.ssa, if_pos rfl]

theorem Stable.converts (hP : Stable f P) (ht : Tabled σ) (hi : ∀ i ∈ σ.2.instrs f n, i.op.Plain)
    (h : P (entering n σ)) (hc : Converts f n σ τ) : P τ := by
  obtain ⟨phis, new, υ, υ', hall, hsets, hsteps, -⟩ := hc.steps ht hi
  exact hP.steps (hP.meeting h hall hsets) hsteps

end ContractAudit.Rename
