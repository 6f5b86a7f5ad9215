import ContractAudit.Proofs.Versions

/-! # Converting values and operations

Looking up versions may enter variables that have none yet, but does not change what has one. So a converted operation is the
operation with each value resolved in the tables after all look-ups.
-/

namespace ContractAudit

open Ir List Op Value CallKind

variable {op : Op} {v v₁ v₂ : Value}

/-! ## Changing the values of operations -/

namespace Ir

variable (g : Value → Value)

def CallKind.map : CallKind → CallKind
  | .highLevel d n f => .highLevel (g d) n f
  | .library d n f => .library (g d) n f
  | .dynamic f t => .dynamic (g f) t
  | .lowLevel d n => .lowLevel (g d) n
  | .send d v => .send (g d) (g v)
  | .transfer d v => .transfer (g d) (g v)
  | k => k

def Call.map (g : Value → Value) (c : Call) : Call :=
  { c with
    kind := c.kind.map g, result := c.result.map g, arguments := c.arguments.map g
    value := c.value.map g, gas := c.gas.map g, salt := c.salt.map g }

/-- An operation with other values. Where versions meet nothing changes. -/
def Op.map (g : Value → Value) : Op → Op
  | assign r v => assign (g r) (g v)
  | binary r op a b => binary (g r) op (g a) (g b)
  | unary r op v => unary (g r) op (g v)
  | conversion r v t => conversion (g r) (g v) t
  | index r a b => index (g r) (g a) (g b)
  | member r a n => member (g r) (g a) n
  | length r v => length (g r) (g v)
  | codeSize r v => codeSize (g r) (g v)
  | delete r v => delete (g r) (g v)
  | initArray r vs => initArray (g r) (vs.map g)
  | unpack r t i => unpack (g r) (g t) i
  | condition v => condition (g v)
  | returns vs => returns (vs.map g)
  | call c => call (c.map g)
  | op => op

def CallKind.values : CallKind → List Value
  | .highLevel d _ _ | .library d _ _ | .dynamic d _ | .lowLevel d _ => [d]
  | .send d v | .transfer d v => [d, v]
  | _ => []

def Call.values (c : Call) : List Value :=
  c.kind.values ++ c.result.toList ++ c.arguments ++ c.value.toList ++ c.gas.toList ++ c.salt.toList

/-- The values that an operation has before versions meet. -/
def Op.values : Op → List Value
  | assign r v | unary r _ v | conversion r v _ | length r v | codeSize r v | delete r v | member r v _
  | unpack r v _ => [r, v]
  | binary r _ a b | index r a b => [r, a, b]
  | initArray r vs => r :: vs
  | condition v => [v]
  | returns vs => vs
  | call c => c.values
  | phi .. | phiCallback .. | nop => []

theorem CallKind.map_congr {g : Value → Value} (k : CallKind) (hgh : ∀ v ∈ k.values, g v = h v) : k.map g = k.map h := by
  cases k <;> simp_all [map, values]

theorem Call.map_congr {g : Value → Value} (c : Call) (hgh : ∀ v ∈ c.values, g v = h v) : c.map g = c.map h := by
  have hkind : c.kind.map g = c.kind.map h := c.kind.map_congr fun v hv => hgh v (by simp [values, hv])
  have hoption : ∀ o : Option Value, o.toList ⊆ c.values → o.map g = o.map h := by
    intro o ho
    cases o with
    | none => rfl
    | some v => exact congrArg some (hgh v (ho (by simp)))
  have hargs : c.arguments.map g = c.arguments.map h :=
    map_congr_left fun v hv => hgh v (by simp [values, hv])
  rw [map, map, hkind, hargs, hoption c.result (by intro v; simp +contextual [values]),
    hoption c.value (by intro v; simp +contextual [values]), hoption c.gas (by intro v; simp +contextual [values]),
    hoption c.salt (by intro v; simp +contextual [values])]

theorem Op.map_congr {g : Value → Value} (op : Op) (hgh : ∀ v ∈ op.values, g v = h v) : op.map g = op.map h := by
  cases op with
  | call c => exact congrArg call (c.map_congr hgh)
  | initArray r vs =>
    have hvs : vs.map g = vs.map h := map_congr_left fun v hv => hgh v (by simp [values, hv])
    rw [map, map, hvs, hgh r (by simp [values])]
  | returns vs => exact congrArg returns (map_congr_left hgh)
  | _ => simp_all [map, values]

theorem Op.map_id (op : Op) : op.map (fun v => v) = op := by
  cases op with
  | call c =>
    obtain ⟨k, r, as, _, v, g, s, _, _, _⟩ := c
    cases k <;> simp [map, Call.map, CallKind.map]
  | _ => simp [map]

theorem Op.map_map (g h : Value → Value) : (op.map g).map h = op.map fun v => h (g v) := by
  cases op with
  | call c =>
    obtain ⟨k, r, as, _, v, l, s, _, _, _⟩ := c
    cases k <;> simp [map, Call.map, CallKind.map, Function.comp_def]
  | _ => simp [map]

theorem CallKind.values_map (k : CallKind) : (k.map g).values = k.values.map g := by
  cases k <;> rfl

theorem Op.values_map (g : Value → Value) (op : Op) : (op.map g).values = op.values.map g := by
  cases op with
  | call c => simp [map, values, Call.map, Call.values, CallKind.values_map, Option.toList_map]
  | _ => simp [map, values]

theorem Op.isPhi_map (op : Op) : (op.map g).isPhi = op.isPhi := by
  cases op <;> rfl

theorem Op.isPhi_bare : op.bare.isPhi = op.isPhi := by
  cases op <;> rfl

theorem Op.values_bare (op : Op) : op.bare.values ⊆ op.values := by
  cases op with
  | call c =>
    change c.bare.values ⊆ c.values
    unfold Call.bare
    split
    · intro v hv
      simp only [Call.values, Option.toList_none, append_nil, mem_append] at hv ⊢
      exact .inl (.inl (.inl hv))
    · exact fun _ h => h
  | _ => exact fun _ h => h

/-! ## What an operation reads and writes -/

theorem Value.mem_flatAll : w ∈ flatAll vs ↔ ∃ v ∈ vs, w ∈ v.flat := by
  induction vs with
  | nil => simp [flatAll]
  | cons v vs ih => simp [flatAll, ih]

theorem Value.version_mem_flat : version k ∈ (version k).flat := by simp [flat]

theorem Call.reads_subset (c : Call) : c.reads ⊆ c.values ++ flatAll c.arguments := by
  obtain ⟨kind, _, _, _, _, _, _, _, _, _⟩ := c
  intro v hv
  cases kind <;> simp [reads, values, CallKind.values] at hv ⊢ <;> grind

theorem Call.version_mem_reads {c : Call} (h : .version k ∈ c.reads) : ∃ v ∈ c.values, .version k ∈ v.flat := by
  rcases mem_append.1 (c.reads_subset h) with hk | hk
  · exact ⟨_, hk, version_mem_flat⟩
  · obtain ⟨v, hv, hk⟩ := mem_flatAll.1 hk
    exact ⟨v, by simp [values, hv], hk⟩

theorem Op.version_mem_reads (hphi : op.isPhi = false) (h : .version k ∈ op.reads) :
    ∃ v ∈ op.values, .version k ∈ v.flat := by
  have hself : .version k ∈ op.values → ∃ v ∈ op.values, .version k ∈ v.flat := fun h =>
    ⟨_, h, version_mem_flat⟩
  cases op with
  | call c => exact Call.version_mem_reads h
  | phi r vs ns => simp [isPhi] at hphi
  | phiCallback r vs c u => simp [isPhi] at hphi
  | nop => simp [reads] at h
  | initArray r vs =>
    obtain ⟨v, hv, hk⟩ := mem_flatAll.1 h
    exact ⟨v, by simp [values, hv], hk⟩
  | returns vs => exact hself h
  | _ =>
    simp only [reads, mem_cons, not_mem_nil, or_false, reduceCtorEq] at h
    exact hself (by simp [values]; simp [h])

theorem Op.reads_withLvalue : (op.withLvalue r).reads = op.reads := by
  cases op with
  | call c =>
    obtain ⟨k, _, _, _, _, _, _, _, _, _⟩ := c
    cases k <;> rfl
  | _ => rfl

theorem Op.isPhi_withLvalue : (op.withLvalue r).isPhi = op.isPhi := by
  cases op <;> rfl

theorem Op.lvalue_withLvalue (h : op.lvalue? = some v) : (op.withLvalue r).lvalue? = some r := by
  cases op with
  | condition _ => simp [lvalue?] at h
  | returns _ => simp [lvalue?] at h
  | nop => simp [lvalue?] at h
  | _ => rfl

theorem Op.lvalue_map (h : op.isPhi = false) : (op.map g).lvalue? = op.lvalue?.map g := by
  cases op with
  | phi _ _ _ => simp [isPhi] at h
  | phiCallback _ _ _ _ => simp [isPhi] at h
  | _ => rfl

theorem Op.lvalue_mem_values (hphi : op.isPhi = false) (h : op.lvalue? = some v) : v ∈ op.values := by
  cases op with
  | phi _ _ _ => simp [isPhi] at hphi
  | phiCallback _ _ _ _ => simp [isPhi] at hphi
  | call c =>
    change c.result = some v at h
    simp [values, Call.values, h]
  | _ => simp_all [lvalue?, values]

/-! ## Plain values -/

/-- A value without versions. -/
def Value.Plain (v : Value) : Prop := ∀ w ∈ v.flat, (∀ i, w ≠ .version i) ∧ ∀ i, w ≠ .versionReference i

/-- An operation without versions. -/
structure Op.Plain (op : Op) : Prop where
  isPhi : op.isPhi = false
  values : ∀ v ∈ op.values, v.Plain

theorem Value.Plain.of_list (h : (list items).Plain) : ∀ v ∈ items, v.Plain := by
  intro v hv w hw
  refine h w ?_
  exact mem_flatAll.2 ⟨v, hv, hw⟩

theorem Value.Plain.of_single (h : v.flat = [v]) (hv : ∀ i, v ≠ .version i) (hr : ∀ i, v ≠ .versionReference i) :
    v.Plain := by
  intro w hw
  rw [h, mem_singleton] at hw
  exact hw ▸ ⟨hv, hr⟩

theorem Op.Plain.bare (h : op.Plain) : op.bare.Plain :=
  ⟨(isPhi_bare).trans h.isPhi, fun v hv => h.values v (op.values_bare hv)⟩

end Ir

namespace Rename

/-- A step on values of a kind that keeps to a relation between states and gives what stays the value's result. -/
structure Resolves (E : State → State → Prop) (P : State → Value → Prop) (res : State → Value → Value)
    (g : Value → Rename Value) : Prop where
  refl : ∀ σ, E σ σ
  trans : ∀ ⦃σ τ υ⦄, E σ τ → E τ υ → E σ υ
  keeps : ∀ ⦃σ τ v⦄, E σ τ → P σ v → P τ v
  step : ∀ ⦃v σ w τ⦄, P σ v → Runs (g v) σ w τ → E σ τ ∧ ∀ υ, E τ υ → res υ v = w

namespace Resolves

variable {α β : Type} (hg : Resolves E P res g)

/-- A step keeps to the relation and gives what stays a result. -/
def Gives (_ : Resolves E P res g) (x : Rename α) (σ : State) (v : State → α) : Prop :=
  ∀ ⦃r τ⦄, Runs x σ r τ → E σ τ ∧ ∀ υ, E τ υ → v υ = r

include hg

theorem pure (y : α) : hg.Gives (Pure.pure y) σ fun _ => y := by
  intro r τ h
  obtain ⟨rfl, rfl⟩ := runs_pure.1 h
  exact ⟨hg.refl _, fun _ _ => rfl⟩

theorem bind {v : State → α} {w : α → State → β} (hx : hg.Gives x σ v)
    (hk : ∀ y τ, E σ τ → hg.Gives (k y) τ (w y)) : hg.Gives (x >>= k) σ fun υ => w (v υ) υ := by
  intro r τ h
  obtain ⟨y, υ, hy, h⟩ := runs_bind.1 h
  obtain ⟨e₁, h₁⟩ := hx hy
  obtain ⟨e₂, h₂⟩ := hk y υ e₁ h
  exact ⟨hg.trans e₁ e₂, fun υ hυ => (congrArg (w · υ) (h₁ υ (hg.trans e₂ hυ))).trans (h₂ υ hυ)⟩

theorem value (hv : P σ v) : hg.Gives (g v) σ (res · v) := fun _ _ => hg.step hv

theorem mapM (vs : List Value) (hP : ∀ v ∈ vs, P σ v) : hg.Gives (vs.mapM g) σ fun υ => vs.map (res υ) := by
  induction vs generalizing σ with
  | nil => exact hg.pure []
  | cons v vs ih =>
    rw [mapM_cons]
    refine hg.bind (w := fun w υ => w :: vs.map (res υ)) (hg.value (hP v (by simp))) fun w τ e => ?_
    exact hg.bind (w := fun ws _ => w :: ws) (ih fun x hx => hg.keeps e (hP x (by simp [hx]))) fun ws _ _ => hg.pure _

theorem optionMapM (v : Option Value) (hP : ∀ x ∈ v.toList, P σ x) : hg.Gives (v.mapM g) σ fun υ => v.map (res υ) := by
  cases v with
  | none => exact hg.pure none
  | some v =>
    exact hg.bind (hg.value (hP v (by simp))) fun w _ _ => hg.pure (some w)

theorem one {c : Value → β} (hP : ∀ x ∈ [v], P σ x) : hg.Gives (do return c (← g v)) σ fun υ => c (res υ v) :=
  hg.bind (hg.value (hP v (by simp))) fun w _ _ => hg.pure (c w)

theorem two {c : Value → Value → β} (hP : ∀ x ∈ [v₁, v₂], P σ x) :
    hg.Gives (do return c (← g v₁) (← g v₂)) σ fun υ => c (res υ v₁) (res υ v₂) :=
  hg.bind (hg.value (hP v₁ (by simp))) fun _ _ e => hg.one fun x hx => hg.keeps e (hP x (by simp_all))

theorem three {c : Value → Value → Value → β} (hP : ∀ x ∈ [v₁, v₂, v₃], P σ x) :
    hg.Gives (do return c (← g v₁) (← g v₂) (← g v₃)) σ fun υ => c (res υ v₁) (res υ v₂) (res υ v₃) :=
  hg.bind (hg.value (hP v₁ (by simp))) fun _ _ e => hg.two fun x hx => hg.keeps e (hP x (by simp_all))

theorem kindMapM (k : CallKind) (hP : ∀ v ∈ k.values, P σ v) : hg.Gives (k.mapM g) σ fun υ => k.map (res υ) := by
  cases k with
  | highLevel d n t => exact hg.one (c := fun w => highLevel w n t) hP
  | library d n t => exact hg.one (c := fun w => library w n t) hP
  | dynamic d t => exact hg.one (c := fun w => dynamic w t) hP
  | lowLevel d n => exact hg.one (c := fun w => lowLevel w n) hP
  | send d v => exact hg.two (c := send) hP
  | transfer d v => exact hg.two (c := transfer) hP
  | _ => exact hg.pure _

theorem callMapM {c : Call} (hP : ∀ v ∈ c.values, P σ v) : hg.Gives (c.mapM g) σ fun υ => c.map (res υ) := by
  simp only [Call.values] at hP
  refine hg.bind (w := fun k υ => { c.map (res υ) with kind := k })
    (hg.kindMapM c.kind fun x hx => hP x (by simp [hx])) fun k _ e₁ => ?_
  refine hg.bind (w := fun r υ => { c.map (res υ) with kind := k, result := r })
    (hg.optionMapM c.result fun x hx => hg.keeps e₁ (hP x (by simp [hx]))) fun r _ e₂ => ?_
  have e₂ := hg.trans e₁ e₂
  refine hg.bind (w := fun as υ => { c.map (res υ) with kind := k, result := r, arguments := as })
    (hg.mapM c.arguments fun x hx => hg.keeps e₂ (hP x (by simp [hx]))) fun as _ e₃ => ?_
  have e₃ := hg.trans e₂ e₃
  refine hg.bind (w := fun v υ => { c.map (res υ) with kind := k, result := r, arguments := as, value := v })
    (hg.optionMapM c.value fun x hx => hg.keeps e₃ (hP x (by simp [hx]))) fun v _ e₄ => ?_
  have e₄ := hg.trans e₃ e₄
  refine hg.bind (w := fun l υ => { c.map (res υ) with kind := k, result := r, arguments := as, value := v, gas := l })
    (hg.optionMapM c.gas fun x hx => hg.keeps e₄ (hP x (by simp [hx]))) fun l _ e₅ => ?_
  have e₅ := hg.trans e₄ e₅
  exact hg.bind (hg.optionMapM c.salt fun x hx => hg.keeps e₅ (hP x (by simp [hx]))) fun _ _ _ => hg.pure _

theorem opMapM (hP : ∀ v ∈ op.values, P σ v) : hg.Gives (op.mapM g) σ fun υ => op.map (res υ) := by
  cases op with
  | assign r v => exact hg.two (c := assign) hP
  | binary r o x y => exact hg.three (c := fun r x y => binary r o x y) hP
  | unary r o v => exact hg.two (c := fun r v => unary r o v) hP
  | conversion r v t => exact hg.two (c := fun r v => conversion r v t) hP
  | index r x y => exact hg.three (c := index) hP
  | member r x n => exact hg.two (c := fun r x => member r x n) hP
  | length r v => exact hg.two (c := length) hP
  | codeSize r v => exact hg.two (c := codeSize) hP
  | delete r v => exact hg.two (c := delete) hP
  | initArray r vs =>
    refine hg.bind (w := fun w υ => Op.initArray w (vs.map (res υ))) (hg.value (hP r (by simp [Op.values]))) fun w _ e => ?_
    exact hg.bind (w := fun ws _ => Op.initArray w ws) (hg.mapM vs fun x hx => hg.keeps e (hP x (by simp [Op.values, hx]))) fun _ _ _ => hg.pure _
  | unpack r t i => exact hg.two (c := fun r t => unpack r t i) hP
  | condition v => exact hg.one (c := condition) hP
  | returns vs => exact hg.bind (hg.mapM vs hP) fun ws _ _ => hg.pure (returns ws)
  | call c => exact hg.bind (hg.callMapM hP) fun c' _ _ => hg.pure (call c')
  | _ => exact hg.pure _

end Resolves

end Rename

end ContractAudit
