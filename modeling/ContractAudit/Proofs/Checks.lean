import ContractAudit.Proofs.Names

/-! # Checking what renaming relies on

Conditions under which results on renaming hold, in a form that can be evaluated for a given function.
-/

namespace ContractAudit

open Ir List Analyze

/-! ## Graphs that are numbered forward -/

namespace Flow

/-- Edges are kept at both ends, marks follow edges from the entry on, and each other marked node comes after a marked father. -/
abbrev Forward (g : Flow) (e : NodeId) : Prop :=
  (g.order.Nodup ∧ ∀ n ∈ g.order, n < g.nodes.size) ∧
  (e ∈ g.order ∧ g.fathers e = [] ∧ (g.node e).reachable = true) ∧
  (∀ n ∈ g.order, ∀ m ∈ g.sons n, m ∈ g.order ∧ n ∈ g.fathers m ∧
    ((g.node n).reachable = true → (g.node m).reachable = true)) ∧
  (∀ n ∈ g.order, ∀ m ∈ g.fathers n, m ∈ g.order ∧ n ∈ g.sons m) ∧
  ∀ n ∈ g.order, (g.node n).reachable = true → n ≠ e → ∃ m ∈ g.fathers n, m < n ∧ (g.node m).reachable = true

/-- Joins up to a node come after the nodes before them, which are marked. -/
abbrev JoinsLate (g : Flow) (last : NodeId) : Prop :=
  ∀ n ∈ g.order, n ≤ last → g.kind n = .endIf ∨ g.kind n = .endLoop →
    ∀ p ∈ g.fathers n, p < n ∧ (g.node p).reachable = true

variable {g : Flow}

section

variable (h : g.Forward e)

include h

theorem Forward.avoids (hn : n ∈ g.order) (hmark : (g.node n).reachable = true) (hlt : n < d) : g.Avoids e d n := by
  obtain ⟨-, -, -, hfathers, hbefore⟩ := h
  induction n using Nat.strongRecOn with
  | _ n ih =>
    by_cases hne : n = e
    · rw [hne] at hlt ⊢
      exact .entry (Nat.ne_of_lt hlt)
    · obtain ⟨m, hm, hmn, hmark'⟩ := hbefore n hn hmark hne
      obtain ⟨hmem, hson⟩ := hfathers n hn m hm
      exact .step (ih m hmn hmem hmark' (Nat.lt_trans hmn hlt)) hson (Nat.ne_of_lt hlt)

theorem Forward.reaches (hn : n ∈ g.order) (hmark : (g.node n).reachable = true) : g.Reaches e n :=
  (h.avoids hn hmark (Nat.lt_succ_self n)).reaches

theorem Forward.marked (hn : g.Reaches e n) : n ∈ g.order ∧ (g.node n).reachable = true := by
  obtain ⟨-, ⟨hmem, -, hmark⟩, hsons, -⟩ := h
  induction hn with
  | entry => exact ⟨hmem, hmark⟩
  | step _ hs ih =>
    obtain ⟨hin, -, hmarked⟩ := hsons _ ih.1 _ hs
    exact ⟨hin, hmarked ih.2⟩

theorem Forward.regular : g.Regular e := by
  obtain ⟨⟨hnodup, htable⟩, ⟨hmem, hfirst, -⟩, hsons, hfathers, -⟩ := id h
  exact {
    nodup := hnodup
    inTable := htable
    entry_mem := hmem
    entry_first := hfirst
    sons_mem := fun m hm n hn => (hsons m hm n hn).1
    fathers_mem := fun n hn m hm => (hfathers n hn m hm).1
    mirrored := fun m hm n hn => ⟨fun hs => (hsons m hm n hs).2.1, fun hf => (hfathers n hn m hf).2⟩
    marked := fun n hn => ⟨h.reaches hn, fun hr => (h.marked hr).2⟩ }

theorem Forward.le_of_dominates (hd : g.Dominates e d n) : d ≤ n := by
  by_contra hlt
  obtain ⟨hn, hmark⟩ := h.marked hd.1
  exact hd.2 (h.avoids hn hmark (Nat.lt_of_not_le hlt))

theorem Forward.served (hlate : g.JoinsLate last) (hn : g.Reaches e n) (hle : n ≤ last) : g.Served e n := by
  induction n using Nat.strongRecOn with
  | _ n ih =>
    refine .mk hn fun j hdom hjoin p hp => ?_
    have hjn := h.le_of_dominates hdom
    obtain ⟨hj, -⟩ := h.marked hdom.reaches
    obtain ⟨hpj, hmark⟩ := hlate j hj (Nat.le_trans hjn hle) hjoin p hp
    have hpn := Nat.lt_of_lt_of_le hpj hjn
    exact ih p hpn (h.reaches (h.regular.fathers_mem j hj p hp) hmark) (Nat.le_trans (Nat.le_of_lt hpn) hle)

theorem Forward.all_served (hlate : g.JoinsLate g.nodes.size) (n : NodeId) (hn : g.Reaches e n) : g.Served e n :=
  h.served hlate hn (Nat.le_of_lt (h.1.2 n (h.marked hn).1))

end

end Flow

/-! ## Functions that are ready -/

namespace Ir

def Value.isPlain (v : Value) : Bool :=
  v.flat.all fun
    | .version _ | .versionReference _ => false
    | _ => true

theorem Value.plain_of_isPlain {v : Value} (h : v.isPlain = true) : v.Plain := by
  intro w hw
  have hw := all_eq_true.1 h w hw
  constructor
  · rintro i rfl
    cases hw
  · rintro i rfl
    cases hw

def Op.isPlain (op : Op) : Bool := !op.isPhi && op.values.all Value.isPlain

theorem Op.plain_of_isPlain {op : Op} (h : op.isPlain = true) : op.Plain := by
  rw [isPlain, Bool.and_eq_true] at h
  exact ⟨by simpa using h.1, fun v hv => Value.plain_of_isPlain (all_eq_true.1 h.2 v hv)⟩

end Ir

namespace Analysis

variable {a : Analysis}

theorem nodeCode_mem : a.nodeCode f n ∈ (a.functionCode f).nodes ∨ a.nodeCode f n = {} :=
  getD_mem ..

theorem nodeCode_of_all (hp : p {} = true) (h : (a.functionCode f).nodes.all p = true)
    (n : NodeId) : p (a.nodeCode f n) = true := by
  rcases nodeCode_mem with hn | hn
  · exact Array.all_eq_true'.1 h _ hn
  · exact hn ▸ hp

def beginning (a : Analysis) (f : FunctionId) : List VariableId :=
  (((a.program.function f).parameters ++ (a.program.function f).returns).filter fun v =>
      (a.program.var v).name != "") ++
    (a.nodeIds f).filterMap fun n => ((a.flow f).node n).declared

theorem mem_beginning : v ∈ a.beginning f ↔ a.Begins f v := by
  rw [beginning, mem_append, mem_filter, mem_filterMap, bne_iff_ne]
  rfl

/-- The function is ready for renaming. -/
def isConvertible (a : Analysis) (f : FunctionId) (e : NodeId) (states : Table String Nat) : Bool :=
  (a.program.function f).implemented == some true && (a.flow f).entry == some e && decide ((a.flow f).Forward e) &&
  ((a.functionCode f).nodes.all fun c => c.instrs.all (fun i => i.op.isPlain) && c.ssa.isEmpty) &&
  (a.store.references.all fun r => r.pointsTo.all Value.isPlain) &&
  (a.beginning f).all a.program.isLocalVariable &&
  states.all (fun e => decide (e.2 < a.store.versions.size) && a.key e.2 == .state e.1) && decide (Table.keys states).Nodup

theorem convertible_of_isConvertible (h : a.isConvertible f e states = true) : Convertible a f e states := by
  simp only [isConvertible, Bool.and_eq_true, beq_iff_eq, decide_eq_true_eq] at h
  obtain ⟨⟨⟨⟨⟨⟨⟨himplemented, hentry⟩, hforward⟩, hcode⟩, hparts⟩, hlocals⟩, hstates⟩, hkeys⟩ := h
  have hnode := fun n => Bool.and_eq_true_iff.1 (nodeCode_of_all (a := a) (f := f) rfl hcode n)
  exact {
    implemented := himplemented
    entry := hentry
    regular := hforward.regular
    prepared := {
      plain := fun n i hi => Op.plain_of_isPlain (all_eq_true.1 (hnode n).1 i hi)
      parts := fun r w hw => by
        rcases getD_mem a.store.references r default with hr | hr
        · exact Value.plain_of_isPlain ((Option.all_eq_true ..).1 (Array.all_eq_true'.1 hparts _ hr) w hw)
        · rw [Store.reference, hr] at hw
          cases hw }
    fresh := fun n => isEmpty_iff.1 (hnode n).2
    locals := fun v hv => all_eq_true.1 hlocals v (mem_beginning.2 hv)
    tabled := fun x i hi => by
      have hentry := all_eq_true.1 hstates (x, i) hi
      rwa [Bool.and_eq_true, decide_eq_true_eq, beq_iff_eq] at hentry
    keys := hkeys }

/-! ## Names -/

/-- The variables of a value, lists taken apart. -/
def variablesIn (v : Value) : List VariableId :=
  v.flat.filterMap fun
    | .target (.var v) => some v
    | _ => none

/-- The variables that matter to renaming, and perhaps some more that parts belong to. -/
def concerned (a : Analysis) (f : FunctionId) : List VariableId :=
  a.beginning f ++ (a.functionCode f).nodes.toList.flatMap (fun c =>
      c.written.flatMap variablesIn ++ c.instrs.flatMap fun i => i.op.values.flatMap variablesIn) ++
    a.store.references.toList.flatMap fun r => r.pointsTo.toList.flatMap variablesIn

theorem mem_variablesIn (h : .var v ∈ x.flat) : v ∈ variablesIn x :=
  mem_filterMap.2 ⟨_, h, rfl⟩

theorem variables_of_leads (h : Leads a.store.references x v) :
    v ∈ variablesIn x ∨ v ∈ a.store.references.toList.flatMap fun r => r.pointsTo.toList.flatMap variablesIn := by
  induction h with
  | var v => exact .inl (mem_variablesIn (by simp [Value.flat]))
  | @part i w v hi _ ih =>
    refine .inr (ih.elim (fun hv => ?_) id)
    rcases getD_mem a.store.references i default with hr | hr
    · exact mem_flatMap.2 ⟨_, Array.mem_toList_iff.2 hr, mem_flatMap.2 ⟨w, by simpa using hi, hv⟩⟩
    · rw [hr] at hi
      cases hi
  | @list items w v hw _ ih =>
    refine ih.imp_left fun hv => ?_
    obtain ⟨y, hy, hyv⟩ := mem_filterMap.1 hv
    exact mem_filterMap.2 ⟨y, by rw [Value.flat]; exact Value.mem_flatAll.2 ⟨w, hw, hy⟩, hyv⟩

theorem mem_concerned (h : a.Concerns f v) : v ∈ a.concerned f := by
  -- What the code of a node has is in the code of some node of the table.
  have hcode : ∀ n, v ∈ (a.nodeCode f n).written.flatMap variablesIn ++
      ((a.nodeCode f n).instrs.flatMap fun i => i.op.values.flatMap variablesIn) → v ∈ a.concerned f := by
    intro n hv
    rcases nodeCode_mem with hmem | hnone
    · exact mem_append_left _ (mem_append_right _ (mem_flatMap.2 ⟨_, Array.mem_toList_iff.2 hmem, hv⟩))
    · rw [hnone] at hv
      cases hv
  rcases h with hb | ⟨⟨n, hw⟩, -⟩ | ⟨n, i, hi, w, hw, hleads⟩
  · exact mem_append_left _ (mem_append_left _ (mem_beginning.2 hb))
  · refine hcode n (mem_append_left _ (mem_flatMap.2 ⟨_, hw, mem_variablesIn ?_⟩))
    simp [Value.flat]
  · rcases variables_of_leads hleads with hv | hv
    · exact hcode n (mem_append_right _ (mem_flatMap.2 ⟨i, hi, mem_flatMap.2 ⟨w, hw, hv⟩⟩))
    · exact mem_append_right _ hv

/-- Names tell the variables that matter apart, and the table has the state variables. -/
abbrev NamesDiffer (a : Analysis) (f : FunctionId) (states : Table String Nat) : Prop :=
  ∀ v ∈ a.concerned f,
    (a.program.isLocalVariable v = true → ∀ w ∈ a.concerned f, a.program.isLocalVariable w = true →
      ((a.program.var v).name = (a.program.var w).name → v = w) ∧
      (a.program.var v).name ≠ "STORAGE_" ++ (a.program.var w).name) ∧
    (a.program.isStateVariable v = true → (Table.find? (a.program.variableCanonicalName v) states).any
      (fun i => (a.store.version i).variable_ == v) = true)

theorem NamesDiffer.namesApart (h : a.NamesDiffer f states) : NamesApart a f states where
  locals v w hv hw hl hl' := ((h v (mem_concerned hv)).1 hl w (mem_concerned hw) hl').1
  standIns v w hv hw hl hl' := ((h v (mem_concerned hv)).1 hl w (mem_concerned hw) hl').2
  states v hv hs := by
    have hfound := (h v (mem_concerned hv)).2 hs
    obtain ⟨i, hi, hv⟩ := (Option.any_eq_true _ _).1 hfound
    exact ⟨i, hi, beq_iff_eq.1 hv⟩

end Analysis

/-! ## Functions by their lines -/

/-- A node and its code. -/
structure Line where
  node : Node
  code : NodeCode

def Line.of (kind : NodeKind) (sons fathers : List NodeId) (ops : List Op := []) (read written : List VariableId := [])
    (declared : Option VariableId := none) : Line where
  node := { kind, sons, fathers, declared, reachable := kind == .entryPoint || !fathers.isEmpty }
  code := { instrs := ops.map ({ op := · }), read := read.map .var, written := written.map .var }

def Flow.ofLines (lines : List Line) : Flow :=
  { nodes := (lines.map (·.node)).toArray, order := range lines.length, entry := some 0 }

/-- A function of a contract with one state variable at most. -/
def Analysis.ofLines (locals : List String) (parameters returns : List VariableId) (state : Option String)
    (lines : List Line) : Analysis where
  program := {
    variableTable := toArray (locals.map ({ kind := .inFunction (some 0) none, name := · }) ++
      state.toList.map ({ kind := .state 0, name := · }))
    contractTable := #[{ name := "C", id := 0, scope := 0 }]
    functionTable := #[{ place := .inContract 0 0, implemented := some true, parameters, returns, flow := .ofLines lines }] }
  code := #[{ nodes := (lines.map (·.code)).toArray }]
  store := { versions := (state.toList.map fun _ => { variable_ := locals.length }).toArray }

def Ir.Value.number (n : Nat) : Value :=
  .constant { written := toString n, unit := none, type := .uint 256, value := .int n }

/-! ## Running the renaming -/

/-- The renaming of a function gives a result of a kind. -/
def Rename.renamesTo (a : Analysis) (f : FunctionId) (states : Table String Nat) (p : Analysis → Bool) : Bool :=
  match (do dominate f; versions f states : Analyze _) a with
  | .ok _ a' => p a'
  | .error _ _ => false

theorem Rename.exists_of_renamesTo (a : Analysis) (f : FunctionId) (states : Table String Nat) (p : Analysis → Bool)
    (h : renamesTo a f states p = true) : ∃ t a',
      (do dominate f; versions f states : Analyze _) a = .ok t a' ∧ p a' = true := by
  unfold renamesTo at h
  split at h
  · rename_i t a' hrun
    exact ⟨t, a', hrun, h⟩
  · cases h

end ContractAudit
