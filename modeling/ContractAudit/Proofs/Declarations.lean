import ContractAudit.Proofs.Reading

/-! # Variables that statements declare

Variables are declared one after another. What a variable is initialised by stands in its draft, and reading a declaration
changes no other draft.
-/

namespace ContractAudit.Reader

open Load List

namespace State

def varDraft (s : State) (v : VariableId) : VariableDraft := s.variableDrafts.getD v default

/-- No draft of a variable changes but that of `v`. -/
structure Alters (v : VariableId) (s t : State) : Prop where
  drafts : t.variableDrafts.size = s.variableDrafts.size
  table : t.program.variableTable.size = s.program.variableTable.size
  others : ∀ w ≠ v, t.varDraft w = s.varDraft w

instance : IsPreorder State (Alters v) where
  refl _ := ⟨rfl, rfl, fun _ _ => rfl⟩
  trans _ _ _ hst htu := ⟨htu.drafts.trans hst.drafts, htu.table.trans hst.table,
    fun w hw => (htu.others w hw).trans (hst.others w hw)⟩

end State

open State

theorem varDraft_modify {s : State} (g : VariableDraft → VariableDraft) (hv : v < s.variableDrafts.size) :
    ({ s with variableDrafts := s.variableDrafts.modify v g } : State).varDraft w =
      if v = w then g (s.varDraft w) else s.varDraft w := by
  rw [varDraft, getD_modify]
  grind [varDraft]

/-! ## Steps that alter one draft -/

instance : Respects (Alters v) (modifyVariable w u) := .modify fun _ => ⟨rfl, Array.size_modify .., fun _ _ => rfl⟩
instance : Respects (Alters v) (modifyFunction f u) := .modify fun _ => ⟨rfl, rfl, fun _ _ => rfl⟩
instance : Respects (Alters v) (modifyFunctionDraft f u) := .modify fun _ => ⟨rfl, rfl, fun _ _ => rfl⟩
instance : Respects (Alters v) (readFeatures w tree) := .of_def (readFeatures.eq_def ..)
instance : Respects (Alters v) (addLocal f w) := .of_def (addLocal.eq_def ..)

theorem ensures_drafts (hx : ∀ w, Respects (Alters w) x) (s : State) :
    Ensures (Alters v) x s fun _ t => ∀ w, t.varDraft w = s.varDraft w := by
  have hv := (hx v).ensures s
  have hnext := fun w : VariableId => (hx (w + 1)).ensures s
  unfold Ensures at hv hnext ⊢
  cases hrun : x s with
  | error e t => simpa [hrun] using hv
  | ok a t =>
    simp only [hrun, and_true] at hv hnext
    exact ⟨hv, fun w => (hnext w).others w (Nat.ne_of_lt (Nat.lt_succ_self w))⟩

section

variable {s : State} (hv : v < s.variableDrafts.size)

include hv

theorem modifyVariableDraft_ensures :
    Ensures (Alters v) (modifyVariableDraft v g) s fun _ t => t.varDraft v = g (s.varDraft v) := by
  refine .modify ⟨Array.size_modify .., rfl, fun w hw => ?_⟩ ?_
  · rw [varDraft_modify _ hv, if_neg (Ne.symm hw)]
  · rw [varDraft_modify _ hv, if_pos rfl]

theorem setReference_ensures (hnone : (s.varDraft v).reference = none) :
    Ensures (Alters v) (setReference v d) s fun _ t =>
      t.varDraft v = { s.varDraft v with reference := d.field? "id" } := by
  unfold setReference
  split
  next id hid => exact hid ▸ modifyVariableDraft_ensures hv
  next hid =>
    refine .pure ?_
    rw [Option.eq_none_iff_forall_ne_some.2 hid, ← hnone]

theorem setInit_ensures :
    Ensures (Alters v) (setInit v c) s fun _ t => t.varDraft v = { s.varDraft v with init := some c } := by
  refine (ensures_drafts (fun _ => inferInstance) s).bind fun _ t ht hdrafts => ?_
  rw [← hdrafts v]
  exact modifyVariableDraft_ensures (ht.drafts ▸ hv)

/-- A variable is initialised by what its declaration says. -/
theorem readDeclaration_ensures (hnone : (s.varDraft v).reference = none)
    (hc : c.truthy = true) : Ensures (Alters v) (readDeclaration v d c true) s fun _ t =>
      (t.varDraft v).init = some c ∧ (t.varDraft v).reference = d.field? "id" := by
  unfold readDeclaration
  simp only [pure_bind, hc]
  refine .look_bind fun typeName => .look_bind fun name => ?_
  refine (ensures_drafts (fun _ => inferInstance) s).bind fun _ t₁ h₁ hd₁ => ?_
  have hv₁ := h₁.drafts ▸ hv
  refine (setReference_ensures hv₁ (hd₁ v ▸ hnone)).bind fun _ t₂ h₂ hd₂ => ?_
  refine (ensures_drafts (fun _ => inferInstance) t₂).bind fun _ t₃ h₃ hd₃ => .look_bind fun type => ?_
  have hv₃ := h₃.drafts ▸ h₂.drafts ▸ hv₁
  refine (modifyVariableDraft_ensures hv₃).bind fun _ t₄ h₄ hd₄ => ?_
  refine (setInit_ensures (h₄.drafts ▸ hv₃)).imp fun _ t₅ _ hd₅ => ?_
  simp [hd₅, hd₄, hd₃ v, hd₂]

end

/-! ## Statements -/

theorem attempt_runs (hrun : attempt x s = .ok (.ok a) t) : x s = .ok a t := by
  change EStateM.tryCatch (EStateM.map Except.ok x) _ s = _ at hrun
  unfold EStateM.tryCatch EStateM.map at hrun
  cases hx : x s <;> rw [hx] at hrun <;> cases hrun
  rfl

/-- One variable more, with the declaration `d` and the value `c`. -/
structure Declared (d c : Json) (s t : State) : Prop where
  drafts : t.variableDrafts.size = s.variableDrafts.size + 1
  table : t.program.variableTable.size = s.program.variableTable.size + 1
  known : ∀ w < s.variableDrafts.size, t.varDraft w = s.varDraft w
  init : (t.varDraft s.variableDrafts.size).init = some c
  reference : (t.varDraft s.variableDrafts.size).reference = d.field? "id"

theorem declareVariable_eq (htree : definitionTree d (some c) = .ok tree) :
    declareVariable v tree = do readDeclaration v d c true; return true := by
  obtain ⟨position, -, heq⟩ := bind_eq_ok.1 htree
  cases heq
  rfl

section

variable {s : State} (hs : s.variableDrafts.size = s.program.variableTable.size) (hc : c.truthy = true)
  (htree : definitionTree d (some c) = .ok tree)

include hs hc htree

theorem addDeclared_runs (hrun : addDeclared f tree k s = .ok r t) :
    r = some s.variableDrafts.size ∧ Declared d c s t := by
  obtain ⟨source, hrun⟩ := look_runs hrun
  obtain ⟨v, u, hnew, hrun⟩ := bind_runs hrun
  cases hnew
  rw [declareVariable_eq htree, ← hs] at hrun
  obtain ⟨b, u₁, hdeclare, hrun⟩ := bind_runs hrun
  obtain ⟨_, u₂, hread, hpure⟩ := bind_runs hdeclare
  cases hpure
  obtain ⟨_, u₃, hlocal, hpure⟩ := bind_runs hrun
  cases hpure
  obtain ⟨hread, hinit, href⟩ := (readDeclaration_ensures (by simp) (by simp [varDraft]) hc).of_ok hread
  obtain ⟨hlocal, hsame⟩ := (ensures_drafts (v := 0) (fun _ => inferInstance) _).of_ok hlocal
  refine ⟨rfl, ?_, ?_, fun w hw => ?_, ?_, ?_⟩
  · rw [hlocal.drafts, hread.drafts, Array.size_push]
  · rw [hlocal.table, hread.table, Array.size_push]
  · rw [hsame, hread.others w (Nat.ne_of_lt hw)]
    simp [varDraft, Array.getElem?_push, Nat.ne_of_lt hw]
  · rw [hsame, hinit]
  · rw [hsame, href]

theorem readDeclarations_runs (hrun : readDeclarations f [(tree, k)] s = .ok (xs, false) t) :
    (∃ site, xs = [.declare s.variableDrafts.size site]) ∧ Declared d c s t := by
  obtain ⟨r, u, htry, hrun⟩ := bind_runs hrun
  rcases r with e | ⟨r, site⟩
  · cases hrun
  have hboth := attempt_runs htry
  obtain ⟨r', u', hadd, hboth⟩ := bind_runs hboth
  obtain ⟨rfl, hdeclared⟩ := addDeclared_runs hs hc htree hadd
  obtain ⟨site', hpure⟩ := look_runs hboth
  cases hpure
  cases hrun
  exact ⟨⟨_, rfl⟩, hdeclared⟩

end

/-- Definitions that are read without a fault declare their variables in order, each with its own value. -/
theorem readDefinitions_runs {pairs : List (Json × Json)} : ∀ {s : State} {xs : List Stmt},
    s.variableDrafts.size = s.program.variableTable.size → (∀ p ∈ pairs, p.2.truthy = true) →
    readDefinitions f (pairs.map fun p => (definitionTree p.1 (some p.2), none)) s = .ok (xs, false) t →
    xs.length = pairs.length ∧ (∀ w < s.variableDrafts.size, t.varDraft w = s.varDraft w) ∧
    ∀ j d c, pairs[j]? = some (d, c) → (∃ site, xs[j]? = some (.declare (s.variableDrafts.size + j) site)) ∧
      (t.varDraft (s.variableDrafts.size + j)).init = some c ∧
      (t.varDraft (s.variableDrafts.size + j)).reference = d.field? "id" := by
  induction pairs with
  | nil =>
    intro s xs _ _ hrun
    cases hrun
    exact ⟨rfl, fun _ _ => rfl, by simp⟩
  | cons p pairs ih =>
    intro s xs hs hall hrun
    rw [map_cons] at hrun
    cases htree : definitionTree p.1 (some p.2) with
    | error e =>
      rw [htree] at hrun
      cases hrun
    | ok tree =>
      rw [htree] at hrun
      obtain ⟨⟨here, halted⟩, u, hhere, hrun⟩ := bind_runs hrun
      cases halted with
      | true => cases hrun
      | false =>
        obtain ⟨⟨more, halted⟩, u', hmore, hpure⟩ := bind_runs hrun
        cases hpure
        obtain ⟨⟨site, rfl⟩, hdeclared⟩ := readDeclarations_runs hs (hall p (by simp)) htree hhere
        have hu : u.variableDrafts.size = u.program.variableTable.size := by rw [hdeclared.drafts, hdeclared.table, hs]
        obtain ⟨hlength, hknown, hrest⟩ := ih hu (fun q hq => hall q (mem_cons_of_mem p hq)) hmore
        rw [hdeclared.drafts] at hknown hrest
        refine ⟨by simp [hlength], fun w hw => ?_, fun j d c hj => ?_⟩
        · rw [hknown w (Nat.lt_succ_of_lt hw), hdeclared.known w hw]
        cases j with
        | zero =>
          cases hj
          rw [Nat.add_zero, hknown _ (Nat.lt_succ_self _)]
          exact ⟨⟨site, rfl⟩, hdeclared.init, hdeclared.reference⟩
        | succ j =>
          have hj := hrest j d c hj
          rwa [Nat.add_assoc, Nat.add_comm 1 j] at hj

/-- The number of variables that are declared before a position. -/
def declaredBefore (declarations : List Json) (k : Nat) : Nat := (declarations.take k).countP (!·.isNull)

theorem getElem?_filter_of_take (p : α → Bool) (l : List α) (k : Nat) (hk : l[k]? = some a) (ha : p a = true) :
    (l.filter p)[(l.take k).countP p]? = some a := by
  induction l generalizing k with
  | nil => simp at hk
  | cons b l ih =>
    cases k with
    | zero =>
      cases hk
      simp [ha]
    | succ k =>
      have hrest := ih k hk
      by_cases hb : p b = true <;> simpa [hb] using hrest

theorem liftM_ok (a : α) : (liftM (Except.ok a : Result α) : Load α) = pure a := rfl

theorem readTupleDeclaration_eq (hdeclarations : Ast.need tree "declarations" = .ok (.arr declarations))
    (hinit : Ast.need tree "initialValue" = .ok init) (htuple : Ast.need init "nodeType" = .ok (.str "TupleExpression"))
    (hcomponents : Ast.need init "components" = .ok (.arr components)) (hlength : components.length = declarations.length) :
    readTupleDeclaration f tree = do
      let (xs, halted) ← readDefinitions f (((declarations.filter (!·.isNull)).zip components).map
        fun p => (definitionTree p.1 (some p.2), none))
      return (.block false xs, halted) := by
  unfold readTupleDeclaration
  simp [hdeclarations, hinit, htuple, hcomponents, liftM_ok, Ast.items, Ast.isText, hlength]

theorem addDeclared_several (hs : s.variableDrafts.size = s.program.variableTable.size)
    (htype : Ast.need tree "nodeType" = .ok (.str "VariableDeclarationStatement"))
    (hdeclarations : Ast.need tree "declarations" = .ok (.arr declarations)) (hmany : 1 < declarations.length)
    (hrun : addDeclared f tree none s = .ok r t) :
    r = none ∧ t.variableDrafts.size = t.program.variableTable.size ∧ t.compact = s.compact := by
  have hhas : Ast.has tree "nodeType" = .ok true := by
    unfold Ast.need at htype
    split at htype
    next fields =>
      cases hfield : Json.lookup "nodeType" fields with
      | some _ => simp [Ast.has, hfield]
      | none => simp [hfield, expect] at htype
    all_goals cases htype
  have hseveral : ∀ v, declareVariable v tree = pure false := fun v => by
    simp [declareVariable, hhas, htype, hdeclarations, liftM_ok, Ast.size, hmany, isDeclarationStatement, Ast.isText]
  obtain ⟨source, hrun⟩ := look_runs hrun
  obtain ⟨v, u, hnew, hrun⟩ := bind_runs hrun
  cases hnew
  rw [hseveral] at hrun
  cases hrun
  exact ⟨rfl, by simp [hs], rfl⟩

/-- Of a declaration of several variables by a tuple of as many parts, the variable at a position is initialised by the part
whose place is the number of variables that are declared before it, so by its own part if none is left out before. -/
theorem tupleDeclaration_inits (hs : s.variableDrafts.size = s.program.variableTable.size) (hcompact : s.compact = true)
    (htype : Ast.need tree "nodeType" = .ok (.str "VariableDeclarationStatement"))
    (hdeclarations : Ast.need tree "declarations" = .ok (.arr declarations)) (hmany : 1 < declarations.length)
    (hinit : Ast.need tree "initialValue" = .ok init) (htuple : Ast.need init "nodeType" = .ok (.str "TupleExpression"))
    (hcomponents : Ast.need init "components" = .ok (.arr components)) (hlength : components.length = declarations.length)
    (hparts : ∀ c ∈ components, c.truthy = true) (hrun : readDefinition f tree s = .ok (x, false) t) {k : Nat} {d : Json}
    (hk : declarations[k]? = some d) (hd : d.isNull = false) :
    ∃ xs v site, x = .block false xs ∧ xs[declaredBefore declarations k]? = some (.declare v site) ∧
      (t.varDraft v).reference = d.field? "id" ∧ (t.varDraft v).init = components[declaredBefore declarations k]? ∧
      ((∀ e ∈ declarations.take k, e.isNull = false) → (t.varDraft v).init = components[k]?) := by
  unfold readDefinition at hrun
  obtain ⟨r, u, hadd, hrun⟩ := bind_runs hrun
  obtain ⟨rfl, hu, hcompact'⟩ := addDeclared_several hs htype hdeclarations hmany hadd
  obtain ⟨b, u', hlook, hrun⟩ := bind_runs hrun
  cases hlook
  rw [hcompact', hcompact, if_pos rfl,
    readTupleDeclaration_eq hdeclarations hinit htuple hcomponents hlength] at hrun
  obtain ⟨⟨xs, halted⟩, u', hdefs, hpure⟩ := bind_runs hrun
  cases hpure
  obtain ⟨-, -, hxs⟩ := readDefinitions_runs hu (fun p hp => hparts p.2 (of_mem_zip hp).2) hdefs
  have hnamed := getElem?_filter_of_take (!·.isNull) declarations k hk (by simp [hd])
  have hlt : declaredBefore declarations k < components.length := by
    have hlt := (List.getElem?_eq_some_iff.1 hnamed).1
    have hle := List.length_filter_le (!·.isNull) declarations
    unfold declaredBefore
    omega
  have hpair : ((declarations.filter (!·.isNull)).zip components)[declaredBefore declarations k]? =
      some (d, components[declaredBefore declarations k]) :=
    getElem?_zip_eq_some.2 ⟨hnamed, getElem?_eq_getElem hlt⟩
  obtain ⟨⟨site, hx⟩, hi, hr⟩ := hxs _ _ _ hpair
  have hi := hi.trans (getElem?_eq_getElem hlt).symm
  refine ⟨xs, _, site, rfl, hx, hr, hi, fun hfull => ?_⟩
  have hcount : declaredBefore declarations k = k := by
    unfold declaredBefore
    rw [List.countP_eq_length.2 (by simpa using hfull), List.length_take]
    exact Nat.min_eq_left (Nat.le_of_lt (List.getElem?_eq_some_iff.1 hk).1)
  rw [hi, hcount]

def numberTree (n : Int) : Json := .obj [("nodeType", .str "Literal"), ("value", .int n)]

/-- The tree of `(uint a, uint b) = (1, 2)`, where a declaration may be left out. -/
def pairTree (declarations : List Json) : Json :=
  .obj [("nodeType", .str "VariableDeclarationStatement"), ("src", .str ""), ("declarations", .arr declarations),
    ("initialValue", .obj [("nodeType", .str "TupleExpression"), ("components", .arr [numberTree 1, numberTree 2])])]

def uintTree (name : String) (id : Int) : Json :=
  .obj [("nodeType", .str "VariableDeclaration"), ("src", .str ""), ("name", .str name), ("id", .int id), ("typeName", .null),
    ("storageLocation", .str "default"), ("typeDescriptions", .obj [("typeString", .str "uint256")])]

def compactStart : State := { compact := true }

theorem bothDeclared_inits : ∃ x t xs v site,
    readDefinition 0 (pairTree [uintTree "a" 7, uintTree "b" 8]) compactStart = .ok (x, false) t ∧ x = .block false xs ∧
      xs[1]? = some (.declare v site) ∧ (t.varDraft v).init = some (numberTree 2) := by
  have hparts : ∀ c ∈ [numberTree 1, numberTree 2], c.truthy = true := by simp [numberTree, Json.truthy]
  have hrun : ∃ x t, readDefinition 0 (pairTree [uintTree "a" 7, uintTree "b" 8]) compactStart = .ok (x, false) t := ⟨_, _, rfl⟩
  obtain ⟨x, t, hrun⟩ := hrun
  obtain ⟨xs, v, site, hx, hv, -, hi, -⟩ :=
    tupleDeclaration_inits (k := 1) rfl rfl rfl rfl (by decide) rfl rfl rfl (by rfl) hparts hrun rfl rfl
  exact ⟨x, t, xs, v, site, hrun, hx, hv, hi⟩

/-- The variable at the second position gets the first part if the first position is left out. -/
theorem firstOmitted_shifts : ∃ x t, readDefinition 0 (pairTree [.null, uintTree "b" 8]) compactStart = .ok (x, false) t ∧
    (t.varDraft 1).reference = some (.int 8) ∧ (t.varDraft 1).init = some (numberTree 1) :=
  ⟨_, _, rfl, rfl, rfl⟩

end ContractAudit.Reader
