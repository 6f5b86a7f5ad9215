import ContractAudit.Proofs.Construction
import ContractAudit.Reader.Unit

/-! # What reading leaves alone

Almost all of the reader works on declarations, types and expressions. Of the functions that are known, such a step may add
nodes to graphs of assembly code, and leaves the rest alone. This is said once for each step, and holds up to a fault if one
arises.
-/

namespace ContractAudit

open Flow

/-! ## Functions -/

/-- A node that stays when lone ends of branches are taken out. -/
def Flow.Stays (g : Flow) (n : NodeId) : Prop := n ∈ g.order ∧ g.kind n ≠ .endIf

theorem Flow.Grows.stays (hgrows : Grows g h) (hg : g.Linked) (hn : g.Stays n) : h.Stays n := by
  refine ⟨hgrows.order n hn.1, ?_⟩
  rw [hgrows.kind hg n hn.1]
  exact hn.2

namespace Function

/-- The entry, and the last nodes of the modifiers and base constructors before. -/
structure Rooted (f : Function) : Prop where
  entry : ∀ n, f.flow.entry = some n → f.flow.Stays n
  uses : ∀ u ∈ f.modifiers ++ f.baseCalls, ∃ n, u.nodes.getLast? = some n ∧ f.flow.Stays n

/-- The content of the function can be read: if it is implemented, there is an entry. -/
structure Ready (f : Function) : Prop extends Rooted f where
  started : f.implemented = some true → f.flow.entry.isSome

variable {f f' : Function}

theorem Rooted.setEntry (hf : f.Rooted) (hn : f.flow.Stays n) :
    ({ f with flow := { f.flow with entry := some n } } : Function).Ready := by
  refine ⟨⟨fun m hm => ?_, hf.uses⟩, fun _ => rfl⟩
  cases hm
  exact hn

/-- The graph grows and the function stays ready. -/
structure Evolves (f f' : Function) : Prop where
  flow : Widens f.flow f'.flow
  entry : f.flow.entry.isSome → f'.flow.entry.isSome
  ready : f.flow.Linked → f.Ready → f'.Ready

theorem Evolves.refl (f : Function) : Evolves f f := ⟨.refl _, fun h => h, fun _ h => h⟩

section

variable (hmodifiers : f'.modifiers = f.modifiers) (hcalls : f'.baseCalls = f.baseCalls)
  (himplemented : f'.implemented = f.implemented)

include hmodifiers hcalls

theorem Rooted.of_stays (hf : f.Rooted) (hstays : ∀ n, f.flow.Stays n → f'.flow.Stays n)
    (hentry : f'.flow.entry = f.flow.entry) : f'.Rooted := by
  constructor
  · intro n hn
    exact hstays n (hf.entry n (hentry ▸ hn))
  · intro u hu
    rw [hmodifiers, hcalls] at hu
    obtain ⟨n, hlast, hn⟩ := hf.uses u hu
    exact ⟨n, hlast, hstays n hn⟩

include himplemented

theorem Ready.of_stays (hf : f.Ready) (hstays : ∀ n, f.flow.Stays n → f'.flow.Stays n)
    (hentry : f'.flow.entry = f.flow.entry) : f'.Ready := by
  refine ⟨hf.toRooted.of_stays hmodifiers hcalls hstays hentry, fun hi => ?_⟩
  rw [hentry]
  exact hf.started (himplemented ▸ hi)

theorem Evolves.of_grows (hflow : Grows f.flow f'.flow) : Evolves f f' :=
  ⟨hflow.toWidens, fun h => hflow.entry ▸ h, fun hl hf =>
    hf.of_stays hmodifiers hcalls himplemented (fun _ => hflow.stays hl) hflow.entry⟩

theorem Evolves.of_flow_eq (hflow : f'.flow = f.flow) : Evolves f f' :=
  .of_grows hmodifiers hcalls himplemented (hflow ▸ .refl _)

end

end Function

namespace Reader

/-! ## States -/

namespace State

def flow (s : State) (f : FunctionId) : Flow := (s.program.function f).flow

variable (s : State) (p : Program)

def draft (f : FunctionId) : FunctionDraft := s.functionDrafts.getD f default

/-- Each function has its draft, and graphs have their edges at both ends. -/
structure Sane : Prop where
  aligned : s.program.functionTable.size = s.functionDrafts.size
  linked : ∀ f, (s.flow f).Linked

/-- The content of a function can be read, if it has any. -/
def Ready (s : State) (f : FunctionId) : Prop := (s.draft f).tree = .null ∨ (s.program.function f).Ready

/-- What a step of the reader keeps that does not work on the content of a function. -/
structure Extends (s t : State) : Prop where
  sane : t.Sane
  size : s.program.functionTable.size ≤ t.program.functionTable.size
  flow : ∀ f, Widens (s.flow f) (t.flow f)
  entry : ∀ f, (s.flow f).entry.isSome → (t.flow f).entry.isSome
  ready : ∀ f, s.Ready f → t.Ready f
  done : ∀ f, (s.draft f).contentDone = true → (t.draft f).contentDone = true
  tree : ∀ f, (s.draft f).tree ≠ .null → (t.draft f).tree = (s.draft f).tree

/-- What a step keeps that starts from a sane state. -/
def Frame (s t : State) : Prop := s.Sane → Extends s t

instance : IsPreorder State Frame where
  refl s hs :=
    ⟨hs, Nat.le_refl _, fun _ => .refl _, fun _ => id, fun _ => id, fun _ => id, fun _ _ => rfl⟩
  trans s t u hst htu hs := by
    have ht := hst hs
    have hu := htu ht.sane
    constructor
    · exact hu.sane
    · exact Nat.le_trans ht.size hu.size
    · exact fun f => (ht.flow f).trans (hu.flow f)
    · exact fun f hf => hu.entry f (ht.entry f hf)
    · exact fun f hf => hu.ready f (ht.ready f hf)
    · exact fun f hf => hu.done f (ht.done f hf)
    · intro f hf
      have htree := ht.tree f hf
      rw [hu.tree f (htree ▸ hf), htree]

/-- Steps of the reader. -/
abbrev Framed {α : Type} (x : Load α) : Prop := Respects Frame x

theorem frame_of_evolves {s t : State} (hsize : t.program.functionTable.size = s.program.functionTable.size)
    (hdrafts : t.functionDrafts.size = s.functionDrafts.size)
    (hevolves : ∀ f, (s.program.function f).Evolves (t.program.function f)) (htree : ∀ f, (t.draft f).tree = (s.draft f).tree)
    (hdone : ∀ f, (s.draft f).contentDone = true → (t.draft f).contentDone = true) : Frame s t := by
  intro hs
  constructor
  · exact ⟨hsize.trans (hs.aligned.trans hdrafts.symm), fun f => (hevolves f).flow.linked (hs.linked f)⟩
  · exact Nat.le_of_eq hsize.symm
  · exact fun f => (hevolves f).flow
  · exact fun f => (hevolves f).entry
  · intro f hf
    rw [Ready, htree]
    exact hf.imp_right ((hevolves f).ready (hs.linked f))
  · exact hdone
  · exact fun f _ => htree f

theorem frame_of_eq {s t : State} (hfunctions : t.program.functionTable = s.program.functionTable)
    (hdrafts : t.functionDrafts = s.functionDrafts) : Frame s t := by
  have hdraft : ∀ f, t.draft f = s.draft f := fun f => by rw [draft, draft, hdrafts]
  refine frame_of_evolves (congrArg _ hfunctions) (congrArg _ hdrafts) (fun f => ?_) (fun f => congrArg _ (hdraft f))
    fun f hf => hdraft f ▸ hf
  rw [Program.function, Program.function, hfunctions]
  exact .refl _

theorem function_modifyFunction (u : Function → Function) : (p.modifyFunction f u).function g =
      if f = g ∧ g < p.functionTable.size then u (p.function g) else p.function g :=
  getD_modify ..

theorem frame_modifyFunction {s : State}
    (hu : (s.program.function f).Evolves (u (s.program.function f))) :
    Frame s { s with program := s.program.modifyFunction f u } := by
  refine frame_of_evolves (Array.size_modify ..) rfl (fun g => ?_) (fun _ => rfl) fun _ => id
  rw [function_modifyFunction]
  split
  · next hfg => exact hfg.1 ▸ hu
  · exact .refl _

theorem draft_modify (u : FunctionDraft → FunctionDraft) :
    draft { s with functionDrafts := s.functionDrafts.modify f u } g =
      if f = g ∧ g < s.functionDrafts.size then u (s.draft g) else s.draft g :=
  getD_modify ..

theorem frame_modifyDraft {s : State}
    (htree : ∀ d, (u d).tree = d.tree) (hdone : ∀ d, d.contentDone = true → (u d).contentDone = true) :
    Frame s { s with functionDrafts := s.functionDrafts.modify f u } := by
  refine frame_of_evolves rfl (Array.size_modify ..) (fun _ => .refl _) (fun g => ?_) fun g hg => ?_ <;> rw [draft_modify] <;> split
  · exact htree _
  · rfl
  · exact hdone _ hg
  · exact hg

theorem function_push {fn : Function} :
    Program.function { p with functionTable := p.functionTable.push fn } g =
      if g = p.functionTable.size then fn else p.function g :=
  getD_push ..

theorem draft_push {d : FunctionDraft} :
    draft { s with program := p, functionDrafts := s.functionDrafts.push d } g =
      if g = s.functionDrafts.size then d else s.draft g :=
  getD_push ..

theorem frame_push {s : State} (hflow : fn.flow = {}) (hready : d.tree = .null ∨ fn.Ready) :
    Frame s { s with
      program := { s.program with functionTable := s.program.functionTable.push fn }
      functionDrafts := s.functionDrafts.push d } := by
  intro hs
  -- the place of a new function was empty before
  have hnone : (s.program.function s.program.functionTable.size).flow = {} := by
    simp [Program.function]
    rfl
  have hflows : ∀ f, Grows (s.flow f) (Program.function
      { s.program with functionTable := s.program.functionTable.push fn } f).flow := by
    intro f
    rw [function_push]
    split
    · next heq =>
      rw [flow, heq, hnone, hflow]
      exact .refl _
    · exact .refl _
  constructor
  · constructor
    · simp [hs.aligned]
    · exact fun f => (hflows f).linked (hs.linked f)
  · simp
  · exact fun f => (hflows f).toWidens
  · exact fun f hf => (hflows f).entry ▸ hf
  · intro f hf
    rw [Ready, draft_push, function_push]
    by_cases heq : f = s.functionDrafts.size
    · rw [if_pos heq, if_pos (heq.trans hs.aligned.symm)]
      exact hready
    · rw [if_neg heq, if_neg fun h => heq (h.trans hs.aligned)]
      exact hf
  · intro f hf
    rw [draft_push]
    split
    · next heq =>
      rw [draft, heq] at hf
      simp at hf
      cases hf
    · exact hf
  · intro f hf
    rw [draft_push]
    split
    · next heq =>
      rw [draft, heq] at hf
      simp at hf
      exact absurd rfl hf
    · rfl

end State

/-! ## Steps of the reader -/

section

open Load State

/-- A relation that steps outside of contents keep to. -/
class Coarse (R : State → State → Prop) : Prop where
  of_frame : ∀ {s t}, Frame s t → R s t

instance : Coarse Frame := ⟨id⟩

section

variable {α : Type} [Coarse R]

theorem ensures_of_frame (hx : Ensures Frame x s Q) :
    Ensures R x s fun a t => Frame s t ∧ Q a t :=
  hx.mono (fun _ => Coarse.of_frame) fun _ _ ht ha => ⟨ht, ha⟩

theorem respects_of_frame (hx : Framed x) : Respects R x :=
  ⟨fun s => (ensures_of_frame (hx.ensures s)).imp fun _ _ _ _ => trivial⟩

end

theorem respects_modifyProgram (hg : ∀ p, (g p).functionTable = p.functionTable) :
    Framed (modifyProgram g) :=
  .modify fun _ => frame_of_eq (hg _) rfl

theorem respects_modifyFunction (hu : ∀ fn : Function, fn.Evolves (u fn)) :
    Framed (modifyFunction f u) :=
  .modify fun _ => frame_modifyFunction (hu _)

end

end Reader

open Reader in
/-- A step keeps to a relation if its parts do. The parts are found by going through the step. -/
theorem Respects.of_def [IsPreorder State R] (heq : x = y) (hy : Respects R y := by
    repeat' first
      | with_reducible infer_instance
      -- what follows a branch has a name, and is gone through once for all places where it is used
      | (fail_if_no_progress extract_lets -underBinder +onlyGivenNames p
         first
           | ((first
                | refine Respects.of_named (fun R => ∀ a, Respects R (p a)) (fun _ => ?_) fun _ => ?_
                | refine Respects.of_named (Respects · p) ?_ fun _ => ?_
                | refine Respects.of_named (fun R => ∀ a b, Respects R (p a b)) (fun _ _ => ?_) fun _ => ?_
                | refine Respects.of_named (fun R => ∀ a b c, Respects R (p a b c)) (fun _ _ _ => ?_) fun _ => ?_)
              on_goal 1 => (dsimp -zeta only [p]; clear p)
              on_goal 2 => clear_value p)
           | clear_value p)
      | with_reducible refine Respects.ite ?_ ?_
      | with_reducible refine Respects.elim ?_ ?_
      | with_reducible refine Respects.bind ?_ ?_
      | with_reducible refine Respects.forIn ?_
      | with_reducible refine Respects.map ?_
      | with_reducible refine Respects.mapM ?_
      | with_reducible refine Respects.forM ?_
      | with_reducible refine Respects.foldlM ?_
      | with_reducible refine Respects.filterM ?_
      | with_reducible refine Respects.filterMapM ?_
      | with_reducible refine Respects.tryCatch ?_ ?_
      -- changes of the state, none of them of a graph
      | (with_reducible refine respects_of_frame ?_); first
        | (with_reducible refine respects_modifyProgram ?_); intro _; first | rfl | (split <;> rfl)
        | (with_reducible refine respects_modifyFunction ?_); exact fun _ => .of_flow_eq rfl rfl rfl rfl
        | (with_reducible refine Respects.modify ?_); intro _; first
          | exact frame_of_eq rfl rfl
          | exact frame_modifyDraft (fun _ => rfl) fun _ h => h
        | (with_reducible refine Respects.modifyGet ?_); intro _; first
          | exact frame_of_eq rfl rfl
          | exact frame_push rfl (.inr ⟨⟨nofun, nofun⟩, nofun⟩)
      | intro _
      -- steps that take a step, or that few steps take
      | dsimp -zeta only [attempt, recovering, declareCode, eachBase, reportMissing, failing, arrayLength, bindFunctions,
          completeScopes, declareContract, declareStateVariables, declareUsing, errorDraft, inheritFunction,
          innerContext, kindKey, locationOfWords, markShadowed, modifyErrorDraft, readBases, readComment,
          readContractItem, readFile, readFunctionAttributes, readImport, readOverrides, readParameters, readPragma,
          readRemapping, readRenames, readTopLevel, readUsing, registerContracts, resolveBase,
          resolveInheritance, settleUsings, spreadUsing, superName, declareError, declareEvent, declareStruct,
          declaredNames, operatorCall, ownerName?, readEnum, readErrorParameters, readEventParameters, readHeads,
          readRenames.fail, readStructMembers, readValueType, referType, namedType, parameterTrees, piece,
          readFunctionHead, variableDraft, addParameter, declareFunction, findName, newName,
          registerFunction, reportIncomplete, scopeOf, bindTo, modifyVariableDraft, newVariable, requireChildren,
          modifyScope, contractDraft, modifyContractDraft, modifyContract, forParts, tryTree, singleStmt,
          readAssigned, readTupleDeclaration, readLegacyTupleDeclaration, readDefinition, placeless, finishAssembly,
          newAssemblyVariable, freshKey, readVariableComment, readVariableAttributes, readFeatures, setReference,
          setInit]
      | split
      | dsimp -zeta only [modifyFunctionDraft, newFunction]) : Respects R x := heq ▸ hy

namespace Reader

section

open Load State

/-! ### Looking -/

section

variable [IsPreorder State R]

instance : Respects R (lifted x) := .of_def (lifted.eq_def ..)
instance (x : Result α) : Respects R (liftM x : Load α) := inferInstanceAs (Respects R (lifted x))
instance (x : Option α) : Respects R (expect x e : Load α) := .of_def (expect.eq_def ..)
instance : Respects R program := .of_def program.eq_def
instance : Respects R isCompact := .of_def isCompact.eq_def
instance : Respects R (require b) := .of_def (require.eq_def ..)
instance : Respects R (kind j) := .of_def (kind.eq_def ..)
instance : Respects R (isKind j name) := .of_def (isKind.eq_def ..)
instance : Respects R (attributes j) := .of_def (attributes.eq_def ..)
instance : Respects R (contents j key) := .of_def (contents.eq_def ..)
instance : Respects R (typeWords j) := .of_def (typeWords.eq_def ..)
instance : Respects R (functionDraft f) := .of_def (functionDraft.eq_def ..)
instance : Respects R (sourceOf position) := .of_def (sourceOf.eq_def ..)
instance : Respects R (assemblyScope scope) := .of_def (assemblyScope.eq_def ..)
instance : Respects R isChecked := .of_def isChecked.eq_def
instance : Respects R (childrenOfKind tree name) := .of_def (childrenOfKind.eq_def ..)
instance : Respects R (place j) := .of_def (place.eq_def ..)
instance : Respects R (part tree key i) := .of_def (part.eq_def ..)

end

/-! ### Declarations and names -/

instance : Framed (modifyAssemblyScope scope u) := .of_def (modifyAssemblyScope.eq_def ..)
instance : Framed (modifyVariable v u) := .of_def (modifyVariable.eq_def ..)
instance : Framed (refer t source) := .of_def (refer.eq_def ..)
instance : Framed (readDeclaration v tree value b) := .of_def (readDeclaration.eq_def ..)
instance : Framed (declareVariable v tree) := .of_def (declareVariable.eq_def ..)

/-! ### Types and expressions -/

instance (env : TypeEnv) (fuel : Nat) (name : String) : Framed (typeOfWords env fuel name) := by
  induction fuel generalizing name with
  | zero => exact .of_def (typeOfWords.eq_def env 0 name)
  | succ fuel ih =>
    -- to derive the equations of the cases would take long
    have heq := typeOfWords.eq_def env (fuel + 1) name
    dsimp -zeta only at heq
    exact .of_def heq

instance : Framed (newInfo tree) := .of_def (newInfo.eq_def ..)

/-- Types, calls and expressions refer to each other, so all are gone through at once, by the bound on their nesting. -/
theorem respects_readExprs :
    (∀ tree ctx, Framed (readType fuel tree ctx)) ∧ (∀ ctx tree, Framed (readTypeVariable fuel ctx tree)) ∧
      (∀ ctx v, Framed (analyzeVariable fuel ctx v)) ∧ (∀ tree ctx, Framed (readCall fuel tree ctx)) ∧
      ∀ tree ctx, Framed (readExpr fuel tree ctx) := by
  induction fuel with
  | zero =>
    exact ⟨fun _ _ => .of_def (readType.eq_1 ..), fun _ _ => .of_def (readTypeVariable.eq_1 ..),
      fun _ _ => .of_def (analyzeVariable.eq_1 ..), fun _ _ => .of_def (readCall.eq_1 ..),
      fun _ _ => .of_def (readExpr.eq_1 ..)⟩
  | succ fuel ih =>
    obtain ⟨_, _, _, _, _⟩ := ih
    exact ⟨fun _ _ => .of_def (readType.eq_2 ..), fun _ _ => .of_def (readTypeVariable.eq_2 ..),
      fun _ _ => .of_def (analyzeVariable.eq_2 ..), fun _ _ => .of_def (readCall.eq_2 ..),
      fun _ _ => .of_def (readExpr.eq_2 ..)⟩

instance (fuel : Nat) (tree : TypeTree) (ctx : Context) : Framed (readType fuel tree ctx) :=
  respects_readExprs.1 tree ctx
instance (fuel : Nat) (ctx : Context) (v : VariableId) : Framed (analyzeVariable fuel ctx v) :=
  respects_readExprs.2.2.1 ctx v
instance (fuel : Nat) (tree : Json) (ctx : Context) : Framed (readExpr fuel tree ctx) :=
  respects_readExprs.2.2.2.2 tree ctx

instance : Framed (expression tree ctx) := .of_def (expression.eq_def ..)
instance : Framed (typeOf tree ctx) := .of_def (typeOf.eq_def ..)
instance : Framed (finishVariable v ctx) := .of_def (finishVariable.eq_def ..)

/-! ### Heads of functions -/

instance : Framed (addLocal f v) := .of_def (addLocal.eq_def ..)
instance : Framed (addDeclared f tree component) := .of_def (addDeclared.eq_def ..)

/-! ### Members and contracts -/

instance (k : CodeKind) (f : FunctionId) : Framed (modifyProgram (k.register f)) :=
  respects_modifyProgram fun _ => by cases k <;> rfl

instance (k : CodeKind) (c : ContractId) (fs : List FunctionId) (g : Gathered) :
    Framed (readHeads.inherit k c fs g) := by
  induction fs generalizing g with
  | nil => exact .of_def (readHeads.inherit.eq_1 k c g)
  | cons f fs ih => exact .of_def (readHeads.inherit.eq_2 k c g f fs)

/-! ### Files and directives -/

instance : Framed (number tree u) := .of_def (number.eq_def ..)
instance : Framed (readHeadsOfUnit known files) := .of_def (readHeadsOfUnit.eq_def ..)
instance : Framed (inherit c o take) := .of_def (inherit.eq_def ..)
instance : Framed (readContractEnums c) := .of_def (readContractEnums.eq_def ..)
instance : Framed (declareMembers c) := .of_def (declareMembers.eq_def ..)
instance : Framed (readMembers c) := .of_def (readMembers.eq_def ..)
instance : Framed (readContractUsings c) := .of_def (readContractUsings.eq_def ..)
instance : Framed readTopLevelMembers := .of_def readTopLevelMembers.eq_def
instance : Framed readTopLevelHeads := .of_def readTopLevelHeads.eq_def

end

end Reader

end ContractAudit
