import ContractAudit.Proofs.Reading

/-! # Reading statements

Statements leave the graph of their function alone. Functions in assembly code are the exception: their graphs are built
where they stand.
-/

namespace ContractAudit.Reader

open Flow Load State Build

variable {s : State}

/-! ## Expressions of assembly code -/

instance (scope fuel : Nat) (tree : Json) : Framed (readAssemblyExpr scope fuel tree) := by
  induction fuel generalizing tree with
  | zero => exact .of_def (readAssemblyExpr.eq_1 scope tree)
  | succ fuel ih => exact .of_def (readAssemblyExpr.eq_2 scope tree fuel)

instance (f : FunctionId) (i : NodeId) (e : Option Expr) :
    Framed (modifyFunction f fun fn => { fn with flow := fn.flow.modify i fun n =>
      { n with expr := e, surveyed := true } }) :=
  respects_modifyFunction fun fn =>
    .of_grows rfl rfl rfl (.modify fn.flow i (fun _ => rfl) (fun _ => rfl) fun _ => rfl)

instance (fuel scope : Nat) : Framed (finishAssemblyFunctions fuel scope) := by
  induction fuel generalizing scope with
  | zero => exact .of_def (finishAssemblyFunctions.eq_1 scope)
  | succ fuel ih => exact .of_def (finishAssemblyFunctions.eq_2 scope fuel)

instance : Framed (setNodeExpr f i e) := .of_def (setNodeExpr.eq_def ..)
instance : Framed (readNodeExpr f i) := .of_def (readNodeExpr.eq_def ..)

/-! ## Graphs in the program -/

theorem flow_modifyFunction (hf : f < s.program.functionTable.size) (u : Function → Function) :
    flow { s with program := s.program.modifyFunction f u } f = (u (s.program.function f)).flow := by
  rw [flow, function_modifyFunction, if_pos ⟨rfl, hf⟩]

/-- The state with another graph for a function. -/
def withFlow (s : State) (f : FunctionId) (g : Flow) : State :=
  { s with program := s.program.modifyFunction f fun fn => { fn with flow := g } }

theorem run_program (k : Program → Load α) : (program >>= k) s = k s.program s := rfl

theorem build_ensures_withFlow
    (hR : ∀ g, G (s.flow f) g → R s (withFlow s f g))
    (hb : Ensures G b (s.flow f) Q) :
    Ensures R (build f b) s fun a t => ∃ g, t = withFlow s f g ∧ G (s.flow f) g ∧ Q a g := by
  unfold Ensures at hb
  unfold Ensures
  cases hres : b (s.flow f) with
  | ok a g =>
    rw [hres] at hb
    have hrun : build f b s = .ok a (withFlow s f g) := by
      rw [build, run_program, show b.run (s.program.function f).flow = _ from hres]
      rfl
    rw [hrun]
    exact ⟨hR g hb.1, g, rfl, hb⟩
  | error why g =>
    rw [hres] at hb
    have hrun : build f b s = .error why (withFlow s f g) := by
      rw [build, run_program, show b.run (s.program.function f).flow = _ from hres]
      rfl
    rw [hrun]
    exact hR g hb

theorem build_ensures (hf : f < s.program.functionTable.size) (hb : Ensures Grows b (s.flow f) Q) :
    Ensures Frame (build f b) s fun a t => Q a (t.flow f) := by
  have hframe : ∀ g, Grows (s.flow f) g → Frame s (withFlow s f g) :=
    fun g hg => frame_modifyFunction (.of_grows rfl rfl rfl hg)
  refine (build_ensures_withFlow hframe hb).imp fun a t _ ht => ?_
  obtain ⟨g, rfl, -, hq⟩ := ht
  rw [withFlow, flow_modifyFunction hf]
  exact hq

theorem lt_size_of_mem (hn : n ∈ (s.flow f).order) : f < s.program.functionTable.size := by
  by_contra hf
  have hnone : s.flow f = {} := by
    simp [flow, Program.function, Nat.le_of_not_lt hf]
    rfl
  rw [hnone] at hn
  cases hn

/-- From a sane state, what follows may use what the first step leaves. -/
theorem bind_of_ensures (hs : s.Sane) (hx : Ensures Frame x s Q)
    (hk : ∀ a t, Extends s t → Q a t → Ensures Frame (k a) t P) : Ensures Frame (x >>= k) s P :=
  hx.bind fun a t hst hq => hk a t (hst hs) hq

theorem bind_of_respects (hs : s.Sane) (hx : Framed x)
    (hk : ∀ a t, Extends s t → Ensures Frame (k a) t P) : Ensures Frame (x >>= k) s P :=
  bind_of_ensures hs (hx.ensures s) fun a t hst _ => hk a t hst

/-! ## Functions of assembly code -/

instance (f : FunctionId) (c : Option ContractId) : Framed (registerAssemblyFunction f c) :=
  .of_def (registerAssemblyFunction.eq_def f c)

theorem newFunction_ensures (hflow : fn.flow = {}) (hready : d.tree = .null ∨ fn.Ready) :
    Ensures Frame (newFunction fn d) s fun f t => f < t.program.functionTable.size := by
  refine ⟨frame_push hflow hready, ?_⟩
  show _ < (Array.push _ _).size
  rw [Array.size_push]
  exact Nat.lt_succ_self _

theorem setEntry_ensures (hn : (s.flow f).Stays n) :
    Ensures Frame (modifyFunction f fun fn => { fn with flow := { fn.flow with entry := some n } }) s
      fun _ t => t.flow f = { s.flow f with entry := some n } := by
  refine ⟨frame_modifyFunction ?_, flow_modifyFunction (lt_size_of_mem hn.1) _⟩
  exact ⟨⟨fun hl => hl.setEntry (some n), fun _ h => h, fun _ _ _ => rfl⟩, fun _ => rfl,
    fun _ hf => hf.toRooted.setEntry hn⟩

/-- Reading the names of a function of assembly code goes from a node of its graph to a node of its graph. -/
def NamesReach (fuel : Nat) : Prop :=
  ∀ scope f last isParameter trees s, s.Sane → last ∈ (s.flow f).order →
    Ensures Frame (readAssemblyNames fuel scope f last isParameter trees) s fun n t => n ∈ (t.flow f).order

theorem yul_ensures {y : Yul} (hlast : last ∈ (s.flow f).order) :
    Ensures Frame (build f (yul scope last y)) s fun n t => n ∈ (t.flow f).order :=
  build_ensures (lt_size_of_mem hlast) (yul_reaching hlast)

section

variable (hread : ∀ scope tree, Framed (readAssembly fuel scope tree)) (hnames : NamesReach fuel)
include hread hnames

theorem namesReach_succ : NamesReach (fuel + 1) := by
  intro scope f last isParameter trees s hs hlast
  cases trees with
  | nil =>
    rw [readAssemblyNames.eq_2]
    exact .pure hlast
  | cons tree rest =>
    rw [readAssemblyNames.eq_3]
    refine bind_of_respects hs (hread scope tree) fun y s₁ h₁ => ?_
    refine bind_of_ensures h₁.sane (yul_ensures ((h₁.flow f).order last hlast)) fun n s₂ h₂ hn => ?_
    refine .look_bind fun name => .look_bind fun p => .look_bind fun known => ?_
    split
    · exact .throw _
    · refine bind_of_respects h₂.sane ?_ fun _ s₃ h₃ =>
        hnames scope f n isParameter rest s₃ h₃.sane ((h₃.flow f).order n hn)
      refine respects_modifyFunction fun fn => ?_
      split <;> exact .of_flow_eq rfl rfl rfl rfl

theorem respects_readAssemblyFunction_succ {tree : Json} : Framed (readAssemblyFunction (fuel + 1) scope tree) := by
  refine .of_assumed (fun _ _ hs h => absurd h hs) fun s hs => ?_
  rw [readAssemblyFunction.eq_2]
  refine .look_bind fun outer => .look_bind fun p => .look_bind fun name => .look_bind fun kind => .look_bind fun _ => ?_
  refine .look_bind fun position => .look_bind fun source => ?_
  refine bind_of_ensures hs (newFunction_ensures rfl (.inl rfl)) fun f s₁ h₁ hf => ?_
  refine .get_bind ?_
  refine bind_of_respects h₁.sane (.modify fun _ => frame_of_eq rfl rfl) fun _ s₂ h₂ => ?_
  -- the first node is the entry, and the parameters stand behind the second
  refine bind_of_ensures h₂.sane (build_ensures (Nat.lt_of_lt_of_le hf h₂.size) yulNode_ensures)
    fun entry s₃ h₃ hentry => ?_
  have hstays : (s₃.flow f).Stays entry := ⟨hentry.1, by rw [hentry.2]; decide⟩
  refine bind_of_ensures h₃.sane (setEntry_ensures hstays) fun _ s₄ h₄ _ => ?_
  refine bind_of_respects h₄.sane inferInstance fun _ s₅ h₅ => ?_
  refine bind_of_respects h₅.sane (respects_modifyProgram fun _ => rfl) fun _ s₆ h₆ => ?_
  refine bind_of_respects h₆.sane inferInstance fun _ s₇ h₇ => ?_
  have h₄₇ := (((h₄.flow f).trans (h₅.flow f)).trans (h₆.flow f)).trans (h₇.flow f)
  have hentry₇ : entry ∈ (s₇.flow f).order := h₄₇.order _ hentry.1
  have hstart : Reaching (do
      let n ← yulNode s₁.assemblyScopes.size .entryPoint (.ok source) none none
      link entry n
      return n) (s₇.flow f) := by
    refine yulNode_reaching.bind fun n g₁ hg₁ hn => ?_
    refine (link_ensures (hg₁.order _ hentry₇) hn).bind fun _ g₂ hg₂ _ => ?_
    exact .pure (hg₂.order _ hn)
  refine bind_of_ensures h₇.sane (build_ensures (lt_size_of_mem hentry₇) hstart) fun start s₈ h₈ hstart => ?_
  refine .look_bind fun parameters => ?_
  refine bind_of_ensures h₈.sane (hnames _ f start true parameters s₈ h₈.sane hstart) fun last s₉ h₉ hlast => ?_
  refine .look_bind fun results => ?_
  refine bind_of_ensures h₉.sane (hnames _ f last false results s₉ h₉.sane hlast) fun last s₁₀ h₁₀ hlast => ?_
  refine .look_bind fun bodyTree => ?_
  refine bind_of_respects h₁₀.sane (hread _ _) fun body s₁₁ h₁₁ => ?_
  exact bind_of_ensures h₁₁.sane (yul_ensures ((h₁₁.flow f).order _ hlast)) fun _ _ _ _ => .pure trivial

end

theorem respects_assembly : (∀ scope tree, Framed (readAssembly fuel scope tree)) ∧
    (∀ scope tree, Framed (readAssemblyNode fuel scope tree)) ∧
    (∀ scope trees, Framed (readAssemblyList fuel scope trees)) ∧
    (∀ scope tree, Framed (readAssemblyFunction fuel scope tree)) ∧ NamesReach fuel := by
  induction fuel with
  | zero =>
    refine ⟨fun scope tree => ?_, fun scope tree => ?_, fun scope trees => ?_, fun scope tree => ?_, ?_⟩
    · exact .of_def (readAssembly.eq_1 scope tree)
    · exact .of_def (readAssemblyNode.eq_1 scope tree)
    · exact .of_def (readAssemblyList.eq_1 scope trees)
    · exact .of_def (readAssemblyFunction.eq_1 scope tree)
    · intro scope f last isParameter trees s _ _
      rw [readAssemblyNames.eq_1]
      exact .throw _
  | succ fuel ih =>
    obtain ⟨hread, hnode, hlist, hfunction, hnames⟩ := ih
    refine ⟨fun scope tree => ?_, fun scope tree => ?_, fun scope trees => ?_, fun scope tree => ?_, ?_⟩
    · exact .of_def (readAssembly.eq_2 scope tree fuel)
    · exact .of_def (readAssemblyNode.eq_2 scope tree fuel)
    · cases trees with
      | nil => exact .of_def (readAssemblyList.eq_2 scope fuel)
      | cons tree rest => exact .of_def (readAssemblyList.eq_3 scope fuel tree rest)
    · exact respects_readAssemblyFunction_succ hread hnames
    · exact namesReach_succ hread hnames

instance (fuel scope : Nat) (tree : Json) : Framed (readAssembly fuel scope tree) :=
  respects_assembly.1 scope tree

/-! ## Statements -/

instance (f : FunctionId) (trees : List (Json × Option Nat)) : Framed (readDeclarations f trees) := by
  induction trees with
  | nil => exact .of_def (readDeclarations.eq_1 f)
  | cons tree rest ih => exact .of_def (readDeclarations.eq_2 f tree.1 tree.2 rest)

instance (f : FunctionId) (trees : List (Result Json × Option Nat)) : Framed (readDefinitions f trees) := by
  induction trees with
  | nil => exact .of_def (readDefinitions.eq_1 f)
  | cons tree rest ih =>
    obtain ⟨tree | why, component⟩ := tree
    · exact .of_def (readDefinitions.eq_2 f _ _ rest)
    · exact .of_def (readDefinitions.eq_3 f _ _ rest)

theorem respects_statements : (∀ f tree, Framed (readStmt fuel f tree)) ∧
    (∀ f tree [Framed tree], Framed (readPart fuel f tree)) ∧
    (∀ f trees, Framed (readStmts fuel f trees)) ∧
    (∀ f isFirst trees, Framed (readClauses fuel f isFirst trees)) ∧
    ∀ f tree, Framed (readNode fuel f tree) := by
  induction fuel with
  | zero =>
    refine ⟨fun f tree => ?_, fun f tree htree => ?_, fun f trees => ?_, fun f isFirst trees => ?_, fun f tree => ?_⟩
    · exact .of_def (readStmt.eq_1 f tree)
    · exact .of_def (readPart.eq_1 f tree)
    · exact .of_def (readStmts.eq_1 f trees)
    · exact .of_def (readClauses.eq_1 f isFirst trees)
    · exact .of_def (readNode.eq_1 f tree)
  | succ fuel ih =>
    obtain ⟨hstmt, hpart, hstmts, hclauses, hnode⟩ := ih
    refine ⟨fun f tree => ?_, fun f tree htree => ?_, fun f trees => ?_, fun f isFirst trees => ?_, fun f tree => ?_⟩
    · exact .of_def (readStmt.eq_2 f tree fuel)
    · exact .of_def (readPart.eq_2 f tree fuel)
    · cases trees with
      | nil => exact .of_def (readStmts.eq_2 f fuel)
      | cons tree rest => exact .of_def (readStmts.eq_3 f fuel tree rest)
    · cases trees with
      | nil => exact .of_def (readClauses.eq_2 f isFirst fuel)
      | cons tree rest => exact .of_def (readClauses.eq_3 f isFirst fuel tree rest)
    · exact .of_def (readNode.eq_2 f tree fuel)

instance (fuel : Nat) (f : FunctionId) (trees : List Json) : Framed (readStmts fuel f trees) :=
  respects_statements.2.2.1 f trees

end ContractAudit.Reader
