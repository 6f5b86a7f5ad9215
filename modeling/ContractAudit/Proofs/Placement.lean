import ContractAudit.Proofs.Construction
import ContractAudit.Proofs.Layout

/-! # Graphs that follow a layout

The graph that is built for a body has the nodes and the edges of its outline, in the same order.
-/

namespace ContractAudit

open Outline List

/-- Nothing is said about the states before and after a step. -/
def Anyhow {σ : Type} (_ _ : σ) : Prop := True

instance {σ : Type} : IsPreorder σ Anyhow where
  refl _ := trivial
  trans _ _ _ _ _ := trivial

/-- If a step yields a value, `Q` holds of the value and the state. -/
abbrev Yields {ε σ α : Type} (x : EStateM ε σ α) (s : σ) (Q : α → σ → Prop) : Prop := Ensures Anyhow x s Q

/-- Kinds and scopes of nodes, in order. -/
def Outline.labels (scope : Option Nat) : Outline part → List (NodeKind × Option Nat)
  | skip | noClause => []
  | seq s t => s.labels scope ++ t.labels scope
  | node kind _ => [(kind, scope)]
  | branch false yes no => (.branch, scope) :: (yes.labels scope ++ (no.labels scope ++ [(.endIf, scope)]))
  | branch true yes no => (.branch, scope) :: (.endIf, scope) :: (yes.labels scope ++ no.labels scope)
  | loop _ body => (.startLoop, scope) :: (.loopBranch, scope) :: (body.labels scope ++ [(.endLoop, scope)])
  | forLoop true _ init round | yulLoop init round =>
    (.startLoop, scope) :: (.endLoop, scope) :: (init.labels scope ++ ((.loopBranch, scope) :: round.labels scope))
  | forLoop false _ init round => (.startLoop, scope) :: (.endLoop, scope) :: (init.labels scope ++ round.labels scope)
  | within scope body => body.labels (some scope)
  | tries clauses => (.tries, scope) :: clauses.labels scope
  | clause body rest => (.catches, scope) :: (body.labels scope ++ rest.labels scope)

theorem Outline.labels_marks (o : Outline part) (p : Standing) (a n : Nat) (e : Exit) :
    (o.marks p a n e).map (fun m => (m.kind, m.scope)) = o.labels p.scope := by
  induction o generalizing p a n e with
  | branch early _ _ ih₁ ih₂ => cases early <;> simp [marks, labels, ih₁, ih₂]
  | forLoop tested _ _ _ ih₁ ih₂ => cases tested <;> simp [marks, labels, ih₁, ih₂]
  | _ => simp [marks, labels, *]

@[simp] theorem Outline.length_labels (o : Outline part) (scope : Option Nat) : (o.labels scope).length = o.size := by
  rw [← labels_marks o { scope := scope } 0 0 (.flows none), length_map, length_marks]

theorem along_map :
    Along P n (xs.map f) ↔ Along (fun u x => P u (f x)) n xs := by
  induction xs generalizing n with
  | nil => rfl
  | cons x xs ih => simp [ih]

namespace Flow

/-- What a mark tells about the node itself. -/
def label (g : Flow) (u : Nat) : NodeKind × Option Nat := ((g.node u).kind, (g.node u).assemblyScope)

theorem Rewired.label (hgh : Rewired g h) (u : NodeId) : h.label u = g.label u := by
  obtain ⟨_, _, hu⟩ := hgh.node u
  rw [Flow.label, hu]
  rfl

/-- The nodes and the edges by which a graph with `n` nodes grows. -/
structure Built (n : Nat) (ls : List (NodeKind × Option Nat)) (es : List (Nat × Nat)) (g h : Flow) : Prop where
  base : g.nodes.size = n
  size : h.nodes.size = n + ls.length
  order : h.order = g.order ++ range' n ls.length
  kept : ∀ u < n, h.label u = g.label u
  new : Along (fun u l => h.label u = l) n ls
  sons : ∀ u, h.sons u = g.sons u ++ targets es u
  fathers : ∀ v, h.fathers v = g.fathers v ++ sources es v

/-- The graph grows by an outline behind the node `a`, and the outline ends at `i`. -/
abbrev Appends (o : Outline (.code y)) (scope : Option Nat) (a n : Nat) (g : Flow) (i : Nat) (h : Flow) : Prop :=
  i = o.last a n ∧ Built n (o.labels scope) (o.edges a n) g h

namespace Built

theorem nil (hn : g.nodes.size = n) : Built n [] [] g g where
  base := hn
  size := hn
  order := by simp
  kept _ _ := rfl
  new := trivial
  sons _ := by simp
  fathers _ := by simp

theorem modify (g : Flow) (i : Nat) (hlabel : ∀ x, ((f x).kind, (f x).assemblyScope) = (x.kind, x.assemblyScope))
    (hs : ∀ x, (f x).sons = x.sons) (hf : ∀ x, (f x).fathers = x.fathers) : Built g.nodes.size [] [] g (g.modify i f) where
  base := rfl
  size := size_modify
  order := by simp [Flow.modify]
  kept u _ := read_modify (fun x => (x.kind, x.assemblyScope)) hlabel
  new := trivial
  sons u := (read_modify Node.sons hs).trans (append_nil _).symm
  fathers v := (read_modify Node.fathers hf).trans (append_nil _).symm

theorem edge (ha : a < g.nodes.size) (hb : b < g.nodes.size) : Built g.nodes.size [] [(a, b)] g (g.link a b) := by
  have hnodes := Rewired.link g a b
  constructor
  · rfl
  · exact hnodes.size
  · simpa using hnodes.order
  · exact fun u _ => hnodes.label u
  · trivial
  · intro u
    rw [sons_link ha]
    simp only [targets, only, flatMap_cons]
    split <;> simp
  · intro v
    rw [fathers_link hb]
    simp only [sources, only, flatMap_cons]
    split <;> simp

variable (H : Built n ls es g h)

include H

theorem trans (H' : Built m ls' es' h k) : Built n (ls ++ ls') (es ++ es') g k := by
  obtain rfl : m = n + ls.length := H'.base.symm.trans H.size
  constructor
  · exact H.base
  · rw [H'.size, length_append, Nat.add_assoc]
  · rw [H'.order, H.order, append_assoc, length_append, range'_append_1]
  · intro u hu
    rw [H'.kept u (by omega), H.kept u hu]
  · exact along_append.2 ⟨H.new.imp fun u m _ hlt hm => (H'.kept u hlt).trans hm, H'.new⟩
  · intro u
    rw [H'.sons, H.sons, append_assoc, targets_append]
  · intro v
    rw [H'.fathers, H.fathers, append_assoc, sources_append]

theorem congr (es' : List (Nat × Nat)) (ht : ∀ u, targets es u = targets es' u)
    (hs : ∀ v, sources es v = sources es' v) : Built n ls es' g h :=
  { H with sons := fun u => ht u ▸ H.sons u, fathers := fun v => hs v ▸ H.fathers v }

theorem step (hx : h.nodes.size = m → Yields x h fun i k => i = j ∧ Built m ls' es' h k)
    (hf : ∀ k, Built n (ls ++ ls') (es ++ es') g k → Yields (f j) k P)
    (hm : n + ls.length = m := by simp <;> omega) : Yields (x >>= f) h P :=
  (hx (H.size.trans hm)).bind fun i k _ hi => by
    obtain ⟨rfl, H'⟩ := hi
    exact hf k (H.trans H')

theorem part {f : NodeId → Build β} (hx : a < m → h.nodes.size = m → Yields x h (Appends o scope a m h))
    (hf : o.last a m < m + o.size → ∀ k, Built n (ls ++ o.labels scope) (es ++ o.edges a m) g k → Yields (f (o.last a m)) k P)
    (ha : a < m := by omega) (hm : n + ls.length = m := by simp <;> omega) : Yields (x >>= f) h P := by
  have hlast := last_cases o a m
  exact H.step (hx ha) (hf (by omega)) hm

theorem appends {o : Outline (.code y)}
    (hfits : Built n ls es g h → Built n (o.labels scope) (o.edges a n) g h := by
      simp [Yul.outline, Stmt.outline, labels, edges, last, size]) :
    Yields (pure (o.last a n) : Build NodeId) h (Appends o scope a n g) :=
  .pure ⟨rfl, hfits H⟩

theorem link (hf : ∀ k, Built n ls (es ++ [(a, b)]) g k → Yields (f ()) k P) (ha : a < n + ls.length := by simp <;> omega)
    (hb : b < n + ls.length := by simp <;> omega) : Yields (Build.link a b >>= f) h P := by
  refine hf _ ?_
  have H' := H.trans (edge (H.size ▸ ha) (H.size ▸ hb))
  rwa [append_nil] at H'

end Built

end Flow

open Flow

namespace Build

variable {kind : NodeKind}
  {site : Read Source} {pending : Option Json}

theorem newNode_built (n : Nat) (hs : x.sons = []) (hf : x.fathers = []) (hn : g.nodes.size = n) :
    Yields (newNode x) g fun i h => i = n ∧ Built n [(x.kind, x.assemblyScope)] [] g h := by
  subst hn
  have hold : ∀ u < g.nodes.size, (g.add x).1.node u = g.node u := fun u hu => by
    rw [node_add, if_neg (Nat.ne_of_lt hu)]
  have hnew : (g.add x).1.node g.nodes.size = x := by
    rw [node_add, if_pos rfl]
  have hgone := node_of_size_le (Nat.le_refl g.nodes.size)
  refine ⟨trivial, rfl, rfl, Array.size_push _, rfl, fun u hu => ?_, ⟨?_, trivial⟩, fun u => ?_, fun v => ?_⟩
  · show (((g.add x).1.node u).kind, ((g.add x).1.node u).assemblyScope) = _
    rw [hold u hu]
    rfl
  · show (((g.add x).1.node g.nodes.size).kind, ((g.add x).1.node g.nodes.size).assemblyScope) = _
    rw [hnew]
  · show ((g.add x).1.node u).sons = (g.node u).sons ++ []
    rw [node_add]
    split
    next h => rw [h, hgone, hs]; rfl
    next => simp
  · show ((g.add x).1.node v).fathers = (g.node v).fathers ++ []
    rw [node_add]
    split
    next h => rw [h, hgone, hf]; rfl
    next => simp

theorem ofRead_yields {r : Read α} (hf : ∀ x, Yields (f x) g P) : Yields (ofRead r >>= f) g P := by
  cases r with
  | ok x => exact hf x
  | error e => exact .throw e

theorem nodeAt_built (n : Nat) (hn : g.nodes.size = n) :
    Yields (nodeAt kind site checked pending) g fun i h => i = n ∧ Built n [(kind, none)] [] g h :=
  ofRead_yields fun _ => newNode_built n rfl rfl hn

theorem conditionNode_built (n : Nat) (hn : g.nodes.size = n) :
    Yields (conditionNode kind c checked) g fun i h => i = n ∧ Built n [(kind, none)] [] g h :=
  ofRead_yields fun _ => newNode_built n rfl rfl hn

theorem yulNode_built (n : Nat) (hn : g.nodes.size = n) :
    Yields (yulNode scope kind site pending declared) g fun i h => i = n ∧ Built n [(kind, some scope)] [] g h :=
  ofRead_yields fun _ => newNode_built n rfl rfl hn

/-! ## Assembly code -/

open Outline in
mutual
theorem yul_built (y : Yul) (hy : y.isRegular = true) (n : Nat) (ha : a < n)
    (hn : g.nodes.size = n) : Yields (yul scope a y) g (Appends y.outline (some scope) a n g) := by
  have H := Built.nil hn
  cases y with
  | fault f => exact .throw f
  | block body => exact yulList_built body hy n ha hn
  | declare v site =>
    refine H.step (yulNode_built n) fun g H => ?_
    exact H.link fun g H => .pure ⟨rfl, H⟩
  | single kind site pending =>
    have hkind : kind.isSimple = true := hy
    simp only [Yul.outline, dif_pos hkind]
    refine H.step (yulNode_built n) fun g H => ?_
    exact H.link fun g H => .pure ⟨rfl, H⟩
  | ifThen site condition yes =>
    refine H.step (yulNode_built n) fun g H => ?_
    refine H.step (yulNode_built (n + 1)) fun g H => ?_
    refine H.part (yul_built yes hy (n + 2)) fun hyes g H => ?_
    refine H.link fun g H => H.link fun g H => H.link fun g H => ?_
    exact H.appends
  | ifElse site condition yes no =>
    simp only [Yul.isRegular, Bool.and_eq_true] at hy
    refine H.step (yulNode_built n) fun g H => ?_
    refine H.step (yulNode_built (n + 1)) fun g H => ?_
    refine H.part (yul_built yes hy.1 (n + 2)) fun hyes g H => ?_
    refine H.part (yul_built no hy.2 (n + 2 + yes.outline.size)) fun hno g H => ?_
    refine H.link fun g H => H.link fun g H => H.link fun g H => ?_
    exact H.appends
  | forLoop site init condition conditionSite post body =>
    obtain ⟨c, hc⟩ : ∃ c, c = n + 2 + init.outline.size := ⟨_, rfl⟩
    simp only [Yul.isRegular, Bool.and_eq_true] at hy
    refine H.step (yulNode_built n) fun g H => ?_
    refine H.step (yulNode_built (n + 1)) fun g H => H.link fun g H => ?_
    refine H.part (yul_built init hy.1.1 (n + 2)) fun hinit g H => ?_
    refine H.step (yulNode_built c) fun g H => ?_
    refine H.link fun g H => H.link fun g H => ?_
    refine H.part (yul_built body hy.2 (c + 1)) fun hbody g H => ?_
    refine H.part (yul_built post hy.1.2 (c + 1 + body.outline.size)) fun hpost g H => H.link fun g H => ?_
    subst hc
    exact H.appends

theorem yulList_built (ys : List Yul) (hy : Yul.areRegular ys = true) (n : Nat) (ha : a < n)
    (hn : g.nodes.size = n) : Yields (yulList scope a ys) g (Appends (Yul.outlines ys) (some scope) a n g) := by
  cases ys with
  | nil => exact .pure ⟨rfl, .nil hn⟩
  | cons y rest =>
    simp only [Yul.areRegular, Bool.and_eq_true] at hy
    refine (Built.nil hn).part (yul_built y hy.1 n) fun hlast g H => ?_
    exact (yulList_built rest hy.2 (n + y.outline.size) (by omega) (by simpa using H.size)).imp
      fun i h _ hi => ⟨hi.1, by simpa [Yul.outlines, labels, edges] using H.trans hi.2⟩
end

/-! ## Statements -/

open Outline in
mutual
theorem stmt_built (x : Stmt) (hx : x.isRegular false = true) (n : Nat) (ha : a < n) (hn : g.nodes.size = n) :
    Yields (stmt checked a x) g (Appends x.outline none a n g) := by
  have H := Built.nil hn
  cases x with
  | fault f => exact .throw f
  | block unchecked body => exact stmts_built body hx n ha hn
  | ifThen condition yes site =>
    refine H.step (conditionNode_built n) fun g H => H.link fun g H => ?_
    refine H.part (stmt_built yes hx (n + 1)) fun hyes g H => ?_
    refine H.step (nodeAt_built (n + 1 + yes.outline.size)) fun g H => ?_
    refine H.link fun g H => H.link fun g H => ?_
    exact H.appends
  | ifElse condition yes no site =>
    simp only [Stmt.isRegular, Bool.not_false, Bool.true_and, Bool.and_eq_true] at hx
    refine H.step (conditionNode_built n) fun g H => H.link fun g H => ?_
    refine H.part (stmt_built yes hx.1 (n + 1)) fun hyes g H => ?_
    refine H.part (stmt_built no hx.2 (n + 1 + yes.outline.size)) fun hno g H => ?_
    refine H.step (nodeAt_built (n + 1 + yes.outline.size + no.outline.size)) fun g H => ?_
    refine H.link fun g H => H.link fun g H => ?_
    exact H.appends
  | whileLoop site condition body =>
    refine H.step (nodeAt_built n) fun g H => ?_
    refine H.step (conditionNode_built (n + 1)) fun g H => ?_
    refine H.part (stmt_built body hx (n + 2)) fun hbody g H => ?_
    refine H.step (nodeAt_built (n + 2 + body.outline.size)) fun g H => ?_
    refine H.link fun g H => H.link fun g H => H.link fun g H => H.link fun g H => ?_
    exact H.appends
  | forLoop site init condition post body =>
    simp only [Stmt.isRegular, Bool.not_false, Bool.true_and, Bool.and_eq_true] at hx
    refine H.step (nodeAt_built n) fun g H => ?_
    refine H.step (nodeAt_built (n + 1)) fun g H => ?_
    refine H.part (stmt_built init hx.1.1 (n + 2)) fun hinit g H => H.link fun g H => ?_
    obtain ⟨m, hm⟩ : ∃ m, m = n + 2 + init.outline.size := ⟨_, rfl⟩
    cases condition with
    | some condition =>
      dsimp only
      refine H.step (conditionNode_built m) fun g H => H.link fun g H => ?_
      refine H.part (stmt_built body hx.2 (m + 1)) fun hbody g H => ?_
      refine H.part (stmt_built post hx.1.2 (m + 1 + body.outline.size))
        fun hpost g H => H.link fun g H => H.link fun g H => ?_
      subst hm
      exact H.appends
    | none =>
      dsimp only
      refine H.part (stmt_built body hx.2 m) fun hbody g H => ?_
      refine H.part (stmt_built post hx.1.2 (m + body.outline.size))
        fun hpost g H => H.link fun g H => H.link fun g H => ?_
      subst hm
      exact H.appends
  | doWhile site condition body =>
    have hnone : g.sons (n + 1) = [] := congrArg Node.sons (node_of_size_le (by omega))
    refine H.step (nodeAt_built n) fun g H => ?_
    refine H.step (conditionNode_built (n + 1)) fun g H => ?_
    refine H.part (stmt_built body hx (n + 2)) fun hbody g H => ?_
    refine H.step (nodeAt_built (n + 2 + body.outline.size)) fun g H => H.link fun g H => ?_
    refine .get_bind ?_
    have hsons : g.sons (n + 1) = (body.outline.first? (n + 2)).toList := by
      rw [H.sons (n + 1), hnone]
      simp (disch := omega) [targets_before]
    have hfirst := getD_first?_cases body.outline (n + 2) (n + 1)
    rw [hsons]
    -- The first son of the condition is looked up, and it is what the body starts with.
    cases hb : body.outline.first? (n + 2) <;> simp only [hb, Option.getD] at hfirst <;>
      exact H.link fun g H => H.link fun g H => H.link fun g H => .pure ⟨rfl, by
        simpa [Stmt.outline, labels, edges, hb] using H⟩
  | tryCatch site call clauses =>
    refine H.step (nodeAt_built n) fun g H => ofRead_yields fun tree => ?_
    have H' := H.trans (.modify g n (f := fun x => { x with pending := some tree }) (by simp) (by simp) (by simp))
    refine (Ensures.modify (Q := fun _ h => Built n _ _ _ h) trivial H').bind fun _ g _ H => H.link fun g H => ?_
    refine H.step (clauseList_built clauses hx (n + 1) (by omega)) fun g H => ?_
    exact H.appends
  | clause site body => simp [Stmt.isRegular] at hx
  | single kind site pending after =>
    have hkind : kind.isSimple = true := hx
    simp only [Stmt.outline, dif_pos hkind]
    refine H.step (nodeAt_built n) fun g H => H.link fun g H => ?_
    cases after with
    | some f => exact .throw f
    | none => exact .pure ⟨rfl, H⟩
  | declare v site =>
    refine ofRead_yields fun place => ?_
    refine H.step (newNode_built n rfl rfl) fun g H => H.link fun g H => ?_
    exact .pure ⟨rfl, H⟩
  | assembly site scope body after =>
    let stop := n + 1 + body.outline.size
    refine ofRead_yields fun place => ?_
    refine H.step (newNode_built n rfl rfl) fun g H => ?_
    refine H.part (yul_built body hx (n + 1)) fun hbody g H => ?_
    cases after with
    | some f => exact .throw f
    | none =>
      simp only [raise, pure_bind]
      refine H.link fun g H => ?_
      refine H.step (nodeAt_built stop) fun g H => H.link fun g H => ?_
      -- The block is linked to the node before it only when its code is there.
      have H' := H.congr ((a, n) :: (body.outline.edges n (n + 1) ++ [(body.outline.last n (n + 1), stop)])) (fun u => by
          by_cases hu : a = u
          · subst hu
            simp (disch := omega)
          · simp [only_of_ne hu])
        fun v => by
          by_cases hv : n = v
          · subst hv
            simp (disch := omega)
          · simp [only_of_ne hv]
      refine .pure ⟨by simp [Stmt.outline, last, size, stop, Nat.add_assoc], ?_⟩
      simpa [Stmt.outline, labels, edges, last, size, stop, Nat.add_assoc] using H'
  | rawAssembly site code =>
    refine ofRead_yields fun place => ?_
    refine H.step (newNode_built n rfl rfl) fun g H => H.link fun g H => ?_
    refine H.step (nodeAt_built (n + 1)) fun g H => H.link fun g H => ?_
    exact .pure ⟨rfl, H⟩

theorem stmts_built {checked : Bool} (xs : List Stmt) (hx : Stmt.areRegular false xs = true) (n : Nat) (ha : a < n)
    (hn : g.nodes.size = n) : Yields (stmts checked a xs) g (Appends (Stmt.outlines xs) none a n g) := by
  cases xs with
  | nil => exact .pure ⟨rfl, .nil hn⟩
  | cons x rest =>
    simp only [Stmt.areRegular, Bool.and_eq_true] at hx
    refine (Built.nil hn).part (stmt_built x hx.1 n) fun hlast g H => ?_
    exact (stmts_built rest hx.2 (n + x.outline.size) (by omega) (by simpa using H.size)).imp
      fun i h _ hi => ⟨hi.1, by simpa [Stmt.outlines, labels, edges] using H.trans hi.2⟩

theorem clauseList_built (xs : List Stmt) (hx : Stmt.areRegular true xs = true) (n : Nat) (ha : a < n)
    (hn : g.nodes.size = n) : Yields (clauseList checked a xs) g fun i h =>
      i = () ∧ Built n ((Stmt.clauseOutlines xs).labels none) ((Stmt.clauseOutlines xs).edges a n) g h := by
  cases xs with
  | nil => exact .pure ⟨rfl, .nil hn⟩
  | cons x rest =>
    cases x with
    | clause site body =>
      simp only [Stmt.areRegular, Stmt.isRegular, Bool.true_and, Bool.and_eq_true] at hx
      have hclause : Yields (stmt checked a (.clause site body)) g fun i h => i = body.outline.last n (n + 1) ∧
          Built n ((.catches, none) :: body.outline.labels none) ((a, n) :: body.outline.edges n (n + 1)) g h := by
        refine (Built.nil hn).step (nodeAt_built n) fun g H => H.link fun g H => ?_
        exact (stmt_built body hx.1 (n + 1) (by omega) (by simpa using H.size)).imp fun i h _ hi =>
          ⟨hi.1, by simpa using H.trans hi.2⟩
      refine (Built.nil hn).step (fun _ => hclause) fun g H => ?_
      exact (clauseList_built rest hx.2 (n + 1 + body.outline.size) (by omega)
        (by simpa [Nat.add_assoc, Nat.add_comm 1] using H.size)).imp fun i h _ hi => ⟨rfl, by
          simpa [Stmt.clauseOutlines, Stmt.outline, labels, edges] using H.trans hi.2⟩
    | fault f => exact .throw f
    | _ => simp [Stmt.areRegular, Stmt.isRegular] at hx
end

end Build

/-! ## Graphs of bodies -/

theorem along_iff [Inhabited α] {xs : List α} :
    Along P n xs ↔ ∀ u < xs.length, P (n + u) (xs.getD u default) := by
  induction xs generalizing n with
  | nil => simp
  | cons x xs ih =>
    rw [along_cons, ih]
    constructor
    · rintro ⟨hx, hxs⟩ (_ | u) hu
      · exact hx
      · simpa [Nat.add_assoc, Nat.add_comm 1] using hxs u (by simpa using hu)
    · intro h
      refine ⟨h 0 (by simp), fun u hu => ?_⟩
      simpa [Nat.add_assoc, Nat.add_comm 1] using h (u + 1) (by simpa using hu)

/-- The mark of a node of a body. -/
def Outline.mark (o : Outline (.code false)) (u : Nat) : Mark := o.layout.getD u default

theorem Outline.along_layout {o : Outline (.code false)} :
    Along P 0 o.layout ↔ ∀ u ≤ o.size, P u (o.mark u) := by
  simp [along_iff, layout, mark, Nat.lt_succ_iff]

/-- The graph that has only an entry. -/
def Flow.ofEntry (source : Source) (checked : Bool) : Flow :=
  { nodes := #[{ kind := .entryPoint, source, checked }], order := [0], entry := some 0 }

theorem Flow.edges_ofEntry :
    (ofEntry source checked).sons u = [] ∧ (ofEntry source checked).fathers u = [] := by
  cases u with
  | zero => exact ⟨rfl, rfl⟩
  | succ u =>
    have hnone := node_of_size_le (g := ofEntry source checked) (Nat.le_add_left 1 u)
    exact ⟨congrArg Node.sons hnone, congrArg Node.fathers hnone⟩

theorem Flow.linked_ofEntry {source : Source} : (ofEntry source checked).Linked where
  inTable n hn := by simp_all [ofEntry]
  sons_mem a _ b hb := by simp [(edges_ofEntry).1] at hb
  fathers_mem b _ a ha := by simp [(edges_ofEntry).2] at ha
  mirrored a _ b _ := by rw [(edges_ofEntry).1, edges_ofEntry.2]; rfl

/-- A graph with the nodes that the layout of a body tells. -/
structure Flow.Shaped (o : Outline (.code false)) (g : Flow) : Prop where
  size : g.nodes.size = o.size + 1
  order : g.order = range (o.size + 1)
  label : ∀ u ≤ o.size, g.label u = ((o.mark u).kind, (o.mark u).scope)
  heralds : ∀ u ≤ o.size, (o.mark u).Heralds g.fathers
  linked : g.Linked

/-- The graph of a body before its jumps are corrected. -/
structure Flow.Laid (o : Outline (.code false)) (g : Flow) : Prop extends g.Shaped o where
  sons : ∀ u ≤ o.size, g.sons u = (o.mark u).lead.sons 0

theorem Build.stmts_laid (hx : Stmt.areRegular false xs = true)
    (h : stmts checked 0 xs (.ofEntry source checked) = .ok i g) : g.Laid (Stmt.outlines xs) := by
  let o := Stmt.outlines xs
  let g₀ := ofEntry source checked
  have hgrows : Reaching (stmts checked 0 xs) g₀ := stmts_reaching xs (by simp [g₀, ofEntry])
  have hbuilt := @stmts_built 0 g₀ checked xs hx 1 Nat.zero_lt_one rfl
  rw [Reaching, Ensures, h] at hgrows
  rw [Yields, Ensures, h] at hbuilt
  obtain ⟨-, -, hbuilt⟩ := hbuilt
  have hsons : ∀ u, g.sons u = targets (o.edges 0 1) u := fun u => by
    rw [hbuilt.sons u, edges_ofEntry.1, nil_append]
  have hfathers : g.fathers = sources (o.edges 0 1) := funext fun v => by
    rw [hbuilt.fathers v, edges_ofEntry.2, nil_append]
  refine ⟨⟨?_, ?_, ?_, ?_, ?_⟩, ?_⟩
  · simpa [Nat.add_comm] using hbuilt.size
  · rw [hbuilt.order, length_labels, range_eq_range', Nat.add_comm, ← range'_append_1]
    rfl
  · have hnew := hbuilt.new
    rw [← labels_marks o {} 0 1 (.flows none), along_map] at hnew
    exact along_layout.1 ⟨hbuilt.kept 0 Nat.zero_lt_one, hnew⟩
  · refine (along_layout (P := fun _ m => m.Heralds g.fathers)).1 ⟨Mark.heralds_of_ne nofun, ?_⟩
    rw [hfathers]
    exact heralds_marks o {} (.flows none) (fun _ _ h => h) nofun
  · exact hgrows.1.linked linked_ofEntry
  · refine (along_layout (P := fun u m => g.sons u = m.lead.sons 0)).1 ⟨?_, ?_⟩
    · show g.sons 0 = (o.first? 1).toList
      rw [hsons, targets_before o Nat.zero_lt_one, catches_code, append_nil]
    · exact sons_marks o {} (.flows none) Nat.zero_lt_one fun u _ _ => by simp [hsons]

end ContractAudit
