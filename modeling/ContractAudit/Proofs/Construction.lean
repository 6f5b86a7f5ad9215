import ContractAudit.Proofs.Edges
import ContractAudit.Proofs.Outcomes

/-! # Graphs of bodies

Every statement extends a graph by nodes and by edges that are kept at both ends, also the part of a body before a fault. The
correction of jumps keeps this.
-/

namespace ContractAudit

open Flow Ensures

instance : IsPreorder Flow Grows where
  refl := Grows.refl
  trans _ _ _ := Grows.trans

namespace Build

/-- A step that yields a node of the graph. -/
abbrev Reaching (x : Build NodeId) (g : Flow) : Prop := Ensures Grows x g fun i h => i ∈ h.order

theorem ofRead_ensures {α : Type} {r : Read α} : Ensures Grows (ofRead r) g fun _ _ => True := by
  cases r with
  | ok x => exact .pure trivial
  | error f => exact .throw f

theorem raise_ensures {f : Option Fault} : Ensures Grows (raise f) g fun _ _ => True := by
  cases f with
  | some f => exact .throw f
  | none => exact .pure trivial

theorem newNode_ensures (hsons : n.sons = []) (hfathers : n.fathers = []) :
    Ensures Grows (newNode n) g fun i h => i ∈ h.order ∧ h.kind i = n.kind := by
  refine ⟨.add g hsons hfathers, mem_order_add.2 (.inr rfl), ?_⟩
  have hnew := node_add g n g.nodes.size
  rw [if_pos rfl] at hnew
  exact congrArg Node.kind hnew

theorem newNode_reaching (hsons : n.sons = []) (hfathers : n.fathers = []) : Reaching (newNode n) g :=
  (newNode_ensures hsons hfathers).imp fun _ _ _ hi => hi.1

variable {kind : NodeKind}

theorem nodeAt_reaching : Reaching (nodeAt kind site checked pending) g :=
  ofRead_ensures.bind fun _ _ _ _ => newNode_reaching rfl rfl

theorem conditionNode_reaching : Reaching (conditionNode kind c checked) g :=
  ofRead_ensures.bind fun _ _ _ _ => newNode_reaching rfl rfl

theorem yulNode_ensures :
    Ensures Grows (yulNode scope kind site pending declared) g fun i h => i ∈ h.order ∧ h.kind i = kind :=
  ofRead_ensures.bind fun _ _ _ _ => newNode_ensures rfl rfl

theorem yulNode_reaching : Reaching (yulNode scope kind site pending declared) g :=
  yulNode_ensures.imp fun _ _ _ hi => hi.1

theorem link_ensures (ha : a ∈ g.order) (hb : b ∈ g.order) : Ensures Grows (link a b) g fun _ _ => True :=
  ⟨.link ha hb, trivial⟩

theorem linkSon_ensures (ha : a ∈ g.order) (hb : b ∈ g.order) (hs : s ∈ g.sons b) :
    Ensures Grows (link a s) g fun _ _ => True :=
  ⟨.of_sameNodes (Rewired.link g a s).sameNodes fun hg => hg.link ha (hg.sons_mem b hb s hs), trivial⟩

theorem setPending_ensures {tree : Json} :
    Ensures Grows (modify (·.modify i fun n => { n with pending := some tree }) : Build Unit) g fun _ _ => True :=
  .modify (.modify g i (fun _ => rfl) (fun _ => rfl) fun _ => rfl) trivial

/-! ## Nodes that are there -/

/-- Some nodes are in the graph. -/
def Known (ns : List NodeId) (g : Flow) : Prop := ∀ i ∈ ns, i ∈ g.order

namespace Known

theorem one (ha : a ∈ g.order) : Known [a] g := fun _ hi => List.mem_singleton.1 hi ▸ ha

variable (H : Known ns g)

include H

theorem mem (ha : a ∈ ns := by simp) : a ∈ g.order := H a ha

theorem node (hx : Reaching x g) (hk : ∀ i h, Known (i :: ns) h → Ensures Grows (k i) h P) :
    Ensures Grows (x >>= k) g P :=
  hx.bind fun i h hh hi => hk i h (List.forall_mem_cons.2 ⟨hi, fun n hn => hh.order n (H n hn)⟩)

theorem step (hx : Ensures Grows x g Q) (hk : ∀ y h, Known ns h → Ensures Grows (k y) h P) :
    Ensures Grows (x >>= k) g P :=
  hx.bind fun y h hh _ => hk y h fun n hn => hh.order n (H n hn)

theorem link (hk : ∀ h, Known ns h → Ensures Grows (k ()) h P)
    (ha : a ∈ ns := by simp) (hb : b ∈ ns := by simp) : Ensures Grows (link a b >>= k) g P :=
  H.step (link_ensures (H a ha) (H b hb)) fun _ => hk

theorem done (ha : a ∈ ns := by simp) : Reaching (pure a) g := .pure (H a ha)

end Known

/-! ## Assembly code -/

mutual
theorem yul_reaching {y : Yul} (hb : before ∈ g.order) : Reaching (yul scope before y) g := by
  have H := Known.one hb
  cases y with
  | fault f => exact .throw f
  | block body => exact yulList_reaching hb
  | declare v site => exact H.node yulNode_reaching fun n g H => H.link fun g H => H.done
  | single kind site pending => exact H.node yulNode_reaching fun n g H => H.link fun g H => H.done
  | ifThen site condition whenTrue =>
    refine H.node yulNode_reaching fun c g H => H.node yulNode_reaching fun stop g H => ?_
    refine H.node (yul_reaching H.mem) fun t g H => ?_
    exact H.link fun g H => H.link fun g H => H.link fun g H => H.done
  | ifElse site condition whenTrue whenFalse =>
    refine H.node yulNode_reaching fun c g H => H.node yulNode_reaching fun stop g H => ?_
    refine H.node (yul_reaching H.mem) fun t g H => ?_
    refine H.node (yul_reaching H.mem) fun f g H => ?_
    exact H.link fun g H => H.link fun g H => H.link fun g H => H.done
  | forLoop site init condition conditionSite post body =>
    refine H.node yulNode_reaching fun start g H => H.node yulNode_reaching fun stop g H => H.link fun g H => ?_
    refine H.node (yul_reaching H.mem) fun i g H => ?_
    refine H.node yulNode_reaching fun c g H => H.link fun g H => H.link fun g H => ?_
    refine H.node (yul_reaching H.mem) fun b g H => ?_
    exact H.node (yul_reaching H.mem) fun p g H => H.link fun g H => H.done

theorem yulList_reaching {ys : List Yul} (hb : before ∈ g.order) : Reaching (yulList scope before ys) g := by
  cases ys with
  | nil => exact .pure hb
  | cons y ys => exact (yul_reaching hb).bind fun n h _ hn => yulList_reaching hn
end

/-! ## Statements -/

mutual
theorem stmt_reaching {x : Stmt} (hb : before ∈ g.order) : Reaching (stmt checked before x) g := by
  have H := Known.one hb
  cases x with
  | fault f => exact .throw f
  | block unchecked body => exact stmts_reaching body hb
  | ifThen condition whenTrue site =>
    refine H.node conditionNode_reaching fun c g H => H.link fun g H => ?_
    refine H.node (stmt_reaching H.mem) fun t g H => ?_
    exact H.node nodeAt_reaching fun stop g H => H.link fun g H => H.link fun g H => H.done
  | ifElse condition whenTrue whenFalse site =>
    refine H.node conditionNode_reaching fun c g H => H.link fun g H => ?_
    refine H.node (stmt_reaching H.mem) fun t g H => ?_
    refine H.node (stmt_reaching H.mem) fun f g H => ?_
    exact H.node nodeAt_reaching fun stop g H => H.link fun g H => H.link fun g H => H.done
  | whileLoop site condition body =>
    refine H.node nodeAt_reaching fun start g H => H.node conditionNode_reaching fun c g H => ?_
    refine H.node (stmt_reaching H.mem) fun b g H => H.node nodeAt_reaching fun stop g H => ?_
    exact H.link fun g H => H.link fun g H => H.link fun g H => H.link fun g H => H.done
  | forLoop site init condition post body =>
    refine H.node nodeAt_reaching fun start g H => H.node nodeAt_reaching fun stop g H => ?_
    refine H.node (stmt_reaching H.mem) fun i g H => H.link fun g H => ?_
    cases condition with
    | some condition =>
      refine H.node conditionNode_reaching fun c g H => H.link fun g H => ?_
      refine H.node (stmt_reaching H.mem) fun b g H => ?_
      refine H.node (stmt_reaching H.mem) fun p g H => ?_
      exact H.link fun g H => H.link fun g H => H.done
    | none =>
      refine H.node (stmt_reaching H.mem) fun b g H => ?_
      refine H.node (stmt_reaching H.mem) fun p g H => ?_
      exact H.link fun g H => H.link fun g H => H.done
  | doWhile site condition body =>
    refine H.node nodeAt_reaching fun start g H => H.node conditionNode_reaching fun c g H => ?_
    refine H.node (stmt_reaching H.mem) fun b g H => ?_
    refine H.node nodeAt_reaching fun stop g H => H.link fun g H => ?_
    -- the start of the loop leads to the first node of its body, which follows the condition
    show Reaching (match g.sons c with
      | [] => do link start c; link b c; link c stop; return stop
      | first :: _ => do link start first; link b c; link c stop; return stop) g
    cases hsons : g.sons c with
    | nil => exact H.link fun g H => H.link fun g H => H.link fun g H => H.done
    | cons first others =>
      have hfirst : first ∈ g.sons c := hsons ▸ List.mem_cons_self
      exact H.step (linkSon_ensures H.mem H.mem hfirst) fun _ g H => H.link fun g H => H.link fun g H => H.done
  | tryCatch site call clauses =>
    refine H.node nodeAt_reaching fun t g H => H.step ofRead_ensures fun call g H => ?_
    refine H.step setPending_ensures fun _ g H => H.link fun g H => ?_
    exact H.step (clauseList_ensures H.mem) fun _ g H => H.done
  | clause site body =>
    refine H.node nodeAt_reaching fun c g H => H.link fun g H => ?_
    exact stmt_reaching H.mem
  | single kind site pending after =>
    refine H.node nodeAt_reaching fun n g H => H.link fun g H => ?_
    exact H.step raise_ensures fun _ g H => H.done
  | declare v site =>
    refine H.step ofRead_ensures fun source g H => ?_
    exact H.node (newNode_reaching rfl rfl) fun n g H => H.link fun g H => H.done
  | assembly site scope body after =>
    refine H.step ofRead_ensures fun source g H => H.node (newNode_reaching rfl rfl) fun start g H => ?_
    refine H.node (yul_reaching H.mem) fun last g H => ?_
    refine H.step raise_ensures fun _ g H => H.link fun g H => ?_
    exact H.node nodeAt_reaching fun stop g H => H.link fun g H => H.done
  | rawAssembly site code =>
    refine H.step ofRead_ensures fun source g H => ?_
    refine H.node (newNode_reaching rfl rfl) fun n g H => H.link fun g H => ?_
    exact H.node nodeAt_reaching fun stop g H => H.link fun g H => H.done

theorem stmts_reaching (xs : List Stmt) (hb : before ∈ g.order) : Reaching (stmts checked before xs) g := by
  cases xs with
  | nil => exact .pure hb
  | cons x xs => exact (stmt_reaching hb).bind fun n h _ hn => stmts_reaching xs hn

theorem clauseList_ensures {xs : List Stmt} (hb : before ∈ g.order) :
    Ensures Grows (clauseList checked before xs) g fun _ _ => True := by
  cases xs with
  | nil => exact .pure trivial
  | cons x xs =>
    exact (Known.one hb).node (stmt_reaching hb) fun _ h H => clauseList_ensures H.mem
end

/-! ## Jumps -/

theorem fixJumps_ensures (name : String) (hg : g.Linked) : Ensures Grows (fixJumps name) g fun _ _ => True := by
  have hplain : ∀ i ∈ g.plainNodes, i ∈ g.order := fun i hi => (List.mem_filter.1 hi).1
  refine .get_bind (bind (forIn (I := fun _ _ => True) trivial ?_) fun _ g₁ h₁ _ => ?_)
  · intro i hi _ h hh _
    refine .get_bind ?_
    cases hfix : h.fixJump name i with
    | ok k =>
      have hgrows : Grows h k := .fixJump (hh.linked hg) (hh.order i (hplain i hi)) hfix
      exact bind (Q := fun _ _ => True) (.set hgrows trivial) fun _ _ _ _ => .pure trivial
    | error f => exact bind (Q := fun _ _ => True) (.throw f) fun _ _ _ _ => .pure trivial
  · refine bind (forIn (I := fun _ _ => True) trivial ?_) fun _ _ _ _ => .pure trivial
    intro i hi _ h hh _
    have hmem : i ∈ h.order := hh.order i (h₁.order i (hplain i hi))
    exact bind (Q := fun _ _ => True) (.modify (.pruneLoopStart hmem) trivial) fun _ _ _ _ => .pure trivial

end Build

end ContractAudit
