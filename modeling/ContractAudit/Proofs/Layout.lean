import ContractAudit.Flow.Build

/-! # Layout of bodies

What the graph of a body looks like before its jumps are corrected, told without building it. Nodes are numbered in the order
in which they are made, so an outline that starts at a number tells the numbers of its nodes, the edges it adds, and for each
node where it stands and what it leads to.
-/

namespace ContractAudit

open Stmt List

/-- Kinds of nodes that statements of one node have. -/
def NodeKind.isSimple : NodeKind → Bool
  | expression | returns | declaration | assembly | endAssembly | throws | breaks | continues | placeholder => true
  | _ => false

theorem NodeKind.ne_of_isSimple {k : NodeKind} (h : k.isSimple = true) :
    k ≠ .startLoop ∧ k ≠ .endLoop ∧ k ≠ .loopBranch ∧ k ≠ .branch ∧ k ≠ .tries := by
  cases k <;> simp_all [isSimple]

/-- What an outline is of: code, of assembly or not, or the clauses behind a call that is tried. -/
inductive Part where
  | code (yul : Bool)
  | clauses

/-- What a body says about its graph. -/
inductive Outline : Part → Type where
  | skip : Outline (.code y)
  | seq (s t : Outline (.code y)) : Outline (.code y)
  | node (kind : NodeKind) (simple : kind.isSimple = true) : Outline (.code y)
  /-- In assembly code the end is made right after the condition: `early`. -/
  | branch (early : Bool) (yes no : Outline (.code y)) : Outline (.code y)
  /-- A loop with a condition. If the condition comes `late`, the body is run before it. -/
  | loop (late : Bool) (body : Outline (.code false)) : Outline (.code false)
  /-- A loop that may have a condition. A round is the body and, if the loop is `stepped`, the step behind it. -/
  | forLoop (tested stepped : Bool) (init round : Outline (.code false)) : Outline (.code false)
  /-- A loop of assembly code, with the step behind the body. -/
  | yulLoop (init round : Outline (.code true)) : Outline (.code true)
  | within (scope : Nat) (body : Outline (.code true)) : Outline (.code false)
  | tries (clauses : Outline .clauses) : Outline (.code false)
  | noClause : Outline .clauses
  | clause (body : Outline (.code false)) (rest : Outline .clauses) : Outline .clauses

def Outline.size : Outline part → Nat
  | skip | noClause => 0
  | seq s t => s.size + t.size
  | node _ _ => 1
  | branch _ yes no => yes.size + no.size + 2
  | loop _ body => body.size + 3
  | forLoop true _ init round | yulLoop init round => init.size + round.size + 3
  | forLoop false _ init round => init.size + round.size + 2
  | within _ body => body.size
  | tries clauses => clauses.size + 1
  | clause body rest => body.size + rest.size + 1

mutual
def Yul.outline : Yul → Outline (.code true)
  | .fault _ => .skip
  | .block body => Yul.outlines body
  | .declare _ _ => .node .declaration rfl
  | .single kind _ _ => if h : kind.isSimple = true then .node kind h else .skip
  | .ifThen _ _ yes => .branch true yes.outline .skip
  | .ifElse _ _ yes no => .branch true yes.outline no.outline
  | .forLoop _ init _ _ post body => .yulLoop init.outline (.seq body.outline post.outline)

def Yul.outlines : List Yul → Outline (.code true)
  | [] => .skip
  | s :: rest => .seq s.outline (Yul.outlines rest)
end

mutual
def Stmt.outline : Stmt → Outline (.code false)
  | .fault _ => .skip
  | .block _ body => outlines body
  | .ifThen _ yes _ => .branch false yes.outline .skip
  | .ifElse _ yes no _ => .branch false yes.outline no.outline
  | .whileLoop _ _ body => .loop false body.outline
  | .forLoop _ init condition post body =>
    .forLoop condition.isSome (post.outline.size != 0) init.outline (.seq body.outline post.outline)
  | .doWhile _ _ body => .loop true body.outline
  | .tryCatch _ _ clauses => .tries (clauseOutlines clauses)
  | .clause _ body => body.outline
  | .single kind _ _ _ => if h : kind.isSimple = true then .node kind h else .skip
  | .declare _ _ => .node .declaration rfl
  | .assembly _ scope body _ => .seq (.within scope (.seq (.node .assembly rfl) body.outline)) (.node .endAssembly rfl)
  | .rawAssembly _ _ => .seq (.node .assembly rfl) (.node .endAssembly rfl)

def Stmt.outlines : List Stmt → Outline (.code false)
  | [] => .skip
  | s :: rest => .seq s.outline (outlines rest)

def Stmt.clauseOutlines : List Stmt → Outline .clauses
  | [] => .noClause
  | s :: rest => .clause s.outline (clauseOutlines rest)
end

/-! Statements as they are read: clauses stand behind a call that is tried and nowhere else, and statements of one node have
a kind of their own. -/

mutual
def Yul.isRegular : Yul → Bool
  | .fault _ | .declare _ _ => true
  | .block body => Yul.areRegular body
  | .single kind _ _ => kind.isSimple
  | .ifThen _ _ yes => yes.isRegular
  | .ifElse _ _ yes no => yes.isRegular && no.isRegular
  | .forLoop _ init _ _ post body => init.isRegular && post.isRegular && body.isRegular

def Yul.areRegular : List Yul → Bool
  | [] => true
  | s :: rest => s.isRegular && Yul.areRegular rest
end

mutual
def Stmt.isRegular (tried : Bool) : Stmt → Bool
  | .fault _ => true
  | .block _ body => !tried && areRegular false body
  | .ifThen _ yes _ => !tried && yes.isRegular false
  | .ifElse _ yes no _ => !tried && yes.isRegular false && no.isRegular false
  | .whileLoop _ _ body | .doWhile _ _ body => !tried && body.isRegular false
  | .forLoop _ init _ post body => !tried && init.isRegular false && post.isRegular false && body.isRegular false
  | .tryCatch _ _ clauses => !tried && areRegular true clauses
  | .clause _ body => tried && body.isRegular false
  | .single kind _ _ _ => !tried && kind.isSimple
  | .declare _ _ | .rawAssembly _ _ => !tried
  | .assembly _ _ body _ => !tried && body.isRegular

def Stmt.areRegular (tried : Bool) : List Stmt → Bool
  | [] => true
  | s :: rest => s.isRegular tried && areRegular tried rest
end

/-! ## What nodes lead to -/

/-- A loop of a body: where it starts and ends, its condition, and where its step ends. -/
structure Loop where
  start : Nat
  stop : Nat
  head : Option Nat
  step : Option Nat

/-- Where the next round starts. -/
def Loop.next (l : Loop) : Nat := l.step.getD (l.head.getD l.start)

/-- What follows code, or, at the end of a clause, what follows the call that is tried at `origin`. Such an end is left open
first. -/
inductive Exit where
  | flows (next : Option Nat)
  | joins (origin : Nat) (next : Option Nat)
  deriving DecidableEq

namespace Exit

/-- What code leads to once the calls among the first `k` nodes are joined with their clauses. -/
@[simp] def sons (k : Nat) : Exit → List Nat
  | flows next => next.toList
  | joins origin next => if origin < k then next.toList else []

def next? : Exit → Option Nat
  | flows next => next
  | joins _ _ => none

/-- The exit of code before other code, which starts with a node or has none. -/
@[simp] def before (e : Exit) : Option Nat → Exit
  | some n => flows (some n)
  | none => e

end Exit

/-- What a node leads to. Sons come in the other order if they are `crossed`. -/
inductive Lead where
  | goes (exit : Exit)
  | splits (yes no : Nat) (crossed : Bool)
  | tries (clauses : List Nat) (exit : Exit)
  deriving DecidableEq

@[simp] def Lead.sons (k : Nat) : Lead → List Nat
  | goes exit => exit.sons k
  | splits yes no crossed => if crossed then [no, yes] else [yes, no]
  | tries clauses exit => clauses ++ exit.sons k

/-- The loops around a node, the inner ones first, the call whose clause it belongs to, and its scope. -/
structure Standing where
  loops : List Loop := []
  clause : Option Nat := none
  scope : Option Nat := none

@[simp] def Standing.inLoop (p : Standing) (start stop : Nat) (head step : Option Nat) : Standing :=
  { p with loops := ⟨start, stop, head, step⟩ :: p.loops }

structure Mark extends Standing where
  kind : NodeKind
  lead : Lead

@[simp] def Standing.mark (p : Standing) (kind : NodeKind) (lead : Lead) : Mark := { p with kind, lead }

instance : Inhabited Mark := ⟨({} : Standing).mark default (.goes (.flows none))⟩

/-- The start of a loop with a condition leads to the condition, or to nodes that the condition led to before. -/
def Mark.Heralds (fathers : Nat → List Nat) (m : Mark) : Prop :=
  m.kind = .startLoop → m.scope = none → ∀ l ∈ m.loops.head?, ∀ c ∈ l.head, ∀ k, ∀ v ∈ m.lead.sons k,
    v = c ∨ (fathers v).head? = some c

theorem Mark.heralds_of_ne {m : Mark} (h : m.kind ≠ .startLoop) : m.Heralds F := fun hk => absurd hk h

/-! ## Ends of edges -/

/-- What is seen from `u` if all edges come from `a`. -/
def only (a u : Nat) (vs : List Nat) : List Nat := if a = u then vs else []

@[simp] theorem only_nil : only a u [] = [] := ite_self []

@[simp] theorem only_self {vs : List Nat} : only a a vs = vs := if_pos rfl

@[simp] theorem only_of_ne (h : a ≠ u) (vs : List Nat) : only a u vs = [] := if_neg h

/-- What edges lead to from a node, in order. -/
def targets (es : List (Nat × Nat)) (u : Nat) : List Nat := es.flatMap fun (a, b) => only a u [b]

/-- Where edges to a node come from, in order. -/
def sources (es : List (Nat × Nat)) (v : Nat) : List Nat := es.flatMap fun (a, b) => only b v [a]

section

variable (es es' : List (Nat × Nat)) (a b u v : Nat)

@[simp] theorem targets_nil : targets [] u = [] := rfl

@[simp] theorem targets_cons : targets ((a, b) :: es) u = only a u [b] ++ targets es u := rfl

@[simp] theorem targets_append : targets (es ++ es') u = targets es u ++ targets es' u := flatMap_append

@[simp] theorem sources_nil : sources [] v = [] := rfl

@[simp] theorem sources_cons : sources ((a, b) :: es) v = only b v [a] ++ sources es v := rfl

@[simp] theorem sources_append : sources (es ++ es') v = sources es v ++ sources es' v := flatMap_append

end

/-- A property of all elements of a list that are numbered from `n`. -/
def Along {α : Type} (P : Nat → α → Prop) : Nat → List α → Prop
  | _, [] => True
  | n, x :: xs => P n x ∧ Along P (n + 1) xs

@[simp] theorem along_nil : Along P n [] := trivial

@[simp] theorem along_cons : Along P n (x :: xs) ↔ P n x ∧ Along P (n + 1) xs := .rfl

@[simp] theorem along_append : Along P n (xs ++ ys) ↔ Along P n xs ∧ Along P (n + xs.length) ys := by
  induction xs generalizing n with
  | nil => simp
  | cons x xs ih => simp [ih, and_assoc, Nat.add_right_comm, Nat.add_assoc]

theorem Along.imp (h : Along P n xs) (hPQ : ∀ u x, n ≤ u → u < n + xs.length → P u x → Q u x) : Along Q n xs := by
  induction xs generalizing n with
  | nil => trivial
  | cons x xs ih =>
    rw [length_cons] at hPQ
    exact ⟨hPQ n x (Nat.le_refl n) (by omega) h.1, ih h.2 fun u y hu hlt hy => hPQ u y (by omega) (by omega) hy⟩

/-! ## Nodes and edges of an outline

An outline is laid out behind the node `a`, and its first node has the number `n`.
-/

namespace Outline

def first? (n : Nat) : Outline part → Option Nat
  | skip | noClause | clause _ _ => none
  | seq s t => (s.first? n).or (t.first? (n + s.size))
  | forLoop _ _ init _ => some ((init.first? (n + 2)).getD n)
  | within _ body => body.first? n
  | node _ _ | branch _ _ _ | loop _ _ | yulLoop _ _ | tries _ => some n

def catches (n : Nat) : Outline part → List Nat
  | clause body rest => n :: rest.catches (n + 1 + body.size)
  | _ => []

def last (a n : Nat) : Outline part → Nat
  | skip | noClause | clause _ _ => a
  | seq s t => t.last (s.last a n) (n + s.size)
  | node _ _ | tries _ => n
  | branch false yes no => n + 1 + yes.size + no.size
  | branch true _ _ | forLoop _ _ _ _ | yulLoop _ _ => n + 1
  | loop _ body => n + 2 + body.size
  | within _ body => body.last a n

/-- The edges in the order in which they are added. -/
def edges (a n : Nat) : Outline part → List (Nat × Nat)
  | skip | noClause => []
  | seq s t => s.edges a n ++ t.edges (s.last a n) (n + s.size)
  | node _ _ => [(a, n)]
  | branch false yes no =>
    let stop := n + 1 + yes.size + no.size
    (a, n) :: (yes.edges n (n + 1) ++ (no.edges n (n + 1 + yes.size) ++
      [(yes.last n (n + 1), stop), (no.last n (n + 1 + yes.size), stop)]))
  | branch true yes no =>
    yes.edges n (n + 2) ++ (no.edges n (n + 2 + yes.size) ++
      [(no.last n (n + 2 + yes.size), n + 1), (a, n), (yes.last n (n + 2), n + 1)])
  | loop late body =>
    let c := n + 1
    let target := if late then (body.first? (n + 2)).getD c else c
    body.edges c (n + 2) ++ [(a, n), (n, target), (body.last c (n + 2), c), (c, n + 2 + body.size)]
  | forLoop true _ init round =>
    let c := n + 2 + init.size
    init.edges a (n + 2) ++ ((init.last a (n + 2), n) :: (n, c) :: (round.edges c (c + 1) ++
      [(round.last c (c + 1), c), (c, n + 1)]))
  | forLoop false _ init round =>
    let m := n + 2 + init.size
    init.edges a (n + 2) ++ ((init.last a (n + 2), n) :: (round.edges n m ++ [(round.last n m, n), (n, n + 1)]))
  | yulLoop init round =>
    let c := n + 2 + init.size
    (a, n) :: (init.edges n (n + 2) ++ ((init.last n (n + 2), c) :: (c, n + 1) :: (round.edges c (c + 1) ++
      [(round.last c (c + 1), c)])))
  | within _ body => body.edges a n
  | tries clauses => (a, n) :: clauses.edges n (n + 1)
  | clause body rest => (a, n) :: (body.edges n (n + 1) ++ rest.edges a (n + 1 + body.size))

/-- Where each node stands and what it leads to. For clauses, `e` is the exit of the call that is tried. -/
def marks (p : Standing) (a n : Nat) (e : Exit) : Outline part → List Mark
  | skip | noClause => []
  | seq s t => s.marks p a n (e.before (t.first? (n + s.size))) ++ t.marks p (s.last a n) (n + s.size) e
  | node kind _ => [p.mark kind (.goes e)]
  | branch false yes no =>
    let m := n + 1 + yes.size
    let stop := m + no.size
    p.mark .branch (.splits ((yes.first? (n + 1)).getD stop) ((no.first? m).getD stop)
        ((yes.first? (n + 1)).isNone && (no.first? m).isSome)) ::
      (yes.marks p n (n + 1) (.flows stop) ++ (no.marks p n m (.flows stop) ++ [p.mark .endIf (.goes e)]))
  | branch true yes no =>
    let m := n + 2 + yes.size
    p.mark .branch (.splits ((yes.first? (n + 2)).getD (n + 1)) ((no.first? m).getD (n + 1))
        ((yes.first? (n + 2)).isNone && (no.first? m).isSome)) ::
      p.mark .endIf (.goes e) ::
      (yes.marks p n (n + 2) (.flows (n + 1 : Nat)) ++ no.marks p n m (.flows (n + 1 : Nat)))
  | loop late body =>
    let c := n + 1
    let stop := n + 2 + body.size
    let first := (body.first? (n + 2)).getD c
    let q := p.inLoop n stop (some c) none
    q.mark .startLoop (.goes (.flows (if late then first else c : Nat))) :: q.mark .loopBranch (.splits first stop false) ::
      (body.marks q c (n + 2) (.flows c) ++ [q.mark .endLoop (.goes e)])
  | forLoop true stepped init round =>
    let c := n + 2 + init.size
    let q := p.inLoop n (n + 1) (some c) (if stepped then some (round.last c (c + 1)) else none)
    q.mark .startLoop (.goes (.flows c)) :: q.mark .endLoop (.goes e) ::
      (init.marks p a (n + 2) (.flows n) ++
        (q.mark .loopBranch (.splits ((round.first? (c + 1)).getD c) (n + 1) false) ::
          round.marks q c (c + 1) (.flows c)))
  | forLoop false stepped init round =>
    let m := n + 2 + init.size
    let q := p.inLoop n (n + 1) none (if stepped then some (round.last n m) else none)
    q.mark .startLoop (.splits ((round.first? m).getD n) (n + 1) false) :: q.mark .endLoop (.goes e) ::
      (init.marks p a (n + 2) (.flows n) ++ round.marks q n m (.flows n))
  | yulLoop init round =>
    let c := n + 2 + init.size
    let q := p.inLoop n (n + 1) (some c) none
    q.mark .startLoop (.goes (.flows ((init.first? (n + 2)).getD c : Nat))) :: q.mark .endLoop (.goes e) ::
      (init.marks q n (n + 2) (.flows c) ++
        (q.mark .loopBranch (.splits ((round.first? (c + 1)).getD c) (n + 1) true) ::
          round.marks q c (c + 1) (.flows c)))
  | within scope body => body.marks { p with scope := some scope } a n e
  | tries clauses => p.mark .tries (.tries (clauses.catches (n + 1)) e) :: clauses.marks p n (n + 1) e
  | clause body rest =>
    let q := { p with clause := some a }
    let joined := Exit.joins a e.next?
    q.mark .catches (.goes (joined.before (body.first? (n + 1)))) ::
      (body.marks q n (n + 1) joined ++ rest.marks p a (n + 1 + body.size) e)

/-- The graph of a body that has this outline. -/
def layout (o : Outline (.code false)) : List Mark :=
  ({} : Standing).mark .entryPoint (.goes (.flows (o.first? 1))) :: o.marks {} 0 1 (.flows none)

/-! ## Numbers of nodes -/

@[simp] theorem length_marks (o : Outline part) (p : Standing) (a n : Nat) (e : Exit) :
    (o.marks p a n e).length = o.size := by
  fun_induction marks p a n e o <;> simp_all +zetaDelta [size] <;> omega

theorem first?_eq_none_iff : (o : Outline (.code y)) → (n : Nat) → (o.first? n = none ↔ o.size = 0)
  | skip, _ | node _ _, _ | branch _ _ _, _ | loop _ _, _ | yulLoop _ _, _ | tries _, _ | forLoop true _ _ _, _
  | forLoop false _ _ _, _ => by simp [first?, size]
  | seq s t, n => by simp [first?, size, first?_eq_none_iff s n, first?_eq_none_iff t (n + s.size)]
  | within _ body, n => first?_eq_none_iff body n

theorem last_cases : (o : Outline (.code y)) → (a n : Nat) →
    o.size = 0 ∧ o.last a n = a ∨ o.size ≠ 0 ∧ n ≤ o.last a n ∧ o.last a n < n + o.size
  | skip, _, _ => .inl ⟨rfl, rfl⟩
  | seq s t, a, n => by
    have hs := last_cases s a n
    have ht := last_cases t (s.last a n) (n + s.size)
    simp only [size, last]
    omega
  | within _ body, a, n => last_cases body a n
  | node _ _, _, _ | branch false _ _, _, _ | branch true _ _, _, _ | loop _ _, _, _ | yulLoop _ _, _, _ | tries _, _, _
  | forLoop true _ _ _, _, _ | forLoop false _ _ _, _, _ => by
    simp only [size, last]
    omega

theorem getD_first?_cases : (o : Outline (.code y)) → (n d : Nat) →
    (o.first? n).getD d = d ∨ n ≤ (o.first? n).getD d ∧ (o.first? n).getD d < n + o.size
  | skip, _, _ => .inl rfl
  | seq s t, n, d => by
    have hs := getD_first?_cases s n d
    have ht := getD_first?_cases t (n + s.size) d
    simp only [first?, size]
    cases hfirst : s.first? n <;> simp_all <;> omega
  | forLoop true _ init _, n, d | forLoop false _ init _, n, d => by
    have hi := getD_first?_cases init (n + 2) n
    simp only [first?, size, Option.getD_some]
    omega
  | within _ body, n, d => getD_first?_cases body n d
  | node _ _, _, _ | branch _ _ _, _, _ | loop _ _, _, _ | yulLoop _ _, _, _ | tries _, _, _ => by
    simp only [first?, size, Option.getD_some]
    omega

variable (o : Outline (.code y))

@[simp] theorem only_last (ha : u ≠ a) (hu : u < n ∨ n + o.size ≤ u) (vs : List Nat) : only (o.last a n) u vs = [] := by
  have := last_cases o a n
  exact only_of_ne (by omega) vs

@[simp] theorem targets_outside (o : Outline part) (ha : u ≠ a) (hu : u < n ∨ n + o.size ≤ u) :
    targets (o.edges a n) u = [] := by
  induction o generalizing a n with
  | seq s t ihs iht =>
    have := last_cases s a n
    rw [size] at hu
    simp (disch := omega) [edges, ihs, iht]
  | branch early _ _ ih₁ ih₂ =>
    rw [size] at hu
    cases early <;> simp (disch := omega) [edges, ih₁, ih₂]
  | forLoop tested _ _ _ ih₁ ih₂ =>
    cases tested <;> rw [size] at hu <;> simp (disch := omega) [edges, ih₁, ih₂]
  | yulLoop _ _ ih₁ ih₂ | clause _ _ ih₁ ih₂ =>
    rw [size] at hu
    simp (disch := omega) [edges, ih₁, ih₂]
  | loop _ _ ih | tries _ ih | within _ _ ih =>
    rw [size] at hu
    simp (disch := omega) [edges, ih]
  | node _ _ => simp (disch := omega) only [edges, targets_cons, targets_nil, only_of_ne, append_nil]
  | _ => rfl

@[simp] theorem catches_code : o.catches n = [] := by
  cases o <;> rfl

@[simp] theorem first?_clauses {o : Outline .clauses} : o.first? n = none := by
  cases o <;> rfl

@[simp] theorem last_clauses {o : Outline .clauses} : o.last a n = a := by
  cases o <;> rfl

theorem only_last_self (vs : List Nat) (ha : a < n) : only (o.last a n) a vs = if o.first? n = none then vs else [] := by
  have hlast := last_cases o a n
  simp only [first?_eq_none_iff]
  split
  · exact if_pos (by omega)
  · exact only_of_ne (by omega) vs

theorem targets_before (o : Outline part) (ha : a < n) : targets (o.edges a n) a = (o.first? n).toList ++ o.catches n := by
  induction o generalizing a n with
  | seq s t ihs iht =>
    have hlast := last_cases s a n
    have hfirst := first?_eq_none_iff s n
    cases hs : s.first? n with
    | none =>
      have hsize : s.size = 0 := hfirst.1 hs
      have hat : s.last a n = a := by omega
      simp [edges, first?, ihs ha, iht ha, hs, hsize, hat]
    | some x =>
      have ht : targets (t.edges (s.last a n) (n + s.size)) a = [] :=
        targets_outside t (by simp_all; omega) (by omega)
      simp [edges, first?, ihs ha, hs, ht]
  | branch early yes no =>
    cases early <;> simp (disch := omega) [edges, first?]
  | forLoop tested stepped init round ih =>
    have hinit := ih (by omega : a < n + 2)
    have hlast := fun vs => only_last_self init vs (by omega : a < n + 2)
    cases tested <;> cases hi : init.first? (n + 2) <;> simp (disch := omega) [edges, first?, hinit, hlast, hi]
  | clause body rest _ ih => simp (disch := omega) [edges, catches, ih]
  | within scope body ih => simp [edges, first?, ih ha]
  | _ => simp (disch := omega) [edges, first?, catches]

/-- Code is seen from the nodes before it as what it starts with, or as its exit if it has no nodes. -/
theorem targets_follow (k : Nat) (e : Exit) (ha : a < n) (hu : u < n) :
    targets (o.edges a n) u ++ only (o.last a n) u (e.sons k) = only a u ((e.before (o.first? n)).sons k) := by
  by_cases h : a = u
  · subst h
    rw [targets_before o ha, only_last_self o _ ha]
    cases o.first? n <;> simp
  · rw [targets_outside o (Ne.symm h) (.inl hu), only_last o (Ne.symm h) (.inl hu), only_of_ne h]
    rfl

@[simp] theorem targets_self (x : Nat) (ha : a < n) :
    targets (o.edges a n) a ++ only (o.last a n) a [x] = [(o.first? n).getD x] := by
  have h := targets_follow o 0 (.flows (some x)) ha ha
  cases hfirst : o.first? n <;> simpa [hfirst] using h

@[simp] theorem targets_self_append (x : Nat) (ha : a < n) (vs : List Nat) :
    targets (o.edges a n) a ++ (only (o.last a n) a [x] ++ vs) = (o.first? n).getD x :: vs := by
  rw [← append_assoc, targets_self o x ha]
  rfl

/-! ## Sons -/

/-- The marks tell of each node what it is linked to; the node where code ends still lacks what follows. -/
theorem sons_marks {T : Nat → List Nat} (o : Outline part) (p : Standing) (e : Exit) (ha : a < n)
    (hT : ∀ u, n ≤ u → u < n + o.size → T u = targets (o.edges a n) u ++ only (o.last a n) u (e.sons 0)) :
    Along (fun u m => T u = m.lead.sons 0) n (o.marks p a n e) := by
  induction o generalizing p a n e with
  | skip | noClause => exact trivial
  | within scope body ih => exact ih _ e ha hT
  | node kind simple =>
    rw [size] at hT
    refine ⟨?_, trivial⟩
    simp (disch := omega) [hT, edges, last]
  | seq s t ihs iht =>
    have := last_cases s a n
    simp only [marks, edges, last, size, along_append, length_marks, targets_append] at hT ⊢
    refine ⟨ihs p _ ha fun u hle hlt => ?_, iht p e (by omega) fun u hle hlt => ?_⟩ <;> rw [hT u (by omega) (by omega)]
    · rw [append_assoc, targets_follow t 0 e (by omega) hlt]
    · rw [targets_outside s (by omega) (.inr hle), nil_append]
  | branch early yes no ihy ihn =>
    cases early <;> simp only [marks, edges, last, size, along_append, along_cons, length_marks] at hT ⊢
    · refine ⟨?_, ihy p (.flows _) (by omega) fun u hle hlt => ?_, ihn p (.flows _) (by omega) fun u hle hlt => ?_, ?_, trivial⟩ <;>
        rw [hT _ (by omega) (by omega)] <;> simp (disch := omega) [targets_before, only_last_self]
      cases yes.first? (n + 1) <;> cases no.first? (n + 1 + yes.size) <;> simp
    · refine ⟨?_, ?_, ihy p (.flows _) (by omega) fun u hle hlt => ?_, ihn p (.flows _) (by omega) fun u hle hlt => ?_⟩ <;>
        rw [hT _ (by omega) (by omega)] <;> simp (disch := omega) [targets_before, only_last_self]
      cases yes.first? (n + 2) <;> cases no.first? (n + 2 + yes.size) <;> simp
  | loop late body ih =>
    simp only [marks, edges, last, size, along_append, along_cons, length_marks] at hT ⊢
    refine ⟨?_, ?_, ih _ (.flows _) (by omega) fun u hle hlt => ?_, ?_, trivial⟩ <;>
      rw [hT _ (by omega) (by omega)] <;> simp (disch := omega)
  | forLoop tested stepped init round ihi ihr =>
    cases tested <;> simp only [marks, edges, last, size, along_append, along_cons, length_marks] at hT ⊢
    · refine ⟨?_, ?_, ihi p (.flows _) (by omega) fun u hle hlt => ?_, ihr _ (.flows _) (by omega) fun u hle hlt => ?_⟩ <;>
        rw [hT _ (by omega) (by omega)] <;> simp (disch := omega)
    · refine ⟨?_, ?_, ihi p (.flows _) (by omega) fun u hle hlt => ?_, ?_, ihr _ (.flows _) (by omega) fun u hle hlt => ?_⟩ <;>
        rw [hT _ (by omega) (by omega)] <;> simp (disch := omega)
  | yulLoop init round ihi ihr =>
    simp only [marks, edges, last, size, along_append, along_cons, length_marks] at hT ⊢
    refine ⟨?_, ?_, ihi _ (.flows _) (by omega) fun u hle hlt => ?_, ?_, ihr _ (.flows _) (by omega) fun u hle hlt => ?_⟩ <;>
      rw [hT _ (by omega) (by omega)] <;> simp (disch := omega)
  | tries clauses ih =>
    have hclauses := targets_before clauses (Nat.lt_succ_self n)
    simp only [marks, edges, last, size, along_cons] at hT ⊢
    refine ⟨?_, ih p e (by omega) fun u hle hlt => ?_⟩ <;> rw [hT _ (by omega) (by omega)] <;> simp (disch := omega) [hclauses]
  | clause body rest ihb ihr =>
    have hbody := targets_follow body 0 (.joins a e.next?) (Nat.lt_succ_self n) (Nat.lt_succ_self n)
    simp only [marks, edges, size, along_append, along_cons, length_marks] at hT ⊢
    refine ⟨?_, ihb _ (.joins a e.next?) (by omega) fun u hle hlt => ?_, ihr p e (by omega) fun u hle hlt => ?_⟩ <;>
      rw [hT _ (by omega) (by omega)]
    · simpa (disch := omega) using hbody
    all_goals simp (disch := omega)

/-! ## Fathers -/

@[simp] theorem sources_outside {o : Outline part} (hv : v < n ∨ n + o.size ≤ v) : sources (o.edges a n) v = [] := by
  induction o generalizing a n with
  | skip | noClause => rfl
  | loop late body ih =>
    have := getD_first?_cases body (n + 2) (n + 1)
    rw [size] at hv
    cases late <;> simp (disch := omega) [edges, ih]
  | branch early _ _ ih₁ ih₂ => cases early <;> rw [size] at hv <;> simp (disch := omega) [edges, ih₁, ih₂]
  | forLoop tested _ _ _ ih₁ ih₂ => cases tested <;> rw [size] at hv <;> simp (disch := omega) [edges, ih₁, ih₂]
  | _ => rw [size] at hv; simp (disch := omega) [edges, *]

theorem bounds_of_head {o : Outline part} (h : (sources (o.edges a n) v).head? = some x) :
    n ≤ v ∧ v < n + o.size := by
  by_cases hv : v < n ∨ n + o.size ≤ v
  · simp [sources_outside hv] at h
  · omega

theorem head_sources (o : Outline part) (h : o.first? n = some x) : (sources (o.edges a n) x).head? = some a := by
  induction o generalizing a n with
  | seq s t ihs iht =>
    have hlast := last_cases s a n
    simp only [edges, sources_append, head?_append]
    rcases Option.or_eq_some_iff.1 h with hs | ⟨hs, ht⟩
    · rw [ihs hs, Option.some_or]
    · rw [first?_eq_none_iff] at hs
      have hat : s.last a n = a := by omega
      rw [sources_outside (by omega), hat, iht ht]
      rfl
  | forLoop tested stepped init round ih =>
    have hlast := last_cases init a (n + 2)
    have hfirst := first?_eq_none_iff init (n + 2)
    rw [first?] at h
    cases hi : init.first? (n + 2) with
    | none =>
      have hat : init.last a (n + 2) = a := by simp_all
      obtain rfl : n = x := by simpa [hi] using h
      cases tested <;> simp (disch := omega) [edges, hat]
    | some y =>
      obtain rfl : y = x := by simpa [hi] using h
      cases tested <;> simp [edges, ih hi]
  | within scope body ih => exact ih h
  | branch early yes no =>
    obtain rfl := Option.some.inj h
    cases early <;> simp (disch := omega) [edges]
  | skip | noClause | clause _ _ => cases h
  | _ =>
    obtain rfl := Option.some.inj h
    simp (disch := omega) [edges]

theorem heralds_marks (o : Outline part) (p : Standing) (e : Exit)
    (hF : ∀ v x, (sources (o.edges a n) v).head? = some x → (F v).head? = some x) (hp : part = .code true → p.scope ≠ none) :
    Along (fun _ m => m.Heralds F) n (o.marks p a n e) := by
  induction o generalizing p a n e with
  | skip | noClause => exact trivial
  | within scope body ih => exact ih _ e hF fun _ => nofun
  | node kind simple => exact ⟨Mark.heralds_of_ne (NodeKind.ne_of_isSimple simple).1, trivial⟩
  | seq s t ihs iht =>
    simp only [marks, along_append, length_marks]
    refine ⟨ihs p _ (fun v x hv => hF v x ?_) hp, iht p e (fun v x hv => hF v x ?_) hp⟩ <;>
      have := bounds_of_head hv <;> simp (disch := omega) [edges, hv]
  | branch early yes no ihy ihn =>
    cases early <;> simp only [marks, along_append, along_cons, length_marks]
    · refine ⟨Mark.heralds_of_ne nofun, ihy p _ (fun v x hv => hF v x ?_) hp, ihn p _ (fun v x hv => hF v x ?_) hp,
        Mark.heralds_of_ne nofun, trivial⟩ <;> have := bounds_of_head hv <;> simp (disch := omega) [edges, hv]
    · refine ⟨Mark.heralds_of_ne nofun, Mark.heralds_of_ne nofun, ihy p _ (fun v x hv => hF v x ?_) hp,
        ihn p _ (fun v x hv => hF v x ?_) hp⟩ <;> have := bounds_of_head hv <;> simp (disch := omega) [edges, hv]
  | loop late body ih =>
    simp only [marks, along_append, along_cons]
    have hbody : ∀ v x, (sources (body.edges (n + 1) (n + 2)) v).head? = some x → (F v).head? = some x :=
      fun v x hv => hF v x (by simp [edges, hv])
    refine ⟨?_, Mark.heralds_of_ne nofun, ih _ _ hbody nofun, Mark.heralds_of_ne nofun, trivial⟩
    intro _ _ l hl c hc k v hv
    obtain rfl := Option.some.inj hl
    obtain rfl := Option.some.inj hc
    obtain rfl := mem_singleton.1 hv
    cases late with
    | false => exact .inl rfl
    | true =>
      cases hfirst : body.first? (n + 2) with
      | none => exact .inl (by simp)
      | some x => exact .inr (hbody _ _ (by simpa using head_sources body hfirst))
  | forLoop tested stepped init round ihi ihr =>
    cases tested <;> simp only [marks, along_append, along_cons, length_marks]
    · refine ⟨?_, Mark.heralds_of_ne nofun, ihi p _ (fun v x hv => hF v x ?_) nofun, ihr _ _ (fun v x hv => hF v x ?_) nofun⟩
      · intro _ _ l hl c hc
        obtain rfl := Option.some.inj hl
        cases hc
      all_goals
        have := bounds_of_head hv
        simp (disch := omega) [edges, hv]
    · refine ⟨?_, Mark.heralds_of_ne nofun, ihi p _ (fun v x hv => hF v x ?_) nofun, Mark.heralds_of_ne nofun,
        ihr _ _ (fun v x hv => hF v x ?_) nofun⟩
      · intro _ _ l hl c hc k v hv
        obtain rfl := Option.some.inj hl
        exact .inl ((mem_singleton.1 hv).trans (Option.some.inj hc))
      all_goals
        have := bounds_of_head hv
        simp (disch := omega) [edges, hv]
  | yulLoop init round ihi ihr =>
    simp only [marks, along_append, along_cons, length_marks]
    refine ⟨fun _ hs => absurd hs (hp rfl), Mark.heralds_of_ne nofun, ihi (p.inLoop _ _ _ _) _ (fun v x hv => hF v x ?_) hp,
      Mark.heralds_of_ne nofun, ihr (p.inLoop _ _ _ _) _ (fun v x hv => hF v x ?_) hp⟩ <;>
      have := bounds_of_head hv <;> simp (disch := omega) [edges, hv]
  | tries clauses ih =>
    refine ⟨Mark.heralds_of_ne nofun, ih p e (fun v x hv => hF v x ?_) nofun⟩
    have := bounds_of_head hv
    simp (disch := omega) [edges, hv]
  | clause body rest ihb ihr =>
    simp only [marks, along_append, along_cons, length_marks]
    refine ⟨Mark.heralds_of_ne nofun, ihb _ _ (fun v x hv => hF v x ?_) nofun, ihr p e (fun v x hv => hF v x ?_) nofun⟩ <;>
      have := bounds_of_head hv <;> simp (disch := omega) [edges, hv]

end Outline

end ContractAudit
