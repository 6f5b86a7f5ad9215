import ContractAudit.Proofs.Conditionals
import ContractAudit.Proofs.Statements
import Mathlib.Algebra.Ring.Nat

/-! # Conditional expressions

What splitting does is said once, as rules that a property of splits has to obey. That the two forms mean what the expression
means, that they have fewer conditionals, and that none is overlooked follow by these rules.
-/

open List

namespace ContractAudit.Expr

namespace Split

variable (met : List Expr) (a : α) (b : Bool) (s : Split α)

@[simp] theorem met_same : (same met a).met = met := rfl
@[simp] theorem met_map (f : α → β) : (s.map f).met = s.met := rfl
@[simp] theorem met_app (f : Split (α → β)) : (f.app s).met = s.met := rfl
@[simp] theorem pick_mk {x y : α} : (mk met x y).pick b = if b then x else y := rfl
@[simp] theorem pick_same : (same met a).pick b = a := by cases b <;> rfl
@[simp] theorem pick_map (f : α → β) : (s.map f).pick b = f (s.pick b) := by cases b <;> rfl
@[simp] theorem pick_app (f : Split (α → β)) : (f.app s).pick b = f.pick b (s.pick b) := by cases b <;> rfl

end Split

/-! ## Rules of splitting -/

/-- Rules for a property of a part and its split, given the conditions that were met before, and for one of a list. -/
structure SplitRules (P : List Expr → Expr → Split Expr → Prop) (Q : List Expr → List Expr → Split (List Expr) → Prop) :
    Prop where
  same : ∀ met e, met ≠ [] ∨ e.hasConditional = false → P met e (.same met e)
  choice : ∀ met i c t f, P met (conditional i c t f) ⟨met ++ [c], t, f⟩
  bare : ∀ met i j c t f, P met (tuple i [conditional j c t f]) ⟨met ++ [c], t, f⟩
  assign : ∀ i op l r ty a b, P [] l a → P a.met r b →
    P [] (assign i op l r ty) ((a.map fun x y => assign i op x y ty).app b)
  binary : ∀ i op l r a b, P [] l a → P a.met r b → P [] (binary i op l r) ((a.map (binary i op)).app b)
  index : ∀ i l r a b, P [] l a → P a.met r b → P [] (index i l r) ((a.map (index i)).app b)
  tuple : ∀ i es a, Q [] es a → P [] (tuple i es) (a.map (tuple i))
  call : ∀ i f args n ty g v s u f' g' v' as, P [] f f' → P f'.met g g' → P g'.met v v' → Q v'.met args as →
    P [] (call i f args n ty g v s u) ((((f'.map fun f g v as => call i f as n ty g v s u).app g').app v').app as)
  conversion : ∀ i e t a, P [] e a → P [] (conversion i e t) (a.map (conversion i · t))
  unary : ∀ i op e a, P [] e a → P [] (unary i op e) (a.map (unary i op))
  member : ∀ i e n t a, P [] e a → P [] (member i e n t) (a.map (member i · n t))
  sameAll : ∀ met es, met ≠ [] ∨ es = [] → Q met es (.same met es)
  cons : ∀ met e es a as, P met e a → Q a.met es as → Q met (e :: es) ((a.map cons).app as)

theorem met_ne_nil_of_isConditional (he : e.isConditional = true) (met : List Expr) :
    (splitPart met e).met ≠ [] := by
  unfold isConditional at he
  split at he <;> simp_all [splitPart]

namespace SplitRules

mutual
theorem part (h : SplitRules P Q) (met : List Expr) (e : Expr) : P met e (splitPart met e) := by
  by_cases hmet : met = []
  · subst hmet
    cases e with
    | conditional i c t f => exact h.choice [] i c t f
    | assign i op l r ty => exact h.assign i op l r ty _ _ (part h _ l) (part h _ r)
    | binary i op l r => exact h.binary i op l r _ _ (part h _ l) (part h _ r)
    | index i l r => exact h.index i l r _ _ (part h _ l) (part h _ r)
    | conversion i e t => exact h.conversion i e t _ (part h _ e)
    | unary i op e => exact h.unary i op e _ (part h _ e)
    | member i e n t => exact h.member i e n t _ (part h _ e)
    | tuple i es =>
      by_cases hbare : ∃ j c t f, es = [conditional j c t f]
      · obtain ⟨j, c, t, f, rfl⟩ := hbare
        exact h.bare [] i j c t f
      · rw [splitPart]
        · exact h.tuple i es _ (parts h _ es)
        · exact fun j c t f heq => hbare ⟨j, c, t, f, heq⟩
    | call i f args n ty g v s u =>
      have hcall := fun v' as => h.call i f args n ty g v s u _ _ v' as (part h _ f) (part h _ g)
      simp only [splitPart, isEmpty_nil, Bool.not_true, Bool.false_eq_true, if_false, Bool.or_eq_true]
      by_cases hg : g.isConditional = true
      · have hmet := met_ne_nil_of_isConditional hg (splitPart [] f).met
        simp only [hg, true_or, if_true]
        exact hcall _ _ (h.same _ v (.inl hmet)) (h.sameAll _ args (.inl hmet))
      by_cases hv : v.isConditional = true
      · simp only [hg, hv, or_true, if_true]
        exact hcall _ _ (part h _ v) (h.sameAll _ args (.inl (met_ne_nil_of_isConditional hv _)))
      · simp only [hg, hv, or_self]
        exact hcall _ _ (part h _ v) (parts h _ args)
    | _ => exact h.same [] _ (.inr rfl)
  · have hne : met.isEmpty = false := by simpa using hmet
    by_cases hcond : e.isConditional = true
    · unfold isConditional at hcond
      split at hcond
      · exact h.choice ..
      · exact h.bare ..
      · cases hcond
    · have heq : splitPart met e = .same met e := by
        rw [splitPart.eq_def]
        split <;> simp_all [isConditional]
      exact heq ▸ h.same met e (.inl hmet)

theorem parts (h : SplitRules P Q) (met : List Expr) (es : List Expr) : Q met es (splitParts met es) := by
  cases es with
  | nil => exact h.sameAll met [] (.inr rfl)
  | cons e es => exact h.cons met e es _ _ (part h met e) (parts h _ es)
end

end SplitRules

/-! ## Meaning -/

mutual
/-- The expression without conditionals, when the conditions have the given truth values. -/
def resolve (holds : Expr → Bool) : Expr → Expr
  | conditional _ c t f => if holds c then resolve holds t else resolve holds f
  | assign i op l r ty => assign i op (resolve holds l) (resolve holds r) ty
  | binary i op l r => binary i op (resolve holds l) (resolve holds r)
  | index i l r => index i (resolve holds l) (resolve holds r)
  | call i f args n ty g v s u =>
    call i (resolve holds f) (resolveAll holds args) n ty (resolve holds g) (resolve holds v) (resolve holds s) u
  | tuple i es => tuple i (resolveAll holds es)
  | conversion i e t => conversion i (resolve holds e) t
  | unary i op e => unary i op (resolve holds e)
  | member i e n t => member i (resolve holds e) n t
  | e => e

def resolveAll (holds : Expr → Bool) : List Expr → List Expr
  | [] => []
  | e :: es => resolve holds e :: resolveAll holds es
end

/-- `x` is `e` with its conditionals resolved. Parentheses around a conditional may be left out. -/
inductive Resolves (holds : Expr → Bool) : Expr → Expr → Prop
  | same {e} (h : e.hasConditional = false) : Resolves holds e e
  | choice {i c t f x} (h : Resolves holds (if holds c then t else f) x) : Resolves holds (conditional i c t f) x
  | bare {i j c t f x} (h : Resolves holds (conditional j c t f) x) : Resolves holds (tuple i [conditional j c t f]) x
  | assign {i op l r ty x y} (hl : Resolves holds l x) (hr : Resolves holds r y) :
    Resolves holds (assign i op l r ty) (assign i op x y ty)
  | binary {i op l r x y} (hl : Resolves holds l x) (hr : Resolves holds r y) :
    Resolves holds (binary i op l r) (binary i op x y)
  | index {i l r x y} (hl : Resolves holds l x) (hr : Resolves holds r y) : Resolves holds (index i l r) (index i x y)
  | call {i f args n ty g v s u f' as g' v' s'} (hf : Resolves holds f f') (hargs : Forall₂ (Resolves holds) args as)
    (hg : Resolves holds g g') (hv : Resolves holds v v') (hs : Resolves holds s s') :
    Resolves holds (call i f args n ty g v s u) (call i f' as n ty g' v' s' u)
  | tuple {i es xs} (h : Forall₂ (Resolves holds) es xs) : Resolves holds (tuple i es) (tuple i xs)
  | conversion {i e t x} (h : Resolves holds e x) : Resolves holds (conversion i e t) (conversion i x t)
  | unary {i op e x} (h : Resolves holds e x) : Resolves holds (unary i op e) (unary i op x)
  | member {i e n t x} (h : Resolves holds e x) : Resolves holds (member i e n t) (member i x n t)

mutual
theorem resolves_resolve : Resolves holds e (resolve holds e) := by
  cases e with
  | conditional i c t f =>
    refine .choice ?_
    rw [resolve]
    split
    · exact resolves_resolve
    · exact resolves_resolve
  | assign i op l r ty => exact .assign resolves_resolve resolves_resolve
  | binary i op l r => exact .binary resolves_resolve resolves_resolve
  | index i l r => exact .index resolves_resolve resolves_resolve
  | call i f args n ty g v s u =>
    exact .call resolves_resolve resolves_resolveAll resolves_resolve
      resolves_resolve resolves_resolve
  | tuple i es => exact .tuple resolves_resolveAll
  | conversion i e t => exact .conversion resolves_resolve
  | unary i op e => exact .unary resolves_resolve
  | member i e n t => exact .member resolves_resolve
  | _ => exact .same rfl

theorem resolves_resolveAll :
    Forall₂ (Resolves holds) es (resolveAll holds es) := by
  cases es with
  | nil => exact .nil
  | cons e es => exact .cons resolves_resolve resolves_resolveAll
end

/-- All conditions that were met have one truth value. -/
def Split.Agrees {α : Type} (holds : Expr → Bool) (b : Bool) (s : Split α) : Prop := ∀ d ∈ s.met, holds d = b

theorem Split.Agrees.mono {s : Split α} {t : Split β} (h : t.Agrees holds b)
    (hsub : s.met ⊆ t.met) : s.Agrees holds b := fun d hd => h d (hsub hd)

theorem resolves_choice (hc : holds c = b) :
    Resolves holds (conditional i c t f) (resolve holds (if b then t else f)) := by
  refine .choice ?_
  rw [hc]
  exact resolves_resolve

/-- If the conditions agree, the form for their truth value resolves to what the expression resolves to. -/
theorem splitRules_resolves (holds : Expr → Bool) :
    SplitRules (fun met e s => met ⊆ s.met ∧ (s.Agrees holds b → Resolves holds e (resolve holds (s.pick b))))
      (fun met es s => met ⊆ s.met ∧ (s.Agrees holds b → Forall₂ (Resolves holds) es (resolveAll holds (s.pick b)))) where
  same met e _ := ⟨Subset.refl _, fun _ => by simpa using @resolves_resolve holds e⟩
  choice met i c t f := ⟨subset_append_left .., fun h => resolves_choice (h c (by simp))⟩
  bare met i j c t f := ⟨subset_append_left .., fun h => .bare (resolves_choice (h c (by simp)))⟩
  assign i op l r ty a b hl hr := ⟨nil_subset _, fun h => by simpa using .assign (hl.2 (h.mono hr.1)) (hr.2 h)⟩
  binary i op l r a b hl hr := ⟨nil_subset _, fun h => by simpa using .binary (hl.2 (h.mono hr.1)) (hr.2 h)⟩
  index i l r a b hl hr := ⟨nil_subset _, fun h => by simpa using .index (hl.2 (h.mono hr.1)) (hr.2 h)⟩
  tuple i es a hes := ⟨nil_subset _, fun h => by simpa using .tuple (hes.2 h)⟩
  call i f args n ty g v s u f' g' v' as hf hg hv hargs := by
    refine ⟨nil_subset _, fun h => ?_⟩
    have hv' := h.mono hargs.1
    have hg' := hv'.mono hv.1
    simpa using .call (hf.2 (hg'.mono hg.1)) (hargs.2 h) (hg.2 hg') (hv.2 hv') resolves_resolve
  conversion i e t a he := ⟨nil_subset _, fun h => by simpa using .conversion (he.2 h)⟩
  unary i op e a he := ⟨nil_subset _, fun h => by simpa using .unary (he.2 h)⟩
  member i e n t a he := ⟨nil_subset _, fun h => by simpa using .member (he.2 h)⟩
  sameAll met es _ := ⟨Subset.refl _, fun _ => by simpa using @resolves_resolveAll holds es⟩
  cons met e es a as he hes :=
    ⟨fun _ hd => hes.1 (he.1 hd), fun h => by simpa using .cons (he.2 (h.mono hes.1)) (hes.2 h)⟩

theorem split_cases (e : Expr) : e.split = splitPart [] e ∨
      ∃ i j c t f, e = tuple i [conditional j c t f] ∧ e.split = ⟨[c], tuple i [t], tuple i [f]⟩ := by
  unfold split
  split
  · exact .inl rfl
  · exact .inr ⟨_, _, _, _, _, rfl, rfl⟩
  · exact .inl rfl

/-- Splitting keeps the meaning of an expression, for all truth values that agree on the conditions which are resolved
together. -/
theorem resolves_split {e c : Expr} {holds : Expr → Bool} (hc : e.split.condition = some c)
    (hmet : ∀ d ∈ e.split.met, holds d = holds c) :
    c ∈ e.split.met ∧ Resolves holds e (resolve holds (if holds c then e.split.whenTrue else e.split.whenFalse)) := by
  refine ⟨mem_of_getLast? hc, ?_⟩
  rcases split_cases e with heq | ⟨i, j, d, t, f, rfl, heq⟩
  · rw [heq] at hmet ⊢
    exact ((splitRules_resolves holds).part [] e).2 hmet
  · rw [heq] at hc ⊢
    obtain rfl : d = c := by simpa [Split.condition] using hc
    have hparts : Resolves holds (tuple i [conditional j d t f]) (tuple i [resolve holds (if holds d then t else f)]) :=
      .tuple (.cons (resolves_choice rfl) .nil)
    cases hd : holds d <;> simpa [hd, resolve, resolveAll] using hparts

def numeral (n : Nat) : Expr := literal { key := n } (.int n) (.elementary (.uint 256)) none

/-- `(1 ? (2 ? 3 : 4) : 5) + 6`, where numbers stand for names. -/
def nestedChoice : Expr :=
  binary {} .addition (tuple {} [conditional {} (numeral 1) (conditional {} (numeral 2) (numeral 3) (numeral 4)) (numeral 5)])
    (numeral 6)

theorem nestedChoice_split : nestedChoice.split.condition = some (numeral 1) ∧
    Resolves (fun d => d.info.key == 1) nestedChoice
      (resolve (fun d => d.info.key == 1) nestedChoice.split.whenTrue) := by
  have hmet : ∀ d ∈ nestedChoice.split.met, (d.info.key == 1) = ((numeral 1).info.key == 1) :=
    forall_mem_singleton.2 rfl
  exact ⟨rfl, (resolves_split (c := numeral 1) rfl hmet).2⟩

/-- `(1 ? 3 : 4) + (2 ? 5 : 6)` -/
def twoChoices : Expr :=
  binary {} .addition (conditional {} (numeral 1) (numeral 3) (numeral 4)) (conditional {} (numeral 2) (numeral 5) (numeral 6))

/-- Of two conditions side by side only the last one is kept: if the first one holds and the last one does not, the
value for a first condition that fails is taken. -/
theorem twoChoices_confused : twoChoices.split.condition = some (numeral 2) ∧
    twoChoices.split.whenFalse = binary {} .addition (numeral 4) (numeral 6) ∧
    ¬ Resolves (fun d => d.info.key == 1) twoChoices
      (resolve (fun d => d.info.key == 1) twoChoices.split.whenFalse) := by
  refine ⟨rfl, rfl, fun h => ?_⟩
  cases h with
  | binary hl _ =>
    cases hl with
    | choice h => cases h

/-! ## Progress -/

mutual
/-- No salt of a call has a conditional. -/
def plainSalts : Expr → Bool
  | conditional _ c t f => plainSalts c && plainSalts t && plainSalts f
  | assign _ _ l r _ | binary _ _ l r | index _ l r => plainSalts l && plainSalts r
  | call _ f args _ _ g v s _ =>
    plainSalts f && allPlainSalts args && plainSalts g && plainSalts v && plainSalts s && !s.hasConditional
  | member _ e _ _ | conversion _ e _ | unary _ _ e => plainSalts e
  | tuple _ es => allPlainSalts es
  | _ => true

def allPlainSalts : List Expr → Bool
  | [] => true
  | e :: es => plainSalts e && allPlainSalts es
end

theorem allPlainSalts_iff : allPlainSalts es = true ↔ ∀ e ∈ es, e.plainSalts = true := by
  induction es with
  | nil => simp [allPlainSalts]
  | cons e es ih => simp [allPlainSalts, ih]

theorem splitRules_found : SplitRules (fun met e s => e.plainSalts = true → (s.met = [] ↔ met = [] ∧ e.hasConditional = false))
      (fun met es s => allPlainSalts es = true → (s.met = [] ↔ met = [] ∧ anyConditional es = false)) where
  same met e h _ := by
    rcases h with h | h <;> simp [h]
  choice met i c t f _ := by simp [hasConditional]
  bare met i j c t f _ := by simp [hasConditional, anyConditional]
  assign i op l r ty a b hl hr hp := by
    simp only [plainSalts, Bool.and_eq_true] at hp
    simp [hasConditional, hr hp.2, hl hp.1]
  binary i op l r a b hl hr hp := by
    simp only [plainSalts, Bool.and_eq_true] at hp
    simp [hasConditional, hr hp.2, hl hp.1]
  index i l r a b hl hr hp := by
    simp only [plainSalts, Bool.and_eq_true] at hp
    simp [hasConditional, hr hp.2, hl hp.1]
  tuple i es a hes hp := by simpa [hasConditional] using hes hp
  call i f args n ty g v s u f' g' v' as hf hg hv hargs hp := by
    simp only [plainSalts, Bool.and_eq_true, Bool.not_eq_true'] at hp
    simp [hasConditional]
    tauto
  conversion i e t a he hp := by simpa [hasConditional] using he hp
  unary i op e a he hp := by simpa [hasConditional] using he hp
  member i e n t a he hp := by simpa [hasConditional] using he hp
  sameAll met es h _ := by
    rcases h with h | h <;> simp [h, anyConditional]
  cons met e es a as he hes hp := by
    simp only [allPlainSalts, Bool.and_eq_true] at hp
    simp [anyConditional, hes hp.2, he hp.1, and_assoc]

theorem splitRules_plainSalts (b : Bool) : SplitRules (fun met e s => e.plainSalts = true → allPlainSalts met = true →
        (s.pick b).plainSalts = true ∧ allPlainSalts s.met = true)
      (fun met es s => allPlainSalts es = true → allPlainSalts met = true →
        allPlainSalts (s.pick b) = true ∧ allPlainSalts s.met = true) := by
  have happend : ∀ met c, allPlainSalts (met ++ [c]) = (allPlainSalts met && c.plainSalts) := by
    intro met c
    induction met with
    | nil => simp [allPlainSalts]
    | cons d met ih => simp [allPlainSalts, ih, Bool.and_assoc]
  constructor <;> intros <;> cases b <;> simp_all [plainSalts, allPlainSalts]

/-- How many conditionals there are in conditions that were met, and how many were resolved. -/
def weight (met : List Expr) : Nat := conditionalsList met + met.length

theorem weight_append {met : List Expr} {c : Expr} : weight (met ++ [c]) = weight met + c.conditionals + 1 := by
  induction met with
  | nil => simp [weight, conditionalsList]
  | cons d met ih => simp only [weight, cons_append, conditionalsList, length_cons] at ih ⊢; omega

theorem conditionals_lt_weight (hc : c ∈ met) : c.conditionals < weight met := by
  induction met with
  | nil => cases hc
  | cons d met ih =>
    simp only [weight, conditionalsList, length_cons] at ih ⊢
    rcases mem_cons.1 hc with rfl | hc
    · omega
    · have := ih hc
      omega

theorem splitRules_weight (b : Bool) :
    SplitRules (fun met e s => weight s.met + (s.pick b).conditionals ≤ weight met + e.conditionals)
      (fun met es s => weight s.met + conditionalsList (s.pick b) ≤ weight met + conditionalsList es) := by
  constructor <;> intros <;> cases b <;> simp_all [conditionals, conditionalsList, weight_append] <;> omega

theorem split_progress {e : Expr} (hp : e.plainSalts = true) (hcond : e.hasConditional = true) :
    ∃ c, e.split.condition = some c ∧ c.plainSalts = true ∧
      ∀ b, (e.split.pick b).plainSalts = true ∧ c.conditionals + (e.split.pick b).conditionals < e.conditionals := by
  rcases split_cases e with heq | ⟨i, j, c, t, f, rfl, heq⟩
  · rw [heq]
    have hne : (splitPart [] e).met ≠ [] := by
      simp [splitRules_found.part [] e hp, hcond]
    have hmem := getLast_mem hne
    refine ⟨_, getLast?_eq_some_getLast hne, ?_, fun b => ?_⟩
    · exact allPlainSalts_iff.1 ((splitRules_plainSalts true).part [] e hp rfl).2 _ hmem
    · have hweight := (splitRules_weight b).part [] e
      have hlt := conditionals_lt_weight hmem
      simp only [weight, conditionalsList, length_nil] at hweight hlt
      exact ⟨((splitRules_plainSalts b).part [] e hp rfl).1, by omega⟩
  · rw [heq]
    simp only [plainSalts, allPlainSalts, Bool.and_eq_true] at hp
    refine ⟨c, rfl, hp.1.1.1, fun b => ?_⟩
    cases b <;> simp [plainSalts, allPlainSalts, hp, conditionals, conditionalsList] <;> omega

end ContractAudit.Expr

/-! ## Splitting of nodes -/

namespace ContractAudit.Flow

theorem replaceByBranch_rewired {g : Flow} {branch whenTrue whenFalse join : Node} :
    ∃ h, Rewired ((((g.add branch).1.add whenTrue).1.add whenFalse).1.add join).1 h ∧
      g.replaceByBranch i branch whenTrue whenFalse join ends = h.remove [i] :=
  ⟨_, .wireBranch _ i g.nodes.size (g.add branch).1.nodes.size ((g.add branch).1.add whenTrue).1.nodes.size
    (((g.add branch).1.add whenTrue).1.add whenFalse).1.nodes.size ends, rfl⟩

end ContractAudit.Flow

namespace ContractAudit

/-- What conditionals cost: an expression with `n` of them is split less than `2 ^ n` times. -/
def Node.cost (n : Node) : Nat := 2 ^ (n.expr.map Expr.conditionals).getD 0 - 1

/-- Conditionals stand in no salt and in no assembly code, and a declaration has them in an assignment. -/
def Node.Splittable (n : Node) : Prop :=
  ∀ e, n.expr = some e → e.plainSalts = true ∧
    (e.hasConditional = true → n.assemblyScope = none ∧ (n.kind = .declaration → e matches .assign ..))

namespace Flow

variable {g h : Flow}

def cost (g : Flow) : Nat := (g.order.map fun i => (g.node i).cost).sum

structure Splittable (g : Flow) : Prop where
  inTable : ∀ i ∈ g.order, i < g.nodes.size
  nodes : ∀ i ∈ g.order, (g.node i).Splittable

namespace Splittable

theorem kept (hg : g.Splittable) (n : Node) (hi : i ∈ g.order) : i ∈ (g.add n).1.order ∧ (g.add n).1.node i = g.node i :=
  ⟨mem_order_add.2 (.inl hi), by rw [node_add, if_neg (Nat.ne_of_lt (hg.inTable i hi))]⟩

theorem add (hg : g.Splittable) (hn : n.Splittable) :
    (g.add n).1.Splittable ∧ (g.add n).1.cost = g.cost + n.cost := by
  have hnew : (g.add n).1.node g.nodes.size = n := by rw [node_add, if_pos rfl]
  refine ⟨⟨fun i hi => ?_, fun i hi => ?_⟩, ?_⟩
  · have hsize : (g.add n).1.nodes.size = g.nodes.size + 1 := Array.size_push n
    rcases mem_order_add.1 hi with hi | rfl
    · exact hsize ▸ Nat.lt_succ_of_lt (hg.inTable i hi)
    · exact hsize ▸ Nat.lt_succ_self _
  · rcases mem_order_add.1 hi with hi | rfl
    · exact (hg.kept n hi).2 ▸ hg.nodes i hi
    · rw [hnew]
      exact hn
  · have hold : g.order.map (fun i => ((g.add n).1.node i).cost) = g.order.map fun i => (g.node i).cost :=
      map_congr_left fun i hi => by rw [(hg.kept n hi).2]
    show ((g.order ++ [g.nodes.size]).map fun i => ((g.add n).1.node i).cost).sum = _
    simp [hold, hnew, cost]

theorem rewire (hg : g.Splittable) (hh : Rewired g h) : h.Splittable ∧ ∀ i, (h.node i).cost = (g.node i).cost := by
  refine ⟨⟨fun i hi => hh.size ▸ hg.inTable i (hh.order ▸ hi), fun i hi => ?_⟩, fun i => ?_⟩
  · obtain ⟨_, _, hi'⟩ := hh.node i
    rw [hi']
    exact hg.nodes i (hh.order ▸ hi)
  · obtain ⟨_, _, hi'⟩ := hh.node i
    rw [hi']
    rfl

end Splittable

theorem sum_filter_ne (c : NodeId → Nat) (l : List NodeId) :
    ((l.filter (· != i)).map c).sum + (if i ∈ l then c i else 0) ≤ (l.map c).sum := by
  induction l with
  | nil => simp
  | cons j l ih =>
    by_cases hj : j = i
    · subst hj
      simp only [bne_self_eq_false, Bool.false_eq_true, not_false_eq_true, filter_cons_of_neg, mem_cons,
        true_or, if_true, map_cons, sum_cons]
      omega
    · simp only [bne_iff_ne, ne_eq, hj, not_false_eq_true, filter_cons_of_pos, map_cons, sum_cons,
        mem_cons, Ne.symm hj, false_or]
      omega

theorem two_pow_split (ha : c + a < n) (hb : c + b < n) :
    (2 ^ c - 1) + (2 ^ a - 1) + (2 ^ b - 1) < 2 ^ n - 1 := by
  obtain ⟨k, rfl⟩ : ∃ k, n = c + k + 1 := ⟨n - c - 1, by omega⟩
  have hak : 2 ^ a ≤ 2 ^ k := Nat.pow_le_pow_right (by decide) (by omega)
  have hbk : 2 ^ b ≤ 2 ^ k := Nat.pow_le_pow_right (by decide) (by omega)
  have hprod := Nat.add_sub_one_le_mul (Nat.ne_of_gt (Nat.two_pow_pos c)) (Nat.ne_of_gt (Nat.two_pow_pos k))
  have hle : 2 ^ k ≤ 2 ^ c * 2 ^ k := Nat.le_mul_of_pos_left _ Nat.one_le_two_pow
  have hb1 : 1 ≤ 2 ^ b := Nat.one_le_two_pow
  rw [Nat.pow_succ, Nat.pow_add]
  omega

theorem cost_remove (hi : i ∈ g.order) : (g.remove [i]).cost + (g.node i).cost ≤ g.cost := by
  have hsum := sum_filter_ne (i := i) (fun j => (g.node j).cost) g.order
  rw [if_pos hi] at hsum
  have horder : (g.remove [i]).order = g.order.filter (· != i) := by
    simp only [remove, contains_cons, contains_nil, Bool.or_false]
    rfl
  rw [cost, horder]
  exact hsum

theorem Splittable.replaceByBranch (hg : g.Splittable) (hi : i ∈ g.order) (ends : Bool) (hb : branch.Splittable)
    (ht : whenTrue.Splittable) (he : whenFalse.Splittable)
    (hj : join.Splittable) :
    (g.replaceByBranch i branch whenTrue whenFalse join ends).Splittable ∧
      (g.replaceByBranch i branch whenTrue whenFalse join ends).cost + (g.node i).cost ≤
        g.cost + branch.cost + whenTrue.cost + whenFalse.cost + join.cost := by
  obtain ⟨h₁, hc₁⟩ := hg.add hb
  obtain ⟨h₂, hc₂⟩ := h₁.add ht
  obtain ⟨h₃, hc₃⟩ := h₂.add he
  obtain ⟨h₄, hc₄⟩ := h₃.add hj
  obtain ⟨hi₁, hn₁⟩ := hg.kept branch hi
  obtain ⟨hi₂, hn₂⟩ := h₁.kept whenTrue hi₁
  obtain ⟨hi₃, hn₃⟩ := h₂.kept whenFalse hi₂
  obtain ⟨hi₄, hn₄⟩ := h₃.kept join hi₃
  obtain ⟨k, hk, heq⟩ := replaceByBranch_rewired
  obtain ⟨hks, hkc⟩ := h₄.rewire hk
  have hcost := cost_remove (hk.order.symm ▸ hi₄)
  have hkcost : k.cost = ((((g.add branch).1.add whenTrue).1.add whenFalse).1.add join).1.cost := by
    simp [cost, hk.order, hkc]
  rw [heq]
  have hmem : ∀ {j}, j ∈ (k.remove [i]).order → j ∈ k.order := fun hj => (mem_filter.1 hj).1
  refine ⟨⟨fun j hj => hks.inTable j (hmem hj), fun j hj => hks.nodes j (hmem hj)⟩, ?_⟩
  rw [hkc, hn₄, hn₃, hn₂, hn₁] at hcost
  omega

end Flow

namespace Reader

open Flow State

theorem splitNode_ok {e : Expr} (hassign : g.kind i = .declaration → e matches .assign ..) :
    splitNode g i e.split = .ok (branchAt g i e.split) := by
  unfold splitNode
  by_cases hkind : g.kind i = .declaration
  · have he := hassign hkind
    split at he
    · rw [if_pos (by simp [hkind])]
      rfl
    · cases he
  · rw [if_neg (by simpa using hkind)]
    rfl

theorem branchAt_eq (g : Flow) (i : NodeId) (s : Expr.Split Expr) :
    ∃ branch whenTrue whenFalse join ends, branchAt g i s = g.replaceByBranch i branch whenTrue whenFalse join ends ∧
      branch.expr = s.condition ∧ whenTrue.expr = some s.whenTrue ∧ whenFalse.expr = some s.whenFalse ∧
      join.expr = none ∧ ∀ n ∈ [branch, whenTrue, whenFalse, join], n.assemblyScope = none ∧ n.kind ≠ .declaration := by
  have hkind : (if (g.node i).kind == .returns then NodeKind.returns else .expression) ≠ .declaration := by
    split <;> simp
  exact ⟨_, _, _, _, _, rfl, rfl, rfl, rfl, rfl, by simpa using hkind⟩

theorem branchAt_progress (hg : g.Splittable) (hi : i ∈ g.order)
    (hexpr : (g.node i).expr = some e) (hc : s.condition = some c) (hcsalts : c.plainSalts = true)
    (ht : s.whenTrue.plainSalts = true ∧ c.conditionals + s.whenTrue.conditionals < e.conditionals)
    (hf : s.whenFalse.plainSalts = true ∧ c.conditionals + s.whenFalse.conditionals < e.conditionals) :
    (branchAt g i s).Splittable ∧ (branchAt g i s).cost < g.cost := by
  obtain ⟨branch, t, f, join, ends, heq, hbx, htx, hfx, hjx, hplaced⟩ := branchAt_eq g i s
  have hnew : ∀ n ∈ [branch, t, f, join], (∀ x, n.expr = some x → x.plainSalts = true) → n.Splittable := by
    intro n hn hx x hnx
    obtain ⟨hscope, hkind⟩ := hplaced n hn
    exact ⟨hx x hnx, fun _ => ⟨hscope, fun h => absurd h hkind⟩⟩
  have hb : branch.Splittable := hnew branch (by simp) (by simp [hbx, hc, hcsalts])
  have ht' : t.Splittable := hnew t (by simp) (by simpa [htx] using ht.1)
  have hf' : f.Splittable := hnew f (by simp) (by simpa [hfx] using hf.1)
  have hj : join.Splittable := hnew join (by simp) (by simp [hjx])
  obtain ⟨hh, hcost⟩ := hg.replaceByBranch hi ends hb ht' hf' hj
  rw [heq]
  refine ⟨hh, ?_⟩
  have hpow := two_pow_split ht.2 hf.2
  simp only [Node.cost, hexpr, hbx, htx, hfx, hjx, hc, Option.map_some, Option.map_none, Option.getD_some,
    Option.getD_none] at hcost
  omega

theorem splitConditionals_none (hnext : nextSplit (s.flow f) = none) :
    splitConditionals f (fuel + 1) s = .ok () s := by
  rw [splitConditionals.eq_2, run_program, show nextSplit (s.program.function f).flow = _ from hnext]
  rfl

theorem splitConditionals_some (hnext : nextSplit (s.flow f) = some i) (hexpr : ((s.flow f).node i).expr = some e) :
    ∃ fault, splitConditionals f (fuel + 1) s =
      if e.split.condition.isNone then .error fault s else match splitNode (s.flow f) i e.split with
        | .ok h => splitConditionals f fuel (withFlow s f h)
        | .error why => .error why s := by
  apply Exists.intro
  rw [splitConditionals.eq_2, run_program, show nextSplit (s.program.function f).flow = _ from hnext]
  have he : ((s.program.function f).flow.node i).expr.getD .omitted = e := by
    rw [← flow, hexpr]
    rfl
  dsimp only
  rw [he]
  split
  · rfl
  · show (Load.lifted (splitNode (s.flow f) i e.split) >>= _ : Load Unit) s = _
    cases splitNode (s.flow f) i e.split <;> rfl

theorem exists_of_nextSplit (hnext : nextSplit g = some i) :
    i ∈ g.order ∧ ∃ e, (g.node i).expr = some e ∧ e.hasConditional = true := by
  have hfound := find?_some hnext
  refine ⟨(mem_filter.1 (mem_of_find?_eq_some hnext)).1, ?_⟩
  cases hexpr : (g.node i).expr with
  | none => simp [hexpr] at hfound
  | some e => exact ⟨e, rfl, by simpa [hexpr] using hfound⟩

theorem splitConditionals_ok : ∀ s : State, (s.flow f).Splittable → (s.flow f).cost < fuel →
    ∃ t, splitConditionals f fuel s = .ok () t ∧ (t.flow f).Splittable ∧ nextSplit (t.flow f) = none := by
  induction fuel with
  | zero => exact fun s _ hcost => absurd hcost (Nat.not_lt_zero _)
  | succ fuel ih =>
    intro s hs hcost
    cases hnext : nextSplit (s.flow f) with
    | none => exact ⟨s, splitConditionals_none hnext, hs, hnext⟩
    | some i =>
      obtain ⟨hi, e, hexpr, hcond⟩ := exists_of_nextSplit hnext
      obtain ⟨hsalts, hplace⟩ := hs.nodes i hi e hexpr
      obtain ⟨c, hc, hcsalts, hforms⟩ := Expr.split_progress hsalts hcond
      obtain ⟨hbranch, hless⟩ := branchAt_progress hs hi hexpr hc hcsalts (hforms true) (hforms false)
      obtain ⟨_, hsome⟩ := splitConditionals_some hnext hexpr
      rw [hsome, if_neg (by simp [hc]), splitNode_ok (hplace hcond).2]
      have hflow : (withFlow s f (branchAt (s.flow f) i e.split)).flow f = branchAt (s.flow f) i e.split :=
        flow_modifyFunction (lt_size_of_mem hi) _
      exact ih _ (by rw [hflow]; exact hbranch) (by rw [hflow]; omega)

theorem cost_lt_splitBound : g.cost < splitBound g := by
  have hfold : ∀ (l : List NodeId) k, k + (l.map fun i => (g.node i).cost).sum ≤
      l.foldl (fun k i => k + Nat.pow 2 (((g.node i).expr.map Expr.conditionals).getD 0)) k := by
    intro l
    induction l with
    | nil => simp
    | cons i l ih =>
      intro k
      refine Nat.le_trans ?_ (ih _)
      simp only [map_cons, sum_cons, Node.cost]
      have : 2 ^ ((g.node i).expr.map Expr.conditionals).getD 0 = Nat.pow 2 (((g.node i).expr.map Expr.conditionals).getD 0) := rfl
      omega
  exact Nat.lt_of_lt_of_le (by rw [Flow.cost]; omega) (hfold g.order 1)

/-- All conditionals that stand in no salt are split without a fault, and then no expression of a node has one. -/
theorem splitConditionals_settles {s : State} (hs : (s.flow f).Splittable) :
    ∃ t, splitConditionals f (splitBound (s.flow f)) s = .ok () t ∧
      ∀ i ∈ (t.flow f).order, ∀ e, ((t.flow f).node i).expr = some e → e.hasConditional = false := by
  obtain ⟨t, hrun, ht, hnext⟩ := splitConditionals_ok s hs cost_lt_splitBound
  refine ⟨t, hrun, fun i hi e hexpr => ?_⟩
  by_contra hcond
  have hplain : i ∈ (t.flow f).plainNodes :=
    mem_filter.2 ⟨hi, by simp [((ht.nodes i hi e hexpr).2 (by simpa using hcond)).1]⟩
  have hnone := find?_eq_none.1 hnext i hplain
  simp [hexpr, hcond] at hnone

/-- A function of one node. -/
def onlyNode (e : Expr) : State :=
  { program := { functionTable := #[{ (default : Function) with flow :=
      { nodes := #[{ kind := .expression, expr := some e }], order := [0] } }] } }

theorem nestedChoice_settles : ((onlyNode Expr.nestedChoice).flow 0).Splittable ∧
    ∃ t, splitConditionals 0 (splitBound ((onlyNode Expr.nestedChoice).flow 0)) (onlyNode Expr.nestedChoice) = .ok () t ∧
      ∀ i ∈ (t.flow 0).order, ∀ e, ((t.flow 0).node i).expr = some e → e.hasConditional = false := by
  have hs : ((onlyNode Expr.nestedChoice).flow 0).Splittable := by
    refine ⟨forall_mem_singleton.2 Nat.zero_lt_one, forall_mem_singleton.2 fun e he => ?_⟩
    cases he
    exact ⟨rfl, fun _ => ⟨rfl, nofun⟩⟩
  exact ⟨hs, splitConditionals_settles hs⟩

/-- `1{salt: 2 ? 3 : 4}()` -/
def choiceInSalt : Expr :=
  .call {} (.numeral 1) [] none "" .omitted .omitted (.conditional {} (.numeral 2) (.numeral 3) (.numeral 4)) false

/-- A conditional in a salt is seen but not found, and reading the function fails. -/
theorem choiceInSalt_fails : choiceInSalt.hasConditional = true ∧ choiceInSalt.split.condition = none ∧
    ∃ text place : String, splitConditionals 0 (splitBound ((onlyNode choiceInSalt).flow 0)) (onlyNode choiceInSalt) =
      .error (.parsing s!"Incorrect ternary conversion {text} {place}") (onlyNode choiceInSalt) :=
  ⟨rfl, rfl, _, _, rfl⟩

end Reader

end ContractAudit
