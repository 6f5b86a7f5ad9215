import ContractAudit.Detect.Variables
import ContractAudit.Proofs.Checks
import ContractAudit.Proofs.DataDependency
import ContractAudit.Proofs.Searches

/-! # Searches along the ways of a function

A search goes along all ways from a node. It does not come back to a node on its way, and leaves a node alone if it knows
enough of it. What it knows only grows, so that at the end the sons of each node are known as well as the node was.
-/

namespace ContractAudit

open List

/-! ## Ways -/

namespace Flow

/-- What can be reached from `e` on a way whose nodes before the last have the property `P`. -/
inductive Through (g : Flow) (P : NodeId → Prop) (e : NodeId) : NodeId → Prop
  | entry : Through g P e e
  | step {m n : NodeId} : Through g P e m → P m → n ∈ g.sons m → Through g P e n

/-- The nodes of `way`, the last one first, lead from `e` to `n`, and none of them comes twice. -/
inductive Trail (g : Flow) (e : NodeId) : List NodeId → NodeId → Prop
  | entry : Trail g e [] e
  | step {way : List NodeId} {m n : NodeId} : Trail g e way m → m ∉ way → n ∈ g.sons m → Trail g e (m :: way) n

variable {g : Flow}

theorem lt_of_mem_sons (h : n ∈ g.sons m) : m < g.nodes.size := by
  by_contra hm
  rw [sons, node, Array.getD_eq_getD_getElem?, Array.getElem?_eq_none (Nat.le_of_not_lt hm)] at h
  exact absurd h not_mem_nil

theorem Trail.length_le (h : g.Trail e way n) : way.length ≤ g.nodes.size := by
  suffices hall : way.Nodup ∧ ∀ m ∈ way, m < g.nodes.size from length_le_of_lt hall.1 hall.2
  induction h with
  | entry => exact ⟨.nil, nofun⟩
  | step _ hm hs ih => exact ⟨ih.1.cons hm, forall_mem_cons.2 ⟨lt_of_mem_sons hs, ih.2⟩⟩

end Flow

/-- If each round keeps to `R` and covers its item, all items are covered in the end. -/
theorem foldl_covers [IsPreorder σ R] {C : β → σ → Prop} (step : σ → β → σ) (xs : List β)
    (s : σ) (hC : ∀ x t u, R t u → C x t → C x u) (hstep : ∀ x ∈ xs, ∀ t, R s t → R t (step t x) ∧ C x (step t x)) :
    R s (xs.foldl step s) ∧ ∀ x ∈ xs, C x (xs.foldl step s) := by
  induction xs generalizing s with
  | nil => exact ⟨refl s, nofun⟩
  | cons x xs ih =>
    obtain ⟨hx, hcovers⟩ := hstep x (.head _) s (refl s)
    obtain ⟨hrest, hall⟩ := ih _ fun y hy t ht => hstep y (.tail _ hy) t (IsTrans.trans _ _ _ hx ht)
    exact ⟨IsTrans.trans _ _ _ hx hrest, forall_mem_cons.2 ⟨hC x _ _ hrest hcovers, hall⟩⟩

namespace Detect

variable {a : Analysis}

/-! ## Uses before declarations -/

/-- A local variable is read or written by a node. -/
def Uses (a : Analysis) (f : FunctionId) (n : NodeId) (v : VariableId) : Prop :=
  a.program.isLocalVariable v = true ∧ (.target (.var v) ∈ (a.nodeCode f n).read ∨ .target (.var v) ∈ (a.nodeCode f n).written)

theorem mem_localsIn : v ∈ a.localsIn xs ↔ a.program.isLocalVariable v = true ∧ .target (.var v) ∈ xs := by
  rw [Analysis.localsIn, mem_filterMap]
  constructor
  · rintro ⟨x, hx, h⟩
    split at h
    · split at h <;> simp_all
    · cases h
  · exact fun ⟨hlocal, hv⟩ => ⟨_, hv, by simp [hlocal]⟩

namespace ScopeSearch

/-- The node was looked at when the variables `vs` were declared. -/
def Seen (s : ScopeSearch) (n : NodeId) (vs : List VariableId) : Prop := vs ∈ (s.known.find? n).getD []

variable (a) (f : FunctionId) (start : List VariableId) (e : NodeId)

/-- The node was looked at when no other variables were declared than `vs` and its own. -/
def Covers (vs : List VariableId) (n : NodeId) (s : ScopeSearch) : Prop :=
  ∃ ws, s.Seen n ws ∧ ∀ v ∈ ws, v ∈ vs ∨ ((a.flow f).node n).declared = some v

/-- All that follows if `vs` are declared at the node was found. -/
structure Settles (s : ScopeSearch) (n : NodeId) (vs : List VariableId) : Prop where
  uses : ∀ v, Uses a f n v → v ∉ vs → (n, v) ∈ s.found
  sons : ∀ m ∈ (a.flow f).sons n, Covers a f vs m s

/-- What is found is used, and is not declared on some way. -/
def Sound (s : ScopeSearch) : Prop :=
  ∀ n v, (n, v) ∈ s.found → Uses a f n v ∧ v ∉ start ∧
    (a.flow f).Through (fun m => ((a.flow f).node m).declared ≠ some v) e n ∧ ((a.flow f).node n).declared ≠ some v

structure Grows (s t : ScopeSearch) : Prop where
  seen : ∀ n vs, s.Seen n vs → t.Seen n vs
  found : ∀ x ∈ s.found, x ∈ t.found
  sound : Sound a f start e s → Sound a f start e t
  settles : ∀ n vs, t.Seen n vs → s.Seen n vs ∨ t.Settles a f n vs

variable {a f start e}

theorem Covers.grows (h : Grows a f start e s t) (hs : Covers a f vs n s) : Covers a f vs n t :=
  hs.imp fun ws hws => ⟨h.seen n ws hws.1, hws.2⟩

theorem Settles.grows (h : Grows a f start e s t) (hs : s.Settles a f n vs) : t.Settles a f n vs :=
  ⟨fun v hv hvs => h.found _ (hs.uses v hv hvs), fun m hm => (hs.sons m hm).grows h⟩

instance : IsPreorder ScopeSearch (Grows a f start e) where
  refl _ := ⟨fun _ _ => id, fun _ => id, id, fun _ _ => .inl⟩
  trans _ _ _ hst htu := ⟨fun n vs h => htu.seen n vs (hst.seen n vs h), fun x h => htu.found x (hst.found x h),
    fun h => htu.sound (hst.sound h),
    fun n vs h => (htu.settles n vs h).elim (fun h => (hst.settles n vs h).imp_right (.grows htu)) .inr⟩

end ScopeSearch

open ScopeSearch

theorem mem_declared (g : Flow) :
    v ∈ (g.node n).declared.elim vs (fun w => addNew w vs) ↔ v ∈ vs ∨ (g.node n).declared = some v := by
  cases (g.node n).declared with
  | none => simp
  | some w => grind [addNew]

theorem searchScopes_grows (start : List VariableId) (fuel : Nat) (hway : (a.flow f).Trail e way n)
    (hfuel : (a.flow f).nodes.size < fuel + way.length)
    (hseen : ∀ m ∈ way, ∃ ws, s.Seen m ws ∧ ∀ v ∈ ws, v ∈ vs)
    (hfree : ∀ v ∉ vs, v ∉ start ∧ (a.flow f).Through (fun m => ((a.flow f).node m).declared ≠ some v) e n) :
    Grows a f start e s (searchScopes a f fuel way vs s n) ∧ Covers a f vs n (searchScopes a f fuel way vs s n) := by
  induction fuel generalizing n way vs s with
  | zero => exact absurd hway.length_le (by omega)
  | succ fuel ih =>
    rw [searchScopes]
    split
    next hmem =>
      -- a node on the way was seen before more was declared
      obtain ⟨ws, hws, hsub⟩ := hseen n (by simpa using hmem)
      exact ⟨refl s, ws, hws, fun v hv => .inl (hsub v hv)⟩
    next hmem =>
    simp only []
    generalize hvs : ((a.flow f).node n).declared.elim vs (fun v => addNew v vs) = vs'
    have hdeclared : ∀ v, v ∈ vs' ↔ v ∈ vs ∨ ((a.flow f).node n).declared = some v := fun v => hvs ▸ mem_declared _
    split
    next hold =>
      rw [Bool.and_eq_true, any_eq_true] at hold
      obtain ⟨-, ws, hws, hsame⟩ := hold
      simp only [sameMembers, Bool.and_eq_true, all_eq_true, contains_iff_mem] at hsame
      exact ⟨refl s, ws, hws, fun v hv => (hdeclared v).1 (hsame.2 v hv)⟩
    generalize hs₁ : ({ known := _, found := _ } : ScopeSearch) = s₁
    have hseen₁ : ∀ m ws, s₁.Seen m ws ↔ s.Seen m ws ∨ m = n ∧ ws = vs' := by
      intro m ws
      rw [← hs₁, Seen, Seen, Table.find?_insert]
      by_cases hm : m = n
      · subst hm
        simp
      · simp [hm]
    have hfound₁ : ∀ m v, (m, v) ∈ s₁.found ↔ (m, v) ∈ s.found ∨ m = n ∧ Uses a f n v ∧ v ∉ vs' := by
      intro m v
      rw [← hs₁, mem_addAllNew]
      simp [mem_localsIn, Uses]
      grind
    have hway' : ∀ m ∈ (a.flow f).sons n, (a.flow f).Trail e (n :: way) m := fun m hm => hway.step (by simpa using hmem) hm
    obtain ⟨hgrows, hsons⟩ := foldl_covers (R := Grows a f start e) (C := Covers a f vs')
      (searchScopes a f fuel (n :: way) vs') ((a.flow f).sons n) s₁ (fun _ _ _ h hc => hc.grows h)
      (fun m hm t ht => by
        refine ih (hway' m hm) (by simp only [length_cons]; omega) (fun k hk => ?_) fun v hv => ?_
        · rcases mem_cons.1 hk with rfl | hk
          · exact ⟨vs', ht.seen _ _ ((hseen₁ _ _).2 (.inr ⟨rfl, rfl⟩)), fun _ => id⟩
          · obtain ⟨ws, hws, hsub⟩ := hseen k hk
            exact ⟨ws, ht.seen _ _ ((hseen₁ _ _).2 (.inl hws)), fun v hv => (hdeclared v).2 (.inl (hsub v hv))⟩
        · rw [hdeclared, not_or] at hv
          exact ⟨(hfree v hv.1).1, (hfree v hv.1).2.step hv.2 hm⟩)
    refine ⟨⟨fun m ws h => hgrows.seen m ws ((hseen₁ m ws).2 (.inl h)),
      fun x h => hgrows.found x ((hfound₁ x.1 x.2).2 (.inl h)), fun h => hgrows.sound fun m v hm => ?_, fun m ws h => ?_⟩,
      vs', hgrows.seen _ _ ((hseen₁ _ _).2 (.inr ⟨rfl, rfl⟩)), fun v hv => (hdeclared v).1 hv⟩
    · obtain hm | ⟨rfl, huses, hv⟩ := (hfound₁ m v).1 hm
      · exact h m v hm
      · rw [hdeclared, not_or] at hv
        exact ⟨huses, (hfree v hv.1).1, (hfree v hv.1).2, hv.2⟩
    · obtain h | h := hgrows.settles m ws h
      · obtain h | ⟨rfl, rfl⟩ := (hseen₁ m ws).1 h
        · exact .inl h
        · exact .inr ⟨fun v huses hv => hgrows.found _ ((hfound₁ _ _).2 (.inr ⟨rfl, huses, hv⟩)), hsons⟩
      · exact .inr h

/-- A search does not come back to a node on its way, so it ends, and more fuel changes nothing. -/
theorem searchScopes_fuel (hway : (a.flow f).Trail e way n)
    (hfuel : (a.flow f).nodes.size < fuel + way.length) (k : Nat) (vs : List VariableId) (s : ScopeSearch) :
    searchScopes a f (fuel + k) way vs s n = searchScopes a f fuel way vs s n := by
  induction fuel generalizing n way vs s with
  | zero => exact absurd hway.length_le (by omega)
  | succ fuel ih =>
    rw [Nat.add_right_comm, searchScopes, searchScopes]
    split
    · rfl
    next hmem =>
    simp only []
    split
    · rfl
    · refine foldl_ext _ _ _ fun s m hm => ih (hway.step (by simpa using hmem) hm) ?_ _ s
      simp only [length_cons]
      omega

/-- The search for uses before declarations ends, and finds the uses of variables that no node declares on some way from the
first node. -/
theorem earlyUses_exact (a : Analysis) (f : FunctionId) :
    let x := a.program.function f
    (∀ first, x.flow.order.head? = some first → ∀ fuel > x.flow.nodes.size,
      (searchScopes a f fuel [] (x.parameters ++ x.returns) {} first).found = earlyUses a f) ∧
    ∀ n v, (n, v) ∈ earlyUses a f ↔ Uses a f n v ∧ v ∉ x.parameters ∧ v ∉ x.returns ∧
      ∃ first, x.flow.order.head? = some first ∧
        x.flow.Through (fun m => (x.flow.node m).declared ≠ some v) first n ∧ (x.flow.node n).declared ≠ some v := by
  intro x
  rw [earlyUses]
  cases horder : x.flow.order with
  | nil => simp [x]
  | cons first rest =>
    simp only [x, List.head?_cons, Option.some.injEq, forall_eq', exists_eq_left']
    refine ⟨fun fuel hfuel => ?_, fun n v => ?_⟩
    · obtain ⟨k, rfl⟩ := Nat.exists_eq_add_of_lt hfuel
      rw [Nat.add_right_comm]
      exact congrArg ScopeSearch.found (searchScopes_fuel .entry (Nat.lt_succ_self _) k _ _)
    obtain ⟨hgrows, ws, hws, hsub⟩ := searchScopes_grows (a := a) (f := f) (s := {}) (x.parameters ++ x.returns)
      (x.flow.nodes.size + 1) .entry (Nat.lt_succ_self _) nofun fun _ hv => ⟨hv, .entry⟩
    generalize hresult : searchScopes a f (x.flow.nodes.size + 1) [] (x.parameters ++ x.returns) {} first = t at *
    constructor
    · intro h
      obtain ⟨huses, hv, hway⟩ := hgrows.sound nofun n v h
      rw [List.mem_append, not_or] at hv
      exact ⟨huses, hv.1, hv.2, hway⟩
    · rintro ⟨huses, hp, hr, hway, hdeclared⟩
      -- along the way the nodes are seen before the variable is declared
      suffices hseen : ∃ ws, t.Seen n ws ∧ v ∉ ws by
        obtain ⟨ws, hws, hv⟩ := hseen
        exact ((hgrows.settles n ws hws).resolve_left nofun).uses v huses hv
      clear huses
      induction hway with
      | entry => exact ⟨ws, hws, fun hv => (hsub v hv).elim (fun h => (List.mem_append.1 h).elim hp hr) hdeclared⟩
      | @step m n _ hm hn ih =>
        obtain ⟨ws, hws, hv⟩ := ih hm
        obtain ⟨ws', hws', hsub'⟩ := ((hgrows.settles m ws hws).resolve_left nofun).sons n hn
        exact ⟨ws', hws', fun h => (hsub' v h).elim hv hdeclared⟩

end Detect

/-! ## Variables that are used later -/

theorem nodup_addAllNew [BEq α] [LawfulBEq α] {xs ys : List α} (h : xs.Nodup) : (addAllNew xs ys).Nodup := by
  unfold addAllNew
  induction ys generalizing xs with
  | nil => exact h
  | cons y ys ih =>
    rw [foldl_cons, addNew]
    split <;> grind

theorem Flow.Through.imp {g : Flow} (hPQ : ∀ k, P k → Q k) (h : g.Through P n m) : g.Through Q n m := by
  induction h with
  | entry => exact .entry
  | step _ hk hs ih => exact ih.step (hPQ _ hk) hs

/-- The sons of nodes are nodes. -/
abbrev Flow.IsClosed (g : Flow) : Prop := ∀ m < g.nodes.size, ∀ n ∈ g.sons m, n < g.nodes.size

namespace Analysis

variable (a : Analysis) (f : FunctionId) (x : VariableId) (n : NodeId)

def ReadAt : Prop := a.program.isNamedIn x (a.nodeCode f n).read = true

def WrittenAt : Prop := a.program.isNamedIn x (a.nodeCode f n).written = true

/-- A node can be reached over nodes that neither read nor write the variable. -/
def Reached (m : NodeId) : Prop := (a.flow f).Through (fun k => ¬ a.ReadAt f x k ∧ ¬ a.WrittenAt f x k) n m

/-- A way leads to a node that reads the variable, and no node before it writes it. -/
def IsUsed : Prop := ∃ m, (a.flow f).Through (fun k => ¬ a.WrittenAt f x k) n m ∧ a.ReadAt f x m

/-- The answers of a search that may take up what is to do in any order. -/
inductive Answers : List NodeId → List NodeId → Bool → Prop
  | none {seen} : Answers [] seen false
  | reads {m todo seen} : m ∈ todo → a.ReadAt f x m → Answers todo seen true
  | writes {m todo seen} : m ∈ todo → ¬ a.ReadAt f x m → a.WrittenAt f x m → Answers todo seen false
  | step {m todo seen b} : m ∈ todo → ¬ a.ReadAt f x m ∧ ¬ a.WrittenAt f x m →
      Answers (addAllNew (todo.erase m) (((a.flow f).sons m).filter fun s => !(m :: seen).contains s)) (m :: seen) b →
      Answers todo seen b

/-- What a search from `n` knows: the nodes that were met are done with, or still to do. -/
structure Searching (todo seen : List NodeId) : Prop where
  start : n ∈ todo ++ seen
  nodup : (todo ++ seen).Nodup
  reached : ∀ m ∈ todo, m < (a.flow f).nodes.size ∧ a.Reached f x n m
  seen : ∀ m ∈ seen, m < (a.flow f).nodes.size ∧ (¬ a.ReadAt f x m ∧ ¬ a.WrittenAt f x m) ∧ (a.flow f).sons m ⊆ todo ++ seen

variable {a f x n} {todo seen : List NodeId}

section

variable (hg : (a.flow f).IsClosed) (h : Searching a f x n todo seen)

include hg h

theorem Searching.step (hm : m ∈ todo) (hquiet : ¬ a.ReadAt f x m ∧ ¬ a.WrittenAt f x m) :
    Searching a f x n (addAllNew (todo.erase m) (((a.flow f).sons m).filter fun s => !(m :: seen).contains s)) (m :: seen) := by
  obtain ⟨htodo, hseen, hapart⟩ := nodup_append.1 h.nodup
  have hmem (k : NodeId) : k ∈ addAllNew (todo.erase m) (((a.flow f).sons m).filter fun s => !(m :: seen).contains s) ++ m :: seen ↔
      k ∈ todo ++ seen ∨ k ∈ (a.flow f).sons m := by
    simp [mem_addAllNew, htodo.mem_erase_iff]
    grind
  obtain ⟨hmlt, hmreached⟩ := h.reached m hm
  refine ⟨(hmem n).2 (.inl h.start), ?_, fun k hk => ?_, fun k hk => ?_⟩
  · refine nodup_append.2 ⟨nodup_addAllNew (htodo.erase m), by grind, fun k hk l hl => ?_⟩
    rw [mem_addAllNew, htodo.mem_erase_iff] at hk
    grind
  · rcases mem_addAllNew.1 hk with hk | hk
    · exact h.reached k (mem_of_mem_erase hk)
    · have hk := (mem_filter.1 hk).1
      exact ⟨hg m hmlt k hk, hmreached.step hquiet hk⟩
  · rcases mem_cons.1 hk with rfl | hk
    · exact ⟨hmlt, hquiet, fun s hs => (hmem s).2 (.inr hs)⟩
    · obtain ⟨hklt, hk, hsons⟩ := h.seen k hk
      exact ⟨hklt, hk, fun s hs => (hmem s).2 (.inl (hsons hs))⟩

theorem Answers.tells (hb : Answers a f x todo seen b) : (b = true → a.IsUsed f x n) ∧
      ((∀ m, a.Reached f x n m → a.WrittenAt f x m → a.ReadAt f x m) → a.IsUsed f x n → b = true) := by
  induction hb with
  | @none seen =>
    -- all that can be reached was seen, and nothing of it reads
    refine ⟨nofun, fun _ ⟨m, hway, hreads⟩ => ?_⟩
    have hseen : m ∈ seen := by
      clear hreads
      induction hway with
      | entry => exact h.start
      | step _ _ hs ih => exact (h.seen _ ih).2.2 hs
    exact absurd hreads (h.seen m hseen).2.1.1
  | reads hm hreads => exact ⟨fun _ => ⟨_, (h.reached _ hm).2.imp fun _ hk => hk.2, hreads⟩, fun _ _ => rfl⟩
  | writes hm hreads hwrites => exact ⟨nofun, fun hsafe => absurd (hsafe _ (h.reached _ hm).2 hwrites) hreads⟩
  | step hm hquiet _ ih => exact ih (h.step hg hm hquiet)

theorem answers_usedFrom (hfuel : (a.flow f).nodes.size < fuel + seen.length) :
    Answers a f x todo seen (a.usedFrom f x fuel todo seen) := by
  induction fuel generalizing todo seen with
  | zero =>
    have hle : seen.length ≤ (a.flow f).nodes.size :=
      length_le_of_lt (nodup_append.1 h.nodup).2.1 fun m hm => (h.seen m hm).1
    omega
  | succ fuel ih =>
    cases todo with
    | nil => exact .none
    | cons m todo =>
      rw [usedFrom]
      split
      next hreads => exact .reads (.head _) hreads
      next hreads =>
        split
        next hwrites => exact .writes (.head _) hreads hwrites
        next hwrites =>
          have hstep := h.step hg (.head _) ⟨hreads, hwrites⟩
          rw [erase_cons_head] at hstep
          refine .step (.head _) ⟨hreads, hwrites⟩ ?_
          rw [erase_cons_head]
          exact ih hstep (by simp only [length_cons]; omega)

end

/-- If a search answers that a variable is used, it is. If it is used, the search answers so in any order, unless it can come to a
node that writes the variable and does not read it. -/
theorem usedLater_tells (hg : (a.flow f).IsClosed) (hn : n < (a.flow f).nodes.size) :
    Answers a f x [n] [] (a.usedLater f n x) ∧ ∀ b, Answers a f x [n] [] b → (b = true → a.IsUsed f x n) ∧
      ((∀ m, a.Reached f x n m → a.WrittenAt f x m → a.ReadAt f x m) → a.IsUsed f x n → b = true) := by
  have hstart : Searching a f x n [n] [] := ⟨by simp, by simp, by simpa using ⟨hn, .entry⟩, nofun⟩
  exact ⟨answers_usedFrom hg hstart (Nat.lt_succ_self _), fun b hb => hb.tells hg hstart⟩

end Analysis

/-- On one way a variable is written, on the other one it is read. -/
def parting : Analysis := .ofLines ["x"] [] [] none [
  .of .entryPoint [1, 2] [], .of .expression [] [0] [] [] [0], .of .returns [] [0] [] [0]]

theorem parting_read : parting.usedLater 0 2 0 = true ∧ parting.IsUsed 0 0 2 := by
  obtain ⟨hanswers, htells⟩ := Analysis.usedLater_tells (a := parting) (f := 0) (x := 0) (n := 2) (by decide) (by decide)
  exact ⟨by decide, (htells _ hanswers).1 (by decide)⟩

/-- Whether the variable is used depends on what is taken up first. -/
theorem parting_missed : parting.usedLater 0 0 0 = false ∧ parting.Answers 0 0 [0] [] true ∧ parting.IsUsed 0 0 0 := by
  have hquiet : ¬ parting.ReadAt 0 0 0 ∧ ¬ parting.WrittenAt 0 0 0 := by
    unfold Analysis.ReadAt Analysis.WrittenAt
    decide
  exact ⟨by decide, .step (.head _) hquiet (.reads (m := 2) (by decide) rfl), 2, .step .entry hquiet.2 (by decide), rfl⟩

end ContractAudit
