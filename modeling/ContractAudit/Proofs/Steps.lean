import ContractAudit.Proofs.Conversion

/-! # Steps of renaming

The renaming of a node enters variables that have no version yet, adds operations that read the versions at the place, and
gives variables new versions with the operations that write them. Everything else leaves the tables, the versions and the
operations alone. Invariants of renaming are proved for these steps only.
-/

namespace ContractAudit

open Ir Analysis Naming

theorem Program.keyOf_next {p : Program} {old latest : Version} : p.keyOf (p.next old latest) = p.keyOf old := by
  by_cases h : p.isLocalVariable old.variable_ = true
  · simp [keyOf, next, versionName, h]
  · simp [keyOf, next, h]

/-- A value leads to a variable: it is the variable, a part of it, or a list with such a value. -/
inductive Ir.Leads (references : Array Reference) : Value → VariableId → Prop
  | var (v : VariableId) : Leads references (.var v) v
  | part {i : Nat} {w : Value} {v : VariableId} : (references.getD i default).pointsTo = some w →
      Leads references w v → Leads references (.reference i) v
  | list {items : List Value} {w : Value} {v : VariableId} : w ∈ items → Leads references w v →
      Leads references (.list items) v

/-- The operations of a function lead to a variable. -/
def Analysis.Mentions (a : Analysis) (f : FunctionId) (v : VariableId) : Prop :=
  ∃ n, ∃ i ∈ a.instrs f n, ∃ w ∈ i.op.values, Leads a.store.references w v

namespace Rename

/-! ## Elementary changes -/

/-- A version is kept in a table, or for a part that was met in the node. -/
def Held (σ : State) (j : Nat) : Prop :=
  (∃ K, σ.1.current K = some j) ∨ (∃ K, σ.1.latest K = some j) ∨
    ∃ r ∈ σ.1.parts, σ.2.store.versionParts.getD r none = some (.version j)

/-- Parts that were met are parts of parts that were met. -/
def Closed (σ : State) : Prop :=
  ∀ r ∈ σ.1.parts, ∀ r', σ.2.store.versionParts.getD r none = some (.versionReference r') → r' ∈ σ.1.parts

/-- Only parts of variables and what versions refer to change. -/
structure Quiet (σ τ : State) : Prop where
  naming : τ.1 = { σ.1 with parts := τ.1.parts }
  program : τ.2.program = σ.2.program
  references : τ.2.store.references = σ.2.store.references
  code : τ.2.code = σ.2.code
  size : τ.2.store.versions.size = σ.2.store.versions.size
  alike : ∀ i, (τ.2.store.version i).Alike (σ.2.store.version i)
  parts : σ.1.parts ⊆ τ.1.parts
  held : ∀ r ∈ τ.1.parts, ∀ j, τ.2.store.versionParts.getD r none = some (.version j) → Held σ j
  closed : Closed σ → Closed τ
  made : ∀ r j, τ.2.store.versionParts.getD r none = some (.version j) →
    σ.2.store.versionParts.getD r none = some (.version j) ∨ j < σ.2.store.versions.size

/-- Variables are entered that have no version at the place. -/
inductive Enters (f : FunctionId) : State → State → Prop
  | refl (σ : State) : Enters f σ σ
  | quiet {σ τ υ : State} : Quiet σ τ → Enters f τ υ → Enters f σ υ
  | enter {s : Naming} {a : Analysis} {υ : State} (v : VariableId) : a.program.isLocalVariable v = true →
      a.Mentions f v → s.current (.inner (a.program.var v).name) = none →
      Enters f (s.put (.inner (a.program.var v).name) a.store.versions.size, a.addVersion { variable_ := v }) υ →
      Enters f (s, a) υ

/-- A variable gets a version after its latest one. -/
def Renews (σ : State) (j : Nat) (τ : State) : Prop :=
  ∃ l, σ.1.latest (σ.2.key j) = some l ∧
    τ = (σ.1.put (σ.2.key j) σ.2.store.versions.size,
      σ.2.addVersion (σ.2.program.next (σ.2.store.version j) (σ.2.store.version l)))

/-- An operation reads the versions at the place. -/
def Sees (σ : State) (op : Op) : Prop := ∀ k, .version k ∈ op.reads → σ.1.current (σ.2.key k) = some k

def adding (f : FunctionId) (n : NodeId) (i : Instr) (σ : State) : State :=
  (σ.1, σ.2.setSsa f n (σ.2.ssa f n ++ [i]))

/-- The version that is written through a part of it. -/
def partPhi (n : NodeId) (k j : Nat) : Instr := { op := .phi (.version k) [.version j] [n] }

/-- A step of the renaming of a node, with the operations that it adds. -/
inductive Step (f : FunctionId) (n : NodeId) : List Instr → State → State → Prop
  | enters {σ τ : State} : Enters f σ τ → Step f n [] σ τ
  | keep {σ : State} {i : Instr} : i.op.isPhi = false → Sees σ i.op → (∀ k, i.op.lvalue? ≠ some (.version k)) →
      Step f n [i] σ (adding f n i σ)
  | write {σ τ : State} {i : Instr} {j : Nat} : i.op.isPhi = false → Sees σ i.op → Held σ j → Renews σ j τ →
      i.op.lvalue? = some (.version σ.2.store.versions.size) → Step f n [i] σ (adding f n i τ)
  | part {σ τ υ : State} {i : Instr} {j r : Nat} : i.op.isPhi = false → Sees σ i.op → Held σ j → Renews σ j τ →
      i.op.lvalue? = some (.versionReference r) →
      Quiet (adding f n (partPhi n σ.2.store.versions.size j) τ) υ →
      Step f n [partPhi n σ.2.store.versions.size j, i] σ (adding f n i υ)
  | callback {σ τ : State} {j : Nat} {c : Call} : Held σ j → Renews σ j τ →
      Step f n [{ op := .phiCallback (.version σ.2.store.versions.size) [.version j] c (.version j) }] σ
        (adding f n { op := .phiCallback (.version σ.2.store.versions.size) [.version j] c (.version j) } τ)

inductive Steps (f : FunctionId) (n : NodeId) : List Instr → State → State → Prop
  | nil (σ : State) : Steps f n [] σ σ
  | cons {new more : List Instr} {σ τ υ : State} : Step f n new σ τ → Steps f n more τ υ → Steps f n (new ++ more) σ υ

theorem Enters.trans (h₁ : Enters f σ τ) (h₂ : Enters f τ υ) : Enters f σ υ := by
  induction h₁ with
  | refl => exact h₂
  | quiet hq _ ih => exact .quiet hq (ih h₂)
  | enter v hv hm hnone _ ih => exact .enter v hv hm hnone (ih h₂)

theorem Steps.append (h₁ : Steps f n new σ τ) (h₂ : Steps f n more τ υ) : Steps f n (new ++ more) σ υ := by
  induction h₁ with
  | nil => exact h₂
  | cons hs _ ih =>
    rw [List.append_assoc]
    exact .cons hs (ih h₂)

theorem Steps.single (h : Step f n new σ τ) : Steps f n new σ τ := by
  have hs := Steps.cons h (.nil τ)
  rwa [List.append_nil] at hs

/-! ## What stays -/

/-- The analysis of a function grows: there may be more versions and other operations on versions. -/
structure Grows (f : FunctionId) (a b : Analysis) : Prop where
  program : b.program = a.program
  references : b.store.references = a.store.references
  size : a.store.versions.size ≤ b.store.versions.size
  alike : ∀ i < a.store.versions.size, (b.store.version i).Alike (a.store.version i)
  instrs : ∀ n, b.instrs f n = a.instrs f n
  dominance : b.dominance f = a.dominance f
  made : ∀ r j, b.store.versionParts.getD r none = some (.version j) →
    a.store.versionParts.getD r none = some (.version j) ∨ j < b.store.versions.size

namespace Grows

theorem refl (f : FunctionId) (a : Analysis) : Grows f a a :=
  ⟨rfl, rfl, Nat.le_refl _, fun _ _ => .refl _, fun _ => rfl, rfl, fun _ _ => .inl⟩

theorem trans (h₁ : Grows f a b) (h₂ : Grows f b c) : Grows f a c where
  program := h₂.program.trans h₁.program
  references := h₂.references.trans h₁.references
  size := Nat.le_trans h₁.size h₂.size
  alike i hi := (h₂.alike i (Nat.lt_of_lt_of_le hi h₁.size)).trans (h₁.alike i hi)
  instrs n := (h₂.instrs n).trans (h₁.instrs n)
  dominance := h₂.dominance.trans h₁.dominance
  made r j hj := (h₂.made r j hj).elim (fun hj => (h₁.made r j hj).imp_right (Nat.lt_of_lt_of_le · h₂.size)) .inr

theorem key (h : Grows f a b) (hi : i < a.store.versions.size) : b.key i = a.key i := by
  rw [Analysis.key, h.program, Program.keyOf_congr (h.alike i hi)]
  rfl

theorem mentions (h : Grows f a b) (v : VariableId) : b.Mentions f v ↔ a.Mentions f v := by
  simp [Mentions, h.references, h.instrs]

theorem flow (h : Grows f a b) : b.flow f = a.flow f := by
  rw [Analysis.flow, h.program]
  rfl

theorem addVersion (f : FunctionId) (a : Analysis) (x : Version) : Grows f a (a.addVersion x) where
  program := rfl
  references := rfl
  size := by simp
  alike i hi := by
    rw [version_addVersion, if_neg (Nat.ne_of_lt hi)]
    exact .refl _
  instrs _ := rfl
  dominance := rfl
  made _ _ := .inl

theorem setSsa (f : FunctionId) (n : NodeId) (a : Analysis) (ops : List Instr) : Grows f a (a.setSsa f n ops) where
  program := rfl
  references := rfl
  size := Nat.le_refl _
  alike _ _ := .refl _
  instrs m := instrs_setSsa a f n m ops
  dominance := dominance_setSsa a f n ops
  made _ _ := .inl

end Grows

section

variable (h : Quiet σ τ)

include h

theorem Quiet.grows : Grows f σ.2 τ.2 where
  program := h.program
  references := h.references
  size := Nat.le_of_eq h.size.symm
  alike i _ := h.alike i
  instrs n := by simp only [instrs, nodeCode, functionCode, h.code]
  dominance := by simp only [dominance, functionCode, h.code]
  made r j hj := (h.made r j hj).imp_right (h.size ▸ ·)

theorem Quiet.ssa (n : NodeId) : τ.2.ssa f n = σ.2.ssa f n := by
  simp [Analysis.ssa, Analysis.nodeCode, Analysis.functionCode, h.code]

theorem Quiet.key (i : Nat) : τ.2.key i = σ.2.key i := by
  rw [Analysis.key, h.program, Program.keyOf_congr (h.alike i)]
  rfl

theorem Quiet.current (K : Key) : τ.1.current K = σ.1.current K := by
  rw [h.naming]
  cases K <;> rfl

theorem Quiet.latest (K : Key) : τ.1.latest K = σ.1.latest K := by
  rw [h.naming]
  cases K <;> rfl

end

theorem Enters.ssa (h : Enters f σ τ) (n : NodeId) : τ.2.ssa f n = σ.2.ssa f n := by
  induction h with
  | refl => rfl
  | quiet hq _ ih => exact ih.trans (hq.ssa n)
  | enter v _ _ _ _ ih => exact ih

theorem Enters.current (h : Enters f σ τ) (hi : σ.1.current K = some i) : τ.1.current K = some i := by
  induction h with
  | refl => exact hi
  | quiet hq _ ih => exact ih ((hq.current K).trans hi)
  | @enter s a _ v _ _ hnone _ ih =>
    refine ih ?_
    rw [current_put]
    by_cases hK : K = .inner (a.program.var v).name
    · rw [hK, hnone] at hi
      cases hi
    · rw [if_neg hK]
      exact hi

/-! ## Where versions meet -/

/-- A place where versions meet before it is filled: more than one node, or none, gives them. -/
def IsMeeting (i : Instr) : Prop := ∃ k nodes, i = { op := .phi (.version k) [] nodes } ∧ nodes.length ≠ 1

/-- New versions are given to the places where versions meet. -/
inductive RenewsAll : List Instr → List Instr → State → State → Prop
  | nil (σ : State) : RenewsAll [] [] σ σ
  | snoc {old new : List Instr} {σ τ υ : State} {j : Nat} {nodes : List NodeId} : RenewsAll old new σ τ →
      Renews τ j υ → RenewsAll (old ++ [{ op := .phi (.version j) [] nodes }])
        (new ++ [{ op := .phi (.version τ.2.store.versions.size) [] nodes }]) σ υ

/-- Two states differ only in the operations of a node. -/
structure Sets (f : FunctionId) (n : NodeId) (ops : List Instr) (σ τ : State) : Prop where
  naming : τ.1 = σ.1
  program : τ.2.program = σ.2.program
  store : τ.2.store = σ.2.store
  ssa : ∀ m, τ.2.ssa f m = if m = n then ops else σ.2.ssa f m
  instrs : ∀ m, τ.2.instrs f m = σ.2.instrs f m
  dominance : τ.2.dominance f = σ.2.dominance f

namespace Sets

variable {ops : List Instr}

theorem refl (f : FunctionId) (n : NodeId) (σ : State) : Sets f n (σ.2.ssa f n) σ σ where
  naming := rfl
  program := rfl
  store := rfl
  ssa m := by
    by_cases h : m = n
    · rw [if_pos h, h]
    · rw [if_neg h]
  instrs _ := rfl
  dominance := rfl

variable (h : Sets f n ops σ τ)

include h

theorem key (i : Nat) : τ.2.key i = σ.2.key i := by
  rw [Analysis.key, Analysis.key, h.program, h.store]

theorem grows : Grows f σ.2 τ.2 where
  program := h.program
  references := by rw [h.store]
  size := Nat.le_of_eq (by rw [h.store])
  alike i _ := by rw [h.store]; exact .refl _
  instrs := h.instrs
  dominance := h.dominance
  made r j hj := .inl (h.store ▸ hj)

theorem renews (hr : Renews τ j τ') : ∃ σ', Renews σ j σ' ∧ Sets f n ops σ' τ' := by
  obtain ⟨l, hl, rfl⟩ := hr
  rw [h.key, h.naming] at hl
  refine ⟨_, ⟨l, hl, rfl⟩, ?_⟩
  have hstore : τ.2.addVersion (τ.2.program.next (τ.2.store.version j) (τ.2.store.version l)) =
      τ.2.addVersion (σ.2.program.next (σ.2.store.version j) (σ.2.store.version l)) := by
    rw [h.program, h.store]
  rw [hstore, h.key, h.naming, h.store]
  refine ⟨rfl, h.program, ?_, h.ssa, h.instrs, h.dominance⟩
  simp [addVersion, h.store]

theorem set (ops' : List Instr) : Sets f n ops' σ (τ.1, τ.2.setSsa f n ops') where
  naming := h.naming
  program := h.program
  store := h.store
  ssa m := by
    rw [ssa_setSsa, h.ssa]
    by_cases hm : m = n
    · rw [if_pos hm, if_pos hm]
    · rw [if_neg hm, if_neg hm, if_neg hm]
  instrs m := (instrs_setSsa τ.2 f n m ops').trans (h.instrs m)
  dominance := (dominance_setSsa τ.2 f n ops').trans h.dominance

end Sets

/-- The state in which a node is begun. -/
def entering (n : NodeId) (σ : State) : State := ({ σ.1 with visited := n :: σ.1.visited, parts := [] }, σ.2)

/-! ## Invariants -/

/-- Renaming keeps a property of states, since each elementary change keeps it. -/
structure Stable (f : FunctionId) (P : State → Prop) : Prop where
  quiet {σ τ : State} : P σ → Quiet σ τ → P τ
  enter {s : Naming} {a : Analysis} {v : VariableId} : P (s, a) → a.program.isLocalVariable v = true → a.Mentions f v →
    s.current (.inner (a.program.var v).name) = none →
    P (s.put (.inner (a.program.var v).name) a.store.versions.size, a.addVersion { variable_ := v })
  renews {σ τ : State} {j : Nat} : P σ → Renews σ j τ → P τ
  sets {σ τ : State} {n : NodeId} {ops : List Instr} : P σ → Sets f n ops σ τ → P τ

namespace Stable

variable (hP : Stable f P) (h : P σ)

include hP h

theorem enters (he : Enters f σ τ) : P τ := by
  induction he with
  | refl => exact h
  | quiet hq _ ih => exact ih (hP.quiet h hq)
  | enter v hv hm hnone _ ih => exact ih (hP.enter h hv hm hnone)

theorem adding (i : Instr) : P (adding f n i σ) :=
  hP.sets h ((Sets.refl f n σ).set _)

theorem step (hs : Step f n new σ τ) : P τ := by
  cases hs with
  | enters he => exact hP.enters h he
  | keep _ _ _ => exact hP.adding h _
  | write _ _ _ hr _ => exact hP.adding (hP.renews h hr) _
  | part _ _ _ hr _ hq => exact hP.adding (hP.quiet (hP.adding (hP.renews h hr) _) hq) _
  | callback _ hr => exact hP.adding (hP.renews h hr) _

theorem steps (hs : Steps f n new σ τ) : P τ := by
  induction hs with
  | nil => exact h
  | cons hs _ ih => exact ih (hP.step h hs)

theorem renewsAll (hs : RenewsAll old new σ τ) : P τ := by
  induction hs with
  | nil => exact h
  | snoc _ hr ih => exact hP.renews (ih h) hr

theorem meeting (hall : RenewsAll old new σ τ) (hs : Sets f n ops τ υ) : P υ :=
  hP.sets (hP.renewsAll h hall) hs

end Stable

theorem Renews.grows (h : Renews σ j τ) : Grows f σ.2 τ.2 := by
  obtain ⟨l, -, rfl⟩ := h
  exact .addVersion f _ _

theorem Renews.visited (h : Renews σ j τ) : τ.1.visited = σ.1.visited := by
  obtain ⟨l, -, rfl⟩ := h
  exact visited_put _ _ _

theorem stable_grows : Stable f fun τ => Grows f a τ.2 where
  quiet h hq := h.trans hq.grows
  enter h _ _ _ := h.trans (.addVersion f _ _)
  renews h hr := h.trans hr.grows
  sets h hs := h.trans hs.grows

theorem stable_visited : Stable f fun τ => τ.1.visited = done where
  quiet h hq := (congrArg visited hq.naming).trans h
  enter h _ _ _ := (visited_put _ _ _).trans h
  renews h hr := hr.visited.trans h
  sets h hs := hs.naming ▸ h

theorem Enters.grows (h : Enters f σ τ) : Grows f σ.2 τ.2 := stable_grows.enters (.refl f _) h

theorem Enters.visited (h : Enters f σ τ) : τ.1.visited = σ.1.visited := stable_visited.enters rfl h

theorem grows_adding : Grows f σ.2 (adding f n i σ).2 :=
  .setSsa f n σ.2 _

theorem Step.grows (h : Step f n new σ τ) : Grows f σ.2 τ.2 := stable_grows.step (.refl f _) h

theorem Steps.grows (h : Steps f n new σ τ) : Grows f σ.2 τ.2 := stable_grows.steps (.refl f _) h

theorem Steps.visited (h : Steps f n new σ τ) : τ.1.visited = σ.1.visited := stable_visited.steps rfl h

theorem RenewsAll.grows (h : RenewsAll old new σ τ) : Grows f σ.2 τ.2 := stable_grows.renewsAll (.refl f _) h

theorem RenewsAll.visited (h : RenewsAll old new σ τ) : τ.1.visited = σ.1.visited :=
  (stable_visited (f := 0)).renewsAll rfl h

/-! ## True tables -/

/-- What the tables have under a key is a version of it. -/
structure Tabled (σ : State) : Prop where
  current : ∀ K i, σ.1.current K = some i → i < σ.2.store.versions.size ∧ σ.2.key i = K
  latest : ∀ K i, σ.1.latest K = some i → i < σ.2.store.versions.size ∧ σ.2.key i = K

theorem Tabled.of_grows (h : Tabled (s, a)) (hg : Grows f a b)
    (hcur : ∀ K, t.current K = s.current K) (hlat : ∀ K, t.latest K = s.latest K) : Tabled (t, b) where
  current K i hi := by
    obtain ⟨hlt, hkey⟩ := h.current K i (hcur K ▸ hi)
    exact ⟨Nat.lt_of_lt_of_le hlt hg.size, (hg.key hlt).trans hkey⟩
  latest K i hi := by
    obtain ⟨hlt, hkey⟩ := h.latest K i (hlat K ▸ hi)
    exact ⟨Nat.lt_of_lt_of_le hlt hg.size, (hg.key hlt).trans hkey⟩

theorem Tabled.put (h : Tabled (s, a)) (hx : a.program.keyOf x = K) :
    Tabled (s.put K a.store.versions.size, a.addVersion x) := by
  have hput : ∀ {K' i} {old : Option Nat}, (∀ i, old = some i → i < a.store.versions.size ∧ a.key i = K') →
      (if K' = K then some a.store.versions.size else old) = some i →
      i < (a.addVersion x).store.versions.size ∧ (a.addVersion x).key i = K' := by
    intro K' i old hold hi
    rw [size_addVersion, key_addVersion]
    split at hi
    next hK =>
      cases hi
      exact ⟨Nat.lt_succ_self _, by rw [if_pos rfl, hx, hK]⟩
    next =>
      obtain ⟨hlt, hkey⟩ := hold i hi
      exact ⟨Nat.lt_succ_of_lt hlt, by rw [if_neg (Nat.ne_of_lt hlt), hkey]⟩
  exact ⟨fun K' _ hi => hput (h.current K') (by rwa [current_put] at hi),
    fun K' _ hi => hput (h.latest K') (by rwa [latest_put] at hi)⟩

theorem Tabled.entering (h : Tabled σ) : Tabled (entering n σ) :=
  h.of_grows (.refl 0 σ.2) (fun K => by cases K <;> rfl) (fun K => by cases K <;> rfl)

theorem stable_tabled : Stable f Tabled where
  quiet h hq := h.of_grows (hq.grows (f := f)) hq.current hq.latest
  enter h hv _ _ := h.put (Program.keyOf_first hv)
  renews h hr := by
    obtain ⟨l, -, rfl⟩ := hr
    exact h.put Program.keyOf_next
  sets h hs := h.of_grows hs.grows (fun K => by rw [hs.naming]) (fun K => by rw [hs.naming])

/-! ## Steps only add -/

theorem Renews.ssa (h : Renews σ j τ) (m : NodeId) : τ.2.ssa f m = σ.2.ssa f m := by
  obtain ⟨l, -, rfl⟩ := h
  rfl

theorem ssa_adding {i : Instr} {σ : State} :
    (adding f n i σ).2.ssa f m = if m = n then σ.2.ssa f n ++ [i] else σ.2.ssa f m :=
  ssa_setSsa σ.2 f n m _

theorem Step.ssa (h : Step f n new σ τ) (m : NodeId) : τ.2.ssa f m = if m = n then σ.2.ssa f n ++ new else σ.2.ssa f m := by
  have hone : ∀ {υ : State} (i : Instr), (∀ m, υ.2.ssa f m = σ.2.ssa f m) →
      (adding f n i υ).2.ssa f m = if m = n then σ.2.ssa f n ++ [i] else σ.2.ssa f m := fun i hυ => by
    rw [ssa_adding, hυ, hυ]
  cases h with
  | enters he =>
    rw [he.ssa, List.append_nil]
    by_cases hm : m = n
    · rw [if_pos hm, hm]
    · rw [if_neg hm]
  | keep _ _ _ => exact hone _ fun _ => rfl
  | write _ _ _ hr _ => exact hone _ hr.ssa
  | part _ _ _ hr _ hq =>
    rw [ssa_adding, hq.ssa, hq.ssa, ssa_adding, ssa_adding, hr.ssa, hr.ssa]
    by_cases hm : m = n <;> simp [hm]
  | callback _ hr => exact hone _ hr.ssa

theorem Steps.ssa (h : Steps f n new σ τ) (m : NodeId) :
    τ.2.ssa f m = if m = n then σ.2.ssa f n ++ new else σ.2.ssa f m := by
  induction h with
  | nil σ =>
    by_cases hm : m = n <;> simp [hm]
  | cons hs _ ih =>
    rw [ih, hs.ssa, hs.ssa]
    by_cases hm : m = n <;> simp [hm]

theorem RenewsAll.ssa (h : RenewsAll old new σ τ) (m : NodeId) : τ.2.ssa f m = σ.2.ssa f m := by
  induction h with
  | nil => rfl
  | snoc _ hr ih => exact (hr.ssa m).trans ih

/-! ## Keys under which nothing is entered -/

/-- No variable is entered under a key. -/
def Shut (f : FunctionId) (K : Key) (σ : State) : Prop :=
  (∃ i, σ.1.current K = some i) ∨
    ∀ w, σ.2.Mentions f w → σ.2.program.isLocalVariable w = true → .inner (σ.2.program.var w).name ≠ K

theorem Shut.grows (h : Shut f K σ) (hg : Grows f σ.2 τ.2)
    (hcur : ∀ i, σ.1.current K = some i → ∃ j, τ.1.current K = some j) : Shut f K τ := by
  rcases h with ⟨i, hi⟩ | h
  · exact .inl (hcur i hi)
  · refine .inr fun w hw hl => ?_
    rw [hg.program] at hl ⊢
    exact h w ((hg.mentions w).1 hw) hl

theorem Shut.ne (h : Shut f K (s, a)) (hv : a.program.isLocalVariable v = true) (hm : a.Mentions f v)
    (hnone : s.current (.inner (a.program.var v).name) = none) : K ≠ .inner (a.program.var v).name := by
  rintro rfl
  rcases h with ⟨i, hi⟩ | hno
  · rw [hnone] at hi
    cases hi
  · exact hno v hm hv rfl

theorem stable_shut : Stable f (Shut f K) where
  quiet h hq := h.grows hq.grows fun i hi => ⟨i, (hq.current K).trans hi⟩
  enter h hv hm hnone := by
    refine h.grows (Grows.addVersion f _ _) fun i hi => ⟨i, ?_⟩
    rw [current_put, if_neg (h.ne hv hm hnone)]
    exact hi
  renews h hr := by
    refine h.grows hr.grows fun i hi => ?_
    obtain ⟨l, -, rfl⟩ := hr
    rw [current_put]
    split
    · exact ⟨_, rfl⟩
    · exact ⟨i, hi⟩
  sets h hs := h.grows hs.grows fun i hi => ⟨i, by rw [hs.naming]; exact hi⟩

theorem Shut.entering (h : Shut f K σ) : Shut f K (entering n σ) :=
  h.grows (.refl f _) fun i hi => ⟨i, by cases K <;> exact hi⟩

theorem Enters.current_eq (h : Enters f σ τ) (hK : Shut f K σ) : τ.1.current K = σ.1.current K := by
  induction h with
  | refl => rfl
  | quiet hq _ ih => exact (ih (stable_shut.quiet hK hq)).trans (hq.current K)
  | enter v hv hm hnone _ ih =>
    rw [ih (stable_shut.enter hK hv hm hnone), current_put, if_neg (hK.ne hv hm hnone)]

/-! ## Parts that were met -/

theorem Quiet.of_held (h : Quiet σ τ) (hj : Held τ j) : Held σ j := by
  rcases hj with ⟨K, hK⟩ | ⟨K, hK⟩ | ⟨r, hr, hv⟩
  · exact .inl ⟨K, h.current K ▸ hK⟩
  · exact .inr (.inl ⟨K, h.latest K ▸ hK⟩)
  · exact h.held r hr j hv

theorem held_put (h : Held (s.put K a.store.versions.size, a.addVersion x) j) :
    j = a.store.versions.size ∨ Held (s, a) j := by
  rcases h with ⟨K', hK⟩ | ⟨K', hK⟩ | ⟨r, hr, hv⟩
  · rw [current_put] at hK
    split at hK
    · exact .inl (Option.some.inj hK).symm
    · exact .inr (.inl ⟨K', hK⟩)
  · rw [latest_put] at hK
    split at hK
    · exact .inl (Option.some.inj hK).symm
    · exact .inr (.inr (.inl ⟨K', hK⟩))
  · exact .inr (.inr (.inr ⟨r, by simpa using hr, hv⟩))

theorem Enters.parts (h : Enters f σ τ) : σ.1.parts ⊆ τ.1.parts := by
  induction h with
  | refl => exact List.Subset.refl _
  | quiet hq _ ih => exact List.Subset.trans hq.parts ih
  | enter v _ _ _ _ ih => simpa using ih

theorem stable_closed : Stable f Closed where
  quiet hc hq := hq.closed hc
  enter hc _ _ _ := by simpa [Closed, addVersion] using hc
  renews hc hr := by
    obtain ⟨l, -, rfl⟩ := hr
    simpa [Closed, addVersion] using hc
  sets hc hs := by
    unfold Closed
    rw [hs.naming, hs.store]
    exact hc

end Rename

end ContractAudit
