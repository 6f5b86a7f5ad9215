import ContractAudit.Detect.Flows
import ContractAudit.Proofs.Course
import ContractAudit.Proofs.Summaries

/-! # Writes that are lost

A second write to a variable is reported on a way on which the first one has not been read, but perhaps where another variable
is declared: what declarations read is not seen.
-/

namespace ContractAudit.Detect

open Ir Analysis Relation

variable (a : Analysis) (f : FunctionId)

/-- A way from the entry of a function has come to a node, with operations that are left to do there and some that are done, the
last one first, each with its own node. -/
inductive Way : NodeId → List Op → List (NodeId × Op) → Prop
  | entry {e : NodeId} : (a.flow f).entry = some e → Way e ((a.instrs f e).map (·.op)) []
  | op {n : NodeId} {op : Op} {ops : List Op} {done : List (NodeId × Op)} : Way n (op :: ops) done → Way n ops ((n, op) :: done)
  | edge {m n : NodeId} {done : List (NodeId × Op)} : Way m [] done → n ∈ (a.flow f).sons m → Way n ((a.instrs f n).map (·.op)) done

/-- An operation does not read the variable, and calls no function in the contract that leads to one that does. -/
def Spares (v : VariableId) (op : Op) : Prop :=
  v ∉ programVariables op.reads ∧
    ∀ c g name contract, op = .call c → c.kind = .internal (some g) name contract → ∀ h, ReflTransGen a.Calls g h → v ∉ a.stateRead h

/-- The variable was written at a node, and has not been read since then, but perhaps where another one is declared. -/
inductive Stands (v : VariableId) (m : NodeId) : List (NodeId × Op) → Prop
  | written {op : Op} {done : List (NodeId × Op)} : op.lvalue? = some (.target (.var v)) → Stands v m ((m, op) :: done)
  | since {n : NodeId} {op : Op} {done : List (NodeId × Op)} : Stands v m done →
      ((a.flow f).kind n ≠ .declaration → Spares a v op) → Stands v m ((n, op) :: done)

/-- A way comes to a second write while the first one stands. -/
def IsLost (x : LostWrite) : Prop :=
  ∃ op ops done, Way a f x.second (op :: ops) done ∧ op.lvalue? = some (.target (.var x.variable_)) ∧ Spares a x.variable_ op ∧
    Stands a f x.variable_ x.first done

def Holds (w : Pending) (done : List (NodeId × Op)) : Prop :=
  ∀ x ∈ w, isElementaryVariable a.program x.1 ∧ Stands a f x.1 x.2 done

variable {a f} {op : Op} {ops : List Op} {done : List (NodeId × Op)} {lost : List LostWrite}

theorem Holds.spared (h : Holds a f w done) (hx : x ∈ (w.call a op).read a.program (programVariables op.reads)) :
    x ∈ w ∧ Spares a x.1 op := by
  obtain ⟨hcall, hread⟩ := List.mem_filter.1 hx
  have hw : x ∈ w := by
    unfold Pending.call Pending.read Pending.withoutStates at hcall
    grind
  have helementary := (h x hw).1
  refine ⟨hw, by simpa [helementary] using hread, ?_⟩
  rintro ⟨_⟩ g name contract rfl ⟨⟩ k hway hk
  obtain ⟨-, hread⟩ := List.mem_filter.1 hcall
  have hnot : x.1 ∉ a.allStateRead g := by simpa [helementary] using hread
  rw [allStateRead, List.mem_eraseDups, overCallees, List.mem_flatMap] at hnot
  exact hnot ⟨k, mem_withCallees.2 hway, hk⟩

theorem writeStep_holds (hway : Way a f n (op :: ops) done) (hw : Holds a f w done) (hlost : ∀ x ∈ lost, IsLost a f x) :
    Holds a f (writeStep a n (w, lost) op).1 ((n, op) :: done) ∧ ∀ x ∈ (writeStep a n (w, lost) op).2, IsLost a f x := by
  have hholds : Holds a f ((w.call a op).read a.program (programVariables op.reads)) ((n, op) :: done) := by
    intro x hx
    obtain ⟨hxw, hspares⟩ := hw.spared hx
    exact ⟨(hw x hxw).1, .since (hw x hxw).2 fun _ => hspares⟩
  dsimp only [writeStep]
  split
  next v hv =>
    split
    · exact ⟨hholds, hlost⟩
    next helementary =>
      refine ⟨fun x hx => ?_, fun x hx => ?_⟩
      · rcases Table.mem_insert hx with rfl | hx
        · exact ⟨by grind, .written hv⟩
        · exact hholds x hx
      · cases hfound : Table.find? v ((w.call a op).read a.program (programVariables op.reads)) with
        | none => exact hlost x (by simpa [hfound] using hx)
        | some m =>
          rcases (by simpa [hfound] using hx : x ∈ lost ∨ x = ⟨v, m, n⟩) with hx | rfl
          · exact hlost x hx
          · obtain ⟨hxw, hspares⟩ := hw.spared (Table.mem_of_find? hfound)
            exact ⟨op, ops, done, hway, hv, hspares, (hw _ hxw).2⟩
  · exact ⟨hholds, hlost⟩

theorem node_holds (hway : Way a f n ops done) (hw : Holds a f w done) (hlost : ∀ x ∈ lost, IsLost a f x) :
    let s := (if (a.flow f).kind n == .declaration then [] else ops).foldl (writeStep a n) (w, lost)
    ∃ done, Way a f n [] done ∧ Holds a f s.1 done ∧ ∀ x ∈ s.2, IsLost a f x := by
  induction ops generalizing w lost done with
  | nil => exact ⟨done, hway, by simpa using hw, by simpa using hlost⟩
  | cons op ops ih =>
    by_cases hk : (a.flow f).kind n = .declaration
    · simpa [hk] using ih hway.op (fun x hx => ⟨(hw x hx).1, .since (hw x hx).2 fun h => absurd hk h⟩) hlost
    · obtain ⟨hw', hlost'⟩ := writeStep_holds hway hw hlost
      simpa [hk] using ih hway.op hw' hlost'

theorem walkWrites_lost (hway : Way a f n ((a.instrs f n).map (·.op)) done)
    (hw : Holds a f w done) (hs : ∀ x ∈ s.2, IsLost a f x) : ∀ x ∈ (walkWrites a f fuel n w s).2, IsLost a f x := by
  induction fuel generalizing n w s done with
  | zero => exact hs
  | succ fuel ih =>
    rw [walkWrites]
    split
    · exact hs
    next hn =>
      obtain ⟨done', hway', hw', hlost'⟩ := node_holds hway hw hs
      refine List.foldlRecOn (motive := fun s : List NodeId × List LostWrite => ∀ x ∈ s.2, IsLost a f x) _ _ hlost'
        fun t ht m hm => ih (hway'.edge hm) ?_ ht
      split
      · nofun
      · exact hw'

/-- A variable is read where another one is declared, between two writes. -/
def readByDeclaration : Analysis where
  program := {
    variableTable := #[{ kind := .state 0, name := "x", type := some (.elementary (.uint 256)) }, { kind := .inFunction (some 0) none, name := "y" }]
    functionTable := #[{ place := .inContract 0 0, flow := { entry := some 0, order := [0, 1, 2], nodes := #[
      { kind := .entryPoint, sons := [1] }, { kind := .declaration, sons := [2] }, { kind := .expression }] } }] }
  code := #[{ nodes := #[{ instrs := [{ op := .assign (.var 0) messageValue }] }, { instrs := [{ op := .assign (.var 1) (.var 0) }] },
    { instrs := [{ op := .assign (.var 0) messageValue }] }] }]

end ContractAudit.Detect
