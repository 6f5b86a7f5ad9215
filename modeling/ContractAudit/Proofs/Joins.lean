import ContractAudit.Proofs.Checks
import ContractAudit.Proofs.Tracing

/-! # Names at the places where versions meet

What a place where versions meet takes bears the name of its variable. It is a version of this variable if nothing else that
the function writes, and no other variable that begins in it, bears the name.
-/

namespace ContractAudit

open Ir Program Analysis Analyze

/-- Under a name, the operations of a function write versions of one variable only, and no other begins or is declared. -/
def Analysis.OnlyNamed (a : Analysis) (f : FunctionId) (name : String) (v : VariableId) : Prop :=
  (∀ m, ∀ i ∈ a.ssa f m, ∀ w, Rename.writtenName? a i.op = some (w, name) →
    ∃ k, w = .version k ∧ (a.store.version k).variable_ = v) ∧
  ∀ u standIn, (a.Begins f u ∨ ∃ m, ((a.flow f).node m).declared = some u) →
    a.program.versionName { variable_ := u, standIn } = name → u = v

namespace Rename

/-- The places where versions of several nodes meet have nothing but what their origins have under the name. -/
def Filled (f : FunctionId) (first : Table String Nat) (a : Analysis) : Prop :=
  ∀ n, ∀ i ∈ a.ssa f n, ∀ r values nodes, i.op = .phi (.version r) values nodes → nodes.length ≠ 1 →
    Taken f first a r nodes values

/-- They have nothing yet. -/
def Unfilled (f : FunctionId) (a : Analysis) : Prop :=
  ∀ n, ∀ i ∈ a.ssa f n, ∀ r values nodes, i.op = .phi (.version r) values nodes → nodes.length ≠ 1 → values = []

theorem RenewsAll.unfilled (h : RenewsAll old new σ τ) :
    ∀ i ∈ new, ∃ k nodes, i = { op := .phi (.version k) [] nodes } := by
  induction h with
  | nil => simp
  | snoc _ _ ih => exact List.forall_mem_append.2 ⟨ih, List.forall_mem_singleton.2 ⟨_, _, rfl⟩⟩

theorem Unfilled.converts (hr : Ready f e σ) (h : Unfilled f σ.2) (hc : Converts f n σ τ) : Unfilled f τ.2 := by
  obtain ⟨-, -, -, hssa⟩ := hc.frame hr
  obtain ⟨phis, new, υ, υ', hall, -, hsteps, hn⟩ := hc.steps hr.tabled (hr.prepared.plain n)
  intro m i hi r values nodes hop hlen
  by_cases hm : m = n
  · rw [hm, hn] at hi
    rcases List.mem_append.1 hi with hi | hi
    · obtain ⟨k, nodes', rfl⟩ := hall.unfilled i hi
      cases hop
      rfl
    · rcases hsteps.shape i hi with hphi | ⟨k, j, rfl⟩ | ⟨k, vs, c, u, hcall⟩
      · simp [hop, Op.isPhi] at hphi
      · cases hop
        exact absurd rfl hlen
      · rw [hcall] at hop
        cases hop
  · exact h m i (hssa m hm ▸ hi) r values nodes hop hlen

theorem Amend.filled (hb : Bounded f σ.2) (hf : Filled f first σ.2) (h : Amend f (Taken f first) σ τ) :
    Filled f first τ.2 := by
  have hlater := h.later
  -- what a place has taken it has taken later as well
  have htaken {n : NodeId} {i : Instr} {r : Nat} {nodes : List NodeId} {values : List Value} (hi : i ∈ σ.2.ssa f n)
      (hr : i.op.lvalue? = some (.version r)) (hv : Taken f first σ.2 r nodes values) :
      Taken f first τ.2 r nodes values := by
    rw [Taken, hlater.grows.program, versionName_congr (hlater.grows.alike r (hb.distinct.lt_of_mem hi hr))]
    exact fun w hw => (hv w hw).imp fun m hm => ⟨hm.1, hm.2.later hlater hb⟩
  intro n i hi r values nodes hop hlen
  rcases h.amended.mem hi with hi | ⟨w, j, hone⟩ | ⟨r', nodes', values', x, hold, rfl, hv⟩
  · exact htaken hi (by rw [hop]; rfl) (hf n i hi r values nodes hop hlen)
  · rw [hone] at hop
    cases hop
    exact absurd rfl hlen
  · cases hop
    exact htaken hold rfl hv

theorem Amends.filled (hb : Bounded f σ.2) (hf : Filled f first σ.2) (h : Amends f (Taken f first) σ τ) :
    Filled f first τ.2 := by
  induction h with
  | refl => exact hf
  | tail hs h ih => exact h.filled (hb.amends hs) ih

theorem Course.filled (h : Course f e states a a')
    (hparts : ∀ r j, a.store.versionParts.getD r none = some (.version j) → j < a.store.versions.size) :
    ∃ first, Filled f first a' ∧ ∀ x k, Table.find? x first = some k →
      a'.program.versionName (a'.store.version k) = x ∧ a'.Begins f (a'.store.version k).variable_ := by
  obtain ⟨hsame, hc, hbegun, hready, hwalks, hamends, hcompletes⟩ := h
  rename_i b σ τ visits s
  have hg : Grows f b τ.2 := hbegun.grows.trans (hwalks.frame hready).2.1
  obtain ⟨hdistinct, hunfilled⟩ := (hwalks.keeps (P := fun σ => Distinct f σ.2 ∧ Unfilled f σ.2) hready
    ⟨hbegun.distinct, fun n i hi r values nodes hop _ => by
      obtain ⟨k, nodes', rfl, -⟩ := hbegun.meeting n i hi
      cases hop
      rfl⟩
    (fun hr _ hP hc => ⟨hP.1.converts hr.tabled hr.prepared hc, hP.2.converts hr hc⟩) fun _ _ hτ => hτ).1
  have hb : Bounded f τ.2 :=
    Bounded.grows ⟨⟨fun n p k hk => by simp [madeAt, hc.fresh] at hk, fun n p _ _ k hk => by
      simp [madeAt, hc.fresh] at hk⟩, hc.prepared.parts, hsame.store ▸ hparts⟩ hg hdistinct
  refine ⟨σ.1.locals, Amends.filled hb (fun n i hi r values nodes hop hlen => ?_) (hcompletes hb), fun x k hk => ?_⟩
  · rw [hunfilled n i hi r values nodes hop hlen]
    simp [Taken]
  · obtain ⟨hlt, hkey, hbegins⟩ := hbegun.locals x k hk
    have hlater : Grows f σ.2 a' := (hwalks.frame hready).2.1.trans (Amends.grows hamends)
    have hprogram : a'.program = b.program := hlater.program.trans hbegun.grows.program
    refine ⟨?_, by simpa [Begins, nodeIds, flow, hprogram, (hlater.alike k hlt).1] using hbegins⟩
    rw [hlater.program, versionName_congr (hlater.alike k hlt)]
    rw [key, keyOf] at hkey
    split at hkey
    · exact Key.inner.inj hkey
    · cases hkey

/-- `s = 5; uint x; if (c) { x = g(); } else { x = 3; } return (x, s);` for a parameter `c`, a state variable `s` and a
function `g` that is not known. The state variable has a name of its own, or that of the local one. -/
def branchedCall (state : String) : Analysis :=
  .ofLines ["c", "x"] [0] [] (some state) [
    .of .entryPoint [1] [],
    .of .expression [2] [0] [.assign (.var 2) (.number 5)] [] [2],
    .of .declaration [3] [1] [] [] [] (some 1),
    .of .branch [4, 5] [2] [.condition (.var 0)] [0],
    .of .expression [6] [3] [.call { kind := .internal none "g" "C", result := some (.temporary 0) },
      .assign (.var 1) (.temporary 0)] [] [1],
    .of .expression [6] [3] [.assign (.var 1) (.number 3)] [] [1],
    .of .endIf [7] [4, 5],
    .of .returns [] [6] [.returns [.var 1, .var 2]] [1, 2]]

def joinsTwo (a : Analysis) : Bool := match a.ssa 0 6 with
  | [⟨.phi (.version _) values nodes, _⟩] => values.length == 2 && nodes.length == 2
  | _ => false

def joinsOther (a : Analysis) : Bool := match a.ssa 0 6 with
  | [⟨.phi (.version r) (.version k :: _) nodes, _⟩] =>
    nodes.length == 2 && (a.store.version r).variable_ == 1 && (a.store.version k).variable_ == 2
  | _ => false

end Rename

end ContractAudit
