import ContractAudit.Proofs.Checks
import ContractAudit.Proofs.Tracing

/-! # Reads gather the definitions that come to them

Where versions of the variable meet as they should. Both the condition and what it is for can be evaluated for a given
function, and there are functions with loops and branches where places are missing.
-/

namespace ContractAudit

open Ir List Option Analyze Analysis

/-! ## Checking where versions meet -/

namespace Analysis

variable {a : Analysis}

/-- A place where versions meet has the version that leaves a node, unless a version is made below the one that makes
it. -/
def bringsFrom (a : Analysis) (f : FunctionId) (q : Nat → Bool) (D : Dominance) (values : List Value) (p z : NodeId) :
    Bool :=
  (lastMade q (a.acts f z)).all fun k => values.any (Value.same (.version k)) ||
    (D.dominatorsOf p).any fun x => x != z && (D.dominatorsOf x).contains z && (lastMade q (a.acts f x)).isSome

def isPlaced (a : Analysis) (f : FunctionId) (q : Nat → Bool) : Bool :=
  match (a.flow f).dominance with
  | .error _ => false
  | .ok D =>
    ((a.nodeIds f).all fun z => (lastMade q (a.acts f z)).isNone ||
      (D.frontierOf z).all fun n => (lastMade q (a.meets f n)).isSome) &&
    (a.nodeIds f).all fun p => ((a.flow f).sons p).all fun n => (a.meets f n).all fun i => match i.op with
      | .phi (.version r) values _ => !q r || (D.dominatorsOf p).all (a.bringsFrom f q D values p)
      | _ => true

theorem eq_version_of_same (h : Value.same (.version k) v = true) : v = .version k := by
  cases v with
  | version j => rw [beq_iff_eq.1 h]
  | _ => simp [Value.same] at h

theorem exists_phi_of_meeting {i : Instr} (h : i.isMeeting = true) (hr : i.made? = some r) :
    ∃ values nodes, i.op = .phi (.version r) values nodes := by
  unfold Instr.isMeeting at h
  split at h
  · rename_i w values nodes hop
    rw [Instr.made?_eq_some, hop] at hr
    exact ⟨values, nodes, by rw [hop, some.inj hr]⟩
  · cases h

theorem placed_of_isPlaced (hg : (a.flow f).Regular e) (h : a.isPlaced f q = true) : a.Placed f e q := by
  obtain ⟨D, hD, hspec⟩ := Flow.dominance_spec hg
  rw [isPlaced, hD] at h
  obtain ⟨hmeeting, hvalues⟩ := Bool.and_eq_true_iff.1 h
  constructor
  · intro z n hmakes hfrontier _
    have hz : z ∈ a.nodeIds f := hg.reaches_mem (hfrontier.choose_spec.2.2.1).reaches
    rcases Bool.or_eq_true_iff.1 (all_eq_true.1 hmeeting z hz) with hnone | hall
    · exact (hmakes (isNone_iff_eq_none.1 hnone)).elim
    · exact isSome_iff_ne_none.1 (all_eq_true.1 hall n ((hspec.frontier z n).2 (.inl hfrontier)))
  · intro n i hi r hr hq _ p k hs hleaves
    obtain ⟨z, hz, hk, hlow⟩ := hleaves
    obtain ⟨values, nodes, hop⟩ := exists_phi_of_meeting (mem_filter.1 hi).2 hr
    refine ⟨values, nodes, hop, ?_⟩
    have hp : p ∈ a.nodeIds f := hg.reaches_mem hz.1
    have hplace := all_eq_true.1 (all_eq_true.1 (all_eq_true.1 hvalues p hp) n hs) i hi
    rw [hop] at hplace
    simp only [hq] at hplace
    have hbrings := all_eq_true.1 hplace z ((hspec.dominators p z hz.1).2 hz)
    rw [bringsFrom, hk] at hbrings
    rcases Bool.or_eq_true_iff.1 hbrings with hany | hany
    · obtain ⟨w, hw, hsame⟩ := any_eq_true.1 hany
      rwa [← eq_version_of_same hsame]
    · -- A version that is made below would be the one that leaves.
      obtain ⟨x, hx, hbelow⟩ := any_eq_true.1 hany
      simp only [Bool.and_eq_true, bne_iff_ne, contains_iff_mem] at hbelow
      have hxp := (hspec.dominators p x hz.1).1 hx
      have hzx := (hspec.dominators x z hxp.reaches).1 hbelow.1.2
      rw [hlow x ⟨hzx, hbelow.1.1.symm⟩ hxp] at hbelow
      cases hbelow.2

/-! ## Checking what reads gather -/

def readsFirst (q : Nat → Bool) (k : Nat) : List Instr → Bool
  | [] => false
  | i :: rest => !i.op.isPhi && i.op.reads.any (Value.same (.version k)) && q k ||
      (lastMade q [i]).isNone && readsFirst q k rest

def comesUp (a : Analysis) (f : FunctionId) (q : Nat → Bool) (k : Nat) : List NodeId → NodeId → List Instr → Bool
  | [], _, ops => readsFirst q k ops
  | m :: way, n, ops => (lastMade q ops).isNone && ((a.flow f).sons n).contains m && a.comesUp f q k way m (a.body f m)

theorem upcoming_of_readsFirst (h : readsFirst q k ops = true) : a.Upcoming f q n ops k := by
  induction ops with
  | nil => cases h
  | cons i rest ih =>
    rcases Bool.or_eq_true_iff.1 h with hread | hpass
    · simp only [Bool.and_eq_true, Bool.not_eq_true'] at hread
      obtain ⟨w, hw, hsame⟩ := any_eq_true.1 hread.1.2
      rw [eq_version_of_same hsame] at hw
      exact .read hread.1.1 hw hread.2
    · rw [Bool.and_eq_true, isNone_iff_eq_none] at hpass
      exact .pass hpass.1 (ih hpass.2)

theorem upcoming_of_comesUp (h : a.comesUp f q k way n ops = true) : a.Upcoming f q n ops k := by
  induction way generalizing n ops with
  | nil => exact upcoming_of_readsFirst h
  | cons m way ih =>
    simp only [comesUp, Bool.and_eq_true, isNone_iff_eq_none, contains_iff_mem] at h
    exact .of_quiet h.1.1 h.1.2 (ih h.2)

def isClosed (a : Analysis) (f : FunctionId) (ks : List Nat) : Bool :=
  (a.functionCode f).nodes.all fun c => c.ssa.all fun i => match i.op with
    | .phi (.version k) values _ => !ks.contains k || values.all fun
      | .version j => ks.contains j
      | _ => true
    | _ => true

theorem Gathers.mem (h : a.Gathers f k l) (hks : a.isClosed f ks = true) (hk : k ∈ ks) : l ∈ ks := by
  induction h with
  | refl => exact hk
  | @phi n i k j l values nodes hi hop hj _ ih =>
    have hcode := all_eq_true.1 (nodeCode_of_all (a := a) (f := f) rfl hks n) i hi
    rw [hop] at hcode
    have hvalues := (Bool.or_eq_true_iff.1 hcode).resolve_left (by simpa using hk)
    exact ih (contains_iff_mem.1 (all_eq_true.1 hvalues _ hj))

/-- A definition at a place comes to a read that does not gather it: what the version that is read is made of is among
the versions `ks`, and the version of the definition is not. -/
def missesAt (a : Analysis) (f : FunctionId) (q : Nat → Bool) (o : NodeId) (p : Nat) (way : List NodeId) (k' : Nat)
    (ks : List Nat) : Bool :=
  a.comesUp f q k' way o ((a.body f o).drop (p + 1)) && a.isClosed f ks && ks.contains k' &&
    (((a.body f o)[p]?).bind Instr.made?).any fun k => q k && !ks.contains k

theorem not_sound_of_missesAt (ho : (a.flow f).Reaches e o) (h : a.missesAt f q o p way k' ks = true) : ¬ a.Sound f e q := by
  intro hsound
  simp only [missesAt, Bool.and_eq_true, contains_iff_mem] at h
  obtain ⟨⟨⟨hup, hclosed⟩, hk'⟩, hdefined⟩ := h
  obtain ⟨k, hmade, hk⟩ := (any_eq_true _ _).1 hdefined
  obtain ⟨d, hd, hdk⟩ := bind_eq_some_iff.1 hmade
  simp only [Bool.and_eq_true, Bool.not_eq_true', contains_eq_mem, decide_eq_false_iff_not] at hk
  obtain ⟨hp, hget⟩ := List.getElem?_eq_some_iff.1 hd
  have hbody : a.body f o = (a.body f o).take p ++ d :: (a.body f o).drop (p + 1) := by
    rw [← hget, ← drop_eq_getElem_cons hp, take_append_drop]
  have hgathers := hsound o _ d _ k k' ho hbody hdk hk.1 (upcoming_of_comesUp hup)
  exact hk.2 (hgathers.mem hclosed hk')

end Analysis

namespace Rename

theorem Course.flow (h : Course f e states a a') : a'.flow f = a.flow f := by
  obtain ⟨hsame, -, hbegun, hready, hwalks, hamends, -⟩ := h
  have hgrows := Amends.grows hamends
  exact hgrows.flow.trans ((hwalks.frame hready).2.1.flow.trans (hbegun.grows.flow.trans hsame.flow))

/-! ## Local variables -/

/-- `uint i = 0; while (i < c) { i = i + 1; } return i;` for a parameter `c`. -/
def countingLoop : Analysis :=
  .ofLines ["c", "i"] [0] [] none [
    .of .entryPoint [1] [],
    .of .declaration [2] [0] [.assign (.var 1) (.number 0)] [] [1] (some 1),
    .of .startLoop [3] [1],
    .of .loopBranch [4, 5] [2, 4] [.binary (.temporary 0) .less (.var 1) (.var 0), .condition (.temporary 0)] [1, 0],
    .of .expression [3] [3] [.binary (.temporary 1) .addition (.var 1) (.number 1), .assign (.var 1) (.temporary 1)] [1] [1],
    .of .endLoop [6] [3],
    .of .returns [] [5] [.returns [.var 1]] [1]]

/-- `uint i = 0; do { r = i; i = i + 1; } while (i < 10); return r;` for a result `r`. -/
def untilTen : Analysis :=
  .ofLines ["r", "i"] [] [0] none [
    .of .entryPoint [1] [],
    .of .declaration [2] [0] [.assign (.var 1) (.number 0)] [] [1] (some 1),
    .of .startLoop [3] [1],
    .of .expression [4] [2, 5] [.assign (.var 0) (.var 1)] [1] [0],
    .of .expression [5] [3] [.binary (.temporary 0) .addition (.var 1) (.number 1), .assign (.var 1) (.temporary 0)] [1] [1],
    .of .loopBranch [3, 6] [4] [.binary (.temporary 1) .less (.var 1) (.number 10), .condition (.temporary 1)] [1],
    .of .endLoop [7] [5],
    .of .returns [] [6] [.returns [.var 0]] [0]]

/-- `s = 0; if (c) { s = 1; } uint x = s;` for a parameter `c` and a state variable `s`. -/
def branchedWrite : Analysis :=
  .ofLines ["c", "x"] [0] [] (some "s") [
    .of .entryPoint [1] [],
    .of .expression [2] [0] [.assign (.var 2) (.number 0)] [] [2],
    .of .branch [3, 4] [1] [.condition (.var 0)] [0],
    .of .expression [4] [2] [.assign (.var 2) (.number 1)] [] [2],
    .of .endIf [5] [3, 2],
    .of .declaration [] [4] [.assign (.var 1) (.var 2)] [2] [1] (some 1)]

/-- `uint x = s; while (c) { x = s; s = 1; } s = 2;` for a parameter `c` and a state variable `s`. -/
def loopedWrite : Analysis :=
  .ofLines ["c", "x"] [0] [] (some "s") [
    .of .entryPoint [1] [],
    .of .declaration [2] [0] [.assign (.var 1) (.var 2)] [2] [1] (some 1),
    .of .startLoop [3] [1],
    .of .loopBranch [4, 6] [2, 5] [.condition (.var 0)] [0],
    .of .expression [5] [3] [.assign (.var 1) (.var 2)] [2] [1],
    .of .expression [3] [4] [.assign (.var 2) (.number 1)] [] [2],
    .of .endLoop [7] [3],
    .of .expression [] [6] [.assign (.var 2) (.number 2)] [] [2]]

end Rename

end ContractAudit
