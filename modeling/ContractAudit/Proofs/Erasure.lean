import ContractAudit.Proofs.Checks

/-! # Forgetting versions

The operations on versions of a node, without versions and without the places where they meet, are the operations of the
node. This holds for exactly the nodes that are served, up to the options of calls of variables, if names tell variables
apart.
-/

namespace ContractAudit

open Ir Value List Analyze

variable {op : Op}

/-! ## Variables in the place of versions -/

namespace Ir

mutual
def Value.unversioned (s : Store) : Value → Value
  | .version i => .var (s.version i).variable_
  | .versionReference i => .reference i
  | .list items => .list (unversionedAll s items)
  | v => v

def Value.unversionedAll (s : Store) : List Value → List Value
  | [] => []
  | v :: vs => unversioned s v :: unversionedAll s vs
end

/-- The operations with variables in the place of versions, without the places where versions meet. -/
def unversionedOps (s : Store) (ops : List Instr) : List Instr :=
  (ops.filter fun i => !i.op.isPhi).map fun i => { i with op := i.op.map (unversioned s) }

theorem unversionedOps_append (s : Store) (xs ys : List Instr) :
    unversionedOps s (xs ++ ys) = unversionedOps s xs ++ unversionedOps s ys := by
  simp [unversionedOps]

theorem unversionedOps_phis (h : ∀ i ∈ ops, i.op.isPhi = true) : unversionedOps s ops = [] := by
  have hfilter : ops.filter (fun i => !i.op.isPhi) = [] := by
    rw [filter_eq_nil_iff]
    intro i hi
    simp [h i hi]
  rw [unversionedOps, hfilter]
  rfl

theorem unversionedOps_one (h : i.op.isPhi = false) :
    unversionedOps s [i] = [{ i with op := i.op.map (unversioned s) }] := by
  simp [unversionedOps, h]

theorem Op.map_withLvalue (g : Value → Value) (h : op.isPhi = false) :
    (op.withLvalue r).map g = (op.map g).withLvalue (g r) := by
  cases op with
  | phi _ _ _ => simp [isPhi] at h
  | phiCallback _ _ _ _ => simp [isPhi] at h
  | _ => rfl

theorem Op.withLvalue_self (h : op.lvalue? = some r) : op.withLvalue r = op := by
  cases op with
  | call c =>
    change c.result = some r at h
    obtain ⟨k, _, _, _, _, _, _, _, _, _⟩ := c
    simp only at h
    rw [h]
    rfl
  | condition _ => cases h
  | returns _ => cases h
  | nop => cases h
  | _ =>
    cases h
    rfl

end Ir

namespace Rename

variable {σ τ υ : State}

theorem RenewsAll.isPhi (h : RenewsAll old new σ τ) : ∀ i ∈ new, i.op.isPhi = true := by
  induction h with
  | nil => simp
  | snoc _ _ ih => exact forall_mem_append.2 ⟨ih, forall_mem_singleton.2 rfl⟩

theorem Amends.filter (h : Amends f P σ τ) (m : NodeId) :
    (τ.2.ssa f m).filter (fun i => !i.op.isPhi) = (σ.2.ssa f m).filter fun i => !i.op.isPhi := by
  induction h with
  | refl => rfl
  | tail _ hs ih => exact hs.amended.filter.trans ih

theorem Writes.unversioned (h : Writes f n op x new σ τ) (hphi : op.isPhi = false)
    (ht : ∀ j, op.lvalue? = some (.version j) → j < σ.2.store.versions.size) (hb : Grows f τ.2 b) :
    unversionedOps b.store new = [⟨op.map (unversioned b.store), x⟩] := by
  cases h with
  | keep _ => exact unversionedOps_one hphi
  | @write _ τ j hlv _ hr =>
    have hlt := ht j hlv
    have hsize := size_renews hr
    -- The new version is one of the variable of the old one.
    have hvar : (b.store.version σ.2.store.versions.size).variable_ = (b.store.version j).variable_ := by
      have hb' : Grows f τ.2 b := grows_adding.trans hb
      rw [(hb'.alike _ (by omega)).1, ((hr.grows.trans hb').alike j hlt).1]
      obtain ⟨l, -, rfl⟩ := hr
      rw [Analysis.version_addVersion, if_pos rfl]
      rfl
    have hphi' : (op.withLvalue (.version σ.2.store.versions.size)).isPhi = false := by
      rw [Op.isPhi_withLvalue, hphi]
    rw [unversionedOps_one hphi', Op.map_withLvalue _ hphi, Op.withLvalue_self]
    rw [Op.lvalue_map _ hphi, hlv, Option.map_some, unversioned, unversioned, hvar]
  | @part _ _ _ j _ hlv _ hr hq =>
    have hsplit := unversionedOps_append b.store [partPhi n σ.2.store.versions.size j] [⟨op, x⟩]
    rw [singleton_append] at hsplit
    rw [hsplit, unversionedOps_phis (by simp [partPhi, Op.isPhi]), unversionedOps_one hphi]
    rfl

/-! ## Values -/

mutual
theorem unversioned_resolve (hn : NamesApart a f states) (h : Honest a f states σ) (hb : Grows f σ.2 b) {v : Value}
    (hv : v.Plain) (hm : ∀ x, Leads a.store.references v x → a.Concerns f x) :
    unversioned b.store (resolved σ v) = v := by
  cases v with
  | list items =>
    change unversioned b.store (.list (resolveAll σ.2.program σ.1 items)) = _
    rw [unversioned]
    rw [unversioned_resolveAll hn h hb items hv.of_list fun w hw x hx => hm x (.list hw hx)]
  | target t =>
    cases t with
    | var x =>
      change unversioned b.store (resolveVariable σ.2.program σ.1 x) = _
      rw [h.grows.program]
      rcases resolveVariable_cases a.program σ.1 x with hx | ⟨i, hx, hi, hkind⟩ <;> rw [hx]
      · rfl
      · -- A version under the key of the variable is one of the variable.
        rw [unversioned, (hb.alike i (h.tabled.current _ i hi).1).1,
          h.variable_eq hn (kept_of_concerns hn (hm x (.var x)) hkind) hi]
    | _ => rfl
  | version i => exact ((hv _ (by simp [flat])).1 i rfl).elim
  | versionReference i => exact ((hv _ (by simp [flat])).2 i rfl).elim
  | _ => rfl

theorem unversioned_resolveAll (hn : NamesApart a f states) (h : Honest a f states σ)
    (hb : Grows f σ.2 b) (vs : List Value) (hvs : ∀ v ∈ vs, v.Plain)
    (hm : ∀ v ∈ vs, ∀ x, Leads a.store.references v x → a.Concerns f x) :
    unversionedAll b.store (resolveAll σ.2.program σ.1 vs) = vs := by
  cases vs with
  | nil => rfl
  | cons v vs =>
    rw [resolveAll, unversionedAll]
    have hhead := unversioned_resolve hn h hb (hvs v (by simp)) (hm v (by simp))
    have htail := unversioned_resolveAll hn h hb vs (fun w hw => hvs w (by simp [hw])) fun w hw => hm w (by simp [hw])
    rw [htail]
    exact congrArg (· :: vs) hhead
end

/-! ## The operations of a node -/

/-- An operation without the options that are lost. -/
def bareInstr (i : Instr) : Instr := { i with op := i.op.bare }

section

variable (hn : NamesApart a f states)

include hn

theorem unversioned_converted (h : Honest a f states σ) (hb : Grows f σ.2 b) (hop : op.Plain)
    (hm : ∀ v ∈ op.values, ∀ x, Leads a.store.references v x → a.Concerns f x) :
    (op.map (resolved σ)).map (unversioned b.store) = op := by
  rw [Op.map_map]
  have hid := op.map_congr fun v hv => unversioned_resolve hn h hb (hop.values v hv) (hm v hv)
  exact hid.trans op.map_id

theorem Turn.unversioned (hi : i ∈ a.instrs f n) (hplain : i.op.Plain) (hσ : Honest a f states σ) (h : Turn f n i new σ τ)
    (hb : Grows f τ.2 b) : unversionedOps b.store new = [bareInstr i] := by
  obtain ⟨he, hw, hcalls, hphis⟩ := h
  rename_i υ υ' new calls
  have hυ : Honest a f states υ := hσ.steps hn (n := n) (.single (.enters he))
  have hbare := hplain.bare
  have hphi : (i.op.bare.map (resolved υ)).isPhi = false := (Op.isPhi_map _ _).trans hbare.isPhi
  have hb' : Grows f υ'.2 b := hcalls.grows.trans hb
  have hstep := hw.step hphi (sees_resolved hυ.tabled hbare)
  have hlt : ∀ j, (i.op.bare.map (resolved υ)).lvalue? = some (.version j) → j < υ.2.store.versions.size :=
    fun j hj => (hυ.holds j (held_lvalue hbare hj)).1
  rw [unversionedOps_append, unversionedOps_phis hphis, hw.unversioned hphi hlt hb',
    unversioned_converted hn hυ (hstep.grows.trans hb') hbare]
  · rfl
  · exact fun v hv x hx => .inr (.inr ⟨n, i, hi, v, i.op.values_bare hv, hx⟩)

theorem Turns.unversioned (his : ∀ i ∈ is, i ∈ a.instrs f n ∧ i.op.Plain) (hσ : Honest a f states σ) (h : Turns f n is new σ τ)
    (hb : Grows f τ.2 b) : unversionedOps b.store new = is.map bareInstr := by
  induction h generalizing b with
  | nil => rfl
  | @snoc is new more i σ τ υ hprev hturn ih =>
    have hsteps := hprev.steps hσ.tabled fun j hj => (his j (by simp [hj])).2
    have hτ := hσ.steps hn hsteps
    obtain ⟨hi, hplain⟩ := his i (by simp)
    have hgrows := (hturn.steps hτ.tabled hplain).grows (f := f)
    rw [unversionedOps_append, ih (fun j hj => his j (by simp [hj])) hσ (hgrows.trans hb),
      hturn.unversioned hn hi hplain hτ hb, map_append]
    rfl

theorem Converts.unversioned (hr : Ready f e σ) (hvis : n ∉ σ.1.visited)
    (hσ : Honest a f states σ) (hp : Promises (Kept a f states) f σ) (h : Converts f n σ τ) (hb : Grows f τ.2 b) :
    unversionedOps b.store (τ.2.ssa f n) = (a.instrs f n).map bareInstr := by
  obtain ⟨hall, hsets, hturns⟩ := h
  rename_i υ υ' phis new
  have hgrows : Grows f σ.2 υ'.2 := hall.grows.trans hsets.grows
  have hυ' : Honest a f states υ' := hσ.meeting (hp n hvis) hall hsets
  have hinstrs : υ'.2.instrs f n = a.instrs f n := hυ'.grows.instrs n
  have hplain : ∀ i ∈ υ'.2.instrs f n, i.op.Plain := (hr.prepared.grows hgrows).plain n
  have hsteps := hturns.steps hυ'.tabled hplain
  rw [hsteps.ssa, if_pos rfl, hsets.ssa, if_pos rfl, unversionedOps_append, unversionedOps_phis hall.isPhi,
    nil_append, hturns.unversioned hn (fun i hi => ⟨hinstrs ▸ hi, hplain i hi⟩) hυ' hb, hinstrs]

/-! ## The whole function -/

open Classical in
theorem Course.unversioned (h : Course f e states a a') (n : NodeId) :
    unversionedOps a'.store (a'.ssa f n) = if (a.flow f).Served e n then (a.instrs f n).map bareInstr else [] := by
  obtain ⟨hsame, hc, hbegun, hready, hwalks, hamends, -⟩ := h
  rename_i b σ τ visits s
  have hnb := hsame.namesApart hn
  have hkept : unversionedOps a'.store (a'.ssa f n) = unversionedOps a'.store (τ.2.ssa f n) := by
    have hfilter : (a'.ssa f n).filter (fun i => !i.op.isPhi) = (τ.2.ssa f n).filter fun i => !i.op.isPhi :=
      hamends.filter n
    rw [unversionedOps, unversionedOps, hfilter]
  have hserved : n ∈ τ.1.visited ↔ (a.flow f).Served e n := by
    rw [hwalks.visited_iff hready hbegun.visited, hbegun.grows.flow, hsame.flow]
  have hvisits : n ∈ τ.1.visited ↔ n ∈ visits.map Visit.node := by
    rw [hwalks.visited_mem hready, hbegun.visited]
    simp
  rw [hkept, ← hsame.instrs]
  by_cases hs : (a.flow f).Served e n
  · rw [if_pos hs]
    obtain ⟨v, hv, rfl⟩ := mem_map.1 (hvisits.1 (hserved.2 hs))
    have hwithin := hwalks.within hready v hv
    obtain ⟨hhonest, hpromises⟩ := hwalks.honest hc hnb hready hbegun v hv
    have hafter : Grows f v.after.2 a' := hwithin.afterwards.trans hamends.grows
    rw [hwithin.after_ssa]
    exact hwithin.converts.unversioned hnb hwithin.ready (not_mem_of_skips hwithin.skips) hhonest hpromises hafter
  · rw [if_neg hs]
    have hnot : n ∉ visits.map Visit.node := fun hv => hs (hserved.1 (hvisits.2 hv))
    rw [hwalks.ssa hready hnot]
    refine unversionedOps_phis fun i hi => ?_
    obtain ⟨k, nodes, rfl, -⟩ := hbegun.meeting n i hi
    rfl

end

/-- Renaming is undone by forgetting versions, at exactly those nodes that have no operations, or are served and call no
variable with options. -/
theorem unversioned_eq_instrs_iff (hc : Convertible a f e states) (hn : NamesApart a f states)
    (h : (do Analyze.dominate f; Analyze.versions f states : Analyze _) a = .ok t a') (n : NodeId) :
    unversionedOps a'.store (a'.ssa f n) = a.instrs f n ↔
      a.instrs f n = [] ∨ (a.flow f).Served e n ∧ ∀ i ∈ a.instrs f n, i.op.bare = i.op := by
  rw [(versions_course hc h).unversioned hn n]
  by_cases hs : (a.flow f).Served e n
  · rw [if_pos hs]
    have hmap : (a.instrs f n).map bareInstr = a.instrs f n ↔ ∀ i ∈ a.instrs f n, i.op.bare = i.op := by
      have hid := List.map_inj_left (f := bareInstr) (g := id) (l := a.instrs f n)
      rw [List.map_id] at hid
      rw [hid]
      refine forall₂_congr fun i _ => ?_
      exact ⟨fun hi => congrArg Instr.op hi, fun hi => by rw [bareInstr, hi]; rfl⟩
    rw [hmap]
    constructor
    · exact fun hall => .inr ⟨hs, hall⟩
    · rintro (hnil | ⟨-, hall⟩)
      · simp [hnil]
      · exact hall
  · rw [if_neg hs]
    constructor
    · exact fun hnil => .inl hnil.symm
    · rintro (hnil | ⟨hserved, -⟩)
      · exact hnil.symm
      · exact (hs hserved).elim

/-! ## Code that cannot be reached -/

/-- `if (c) { return 1; r = 2; } r = 3; return r;` for a parameter `c` and a result `r`. The assignment after the first
return statement leads to the end of the `if`. -/
def codeAfterReturn : Analysis :=
  .ofLines ["c", "r"] [0] [1] none [
    .of .entryPoint [1] [],
    .of .branch [2, 4] [0] [.condition (.var 0)],
    .of .returns [] [1] [.returns [.number 1]],
    .of .expression [4] [] [.assign (.var 1) (.number 2)] [] [1],
    .of .endIf [5] [3, 1],
    .of .expression [6] [4] [.assign (.var 1) (.number 3)] [] [1],
    .of .returns [] [5] [.returns [.var 1]]]

/-- Before the end of the `if`, operations are given back. -/
theorem codeAfterReturn_condition : ∃ t a',
    (do Analyze.dominate 0; Analyze.versions 0 [] : Analyze _) codeAfterReturn = .ok t a' ∧
      unversionedOps a'.store (a'.ssa 0 1) = codeAfterReturn.instrs 0 1 := by
  have hc : Convertible codeAfterReturn 0 0 [] := Analysis.convertible_of_isConvertible (by decide +kernel)
  have hn : NamesApart codeAfterReturn 0 [] := Analysis.NamesDiffer.namesApart (by decide +kernel)
  have hforward : (codeAfterReturn.flow 0).Forward 0 := by decide +kernel
  have hlate : (codeAfterReturn.flow 0).JoinsLate 1 := by decide +kernel
  have hserved : (codeAfterReturn.flow 0).Served 0 1 :=
    hforward.served hlate (hforward.reaches (by decide +kernel) (by decide +kernel)) (Nat.le_refl 1)
  obtain ⟨t, a', hrun, -⟩ := exists_of_renamesTo codeAfterReturn 0 [] (fun _ => true) (by decide +kernel)
  refine ⟨t, a', hrun, (unversioned_eq_instrs_iff hc hn hrun 1).2 (.inr ⟨hserved, fun i hi => ?_⟩)⟩
  rw [List.mem_singleton.1 hi]
  rfl

/-- The assignment after the `if` can be reached, but there is no operation for it. -/
theorem codeAfterReturn_lost : ∃ t a',
    (do Analyze.dominate 0; Analyze.versions 0 [] : Analyze _) codeAfterReturn = .ok t a' ∧
      (codeAfterReturn.flow 0).Reaches 0 5 ∧ unversionedOps a'.store (a'.ssa 0 5) ≠ codeAfterReturn.instrs 0 5 := by
  have hforward : (codeAfterReturn.flow 0).Forward 0 := by decide +kernel
  obtain ⟨t, a', hrun, hnone⟩ := exists_of_renamesTo codeAfterReturn 0 [] (fun a' => (a'.ssa 0 5).isEmpty)
    (by decide +kernel)
  refine ⟨t, a', hrun, hforward.reaches (by decide +kernel) (by decide +kernel), fun h => ?_⟩
  rw [List.isEmpty_iff.1 hnone] at h
  cases h

end Rename

end ContractAudit
