import ContractAudit.Proofs.StorageLayout
import ContractAudit.Proofs.Versions
import ContractAudit.Storage.Slots
import Mathlib.Algebra.Order.Floor.Div
import Mathlib.GroupTheory.GroupAction.Ring

/-! # Sizes and positions in storage

Arrays are sized by their bytes and positions are kept by names, so both are right up to leftovers and namesakes. The search
for a member of a struct agrees with the layout until a slot is left that is not full, and that for an element of an array takes a
slot for each.
-/

namespace ContractAudit

open Storage List Table

/-! ## Sizes of types -/

namespace Storage

/-- With the bytes of elements counted, what each slot has left over may save the last slot. -/
theorem packed_slots (hs : 0 < s) (hs32 : s ≤ 32) :
    (s * n + 31) / 32 = n ⌈/⌉ (32 / s) ↔ (n - 1) / (32 / s) * (32 % s) < ((n - 1) % (32 / s) + 1) * s := by
  have hq : 0 < 32 / s := Nat.div_pos hs32 hs
  rw [Nat.ceilDiv_eq_add_pred_div]
  cases n with
  | zero => simpa [hs] using (Nat.div_eq_of_lt (Nat.sub_one_lt hq.ne')).symm
  | succ m =>
    have hlast : (m % (32 / s) + 1) * s ≤ 32 :=
      (Nat.mul_le_mul_right s (Nat.mod_lt m hq)).trans (Nat.div_mul_le_self 32 s)
    have hbytes : s * (32 / s * (m / (32 / s)) + m % (32 / s) + 1) + m / (32 / s) * (32 % s) =
        (s * (32 / s) + 32 % s) * (m / (32 / s)) + (m % (32 / s) + 1) * s := by ring
    rw [Nat.div_add_mod, Nat.div_add_mod] at hbytes
    rw [Nat.add_sub_cancel, Nat.add_right_comm, Nat.add_sub_cancel, Nat.add_div_right m hq]
    omega

theorem whole_slots : (s * n + 31) / 32 = n * ((s + 31) / 32) ↔ n * (32 * ((s + 31) / 32) - s) < 32 := by
  obtain ⟨r, hr⟩ : ∃ r, 32 * ((s + 31) / 32) = s + r := Nat.exists_eq_add_of_le (by omega)
  have hbytes : s * n + n * r = 32 * (n * ((s + 31) / 32)) := by
    rw [Nat.mul_left_comm, hr]
    ring
  rw [hr, Nat.add_sub_cancel_left]
  omega

theorem enumBytes_le_iff (hc : 0 < c) : enumBytes c ≤ b ↔ c ≤ 256 ^ b := by
  unfold enumBytes
  split
  · have hpow : 0 < 256 ^ b := Nat.pos_of_neZero _
    omega
  · have hlog : Nat.log2 (c - 1) < 8 * b ↔ c - 1 < (2 ^ 8) ^ b := pow_mul 2 8 b ▸ Nat.log2_lt (by omega)
    norm_num at hlog
    omega

end Storage

namespace Program

variable {p : Program} {length : ArrayLength} {n : Nat}

theorem extent_array (hx : p.extent t = .ok x) (hn : Number.decimal length.shown = .ok n) :
    p.extent (.array t (some length)) = .ok ⟨x.size * n, true⟩ := by
  have hbound : p.typeBound (some (.array t (some length))) = p.typeBound (some t) + 1 := by
    simp [typeBound, Ty.weight, ← Array.foldl_toList, foldl_add]
  rw [extent, extentFrom, hbound, ← extent, hx]
  simp [hn]
  rfl

/-- Tells when the slots of an array are those that its elements need one after the other, each within a slot or from the start
of one: as long as the bytes that they leave over would not fill a slot. Enums have the least number of bytes, which is 0 for a
single member. -/
theorem sizes_exact (p : Program) {t : Ty} {length : ArrayLength} {x : Extent} {n : Nat} (hx : p.extent t = .ok x)
    (hn : Number.decimal length.shown = .ok n) (hpos : 0 < n) (hsmall : x.size * n < 2 ^ 53) :
    (∃ e, p.extent (.array t (some length)) = .ok e ∧ e.startsSlot = true ∧
      (x.startsSlot = false → 0 < x.size → x.size ≤ 32 → (slotsOf e.size = n ⌈/⌉ (32 / x.size) ↔
        (n - 1) / (32 / x.size) * (32 % x.size) < ((n - 1) % (32 / x.size) + 1) * x.size)) ∧
      (x.startsSlot = true → (slotsOf e.size = n * slotsOf x.size ↔ n * (32 * slotsOf x.size - x.size) < 32))) ∧
    ∀ i, (p.enum i).values ≠ [] →
      ∃ e, p.extent (.enum i) = .ok e ∧ e.startsSlot = false ∧ ∀ b, e.size ≤ b ↔ (p.enum i).values.length ≤ 256 ^ b := by
  refine ⟨⟨_, extent_array hx hn, rfl, fun _ hsize hfits => ?_, fun _ => ?_⟩, fun i hi => ?_⟩
  · rw [slotsOf_of_lt hsmall]
    exact packed_slots hsize hfits
  · rw [slotsOf_of_lt hsmall, slotsOf_of_lt ((Nat.le_mul_of_pos_right _ hpos).trans_lt hsmall)]
    exact whole_slots
  · refine ⟨⟨enumBytes _, false⟩, ?_, rfl, fun b => enumBytes_le_iff (length_pos_iff.2 hi)⟩
    simp [extent, extentFrom, hi]

/-- `enum E { A }` -/
def loneMember : Program := { enumTable := #[{ (default : EnumDecl) with values := ["A"] }] }

def thirtyTwo : ArrayLength := ⟨.int 32, none, "32", "32", []⟩

/-- `uint16[32]` -/
theorem loneMember_sizes : ∃ e, loneMember.extent (.array (.elementary (.uint 16)) (some thirtyTwo)) = .ok e ∧
    slotsOf e.size = 32 ⌈/⌉ (32 / 2) := by
  have hx : loneMember.extent (.elementary (.uint 16)) = .ok ⟨2, false⟩ := by rfl
  have hn : Number.decimal thirtyTwo.shown = .ok (32 : Nat) := by rfl
  obtain ⟨⟨e, he, -, hpacked, -⟩, -⟩ := sizes_exact loneMember hx hn (by decide) (by decide)
  exact ⟨e, he, (hpacked rfl (by decide) (by decide)).2 (by decide)⟩

/-- `uint24[32]` gets three slots, which hold thirty of its elements, and an enum with one member gets no byte. -/
theorem loneMember_short : ∃ e e', loneMember.extent (.array (.elementary (.uint 24)) (some thirtyTwo)) = .ok e ∧
    slotsOf e.size ≠ 32 ⌈/⌉ (32 / 3) ∧ loneMember.extent (.enum 0) = .ok e' ∧ e'.size = 0 := by
  refine ⟨⟨96, true⟩, ⟨0, false⟩, by rfl, ?_, by rfl, rfl⟩
  rw [slotsOf_of_lt (by decide)]
  decide

end Program

/-! ## Positions under names -/

namespace Table

variable [BEq κ] [LawfulBEq κ] [DecidableEq κ] {k : κ} {v : α}

theorem find?_update_of_ne (t : Table κ α) (h : ∀ x ∈ xs, x.1 ≠ k) : find? k (update t xs) = find? k t := by
  induction xs generalizing t with
  | nil => rfl
  | cons x xs ih =>
    rw [update, foldl_cons, ← update, ih _ fun y hy => h y (by simp [hy]), find?_insert, if_neg (h x (by simp)).symm]

theorem find?_ofList (h : ∀ y ∈ ys, y.1 ≠ k) : find? k (ofList (xs ++ (k, v) :: ys)) = some v := by
  rw [ofList, update, foldl_append, foldl_cons, ← update, find?_update_of_ne _ h, find?_insert, if_pos rfl]

end Table

namespace Program

variable {p : Program} {cs : List ContractId}

/-- Adds the layouts of a contract. -/
def addLayout (p : Program) (l : Layouts) (c : ContractId) : Result Layouts := do
  let stored <- p.layoutOf (p.storedVariables c)
  let transient <- p.layoutOf (p.transientVariables c)
  return ⟨insert (p.contract c).name stored l.stored, insert (p.contract c).name transient l.transient⟩

theorem layouts_eq : p.layouts = p.mostDerived.foldlM p.addLayout {} := rfl

theorem addLayout_ok (h : p.addLayout l c = .ok l') : ∃ t, p.layoutOf (p.storedVariables c) = .ok t ∧
    l'.stored = insert (p.contract c).name t l.stored := by
  simp only [addLayout, bind_eq_ok, pure, Except.pure, Except.ok.injEq] at h
  obtain ⟨t, ht, _, _, rfl⟩ := h
  exact ⟨t, ht, rfl⟩

/-- Contracts of other names change nothing under a name. -/
theorem find?_stored_of_ne {name : String} (h : cs.foldlM p.addLayout l = .ok l')
    (hcs : ∀ c ∈ cs, (p.contract c).name ≠ name) :
    find? name l'.stored = find? name l.stored := by
  induction cs generalizing l with
  | nil => cases h; rfl
  | cons c cs ih =>
    rw [foldlM_cons, bind_eq_ok] at h
    obtain ⟨l₁, hc, h⟩ := h
    obtain ⟨t, -, hstored⟩ := addLayout_ok hc
    rw [ih h fun d hd => hcs d (by simp [hd]), hstored, find?_insert, if_neg (hcs c (by simp)).symm]

theorem find?_layouts {before after : List ContractId} (hl : p.layouts = .ok l) (hd : p.mostDerived = before ++ d :: after)
    (hafter : ∀ c ∈ after, (p.contract c).name ≠ (p.contract d).name) :
    ∃ es, (p.storedVariables d).mapM p.variableExtent = .ok es ∧ find? (p.contract d).name l.stored =
      some (ofList (((p.storedVariables d).map p.variableCanonicalName).zip (places es))) := by
  rw [layouts_eq, hd, foldlM_append, bind_eq_ok] at hl
  obtain ⟨l₁, -, hl⟩ := hl
  rw [foldlM_cons, bind_eq_ok] at hl
  obtain ⟨l₂, hstep, hl⟩ := hl
  obtain ⟨t, ht, hstored⟩ := addLayout_ok hstep
  obtain ⟨es, hes, ht⟩ := bind_eq_ok.1 ht
  cases ht
  exact ⟨es, hes, by rw [find?_stored_of_ne hl hafter, hstored, find?_insert, if_pos rfl]⟩

/-- Of the most derived contracts of a name the last is laid out, and of its variables of a name the last counts. Their positions
are given for all contracts and variables of these names, so for them they are the positions in the own layout. -/
theorem positionIn_last {before after : List ContractId} {vs ws : List VariableId} {v w : VariableId}
    (hl : p.layouts = .ok l)
    (hd : p.mostDerived = before ++ d :: after) (hafter : ∀ c ∈ after, (p.contract c).name ≠ (p.contract d).name)
    (hw : p.storedVariables d = vs ++ w :: ws) (hws : ∀ u ∈ ws, p.variableCanonicalName u ≠ p.variableCanonicalName w)
    (hc : (p.contract c).name = (p.contract d).name) (hv : p.isStored v = true)
    (hvw : p.variableCanonicalName v = p.variableCanonicalName w) :
    ∃ es at_, (p.storedVariables d).mapM p.variableExtent = .ok es ∧ (places es)[vs.length]? = some at_ ∧
      p.positionIn l c v = .ok at_ := by
  obtain ⟨es, hes, hfound⟩ := find?_layouts hl hd hafter
  have hlength : (places es).length = vs.length + (ws.length + 1) := by
    rw [places, length_placesFrom, ← (mapM_eq_ok.1 hes).length_eq, hw, length_append, length_cons]
  obtain ⟨ps, rest, hps, hsplit⟩ : ∃ ps rest, ps.length = vs.length ∧ places es = ps ++ rest :=
    ⟨_, _, length_take_of_le (by omega), (take_append_drop vs.length _).symm⟩
  cases rest with
  | nil => simp [hsplit, hps] at hlength
  | cons at_ rest =>
    refine ⟨es, at_, hes, by simp [hsplit, ← hps], ?_⟩
    have hlast : Table.find? (p.variableCanonicalName w)
        (Table.ofList (((p.storedVariables d).map p.variableCanonicalName).zip (places es))) = some at_ := by
      rw [hw, hsplit, map_append, zip_append (by simp [hps]), map_cons, zip_cons_cons]
      exact Table.find?_ofList fun x hx => by
        obtain ⟨u, hu, hux⟩ := mem_map.1 (of_mem_zip hx).1
        exact hux ▸ hws u hu
    simp [positionIn, hv, hc, hfound, hvw, hlast]
    rfl

/-- `contract C { uint256 a; uint256 b; }` in one file and `contract C { uint256 b; uint256 a; }` in another one. -/
def namesakes : Program :=
  { contracts := [0, 1]
    contractTable := #[[0, 1], [3, 2]].map fun vs => { (default : Contract) with name := "C", variablesOrdered := vs }
    variableTable := #[(0, "a"), (0, "b"), (1, "a"), (1, "b")].map fun (c, name) =>
      { kind := .state c, name, type := some (.elementary (.uint 256)) } }

/-- The layout of the second. -/
def namesakesLayouts : Layouts := ⟨[("C", [("C.b", ⟨0, 0⟩), ("C.a", ⟨1, 0⟩)])], [("C", [])]⟩

theorem namesakes_second : ∃ es at_, (namesakes.storedVariables 1).mapM namesakes.variableExtent = .ok es ∧
    (places es)[1]? = some at_ ∧ namesakes.positionIn namesakesLayouts 1 2 = .ok at_ := by
  have hl : namesakes.layouts = .ok namesakesLayouts := by with_unfolding_all rfl
  have hsplit : namesakes.mostDerived = [0] ++ 1 :: [] ∧ namesakes.storedVariables 1 = [3] ++ 2 :: [] ∧
      namesakes.isStored 2 = true := by decide +kernel
  exact positionIn_last hl hsplit.1 (by simp) hsplit.2.1 (by simp) rfl hsplit.2.2 rfl

/-- The first contract is given the positions of the second. -/
theorem namesakes_confused : namesakes.layouts = .ok namesakesLayouts ∧
    namesakes.positionIn namesakesLayouts 0 0 = .ok ⟨1, 0⟩ ∧
    (namesakes.storedVariables 0).mapM namesakes.variableExtent = .ok [⟨32, false⟩, ⟨32, false⟩] ∧
    (places [⟨32, false⟩, ⟨32, false⟩])[0]? = some ⟨0, 0⟩ :=
  ⟨by with_unfolding_all rfl, by with_unfolding_all rfl, by with_unfolding_all rfl, rfl⟩

end Program

/-! ## Members of structs -/

/-- A size, if there is one, takes whole bytes of a slot. -/
def Elementary.Fits (t : Elementary) : Prop := ∀ n ∈ t.size?, 8 ∣ n ∧ 0 < n ∧ n ≤ 256

namespace Storage

section

variable {p : Program} {w : MemberWalk}

theorem variableExtent_elementary (ht : (p.var v).type = some (.elementary t)) (hfits : t.Fits)
    (he : p.variableExtent v = .ok e) :
    t.size? = none ∧ e.startsSlot = true ∨ ∃ k, t.size? = some (8 * k) ∧ 0 < k ∧ k ≤ 32 ∧ e = ⟨k, false⟩ := by
  simp only [Program.variableExtent, ht, Program.extent, Program.extentFrom, Elementary.storageSize, Elementary.size] at he
  cases hsize : t.size? with
  | none => cases t <;> simp_all [Elementary.size?, Elementary.isDynamic, expect] <;> cases he <;> rfl
  | some n =>
    obtain ⟨⟨k, rfl⟩, hpos, hle⟩ := hfits n hsize
    have hd : t.isDynamic = false := by cases t <;> simp_all [Elementary.size?, Elementary.isDynamic]
    simp [hsize, hd, expect, bind, Except.bind, pure, Except.pure] at he
    exact .inr ⟨k, rfl, by omega, by omega, he.symm⟩

/-- Each variable has a size, and what is left of a slot that is not full takes the next one. -/
def Dense (free : Position) : List Extent → Prop
  | [] => True
  | e :: es => (e.startsSlot = false ∧ (free.offset = 32 ∨ free.offset + e.size ≤ 32)) ∧ Dense (behind (place free e) e) es

/-- Where the next member is taken to lie. -/
def MemberWalk.here (w : MemberWalk) : MemberWalk := if 256 ≤ w.offset then { w with slot := w.slot + 1, offset := 0 } else w

def MemberWalk.next (w : MemberWalk) (k : Nat) : MemberWalk :=
  { w.here with offset := w.here.offset + 8 * k, size := some (8 * k) }

def Meets (start : Int) (w : MemberWalk) (free : Position) : Prop := w.slot = start + free.slot ∧ w.offset = 8 * free.offset

/-- The search is where the layout is, or has fallen behind. -/
def Trails (start : Int) (w : MemberWalk) (free : Position) : Prop :=
  free.offset ≤ 32 ∧ (w.slot = start + free.slot ∧ w.offset ≤ 8 * free.offset ∨ w.slot < start + free.slot ∧ 0 < free.offset)

open MemberWalk

theorem Trails.here_meets_iff (h : Trails start w free) (hk : 0 < k) :
    Meets start w.here (place free ⟨k, false⟩) ↔ Meets start w free ∧ (free.offset = 32 ∨ free.offset + k ≤ 32) := by
  unfold Trails Meets here place at *
  split <;> split <;> grind

theorem Trails.next (h : Trails start w free) (hk : 0 < k) (hle : k ≤ 32) :
    Trails start (w.next k) (behind (place free ⟨k, false⟩) ⟨k, false⟩) := by
  unfold Trails MemberWalk.next here place behind at *
  split <;> split <;> grind

theorem next_meets_iff : Meets start (w.next k) (behind at_ ⟨k, false⟩) ↔ Meets start w.here at_ := by
  simp [Meets, MemberWalk.next, behind, Nat.mul_add]

theorem memberFrom_eq_iff (hvs : ∀ u ∈ vs, ∃ t, (p.var u).type = some (.elementary t) ∧ t.Fits)
    (hes : vs.mapM p.variableExtent = .ok es) (hv : vs[i]? = some v) (ht : (p.var v).type = some (.elementary t))
    (hfirst : ∀ u ∈ vs.take i, (p.var u).name ≠ (p.var v).name) (hat : (es.zip (placesFrom free es))[i]? = some (e, at_))
    (hw : Trails start w free) : memberFrom p (p.var v).name w vs = .ok ⟨t.name, start + at_.slot, 8 * e.size, 8 * at_.offset⟩ ↔
      Meets start w free ∧ Dense free (es.take (i + 1)) := by
  induction vs generalizing i w free es with
  | nil => simp at hv
  | cons u vs ih =>
    simp only [mapM_cons, bind_eq_ok, pure, Except.pure, Except.ok.injEq] at hes
    obtain ⟨x, hx, es, hes, rfl⟩ := hes
    obtain ⟨t', hu, hfits⟩ := hvs u (by simp)
    rcases variableExtent_elementary hu hfits hx with ⟨hsize, hstarts⟩ | ⟨k, hsize, hpos, hle, rfl⟩
    · simp [memberFrom, hu, Elementary.size, hsize, hstarts, expect, Dense, bind, Except.bind]
    have hstep : memberFrom p (p.var v).name w (u :: vs) = if (p.var v).name = (p.var u).name then
        .ok ⟨t'.name, w.here.slot, 8 * k, w.here.offset⟩ else memberFrom p (p.var v).name (w.next k) vs := by
      simp [memberFrom, hu, Elementary.size, hsize, expect, here, MemberWalk.next, bind, Except.bind, pure, Except.pure]
    rw [hstep]
    cases i with
    | zero =>
      cases hv
      cases hat
      cases hu.symm.trans ht
      simpa [Dense, Meets] using hw.here_meets_iff hpos
    | succ i =>
      have hrest := ih (fun y hy => hvs y (by simp [hy])) hes hv (fun y hy => hfirst y (by simp [hy])) hat (hw.next hpos hle)
      rw [if_neg (hfirst u (by simp)).symm, hrest, next_meets_iff, hw.here_meets_iff hpos, take_succ_cons, Dense]
      simp [and_assoc]

/-- A member of a struct is found where the layout of the members puts it, exactly if up to it all members have sizes and none
comes to a slot that is filled in part and does not take it. -/
theorem memberSlot_eq_place_iff {s : StructId}
    (hvs : ∀ u ∈ p.structMembers s, ∃ t, (p.var u).type = some (.elementary t) ∧ t.Fits)
    (hes : (p.structMembers s).mapM p.variableExtent = .ok es) (hv : (p.structMembers s)[i]? = some v)
    (ht : (p.var v).type = some (.elementary t)) (hfirst : ∀ u ∈ (p.structMembers s).take i, (p.var u).name ≠ (p.var v).name)
    (hat : (es.zip (places es))[i]? = some (e, at_)) :
    memberSlot p s start (p.var v).name = .ok ⟨t.name, start + at_.slot, 8 * e.size, 8 * at_.offset⟩ ↔
      Dense {} (es.take (i + 1)) := by
  have hmeets : Meets start { slot := start } {} := ⟨by simp, rfl⟩
  have htrails : Trails start { slot := start } {} := ⟨by decide, .inl ⟨hmeets.1, Nat.zero_le _⟩⟩
  rw [memberSlot, memberFrom_eq_iff hvs hes hv ht hfirst hat htrails, and_iff_right hmeets]

end

/-- `struct S { uint256 a; uint128 b; uint256 c; }` -/
def straddled : Program where
  variableTable := ⟨[("a", 256), ("b", 128), ("c", 256)].map fun (name, bits) =>
    { kind := .state 0, name, type := some (.elementary (.uint bits)) }⟩
  structTable := #[{ (default : Struct) with order := ["a", "b", "c"], members := [("a", 0), ("b", 1), ("c", 2)] }]

theorem straddled_found : memberSlot straddled 0 7 "b" = .ok ⟨"uint128", 7 + 1, 8 * 16, 8 * 0⟩ := by
  have hmembers : ∀ u ∈ straddled.structMembers 0, ∃ t, (straddled.var u).type = some (.elementary t) ∧ t.Fits := by
    have hlarge : (Elementary.uint 256).Fits := by rintro _ ⟨⟩; decide
    have hsmall : (Elementary.uint 128).Fits := by rintro _ ⟨⟩; decide
    exact forall_mem_cons.2 ⟨⟨_, rfl, hlarge⟩, forall_mem_cons.2 ⟨⟨_, rfl, hsmall⟩, forall_mem_singleton.2 ⟨_, rfl, hlarge⟩⟩⟩
  have hextents : (straddled.structMembers 0).mapM straddled.variableExtent = .ok [⟨32, false⟩, ⟨16, false⟩, ⟨32, false⟩] := rfl
  refine (memberSlot_eq_place_iff (i := 1) hmembers hextents rfl rfl (by decide) rfl).2 ?_
  simp [Dense, place, behind]

/-- The layout puts `c` into a slot of its own. -/
theorem straddled_astray : memberSlot straddled 0 7 "c" = .ok ⟨"uint256", 8, 256, 128⟩ ∧
    (places [⟨32, false⟩, ⟨16, false⟩, ⟨32, false⟩])[2]? = some ⟨2, 0⟩ :=
  ⟨by rfl, rfl⟩

/-! ## Elements of arrays -/

/-- Where an element of an array that starts at `first` lies, if as many elements share a slot as fit into it. -/
def packedAt (first : Int) (size k : Nat) : Int × Nat := (first + ↑(k / (256 / size)), size * (k % (256 / size)))

theorem packedAt_eq_iff (first : Int) {size k : Nat} (hpos : 0 < size) (hle : size ≤ 256) :
    (first + k, 0) = packedAt first size k ↔ 128 < size ∨ k = 0 := by
  by_cases hsize : 128 < size
  · have hone : 256 / size = 1 := Nat.div_eq_of_lt_le (by omega) (by omega)
    simp [packedAt, hone, hsize, Nat.mod_one]
  · have hshared : 2 ≤ 256 / size := (Nat.le_div_iff_mul_le hpos).2 (by omega)
    rw [or_iff_right hsize]
    refine ⟨fun h => ?_, fun h => by simp [packedAt, h]⟩
    have hslot : k = k / (256 / size) := Int.ofNat.inj (Int.add_left_cancel (congrArg Prod.fst h))
    by_contra hk
    exact (Nat.div_lt_self (Nat.pos_of_ne_zero hk) hshared).ne' hslot

/-- Each element of an elementary type is looked for in a slot of its own. It is found at its slot and offset exactly if it is
the first or too large to share a slot. -/
theorem elementSlot_eq_packed_iff (p : Program) (sel : Selection) (length : Option ArrayLength) (t : Elementary) (key : Key)
    {size k : Nat} {slot : Int} {word : List UInt8} (ht : t.size = .ok size) (hpos : 0 < size) (hle : size ≤ 256)
    (hkey : key.toInt = .ok (k : Int)) (hword : wordBytes slot = .ok word) :
    let first : Int := length.elim (hashOf word) fun _ => slot
    elementSlot p (.elementary t) length slot key sel = .ok ⟨t.name, first + k, size, 0⟩ ∧
      ((first + k, 0) = packedAt first size k ↔ 128 < size ∨ k = 0) := by
  intro first
  have hfirst : firstElement length slot = .ok first := by
    cases length <;> simp [first, firstElement, hashOfSlot, hword, bind, Except.bind, pure, Except.pure, Except.map]
  refine ⟨?_, packedAt_eq_iff first hpos hle⟩
  simp [elementSlot, hfirst, hkey, ht, bind, Except.bind, pure, Except.pure]

theorem elementSlot_large : ∃ word, wordBytes 7 = .ok word ∧
    elementSlot {} (.elementary .address) none 7 (.number 3) {} = .ok ⟨"address", hashOf word + 3, 160, 0⟩ ∧
      ((hashOf word + 3 : Int), 0) = packedAt (hashOf word) 160 3 := by
  have hword : wordBytes 7 = .ok _ := rfl
  refine ⟨_, hword, ?_⟩
  have h := elementSlot_eq_packed_iff (k := 3) {} {} none .address (.number 3) rfl (by decide) (by decide) rfl hword
  exact h.imp_right fun hat => hat.2 (by decide)

/-- Of two bytes that share a slot, the second one is looked for in the next slot. -/
theorem elementSlot_small : ∃ word, wordBytes 7 = .ok word ∧
    elementSlot {} (.elementary (.uint 8)) none 7 (.number 1) {} = .ok ⟨"uint8", hashOf word + 1, 8, 0⟩ ∧
      packedAt (hashOf word) 8 1 = (↑(hashOf word), 8) :=
  ⟨_, rfl, rfl, Prod.ext (Int.add_zero _) rfl⟩

end Storage

end ContractAudit
