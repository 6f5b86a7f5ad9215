import ContractAudit.Proofs.Visits
import ContractAudit.Proofs.Written

/-! # Versions that meet before a read

A definition comes to a read along a way on which the variable is not defined again. The version that is read should be the
version of the definition, or be made of versions that gather it where versions meet. It is so if versions meet at the
frontiers of nodes that make versions.
-/

namespace ContractAudit

open Ir List Option Flow

/-! ## Operations in the order in which they take effect -/

namespace Ir

/-- Versions from several nodes meet. -/
def Instr.isMeeting (i : Instr) : Bool :=
  match i.op with
  | .phi _ _ nodes => nodes.length != 1
  | _ => false

/-- A version is noted for what one node writes through a part. -/
def Instr.isPartNote (i : Instr) : Bool :=
  match i.op with
  | .phi _ _ nodes => nodes.length == 1
  | _ => false

/-- The version for a write through a part is noted before the operation that writes. Notes that no operation follows stand for
writes through pointers and are left out. -/
def flowing : List Instr → List Instr
  | [] => []
  | [i] => if i.isPartNote then [] else [i]
  | i :: j :: rest =>
    if i.isPartNote then if j.isPartNote then flowing (j :: rest) else j :: i :: flowing rest
    else i :: flowing (j :: rest)

/-- The last version of a variable that operations make. -/
def lastMade (q : Nat → Bool) (ops : List Instr) : Option Nat := (ops.filterMap fun i => i.made?.filter q).getLast?

theorem lastMade_append (q : Nat → Bool) {xs ys : List Instr} :
    lastMade q (xs ++ ys) = (lastMade q ys).or (lastMade q xs) := by
  rw [lastMade, filterMap_append, getLast?_append]
  rfl

theorem lastMade_eq_none : lastMade q ops = none ↔ ∀ i ∈ ops, ∀ k, i.made? = some k → q k = false := by
  simp [lastMade]

theorem lastMade_one (hi : i.made? = some k) (hk : q k = true) : lastMade q [i] = some k := by
  simp [lastMade, hi, hk]

end Ir

namespace Analysis

variable (a : Analysis) (f : FunctionId) (e : NodeId) (n : NodeId) (q : Nat → Bool)

/-- The places of a node where versions meet. -/
def meets : List Instr := (a.ssa f n).filter Instr.isMeeting

/-- The other operations of a node, in the order in which they take effect. -/
def body : List Instr :=
  flowing ((a.ssa f n).filter fun i => !i.isMeeting)

/-- What a node does: versions meet first. -/
def acts : List Instr := a.meets f n ++ a.body f n

/-- After some operations of a node and along edges, without a definition before it. The last argument is the version that is
read. -/
inductive Upcoming : NodeId → List Instr → Nat → Prop
  | read {n : NodeId} {i : Instr} {rest : List Instr} {k : Nat} : i.op.isPhi = false → .version k ∈ i.op.reads →
      q k = true → Upcoming n (i :: rest) k
  | pass {n : NodeId} {i : Instr} {rest : List Instr} {k : Nat} : lastMade q [i] = none → Upcoming n rest k →
      Upcoming n (i :: rest) k
  | son {n m : NodeId} {k : Nat} : m ∈ (a.flow f).sons n → Upcoming m (a.body f m) k → Upcoming n [] k

def Live (n : NodeId) : Prop := ∃ k, a.Upcoming f q n (a.body f n) k

/-- A version is another one or is made of versions that gather it. -/
inductive Gathers : Nat → Nat → Prop
  | refl (k : Nat) : Gathers k k
  | phi {n : NodeId} {i : Instr} {k j l : Nat} {values : List Value} {nodes : List NodeId} : i ∈ a.ssa f n →
      i.op = .phi (.version k) values nodes → .version j ∈ values → Gathers j l → Gathers k l

theorem Gathers.trans {a : Analysis} {f : FunctionId} (h : a.Gathers f k j) (h' : a.Gathers f j l) :
    a.Gathers f k l := by
  induction h with
  | refl => exact h'
  | phi hi hop hmem _ ih => exact .phi hi hop hmem (ih h')

/-- The version that leaves a node: the last one of the closest node above it that makes one. -/
def Leaves (p : NodeId) (k : Nat) : Prop :=
  ∃ z, (a.flow f).Dominates e z p ∧ lastMade q (a.acts f z) = some k ∧
    ∀ x, (a.flow f).StrictlyDominates e z x → (a.flow f).Dominates e x p → lastMade q (a.acts f x) = none

/-- Versions meet at the frontier of each node that makes one, where they are wanted, and then those that leave the nodes
before. -/
structure Placed : Prop where
  meeting : ∀ z n, lastMade q (a.acts f z) ≠ none → (a.flow f).InFrontier e z n → a.Live f q n →
    lastMade q (a.meets f n) ≠ none
  values : ∀ n, ∀ i ∈ a.meets f n, ∀ r, i.made? = some r → q r = true → a.Live f q n → ∀ p k, n ∈ (a.flow f).sons p →
    a.Leaves f e q p k → ∃ values nodes, i.op = .phi (.version r) values nodes ∧ .version k ∈ values

/-- Each read gathers all definitions that come to it. -/
def Sound : Prop :=
  ∀ o xs d ys k k', (a.flow f).Reaches e o → a.body f o = xs ++ d :: ys → d.made? = some k → q k = true →
    a.Upcoming f q o ys k' → a.Gathers f k' k

/-- The versions that nodes begin with, and the order in which they are come to: a node begins with the version that
leaves its immediate dominator, or a node that has it in its frontier. -/
structure Traced (before : NodeId → Option Nat) (rank : NodeId → Nat) : Prop where
  reads : ∀ n xs i ys k, (a.flow f).Reaches e n → a.body f n = xs ++ i :: ys → i.op.isPhi = false →
    .version k ∈ i.op.reads → q k = true → (lastMade q (a.meets f n ++ xs)).or (before n) = some k
  called : ∀ n, (a.flow f).Reaches e n → n ≠ e → ∃ u, (a.flow f).Reaches e u ∧ rank u < rank n ∧
    ((a.flow f).IsImmediate e u n ∨ (a.flow f).InFrontier e u n) ∧
    before n = (lastMade q (a.acts f u)).or (before u)

/-! ## Where a variable is wanted -/

section

variable {a : Analysis} {f : FunctionId} {e d m n p u x : NodeId} {q : Nat → Bool}

theorem Upcoming.of_quiet (hops : lastMade q ops = none) (hm : m ∈ (a.flow f).sons n)
    (h : a.Upcoming f q m (a.body f m) k) : a.Upcoming f q n ops k := by
  rw [lastMade_eq_none] at hops
  induction ops with
  | nil => exact .son hm h
  | cons i ops ih =>
    refine .pass (lastMade_eq_none.2 fun j hj => ?_) (ih fun j hj => hops j (mem_cons_of_mem _ hj))
    rw [mem_singleton.1 hj]
    exact hops i mem_cons_self

theorem quiet_acts (h : lastMade q (a.acts f n) = none) : lastMade q (a.meets f n) = none ∧ lastMade q (a.body f n) = none := by
  rw [acts, lastMade_append, or_eq_none_iff] at h
  exact h.symm

theorem Live.of_son (hn : lastMade q (a.acts f n) = none) (hm : m ∈ (a.flow f).sons n) (h : a.Live f q m) :
    a.Live f q n := by
  obtain ⟨k, hk⟩ := h
  exact ⟨k, .of_quiet (quiet_acts hn).2 hm hk⟩

/-- The dominators of `p` below `z` make no version. -/
def QuietBelow (a : Analysis) (f : FunctionId) (e : NodeId) (q : Nat → Bool) (z p : NodeId) : Prop :=
  ∀ x, (a.flow f).StrictlyDominates e z x → (a.flow f).Dominates e x p → lastMade q (a.acts f x) = none

/-- On the way to `p`: the node makes no version, the variable is wanted, and what has an edge into the node from below
it makes no version either, unless it dominates `p`. -/
structure Calm (a : Analysis) (f : FunctionId) (e : NodeId) (q : Nat → Bool) (p y : NodeId) : Prop where
  quiet : lastMade q (a.acts f y) = none
  live : a.Live f q y
  side : ∀ z r, (a.flow f).Dominates e z r → y ∈ (a.flow f).sons r → ¬ (a.flow f).Dominates e z p →
    lastMade q (a.acts f z) = none

theorem Placed.side_quiet (hp : a.Placed f e q) (hquiet : lastMade q (a.acts f y) = none)
    (hlive : a.Live f q y) (hz : (a.flow f).Dominates e z r) (hr : y ∈ (a.flow f).sons r)
    (hno : ¬ (a.flow f).StrictlyDominates e z y) : lastMade q (a.acts f z) = none := by
  by_contra hmakes
  exact hp.meeting z y hmakes ⟨r, hz.1, hr, hz, hno⟩ hlive (quiet_acts hquiet).1

theorem Placed.calm_father (hp : a.Placed f e q) (hy : a.Calm f e q p y) (hr : (a.flow f).Reaches e r)
    (hs : y ∈ (a.flow f).sons r) (habove : (a.flow f).Dominates e r p → lastMade q (a.acts f r) = none) :
    a.Calm f e q p r := by
  have hquiet : lastMade q (a.acts f r) = none := by
    by_cases hrp : (a.flow f).Dominates e r p
    · exact habove hrp
    · exact hy.side r r (.refl hr) hs hrp
  have hlive := Live.of_son hquiet hs hy.live
  refine ⟨hquiet, hlive, fun z r' hz hr' hno => ?_⟩
  by_cases hzr : (a.flow f).StrictlyDominates e z r
  · exact hy.side z r hzr.1 hs hno
  · exact hp.side_quiet hquiet hlive hz hr' hzr

/-- The variable is wanted at all dominators of a node below `d`, if it is wanted after the node and none of them makes a
version. -/
theorem Placed.live_of_chain (hp : a.Placed f e q) (hs : n ∈ (a.flow f).sons p) (hn : a.Live f q n)
    (hchain : a.QuietBelow f e q d p)
    (hdx : (a.flow f).StrictlyDominates e d x) (hx : (a.flow f).Dominates e x p) : a.Live f q x := by
  have hbase : a.Calm f e q p p := by
    have hquiet := hchain p (hdx.trans_dominates hx) (.refl hx.1)
    have hlive := Live.of_son hquiet hs hn
    exact ⟨hquiet, hlive, fun z r hz hr hno => hp.side_quiet hquiet hlive hz hr fun h => hno h.1⟩
  -- Up along a way from the entry, as far as `x`.
  have hclimb : ∀ {y}, (a.flow f).Reaches e y → (a.flow f).Dominates e x y → a.Calm f e q p y → a.Calm f e q p x := by
    intro y hy
    induction hy with
    | entry =>
      intro hxe hcalm
      rwa [hxe.eq_entry]
    | @step r y hr hry ih =>
      intro hxy hcalm
      by_cases hne : x = y
      · rwa [hne]
      · have hxr := StrictlyDominates.father ⟨hxy, hne⟩ hr hry
        exact ih hxr (hp.calm_father hcalm hr hry (hchain r (hdx.trans_dominates hxr)))
  exact (hclimb hx.1 hx hbase).live

/-! ## Versions that nodes begin with -/

/-- The version that leaves a node. -/
def leaving (a : Analysis) (f : FunctionId) (q : Nat → Bool) (before : NodeId → Option Nat) (n : NodeId) : Option Nat :=
  (lastMade q (a.acts f n)).or (before n)

theorem Traced.rank_le (ht : a.Traced f e q before rank) (hx : (a.flow f).Dominates e x n) : rank x ≤ rank n := by
  induction hr : rank n using Nat.strongRecOn generalizing n with
  | _ r ih =>
    rcases hx.eq_or_strictly with rfl | hstrict
    · exact Nat.le_of_eq hr
    · obtain ⟨u, -, hlt, hu, -⟩ := ht.called n hx.1 hstrict.ne_entry
      have hxu : (a.flow f).Dominates e x u := by
        rcases hu with hu | hu
        · exact hu.2 x hstrict
        · exact hu.dominates hstrict
      have := ih (rank u) (hr ▸ hlt) hxu rfl
      omega

theorem leaving_eq_of_chain (hg : (a.flow f).Regular e) (hdu : (a.flow f).Dominates e d u)
    (hbefore : ∀ x y, (a.flow f).StrictlyDominates e d x → (a.flow f).Dominates e x u → (a.flow f).IsImmediate e y x →
      before x = a.leaving f q before y)
    (hquiet : a.QuietBelow f e q d u) :
    a.leaving f q before u = a.leaving f q before d := by
  induction hdepth : (a.flow f).depth u using Nat.strongRecOn generalizing u with
  | _ k ih =>
    rcases hdu.eq_or_strictly with rfl | hstrict
    · rfl
    · obtain ⟨y, hy⟩ := exists_immediate hg hdu.1 hstrict.ne_entry
      have hyu := hy.1.1
      have hup := ih _ (hdepth ▸ depth_lt hg hy.1) (hy.2 d hstrict)
        (fun x z hdx hx => hbefore x z hdx (hx.trans hyu)) (fun x hdx hx => hquiet x hdx (hx.trans hyu)) rfl
      rw [← hup, leaving, hquiet u hstrict (.refl hdu.1)]
      exact hbefore u y hstrict (.refl hdu.1) hy

theorem exists_closest (hg : (a.flow f).Regular e) (hz : (a.flow f).Dominates e z p)
    (hmakes : lastMade q (a.acts f z) ≠ none) : ∃ z, (a.flow f).Dominates e z p ∧ lastMade q (a.acts f z) ≠ none ∧
      a.QuietBelow f e q z p := by
  induction hk : (a.flow f).nodes.size - (a.flow f).depth z using Nat.strongRecOn generalizing z with
  | _ k ih =>
    by_cases hlow : a.QuietBelow f e q z p
    · exact ⟨z, hz, hmakes, hlow⟩
    · simp only [QuietBelow, not_forall] at hlow
      obtain ⟨x, hzx, hx, hmakes'⟩ := hlow
      have hlt := depth_lt hg hzx
      have hle := depth_le hg hx.reaches
      exact ih _ (by omega) hx hmakes' rfl

section

variable (ht : a.Traced f e q before rank) (hg : (a.flow f).Regular e) (hp : a.Placed f e q)

include ht hg hp

/-- A node where the variable is wanted and no versions of it meet begins with the version that leaves its immediate
dominator, whichever way it is come to. -/
theorem Traced.before_eq (hd : (a.flow f).IsImmediate e d n) (hlive : a.Live f q n)
    (hmeets : lastMade q (a.meets f n) = none) :
    before n = a.leaving f q before d := by
  induction hr : rank n using Nat.strongRecOn generalizing n d with
  | _ r ih =>
    obtain ⟨u, -, hlt, hu, hbefore⟩ := ht.called n hd.reaches hd.ne_entry
    rw [hbefore]
    rcases hu with hu | hu
    · rw [hd.unique hu]
      rfl
    · obtain ⟨p, hpr, hs, hup, -⟩ := id hu
      -- Below the immediate dominator nothing makes a version, since it would have the node in its frontier.
      have hchain : a.QuietBelow f e q d p := by
        intro y hdy hyp
        by_contra hmakes
        have hno : ¬ (a.flow f).StrictlyDominates e y n := fun hyn => hdy.2 (hdy.1.antisymm (hd.2 y hyn))
        exact hp.meeting y n hmakes ⟨p, hpr, hs, hyp, hno⟩ hlive hmeets
      refine leaving_eq_of_chain hg (hu.dominates hd.1) (fun x y hdx hx hy => ?_) (fun x hdx hx => hchain x hdx (hx.trans hup))
      have hxp := hx.trans hup
      have hrank : rank x < r := hr ▸ Nat.lt_of_le_of_lt (ht.rank_le hx) hlt
      exact ih _ hrank hy (hp.live_of_chain hs hlive hchain hdx hxp) (quiet_acts (hchain x hdx hxp)).1 rfl

/-! ## Along an edge -/

theorem Traced.leaving_eq (hs : n ∈ (a.flow f).sons p) (hlive : a.Live f q n) (hzu : (a.flow f).Dominates e z u)
    (hup : (a.flow f).Dominates e u p) (hlow : a.QuietBelow f e q z p) :
    a.leaving f q before u = a.leaving f q before z := by
  refine leaving_eq_of_chain hg hzu (fun x y hzx hx hy => ?_) (fun x hzx hx => hlow x hzx (hx.trans hup))
  have hxp := hx.trans hup
  exact ht.before_eq hg hp hy (hp.live_of_chain hs hlive hlow hzx hxp) (quiet_acts (hlow x hzx hxp)).1

/-- The version that leaves a node is gathered by the one that its son begins with, once a node above makes one. -/
theorem Traced.edge (hreach : (a.flow f).Reaches e p) (hs : n ∈ (a.flow f).sons p) (hlive : a.Live f q n)
    (habove : ∃ z, (a.flow f).Dominates e z p ∧ lastMade q (a.acts f z) ≠ none)
    (hc : a.leaving f q before p = some c) :
    (∃ z, (a.flow f).Dominates e z n ∧ lastMade q (a.acts f z) ≠ none) ∧
      ∃ c', (lastMade q (a.meets f n)).or (before n) = some c' ∧ a.Gathers f c' c := by
  obtain ⟨z₀, hz₀, hmakes₀⟩ := habove
  obtain ⟨z, hz, hmakes, hlow⟩ := exists_closest hg hz₀ hmakes₀
  have hn : (a.flow f).Reaches e n := .step hreach hs
  have hleaving := ht.leaving_eq hg hp hs hlive hz (.refl hreach) hlow
  obtain ⟨k, hk⟩ := ne_none_iff_exists'.1 hmakes
  have hkc : k = c := by
    rw [hleaving, leaving, hk] at hc
    exact some.inj hc
  subst hkc
  cases hmeets : lastMade q (a.meets f n) with
  | some r =>
    -- Versions meet here, with the one that leaves among them.
    refine ⟨⟨n, .refl hn, fun hno => ?_⟩, r, rfl, ?_⟩
    · rw [(quiet_acts hno).1] at hmeets
      cases hmeets
    · obtain ⟨i, hi, hr⟩ := mem_filterMap.1 (mem_of_getLast? hmeets)
      obtain ⟨hmade, hq⟩ := filter_eq_some_iff.1 hr
      obtain ⟨values, nodes, hop, hmem⟩ := hp.values n i hi r hmade hq hlive p k hs ⟨z, hz, hk, hlow⟩
      exact .phi (mem_filter.1 hi).1 hop hmem (.refl k)
  | none =>
    have hzn : (a.flow f).StrictlyDominates e z n := by
      by_contra hno
      exact hp.meeting z n hmakes ⟨p, hreach, hs, hz, hno⟩ hlive hmeets
    obtain ⟨d, hd⟩ := exists_immediate hg hn hzn.ne_entry
    refine ⟨⟨z, hzn.1, hmakes⟩, k, ?_, .refl k⟩
    have hdown := ht.leaving_eq hg hp hs hlive (hd.2 z hzn) (hd.1.father hreach hs) hlow
    rw [ht.before_eq hg hp hd hlive hmeets, hdown, leaving, hk]
    rfl

/-! ## Along a way -/

theorem Traced.gathers (h : a.Upcoming f q n ops k') (hn : (a.flow f).Reaches e n)
    (hbody : a.body f n = xs ++ ops) (habove : ∃ z, (a.flow f).Dominates e z n ∧ lastMade q (a.acts f z) ≠ none)
    (hc : (lastMade q (a.meets f n ++ xs)).or (before n) = some c) (hk : a.Gathers f c k) : a.Gathers f k' k := by
  induction h generalizing xs c with
  | read hphi hread hq =>
    rw [ht.reads _ _ _ _ _ hn hbody hphi hread hq] at hc
    cases hc
    exact hk
  | @pass n i rest k' hquiet _ ih =>
    have hnext : a.body f n = (xs ++ [i]) ++ rest := by rw [hbody, append_assoc, singleton_append]
    refine ih hn hnext habove ?_ hk
    rw [← append_assoc, lastMade_append, hquiet]
    exact hc
  | @son n m k' hm hup ih =>
    rw [append_nil] at hbody
    rw [← hbody] at hc
    obtain ⟨habove', c', hc', hgather⟩ := ht.edge hg hp hn hm ⟨k', hup⟩ habove hc
    have hstart : a.body f m = [] ++ a.body f m := rfl
    exact ih (.step hn hm) hstart habove' (by rwa [append_nil]) (hgather.trans hk)

/-- Where versions meet as they should, each read gathers all definitions that come to it. -/
theorem Traced.sound : a.Sound f e q := by
  intro o xs d ys k k' ho hbody hmade hq hup
  have hlast : lastMade q (xs ++ [d]) = some k := by rw [lastMade_append, lastMade_one hmade hq, some_or]
  have hnext : a.body f o = (xs ++ [d]) ++ ys := by rw [hbody, append_assoc, singleton_append]
  refine ht.gathers hg hp hup ho hnext ⟨o, .refl ho, fun hquiet => ?_⟩ ?_ (.refl k)
  · have hno := lastMade_eq_none.1 (quiet_acts hquiet).2 d (by simp [hbody]) k hmade
    rw [hno] at hq
    cases hq
  · rw [lastMade_append, hlast, some_or, some_or]

end

end

end Analysis

end ContractAudit
