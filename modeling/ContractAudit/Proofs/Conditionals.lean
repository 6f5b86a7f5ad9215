import ContractAudit.Proofs.Edges
import ContractAudit.Proofs.Outcomes
import ContractAudit.Reader.Functions

/-! # Splitting of nodes

A node with a conditional expression is replaced by a branch. Edges that lead to it are moved one by one, first those
that come in, then those that go out.
-/

namespace ContractAudit.Flow

open List

variable {g h : Flow}

/-- The node `c` takes the place of the node `i`. -/
def divert (i c x : NodeId) : NodeId := if x = i then c else x

theorem divert_ne (hci : c ≠ i) : divert i c x ≠ i := by
  unfold divert
  split
  · exact hci
  next hx => exact hx

theorem map_divert_replaceFirst (hci : c ≠ i) {l : List NodeId} :
    (replaceFirst i c l).map (divert i c) = l.map (divert i c) ∧ (replaceFirst i c l).count i = l.count i - 1 := by
  induction l with
  | nil => exact ⟨rfl, rfl⟩
  | cons x l ih =>
    by_cases hx : x = i
    · simp [replaceFirst, hx, divert, hci]
    · simp [replaceFirst, hx, ih]

theorem map_divert_of_notMem {l : List NodeId} (hi : i ∉ l) : l.map (divert i c) = l := by
  refine (map_congr_left fun x hx => ?_).trans (map_id l)
  exact if_neg fun (hxi : x = i) => hi (hxi ▸ hx)

theorem count_map_divert (hbi : b ≠ i) {l : List NodeId} :
    (l.map (divert i c)).count b = l.count b + if c = b then l.count i else 0 := by
  induction l with
  | nil => simp
  | cons x l ih =>
    simp only [map_cons, count_cons, ih, divert, beq_iff_eq]
    by_cases hx : x = i
    · simp only [hx, if_true, Ne.symm hbi, if_false]
      split <;> omega
    · split <;> omega

theorem foldl_moveFathers (hci : c ≠ i) {into : List NodeId} : ∀ {h : Flow}, (∀ a ∈ into, a < h.nodes.size) →
    c < h.nodes.size → ∀ k, k = into.foldl (fun g a => (g.replaceSon a i c).addFather c a) h →
      (∀ j, (h.sons j).count i = into.count j → k.sons j = (h.sons j).map (divert i c)) ∧
      ∀ j, k.fathers j = if c = j then h.fathers j ++ into else h.fathers j := by
  induction into with
  | nil =>
    rintro h - - k rfl
    refine ⟨fun j hj => (map_divert_of_notMem (count_eq_zero.1 hj)).symm, fun j => ?_⟩
    simp
  | cons a into ih =>
    intro h hall hc k hk
    have ha := hall a (.head _)
    have hsize : (h.replaceSon a i c).nodes.size = h.nodes.size := size_modify
    have hsize' : ((h.replaceSon a i c).addFather c a).nodes.size = h.nodes.size := size_modify.trans hsize
    obtain ⟨hsons, hfathers⟩ := ih (fun x hx => hsize' ▸ hall x (.tail _ hx)) (hsize' ▸ hc) k hk
    obtain ⟨hmap, hcount⟩ := map_divert_replaceFirst hci
    refine ⟨fun j hj => ?_, fun j => ?_⟩
    · have hj' := hsons j
      rw [sons_addFather, sons_replaceSon ha] at hj'
      split at hj'
      next haj =>
        subst haj
        rw [hmap, hcount, hj] at hj'
        exact hj' (by simp)
      next haj => exact hj' (by rw [hj, count_cons_of_ne haj])
    · rw [hfathers, fathers_addFather (hsize ▸ hc)]
      split <;> simp

theorem foldl_moveSons (hdi : d ≠ i) {out : List NodeId} : ∀ {h : Flow}, (∀ b ∈ out, b < h.nodes.size) →
    d < h.nodes.size → ∀ k, k = out.foldl (fun g b => ((g.dropFather b i).addFather b d).addSon d b) h →
      (∀ j, k.sons j = if d = j then h.sons j ++ out else h.sons j) ∧
      ∀ a b, (k.fathers b).count a =
        if a = i ∧ b ∈ out then 0 else (h.fathers b).count a + if d = a then out.count b else 0 := by
  induction out with
  | nil =>
    simp
  | cons b out ih =>
    intro h hall hd k hk
    have hdrop := (Rewired.dropFather h b i).size
    have hadd : ((h.dropFather b i).addFather b d).nodes.size = h.nodes.size := size_modify.trans hdrop
    have hsize : (((h.dropFather b i).addFather b d).addSon d b).nodes.size = h.nodes.size := size_modify.trans hadd
    obtain ⟨hsons, hfathers⟩ := ih (fun x hx => hsize ▸ hall x (.tail _ hx)) (hsize ▸ hd) k hk
    refine ⟨fun j => ?_, fun x y => ?_⟩
    · rw [hsons, sons_addSon (hadd ▸ hd)]
      split <;> simp
    · rw [hfathers, fathers_addSon, fathers_addFather (hdrop ▸ hall b (.head _)), fathers_dropFather]
      by_cases hby : b = y
      · subst hby
        by_cases hx : x = i
        · simp [hx, hdi, count_filter_ne]
        · simp only [if_true, count_append, count_filter_ne, hx, if_false, false_and, count_singleton, beq_iff_eq,
            count_cons_self]
          split <;> omega
      · simp [hby, Ne.symm hby]

theorem Rewired.moveFathers (g : Flow) (i c : NodeId) : Rewired g (g.moveFathers i c) :=
  .foldl (fun k a => .trans (.modify k a fun _ => ⟨_, _, rfl⟩) (.modify _ c fun _ => ⟨_, _, rfl⟩)) _ g

theorem Rewired.moveSons (g : Flow) (i stop : NodeId) : Rewired g (g.moveSons i stop) :=
  .foldl (fun k b => .trans (.trans (.dropFather k b i) (.modify _ b fun _ => ⟨_, _, rfl⟩))
    (.modify _ stop fun _ => ⟨_, _, rfl⟩)) _ g

theorem Rewired.wireBranch (g : Flow) (i c t e stop : NodeId) (ends : Bool) : Rewired g (g.wireBranch i c t e stop ends) := by
  have hparts : Rewired g ((((g.moveFathers i c).moveSons i stop).link c t).link c e) :=
    .trans (.trans (.trans (.moveFathers g i c) (.moveSons _ i stop)) (.link _ c t)) (.link _ c e)
  unfold Flow.wireBranch
  split
  · exact hparts
  · exact .trans (.trans hparts (.link _ t stop)) (.link _ e stop)

theorem remove_link {gone : List NodeId} : (g.link a b).remove gone = (g.remove gone).link a b := rfl

section

variable (hg : g.Linked) (hi : i ∈ g.order) (hc : c ∈ g.order) (hci : c ≠ i) (hd : d ∈ g.order) (hdi : d ≠ i)
  (hsons : g.sons d = [])

include hg hi hc hci hd hdi hsons

/-- A node is taken out of a graph: what led to it leads to `c`, and what it led to follows `d`. -/
theorem Linked.reroute (hk : k = (g.moveFathers i c).moveSons i d) :
    (k.remove [i]).Linked ∧ ∀ a ∈ g.order, k.sons a = (g.sons (if a = d then i else a)).map (divert i c) := by
  have hrewired : Rewired g k := hk ▸ (Rewired.moveFathers g i c).trans (.moveSons _ i d)
  obtain ⟨hs, hf⟩ := foldl_moveFathers hci (fun a ha => hg.inTable a (hg.fathers_mem i hi a ha)) (hg.inTable c hc)
    (g.moveFathers i c) rfl
  have hs : ∀ a ∈ g.order, (g.moveFathers i c).sons a = (g.sons a).map (divert i c) :=
    fun a ha => hs a (hg.mirrored a ha i hi)
  have hdivert : ∀ x ∈ g.order, divert i c x ∈ g.order := by
    intro x hx
    unfold divert
    split
    · exact hc
    · exact hx
  have hmoved : ∀ a ∈ g.order, ∀ b ∈ (g.sons a).map (divert i c), b ∈ g.order ∧ b ≠ i := by
    intro a ha b hb
    obtain ⟨x, hx, rfl⟩ := mem_map.1 hb
    exact ⟨hdivert x (hg.sons_mem a ha x hx), divert_ne hci⟩
  have hsize := (Rewired.moveFathers g i c).size
  obtain ⟨hs', hf'⟩ := foldl_moveSons hdi (h := g.moveFathers i c)
    (fun b hb => hsize ▸ hg.inTable b (hmoved i hi b (hs i hi ▸ hb)).1) (hsize ▸ hg.inTable d hd) k hk
  rw [hs i hi] at hs' hf'
  have hcount : ∀ a ∈ g.order, ∀ b ∈ g.order, b ≠ i →
      ((g.sons a).map (divert i c)).count b = ((g.moveFathers i c).fathers b).count a := by
    intro a ha b hb hbi
    rw [count_map_divert hbi, hf b, hg.mirrored a ha b hb, hg.mirrored a ha i hi]
    split <;> simp
  have hall : ∀ a ∈ g.order, k.sons a = (g.sons (if a = d then i else a)).map (divert i c) := by
    intro a ha
    rw [hs' a, hs a ha]
    by_cases had : a = d
    · rw [if_pos had.symm, if_pos had, had, hsons]
      rfl
    · rw [if_neg (Ne.symm had), if_neg had]
  have hgone : ∀ b ∈ g.order, b ≠ i → i ∉ k.fathers b := by
    intro b hb hbi
    rw [← count_eq_zero, hf']
    split
    · rfl
    next hout =>
      rw [Nat.add_zero, ← hcount i hi b hb hbi, count_eq_zero]
      exact fun hmem => hout ⟨rfl, hmem⟩
  have hmem : ∀ {n}, n ∈ (k.remove [i]).order ↔ n ∈ g.order ∧ n ≠ i := by
    simp [Flow.remove, hrewired.order]
  refine ⟨⟨fun n hn => ?_, fun a ha b hb => ?_, fun b hb a ha => ?_, fun a ha b hb => ?_⟩, hall⟩
  · exact hrewired.size.symm ▸ hg.inTable n (hmem.1 hn).1
  · rw [show (k.remove [i]).sons a = k.sons a from rfl, hall a (hmem.1 ha).1] at hb
    refine hmem.2 (hmoved _ ?_ b hb)
    split
    · exact hi
    · exact (hmem.1 ha).1
  · obtain ⟨hbo, hbi⟩ := hmem.1 hb
    refine hmem.2 ⟨?_, fun hai => hgone b hbo hbi (hai ▸ ha)⟩
    have hpos := count_pos_iff.2 ha
    rw [show (k.remove [i]).fathers b = k.fathers b from rfl, hf', hf b] at hpos
    by_cases hda : d = a
    · exact hda ▸ hd
    · split at hpos
      · exact absurd hpos (Nat.lt_irrefl 0)
      · split at hpos
        · rcases mem_append.1 (count_pos_iff.1 hpos) with h | h
          · exact hg.fathers_mem b hbo a h
          · exact hg.fathers_mem i hi a h
        · exact hg.fathers_mem b hbo a (count_pos_iff.1 hpos)
  · obtain ⟨hao, hai⟩ := hmem.1 ha
    obtain ⟨hbo, hbi⟩ := hmem.1 hb
    show (k.sons a).count b = (k.fathers b).count a
    rw [hf', if_neg fun h => hai h.1, hall a hao, ← hcount a hao b hbo hbi]
    by_cases had : a = d
    · rw [had, hsons]
      simp
    · rw [if_neg had, if_neg (Ne.symm had), Nat.add_zero]

theorem Linked.wireBranch (ht : t ∈ g.order) (hti : t ≠ i) (he : e ∈ g.order) (hei : e ≠ i) (ends : Bool) :
    ((g.wireBranch i c t e d ends).remove [i]).Linked ∧ ∀ a ∈ g.order, (g.wireBranch i c t e d ends).sons a =
      (g.sons (if a = d then i else a)).map (divert i c) ++ (if c = a then [t, e] else []) ++
        if ends then [] else (if t = a then [d] else []) ++ if e = a then [d] else [] := by
  obtain ⟨k, hk⟩ : ∃ k, k = (g.moveFathers i c).moveSons i d := ⟨_, rfl⟩
  have hrewired : Rewired g k := hk ▸ (Rewired.moveFathers g i c).trans (.moveSons _ i d)
  obtain ⟨hlinked, hall⟩ := hg.reroute hi hc hci hd hdi hsons hk
  have hmem : ∀ {n}, n ∈ g.order → n ≠ i → n ∈ (k.remove [i]).order := by
    intro n hn hni
    simp [Flow.remove, hrewired.order, hn, hni]
  have hsize : ∀ n ∈ g.order, n < k.nodes.size := fun n hn => hrewired.size.symm ▸ hg.inTable n hn
  have hparts := (hlinked.link (hmem hc hci) (hmem ht hti)).link (hmem hc hci) (hmem he hei)
  have hpsons : ∀ a ∈ g.order, ((k.link c t).link c e).sons a =
      (g.sons (if a = d then i else a)).map (divert i c) ++ if c = a then [t, e] else [] := by
    intro a ha
    have hc' := (Rewired.link k c t).size.symm ▸ hsize c hc
    rw [sons_link hc', sons_link (hsize c hc), hall a ha]
    split <;> simp
  unfold Flow.wireBranch
  rw [← hk]
  cases ends with
  | true => exact ⟨hparts, fun a ha => by simp [hpsons a ha]⟩
  | false =>
    rw [if_neg Bool.false_ne_true, remove_link, remove_link, remove_link]
    refine ⟨(hparts.link (hmem ht hti) (hmem hd hdi)).link (hmem he hei) (hmem hd hdi), fun a ha => ?_⟩
    have hlt : ∀ n ∈ g.order, n < ((k.link c t).link c e).nodes.size := fun n hn =>
      ((Rewired.link k c t).trans (.link _ c e)).size.symm ▸ hsize n hn
    rw [sons_link ((Rewired.link _ t d).size.symm ▸ hlt e he), sons_link (hlt t ht), hpsons a ha]
    split <;> split <;> simp

end

theorem Linked.add_eq (hg : g.Linked) (hn : n.sons = [] ∧ n.fathers = []) (hadd : g.add n = (h, c)) :
    h.Linked ∧ c = g.nodes.size ∧ h.nodes.size = g.nodes.size + 1 ∧ h.order = g.order ++ [c] ∧
      ∀ j, h.node j = if j = c then n else g.node j := by
  obtain ⟨rfl, rfl⟩ : (g.add n).1 = h ∧ g.nodes.size = c := Prod.mk.inj hadd
  exact ⟨(Grows.add g hn.1 hn.2).linked hg, rfl, Array.size_push n, rfl, node_add g n⟩

/-- The node `a` is the node `n` with these sons. -/
def Holds (g : Flow) (a : NodeId) (n : Node) (sons : List NodeId) : Prop :=
  ∃ fathers, g.node a = { n with sons, fathers }

theorem Rewired.holds (hgh : Rewired g h) (a : NodeId) : h.Holds a (g.node a) (h.sons a) := by
  obtain ⟨sons, fathers, ha⟩ := hgh.node a
  exact ⟨fathers, by rw [Flow.sons, ha]⟩

/-- A branch takes over what leads to a node, and the end of the branch what the node leads to. -/
theorem Linked.replaceByBranch (hg : g.Linked) (hi : i ∈ g.order) (ends : Bool)
    (hb : branch.sons = [] ∧ branch.fathers = []) (ht : whenTrue.sons = [] ∧ whenTrue.fathers = [])
    (he : whenFalse.sons = [] ∧ whenFalse.fathers = []) (hj : join.sons = [] ∧ join.fathers = [])
    (hh : h = g.replaceByBranch i branch whenTrue whenFalse join ends) :
    h.Linked ∧ g.nodes.size ≤ h.nodes.size ∧ ∃ c, ∀ a ∈ h.order, (a ∈ g.order ∧ a ≠ i ∧ h.Holds a (g.node a) ((g.sons a).map (divert i c))) ∨
      (∃ sons, h.Holds a branch sons) ∨
      (∃ sons, sons.length ≤ 1 ∧ (h.Holds a whenTrue sons ∨ h.Holds a whenFalse sons)) ∨
      g.nodes.size ≤ a ∧ h.Holds a join ((g.sons i).map (divert i c)) := by
  rcases hc : g.add branch with ⟨g₁, c⟩
  rcases ht' : g₁.add whenTrue with ⟨g₂, t⟩
  rcases he' : g₂.add whenFalse with ⟨g₃, e⟩
  rcases hs : g₃.add join with ⟨g₄, d⟩
  obtain ⟨hg₁, hc', hs₁, ho₁, hn₁⟩ := hg.add_eq hb hc
  obtain ⟨hg₂, ht'', hs₂, ho₂, hn₂⟩ := hg₁.add_eq ht ht'
  obtain ⟨hg₃, he'', hs₃, ho₃, hn₃⟩ := hg₂.add_eq he he'
  obtain ⟨hg₄, hd, hs₄, ho₄, hn₄⟩ := hg₃.add_eq hj hs
  simp only [Flow.replaceByBranch, hc, ht', he', hs] at hh
  have hnode : ∀ x, g₄.node x = if x = d then join else if x = e then whenFalse else if x = t then whenTrue else
      if x = c then branch else g.node x := by
    intro x
    rw [hn₄, hn₃, hn₂, hn₁]
  have hmem : ∀ {x}, x ∈ g₄.order ↔ x ∈ g.order ∨ x = c ∨ x = t ∨ x = e ∨ x = d := by simp [ho₄, ho₃, ho₂, ho₁]
  have hfar : ∀ x ∈ g.order, ∀ n, x ≠ c + n := fun x hx n => Nat.ne_of_lt (Nat.lt_add_right n (hc' ▸ hg.inTable x hx))
  obtain rfl : t = c + 1 := by rw [ht'', hs₁, hc']
  obtain rfl : e = c + 2 := by rw [he'', hs₂, hs₁, hc']
  obtain rfl : d = c + 3 := by rw [hd, hs₃, hs₂, hs₁, hc']
  have hi' := fun n => Ne.symm (hfar i hi n)
  obtain ⟨hlinked, hsons⟩ := hg₄.wireBranch (c := c) (t := c + 1) (e := c + 2) (d := c + 3) (hmem.2 (.inl hi)) (by simp [hmem])
    (hi' 0) (by simp [hmem]) (hi' 3) (by simp [sons, hnode, hj]) (by simp [hmem]) (hi' 1) (by simp [hmem]) (hi' 2) ends
  have hrewired := Rewired.wireBranch g₄ i c (c + 1) (c + 2) (c + 3) ends
  refine ⟨hh ▸ hlinked, hh ▸ hrewired.size.symm ▸ by omega, c, fun a ha => ?_⟩
  obtain ⟨ha₄, hai⟩ : a ∈ g₄.order ∧ a ≠ i := by simpa [hh, Flow.remove, hrewired.order] using ha
  subst hh
  have hholds : ((g₄.wireBranch i c (c + 1) (c + 2) (c + 3) ends).remove [i]).Holds a _ _ := hrewired.holds a
  rw [hsons a ha₄] at hholds
  have hshort : (if ends = true then [] else [c + 3]).length ≤ 1 := by cases ends <;> simp
  rcases hmem.1 ha₄ with hao | rfl | rfl | rfl | rfl
  · have hfar := hfar a hao
    have hold : a ≠ c := hfar 0
    exact .inl ⟨hao, hai, by simpa [hnode, sons, hfar, hold, Ne.symm] using hholds⟩
  · rw [hnode] at hholds
    exact .inr (.inl ⟨_, by simpa using hholds⟩)
  · exact .inr (.inr (.inl ⟨_, hshort, .inl (by simpa [hnode, sons, ht.1] using hholds)⟩))
  · exact .inr (.inr (.inl ⟨_, hshort, .inr (by simpa [hnode, sons, he.1] using hholds)⟩))
  · have hold : i ≠ c := hfar i hi 0
    exact .inr (.inr (.inr ⟨hc' ▸ Nat.le_add_right _ 3, by simpa [hnode, sons, hfar i hi, hold] using hholds⟩))

end ContractAudit.Flow

namespace ContractAudit.Reader

open Flow

theorem splitNode_eq (hsplit : splitNode g i s = .ok h) : h = branchAt g i s := by
  simp only [splitNode] at hsplit
  split at hsplit
  · obtain ⟨-, -, hsplit⟩ := bind_eq_ok.1 hsplit
    obtain ⟨-, -, hsplit⟩ := bind_eq_ok.1 hsplit
    cases hsplit
    rfl
  · cases hsplit
    rfl

theorem splitNode_linked (hg : g.Linked) (hi : i ∈ g.order)
    (hsplit : splitNode g i s = .ok h) : h.Linked :=
  (hg.replaceByBranch hi _ ⟨rfl, rfl⟩ ⟨rfl, rfl⟩ ⟨rfl, rfl⟩ ⟨rfl, rfl⟩ (splitNode_eq hsplit)).1

end ContractAudit.Reader
