import ContractAudit.Flow.Build
import ContractAudit.Proofs.Arrays
import Mathlib.Data.List.Count
import Mathlib.Tactic.ByContra

/-! # Edges of flow graphs

Every way to edit a graph either changes both ends of edges alike or is one of two edits that together do.
-/

namespace ContractAudit

def NodeKind.jumps : NodeKind → Bool
  | returns | throws | breaks | continues => true
  | _ => false

namespace Flow

open List

variable {visited gone : List NodeId}

variable {g h : Flow}

/-- Edges are found at both ends equally often, and stay among the nodes of the graph. -/
structure Linked (g : Flow) : Prop where
  inTable : ∀ n ∈ g.order, n < g.nodes.size
  sons_mem : ∀ a ∈ g.order, ∀ b ∈ g.sons a, b ∈ g.order
  fathers_mem : ∀ b ∈ g.order, ∀ a ∈ g.fathers b, a ∈ g.order
  mirrored : ∀ a ∈ g.order, ∀ b ∈ g.order, (g.sons a).count b = (g.fathers b).count a

theorem Linked.setEntry (hg : g.Linked) (e : Option NodeId) : ({ g with entry := e } : Flow).Linked :=
  ⟨hg.inTable, hg.sons_mem, hg.fathers_mem, hg.mirrored⟩

/-! ## Changes of one node -/

theorem node_modify : (g.modify i f).node j = if i = j ∧ j < g.nodes.size then f (g.node j) else g.node j :=
  getD_modify ..

@[simp] theorem size_modify : (g.modify i f).nodes.size = g.nodes.size := by
  simp [modify]

theorem node_of_size_le (hn : g.nodes.size ≤ n) : g.node n = default := by
  simp [node, hn]

theorem read_modify (p : Node → α) (hf : ∀ n, p (f n) = p n) : p ((g.modify i f).node j) = p (g.node j) := by
  rw [node_modify]
  split
  · exact hf _
  · rfl

@[simp] theorem sons_dropFather : (g.dropFather s i).sons j = g.sons j := read_modify Node.sons fun _ => rfl

@[simp] theorem sons_addFather : (g.addFather s i).sons j = g.sons j := read_modify Node.sons fun _ => rfl

@[simp] theorem fathers_dropSon : (g.dropSon i s).fathers j = g.fathers j := read_modify Node.fathers fun _ => rfl

@[simp] theorem fathers_addSon : (g.addSon i s).fathers j = g.fathers j := read_modify Node.fathers fun _ => rfl

@[simp] theorem fathers_setSons : (g.setSons i l).fathers j = g.fathers j := read_modify Node.fathers fun _ => rfl

@[simp] theorem fathers_replaceSon : (g.replaceSon i a b).fathers j = g.fathers j := read_modify Node.fathers fun _ => rfl

/-- A change of a node is seen there and nowhere else, if the node is in the table or no node would show it. -/
theorem read_modify_self (p : Node → α) (hi : i < g.nodes.size ∨ p (f default) = p default) :
    p ((g.modify i f).node j) = if i = j then p (f (g.node j)) else p (g.node j) := by
  rw [node_modify]
  by_cases hij : i = j
  · subst hij
    by_cases hlt : i < g.nodes.size
    · simp [hlt]
    · simp [hlt, node_of_size_le (Nat.le_of_not_lt hlt), hi.resolve_left hlt]
  · simp [hij]

theorem fathers_dropFather :
    (g.dropFather s i).fathers j = if s = j then (g.fathers j).filter (· != i) else g.fathers j :=
  read_modify_self Node.fathers (.inr rfl)

theorem sons_dropSon : (g.dropSon i s).sons j = if i = j then (g.sons j).filter (· != s) else g.sons j :=
  read_modify_self Node.sons (.inr rfl)

theorem fathers_addFather (hs : s < g.nodes.size) :
    (g.addFather s i).fathers j = if s = j then g.fathers j ++ [i] else g.fathers j :=
  read_modify_self Node.fathers (.inl hs)

section

variable (hi : i < g.nodes.size)

include hi

theorem sons_addSon : (g.addSon i s).sons j = if i = j then g.sons j ++ [s] else g.sons j :=
  read_modify_self Node.sons (.inl hi)

theorem sons_setSons : (g.setSons i l).sons j = if i = j then l else g.sons j := read_modify_self Node.sons (.inl hi)

theorem sons_replaceSon : (g.replaceSon i a b).sons j = if i = j then replaceFirst a b (g.sons j) else g.sons j :=
  read_modify_self Node.sons (.inl hi)

theorem sons_link : (g.link i b).sons j = if i = j then g.sons j ++ [b] else g.sons j :=
  sons_addFather.trans (sons_addSon hi)

end

theorem link_eq : g.link a b = (g.addSon a b).addFather b a := rfl

theorem fathers_link (hb : b < g.nodes.size) :
    (g.link a b).fathers j = if b = j then g.fathers j ++ [a] else g.fathers j := by
  rw [link_eq, fathers_addFather (by simpa [addSon] using hb), fathers_addSon]

/-! ## Graphs with the same nodes -/

/-- The nodes are the same and of the same kinds; edges may differ. -/
structure SameNodes (g h : Flow) : Prop where
  size : h.nodes.size = g.nodes.size
  order : h.order = g.order
  entry : h.entry = g.entry
  kind : ∀ n, h.kind n = g.kind n

/-- Nothing but edges differs. -/
structure Rewired (g h : Flow) : Prop where
  order : h.order = g.order
  size : h.nodes.size = g.nodes.size
  entry : h.entry = g.entry
  node : ∀ j, ∃ sons fathers, h.node j = { g.node j with sons, fathers }

namespace Rewired

theorem refl (g : Flow) : Rewired g g := ⟨rfl, rfl, rfl, fun _ => ⟨_, _, rfl⟩⟩

theorem trans (hgh : Rewired g h) (hhk : Rewired h k) : Rewired g k := by
  refine ⟨hhk.order.trans hgh.order, hhk.size.trans hgh.size, hhk.entry.trans hgh.entry, fun j => ?_⟩
  obtain ⟨_, _, hh⟩ := hgh.node j
  obtain ⟨_, _, hk⟩ := hhk.node j
  exact ⟨_, _, hk.trans (by rw [hh])⟩

theorem modify (g : Flow) (i : NodeId)
    (hf : ∀ n, ∃ sons fathers, f n = { n with sons, fathers }) : Rewired g (g.modify i f) := by
  refine ⟨rfl, size_modify, rfl, fun j => ?_⟩
  rw [node_modify]
  split
  · exact hf _
  · exact ⟨_, _, rfl⟩

theorem foldl (hstep : ∀ g x, Rewired g (step g x)) (xs : List NodeId) (g : Flow) :
    Rewired g (xs.foldl step g) :=
  foldlRecOn xs step (.refl g) fun h hh x _ => hh.trans (hstep h x)

theorem link (g : Flow) (a b : NodeId) : Rewired g (g.link a b) :=
  (modify g a fun _ => ⟨_, _, rfl⟩).trans (modify _ b fun _ => ⟨_, _, rfl⟩)

theorem kind (hgh : Rewired g h) (n : NodeId) : h.kind n = g.kind n := by
  obtain ⟨_, _, hn⟩ := hgh.node n
  rw [Flow.kind, hn, Flow.kind]

theorem sameNodes (hgh : Rewired g h) : SameNodes g h := ⟨hgh.size, hgh.order, hgh.entry, hgh.kind⟩

theorem dropFather (g : Flow) (s i : NodeId) : Rewired g (g.dropFather s i) := modify g s fun _ => ⟨_, _, rfl⟩

theorem dropEdge (g : Flow) (i s : NodeId) : Rewired g ((g.dropFather s i).dropSon i s) :=
  (dropFather g s i).trans (modify _ i fun _ => ⟨_, _, rfl⟩)

end Rewired

/-! ## Edits of edges -/

theorem count_filter_ne (l : List NodeId) (x y : NodeId) : (l.filter (· != x)).count y = if y = x then 0 else l.count y := by
  by_cases hyx : y = x
  · subst hyx
    simp [count_eq_zero]
  · rw [if_neg hyx, count_filter (by simp [hyx])]

/-- Edges from `x` to `y` are found equally often at both ends, and only between nodes of the graph. -/
def Matched (g : Flow) (x y : NodeId) : Prop :=
  ∃ c, (x ∈ g.order → (g.sons x).count y = c) ∧ (y ∈ g.order → (g.fathers y).count x = c) ∧ (c ≠ 0 → x ∈ g.order ∧ y ∈ g.order)

namespace Linked

theorem of_matched (hsize : ∀ n ∈ g.order, n < g.nodes.size) (h : ∀ x y, g.Matched x y) : g.Linked := by
  refine ⟨hsize, fun x hx y hy => ?_, fun y hy x hx => ?_, fun x hx y hy => ?_⟩ <;> obtain ⟨c, hs, hf, hc⟩ := h x y
  · exact (hc (hs hx ▸ Nat.ne_of_gt (count_pos_iff.2 hy))).2
  · exact (hc (hf hy ▸ Nat.ne_of_gt (count_pos_iff.2 hx))).1
  · rw [hs hx, hf hy]

variable (hg : g.Linked)

include hg

theorem matched (x y : NodeId) : g.Matched x y := by
  by_cases hx : x ∈ g.order
  · refine ⟨(g.sons x).count y, fun _ => rfl, fun hy => (hg.mirrored x hx y hy).symm, fun hc => ⟨hx, ?_⟩⟩
    exact hg.sons_mem x hx y (count_pos_iff.1 (Nat.pos_of_ne_zero hc))
  · exact ⟨0, fun h => absurd h hx, fun hy => count_eq_zero.2 fun hmem => hx (hg.fathers_mem y hy x hmem), fun h => absurd rfl h⟩

theorem of_sameNodes (hn : SameNodes g h) (hmatched : ∀ x y, g.Matched x y → h.Matched x y) : h.Linked :=
  of_matched (fun n hmem => hn.size ▸ hg.inTable n (hn.order ▸ hmem)) fun x y => hmatched x y (hg.matched x y)

theorem mem_sons_iff (ha : a ∈ g.order) (hb : b ∈ g.order) : b ∈ g.sons a ↔ a ∈ g.fathers b := by
  rw [← count_pos_iff, ← count_pos_iff, hg.mirrored a ha b hb]

theorem link (ha : a ∈ g.order) (hb : b ∈ g.order) : (g.link a b).Linked := by
  refine hg.of_sameNodes (Rewired.link g a b).sameNodes fun x y ⟨c, hs, hf, hc⟩ => ?_
  refine ⟨c + if a = x ∧ b = y then 1 else 0, ?_⟩
  rw [sons_link (hg.inTable a ha), fathers_link (hg.inTable b hb), (Rewired.link g a b).order]
  grind

theorem dropEdge (i s : NodeId) : ((g.dropFather s i).dropSon i s).Linked := by
  refine hg.of_sameNodes (Rewired.dropEdge g i s).sameNodes fun x y ⟨c, hs, hf, hc⟩ => ?_
  refine ⟨if i = x ∧ s = y then 0 else c, ?_⟩
  rw [sons_dropSon, sons_dropFather, fathers_dropSon, fathers_dropFather, (Rewired.dropEdge g i s).order]
  have hsons := count_filter_ne (g.sons x) s y
  have hfathers := count_filter_ne (g.fathers y) i x
  grind

end Linked

/-- Takes the sons from a node that do not meet a condition. -/
def keepSons (g : Flow) (i : NodeId) (p : NodeId → Bool) : Flow :=
  (((g.sons i).filter fun s => !p s).foldl (fun g son => g.dropFather son i) g).setSons i ((g.sons i).filter p)

theorem Rewired.keepSons (g : Flow) (i : NodeId) (p : NodeId → Bool) : Rewired g (g.keepSons i p) :=
  (foldl (dropFather · · i) _ g).trans (modify _ i fun _ => ⟨_, _, rfl⟩)

theorem cutSons_eq (g : Flow) (i : NodeId) : g.cutSons i = g.keepSons i fun _ => false := by
  have hall : ((g.sons i).filter fun _ => !false) = g.sons i := filter_eq_self.2 fun _ _ => rfl
  have hnone : ((g.sons i).filter fun _ => false) = [] := filter_eq_nil_iff.2 fun _ _ => Bool.false_ne_true
  rw [cutSons, keepSons, hall, hnone]

theorem sons_foldl_dropFather {l : List NodeId} :
    (l.foldl (fun g son => g.dropFather son i) g).sons j = g.sons j := by
  induction l generalizing g with
  | nil => rfl
  | cons x l ih => rw [foldl_cons, ih, sons_dropFather]

theorem fathers_foldl_dropFather {l : List NodeId} :
    (l.foldl (fun g son => g.dropFather son i) g).fathers j = if j ∈ l then (g.fathers j).filter (· != i) else g.fathers j := by
  induction l generalizing g with
  | nil => simp
  | cons x l ih =>
    rw [foldl_cons, ih, fathers_dropFather]
    by_cases hxj : x = j
    · simp [hxj]
    · have hjx : j ≠ x := Ne.symm hxj
      simp [hxj, hjx]

theorem sons_keepSons (g : Flow) (j : NodeId) (p : NodeId → Bool) (hi : i < g.nodes.size) :
    (g.keepSons i p).sons j = if i = j then (g.sons i).filter p else g.sons j := by
  have hsize := (Rewired.foldl (.dropFather · · i) ((g.sons i).filter fun s => !p s) g).size
  rw [keepSons, sons_setSons (hsize ▸ hi), sons_foldl_dropFather]

theorem fathers_keepSons (g : Flow) (i j : NodeId) (p : NodeId → Bool) : (g.keepSons i p).fathers j =
      if j ∈ (g.sons i).filter (fun s => !p s) then (g.fathers j).filter (· != i) else g.fathers j := by
  rw [keepSons, fathers_setSons, fathers_foldl_dropFather]

theorem Linked.keepSons (hg : g.Linked) (hi : i ∈ g.order) (p : NodeId → Bool) : (g.keepSons i p).Linked := by
  refine hg.of_sameNodes (Rewired.keepSons g i p).sameNodes fun x y ⟨c, hs, hf, hc⟩ => ?_
  refine ⟨if i = x ∧ p y = false then 0 else c, ?_⟩
  rw [sons_keepSons g x p (hg.inTable i hi), fathers_keepSons, (Rewired.keepSons g i p).order]
  have hsons : ((g.sons i).filter p).count y = if p y then (g.sons i).count y else 0 := by
    cases hp : p y <;> simp [hp, count_filter, count_eq_zero]
  have hfathers := count_filter_ne (g.fathers y) i x
  grind [count_pos_iff]

/-! ## New nodes -/

theorem node_add (g : Flow) (n : Node) (j : NodeId) : (g.add n).1.node j = if j = g.nodes.size then n else g.node j :=
  getD_push ..

theorem mem_order_add : j ∈ (g.add n).1.order ↔ j ∈ g.order ∨ j = g.nodes.size := by
  simp [add]

theorem Linked.add (hg : g.Linked) (hsons : n.sons = []) (hfathers : n.fathers = []) : (g.add n).1.Linked := by
  have hsize : (g.add n).1.nodes.size = g.nodes.size + 1 := Array.size_push _
  refine of_matched (fun j hj => ?_) fun x y => ?_
  · rw [hsize]
    rcases mem_order_add.1 hj with hold | rfl
    · exact Nat.lt_succ_of_lt (hg.inTable j hold)
    · exact Nat.lt_succ_self _
  · obtain ⟨c, hs, hf, hc⟩ := hg.matched x y
    have hnew : g.nodes.size ∉ g.order := fun hmem => Nat.lt_irrefl _ (hg.inTable _ hmem)
    refine ⟨c, ?_⟩
    simp only [sons, fathers, node_add, mem_order_add]
    grind [sons, fathers]

/-! ## Growth -/

/-- Nodes stay and are of the same kinds, and edges are found at both ends if they were. -/
structure Widens (g h : Flow) : Prop where
  linked : g.Linked → h.Linked
  order : ∀ n ∈ g.order, n ∈ h.order
  kind : g.Linked → ∀ n ∈ g.order, h.kind n = g.kind n

theorem Widens.refl (g : Flow) : Widens g g := ⟨id, fun _ => id, fun _ _ _ => rfl⟩

theorem Widens.trans (hgh : Widens g h) (hhk : Widens h k) : Widens g k where
  linked hg := hhk.linked (hgh.linked hg)
  order n hn := hhk.order n (hgh.order n hn)
  kind hg n hn := (hhk.kind (hgh.linked hg) n (hgh.order n hn)).trans (hgh.kind hg n hn)

structure Grows (g h : Flow) : Prop extends Widens g h where
  entry : h.entry = g.entry

namespace Grows

theorem refl (g : Flow) : Grows g g := ⟨.refl g, rfl⟩

theorem trans (hgh : Grows g h) (hhk : Grows h k) : Grows g k :=
  ⟨hgh.toWidens.trans hhk.toWidens, hhk.entry.trans hgh.entry⟩

theorem of_sameNodes (hn : SameNodes g h) (hl : g.Linked → h.Linked) : Grows g h :=
  ⟨⟨hl, fun _ hmem => hn.order.symm ▸ hmem, fun _ n _ => hn.kind n⟩, hn.entry⟩

theorem add (g : Flow) (hsons : n.sons = []) (hfathers : n.fathers = []) : Grows g (g.add n).1 where
  linked hg := hg.add hsons hfathers
  order j hj := mem_order_add.2 (.inl hj)
  kind hg j hj := by
    have hne : j ≠ g.nodes.size := Nat.ne_of_lt (hg.inTable j hj)
    rw [kind, node_add, if_neg hne, kind]
  entry := rfl

theorem link (ha : a ∈ g.order) (hb : b ∈ g.order) : Grows g (g.link a b) :=
  of_sameNodes (Rewired.link g a b).sameNodes fun hg => hg.link ha hb

theorem keepSons (hi : i ∈ g.order) (p : NodeId → Bool) : Grows g (g.keepSons i p) :=
  of_sameNodes (Rewired.keepSons g i p).sameNodes fun hg => hg.keepSons hi p

theorem cutSons (hi : i ∈ g.order) : Grows g (g.cutSons i) :=
  cutSons_eq g i ▸ keepSons hi _

theorem modify (g : Flow) (i : NodeId) (hkind : ∀ n, (f n).kind = n.kind)
    (hsons : ∀ n, (f n).sons = n.sons) (hfathers : ∀ n, (f n).fathers = n.fathers) : Grows g (g.modify i f) := by
  have hn : SameNodes g (g.modify i f) := ⟨size_modify, rfl, rfl, fun _ => read_modify Node.kind hkind⟩
  refine of_sameNodes hn fun hg => hg.of_sameNodes hn fun x y hxy => ?_
  rwa [Matched, sons, read_modify Node.sons hsons, fathers, read_modify Node.fathers hfathers]

theorem foldl {xs : List α}
    (hstep : ∀ h, Grows g h → ∀ x ∈ xs, Grows h (step h x)) : Grows g (xs.foldl step g) :=
  foldlRecOn xs step (.refl g) fun h hh x hx => hh.trans (hstep h hh x hx)

end Grows

theorem modify_modify (f f' : Node → Node) :
    (g.modify i f).modify i f' = g.modify i fun n => f' (f n) := by
  have hnodes : (g.nodes.modify i f).modify i f' = g.nodes.modify i fun n => f' (f n) := by
    apply Array.ext_getElem?
    intro j
    simp only [Array.getElem?_modify]
    split
    · rw [Option.map_map]
      rfl
    · rfl
  rw [modify, modify, hnodes, modify]

/-- To redirect a node is to take all its sons and to add an edge. -/
theorem redirect_eq : g.redirect i target = (g.cutSons i).link i target := by
  rw [redirect, link_eq, cutSons]
  simp [setSons, addSon, modify_modify]

theorem Grows.pruneLoopStart (hi : i ∈ g.order) : Grows g (g.pruneLoopStart i) := by
  unfold Flow.pruneLoopStart
  split
  · exact .refl g
  · have hkeep := keepSons hi fun s => !(g.kind s == .endLoop)
    simpa [Flow.keepSons, Function.comp_def] using hkeep

theorem Grows.insertAfter (hg : g.Linked) (hi : i ∈ g.order) (hj : j ∈ g.order) : Grows g (g.insertAfter i j) := by
  have hlink := Grows.link hi hj
  refine hlink.trans (.foldl ?_)
  intro h hh s hs
  have hjh : j ∈ h.order := hh.order j (hlink.order j hj)
  have hsh : s ∈ h.order := hh.order s (hlink.order s (hg.sons_mem i hi s hs))
  have hfree := Grows.of_sameNodes (Rewired.dropEdge h i s).sameNodes fun hl => hl.dropEdge i s
  exact hfree.trans (.link (hfree.order j hjh) (hfree.order s hsh))

theorem Grows.markReachable (g : Flow) (i : NodeId) : Grows g (g.markReachable i) :=
  foldl fun h _ j _ => .modify h j (fun _ => rfl) (fun _ => rfl) fun _ => rfl

/-! ## Jumps -/

/-- Nodes that meet `P` and led nowhere may be made to lead to `stop`; all other nodes lead where they did. -/
structure Joins (P : NodeId → Prop) (stop : NodeId) (g h : Flow) : Prop where
  linked : g.Linked → h.Linked
  rewired : Rewired g h
  sons : ∀ u, h.sons u = g.sons u ∨ P u ∧ g.sons u = [] ∧ h.sons u = [stop]
  heads : ∀ v x, (g.fathers v).head? = some x → (h.fathers v).head? = some x

/-- From nodes that meet `P` all ways stay among such nodes until they come to `stop`. -/
def Closed (P : NodeId → Prop) (stop : NodeId) (g : Flow) : Prop :=
  ∀ u, P u → u ∈ g.order ∧ ∀ v ∈ g.sons u, v = stop ∨ P v

namespace Joins

theorem refl : Joins P stop g g := ⟨id, .refl g, fun _ => .inl rfl, fun _ _ => id⟩

theorem trans (hgh : Joins P stop g h) (hhk : Joins P stop h k) : Joins P stop g k := by
  refine ⟨hhk.linked ∘ hgh.linked, hgh.rewired.trans hhk.rewired, fun u => ?_, fun v x hx => hhk.heads v x (hgh.heads v x hx)⟩
  rcases hgh.sons u with h₁ | ⟨hP, h₁, h₁'⟩ <;> rcases hhk.sons u with h₂ | ⟨hP', h₂, h₂'⟩
  · exact .inl (h₂.trans h₁)
  · exact .inr ⟨hP', h₁ ▸ h₂, h₂'⟩
  · exact .inr ⟨hP, h₁, h₂.trans h₁'⟩
  · simp [h₁'] at h₂

theorem closed (hgh : Joins P stop g h) (hg : g.Closed P stop) : h.Closed P stop := by
  refine fun u hu => ⟨hgh.rewired.order.symm ▸ (hg u hu).1, fun v hv => ?_⟩
  rcases hgh.sons u with hsons | ⟨-, -, hsons⟩ <;> rw [hsons] at hv
  · exact (hg u hu).2 v hv
  · exact .inl (mem_singleton.1 hv)

theorem joinClause (fuel : Nat) (hl : g.Linked) (hg : g.Closed P stop) (hstop : stop ∈ g.order) (hi : P i)
    (visited : List NodeId) :
    Joins P stop g (g.joinClause fuel i stop visited).1 := by
  induction fuel generalizing g i visited with
  | zero => exact .refl
  | succ fuel ih =>
    unfold joinClause
    split
    next hnone =>
      refine ⟨fun hl => hl.link (hg i hi).1 hstop, .link g i stop, fun u => ?_, fun v x hx => ?_⟩
      · rw [sons_link (hl.inTable i (hg i hi).1)]
        split
        next hiu => exact .inr ⟨hiu ▸ hi, hiu ▸ isEmpty_iff.1 hnone, by rw [← hiu, isEmpty_iff.1 hnone]; rfl⟩
        next => exact .inl rfl
      · rw [fathers_link (hl.inTable stop hstop)]
        split <;> simp [hx]
    next =>
      refine foldlRecOn (motive := fun x : Flow × List NodeId => Joins P stop g x.1) _ _ .refl ?_
      rintro ⟨h, met⟩ hh son hson
      dsimp only at hh ⊢
      split
      · exact hh
      next hnew =>
        have hne : son ≠ stop := by simp at hnew; exact hnew.1
        exact hh.trans (ih (hh.linked hl) (hh.closed hg) (hh.rewired.order.symm ▸ hstop) (((hg i hi).2 son hson).resolve_left hne) _)

end Joins

theorem sons_cutSons (g : Flow) (j : NodeId) (hi : i < g.nodes.size) :
    (g.cutSons i).sons j = if i = j then [] else g.sons j := by
  rw [cutSons_eq, sons_keepSons g j _ hi, filter_eq_nil_iff.2 fun _ _ => Bool.false_ne_true]

/-- The node `i` is made to lead to other nodes, and all other nodes lead where they did. -/
structure Turns (g h : Flow) (i : NodeId) (sons : List NodeId) : Prop where
  linked : h.Linked
  rewired : Rewired g h
  sons : ∀ u, h.sons u = if i = u then sons else g.sons u
  heads : ∀ v x, x ≠ i → (g.fathers v).head? = some x → (h.fathers v).head? = some x

section

variable {next : NodeId → List NodeId} {count : Int}

theorem search_cases (h : search next found? shift (fuel + 1) i visited count = some j) :
    i ∉ visited ∧ (count = 0 ∧ found? i = some j ∨ (count = 0 → found? i = none) ∧
      (next i).findSome? (fun k => search next found? shift fuel k (visited ++ [i]) (count + shift i)) = some j) := by
  rw [search] at h
  split at h
  · cases h
  next hi =>
    refine ⟨by simpa using hi, ?_⟩
    rw [Option.or_eq_some_iff] at h
    by_cases hc : count = 0 <;> simpa [hc] using h

theorem search_mem (hnext : ∀ a ∈ g.order, ∀ b ∈ next a, b ∈ g.order)
    (hfound : ∀ a ∈ g.order, ∀ b, found? a = some b → b ∈ g.order)
    (hi : i ∈ g.order) (h : search next found? shift fuel i visited count = some j) : j ∈ g.order := by
  induction fuel generalizing i visited count with
  | zero => cases h
  | succ fuel ih =>
    obtain ⟨-, ⟨-, hj⟩ | ⟨-, hrest⟩⟩ := search_cases h
    · exact hfound i hi j hj
    · obtain ⟨k, hk, hrest⟩ := exists_of_findSome?_eq_some hrest
      exact ih (hnext i hi k hk) hrest

variable (hg : g.Linked) (hi : i ∈ g.order)

include hg hi

theorem Linked.findEndLoop_mem (h : g.findEndLoop fuel i visited count = some j) : j ∈ g.order := by
  refine search_mem hg.sons_mem (fun a ha b hb => ?_) hi h
  obtain ⟨-, rfl⟩ : g.kind a = .endLoop ∧ a = b := by simpa using hb
  exact ha

theorem Linked.findLoopHead_mem (h : g.findLoopHead fuel i visited count = some j) : j ∈ g.order := by
  refine search_mem hg.fathers_mem (fun a ha b hb => ?_) hi h
  split at hb
  · -- the step of a `for` loop stands before its condition
    obtain rfl := Option.some.inj hb
    cases hstep : (g.fathers a).find? fun f => g.kind f == .expression with
    | none => exact ha
    | some f => exact hg.fathers_mem a ha f (mem_of_find?_eq_some hstep)
  · exact Option.some.inj hb ▸ ha
  · cases hb

theorem Turns.cutSons : Turns g (g.cutSons i) i [] := by
  refine ⟨(Grows.cutSons hi).linked hg, cutSons_eq g i ▸ .keepSons g i _, fun u => sons_cutSons g u (hg.inTable i hi),
    fun v x hx hhead => ?_⟩
  obtain ⟨rest, hrest⟩ := head?_eq_some_iff.1 hhead
  rw [cutSons_eq, fathers_keepSons]
  split
  · simp [hrest, hx]
  · exact hhead

theorem Turns.redirect (hj : j ∈ g.order) : Turns g (g.redirect i j) i [j] := by
  have hcut := Turns.cutSons hg hi
  have hmem : ∀ {n}, n ∈ g.order → n ∈ (g.cutSons i).order := fun hn => hcut.rewired.order.symm ▸ hn
  rw [redirect_eq]
  refine ⟨hcut.linked.link (hmem hi) (hmem hj), hcut.rewired.trans (.link _ i j), fun u => ?_, fun v x hx hhead => ?_⟩
  · rw [sons_link (hcut.linked.inTable i (hmem hi)), hcut.sons u]
    split <;> simp
  · have hold := hcut.heads v x hx hhead
    rw [fathers_link (hcut.linked.inTable j (hmem hj))]
    split
    · simp [hold]
    · exact hold

theorem fixJump_cases (hfix : g.fixJump name i = .ok h) :
    (∃ sons, Turns g h i sons ∧ ((g.kind i = .returns ∨ g.kind i = .throws) ∧ sons = [] ∨
      g.kind i = .breaks ∧ (∃ r, (g.findEndLoop (g.nodes.size + 1) i [] 0).or (g.findEndLoop (g.nodes.size + 1) i [] (-1)) =
        some r ∧ sons = [r]) ∨
      g.kind i = .continues ∧ ∃ r, g.findLoopHead (g.nodes.size + 1) i [] 0 = some r ∧ sons = [r])) ∨
    (g.kind i = .tries ∧ ∃ stop ∈ g.sons i, g.kind stop ≠ .catches ∧ ∀ P, g.Closed P stop →
      (∀ v ∈ g.sons i, g.kind v = .catches → P v) → Joins P stop g h) ∨
    (g.kind i).jumps = false ∧ h = g := by
  simp only [fixJump] at hfix
  split at hfix
  next hkind => cases hfix; exact .inl ⟨[], .cutSons hg hi, .inl ⟨.inl hkind, rfl⟩⟩
  next hkind => cases hfix; exact .inl ⟨[], .cutSons hg hi, .inl ⟨.inr hkind, rfl⟩⟩
  next hkind =>
    split at hfix
    next r hr =>
      cases hfix
      have hmem : r ∈ g.order := by
        rcases Option.or_eq_some_iff.1 hr with hinner | ⟨-, houter⟩
        · exact hg.findEndLoop_mem hi hinner
        · exact hg.findEndLoop_mem hi houter
      exact .inl ⟨[r], .redirect hg hi hmem, .inr (.inl ⟨hkind, r, hr, rfl⟩)⟩
    · cases hfix
  next hkind =>
    split at hfix
    next r hr =>
      cases hfix
      exact .inl ⟨[r], .redirect hg hi (hg.findLoopHead_mem hi hr), .inr (.inr ⟨hkind, r, hr, rfl⟩)⟩
    · cases hfix
  next hkind =>
    split at hfix
    · cases hfix
      exact .inr (.inr ⟨by rw [hkind]; rfl, rfl⟩)
    next stop hstop =>
      cases hfix
      have hson := mem_of_find?_eq_some hstop
      have hmem := hg.sons_mem i hi stop hson
      refine .inr (.inl ⟨hkind, stop, hson, by simpa using find?_some hstop, fun P hP hcatch => ?_⟩)
      refine foldlRecOn (motive := Joins P stop g) _ _ .refl fun k hk son hson => ?_
      split
      next hkind =>
        have hson := hcatch son hson (by rw [← hk.rewired.kind]; simpa using hkind)
        exact hk.trans (.joinClause _ (hk.linked hg) (hk.closed hP) (hk.rewired.order.symm ▸ hmem) hson [])
      next => exact hk
  next hreturns hthrows hbreaks hcontinues _ =>
    cases hk : g.kind i <;> simp_all [NodeKind.jumps]

theorem Grows.fixJump (hfix : g.fixJump name i = .ok h) : Grows g h := by
  rcases fixJump_cases hg hi hfix with ⟨sons, hturns, -⟩ | ⟨-, stop, -, -, hjoins⟩ | ⟨-, rfl⟩
  · exact .of_sameNodes hturns.rewired.sameNodes fun _ => hturns.linked
  · have hjoin := hjoins (· ∈ g.order) (fun u hu => ⟨hu, fun v hv => .inr (hg.sons_mem u hu v hv)⟩) fun v hv _ =>
      hg.sons_mem i hi v hv
    exact .of_sameNodes hjoin.rewired.sameNodes hjoin.linked
  · exact .refl h

end

/-! ## Ends of branches that nothing leads to -/

theorem fathers_cutSons_eq_nil (i : NodeId) (hj : g.fathers j = []) : (g.cutSons i).fathers j = [] := by
  rw [cutSons_eq, fathers_keepSons, hj]
  simp

/-- Ends that are taken out have no edges left. -/
structure Lonely (g h : Flow) (gone : List NodeId) : Prop where
  rewired : Rewired g h
  linked : h.Linked
  gone : ∀ i ∈ gone, h.kind i = .endIf ∧ h.sons i = [] ∧ h.fathers i = []
  sons : ∀ i, h.sons i = g.sons i ∨ g.kind i = .endIf ∧ h.sons i = []

theorem Lonely.cut (hh : Lonely g h gone) (hi : i ∈ h.order) (hkind : h.kind i = .endIf)
    (hnone : h.fathers i = []) : Lonely g (h.cutSons i) (gone ++ [i]) := by
  have hn : Rewired h (h.cutSons i) := cutSons_eq h i ▸ .keepSons h i _
  have hsons := fun j => sons_cutSons h j (hh.linked.inTable i hi)
  refine ⟨hh.rewired.trans hn, (Grows.cutSons hi).linked hh.linked, ?_, ?_⟩
  · intro j hj
    rw [hn.kind, hsons]
    rcases mem_append.1 hj with hold | hnew
    · obtain ⟨hk, hs, hf⟩ := hh.gone j hold
      exact ⟨hk, by simp [hs], fathers_cutSons_eq_nil i hf⟩
    · obtain rfl := mem_singleton.1 hnew
      exact ⟨hkind, by simp, fathers_cutSons_eq_nil j hnone⟩
  · intro j
    rw [hsons]
    split
    next hij => exact .inr ⟨by rw [← hij, ← hh.rewired.kind, hkind], rfl⟩
    next => exact hh.sons j

variable (hg : g.Linked)

include hg

theorem Linked.remove (hgone : ∀ i ∈ gone, g.sons i = [] ∧ g.fathers i = []) : (g.remove gone).Linked := by
  have hmem : ∀ {n}, n ∈ (g.remove gone).order ↔ n ∈ g.order ∧ n ∉ gone := by
    simp [Flow.remove]
  constructor
  · intro n hn
    exact hg.inTable n (hmem.1 hn).1
  · intro a ha b hb
    have hbmem := hg.sons_mem a (hmem.1 ha).1 b hb
    refine hmem.2 ⟨hbmem, fun hb' => ?_⟩
    have hfather : a ∈ g.fathers b := (hg.mem_sons_iff (hmem.1 ha).1 hbmem).1 hb
    rw [(hgone b hb').2] at hfather
    cases hfather
  · intro b hb a ha
    have hamem := hg.fathers_mem b (hmem.1 hb).1 a ha
    refine hmem.2 ⟨hamem, fun ha' => ?_⟩
    have hson : b ∈ g.sons a := (hg.mem_sons_iff hamem (hmem.1 hb).1).2 ha
    rw [(hgone a ha').1] at hson
    cases hson
  · intro a ha b hb
    exact hg.mirrored a (hmem.1 ha).1 b (hmem.1 hb).1

/-- Only ends of branches are taken out, and none that an edge leads to. -/
theorem Linked.dropLoneEnds : ∃ h gone, g.dropLoneEnds = h.remove gone ∧ Lonely g h gone := by
  refine ⟨_, _, rfl, ?_⟩
  refine foldlRecOn (motive := fun x : Flow × List NodeId => Lonely g x.1 x.2) _ _
    ⟨.refl g, hg, nofun, fun _ => .inl rfl⟩ ?_
  rintro ⟨h, gone⟩ hh i hi
  have hmem : i ∈ h.order := hh.rewired.order.symm ▸ (mem_filter.1 hi).1
  dsimp only
  split
  · next hlone =>
    simp only [Bool.and_eq_true, beq_iff_eq, List.isEmpty_iff] at hlone
    exact hh.cut hmem hlone.1 hlone.2
  · exact hh

theorem Linked.dropLoneEnds_linked : g.dropLoneEnds.Linked := by
  obtain ⟨h, gone, heq, hh⟩ := hg.dropLoneEnds
  rw [heq]
  exact hh.linked.remove fun i hi => (hh.gone i hi).2

theorem Linked.dropLoneEnds_entry : g.dropLoneEnds.entry = g.entry := by
  obtain ⟨h, gone, heq, hh⟩ := hg.dropLoneEnds
  rw [heq]
  exact hh.rewired.entry

theorem Linked.mem_dropLoneEnds (hn : n ∈ g.order) (hkind : g.kind n ≠ .endIf) :
    n ∈ g.dropLoneEnds.order ∧ g.dropLoneEnds.kind n = g.kind n := by
  obtain ⟨h, gone, heq, hh⟩ := hg.dropLoneEnds
  have hkept : h.kind n = g.kind n := hh.rewired.kind n
  have hstay : n ∉ gone := fun hgone => hkind (hkept ▸ (hh.gone n hgone).1)
  rw [heq]
  refine ⟨?_, hkept⟩
  simp [Flow.remove, hh.rewired.order, hn, hstay]

end Flow

end ContractAudit
