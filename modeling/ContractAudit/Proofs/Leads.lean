import ContractAudit.Proofs.Jumps
import ContractAudit.Proofs.Splitting

/-! # What nodes of bodies lead to

A body is laid out, its jumps are corrected, and then the ways that the corrections leave over are taken out. What is left
leads where the layout says, or where a jump belongs.
-/

namespace ContractAudit

open Stmt
open List hiding get

namespace Flow

variable {g h k : Flow}

/-- Only starts of loops and ends of branches lose sons, and only nodes are taken out. -/
structure Trims (g h : Flow) : Prop where
  label : ∀ u, h.label u = g.label u
  order : ∀ u ∈ h.order, u ∈ g.order
  sons : ∀ u, h.sons u = g.sons u ∨ (g.kind u = .startLoop ∨ g.kind u = .endIf) ∧ h.sons u ⊆ g.sons u

namespace Trims

theorem refl (g : Flow) : Trims g g := ⟨fun _ => rfl, fun _ => id, fun _ => .inl rfl⟩

theorem kind (hgh : Trims g h) (u : NodeId) : h.kind u = g.kind u := kind_eq_of_label (hgh.label u)

theorem subset (hgh : Trims g h) (u : NodeId) : h.sons u ⊆ g.sons u := by
  rcases hgh.sons u with hsons | ⟨-, hsub⟩
  · rw [hsons]
    exact Subset.refl _
  · exact hsub

theorem trans (hgh : Trims g h) (hhk : Trims h k) : Trims g k := by
  refine ⟨fun u => (hhk.label u).trans (hgh.label u), fun u hu => hgh.order u (hhk.order u hu), fun u => ?_⟩
  have hsub := Subset.trans (hhk.subset u) (hgh.subset u)
  rcases hhk.sons u with hsons | ⟨hkind, -⟩
  · rw [hsons]
    exact hgh.sons u
  · exact .inr ⟨hgh.kind u ▸ hkind, hsub⟩

theorem pruneLoopStart (hi : i < g.nodes.size) : Trims g (g.pruneLoopStart i) := by
  unfold Flow.pruneLoopStart
  split
  · exact .refl g
  next hpruned =>
    have hkind : g.kind i = .startLoop := by simp_all
    have hkeep : Trims g (g.keepSons i fun s => !(g.kind s == .endLoop)) := by
      have hrewired := Rewired.keepSons g i fun s => !(g.kind s == .endLoop)
      refine ⟨hrewired.label, fun u hu => hrewired.order ▸ hu, fun u => ?_⟩
      rw [sons_keepSons g u _ hi]
      split
      next hiu => exact .inr ⟨.inl (hiu ▸ hkind), hiu ▸ filter_subset_self _⟩
      next => exact .inl rfl
    simpa [keepSons, Function.comp_def] using hkeep

theorem dropLoneEnds (hg : g.Linked) : Trims g g.dropLoneEnds := by
  obtain ⟨h, gone, heq, hh⟩ := hg.dropLoneEnds
  rw [heq]
  refine ⟨hh.rewired.label, fun u hu => hh.rewired.order ▸ (mem_filter.1 hu).1, fun u => ?_⟩
  rcases hh.sons u with hsons | ⟨hkind, hsons⟩
  · exact .inl hsons
  · exact .inr ⟨.inr hkind, fun v hv => by rw [show (h.remove gone).sons u = [] from hsons] at hv; cases hv⟩

theorem pruneAll {is : List NodeId} : ∀ {g : Flow}, g.Linked → (∀ i ∈ is, i ∈ g.order) →
    (is.foldl Flow.pruneLoopStart g).Linked ∧ Trims g (is.foldl Flow.pruneLoopStart g) := by
  induction is with
  | nil => exact fun hg _ => ⟨hg, .refl _⟩
  | cons i is ih =>
    intro g hg his
    have hi : i ∈ g.order := his i (.head _)
    have hgrows := Grows.pruneLoopStart hi
    obtain ⟨hlinked, htrims⟩ := ih (hgrows.linked hg) fun j hj => hgrows.order j (his j (.tail _ hj))
    exact ⟨hlinked, (pruneLoopStart (hg.inTable i hi)).trans htrims⟩

end Trims

theorem Shaped.plainNodes (hg : g.Shaped o) :
    g.plainNodes = (range' 0 (o.size + 1)).filter fun i => (o.mark i).scope.isNone := by
  rw [Flow.plainNodes, hg.order, ← range_eq_range']
  refine filter_congr fun i hi => ?_
  have hlabel := congrArg Prod.snd (hg.label i (Nat.le_of_lt_succ (mem_range.1 hi)))
  exact congrArg Option.isNone hlabel

end Flow

open Flow

theorem Build.fixJumps_ok (hrun : fixJumps name g = .ok () h) :
    ∃ k, g.plainNodes.foldlM (fun g i => g.fixJump name i) g = Except.ok k ∧ h = g.plainNodes.foldl pruneLoopStart k := by
  unfold fixJumps at hrun
  simp only [bind, EStateM.bind, get, getThe, MonadStateOf.get] at hrun
  delta EStateM.get at hrun
  dsimp only at hrun
  split at hrun
  next k hfix =>
    refine ⟨k, forIn_runs (P := fun done k => done.foldlM _ g = Except.ok k) (fun done i k r h hk hi => ?_) rfl hfix, ?_⟩
    · dsimp only [EStateM.bind] at hi
      cases hstep : k.fixJump name i <;> rw [hstep] at hi <;> cases hi
      exact ⟨rfl, by rw [foldlM_append, hk]; exact (bind_pure _).trans hstep⟩
    · split at hrun
      next h' hprune =>
        cases hrun
        refine forIn_runs (P := fun done h => h = done.foldl pruneLoopStart k) (fun done i h r h' hh hi => ?_) rfl hprune
        cases hi
        exact ⟨rfl, by simp [hh]⟩
      · cases hrun
  · cases hrun

/-- Graphs that are built for statements with this outline: a body behind its entry, without lone ends of branches. -/
inductive Flow.IsBody (o : Outline (.code false)) : Flow → Prop
  | built {name : String} {checked : Bool} {xs : List Stmt} {source : Source} {g : Flow} (hx : areRegular false xs = true)
      (ho : outlines xs = o) (hrun : Build.body name checked 0 xs (.ofEntry source checked) = .ok () g) :
    IsBody o g.dropLoneEnds

namespace Flow.IsBody

variable {g : Flow}

theorem adjusts (hg : g.IsBody o) : ∃ (name : String) (k m : Flow), k.Laid o ∧
    k.plainNodes.foldlM (fun g i => g.fixJump name i) k = Except.ok m ∧ Adjusts k m ∧ Trims m g := by
  obtain ⟨hx, rfl, hrun⟩ := hg
  obtain ⟨i, k, hstmts, hrun⟩ := bind_runs hrun
  obtain ⟨m, hfix, rfl⟩ := Build.fixJumps_ok hrun
  have hk := Build.stmts_laid hx hstmts
  have hplain : ∀ i ∈ k.plainNodes, i ∈ k.order := fun i hi => (mem_filter.1 hi).1
  have hm := Adjusts.fixAll hk.linked hplain hfix
  obtain ⟨hlinked, htrims⟩ := Trims.pruneAll hm.linked fun i hi => hm.rewired.order ▸ hplain i hi
  exact ⟨_, k, m, hk, hfix, hm, htrims.trans (.dropLoneEnds hlinked)⟩

/-- What holds of each jump when it is corrected holds of all jumps of the body. Jumps of assembly code lead on. -/
theorem corrected (hg : g.IsBody o)
    (htries : ∀ u ≤ o.size, (o.mark u).kind = .tries → (o.mark u).clause = none)
    (hD : ∀ {name : String} {k : Nat} {g h : Flow}, g.Corrected o D k → k ≤ o.size → g.fixJump name k = .ok h →
      (o.mark k).isJump = true → D k (h.sons k)) (hu : u ∈ g.order) (hkind : (g.kind u).jumps = true) :
    u ≤ o.size ∧ (o.mark u).kind = g.kind u ∧ ((g.node u).assemblyScope = none → D u (g.sons u)) ∧
      ((g.node u).assemblyScope ≠ none → ∃ j, g.sons u = (o.mark u).lead.sons j) := by
  obtain ⟨name, k, m, hk, hfix, -, htrims⟩ := hg.adjusts
  rw [hk.plainNodes] at hfix
  have hm := Corrected.run htries hD _ (Nat.zero_add _) (.start hk) hfix
  have hle := hm.mem_order.1 (htrims.order u hu)
  have hlabel := (htrims.label u).trans (hm.label u hle)
  have hscope : (g.node u).assemblyScope = (o.mark u).scope := congrArg Prod.snd hlabel
  have hmark := kind_eq_of_label hlabel
  have hsons : g.sons u = m.sons u := by
    refine (htrims.sons u).resolve_right fun h => ?_
    rw [htrims.kind u] at hkind
    rcases h.1 with h | h <;> simp [h, NodeKind.jumps] at hkind
  refine ⟨hle, hmark.symm, fun hnone => ?_, fun hsome => ?_⟩
  · rw [hsons]
    exact hm.done u (Nat.lt_succ_of_le hle) (by simp [Mark.isJump, ← hscope, hnone, ← hmark, hkind])
  · rw [hsons]
    exact hm.stay u hle (.inl (by simp [Mark.isJump, ← hscope, hsome]))

end Flow.IsBody

/-! ## Bodies to look at -/

def builds (xs : List Stmt) : Bool :=
  match Build.body "f" true 0 xs (.ofEntry default true) with
  | .ok _ _ => true
  | .error _ _ => false

def graphOf (xs : List Stmt) : Flow :=
  match Build.body "f" true 0 xs (.ofEntry default true) with
  | .ok _ g | .error _ g => g.dropLoneEnds

theorem isBody_graphOf (hx : areRegular false xs = true) (hbuilds : builds xs = true) :
    (graphOf xs).IsBody (outlines xs) := by
  unfold builds at hbuilds
  unfold graphOf
  split at hbuilds
  next g hrun => exact .built hx rfl hrun
  · cases hbuilds

def lone (kind : NodeKind) : Stmt := .single kind (.ok default) none none

/-- `for (; _; _) { if (_) break; continue; } return;` -/
def sample : List Stmt :=
  [.forLoop (.ok default) .skip (some (.ok default)) (lone .expression)
    (.block false [.ifThen (.ok default) (lone .breaks) (.ok default), lone .continues]), lone .returns]

theorem isBody_sample : (graphOf sample).IsBody (outlines sample) := isBody_graphOf rfl (by decide +kernel)

theorem orderly_sample : (outlines sample).Orderly := ⟨by decide, by decide, by decide⟩

/-! ## Nodes of bodies -/

namespace Flow.IsBody

variable {g : Flow}

/-- A jump out of a loop leads to the end of the innermost loop around it and nowhere else. -/
theorem breaks_lead_out (hg : g.IsBody o) (ho : o.Orderly) (hu : u ∈ g.order) (hkind : g.kind u = .breaks)
    (hscope : (g.node u).assemblyScope = none) :
    ∃ l, (o.mark u).loops.head? = some l ∧ g.sons u = [l.stop] ∧ (o.mark l.stop).kind = .endLoop := by
  obtain ⟨hle, hmark, hlands, -⟩ := hg.corrected ho.tries (fun hg => hg.lands ho) hu (by rw [hkind]; rfl)
  obtain ⟨l, hl, hsons⟩ := (hlands hscope).breaks (hmark.trans hkind)
  exact ⟨l, hl, hsons, ((o.nested_mark hle).encloses l hl).stop.1⟩

theorem sample_break : ∃ l, ((Stmt.outlines sample).mark 5).loops.head? = some l ∧ (graphOf sample).sons 5 = [l.stop] ∧
    ((Stmt.outlines sample).mark l.stop).kind = .endLoop :=
  breaks_lead_out isBody_sample orderly_sample (by decide +kernel) (by decide +kernel) (by decide +kernel)

/-- `while (_) { for (;;) break; }` -/
def bareLoop : List Stmt :=
  [.whileLoop (.ok default) (.ok default) (.forLoop (.ok default) .skip none .skip (lone .breaks))]

/-- The jump out of a loop without condition leads to the end of the loop around that loop. -/
theorem bareLoop_break : builds bareLoop = true ∧ (graphOf bareLoop).kind 5 = .breaks ∧ (graphOf bareLoop).sons 5 = [6] ∧
    ((Stmt.outlines bareLoop).mark 5).loops.map Loop.stop = [4, 6] := by
  decide

/-- A jump to the next round of a loop leads to where it starts and nowhere else. -/
theorem continues_lead_on (hg : g.IsBody o) (ho : o.Orderly) (hu : u ∈ g.order) (hkind : g.kind u = .continues)
    (hscope : (g.node u).assemblyScope = none) (hstep : ∀ l ∈ (o.mark u).loops.head?, l.Stepped o) :
    ∃ l, (o.mark u).loops.head? = some l ∧ g.sons u = [l.next] := by
  obtain ⟨-, hmark, hlands, -⟩ := hg.corrected ho.tries (fun hg => hg.lands ho) hu (by rw [hkind]; rfl)
  obtain ⟨l, hl, v, hsons, -, hnext⟩ := (hlands hscope).continues (hmark.trans hkind)
  exact ⟨l, hl, by rw [hsons, hnext (hstep l hl)]⟩

theorem sample_continue : ∃ l, ((Stmt.outlines sample).mark 7).loops.head? = some l ∧ (graphOf sample).sons 7 = [l.next] := by
  refine continues_lead_on isBody_sample orderly_sample (by decide +kernel) (by decide +kernel) (by decide +kernel) ?_
  have hexpr : ∀ u ≤ (Stmt.outlines sample).size, ((Stmt.outlines sample).mark u).kind = .expression → u = 8 := by decide
  rintro _ ⟨⟩
  exact ⟨nofun, fun _ _ u hu hk _ _ => congrArg some (hexpr u hu hk).symm, by decide⟩

/-- `while (_) { if (_) continue; _; }` -/
def lastStep : List Stmt :=
  [.whileLoop (.ok default) (.ok default)
    (.block false [.ifThen (.ok default) (lone .continues) (.ok default), lone .expression])]

/-- The last expression of a body is taken for the step of the loop. -/
theorem lastStep_continue : builds lastStep = true ∧ (graphOf lastStep).kind 4 = .continues ∧
    (graphOf lastStep).sons 4 = [6] ∧ ((Stmt.outlines lastStep).mark 4).loops.map Loop.next = [2] := by
  decide +kernel

/-- Conditions lead to the two nodes that the layout says. They come in the other order where only the second part of a branch
has nodes, and in loops of assembly code. -/
theorem conditions_lead (hg : g.IsBody o) (hu : u ∈ g.order) (hkind : g.kind u = .branch ∨ g.kind u = .loopBranch) :
    ∃ yes no crossed, (o.mark u).lead = .splits yes no crossed ∧ g.sons u = (if crossed then [no, yes] else [yes, no]) ∧
      (crossed = true ↔ if g.kind u = .branch then (o.mark yes).kind = .endIf ∧ (o.mark no).kind ≠ .endIf
        else (g.node u).assemblyScope ≠ none) := by
  obtain ⟨name, k, m, hk, -, hm, htrims⟩ := hg.adjusts
  have hle := hk.mem_order.1 (hm.rewired.order ▸ htrims.order u hu)
  have hlabel := ((htrims.label u).trans (hm.rewired.label u)).trans (hk.label u hle)
  have hscope : (g.node u).assemblyScope = (o.mark u).scope := congrArg Prod.snd hlabel
  have hsons : ∀ {yes no crossed}, (o.mark u).lead = .splits yes no crossed →
      g.sons u = (if crossed then [no, yes] else [yes, no]) := by
    intro yes no crossed hlead
    have hlaid : k.sons u = if crossed then [no, yes] else [yes, no] := by rw [hk.sons u hle, hlead]; rfl
    rw [← hlaid, (htrims.sons u).resolve_right ?_, (hm.sons u).resolve_right ?_]
    · rw [← hm.rewired.kind, ← htrims.kind, hlaid]
      rintro ⟨h | h, -⟩
      · cases crossed <;> cases h
      · rcases hkind with hk | hk <;> rw [hk] at h <;> cases h
    · rw [← htrims.kind]
      rcases hkind with hk | hk <;> simp [hk]
  have hnested := o.nested_mark hle
  rcases hkind with hk | hk
  · obtain ⟨yes, no, hlead⟩ := hnested.branches ((kind_eq_of_label hlabel).symm.trans hk)
    exact ⟨yes, no, _, hlead, hsons hlead, by simp [hk]⟩
  · obtain ⟨yes, no, hlead⟩ := hnested.loopBranches ((kind_eq_of_label hlabel).symm.trans hk)
    exact ⟨yes, no, _, hlead, hsons hlead, by simp [hk, hscope, Option.isSome_iff_ne_none]⟩

theorem sample_condition : ∃ yes no crossed, ((Stmt.outlines sample).mark 4).lead = .splits yes no crossed ∧
    (graphOf sample).sons 4 = (if crossed then [no, yes] else [yes, no]) :=
  (conditions_lead (u := 4) isBody_sample (by decide +kernel) (by decide +kernel)).imp fun _ => .imp fun _ => .imp fun _ h =>
    ⟨h.1, h.2.1⟩

/-- `if (_) {} else { _; }` -/
def emptyPart : List Stmt := [.ifElse (.ok default) .skip (lone .expression) (.ok default)]

/-- The first son is where the run goes on if the condition does not hold. -/
theorem emptyPart_condition : builds emptyPart = true ∧ (graphOf emptyPart).kind 1 = .branch ∧
    (graphOf emptyPart).sons 1 = [2, 3] ∧ ((Stmt.outlines emptyPart).mark 1).lead = .splits 3 2 true := by
  decide

/-- `assembly { for {} _ {} { break } }` -/
def assemblyLoop : List Stmt :=
  [.assembly (.ok default) 0 (.forLoop (.ok default) (.block []) .null (.ok default) (.block [])
    (.single .breaks (.ok default) none)) none]

end Flow.IsBody

/-! ## Conditional expressions in bodies -/

namespace Flow

variable {g h : Flow}

def Several (l : List NodeId) : Prop := ∃ x ∈ l, ∃ y ∈ l, x ≠ y

theorem not_several (hl : l.length ≤ 1) : ¬ Several l := by
  rintro ⟨x, hx, y, hy, hxy⟩
  match l, hl with
  | [z], _ => exact hxy ((mem_singleton.1 hx).trans (mem_singleton.1 hy).symm)

theorem Several.of_map (h : Several (l.map k)) : Several l := by
  obtain ⟨_, hx, _, hy, hxy⟩ := h
  obtain ⟨x, hx', rfl⟩ := mem_map.1 hx
  obtain ⟨y, hy', rfl⟩ := mem_map.1 hy
  exact ⟨x, hx', y, hy', fun h => hxy (congrArg k h)⟩

theorem IsBody.several (hg : g.IsBody o) (hu : u ∈ g.order) (hsons : Several (g.sons u)) :
    g.kind u = .tries ∨ (g.kind u).Forks (o.mark u).loops := by
  obtain ⟨name, k, m, hk, -, hm, htrims⟩ := hg.adjusts
  have hle := hk.mem_order.1 (hm.rewired.order ▸ htrims.order u hu)
  have hlabel := ((htrims.label u).trans (hm.rewired.label u)).trans (hk.label u hle)
  obtain ⟨x, hx, y, hy, hxy⟩ := hsons
  have hseveral : Several (m.sons u) := ⟨x, htrims.subset u hx, y, htrims.subset u hy, hxy⟩
  rw [(hm.sons u).resolve_right fun h => not_several h.2 hseveral, hk.sons u hle] at hseveral
  have hleads := (o.nested_mark hle).leads
  rw [kind_eq_of_label hlabel]
  cases hlead : (o.mark u).lead with
  | goes e =>
    rw [hlead] at hseveral
    refine (not_several ?_ hseveral).elim
    rcases e with ⟨_ | _⟩ | ⟨_, _ | _⟩ <;> simp
  | splits yes no crossed =>
    rw [hlead] at hleads
    exact .inr hleads.1
  | tries clauses e =>
    rw [hlead] at hleads
    exact .inl hleads.1

/-- In another graph a node leads to several nodes only if it did so before, or if it is a new condition or a new end. -/
def SplitsTo (g h : Flow) : Prop := ∀ u ∈ h.order, Several (h.sons u) →
  (u ∈ g.order ∧ h.kind u = g.kind u ∧ Several (g.sons u)) ∨ h.kind u = .branch ∨ h.kind u = .endIf ∧ g.nodes.size ≤ u

theorem splitsTo_branchAt (hg : g.Linked) (hi : i ∈ g.order) (hh : h = Reader.branchAt g i e) :
    h.Linked ∧ g.nodes.size ≤ h.nodes.size ∧ SplitsTo g h := by
  obtain ⟨hlinked, hsize, c, hnew⟩ := hg.replaceByBranch hi _ ⟨rfl, rfl⟩ ⟨rfl, rfl⟩ ⟨rfl, rfl⟩ ⟨rfl, rfl⟩ hh
  refine ⟨hlinked, hsize, fun u hu hsons => ?_⟩
  rw [sons] at hsons
  rw [kind]
  rcases hnew u hu with ⟨hu', -, _, hnode⟩ | ⟨_, _, hnode⟩ | ⟨_, hshort, ⟨_, hnode⟩ | ⟨_, hnode⟩⟩ | ⟨hnew, _, hnode⟩ <;>
    rw [hnode] at hsons ⊢
  · exact .inl ⟨hu', rfl, hsons.of_map⟩
  · exact .inr (.inl rfl)
  · exact (not_several hshort hsons).elim
  · exact (not_several hshort hsons).elim
  · exact .inr (.inr ⟨rfl, hnew⟩)

end Flow

namespace Reader

open Flow State

theorem splitConditionals_splitsTo (hs : (s.flow f).Linked) (hrun : splitConditionals f fuel s = .ok () t) :
    SplitsTo (s.flow f) (t.flow f) := by
  induction fuel generalizing s with
  | zero =>
    cases hrun
    exact fun u hu hsons => .inl ⟨hu, rfl, hsons⟩
  | succ fuel ih =>
    cases hnext : nextSplit (s.flow f) with
    | none =>
      rw [splitConditionals_none hnext] at hrun
      cases hrun
      exact fun u hu hsons => .inl ⟨hu, rfl, hsons⟩
    | some i =>
      obtain ⟨hi, e, he, -⟩ := exists_of_nextSplit hnext
      obtain ⟨_, hsome⟩ := splitConditionals_some hnext he
      rw [hsome] at hrun
      split at hrun
      · cases hrun
      · cases hsplit : splitNode (s.flow f) i e.split with
        | error why => rw [hsplit] at hrun; cases hrun
        | ok h =>
          rw [hsplit] at hrun
          have hflow : (withFlow s f h).flow f = h := flow_modifyFunction (lt_size_of_mem hi) _
          obtain ⟨hlinked, hsize, hstep⟩ := splitsTo_branchAt hs hi (splitNode_eq hsplit)
          intro u hu hsons
          rcases hflow ▸ ih (hflow.symm ▸ hlinked) hrun u hu hsons with ⟨hu', hkind, hsons'⟩ | hbranch | ⟨hend, hle⟩
          · rw [hkind]
            exact hstep u hu' hsons'
          · exact .inr (.inl hbranch)
          · exact .inr (.inr ⟨hend, Nat.le_trans hsize hle⟩)

/-- After the conditionals of a body are split, the nodes that lead to several nodes are conditions, calls that are tried, starts
of loops without condition, and ends of branches that the splitting adds. -/
theorem split_several {g : Flow} {o : Outline (.code false)} (hg : g.IsBody o) (hs : (s.flow f).Linked)
    (hbody : ∀ u ∈ (s.flow f).order, Several ((s.flow f).sons u) →
      u ∈ g.order ∧ (s.flow f).kind u = g.kind u ∧ (s.flow f).sons u = g.sons u)
    (hrun : splitConditionals f (splitBound (s.flow f)) s = .ok () t) (hu : u ∈ (t.flow f).order)
    (hsons : Several ((t.flow f).sons u)) : (t.flow f).kind u = .tries ∨ ((t.flow f).kind u).Forks (o.mark u).loops ∨
      (t.flow f).kind u = .endIf ∧ (s.flow f).nodes.size ≤ u := by
  rcases splitConditionals_splitsTo hs hrun u hu hsons with ⟨hu', hkind, hsons'⟩ | hbranch | hend
  · obtain ⟨hmem, hkind', heq⟩ := hbody u hu' hsons'
    rw [hkind, hkind', ← or_assoc]
    exact .inl (hg.several hmem (heq ▸ hsons'))
  · exact .inr (.inl (.inl hbranch))
  · exact .inr (.inr hend)

/-- `if (1 ? 2 : 3) _;` -/
def choiceInCondition : State :=
  { program := { functionTable := #[{ (default : Function) with flow := (graphOf body).modify 1 fun n =>
      { n with expr := some (.conditional {} (.numeral 1) (.numeral 2) (.numeral 3)) } }] } }
where
  body : List Stmt := [.ifThen (.ok default) (lone .expression) (.ok default)]

theorem choiceInCondition_several : ∃ t,
    splitConditionals 0 (splitBound (choiceInCondition.flow 0)) choiceInCondition = .ok () t ∧ Several ((t.flow 0).sons 7) ∧
      ((t.flow 0).kind 7 = .tries ∨ ((t.flow 0).kind 7).Forks ((Stmt.outlines choiceInCondition.body).mark 7).loops ∨
        (t.flow 0).kind 7 = .endIf ∧ (choiceInCondition.flow 0).nodes.size ≤ 7) := by
  have hs : (choiceInCondition.flow 0).Linked :=
    ⟨by decide, by decide, by decide, by decide⟩
  have hbody : (graphOf choiceInCondition.body).IsBody (Stmt.outlines choiceInCondition.body) :=
    isBody_graphOf rfl (by decide)
  obtain ⟨⟨⟩, t, hrun, hmem, hsons⟩ := exists_runs (x := splitConditionals 0 (splitBound (choiceInCondition.flow 0)))
    (s := choiceInCondition) (fun _ t => 7 ∈ (t.flow 0).order ∧ ∃ x ∈ (t.flow 0).sons 7, ∃ y ∈ (t.flow 0).sons 7, x ≠ y)
    (by decide)
  refine ⟨t, hrun, hsons, split_several hbody hs (fun u hu _ => ⟨hu, ?_, ?_⟩) hrun hmem hsons⟩
  · exact read_modify Node.kind fun _ => rfl
  · exact read_modify Node.sons fun _ => rfl

/-- The condition of the branch becomes an end that leads to both parts. -/
theorem choiceInCondition_end : ∃ u t, splitConditionals 0 (splitBound (choiceInCondition.flow 0)) choiceInCondition =
    .ok u t ∧ (t.flow 0).kind 7 = .endIf ∧ (t.flow 0).sons 7 = [2, 3] :=
  exists_runs _ (by decide)

end Reader

end ContractAudit
