import ContractAudit.Proofs.Searches

/-! # Correction of jumps

Jumps are corrected one after the other in the order of the nodes. Nodes that the correction has not come to, and those that
are no jumps, lead where the layout says. So each correction searches a graph whose edges stay inside the loops of the body,
and finds the loop that the jump belongs to.
-/

open List

namespace ContractAudit.Flow

variable {g h k : Flow}

/-! ## What one correction changes -/

theorem kind_eq_of_label {k : NodeKind} (h : g.label u = (k, scope)) : g.kind u = k :=
  congrArg Prod.fst h

/-- Corrections give no node a second son, and change only jumps and nodes that lead nowhere. -/
structure Adjusts (g h : Flow) : Prop where
  linked : h.Linked
  rewired : Rewired g h
  sons : ∀ u, h.sons u = g.sons u ∨ (g.sons u = [] ∨ (g.kind u).jumps = true) ∧ (h.sons u).length ≤ 1

theorem Adjusts.fixJump (hg : g.Linked) (hi : i ∈ g.order) (hfix : g.fixJump name i = .ok h) : Adjusts g h := by
  have hlinked := (Grows.fixJump hg hi hfix).linked hg
  rcases fixJump_cases hg hi hfix with ⟨sons, hturns, hkind⟩ | ⟨-, stop, -, -, hjoins⟩ | ⟨-, rfl⟩
  · refine ⟨hlinked, hturns.rewired, fun u => ?_⟩
    rw [hturns.sons u]
    split
    next hiu =>
      subst hiu
      refine .inr ⟨.inr ?_, ?_⟩ <;> rcases hkind with ⟨hk | hk, rfl⟩ | ⟨hk, r, -, rfl⟩ | ⟨hk, r, -, rfl⟩ <;> simp [hk, NodeKind.jumps]
    next => exact .inl rfl
  · have hjoin := hjoins (· ∈ g.order) (fun u hu => ⟨hu, fun v hv => .inr (hg.sons_mem u hu v hv)⟩)
      fun v hv _ => hg.sons_mem i hi v hv
    refine ⟨hlinked, hjoin.rewired, fun u => (hjoin.sons u).imp_right fun hu => ?_⟩
    exact ⟨.inl hu.2.1, by simp [hu.2.2]⟩
  · exact ⟨hg, .refl h, fun u => .inl rfl⟩

theorem Adjusts.fixAll {is : List NodeId} : ∀ {g : Flow}, g.Linked → (∀ i ∈ is, i ∈ g.order) →
    is.foldlM (fun g i => g.fixJump name i) g = Except.ok h → Adjusts g h := by
  induction is with
  | nil =>
    intro g hg _ hrun
    obtain rfl : g = h := Except.ok.inj hrun
    exact ⟨hg, .refl g, fun _ => .inl rfl⟩
  | cons i is ih =>
    intro g hg his hrun
    obtain ⟨k, hfix, hrun⟩ := bind_eq_ok.1 hrun
    have hgk := Adjusts.fixJump hg (his i (.head _)) hfix
    have hkh := ih hgk.linked (fun j hj => hgk.rewired.order ▸ his j (.tail _ hj)) hrun
    refine ⟨hkh.linked, hgk.rewired.trans hkh.rewired, fun u => ?_⟩
    rcases hkh.sons u with hsame | ⟨hchanged, hone⟩
    · rw [hsame]
      exact hgk.sons u
    · rw [hgk.rewired.kind u] at hchanged
      rcases hgk.sons u with hsons | ⟨hfirst, -⟩
      · exact .inr ⟨hsons ▸ hchanged, hone⟩
      · exact .inr ⟨hfirst, hone⟩

end ContractAudit.Flow

/-! ## Graphs that are corrected up to a node -/

namespace ContractAudit

theorem Exits.enters (he : Exits f loops clause e) (hv : v ∈ e.sons j) : Enters f loops v := by
  cases e with
  | flows next => exact (he.2 v (by simpa using hv)).enters
  | joins t next =>
    obtain ⟨-, -, -, -, -, -, -, hnext⟩ := he
    refine (hnext v ?_).enters
    rw [Exit.sons] at hv
    split at hv
    · simpa using hv
    · cases hv

theorem Nested.enters (hm : Nested f u m) (hv : v ∈ m.lead.sons j) : Enters f m.beyond v := by
  have hleads := hm.leads
  cases hlead : m.lead with
  | goes e =>
    rw [hlead] at hv hleads
    exact hleads.enters hv
  | splits yes no crossed =>
    rw [hlead] at hv hleads
    exact (Lead.forall_splits (R := Enters f m.beyond)).2 ⟨hleads.2.1.enters, hleads.2.2.enters⟩ v hv
  | tries cs e =>
    rw [hlead] at hv hleads
    rcases mem_append.1 hv with hv | hv
    · exact .inl (hleads.2.2 v hv).1
    · exact hleads.2.1.enters hv

theorem Nested.tried (hm : Nested f u m) (hkind : m.kind = .tries) (hclause : m.clause = none)
    (hv : v ∈ m.lead.sons j) (hne : (f v).kind ≠ .catches) : ∃ cs, m.lead = .tries cs (.flows (some v)) := by
  obtain ⟨cs, e, hlead⟩ := hm.tries hkind
  have hleads := hm.leads
  rw [hlead] at hleads hv
  obtain ⟨-, hexits, hcs⟩ := hleads
  rcases mem_append.1 hv with hv | hv
  · exact absurd (hcs v hv).2.2 hne
  · cases e with
    | joins t next => simp [Exits, hclause] at hexits
    | flows next =>
      obtain rfl : next = some v := by simpa using hv
      exact ⟨cs, hlead⟩

theorem Nested.inside (hm : Nested f u m) (hclause : m.clause = some t) (hkind : m.kind ≠ .tries)
    (hlead : (f t).lead = .tries cs (.flows (some stop))) :
    m.lead = .goes (.joins t (some stop)) ∨ ∀ j, m.lead.sons j ≠ [] ∧ ∀ v ∈ m.lead.sons j, (f v).clause = some t := by
  have hleads := hm.leads
  cases hl : m.lead with
  | goes e =>
    rw [hl] at hleads
    cases e with
    | flows next =>
      cases next with
      | none => simp [hleads.1 rfl] at hclause
      | some w => exact .inr fun j => by simpa using (hleads.2 w rfl).clause.trans hclause
    | joins t' next =>
      obtain ⟨ht, -, -, cs', e', hlead', hnext, -⟩ := hleads
      obtain rfl : t' = t := Option.some.inj (ht.symm.trans hclause)
      obtain ⟨-, rfl⟩ := Lead.tries.inj (hlead'.symm.trans hlead)
      exact .inl (by rw [← hnext]; rfl)
  | splits yes no crossed =>
    rw [hl] at hleads
    have hboth := And.intro (hleads.2.1.clause.trans hclause) (hleads.2.2.clause.trans hclause)
    exact .inr fun j => ⟨by cases crossed <;> simp, (Lead.forall_splits (R := fun v => (f v).clause = some t)).2 hboth⟩
  | tries cs' e =>
    rw [hl] at hleads
    exact absurd hleads.1 hkind

theorem Lead.sons_zero_subset (l : Lead) (j : Nat) : ∀ v ∈ l.sons 0, v ∈ l.sons j := by
  rcases l with (_ | _) | _ | ⟨_, _ | _⟩ <;> simp +contextual [sons]

variable {o : Outline (.code false)}

theorem Outline.clause_lt (hu : u ≤ o.size) (ht : (o.mark u).clause = some t) : t < u := by
  have hmarks := clause_marks (p := {}) (e := .flows none) o Nat.zero_lt_one (Nat.zero_le 1)
  have hmark := (along_layout (P := fun u m => m.clause.elim 0 (· + 1) ≤ u)).1 ⟨Nat.le_refl 0, hmarks⟩ u hu
  rwa [ht] at hmark

theorem Outline.le_size (o : Outline (.code false)) (hu : (o.mark u).kind ≠ .entryPoint) : u ≤ o.size := by
  by_contra hlt
  have hnone : o.layout[u]? = none := getElem?_eq_none (by simp [layout]; omega)
  exact hu (by rw [mark, getD_eq_getElem?_getD, hnone]; rfl)

namespace Flow

variable {g h : Flow}

/-- Jumps before `k` are corrected, so that they lead where `D` says. All other nodes lead where the layout says, and clauses
may be joined already. -/
structure Corrected (o : Outline (.code false)) (D : Nat → List Nat → Prop) (k : Nat) (g : Flow) : Prop
    extends g.Shaped o where
  stay : ∀ u ≤ o.size, (o.mark u).isJump = false ∨ k ≤ u → ∃ j, g.sons u = (o.mark u).lead.sons j
  done : ∀ u < k, (o.mark u).isJump = true → D u (g.sons u)

theorem Shaped.kind (hg : g.Shaped o) (hu : u ≤ o.size) : g.kind u = (o.mark u).kind := kind_eq_of_label (hg.label u hu)

theorem Shaped.mem_order (hg : g.Shaped o) : u ∈ g.order ↔ u ≤ o.size := by
  rw [hg.order, mem_range, Nat.lt_succ_iff]

theorem Shaped.step (hg : g.Shaped o) (hh : Rewired g h) (hlinked : h.Linked)
    (hheads : ∀ v c, (o.mark c).kind = .loopBranch → (g.fathers v).head? = some c → (h.fathers v).head? = some c) :
    h.Shaped o := by
  refine ⟨hh.size.trans hg.size, hh.order.trans hg.order, fun u hu => (hh.label u).trans (hg.label u hu), ?_, hlinked⟩
  intro u hu hkind hscope l hl c hc j v hv
  have henc := (o.nested_mark hu).encloses l hl
  exact (hg.heralds u hu hkind hscope l hl c hc j v hv).imp_right (hheads v c (henc.head c hc).1)

namespace Corrected

theorem start (hg : g.Laid o) : g.Corrected o D 0 :=
  { hg.toShaped with stay := fun u hu _ => ⟨0, hg.sons u hu⟩, done := nofun }

theorem skip (hg : g.Corrected o D k) (hk : (o.mark k).isJump = false) : g.Corrected o D (k + 1) := by
  refine { hg.toShaped with stay := fun u hu h => hg.stay u hu (h.imp_right fun h => by omega), done := fun u hu hjump => ?_ }
  have hne : u ≠ k := fun h => by simp [h, hk] at hjump
  exact hg.done u (by omega) hjump

section

variable (htries : ∀ u ≤ o.size, (o.mark u).kind = .tries → (o.mark u).clause = none)

include htries

/-- A call is joined with its clauses. No call is tried inside a clause, so the ways through a clause stay in it. -/
theorem join (hg : g.Corrected o D k) (hk : k ≤ o.size) (hkind : g.kind k = .tries) (hstop : stop ∈ g.sons k)
    (hne : g.kind stop ≠ .catches)
    (hjoins : ∀ P, g.Closed P stop → (∀ v ∈ g.sons k, g.kind v = .catches → P v) → Joins P stop g h) (hlinked : h.Linked) :
    h.Corrected o D (k + 1) := by
  have hmem : ∀ {u v}, u ≤ o.size → v ∈ g.sons u → v ≤ o.size := fun hu hv =>
    hg.mem_order.1 (hg.linked.sons_mem _ (hg.mem_order.2 hu) _ hv)
  have hmk : (o.mark k).kind = .tries := hg.kind hk ▸ hkind
  have hfree : (o.mark k).isJump = false := by simp [Mark.isJump, hmk, NodeKind.jumps]
  obtain ⟨j, hsons⟩ := hg.stay k hk (.inl hfree)
  have hnested := o.nested_mark hk
  obtain ⟨cs, hlead⟩ := hnested.tried hmk (htries k hk hmk) (hsons ▸ hstop) (hg.kind (hmem hk hstop) ▸ hne)
  -- Nodes of the clauses come after the call, so none of them is corrected yet.
  have hinside : ∀ u ≤ o.size, (o.mark u).clause = some k → (∃ j, g.sons u = (o.mark u).lead.sons j) ∧
      ((o.mark u).lead = .goes (.joins k (some stop)) ∨
        ∀ j, (o.mark u).lead.sons j ≠ [] ∧ ∀ v ∈ (o.mark u).lead.sons j, (o.mark v).clause = some k) := fun u hu hc =>
    ⟨hg.stay u hu (.inr (Nat.le_of_lt (o.clause_lt hu hc))), (o.nested_mark hu).inside hc (fun h => by
      simp [htries u hu h] at hc) hlead⟩
  have hclosed : g.Closed (fun u => u ≤ o.size ∧ (o.mark u).clause = some k) stop := by
    rintro u ⟨hu, hc⟩
    refine ⟨hg.mem_order.2 hu, fun v hv => ?_⟩
    obtain ⟨⟨j, hj⟩, hend | hon⟩ := hinside u hu hc
    · rw [hj, hend, Lead.sons, Exit.sons] at hv
      split at hv
      · exact .inl (by simpa using hv)
      · cases hv
    · exact .inr ⟨hmem hu hv, (hon j).2 v (hj ▸ hv)⟩
  have hjoined := hjoins _ hclosed fun v hv hkind => ⟨hmem hk hv, ?_⟩
  · refine { hg.toShaped.step hjoined.rewired hlinked fun v c _ => hjoined.heads v c with stay := ?_, done := ?_ }
    · intro u hu hfree
      rcases hjoined.sons u with hsame | ⟨⟨-, hc⟩, hnone, hnew⟩
      · rw [hsame]
        exact hg.stay u hu (hfree.imp_right fun h => by omega)
      · obtain ⟨⟨j, hj⟩, hend | hon⟩ := hinside u hu hc
        · exact ⟨k + 1, by rw [hnew, hend]; simp⟩
        · exact absurd (hj.symm.trans hnone) (hon j).1
    · intro u hu hjump
      rcases hjoined.sons u with hsame | ⟨⟨hle, hc⟩, -, -⟩
      · rw [hsame]
        have hne : u ≠ k := fun h => by simp [h, hfree] at hjump
        exact hg.done u (by omega) hjump
      · have := o.clause_lt hle hc
        omega
  · rw [hsons, hlead] at hv
    have hleads := hnested.leads
    rw [hlead] at hleads
    rcases mem_append.1 hv with hv | hv
    · exact (hleads.2.2 v hv).2.1
    · obtain rfl : v = stop := by simpa using hv
      exact absurd hkind hne

theorem step (hg : g.Corrected o D k) (hk : k ≤ o.size) (hplain : (o.mark k).scope = none) (hfix : g.fixJump name k = .ok h)
    (hD : (o.mark k).isJump = true → D k (h.sons k)) : h.Corrected o D (k + 1) := by
  have hmem := hg.mem_order.2 hk
  have hlinked := (Grows.fixJump hg.linked hmem hfix).linked hg.linked
  have hisJump : (o.mark k).isJump = (g.kind k).jumps := by simp [Mark.isJump, hplain, hg.kind hk]
  rcases fixJump_cases hg.linked hmem hfix with ⟨sons, hturns, hkind⟩ | ⟨hkind, stop, hstop, hne, hjoins⟩ | ⟨hkind, rfl⟩
  · have hjump : (o.mark k).isJump = true := by
      rw [hisJump]
      rcases hkind with ⟨hk | hk, -⟩ | ⟨hk, -⟩ | ⟨hk, -⟩ <;> rw [hk] <;> rfl
    have hsame : ∀ u, u ≠ k → h.sons u = g.sons u := fun u hu => by rw [hturns.sons, if_neg (Ne.symm hu)]
    refine { hg.toShaped.step hturns.rewired hlinked fun v c hc => hturns.heads v c ?_ with stay := ?_, done := ?_ }
    · rintro rfl
      simp [Mark.isJump, hc, NodeKind.jumps] at hjump
    · intro u hu hfree
      have hne : u ≠ k := by
        rintro rfl
        rcases hfree with h | h
        · simp [hjump] at h
        · omega
      rw [hsame u hne]
      exact hg.stay u hu (hfree.imp_right fun h => by omega)
    · intro u hu hjump
      by_cases hne : u = k
      · exact hne ▸ hD (hne ▸ hjump)
      · rw [hsame u hne]
        exact hg.done u (by omega) hjump
  · exact hg.join htries hk hkind hstop hne hjoins hlinked
  · exact hg.skip (hisJump.trans hkind)

theorem run (hD : ∀ {k : Nat}
    {g h : Flow}, g.Corrected o D k → k ≤ o.size → g.fixJump name k = .ok h → (o.mark k).isJump = true →
      D k (h.sons k)) (n : Nat) : ∀ {k : Nat} {g : Flow}, k + n = o.size + 1 → g.Corrected o D k →
      ((range' k n).filter fun i => (o.mark i).scope.isNone).foldlM (fun g i => g.fixJump name i) g = Except.ok h →
      h.Corrected o D (o.size + 1) := by
  induction n with
  | zero =>
    intro k g hn hg hrun
    obtain rfl : g = h := Except.ok.inj hrun
    exact hn ▸ hg
  | succ n ih =>
    intro k g hn hg hrun
    rw [range'_succ] at hrun
    by_cases hplain : (o.mark k).scope = none
    · rw [filter_cons_of_pos (by simp [hplain])] at hrun
      obtain ⟨g', hfix, hrun⟩ := bind_eq_ok.1 hrun
      exact ih (by omega) (hg.step htries (by omega) hplain hfix fun hjump => hD hg (by omega) hfix hjump) hrun
    · rw [filter_cons_of_neg (by simp [hplain])] at hrun
      exact ih (by omega) (hg.skip (by simp [Mark.isJump, hplain])) hrun

end

theorem fits (hg : g.Corrected o D k) (hD : ∀ u ≤ o.size, (o.mark u).isJump = true → ∀ sons, D u sons → ∀ v ∈ sons,
    Enters o.mark (o.mark u).beyond v) : g.Fits o.mark (o.size + 1) := by
  refine ⟨fun u hu => hg.kind (Nat.le_of_lt_succ hu), fun u hu => o.nested_mark (Nat.le_of_lt_succ hu), ?_, ?_, ?_⟩
  · intro u hu v hv
    have hle := Nat.le_of_lt_succ hu
    refine ⟨Nat.lt_succ_of_le (hg.mem_order.1 (hg.linked.sons_mem u (hg.mem_order.2 hle) v hv)), ?_⟩
    by_cases hfree : (o.mark u).isJump = false ∨ k ≤ u
    · obtain ⟨j, hj⟩ := hg.stay u hle hfree
      exact (o.nested_mark hle).enters (hj ▸ hv)
    · have hjump : (o.mark u).isJump = true ∧ u < k := by simpa using hfree
      exact hD u hle hjump.1 _ (hg.done u hjump.2 hjump.1) v hv
  · intro v hv u hu
    have hvmem := hg.mem_order.2 (Nat.le_of_lt_succ hv)
    have humem := hg.linked.fathers_mem v hvmem u hu
    exact ⟨Nat.lt_succ_of_le (hg.mem_order.1 humem), (hg.linked.mem_sons_iff humem hvmem).2 hu⟩
  · intro u hu hkind hscope l hl c hc v hv
    have hle := Nat.le_of_lt_succ hu
    obtain ⟨j, hj⟩ := hg.stay u hle (.inl (by simp [Mark.isJump, hkind, NodeKind.jumps]))
    exact hg.heralds u hle hkind hscope l hl c hc j v (hj ▸ hv)

end Corrected

end Flow

/-! ## Targets of jumps -/

/-- The expressions that lead to the condition of a loop are its step. A loop without condition has no step. -/
structure Loop.Stepped (o : Outline (.code false)) (l : Loop) : Prop where
  bare : l.head = none → l.step = none
  back : ∀ c ∈ l.head, ∀ u ≤ o.size, (o.mark u).kind = .expression → ∀ j, c ∈ (o.mark u).lead.sons j → l.step = some u
  step : ∀ c ∈ l.head, ∀ u ∈ l.step, u ≤ o.size ∧ (o.mark u).kind = .expression ∧ c ∈ (o.mark u).lead.sons 0

/-- A jump out of a loop stands in a loop with a condition and leaves no clause, a jump to the next round stands in a loop, and
no call is tried inside a clause. -/
structure Outline.Orderly (o : Outline (.code false)) : Prop where
  breaks : ∀ u ≤ o.size, (o.mark u).kind = .breaks → (o.mark u).scope = none →
    ∃ l ∈ (o.mark u).loops.head?, l.head ≠ none ∧ (o.mark u).clause = (o.mark l.stop).clause
  continues : ∀ u ≤ o.size, (o.mark u).kind = .continues → (o.mark u).scope = none → (o.mark u).loops.head? ≠ none
  tries : ∀ u ≤ o.size, (o.mark u).kind = .tries → (o.mark u).clause = none

/-- Where a jump is made to lead. -/
structure Lands (o : Outline (.code false)) (u : Nat) (sons : List Nat) : Prop where
  ends : (o.mark u).kind = .returns ∨ (o.mark u).kind = .throws → sons = []
  breaks : (o.mark u).kind = .breaks → ∃ l ∈ (o.mark u).loops.head?, sons = [l.stop]
  continues : (o.mark u).kind = .continues → ∃ l ∈ (o.mark u).loops.head?, ∃ v, sons = [v] ∧
    Enters o.mark (o.mark u).loops v ∧ (l.Stepped o → v = l.next)

theorem Lands.enters (h : Lands o u sons) (hu : u ≤ o.size) (hjump : (o.mark u).isJump = true)
    (hv : v ∈ sons) : Enters o.mark (o.mark u).beyond v := by
  have hkind : (o.mark u).kind.jumps = true := (Bool.and_eq_true_iff.1 hjump).2
  have hbeyond : (o.mark u).beyond = (o.mark u).loops := if_neg fun h => by simp [h, NodeKind.jumps] at hkind
  rw [hbeyond]
  cases hk : (o.mark u).kind <;> simp only [hk] at hkind <;> try cases hkind
  · rw [h.ends (.inl hk)] at hv
    cases hv
  · rw [h.ends (.inr hk)] at hv
    cases hv
  · obtain ⟨l, hl, rfl⟩ := h.breaks hk
    obtain rfl := mem_singleton.1 hv
    obtain ⟨hkind, hloops⟩ := ((o.nested_mark hu).encloses l hl).stop
    exact .inl (by rw [Mark.around, if_neg (by simp [hkind]), hloops])
  · obtain ⟨l, hl, w, rfl, hw, -⟩ := h.continues hk
    obtain rfl := mem_singleton.1 hv
    exact hw

namespace Flow

variable {g h : Flow}

theorem Fits.roundStart_enters (hg : g.Fits f size) (henc : Encloses f (l :: rest) none l)
    (hlt : ∀ c ∈ l.head, c < size) : Enters f (l :: rest) (g.roundStart l) := by
  unfold roundStart
  cases hhead : l.head with
  | none => exact .inr ⟨henc.start.1, henc.start.2, by simp [hhead]⟩
  | some c =>
    obtain ⟨hkind, hloops⟩ := henc.head c hhead
    have haround : (f c).around = l :: rest := by rw [Mark.around, if_neg (by simp [hkind]), hloops]
    show Enters f (l :: rest) (((g.fathers c).find? fun u => g.kind u == .expression).getD c)
    cases hfound : (g.fathers c).find? fun u => g.kind u == .expression with
    | none => exact .inl haround
    | some w =>
      obtain ⟨hw, hson⟩ := hg.fathers c (hlt c hhead) w (mem_of_find?_eq_some hfound)
      have hwkind : (f w).kind = .expression := by
        rw [← hg.kind w hw]
        simpa using find?_some hfound
      have hbeyond : (f w).around = (f w).beyond := by simp [Mark.around, Mark.beyond, hwkind]
      rcases (hg.sons w hw c hson).2 with h | ⟨h, -⟩
      · exact .inl (hbeyond.trans (h.symm.trans haround))
      · simp [hkind] at h

/-- Where the step of a loop is all that leads back to the condition, it is where the next round starts. -/
theorem Corrected.roundStart_eq (hg : g.Corrected o D k) (hl : l.Stepped o)
    (hle : ∀ c ∈ l.head, c ≤ o.size) : g.roundStart l = l.next := by
  unfold roundStart Loop.next
  cases hhead : l.head with
  | none => simp [hl.bare hhead]
  | some c =>
    have hc := hg.mem_order.2 (hle c hhead)
    have hstay : ∀ w ≤ o.size, (o.mark w).kind = .expression → ∃ j, g.sons w = (o.mark w).lead.sons j := fun w hw hk =>
      hg.stay w hw (.inl (by simp [Mark.isJump, hk, NodeKind.jumps]))
    have hback : ∀ w ∈ g.fathers c, g.kind w = .expression → l.step = some w := by
      intro w hw hk
      have hmem := hg.linked.fathers_mem c hc w hw
      have hwle := hg.mem_order.1 hmem
      rw [hg.kind hwle] at hk
      obtain ⟨j, hj⟩ := hstay w hwle hk
      exact hl.back c hhead w hwle hk j (hj ▸ (hg.linked.mem_sons_iff hmem hc).2 hw)
    show ((g.fathers c).find? fun u => g.kind u == .expression).getD c = l.step.getD c
    cases hstep : l.step with
    | none =>
      rw [find?_eq_none.2 fun w hw hk => by simp [hback w hw (by simpa using hk)] at hstep]
    | some w =>
      obtain ⟨hwle, hk, hson⟩ := hl.step c hhead w hstep
      obtain ⟨j, hj⟩ := hstay w hwle hk
      have hfather := (hg.linked.mem_sons_iff (hg.mem_order.2 hwle) hc).1 (hj ▸ (o.mark w).lead.sons_zero_subset j c hson)
      cases hfound : (g.fathers c).find? fun u => g.kind u == .expression with
      | none => simpa [hg.kind hwle, hk] using find?_eq_none.1 hfound w hfather
      | some x =>
        have hx := hback x (mem_of_find?_eq_some hfound) (by simpa using find?_some hfound)
        exact Option.some.inj (hx.symm.trans hstep)

/-- From a jump out of a loop a way leads to the end of the loop. -/
theorem Corrected.clears (hg : g.Corrected o D k) (hk : k ≤ o.size)
    (hkind : (o.mark k).kind = .breaks) (hl : l ∈ (o.mark k).loops) (hclause : (o.mark k).clause = (o.mark l.stop).clause) :
    g.Clears [] k l.stop := by
  have hmark := (Outline.along_layout (o := o) (P := fun u m => o.mark u = m)).2 fun _ _ => rfl
  have hstep := (Outline.along_layout (o := o) (P := fun u m => k ≤ u ∨ m.isJump = false → g.Clears [] k u →
      ∀ v ∈ m.lead.sons 0, g.Clears [] k v)).2 fun u hu hfree hR v hv => by
    obtain ⟨j, hj⟩ := hg.stay u hu hfree.symm
    exact hR.step (hj ▸ (o.mark u).lead.sons_zero_subset j v hv) nofun
  have hleaves := Outline.leaves_marks (p := {}) (b := 0) o nofun nofun (Nat.zero_le 1) nofun hmark.2 hstep.2 nofun
  exact (Outline.along_layout (P := fun u m => u = k → m.kind = .breaks → g.Clears [] k u → ∀ l ∈ m.loops,
    (o.mark l.stop).clause = m.clause → g.Clears [] k l.stop)).1
    ⟨fun _ h => (nomatch h), hleaves⟩ k hk rfl hkind .start l hl hclause.symm

variable {name : String} (hg : g.Corrected o (Lands o) k) (ho : o.Orderly) (hk : k ≤ o.size)
include hg ho hk

theorem Corrected.break_lands (hkind : (o.mark k).kind = .breaks) (hscope : (o.mark k).scope = none)
    (hr : (g.findEndLoop (g.nodes.size + 1) k [] 0).or (g.findEndLoop (g.nodes.size + 1) k [] (-1)) = some r) :
    ∃ l ∈ (o.mark k).loops.head?, r = l.stop := by
  have hfits := hg.fits fun u hu hj sons hs v => hs.enters hu hj
  obtain ⟨l, hl, hhead, hclause⟩ := ho.breaks k hk hkind hscope
  obtain ⟨rest, hloops⟩ := head?_eq_some_iff.1 hl
  obtain ⟨hskind, hsloops⟩ := ((o.nested_mark hk).encloses l hl).stop
  have hin : (o.mark k).around = [] ++ l :: rest := by simp [Mark.around, hkind, hloops]
  have hstop : (o.mark l.stop).around = l :: rest := by simp [Mark.around, hskind, hsloops, hloops]
  have hstopkind : g.kind l.stop = .endLoop := (hg.kind (o.le_size (by simp [hskind]))).trans hskind
  have hlt := Nat.lt_succ_of_le hk
  have hway := hg.clears hk hkind (by simp [hloops]) hclause
  have hfound : (g.findEndLoop (g.nodes.size + 1) k [] 0).isSome = true :=
    hfits.findEndLoop_complete (T := []) hhead hlt hin (by simp) hstop hstopkind (by simp) hway .nil (by simp) (by simp [hg.size])
  obtain ⟨x, hx⟩ := Option.isSome_iff_exists.1 hfound
  rw [hx] at hr
  exact ⟨l, hl, (Option.some.inj hr).symm.trans (hfits.findEndLoop_sound (T := []) hhead hlt hin (by simp) hx)⟩

theorem Corrected.continue_lands (hkind : (o.mark k).kind = .continues) (hscope : (o.mark k).scope = none)
    (hr : g.findLoopHead (g.nodes.size + 1) k [] 0 = some r) : ∃ l ∈ (o.mark k).loops.head?,
      Enters o.mark (o.mark k).loops r ∧ (l.Stepped o → r = l.next) := by
  have hfits := hg.fits fun u hu hj sons hs v => hs.enters hu hj
  obtain ⟨l, hl⟩ := Option.ne_none_iff_exists'.1 (ho.continues k hk hkind hscope)
  obtain ⟨rest, hloops⟩ := head?_eq_some_iff.1 hl
  have henc := (o.nested_mark hk).encloses l hl
  rw [hloops, hscope] at henc
  have hin : (o.mark k).beyond = [] ++ l :: rest := by simp [Mark.beyond, hkind, hloops]
  have hle : ∀ c ∈ l.head, c ≤ o.size := fun c hc => o.le_size (by simp [(henc.head c hc).1])
  have hstart : k ≠ l.start := fun h => absurd henc.start.1 (by simp [← h, hkind])
  obtain rfl := hfits.findLoopHead_sound (T := []) henc (Nat.lt_succ_of_le hk) hin (fun _ _ => ⟨not_mem_nil, hstart⟩) hr
  refine ⟨l, hl, ?_, fun hstep => hg.roundStart_eq hstep hle⟩
  rw [hloops]
  exact hfits.roundStart_enters henc fun c hc => Nat.lt_succ_of_le (hle c hc)

theorem Corrected.lands (hfix : g.fixJump name k = .ok h) (hjump : (o.mark k).isJump = true) : Lands o k (h.sons k) := by
  have hscope : (o.mark k).scope = none := Option.isNone_iff_eq_none.1 (Bool.and_eq_true_iff.1 hjump).1
  have hkind := hg.kind hk
  rcases fixJump_cases hg.linked (hg.mem_order.2 hk) hfix with ⟨sons, hturns, hcase⟩ | ⟨htries, -⟩ | ⟨hno, -⟩
  · rw [hturns.sons, if_pos rfl]
    rw [hkind] at hcase
    rcases hcase with ⟨hends, rfl⟩ | ⟨hbreaks, r, hr, rfl⟩ | ⟨hcontinues, r, hr, rfl⟩
    · refine ⟨fun _ => rfl, fun h => ?_, fun h => ?_⟩ <;> simp [h] at hends
    · obtain ⟨l, hl, rfl⟩ := hg.break_lands ho hk hbreaks hscope hr
      exact ⟨by simp [hbreaks], fun _ => ⟨l, hl, rfl⟩, by simp [hbreaks]⟩
    · obtain ⟨l, hl, henters, hnext⟩ := hg.continue_lands ho hk hcontinues hscope hr
      exact ⟨by simp [hcontinues], by simp [hcontinues], fun _ => ⟨l, hl, r, rfl, henters, hnext⟩⟩
  · simp [Mark.isJump, ← hkind, htries, NodeKind.jumps] at hjump
  · simp [Mark.isJump, ← hkind, hno] at hjump

end Flow

end ContractAudit
