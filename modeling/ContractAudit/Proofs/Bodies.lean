import ContractAudit.Proofs.Conditionals
import ContractAudit.Proofs.Statements

/-! # Contents of functions

The content of a function is read once. Until then the nodes behind which modifiers are put are in its graph, and while it is
read, the graph keeps its edges at both ends from one step to the next.
-/

namespace ContractAudit.Reader

open Flow Load State Ensures Build List

variable {fn : Function}

/-! ## Invariants of contents -/

namespace State

/-- The content of every function is read or can be. -/
structure Whole (s : State) : Prop where
  sane : s.Sane
  ready : ∀ f, (s.draft f).contentDone = true ∨ s.Ready f

/-- The content of a function is being read. -/
structure Opened (f : FunctionId) (s : State) : Prop extends Whole s where
  done : (s.draft f).contentDone = true
  known : f < s.program.functionTable.size

/-- Its body and its modifiers can still be added. -/
structure Primed (f : FunctionId) (s : State) : Prop extends Opened f s where
  tree : (s.draft f).tree ≠ .null
  root : (s.program.function f).Ready

/-- An invariant that steps outside of contents keep. -/
class Lasting (I : State → Prop) : Prop where
  sane : ∀ {s}, I s → s.Sane
  of_extends : ∀ {s t}, I s → Extends s t → I t

instance : Lasting Whole where
  sane hs := hs.sane
  of_extends hs hst := ⟨hst.sane, fun f => (hs.ready f).imp (hst.done f) (hst.ready f)⟩

instance (f : FunctionId) : Lasting (Opened f) where
  sane hs := hs.sane
  of_extends hs hst :=
    ⟨Lasting.of_extends hs.toWhole hst, hst.done f hs.done, Nat.lt_of_lt_of_le hs.known hst.size⟩

instance (f : FunctionId) : Lasting (Primed f) where
  sane hs := hs.sane
  of_extends {s t} hs hst := by
    have htree : (t.draft f).tree ≠ .null := hst.tree f hs.tree ▸ hs.tree
    exact ⟨Lasting.of_extends hs.toOpened hst, htree, (hst.ready f (.inr hs.root)).resolve_left htree⟩

end State

section

variable [Lasting I] [Lasting J]

instance : Coarse (Preserves I) := ⟨fun hst hs => Lasting.of_extends hs (hst (Lasting.sane hs))⟩

instance (priority := low) [hx : Framed x] : Respects (Preserves I) x := respects_of_frame hx

theorem bind_of_frame (hs : J s) (hx : Ensures Frame x s Q)
    (hk : ∀ a t, Extends s t → J t → Q a t → Ensures (Preserves I) (k a) t P) : Ensures (Preserves I) (x >>= k) s P :=
  (ensures_of_frame hx).bind fun a t _ h =>
    have hst := h.1 (Lasting.sane hs)
    hk a t hst (Lasting.of_extends hs hst) h.2

theorem bind_of_framed (hs : J s) (hx : Framed x)
    (hk : ∀ a t, Extends s t → J t → Ensures (Preserves I) (k a) t P) : Ensures (Preserves I) (x >>= k) s P :=
  bind_of_frame hs (hx.ensures s) fun a t hst ht _ => hk a t hst ht

end

/-! ## Looking -/

theorem program_bind (hk : Ensures R (k s.program) s P) : Ensures R (program >>= k) s P := hk

theorem functionDraft_bind (hk : Ensures R (k (s.draft f)) s P) :
    Ensures R (functionDraft f >>= k) s P := hk

theorem lift_bind [IsPreorder State R] {k : α → Load β}
    (hk : ∀ a, x = .ok a → Ensures R (k a) s P) : Ensures R (lifted x >>= k) s P := by
  cases x with
  | ok a => exact hk a rfl
  | error e => exact bind (Q := fun _ _ => False) (.throw e) fun _ _ _ h => h.elim

/-! ## Changes of the function that is read -/

theorem opened_modifyFunction (hs : Opened f s) (hlinked : (u (s.program.function f)).flow.Linked) :
    Opened f { s with program := s.program.modifyFunction f u } := by
  have hsize : (s.program.modifyFunction f u).functionTable.size = s.program.functionTable.size := Array.size_modify ..
  refine ⟨⟨⟨hsize.trans hs.sane.aligned, fun g => ?_⟩, fun g => ?_⟩, hs.done, hsize.symm ▸ hs.known⟩
  · rw [flow, function_modifyFunction]
    split
    · next hfg => exact hfg.1 ▸ hlinked
    · exact hs.sane.linked g
  · by_cases hfg : f = g
    · exact .inl (hfg ▸ hs.done)
    · refine (hs.ready g).imp_right fun hg => ?_
      rw [Ready, function_modifyFunction, if_neg fun h => hfg h.1]
      exact hg

theorem primed_modifyFunction (hs : Opened f s) (htree : (s.draft f).tree ≠ .null)
    (hlinked : (u (s.program.function f)).flow.Linked) (hready : (u (s.program.function f)).Ready) :
    Primed f { s with program := s.program.modifyFunction f u } := by
  refine ⟨opened_modifyFunction hs hlinked, htree, ?_⟩
  rw [function_modifyFunction, if_pos ⟨rfl, hs.known⟩]
  exact hready

/-! ## Bodies -/

theorem ready_dropLoneEnds (hfn : fn.Ready) (hl : fn.flow.Linked) :
    ({ fn with flow := fn.flow.dropLoneEnds } : Function).Ready := by
  refine hfn.of_stays (by rfl) (by rfl) (by rfl) (fun n hn => ?_) hl.dropLoneEnds_entry
  obtain ⟨hmem, hkind⟩ := hl.mem_dropLoneEnds hn.1 hn.2
  exact ⟨hmem, hkind ▸ hn.2⟩

theorem setEntry_primed (hs : Opened f s) (htree : (s.draft f).tree ≠ .null)
    (hroot : (s.program.function f).Rooted) (hn : (s.flow f).Stays n) :
    Ensures (Preserves (Opened f)) (modifyFunction f fun fn => { fn with flow := { fn.flow with entry := some n } }) s
      fun _ t => Primed f t ∧ n ∈ (t.flow f).order := by
  have hl := hs.sane.linked f
  have hprimed : Primed f { s with program := s.program.modifyFunction f fun fn =>
      { fn with flow := { fn.flow with entry := some n } } } :=
    primed_modifyFunction hs htree (hl.setEntry (some n)) (hroot.setEntry hn)
  refine .modify (fun _ => hprimed.toOpened) ⟨hprimed, ?_⟩
  rw [flow_modifyFunction hs.known]
  exact hn.1

theorem dropLoneEnds_ensures (hs : Primed f s) :
    Ensures (Preserves (Opened f)) (build f (modify dropLoneEnds)) s fun _ t => Primed f t := by
  have hl := hs.sane.linked f
  have hprimed : Primed f (withFlow s f (s.flow f).dropLoneEnds) :=
    primed_modifyFunction hs.toOpened hs.tree hl.dropLoneEnds_linked (ready_dropLoneEnds hs.root hl)
  refine (build_ensures_withFlow (G := fun g h => h = g.dropLoneEnds) (Q := fun _ _ => True) (fun g hg => ?_)
    (.modify rfl trivial)).imp fun _ t _ ht => ?_
  · rw [hg]
    exact fun _ => hprimed.toOpened
  · obtain ⟨g, rfl, rfl, -⟩ := ht
    exact hprimed

theorem newNode_rooted (hs : Opened f s) (hroot : (s.program.function f).Rooted) (hsons : n.sons = [])
    (hfathers : n.fathers = []) (hkind : n.kind ≠ .endIf) :
    Ensures (Preserves (Opened f)) (build f (newNode n)) s fun i t =>
      Opened f t ∧ (t.program.function f).Rooted ∧ t.draft f = s.draft f ∧ (t.flow f).Stays i := by
  have hopened : ∀ g, Grows (s.flow f) g → Opened f (withFlow s f g) :=
    fun g hg => opened_modifyFunction hs (hg.linked (hs.sane.linked f))
  refine (build_ensures_withFlow (fun g hg _ => hopened g hg) (newNode_ensures hsons hfathers)).imp fun i t _ ht => ?_
  obtain ⟨g, rfl, hg, hmem, hi⟩ := ht
  have hfn : (withFlow s f g).program.function f = { s.program.function f with flow := g } := by
    rw [withFlow, function_modifyFunction, if_pos ⟨rfl, hs.known⟩]
  refine ⟨hopened g hg, ?_, rfl, ?_⟩
  · rw [hfn]
    exact hroot.of_stays (by rfl) (by rfl) (fun _ => hg.stays (hs.sane.linked f)) hg.entry
  · rw [flow, hfn]
    exact ⟨hmem, hi.trans_ne hkind⟩

theorem readBody_ensures (tree : Json) (hs : Opened f s) (htree : (s.draft f).tree ≠ .null)
    (hroot : (s.program.function f).Rooted) :
    Ensures (Preserves (Opened f)) (readBody f tree) s fun _ t => Primed f t := by
  refine .look_bind fun isBlock => .look_bind fun _ => .look_bind fun source => .look_bind fun checked => ?_
  refine (newNode_rooted hs hroot rfl rfl (by simp)).bind fun entry s₁ _ ⟨hs₁, hroot₁, hdraft, hstays⟩ => ?_
  refine (setEntry_primed hs₁ (hdraft ▸ htree) hroot₁ hstays).bind fun _ s₂ _ ⟨hs₂, hentry⟩ => ?_
  refine .look_bind fun statements => ?_
  refine bind_of_framed hs₂ (respects_modifyFunction fun _ => .of_flow_eq rfl rfl rfl rfl) fun _ t₁ h₁ ht₁ => ?_
  have hentry₁ := (h₁.flow f).order entry hentry
  split
  · refine .look_bind fun state => .look_bind fun trees => ?_
    refine bind_of_framed ht₁ inferInstance fun body t₂ h₂ ht₂ => ?_
    refine .look_bind fun p => ?_
    have hbody := (@stmts_reaching _ checked _ body.1 ((h₂.flow f).order entry hentry₁)).bind
      fun _ g hg _ => fixJumps_ensures (p.functionName f) (hg.linked (ht₂.sane.linked f))
    exact bind_of_frame ht₂ (build_ensures ht₂.known hbody) fun _ t₃ _ ht₃ _ => dropLoneEnds_ensures ht₃
  · exact .pure ht₁

theorem implement_ensures {tree : Json} (hs : Primed f s) :
    Ensures (Preserves (Opened f)) (implement f tree) s fun _ t => Primed f t := by
  have hopened : Opened f { s with program := s.program.modifyFunction f fun fn => { fn with implemented := some true } } :=
    opened_modifyFunction hs.toOpened (hs.sane.linked f)
  refine bind (Q := fun _ t => Opened f t ∧ t.draft f = s.draft f ∧ (t.program.function f).Rooted)
    (.modify (fun _ => hopened) ⟨hopened, rfl, ?_⟩) fun _ t _ ⟨ht, hdraft, hroot⟩ => ?_
  · rw [function_modifyFunction, if_pos ⟨rfl, hs.known⟩]
    exact hs.root.toRooted.of_stays (by rfl) (by rfl) (fun _ h => h) rfl
  · exact readBody_ensures tree ht (hdraft ▸ hs.tree) hroot

/-! ## Modifiers -/

theorem useOrigin_stays (hfn : fn.Ready) (hentry : fn.flow.entry.isSome)
    (huses : ∀ u ∈ uses, u ∈ fn.modifiers ++ fn.baseCalls) : fn.flow.Stays (useOrigin fn uses) := by
  unfold useOrigin
  split
  · next u hlast =>
    obtain ⟨n, hn, hstays⟩ := hfn.uses u (huses u (mem_of_getLast? hlast))
    rw [hn]
    exact hstays
  · obtain ⟨n, hn⟩ := Option.isSome_iff_exists.1 hentry
    rw [hn]
    exact hfn.entry n hn

theorem ready_addUse (isBase : Bool) (hfn : fn.Ready)
    (huse : use.nodes.getLast? = some n) (hn : fn.flow.Stays n) :
    Function.Ready (if isBase then { fn with baseCalls := fn.baseCalls ++ [use] }
      else { fn with modifiers := fn.modifiers ++ [use] }) := by
  have hall : ∀ u, u ∈ fn.modifiers ++ fn.baseCalls ∨ u = use → ∃ n, u.nodes.getLast? = some n ∧ fn.flow.Stays n := by
    rintro u (hu | rfl)
    · exact hfn.uses u hu
    · exact ⟨n, huse, hn⟩
  split
  · refine ⟨⟨hfn.entry, fun u hu => hall u ?_⟩, hfn.started⟩
    simpa [or_assoc] using hu
  · refine ⟨⟨hfn.entry, fun u hu => hall u ?_⟩, hfn.started⟩
    simpa [or_comm, or_left_comm] using hu

theorem insertModifierUse_ensures {tree : Json} {t : Target} (hs : Primed f s) (hentry : (s.flow f).entry.isSome) :
    Ensures (Preserves (Primed f)) (insertModifierUse f tree checked t) s fun _ u => Primed f u ∧ (u.flow f).entry.isSome := by
  unfold insertModifierUse
  extract_lets isBase
  refine .look_bind fun source => ?_
  refine bind_of_frame hs (build_ensures hs.known (newNode_ensures rfl rfl)) fun n s₁ h₁ hs₁ ⟨hmem, hkind⟩ => ?_
  refine program_bind ?_
  extract_lets fn origin use
  have horigin : (s₁.flow f).Stays origin := by
    refine useOrigin_stays hs₁.root (h₁.entry f hentry) fun u hu => ?_
    split at hu
    · exact mem_append_right _ hu
    · exact mem_append_left _ hu
  have hinsert := Grows.insertAfter (hs₁.sane.linked f) horigin.1 hmem
  refine bind_of_frame hs₁ (build_ensures hs₁.known (.modify (Q := fun _ _ => True) hinsert trivial)) fun _ s₂ h₂ hs₂ _ => ?_
  have hkept := (h₂.flow f).kind (hs₁.sane.linked f) n hmem
  have hstays : (s₂.flow f).Stays n := ⟨(h₂.flow f).order n hmem, (hkept.trans hkind).trans_ne (by simp)⟩
  have hprimed : Primed f { s₂ with program := s₂.program.modifyFunction f fun fn =>
      if isBase then { fn with baseCalls := fn.baseCalls ++ [use] }
      else { fn with modifiers := fn.modifiers ++ [use] } } := by
    refine primed_modifyFunction hs₂.toOpened hs₂.tree ?_ (ready_addUse isBase hs₂.root rfl hstays)
    split <;> exact hs₂.sane.linked f
  refine .modify (fun _ => hprimed) ⟨hprimed, ?_⟩
  rw [flow_modifyFunction hs₂.known]
  split <;> exact h₂.entry f (h₁.entry f hentry)

instance (f : FunctionId) (tree : Json) : Respects (Preserves (Primed f)) (readModifierUse f tree) := by
  refine .of_invariant fun s hs => ?_
  unfold readModifierUse
  refine bind_of_framed hs inferInstance fun e s₁ _ hs₁ => ?_
  refine program_bind ?_
  split
  · exact .pure trivial
  next himplemented =>
  have hentry : (s₁.flow f).entry.isSome := hs₁.root.started (by simpa using himplemented)
  refine .look_bind fun checked => ?_
  refine bind (forIn (I := fun _ t => Primed f t ∧ (t.flow f).entry.isSome) ⟨hs₁, hentry⟩ ?_) fun _ _ _ _ => .pure trivial
  intro target _ _ t _ ht
  refine .ite (fun _ => ?_) fun _ => .pure ht
  exact (insertModifierUse_ensures ht.1 ht.2).bind fun _ _ _ hu => .pure hu

/-! ## Conditional expressions -/

instance (f : FunctionId) (fuel : Nat) : Respects (Preserves (Opened f)) (splitConditionals f fuel) := by
  induction fuel with
  | zero => exact .of_def (splitConditionals.eq_1 f)
  | succ fuel ih =>
    refine .of_invariant fun s hs => ?_
    rw [splitConditionals.eq_2]
    refine program_bind ?_
    extract_lets g
    split
    · exact .pure trivial
    next i hfind =>
    extract_lets n e parts rest
    have hi : i ∈ g.order := (mem_filter.1 (mem_of_find?_eq_some hfind)).1
    have hrest : Ensures (Preserves (Opened f)) (rest ()) s fun _ _ => True := by
      refine lift_bind fun h hsplit => ?_
      have hopened : Opened f (withFlow s f h) :=
        opened_modifyFunction hs (splitNode_linked (hs.sane.linked f) hi hsplit)
      refine bind (Q := fun _ _ => True) (.modify (fun _ => hopened) trivial) fun _ t _ _ => ih.ensures t
    split
    · exact bind (Q := fun _ _ => False) (.throw _) fun _ _ _ h => h.elim
    · exact hrest

/-! ## The end of a function -/

theorem addImplicitReturn_ensures {tree : Json} (hs : s.Sane) (hf : f < s.program.functionTable.size) :
    Ensures Frame (addImplicitReturn f tree) s fun _ _ => True := by
  refine program_bind ?_
  extract_lets fn names g open_
  refine .ite (fun _ => .pure trivial) fun _ => ?_
  refine .look_bind fun position => .look_bind fun source => .look_bind fun checked => ?_
  refine bind_of_ensures hs (build_ensures hf (newNode_reaching rfl rfl)) fun n s₁ h₁ hn => ?_
  refine .look_bind fun d => ?_
  extract_lets assembly
  have hends : ∀ i ∈ (g.plainNodes ++ assembly).filter open_, i ∈ g.order := by
    intro i hi
    rcases mem_append.1 (mem_filter.1 hi).1 with hi | hi
    · exact (mem_filter.1 hi).1
    · obtain ⟨k, -, hi⟩ := mem_flatMap.1 hi
      exact (mem_filter.1 hi).1
  have hlinks : Ensures Frame (forIn ((g.plainNodes ++ assembly).filter open_) PUnit.unit fun i _ => do
      build f (link i n)
      pure (ForInStep.yield PUnit.unit)) s₁ fun _ _ => True := by
    refine .forIn (I := fun _ _ => True) trivial fun i hi _ t ht _ => ?_
    have hst := ht h₁.sane
    have hi' := (hst.flow f).order i ((h₁.flow f).order i (hends i hi))
    have hlink := build_ensures (lt_size_of_mem hi') (link_ensures hi' ((hst.flow f).order n hn))
    exact hlink.bind fun _ _ _ _ => .pure trivial
  refine bind_of_ensures h₁.sane hlinks fun _ s₂ h₂ _ => ?_
  refine .look_bind fun compact => .look_bind fun e => ?_
  have hf₂ : f < s₂.program.functionTable.size := Nat.lt_of_lt_of_le hf (Nat.le_trans h₁.size h₂.size)
  exact (build_ensures hf₂ setPending_ensures).bind fun _ t _ _ => Respects.ensures t

instance (f : FunctionId) (tree : Json) : Respects (Preserves (Opened f)) (addImplicitReturn f tree) :=
  .of_invariant fun _ hs => (ensures_of_frame (addImplicitReturn_ensures hs.sane hs.known)).imp fun _ _ _ _ => trivial

instance (f : FunctionId) :
    Respects (Preserves (Opened f)) (modifyFunction f fun fn => { fn with flow := fn.flow.dropLoneEnds }) :=
  .modify fun _ hs => opened_modifyFunction hs (hs.sane.linked f).dropLoneEnds_linked

instance (f : FunctionId) (entry : NodeId) :
    Framed (modifyFunction f fun fn => { fn with flow := fn.flow.markReachable entry }) :=
  respects_modifyFunction fun fn => .of_grows rfl rfl rfl (.markReachable fn.flow entry)

instance (f : FunctionId) (results : Option Json) : Respects (Preserves (Opened f)) (finishFunction f results) :=
  .of_def (finishFunction.eq_def f results)

/-! ## Contents -/

/-- The state in which the content of a function counts as read. -/
def marked (s : State) (f : FunctionId) : State :=
  { s with functionDrafts := s.functionDrafts.modify f fun d => { d with contentDone := true } }

theorem frame_marked {s : State} : Frame s (marked s f) := frame_modifyDraft (fun _ => rfl) fun _ _ => rfl

theorem primed_marked (hs : Whole s) (hdone : ¬ (s.draft f).contentDone = true) (htree : (s.draft f).tree ≠ .null) :
    Primed f (marked s f) := by
  have hst : Extends s (marked s f) := frame_marked hs.sane
  have hready : (s.program.function f).Ready := ((hs.ready f).resolve_left hdone).resolve_left htree
  have hknown : f < s.functionDrafts.size := by
    by_contra hf
    refine htree ?_
    simp [draft, Nat.le_of_not_lt hf]
    rfl
  refine ⟨⟨Lasting.of_extends hs hst, ?_, hs.sane.aligned ▸ hknown⟩, hst.tree f htree ▸ htree, hready⟩
  rw [marked, draft_modify, if_pos ⟨rfl, hknown⟩]

instance (f : FunctionId) : Framed (modifyFunction f fun fn => { fn with implemented := some false }) :=
  respects_modifyFunction fun _ => ⟨.refl _, fun h => h, fun _ h => ⟨⟨h.entry, h.uses⟩, nofun⟩⟩

theorem readModifierUse_ensures {tree : Json} (hs : Primed f s) :
    Ensures (Preserves (Opened f)) (readModifierUse f tree) s fun _ t => Primed f t :=
  (of_stronger hs (fun _ ht => ht.toOpened) (Respects.ensures s)).imp fun _ _ _ ht => ht.1

theorem forIn_primed {trees : List Json} {step : Json → Load Unit} (hs : Primed f s)
    (hstep : ∀ tree t, Primed f t → Ensures (Preserves (Opened f)) (step tree) t fun _ u => Primed f u) :
    Ensures (Preserves (Opened f)) (forIn trees PUnit.unit fun c _ => do
      if ← isKind c name then
        step c
        pure (ForInStep.yield PUnit.unit)
      else pure (ForInStep.yield PUnit.unit)) s fun _ t => Primed f t := by
  refine .forIn (I := fun _ t => Primed f t) hs fun tree _ _ t _ ht => ?_
  refine .look_bind fun isNamed => ?_
  refine .ite (fun _ => ?_) fun _ => .pure ht
  exact (hstep tree t ht).bind fun _ _ _ hu => .pure hu

theorem readCompactContent_ensures (hs : tree ≠ .null → Primed f s) :
    Ensures (Preserves Whole) (readCompactContent f isModifier tree) s fun _ _ => True := by
  refine lift_bind fun body hbody => ?_
  have hs := hs (by rintro rfl; cases hbody)
  refine (of_stronger (Q := fun _ _ => True) hs.toOpened (fun _ ht => ht.toWhole) ?_).imp fun _ _ _ _ => trivial
  extract_lets block finish uses
  have huses : ∀ t, Primed f t → Ensures (Preserves (Opened f)) (uses ()) t fun _ _ => True := by
    intro t ht
    refine .ite (fun _ => ?_) fun _ => Respects.ensures _
    refine .look_bind fun modifiers => .look_bind fun trees => ?_
    refine bind (forIn (I := fun _ u => Primed f u) ht fun m _ _ u _ hu => ?_) fun _ u _ _ => Respects.ensures _
    exact (readModifierUse_ensures hu).bind fun _ _ _ h => .pure h
  refine .ite (fun _ => .look_bind fun isBlock => .ite (fun _ => ?_) fun _ => huses s hs) fun _ => huses s hs
  exact (implement_ensures hs).bind fun _ t _ ht => huses t ht

theorem readLegacyContent_ensures (hs : tree ≠ .null → Primed f s) :
    Ensures (Preserves Whole) (readLegacyContent f isModifier tree) s fun _ _ => True := by
  refine lift_bind fun children hchildren => ?_
  have hs := hs (by rintro rfl; cases hchildren)
  refine (of_stronger (Q := fun _ _ => True) hs.toOpened (fun _ ht => ht.toWhole) ?_).imp fun _ _ _ _ => trivial
  refine .look_bind fun children => ?_
  refine .ite (fun _ => ?_) fun _ => ?_
  · refine bind_of_framed hs inferInstance fun _ s₁ _ hs₁ => ?_
    refine .ite (fun _ => .look_bind fun blocks => ?_) fun _ => Respects.ensures _
    split
    · exact bind (Q := fun _ _ => True) (.throw _) fun _ _ _ _ => Respects.ensures _
    · exact (implement_ensures hs₁).bind fun _ _ _ _ => Respects.ensures _
  · refine .look_bind fun results => ?_
    refine bind_of_framed hs inferInstance fun _ s₁ _ hs₁ => ?_
    refine (forIn_primed hs₁ fun tree _ ht => implement_ensures ht).bind fun _ s₂ _ hs₂ => ?_
    refine (forIn_primed hs₂ fun tree _ ht => readModifierUse_ensures ht).bind
      fun _ _ _ _ => Respects.ensures _

instance (f : FunctionId) : Respects (Preserves Whole) (readFunctionContent f) := by
  refine .of_invariant fun s hs => ?_
  unfold readFunctionContent
  refine functionDraft_bind ?_
  refine .ite (fun _ => .pure trivial) fun hdone => ?_
  have hmarked : Whole (marked s f) := Lasting.of_extends hs (frame_marked hs.sane)
  have hprimed := primed_marked hs hdone
  refine bind (Q := fun _ t => t = marked s f) (.modify (fun _ => hmarked) rfl) fun _ t _ ht => ?_
  obtain rfl := ht
  refine program_bind (.look_bind fun compact => ?_)
  exact .ite (fun _ => readCompactContent_ensures hprimed) fun _ => readLegacyContent_ensures hprimed

end ContractAudit.Reader
