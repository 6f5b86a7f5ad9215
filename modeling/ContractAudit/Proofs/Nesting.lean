import ContractAudit.Proofs.Placement

/-! # Loops and clauses around nodes

What the marks of a body say about its loops and clauses fits together along all edges, and from each jump out of a loop a way
leads to the end of the loop.
-/

namespace ContractAudit

open List

variable (f : Nat → Mark) (m : Mark) (loops : List Loop)

/-- The loops around the way to a node. The start of a loop is entered from outside. -/
def Mark.around : List Loop := if m.kind = .startLoop then m.loops.tail else m.loops

/-- The loops around the way on from a node. The end of a loop is left to the outside. -/
def Mark.beyond : List Loop := if m.kind = .endLoop then m.loops.tail else m.loops

def NodeKind.opens : NodeKind → Bool
  | branch | startLoop | tries => true
  | k => k.isSimple

/-- A way inside loops comes to a node there. It may come back to the start of a loop without condition. -/
def Enters (v : Nat) : Prop :=
  (f v).around = loops ∨ (f v).kind = .startLoop ∧ (f v).loops = loops ∧ ∀ l ∈ loops.head?, l.head = none

/-- A way inside loops and a clause comes to a node there. -/
structure Follows (clause : Option Nat) (v : Nat) : Prop where
  enters : Enters f loops v
  clause : (f v).clause = clause

/-- What follows code inside loops and a clause. A clause is left once the call before it is joined with its clauses. -/
def Exits (clause : Option Nat) : Exit → Prop
  | .flows next => (next = none → clause = none) ∧ ∀ v ∈ next, Follows f loops clause v
  | .joins t next => clause = some t ∧ (f t).kind = .tries ∧ (f t).scope = none ∧
    ∃ cs e, (f t).lead = .tries cs e ∧ e.next? = next ∧ ∀ v ∈ next, Follows f loops (f t).clause v

/-- The nodes of the innermost of some loops are inside the same loops. Around plain code, it is a plain loop. -/
structure Encloses (scope : Option Nat) (l : Loop) : Prop where
  start : (f l.start).kind = .startLoop ∧ (f l.start).loops = loops
  stop : (f l.stop).kind = .endLoop ∧ (f l.stop).loops = loops
  head : ∀ c ∈ l.head, (f c).kind = .loopBranch ∧ (f c).loops = loops
  plain : scope = none → (f l.start).scope = none

/-- The innermost loop around code has its nodes there. -/
def Standing.Inside (p : Standing) (f : Nat → Mark) : Prop := ∀ l ∈ p.loops.head?, Encloses f p.loops p.scope l

/-- Nodes inside loops that lead to two nodes: conditions, and the start of a loop without condition. -/
def NodeKind.Forks (kind : NodeKind) (loops : List Loop) : Prop :=
  kind = .branch ∨ kind = .loopBranch ∨ kind = .startLoop ∧ ∀ l ∈ loops.head?, l.head = none

/-- The mark of a node fits the marks of the nodes it leads to. -/
structure Nested (u : Nat) (m : Mark) : Prop where
  leads : match m.lead with
    | .goes e => Exits f m.beyond m.clause e
    | .splits yes no _ => m.kind.Forks m.loops ∧ Follows f m.beyond m.clause yes ∧ Follows f m.beyond m.clause no
    | .tries cs e => m.kind = .tries ∧ Exits f m.beyond m.clause e ∧
      ∀ c ∈ cs, (f c).around = m.beyond ∧ (f c).clause = some u ∧ (f c).kind = .catches
  starts : m.kind = .startLoop → m.loops.head?.map Loop.start = some u
  stops : m.kind = .endLoop → m.loops.head?.map Loop.stop = some u
  heads : m.kind = .loopBranch → m.loops.head?.map Loop.head = some (some u)
  tries : m.kind = .tries → ∃ cs e, m.lead = .tries cs e
  branches : m.kind = .branch → ∃ yes no, m.lead = .splits yes no ((f yes).kind == .endIf && (f no).kind != .endIf)
  loopBranches : m.kind = .loopBranch → ∃ yes no, m.lead = .splits yes no m.scope.isSome
  encloses : m.Inside f

theorem Exit.before_or {e : Exit} {x y : Option Nat} : e.before (x.or y) = (e.before y).before x := by
  cases x <;> rfl

theorem Exit.forall_before {R : Nat → Prop} (h : R (x.getD d)) : ∀ v ∈ ((Exit.flows (some d)).before x).sons k, R v := by
  cases x <;> simpa

theorem Lead.forall_splits {R : Nat → Prop} : (∀ v ∈ (Lead.splits yes no crossed).sons k, R v) ↔ R yes ∧ R no := by
  cases crossed <;> simp [and_comm]

/-- Jumps outside assembly code. Their edges are corrected. -/
def Mark.isJump : Bool := m.scope.isNone && m.kind.jumps

def Part.isYul : Part → Bool
  | code y => y
  | clauses => false

namespace Outline

/-- Nodes have the marks of an outline. -/
abbrev Marks (f : Nat → Mark) {part : Part} (o : Outline part) (p : Standing) (a n : Nat) (e : Exit) : Prop :=
  Along (fun u m => f u = m) n (o.marks p a n e)

variable {f : Nat → Mark} {p : Standing}

section

variable {o : Outline part} (hf : Marks f o p a n e)

include hf

theorem first_mark (hv : o.first? n = some v) :
    (f v).around = p.loops ∧ (f v).clause = p.clause ∧ (f v).kind.opens = true := by
  induction o generalizing p a n e with
  | seq s t ihs iht =>
    simp only [Marks, marks, along_append, length_marks] at hf
    rcases Option.or_eq_some_iff.1 hv with hs | ⟨-, ht⟩
    · exact ihs hf.1 hs
    · exact iht hf.2 ht
  | node kind simple =>
    obtain rfl := Option.some.inj hv
    rw [hf.1]
    cases kind <;> first | exact ⟨rfl, rfl, rfl⟩ | cases simple
  | forLoop tested stepped init round ih =>
    cases hi : init.first? (n + 2) with
    | none =>
      obtain rfl : n = v := by simpa [first?, hi] using hv
      cases tested <;> rw [hf.1] <;> exact ⟨rfl, rfl, rfl⟩
    | some w =>
      obtain rfl : w = v := by simpa [first?, hi] using hv
      cases tested <;> simp only [Marks, marks, along_cons, along_append] at hf <;> exact ih hf.2.2.1 hi
  | within scope body ih => exact ih (p := { p with scope := some scope }) hf hv
  | branch early yes no => cases early <;> obtain rfl := Option.some.inj hv <;> rw [hf.1] <;> exact ⟨rfl, rfl, rfl⟩
  | loop late body | yulLoop init round | tries clauses =>
    obtain rfl := Option.some.inj hv
    rw [hf.1]
    exact ⟨rfl, rfl, rfl⟩
  | skip | noClause | clause _ _ => cases hv

theorem follows_first (hv : o.first? n = some v) : Follows f p.loops p.clause v := by
  obtain ⟨haround, hclause, -⟩ := first_mark hf hv
  exact ⟨.inl haround, hclause⟩

theorem follows_getD (hv : Follows f p.loops p.clause v) : Follows f p.loops p.clause ((o.first? n).getD v) := by
  cases hfirst : o.first? n with
  | none => exact hv
  | some w => exact follows_first hf hfirst

theorem isNone_first (hv : (f v).kind = .endIf) :
    (o.first? n).isNone = ((f ((o.first? n).getD v)).kind == .endIf) := by
  cases hfirst : o.first? n with
  | none => simp [hv]
  | some w =>
    have hw := (first_mark hf hfirst).2.2
    cases hkind : (f w).kind <;> simp_all [NodeKind.opens, NodeKind.isSimple]

end

theorem exits_flows (hv : Follows f p.loops p.clause v) : Exits f p.loops p.clause (.flows v) := by
  refine ⟨nofun, fun w hw => ?_⟩
  obtain rfl := Option.some.inj hw
  exact hv

theorem exits_before (hf : Marks f o p a n e')
    (he : Exits f p.loops p.clause e) : Exits f p.loops p.clause (e.before (o.first? n)) := by
  cases hfirst : o.first? n with
  | none => exact he
  | some w => exact exits_flows (follows_first hf hfirst)

theorem nested_goes (hp : p.Inside f) (he : Exits f p.loops p.clause e)
    (hk : kind ≠ .startLoop ∧ kind ≠ .endLoop ∧ kind ≠ .loopBranch ∧ kind ≠ .branch ∧ kind ≠ .tries) :
    Nested f u (p.mark kind (.goes e)) := by
  constructor
  · simpa [Mark.beyond, hk.2.1] using he
  · exact fun h => absurd h hk.1
  · exact fun h => absurd h hk.2.1
  · exact fun h => absurd h hk.2.2.1
  · exact fun h => absurd h hk.2.2.2.2
  · exact fun h => absurd h hk.2.2.2.1
  · exact fun h => absurd h hk.2.2.1
  · exact hp

theorem follows_of_eq (hv : f v = p.mark kind lead) (hk : kind ≠ .startLoop) : Follows f p.loops p.clause v := by
  constructor <;> simp [Enters, Mark.around, hv, hk]

theorem nested_branch {u m m' stop : Nat} (hp : p.Inside f) (hyes : Marks f yes p a m e')
    (hno : Marks f no p b m' e'') (hstop : f stop = p.mark .endIf (.goes e)) : Nested f u
    (p.mark .branch (.splits ((yes.first? m).getD stop)
      ((no.first? m').getD stop) ((yes.first? m).isNone && (no.first? m').isSome))) := by
  have hkind : (f stop).kind = .endIf := by rw [hstop]; rfl
  have hend := follows_of_eq hstop (by decide)
  rw [isNone_first hyes hkind, ← Option.not_isNone, isNone_first hno hkind]
  exact ⟨⟨.inl rfl, follows_getD hyes hend, follows_getD hno hend⟩, nofun, nofun, nofun, nofun, fun _ => ⟨_, _, rfl⟩, nofun, hp⟩

section

variable {head step : Option Nat}

theorem encloses_inLoop (hstart : f start = (p.inLoop start stop head step).mark .startLoop lead)
    (hstop : f stop = (p.inLoop start stop head step).mark .endLoop lead')
    (hhead : ∀ c ∈ head, ∃ lead, f c = (p.inLoop start stop head step).mark .loopBranch lead) :
    (p.inLoop start stop head step).Inside f := by
  rintro _ ⟨⟩
  refine ⟨by rw [hstart]; exact ⟨rfl, rfl⟩, by rw [hstop]; exact ⟨rfl, rfl⟩, fun c hc => ?_, fun h => by rw [hstart]; exact h⟩
  obtain ⟨lead, hc⟩ := hhead c hc
  rw [hc]
  exact ⟨rfl, rfl⟩

theorem follows_start (hstart : f start = (p.inLoop start stop head step).mark .startLoop lead) :
    Follows f p.loops p.clause start := by
  constructor <;> simp [Enters, Mark.around, hstart]

theorem nested_startLoop (hq : (p.inLoop start stop head step).Inside f)
    (he : Exits f (p.inLoop start stop head step).loops p.clause e) :
    Nested f start ((p.inLoop start stop head step).mark .startLoop (.goes e)) :=
  ⟨he, fun _ => rfl, nofun, nofun, nofun, nofun, nofun, hq⟩

theorem nested_endLoop (hq : (p.inLoop start stop head step).Inside f)
    (he : Exits f p.loops p.clause e) : Nested f stop ((p.inLoop start stop head step).mark .endLoop (.goes e)) :=
  ⟨he, nofun, fun _ => rfl, nofun, nofun, nofun, nofun, hq⟩

theorem nested_loopBranch (hs : p.scope.isSome = crossed) (hq : (p.inLoop start stop (some u) step).Inside f)
    (hyes : Follows f (p.inLoop start stop (some u) step).loops p.clause yes)
    (hno : Follows f (p.inLoop start stop (some u) step).loops p.clause no) :
    Nested f u ((p.inLoop start stop (some u) step).mark .loopBranch (.splits yes no crossed)) :=
  ⟨⟨.inr (.inl rfl), hyes, hno⟩, nofun, nofun, fun _ => rfl, nofun, nofun, fun _ => ⟨yes, no, by rw [← hs]; rfl⟩, hq⟩

end

theorem catches_mark {o : Outline part} (hf : Marks f o p a n e) :
    ∀ c ∈ o.catches n, (f c).around = p.loops ∧ (f c).clause = some a ∧ (f c).kind = .catches := by
  induction o generalizing n with
  | clause body rest _ ih =>
    simp only [Marks, marks, along_cons, along_append, length_marks] at hf
    refine forall_mem_cons.2 ⟨?_, ih hf.2.2⟩
    rw [hf.1]
    exact ⟨rfl, rfl, rfl⟩
  | _ => rintro _ ⟨⟩

theorem nested_marks {o : Outline part} (hs : p.scope.isSome = part.isYul) (hp : p.Inside f)
    (he : Exits f p.loops p.clause e)
    (ha : part = .clauses → (f a).kind = .tries ∧ (f a).scope = none ∧ (f a).clause = p.clause ∧
      ∃ cs, (f a).lead = .tries cs e) (hf : Marks f o p a n e) :
    Along (Nested f) n (o.marks p a n e) := by
  induction o generalizing p a n e with
  | skip | noClause => trivial
  | seq s t ihs iht =>
    simp only [Marks, marks, along_append, length_marks] at hf ⊢
    exact ⟨ihs hs hp (exits_before hf.2 he) (by simp) hf.1, iht hs hp he (by simp) hf.2⟩
  | node kind simple =>
    exact ⟨nested_goes hp he (NodeKind.ne_of_isSimple simple), trivial⟩
  | branch early yes no ihy ihn =>
    cases early <;> simp only [Marks, marks, along_cons, along_append, length_marks] at hf ⊢
    · obtain ⟨-, hyes, hno, hstop, -⟩ := hf
      have hend := exits_flows (follows_of_eq hstop (by decide))
      exact ⟨nested_branch hp hyes hno hstop, ihy hs hp hend (by simp) hyes, ihn hs hp hend (by simp) hno,
        nested_goes hp he (by decide), trivial⟩
    · obtain ⟨-, hstop, hyes, hno⟩ := hf
      have hend := exits_flows (follows_of_eq hstop (by decide))
      exact ⟨nested_branch hp hyes hno hstop, nested_goes hp he (by decide), ihy hs hp hend (by simp) hyes,
        ihn hs hp hend (by simp) hno⟩
  | loop late body ih =>
    simp only [Marks, marks, along_cons, along_append, length_marks] at hf ⊢
    obtain ⟨hstart, hhead, hbody, hstop, -⟩ := hf
    have hq := encloses_inLoop hstart hstop (by rintro _ ⟨⟩; exact ⟨_, hhead⟩)
    have hc := follows_of_eq hhead (by decide)
    have hfirst := follows_getD hbody hc
    refine ⟨nested_startLoop hq ?_, nested_loopBranch hs hq hfirst (follows_of_eq hstop (by decide)),
      ih hs hq (exits_flows hc) (by simp) hbody, nested_endLoop hq he, trivial⟩
    cases late
    · exact exits_flows hc
    · exact exits_flows hfirst
  | forLoop tested stepped init round ihi ihr =>
    cases tested <;> simp only [Marks, marks, along_cons, along_append, length_marks] at hf ⊢
    · obtain ⟨hstart, hstop, hinit, hround⟩ := hf
      have hq := encloses_inLoop hstart hstop (by simp)
      have hagain : Follows f (f n).loops p.clause n := by constructor <;> simp [Enters, hstart]
      rw [hstart] at hagain
      refine ⟨⟨⟨.inr (.inr ⟨rfl, by rintro _ ⟨⟩; rfl⟩), follows_getD hround hagain, follows_of_eq hstop (by decide)⟩,
        fun _ => rfl, ?_, ?_, ?_, ?_, ?_, hq⟩, nested_endLoop hq he,
        ihi hs hp (exits_flows (follows_start hstart)) ?_ hinit, ihr hs hq (exits_flows hagain) ?_ hround⟩ <;> rintro ⟨⟩
    · obtain ⟨hstart, hstop, hinit, hhead, hround⟩ := hf
      have hq := encloses_inLoop hstart hstop (by rintro _ ⟨⟩; exact ⟨_, hhead⟩)
      have hc := follows_of_eq hhead (by decide)
      exact ⟨nested_startLoop hq (exits_flows hc), nested_endLoop hq he,
        ihi hs hp (exits_flows (follows_start hstart)) (by simp) hinit,
        nested_loopBranch hs hq (follows_getD hround hc) (follows_of_eq hstop (by decide)),
        ihr hs hq (exits_flows hc) (by simp) hround⟩
  | yulLoop init round ihi ihr =>
    simp only [Marks, marks, along_cons, along_append, length_marks] at hf ⊢
    obtain ⟨hstart, hstop, hinit, hhead, hround⟩ := hf
    have hq := encloses_inLoop hstart hstop (by rintro _ ⟨⟩; exact ⟨_, hhead⟩)
    have hc := follows_of_eq hhead (by decide)
    exact ⟨nested_startLoop hq (exits_flows (follows_getD hinit hc)), nested_endLoop hq he, ihi hs hq (exits_flows hc) (by simp) hinit,
      nested_loopBranch hs hq (follows_getD hround hc) (follows_of_eq hstop (by decide)), ihr hs hq (exits_flows hc) (by simp) hround⟩
  | within scope body ih => exact ih rfl (fun l hl => { hp l hl with plain := by simp }) he (by simp) hf
  | tries clauses ih =>
    have hscope : p.scope = none := by simpa [Part.isYul] using hs
    refine ⟨⟨⟨rfl, he, ?_⟩, ?_, ?_, ?_, fun _ => ⟨_, _, rfl⟩, ?_, ?_, hp⟩, ih hs hp he (fun _ => ?_) hf.2⟩
    · exact catches_mark hf.2
    any_goals rintro ⟨⟩
    · rw [hf.1]
      exact ⟨rfl, hscope, rfl, _, rfl⟩
  | clause body rest ihb ihr =>
    simp only [Marks, marks, along_cons, along_append, length_marks] at hf ⊢
    obtain ⟨-, hbody, hrest⟩ := hf
    obtain ⟨hkind, hscope, hclause, cs, hlead⟩ := ha rfl
    have hjoin : Exits f p.loops (some a) (.joins a e.next?) := by
      refine ⟨rfl, hkind, hscope, cs, e, hlead, rfl, ?_⟩
      rw [hclause]
      cases e with
      | flows next => exact he.2
      | joins t next => rintro _ ⟨⟩
    exact ⟨nested_goes hp (exits_before hbody hjoin) (by decide), ihb hs hp hjoin (by simp) hbody,
      ihr hs hp he (fun _ => ⟨hkind, hscope, hclause, cs, hlead⟩) hrest⟩

theorem nested_mark (o : Outline (.code false)) (hu : u ≤ o.size) : Nested o.mark u (o.mark u) := by
  have hmark := (along_layout (o := o) (P := fun u m => o.mark u = m)).2 fun _ _ => rfl
  have hnone : Exits o.mark [] none (.flows none) := ⟨fun _ => rfl, nofun⟩
  have hfirst := exits_before (p := {}) hmark.2 hnone
  refine along_layout.1 ⟨nested_goes nofun ?_ (by decide), nested_marks rfl nofun hnone nofun hmark.2⟩ u hu
  cases hv : o.first? 1 <;> rwa [hv] at hfirst

/-! ## Ways through code -/

/-- A clause belongs to a call before it. -/
theorem clause_marks (o : Outline part) (ha : a < n) (hp : p.clause.elim 0 (· + 1) ≤ n) :
    Along (fun u m => m.clause.elim 0 (· + 1) ≤ u) n (o.marks p a n e) := by
  induction o generalizing p a n e with
  | seq s t ihs iht =>
    have hlast := last_cases s a n
    simp (disch := omega) [marks, ihs, iht]
  | branch early _ _ ihy ihn => cases early <;> simp (disch := omega) [marks, ihy, ihn] <;> omega
  | forLoop tested _ _ _ ihi ihr =>
    cases tested <;> simp (disch := grind) [marks, ihi, ihr] <;> omega
  | _ => simp (disch := grind) [marks, *] <;> omega

variable {R : Nat → Prop}

theorem reach_exit {o : Outline part} (hstep : Along (fun u m => R u → ∀ v ∈ m.lead.sons 0, R v) n (o.marks p a n e))
    (hfirst : ∀ v ∈ (e.before (o.first? n)).sons 0, R v) :
    ∀ v ∈ e.sons 0, R v := by
  induction o generalizing p a n e with
  | skip | noClause | clause _ _ => exact hfirst
  | seq s t ihs iht =>
    simp only [marks, along_append, length_marks] at hstep
    rw [first?, Exit.before_or] at hfirst
    exact iht hstep.2 (ihs hstep.1 hfirst)
  | node kind simple => exact hstep.1 (hfirst n (.head _))
  | within scope body ih => exact ih hstep hfirst
  | branch early yes no ihy =>
    cases early <;> simp only [marks, along_cons, along_append, length_marks] at hstep
    · have hyes := (Lead.forall_splits.1 (hstep.1 (hfirst n (.head _)))).1
      exact hstep.2.2.2.1 (ihy hstep.2.1 (Exit.forall_before hyes) _ (.head _))
    · have hyes := (Lead.forall_splits.1 (hstep.1 (hfirst n (.head _)))).1
      exact hstep.2.1 (ihy hstep.2.2.1 (Exit.forall_before hyes) _ (.head _))
  | loop late body ih =>
    simp only [marks, along_cons, along_append, length_marks] at hstep
    obtain ⟨hstart, hsplit, hbody, hstop, -⟩ := hstep
    have htarget := hstart (hfirst n (.head _)) _ (.head _)
    -- Where the condition comes late, the body is passed first.
    have hc : R (n + 1) := by
      cases late
      · exact htarget
      · exact ih hbody (Exit.forall_before htarget) _ (.head _)
    exact hstop (Lead.forall_splits.1 (hsplit hc)).2
  | forLoop tested stepped init round ihi =>
    have hi : R ((init.first? (n + 2)).getD n) := hfirst _ (.head _)
    cases tested <;> simp only [marks, along_cons, along_append, length_marks] at hstep
    · have hn := ihi hstep.2.2.1 (Exit.forall_before hi) _ (.head _)
      exact hstep.2.1 (Lead.forall_splits.1 (hstep.1 hn)).2
    · have hn := ihi hstep.2.2.1 (Exit.forall_before hi) _ (.head _)
      exact hstep.2.1 (Lead.forall_splits.1 (hstep.2.2.2.1 (hstep.1 hn _ (.head _)))).2
  | yulLoop init round ihi =>
    simp only [marks, along_cons, along_append, length_marks] at hstep
    have hi := hstep.1 (hfirst n (.head _)) _ (.head _)
    have hc := ihi hstep.2.2.1 (Exit.forall_before hi) _ (.head _)
    exact hstep.2.1 (Lead.forall_splits.1 (hstep.2.2.2.1 hc)).2
  | tries clauses => exact fun v hv => hstep.1 (hfirst n (.head _)) v (mem_append_right _ hv)

theorem isJump_mark (h : kind.jumps = false) : (p.mark kind lead).isJump = false := by
  simp [Mark.isJump, h]

/-- A way that goes on at all nodes from `k` on, and at all nodes before that are not jumps, leads from the jump `k` out of a loop
to the ends of the loops around it, unless it has to leave a clause. -/
theorem leaves_marks (o : Outline part) (hp : ∀ t ∈ p.clause, t < b) (hl : ∀ l ∈ p.loops, ∀ t ∈ (f l.stop).clause, t < b)
    (hlow : b ≤ n) (ha : part = .clauses → b ≤ a ∧ a < n) (hf : Marks f o p a n e)
    (hstep : Along (fun u m => k ≤ u ∨ m.isJump = false → R u → ∀ v ∈ m.lead.sons 0, R v) n (o.marks p a n e))
    (hout : k < n + o.size → (∀ v ∈ e.sons 0, R v) → ∀ l ∈ p.loops, (f l.stop).clause = p.clause → R l.stop) :
    Along (fun u m => u = k → m.kind = .breaks → R u → ∀ l ∈ m.loops, (f l.stop).clause = m.clause → R l.stop) n
      (o.marks p a n e) := by
  induction o generalizing p a n e b with
  | skip | noClause => trivial
  | node kind simple => exact ⟨fun h _ hR => hout (by simp [size, h]) (hstep.1 (.inl (Nat.le_of_eq h.symm)) hR), trivial⟩
  | within scope body ih => exact ih (p := { p with scope := some scope }) hp hl hlow (by simp) hf hstep hout
  | seq s t ihs iht =>
    simp only [Marks, marks, size, along_append, length_marks] at hf hstep hout ⊢
    refine ⟨ihs hp hl hlow (by simp) hf.1 hstep.1 fun hk h => hout (by omega) ?_,
      iht hp hl (by omega) (by simp) hf.2 hstep.2 fun _ => hout (by omega)⟩
    exact reach_exit (hstep.2.imp fun v m hv _ hm => hm (.inl (by omega))) h
  | branch early yes no ihy ihn =>
    cases early <;> simp only [Marks, marks, size, along_cons, along_append, length_marks] at hf hstep hout ⊢
    · obtain ⟨-, hyes, hno, hstop, -⟩ := hstep
      have hend := hstop (.inr (isJump_mark rfl))
      refine ⟨?_, ihy hp hl (by omega) (by simp) hf.2.1 hyes fun _ h => hout (by omega) (hend (h _ (.head _))),
        ihn hp hl (by omega) (by simp) hf.2.2.1 hno fun _ h => hout (by omega) (hend (h _ (.head _))), ?_, trivial⟩ <;> rintro _ ⟨⟩
    · obtain ⟨-, hstop, hyes, hno⟩ := hstep
      have hend := hstop (.inr (isJump_mark rfl))
      refine ⟨?_, ?_, ihy hp hl (by omega) (by simp) hf.2.2.1 hyes fun _ h => hout (by omega) (hend (h _ (.head _))),
        ihn hp hl (by omega) (by simp) hf.2.2.2 hno fun _ h => hout (by omega) (hend (h _ (.head _)))⟩ <;> rintro _ ⟨⟩
  | loop late body ih =>
    simp only [Marks, marks, size, along_cons, along_append, length_marks] at hf hstep hout ⊢
    obtain ⟨-, -, hfbody, hfstop, -⟩ := hf
    obtain ⟨-, hsplit, hbody, hstop, -⟩ := hstep
    have hs := fun h => (Lead.forall_splits.1 (hsplit (.inr (isJump_mark rfl)) h)).2
    have hend := hstop (.inr (isJump_mark rfl))
    refine ⟨?_, ?_, ih hp (forall_mem_cons.2 ⟨by rw [hfstop]; exact hp, hl⟩) (by omega) (by simp) hfbody hbody fun _ h =>
      forall_mem_cons.2 ⟨fun _ => hs (h _ (.head _)), hout (by omega) (hend (hs (h _ (.head _))))⟩, ?_, trivial⟩ <;> rintro _ ⟨⟩
  | forLoop tested stepped init round ihi ihr =>
    cases tested <;> simp only [Marks, marks, size, along_cons, along_append, length_marks] at hf hstep hout ⊢
    · obtain ⟨-, hfstop, hfinit, hfround⟩ := hf
      obtain ⟨hsplit, hstop, hinit, hround⟩ := hstep
      have hs := fun h => (Lead.forall_splits.1 (hsplit (.inr (isJump_mark rfl)) h)).2
      have hend := hstop (.inr (isJump_mark rfl))
      refine ⟨?_, ?_, ihi hp hl (by omega) (by simp) hfinit hinit fun _ h => hout (by omega) (hend (hs (h _ (.head _)))),
        ihr hp (forall_mem_cons.2 ⟨by rw [hfstop]; exact hp, hl⟩) (by omega) (by simp) hfround hround fun _ h =>
          forall_mem_cons.2 ⟨fun _ => hs (h _ (.head _)), hout (by omega) (hend (hs (h _ (.head _))))⟩⟩ <;> rintro _ ⟨⟩
    · obtain ⟨-, hfstop, hfinit, -, hfround⟩ := hf
      obtain ⟨hstart, hstop, hinit, hsplit, hround⟩ := hstep
      have hs := fun h => (Lead.forall_splits.1 (hsplit (.inr (isJump_mark rfl)) h)).2
      have hend := hstop (.inr (isJump_mark rfl))
      refine ⟨?_, ?_, ihi hp hl (by omega) (by simp) hfinit hinit fun _ h => hout (by omega) (hend (hs ?_)), ?_,
        ihr hp (forall_mem_cons.2 ⟨by rw [hfstop]; exact hp, hl⟩) (by omega) (by simp) hfround hround fun _ h =>
          forall_mem_cons.2 ⟨fun _ => hs (h _ (.head _)), hout (by omega) (hend (hs (h _ (.head _))))⟩⟩
      · rintro _ ⟨⟩
      · rintro _ ⟨⟩
      · exact hstart (.inr (isJump_mark rfl)) (h _ (.head _)) _ (.head _)
      · rintro _ ⟨⟩
  | yulLoop init round ihi ihr =>
    simp only [Marks, marks, size, along_cons, along_append, length_marks] at hf hstep hout ⊢
    obtain ⟨-, hfstop, hfinit, -, hfround⟩ := hf
    obtain ⟨-, hstop, hinit, hsplit, hround⟩ := hstep
    have hs := fun h => (Lead.forall_splits.1 (hsplit (.inr (isJump_mark rfl)) h)).2
    have hend := hstop (.inr (isJump_mark rfl))
    refine ⟨?_, ?_, ihi hp (forall_mem_cons.2 ⟨by rw [hfstop]; exact hp, hl⟩) (by omega) (by simp) hfinit hinit fun _ h =>
      forall_mem_cons.2 ⟨fun _ => hs (h _ (.head _)), hout (by omega) (hend (hs (h _ (.head _))))⟩,
      ?_, ihr hp (forall_mem_cons.2 ⟨by rw [hfstop]; exact hp, hl⟩) (by omega) (by simp) hfround hround fun _ h =>
        forall_mem_cons.2 ⟨fun _ => hs (h _ (.head _)), hout (by omega) (hend (hs (h _ (.head _))))⟩⟩ <;> rintro _ ⟨⟩
  | tries clauses ih =>
    rw [size] at hout
    exact ⟨by rintro _ ⟨⟩, ih hp hl (by omega) (fun _ => ⟨hlow, by omega⟩) hf.2 hstep.2 fun _ => hout (by omega)⟩
  | clause body rest ihb ihr =>
    simp only [Marks, marks, size, along_cons, along_append, length_marks] at hf hstep hout ⊢
    obtain ⟨hle, hlt⟩ := ha rfl
    refine ⟨by rintro _ ⟨⟩, ihb (p := { p with clause := some a }) (b := n) (by rintro _ ⟨⟩; exact hlt)
      (fun l hmem t ht => by have := hl l hmem t ht; omega) (by omega) (by simp) hf.2.1 hstep.2.1 fun _ _ l hmem hc => ?_,
      ihr hp hl (by omega) (fun _ => ⟨hle, by omega⟩) hf.2.2 hstep.2.2 fun _ => hout (by omega)⟩
    -- The call of the clause comes after the loops around it.
    have := hl l hmem a hc
    omega

end Outline

end ContractAudit
