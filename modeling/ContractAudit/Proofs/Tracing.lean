import ContractAudit.Proofs.Gathering
import ContractAudit.Proofs.Names

/-! # Versions along the walk

The versions under the key of a variable are followed through the operations of a node, in the order in which they take
effect, and from node to node. Each read sees the last version that was made before it.
-/

namespace ContractAudit

open Ir Instr List Analysis Option

variable {i j : Instr}

/-- An operation makes a version, or reads it. -/
def Ir.Instr.Involves (i : Instr) (k : Nat) : Prop := i.made? = some k ∨ i.op.isPhi = false ∧ .version k ∈ i.op.reads

/-- A version of a variable that goes by its name, and is not one of what it stands for. -/
def Analysis.isVersionOf (a : Analysis) (v : VariableId) (k : Nat) : Bool :=
  (a.store.version k).variable_ == v && a.key k == a.program.keyOf { variable_ := v }

namespace Ir

theorem Instr.plain_of_isPhi (h : i.op.isPhi = false) : i.isPartNote = false ∧ i.isMeeting = false := by
  obtain ⟨op, x⟩ := i
  cases op <;> first | exact ⟨rfl, rfl⟩ | cases h

theorem flowing_cons (hi : i.isPartNote = false) {more : List Instr} : flowing (i :: more) = i :: flowing more := by
  cases more <;> simp [flowing, hi]

theorem flowing_note (hi : i.isPartNote = true) (hj : j.isPartNote = false) {more : List Instr} :
    flowing (i :: j :: more) = j :: i :: flowing more := by
  simp [flowing, hi, hj]

theorem flowing_append_note (hj : j.isPartNote = true) {ops : List Instr} : flowing (ops ++ [j]) = flowing ops := by
  fun_induction flowing ops with
  | case1 => simp [flowing, hj]
  | case2 i hi => simp [flowing, hi, hj]
  | case3 i hi => simp [flowing, hi, hj]
  | case4 i i' rest hi hi' ih => simpa [flowing, hi, hi'] using ih
  | case5 i i' rest hi hi' ih => simpa [flowing, hi, hi'] using ih
  | case6 i i' rest hi ih => simpa [flowing, hi] using ih

theorem lastMade_eq_none_of_one (h : ∀ k, i.made? = some k → q k = false) : lastMade q [i] = none :=
  lastMade_eq_none.2 (by simpa using h)

theorem lastMade_congr (h : xs.map made? = ys.map made?) :
    lastMade q xs = lastMade q ys := by
  have hmap : ∀ ops : List Instr, lastMade q ops = ((ops.map made?).filterMap (Option.filter q)).getLast? := by
    intro ops
    rw [filterMap_map]
    rfl
  rw [hmap, hmap, h]

end Ir

namespace Rename

variable {a b a' : Analysis}

/-! ## Through a node -/

/-- Operations take effect one after the other, as far as one key goes. -/
structure Follows (q : Nat → Bool) (K : Key) (ops : List Instr) (σ τ : State) : Prop where
  current : τ.1.current K = (lastMade q ops).or (σ.1.current K)
  reads : ∀ xs i ys k, ops = xs ++ i :: ys → i.op.isPhi = false → .version k ∈ i.op.reads → q k = true →
    (lastMade q xs).or (σ.1.current K) = some k

theorem Follows.nil (h : τ.1.current K = σ.1.current K) : Follows q K [] σ τ where
  current := by simp [lastMade, h]
  reads xs i ys k heq := by simp at heq

theorem Follows.one (hcurrent : τ.1.current K = (lastMade q [i]).or (σ.1.current K))
    (hreads : i.op.isPhi = false → ∀ k, .version k ∈ i.op.reads → q k = true → σ.1.current K = some k) :
    Follows q K [i] σ τ where
  current := hcurrent
  reads xs i' ys k heq hphi hk hq := by
    cases xs with
    | nil =>
      cases heq
      exact hreads hphi k hk hq
    | cons x xs => simp at heq

theorem Follows.append (h : Follows q K ops σ τ) (h' : Follows q K ops' τ υ) : Follows q K (ops ++ ops') σ υ where
  current := by rw [h'.current, h.current, lastMade_append, Option.or_assoc]
  reads xs i ys k heq hphi hk hq := by
    rcases append_eq_append_cons heq with ⟨zs, rfl⟩ | ⟨zs, rfl, hzs⟩
    · exact h.reads xs i zs k rfl hphi hk hq
    · rw [lastMade_append, Option.or_assoc, ← h.current]
      exact h'.reads zs i ys k hzs hphi hk hq

/-- A test for versions agrees with a key on the versions of some operations. -/
def Agrees (q : Nat → Bool) (b : Analysis) (K : Key) (ops : List Instr) : Prop :=
  ∀ i ∈ ops, ∀ k, i.Involves k → (q k = true ↔ b.key k = K)

theorem Renews.current {j : Nat} (h : Renews σ j τ) (hi : i.made? = some σ.2.store.versions.size)
    (hb : Grows f τ.2 b) (hq : q σ.2.store.versions.size = true ↔ b.key σ.2.store.versions.size = K) :
    τ.1.current K = (lastMade q [i]).or (σ.1.current K) := by
  have hsize := size_renews h
  rw [hb.key (by omega)] at hq
  obtain ⟨l, -, rfl⟩ := h
  rw [key_addVersion, if_pos rfl, Program.keyOf_next] at hq
  rw [Naming.current_put]
  by_cases hK : K = σ.2.key j
  · rw [if_pos hK, lastMade_one hi (hq.2 hK.symm), some_or]
  · have hno : q σ.2.store.versions.size = false := Bool.eq_false_iff.2 fun hq' => hK (hq.1 hq').symm
    rw [if_neg hK, lastMade_eq_none_of_one (by simpa [hi] using hno), none_or]

theorem Sees.current {op : Op} (h : Sees σ op) (ht : Tabled σ) (hb : Grows f σ.2 b)
    (hk : .version k ∈ op.reads) (hK : b.key k = K) : σ.1.current K = some k := by
  have hcurrent := h k hk
  rwa [← hb.key (ht.current _ k hcurrent).1, hK] at hcurrent

theorem Step.flowing_append (h : Step f n new σ τ) {more : List Instr} :
    flowing (new ++ more) = flowing new ++ flowing more := by
  cases h with
  | enters _ => rfl
  | keep hphi _ _ | write hphi _ _ _ _ =>
    have hi := (plain_of_isPhi hphi).1
    rw [singleton_append, flowing_cons hi, flowing_cons hi]
    rfl
  | part hphi _ _ _ _ _ =>
    have hi := (plain_of_isPhi hphi).1
    rw [cons_append, singleton_append, flowing_note rfl hi, flowing_note rfl hi]
    rfl
  | callback _ _ => rw [singleton_append, flowing_cons rfl]; rfl

theorem Step.follows (h : Step f n new σ τ) (ht : Tabled σ) (hK : Shut f K σ) (hb : Grows f τ.2 b)
    (hq : Agrees q b K new) : Follows q K (flowing new) σ τ := by
  have hgrows := h.grows.trans hb
  have hreads {i : Instr} (hi : i ∈ new) (hsees : Sees σ i.op) (hphi : i.op.isPhi = false) (k : Nat)
      (hk : .version k ∈ i.op.reads) (hqk : q k = true) : σ.1.current K = some k :=
    hsees.current ht hgrows hk ((hq i hi k (.inr ⟨hphi, hk⟩)).1 hqk)
  cases h with
  | enters he => exact .nil (he.current_eq hK)
  | @keep _ i hphi hsees hlv =>
    rw [flowing_cons (plain_of_isPhi hphi).1]
    refine .one ?_ (hreads (by simp) hsees)
    rw [lastMade_eq_none_of_one fun k hk => (hlv k (made?_eq_some.1 hk)).elim]
    rfl
  | @write _ τ i j hphi hsees _ hr hlv =>
    rw [flowing_cons (plain_of_isPhi hphi).1]
    have hmade := made?_eq_some.2 hlv
    refine .one ?_ (hreads (by simp) hsees)
    exact hr.current hmade (grows_adding.trans hb) (hq i (by simp) _ (.inl hmade))
  | @part _ τ υ i j r hphi hsees _ hr hlv hquiet =>
    rw [flowing_note rfl (plain_of_isPhi hphi).1]
    -- The operation reads before the version is made.
    have hread : Follows q K [i] σ σ := by
      refine .one ?_ (hreads (by simp) hsees)
      rw [lastMade_eq_none_of_one fun k hk => by simp [made?_eq_some, hlv] at hk, none_or]
    refine hread.append (.one ?_ fun hno => by cases hno)
    have hτ : Grows f τ.2 b :=
      grows_adding.trans (hquiet.grows.trans (grows_adding.trans hb))
    have hmade : (partPhi n σ.2.store.versions.size j).made? = some σ.2.store.versions.size := rfl
    exact (hquiet.current K).trans (hr.current hmade hτ (hq _ (by simp) _ (.inl hmade)))
  | @callback _ τ j c _ hr =>
    refine .one ?_ fun hno => by cases hno
    exact hr.current rfl (grows_adding.trans hb) (hq _ mem_cons_self _ (.inl rfl))

theorem Steps.follows (h : Steps f n new σ τ) (ht : Tabled σ) (hK : Shut f K σ) (hb : Grows f τ.2 b)
    (hq : Agrees q b K new) : Follows q K (flowing new) σ τ := by
  induction h with
  | nil => exact .nil rfl
  | @cons new more σ τ υ hs hrest ih =>
    rw [hs.flowing_append]
    refine (hs.follows ht hK (hrest.grows.trans hb) fun i hi => hq i (by simp [hi])).append ?_
    exact ih (stable_tabled.step ht hs) (stable_shut.step hK hs) hb fun i hi => hq i (by simp [hi])

theorem RenewsAll.current (h : RenewsAll old new σ τ) (hb : Grows f τ.2 b) (hq : Agrees q b K new) :
    τ.1.current K = (lastMade q new).or (σ.1.current K) := by
  induction h with
  | nil => rfl
  | @snoc old new σ τ υ j nodes hall hr ih =>
    have hτ : Grows f τ.2 b := hr.grows.trans hb
    have hmade : made? { op := .phi (.version τ.2.store.versions.size) [] nodes } = some τ.2.store.versions.size := rfl
    rw [hr.current hmade hb (hq _ (by simp) _ (.inl hmade)), ih hτ fun i hi => hq i (by simp [hi]), lastMade_append,
      Option.or_assoc]

/-! ## A node as a whole -/

theorem Steps.shape (h : Steps f n new σ τ) : ∀ i ∈ new, i.op.isPhi = false ∨ (∃ k j, i = partPhi n k j) ∨
    ∃ k vs c u, i.op = .phiCallback k vs c u := by
  induction h with
  | nil => simp
  | @cons new more σ τ υ hs _ ih =>
    refine forall_mem_append.2 ⟨?_, ih⟩
    cases hs with
    | enters _ => simp
    | keep hphi _ _ | write hphi _ _ _ _ => exact forall_mem_singleton.2 (.inl hphi)
    | part hphi _ _ _ _ _ => exact forall_mem_cons.2 ⟨.inr (.inl ⟨_, _, rfl⟩), forall_mem_singleton.2 (.inl hphi)⟩
    | callback _ _ => exact forall_mem_singleton.2 (.inr (.inr ⟨_, _, _, _, rfl⟩))

theorem Steps.not_meeting (h : Steps f n new σ τ) : ∀ i ∈ new, i.isMeeting = false := by
  intro i hi
  rcases h.shape i hi with hphi | ⟨k, j, rfl⟩ | ⟨k, vs, c, u, hop⟩
  · exact (plain_of_isPhi hphi).2
  · rfl
  · simp [isMeeting, hop]

theorem RenewsAll.meeting (h : RenewsAll old new σ τ) (hold : ∀ i ∈ old, IsMeeting i) : ∀ i ∈ new, i.isMeeting = true := by
  induction h with
  | nil => simp
  | @snoc old new σ τ υ j nodes _ _ ih =>
    obtain ⟨hprev, hlast⟩ := forall_mem_append.1 hold
    refine forall_mem_append.2 ⟨ih hprev, forall_mem_singleton.2 ?_⟩
    obtain ⟨k, nodes', heq, hne⟩ := hlast _ (.head _)
    cases heq
    simpa [isMeeting] using hne

theorem acts_of_ssa (hssa : b.ssa f n = phis ++ new) (hphis : ∀ i ∈ phis, i.isMeeting = true)
    (hnew : ∀ i ∈ new, i.isMeeting = false) : b.meets f n = phis ∧ b.body f n = flowing new := by
  have hkept : new.filter isMeeting = [] := filter_eq_nil_iff.2 fun i hi => by simp [hnew i hi]
  have hdropped : phis.filter (fun i => !i.isMeeting) = [] := filter_eq_nil_iff.2 fun i hi => by simp [hphis i hi]
  constructor
  · rw [meets, hssa, filter_append, filter_eq_self.2 hphis, hkept, append_nil]
  · rw [body, hssa, filter_append, hdropped, nil_append, filter_eq_self.2 fun i hi => by simp [hnew i hi]]

/-- The tables after a node have the last version that it makes, and its reads see the last one before them. -/
theorem Converts.traced (hr : Ready f e σ) (hvis : n ∉ σ.1.visited) (hK : Shut f K σ) (h : Converts f n σ τ)
    (hb : Grows f τ.2 b) (hq : Agrees q b K (τ.2.ssa f n)) :
    τ.1.current K = (lastMade q (τ.2.acts f n)).or (σ.1.current K) ∧
      ∀ xs i ys k, τ.2.body f n = xs ++ i :: ys → i.op.isPhi = false → .version k ∈ i.op.reads → q k = true →
        (lastMade q (τ.2.meets f n ++ xs)).or (σ.1.current K) = some k := by
  obtain ⟨phis, new, υ, υ', hall, hsets, hsteps, hssa⟩ := h.steps hr.tabled (hr.prepared.plain n)
  obtain ⟨hmeets, hbody⟩ := acts_of_ssa hssa (hall.meeting (hr.pristine n hvis)) hsteps.not_meeting
  rw [hssa] at hq
  have hυ' : Grows f υ'.2 b := hsteps.grows.trans hb
  have hphis := hall.current (hsets.grows.trans hυ') fun i hi => hq i (by simp [hi])
  have hfollows := hsteps.follows (stable_tabled.meeting hr.tabled.entering hall hsets)
    (stable_shut.meeting hK.entering hall hsets) hb fun i hi => hq i (by simp [hi])
  -- The tables at the start of the other operations.
  have hstart : υ'.1.current K = (lastMade q phis).or (σ.1.current K) := by
    rw [hsets.naming, hphis]
    cases K <;> rfl
  refine ⟨?_, fun xs i ys k heq hphi hk hqk => ?_⟩
  · rw [hfollows.current, hstart, Analysis.acts, hmeets, hbody, lastMade_append, Option.or_assoc]
  · rw [hbody] at heq
    rw [hmeets, lastMade_append, Option.or_assoc, ← hstart]
    exact hfollows.reads xs i ys k heq hphi hk hqk

/-! ## After the walk -/

/-- Versions that are noted for one node come from a version. -/
def Noted (f : FunctionId) (a : Analysis) : Prop := ∀ n, ∀ i ∈ a.ssa f n, i.isPartNote = true → i.op.reads ≠ []

/-- Two analyses let the nodes of a function do the same, as far as versions go. -/
def SameActs (f : FunctionId) (a b : Analysis) : Prop :=
  ∀ n, b.body f n = a.body f n ∧ (b.meets f n).map made? = (a.meets f n).map made?

theorem Steps.noted (h : Steps f n new σ τ) : ∀ i ∈ new, i.isPartNote = true → i.op.reads ≠ [] := by
  intro i hi hnote
  rcases h.shape i hi with hphi | ⟨k, j, rfl⟩ | ⟨k, vs, c, u, hop⟩
  · rw [(plain_of_isPhi hphi).1] at hnote
    cases hnote
  · simp [partPhi, Op.reads]
  · simp [hop, isPartNote] at hnote

theorem Instr.isPartNote_of_isMeeting (h : i.isMeeting = true) : i.isPartNote = false := by
  unfold isMeeting at h
  unfold isPartNote
  split at h
  · simpa using h
  · cases h

theorem Noted.converts (hr : Ready f e σ) (hvis : n ∉ σ.1.visited) (h : Noted f σ.2) (hc : Converts f n σ τ) :
    Noted f τ.2 := by
  obtain ⟨-, -, -, hssa⟩ := hc.frame hr
  obtain ⟨phis, new, υ, υ', hall, -, hsteps, hn⟩ := hc.steps hr.tabled (hr.prepared.plain n)
  intro m i hi hnote
  by_cases hm : m = n
  · rw [hm, hn] at hi
    rcases mem_append.1 hi with hi | hi
    · rw [Instr.isPartNote_of_isMeeting (hall.meeting (hr.pristine n hvis) i hi)] at hnote
      cases hnote
    · exact hsteps.noted i hi hnote
  · rw [hssa m hm] at hi
    exact h m i hi hnote

theorem Noted.length_ne (h : Noted f a) (hi : ⟨.phi (.version r) [] nodes, x⟩ ∈ a.ssa f n) : nodes.length ≠ 1 :=
  fun hone => h n _ hi (by simp [isPartNote, hone]) rfl

theorem Amended.sameActs (h : Amended Q n ops ops')
    (hn : ∀ r nodes x, ⟨.phi (.version r) [] nodes, x⟩ ∈ ops → nodes.length ≠ 1) :
    flowing (ops'.filter fun i => !i.isMeeting) = flowing (ops.filter fun i => !i.isMeeting) ∧
      (ops'.filter isMeeting).map made? = (ops.filter isMeeting).map made? := by
  cases h with
  | same => exact ⟨rfl, rfl⟩
  | added w j =>
    have hnote : isPartNote { op := .phi w [.version j] [n] } = true := rfl
    have hmeeting : isMeeting { op := .phi w [.version j] [n] } = false := rfl
    simp [hmeeting, flowing_append_note hnote]
  | filled values hk _ =>
    have hmeeting := hn _ _ _ (mem_of_getElem? hk)
    rw [← filterMap_eq_filter, ← filterMap_eq_filter, map_filterMap,
      filterMap_modify hk (by simp [Option.guard, isMeeting, hmeeting]),
      filterMap_modify hk (by simp [isMeeting, hmeeting, made?, Op.lvalue?]),
      ← map_filterMap]
    exact ⟨rfl, rfl⟩

theorem Amend.sameActs (hn : Noted f σ.2) (h : Amend f P σ τ) : SameActs f σ.2 τ.2 ∧ Noted f τ.2 := by
  refine ⟨fun m => h.amended.sameActs fun _ _ _ => hn.length_ne, fun m i hi hnote => ?_⟩
  rcases h.amended.mem hi with hi | ⟨w, j, hop⟩ | ⟨r, nodes, values, x, hold, rfl, -⟩
  · exact hn m i hi hnote
  · simp [hop, Op.reads]
  · simp [isPartNote, hn.length_ne hold] at hnote

theorem Amends.sameActs (hn : Noted f σ.2) (h : Amends f P σ τ) : SameActs f σ.2 τ.2 ∧ Noted f τ.2 := by
  induction h with
  | refl => exact ⟨fun _ => ⟨rfl, rfl⟩, hn⟩
  | tail _ hs ih =>
    obtain ⟨hsame, hnoted⟩ := hs.sameActs ih.2
    exact ⟨fun n => ⟨(hsame n).1.trans (ih.1 n).1, (hsame n).2.trans (ih.1 n).2⟩, hnoted⟩

theorem SameActs.lastMade (h : SameActs f a b) (n : NodeId) (xs : List Instr) :
    lastMade q (b.meets f n ++ xs) = lastMade q (a.meets f n ++ xs) :=
  lastMade_congr (by rw [map_append, map_append, (h n).2])

/-! ## Whose versions are involved -/

/-- All versions of operations are of variables of a kind. -/
def Involved (Q : VariableId → Prop) (b : Analysis) (ops : List Instr) : Prop :=
  ∀ i ∈ ops, ∀ k, i.Involves k → k < b.store.versions.size ∧ Q (b.store.version k).variable_

theorem Involved.grows (h : Involved Q a ops) (hg : Grows f a b) : Involved Q b ops :=
  fun i hi k hk => hg.keeps (h i hi k hk)

theorem Holds.made (h : Holds Q σ) {j : Nat} (hr : Renews σ j τ) (hj : Q (σ.2.store.version j).variable_) :
    σ.2.store.versions.size < τ.2.store.versions.size ∧ Q (τ.2.store.version σ.2.store.versions.size).variable_ := by
  refine h.renews hr hj _ (.inl ⟨σ.2.key j, ?_⟩)
  obtain ⟨l, -, rfl⟩ := hr
  rw [Naming.current_put, if_pos rfl]

theorem Step.involved (h : Step f n new σ τ) (hσ : Holds Q σ) : Involved Q τ.2 new := by
  have hgrows := h.grows (f := f)
  -- What an operation reads is held before it.
  have hsees : ∀ {op : Op} {k : Nat}, Sees σ op → .version k ∈ op.reads → k < τ.2.store.versions.size ∧
      Q (τ.2.store.version k).variable_ := fun hsees hk => hgrows.keeps (hσ _ (.inl ⟨_, hsees _ hk⟩))
  intro i hi k hk
  cases h with
  | enters _ => cases hi
  | keep hphi hop hlv =>
    rw [mem_singleton.1 hi] at hk
    rcases hk with hmade | ⟨-, hread⟩
    · exact (hlv k (made?_eq_some.1 hmade)).elim
    · exact hsees hop hread
  | write hphi hop hj hr hlv =>
    rw [mem_singleton.1 hi] at hk
    rcases hk with hmade | ⟨-, hread⟩
    · rw [made?_eq_some.2 hlv] at hmade
      cases hmade
      exact (hσ.made hr (hσ _ hj).2 :)
    · exact hsees hop hread
  | @part _ τ υ i' j r hphi hop hj hr hlv hq =>
    rcases mem_cons.1 hi with rfl | hi
    · rcases hk with hmade | ⟨hno, -⟩
      · cases hmade
        have hg : Grows f τ.2 υ.2 := grows_adding.trans hq.grows
        exact hg.keeps (hσ.made hr (hσ _ hj).2)
      · cases hno
    · rw [mem_singleton.1 hi] at hk
      rcases hk with hmade | ⟨-, hread⟩
      · rw [made?_eq_some, hlv] at hmade
        cases hmade
      · exact hsees hop hread
  | callback hj hr =>
    rw [mem_singleton.1 hi] at hk
    rcases hk with hmade | ⟨hno, -⟩
    · cases hmade
      exact (hσ.made hr (hσ _ hj).2 :)
    · cases hno

theorem Steps.involved (h : Steps f n new σ τ) (hσ : Holds Q σ) (hQ : Admits Q f σ.2) : Involved Q τ.2 new := by
  induction h with
  | nil => exact fun i hi => by cases hi
  | @cons new more σ τ υ hs hrest ih =>
    exact forall_mem_append.2 ⟨(hs.involved hσ).grows (hrest.grows (f := f)), ih (hσ.step hQ hs) (hQ.grows hs.grows)⟩

theorem RenewsAll.involved (h : RenewsAll old new σ τ) (hσ : Holds Q σ) (hold : Makes Q σ.2 old) : Involved Q τ.2 new := by
  induction h with
  | nil => exact fun i hi => by cases hi
  | @snoc old new σ τ υ j nodes hall hr ih =>
    obtain ⟨hprev, hlast⟩ := forall_mem_append.1 hold
    refine forall_mem_append.2 ⟨(ih hσ hprev).grows (hr.grows (f := 0)), fun i hi k hk => ?_⟩
    rw [mem_singleton.1 hi] at hk
    rcases hk with hmade | ⟨hno, -⟩
    · cases hmade
      exact (hσ.renewsAll hprev hall).made hr ((hall.grows (f := 0)).keeps (hlast _ (.head _) j rfl)).2
    · cases hno

theorem Converts.agrees (hn : NamesApart a f states) (hr : Ready f e σ)
    (hvis : n ∉ σ.1.visited) (hσ : Honest a f states σ) (hp : Promises (Kept a f states) f σ) (h : Converts f n σ τ)
    (hb : Grows f τ.2 b) (hv : Kept a f states v) :
    Agrees (b.isVersionOf v) b (a.program.keyOf { variable_ := v }) (τ.2.ssa f n) := by
  obtain ⟨phis, new, υ, υ', hall, hsets, hsteps, hssa⟩ := h.steps hr.tabled (hr.prepared.plain n)
  have hυ' := hσ.meeting (hp n hvis) hall hsets
  have hinvolved : Involved (Kept a f states) b (phis ++ new) := by
    have hphis : Grows f υ.2 b := hsets.grows.trans (hsteps.grows.trans hb)
    exact forall_mem_append.2 ⟨(hall.involved hσ.holds.entering (hp n hvis)).grows hphis,
      (hsteps.involved hυ'.holds (hυ'.admits hn)).grows hb⟩
  have hprogram : b.program = a.program := (hυ'.grows.trans (hsteps.grows.trans hb)).program
  rw [hssa]
  intro i hi k hk
  obtain ⟨-, hkept⟩ := hinvolved i hi k hk
  rw [isVersionOf, Bool.and_eq_true, beq_iff_eq, beq_iff_eq, hprogram]
  refine ⟨fun h => h.2, fun hkey => ⟨?_, hkey⟩⟩
  rw [key, hprogram] at hkey
  exact Kept.variable_eq hn hkept hv hkey

/-! ## From node to node -/

/-- What the tables have under a key when a node is come to. -/
def startOf (visits : List Visit) (K : Key) (n : NodeId) : Option Nat :=
  (visits.find? fun v => v.node == n).bind fun v => v.before.1.current K

/-- When a node is come to. -/
def placeOf (visits : List Visit) (n : NodeId) : Nat := visits.findIdx fun v => v.node == n

theorem Walks.startOf_placeOf (h : Walks f ms σ t τ) (hr : Ready f e σ) (hσ : σ.1.visited = []) (hv : v ∈ t) {K : Key} :
    startOf t K v.node = v.before.1.current K ∧
      ∀ m ∈ v.before.1.visited, placeOf t m < placeOf t v.node := by
  obtain ⟨t₁, t₂, rfl⟩ := append_of_mem hv
  have hvisited := h.visited_before hr rfl
  rw [hσ, append_nil] at hvisited
  have hnew : ∀ u ∈ t₁, (u.node == v.node) = false := by
    intro u hu
    have hnot := not_mem_of_skips (h.within hr v hv).skips
    rw [hvisited, mem_reverse] at hnot
    exact beq_eq_false_iff_ne.2 fun heq => hnot (heq ▸ mem_map_of_mem hu)
  have hplace : placeOf (t₁ ++ v :: t₂) v.node = t₁.length := by
    rw [placeOf, findIdx_append, findIdx_eq_length_of_false hnew]
    simp [findIdx_cons]
  refine ⟨?_, fun m hm => ?_⟩
  · rw [startOf, find?_append, find?_eq_none.2 fun u hu => by simp [hnew u hu]]
    simp
  · rw [hvisited, mem_reverse] at hm
    obtain ⟨u, hu, rfl⟩ := mem_map.1 hm
    have hlt := findIdx_lt_length_of_exists (p := fun w : Visit => w.node == u.node) ⟨u, hu, by simp⟩
    rw [hplace, placeOf, findIdx_append, if_pos hlt]
    exact hlt

theorem Begun.shut_key (h : Begun f a states σ)
    (hc : Convertible a f e states) (hv : a.Begins f v ∨ a.program.isLocalVariable v = false) :
    Shut f (a.program.keyOf { variable_ := v }) σ := by
  rcases hv with hv | hv
  · obtain ⟨i, hi⟩ := isSome_iff_exists.1 (h.begins v hv)
    rw [Program.keyOf_first (hc.locals v hv)]
    exact .inl ⟨i, hi⟩
  · refine .inr fun w _ _ hname => ?_
    simp [Program.keyOf, hv] at hname

theorem Shut.restored (hσ : Shut f K σ) (hg : Grows f σ.2 τ.2) : Shut f K (restored σ τ) :=
  hσ.grows hg fun i hi => ⟨i, by rw [current_restored]; exact hi⟩

theorem Walks.noted (h : Walks f [e] σ visits τ) (hr : Ready f e σ) (hb : Begun f a states σ) : Noted f τ.2 := by
  refine (h.keeps (P := fun σ => Noted f σ.2) hr (fun m i hi hnote => ?_)
    (fun hr hvis hP hc => hP.converts hr hvis hc) fun _ _ hτ => hτ).1
  obtain ⟨k, nodes, rfl, hne⟩ := hb.meeting m i hi
  simp [isPartNote, hne] at hnote

theorem Walks.traced (h : Walks f [e] σ visits τ) (hr : Ready f e σ) (hbegun : Begun f a states σ)
    (hc : Convertible a f e states)
    (hn : NamesApart a f states) (hkept : Kept a f states v)
    (hv : a.Begins f v ∨ a.program.isLocalVariable v = false) (hb : Grows f τ.2 b) (hacts : SameActs f τ.2 b)
    (hw : w ∈ visits) :
    w.after.1.current (a.program.keyOf { variable_ := v }) =
        (lastMade (b.isVersionOf v) (b.acts f w.node)).or (w.before.1.current (a.program.keyOf { variable_ := v })) ∧
      ∀ xs i ys k, b.body f w.node = xs ++ i :: ys → i.op.isPhi = false → .version k ∈ i.op.reads →
        b.isVersionOf v k = true → (lastMade (b.isVersionOf v) (b.meets f w.node ++ xs)).or
          (w.before.1.current (a.program.keyOf { variable_ := v })) = some k := by
  obtain ⟨hready, hskips, hconverts, hafter, hssa⟩ := h.within hr w hw
  have hvis := not_mem_of_skips hskips
  have hgrows := hafter.trans hb
  obtain ⟨hhonest, hpromises⟩ := h.honest hc hn hr hbegun w hw
  have hshut := (h.keeps hr (hbegun.shut_key hc hv)
    (fun {n _ _} hr _ hP hc => stable_shut.converts hr.tabled (hr.prepared.plain n) hP.entering hc)
    fun hg hσ _ => hσ.restored hg).2 w hw
  obtain ⟨hcurrent, hreads⟩ := hconverts.traced hready hvis hshut hgrows
    (hconverts.agrees hn hready hvis hhonest hpromises hgrows hkept)
  -- The node does afterwards what it did when it was done.
  have hlast : ∀ xs, lastMade (b.isVersionOf v) (b.meets f w.node ++ xs) =
      lastMade (b.isVersionOf v) (w.after.2.meets f w.node ++ xs) := fun xs => by
    rw [hacts.lastMade, meets, hssa, meets]
  have hbody : b.body f w.node = w.after.2.body f w.node := by rw [(hacts w.node).1, body, hssa, body]
  rw [acts, hlast, hbody]
  exact ⟨hcurrent, fun xs i ys k heq hphi hk hq => by rw [hlast]; exact hreads xs i ys k heq hphi hk hq⟩

theorem Course.traced (h : Course f e states a a')
    (hn : NamesApart a f states) (hall : ∀ n, (a.flow f).Reaches e n → (a.flow f).Served e n)
    (hkept : Kept a f states v) (hv : a.Begins f v ∨ a.program.isLocalVariable v = false) :
    ∃ before rank, a'.Traced f e (a'.isVersionOf v) before rank := by
  obtain ⟨hsame, hc, hbegun, hready, hwalks, hamends, -⟩ := h
  rename_i b σ τ visits s
  have hb : Grows f τ.2 a' := Amends.grows hamends
  have hflow : a'.flow f = σ.2.flow f := hb.flow.trans (hwalks.frame hready).2.1.flow
  have hflowa : a'.flow f = a.flow f := hflow.trans (hbegun.grows.flow.trans hsame.flow)
  have hvisits : ∀ n, (a'.flow f).Reaches e n → ∃ w ∈ visits, w.node = n := by
    intro n hreach
    have hserved : (σ.2.flow f).Served e n := by
      rw [← hflow, hflowa]
      exact hall n (hflowa ▸ hreach)
    have hmem := (hwalks.visited_iff hready hbegun.visited).2 hserved
    rw [hwalks.visited_mem hready, hbegun.visited] at hmem
    exact mem_map.1 (hmem.resolve_right (by simp))
  have htraced := fun w (hw : w ∈ visits) => hwalks.traced hready hbegun hc (hsame.namesApart hn) (hsame.kept hkept)
    (by rw [hsame.begins, hsame.program]; exact hv) hb (Amends.sameActs (hwalks.noted hready hbegun) hamends).1 hw
  refine ⟨startOf visits (b.program.keyOf { variable_ := v }), placeOf visits, ?_, ?_⟩
  · intro n xs i ys k hreach hbody hphi hk hq
    obtain ⟨w, hw, rfl⟩ := hvisits n hreach
    rw [(hwalks.startOf_placeOf hready hbegun.visited hw).1]
    exact (htraced w hw).2 xs i ys k hbody hphi hk hq
  · intro n hreach hne
    obtain ⟨w, hw, rfl⟩ := hvisits n hreach
    obtain ⟨hstart, hplace⟩ := hwalks.startOf_placeOf hready hbegun.visited hw
    rcases hwalks.parent hready hw with ⟨hmem, -⟩ | ⟨u, hu, hnext, hvisited, hlocals, hstates⟩
    · exact (hne (mem_singleton.1 hmem)).elim
    · have hcaller := (mem_next hready).1 hnext
      rw [← hflow] at hcaller
      refine ⟨u.node, ?_, hplace u.node hvisited, hcaller, ?_⟩
      · rcases hcaller with himmediate | ⟨p, -, -, hdom, -⟩
        · exact himmediate.1.1.reaches
        · exact hdom.reaches
      · have hcurrent : w.before.1.current (b.program.keyOf { variable_ := v }) =
            u.after.1.current (b.program.keyOf { variable_ := v }) := by
          cases b.program.keyOf { variable_ := v } with
          | inner x => exact congrArg (Table.find? x) hlocals
          | state x => exact congrArg (Table.find? x) hstates
        rw [hstart, hcurrent, (htraced u hu).1, (hwalks.startOf_placeOf hready hbegun.visited hu).1]

end Rename

end ContractAudit
