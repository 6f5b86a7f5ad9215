import ContractAudit.Proofs.Checks

/-! # Single assignment

Each version that is made for a write has a greater number than those before it, as long as the variable is not entered late,
which would start its numbers anew, and up to places where versions meet that are never renamed.
-/

namespace ContractAudit

open Ir Analysis Program Analyze

variable (a : Analysis) (f : FunctionId)

/-- The operation at a place writes a version of a variable, or of what it stands for, with a number. -/
def Analysis.Defines (n : NodeId) (p : Nat) (v : VariableId) (standIn : Bool) (index : Nat) : Prop :=
  ∃ k, a.madeAt f n p = some k ∧ (a.store.version k).Alike { variable_ := v, standIn, index }

/-- No two operations write versions of a variable with one number. -/
def Analysis.SingleAssigned (v : VariableId) : Prop :=
  ∀ standIn index n p n' p', a.Defines f n p v standIn index → a.Defines f n' p' v standIn index → n = n' ∧ p = p'

/-- Local variables that go by the name of a variable have versions from the beginning. -/
def Analysis.Settled (v : VariableId) : Prop :=
  a.program.isLocalVariable v = true → ∀ w, a.Mentions f w → a.program.isLocalVariable w = true →
    ((a.program.var w).name = (a.program.var v).name ∨
      (a.program.var w).name = "STORAGE_" ++ (a.program.var v).name) → a.Begins f w

namespace Rename

variable {a a' : Analysis} {f : FunctionId} {σ τ υ : State}
  {v : VariableId} {standIn : Bool} {base : Nat} {P : Analysis → Nat → List NodeId → List Value → Prop}

/-! ## Numbers of versions -/

/-- From a version on, the versions under a key have growing numbers, up to those that are not for a write. -/
structure Numbered (base : Nat) (K : Key) (σ : State) : Prop where
  bounded : ∀ l, σ.1.latest K = some l → l < σ.2.store.versions.size
  latest : ∀ k, base ≤ k → k < σ.2.store.versions.size → σ.2.key k = K → (σ.2.store.version k).index ≠ 0 →
    ∃ l, σ.1.latest K = some l ∧ (σ.2.store.version k).index ≤ (σ.2.store.version l).index
  growing : ∀ k k', base ≤ k → k < k' → k' < σ.2.store.versions.size → σ.2.key k = K → σ.2.key k' = K →
    (σ.2.store.version k').index = 0 ∨ (σ.2.store.version k).index < (σ.2.store.version k').index

theorem Numbered.add (h : Numbered base K (s, a))
    (hx : s'.latest K = s.latest K ∧ (a.program.keyOf x = K → x.index = 0) ∨
      s'.latest K = some a.store.versions.size ∧ ∃ l, s.latest K = some l ∧ (a.store.version l).index < x.index) :
    Numbered base K (s', a.addVersion x) := by
  obtain ⟨hbounded, hlatest, hgrowing⟩ := h
  dsimp only at hbounded hlatest hgrowing
  have hold : ∀ {k}, k ≠ a.store.versions.size → (a.addVersion x).store.version k = a.store.version k :=
    fun hk => by rw [version_addVersion, if_neg hk]
  have hnew : (a.addVersion x).store.version a.store.versions.size = x := by
    rw [version_addVersion, if_pos rfl]
  have hsize : (a.addVersion x).store.versions.size = a.store.versions.size + 1 := size_addVersion _
  have hkey : ∀ {k}, (a.addVersion x).key k = if k = a.store.versions.size then a.program.keyOf x else a.key k :=
    key_addVersion _
  constructor
  · intro l hl
    dsimp only at hl ⊢
    rcases hx with ⟨hsame, -⟩ | ⟨hput, -⟩
    · have := hbounded l (hsame ▸ hl)
      omega
    · rw [hput] at hl
      cases hl
      omega
  · intro k hbase hk hK hindex
    dsimp only at hk hK hindex ⊢
    rw [hkey] at hK
    by_cases hk' : k = a.store.versions.size
    · subst hk'
      rw [if_pos rfl] at hK
      rw [hnew] at hindex ⊢
      rcases hx with ⟨-, hzero⟩ | ⟨hput, -⟩
      · exact (hindex (hzero hK)).elim
      · exact ⟨_, hput, Nat.le_of_eq (by rw [hnew])⟩
    · rw [if_neg hk'] at hK
      rw [hold hk'] at hindex ⊢
      obtain ⟨l, hl, hle⟩ := hlatest k hbase (by omega) hK hindex
      rcases hx with ⟨hsame, -⟩ | ⟨hput, l', hl', hlt⟩
      · exact ⟨l, hsame ▸ hl, by rwa [hold (Nat.ne_of_lt (hbounded l hl))]⟩
      · rw [hl] at hl'
        cases hl'
        exact ⟨_, hput, by rw [hnew]; omega⟩
  · intro k k' hbase hlt hk' hK hK'
    dsimp only at hk' hK hK' ⊢
    rw [hkey, if_neg (by omega)] at hK
    rw [hold (k := k) (by omega)]
    rw [hkey] at hK'
    by_cases hnew' : k' = a.store.versions.size
    · subst hnew'
      rw [if_pos rfl] at hK'
      rw [hnew]
      rcases hx with ⟨-, hzero⟩ | ⟨-, l, hl, hgreater⟩
      · exact .inl (hzero hK')
      · by_cases hindex : (a.store.version k).index = 0
        · omega
        · obtain ⟨l', hl', hle⟩ := hlatest k hbase (by omega) hK hindex
          rw [hl] at hl'
          cases hl'
          omega
    · rw [if_neg hnew'] at hK'
      rw [hold hnew']
      exact hgrowing k k' hbase hlt (by omega) hK hK'

section

variable (h : Numbered base K σ)

include h

theorem Numbered.same (hsize : τ.2.store.versions.size = σ.2.store.versions.size)
    (hprogram : τ.2.program = σ.2.program) (halike : ∀ i, (τ.2.store.version i).Alike (σ.2.store.version i))
    (hlatest : τ.1.latest K = σ.1.latest K) : Numbered base K τ := by
  have hkey : ∀ i, τ.2.key i = σ.2.key i := fun i => by
    rw [key, hprogram, keyOf_congr (halike i)]
    rfl
  constructor
  · intro l hl
    rw [hsize]
    exact h.bounded l (hlatest ▸ hl)
  · intro k hbase hk hK hindex
    rw [hsize] at hk
    rw [hkey] at hK
    rw [(halike k).2.1] at hindex ⊢
    obtain ⟨l, hl, hle⟩ := h.latest k hbase hk hK hindex
    exact ⟨l, hlatest ▸ hl, by rwa [(halike l).2.1]⟩
  · intro k k' hbase hlt hk' hK hK'
    rw [hsize] at hk'
    rw [hkey] at hK hK'
    rw [(halike k).2.1, (halike k').2.1]
    exact h.growing k k' hbase hlt hk' hK hK'

theorem Numbered.renews (hr : Renews σ j τ) : Numbered base K τ := by
  obtain ⟨l, hl, rfl⟩ := hr
  refine h.add ?_
  rw [Naming.latest_put, keyOf_next]
  by_cases hK : K = σ.2.key j
  · rw [if_pos hK]
    exact .inr ⟨rfl, l, hK ▸ hl, Nat.lt_succ_self _⟩
  · rw [if_neg hK]
    exact .inl ⟨rfl, fun hkey => (hK hkey.symm).elim⟩

theorem Numbered.amend (hs : Amend f P σ τ) : Numbered base K τ := by
  cases hs with
  | quiet hq _ => exact h.same hq.size hq.program hq.alike (hq.latest K)
  | back s => exact h.same rfl rfl (fun _ => .refl _) (by cases K <;> rfl)
  | make v => exact h.add (.inl ⟨rfl, fun _ => rfl⟩)
  | fill values _ _ => exact h.same rfl rfl (fun _ => .refl _) rfl
  | extend n i _ => exact h.same rfl rfl (fun _ => .refl _) rfl
  | renew n i hr => exact (h.renews hr).same rfl rfl (fun _ => .refl _) rfl

theorem Numbered.amends (hs : Amends f P σ τ) : Numbered base K τ := by
  induction hs with
  | refl => exact h
  | tail _ hs ih => exact ih.amend hs

end

theorem stable_numbered : Stable f fun σ => Shut f K σ ∧ Numbered base K σ where
  quiet h hq := ⟨stable_shut.quiet h.1 hq, h.2.same hq.size hq.program hq.alike (hq.latest K)⟩
  enter h hv hm hnone := by
    refine ⟨stable_shut.enter h.1 hv hm hnone, h.2.add (.inl ⟨?_, fun _ => rfl⟩)⟩
    rw [Naming.latest_put, if_neg (h.1.ne hv hm hnone)]
  renews h hr := ⟨stable_shut.renews h.1 hr, h.2.renews hr⟩
  sets h hs := by
    refine ⟨stable_shut.sets h.1 hs, h.2.same ?_ hs.program (fun i => ?_) ?_⟩
    · rw [hs.store]
    · rw [hs.store]
      exact .refl _
    · rw [hs.naming]

/-! ## Numbers of what is written -/

/-- What is written has a number above 0, up to places where versions meet that are not renamed. -/
def Counted (base : Nat) (f : FunctionId) (σ : State) : Prop :=
  ∀ n p k, σ.2.madeAt f n p = some k → k < σ.2.store.versions.size ∧
    (k < base ∧ n ∉ σ.1.visited ∧ (∃ v, (σ.2.store.version k).Alike { variable_ := v }) ∨
      base ≤ k ∧ (σ.2.store.version k).index ≠ 0)

theorem RenewsAll.index (h : RenewsAll old new σ τ) (hk : σ.2.store.versions.size ≤ k)
    (hlt : k < τ.2.store.versions.size) : (τ.2.store.version k).index ≠ 0 := by
  induction h with
  | nil => omega
  | @snoc old new σ τ υ j nodes _ hr ih =>
    rw [size_renews hr] at hlt
    rcases Nat.lt_succ_iff_lt_or_eq.1 hlt with hlt | rfl
    · rw [((hr.grows (f := 0)).alike k hlt).2.1]
      exact ih hk hlt
    · exact index_renews hr

section

variable (h : Counted base f σ)

include h

theorem Counted.grown (hk : σ.2.madeAt f n p = some k) (hg : Grows f σ.2 τ.2)
    (hn : n ∉ σ.1.visited → n ∉ τ.1.visited) : k < τ.2.store.versions.size ∧
      (k < base ∧ n ∉ τ.1.visited ∧ (∃ v, (τ.2.store.version k).Alike { variable_ := v }) ∨
        base ≤ k ∧ (τ.2.store.version k).index ≠ 0) := by
  obtain ⟨hlt, hcases⟩ := h n p k hk
  have halike := hg.alike k hlt
  rw [halike.2.1]
  exact ⟨Nat.lt_of_lt_of_le hlt hg.size, hcases.imp_left fun ⟨hbase, hold, v, hv⟩ => ⟨hbase, hn hold, v, halike.trans hv⟩⟩

variable (hbase : base ≤ σ.2.store.versions.size)

include hbase

theorem Counted.change (hs : Change f σ τ) : Counted base f τ := by
  have hvisited : ∀ m, m ∉ σ.1.visited → m ∉ τ.1.visited := fun m hm => hs.visited ▸ hm
  intro m q k hk
  rcases hs.made with hmade | ⟨n, p, hnew, hsame, hlt, hindex⟩
  · exact h.grown (hmade m q ▸ hk) hs.grows (hvisited m)
  · by_cases hmq : m = n ∧ q = p
    · rw [hmq.1, hmq.2, hnew] at hk
      cases hk
      exact ⟨hlt, .inr ⟨hbase, hindex⟩⟩
    · exact h.grown (hsame m q hmq ▸ hk) hs.grows (hvisited m)

theorem Counted.changes (hs : Changes f σ τ) : Counted base f τ ∧ τ.1.visited = σ.1.visited := by
  induction hs with
  | refl => exact ⟨h, rfl⟩
  | tail hprev hs ih => exact ⟨ih.1.change (Nat.le_trans hbase (Changes.grows hprev).size) hs, hs.visited.trans ih.2⟩

theorem Counted.meeting (hall : RenewsAll old new (entering n σ) τ) (hs : Sets f n new τ υ) : Counted base f υ := by
  have hgrows : Grows f σ.2 υ.2 := hall.grows.trans hs.grows
  intro m p k hk
  rw [madeAt, hs.ssa] at hk
  by_cases hm : m = n
  · -- The node that is begun has new versions only.
    obtain ⟨hsize, hmade⟩ := hall.made
    rw [if_pos hm, hmade] at hk
    obtain ⟨hp, rfl⟩ : p < new.length ∧ (entering n σ).2.store.versions.size + p = k := by simpa using hk
    rw [hs.store]
    exact ⟨by omega, .inr ⟨Nat.le_add_right_of_le hbase, hall.index (Nat.le_add_right ..) (by omega)⟩⟩
  · rw [if_neg hm, hall.ssa] at hk
    exact h.grown hk hgrows fun hvisited => by simpa [hs.naming, hall.visited, entering, hm] using hvisited

theorem Counted.converts (hr : Ready f e σ) (hc : Converts f n σ τ) : Counted base f τ := by
  obtain ⟨phis, new, υ, υ', hall, hsets, hsteps, -⟩ := hc.steps hr.tabled (hr.prepared.plain n)
  have hgrows : Grows f σ.2 υ'.2 := hall.grows.trans hsets.grows
  exact ((h.meeting hbase hall hsets).changes (Nat.le_trans hbase hgrows.size) hsteps.changes).1

end

/-! ## The whole renaming -/

/-- What renaming keeps of the numbers under a key. -/
structure InOrder (f : FunctionId) (base : Nat) (K : Key) (σ : State) : Prop where
  numbered : Shut f K σ ∧ Numbered base K σ
  counted : Counted base f σ
  enough : base ≤ σ.2.store.versions.size
  distinct : Distinct f σ.2

theorem InOrder.converts (hr : Ready f e σ) (h : InOrder f base K σ) (hc : Converts f n σ τ) : InOrder f base K τ where
  numbered := by
    refine stable_numbered.converts hr.tabled (hr.prepared.plain n) ⟨?_, ?_⟩ hc
    · exact h.numbered.1.entering
    · exact h.numbered.2.same rfl rfl (fun _ => .refl _) (by cases K <;> rfl)
  counted := h.counted.converts h.enough hr hc
  enough := Nat.le_trans h.enough (hc.frame hr).1.size
  distinct := h.distinct.converts hr.tabled hr.prepared hc

theorem InOrder.restored (hσ : InOrder f base K σ) (hτ : InOrder f base K τ) (hg : Grows f σ.2 τ.2) :
    InOrder f base K (restored σ τ) where
  numbered := by
    refine ⟨hσ.numbered.1.grows hg fun i hi => ⟨i, ?_⟩, hτ.numbered.2.same rfl rfl (fun _ => .refl _) ?_⟩
    · rw [current_restored]
      exact hi
    · exact latest_restored
  counted := hτ.counted
  enough := hτ.enough
  distinct := hτ.distinct

theorem Begun.inOrder (h : Begun f a states σ) (hc : Convertible a f e states) (hshut : Shut f K σ) :
    InOrder f σ.2.store.versions.size K σ where
  numbered := ⟨hshut, fun l hl => ((h.tabled hc.tabled).latest K l hl).1, fun k hbase hk => by omega,
    fun k k' hbase hlt hk' => by omega⟩
  counted n p k hk := by
    obtain ⟨v, -, hv⟩ := h.first n p k hk
    have hlt := h.distinct.lt n p k hk
    exact ⟨hlt, .inl ⟨hlt, by simp [h.visited], v, hv⟩⟩
  enough := Nat.le_refl _
  distinct := h.distinct

theorem Begun.shut (h : Begun f a states σ) (hv : a.Settled f v) (standIn : Bool) :
    Shut f (a.program.keyOf { variable_ := v, standIn }) σ := by
  by_cases hlocal : a.program.isLocalVariable v = true
  · by_cases hw : ∃ w, a.Mentions f w ∧ a.program.isLocalVariable w = true ∧
        .inner (a.program.var w).name = a.program.keyOf { variable_ := v, standIn }
    · obtain ⟨w, hm, hl, hname⟩ := hw
      have hbegins : a.Begins f w := by
        refine hv hlocal w hm hl ?_
        cases standIn with
        | false => exact .inl (Key.inner.inj (hname.trans (keyOf_first hlocal)))
        | true =>
          refine .inr (Key.inner.inj (hname.trans ?_))
          simp [keyOf, hlocal, versionName]
      obtain ⟨i, hi⟩ := Option.isSome_iff_exists.1 (h.begins w hbegins)
      exact .inl ⟨i, hname ▸ hi⟩
    · refine .inr fun w hm hl hname => hw ⟨w, (h.grows.mentions w).1 hm, ?_, ?_⟩
      · exact h.grows.program ▸ hl
      · exact h.grows.program ▸ hname
  · refine .inr fun w _ _ hname => ?_
    simp [keyOf, hlocal] at hname

theorem SameCode.settled (h : SameCode f a b) (hv : a.Settled f v) : b.Settled f v := by
  intro hlocal w hm hl hname
  rw [h.program] at hlocal hl hname
  rw [Mentions, h.store] at hm
  simp only [h.instrs] at hm
  exact (h.begins w).2 (hv hlocal w hm hl hname)

theorem Course.single (h : Course f e states a a')
    (hv : a.Settled f v) (hn : a'.Defines f n p v standIn index) (hn' : a'.Defines f n' p' v standIn index) :
    n = n' ∧ p = p' ∨ ¬ (a.flow f).Served e n ∧ ¬ (a.flow f).Served e n' ∧ standIn = false ∧ index = 0 := by
  obtain ⟨hsame, hcb, hbegun, hready, hwalks, hamends, -⟩ := h
  rename_i b σ τ visits s
  obtain ⟨k, hk, halike⟩ := hn
  obtain ⟨k', hk', halike'⟩ := hn'
  have hgrows : Grows f b τ.2 := hbegun.grows.trans (hwalks.frame hready).2.1
  have hfinal := hgrows.trans (Amends.grows hamends)
  -- Numbers are in order after the walk and after what is completed.
  have hτ := (hwalks.keeps hready (hbegun.inOrder hcb (hbegun.shut (hsame.settled hv) standIn))
    (fun hr _ hP hc => hP.converts hr hc) (fun hg hσ hτ => hσ.restored hτ hg)).1
  have hnumbered := hτ.numbered.2.amends hamends
  obtain ⟨hcounted, hvisited⟩ := hτ.counted.changes hτ.enough (Amends.changes hamends)
  have hdistinct := hτ.distinct.changes (Amends.changes hamends)
  have hunserved : ∀ m, m ∉ τ.1.visited → ¬ (a.flow f).Served e m := fun m hm hserved => by
    rw [← hsame.flow, ← hbegun.grows.flow] at hserved
    exact hm ((hwalks.visited_iff hready hbegun.visited).2 hserved)
  have hkey : ∀ {k}, (a'.store.version k).Alike { variable_ := v, standIn, index } →
      a'.key k = b.program.keyOf { variable_ := v, standIn } := fun hk => by
    rw [key, hfinal.program, keyOf_congr hk]
    rfl
  obtain ⟨hlt, hcase⟩ := hcounted n p k hk
  obtain ⟨hlt', hcase'⟩ := hcounted n' p' k' hk'
  rw [hvisited, halike.2.1] at hcase
  rw [hvisited, halike'.2.1] at hcase'
  -- Two versions that are made for writes have different numbers.
  have hapart : ∀ {k k'}, k < k' → k' < a'.store.versions.size → σ.2.store.versions.size ≤ k → index ≠ 0 →
      (a'.store.version k).Alike { variable_ := v, standIn, index } →
      (a'.store.version k').Alike { variable_ := v, standIn, index } → False := by
    intro k k' hkk hsize hbase hindex hv hv'
    have hgrowing := hnumbered.growing k k' hbase hkk hsize (hkey hv) (hkey hv')
    rw [hv.2.1, hv'.2.1] at hgrowing
    dsimp only at hgrowing
    omega
  rcases hcase with ⟨-, hvis, w, hw⟩ | ⟨hbase, hindex⟩
  · rcases hcase' with ⟨-, hvis', -⟩ | ⟨-, hindex'⟩
    · exact .inr ⟨hunserved n hvis, hunserved n' hvis', halike.2.2.symm.trans hw.2.2, halike.2.1.symm.trans hw.2.1⟩
    · exact (hindex' (halike.2.1.symm.trans hw.2.1)).elim
  · rcases hcase' with ⟨-, -, w, hw⟩ | ⟨hbase', -⟩
    · exact (hindex (halike'.2.1.symm.trans hw.2.1)).elim
    · rcases Nat.lt_trichotomy k k' with hkk | rfl | hkk
      · exact (hapart hkk hlt' hbase hindex halike halike').elim
      · exact .inl (hdistinct.inj n p n' p' k hk hk')
      · exact (hapart hkk hlt hbase' hindex halike' halike).elim

theorem settled_of_concerned (h : ∀ w ∈ a.concerned f, a.program.isLocalVariable w = true →
    ((a.program.var w).name = (a.program.var v).name ∨
      (a.program.var w).name = "STORAGE_" ++ (a.program.var v).name) → w ∈ a.beginning f) :
    a.Settled f v :=
  fun _ w hm hl hname => mem_beginning.1 (h w (mem_concerned (.inr (.inr hm))) hl hname)

/-- The number of a version that an operation writes at a place, where it is one of a variable. -/
def definedIndex (a : Analysis) (f : FunctionId) (n : NodeId) (p : Nat) (v : VariableId) : Option Nat :=
  (a.madeAt f n p).bind fun k =>
    if (a.store.version k).variable_ = v ∧ (a.store.version k).standIn = false then some (a.store.version k).index
    else none

theorem defines_of_definedIndex (h : definedIndex a f n p v = some index) : a.Defines f n p v false index := by
  obtain ⟨k, hk, h⟩ := Option.bind_eq_some_iff.1 h
  split at h
  · rename_i hv
    exact ⟨k, hk, hv.1, Option.some.inj h, hv.2⟩
  · cases h

/-- Nothing that the operations of a function write has the number 0. -/
def numberedAboveZero (a : Analysis) (f : FunctionId) : Bool :=
  (a.functionCode f).nodes.all fun c => c.ssa.all fun i => i.made?.all fun k => (a.store.version k).index != 0

theorem not_defines_zero (h : numberedAboveZero a f = true) : ¬ a.Defines f n p v standIn 0 := by
  rintro ⟨k, hk, -, hindex, -⟩
  obtain ⟨i, hi, hmade⟩ := Option.bind_eq_some_iff.1 hk
  have hall := List.all_eq_true.1 (nodeCode_of_all rfl h n) i (List.mem_of_getElem? hi)
  rw [hmade] at hall
  exact bne_iff_ne.1 hall hindex

/-- `try i.g() {} catch Panic(uint code) { if (c) { code = 1; r = 1; } else { code = 2; r = 2; } } return r;` for a
parameter `c` and a result `r`, without the call. No node declares the variable that is caught. -/
def caughtCode : Analysis :=
  .ofLines ["c", "r", "code"] [0] [1] none [
    .of .entryPoint [1] [],
    .of .tries [2] [0],
    .of .catches [3] [1],
    .of .branch [4, 6] [2] [.condition (.var 0)] [0],
    .of .expression [5] [3] [.assign (.var 2) (.number 1)] [] [2],
    .of .expression [8] [4] [.assign (.var 1) (.number 1)] [] [1],
    .of .expression [7] [3] [.assign (.var 2) (.number 2)] [] [2],
    .of .expression [8] [6] [.assign (.var 1) (.number 2)] [] [1],
    .of .endIf [9] [5, 7],
    .of .returns [] [8] [.returns [.var 1]] [1]]

end Rename

end ContractAudit
