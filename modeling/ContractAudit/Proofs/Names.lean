import ContractAudit.Proofs.Course

/-! # Names that tell variables apart

Where names tell the variables of a function apart, what the tables have under the name of a variable is a version of it,
through the whole renaming.
-/

namespace ContractAudit

open Ir Analysis List Program

/-- A variable that matters to the renaming of a function: it has a first version, is written, or an operation leads
to it. -/
def Analysis.Concerns (a : Analysis) (f : FunctionId) (v : VariableId) : Prop :=
  a.Begins f v ∨ a.Written f v ∨ a.Mentions f v

/-- Names tell the variables of a function apart. The table has the state variables. -/
structure NamesApart (a : Analysis) (f : FunctionId) (states : Table String Nat) : Prop where
  locals : ∀ v w, a.Concerns f v → a.Concerns f w → a.program.isLocalVariable v = true →
    a.program.isLocalVariable w = true → (a.program.var v).name = (a.program.var w).name → v = w
  standIns : ∀ v w, a.Concerns f v → a.Concerns f w → a.program.isLocalVariable v = true →
    a.program.isLocalVariable w = true → (a.program.var v).name ≠ "STORAGE_" ++ (a.program.var w).name
  states : ∀ v, a.Concerns f v → a.program.isStateVariable v = true →
    ∃ i, Table.find? (a.program.variableCanonicalName v) states = some i ∧ (a.store.version i).variable_ = v

namespace Rename

variable {states : Table String Nat}

/-- The variable is one of those of which the tables have versions. -/
def Kept (a : Analysis) (f : FunctionId) (states : Table String Nat) (v : VariableId) : Prop :=
  if a.program.isLocalVariable v then a.Concerns f v
  else ∃ i, Table.find? (a.program.variableCanonicalName v) states = some i ∧ (a.store.version i).variable_ = v

/-- All versions that are held are of variables of a kind. -/
def Holds (Q : VariableId → Prop) (σ : State) : Prop :=
  ∀ j, Held σ j → j < σ.2.store.versions.size ∧ Q (σ.2.store.version j).variable_

/-- All versions that operations make are of variables of a kind. -/
def Makes (Q : VariableId → Prop) (a : Analysis) (ops : List Instr) : Prop :=
  ∀ i ∈ ops, ∀ k, i.made? = some k → k < a.store.versions.size ∧ Q (a.store.version k).variable_

/-- All local variables that operations lead to are of a kind. -/
def Admits (Q : VariableId → Prop) (f : FunctionId) (a : Analysis) : Prop :=
  ∀ v, a.program.isLocalVariable v = true → a.Mentions f v → Q v

variable {Q : VariableId → Prop}

theorem Admits.grows (h : Admits Q f a) (hg : Grows f a b) : Admits Q f b :=
  fun v hv hm => h v (hg.program ▸ hv) ((hg.mentions v).1 hm)

theorem Grows.keeps (hg : Grows f a b) (h : k < a.store.versions.size ∧ Q (a.store.version k).variable_) :
    k < b.store.versions.size ∧ Q (b.store.version k).variable_ := by
  rw [(hg.alike k h.1).1]
  exact ⟨Nat.lt_of_lt_of_le h.1 hg.size, h.2⟩

theorem Holds.put (h : Holds Q (s, a)) (hx : Q x.variable_) :
    Holds Q (s.put K a.store.versions.size, a.addVersion x) := by
  intro j hj
  rw [size_addVersion, version_addVersion]
  rcases held_put hj with rfl | hj
  · rw [if_pos rfl]
    exact ⟨by omega, hx⟩
  · obtain ⟨hlt, hQ⟩ := h j hj
    have hlt : j < a.store.versions.size := hlt
    rw [if_neg (by omega)]
    exact ⟨by omega, hQ⟩

theorem Holds.restored (hσ : Holds Q σ) (hτ : Holds Q τ) (hg : Grows f σ.2 τ.2) : Holds Q (restored σ τ) := by
  rintro j (⟨K, hK⟩ | ⟨K, hK⟩ | hpart)
  · rw [current_restored] at hK
    exact hg.keeps (hσ j (.inl ⟨K, hK⟩))
  · rw [latest_restored] at hK
    exact hτ j (.inr (.inl ⟨K, hK⟩))
  · exact hτ j (.inr (.inr hpart))

section

variable (h : Holds Q σ)

include h

theorem Holds.quiet (hq : Quiet σ τ) : Holds Q τ := by
  intro j hj
  obtain ⟨hlt, hQ⟩ := h j (hq.of_held hj)
  rw [hq.size, (hq.alike j).1]
  exact ⟨hlt, hQ⟩

theorem Holds.enters (he : Enters f σ τ) (hQ : Admits Q f σ.2) : Holds Q τ := by
  induction he with
  | refl => exact h
  | quiet hq _ ih => exact ih (h.quiet hq) (hQ.grows hq.grows)
  | @enter s a υ v hv hm hnone _ ih => exact ih (h.put (hQ v hv hm)) (hQ.grows (.addVersion f a _))

theorem Holds.renews (hr : Renews σ j τ) (hj : Q (σ.2.store.version j).variable_) : Holds Q τ := by
  obtain ⟨l, -, rfl⟩ := hr
  exact h.put hj

theorem Holds.adding (i : Instr) : Holds Q (adding f n i σ) := h

theorem Holds.sets (hs : Sets f n ops σ τ) : Holds Q τ := by
  intro j hj
  rw [hs.store]
  refine h j ?_
  unfold Held at hj ⊢
  rwa [hs.naming, hs.store] at hj

theorem Holds.entering : Holds Q (entering n σ) := by
  rintro j (⟨K, hK⟩ | ⟨K, hK⟩ | ⟨r, hr, -⟩)
  · exact h j (.inl ⟨K, by cases K <;> exact hK⟩)
  · exact h j (.inr (.inl ⟨K, by cases K <;> exact hK⟩))
  · cases hr

theorem Holds.step (hQ : Admits Q f σ.2) (hs : Step f n new σ τ) : Holds Q τ := by
  cases hs with
  | enters he => exact h.enters he hQ
  | keep _ _ _ => exact h.adding _
  | write _ _ hj hr _ => exact (h.renews hr (h _ hj).2).adding _
  | part _ _ hj hr _ hq => exact (((h.renews hr (h _ hj).2).adding _).quiet hq).adding _
  | callback hj hr => exact (h.renews hr (h _ hj).2).adding _

theorem Holds.steps (hQ : Admits Q f σ.2) (hs : Steps f n new σ τ) : Holds Q τ := by
  induction hs with
  | nil => exact h
  | cons hs _ ih => exact ih (h.step hQ hs) (hQ.grows hs.grows)

theorem Holds.renewsAll (hold : Makes Q σ.2 old) (hs : RenewsAll old new σ τ) : Holds Q τ := by
  induction hs with
  | nil => exact h
  | @snoc old new σ τ υ j nodes hall hr ih =>
    obtain ⟨hprev, hlast⟩ := forall_mem_append.1 hold
    exact (ih h hprev).renews hr ((hall.grows (f := 0)).keeps (hlast _ (.head _) j rfl)).2

end

/-- The versions that meet in nodes that are not done are of variables of a kind. -/
def Promises (Q : VariableId → Prop) (f : FunctionId) (σ : State) : Prop :=
  ∀ n ∉ σ.1.visited, ∀ i ∈ σ.2.ssa f n, ∀ k, i.made? = some k →
    k < σ.2.store.versions.size ∧ Q (σ.2.store.version k).variable_

theorem Holds.converts (hr : Ready f e σ) (hn : n ∉ σ.1.visited) (h : Holds Q σ) (hp : Promises Q f σ)
    (hQ : Admits Q f σ.2) (hc : Converts f n σ τ) : Holds Q τ := by
  obtain ⟨phis, new, υ, υ', hall, hsets, hsteps, -⟩ := hc.steps hr.tabled (hr.prepared.plain n)
  have hgrows : Grows f σ.2 υ'.2 := hall.grows.trans hsets.grows
  have hυ' := (h.entering.renewsAll (hp n hn) hall).sets hsets
  exact hυ'.steps (hQ.grows hgrows) hsteps

theorem Promises.converts (hr : Ready f e σ) (h : Promises Q f σ) (hc : Converts f n σ τ) : Promises Q f τ := by
  obtain ⟨hg, hvis, -, hssa⟩ := hc.frame hr
  intro m hm i hi k hk
  rw [hvis, mem_cons, not_or] at hm
  rw [hssa m hm.1] at hi
  exact hg.keeps (h m hm.2 i hi k hk)

/-! ## Tables are honest -/

/-- The state in which operations of a function are converted, with honest tables. -/
structure Honest (a : Analysis) (f : FunctionId) (states : Table String Nat) (σ : State) : Prop where
  grows : Grows f a σ.2
  tabled : Tabled σ
  holds : Holds (Kept a f states) σ

section

variable (hn : NamesApart a f states)

include hn

theorem Kept.variable_eq (hx : Kept a f states x.variable_) (hv : Kept a f states v)
    (hkey : a.program.keyOf x = a.program.keyOf { variable_ := v }) : x.variable_ = v := by
  unfold Kept at hx hv
  by_cases hl : a.program.isLocalVariable v = true
  · rw [if_pos hl] at hv
    have hname : a.program.versionName x = (a.program.var v).name ∧ a.program.isLocalVariable x.variable_ = true := by
      simp only [keyOf] at hkey
      split at hkey
      · rename_i hl'
        exact ⟨by simpa [versionName] using hkey, hl'⟩
      · cases hkey
    rw [if_pos hname.2] at hx
    unfold versionName at hname
    cases hs : x.standIn with
    | true =>
      rw [hs] at hname
      exact (hn.standIns v _ hv hx hl hname.2 hname.1.symm).elim
    | false =>
      rw [hs] at hname
      exact hn.locals _ v hx hv hname.2 hl (by simpa using hname.1)
  · rw [if_neg hl] at hv
    have hname : a.program.variableCanonicalName x.variable_ = a.program.variableCanonicalName v ∧
        ¬ a.program.isLocalVariable x.variable_ = true := by
      simp only [keyOf] at hkey
      split at hkey
      · cases hkey
      · rename_i hl'
        injection hkey with hkey
        exact ⟨hkey, hl'⟩
    rw [if_neg hname.2, hname.1] at hx
    obtain ⟨j, hj, hjv⟩ := hx
    obtain ⟨k, hk, hkv⟩ := hv
    rw [hj] at hk
    cases hk
    exact hjv.symm.trans hkv

theorem kept_of_concerns (hv : a.Concerns f v)
    (hkind : a.program.isLocalVariable v = true ∨ a.program.isStateVariable v = true) : Kept a f states v := by
  unfold Kept
  by_cases hl : a.program.isLocalVariable v = true
  · rw [if_pos hl]
    exact hv
  · rw [if_neg hl]
    exact hn.states v hv (hkind.resolve_left hl)

variable (h : Honest a f states σ)

include h

theorem Honest.variable_eq (hv : Kept a f states v)
    (hi : σ.1.current (a.program.keyOf { variable_ := v }) = some i) : (σ.2.store.version i).variable_ = v := by
  obtain ⟨-, hkey⟩ := h.tabled.current _ i hi
  rw [key, h.grows.program] at hkey
  exact Kept.variable_eq hn (h.holds i (.inl ⟨_, hi⟩)).2 hv hkey

theorem Honest.admits : Admits (Kept a f states) f σ.2 := fun v hv hm =>
  kept_of_concerns hn (.inr (.inr ((h.grows.mentions v).1 hm))) (.inl (h.grows.program ▸ hv))

theorem Honest.steps (hs : Steps f n new σ τ) : Honest a f states τ :=
  ⟨h.grows.trans hs.grows, stable_tabled.steps h.tabled hs, h.holds.steps (h.admits hn) hs⟩

theorem Honest.converts (hr : Ready f e σ) (hvis : n ∉ σ.1.visited)
    (hp : Promises (Kept a f states) f σ) (hc : Converts f n σ τ) : Honest a f states τ := by
  obtain ⟨hg, -, ht, -⟩ := hc.frame hr
  exact ⟨h.grows.trans hg, ht, h.holds.converts hr hvis hp (h.admits hn) hc⟩

end

theorem Honest.meeting (h : Honest a f states σ) (hold : Makes (Kept a f states) σ.2 old)
    (hall : RenewsAll old new (entering n σ) τ) (hs : Sets f n new τ υ) : Honest a f states υ where
  grows := h.grows.trans (hall.grows.trans hs.grows)
  tabled := stable_tabled.meeting h.tabled.entering hall hs
  holds := (h.holds.entering.renewsAll hold hall).sets hs

theorem Honest.restored (hσ : Honest a f states σ) (hτ : Honest a f states τ) (hg : Grows f σ.2 τ.2) :
    Honest a f states (restored σ τ) :=
  ⟨hτ.grows, hσ.tabled.restored hτ.tabled hg, hσ.holds.restored hτ.holds hg⟩

/-! ## The whole walk -/

theorem SameCode.concerns (h : SameCode f a b) : b.Concerns f v ↔ a.Concerns f v := by
  simp [Concerns, h.begins, h.written, Mentions, h.instrs, h.store]

theorem SameCode.namesApart (h : SameCode f a b) (hn : NamesApart a f states) : NamesApart b f states where
  locals v w hv hw := by
    rw [h.program]
    exact hn.locals v w ((h.concerns).1 hv) ((h.concerns).1 hw)
  standIns v w hv hw := by
    rw [h.program]
    exact hn.standIns v w ((h.concerns).1 hv) ((h.concerns).1 hw)
  states v hv := by
    rw [h.program, h.store]
    exact hn.states v ((h.concerns).1 hv)

theorem SameCode.kept (h : SameCode f a b) (hv : Kept a f states v) :
    Kept b f states v := by
  unfold Kept at hv ⊢
  rw [h.program, h.store, h.concerns]
  exact hv

variable (hc : Convertible a f e states) (hn : NamesApart a f states)

include hc hn

theorem Meets.kept (hv : Meets a f states v) : Kept a f states v := by
  unfold Kept
  rcases hv with hv | hv | ⟨i, hi, rfl⟩
  · rw [if_pos (hc.locals v hv)]
    exact .inl hv
  · by_cases hl : a.program.isLocalVariable v = true
    · rw [if_pos hl]
      exact .inr (.inl hv)
    · rw [if_neg hl]
      exact hn.states v (.inr (.inl hv)) (hv.2.resolve_left hl)
  · obtain ⟨⟨x, i⟩, hmem, rfl⟩ := mem_map.1 hi
    have hkey := (hc.tabled x i hmem).2
    rw [key, keyOf] at hkey
    split at hkey
    · cases hkey
    · rename_i hl
      injection hkey with hkey
      rw [if_neg hl, hkey]
      exact ⟨i, Table.find?_of_mem hc.keys hmem, rfl⟩

theorem Begun.honest (h : Begun f a states σ) : Honest a f states σ := by
  have ht := h.tabled hc.tabled
  refine ⟨h.grows, ht, ?_⟩
  have hstate : ∀ x i, Table.find? x states = some i → i < σ.2.store.versions.size ∧
      Kept a f states (σ.2.store.version i).variable_ := by
    intro x i hi
    have hmem := Table.mem_of_find? hi
    refine h.grows.keeps ⟨(hc.tabled x i hmem).1, ?_⟩
    exact Meets.kept hc hn (.inr (.inr ⟨i, mem_map.2 ⟨(x, i), hmem, rfl⟩, rfl⟩))
  have hlocal : ∀ x i, Table.find? x σ.1.locals = some i → i < σ.2.store.versions.size ∧
      Kept a f states (σ.2.store.version i).variable_ := by
    intro x i hi
    obtain ⟨hlt, -, hb⟩ := h.locals x i hi
    exact ⟨hlt, Meets.kept hc hn (.inl hb)⟩
  rintro j (⟨K, hK⟩ | ⟨K, hK⟩ | ⟨r, hr, -⟩)
  · cases K with
    | inner x => exact hlocal x j hK
    | state x => exact hstate x j (h.current ▸ hK)
  · cases K with
    | inner x => exact hlocal x j (h.latest ▸ hK)
    | state x => exact hstate x j (h.allStates ▸ hK)
  · rw [h.parts] at hr
    cases hr

theorem Begun.promises (h : Begun f a states σ) : Promises (Kept a f states) f σ := by
  intro m _ i hi k hk
  obtain ⟨p, hp⟩ := mem_iff_getElem?.1 hi
  have hat : σ.2.madeAt f m p = some k := by
    rw [madeAt, hp]
    exact hk
  obtain ⟨v, hv, halike⟩ := h.first m p k hat
  refine ⟨h.distinct.lt m p k hat, ?_⟩
  rw [halike.1]
  exact Meets.kept hc hn hv

theorem Walks.honest (h : Walks f [e] σ visits τ) (hr : Ready f e σ) (hb : Begun f a states σ) :
    ∀ v ∈ visits, Honest a f states v.before ∧ Promises (Kept a f states) f v.before :=
  (h.keeps (P := fun σ => Honest a f states σ ∧ Promises (Kept a f states) f σ) hr ⟨hb.honest hc hn, hb.promises hc hn⟩
    (fun hr hvis hP hconv => ⟨hP.1.converts hn hr hvis hP.2 hconv, hP.2.converts hr hconv⟩)
    (fun hg hσ hτ => ⟨hσ.1.restored hτ.1 hg, hτ.2⟩)).2

end Rename

end ContractAudit
