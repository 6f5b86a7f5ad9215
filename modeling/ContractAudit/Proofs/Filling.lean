import ContractAudit.Proofs.Written

/-! # Values of the places where versions meet

A place where versions meet takes from each of its origins the last version that the origin has under the name of the
variable. Names are all that is looked at: what is taken may be of another variable.
-/

namespace ContractAudit.Rename

open Ir Store List Option Table

variable {s : Store}

variable {first : Table String Nat}

/-! ## What bears a name -/

theorem writtenName?_eq_some : writtenName? a op = some (w, name) ↔
    op.lvalue?.bind a.store.origin = some w ∧ a.program.valueName a.store w = .ok name := by
  unfold writtenName?
  cases op.lvalue? with
  | none => simp
  | some v =>
    cases ho : a.store.origin v with
    | none => simp [ho]
    | some u =>
      cases hu : a.program.valueName a.store u with
      | ok x => simp only; grind
      | error e => simp; grind

theorem originFrom_congr {s' : Store} (hr : s'.references = s.references) (hp : s'.versionParts = s.versionParts) :
    s'.originFrom fuel v = s.originFrom fuel v := by
  induction fuel generalizing v with
  | zero => rfl
  | succ fuel ih =>
    have hpoints : s'.pointsTo v = s.pointsTo v := by
      cases v <;> simp [pointsTo, reference, hr, hp]
    simp [originFrom, hpoints, ih]

/-- All versions that operations of a function write, by themselves or through parts, have been made. -/
structure Bounded (f : FunctionId) (a : Analysis) : Prop where
  distinct : Distinct f a
  plain : ∀ r w, (a.store.reference r).pointsTo = some w → w.Plain
  parts : ∀ r j, a.store.versionParts.getD r none = some (.version j) → j < a.store.versions.size

theorem Bounded.grows (h : Bounded f a) (hg : Grows f a b) (hd : Distinct f b) : Bounded f b where
  distinct := hd
  plain r w hw := h.plain r w (by rwa [reference, hg.references] at hw)
  parts r j hj := (hg.made r j hj).elim (fun hj => Nat.lt_of_lt_of_le (h.parts r j hj) hg.size) id

theorem Bounded.amends (h : Bounded f σ.2) (hs : Amends f P σ τ) : Bounded f τ.2 :=
  h.grows (Amends.grows hs) (h.distinct.changes (Amends.changes hs))

theorem Distinct.lt_of_mem (h : Distinct f a) (hi : i ∈ a.ssa f n)
    (hk : i.op.lvalue? = some (.version k)) : k < a.store.versions.size := by
  obtain ⟨p, hp⟩ := mem_iff_getElem?.1 hi
  exact h.lt n p k (by rw [Analysis.madeAt, hp, bind_some, Instr.made?_eq_some, hk])

theorem Bounded.lt (h : Bounded f a) (hi : i ∈ a.ssa f n)
    (hk : i.op.lvalue?.bind a.store.origin = some (.version k)) : k < a.store.versions.size := by
  obtain ⟨v, hv, ho⟩ := bind_eq_some_iff.1 hk
  cases v with
  | version j =>
    cases ho
    exact h.distinct.lt_of_mem hi hv
  | versionReference r =>
    obtain ⟨r', -, hj⟩ := originFrom_part h.plain (P := fun _ => True) (fun _ _ _ _ => trivial) _
      (.inr ⟨r, trivial, .inl rfl⟩) ho
    exact h.parts r' k hj
  | reference r =>
    obtain ⟨_, hno, -⟩ := originFrom_part h.plain (P := fun _ => False) nofun _ (.inl (.of_single (by simp [Value.flat]) (by simp) (by simp))) ho
    exact hno.elim
  | _ => cases ho

theorem valueName_grows (hg : Grows f a b) (hw : ∀ k, w = .version k → k < a.store.versions.size) :
    b.program.valueName b.store w = a.program.valueName a.store w := by
  rw [hg.program]
  cases w with
  | version k => simp only [Program.valueName, Program.versionName_congr (hg.alike k (hw k rfl))]
  | target t => cases t <;> rfl
  | type t => cases t <;> rfl
  | _ => rfl

/-! ## What a node has under a name -/

/-- What the operations of a node write under a name, a version of a variable that it declares, and at the entry the first
version. -/
inductive Offers (f : FunctionId) (first : Table String Nat) (a : Analysis) (name : String) (m : NodeId) : Value → Prop
  | written {i : Instr} {w : Value} : i ∈ a.ssa f m → writtenName? a i.op = some (w, name) → Offers f first a name m w
  | declared {v : VariableId} {k : Nat} : ((a.flow f).node m).declared = some v → (a.program.var v).name = name →
      k < a.store.versions.size → (a.store.version k).Alike { variable_ := v } → Offers f first a name m (.version k)
  | first {k : Nat} : (a.flow f).kind m = .entryPoint → find? name first = some k → Offers f first a name m (.version k)

/-- The values of a place come from its origins, which have them under the name of the variable. -/
def Taken (f : FunctionId) (first : Table String Nat) (a : Analysis) (r : Nat) (nodes : List NodeId) (values : List Value) :
    Prop :=
  ∀ w ∈ values, ∃ m ∈ nodes, Offers f first a (a.program.versionName (a.store.version r)) m w

/-- An analysis after some changes after the walk. -/
structure Later (f : FunctionId) (a b : Analysis) : Prop where
  grows : Grows f a b
  parts : b.store.versionParts = a.store.versionParts
  kept : ∀ m, ∀ i ∈ a.ssa f m, ∃ i' ∈ b.ssa f m, i'.op.lvalue? = i.op.lvalue?

theorem Amend.later (h : Amend f P σ τ) : Later f σ.2 τ.2 := by
  refine ⟨h.change.grows, ?_, fun m i hi => h.amended.kept hi⟩
  cases h with
  | quiet _ hp => exact hp
  | renew n i hr =>
    obtain ⟨l, -, rfl⟩ := hr
    rfl
  | _ => rfl

theorem Amends.later (h : Amends f P σ τ) : Later f σ.2 τ.2 := by
  induction h with
  | refl => exact ⟨.refl f _, rfl, fun _ i hi => ⟨i, hi, rfl⟩⟩
  | tail _ hs ih =>
    refine ⟨ih.grows.trans hs.later.grows, hs.later.parts.trans ih.parts, fun m i hi => ?_⟩
    obtain ⟨i', hi', hlv⟩ := ih.kept m i hi
    exact (hs.later.kept m i' hi').imp fun _ hj => ⟨hj.1, hj.2.trans hlv⟩

theorem Offers.later (h : Later f a b) (hb : Bounded f a) (ho : Offers f first a name m w) : Offers f first b name m w := by
  cases ho with
  | @written i w hi hw =>
    obtain ⟨ho, hname⟩ := writtenName?_eq_some.1 hw
    obtain ⟨i', hi', hlv⟩ := h.kept m i hi
    have horigin : b.store.origin = a.store.origin := by
      funext v
      rw [origin, h.grows.references, originFrom_congr h.grows.references h.parts]
      rfl
    refine .written hi' (writtenName?_eq_some.2 ⟨by rw [hlv, horigin, ho], ?_⟩)
    rw [valueName_grows h.grows fun k hk => hb.lt hi (hk ▸ ho), hname]
  | @declared v k hd hname hk hv =>
    refine .declared (h.grows.flow.symm ▸ hd) (h.grows.program.symm ▸ hname) (Nat.lt_of_lt_of_le hk h.grows.size) ?_
    exact (h.grows.alike k hk).trans hv
  | first hm hk => exact .first (h.grows.flow.symm ▸ hm) hk

theorem latest_mem (h : latest s vs = some w) : w ∈ vs := by
  cases vs with
  | nil => cases h
  | cons v vs =>
    have hbest : ∀ (vs : List Value) (v : Value), vs.foldl
        (fun best w => if latest.index s w > latest.index s best then w else best) v ∈ v :: vs := by
      intro vs
      induction vs with
      | nil => simp
      | cons u vs ih =>
        intro v
        rw [foldl_cons]
        rcases mem_cons.1 (ih (if latest.index s u > latest.index s v then u else v)) with hmem | hmem
        · rw [hmem]
          split <;> simp
        · exact mem_cons_of_mem _ (mem_cons_of_mem _ hmem)
    cases h
    exact hbest vs v

theorem lastVersion_cases (h : Runs (lastVersion f first name m) σ w τ) :
    (∃ i ∈ σ.2.ssa f m, writtenName? σ.2 i.op = some (w, name)) ∨
    (∃ v, ((σ.2.flow f).node m).declared = some v ∧ (σ.2.program.var v).name = name ∧
      w = .version σ.2.store.versions.size ∧ τ = (σ.1, σ.2.addVersion { variable_ := v })) ∨
    (σ.2.flow f).kind m = .entryPoint ∧ ∃ k, find? name first = some k ∧ w = .version k := by
  replace h := runs_analysis_bind.1 h
  obtain ⟨ds, υ, hds, h⟩ := runs_bind.1 h
  replace h := runs_analysis_bind.1 h
  split at h
  next u hu =>
    obtain ⟨rfl, rfl⟩ := runs_pure.1 h
    rcases mem_append.1 (latest_mem hu) with hmem | hmem
    · rcases mem_append.1 hmem with hmem | hmem
      · obtain ⟨i, hi, hname⟩ := mem_filterMap.1 hmem
        obtain ⟨⟨v, x⟩, hv, hx⟩ := bind_eq_some_iff.1 hname
        have hx : x = name ∧ v = w := by simpa using hx
        exact .inl ⟨i, hi, hx.1 ▸ hx.2 ▸ hv⟩
      · rcases declaredVersion_cases hds with ⟨rfl, -⟩ | ⟨v, hd, hname, rfl, hτ⟩
        · cases hmem
        · exact .inr (.inl ⟨v, hd, hname, mem_singleton.1 hmem, hτ⟩)
    · split at hmem
      next hm =>
        obtain ⟨k, hk, rfl⟩ : ∃ k, find? name first = some k ∧ .version k = w := by simpa using hmem
        exact .inr (.inr ⟨by simpa using hm, k, hk, rfl⟩)
      next => cases hmem
  next => exact absurd h not_runs_fail

theorem lastVersion_runs_iff : (∃ w τ, Runs (lastVersion f first name m) σ w τ) ↔
    (∃ i ∈ σ.2.ssa f m, ∃ w, writtenName? σ.2 i.op = some (w, name)) ∨
    (∃ v, ((σ.2.flow f).node m).declared = some v ∧ (σ.2.program.var v).name = name) ∨
    (σ.2.flow f).kind m = .entryPoint ∧ (find? name first).isSome := by
  constructor
  · rintro ⟨w, τ, h⟩
    rcases lastVersion_cases h with ⟨i, hi, hw⟩ | ⟨v, hd, hname, -⟩ | ⟨hm, k, hk, -⟩
    · exact .inl ⟨i, hi, w, hw⟩
    · exact .inr (.inl ⟨v, hd, hname⟩)
    · exact .inr (.inr ⟨hm, by simp [hk]⟩)
  · intro h
    obtain ⟨ds, τ, hds, hdeclared⟩ : ∃ ds τ, Runs (declaredVersion f name m) σ ds τ ∧
        ∀ v, ((σ.2.flow f).node m).declared = some v → (σ.2.program.var v).name = name → ds ≠ [] := by
      cases hd : ((σ.2.flow f).node m).declared with
      | none => exact ⟨[], σ, runs_analysis_bind.2 (by rw [hd]; exact runs_pure.2 ⟨rfl, rfl⟩), by simp⟩
      | some v =>
        by_cases hv : (σ.2.program.var v).name = name
        · refine ⟨[.version σ.2.store.versions.size], (σ.1, σ.2.addVersion { variable_ := v }), runs_analysis_bind.2 ?_, by simp⟩
          rw [hd]
          dsimp only
          rw [if_pos (by simpa using hv)]
          exact runs_make_bind.2 (runs_pure.2 ⟨rfl, rfl⟩)
        · refine ⟨[], σ, runs_analysis_bind.2 ?_, fun u hu hname => absurd (some.inj hu ▸ hname) hv⟩
          rw [hd]
          dsimp only
          rw [if_neg (by simpa using hv)]
          exact runs_pure.2 ⟨rfl, rfl⟩
    -- the list that the last one is taken from has an item
    have hsome : (σ.2.ssa f m).filterMap (fun i =>
        (writtenName? σ.2 i.op).bind fun w => if w.2 == name then some w.1 else none) ++ ds ++
        (if (σ.2.flow f).kind m == .entryPoint then ((find? name first).map Value.version).toList else []) ≠ [] := by
      intro hnil
      obtain ⟨hwritten, hentry⟩ := append_eq_nil_iff.1 hnil
      obtain ⟨hwritten, hds⟩ := append_eq_nil_iff.1 hwritten
      rcases h with ⟨i, hi, w, hw⟩ | ⟨v, hd, hname⟩ | ⟨hm, hk⟩
      · simpa [hw] using filterMap_eq_nil_iff.1 hwritten i hi
      · exact hdeclared v hd hname hds
      · obtain ⟨k, hk⟩ := isSome_iff_exists.1 hk
        simp [hm, hk] at hentry
    obtain ⟨v, vs, hvs⟩ := exists_cons_of_ne_nil hsome
    obtain ⟨u, hu⟩ : ∃ u, latest τ.2.store (v :: vs) = some u := ⟨_, rfl⟩
    refine ⟨u, τ, runs_analysis_bind.2 (runs_bind.2 ⟨ds, τ, hds, runs_analysis_bind.2 ?_⟩)⟩
    erw [hvs, hu]
    exact runs_pure.2 ⟨rfl, rfl⟩

theorem lastVersion_offers (hb : Bounded f σ.2) (h : Runs (lastVersion f first name m) σ w τ) :
    Offers f first τ.2 name m w := by
  have hlater (ho : Offers f first σ.2 name m w) : Offers f first τ.2 name m w :=
    ho.later (Amends.later (lastVersion_makes (P := Taken f first) h).1) hb
  rcases lastVersion_cases h with ⟨i, hi, hw⟩ | ⟨v, hd, hname, rfl, rfl⟩ | ⟨hm, k, hk, rfl⟩
  · exact hlater (.written hi hw)
  · exact .declared hd hname (by simp) (by rw [Analysis.version_addVersion, if_pos rfl]; exact .refl _)
  · exact hlater (.first hm hk)

theorem lastVersions_offer {nodes : List NodeId} {values : List Value} (hb : Bounded f σ.2)
    (h : Runs (nodes.mapM (lastVersion f first name)) σ values τ) :
    ∀ w ∈ values, ∃ m ∈ nodes, Offers f first τ.2 name m w := by
  induction nodes generalizing σ values with
  | nil =>
    obtain ⟨rfl, rfl⟩ := runs_pure.1 h
    simp
  | cons m nodes ih =>
    rw [mapM_cons] at h
    obtain ⟨w, υ, hw, h⟩ := runs_bind.1 h
    obtain ⟨ws, hws, rfl⟩ := runs_bind_pure h
    have hmakes := (lastVersion_makes (P := Taken f first) hw).1
    have hmakes' := (lastVersions_make (P := Taken f first) hws).1
    have hbυ := hb.amends hmakes
    refine forall_mem_cons.2 ⟨⟨m, by simp, (lastVersion_offers hb hw).later (Amends.later hmakes') hbυ⟩, fun w hw => ?_⟩
    exact (ih hbυ hws w hw).imp fun m hm => ⟨by simp [hm.1], hm.2⟩

/-! ## What completion does -/

/-- There are only changes after the walk, and each place takes its values from its origins, if all that is written has been
made. -/
def Completes (f : FunctionId) (first : Table String Nat) (σ τ : State) : Prop :=
  Bounded f σ.2 → Amends f (Taken f first) σ τ

instance : IsPreorder State (Completes f first) where
  refl _ _ := .refl
  trans _ _ _ h h' hb := (h hb).trans (h' (hb.amends (h hb)))

theorem completeAt_completes (n : NodeId) (k : Nat) : Keeps (Completes f first) (completeAt f first n k) := by
  intro σ u τ h hb
  refine completeAt_amends h fun r nodes values υ x hi hv => ?_
  have hr : r < σ.2.store.versions.size := hb.distinct.lt_of_mem (mem_of_getElem? hi) rfl
  have hg := Amends.grows (lastVersions_make (P := Taken f first) hv).1
  rw [Taken, hg.program, Program.versionName_congr (hg.alike r hr)]
  exact lastVersions_offer hb hv

theorem complete_completes : Keeps (Completes f first) (complete f first fuel n) :=
  complete_keeps completeAt_completes (fun s h hb => (h hb).tail (.back s _)) fuel n

end ContractAudit.Rename
