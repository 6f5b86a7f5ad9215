import ContractAudit.Proofs.Reading
import ContractAudit.Vyper.Functions

/-! # Names of local variables

A variable that is declared gets a name that no variable of its function has, also where names look like those that were made
before. So no variable is lost in the table of names.
-/

namespace ContractAudit

open List

namespace Reader

open Load

/-- The names that are tried get longer, so the search ends before its bound. -/
theorem freshName_not_mem (longer : List String) (h : freshName known fuel name k = (x, k'))
    (hlonger : ∀ y ∈ known, name.length ≤ y.length → y ∈ longer) (hfuel : longer.length < fuel) : x ∉ known := by
  induction fuel generalizing name k longer with
  | zero => omega
  | succ fuel ih =>
    rw [freshName] at h
    split at h
    · next hname =>
      have hmem : name ∈ longer := hlonger name (by simpa using hname) (Nat.le_refl _)
      have hscope : (toString "_scope_").length = 7 := rfl
      have hgrows : (name ++ s!"_scope_{k}").length = name.length + (7 + (toString k).length) := by
        simp [String.length_append, hscope]
      have hrest := length_erase_of_mem hmem
      have hpos := length_pos_of_mem hmem
      refine ih (longer.erase name) h (fun y hy hlen => ?_) (by omega)
      exact (mem_erase_of_ne (by rintro rfl; omega)).2 (hlonger y hy (by omega))
    · next hname =>
      cases h
      simpa using hname

variable {p q : Program} {s t : State}

/-- Variables of a function that have a name are found under it. -/
def Told (f : FunctionId) (vs : List VariableId) (p : Program) : Prop :=
  ∀ v ∈ vs, (p.var v).name ≠ "" → Table.find? (p.var v).name (p.function f).vars = some v

/-- One more variable in the table of a function, under a name that no other has. -/
structure Enters (f : FunctionId) (v : VariableId) (p q : Program) : Prop where
  functions : q.functionTable = (p.modifyFunction f fun fn => { fn with vars := fn.vars.insert (q.var v).name v }).functionTable
  others : ∀ w ≠ v, q.var w = p.var w
  fresh : (q.var v).name ≠ "" → (q.var v).name ∉ (p.function f).vars.values.map fun w => (p.var w).name

theorem addLocal_runs (h : addLocal f v s = .ok u t) : Enters f v s.program t.program := by
  unfold addLocal at h
  obtain ⟨p, s, hp, h⟩ := bind_runs h
  cases hp
  extract_lets -underBinder name rest known at h
  -- the variable is entered under the name that it has then
  have hrest : ∀ {s : State}, rest ⟨⟩ s = .ok u t →
      t.program = s.program.modifyFunction f fun fn => { fn with vars := fn.vars.insert (s.program.var v).name v } := by
    intro s h
    obtain ⟨d, s₁, hd, h⟩ := bind_runs h
    cases hd
    obtain ⟨_, s₁, hd, h⟩ := bind_runs h
    unfold require at hd
    split at hd <;> cases hd
    split at h <;> cases h <;> rfl
  split at h
  next hname =>
    obtain ⟨d, s, hd, h⟩ := bind_runs h
    cases hd
    generalize hx : freshName known _ _ _ = r at h
    obtain ⟨x, k⟩ := r
    obtain ⟨_, s₁, hd, h⟩ := bind_runs h
    cases hd
    obtain ⟨_, s₁, hd, h⟩ := bind_runs h
    cases hd
    have hvar : ∀ w, t.program.var w =
        if v = w ∧ w < s.program.variableTable.size then { s.program.var w with name := x } else s.program.var w := by
      rw [hrest h]
      exact fun w => getD_modify ..
    have hv : v < s.program.variableTable.size := by
      by_contra hv
      simp [name, Program.var, Nat.le_of_not_lt hv] at hname
      exact hname rfl
    refine ⟨?_, fun w hw => (hvar w).trans (if_neg fun h => hw h.1.symm), fun _ => ?_⟩
    · rw [hrest h]
      rfl
    · rw [hvar, if_pos ⟨rfl, hv⟩]
      exact freshName_not_mem _ hx (fun _ h _ => h) (Nat.lt_succ_self _)
  next hname =>
    rw [hrest h]
    exact ⟨rfl, fun _ _ => rfl, fun h => absurd (show name = "" by simpa using hname) h⟩

theorem Enters.told (h : Enters f v p q) (hf : f < p.functionTable.size) (hp : Told f ws p) (hv : v ∉ ws) :
    Told f (ws ++ [v]) q := by
  intro w hw hname
  have hvars : (q.function f).vars = (p.function f).vars.insert (q.var v).name v := by
    rw [Program.function, h.functions]
    exact congrArg Function.vars ((State.function_modifyFunction ..).trans (if_pos ⟨rfl, hf⟩))
  rw [hvars, Table.find?_insert]
  rcases mem_append.1 hw with hw | hw
  · rw [h.others w fun h => hv (h ▸ hw)] at hname ⊢
    have hfind := hp w hw hname
    rw [if_neg, hfind]
    intro heq
    refine h.fresh (heq ▸ hname) (mem_map.2 ⟨w, ?_, heq⟩)
    exact mem_map.2 ⟨_, Table.mem_of_find? hfind, rfl⟩
  · rw [mem_singleton.1 hw, if_pos rfl]

theorem forM_told (ws) (hf : f < s.program.functionTable.size) (hs : Told f ws s.program) (hvs : (ws ++ vs).Nodup)
    (h : vs.forM (addLocal f) s = .ok u t) : Told f (ws ++ vs) t.program := by
  induction vs generalizing ws s with
  | nil =>
    cases h
    simpa using hs
  | cons v vs ih =>
    obtain ⟨_, s₁, hv, h⟩ := bind_runs h
    have hstep := addLocal_runs hv
    rw [append_cons] at hvs ⊢
    have hnew : v ∉ ws := fun hw => (nodup_append.1 (nodup_append.1 hvs).1).2.2 v hw v (mem_singleton_self v) rfl
    refine ih _ ?_ (hstep.told hf hs hnew) hvs h
    rw [hstep.functions]
    exact (Array.size_modify ..).symm ▸ hf

end Reader

/-- No two variables that have a name have the same. -/
def Vyper.Draft.Told (d : Draft) : Prop := d.locals.Pairwise fun x y => x.name ≠ "" → x.name ≠ y.name

theorem Vyper.Draft.Told.addLocal (h : Told d) (x : Local) : (d.addLocal x).Told := by
  unfold Draft.addLocal
  extract_lets known
  generalize hx : (if x.name == "" then _ else _) = r
  refine pairwise_append.2 ⟨h, pairwise_singleton _ _, fun y hy z hz hname heq => ?_⟩
  obtain rfl := mem_singleton.1 hz
  split at hx
  · next hempty =>
    obtain rfl := hx
    exact hname (heq.trans (by simpa using hempty))
  · exact Reader.freshName_not_mem _ hx (fun _ h _ => h) (Nat.lt_succ_self _) (mem_map.2 ⟨y, hy, heq⟩)

open Reader in
/-- The search for a name ends at one that is not taken. Variables that are added to a function one after the other are found
under their names, so no two have the same, unless it is empty. -/
theorem local_names_differ {s t : State} (hf : f < s.program.functionTable.size) (hvs : vs.Nodup)
    (h : vs.forM (addLocal f) s = .ok u t) :
    (∀ known fuel name k, known.length < fuel → (freshName known fuel name k).1 ∉ known) ∧ Told f vs t.program ∧
      (∀ v ∈ vs, ∀ w ∈ vs, (t.program.var v).name = (t.program.var w).name → (t.program.var v).name ≠ "" → v = w) ∧
      ∀ xs : List Vyper.Local, (xs.foldl Vyper.Draft.addLocal {}).Told := by
  have htold : Told f vs t.program := forM_told [] hf nofun hvs h
  refine ⟨fun _ _ _ _ => freshName_not_mem _ rfl fun _ h _ => h, htold, fun v hv w hw heq hname => ?_, fun xs => ?_⟩
  · have hfind := htold w hw (heq ▸ hname)
    rw [← heq, htold v hv hname] at hfind
    exact Option.some.inj hfind
  · exact List.foldlRecOn xs _ .nil fun d hd x _ => hd.addLocal x

/-- Two variables `x` and one that is named as the second `x` will be. -/
def alikeLocals : Reader.State :=
  { program := { functionTable := #[default], variableTable := #["x", "x", "x_scope_0"].map fun name => { (default : Variable) with name } }
    functionDrafts := #[default], variableDrafts := .replicate 3 { reference := some (.str "1") } }

theorem alikeLocals_differ : ∃ u t, [0, 1, 2].forM (Reader.addLocal 0) alikeLocals = .ok u t ∧
    (t.program.var 2).name = "x_scope_0_scope_1" ∧ Reader.Told 0 [0, 1, 2] t.program := by
  obtain ⟨u, t, h, hname⟩ := exists_runs (x := [0, 1, 2].forM (Reader.addLocal 0)) (s := alikeLocals)
    (fun _ t => (t.program.var 2).name = "x_scope_0_scope_1") (by decide +kernel)
  exact ⟨u, t, h, hname, (local_names_differ (by decide) (by decide) h).2.1⟩

end ContractAudit
