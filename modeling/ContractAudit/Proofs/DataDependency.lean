import ContractAudit.Analysis.Dependency
import ContractAudit.Proofs.Course
import Mathlib.Algebra.Order.Group.Nat
import Mathlib.Data.Finset.Card

/-! # What contracts know of data dependency

A key that several functions know keeps what the first of them says, so the dependencies of a contract are all that can be
reached when functions agree on the keys they share. What counts as taint depends on the questions asked before.
-/

namespace ContractAudit

open Relation (TransGen)
open Table (find? has keys)
open List hiding find?

/-! ## Closed maps -/

namespace Dependencies

variable {m new : Dependencies} {ms : List Dependencies}

/-- A map says that one item depends on another. -/
def Says (m : Dependencies) (k v : Item) : Prop := v ∈ m.of k

instance : Decidable (m.Says k v) := inferInstanceAs (Decidable (v ∈ m.of k))

theorem mem_further : v ∈ m.further k items ↔ (∃ x ∈ items, m.Says x v) ∧ v ≠ k ∧ v ∉ items := by
  simp [further, mem_addAllNew, Says]
  grind

theorem says_round : m.round.Says k v ↔ m.Says k v ∨ (∃ x, m.Says k x ∧ m.Says x v) ∧ v ≠ k := by
  unfold Says of round
  rw [Table.find?_map fun key items => items ++ m.further key items]
  cases find? k m with
  | none => simp
  | some items =>
    simp only [Option.map_some, Option.getD_some, mem_append, mem_further, Says, of]
    grind

variable (n : Nat) (all : List Item)

theorem says_iterate_round : (round^[n] m).Says k v → TransGen m.Says k v ∧ (v ≠ k ∨ m.Says k v) := by
  induction n generalizing k v with
  | zero => exact fun h => ⟨.single h, .inr h⟩
  | succ n ih =>
    rw [Function.iterate_succ_apply', says_round]
    rintro (h | ⟨⟨x, hx, hv⟩, hne⟩)
    · exact ih h
    · exact ⟨(ih hx).1.trans (ih hv).1, .inl hne⟩

theorem says_of_says_iterate (h : m.Says k v) : (round^[n] m).Says k v := by
  induction n with
  | zero => exact h
  | succ n ih =>
    rw [Function.iterate_succ_apply', says_round]
    exact .inl ih

/-- How much the keys of a map lack of some items. -/
def room (m : Dependencies) : Nat := (m.map fun p => (all.toFinset \ p.2.toFinset).card).sum

theorem room_le : room all m ≤ m.length * all.length := by
  have hle : ∀ r ∈ m.map fun p => (all.toFinset \ p.2.toFinset).card, r ≤ all.length := by
    simp only [mem_map]
    rintro _ ⟨p, -, rfl⟩
    exact (Finset.card_le_card Finset.sdiff_subset).trans all.toFinset_card_le
  simpa [room] using sum_le_card_nsmul _ _ hle

theorem size_round : m.round.size = m.size + (m.map fun p => (m.further p.1 p.2).length).sum := by
  unfold size round
  simp [Function.comp_def]

theorem room_round_lt {all : List Item} (hall : ∀ p ∈ m, p.2 ⊆ all) (hsize : m.round.size ≠ m.size) :
    (∀ p ∈ m.round, p.2 ⊆ all) ∧ room all m.round < room all m := by
  have hfurther : ∀ p : Item × List Item, ∀ v ∈ m.further p.1 p.2, v ∈ all ∧ v ∉ p.2 := by
    intro p v hv
    obtain ⟨⟨x, -, hx⟩, -, hnot⟩ := mem_further.1 hv
    refine ⟨?_, hnot⟩
    cases hfind : find? x m with
    | none => simp [Says, of, hfind] at hx
    | some items => exact hall _ (Table.mem_of_find? hfind) (by simpa [Says, of, hfind] using hx)
  constructor
  · intro q hq
    obtain ⟨p, hp, rfl⟩ := mem_map.1 hq
    exact append_subset.2 ⟨hall p hp, fun v hv => (hfurther p v hv).1⟩
  · have hgrown : ∃ p ∈ m, m.further p.1 p.2 ≠ [] := by
      by_contra hnone
      push Not at hnone
      refine hsize ?_
      rw [size_round, map_congr_left (g := fun _ => 0) fun p hp => by rw [hnone p hp]; rfl]
      simp
    unfold room round
    rw [map_map]
    refine sum_lt_sum _ _ (fun p _ => ?_) ?_
    · exact Finset.card_le_card (Finset.sdiff_subset_sdiff subset_rfl fun x hx => by simp_all)
    · obtain ⟨p, hp, hne⟩ := hgrown
      obtain ⟨v, hv⟩ := exists_mem_of_ne_nil _ hne
      obtain ⟨hmem, hnot⟩ := hfurther p v hv
      refine ⟨p, hp, Finset.card_lt_card (Finset.ssubset_iff_of_subset ?_ |>.2 ⟨v, ?_, ?_⟩)⟩
      · exact Finset.sdiff_subset_sdiff subset_rfl fun x hx => by simp_all
      · simp [hmem, hnot]
      · simp [hv]

theorem round_eq_self (hsize : m.round.size = m.size) : m.round = m := by
  rw [size_round] at hsize
  have hnone : ∀ p ∈ m, m.further p.1 p.2 = [] := by
    intro p hp
    have := single_le_sum (l := m.map fun p => (m.further p.1 p.2).length) (by simp) _ (mem_map_of_mem hp)
    exact length_eq_zero_iff.1 (by omega)
  conv_rhs => rw [← map_id m]
  refine map_congr_left fun p hp => ?_
  change (p.1, p.2 ++ m.further p.1 p.2) = p
  rw [hnone p hp, append_nil]

/-- The rounds go on as long as they add something, and end where nothing is added. -/
theorem rounds_eq_iterate (hall : ∀ p ∈ m, p.2 ⊆ all) (hfuel : room all m ≤ fuel) :
    ∃ n, rounds fuel m = round^[n] m ∧ (∀ i < n, round^[i + 1] m ≠ round^[i] m) ∧ (rounds fuel m).round = rounds fuel m := by
  induction fuel generalizing m with
  | zero =>
    refine ⟨0, rfl, by simp, round_eq_self ?_⟩
    by_contra hsize
    have := (room_round_lt hall hsize).2
    omega
  | succ fuel ih =>
    rw [rounds]
    split
    next hsize => exact ⟨0, rfl, by simp, round_eq_self (by simpa using hsize)⟩
    next hsize =>
      have hsize : m.round.size ≠ m.size := by simpa using hsize
      obtain ⟨hall', hlt⟩ := room_round_lt hall hsize
      obtain ⟨n, hn, hgrown, hend⟩ := ih hall' (by omega)
      refine ⟨n + 1, hn, fun i hi => ?_, hend⟩
      cases i with
      | zero => exact fun h => hsize (congrArg size h)
      | succ i => exact hgrown i (by omega)

theorem close_eq_iterate : ∃ n, m.close = round^[n] m ∧ (∀ i < n, round^[i + 1] m ≠ round^[i] m) ∧ m.close.round = m.close := by
  refine rounds_eq_iterate _ (fun p hp v hv => mem_flatMap.2 ⟨p, hp, hv⟩) ?_
  simpa [size] using room_le (m := m) (m.flatMap (·.2))

/-- A closed map says what can be reached. Nothing comes to depend on itself. -/
theorem says_close : m.close.Says k v ↔ TransGen m.Says k v ∧ (v ≠ k ∨ m.Says k v) := by
  obtain ⟨n, hn, -, hend⟩ := close_eq_iterate (m := m)
  constructor
  · rw [hn]
    exact says_iterate_round n
  · rintro ⟨hway, hv⟩
    have hall : ∀ {k v}, m.Says k v → m.close.Says k v := fun h => hn ▸ says_of_says_iterate n h
    rcases hv with hne | h
    -- the last item before `v` is `k` again, or it is reached as well
    · induction hway with
      | single h => exact hall h
      | @tail x v _ hv ih =>
        by_cases hx : x = k
        · exact hall (hx ▸ hv)
        · rw [← hend, says_round]
          exact .inr ⟨⟨x, ih hx, hall hv⟩, hne⟩
    · exact hall h

theorem keys_iterate_round : (round^[n] m).keys = m.keys := by
  induction n with
  | zero => rfl
  | succ n ih =>
    rw [Function.iterate_succ_apply', ← ih]
    simp [Table.keys, round]

/-- Closing a map takes some rounds that each add something, up to one that does not. It leaves the keys as they are, and adds to
each of them all other items that can be reached. -/
theorem close_exact : (∃ n, m.close = round^[n] m ∧ (∀ i < n, round^[i + 1] m ≠ round^[i] m) ∧ m.close.round = m.close) ∧
    m.close.keys = m.keys ∧ ∀ k v, v ∈ m.close.of k ↔ v ∈ m.of k ∨ v ≠ k ∧ TransGen (fun x y => y ∈ m.of x) k v := by
  obtain ⟨n, hn, hend⟩ := close_eq_iterate (m := m)
  refine ⟨⟨n, hn, hend⟩, hn ▸ keys_iterate_round n, fun k v => says_close.trans ?_⟩
  constructor
  · rintro ⟨hway, hne | h⟩
    · exact .inr ⟨hne, hway⟩
    · exact .inl h
  · rintro (h | ⟨hne, hway⟩)
    · exact ⟨.single h, .inr h⟩
    · exact ⟨hway, .inl hne⟩

/-! ## Maps put together -/

theorem find?_absorb : find? k (m.absorb new) = (find? k m).or (find? k new) := by
  unfold absorb
  induction new generalizing m with
  | nil => simp [find?]
  | cons p new ih =>
    obtain ⟨k', items⟩ := p
    rw [foldl_cons, ih, find?]
    by_cases hk : k' = k
    · subst hk
      cases hm : find? k' m <;> simp [has, hm, Table.find?_insert]
    · by_cases hm : has k' m = true <;> simp [hm, Table.find?_insert, hk, Ne.symm hk]

/-- What the first of some maps says that has the key. -/
def FirstSays (ms : List Dependencies) (k v : Item) : Prop := Says ((ms.find? (has k)).getD []) k v

def OneSays (ms : List Dependencies) (k v : Item) : Prop := ∃ m ∈ ms, m.Says k v

/-- Maps that share a key say the same of it. -/
def Agree (ms : List Dependencies) : Prop :=
  ∀ m ∈ ms, ∀ m' ∈ ms, ∀ k v, has k m → has k m' → m.Says k v → m'.Says k v

theorem find?_absorbAll : find? k (ms.foldl absorb m) =
    (find? k m).or ((ms.find? (has k)).bind (find? k)) := by
  induction ms generalizing m with
  | nil => simp
  | cons new ms ih =>
    rw [foldl_cons, ih, find?_absorb]
    cases hnew : find? k new <;> simp [has, hnew]

theorem says_absorbAll : (ms.foldl absorb []).Says k v ↔ FirstSays ms k v := by
  simp only [FirstSays, Says, of, find?_absorbAll]
  cases ms.find? (has k) <;> simp [find?]

theorem Agree.first (h : Agree ms) (hone : OneSays ms k v) : FirstSays ms k v := by
  obtain ⟨m, hm, hv⟩ := hone
  have hhas : has k m := by
    cases hfind : find? k m <;> simp_all [has, Says, of]
  obtain ⟨m', hfirst⟩ := Option.isSome_iff_exists.1 (find?_isSome.2 ⟨m, hm, hhas⟩)
  rw [FirstSays, hfirst]
  exact h m hm m' (mem_of_find?_eq_some hfirst) k v hhas (find?_some hfirst) hv

/-- It says what the first of some maps that have a key lead to. Where these maps agree, that is all they lead to. -/
structure Closes (ms : List Dependencies) (m : Dependencies) : Prop where
  says_iff : ∀ k v, m.Says k v ↔ TransGen (FirstSays ms) k v ∧ (v ≠ k ∨ FirstSays ms k v)
  complete : Agree ms → ∀ k v, TransGen (OneSays ms) k v → v ≠ k ∨ OneSays ms k v → m.Says k v

theorem closes_absorbAll : Closes ms (ms.foldl absorb []).close := by
  have hfirst : (ms.foldl absorb []).Says = FirstSays ms := by
    funext k v
    exact propext says_absorbAll
  have hsaid : ∀ k v, (ms.foldl absorb []).close.Says k v ↔ TransGen (FirstSays ms) k v ∧ (v ≠ k ∨ FirstSays ms k v) :=
    fun k v => by rw [says_close, hfirst]
  refine ⟨hsaid, fun hagree k v hway hv => (hsaid k v).2 ⟨?_, hv.imp_right hagree.first⟩⟩
  exact TransGen.mono (fun _ _ => hagree.first) k v hway

end Dependencies

/-! ## Contracts -/

namespace Analyze

open Dependencies

/-- Only what is noted about dependencies differs. -/
def Notes (a b : Analysis) : Prop := ∃ fs cs xs ys, b = { a with
  functionDependencies := fs, contractDependencies := cs, inputs := xs, inputVersions := ys }

theorem Notes.trans (h : Notes a a₁) (h' : Notes a₁ b) : Notes a b := by
  obtain ⟨fs, cs, xs, ys, rfl⟩ := h
  obtain ⟨fs', cs', xs', ys', rfl⟩ := h'
  exact ⟨fs', cs', xs', ys', rfl⟩

theorem Notes.dependenciesOf (h : Notes a b) (f : FunctionId) : b.dependenciesOf f = a.dependenciesOf f := by
  obtain ⟨fs, cs, xs, ys, rfl⟩ := h
  rfl

variable {fs : List FunctionId}

theorem lifted_runs (hrun : lifted x a = .ok r b) : x = .ok r ∧ a = b := by
  cases x <;> cases hrun
  exact ⟨rfl, rfl⟩

theorem functionDependencies_runs (hrun : functionDependencies m f a = .ok m' b) :
    Notes a b ∧ ∃ d, a.dependenciesOf f = .ok d ∧ m'.versions = m.versions.absorb d.versions ∧
      m'.openVersions = m.openVersions.absorb d.openVersions := by
  obtain ⟨a₀, s, hget, hrun⟩ := bind_runs hrun
  cases hget
  obtain ⟨d, s, hd, hrun⟩ := bind_runs hrun
  obtain ⟨hmaps, rfl⟩ := lifted_runs hd
  obtain ⟨u, s, hnote, hrun⟩ := bind_runs hrun
  cases hnote
  obtain ⟨isOpen, s, hopen, hrun⟩ := bind_runs hrun
  obtain ⟨-, rfl⟩ := lifted_runs hopen
  split at hrun
  · obtain ⟨u, s, hinputs, hrun⟩ := bind_runs hrun
    cases hinputs
    cases hrun
    exact ⟨⟨_, _, _, _, rfl⟩, d, hmaps, rfl, rfl⟩
  · cases hrun
    exact ⟨⟨_, _, _, _, rfl⟩, d, hmaps, rfl, rfl⟩

theorem foldlM_runs (hrun : fs.foldlM functionDependencies m a = .ok m' b) :
    Notes a b ∧ ∃ ds, fs.mapM a.dependenciesOf = .ok ds ∧ m'.versions = (ds.map (·.versions)).foldl absorb m.versions ∧
      m'.openVersions = (ds.map (·.openVersions)).foldl absorb m.openVersions := by
  induction fs generalizing m a with
  | nil =>
    cases hrun
    exact ⟨⟨_, _, _, _, rfl⟩, [], rfl, rfl, rfl⟩
  | cons f fs ih =>
    obtain ⟨m₁, a₁, hf, hrun⟩ := bind_runs hrun
    obtain ⟨hnotes, d, hd, hversions, hopen⟩ := functionDependencies_runs hf
    obtain ⟨hnotes', ds, hds, hversions', hopen'⟩ := ih hrun
    rw [funext hnotes.dependenciesOf] at hds
    refine ⟨hnotes.trans hnotes', d :: ds, ?_, by rw [hversions', hversions]; rfl, by rw [hopen', hopen]; rfl⟩
    rw [mapM_cons, hd, hds]
    rfl

/-- The maps of a contract are put together from those of its functions and modifiers, in their order, and closed. -/
theorem contractDependencies_closes (hrun : contractDependencies c a = .ok () b) : ∃ ds m,
    (codeOf a.program c).mapM a.dependenciesOf = .ok ds ∧ Table.find? c b.contractDependencies = some m ∧
      Closes (ds.map (·.versions)) m.versions ∧ Closes (ds.map (·.openVersions)) m.openVersions := by
  obtain ⟨u, a₀, hstart, hrun⟩ := bind_runs hrun
  cases hstart
  obtain ⟨p, a₀, hp, hrun⟩ := bind_runs hrun
  cases hp
  obtain ⟨m, a₁, hfold, hrun⟩ := bind_runs hrun
  obtain ⟨-, ds, hds, hversions, hopen⟩ := foldlM_runs hfold
  cases hrun
  refine ⟨ds, _, hds, by rw [Table.find?_insert, if_pos rfl], ?_, ?_⟩
  · rw [show _ = (m.versions.close) from rfl, hversions]
    exact closes_absorbAll
  · rw [show _ = (m.openVersions.close) from rfl, hopen]
    exact closes_absorbAll

/-- Two functions write to one version of a mapping, the first what is in a tuple, the second what is in another. -/
def twoWriters (tuple : Nat) : Analysis where
  program := {
    variableTable := #[{ kind := .state 0, name := "m" }]
    functionTable := Array.replicate 2 {
      place := .inContract 0 0, visibility := some "public"
      flow := { nodes := #[{ kind := .entryPoint }], order := [0] } }
    contractTable := #[{ name := "C", id := 0, scope := 0, functions := [("f()", 0), ("g()", 1)] }] }
  store := { versions := #[{ variable_ := 0 }], versionParts := #[some (.version 0), some (.version 0)] }
  code := #[
    { nodes := #[{ ssa := [{ op := .unpack (.versionReference 0) (.tuple 0) 0 }] }] },
    { nodes := #[{ ssa := [{ op := .unpack (.versionReference 1) (.tuple tuple) 0 }] }] }]

/-- If the tuples are one, the contract knows it. -/
theorem sameTuple_known : ∃ b m, contractDependencies 0 (twoWriters 0) = .ok () b ∧
    Table.find? 0 b.contractDependencies = some m ∧ m.versions.Says (.version 0) (.tuple 0) := by
  obtain ⟨⟨⟩, b, hrun, -⟩ := exists_runs (x := contractDependencies 0) (s := twoWriters 0) (fun _ _ => True)
    (by decide +kernel)
  obtain ⟨ds, m, hds, hm, hversions, -⟩ := contractDependencies_closes hrun
  obtain rfl := Except.ok.inj hds
  refine ⟨b, m, hrun, hm, (hversions.says_iff _ _).2 ⟨.single ?_, .inl nofun⟩⟩
  unfold FirstSays
  decide +kernel

/-- What maps say of the mapping. -/
def ofMapping (m : DependencyMaps) : List Item × List Item := (m.versions.of (.version 0), m.openVersions.of (.version 0))

/-- What the second function says of the mapping is lost. -/
theorem otherTuple_lost : ∃ u b, contractDependencies 0 (twoWriters 1) = .ok u b ∧
    (Table.find? 1 b.functionDependencies).map ofMapping = some ([.tuple 1], [.tuple 1]) ∧
    (Table.find? 0 b.contractDependencies).map ofMapping = some ([.tuple 0], [.tuple 0]) :=
  exists_runs _ (by decide +kernel)

end Analyze

/-! ## Questions about taint -/

/-- A question whether a value comes from outside. -/
structure TaintQuery where
  ofVersion : Bool := false
  value : Ir.Value
  context : Context
  onlyOpen : Bool := false
  ignoreGeneric : Bool := false

/-- A question makes the generic taints count for all later ones of its kind. -/
def TaintQuery.lasts (q : TaintQuery) (ofVersion : Bool) : Bool :=
  q.ofVersion == ofVersion && !q.ignoreGeneric && !q.value.isConstant

namespace Analysis

variable {a : Analysis}

def ask (a : Analysis) (q : TaintQuery) : Result Bool × Analysis :=
  if q.ofVersion then a.isTaintedVersion q.value q.context q.onlyOpen q.ignoreGeneric
  else a.isTainted q.value q.context q.onlyOpen q.ignoreGeneric

def afterAll (a : Analysis) (qs : List TaintQuery) : Analysis := qs.foldl (fun a q => (a.ask q).2) a

/-- The generic taints count already. -/
def counts (a : Analysis) (ofVersion : Bool) : Bool :=
  if ofVersion then a.memo.genericVersionTaint else a.memo.genericTaint

/-- An answer by whether the generic taints count. -/
def answer (a : Analysis) (q : TaintQuery) (generic : Bool) : Result Bool :=
  if q.value.isConstant then .ok false
  else
    let inputs := if q.ofVersion then a.inputVersions else a.inputs
    let known := if q.ofVersion then a.versionDependenciesIn q.context q.onlyOpen else a.dependenciesIn q.context q.onlyOpen
    a.isTaintedBy (if generic then addAllNew inputs genericTaint else inputs) known q.value

theorem ask_eq_answer : (a.ask q).1 = a.answer q (!q.ignoreGeneric || a.counts q.ofVersion) := by
  obtain ⟨ofVersion, value, context, onlyOpen, ignoreGeneric⟩ := q
  cases hconst : value.isConstant <;> cases ofVersion <;> cases ignoreGeneric <;>
    simp only [ask, isTainted, isTaintedVersion, answer, hconst] <;> rfl

theorem counts_ask : (a.ask r).2.counts k = (a.counts k || r.lasts k) := by
  obtain ⟨ofVersion, value, context, onlyOpen, ignoreGeneric⟩ := r
  cases hconst : value.isConstant <;> cases ofVersion <;> cases ignoreGeneric <;> cases k <;>
    simp [ask, isTainted, isTaintedVersion, counts, TaintQuery.lasts, hconst, taints, versionTaints]

theorem ask_changes_memo : ∃ memo, (a.ask r).2 = { a with memo } := by
  unfold ask isTainted isTaintedVersion taints versionTaints
  cases r.ofVersion <;> cases r.ignoreGeneric <;> cases r.value.isConstant <;> exact ⟨_, rfl⟩

theorem counts_afterAll : (a.afterAll qs).counts k = (a.counts k || qs.any (·.lasts k)) := by
  induction qs generalizing a with
  | nil => simp [afterAll]
  | cons r qs ih =>
    rw [show a.afterAll (r :: qs) = (a.ask r).2.afterAll qs from rfl, ih, counts_ask, any_cons, Bool.or_assoc]

theorem answer_afterAll : (a.afterAll qs).answer q generic = a.answer q generic := by
  induction qs generalizing a with
  | nil => rfl
  | cons r qs ih =>
    obtain ⟨memo, hmemo⟩ := ask_changes_memo (a := a) (r := r)
    rw [show a.afterAll (r :: qs) = (a.ask r).2.afterAll qs from rfl, ih, hmemo]
    rfl

/-- All that a question can learn from those before it is whether one of its kind has counted the generic taints. It then counts
them too, also if it was to ignore them. -/
theorem ask_afterAll :
    ((a.afterAll qs).ask q).1 = (a.ask { q with ignoreGeneric := q.ignoreGeneric && !qs.any (·.lasts q.ofVersion) }).1 := by
  rw [ask_eq_answer, ask_eq_answer, answer_afterAll, counts_afterAll]
  refine congrArg (a.answer q) ?_
  cases q.ignoreGeneric <;> cases a.counts q.ofVersion <;> simp

/-- A variable of a contract takes the sender of the message. -/
def takesSender : Analysis where
  contractDependencies := [(0, { plain := [(.target (.var 0), [.target (.member "msg.sender")])] })]
  inputs := [.target (.var 1)]

def takesSenderQuery (ignoreGeneric : Bool) : TaintQuery :=
  { value := .var 0, context := .contract 0, ignoreGeneric }

/-- The sender is no taint to a question that ignores the generic ones, until another has counted them. -/
theorem takesSender_changes : (takesSender.ask (takesSenderQuery true)).1 = .ok false ∧
    ((takesSender.afterAll [takesSenderQuery false]).ask (takesSenderQuery true)).1 = .ok true :=
  ⟨rfl, rfl⟩

end Analysis

end ContractAudit
