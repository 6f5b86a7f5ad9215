import ContractAudit.Detect.Access
import ContractAudit.Proofs.LocalUses

/-! # Ways through modifiers

The walk through a modifier takes the way on which all conditions fail. What it says of this way holds of all ways if those that
leave it come back.
-/

namespace ContractAudit.Detect

open Analysis List

variable (a : Analysis) (f : FunctionId)

/-- The function that is guarded runs at a node, or the run stops there. -/
def Halts (n : NodeId) : Prop := (a.flow f).kind n = .placeholder ∨ stopsAt a f n = true

/-- A way from one node to another on which no node halts. -/
inductive Slips : NodeId → NodeId → Prop
  | here : ¬ Halts a f n → Slips n n
  | step : ¬ Halts a f n → m ∈ (a.flow f).sons n → Slips m k → Slips n k

/-- A way that slips out from a node also slips out from the son at which the walk goes on. -/
def Rejoins : Prop :=
  ∀ seen n m, defaultSon (a.flow f) seen n = .ok (some m) → ∀ k, (a.flow f).sons k = [] → Slips a f n k → Slips a f m k

/-- A way that slips leads from a node to a condition that cannot fail, or around a cycle. -/
def Sticks (e : NodeId) : Prop :=
  ∃ k, Slips a f e k ∧ ((a.flow f).kind k = .branch ∧ ((a.flow f).sons k).length = 1 ∨
    (a.flow f).kind k = .loopBranch ∧ (∀ m ∈ (a.flow f).sons k, (a.flow f).kind m ≠ .endLoop) ∨
    ∃ m ∈ (a.flow f).sons k, Slips a f m k)

/-- What an answer of the walk tells about the ways from the entry, and from the node to which the walk has come. -/
structure Tells (e n : NodeId) (r : Result Bool) : Prop where
  passes : r = .ok true → ∃ k, (a.flow f).sons k = [] ∧ Slips a f e k
  halts : r = .ok false → Rejoins a f → ∀ k, (a.flow f).sons k = [] → ¬ Slips a f n k
  fails : ∀ x, r = .error x → Sticks a f e

/-- Nodes that the walk has passed: each leads to where the walk is now, and none is passed twice but on a cycle. -/
structure Passed (e n : NodeId) (seen : List NodeId) : Prop where
  slips : ∀ x ∈ seen, ∃ m ∈ (a.flow f).sons x, ¬ Halts a f n → Slips a f x n ∧ Slips a f m n
  nodup : seen.Nodup ∨ Sticks a f e

variable {a f}

theorem Slips.next (h : Slips a f e n) (hm : m ∈ (a.flow f).sons n) (hhalt : ¬ Halts a f m) : Slips a f e m := by
  induction h with
  | here hn => exact .step hn hm (.here hhalt)
  | step hn hson _ ih => exact .step hn hson (ih hm)

theorem defaultSon_cases {g : Flow} {seen : List NodeId} :
    defaultSon g seen n = .ok none ∧ g.sons n = [] ∨ (∃ m ∈ g.sons n, defaultSon g seen n = .ok (some m)) ∨
      ∃ x, defaultSon g seen n = .error x ∧ (g.kind n = .branch ∧ (g.sons n).length = 1 ∨
        g.kind n = .loopBranch ∧ (∀ m ∈ g.sons n, g.kind m ≠ .endLoop) ∨ ∃ m ∈ g.sons n, m ∈ seen) := by
  rcases hs : g.sons n with _ | ⟨m, ms⟩ <;> simp only [defaultSon, hs]
  · simp
  · split
    · simp_all
    · cases ms <;> simp_all
    next hk _ => split <;> grind
    next heq _ _ =>
      cases heq
      cases ms <;> split <;> simp_all

theorem Passed.sticks (h : Passed a f e n seen) (hlen : (a.flow f).nodes.size < seen.length) : Sticks a f e := by
  refine h.nodup.resolve_left fun hnodup => Nat.not_le_of_gt hlen (length_le_of_lt hnodup fun x hx => ?_)
  obtain ⟨m, hm, -⟩ := h.slips x hx
  exact Flow.lt_of_mem_sons hm

theorem Passed.cons (h : Passed a f e n seen) (hn : Slips a f e n) (hhalt : ¬ Halts a f n) (hm : m ∈ (a.flow f).sons n) :
    Passed a f e m (n :: seen) where
  slips := by
    refine forall_mem_cons.2 ⟨⟨m, hm, fun hm' => ⟨.step hhalt hm (.here hm'), .here hm'⟩⟩, fun x hx => ?_⟩
    obtain ⟨s, hs, hslips⟩ := h.slips x hx
    exact ⟨s, hs, fun hm' => (hslips hhalt).imp (·.next hm hm') (·.next hm hm')⟩
  nodup := by
    refine h.nodup.elim (fun hnodup => ?_) .inr
    by_cases hmem : n ∈ seen
    · obtain ⟨s, hs, hslips⟩ := h.slips n hmem
      exact .inr ⟨n, hn, .inr (.inr ⟨s, hs, (hslips hhalt).2⟩)⟩
    · exact .inl (nodup_cons.2 ⟨hmem, hnodup⟩)

theorem fallsThrough_tells (hn : ¬ Halts a f n → Slips a f e n) (hseen : Passed a f e n seen)
    (hfuel : (a.flow f).nodes.size < fuel + seen.length) : Tells a f e n (fallsThrough a f fuel seen n) := by
  induction fuel generalizing seen n with
  | zero => exact ⟨nofun, nofun, fun _ _ => hseen.sticks (by omega)⟩
  | succ fuel ih =>
    rw [fallsThrough]
    by_cases hhalt : Halts a f n
    · rw [if_pos (by simpa [Halts] using hhalt)]
      exact ⟨nofun, fun _ _ k _ hk => by cases hk <;> contradiction, nofun⟩
    · rw [if_neg (by simpa [Halts] using hhalt)]
      rcases defaultSon_cases with ⟨hr, hend⟩ | ⟨m, hson, hr⟩ | ⟨x, hr, hwhy⟩ <;> rw [hr]
      · exact ⟨fun _ => ⟨n, hend, hn hhalt⟩, nofun, nofun⟩
      · have hrest := ih (fun h => (hn hhalt).next hson h) (hseen.cons (hn hhalt) hhalt hson) (by simp; omega)
        exact ⟨hrest.passes, fun h hj k hk hslips => hrest.halts h hj k hk (hj _ n m hr k hk hslips), hrest.fails⟩
      · refine ⟨nofun, nofun, fun _ _ => ⟨n, hn hhalt, hwhy.imp_right (.imp_right fun ⟨m, hm, hmem⟩ => ⟨m, hm, ?_⟩)⟩⟩
        obtain rfl | hmem := mem_cons.1 hmem
        · exact .here hhalt
        · exact ((hseen.slips m hmem).choose_spec.2 hhalt).1

/-- The walk tells the truth about the way that it takes, and fails only at a condition that cannot fail or on a cycle. If the
other ways rejoin it, none slips out of a modifier that is not reported. -/
theorem isPassable_tells (he : (a.flow f).entry = some e) : Tells a f e e (isPassable a f) := by
  have hfuel := Nat.le_mul_self ((a.flow f).nodes.size + 1)
  rw [isPassable, he]
  exact fallsThrough_tells .here ⟨nofun, .inl .nil⟩ hfuel

/-- A modifier whose condition leads to a node with some sons, and else to the placeholder. -/
def guarded (sons : List NodeId) : Analysis where
  program := { functionTable := #[{ place := .inContract 0 0, flow := { entry := some 0, order := [0, 1, 2], nodes := #[
    { kind := .branch, sons := [1, 2] }, { kind := .returns, sons }, { kind := .placeholder }] } }] }

theorem guarded_halts :
    Rejoins (guarded [2]) 0 ∧ ∀ k, ((guarded [2]).flow 0).sons k = [] → ¬ Slips (guarded [2]) 0 0 k := by
  have hlast (k : NodeId) : ¬ Slips (guarded [2]) 0 2 k := by rintro (h | h) <;> exact h (.inl rfl)
  have hrejoins : Rejoins (guarded [2]) 0 := by
    rintro seen (_ | _ | _ | n) m hm k hk hslips
    · rcases hslips with _ | ⟨_, hson, hrest⟩
      · cases hk
      · obtain rfl | rfl := mem_pair.1 hson
        · rcases hrest with _ | ⟨_, hson, hrest⟩
          · cases hk
          · exact (hlast _ (mem_singleton.1 hson ▸ hrest)).elim
        · exact (hlast _ hrest).elim
    · rcases hslips with _ | ⟨_, hson, hrest⟩
      · cases hk
      · exact (hlast _ (mem_singleton.1 hson ▸ hrest)).elim
    · exact (hlast _ hslips).elim
    · rw [defaultSon, Flow.sons, Flow.node_of_size_le (Nat.le_add_left 3 n)] at hm
      cases hm
  exact ⟨hrejoins, (isPassable_tells (a := guarded [2]) (f := 0) rfl).halts rfl hrejoins⟩

theorem guarded_slips : isPassable (guarded []) 0 = .ok false ∧ ((guarded []).flow 0).sons 1 = [] ∧ Slips (guarded []) 0 0 1 := by
  refine ⟨rfl, rfl, .step (m := 1) ?_ (by decide) (.here ?_)⟩ <;> simp [Halts] <;> decide

end ContractAudit.Detect
