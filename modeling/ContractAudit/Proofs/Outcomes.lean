import ContractAudit.Fault
import Mathlib.Data.List.Forall2
import Mathlib.Order.Defs.Unbundled
import Mathlib.Tactic.FailIfNoProgress

/-! # Steps that may fail

What a step changed before it fails stays changed. A step is told by a relation between the states before and after it, which
holds whether it fails or not, and by what holds of its result.
-/

namespace ContractAudit

open List

variable {x y : EStateM ε σ α} {xs : List α}

theorem bind_eq_ok {x : Result α} : x >>= k = .ok c ↔ ∃ b, x = .ok b ∧ k b = .ok c := by
  cases x <;> simp [bind, Except.bind]

theorem mapM_eq_ok {f : α → Result β} : xs.mapM f = .ok ys ↔ Forall₂ (fun x y => f x = .ok y) xs ys := by
  induction xs generalizing ys with
  | nil => simp [pure, Except.pure, eq_comm]
  | cons x xs ih =>
    simp only [mapM_cons, bind_eq_ok, ih, forall₂_cons_left_iff, pure, Except.pure, Except.ok.injEq]
    grind

theorem mem_of_mapM {f : α → Result β} {y : β} (h : xs.mapM f = .ok ys) (hy : y ∈ ys) :
    ∃ x ∈ xs, f x = .ok y := by
  induction mapM_eq_ok.1 h with
  | nil => cases hy
  | cons hx hxs ih =>
    rcases mem_cons.1 hy with rfl | hy
    · exact ⟨_, .head _, hx⟩
    · obtain ⟨x, hmem, hx⟩ := ih (mapM_eq_ok.2 hxs) hy
      exact ⟨x, .tail _ hmem, hx⟩

theorem bind_runs (hrun : (x >>= k) s = .ok b t) : ∃ a u, x s = .ok a u ∧ k a u = .ok b t := by
  change EStateM.bind x k s = _ at hrun
  unfold EStateM.bind at hrun
  split at hrun
  next a u hx => exact ⟨a, u, hx, hrun⟩
  next => cases hrun

/-- A loop goes through all its rounds. What holds of the items that are done holds of one item more after a round. -/
theorem forIn_runs {body : α → PUnit → EStateM ε σ (ForInStep PUnit)} {P : List α → σ → Prop}
    (hbody : ∀ done x s r t, P done s → body x ⟨⟩ s = .ok r t → r = .yield ⟨⟩ ∧ P (done ++ [x]) t)
    (hs : P [] s) (hrun : forIn xs ⟨⟩ body s = .ok u t) : P xs t := by
  suffices h : ∀ done s, P done s → forIn xs ⟨⟩ body s = .ok u t → P (done ++ xs) t from h [] s hs hrun
  clear hs hrun
  induction xs with
  | nil =>
    intro done s hs hrun
    cases hrun
    simpa using hs
  | cons x xs ih =>
    intro done s hs hrun
    rw [forIn_cons] at hrun
    obtain ⟨r, s₁, hround, hrest⟩ := bind_runs hrun
    obtain ⟨rfl, hs₁⟩ := hbody done x s r s₁ hs hround
    simpa using ih _ s₁ hs₁ hrest

theorem exists_runs (P : α → σ → Prop) [∀ a t, Decidable (P a t)] (h : (match x s with
      | .ok a t => decide (P a t)
      | .error _ _ => false) = true) : ∃ a t, x s = .ok a t ∧ P a t := by
  split at h
  next a t hrun => exact ⟨a, t, hrun, of_decide_eq_true h⟩
  next => cases h

/-- From `s` a step comes to a state that is related to `s`. If it yields a value, `Q` holds of the value and the state. -/
def Ensures (R : σ → σ → Prop) (x : EStateM ε σ α) (s : σ) (Q : α → σ → Prop) : Prop :=
  match x s with
  | .ok a t => R s t ∧ Q a t
  | .error _ t => R s t

namespace Ensures

theorem ite [Decidable c] (hx : c → Ensures R x s Q) (hy : ¬ c → Ensures R y s Q) :
    Ensures R (if c then x else y) s Q := by
  split
  · next hc => exact hx hc
  · next hc => exact hy hc

section

variable (hx : Ensures R x s Q)

include hx

theorem mono (hR : ∀ t, R s t → R' s t) (hQ : ∀ a t, R s t → Q a t → Q' a t) : Ensures R' x s Q' := by
  unfold Ensures at hx ⊢
  cases hrun : x s <;> rw [hrun] at hx
  · exact ⟨hR _ hx.1, hQ _ _ hx.1 hx.2⟩
  · exact hR _ hx

theorem imp (hQ : ∀ a t, R s t → Q a t → Q' a t) : Ensures R x s Q' := hx.mono (fun _ => id) hQ

theorem of_ok (hrun : x s = .ok a t) : R s t ∧ Q a t := by
  unfold Ensures at hx
  rwa [hrun] at hx

theorem of_error (hrun : x s = .error e t) : R s t := by
  unfold Ensures at hx
  rwa [hrun] at hx

end

variable [IsPreorder σ R]

theorem pure (ha : Q a s) : Ensures R (pure a : EStateM ε σ α) s Q := ⟨refl s, ha⟩

theorem throw (e : ε) : Ensures R (throw e : EStateM ε σ α) s Q := refl (r := R) s

/-- A step goes on as another one does from a state that it comes to. -/
theorem of_run (hrun : x s = y t) (ht : R s t) (hy : Ensures R y t Q) : Ensures R x s Q := by
  unfold Ensures at hy ⊢
  rw [hrun]
  cases hlast : y t <;> rw [hlast] at hy
  · exact ⟨IsTrans.trans _ _ _ ht hy.1, hy.2⟩
  · exact IsTrans.trans _ _ _ ht hy

theorem bind (hx : Ensures R x s Q) (hf : ∀ a t, R s t → Q a t → Ensures R (f a) t P) : Ensures R (x >>= f) s P := by
  cases hrun : x s with
  | error e t =>
    refine .of_run (y := MonadExcept.throw e) ?_ (hx.of_error hrun) (.throw e)
    show EStateM.bind x f s = _
    rw [EStateM.bind, hrun]
    rfl
  | ok a t =>
    obtain ⟨ht, ha⟩ := hx.of_ok hrun
    refine .of_run ?_ ht (hf a t ht ha)
    show EStateM.bind x f s = _
    rw [EStateM.bind, hrun]

omit [IsPreorder σ R] in
theorem get_bind (hf : Ensures R (f s) s P) : Ensures R (get >>= f) s P := hf

omit [IsPreorder σ R] in
theorem modify (hg : R s (g s)) (hQ : Q () (g s)) : Ensures R (modify g : EStateM ε σ Unit) s Q := ⟨hg, hQ⟩

omit [IsPreorder σ R] in
theorem set (ht : R s t) (hQ : Q ⟨⟩ t) : Ensures R (set t : EStateM ε σ PUnit) s Q :=
  ⟨ht, hQ⟩

theorem forIn {xs : List β} {I : γ → σ → Prop} (hb : I b s)
    (hbody : ∀ y ∈ xs, ∀ c t, R s t → I c t → Ensures R (body y c) t fun r u => I r.value u) :
    Ensures R (forIn xs b body) s I := by
  have hall : ∀ ys : List β, (∀ y ∈ ys, y ∈ xs) → ∀ c t, R s t → I c t → Ensures R (ForIn.forIn ys c body) t I := by
    intro ys
    induction ys with
    | nil =>
      intro _ c t _ hc
      rw [forIn_nil]
      exact .pure hc
    | cons y ys ih =>
      intro hys c t ht hc
      rw [forIn_cons]
      refine (hbody y (hys y mem_cons_self) c t ht hc).bind ?_
      intro r u hu hr
      cases r with
      | done d => exact .pure hr
      | yield d => exact ih (fun z hz => hys z (mem_cons_of_mem y hz)) d u (IsTrans.trans _ _ _ ht hu) hr
  exact hall xs (fun _ hy => hy) b s (refl s) hb

theorem tryCatch (hx : Ensures R x s Q) (hhandle : ∀ e t, R s t → Ensures R (handle e) t Q) :
    Ensures R (tryCatch x handle) s Q := by
  have htry : (MonadExcept.tryCatch x handle : EStateM ε σ α) s = EStateM.tryCatch x handle s := rfl
  delta EStateM.tryCatch at htry
  cases hrun : x s <;> rw [hrun] at htry
  · obtain ⟨ht, ha⟩ := hx.of_ok hrun
    exact .of_run (y := Pure.pure _) htry ht (.pure ha)
  · have ht := hx.of_error hrun
    exact .of_run htry ht (hhandle _ _ ht)

end Ensures

/-! ## Steps that keep to a relation

A step keeps to a preorder if all that it is made of does, so it is enough to go through its parts.
-/

/-- From every state the step comes to a related one. -/
class Respects (R : σ → σ → Prop) (x : EStateM ε σ α) : Prop where
  ensures : ∀ s, Ensures R x s fun _ _ => True

namespace Respects

section

theorem modify (hg : ∀ s, R s (g s)) : Respects R (modify g : EStateM ε σ Unit) := ⟨fun s => ⟨hg s, trivial⟩⟩

theorem modifyGet (hg : ∀ s, R s (g s).2) : Respects R (modifyGet g : EStateM ε σ α) :=
  ⟨fun s => ⟨hg s, trivial⟩⟩

variable [IsPreorder σ R]

instance pure (a : α) : Respects R (pure a : EStateM ε σ α) := ⟨fun _ => .pure trivial⟩

instance throw (e : ε) : Respects R (throw e : EStateM ε σ α) := ⟨fun _ => .throw e⟩

instance get : Respects R (get : EStateM ε σ σ) := ⟨fun s => ⟨refl s, trivial⟩⟩

section

variable (hx : Respects R x)

include hx

theorem bind (hf : ∀ a, Respects R (f a)) : Respects R (x >>= f) :=
  ⟨fun s => (hx.ensures s).bind fun a t _ _ => (hf a).ensures t⟩

theorem map : Respects R (g <$> x) :=
  ⟨fun s => (hx.ensures s).bind fun _ _ _ _ => .pure trivial⟩

omit [IsPreorder σ R] in
theorem ite [Decidable c] (hy : Respects R y) : Respects R (if c then x else y) := by
  split <;> assumption

omit [IsPreorder σ R] in
theorem elim {o : Option β} (hg : ∀ b, Respects R (g b)) : Respects R (o.elim x g) := by
  cases o with
  | none => exact hx
  | some b => exact hg b

theorem tryCatch (hh : ∀ e, Respects R (handle e)) : Respects R (tryCatch x handle) :=
  ⟨fun s => (hx.ensures s).tryCatch fun e t _ => (hh e).ensures t⟩

end

theorem forIn (hbody : ∀ y c, Respects R (body y c)) : Respects R (forIn xs b body) :=
  ⟨fun _ => .forIn (I := fun _ _ => True) trivial fun y _ c t _ _ => (hbody y c).ensures t⟩

theorem mapM (hf : ∀ a, Respects R (f a)) : Respects R (xs.mapM f) := by
  induction xs with
  | nil =>
    exact .pure []
  | cons a xs ih =>
    rw [mapM_cons]
    exact .bind (hf a) fun _ => .bind ih fun _ => .pure _

theorem forM (hf : ∀ a, Respects R (f a)) : Respects R (xs.forM f) := by
  induction xs with
  | nil =>
    exact .pure _
  | cons a xs ih =>
    exact .bind (hf a) fun _ => ih

theorem foldlM (hf : ∀ b a, Respects R (f b a)) : Respects R (xs.foldlM f b) := by
  induction xs generalizing b with
  | nil =>
    exact .pure b
  | cons a xs ih =>
    exact .bind (hf b a) fun _ => ih

theorem filterMapM (hf : ∀ a, Respects R (f a)) : Respects R (xs.filterMapM f) := by
  have hloop : ∀ ys, Respects R (filterMapM.loop f xs ys) := by
    induction xs with
    | nil =>
      intro ys
      exact .pure _
    | cons a xs ih =>
      intro ys
      refine .bind (hf a) fun o => ?_
      split
      · exact ih _
      · exact ih _
  exact hloop []

theorem filterM (hf : ∀ a, Respects R (f a)) : Respects R (xs.filterM f) := by
  have hloop : ∀ ys, Respects R (xs.filterAuxM f ys) := by
    induction xs with
    | nil =>
      intro ys
      exact .pure _
    | cons a xs ih =>
      intro ys
      exact .bind (hf a) fun _ => ih _
  exact .bind (hloop []) fun _ => .pure _

end

theorem of_assumed {A : σ → Prop} (hA : ∀ s t, ¬ A s → R s t)
    (hx : ∀ s, A s → Ensures R x s fun _ _ => True) : Respects R x := by
  refine ⟨fun s => ?_⟩
  by_cases hs : A s
  · exact hx s hs
  · unfold Ensures
    cases x s with
    | ok a t => exact ⟨hA s t hs, trivial⟩
    | error e t => exact hA s t hs

/-- A part that is named, such as what follows a branch, is looked at once for all places where it is used. -/
theorem of_named (A : (σ → σ → Prop) → Prop) (hA : A R) (hx : A R → Respects R x) : Respects R x := hx hA

end Respects

/-! ## Invariants -/

/-- If the invariant holds before, it holds after. -/
def Preserves (I : σ → Prop) (s t : σ) : Prop := I s → I t

instance (I : σ → Prop) : IsPreorder σ (Preserves I) where
  refl _ := id
  trans _ _ _ hst htu hs := htu (hst hs)

namespace Ensures

theorem of_stronger (hs : I s) (hIJ : ∀ t, I t → J t) (hx : Ensures (Preserves I) x s Q) :
    Ensures (Preserves J) x s fun a t => I t ∧ Q a t :=
  hx.mono (fun t ht _ => hIJ t (ht hs)) fun _ _ ht ha => ⟨ht hs, ha⟩

theorem look_bind [IsPreorder σ R] [hx : Respects Eq x] (hf : ∀ a, Ensures R (f a) s P) : Ensures R (x >>= f) s P := by
  have hlook : Ensures R x s fun _ t => s = t := (hx.ensures s).mono (fun _ ht => ht ▸ refl s) fun _ _ ht _ => ht
  exact hlook.bind fun a _ _ ht => ht ▸ hf a

end Ensures

theorem look_runs [hx : Respects Eq x] (hrun : (x >>= k) s = .ok b t) : ∃ a, k a s = .ok b t := by
  obtain ⟨a, u, hlook, hk⟩ := bind_runs hrun
  obtain ⟨rfl, -⟩ := (hx.ensures s).of_ok hlook
  exact ⟨a, hk⟩

theorem Respects.of_invariant (hx : ∀ s, I s → Ensures (Preserves I) x s fun _ _ => True) : Respects (Preserves I) x :=
  .of_assumed (fun _ _ hs h => absurd h hs) hx

end ContractAudit
