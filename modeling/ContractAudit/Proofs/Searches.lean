import ContractAudit.Proofs.Nesting

/-! # Searches for loops

Where the marks of a graph tell the loops around its nodes, the count of the loops that a search passes is right, and the
search finds the loop it was started for.
-/

namespace ContractAudit

open Mark NodeKind List

variable {V visited : List Nat}

/-! ## Counting loops -/

section

variable (h : Nested f u m)

include h

theorem Nested.loops_cases :
    (m.kind = .startLoop ∧ ∃ l, l.start = u ∧ m.loops = l :: m.around ∧ m.beyond = l :: m.around) ∨
    (m.kind = .endLoop ∧ ∃ l, l.stop = u ∧ m.loops = l :: m.beyond ∧ m.around = l :: m.beyond) ∨
    (m.kind.shift = 0 ∧ m.kind ≠ .startLoop ∧ m.kind ≠ .endLoop ∧ m.around = m.loops ∧ m.beyond = m.loops) := by
  by_cases hstart : m.kind = .startLoop
  · have := h.starts hstart
    cases hloops : m.loops <;> simp_all [around, beyond]
  · by_cases hend : m.kind = .endLoop
    · have := h.stops hend
      cases hloops : m.loops <;> simp_all [around, beyond]
    · refine .inr (.inr ⟨?_, hstart, hend, if_neg hstart, if_neg hend⟩)
      cases hkind : m.kind <;> simp_all [shift]

theorem Nested.head_eq (hk : m.kind = .loopBranch) (hl : m.beyond = l :: rest) : l.head = some u := by
  have := h.heads hk
  simp_all [beyond]

theorem Nested.start_eq (hk : m.kind = .startLoop) (hl : m.beyond = l :: rest) : l.start = u := by
  have := h.starts hk
  simp_all [beyond]

theorem Nested.reentered (hk : m.kind = .startLoop) (hnone : ∀ l ∈ m.loops.head?, l.head = none) :
    ∃ l rest, m.loops = l :: rest ∧ l.start = u ∧ l.head = none := by
  have := h.starts hk
  cases hloops : m.loops <;> simp_all

/-- On the way on, the loops inside `rest` change as the count does. -/
theorem Nested.pass (hT : m.around = T ++ rest) (hend : m.kind = .endLoop → T ≠ []) :
    ∃ T', m.beyond = T' ++ rest ∧ (T'.length : Int) = T.length + m.kind.shift ∧ ∀ l ∈ T', l ∈ T ∨ l.start = u := by
  rcases h.loops_cases with ⟨hkind, l, hl, -, hbeyond⟩ | ⟨hkind, l, -, -, haround⟩ | ⟨hkind, -, -, haround, hbeyond⟩
  · exact ⟨l :: T, by simp [hbeyond, hT], by simp [hkind, shift], by grind⟩
  · cases T with
    | nil => exact absurd rfl (hend hkind)
    | cons t T =>
      rw [hT, cons_append, cons.injEq] at haround
      exact ⟨T, haround.2.symm, by simp [hkind, shift] <;> omega, fun l hl => .inl (.tail _ hl)⟩
  · exact ⟨T, by rw [hbeyond, ← haround, hT], by simp [hkind], fun l hl => .inl hl⟩

/-- On the way back, the loops inside `rest` change as the count does. -/
theorem Nested.passBack (hT : m.beyond = T ++ rest) (hstart : m.kind = .startLoop → T ≠ []) :
    ∃ T', m.around = T' ++ rest ∧ (T'.length : Int) = T.length - m.kind.shift := by
  rcases h.loops_cases with ⟨hkind, l, -, -, hbeyond⟩ | ⟨hkind, l, -, -, haround⟩ | ⟨hkind, -, -, haround, hbeyond⟩
  · cases T with
    | nil => exact absurd rfl (hstart hkind)
    | cons t T =>
      rw [hT, cons_append, cons.injEq] at hbeyond
      exact ⟨T, hbeyond.2.symm, by simp [hkind, shift]⟩
  · exact ⟨l :: T, by simp [haround, hT], by simp [hkind, shift]⟩
  · exact ⟨T, by rw [haround, ← hbeyond, hT], by simp [hkind]⟩

end

/-- The edges of a graph stay inside the loops that its marks tell. -/
structure Flow.Fits (f : Nat → Mark) (size : Nat) (g : Flow) : Prop where
  kind : ∀ u < size, g.kind u = (f u).kind
  nested : ∀ u < size, Nested f u (f u)
  sons : ∀ u < size, ∀ v ∈ g.sons u, v < size ∧ Enters f (f u).beyond v
  fathers : ∀ v < size, ∀ u ∈ g.fathers v, u < size ∧ v ∈ g.sons u
  heralds : ∀ u < size, (f u).kind = .startLoop → (f u).scope = none → ∀ l ∈ (f u).loops.head?, ∀ c ∈ l.head,
    ∀ v ∈ g.sons u, v = c ∨ (g.fathers v).head? = some c

namespace Flow

variable {g : Flow} {count : Int}

/-! ## Ways that pass no node twice -/

/-- A way that comes to none of the nodes `V`. -/
inductive Clears (g : Flow) (V : List Nat) (i : Nat) : Nat → Prop
  | start : Clears g V i i
  | step {m n : Nat} : Clears g V i m → n ∈ g.sons m → n ∉ V → Clears g V i n

theorem Clears.cut (h : g.Clears V i n) : i = n ∨ ∃ v ∈ g.sons i, v ∉ V ++ [i] ∧ g.Clears (V ++ [i]) v n := by
  induction h with
  | start => exact .inl rfl
  | @step m n _ hn hV ih =>
    by_cases hin : i = n
    · exact .inl hin
    · have hnot : n ∉ V ++ [i] := by simp [hV, Ne.symm hin]
      rcases ih with rfl | ⟨v, hv, hfree, hway⟩
      · exact .inr ⟨n, hn, hnot, .start⟩
      · exact .inr ⟨v, hv, hfree, hway.step hn hnot⟩

/-! ## Ends of loops -/

theorem not_mem_of_findEndLoop (h : g.findEndLoop fuel i visited count = some r) : i ∉ visited := by
  cases fuel with
  | zero => cases h
  | succ fuel => exact (search_cases h).1

section

variable (hg : g.Fits f size) (hL : L.head ≠ none) (hi : i < size) (hT : (f i).around = T ++ L :: S)
  (hvisited : ∀ l ∈ T, l.head = none → l.start ∈ visited)

include hg hL hi hT hvisited

/-- It could leave the count only by coming back to the start of a loop without condition, and such a start was passed. -/
theorem Fits.stay (hgo : g.kind i = .endLoop → (T.length : Int) ≠ 0) (hv : v ∈ g.sons i) :
    ∃ T', (T'.length : Int) = T.length + (g.kind i).shift ∧
      (∀ l ∈ T', l.head = none → l.start ∈ visited ++ [i]) ∧ ((f v).around = T' ++ L :: S ∨ v ∈ visited ++ [i]) := by
  rw [hg.kind i hi] at hgo ⊢
  obtain ⟨hlt, henters⟩ := hg.sons i hi v hv
  obtain ⟨T', hbeyond, hlength, hmem⟩ := (hg.nested i hi).pass hT fun h hnil => hgo h (by simp [hnil])
  have hpassed : ∀ l ∈ T', l.head = none → l.start ∈ visited ++ [i] := by
    intro l hl hnone
    rcases hmem l hl with hl | hl
    · exact mem_append_left _ (hvisited l hl hnone)
    · simp [hl]
  refine ⟨T', hlength, hpassed, ?_⟩
  rw [hbeyond] at henters
  rcases henters with h | ⟨hkind, hloops, hnone⟩
  · exact .inl h
  · have hstart := (hg.nested v hlt).starts hkind
    rw [hloops] at hstart
    cases T' with
    | nil => exact absurd (hnone L rfl) hL
    | cons t T' =>
      obtain rfl : t.start = v := by simpa using hstart
      exact .inr (hpassed t (.head _) (hnone t rfl))

theorem Fits.findEndLoop_sound (h : g.findEndLoop fuel i visited T.length = some r) : r = L.stop := by
  induction fuel generalizing i visited T with
  | zero => cases h
  | succ fuel ih =>
    obtain ⟨-, ⟨hzero, hfound⟩ | ⟨hgo, hr⟩⟩ := search_cases h
    · obtain ⟨hkind, rfl⟩ : g.kind i = .endLoop ∧ i = r := by simpa using hfound
      obtain rfl : T = [] := length_eq_zero_iff.1 (by omega)
      have hstop := (hg.nested i hi).stops (hg.kind i hi ▸ hkind)
      simp [around, ← hg.kind i hi, hkind] at hT
      rw [hT] at hstop
      exact (Option.some.inj hstop).symm
    · obtain ⟨v, hv, hr⟩ := exists_of_findSome?_eq_some hr
      obtain ⟨T', hlength, hpassed, h | h⟩ := hg.stay hL hi hT hvisited (fun hk hc => by simpa [hk] using hgo hc) hv
      · exact ih (hg.sons i hi v hv).1 h hpassed (hlength ▸ hr)
      · exact absurd h (not_mem_of_findEndLoop hr)

theorem Fits.findEndLoop_complete (hstop : (f L.stop).around = L :: S) (hkind : g.kind L.stop = .endLoop)
    (hfree : i ∉ visited) (hway : g.Clears visited i L.stop) (hdistinct : visited.Nodup) (hlt : ∀ v ∈ visited, v < size) (hfuel : size < fuel + visited.length) :
    (g.findEndLoop fuel i visited T.length).isSome = true := by
  induction fuel generalizing i visited T with
  | zero =>
    have := length_le_of_lt hdistinct hlt
    omega
  | succ fuel ih =>
    rw [findEndLoop, search, if_neg (by simpa using hfree), Option.isSome_or, Bool.or_eq_true]
    by_cases hend : g.kind i = .endLoop ∧ (T.length : Int) = 0
    · exact .inl (by simp [hend])
    · rcases hway.cut with rfl | ⟨v, hv, hnew, hway⟩
      · rw [hstop] at hT
        obtain rfl : T = [] := self_eq_append_left.1 hT
        exact absurd ⟨hkind, rfl⟩ hend
      · obtain ⟨T', hlength, hpassed, h | h⟩ := hg.stay hL hi hT hvisited (fun hk hc => hend ⟨hk, hc⟩) hv
        · refine .inr (findSome?_isSome_iff.2 ⟨v, hv, ?_⟩)
          rw [← hlength]
          refine ih (hg.sons i hi v hv).1 h hpassed hnew hway ?_ ?_ (by simp; omega)
          · exact nodup_append.2 ⟨hdistinct, by simp, by grind⟩
          · simpa [or_imp, forall_and] using ⟨hlt, hi⟩
        · exact absurd h hnew

end

/-! ## Heads of loops -/

/-- Where the next round of a loop is taken to start: at an expression that leads to its condition, or there. -/
def roundStart (g : Flow) (l : Loop) : Nat :=
  match l.head with
  | some c => ((g.fathers c).find? fun u => g.kind u == .expression).getD c
  | none => l.start

theorem Fits.findLoopHead_none (hg : g.Fits f size) (hl : l.head = none) (hstart : l.start ∈ visited) (hi : i < size)
    (hT : (f i).beyond = T ++ l :: S) (hcount : (T.length : Int) ≤ count) : g.findLoopHead fuel i visited count = none := by
  induction fuel generalizing i visited T count l S with
  | zero => rfl
  | succ fuel ih =>
    have hn := hg.nested i hi
    rw [findLoopHead, search, hg.kind i hi]
    split
    · rfl
    next hfree =>
      -- The only loop that could count as found is the one whose start was passed.
      have hinner : (f i).kind = .startLoop ∨ (f i).kind = .loopBranch → T ≠ [] := by
        rintro (hk | hk) rfl
        · exact hfree (by simpa [hn.start_eq hk hT] using hstart)
        · rw [hn.head_eq hk hT] at hl
          cases hl
      have hopen : (f i).kind = .startLoop ∨ (f i).kind = .loopBranch → count ≠ 0 := fun h => by
        have := length_pos_iff.2 (hinner h)
        omega
      refine Option.or_eq_none_iff.2 ⟨?_, findSome?_eq_none_iff.2 fun u hu => ?_⟩
      · split
        · split <;> simp_all
        · rfl
      obtain ⟨hlt, hson⟩ := hg.fathers i hi u hu
      obtain ⟨T', haround, hlength⟩ := hn.passBack hT fun h => hinner (.inl h)
      rcases (hg.sons u hlt i hson).2 with h | ⟨hk, hloops, hnone⟩
      · exact ih hl (by simp [hstart]) hlt (h.symm.trans haround) (by omega)
      · obtain ⟨l', rest, hl', hpassed, hhead⟩ := hn.reentered hk (hloops ▸ hnone)
        exact ih (T := []) hhead (by simp [hpassed]) hlt (hloops ▸ hl') (by simp; omega)

theorem Fits.findLoopHead_sound (hg : g.Fits f size) (henc : Encloses f (L :: S) none L) (hi : i < size)
    (hT : (f i).beyond = T ++ L :: S) (hfree : ∀ c ∈ L.head, c ∉ visited ∧ i ≠ L.start)
    (h : g.findLoopHead fuel i visited T.length = some r) : r = g.roundStart L := by
  induction fuel generalizing i visited T with
  | zero => cases h
  | succ fuel ih =>
    have hn := hg.nested i hi
    obtain ⟨-, ⟨hzero, hfound⟩ | ⟨hgo, h⟩⟩ := search_cases h <;> rw [hg.kind i hi] at *
    · obtain rfl : T = [] := length_eq_zero_iff.1 (by omega)
      split at hfound
      next hk =>
        rw [roundStart, hn.head_eq hk hT]
        exact (Option.some.inj hfound).symm
      next hk =>
        have hstart := hn.start_eq hk hT
        cases hhead : L.head with
        | none => rw [roundStart, hhead, ← Option.some.inj hfound, hstart]
        | some c => exact absurd hstart.symm (hfree c hhead).2
      next => cases hfound
    obtain ⟨T', haround, hlength⟩ := hn.passBack hT fun hk hnil => by simp [hk, hnil] at hgo
    rw [← Int.sub_eq_add_neg, ← hlength, ← findLoopHead] at h
    have hother : ∀ c ∈ L.head, c ≠ i := by
      rintro c hc rfl
      obtain ⟨hk, hloops⟩ := henc.head c hc
      have hnil : L :: S = T ++ L :: S := by rw [← hT, ← hloops, beyond, if_neg (by simp [hk])]
      obtain rfl := self_eq_append_left.1 hnil
      simp [hk] at hgo
    by_cases hherald : ∃ c ∈ L.head, L.start ∈ g.fathers i
    · -- The start leads here, so the condition is the first father.
      obtain ⟨c, hc, hfather⟩ := hherald
      obtain ⟨hlt, hson⟩ := hg.fathers i hi _ hfather
      obtain ⟨hk, hloops⟩ := henc.start
      have hbeyond : (f L.start).beyond = L :: S := by rw [beyond, if_neg (by simp [hk]), hloops]
      obtain rfl : T' = [] := by
        have henters := (hg.sons _ hlt i hson).2
        rw [hbeyond] at henters
        rcases henters with h | ⟨-, -, hnone⟩
        · exact append_left_eq_self.1 (haround.symm.trans h)
        · rw [hnone L rfl] at hc
          cases hc
      have hfirst := (hg.heralds _ hlt hk (henc.plain rfl) L (by rw [hloops]; rfl) c hc i hson).resolve_left (hother c hc).symm
      obtain ⟨rest, hrest⟩ := head?_eq_some_iff.1 hfirst
      rw [hrest] at h
      cases fuel with
      | zero =>
        obtain ⟨_, _, h⟩ := exists_of_findSome?_eq_some h
        cases h
      | succ fuel =>
        have hclt := (hg.fathers i hi c (by simp [hrest])).1
        have hckind := (hg.kind c hclt).trans (henc.head c hc).1
        have hcnew : c ∉ visited ++ [i] := by simpa using ⟨(hfree c hc).1, hother c hc⟩
        rw [findSome?_cons, findLoopHead, search, if_neg (by simpa using hcnew), hckind] at h
        rw [roundStart, hc]
        exact (Option.some.inj h).symm
    · obtain ⟨u, hu, hr⟩ := exists_of_findSome?_eq_some h
      obtain ⟨hlt, hson⟩ := hg.fathers i hi u hu
      rcases (hg.sons u hlt i hson).2 with h | ⟨hk, hloops, hnone⟩
      · refine ih hlt (h.symm.trans haround) (fun c hc => ⟨?_, fun hstart => hherald ⟨c, hc, hstart ▸ hu⟩⟩) hr
        simpa using ⟨(hfree c hc).1, hother c hc⟩
      · obtain ⟨l, rest, hl, hpassed, hhead⟩ := hn.reentered hk (hloops ▸ hnone)
        rw [hg.findLoopHead_none (T := []) hhead (by simp [hpassed]) hlt (hloops ▸ hl) (by simp)] at hr
        cases hr

end Flow

end ContractAudit
