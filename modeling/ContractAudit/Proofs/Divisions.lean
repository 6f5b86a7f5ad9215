import ContractAudit.Detect.Arithmetic
import Mathlib.Algebra.Order.Ring.Int

/-! # Divisions and comparisons

A divisor has to be checked before, and a comparison with a constant has to tell some numbers apart.
-/

namespace ContractAudit.Detect

open Ir Analysis List

def readAtChecks (a : Analysis) (f : FunctionId) (ns : List NodeId) : List Value :=
  (ns.filter (a.requires f)).flatMap fun n => (a.nodeCode f n).read

theorem readAtChecks_cons {ns : List NodeId} : readAtChecks a f (m :: ns) = readAtChecks a f [m] ++ readAtChecks a f ns := by
  simp only [readAtChecks, filter_cons]
  split <;> simp

theorem mem_findChecked :
    x ∈ findChecked a f find nodes checked ↔
      ∃ ns n, ns ++ [n] <+: nodes ∧ x ∈ find n (checked ++ readAtChecks a f (ns ++ [n])) := by
  induction nodes generalizing checked with
  | nil => simp [findChecked]
  | cons m nodes ih =>
    have hchecked : (if a.requires f m then checked ++ (a.nodeCode f m).read else checked) =
        checked ++ readAtChecks a f [m] := by
      simp only [readAtChecks, filter_cons]
      split <;> simp
    rw [findChecked, mem_append, ih]
    simp only [hchecked, append_assoc, ← readAtChecks_cons]
    constructor
    · rintro (hx | ⟨ns, n, hn, hx⟩)
      · exact ⟨[], m, by simp, hx⟩
      · exact ⟨m :: ns, n, by simpa using hn, hx⟩
    · rintro ⟨ns, n, hn, hx⟩
      cases ns with
      | nil =>
        obtain ⟨rfl, -⟩ := cons_prefix_cons.1 hn
        exact .inl hx
      | cons k ns =>
        obtain ⟨rfl, hrest⟩ := cons_prefix_cons.1 hn
        exact .inr ⟨ns, n, hrest, hx⟩

variable (a : Analysis) (f : FunctionId)

/-- A parameter of the function that no check reads at the nodes. -/
def Unchecked (ns : List NodeId) (v : Value) : Prop :=
  among v (parametersOf a f) = true ∧ among v (readAtChecks a f ns) = false

def Divides (n : NodeId) (v : Value) : Prop := ∃ r l, .binary r .division l v ∈ opsAt a f n

/-- The function divides by a parameter that was not checked up to there. -/
def Exposes (v : Value) : Prop :=
  ∃ ns n, ns ++ [n] <+: a.nodeIds f ∧ Divides a f n v ∧ Unchecked a f (ns ++ [n]) v

variable {a f}

theorem mem_exposedDivisors : v ∈ exposedDivisors a g ↔ Exposes a g v := by
  rw [exposedDivisors, mem_findChecked]
  refine exists_congr fun ns => exists_congr fun n => and_congr_right fun _ => ?_
  rw [mem_filterMap, nil_append]
  constructor
  · rintro ⟨op, hop, hv⟩
    split at hv
    next r l w =>
      obtain ⟨⟨hchecked, hparameter⟩, rfl⟩ := by simpa using hv
      exact ⟨⟨r, l, hop⟩, hparameter, hchecked⟩
    next => cases hv
  · rintro ⟨⟨r, l, hop⟩, hparameter, hchecked⟩
    exact ⟨_, hop, by simp [hparameter, hchecked]⟩

/-- A parameter that was not checked is passed for one that the called function exposes. -/
def Passes (a : Analysis) (f : FunctionId) (ns : List NodeId) (n : NodeId) : Prop :=
  ∃ c g, .call c ∈ opsAt a f n ∧ innerCallee? (.call c) = some g ∧ ∃ x ∈ (parametersOf a g).zip c.arguments,
    (∃ v, Exposes a g v ∧ x.1.same v = true) ∧ Unchecked a f ns x.2

theorem isUnsafeDivision_iff : isUnsafeDivision a f n (readAtChecks a f ns) = true ↔
    (∃ v, Divides a f n v ∧ Unchecked a f ns v) ∨ Passes a f ns n ∨
      ∃ c, Divides a f n (.constant c) ∧ c.value.same (.text "0") = true := by
  have hexposed (x : Value) (g : FunctionId) : among x (exposedDivisors a g) = true ↔ ∃ v, Exposes a g v ∧ x.same v = true := by
    simp [among, mem_exposedDivisors]
  rw [isUnsafeDivision, any_eq_true]
  constructor
  · rintro ⟨op, hop, h⟩
    split at h
    next r l v =>
      split at h
      next c => exact .inr (.inr ⟨c, ⟨r, l, hop⟩, h⟩)
      next => exact .inl ⟨v, ⟨r, l, hop⟩, by simpa [Unchecked] using h⟩
    next c =>
      obtain ⟨g, hg, h⟩ := (Option.any_eq_true _ _).1 h
      obtain ⟨x, hx, h⟩ := any_eq_true.1 h
      exact .inr (.inl ⟨c, g, hop, hg, x, hx, by simpa [Unchecked, hexposed, and_assoc] using h⟩)
    next => cases h
  · rintro (⟨v, ⟨r, l, hop⟩, hparameter, hchecked⟩ | ⟨c, g, hop, hg, x, hx, hv, hparameter, hchecked⟩ | ⟨c, ⟨r, l, hop⟩, hc⟩)
    · refine ⟨_, hop, ?_⟩
      cases v with
      | constant => simp [among, parametersOf, Value.same] at hparameter
      | _ => simp [hparameter, hchecked]
    · refine ⟨_, hop, ?_⟩
      simp only [hg, Option.any_some, passesUnchecked, any_eq_true]
      exact ⟨x, hx, by simp [(hexposed ..).2 hv, hparameter, hchecked]⟩
    · exact ⟨_, hop, hc⟩

/-- A node is found exactly if it divides by a parameter that was not checked, passes one to such a division, or divides by the
text `0`. -/
theorem mem_unsafeDivisions : n ∈ unsafeDivisions a f ↔ ∃ ns, ns ++ [n] <+: a.nodeIds f ∧
    ((∃ v, Divides a f n v ∧ Unchecked a f (ns ++ [n]) v) ∨ Passes a f (ns ++ [n]) n ∨
      ∃ c, Divides a f n (.constant c) ∧ c.value.same (.text "0") = true) := by
  rw [unsafeDivisions, mem_findChecked]
  simp only [← isUnsafeDivision_iff, nil_append, mem_ite_nil_right, mem_singleton]
  grind

/-- A number is divided by the literal `0`. -/
def dividesByZero (zero : Constant) : Analysis where
  program := { functionTable := #[{ place := .inContract 0 0, flow := { order := [0] } }] }
  code := #[{ nodes := #[{ instrs := [{ op := .binary (.temporary 0) .division messageValue (.constant zero) }] }] }]

theorem dividesByZero_missed : ∃ zero, Constant.ofLiteral "0" (some (.uint 256)) none = .ok zero ∧
    Divides (dividesByZero zero) 0 0 (.constant zero) ∧ unsafeDivisions (dividesByZero zero) 0 = [] :=
  ⟨_, rfl, ⟨_, _, .head _⟩, by decide⟩

/-! ## Comparisons that a type decides -/

/-- The numbers of a type of integers. -/
def IsNumberOf : Elementary → Int → Prop
  | .uint bits, x => 0 ≤ x ∧ x < 2 ^ bits
  | .int bits, x => -2 ^ (bits - 1) ≤ x ∧ x < 2 ^ (bits - 1)
  | _, _ => False

def Compares (c x : Int) : BinaryOp → Prop
  | .less => x < c
  | .greater => c < x
  | .lessEqual => x ≤ c
  | .greaterEqual => c ≤ x
  | _ => False

/-- Comparing with `c` tells no two numbers of `P` apart. -/
def Alike (P : Int → Prop) (c : Int) (op : BinaryOp) : Prop := ∀ x y, P x → P y → (Compares c x op ↔ Compares c y op)

variable {op : BinaryOp} {t : Elementary}

theorem isDecided_iff_alike (hop : (flipped? op).isSome) (hle : low ≤ high) :
    isDecided low high c op = true ↔ Alike (fun x => low ≤ x ∧ x ≤ high) c op := by
  constructor
  · intro h x y hx hy
    cases op <;> simp [isDecided, Compares, flipped?] at * <;> omega
  · intro h
    have hends := h low high ⟨Int.le_refl _, hle⟩ ⟨hle, Int.le_refl _⟩
    cases op <;> simp [isDecided, Compares, flipped?] at * <;> omega

theorem isNumberOf_iff (ht : integerRange? t = some (low, high)) : ∃ least, t.min? = some least ∧ least ≤ high ∧
    (least = low ∨ least = low - 1) ∧ IsNumberOf t = fun x => least ≤ x ∧ x ≤ high := by
  cases t <;> simp only [integerRange?, Option.some.injEq, Prod.mk.injEq, reduceCtorEq] at ht <;> obtain ⟨rfl, rfl⟩ := ht
  case uint bits =>
    have hpos : 0 < Int.pow 2 bits := Int.pow_pos (by decide)
    exact ⟨0, rfl, by omega, .inl rfl, funext fun x => propext (and_congr_right' Int.le_sub_one_iff.symm)⟩
  case int bits =>
    have hpos : 0 < Int.pow 2 (bits - 1) := Int.pow_pos (by decide)
    exact ⟨_, rfl, by omega, .inr (by omega), funext fun x => propext (and_congr_right' Int.le_sub_one_iff.symm)⟩

/-- A comparison is reported exactly if it comes out alike for all numbers of the type, or tells only the least number of a type
with a sign from the others. -/
theorem isDecided_exact (ht : integerRange? t = some (low, high)) (hop : (flipped? op).isSome) (c : Int) :
    isDecided low high c op = true ↔ Alike (IsNumberOf t) c op ∨
      t.min? = some (low - 1) ∧ c = if op = .less ∨ op = .greaterEqual then low else low - 1 := by
  obtain ⟨least, hmin, hle, hleast, hnumbers⟩ := isNumberOf_iff ht
  rw [hmin, hnumbers, ← isDecided_iff_alike hop hle]
  rcases hleast with rfl | rfl
  · exact (or_iff_left fun h => by have := Option.some.inj h.1; omega).symm
  · cases op <;> simp [isDecided, flipped?] at * <;> omega

theorem isDecided_byte : isDecided (-127) 127 128 .less = true ∧ Alike (IsNumberOf (.int 8)) 128 .less := by
  have h := @isDecided_exact .less (.int 8) _ _ rfl rfl 128
  exact ⟨rfl, (h.1 rfl).resolve_right (by decide)⟩

/-- The least number of a byte is not at least -127. -/
theorem isDecided_astray : isDecided (-127) 127 (-127) .greaterEqual = true ∧
    ¬ Alike (IsNumberOf (.int 8)) (-127) .greaterEqual := by
  refine ⟨rfl, fun h => ?_⟩
  have hleast := h (-128) 0 ⟨by decide, by decide⟩ ⟨by decide, by decide⟩
  simp [Compares] at hleast

end ContractAudit.Detect
