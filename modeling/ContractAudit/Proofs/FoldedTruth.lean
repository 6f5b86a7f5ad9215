import ContractAudit.Program.Folding
import Mathlib

/-! # Folded truth values

Numbers are cut to integers before they are compared, and `&&` and `||` know no truth but the literal `true`.
-/

namespace ContractAudit

open Number Option

def Folded.truth? : Folded → Option Bool
  | bool b => some b
  | text "true" => some true
  | text "false" => some false
  | _ => none

def Expr.isTrue : Expr → Bool
  | literal _ (.text "true") _ _ => true
  | _ => false

namespace Fold

section

variable (p : Program) (unsigned : Bool)

/-- Exact comparison. -/
def comparison? : BinaryOp → Rat → Rat → Option Bool
  | .less, a, b => some (a < b)
  | .lessEqual, a, b => some (a ≤ b)
  | .greater, a, b => some (a > b)
  | .greaterEqual, a, b => some (a ≥ b)
  | .equal, a, b => some (a = b)
  | .notEqual, a, b => some (a ≠ b)
  | _, _, _ => none

/-- The number that an expression folds to. -/
def operand? (fuel : Nat) (e : Expr) : Option Rat :=
  if isOperand e then (value p unsigned fuel e).toOption.bind fun v => v.asRatio?.map (·.1) else none

/-- The truth of literals, of comparisons of numbers that fold, and of what `&&` and `||` make of them. -/
def truth? : Nat → Expr → Option Bool
  | _ + 1, .literal _ (.text "true") (.elementary .bool) none => some true
  | _ + 1, .literal _ (.text "false") (.elementary .bool) none => some false
  | fuel + 1, .binary _ .andAnd l r => return (<- truth? fuel l) && (<- truth? fuel r)
  | fuel + 1, .binary _ .orOr l r => return (<- truth? fuel l) || (<- truth? fuel r)
  | fuel + 1, .binary _ op l r => do comparison? op (<- operand? p unsigned fuel l) (<- operand? p unsigned fuel r)
  | _, _ => none

/-- Cutting the numbers does not change a comparison, and what `&&` or `||` makes true it makes so from literals. -/
def Survives : Nat → Expr → Bool → Prop
  | _, .binary _ .andAnd l r, b => b = false ∨ l.isTrue ∧ r.isTrue
  | _, .binary _ .orOr l r, b => b = false ∨ l.isTrue ∨ r.isTrue
  | fuel + 1, .binary _ op l r, b =>
    ∀ x ∈ operand? p unsigned fuel l, ∀ y ∈ operand? p unsigned fuel r, comparison? op (truncate x) (truncate y) = some b
  | _, _, _ => True

end

variable {v w : Folded}

theorem value_binary (hl : value p unsigned fuel l = .ok v) (hr : value p unsigned fuel r = .ok w)
    (hv : v.get = .ok v) (hw : w.get = .ok w) (hlo : isOperand l = true) (hro : isOperand r = true) :
    value p unsigned (fuel + 1) (.binary i op l r) = binary op v w := by
  simp [value, hl, hr, hv, hw, hlo, hro, bind, Except.bind]

theorem operand_eq_some (h : operand? p unsigned fuel e = some q) :
    isOperand e = true ∧ ∃ v, value p unsigned fuel e = .ok v ∧ v.get = .ok v ∧ v.asInt = .ok (truncate q) := by
  obtain ⟨hop, h⟩ := ite_none_right_eq_some.1 h
  refine ⟨hop, ?_⟩
  cases hv : value p unsigned fuel e with
  | error f => simp [hv, Except.toOption] at h
  | ok v =>
    refine ⟨v, rfl, ?_⟩
    rw [hv] at h
    cases v with
    | bool b => cases h; cases b <;> exact ⟨rfl, rfl⟩
    | int i => cases h; simp [Folded.get, Folded.asInt, truncate]
    | ratio x => cases h; exact ⟨rfl, rfl⟩
    | _ => cases h

theorem binary_comparison (hv : v.asInt = .ok x) (hw : w.asInt = .ok y) (h : comparison? op x y = some c) :
    binary op v w = .ok (.bool c) := by
  cases op with
  | less | lessEqual | greater | greaterEqual | equal | notEqual =>
    cases h
    simp [binary, onInts, hv, hw, bind, Except.bind, bne, beq_eq_decide]
  | _ => cases h

theorem value_truth (h : truth? p unsigned fuel e = some b) : isOperand e = true ∧ ∃ v, value p unsigned fuel e = .ok v ∧
    v.get = .ok v ∧ v.settle unsigned = v ∧ isTrue v = e.isTrue ∧ (isTrue v = true → b = true) ∧
      (v.truth? = some b ↔ Survives p unsigned fuel e b) := by
  fun_induction truth? p unsigned fuel e generalizing b with
  | case1 | case2 =>
    cases h
    exact ⟨rfl, _, rfl, rfl, rfl, rfl, by decide, iff_of_true rfl trivial⟩
  | case3 fuel i l r ihl ihr | case4 fuel i l r ihl ihr =>
    obtain ⟨x, hx, h⟩ := bind_eq_some_iff.1 h
    obtain ⟨y, hy, h⟩ := bind_eq_some_iff.1 h
    obtain ⟨hlo, v, hl, hv, -, hlt, hltrue, -⟩ := ihl hx
    obtain ⟨hro, w, hr, hw, -, hrt, hrtrue, -⟩ := ihr hy
    refine ⟨rfl, _, value_binary hl hr hv hw hlo hro, rfl, rfl, rfl, nofun, ?_⟩
    simp only [Folded.truth?, Survives]
    cases hvt : isTrue v <;> cases hwt : isTrue w <;> simp_all
  | case5 fuel i op l r hand hor =>
    obtain ⟨x, hx, h⟩ := bind_eq_some_iff.1 h
    obtain ⟨y, hy, h⟩ := bind_eq_some_iff.1 h
    obtain ⟨hlo, v, hl, hv, hvint⟩ := operand_eq_some hx
    obtain ⟨hro, w, hr, hw, hwint⟩ := operand_eq_some hy
    obtain ⟨c, hc⟩ : ∃ c, comparison? op (truncate x) (truncate y) = some c := by
      cases op <;> first | exact ⟨_, rfl⟩ | cases h
    refine ⟨rfl, .bool c, ?_, rfl, rfl, rfl, nofun, ?_⟩
    · rw [value_binary hl hr hv hw hlo hro, binary_comparison hvint hwint hc]
    · simp [Folded.truth?, Survives, hx, hy, hc]
  | case6 => cases h

/-- The truth of an expression comes out exactly if it survives. -/
theorem fold_truth_iff (p : Program) {type : String} (h : truth? p (Text.startsWith type "uint") maxDepth e = some b) :
    (∃ v, p.fold type e = .ok v ∧ v.truth? = some b) ↔ Survives p (Text.startsWith type "uint") maxDepth e b := by
  obtain ⟨-, v, hv, hget, hsettle, -, -, hiff⟩ := value_truth h
  have hfold : p.fold type e = .ok v := by
    simp only [Program.fold, hv, hget, hsettle, bind, Except.bind, pure, Except.pure]
  simp only [hfold, Except.ok.injEq, exists_eq_left', hiff]

/-- `1 < 2` -/
def oneBelowTwo : Expr := .binary {} .less (number "1") (number "2")
where
  number (s : String) : Expr := .literal {} (.text s) .uint256 none

theorem oneBelowTwo_survives : ∃ v, Program.fold {} "bool" oneBelowTwo = .ok v ∧ v.truth? = some true := by
  refine (fold_truth_iff {} (by cbv)).2 fun x hx y hy => ?_
  cases hx
  cases hy
  cbv

/-- `1 < 2 && true` -/
def belowAndTrue : Expr := .binary {} .andAnd oneBelowTwo (.literal {} (.text "true") (.elementary .bool) none)

/-- To `&&` the comparison is no truth. -/
theorem belowAndTrue_lost :
    truth? {} false maxDepth belowAndTrue = some true ∧ Program.fold {} "bool" belowAndTrue = .ok (.bool false) :=
  ⟨by cbv, by cbv⟩

end Fold

end ContractAudit
