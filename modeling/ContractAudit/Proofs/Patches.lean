import ContractAudit.Report.Finding

/-! # Patches replace their ranges -/

namespace ContractAudit.Report.Patch

open Text List

variable {p : Patch} {bytes : List UInt8} {low : Nat}

/-- The text from a place on, with the range of each patch replaced by its new text. -/
def replaceFrom (bytes : List UInt8) : Nat -> List Patch -> List UInt8
  | low, [] => bytes.drop low
  | low, p :: ps => (bytes.take p.start.toNat).drop low ++ p.new.toUTF8.data.toList ++ replaceFrom bytes p.stop.toNat ps

/-- The ranges lie one behind the other in the text, and a new text before another patch has one byte for each character. -/
def Apart (bytes : List UInt8) : Nat -> List Patch -> Prop
  | low, [] => low ≤ bytes.length
  | low, p :: ps =>
    low ≤ p.start ∧ p.start ≤ p.stop ∧ (ps ≠ [] → p.new.toUTF8.data.toList.length = p.new.length) ∧ Apart bytes p.stop.toNat ps

theorem Apart.le_length (h : Apart bytes low ps) : low ≤ bytes.length := by
  induction ps generalizing low with
  | nil => exact h
  | cons p ps ih =>
    obtain ⟨hlow, hstart, -, hrest⟩ := h
    have := ih hrest
    omega

theorem endInOrder_of_apart (h : Apart bytes low ps) : endInOrder ps = true := by
  induction ps generalizing low with
  | nil => rfl
  | cons p ps ih =>
    obtain ⟨-, -, -, hrest⟩ := h
    cases ps with
    | nil => rfl
    | cons q ps =>
      have hstops : p.stop ≤ q.stop := by
        obtain ⟨hlow, hstart, -⟩ := hrest
        omega
      simp [endInOrder, hstops, ih hrest]

theorem between_of_le (hi : 0 ≤ i) (hn : i ≤ xs.length) :
    between none (some i) xs = xs.take i.toNat ∧ between (some i) none xs = xs.drop i.toNat := by
  have hplace : place xs.length i = i.toNat := by
    rw [place, if_neg (by omega)]
    omega
  simp [between, hplace]

theorem apply_behind (before : List UInt8) (hlow : low ≤ p.start) (hstart : p.start ≤ p.stop)
    (hstop : p.stop.toNat ≤ bytes.length) : (p.apply (before ++ bytes.drop low) (before.length - low)).1 =
      before ++ (bytes.take p.start.toNat).drop low ++ p.new.toUTF8.data.toList ++ bytes.drop p.stop.toNat := by
  have hlength : (before ++ bytes.drop low).length = before.length + (bytes.length - low) := by simp
  have hfirst : (p.start + (before.length - low)).toNat = before.length + (p.start.toNat - low) := by omega
  have hlast : (p.stop + (before.length - low)).toNat = before.length + (p.stop.toNat - low) := by omega
  have hdrop : low + (p.stop.toNat - low) = p.stop.toNat := by omega
  rw [apply, (between_of_le (by omega) (by omega)).1, (between_of_le (by omega) (by omega)).2, hfirst, hlast,
    take_length_add_append, drop_length_add_append, drop_drop, drop_take, hdrop]

theorem foldl_apply (before : List UInt8) (h : Apart bytes low ps) :
    (ps.foldl (fun (text, shift) p => p.apply text shift) (before ++ bytes.drop low, (before.length : Int) - low)).1 =
      before ++ replaceFrom bytes low ps := by
  induction ps generalizing low before with
  | nil => rfl
  | cons p ps ih =>
    obtain ⟨hlow, hstart, hplain, hrest⟩ := h
    have htext := apply_behind before hlow hstart hrest.le_length
    rw [foldl_cons, replaceFrom, ← append_assoc, ← append_assoc]
    cases ps with
    | nil => exact htext
    | cons q qs =>
      let done := before ++ (bytes.take p.start.toNat).drop low ++ p.new.toUTF8.data.toList
      have hshift : (p.apply (before ++ bytes.drop low) (before.length - low)).2 = done.length - p.stop.toNat := by
        have hbytes := hplain (by simp)
        have hstop := hrest.le_length
        simp only [apply, done, length_append, length_drop, length_take]
        omega
      have hnext : p.apply (before ++ bytes.drop low) (before.length - low) =
          (done ++ bytes.drop p.stop.toNat, (done.length : Int) - p.stop.toNat) := Prod.ext htext hshift
      rw [← ih _ hrest, ← hnext]

/-- Patches with ranges apart from one another replace all of them at once. -/
theorem patched_of_apart (h : Apart bytes 0 (inOrder ps)) :
    patched? ps bytes = some (replaceFrom bytes 0 (inOrder ps)) := by
  rw [patched?, if_pos (endInOrder_of_apart h)]
  exact congrArg some (foldl_apply [] h)

def inTurn (s t : String) : List Patch := [⟨0, 1, "", s⟩, ⟨1, 2, "", t⟩]

theorem inOrder_inTurn : inOrder (inTurn s t) = inTurn s t := mergeSort_of_pairwise (by simp [inTurn])

theorem patched_inTurn : patched? (inTurn "cd" "é") [97, 98] = some [99, 100, 195, 169] := by
  have h : Apart [97, 98] 0 (inOrder (inTurn "cd" "é")) := by
    rw [inOrder_inTurn]
    exact ⟨by decide, by decide, fun _ => by decide, by decide, by decide, nofun, Nat.le_refl 2⟩
  rw [patched_of_apart h, inOrder_inTurn]
  decide

/-- A letter of two bytes moves the text behind it by one place too few. -/
theorem patched_accented : patched? (inTurn "é" "c") [97, 98] = some [195, 99, 98] ∧
    replaceFrom [97, 98] 0 (inTurn "é" "c") = [195, 169, 99] := by
  rw [patched?, inOrder_inTurn]
  decide

end ContractAudit.Report.Patch
