import ContractAudit.Proofs.Outcomes
import ContractAudit.Storage.Layout
import Mathlib.Data.Rat.Floor

/-! # Places in storage

Variables get bytes one after the other. This holds as far as the slots of large variables are counted right: their number comes
from a division of doubles, which rounds sizes from `2 ^ 53` on.
-/

namespace ContractAudit

/-! ## Numbers of slots -/

namespace Number

theorem divNearest_of_dvd (hd : 0 < d) (h : d ∣ n) : divNearest n d = n / d := by
  simp [divNearest, Nat.mod_eq_zero_of_dvd h, hd]

/-- The unit of a small number divided by 32 is so small that nothing is rounded. -/
theorem nearestDouble_of_lt (h : n < 2 ^ 53) : nearestDouble n 32 = (n : ℚ) / 32 := by
  by_cases hn : n = 0
  · simp [hn, nearestDouble]
  · have hlog : Nat.log2 n ≤ 52 := Nat.lt_succ_iff.1 ((Nat.log2_lt hn).2 h)
    have h32 : Nat.log2 32 = 5 := by decide
    obtain ⟨k, hunit⟩ : ∃ k : Nat, unitExponent n 32 = -((k + 5 : Nat) : Int) := by
      refine ⟨(-5 - unitExponent n 32).toNat, ?_⟩
      simp only [unitExponent]
      split <;> omega
    have hdvd : 32 ∣ n * 2 ^ (k + 5) :=
      (pow_dvd_pow 2 (Nat.le_add_left 5 k)).trans (Nat.dvd_mul_left ..)
    have hneg : ¬ (0 : Int) ≤ -((k + 5 : Nat) : Int) := by omega
    rw [nearestDouble, if_neg (by simpa using hn), hunit, if_neg hneg]
    simp only [Int.natAbs_neg, Int.natAbs_natCast, Nat.pow_eq, divNearest_of_dvd (by decide) hdvd, Rat.mkRat_eq_div]
    obtain ⟨q, hq⟩ := hdvd
    rw [hq, Nat.mul_div_cancel_left q (by decide)]
    field_simp
    rw [mul_comm]
    exact_mod_cast hq.symm.trans (Nat.mul_comm ..)

end Number

namespace Storage

theorem slotsOf_of_lt (h : n < 2 ^ 53) : slotsOf n = (n + 31) / 32 := by
  have hceil : ((n : ℚ) / 32).ceil = -(-(n : Int) / 32) := by
    have hdiv := Rat.ceil_natCast_div_natCast n 32
    exact (Rat.ceil_eq_neg_floor_neg _).trans hdiv
  rw [slotsOf, Number.nearestDouble_of_lt h]
  omega

/-! ## Places -/

def Position.byte (p : Position) : Nat := 32 * p.slot + p.offset

/-- A variable with its place. -/
abbrev Room := Extent × Position

namespace Room

variable (x : Room)

def first : Nat := x.2.byte

/-- The byte behind the last one. -/
def stop : Nat := x.first + x.1.size

/-- What comes next does not begin before. -/
def limit : Nat := if x.1.startsSlot then 32 * ((x.stop + 31) / 32) else x.stop

/-- It has bytes in a slot. -/
def Covers (k : Nat) : Prop := x.first < 32 * (k + 1) ∧ 32 * k < x.stop

theorem stop_le_limit : x.stop ≤ x.limit := by
  unfold limit
  split <;> omega

end Room

/-- A variable has a byte, and fits into a slot unless it starts one. The slots of one that starts a slot are counted right. -/
structure Extent.Sound (e : Extent) : Prop where
  pos : 0 < e.size
  fits : e.startsSlot = false → e.size ≤ 32
  counted : e.startsSlot = true → slotsOf e.size = (e.size + 31) / 32

variable (free : Position) {es : List Extent}

/-- Slots up to a position that are taken, also in part. -/
def Position.slots : Nat := if free.offset > 0 then free.slot + 1 else free.slot

/-- What one step does to a position up to which the storage is filled. -/
structure Step (e : Extent) (p next : Position) : Prop where
  behind : free.byte ≤ Room.first (e, p)
  room : (e.startsSlot = true → p.offset = 0) ∧ (e.startsSlot = false → p.offset + e.size ≤ 32)
  filled : Room.limit (e, p) ≤ next.byte
  bound : next.offset ≤ 32
  slots : ∀ k, Room.Covers (e, p) k ∨ k < free.slots ↔ k < next.slots

theorem step_place {free : Position} (he : e.Sound) (hfree : free.offset ≤ 32) :
    Step free e (place free e) (behind (place free e) e) := by
  cases hstarts : e.startsSlot with
  | true =>
    have hslots := he.counted hstarts
    by_cases hoffset : free.offset > 0 <;> constructor <;>
      simp [place, Storage.behind, Position.byte, Position.slots, Room.limit, Room.stop, Room.first, Room.Covers] <;> grind
  | false =>
    have hfits := he.fits hstarts
    by_cases hover : e.size + free.offset > 32 <;> constructor <;>
      simp [place, Storage.behind, Position.byte, Position.slots, Room.limit, Room.stop, Room.first, Room.Covers] <;> grind

/-- Places from a position on: they lie behind it in order, and with it they take all slots up to another one. -/
structure Filled (xs : List Room) (next : Position) : Prop where
  behind : ∀ x ∈ xs, free.byte ≤ x.first
  ordered : xs.Pairwise fun x y => x.limit ≤ y.first
  inside : ∀ x ∈ xs, (x.1.startsSlot = true → x.2.offset = 0) ∧ (x.1.startsSlot = false → x.2.offset + x.1.size ≤ 32)
  slots : ∀ k, (∃ x ∈ xs, x.Covers k) ∨ k < free.slots ↔ k < next.slots

theorem filled_placesFrom {free : Position} (hes : ∀ e ∈ es, e.Sound) (hfree : free.offset ≤ 32) :
    Filled free (es.zip (placesFrom free es)) (es.foldl (fun free e => behind (place free e) e) free) := by
  induction es generalizing free with
  | nil => exact ⟨by simp, by simp, by simp, by simp⟩
  | cons e es ih =>
    have hstep := step_place (hes e (by simp)) hfree
    have hrest := ih (fun e he => hes e (by simp [he])) hstep.bound
    have hnext : free.byte ≤ (behind (place free e) e).byte :=
      (hstep.behind.trans ((Nat.le_add_right ..).trans (Room.stop_le_limit _))).trans hstep.filled
    simp only [placesFrom, List.zip_cons_cons, List.foldl_cons]
    constructor
    · simpa using ⟨hstep.behind, fun a b hx => hnext.trans (hrest.behind _ hx)⟩
    · exact .cons (fun x hx => hstep.filled.trans (hrest.behind x hx)) hrest.ordered
    · simpa using ⟨hstep.room, fun a b hx => hrest.inside _ hx⟩
    · intro k
      rw [← hrest.slots k, ← hstep.slots k, List.exists_mem_cons_iff, or_comm (a := Room.Covers _ k), or_assoc]

def rooms (es : List Extent) (ps : List Position) : List Room := es.zip ps

/-- A layout: in the order of the variables and apart from each other. Those that start a slot share none of theirs, the others
do not go over the end of a slot. -/
structure IsLayout (es : List Extent) (ps : List Position) : Prop where
  length : ps.length = es.length
  ordered : (rooms es ps).Pairwise fun x y => x.stop ≤ y.first
  starts : ∀ x ∈ rooms es ps, x.1.startsSlot = true → x.2.offset = 0
  alone : (rooms es ps).Pairwise fun x y => x.1.startsSlot = true ∨ y.1.startsSlot = true → ∀ k, ¬ (x.Covers k ∧ y.Covers k)
  inside : ∀ x ∈ rooms es ps, x.1.startsSlot = false → x.2.offset + x.1.size ≤ 32

theorem length_placesFrom {free : Position} : (placesFrom free es).length = es.length := by
  induction es generalizing free with
  | nil => rfl
  | cons e es ih => simp [placesFrom, ih]

theorem filled_places (hes : ∀ e ∈ es, e.Sound) : Filled {} (rooms es (places es)) (freeAfter es) :=
  filled_placesFrom hes (Nat.zero_le _)

theorem isLayout_places (hes : ∀ e ∈ es, e.Sound) : IsLayout es (places es) := by
  have h := filled_places hes
  refine ⟨length_placesFrom, h.ordered.imp fun hxy => (Room.stop_le_limit _).trans hxy, fun x hx => (h.inside x hx).1, ?_,
    fun x hx => (h.inside x hx).2⟩
  refine h.ordered.imp_of_mem fun {x y} _ hy hxy hstarts k hk => ?_
  have hoffset := (h.inside y hy).1
  simp only [Room.Covers, Room.limit, Room.first, Position.byte] at hk hxy
  rcases hstarts with hstarts | hstarts
  · rw [if_pos hstarts] at hxy
    omega
  · have := hoffset hstarts
    split at hxy <;> omega

end Storage

/-! ## Structs -/

namespace Program

open Storage

variable {p : Program}

/-- The extent of a member, by the function that gives those of types. -/
def memberExtent (p : Program) (of : Ty → Result Extent) (v : VariableId) : Result Extent :=
  match (p.var v).type with
  | some t => of t
  | none => .error (.lacks "NoneType" "storage_size")

theorem extentFrom_struct : p.extentFrom (fuel + 1) (.struct s) = .ok e ↔
    ∃ es, (p.structMembers s).mapM (p.memberExtent (p.extentFrom fuel)) = .ok es ∧ e = ⟨32 * slotCount es, true⟩ := by
  simp only [extentFrom, bind_eq_ok, pure, Except.pure, Except.ok.injEq, eq_comm (b := e)]
  rfl

/-- With more fuel the same extent is found. -/
theorem extentFrom_mono (h : p.extentFrom fuel t = .ok e) : p.extentFrom (fuel + k) t = .ok e := by
  induction fuel generalizing t e with
  | zero => simp [extentFrom] at h
  | succ fuel ih =>
    rw [Nat.add_right_comm]
    cases t with
    | array element length =>
      cases length with
      | none => exact h
      | some length =>
        rw [extentFrom, bind_eq_ok] at h ⊢
        obtain ⟨x, hx, h⟩ := h
        exact ⟨x, ih hx, h⟩
    | struct s =>
      obtain ⟨es, hes, rfl⟩ := extentFrom_struct.1 h
      refine extentFrom_struct.2 ⟨es, mapM_eq_ok.2 ((mapM_eq_ok.1 hes).imp fun v x hx => ?_), rfl⟩
      unfold memberExtent at hx ⊢
      split at hx
      · exact ih hx
      · cases hx
    | _ => exact h

theorem foldl_add {c : α → Nat} {xs : List α} :
    xs.foldl (fun n x => n + c x) (a + b) = xs.foldl (fun n x => n + c x) a + b := by
  induction xs generalizing a with
  | nil => rfl
  | cons x xs ih => rw [List.foldl_cons, List.foldl_cons, Nat.add_right_comm, ih]

theorem typeBound_struct_le (s : StructId) (t : Ty) : p.typeBound (some (.struct s)) ≤ p.typeBound (some t) + 1 := by
  have hweight : (Ty.struct s).weight + 1 = 1 + 1 := by simp [Ty.weight]
  simp only [typeBound, Option.map_some, Option.getD_some, ← Array.foldl_toList, hweight]
  rw [Nat.add_comm t.weight, foldl_add, foldl_add]
  omega

theorem struct_extent (h : p.extent (.struct s) = .ok e) :
    ∃ es, (p.structMembers s).mapM p.variableExtent = .ok es ∧ e = ⟨32 * slotCount es, true⟩ := by
  obtain ⟨es, hes, rfl⟩ := extentFrom_struct.1 h
  refine ⟨es, mapM_eq_ok.2 ((mapM_eq_ok.1 hes).imp fun v x hx => ?_), rfl⟩
  unfold memberExtent at hx
  unfold variableExtent
  cases ht : (p.var v).type <;> rw [ht] at hx
  case none => cases hx
  case some t =>
    obtain ⟨k, hk⟩ := Nat.exists_eq_add_of_le (typeBound_struct_le (p := p) s t)
    exact (congrArg (p.extentFrom · t) hk).trans (extentFrom_mono hx)

/-- If the slots of all that start one are counted right, as those of small ones are, variables are laid out apart from each
other and in order, and the size of a struct tells the slots that its members take in such a layout. -/
theorem layout_wellFormed (p : Program) (s : StructId) (es : List Extent) (e : Extent) :
    ((∀ e ∈ es, e.Sound) → IsLayout es (places es)) ∧
    (0 < e.size → (e.startsSlot = false → e.size ≤ 32) → e.size < 2 ^ 53 → e.Sound) ∧
    (p.extent (.struct s) = .ok e →
      ∃ es, (p.structMembers s).mapM p.variableExtent = .ok es ∧ e.startsSlot = true ∧ ((∀ e ∈ es, e.Sound) →
        ∃ n, e.size = 32 * n ∧ ∀ k, k < n ↔ ∃ x ∈ rooms es (places es), x.Covers k)) := by
  refine ⟨isLayout_places, fun hpos hfits hsize => ⟨hpos, hfits, fun _ => slotsOf_of_lt hsize⟩, fun he => ?_⟩
  obtain ⟨es, hes, rfl⟩ := struct_extent he
  refine ⟨es, hes, rfl, fun hsound => ⟨slotCount es, rfl, fun k => ?_⟩⟩
  exact ((or_iff_left (Nat.not_lt_zero k)).symm.trans ((filled_places hsound).slots k)).symm

/-- `struct S { address a; uint256 b; bytes c; }` -/
def threeMembers : Program :=
  { variableTable := #[.address, .uint 256, .bytes].map fun t => { kind := .state 0, type := some (.elementary t) }
    structTable := #[{ (default : Struct) with members := [("a", 0), ("b", 1), ("c", 2)], order := ["a", "b", "c"] }] }

theorem threeMembers_slots : ∃ e es, threeMembers.extent (.struct 0) = .ok e ∧
    (threeMembers.structMembers 0).mapM threeMembers.variableExtent = .ok es ∧ IsLayout es (places es) ∧
    ∃ n, e.size = 32 * n ∧ ∀ k, k < n ↔ ∃ x ∈ rooms es (places es), x.Covers k := by
  have hsize : (threeMembers.extent (.struct 0)).isOk = true := by decide +kernel
  have hmembers : ((threeMembers.structMembers 0).mapM threeMembers.variableExtent).toOption =
      some [⟨20, false⟩, ⟨32, false⟩, ⟨32, true⟩] := by decide +kernel
  cases he : threeMembers.extent (.struct 0) with
  | error => simp [he, Except.isOk, Except.toBool] at hsize
  | ok e =>
    obtain ⟨es, hes, -, h⟩ := (layout_wellFormed threeMembers 0 [] e).2.2 he
    obtain rfl : es = _ := Option.some.inj (hes ▸ hmembers)
    have hsound : ∀ e ∈ ([⟨20, false⟩, ⟨32, false⟩, ⟨32, true⟩] : List Extent), e.Sound := by
      have hsmall : ∀ e ∈ ([⟨20, false⟩, ⟨32, false⟩, ⟨32, true⟩] : List Extent),
          0 < e.size ∧ (e.startsSlot = false → e.size ≤ 32) ∧ e.size < 2 ^ 53 := by decide
      exact fun e he => (layout_wellFormed threeMembers 0 [] e).2.1 (hsmall e he).1 (hsmall e he).2.1 (hsmall e he).2.2
    exact ⟨e, _, rfl, hes, (layout_wellFormed threeMembers 0 _ e).1 hsound, h hsound⟩

/-- `uint8[9007199254740993] a; uint8 b;` -/
def largeArray : List Extent := [⟨2 ^ 53 + 1, true⟩, ⟨1, false⟩]

/-- The last byte of the array is the first of the variable behind it. -/
theorem largeArray_overlaps : (∀ e ∈ largeArray, 0 < e.size ∧ (e.startsSlot = false → e.size ≤ 32)) ∧
    ¬ IsLayout largeArray (places largeArray) := by
  refine ⟨by decide +kernel, fun h => ?_⟩
  have hordered : ¬ (rooms largeArray (places largeArray)).Pairwise fun x y => x.first + x.1.size ≤ y.first := by decide +kernel
  exact hordered h.ordered

end Program

end ContractAudit
