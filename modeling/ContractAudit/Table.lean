/-! # Tables

Lists of pairs in the order of first insertion. A later value under a key takes the place of the earlier one.
-/

namespace ContractAudit

abbrev Table (κ α : Type) := List (κ × α)

namespace Table

variable {κ α : Type} [BEq κ]

def find? (k : κ) : Table κ α -> Option α
  | [] => none
  | (k', v) :: rest => if k' == k then some v else find? k rest

def has (k : κ) (t : Table κ α) : Bool := (find? k t).isSome

def insert (k : κ) (v : α) : Table κ α -> Table κ α
  | [] => [(k, v)]
  | (k', w) :: rest => if k' == k then (k', v) :: rest else (k', w) :: insert k v rest

def update (t other : Table κ α) : Table κ α := other.foldl (fun t (k, v) => insert k v t) t

def alter (k : κ) (init : α) (f : α -> α) (t : Table κ α) : Table κ α := insert k (f ((find? k t).getD init)) t

def values (t : Table κ α) : List α := t.map (·.2)

def keys (t : Table κ α) : List κ := t.map (·.1)

def ofList (pairs : List (κ × α)) : Table κ α := update [] pairs

end Table

def addNew {α : Type} [BEq α] (x : α) (xs : List α) : List α := if xs.contains x then xs else xs ++ [x]

def addAllNew {α : Type} [BEq α] (xs ys : List α) : List α := ys.foldl (fun xs y => addNew y xs) xs

end ContractAudit
