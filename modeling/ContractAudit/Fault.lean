import ContractAudit.Text.Quoted

/-! # Faults

Each constructor is one kind of cause and carries the words of its message.
-/

namespace ContractAudit

inductive Fault where
  | missingKey (key : String)
  | badValue (text : String)
  | badType (text : String)
  | badIndex (text : String)
  | noProperty (text : String)
  | broken (text : String)
  | zeroDenominator (text : String)
  | badVersion (text : String)
  | badUtf8 (text : String)
  | notElementary
  | notConstant (text : String)
  | parsing (text : String)
  | unknownVariable (text : String)
  | analysis (text : String)
  | model (text : String)
  | fatal (text : String)
  | lookup (text : String)
  | unhandled (text : String)
  | exhausted
  | tooDeep (text : String)
  | unbound (name : String)
  | overflow (text : String)
  | lowering (text : String)
  | inheritance (text : String)
  | unresolved (text : String)
  | formatting (text : String)
  | endOfInput

/-- A value, or why there is none. -/
abbrev Result := Except Fault

namespace Fault

def message : Fault -> String
  | missingKey t | badValue t | badType t | badIndex t | noProperty t | broken t
  | zeroDenominator t | badVersion t | badUtf8 t | notConstant t | parsing t | unknownVariable t
  | analysis t | model t | fatal t | lookup t | unhandled t | tooDeep t | overflow t | lowering t
  | inheritance t | unresolved t | formatting t => t
  | unbound n => s!"cannot access local variable '{n}' where it is not associated with a value"
  | endOfInput => "EOF when reading a line"
  | notElementary | exhausted => ""

def missing (key : String) : Fault := missingKey (Text.quoted key)

def outOfRange : Fault := badIndex "list index out of range"

def depth : Fault := tooDeep "maximum recursion depth exceeded"

def lacks (kind property : String) : Fault := noProperty s!"'{kind}' object has no attribute '{property}'"

end Fault

/-- The value, or the fault if there is none. -/
def expect {m : Type -> Type} [Monad m] [MonadExcept Fault m] {α : Type} (x : Option α) (f : Fault) : m α :=
  x.elim (throw f) pure

end ContractAudit
