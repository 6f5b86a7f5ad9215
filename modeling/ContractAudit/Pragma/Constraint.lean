import ContractAudit.Version

/-! # Version constraints of pragmas

Whether a pragma excludes all compilers below a version, and whether the version it names is a good choice.
-/

namespace ContractAudit.Pragma

open Text

/-- The last patch of each minor version from `0.1` on. -/
def lastPatches : List Nat := [7, 2, 6, 26, 17, 12, 6, 25]

def releases : List (Nat × Nat) :=
  (lastPatches.zipIdx 1).flatMap fun (last, minor) => (List.range (last + 1)).map fun patch => (minor, patch)

structure CompilerBug where
  name : String
  introduced : Nat × Nat
  lastSeen : Nat × Nat

/-- The bugs of any one version stand in the order in which they are reported. -/
def compilerBugs : List CompilerBug :=
  [ ⟨"VerbatimInvalidDeduplication", (8, 5), (8, 22)⟩,
    ⟨"FullInlinerNonExpressionSplitArgumentEvaluationOrder", (6, 7), (8, 20)⟩,
    ⟨"MissingSideEffectsOnSelectorAccess", (6, 2), (8, 20)⟩,
    ⟨"StorageWriteRemovalBeforeConditionalTermination", (8, 13), (8, 16)⟩,
    ⟨"AbiReencodingHeadOverflowWithStaticArrayCleanup", (5, 8), (8, 15)⟩,
    ⟨"DirtyBytesArrayToStorage", (1, 0), (8, 14)⟩,
    ⟨"InlineAssemblyMemorySideEffects", (8, 13), (8, 14)⟩,
    ⟨"DataLocationChangeInInternalOverride", (6, 9), (8, 13)⟩,
    ⟨"NestedCalldataArrayAbiReencodingSizeValidation", (5, 8), (8, 13)⟩,
    ⟨"AbiEncodeCallLiteralAsFixedBytesBug", (8, 11), (8, 12)⟩,
    ⟨"UserDefinedValueTypesBug", (8, 8), (8, 8)⟩,
    ⟨"SignedImmutables", (6, 5), (8, 8)⟩,
    ⟨"ABIDecodeTwoDimensionalArrayMemory", (4, 16), (8, 3)⟩,
    ⟨"KeccakCaching", (1, 0), (8, 2)⟩,
    ⟨"EmptyByteArrayCopy", (1, 0), (7, 3)⟩,
    ⟨"DynamicArrayCleanup", (1, 0), (7, 2)⟩,
    ⟨"FreeFunctionRedefinition", (7, 1), (7, 1)⟩,
    ⟨"UsingForCalldata", (6, 9), (6, 9)⟩,
    ⟨"MissingEscapingInFormatting", (5, 14), (6, 7)⟩,
    ⟨"ArraySliceDynamicallyEncodedBaseType", (6, 0), (6, 7)⟩,
    ⟨"ImplicitConstructorCallvalueCheck", (4, 5), (6, 7)⟩,
    ⟨"TupleAssignmentMultiStackSlotComponents", (1, 6), (6, 5)⟩,
    ⟨"MemoryArrayCreationOverflow", (2, 0), (6, 4)⟩,
    ⟨"YulOptimizerRedundantAssignmentBreakContinue", (6, 0), (6, 0)⟩,
    ⟨"privateCanBeOverridden", (3, 0), (5, 16)⟩,
    ⟨"YulOptimizerRedundantAssignmentBreakContinue0.5", (5, 8), (5, 15)⟩,
    ⟨"ABIEncoderV2LoopYulOptimizer", (5, 14), (5, 14)⟩,
    ⟨"ABIEncoderV2CalldataStructsWithStaticallySizedAndDynamicallyEncodedMembers", (5, 6), (5, 10)⟩,
    ⟨"SignedArrayStorageCopy", (4, 7), (5, 9)⟩,
    ⟨"ABIEncoderV2StorageArrayWithMultiSlotElement", (4, 16), (5, 9)⟩,
    ⟨"DynamicConstructorArgumentsClippedABIV2", (4, 16), (5, 8)⟩,
    ⟨"UninitializedFunctionPointerInConstructor", (5, 0), (5, 7)⟩,
    ⟨"IncorrectEventSignatureInLibraries", (5, 0), (5, 7)⟩,
    ⟨"ABIEncoderV2PackedStorage", (5, 0), (5, 6)⟩,
    ⟨"IncorrectByteInstructionOptimization", (5, 5), (5, 6)⟩,
    ⟨"DoubleShiftSizeOverflow", (5, 5), (5, 5)⟩,
    ⟨"UninitializedFunctionPointerInConstructor_0.4.x", (4, 5), (4, 25)⟩,
    ⟨"IncorrectEventSignatureInLibraries_0.4.x", (3, 0), (4, 25)⟩,
    ⟨"ABIEncoderV2PackedStorage_0.4.x", (4, 19), (4, 25)⟩,
    ⟨"ExpExponentCleanup", (1, 0), (4, 24)⟩,
    ⟨"EventStructWrongData", (4, 17), (4, 24)⟩,
    ⟨"OneOfTwoConstructorsSkipped", (4, 22), (4, 22)⟩,
    ⟨"NestedArrayFunctionCallDecoder", (1, 4), (4, 21)⟩,
    ⟨"ZeroFunctionSelector", (1, 0), (4, 17)⟩,
    ⟨"DelegateCallReturnValue", (3, 0), (4, 14)⟩,
    ⟨"ECRecoverMalformedInput", (1, 0), (4, 13)⟩,
    ⟨"SkipEmptyStringLiteral", (1, 0), (4, 11)⟩,
    ⟨"ConstantOptimizerSubtraction", (1, 0), (4, 10)⟩,
    ⟨"IdentityPrecompileReturnIgnored", (1, 0), (4, 6)⟩,
    ⟨"OptimizerStateKnowledgeNotResetForJumpdest", (4, 5), (4, 5)⟩,
    ⟨"HighOrderByteCleanStorage", (1, 6), (4, 3)⟩,
    ⟨"OptimizerStaleKnowledgeAboutSHA3", (1, 0), (4, 2)⟩,
    ⟨"LibrariesNotCallableFromPayableFunctions", (4, 0), (4, 1)⟩,
    ⟨"SendFailsForZeroEther", (1, 0), (3, 6)⟩,
    ⟨"DynamicAllocationInfiniteLoop", (1, 0), (3, 5)⟩,
    ⟨"OptimizerClearStateOnCodePathJoin", (1, 0), (3, 5)⟩,
    ⟨"CleanBytesHigherOrderBits", (1, 0), (3, 2)⟩,
    ⟨"ArrayAccessCleanHigherOrderBits", (1, 0), (3, 0)⟩,
    ⟨"AncientCompiler", (1, 0), (2, 2)⟩]

def upTo (early late : Nat × Nat) : Bool := early.1 < late.1 || (early.1 == late.1 && early.2 ≤ late.2)

def CompilerBug.affects (bug : CompilerBug) (release : Nat × Nat) : Bool :=
  upTo bug.introduced release && upTo release bug.lastSeen

def knownBugs? (version : String) : Option (List String) :=
  (releases.find? fun (minor, patch) => version == s!"0.{minor}.{patch}").map fun release =>
    (compilerBugs.filter (·.affects release)).map (·.name)

/-! ## Version constraints of pragmas -/

section

variable (cs : List Char)

inductive Comparator where
  | bare
  | atLeast
  | atMost
  | caret
  | above
  | below

def comparators : List Char -> List (Comparator × List Char)
  | '>' :: '=' :: cs => [(.atLeast, cs), (.above, '=' :: cs), (.bare, '>' :: '=' :: cs)]
  | '<' :: '=' :: cs => [(.atMost, cs), (.below, '=' :: cs), (.bare, '<' :: '=' :: cs)]
  | '^' :: cs => [(.caret, cs), (.bare, '^' :: cs)]
  | '>' :: cs => [(.above, cs), (.bare, '>' :: cs)]
  | '<' :: cs => [(.below, cs), (.bare, '<' :: cs)]
  | cs => [(.bare, cs)]

def shortVersion? : Option (List Nat × List Char) := do
  let (a, rest) <- Version.number? cs
  match rest with
  | '.' :: more =>
    let (b, rest) <- Version.number? more
    match rest with
    | '.' :: more =>
      match Version.number? more with
      | some (c, rest) => some ([a, b, c], rest)
      | none => some ([a, b], rest)
    | _ => some ([a, b], rest)
  | _ => none

def comparison? : Option ((Comparator × List Nat) × List Char) :=
  (comparators cs).findSome? fun (op, rest) => (shortVersion? (dropBlanks rest)).map fun (v, rest) => ((op, v), rest)

def comparisons : Nat -> List Char -> List (Comparator × List Nat)
  | 0, _ => []
  | _ + 1, [] => []
  | n + 1, c :: cs =>
    match comparison? (c :: cs) with
    | some (x, rest) => x :: comparisons n rest
    | none => comparisons n cs

def bump : List Nat -> List Nat
  | [] => []
  | [n] => [n + 1]
  | n :: rest => n :: bump rest

def lowerBound? : Comparator × List Nat -> Option Version
  | (.atLeast, v) | (.caret, v) | (.bare, v) => some (.ofRelease v)
  | (.above, v) => some (.ofRelease (bump v))
  | _ => none

def lowest : List Version -> Version
  | [] => .ofRelease [0, 0, 0]
  | v :: rest => rest.foldl (fun m w => if w.isBefore m then w else m) v

/-- No comparison of the clause admits a version below the target. -/
def clauseIsSafe (target : Version) (clause : String) : Bool :=
  let cs := clause.toList
  !(lowest ((comparisons (cs.length + 1) cs).filterMap lowerBound?)).isBefore target

def pragmaTail? : Option (List Char) := do
  let rest <- afterPrefix? "pragma".toList cs
  match rest with
  | c :: more =>
    if isBlank c then
      let rest <- afterPrefix? "solidity".toList (dropBlanks more)
      let tail := dropBlanks rest
      if tail.contains '\n' then none else some tail
    else none
  | [] => none

def findPragma? : List Char -> Option (List Char)
  | [] => none
  | c :: cs => (pragmaTail? (c :: cs)).or (findPragma? cs)

def isSafe (pragma target : String) : Result Bool := do
  let constraint <- expect (findPragma? (strip pragma).toList) (.badValue ("Not a solidity pragma: " ++ quoted pragma))
  let target <- Version.parse target
  if constraint.isEmpty then throw (.lacks "NoneType" "split")
  return (splitOn (.ofList constraint) "||").all (clauseIsSafe target)

structure Pinned where
  comparator : String
  gap : String
  numbers : List String
  deriving DecidableEq

def digits? : Option (String × List Char) :=
  let (ds, rest) := cs.span isDecimal
  if ds.isEmpty then none else some (.ofList ds, rest)

def threeNumbers? : Option (List String × List Char) := do
  let (a, rest) <- digits? cs
  let rest <- afterPrefix? ['.'] rest
  let (b, rest) <- digits? rest
  let rest <- afterPrefix? ['.'] rest
  let (c, rest) <- digits? rest
  some ([a, b, c], rest)

def pinned? : Option (Pinned × List Char) :=
  let starts : List (String × List Char) := match cs with
    | '^' :: rest => [("^", rest), ("", cs)]
    | '>' :: '=' :: rest => [(">", '=' :: rest), (">=", rest), ("", cs)]
    | '<' :: '=' :: rest => [("<", '=' :: rest), ("<=", rest), ("", cs)]
    | '>' :: rest => [(">", rest), ("", cs)]
    | '<' :: rest => [("<", rest), ("", cs)]
    | _ => [("", cs)]
  starts.findSome? fun (op, rest) =>
    let (gap, rest) := rest.span (· == ' ')
    (threeNumbers? rest).map fun (ns, rest) => (⟨op, .ofList gap, ns⟩, rest)

def pinnedVersions : Nat -> List Char -> List Pinned
  | 0, _ => []
  | _ + 1, [] => []
  | n + 1, c :: cs =>
    match pinned? (c :: cs) with
    | some (p, rest) => p :: pinnedVersions n rest
    | none => pinnedVersions n cs

def Pinned.complaint? (p : Pinned) : Option String :=
  if p.comparator != "" && !(["^", ">", ">="].contains p.comparator) then some "uses lesser than"
  else match knownBugs? (".".intercalate p.numbers) with
    | some (b :: bs) =>
      some ("contains known severe issues (https://solidity.readthedocs.io/en/latest/bugs.html)\n" ++
        "\n".intercalate ((b :: bs).map ("\t- " ++ ·)))
    | _ => none

def acceptedBounds : List Pinned := ["5", "6", "7"].map fun minor => ⟨"<", "", ["0", minor, "0"]⟩

def complaint? (version : String) : Option String :=
  let cs := version.toList
  match pinnedVersions (cs.length + 1) cs with
  | [p] => p.complaint?
  | [p, bound] => if acceptedBounds.contains bound then p.complaint? else some "is too complex"
  | _ => some "is too complex"

end

end ContractAudit.Pragma
