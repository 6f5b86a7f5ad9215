import ContractAudit.Audit
import ContractAudit.Detect.Access
import ContractAudit.Detect.Arithmetic
import ContractAudit.Detect.CompilerDefects
import ContractAudit.Detect.Functions
import ContractAudit.Detect.Flows
import ContractAudit.Detect.Names
import ContractAudit.Detect.Reentrancy
import ContractAudit.Detect.Tokens
import ContractAudit.Detect.Variables

/-! # All detectors -/

namespace ContractAudit

namespace Detector

open Detect

def registered : List Detector :=
  [integerUnderflow, integerOverflow, divisionByZero, integerDivision, truncation, signedness]

def all : List Detector :=
  registered ++
    [arbitrarySendEth, suicidal, protectedVariables, backdoor, incorrectModifier, incorrectReturn,
      returnInsteadOfLeave, shiftParameterMixup, constantFunctionsAssembly, constantFunctionsState, differentPragmas,
      incorrectCompiler, lockedEther, missingInheritance, booleanEquality, booleanConstant, selfComparison,
      typeTautology, strictEquality, arrayByReference, enumConversion, multipleConstructors, publicMappingNested,
      reusedBaseConstructor, encoderArrays, signedStorageArrays, unsetFunctionPointers, controlledArrayLength,
      controlledDelegatecall, returnBomb, unprotectedUpgrade, missingEventsAccess, missingEventsArithmetic,
      divideBeforeMultiply, writeAfterWrite, chronicleUncheckedPrice, pythUncheckedConfidence, pythUncheckedTime,
      cyclomaticComplexity, deadCode, unimplementedFunctions, externalFunction, incorrectUsingFor, unusedImport,
      missingZeroCheck, encodePackedCollision, incorrectExponentiation, lowLevelCalls, voidConstructor,
      cacheArrayLength, callsLoop, costlyLoop, delegatecallLoop, msgValueLoop, namingConvention, nameReused,
      rightToLeft, reentrancyBenign, reentrancyEth, reentrancyNoEth, reentrancyEvents, reentrancyUnlimitedGas,
      tokenReentrancy, unusedReturn, uncheckedTransfer, uncheckedSend, uncheckedLowLevel, feedRegistry,
      pythDeprecated, retiredPredeploys, unprotectedRandomness, outOfOrderTickets, shadowingAbstract, shadowingState,
      shadowingBuiltin, shadowingLocal, assemblyUse, assertStateChange, deprecatedStandards, redundantStatements,
      txOrigin, tooManyDigits, incorrectUnary, mappingDeletion, weakRandomness, timestamp, arbitraryFromNoPermit,
      arbitraryFromPermit, erc20Interface, erc721Interface, erc20Unindexed, domainSeparatorCollision,
      uninitializedLocal, uninitializedStorage, uninitializedState, constableStates, immutableStates,
      functionInitState, variableScope, unusedState, varReadUsingThis]

def named (name : String) : Result Detector := expect (all.find? (·.name == name)) (.missing name)

end Detector

/-! ## Running detectors -/

namespace Audit

variable (audit : Audit)

variable (d : Detector) (a : Analysis)

def foundIn : Result (List Report) × Analysis × List String :=
  let (found, a) := d.find audit.units a
  let reports : Result (List Report) := do
    let found : List Finding <- found
    found.mapM (Finding.report a.program audit.options.markdownRoot d.isWhole d.name d.impact d.confidence)
  match reports with
  | .ok reports =>
    let (shown, seen) := audit.screen.keep audit.seen reports
    let (mended, a) := if audit.options.generatePatches then Report.repairedAll d.repair shown a else (.ok shown, a)
    (mended, a, seen)
  | .error fault => (.error fault, a, audit.seen)

def detectIn : Result (List Report) × Analysis × List String :=
  let (found, a, seen) := audit.foundIn d a
  (found.map fun rs => rs.mergeSort fun x y => decide (x.id ≤ y.id), a, seen)

def setUnit (i : Nat) (a : Analysis) : Audit := { audit with units := audit.units.set i a }

def detect : List (Result (List Report)) × Audit :=
  (List.range audit.units.length).foldl (fun (found, audit) i =>
    let (reports, a, seen) := audit.detectIn d (audit.units.getD i {})
    (found ++ [reports], { audit.setUnit i a with seen })) ([], audit)

end Audit

end ContractAudit
