import SqlResolution.ColumnType.Parse
import SqlResolution.Span

/-!
# Errors

Why a tree could not be resolved and why a signature could not be registered. Constructors are
causes; the wording is in the `message` functions.
-/
namespace SqlResolution

/-- A declared parameter as a message names it: its type, and whether it takes constants only. -/
structure Slot where
  type : ColumnType
  constant : Bool
  deriving DecidableEq, Repr

/-- How an argument departs from its slot. -/
structure ArgumentFault where
  /-- The argument's place in the call, from zero. -/
  index : Nat
  expected : Slot
  actual : ColumnType
  deriving DecidableEq, Repr

/-- Why no overload of a name accepts a call. -/
inductive Mismatch where
  /-- The only overload has parameters, and the call has no arguments. -/
  | missingArguments (slots : List Slot)
  /-- The only overload has another number of parameters. -/
  | wrongCount (declared : Nat)
  /-- An argument does not fit the only overload. -/
  | wrongArgument (declared : Nat) (fault : Option ArgumentFault)
  /-- None of several overloads of a function fits. -/
  | noFunction (types : List ColumnType)
  /-- None of several overloads of an operator fits. -/
  | noOperator (types : List ColumnType)
  deriving DecidableEq, Repr

namespace Mismatch

/-- The number of declared parameters, where there is only one overload. -/
def expectedCount? : Mismatch → Option Nat
  | missingArguments slots => some slots.length
  | wrongCount declared | wrongArgument declared _ => some declared
  | _ => none

/-- The first argument that does not fit, where it is known. -/
def argument? : Mismatch → Option Nat
  | wrongArgument _ fault => fault.map (·.index)
  | _ => none

def slotText (s : Slot) : String := s.type.display ++ if s.constant then " constant" else ""

/-- The two types in words. Where only a constant is missing, the expected type says so. -/
def faultText (f : ArgumentFault) : String :=
  " expected: " ++ f.expected.type.display ++
    (if f.expected.type == f.actual then " constant" else "") ++
    ", actual: " ++ f.actual.display

def typesText (types : List ColumnType) : String :=
  ", ".intercalate (types.map ColumnType.display)

/-- The wording for a call of `name` with `actual` arguments. -/
def message (name : String) (actual : Nat) : Mismatch → String
  | missingArguments slots =>
    "function `" ++ name ++ "` requires arguments: " ++ name ++ "(" ++
      ", ".intercalate (slots.map slotText) ++ ")"
  | wrongCount declared =>
    "wrong number of arguments for function `" ++ name ++ "`; expected: " ++ declared.repr ++
      ", provided: " ++ actual.repr
  | wrongArgument _ fault =>
    if actual == 2 then "expression type mismatch," ++ ((fault.map faultText).getD "")
    else
      "argument type mismatch for function `" ++ name ++ "`" ++
        ((fault.map fun f => " at #" ++ (f.index + 1).repr ++ faultText f).getD "")
  | noFunction [] | noOperator [] => "function `" ++ name ++ "` requires arguments"
  | noFunction types =>
    "there is no matching function `" ++ name ++ "` with the argument types: (" ++
      typesText types ++ ")"
  | noOperator [left, right] =>
    "there is no matching operator `" ++ name ++ "` with the argument types: " ++ left.display ++
      " " ++ name ++ " " ++ right.display
  | noOperator (operand :: _) =>
    "there is no matching operator `" ++ name ++ "` with the argument type: " ++ operand.display

end Mismatch

/-- A broken expectation inside the resolver, or one that a subquery compiler reports. -/
inductive InternalFault where
  | cannotAssign (evaluator : String) (type : ColumnType)
  | castLostOperand
  | noCompiler
  | noQueryModel
  | noSchema
  | evaluatorsExhausted
  | positionsExhausted
  | noResult
  | reported (message : String)
  deriving DecidableEq, Repr

def InternalFault.message : InternalFault → String
  | cannotAssign evaluator type => evaluator ++ " cannot be assigned type " ++ type.display
  | castLostOperand => "cast lost its operand"
  | noCompiler => "no subquery compiler configured"
  | noQueryModel => "query node without a query model"
  | noSchema => "no row schema in scope"
  | evaluatorsExhausted => "function stack underflow"
  | positionsExhausted => "position stack underflow"
  | noResult => "expression produced no function"
  | reported message => message

/-- Why an expression tree could not be resolved. -/
inductive ResolveError where
  | columnNotFound (name : String) (span : Span)
  | unsupportedColumnType (type : ColumnType) (span : Span)
  /-- No overload has the name. The call is given with its argument types. -/
  | unknownFunction (name call : String) (span : Span)
  | argumentMismatch (name : String) (actual : Nat) (cause : Mismatch) (span : Span)
  /-- An argument of a tail of constants is not one. -/
  | constantExpected (span : Span)
  | nonDeterministicNotAllowed (name : String) (span : Span)
  /-- A factory built nothing. -/
  | badFactory (signature : String) (span : Span)
  /-- A factory refused its arguments. -/
  | factoryFailure (reason : String) (span : Span)
  | invalidConstant (token : String) (span : Span)
  | invalidDate (text : String) (span : Span)
  | invalidGeohash (text : String) (bits : Nat) (span : Span)
  | undefinedBindVariable (name : String) (span : Span)
  | invalidBindVariableIndex (text : String) (span : Span)
  | bindVariablesUnavailable (span : Span)
  | aggregateAsArgument (span : Span)
  /-- No type can be inferred for a variable in a tail. -/
  | unresolvedVariadicType (name : String) (index : Nat) (span : Span)
  | internal (fault : InternalFault)
  | cutInsideCharacter (cut : CutInsideCharacter)
  deriving DecidableEq, Repr

namespace ResolveError

def span? : ResolveError → Option Span
  | columnNotFound _ s | unsupportedColumnType _ s | unknownFunction _ _ s
  | argumentMismatch _ _ _ s | constantExpected s | nonDeterministicNotAllowed _ s
  | badFactory _ s | factoryFailure _ s | invalidConstant _ s | invalidDate _ s
  | invalidGeohash _ _ s | undefinedBindVariable _ s | invalidBindVariableIndex _ s
  | bindVariablesUnavailable s | aggregateAsArgument s | unresolvedVariadicType _ _ s => some s
  | internal _ | cutInsideCharacter _ => none

/-- The wording without the position. -/
def reason : ResolveError → String
  | columnNotFound name _ => "invalid column: " ++ name
  | unsupportedColumnType type _ => "unsupported column type: " ++ type.display
  | unknownFunction _ call _ => "unknown function name: " ++ call
  | argumentMismatch name actual cause _ => cause.message name actual
  | constantExpected _ => "constant expected"
  | nonDeterministicNotAllowed name _ =>
    "non-deterministic function cannot be used here: " ++ name
  | badFactory _ _ => "bad function factory (NULL), check log"
  | factoryFailure reason _ => "exception in function factory: " ++ reason
  | invalidConstant token _ => "invalid constant: " ++ token
  | invalidDate text _ => "invalid date [str=" ++ text ++ "]"
  | invalidGeohash text bits _ => "invalid geohash [str=" ++ text ++ ", bits=" ++ bits.repr ++ "]"
  | undefinedBindVariable name _ => "undefined bind variable: " ++ name
  | invalidBindVariableIndex text _ => "invalid bind variable index [value=" ++ text ++ "]"
  | bindVariablesUnavailable _ => "bind variable service is not provided"
  | aggregateAsArgument _ => "Aggregate function cannot be passed as an argument"
  | unresolvedVariadicType name index _ =>
    "cannot infer type of variadic argument #" ++ index.repr ++ " of " ++ name
  | internal fault => fault.message
  | cutInsideCharacter cut => "cut inside a character: " ++ cut.text

/-- The whole message, which starts with the position where there is one. -/
def message (e : ResolveError) : String :=
  match e.span? with
  | some s => "at " ++ s.text ++ ": " ++ e.reason
  | none => "internal error: " ++ e.reason

end ResolveError

/-- What is wrong with the text of a signature. -/
inductive SignatureFault where
  | missingOpen
  | missingClose
  | missingName
  | tailNotLast
  | emptyParameter
  deriving DecidableEq, Repr

def SignatureFault.message : SignatureFault → String
  | missingOpen => "missing '('"
  | missingClose => "missing ')'"
  | missingName => "missing function name"
  | tailNotLast => "'var' must be the last parameter"
  | emptyParameter => "empty parameter"

/-- Why an overload could not be registered. -/
inductive RegistrationError where
  | invalidFunctionName (name : String)
  | invalidSignature (signature : String) (fault : SignatureFault)
  | unknownType (signature typeName : String)
  | cutInsideCharacter (cut : CutInsideCharacter)
  deriving DecidableEq, Repr

def RegistrationError.message : RegistrationError → String
  | invalidFunctionName name => "invalid function name: '" ++ name ++ "'"
  | invalidSignature signature fault =>
    "invalid signature '" ++ signature ++ "': " ++ fault.message
  | unknownType signature typeName =>
    "invalid signature '" ++ signature ++ "': unknown type '" ++ typeName ++ "'"
  | cutInsideCharacter cut => "cut inside a character: " ++ cut.text

end SqlResolution
