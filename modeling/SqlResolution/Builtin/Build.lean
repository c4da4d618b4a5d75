import SqlResolution.Builtin.Basic
import SqlResolution.Evaluator.Eval
import SqlResolution.ImplicitCast
import SqlResolution.Overload.Catalog

/-!
# Building builtins

The evaluator of a builtin over the arguments of a call. A cast of null is null, the comparisons of
timestamps and of UUIDs convert their operands, and the texts of a list are read when the evaluator
is built.
-/
namespace SqlResolution.Builtin

/-- Converts an operand to a type, unless it has the type or is a null. One that cannot be
converted stays. -/
def convertOperand (binds : BindTable) (type : ColumnType) (e : Evaluator) (position : Span) :
    Except ResolveError Evaluator :=
  if e.type.tag == type.tag || e.type.isNull then .ok e
  else (foldedImplicitCast binds position e type).map (·.evaluator)

/-- Converts operands from left to right. -/
def convertOperands (binds : BindTable) (type : ColumnType) :
    List (Evaluator × Span) → Except ResolveError (List Evaluator)
  | [] => .ok []
  | (e, position) :: rest => do
    let e ← convertOperand binds type e position
    return e :: (← convertOperands binds type rest)

def buildKernel (binds : BindTable) (k : Kernel) (args : Args) : Except ResolveError Evaluator :=
  match k.convertsTo? with
  | some type =>
    (convertOperands binds type (args.evaluators.zip args.positions)).map (.scalar k)
  | none => .ok (.scalar k args.evaluators)

def buildCast (scales : TextScales) (target : ColumnType) (position : Span) (args : Args) :
    Except ResolveError Evaluator :=
  match args.evaluators with
  | [arg, _] =>
    if arg.type.isNull || arg.constantValue?.any Value.isNull then .ok (.nullOf target)
    else .ok (.cast scales target arg)
  | _ => .error (.factoryFailure "cast takes an operand and a type" position)

/-- The texts of a list, and whether null is among its elements. -/
def listTexts (binds : BindTable) (position : Span) :
    List Evaluator → Except ResolveError (List String × Bool)
  | [] => .ok ([], false)
  | e :: es => do
    let v := e.value binds .empty
    let text ←
      match v with
      | .str s => pure (some s)
      | .char c => pure (some c.toString)
      | v =>
        if v.isNull then pure none
        else
          throw (.factoryFailure ("STRING constant expected in list, found " ++ v.text) position)
    let (texts, holdsNull) ← listTexts binds position es
    return (text.toList ++ texts, holdsNull || text.isNone)

def buildMember (binds : BindTable) (position : Span) (args : Args) :
    Except ResolveError Evaluator :=
  match args.evaluators with
  | [] => .error (.factoryFailure "in requires an operand" position)
  | arg :: elements =>
    (listTexts binds position elements).map fun (texts, holdsNull) => .member texts holdsNull arg

/-- The stream of a random function. Calls at different places have different streams. -/
def streamAt (position : Span) : UInt64 := nextWord position.offset.toUInt64

/-- Builds a function of exactly one argument. -/
def buildUnary (make : Evaluator → Evaluator) (position : Span) (args : Args) :
    Except ResolveError Evaluator :=
  match args.evaluators with
  | [arg] => .ok (make arg)
  | _ => .error (.factoryFailure "expected one argument" position)

def build (b : Builtin) (position : Span) (args : Args) (settings : Settings) (c : Context) :
    Except ResolveError Evaluator :=
  match b with
  | kernel k => buildKernel c.table k args
  | varcharLength => buildKernel c.table .length args
  | cast _ target => buildCast settings.scales target position args
  | concat => .ok (.concat settings.scales args.evaluators)
  | member => buildMember c.table position args
  | randomInt => .ok (.randomInt (streamAt position))
  | randomDouble => .ok (.randomDouble (streamAt position))
  | now => .ok (.now c.now)
  | count => .ok (.count 0)
  | total which => buildUnary (.total which .zero) position args
  | rowNumber => .ok (.rowNumber 0)
  | rank => .ok .rank
  | runningAverage => buildUnary (.runningAverage 0 0) position args

def factory (b : Builtin) : Factory where
  signature := b.signature
  isWindow := b.isWindow
  charFitsString := true
  tailType? _ _ := b.tailType?
  build position args settings c := (b.build position args settings c).map some

/-- Registers every builtin. -/
def registerAll (b : Catalog.Builder) : Catalog.Builder × Except RegistrationError Unit :=
  b.registerAll (all.map factory)

end SqlResolution.Builtin
