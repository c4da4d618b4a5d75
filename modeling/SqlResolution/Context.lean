import SqlResolution.BindTable
import SqlResolution.Error
import SqlResolution.Value.Convert

/-!
# Settings and context

Settings shape what resolution builds. A context is what one execution brings: its bind table, the
window clauses around it, and what it allows. Resolution reads a context and may change its bind
table, also where it fails in the end.
-/
namespace SqlResolution

structure Settings where
  /-- Constant evaluators become constants. -/
  foldConstants : Bool
  /-- Evaluators that ask for it keep their result for a row. -/
  memoize : Bool
  scales : TextScales
  deriving Repr

def Settings.default : Settings := ⟨true, true, ⟨12, 4⟩⟩

instance : Inhabited Settings := ⟨.default⟩

structure Context where
  /-- None where the caller has no bind variables. -/
  binds : Option BindTable
  /-- How many window clauses are open. -/
  windowDepth : Nat
  allowNonDeterministic : Bool
  /-- Whether a timestamp is required, innermost scope first. -/
  timestampScopes : List Bool
  /-- The start of the execution in microseconds since the start of 1970. -/
  now : Int64
  deriving Inhabited

namespace Context

/-- A context with an empty bind table that allows everything. -/
def fresh (now : Int64) : Context := ⟨some .empty, 0, true, [], now⟩

def inWindow (c : Context) : Bool := 0 < c.windowDepth

def enterWindow (c : Context) : Context := { c with windowDepth := c.windowDepth + 1 }

/-- Leaves a window clause, where one is open. -/
def exitWindow (c : Context) : Context := { c with windowDepth := c.windowDepth - 1 }

def pushTimestampRequired (c : Context) (required : Bool) : Context :=
  { c with timestampScopes := required :: c.timestampScopes }

def popTimestampRequired (c : Context) : Context :=
  { c with timestampScopes := c.timestampScopes.tail }

def timestampRequired (c : Context) : Bool := c.timestampScopes.headD false

/-- The table that links read. Without one no link can be made. -/
def table (c : Context) : BindTable := c.binds.getD .empty

def withTable (c : Context) (b : BindTable) : Context := { c with binds := c.binds.map fun _ => b }

@[simp] theorem popTimestampRequired_push (c : Context) (required : Bool) :
    (c.pushTimestampRequired required).popTimestampRequired = c := rfl

@[simp] theorem timestampRequired_push (c : Context) (required : Bool) :
    (c.pushTimestampRequired required).timestampRequired = required := rfl

end Context

/-- A step of resolution. The context after a failure is the one that it left. -/
abbrev Resolution := ExceptT ResolveError (StateM Context)

end SqlResolution
