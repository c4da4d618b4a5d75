import SqlResolution.Context
import SqlResolution.Evaluator.Basic
import SqlResolution.Node.Basic

/-!
# Links to bind variables

A token `:name` links a variable that is already defined. A token `$1` links a numbered slot, which
may still be without a type.
-/
namespace SqlResolution.Link

/-- The bind table, which a link cannot do without. -/
def table (c : Context) (span : Span) : Except ResolveError BindTable :=
  match c.binds with
  | some b => .ok b
  | none => .error (.bindVariablesUnavailable span)

/-- Links the variable that a token `:name` names. -/
def named (c : Context) (span : Span) (token : String) : Except ResolveError Evaluator := do
  let b ← table c span
  let name := String.ofList (token.toList.drop 1)
  match b.namedType? name with
  | some type => .ok (.namedLink name type)
  | none => .error (.undefinedBindVariable token span)

/-- The number after the first character, which is a byte of its own. -/
def slotNumber? (token : String) : Option Int32 :=
  match token.toList with
  | c :: cs => if c.utf8Size == 1 then Text.readInt32? cs else none
  | [] => none

/-- Links the slot of a number, which counts from one. -/
def numbered (c : Context) (span : Span) (token : String) : Except ResolveError Evaluator := do
  match slotNumber? token with
  | none => .error (.invalidBindVariableIndex token span)
  | some n =>
    if n < 1 then .error (.invalidBindVariableIndex n.toInt.repr span)
    else
      let b ← table c span
      let slot := n.toInt.toNat - 1
      .ok (.slotLink slot ((b.slotType? slot).getD .undefined))

/-- Links the variable of a node: by name after a colon, and by number after anything else. -/
def ofNode (c : Context) (span : Span) (token : String) : Except ResolveError Evaluator :=
  match token.toList with
  | ':' :: _ => named c span token
  | _ => numbered c span token

/-- The evaluator of a token outside a tree. No token is null, and a token that is no bind variable
is its own text. -/
def ofToken (c : Context) (span : Span) (token : Option String) (kind : NodeKind) :
    Except ResolveError Evaluator :=
  match token with
  | none => .ok .untypedNull
  | some token =>
    if kind != .bindVariable then .ok (.ofString token)
    else
      match token.toList with
      | ':' :: _ => named c span token
      | '$' :: _ => numbered c span token
      | _ => .ok (.ofString token)

end SqlResolution.Link
