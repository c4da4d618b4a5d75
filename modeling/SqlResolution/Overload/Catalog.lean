import SqlResolution.Args
import SqlResolution.Context
import SqlResolution.Overload.Signature

/-!
# The catalog of overloads

Overloads are registered one after another and found by name in any case. The overloads of a name
keep their order, since of equally good ones the earlier wins. A name must not be a control symbol
or a forbidden name and has no blanks or quotes in it.
-/
namespace SqlResolution

-- Sums start from the core zero, also where another instance is in scope.
attribute [local instance (high)] Zero.ofOfNat0

/-- What makes the evaluators of one overload. -/
structure Factory where
  signature : String
  isWindow : Bool
  /-- Whether a constant CHAR fits a STRING parameter exactly. -/
  charFitsString : Bool
  /-- The type for a variable of undefined type at a place of the tail, where there is one. -/
  tailType? : Nat → Args → Option ColumnType
  /-- Builds an evaluator for a call at a position, or nothing at all. -/
  build : Span → Args → Settings → Context → Except ResolveError (Option Evaluator)

instance : Inhabited Factory := ⟨⟨"", false, true, fun _ _ => none, fun _ _ _ _ => .ok none⟩⟩

/-- A signature with the factory that declares it. -/
structure Overload where
  signature : Signature
  factory : Factory
  deriving Inhabited

namespace Overload

def ofFactory (f : Factory) : Except RegistrationError Overload :=
  (Signature.parse f.signature).map (⟨·, f⟩)

def isWindow (o : Overload) : Bool := o.factory.isWindow

end Overload

/-- Symbols that structure a query. -/
def controlSymbols : List String := ["(", ")", ",", ";", "/*", "*/", "--", "[", "]"]

def defaultOperators : List String :=
  ["+", "-", "*", "/", "%", "=", "!=", "<>", "<", "<=", ">", ">=", "||", "~", "!~", "&", "|", "^",
    "and", "or", "not", "like", "ilike", "in", "between", "within", "::"]

structure Catalog where
  /-- Names in small letters in the order of their first overloads. -/
  entries : List (String × List Overload)
  operators : List String
  deriving Inhabited

namespace Catalog

def overloads? (c : Catalog) (name : String) : Option (List Overload) :=
  c.entries.lookup (Text.lowerAscii name)

def contains (c : Catalog) (name : String) : Bool := (c.overloads? name).isSome

def isOperator (c : Catalog) (name : String) : Bool := c.operators.contains (Text.lowerAscii name)

/-- Whether a name has an overload that takes no arguments at all. -/
def hasNoArgumentOverload (c : Catalog) (name : String) : Bool :=
  ((c.overloads? name).getD []).any fun o =>
    o.signature.fixedCount == 0 && !o.signature.isVariadic

def functionCount (c : Catalog) : Nat := c.entries.length

def signatureCount (c : Catalog) : Nat := (c.entries.map fun (_, os) => os.length).sum

def names (c : Catalog) : List String := c.entries.map (·.1)

/-- A catalog that is still being filled. -/
structure Builder where
  catalog : Catalog
  /-- Names that nothing may have, in small letters. -/
  forbidden : List String
  deriving Inhabited

namespace Builder

def empty : Builder := ⟨⟨[], defaultOperators⟩, controlSymbols⟩

def isValidName (b : Builder) (name : String) : Bool :=
  !name.isEmpty && !b.forbidden.contains (Text.lowerAscii name) &&
    !name.toList.any fun c => c == ' ' || c == '"' || c == '\''

/-- Appends an overload to those of its name. -/
def append (name : String) (o : Overload) :
    List (String × List Overload) → List (String × List Overload)
  | [] => [(name, [o])]
  | (key, os) :: rest =>
    if key == name then (key, os ++ [o]) :: rest else (key, os) :: append name o rest

def register (b : Builder) (f : Factory) : Except RegistrationError Builder := do
  let o ← Overload.ofFactory f
  let name := o.signature.name
  if b.isValidName name then
    return { b with catalog := { b.catalog with entries := append name o b.catalog.entries } }
  else throw (.invalidFunctionName name)

/-- Registers factories up to the first that fails. The ones before it stay. -/
def registerAll (b : Builder) : List Factory → Builder × Except RegistrationError Unit
  | [] => (b, .ok ())
  | f :: fs =>
    match b.register f with
    | .ok b => b.registerAll fs
    | .error e => (b, .error e)

def addOperator (b : Builder) (token : String) : Builder :=
  { b with catalog :=
    { b.catalog with operators := Text.lowerAscii token :: b.catalog.operators } }

def forbid (b : Builder) (name : String) : Builder :=
  { b with forbidden := Text.lowerAscii name :: b.forbidden }

theorem lookup_append_self (name : String) (o : Overload)
    (entries : List (String × List Overload)) :
    (append name o entries).lookup name = some ((entries.lookup name).getD [] ++ [o]) := by
  induction entries with
  | nil => simp [append]
  | cons e es ih =>
    obtain ⟨key, os⟩ := e
    by_cases h : key = name
    · subst h; simp [append]
    · have hb : (name == key) = false := by simpa using fun e : name = key => h e.symm
      simp [append, h, List.lookup_cons, hb, ih]

theorem lookup_append_of_ne {name other : String} (h : other ≠ name) (o : Overload)
    (entries : List (String × List Overload)) :
    (append name o entries).lookup other = entries.lookup other := by
  have hb : (other == name) = false := by simpa using h
  induction entries with
  | nil => simp [append, List.lookup_cons, hb]
  | cons e es ih =>
    obtain ⟨key, os⟩ := e
    by_cases hk : key = name
    · subst hk; simp [append, List.lookup_cons, hb]
    · simp [append, hk, List.lookup_cons, ih]

end Builder
end Catalog
end SqlResolution
