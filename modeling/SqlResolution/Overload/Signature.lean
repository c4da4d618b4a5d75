import SqlResolution.Error
import SqlResolution.Text.Blank
import SqlResolution.Text.Slice

/-!
# Signatures

The text of a signature is a name and parameters in brackets:

    signature := name '(' [ parameter { ',' parameter } ] ')'
    parameter := ( type | 'var' ) [ 'const' | 'constant' ]

`var` stands for a tail of any number of arguments and comes last.
-/
namespace SqlResolution

/-- A declared parameter. -/
structure Parameter where
  type : ColumnType
  /-- Whether the argument must be a constant. -/
  constant : Bool
  deriving DecidableEq, Repr, Inhabited

/-- A tail of any number of arguments. -/
structure Tail where
  /-- Whether its arguments must be constants. -/
  constant : Bool
  deriving DecidableEq, Repr

structure Signature where
  /-- In small letters. -/
  name : String
  parameters : List Parameter
  tail : Option Tail
  deriving DecidableEq, Repr, Inhabited

namespace Parameter

def isArray (p : Parameter) : Bool := p.type.isArray

/-- The tag that arguments are compared with: an array's is that of its elements. -/
def tag (p : Parameter) : TypeTag := if p.isArray then p.type.element else p.type.tag

def display (p : Parameter) : String :=
  p.type.display ++ if p.constant then " constant" else ""

end Parameter

namespace Signature

/-- The parameters without the tail. -/
def fixedCount (s : Signature) : Nat := s.parameters.length

def isVariadic (s : Signature) : Bool := s.tail.isSome

/-- The parameters, with the tail counted as one. -/
def declaredCount (s : Signature) : Nat := s.fixedCount + if s.isVariadic then 1 else 0

def tailIsConstant (s : Signature) : Bool := (s.tail.map (·.constant)).getD false

def acceptsArity (s : Signature) (count : Nat) : Bool :=
  if s.isVariadic then s.fixedCount ≤ count else count == s.fixedCount

/-- A declared place as messages name it. Places past the parameters belong to the tail. -/
def slot (s : Signature) (i : Nat) : Slot :=
  match s.parameters[i]? with
  | some p => ⟨p.type, p.constant⟩
  | none => ⟨.varArg, s.tailIsConstant⟩

def tailDisplay (t : Tail) : String := "VARARG" ++ if t.constant then " constant" else ""

def display (s : Signature) : String :=
  s.name ++ "(" ++
    ", ".intercalate (s.parameters.map Parameter.display ++ (s.tail.map tailDisplay).toList) ++ ")"

/-- The depth of brackets after a character. -/
def nextDepth (depth : Nat) (c : Char) : Nat :=
  if c == '(' then depth + 1 else if c == ')' then depth - 1 else depth

/-- Cuts a body at the commas that are not inside brackets. The part at hand started at `start`, and
the characters left start at `offset`. -/
def cutAtCommas (body : List Char) :
    Nat → Nat → Nat → List Char → Except CutInsideCharacter (List (List Char))
  | start, _, _, [] => do return [← Text.sliceFrom start body]
  | start, offset, depth, c :: cs =>
    if c == ',' && depth == 0 then do
      let part ← Text.slice start offset body
      let parts ← cutAtCommas body (offset + 1) (offset + c.utf8Size) depth cs
      return part :: parts
    else cutAtCommas body start (offset + c.utf8Size) (nextDepth depth c) cs

/-- What stands before an ending in any case. A text that cannot be cut where the ending would start
has another ending. -/
def dropEndingIgnoringCase? (ending cs : List Char) : Option (List Char) :=
  if Text.byteLength cs < Text.byteLength ending then none
  else
    match Text.splitAtOffset? (Text.byteLength cs - Text.byteLength ending) cs with
    | some (kept, last) =>
      if last.map Char.toLower == ending.map Char.toLower then some kept else none
    | none => none

/-- Takes the word for a constant off a parameter, and tells whether it was there. -/
def takeConstantWord (cs : List Char) : List Char × Bool :=
  match dropEndingIgnoringCase? " constant".toList cs <|>
      dropEndingIgnoringCase? " const".toList cs with
  | some kept => (Text.trimEnd kept, true)
  | none => (cs, false)

/-- One part of a signature between commas. -/
inductive Part where
  | parameter (p : Parameter)
  | tail (t : Tail)

def readPart (signature : String) (raw : List Char) : Except RegistrationError Part :=
  let (text, constant) := takeConstantWord (Text.trim raw)
  if text.isEmpty then .error (.invalidSignature signature .emptyParameter)
  else if text.map Char.toLower == "var".toList then .ok (.tail ⟨constant⟩)
  else
    match ColumnType.parse (String.ofList text) with
    | .error cut => .error (.cutInsideCharacter cut)
    | .ok none => .error (.unknownType signature (String.ofList text))
    | .ok (some type) => .ok (.parameter ⟨type, constant⟩)

/-- Reads the parts from left to right. Nothing may follow a tail. -/
def readParts (signature : String) :
    List (List Char) → Except RegistrationError (List Parameter × Option Tail)
  | [] => .ok ([], none)
  | raw :: rest => do
    match ← readPart signature raw with
    | .tail t =>
      if rest.isEmpty then .ok ([], some t) else .error (.invalidSignature signature .tailNotLast)
    | .parameter p =>
      let (ps, t) ← readParts signature rest
      .ok (p :: ps, t)

/-- The parts of what stands in the brackets. Blanks alone are no part. -/
def bodyParts (body : List Char) : Except CutInsideCharacter (List (List Char)) :=
  let body := Text.trim body
  if body.isEmpty then .ok [] else cutAtCommas body 0 0 0 body

/-- Registration fails where a text is cut inside a character. -/
def liftCut {α : Type} (x : Except CutInsideCharacter α) : Except RegistrationError α :=
  x.mapError .cutInsideCharacter

def parse (signature : String) : Except RegistrationError Signature := do
  let invalid (fault : SignatureFault) : RegistrationError := .invalidSignature signature fault
  let cs := signature.toList
  let some opening := Text.offset? '(' cs | .error (invalid .missingOpen)
  let rest ← liftCut (Text.sliceFrom (opening + 1) cs)
  let some body := Text.dropEnding? [')'] (Text.trimEnd rest) | .error (invalid .missingClose)
  let name := Text.trim (← liftCut (Text.sliceTo opening cs))
  if name.isEmpty then .error (invalid .missingName)
  else
    let (parameters, tail) ← readParts signature (← liftCut (bodyParts body))
    .ok ⟨Text.lowerAscii (String.ofList name), parameters, tail⟩

end Signature
end SqlResolution
