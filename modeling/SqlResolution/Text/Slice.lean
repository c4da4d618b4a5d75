import SqlResolution.Text.Cut

/-!
# Byte offsets

Texts are stored in UTF-8, and offsets into them count bytes. A text can be cut at an offset where a
character starts or where the text ends; a cut at any other offset is an outcome of its own.
-/
namespace SqlResolution

/-- A text was to be cut at an offset inside a character or past the end. -/
structure CutInsideCharacter where
  text : String
  deriving DecidableEq, Repr

namespace Text

/-- What stands before and after an offset; none where the text cannot be cut. -/
def splitAtOffset? : Nat → List Char → Option (List Char × List Char)
  | 0, cs => some ([], cs)
  | _ + 1, [] => none
  | n + 1, c :: cs =>
    if c.utf8Size ≤ n + 1 then
      (splitAtOffset? (n + 1 - c.utf8Size) cs).map fun (before, after) => (c :: before, after)
    else none

def cutAt (offset : Nat) (cs : List Char) : Except CutInsideCharacter (List Char × List Char) :=
  match splitAtOffset? offset cs with
  | some parts => .ok parts
  | none => .error ⟨String.ofList cs⟩

/-- What stands before an offset. -/
def sliceTo (stop : Nat) (cs : List Char) : Except CutInsideCharacter (List Char) :=
  (cutAt stop cs).map Prod.fst

/-- What stands after an offset. -/
def sliceFrom (start : Nat) (cs : List Char) : Except CutInsideCharacter (List Char) :=
  (cutAt start cs).map Prod.snd

/-- What stands between two offsets. -/
def slice (start stop : Nat) (cs : List Char) : Except CutInsideCharacter (List Char) := do
  sliceFrom start (← sliceTo stop cs)

/-- The offset of the first `mark`. -/
def offset? (mark : Char) (cs : List Char) : Option Nat :=
  if mark ∈ cs then some (byteLength (cs.takeWhile (· != mark))) else none

end Text
end SqlResolution
