import SqlResolution.Decimal.Number
import SqlResolution.Text.Blank
import SqlResolution.Value.Basic

/-!
# Arrays of doubles written as text

Groups in braces or brackets, nested to a number of levels, with doubles at the leaves. The shape
grows by one length for each group that closes past its end, and every later group must agree with
the length that stands at its own depth.
-/
namespace SqlResolution.Value.DoubleArray

/-- What has been read: the lengths noted so far, and the doubles in reading order. -/
structure Progress where
  shape : List Nat
  values : List Float

/-- Notes that a group of `count` items closed at a depth. -/
def Progress.close? (p : Progress) (depth count : Nat) : Option Progress :=
  match p.shape[depth]? with
  | some expected => if expected == count then some p else none
  | none => some { p with shape := p.shape ++ [count] }

/-- The bracket that closes a group. -/
def closing? : Char → Option Char
  | '\x7b' => some '\x7d'
  | '[' => some ']'
  | _ => none

/-- A double before a comma or the closing bracket. -/
def takeLeaf? (close : Char) (p : Progress) (cs : List Char) : Option (Progress × List Char) :=
  let stays (c : Char) : Bool := c != ',' && c != close
  match cs.dropWhile stays with
  | [] => none
  | rest => do
    let x ← Decimal.readDouble? (Text.trim (cs.takeWhile stays))
    return ({ p with values := p.values ++ [x] }, rest)

mutual

/-- A group at a depth, and what follows it. Each step of the fuel takes a bracket or a comma. -/
def takeGroup? (levels : Nat) :
    Nat → Nat → Progress → List Char → Option (Progress × List Char)
  | fuel + 1, depth, p, c :: cs => do
    let close ← closing? c
    let rest := Text.trimStart cs
    if rest.head? == some close then return (← p.close? depth 0, rest.drop 1)
    else takeItems? levels fuel depth close 0 p rest
  | _, _, _, _ => none

/-- The items of a group of which `count` have been read, up to its closing bracket. -/
def takeItems? (levels : Nat) :
    Nat → Nat → Char → Nat → Progress → List Char → Option (Progress × List Char)
  | 0, _, _, _, _, _ => none
  | fuel + 1, depth, close, count, p, cs => do
    let nested := (cs.head?.bind closing?).isSome
    let (p, rest) ←
      if nested then
        if depth + 1 < levels then takeGroup? levels fuel (depth + 1) p cs else none
      else takeLeaf? close p cs
    match Text.trimStart rest with
    | c :: rest =>
      if c == ',' then takeItems? levels fuel depth close (count + 1) p (Text.trimStart rest)
      else if c == close then return (← p.close? depth (count + 1), rest)
      else none
    | [] => none

end

/-- The array that a text writes, of at least one dimension. -/
def parse? (text : String) (dims : Nat) : Option Value := do
  let levels := max 1 dims
  let cs := Text.trim text.toList
  let (p, rest) ← takeGroup? levels (2 * cs.length + 1) 0 ⟨[], []⟩ cs
  if (Text.trim rest).isEmpty && p.shape.length == levels then
    withShape? .double (p.shape.map UInt32.ofNat) (p.values.map double)
  else none

end SqlResolution.Value.DoubleArray
