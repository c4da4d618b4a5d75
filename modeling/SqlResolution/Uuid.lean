import SqlResolution.Text.Cut
import SqlResolution.Text.Hex

/-!
# UUID text

A UUID is written as five hyphenated groups of small hexadecimal digits, either by cutting its
digits into groups or by writing each group as a word. Reading also takes the digits without hyphens,
the groups in braces, and the groups after `urn:uuid:`; letters may be of either case.
-/
namespace SqlResolution.Uuid

open Text

/-- The digits in each group. -/
def groups : List Nat := [8, 4, 4, 4, 12]

/-- Cuts digits into groups with hyphens between them. -/
def hyphenate : List Nat → List Char → List Char
  | [], _ => []
  | [n], cs => cs.take n
  | n :: ns, cs => cs.take n ++ '-' :: hyphenate ns (cs.drop n)

def text (u : BitVec 128) : String := String.ofList (hyphenate groups (hexFixed 32 u.toNat))

/-- The groups as words of their own, cut out of a UUID by shifts and by the mask of the last one. -/
def words (u : BitVec 128) : List (List Char) :=
  [hexPadded 8 ((u >>> 96).setWidth 32).toNat,
    hexPadded 4 ((u >>> 80).setWidth 16).toNat,
    hexPadded 4 ((u >>> 64).setWidth 16).toNat,
    hexPadded 4 ((u >>> 48).setWidth 16).toNat,
    hexPadded 12 ((u &&& 0xffffffffffff#128).setWidth 64).toNat]

/-- A UUID written word by word. -/
def wordText (u : BitVec 128) : String := String.ofList (['-'].intercalate (words u))

/-- Takes the hyphens out of groups of the given sizes; none where a hyphen is missing or a group
has another size. -/
def dehyphenate? : List Nat → List Char → Option (List Char)
  | [], _ => none
  | [n], cs => if cs.length == n then some cs else none
  | n :: ns, cs =>
    match cs.drop n with
    | '-' :: rest => (dehyphenate? ns rest).map (cs.take n ++ ·)
    | _ => none

/-- The 32 digits that a text writes, in one of the four forms. -/
def digits? (cs : List Char) : Option (List Char) :=
  if cs.length == 32 then some cs
  else if cs.length == 36 then dehyphenate? groups cs
  else if cs.length == 38 then do
    dehyphenate? groups (← dropEnding? ['\x7d'] (← dropOpening? ['\x7b'] cs))
  else if (cs.take 9).map Char.toLower == "urn:uuid:".toList then dehyphenate? groups (cs.drop 9)
  else none

def parse? (s : String) : Option (BitVec 128) := do
  let ds ← digits? s.toList
  return BitVec.ofNat 128 (← readHex? ds)

end SqlResolution.Uuid
