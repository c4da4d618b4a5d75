import SqlResolution.Text.Hex
import SqlResolution.Text.Slice

/-!
# Numbers of 256 bits

Such a number is four words of 64 bits. It is written word by word, from the most significant one
that is not zero on, and all words after that one have their sixteen digits. It is read word by
word too, sixteen digits at a time from the end of the text.
-/
namespace SqlResolution.Long256

-- Powers are the core ones, also where another instance is in scope.
attribute [local instance (high)] instPowNat

/-- The four words of a number, least significant first. -/
def limbs (n : BitVec 256) : List (BitVec 64) :=
  [0, 64, 128, 192].map fun start => n.extractLsb' start 64

/-- The number that words stand for, least significant first. -/
def value : List (BitVec 64) → Nat
  | [] => 0
  | w :: ws => w.toNat + 2 ^ (64 : Nat) * value ws

def ofLimbs (ws : List (BitVec 64)) : BitVec 256 := BitVec.ofNat 256 (value ws)

/-- The digits of words, most significant first: no zeros before the first one that counts. -/
def digits : List (BitVec 64) → List Char
  | [] => ['0']
  | w :: ws =>
    if w == 0 then digits ws
    else Text.hexLeast w.toNat ++ ws.flatMap fun w => Text.hexFixed 16 w.toNat

def text (n : BitVec 256) : String := "0x" ++ String.ofList (digits (limbs n).reverse)

/-- As many words as are asked for, least significant first. Where the digits have run out the
words are zero. -/
def readLimbs : Nat → List Char → Except CutInsideCharacter (Option (List (BitVec 64)))
  | 0, _ => .ok (some [])
  | count + 1, cs => do
    let (rest, last) ← Text.cutAt (Text.byteLength cs - 16) cs
    let high ← readLimbs count rest
    return do
      let low ← Text.readHex? last
      return BitVec.ofNat 64 low :: (← high)

/-- One to 64 digits. -/
def read (cs : List Char) : Except CutInsideCharacter (Option (BitVec 256)) :=
  if cs.isEmpty || 64 < Text.byteLength cs || !cs.all Text.isHexDigit then .ok none
  else (readLimbs 4 cs).map (·.map ofLimbs)

end SqlResolution.Long256
