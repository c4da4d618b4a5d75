import SqlResolution.Error
import SqlResolution.Evaluator.Basic
import SqlResolution.Long256

/-!
# Constant tokens

A token is read by the first rule that accepts it: null, quoted text, text with escapes, a boolean,
a number, a type name, a geohash, and hexadecimal digits of 256 bits. So `123` is an INT rather
than a LONG, and `int` is a type name rather than an error.
-/
namespace SqlResolution.Literal

open Text

/-- The text between a pair of single or of double quotes. -/
def unquote? : List Char → Option (List Char)
  | c :: cs => if c == '\'' || c == '"' then dropEnding? [c] cs else none
  | [] => none

/-- Two single quotes after one another stand for one. -/
def mergeQuotes : List Char → List Char
  | '\'' :: '\'' :: cs => '\'' :: mergeQuotes cs
  | c :: cs => c :: mergeQuotes cs
  | [] => []

/-- One character alone is a CHAR and all else a STRING. -/
def ofQuoted : List Char → Evaluator
  | [] => .ofString ""
  | [c] => .constant .char (.char c)
  | cs => .ofString (String.ofList (mergeQuotes cs))

/-- Decodes backslash escapes. A backslash before any other character stays. -/
def decodeEscapes : List Char → List Char
  | '\\' :: 'n' :: cs => '\n' :: decodeEscapes cs
  | '\\' :: 't' :: cs => '\t' :: decodeEscapes cs
  | '\\' :: 'r' :: cs => '\r' :: decodeEscapes cs
  | '\\' :: '\\' :: cs => '\\' :: decodeEscapes cs
  | '\\' :: '\'' :: cs => '\'' :: decodeEscapes cs
  | '\\' :: c :: cs => '\\' :: c :: decodeEscapes cs
  | c :: cs => c :: decodeEscapes cs
  | [] => []

/-- The body of a token `E'...'`. -/
def escaped? (cs : List Char) : Option (List Char) := do
  dropEnding? ['\''] (← dropOpening? ['E', '\''] cs)

/-- Digits with an optional sign, points and exponent marks, of which a digit or point comes
first. It keeps the words for infinity and NaN out. -/
def looksNumeric (cs : List Char) : Bool :=
  let body := match cs with
    | '-' :: cs | '+' :: cs => cs
    | cs => cs
  body.any Char.isDigit &&
    body.all (fun c => c.isDigit || c == '.' || c == 'e' || c == 'E' || c == '-' || c == '+') &&
    (match body with
      | c :: _ => c.isDigit || c == '.'
      | [] => false)

/-- A token without one of two letters at its end. -/
def withoutSuffix? (a b : Char) (cs : List Char) : Option (List Char) :=
  dropEnding? [a] cs <|> dropEnding? [b] cs

/-- An INT; else a LONG, which may end in `L`; else a DOUBLE; else a FLOAT, which ends in `f`. -/
def number? (cs : List Char) : Option Evaluator :=
  let int := (readInt32? cs).map fun n => .constant .int (.int n)
  let long := (readInt64? ((withoutSuffix? 'L' 'l' cs).getD cs)).map fun n =>
    .constant .long (.long n)
  let double :=
    if looksNumeric cs then (Decimal.readDouble? cs).map fun x => .constant .double (.double x)
    else none
  let float := do
    let cs ← withoutSuffix? 'f' 'F' cs
    if looksNumeric cs then
      (Decimal.readSingle? cs).map fun x => .constant .float (.float x)
    else none
  int <|> long <|> double <|> float

/-- Hexadecimal digits after `0x`. -/
def long256 (cs : List Char) : Except CutInsideCharacter (Option (BitVec 256)) :=
  match dropOpening? ['0', 'x'] cs <|> dropOpening? ['0', 'X'] cs with
  | some digits => Long256.read digits
  | none => .ok none

/-- A name of a type that a cast may have as its target. -/
def typeName? (token : String) : Except CutInsideCharacter (Option Evaluator) :=
  (ColumnType.parse token).map fun t =>
    (t.filter fun t => t.tag.isCastable).map .typeName

/-- A geohash, or else a number of 256 bits. -/
def bits (cs : List Char) : Except CutInsideCharacter (Option Evaluator) :=
  match Geohash.parseLiteral? cs with
  | some g => .ok (some (.constant (.geohash g.bits) (.geohash g.value)))
  | none => (long256 cs).map (·.map fun n => .constant .long256 (.long256 n))

/-- The rules before the one for type names. -/
def plain? (token : String) : Option Evaluator :=
  let cs := token.toList
  if eqIgnoringCase token "null" || eqIgnoringCase token "nan" then some .untypedNull
  else
    (unquote? cs).map ofQuoted <|>
    (escaped? cs).map (fun body => .ofString (String.ofList (decodeEscapes body))) <|>
    (if eqIgnoringCase token "true" then some (.constant .boolean (.boolean true))
      else if eqIgnoringCase token "false" then some (.constant .boolean (.boolean false))
      else none) <|>
    number? cs

/-- The rules from the one for type names on. -/
def named (token : String) : Except CutInsideCharacter (Option Evaluator) := do
  match ← typeName? token with
  | some e => return some e
  | none => bits token.toList

/-- The constant that a token writes. -/
def parse (span : Span) (token : String) : Except ResolveError Evaluator :=
  match plain? token with
  | some e => .ok e
  | none =>
    match named token with
    | .error cut => .error (.cutInsideCharacter cut)
    | .ok (some e) => .ok e
    | .ok none => .error (.invalidConstant token span)

end SqlResolution.Literal
