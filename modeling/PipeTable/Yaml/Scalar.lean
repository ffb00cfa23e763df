import PipeTable.Decimal.Shortest
import PipeTable.Text.Quoted
import PipeTable.Yaml.Event

/-! # Meanings of plain scalars

A scalar without quotes may stand for nothing, a truth value, a whole number or a decimal; any
other is its own text. Numbers with leading zeros are texts.
-/

namespace PipeTable.Yaml

inductive Meaning where
  | nothing
  | boolean (value : Bool)
  | integer (value : Int)
  | decimal (shown : Text)
  | text (value : Text)
deriving DecidableEq

def isNothing (s : Text) : Bool :=
  ["null".toList, "Null".toList, "NULL".toList, "~".toList].contains s

def boolean? (s : Text) : Option Bool :=
  if ["true".toList, "True".toList, "TRUE".toList].contains s then some true
  else if ["false".toList, "False".toList, "FALSE".toList].contains s then some false
  else none

/-- Two or more digits of which the first is a zero, perhaps with a sign. -/
def hasLeadingZero (s : Text) : Bool :=
  let s := if s.head? == some '-' || s.head? == some '+' then s.tail else s
  1 < s.length && s.head? == some '0' && s.all Char.isDigit

/-- The digits behind a leader such as `0x`. -/
def behind? (leader : String) (s : Text) : Option Text :=
  if leader.toList.isPrefixOf s then some (s.drop leader.length) else none

/-- The number that a text without a sign writes in base 16, 8, 2 or 10. -/
def magnitude? (s : Text) : Option Nat :=
  match behind? "0x" s, behind? "0o" s, behind? "0b" s with
  | some digits, _, _ => digitsValue? 16 digits
  | _, some digits, _ => digitsValue? 8 digits
  | _, _, some digits => digitsValue? 2 digits
  | none, none, none => digitsValue? 10 s

/-- A whole number with at most one sign, of at most 128 bits. -/
def integer? (s : Text) : Option Int :=
  if hasLeadingZero s then none
  else
    match s with
    | '-' :: digits =>
      (magnitude? digits).bind fun n => if n ≤ Nat.pow 2 127 then some (-Int.ofNat n) else none
    | '+' :: digits =>
      (magnitude? digits).bind fun n => if n < Nat.pow 2 128 then some (Int.ofNat n) else none
    | digits =>
      (magnitude? digits).bind fun n => if n < Nat.pow 2 128 then some (Int.ofNat n) else none

/-- The exponent behind the letter `e`, if there is one. -/
def exponent? : Text → Option Int
  | [] => some 0
  | e :: rest =>
    if e != 'e' && e != 'E' then none
    else
      match rest with
      | '-' :: digits => (digitsValue? 10 digits).map fun n => -Int.ofNat n
      | '+' :: digits => (digitsValue? 10 digits).map Int.ofNat
      | digits => (digitsValue? 10 digits).map Int.ofNat

/-- The shortest text of the number that digits, a point and an exponent write. -/
def unsignedDecimal? (s : Text) : Option Text :=
  let whole := s.takeWhile Char.isDigit
  let rest := s.drop whole.length
  let hasPoint := rest.head? == some '.'
  let rest := if hasPoint then rest.tail else rest
  let part := if hasPoint then rest.takeWhile Char.isDigit else []
  match digitsValue? 10 (whole ++ part), exponent? (rest.drop part.length) with
  | some n, some e => Decimal.nearestText n (e - part.length)
  | _, _ => none

def isInfinity (s : Text) : Bool :=
  [".inf".toList, ".Inf".toList, ".INF".toList].contains s

/-- The text of a decimal: infinities and not-a-number have names, and all other decimals are
written out without an exponent. -/
def decimal? (s : Text) : Option Text :=
  let signed (digits : Text) : Option Text :=
    match digits with
    | '-' :: digits => (unsignedDecimal? digits).map ('-' :: ·)
    | digits => unsignedDecimal? digits
  if [".nan".toList, ".NaN".toList, ".NAN".toList].contains s then some "NaN".toList
  else
    match s with
    | '+' :: rest =>
      if isInfinity rest then some "inf".toList else unsignedDecimal? rest
    | '-' :: rest =>
      if isInfinity rest then some "-inf".toList else signed s
    | rest => if isInfinity rest then some "inf".toList else signed rest

/-- What a plain scalar stands for. -/
def Meaning.ofPlain (s : Text) : Meaning :=
  if s.isEmpty || isNothing s then nothing
  else
    match boolean? s, integer? s with
    | some b, _ => boolean b
    | none, some n => integer n
    | none, none =>
      if hasLeadingZero s then text s
      else
        match decimal? s with
        | some shown => decimal shown
        | none => text s

/-- The tags that say what a scalar stands for. -/
def standardTag (name : String) : Text := "tag:yaml.org,2002:".toList ++ name.toList

/-- What a scalar with a tag and a style stands for; nothing fits a tag that asks for a kind the
text is not of, and then the answer is the kind. -/
def Meaning.ofScalar (tag : Option Text) (style : Style) (s : Text) : Except String Meaning :=
  let untagged := if style = .plain then ofPlain s else text s
  match tag with
  | none => .ok untagged
  | some tag =>
    if tag = standardTag "bool" then
      (boolean? s).elim (.error "a boolean") fun b => .ok (boolean b)
    else if tag = standardTag "int" then
      (integer? s).elim (.error "an integer") fun n => .ok (integer n)
    else if tag = standardTag "float" then
      (decimal? s).elim (.error "a float") fun d => .ok (decimal d)
    else if tag = standardTag "null" then
      if isNothing s then .ok nothing else .error "null"
    else if tag.head? = some '!' then .ok untagged
    else .ok (text s)

/-- A text in words, quoted. -/
def describeText (s : Text) : String := "string " ++ String.ofList (Text.quote s)

/-- A value in words, numbers with the type that they need. -/
def Meaning.describe : Meaning → String
  | nothing => "unit value"
  | boolean b => s!"boolean `{b}`"
  | integer n =>
    if n < -Int.ofNat (Nat.pow 2 63) then s!"integer `{n}` as i128"
    else if Int.ofNat (Nat.pow 2 64) ≤ n then s!"integer `{n}` as u128"
    else s!"integer `{n}`"
  | decimal shown => s!"floating point `{String.ofList shown}`"
  | text s => describeText s

end PipeTable.Yaml
