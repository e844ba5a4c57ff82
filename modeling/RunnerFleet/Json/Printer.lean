import RunnerFleet.Json.Basic
import RunnerFleet.Number.Layout
import RunnerFleet.Number.Literal

/-!
# Writing JSON

The compact form has no blanks. The indented form puts every item and member on a line of its own,
two spaces further in than its container; empty containers stay on one line. Both have the same
tokens. A double is written with the fewest digits that tell it from every other double, or as null
if it is not finite. A reader gathers those digits and scales them with one rounding each, so what it
returns may be a neighbour of the double that was written.
-/

namespace RunnerFleet.Json

/-- Doubles always show a point or an exponent, and are positional from `0.00001` up to sixteen
digits before the point. -/
def numberLayout : Number.Layout where
  leastPoint := -4
  greatestPoint := 16
  wholeMark := ['.', '0']
  exponentMark := 'e'
  positiveSign := ['+']
  notFinite := "null".toList

/-- The double that is read from the text of `x`, which is no number if `x` is not finite. -/
def reread (x : Float) : Option Float :=
  (Number.Literal.ofChars? (Number.write numberLayout x)).bind Number.Literal.toFloat?

def hexDigit (n : Nat) : Char := Nat.digitChar n

/-- A character inside a string literal. Only quotes, backslashes and the controls below U+0020
are escaped. -/
def escapedChar (c : Char) : List Char :=
  match c with
  | '"' => ['\\', '"']
  | '\\' => ['\\', '\\']
  | '\n' => ['\\', 'n']
  | '\r' => ['\\', 'r']
  | '\t' => ['\\', 't']
  | '\x08' => ['\\', 'b']
  | '\x0c' => ['\\', 'f']
  | c =>
    if c.toNat < 0x20 then
      ['\\', 'u', '0', '0', hexDigit (c.toNat / 16), hexDigit (c.toNat % 16)]
    else [c]

def stringChars (s : String) : List Char := ['"'] ++ s.toList.flatMap escapedChar ++ ['"']

def scalarChars : Json → List Char
  | .bool true => "true".toList
  | .bool false => "false".toList
  | .whole n => Decimal.digits n.toNat
  | .real x => Number.write numberLayout x
  | .string s => stringChars s
  | _ => "null".toList

mutual

def compactChars : Json → List Char
  | .array items => ['['] ++ compactItems items ++ [']']
  | .object members => ['\x7b'] ++ compactMembers members ++ ['\x7d']
  | j => scalarChars j

def compactItems : List Json → List Char
  | [] => []
  | [j] => compactChars j
  | j :: js => compactChars j ++ [','] ++ compactItems js

def compactMembers : List (String × Json) → List Char
  | [] => []
  | [(k, j)] => stringChars k ++ [':'] ++ compactChars j
  | (k, j) :: ms => stringChars k ++ [':'] ++ compactChars j ++ [','] ++ compactMembers ms

end

def lineBreak (depth : Nat) : List Char := '\n' :: List.replicate (2 * depth) ' '

mutual

def indentedChars (depth : Nat) : Json → List Char
  | .array (j :: js) =>
    ['['] ++ indentedItems (depth + 1) (j :: js) ++ lineBreak depth ++ [']']
  | .object (m :: ms) =>
    ['\x7b'] ++ indentedMembers (depth + 1) (m :: ms) ++ lineBreak depth ++ ['\x7d']
  | .array [] => ['[', ']']
  | .object [] => ['\x7b', '\x7d']
  | j => scalarChars j

def indentedItems (depth : Nat) : List Json → List Char
  | [] => []
  | [j] => lineBreak depth ++ indentedChars depth j
  | j :: js => lineBreak depth ++ indentedChars depth j ++ [','] ++ indentedItems depth js

def indentedMembers (depth : Nat) : List (String × Json) → List Char
  | [] => []
  | [(k, j)] => lineBreak depth ++ stringChars k ++ [':', ' '] ++ indentedChars depth j
  | (k, j) :: ms =>
    lineBreak depth ++ stringChars k ++ [':', ' '] ++ indentedChars depth j ++ [','] ++
      indentedMembers depth ms

end

def compact (j : Json) : String := String.ofList (compactChars j)

def indented (j : Json) : String := String.ofList (indentedChars 0 j)

end RunnerFleet.Json
