import Registrar.Json.Number

/-!
# JSON tokens

`Token.scan?` splits a text into tokens with one pass over its characters. A run of letters must be
a literal and a run of number characters must be a number; a string may hold no control character,
and its `\u` escapes must form whole characters.
-/

namespace Registrar.Json

inductive Token where
  | openObject
  | closeObject
  | openArray
  | closeArray
  | comma
  | colon
  | text (value : String)
  | scalar (value : Json)

inductive Escape where
  | none
  | backslash
  /-- Inside the digits of a unit: `high` is the high surrogate that comes before it, if any. -/
  | digits (high : Option Nat) (value count : Nat)
  | afterHigh (high : Nat)
  | afterHighBackslash (high : Nat)

/-- Where a scan stands. Characters found are held with the last one first. -/
inductive Mode where
  | between
  | word (found : List Char)
  | number (found : List Char)
  | text (found : List Char) (escape : Escape)

def isNumberChar (c : Char) : Bool :=
  c.isDigit || c == '-' || c == '+' || c == '.' || c == 'e' || c == 'E'

def hexDigit? (c : Char) : Option Nat :=
  if '0' ≤ c ∧ c ≤ '9' then some (c.toNat - 48)
  else if 'a' ≤ c ∧ c ≤ 'f' then some (c.toNat - 87)
  else if 'A' ≤ c ∧ c ≤ 'F' then some (c.toNat - 55)
  else none

def simpleEscape? : Char → Option Char
  | '"' => some '"'
  | '\\' => some '\\'
  | '/' => some '/'
  | 'b' => some '\x08'
  | 'f' => some '\x0c'
  | 'n' => some '\n'
  | 'r' => some '\x0d'
  | 't' => some '\t'
  | _ => none

def start? (tokens : List Token) (c : Char) : Option (Mode × List Token) :=
  if c = ' ' ∨ c = '\n' ∨ c = '\t' ∨ c = '\x0d' then some (.between, tokens)
  else if c = '\x7b' then some (.between, .openObject :: tokens)
  else if c = '\x7d' then some (.between, .closeObject :: tokens)
  else if c = '[' then some (.between, .openArray :: tokens)
  else if c = ']' then some (.between, .closeArray :: tokens)
  else if c = ',' then some (.between, .comma :: tokens)
  else if c = ':' then some (.between, .colon :: tokens)
  else if c = '"' then some (.text [] .none, tokens)
  else if c.isDigit || c == '-' then some (.number [c], tokens)
  else if c.isAlpha then some (.word [c], tokens)
  else none

def literal? (letters : List Char) : Option Json :=
  if letters = ['n', 'u', 'l', 'l'] then some .null
  else if letters = ['t', 'r', 'u', 'e'] then some (.bool true)
  else if letters = ['f', 'a', 'l', 's', 'e'] then some (.bool false)
  else none

def unit? (found : List Char) (high : Option Nat) (value : Nat) : Option Mode :=
  match high with
  | some high =>
    if 0xDC00 ≤ value ∧ value < 0xE000 then
      some (.text (Char.ofNat (0x10000 + (high - 0xD800) * 1024 + (value - 0xDC00)) :: found) .none)
    else none
  | none =>
    if 0xD800 ≤ value ∧ value < 0xDC00 then some (.text found (.afterHigh value))
    else if 0xDC00 ≤ value ∧ value < 0xE000 then none
    else some (.text (Char.ofNat value :: found) .none)

def stepText? (found : List Char) (escape : Escape) (tokens : List Token) (c : Char) :
    Option (Mode × List Token) :=
  match escape with
  | .none =>
    if c = '"' then some (.between, .text (String.ofList found.reverse) :: tokens)
    else if c = '\\' then some (.text found .backslash, tokens)
    else if c.toNat < 0x20 then none
    else some (.text (c :: found) .none, tokens)
  | .backslash =>
    if c = 'u' then some (.text found (.digits none 0 0), tokens)
    else (simpleEscape? c).map fun d => (.text (d :: found) .none, tokens)
  | .digits high value count =>
    match hexDigit? c with
    | none => none
    | some d =>
      if count = 3 then (unit? found high (value * 16 + d)).map (·, tokens)
      else some (.text found (.digits high (value * 16 + d) (count + 1)), tokens)
  | .afterHigh high =>
    if c = '\\' then some (.text found (.afterHighBackslash high), tokens) else none
  | .afterHighBackslash high =>
    if c = 'u' then some (.text found (.digits (some high) 0 0), tokens) else none

/-- The tokens after a run of letters or number characters has ended. -/
def close? (mode : Mode) (tokens : List Token) : Option (List Token) :=
  match mode with
  | .between => some tokens
  | .word found => (literal? found.reverse).map fun value => .scalar value :: tokens
  | .number found => (JsonNumber.ofText? found.reverse).map fun n => .scalar (.number n) :: tokens
  | .text _ _ => none

def step? (mode : Mode) (tokens : List Token) (c : Char) : Option (Mode × List Token) :=
  match mode with
  | .between => start? tokens c
  | .word found =>
    if c.isAlpha then some (.word (c :: found), tokens)
    else (close? (.word found) tokens).bind (start? · c)
  | .number found =>
    if isNumberChar c then some (.number (c :: found), tokens)
    else (close? (.number found) tokens).bind (start? · c)
  | .text found escape => stepText? found escape tokens c

/-- Scans onto `tokens`, which holds the earlier ones, the last first. -/
def scanOnto? (mode : Mode) (tokens : List Token) : List Char → Option (List Token)
  | [] => (close? mode tokens).map List.reverse
  | c :: rest =>
    match step? mode tokens c with
    | none => none
    | some (mode, tokens) => scanOnto? mode tokens rest

def Token.scan? (text : List Char) : Option (List Token) := scanOnto? .between [] text

end Registrar.Json
