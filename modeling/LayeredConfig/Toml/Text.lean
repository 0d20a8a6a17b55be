import LayeredConfig.Text.Digits
import LayeredConfig.Toml.Reading

/-!
# Texts

The four quoted forms: basic and literal, on one line or over several. The readers begin after the
opening quotes and return the characters that the text stands for.
-/

namespace LayeredConfig.Toml

open Text (isHexDigit natOfDigits)

def charOfHex? (digits : List Char) : Option Char :=
  let n := natOfDigits 16 digits
  if digits.all isHexDigit ∧ n.isValidChar then some (Char.ofNat n) else none

def escaped? (c : Char) : Option Char :=
  if c = 'b' then some '\x08'
  else if c = 't' then some '\t'
  else if c = 'n' then some '\n'
  else if c = 'f' then some '\x0c'
  else if c = 'r' then some '\r'
  else if c = '"' then some '"'
  else if c = '\\' then some '\\'
  else none

/-- A basic text on one line, up to its closing quote. An unknown escape stops after its letter, a
code point that is none right after the letter `u`. -/
def basic : List Char → Reading (Taken (List Char))
  | [] => stop []
  | '\\' :: 'u' :: rest =>
    match rest with
    | a :: b :: c :: d :: more =>
      match charOfHex? [a, b, c, d] with
      | some char => prepend char (basic more)
      | none => stop rest
    | _ => stop rest
  | '\\' :: 'U' :: rest =>
    match rest with
    | a :: b :: c :: d :: e :: f :: g :: h :: more =>
      match charOfHex? [a, b, c, d, e, f, g, h] with
      | some char => prepend char (basic more)
      | none => stop rest
    | _ => stop rest
  | '\\' :: c :: rest =>
    match escaped? c with
    | some char => prepend char (basic rest)
    | none => stop rest
  | c :: rest =>
    if c = '"' then .ok ([], rest)
    else if isPlain c ∧ c ≠ '\\' then prepend c (basic rest)
    else stop (c :: rest)

def literal : List Char → Reading (Taken (List Char))
  | [] => stop []
  | c :: rest =>
    if c = '\'' then .ok ([], rest)
    else if isPlain c then prepend c (literal rest)
    else stop (c :: rest)

/-- What follows three closing quotes: up to two more belong to the text. -/
def closing (quote : Char) : List Char → List Char × List Char
  | a :: b :: rest =>
    if a = quote ∧ b = quote then ([quote, quote], rest)
    else if a = quote then ([quote], b :: rest)
    else ([], a :: b :: rest)
  | [a] => if a = quote then ([quote], []) else ([], [a])
  | [] => ([], [])

def endsLine (cs : List Char) : Bool :=
  (lineBreak? (skipBlanks cs)).isSome

/-- A basic text over several lines, up to its closing quotes. A backslash at the end of a line
joins it to the next character that is neither blank nor a line break; `joining` says that such
characters are being passed over. -/
def multilineBasic (joining : Bool) : List Char → Reading (Taken (List Char))
  | [] => stop []
  | '"' :: '"' :: '"' :: rest => .ok (closing '"' rest)
  | '\r' :: '\n' :: rest =>
    if joining then multilineBasic true rest else prepend '\n' (multilineBasic false rest)
  | '\\' :: 'u' :: rest =>
    match rest with
    | a :: b :: c :: d :: more =>
      match charOfHex? [a, b, c, d] with
      | some char => prepend char (multilineBasic false more)
      | none => stop rest
    | _ => stop rest
  | '\\' :: 'U' :: rest =>
    match rest with
    | a :: b :: c :: d :: e :: f :: g :: h :: more =>
      match charOfHex? [a, b, c, d, e, f, g, h] with
      | some char => prepend char (multilineBasic false more)
      | none => stop rest
    | _ => stop rest
  | '\\' :: c :: rest =>
    match escaped? c with
    | some char => prepend char (multilineBasic false rest)
    | none => if endsLine (c :: rest) then multilineBasic true (c :: rest) else stop rest
  | c :: rest =>
    if joining ∧ (isBlank c ∨ c = '\n') then multilineBasic true rest
    else if c = '\n' ∨ (isPlain c ∧ c ≠ '\\') then prepend c (multilineBasic false rest)
    else stop (c :: rest)

def multilineLiteral : List Char → Reading (Taken (List Char))
  | [] => stop []
  | '\'' :: '\'' :: '\'' :: rest => .ok (closing '\'' rest)
  | '\r' :: '\n' :: rest => prepend '\n' (multilineLiteral rest)
  | c :: rest =>
    if c = '\n' ∨ isPlain c then prepend c (multilineLiteral rest) else stop (c :: rest)

/-- A line break right after the opening quotes is no part of the text. -/
def afterOpening (cs : List Char) : List Char :=
  (lineBreak? cs).getD cs

def lineText? : List Char → Option (Reading (Taken (List Char)))
  | '"' :: rest => some (basic rest)
  | '\'' :: rest => some (literal rest)
  | _ => none

def text? : List Char → Option (Reading (Taken (List Char)))
  | '"' :: '"' :: '"' :: rest => some (multilineBasic false (afterOpening rest))
  | '\'' :: '\'' :: '\'' :: rest => some (multilineLiteral (afterOpening rest))
  | cs => lineText? cs

end LayeredConfig.Toml
