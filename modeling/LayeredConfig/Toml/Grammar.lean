import LayeredConfig.Toml.Number
import LayeredConfig.Toml.Tables
import LayeredConfig.Toml.Text

/-!
# The grammar of documents

Keys, values and statements. Arrays and inline tables may nest to a limited depth, which is also
what the recursion of `value` descends on; loops over the items of a list are bounded by the length
of the text, since every item takes at least one character.
-/

namespace LayeredConfig.Toml

/-- How many arrays and inline tables may lie inside each other. -/
def maxDepth : Nat := 79

/-- How many keys a dotted key may join. -/
def maxKeys : Nat := 79

def isBare (c : Char) : Bool :=
  Text.isDigit c || decide ('a' ≤ c ∧ c ≤ 'z') || decide ('A' ≤ c ∧ c ≤ 'Z') || c == '_'
    || c == '-'

def simpleKey : Attempt String := fun cs =>
  match lineText? cs with
  | some read => read.map fun (chars, rest) => some (String.ofList chars, rest)
  | none =>
    let chars := cs.takeWhile isBare
    .ok (if chars = [] then none else some (String.ofList chars, cs.dropWhile isBare))

/-- Keys joined by dots with blanks around each. A dot that no key follows is left unread. -/
def keysFrom : Nat → Reader (List String)
  | 0, cs => .ok ([], cs)
  | fuel + 1, cs => do
    match ← simpleKey (skipBlanks cs) with
    | none => .ok ([], cs)
    | some (key, rest) =>
      let after := skipBlanks rest
      match after with
      | '.' :: next =>
        let (keys, left) ← keysFrom fuel next
        .ok (key :: keys, if keys = [] then after else left)
      | _ => .ok ([key], after)

/-- A dotted key with blanks around it, if the text begins with one that is not too long. -/
def dottedKey : Attempt DottedKey := fun cs => do
  let (keys, rest) ← keysFrom cs.length cs
  if maxKeys < keys.length then return none
  else return keys.getLast?.map fun key => (⟨keys.dropLast, key⟩, rest)

def arrayItems (item : Reader Node) : Nat → Reader (List Node)
  | 0, cs => stop cs
  | fuel + 1, cs => do
    let start ← skipGap cs
    match start with
    | ']' :: rest => .ok ([], rest)
    | _ =>
      let (value, after) ← item start
      match skipGap after with
      | .ok (',' :: rest) => do
        let (values, left) ← arrayItems item fuel rest
        .ok (value :: values, left)
      | .ok (']' :: rest) => .ok ([value], rest)
      | .ok other => stop other
      | .error _ => stop start

/-- The pairs of an inline table, each with its place, up to what is no further pair. -/
def inlinePairs (item : Reader Node) : Nat → Reader (List (Place × DottedKey × Node))
  | 0, cs => .ok ([], cs)
  | fuel + 1, cs => do
    match ← dottedKey cs with
    | none => .ok ([], skipBlanks cs)
    | some (key, rest) =>
      match rest with
      | '=' :: afterMark =>
        let (value, afterValue) ← item (skipBlanks afterMark)
        let after := skipBlanks afterValue
        match after with
        | ',' :: next =>
          let (pairs, left) ← inlinePairs item fuel next
          .ok ((cs, key, value) :: pairs, if pairs.isEmpty then after else left)
        | _ => .ok ([(cs, key, value)], after)
      | _ => stop rest

/-- The inside of an inline table and its closing brace. Keys that do not go together are an error
at the opening brace. -/
def inlineTable (item : Reader Node) : Reader Node := fun cs => do
  let (pairs, rest) ← inlinePairs item (cs.length + 1) cs
  match pairs.foldlM (fun draft (place, key, value) => Draft.assign place key value draft) [] with
  | .error _ => stop cs
  | .ok draft =>
    match rest with
    | '\x7d' :: after => .ok (.inline draft, after)
    | _ => stop rest

/-- A value in which at most `depth` arrays and inline tables lie inside each other. -/
def value : Nat → Reader Node
  | depth, cs =>
    match text? cs with
    | some read => read.map fun (chars, rest) => (.scalar (.string (String.ofList chars)), rest)
    | none =>
      match depth, cs with
      | depth + 1, '[' :: rest =>
        (arrayItems (value depth) (rest.length + 1) rest).map fun (items, left) =>
          (.array items, left)
      | depth + 1, '\x7b' :: rest => inlineTable (value depth) rest
      | _, _ =>
        match scalar cs with
        | .error stopped => .error stopped
        | .ok (some (value, rest)) => .ok (.scalar value, rest)
        | .ok none => stop cs

inductive Statement where
  | table (target : DottedKey)
  /-- Opens a new element of an array of tables. -/
  | element (target : DottedKey)
  | assign (target : DottedKey) (value : Node)

def header (close : List Char) (cs : List Char) : Reading (Taken DottedKey) := do
  match ← dottedKey cs with
  | none => stop cs
  | some (target, rest) =>
    if close.isPrefixOf rest then
      .ok (target, ← endOfLine (rest.drop close.length))
    else stop rest

def statement (cs : List Char) : Reading (Taken Statement) :=
  match cs with
  | '[' :: '[' :: rest => (header [']', ']'] rest).map fun (target, left) => (.element target, left)
  | '[' :: rest => (header [']'] rest).map fun (target, left) => (.table target, left)
  | _ => do
    match ← dottedKey cs with
    | none => stop cs
    | some (target, rest) =>
      match rest with
      | '=' :: afterMark =>
        let (value, afterValue) ← value maxDepth (skipBlanks afterMark)
        .ok (.assign target value, ← endOfLine afterValue)
      | _ => stop rest

/-- The statements of a document, each with its place, up to the end or to where reading stops. -/
def statements : Nat → List Char → List (Place × Statement) × Option Stop
  | 0, cs => ([], some ⟨cs⟩)
  | fuel + 1, cs =>
    let start := skipBlanks cs
    match start with
    | [] => ([], none)
    | c :: _ =>
      if c = '#' then
        match endOfLine start with
        | .ok rest => statements fuel rest
        | .error stopped => ([], some stopped)
      else
        match lineBreak? start with
        | some rest => statements fuel rest
        | none =>
          match statement start with
          | .ok (read, rest) =>
            let (more, stopped) := statements fuel rest
            ((start, read) :: more, stopped)
          | .error stopped => ([], some stopped)

end LayeredConfig.Toml
