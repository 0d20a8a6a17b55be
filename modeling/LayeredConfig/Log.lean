import LayeredConfig.Environment.Override

/-!
# Log

What a resolution reports while it runs. Events carry paths, names and counts, never the values of
settings.
-/

namespace LayeredConfig

inductive Level where
  | debug
  | info
  | warn
deriving DecidableEq, Inhabited

inductive Event where
  | resolving (sources : Nat)
  | resolvingText (bytes : Nat)
  | readingFile (path : String) (required : Bool)
  | optionalFileMissing (path : String)
  | fileFailed (path : String)
  | fileLoaded (path : String) (keys : Nat)
  | variableApplied (name path : String)
  | variableIgnored (name : String) (reason : Skip)
  | failed (problems : Nat)
  | resolved (layers : Nat)
deriving DecidableEq

abbrev Log := List Event

def Level.name : Level → String
  | debug => "DEBUG"
  | info => "INFO"
  | warn => "WARN"

def Skip.text (name : String) : Skip → String
  | emptyName => "ignoring env var with nothing after prefix (var=" ++ name ++ ")"
  | emptySegment => "ignoring env var with empty path segment (var=" ++ name ++ ")"
  | table path => "ignoring env var naming a table (var=" ++ name ++ ", path=" ++ path ++ ")"
  | unknown path =>
    "ignoring env var for unknown field (var=" ++ name ++ ", path=" ++ path ++ ")"

namespace Event

def level : Event → Level
  | resolving _ => .info
  | variableIgnored _ _ => .warn
  | failed _ => .warn
  | resolved _ => .info
  | _ => .debug

def text : Event → String
  | resolving sources => "resolving config (sources=" ++ toString sources ++ ")"
  | resolvingText bytes => "resolving config from raw contents (len=" ++ toString bytes ++ ")"
  | readingFile path required =>
    "reading config file (path=" ++ path ++ ", required=" ++ toString required ++ ")"
  | optionalFileMissing path => "optional config file missing (path=" ++ path ++ ")"
  | fileFailed path => "file layer failed (path=" ++ path ++ ")"
  | fileLoaded path keys =>
    "loaded file layer (path=" ++ path ++ ", keys=" ++ toString keys ++ ")"
  | variableApplied name path =>
    "applied env override (var=" ++ name ++ ", path=" ++ path ++ ")"
  | variableIgnored name reason => reason.text name
  | failed problems => "config resolution failed (problems=" ++ toString problems ++ ")"
  | resolved layers => "config resolved (layers=" ++ toString layers ++ ")"

def line (event : Event) : String :=
  event.level.name ++ " " ++ event.text

end Event

end LayeredConfig
