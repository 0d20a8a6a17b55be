import LayeredConfig.KeyPath
import LayeredConfig.Origin
import LayeredConfig.Tree

/-!
# Provenance

Which origin last wrote each node of a tree, by dotted path. The record follows an overlay node by
node: what the overlay writes gets its origin, and what a replaced table held is forgotten.
-/

namespace LayeredConfig

/-- The recorded paths in ascending order, each with the origin of its last writer. -/
structure Provenance where
  origins : Keyed String Origin
  ascending : origins.Ascending
deriving DecidableEq

namespace Provenance

def empty : Provenance := ⟨[], Keyed.ascending_nil⟩

instance : Inhabited Provenance := ⟨empty⟩

/-- The origin recorded for exactly this path. -/
def get? (record : Provenance) (path : String) : Option Origin :=
  Keyed.get? record.origins path

/-- The origin recorded for the path or else for its nearest ancestor. Without one the value can
only stem from the inline document. -/
def originOf (record : Provenance) (path : String) : Origin :=
  ((KeyPath.ancestors path).findSome? record.get?).getD .inline

/-- Records one node. The root is not recorded. -/
def set (record : Provenance) (path : String) (origin : Origin) : Provenance :=
  if path = "" then record
  else
    { origins := Keyed.insert record.origins path origin
      ascending := Keyed.ascending_insert record.ascending path origin }

/-- Forgets every path strictly below `path`. -/
def clearUnder (record : Provenance) (path : String) : Provenance :=
  ⟨record.origins.filter fun entry => !KeyPath.isBelow entry.1 path, record.ascending.filter _⟩

mutual

def recordTree (origin : Origin) (path : String) (record : Provenance) : Tree → Provenance
  | .table entries => recordEntries origin path (record.set path origin) entries
  | _ => record.set path origin
termination_by structural tree => tree

def recordEntries (origin : Origin) (path : String) (record : Provenance) :
    List (String × Tree) → Provenance
  | [] => record
  | (key, child) :: rest =>
    recordEntries origin path (recordTree origin (KeyPath.join path key) record child) rest
termination_by structural entries => entries

end

mutual

/-- Follows `Tree.overlay` of a layer over `base` at `path`. A table merged into a table is recorded
after its members; anything else clears what was below and is recorded afresh. -/
def overlay (origin : Origin) (path : String) (base : Tree) (record : Provenance) :
    Tree → Provenance
  | .table entries =>
    match base with
    | .table under => (overlayEntries origin path under record entries).set path origin
    | _ => recordTree origin path (record.clearUnder path) (.table entries)
  | value => recordTree origin path (record.clearUnder path) value
termination_by structural layer => layer

def overlayEntries (origin : Origin) (path : String) (under : List (String × Tree))
    (record : Provenance) : List (String × Tree) → Provenance
  | [] => record
  | (key, value) :: rest =>
    let below := KeyPath.join path key
    let recorded :=
      match Keyed.get? under key with
      | some existing => overlay origin below existing record value
      | none => recordTree origin below record value
    overlayEntries origin path under recorded rest
termination_by structural entries => entries

end

theorem get?_set (record : Provenance) {path : String} (h : path ≠ "") (origin : Origin)
    (other : String) :
    (record.set path origin).get? other =
      if path = other then some origin else record.get? other := by
  unfold set get?
  rw [if_neg h]
  exact Keyed.get?_insert record.origins path origin other

end Provenance

end LayeredConfig
