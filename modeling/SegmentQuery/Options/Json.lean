import SegmentQuery.Options.Basic
import SegmentQuery.Text.Json
/-!
# Options from JSON

An object sets the options it names over the defaults, each at most
once; names it does not know are ignored. An array sets the options in
declaration order, as many as it has items. Flags must be booleans and
counts plain 64 bit numbers.
-/


namespace SegmentQuery

namespace Options

/-- Set one option. -/
inductive Setting
  | nullHandling (v : Bool)
  | limit (v : Nat)
  | offset (v : Nat)
  | blockSize (v : Nat)
  | maxInitialCapacity (v : Nat)
  | numGroupsLimit (v : Nat)

def apply (o : Options) : Setting → Options
  | .nullHandling v => { o with nullHandling := v }
  | .limit v => { o with limit := v }
  | .offset v => { o with offset := v }
  | .blockSize v => { o with blockSize := v }
  | .maxInitialCapacity v => { o with maxInitialCapacity := v }
  | .numGroupsLimit v => { o with numGroupsLimit := v }

def flag? : Json → Option Bool
  | .bool v => some v
  | _ => none

def count? : Json → Option Nat
  | .number (some n) => if n < Number.bound64 then some n else none
  | _ => none

/-- The options in declaration order: name, and how a value sets it. -/
def fields : List (String × (Json → Option Setting)) :=
  [("enableNullHandling", fun v => (flag? v).map .nullHandling),
   ("limit", fun v => (count? v).map .limit),
   ("offset", fun v => (count? v).map .offset),
   ("blockSize", fun v => (count? v).map .blockSize),
   ("maxInitialCapacity", fun v => (count? v).map .maxInitialCapacity),
   ("numGroupsLimit", fun v => (count? v).map .numGroupsLimit)]

/-- Read members of an object; `seen` are the known names read so far. -/
def ofMembers (o : Options) (seen : List String) : List (Option String × Json) → Option Options
  | [] => some o
  | (none, _) :: _ => none
  | (some name, v) :: rest =>
    match fields.lookup name with
    | none => ofMembers o seen rest
    | some read =>
      if seen.contains name then none
      else (read v).bind fun s => ofMembers (o.apply s) (name :: seen) rest

/-- Read items of an array into the fields in order. -/
def ofItems (o : Options) :
    List (String × (Json → Option Setting)) → List Json → Option Options
  | _, [] => some o
  | [], _ :: _ => none
  | (_, read) :: fields, v :: rest => (read v).bind fun s => ofItems (o.apply s) fields rest

/-- Read a JSON text over the defaults. -/
def ofJson? (text : String) : Option Options :=
  match Json.ofText text with
  | some (.object members) => ofMembers {} [] members
  | some (.array items) => ofItems {} fields items
  | _ => none

end Options

end SegmentQuery
