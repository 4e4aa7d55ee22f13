import ContentEngine.Config
import ContentEngine.Toml.Parser

/-!
# Reading a configuration

A configuration is a TOML document with the key `debug` and the tables `pagination` and `query`; a
key that is left out keeps its default, and an unknown one is refused. A table can also be given as
the list of its first values, in which further items do not count.
-/

namespace ContentEngine.EngineConfig

/-- What the statements so far have set. -/
structure Reading where
  config : EngineConfig := {}
  table : Option String := none
  opened : List String := []
  settings : List (List String) := []

def word? (bound : Nat) : Toml → Option Nat
  | .int n => if 0 ≤ n ∧ n.toNat < bound then some n.toNat else none
  | _ => none

def word32? (v : Toml) : Option UInt32 := (word? UInt32.size v).map UInt32.ofNat

def word64? (v : Toml) : Option UInt64 := (word? UInt64.size v).map UInt64.ofNat

def setKey (c : EngineConfig) (table key : String) (v : Toml) : Option EngineConfig :=
  match table, key with
  | "pagination", "default_page_size" =>
    (word32? v).map fun n => { c with pages := { c.pages with defaultSize := n } }
  | "pagination", "max_page_size" =>
    (word32? v).map fun n => { c with pages := { c.pages with maxSize := n } }
  | "query", "timeout_ms" => (word64? v).map fun n => { c with timeoutMs := some n }
  | "query", "predicate_cache_capacity" =>
    (word64? v).map fun n => { c with predicateCacheCapacity := n }
  | _, _ => none

/-- The keys of a table, in the order in which a list gives their values. -/
def tableKeys : String → Option (List String)
  | "pagination" => some ["default_page_size", "max_page_size"]
  | "query" => some ["timeout_ms", "predicate_cache_capacity"]
  | _ => none

def setTable (c : EngineConfig) (table : String) (v : Toml) : Option EngineConfig := do
  let keys ← tableKeys table
  match v with
  | .table entries =>
    entries.foldlM (fun c e =>
      match e.1 with
      | [key] => c.setKey table key e.2
      | _ => none) c
  | .arr items => (keys.zip items).foldlM (fun c e => c.setKey table e.1 e.2) c
  | _ => none

def setPath (c : EngineConfig) : List String → Toml → Option EngineConfig
  | ["debug"], .bool b => some { c with debug := b }
  | [table], v => c.setTable table v
  | [table, key], v => c.setKey table key v
  | _, _ => none

namespace Reading

/-- Nothing is set twice, or set as a whole and extended. -/
def conflicts (r : Reading) (path : List String) : Bool :=
  r.settings.any fun p => p.isPrefixOf path || path.isPrefixOf p

def apply (r : Reading) : Toml.Statement → Option Reading
  | .setting path v =>
    let path := r.table.toList ++ path
    if r.conflicts path then none
    else (r.config.setPath path v).map fun c =>
      { r with config := c, settings := path :: r.settings }
  | .header [table] =>
    if (tableKeys table).isNone || r.opened.contains table || r.conflicts [table] then none
    else some { r with table := some table, opened := table :: r.opened }
  | _ => none

end Reading

/-- The configuration of a TOML text, if it is a valid one. -/
def ofText (text : String) : Except ConfigError EngineConfig :=
  match (Toml.parse? text).bind fun l => l.foldlM Reading.apply {} with
  | none => .error .malformed
  | some r => r.config.validate.map fun _ => r.config

/-- The configuration in a file, given its text; without one it could not be read. -/
def ofFile (text : Option String) : Except ConfigError EngineConfig :=
  match text with
  | none => .error .unreadable
  | some text => ofText text

end ContentEngine.EngineConfig
