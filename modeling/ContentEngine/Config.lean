import ContentEngine.Page

/-!
# Configuration

The settings of an engine: page sizes, a time limit for calls, how many compiled predicates are
kept, and whether plans are logged.
-/

namespace ContentEngine

inductive ConfigError where
  | unreadable
  | malformed
  | invalid (reason : String)
deriving DecidableEq, Repr

def ConfigError.message : ConfigError → String
  | .unreadable => "failed to read config"
  | .malformed => "failed to parse config"
  | .invalid reason => s!"invalid config: {reason}"

structure EngineConfig where
  pages : PageLimits := {}
  timeoutMs : Option UInt64 := none
  predicateCacheCapacity : UInt64 := 256
  debug : Bool := false
deriving DecidableEq, Repr

namespace EngineConfig

def validate (c : EngineConfig) : Except ConfigError Unit :=
  if c.pages.maxSize = 0 then .error (.invalid "pagination.max_page_size must be at least 1")
  else if c.pages.defaultSize = 0 ∨ c.pages.maxSize < c.pages.defaultSize then
    .error (.invalid s!"pagination.default_page_size must be in 1..={c.pages.maxSize}")
  else if c.timeoutMs = some 0 then
    .error (.invalid "query.timeout_ms must be positive when set")
  else .ok ()

def describe (c : EngineConfig) : String :=
  let timeout := c.timeoutMs.elim "None" fun ms => s!"Some({ms})"
  "EngineConfig \x7b pagination: PaginationConfig \x7b default_page_size: " ++
    toString c.pages.defaultSize ++ ", max_page_size: " ++ toString c.pages.maxSize ++
    " \x7d, query: QueryConfig \x7b timeout_ms: " ++ timeout ++
    ", predicate_cache_capacity: " ++ toString c.predicateCacheCapacity ++ " \x7d, debug: " ++
    toString c.debug ++ " \x7d"

end EngineConfig
end ContentEngine
