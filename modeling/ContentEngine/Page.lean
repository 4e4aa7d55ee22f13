import ContentEngine.Value.Json

/-!
# Pages

A page request names a page and its size, or a start and a limit; what it leaves out comes from the
limits of the configuration. `PageRequest.window` turns it into the range to fetch: sizes above the
greatest allowed one are lowered to it, and zero is refused. `PageWindow.describe` describes the page
for a number of matching documents.
-/

namespace ContentEngine

structure PageLimits where
  defaultSize : UInt32 := 25
  maxSize : UInt32 := 100
deriving DecidableEq, Repr

inductive PageError where
  | page (n : UInt32)
  | pageSize
  | limit
  | maxPageSize
deriving DecidableEq, Repr

def PageError.message : PageError → String
  | .page n => s!"page must be at least 1, got {n}"
  | .pageSize => "page size must be at least 1"
  | .limit => "limit must be at least 1"
  | .maxPageSize => "configured max page size must be at least 1"

inductive PageRequest where
  | page (number size : Option UInt32)
  | offset (start limit : Option UInt32)
deriving DecidableEq, Repr

instance : Inhabited PageRequest := ⟨.page none none⟩

structure PageWindow where
  start : UInt64
  limit : UInt32
  page : UInt32
  pageSize : UInt32
deriving DecidableEq, Repr

structure PageMeta where
  page : UInt32
  pageSize : UInt32
  pageCount : UInt64
  total : UInt64
deriving DecidableEq, Repr

/-- The page that a start falls on, counted from 1; the greatest word has no successor. -/
def pageOfStart (start limit : UInt32) : UInt32 :=
  let n := start / limit
  if n = 0xffffffff then n else n + 1

def PageRequest.window (limits : PageLimits) : PageRequest → Except PageError PageWindow
  | .page number size =>
    let max := limits.maxSize
    let number := number.getD 1
    let size := min (size.getD (min limits.defaultSize max)) max
    if max = 0 then .error .maxPageSize
    else if number = 0 then .error (.page number)
    else if size = 0 then .error .pageSize
    else .ok ⟨(number - 1).toUInt64 * size.toUInt64, size, number, size⟩
  | .offset start limit =>
    let max := limits.maxSize
    let start := start.getD 0
    let limit := min (limit.getD (min limits.defaultSize max)) max
    if max = 0 then .error .maxPageSize
    else if limit = 0 then .error .limit
    else .ok ⟨start.toUInt64, limit, pageOfStart start limit, limit⟩

/-- The number of pages, rounded up. -/
def pageCount (total : UInt64) (size : UInt32) : UInt64 :=
  if total = 0 then 0 else (total - 1) / size.toUInt64 + 1

def PageWindow.describe (w : PageWindow) (total : UInt64) : PageMeta :=
  ⟨w.page, w.pageSize, pageCount total w.pageSize, total⟩

def PageMeta.toJson (m : PageMeta) : Json :=
  .ofMembers [("page", .int m.page.toNat), ("pageSize", .int m.pageSize.toNat),
    ("pageCount", .int m.pageCount.toNat), ("total", .int m.total.toNat)]

structure PageResult (α : Type) where
  data : List α
  pageMeta : PageMeta

/-- The response: the documents under `data`, the description of the page under `meta`. -/
def PageResult.toJson (r : PageResult Document) : Json :=
  .ofMembers [("data", .arr (r.data.map Document.toJson)),
    ("meta", .ofMembers [("pagination", r.pageMeta.toJson)])]

end ContentEngine
