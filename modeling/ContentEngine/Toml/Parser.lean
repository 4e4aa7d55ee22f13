import ContentEngine.Toml.Basic

/-!
# Reading TOML

A TOML document is read as the list of its statements: settings, and the headers that open tables.
Which statements go together is left to the reader of a particular document. `fuel` bounds the
recursion, and the length of the text is enough.
-/

namespace ContentEngine.Toml

inductive Statement where
  | setting (path : List String) (value : Toml)
  | header (path : List String)
  /-- Opens the next table of an array of tables. -/
  | arrayHeader (path : List String)
deriving Repr

/-- No key of an inline table is set twice, or set and extended. -/
def distinctKeys : List (List String × Toml) → Bool
  | [] => true
  | (path, _) :: rest =>
    rest.all (fun e => !path.isPrefixOf e.1 && !e.1.isPrefixOf path) && distinctKeys rest

mutual
def value? (fuel depth : Nat) (s : List Char) : Option (Toml × List Char) :=
  match fuel with
  | 0 => none
  | fuel + 1 =>
    match s with
    | [] => none
    | c :: r =>
      if c = '"' ∨ c = '\x27' then (quoted? s).map fun (t, r) => (.str t, r)
      else if c = 't' then (after? "rue" r).map fun r => (.bool true, r)
      else if c = 'f' then (after? "alse" r).map fun r => (.bool false, r)
      else if c = '[' then
        match depth with
        | 0 => none
        | depth + 1 => (items? fuel depth r).map fun (l, r) => (.arr l, r)
      else if c = '\x7b' then
        match depth, skipSpace r with
        | 0, _ => none
        | _, '\x7d' :: r => some (.table [], r)
        | depth + 1, r => do
          let (entries, r) ← entries? fuel depth r
          if distinctKeys entries then some (.table entries, r) else none
      else number? s

/-- The items of an array up to its closing bracket; a comma may stand behind the last one. -/
def items? (fuel depth : Nat) (s : List Char) : Option (List Toml × List Char) :=
  match fuel with
  | 0 => none
  | fuel + 1 =>
    match skipLines s.length s with
    | ']' :: r => some ([], r)
    | s =>
      match value? fuel depth s with
      | none => none
      | some (v, s) =>
        match skipLines s.length s with
        | ',' :: s => (items? fuel depth s).map fun (l, r) => (v :: l, r)
        | ']' :: s => some ([v], s)
        | _ => none

/-- The entries of an inline table up to its closing brace, at least one, on one line. -/
def entries? (fuel depth : Nat) (s : List Char) :
    Option (List (List String × Toml) × List Char) :=
  match fuel with
  | 0 => none
  | fuel + 1 =>
    match key? s with
    | some (path, '=' :: s) =>
      match value? fuel depth (skipSpace s) with
      | none => none
      | some (v, s) =>
        match skipSpace s with
        | ',' :: s => (entries? fuel depth s).map fun (l, r) => ((path, v) :: l, r)
        | '\x7d' :: s => some ([(path, v)], s)
        | _ => none
    | _ => none
end

def statement? (s : List Char) : Option (Statement × List Char) :=
  let fuel := s.length + 1
  match s with
  | '[' :: '[' :: r =>
    match key? r with
    | some (path, ']' :: ']' :: r) => (endOfLine? r).map (.arrayHeader path, ·)
    | _ => none
  | '[' :: r =>
    match key? r with
    | some (path, ']' :: r) => (endOfLine? r).map (.header path, ·)
    | _ => none
  | s =>
    match key? s with
    | some (path, '=' :: r) => do
      let (v, r) ← value? fuel maxDepth (skipSpace r)
      return (.setting path v, ← endOfLine? r)
    | _ => none

def statements? : Nat → List Char → Option (List Statement)
  | 0, _ => none
  | fuel + 1, s =>
    match skipLines s.length s with
    | [] => some []
    | s => do
      let (st, r) ← statement? s
      return st :: (← statements? fuel r)

/-- The statements of a document; a byte order mark may stand before them. -/
def parse? (text : String) : Option (List Statement) :=
  let s :=
    match text.toList with
    | '\ufeff' :: s => s
    | s => s
  statements? (s.length + 1) s

end ContentEngine.Toml
