import Casebook.Toml.Scalar

/-!
# TOML documents

A document is a list of entries under headers. A header opens a table, or one more table of a list
of tables; a dotted key leads through tables of its own. No table is opened twice, and none that a
dotted key made can be opened by a header.
-/

namespace Casebook.Toml

/-! ## Values -/

/-- How deep lists and tables may nest inside a value. -/
def depthLimit : Nat := 79

/-- How many parts a key may have. -/
def keyLimit : Nat := 79

mutual

/-- What stands under a key. -/
inductive Item where
  | value (v : Value)
  | table (t : Table)
  /-- The tables of a list of tables. -/
  | tables (ts : List Table)

/-- A table. It is implicit while it is only known from keys that lead through it, and dotted if
these were keys of entries rather than headers. -/
inductive Table where
  | mk (isImplicit isDotted : Bool) (entries : List (String × Item))

end

namespace Table

/-- A table without entries. -/
def empty (isImplicit isDotted : Bool) : Table :=
  .mk isImplicit isDotted []

/-- Whether a table is only known from keys that lead through it. -/
def isImplicit : Table → Bool
  | .mk b _ _ => b

/-- Whether a table was made by the keys of entries. -/
def isDotted : Table → Bool
  | .mk _ b _ => b

/-- The entries of a table. -/
def entries : Table → List (String × Item)
  | .mk _ _ es => es

/-- Put an item under a key. -/
def insert (t : Table) (key : String) (item : Item) : Table :=
  .mk t.isImplicit t.isDotted (Dict.insert t.entries key item)

/-- The item under a key. -/
def get? (t : Table) (key : String) : Option Item :=
  Dict.get? t.entries key

/-- Change the table that a path leads to, making the tables on the way. Dotted keys lead through no
table that was opened by a header, and nothing leads through a value. -/
def change (dotted : Bool) (f : Table → Option Table) : List String → Table → Option Table
  | [], t => f t
  | key :: rest, t =>
    match t.get? key with
    | none => do return t.insert key (.table (← change dotted f rest (empty true dotted)))
    | some (.value _) => none
    | some (.table inner) =>
      if dotted && !inner.isImplicit then none
      else do return t.insert key (.table (← change dotted f rest inner))
    | some (.tables ts) =>
      match ts.getLast? with
      | none => none
      | some last => do
        return t.insert key (.tables (ts.dropLast ++ [← change dotted f rest last]))

/-- Add an entry under a new key. -/
def addEntry (path : List String) (key : String) (v : Value) (t : Table) : Option Table :=
  if t.isDotted == path.isEmpty || (t.get? key).isSome then none else some (t.insert key (.value v))

/-- Set an entry under a dotted key. -/
def set (t : Table) (key : List String) (v : Value) : Option Table :=
  match key.getLast? with
  | none => none
  | some last => t.change true (addEntry key.dropLast last v) key.dropLast

/-- Open the table under a key, which was not opened before. -/
def openHere (key : String) (t : Table) : Option Table :=
  match t.get? key with
  | none => some (t.insert key (.table (empty false false)))
  | some (.table (.mk true false es)) => some (t.insert key (.table (.mk false false es)))
  | some _ => none

/-- Begin one more table of the list under a key. -/
def appendHere (key : String) (t : Table) : Option Table :=
  match t.get? key with
  | none => some (t.insert key (.tables [empty false false]))
  | some (.tables ts) => some (t.insert key (.tables (ts ++ [empty false false])))
  | some _ => none

mutual

/-- The value of an item. -/
def itemValue : Item → Value
  | .value v => v
  | .table t => toValue t
  | .tables ts => .array (tableValues ts)

/-- The value of a table. -/
def toValue : Table → Value
  | .mk _ _ es => .object (entryValues es)

/-- The values of entries. -/
def entryValues : List (String × Item) → List (String × Value)
  | [] => []
  | (key, item) :: rest => (key, itemValue item) :: entryValues rest

/-- The values of tables. -/
def tableValues : List Table → List Value
  | [] => []
  | t :: rest => toValue t :: tableValues rest

end

end Table

/-! ## Reading values -/

/-- The text behind blanks, breaks and comments inside a list, where at most so many characters are
left. -/
def skipGap : Nat → List Char → List Char
  | 0, s => s
  | n + 1, s =>
    let s := skipComment (skipBlanks s)
    match lineBreak? s with
    | some rest => skipGap n rest
    | none => s

/-- A word in front of a text. -/
def word? (w : String) (v : Value) (s : List Char) : Option (Value × List Char) :=
  if w.toList.isPrefixOf s then some (v, s.drop w.length) else none

/-- A value that holds no others. -/
def scalar? (s : List Char) : Option (Value × List Char) :=
  match s with
  | [] => none
  | c :: _ =>
    if c = '"' ∨ c = '\'' then (string? s).map fun r => (.string r.1, r.2)
    else if c = 't' then word? "true" (.bool true) s
    else if c = 'f' then word? "false" (.bool false) s
    else if c = 'i' ∨ c = 'n' then special? s
    else if startsMoment s then moment? s
    else if c = '+' ∨ c = '-' ∨ Decimal.isDigit c then (float? s).or (integer? s)
    else none

mutual

/-- A value whose lists and tables may nest so deep, read with so much fuel. -/
def value? : Nat → (depth : Nat) → List Char → Option (Value × List Char)
  | 0, _, _ => none
  | n + 1, depth, s =>
    match s, depth with
    | '[' :: rest, depth + 1 => do
      let (items, rest) ← items? n depth rest
      return (.array items, rest)
    | '\x7b' :: rest, depth + 1 => do
      match skipBlanks rest with
      | '\x7d' :: rest => return (.object [], rest)
      | rest =>
        let (t, rest) ← inlineEntries? n depth (Table.empty false false) rest
        return (t.toValue, rest)
    | s, _ => scalar? s

/-- The items of a list, behind its opening bracket or a comma. -/
def items? : Nat → (depth : Nat) → List Char → Option (List Value × List Char)
  | 0, _, _ => none
  | n + 1, depth, s =>
    match skipGap s.length s with
    | ']' :: rest => some ([], rest)
    | s => do
      let (v, rest) ← value? n depth s
      match skipGap rest.length rest with
      | ',' :: rest =>
        let (more, rest) ← items? n depth rest
        return (v :: more, rest)
      | ']' :: rest => return ([v], rest)
      | _ => none

/-- The entries of a table on one line, behind its opening brace or a comma. -/
def inlineEntries? : Nat → (depth : Nat) → Table → List Char → Option (Table × List Char)
  | 0, _, _, _ => none
  | n + 1, depth, t, s => do
    let (key, rest) ← key? keyLimit s
    let rest ← expect? '=' rest
    let (v, rest) ← value? n depth (skipBlanks rest)
    let t ← t.set key v
    match skipBlanks rest with
    | ',' :: rest => inlineEntries? n depth t rest
    | '\x7d' :: rest => return (t, rest)
    | _ => none

end

/-! ## Reading documents -/

/-- A document that is being read: all tables, and the path of the one that is open. -/
structure Progress where
  root : Table
  here : List String

/-- The text behind the end of a line, where nothing but a comment may be left. -/
def endLine? (s : List Char) : Option (List Char) :=
  let s := skipComment (skipBlanks s)
  if s.isEmpty then some [] else lineBreak? s

/-- Read a header, behind its opening bracket. -/
def header? (p : Progress) (s : List Char) : Option (Progress × List Char) :=
  match s with
  | '[' :: rest => do
    let (key, rest) ← key? keyLimit rest
    let rest ← expect? ']' (← expect? ']' rest)
    let root ← p.root.change false (Table.appendHere (key.getLastD "")) key.dropLast
    return ({ root, here := key }, rest)
  | rest => do
    let (key, rest) ← key? keyLimit rest
    let rest ← expect? ']' rest
    let root ← p.root.change false (Table.openHere (key.getLastD "")) key.dropLast
    return ({ root, here := key }, rest)

/-- Read an entry of the open table. -/
def entry? (p : Progress) (s : List Char) : Option (Progress × List Char) := do
  let (key, rest) ← key? keyLimit s
  let rest ← expect? '=' rest
  let (v, rest) ← value? (2 * rest.length + 2) depthLimit (skipBlanks rest)
  let root ← p.root.change false (fun t => t.set key v) p.here
  return ({ p with root }, rest)

/-- Read all lines, where at most so many are left. -/
def lines? : Nat → Progress → List Char → Option Progress
  | 0, _, _ => none
  | n + 1, p, s =>
    match skipBlanks s with
    | [] => some p
    | '[' :: rest => do
      let (p, rest) ← header? p rest
      lines? n p (← endLine? rest)
    | c :: rest =>
      if c = '#' ∨ c = '\n' ∨ c = '\r' then do lines? n p (← endLine? (c :: rest))
      else do
        let (p, rest) ← entry? p (c :: rest)
        lines? n p (← endLine? rest)

/-- The value that a text is in TOML, an object; none if it is no document. -/
def read? (text : String) : Option Value := do
  let s := match text.toList with
    | '\uFEFF' :: rest => rest
    | other => other
  let p ← lines? (s.length + 1) ⟨.empty false false, []⟩ s
  return p.root.toValue

end Casebook.Toml
