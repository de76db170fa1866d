import LoxLang.Bindings
import LoxLang.Toml.Reader

/-!
The tree that the items of a settings file build.  A key is given one value.
Tables that only the names of other tables or of dotted keys imply may still be
opened once, and what was last written as an array may be written anew.
-/

namespace LoxLang.Toml

inductive Node where
  | text (value : Bytes)
  | boolean (value : Bool)
  | scalar
  | array
  | table (entries : List (Bytes × Node))
  /-- An array of tables, of which the last is open. -/
  | tables (last : List (Bytes × Node))

namespace Node

def entries? : Node → Option (Bindings Node)
  | .table entries => some entries
  | .tables last => some last
  | _ => none

def withEntries : Node → Bindings Node → Node
  | .tables _, entries => .tables entries
  | _, entries => .table entries

def isArray : Node → Bool
  | .array => true
  | _ => false

end Node

/-- The tree so far, the tables in it that are only implied, and the keys last
written as arrays. -/
structure Document where
  entries : Bindings Node
  implied : List Key
  arrays : List Key

namespace Document

def empty : Document := ⟨[], [], []⟩

/-- The entries of the table at a path. -/
def entriesAt? (entries : Bindings Node) : Key → Option (Bindings Node)
  | [] => some entries
  | part :: path => do
      let node ← entries.get? part
      entriesAt? (← node.entries?) path

/-- Give an entry of the table at a path a value. -/
def insertAt? (name : Bytes) (value : Node) : Key → Bindings Node → Option (Bindings Node)
  | [], entries => some (entries.insert name value)
  | part :: path, entries => do
      let node ← entries.get? part
      let inner ← insertAt? name value path (← node.entries?)
      return entries.insert part (node.withEntries inner)

def imply (document : Document) (path : Key) : Document :=
  { document with implied := path :: document.implied.filter (· != path) }

def settle (document : Document) (path : Key) : Document :=
  { document with implied := document.implied.filter (· != path) }

/-- The key that the form of an entry is noted under.  An entry without a name
counts as its table, and one outside all tables as itself. -/
def formKey (path : Key) (name : Bytes) : Key :=
  if !name.isEmpty then path ++ [name] else if path.isEmpty then [name] else path

/-- Note whether an entry is written as an array. -/
def noteForm (document : Document) (key : Key) (isArray : Bool) : Document :=
  let others := document.arrays.filter (· != key)
  { document with arrays := if isArray then key :: others else others }

/-- Define an entry of the table at a path.  What is noted as an array gives
way, and an implied table becomes definite; any other earlier definition is an
error. -/
def define? (document : Document) (path : Key) (name : Bytes) (value : Node) :
    Option Document := do
  let entries ← entriesAt? document.entries path
  let whole := path ++ [name]
  let inserted := insertAt? name value path document.entries
  match entries.get? name with
  | none => return { document with entries := ← inserted }
  | some _ =>
      if document.arrays.contains whole then
        return { document with entries := ← inserted }.settle whole
      else if document.implied.contains whole then
        return document.settle whole
      else
        none

/-- Make sure that the tables along a path exist. -/
def ensure? (document : Document) (path : Key) : Key → Option Document
  | [] => some document
  | part :: rest => do
      let entries ← entriesAt? document.entries path
      let whole := path ++ [part]
      match entries.get? part with
      | none =>
          let inserted ← insertAt? part (.table []) path document.entries
          ({ document with entries := inserted }.imply whole).ensure? whole rest
      | some node =>
          if node.entries?.isSome then document.ensure? whole rest else none

/-- Split a key into the path to its table and its last part. -/
def splitLast (key : Key) : Key × Bytes :=
  (key.dropLast, key.getLastD [])

def openTable? (document : Document) (key : Key) : Option Document := do
  let (path, name) := splitLast key
  (← document.ensure? [] path).define? path name (.table [])

def openNext? (document : Document) (key : Key) : Option Document := do
  let (path, name) := splitLast key
  let document ← document.ensure? [] path
  let entries ← entriesAt? document.entries path
  match entries.get? name with
  | none | some (.tables _) =>
      return { document with entries := ← insertAt? name (.tables []) path document.entries }
  | some _ => none

/-- Enter the tables that the leading parts of a dotted key name. -/
def enter? (document : Document) (path : Key) : Key → Option Document
  | [] => some document
  | part :: rest => do
      let whole := path ++ [part]
      (← (document.imply whole).openTable? whole).enter? whole rest

/-- Give an entry its value and note its form. -/
def set? (document : Document) (path : Key) (name : Bytes) (value : Node) : Option Document := do
  return (← document.define? path name value).noteForm (formKey path name) value.isArray

/-- Put a value under a dotted key of a table between braces, making the tables
on the way. -/
def putInline? (name : Bytes) (value : Node) : Key → Bindings Node → Option (Bindings Node)
  | [], entries => some (entries.insert name value)
  | part :: path, entries => do
      let inner ← match entries.get? part with
        | none => some []
        | some (.table inner) => some inner
        | some _ => none
      return entries.insert part (.table (← putInline? name value path inner))

mutual

/-- The value of what is written for an entry.  Tables between braces are
opened at their place in the tree; those inside an array one after the other. -/
def evaluate? : Document → Key → Bytes → Bool → Written → Option (Node × Document)
  | document, _, _, _, .text text => some (.text text, document)
  | document, _, _, _, .boolean value => some (.boolean value, document)
  | document, _, _, _, .scalar => some (.scalar, document)
  | document, path, name, _, .array elements => do
      let document := document.noteForm (formKey path name) true
      return (.array, ← evaluateElements? document path name elements)
  | document, path, name, inArray, .inline entries => do
      let whole := path ++ [name]
      let document := document.imply whole
      let document ← if inArray then document.openNext? whole else document.openTable? whole
      let (inner, document) ← evaluateEntries? document whole [] entries
      return (.table inner, document)

def evaluateElements? : Document → Key → Bytes → List Written → Option Document
  | document, _, _, [] => some document
  | document, path, name, first :: rest => do
      let (_, document) ← evaluate? document path name true first
      evaluateElements? document path name rest

/-- The entries between braces, given those before them. -/
def evaluateEntries? : Document → Key → Bindings Node → List (Key × Written) →
    Option (Bindings Node × Document)
  | document, _, done, [] => some (done, document)
  | document, path, done, (key, value) :: rest => do
      let (parts, name) := splitLast key
      let document ← document.enter? path parts
      let (node, document) ← evaluate? document (path ++ parts) name false value
      let document ← document.set? (path ++ parts) name node
      evaluateEntries? document path (← putInline? name node parts done) rest

end

/-- Assign a value to a dotted key inside the table at a path. -/
def assign? (document : Document) (path : Key) (key : Key) (value : Written) :
    Option Document := do
  let (parts, name) := splitLast key
  let document ← document.enter? path parts
  let (node, document) ← evaluate? document (path ++ parts) name false value
  document.set? (path ++ parts) name node

/-- Add items, the table at `path` being open. -/
def addItems? : Document → Key → List Item → Option Document
  | document, _, [] => some document
  | document, path, .assignment key value :: rest => do
      addItems? (← document.assign? path key value) path rest
  | document, _, .table key :: rest => do
      addItems? ((← document.openTable? key).noteForm key false) key rest
  | document, _, .tableArray key :: rest => do
      addItems? ((← document.openNext? key).noteForm key false) key rest

end Document

/-- The entries of a settings file outside all tables. -/
def parse? (text : Bytes) : Option (Bindings Node) := do
  let items ← read? text
  let document ← Document.addItems? .empty [] items
  return document.entries

end LoxLang.Toml
