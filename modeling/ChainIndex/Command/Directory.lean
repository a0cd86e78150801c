import ChainIndex.Store.Table

/-!
# Directories

The files that a command works on. A file holds bytes or a database. Paths are told apart
by their parts, so `./a` and `a` are one. A path below a folder that is not there leads
nowhere, and nothing can be put there.

The name of a database may be a path, or a locator with a scheme: `sqlite:path?mode=rwc`.
A path is short for a locator that creates the file if it is missing. In a locator bytes
may be written as `%` with two hexadecimal digits. Without a path, and with `:memory:`,
the database lasts as long as the command.

## Main definitions

* `Directory`: Files and folders by path.
* `Directory.lookup`, `Directory.put`: What a file holds, and changing it.
* `DatabasePlace`: Where a database is.
* `Directory.openDatabase?`: The database at a place.
-/

namespace ChainIndex

/-- What a file holds. -/
inductive FileContent where
  /-- Bytes. -/
  | bytes (content : ByteArray)
  /-- A database. -/
  | database (store : TableStore)

/-- Files and folders, by the parts of their paths. -/
structure Directory where
  /-- The files. -/
  files : List (List String × FileContent)
  /-- Folders that are known to be there besides those that hold files. -/
  folders : List (List String)

namespace Directory

/-- The parts of a path. One that starts at the root has an empty part first. -/
def parts (path : String) : List String :=
  let named := (path.splitOn "/").filter fun part => part != "" && part != "."
  if path.startsWith "/" then "" :: named else named

/-- Does a path end in a way that only a folder can have? -/
def endsInFolder (path : String) : Bool :=
  path.endsWith "/" || path.endsWith "/." || path == "."

/-- Is there a folder with these parts? -/
def hasFolder (directory : Directory) (parts : List String) : Bool :=
  parts.isEmpty || directory.folders.contains parts
    || directory.files.any fun (file, _) => parts.isPrefixOf file && parts.length < file.length

/-- What the file at a path holds. -/
def lookup (directory : Directory) (path : String) : Option FileContent :=
  if endsInFolder path then none else directory.files.lookup (parts path)

/-- Is there anything at a path? -/
def exists? (directory : Directory) (path : String) : Bool :=
  path != "" && ((directory.lookup path).isSome || directory.hasFolder (parts path))

/-- Can a file be at a path? -/
def canHold (directory : Directory) (path : String) : Bool :=
  let parts := parts path
  !endsInFolder path && !directory.hasFolder parts && directory.hasFolder parts.dropLast

/-- Puts a file at a path, in place of one that is there. -/
def put (directory : Directory) (path : String) (content : FileContent) : Directory :=
  let parts := parts path
  { directory with
    files := (parts, content) :: directory.files.filter fun (other, _) => other != parts }

end Directory

/-! ## Databases -/

/-- Where a database is. -/
inductive DatabasePlace where
  /-- Nowhere: it lasts as long as the command. -/
  | memory
  /-- In a file, which may be created if it is missing. -/
  | file (path : String) (create : Bool)
deriving DecidableEq, Repr

namespace DatabasePlace

/-- The byte that three bytes are written for: `%` and two hexadecimal digits. -/
def escapedByte? (mark high low : UInt8) : Option UInt8 := do
  let h ← Json.hexValue? (Char.ofNat high.toNat)
  let l ← Json.hexValue? (Char.ofNat low.toNat)
  if mark.toNat = '%'.toNat then return UInt8.ofNat (16 * h + l) else none

/-- Bytes in which those that are written as `%` and two digits are put in. -/
def unescape : List UInt8 → List UInt8
  | mark :: high :: low :: rest =>
    match escapedByte? mark high low with
    | some byte => byte :: unescape rest
    | none => mark :: unescape (high :: low :: rest)
  | byte :: rest => byte :: unescape rest
  | [] => []

/-- A text with escapes. -/
def unescapeText? (text : String) : Option String :=
  String.fromUTF8? ⟨(unescape text.toUTF8.toList).toArray⟩

/-- A text behind as many of some beginnings as it has. -/
def dropAll (start : List Char) : Nat → List Char → List Char
  | 0, text => text
  | fuel + 1, text =>
    if start.isPrefixOf text then dropAll start fuel (text.drop start.length) else text

/-- Takes one parameter of a locator into account. -/
def withParameter (place : DatabasePlace) (parameter : String) : Option DatabasePlace :=
  let name := String.ofList (parameter.toList.takeWhile fun c => c != '=')
  let value := String.ofList ((parameter.toList.dropWhile fun c => c != '=').drop 1)
  match name, value, place with
  -- A database in memory stays there, whatever is said later.
  | "mode", "memory", _ => some .memory
  | "mode", "rwc", .file path _ => some (.file path true)
  | "mode", "rwc", .memory => some .memory
  | "mode", value, place => if value == "ro" || value == "rw" then some place else none
  | "cache", value, place => if value == "private" || value == "shared" then some place else none
  | "immutable", value, place =>
    if ["true", "1", "false", "0"].contains value then some place else none
  | _, _, _ => none

/-- The place that a locator without its scheme leads to. -/
def ofLocator? (text : List Char) : Option DatabasePlace := do
  let path ← unescapeText? (String.ofList (text.takeWhile fun c => c != '?'))
  let parameters := String.ofList ((text.dropWhile fun c => c != '?').drop 1)
  -- A locator opens what is there, unless it says that the file may be created.
  let place : DatabasePlace := if path == ":memory:" then .memory else .file path false
  let place ← ((parameters.splitOn "&").filter fun p => p != "").foldlM withParameter place
  match place with
  | .file "" _ => return .memory
  | place => return place

/-- The place that the name of a database leads to. -/
def ofName? (name : String) : Option DatabasePlace :=
  let scheme := "sqlite:".toList
  let text := if name.startsWith "sqlite:" then name.toList else name.toList ++ "?mode=rwc".toList
  ofLocator? (dropAll scheme text.length (dropAll (scheme ++ ['/', '/']) text.length text))

end DatabasePlace

/-- The database at a place. A file without content is one without rows. -/
def Directory.openDatabase? (directory : Directory) : DatabasePlace → Option TableStore
  | .memory => some .empty
  | .file path create =>
    match directory.lookup path with
    | some (.database store) => some store
    | some (.bytes content) => if content.size = 0 then some .empty else none
    | none => if create && directory.canHold path then some .empty else none

/-- Keeps a database at its place. -/
def Directory.saveDatabase (directory : Directory) (store : TableStore) :
    DatabasePlace → Directory
  | .memory => directory
  | .file path _ => directory.put path (.database store)

end ChainIndex
