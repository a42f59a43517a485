import Mathlib.Data.List.AList
import Mathlib.Data.List.Infix
import Mathlib.Data.String.Basic
import BkkCollector.Config
import BkkCollector.Python.Collections
import BkkCollector.Python.Documents

/-! # The data directory

The files the archive code looks at, by their paths below the data directory. An entry says what
`lstat` sees (is it a symlink) and what following it gives, so the files behind a symlinked
directory stand at the paths they are reached by. A directory is there if something is below it.

The content of a file is any type `B`: the archive code hashes it, parses it as JSON, or hands it to
the readers of raw logs and Parquet files. -/

namespace BkkCollector.Archive.DataDir

open BkkCollector.Python.Objects BkkCollector.Python.Documents BkkCollector.Python.Collections

/-! ### Paths -/

/-- The parts of a path below the data directory. -/
abbrev Path := List String

/-- The texts between slashes. -/
def splitSlash : List Char → List (List Char)
  | [] => [[]]
  | c :: cs =>
    if c = '/' then [] :: splitSlash cs
    else
      match splitSlash cs with
      | [] => [[c]]
      | p :: ps => (c :: p) :: ps

/-- `Path(text).parts`, of a relative path. -/
def pathParts (text : String) : Path :=
  ((splitSlash text.toList).map String.ofList).filter fun part => part ≠ "" ∧ part ≠ "."

/-- `Path(text).is_absolute()`. -/
def isAbsolute (text : String) : Bool := decide (text.toList.head? = some '/')

/-- `str(path)`. -/
def pathText (path : Path) : String := "/".intercalate path

/-- `text.startswith(start)`. -/
def startsWith (start text : String) : Bool := start.toList.isPrefixOf text.toList

/-- `text.endswith(ending)`. -/
def endsWith (ending text : String) : Bool := ending.toList.isSuffixOf text.toList

/-- `text.removeprefix(start)`. -/
def removePrefix (start text : String) : String :=
  if startsWith start text then String.ofList (text.toList.drop start.toList.length) else text

/-- `text.removesuffix(ending)`. -/
def removeSuffix (ending text : String) : String :=
  if endsWith ending text then
    String.ofList (text.toList.take (text.toList.length - ending.toList.length))
  else text

/-- `path.suffix`, of a name: from its last dot, unless that is its first or last character. -/
def suffix (name : String) : String :=
  let ending := (name.toList.reverse.takeWhile (· ≠ '.')).reverse
  if ending.length + 1 < name.toList.length ∧ ending ≠ [] then String.ofList ('.' :: ending) else ""

/-! ### Files -/

/-- What is made of the content of a file. What is written as JSON is read back. -/
structure Contents (B : Type) where
  size : B → ℕ
  sha256 : B → String
  loads : B → Option Doc
  dumps : Doc → B
  loads_dumps : ∀ d, loads (dumps d) = some d
  /-- `scan_raw_log`: is the log clean, and the number of its complete records. -/
  scanRawLog : B → Except PyError (Bool × ℕ)
  /-- `parquet_row_count`. -/
  parquetRowCount : B → Except PyError ℕ
  /-- `append_jsonl`: the content with another line, the first one if there is no file. -/
  appendJsonl : Option B → Doc → B
  /-- `validate_gtfs_zip`. -/
  validateGtfsZip : B → Except PyError Unit

variable {B : Type}

/-- A regular file. -/
structure FileData (B : Type) where
  content : B
  readable : Bool := true
  device : ℕ := 0
  inode : ℕ := 0
  mtimeNs : ℕ := 0

/-- What a path leads to. -/
inductive Target (B : Type) where
  | file (f : FileData B)
  | directory

/-- A directory entry; following a dangling symlink gives nothing. -/
structure Entry (B : Type) where
  symlink : Bool := false
  target : Option (Target B)

/-- **The data directory.** -/
abbrev DataDir (B : Type) := AList fun _ : Path => Entry B

/-- `path.is_symlink()`. -/
def isSymlink (d : DataDir B) (path : Path) : Bool :=
  ((d.lookup path).map Entry.symlink).getD false

/-- The file a path leads to. -/
def fileAt (d : DataDir B) (path : Path) : Option (FileData B) :=
  match (d.lookup path).bind Entry.target with
  | some (.file f) => some f
  | _ => none

/-- `path.is_file()`. -/
def isFile (d : DataDir B) (path : Path) : Bool := (fileAt d path).isSome

/-- `path.exists()`. -/
def existsAt (d : DataDir B) (path : Path) : Bool :=
  ((d.lookup path).bind Entry.target).isSome ||
    d.keys.any fun q => path.isPrefixOf q && decide (q ≠ path)

/-- The names in a directory. -/
def iterdir (d : DataDir B) (path : Path) : List String :=
  (d.keys.filterMap fun q =>
    if path.isPrefixOf q then (q.drop path.length).head? else none).dedup

/-- `path.stat()`, of a file. -/
def stat (d : DataDir B) (path : Path) : Except PyError (FileData B) :=
  match fileAt d path with
  | some f => .ok f
  | none => .error ⟨.fileNotFoundError, pathText path⟩

/-- The content of a file. -/
def readFile (d : DataDir B) (path : Path) : Except PyError B := do
  let f ← stat d path
  if f.readable then pure f.content else throw ⟨.osError, pathText path⟩

/-- `sha256_file`. -/
def sha256File (C : Contents B) (d : DataDir B) (path : Path) : Except PyError String :=
  (readFile d path).map C.sha256

/-- `read_json`: whatever goes wrong, the caller gets the default. -/
def readJson (C : Contents B) (d : DataDir B) (path : Path) (default : Doc) : Doc :=
  match readFile d path with
  | .ok content => (C.loads content).getD default
  | .error _ => default

/-- A file in place of what was there. -/
def putFile (d : DataDir B) (path : Path) (content : B) : DataDir B :=
  d.insert path { target := some (.file { content := content }) }

/-- `append_jsonl`. -/
def appendFile (C : Contents B) (d : DataDir B) (path : Path) (value : Doc) : DataDir B :=
  putFile d path (C.appendJsonl ((fileAt d path).map FileData.content) value)

/-- `path.unlink()`. -/
def unlinkFile (d : DataDir B) (path : Path) : Except PyError (DataDir B) :=
  match d.lookup path with
  | none => .error ⟨.fileNotFoundError, pathText path⟩
  | some entry =>
    match entry.symlink, entry.target with
    | false, some .directory => .error ⟨.osError, pathText path⟩
    | _, _ => .ok (d.erase path)

/-- `os.replace`. -/
def replaceFile (d : DataDir B) (source target : Path) : Except PyError (DataDir B) :=
  match d.lookup source with
  | some entry => .ok ((d.erase source).insert target entry)
  | none => .error ⟨.fileNotFoundError, pathText source⟩

/-- `path.rglob("*")`: what is below a directory, not behind a symlink. -/
def rglob (d : DataDir B) (root : Path) : List Path :=
  d.keys.filter fun q => root.isPrefixOf q && decide (q ≠ root) &&
    q.dropLast.inits.all fun p => decide (p.length ≤ root.length) || !isSymlink d p

/-- `safe_path`. -/
def safePath (d : DataDir B) (relative : String) : Except PyError Path :=
  let parts := pathParts relative
  if isAbsolute relative || parts.isEmpty || decide (".." ∈ parts) ||
      decide (pathText parts ≠ relative) then
    .error ⟨.valueError, "unsafe artifact path"⟩
  else if parts.inits.tail.any (isSymlink d) then
    .error ⟨.valueError, "symlink in artifact path: " ++ relative⟩
  else .ok parts

/-! ### Small lemmas -/

@[simp] theorem fileAt_putFile (d : DataDir B) (path : Path) (content : B) :
    fileAt (putFile d path content) path = some { content := content } := by
  simp [fileAt, putFile]

theorem lookup_putFile {d : DataDir B} {path q : Path} {content : B} (h : q ≠ path) :
    (putFile d path content).lookup q = d.lookup q := AList.lookup_insert_ne h

@[simp] theorem readFile_putFile (d : DataDir B) (path : Path) (content : B) :
    readFile (putFile d path content) path = .ok content := by
  simp [readFile, stat, bind, Except.bind, pure, Except.pure]

/-- What is written as JSON is read back. -/
@[simp] theorem readJson_putFile (C : Contents B) (d : DataDir B) (path : Path) (v default : Doc) :
    readJson C (putFile d path (C.dumps v)) path default = v := by
  simp [readJson, C.loads_dumps]

/-- What a path leads to depends on its own entry. -/
theorem fileAt_congr {d e : DataDir B} {path : Path} (h : d.lookup path = e.lookup path) :
    fileAt d path = fileAt e path := by
  rw [fileAt, fileAt, h]

theorem stat_congr {d e : DataDir B} {path : Path} (h : d.lookup path = e.lookup path) :
    stat d path = stat e path := by
  rw [stat, stat, fileAt_congr h]

theorem readFile_congr {d e : DataDir B} {path : Path} (h : d.lookup path = e.lookup path) :
    readFile d path = readFile e path := by
  rw [readFile, readFile, stat_congr h]

theorem readJson_congr (C : Contents B) {d e : DataDir B} {path : Path} (default : Doc)
    (h : d.lookup path = e.lookup path) : readJson C d path default = readJson C e path default := by
  rw [readJson, readJson, readFile_congr h]

/-- The paths of a directory. -/
def Has (d : DataDir B) (path : Path) : Prop := ∃ q ∈ d, path <+: q

/-- What is in a directory: the next parts of the paths that go through it. -/
theorem mem_iterdir {d : DataDir B} {path : Path} {name : String} :
    name ∈ iterdir d path ↔ Has d (path ++ [name]) := by
  rw [iterdir, List.mem_dedup, List.mem_filterMap]
  constructor
  · rintro ⟨q, hq, h⟩
    split_ifs at h with hpath
    obtain ⟨rest, rfl⟩ := List.isPrefixOf_iff_prefix.mp hpath
    rw [List.drop_left] at h
    obtain ⟨tail, rfl⟩ := List.head?_eq_some_iff.mp h
    exact ⟨_, hq, tail, by simp⟩
  · rintro ⟨q, hq, tail, rfl⟩
    refine ⟨_, hq, ?_⟩
    have hpath : path.isPrefixOf (path ++ [name] ++ tail) = true :=
      List.isPrefixOf_iff_prefix.mpr ⟨[name] ++ tail, by simp⟩
    rw [if_pos hpath]
    simp

theorem Has.of_stem {d : DataDir B} {path q : Path} (h : Has d q) (hp : path <+: q) :
    Has d path := by
  obtain ⟨r, hr, hq⟩ := h
  exact ⟨r, hr, hp.trans hq⟩

theorem has_of_isFile {d : DataDir B} {path : Path} (h : isFile d path = true) : Has d path := by
  refine ⟨path, ?_, List.prefix_rfl⟩
  by_contra hnot
  rw [← AList.lookup_eq_none] at hnot
  simp [isFile, fileAt, hnot] at h

theorem existsAt_of_below {d : DataDir B} {path : Path} {name : String}
    (h : Has d (path ++ [name])) : existsAt d path = true := by
  obtain ⟨q, hq, tail, rfl⟩ := h
  have hbelow : (d.keys.any fun q => path.isPrefixOf q && decide (q ≠ path)) = true := by
    refine List.any_eq_true.mpr ⟨_, hq, ?_⟩
    have hpath : path.isPrefixOf (path ++ [name] ++ tail) = true :=
      List.isPrefixOf_iff_prefix.mpr ⟨[name] ++ tail, by simp⟩
    have hne : path ++ [name] ++ tail ≠ path := by
      intro heq
      have := congrArg List.length heq
      simp at this
    rw [hpath, decide_eq_true hne]
    rfl
  unfold existsAt
  rw [hbelow, Bool.or_true]

end BkkCollector.Archive.DataDir
