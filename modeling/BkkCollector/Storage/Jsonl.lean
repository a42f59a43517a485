import Mathlib.Data.List.Sort
import BkkCollector.Logic.Lines
import BkkCollector.Python.Documents
import BkkCollector.Python.Text
import BkkCollector.Storage.AtomicIo

/-! # Journals of JSON lines

`append_jsonl` writes one line, `iter_jsonl` reads all of them. The writer never looks at what
stands before its line; the reader decodes the whole file, and skips a line that does not parse. -/

namespace BkkCollector.Storage.Jsonl

open BkkCollector.Logic.Program BkkCollector.Logic.Lines BkkCollector.Python.Objects
open BkkCollector.Python.Documents BkkCollector.Python.Text BkkCollector.Storage.AtomicIo

/-! ### JSON text -/

mutual

/-- The same document, its objects in the order of their keys. -/
def sortKeys : Doc → Doc
  | .list items => .list (sortItems items)
  | .dict members => .dict ((sortMembers members).insertionSort fun a b => a.1 ≤ b.1)
  | d => d

/-- The items of a list, with their keys sorted. -/
def sortItems : List Doc → List Doc
  | [] => []
  | d :: ds => sortKeys d :: sortItems ds

/-- The members of an object, with their own keys sorted. -/
def sortMembers : List (String × Doc) → List (String × Doc)
  | [] => []
  | (k, d) :: ms => (k, sortKeys d) :: sortMembers ms

end

/-- The `json` module: `dumps` with `ensure_ascii=False`, `sort_keys=True` and no blanks, and
`loads` of a text, which gives nothing where it raises `ValueError`. A line end within a string is
escaped. -/
structure JsonModule where
  dumps : Doc → Except PyError (List Char)
  dumps_error : ∀ d e, dumps d = .error e → e.type = .typeError
  loads : List Char → Option Doc
  loads_dumps : ∀ d text, dumps d = .ok text → loads (text ++ ['\n']) = some (sortKeys d)
  dumps_newline : ∀ d text, dumps d = .ok text → '\n' ∉ text ∧ '\r' ∉ text

/-- The line `append_jsonl` writes. -/
def jsonLine (json : JsonModule) (value : Doc) : Except PyError (List Char) :=
  (json.dumps value).map (· ++ ['\n'])

/-! ### Appending -/

/-- The file operations of `append_jsonl`. -/
inductive AppendOp where
  | mkdir
  | exists
  | open
  | write (line : Bytes)
  | fsync
  deriving DecidableEq

variable {σ ω : Type}

/-- Writing at the end of a file; a failing write leaves any prefix, all of it included. -/
def appendBytes (label : AppendOp → ω) (modify : (Option Bytes → Option Bytes) → σ → σ)
    (line : Bytes) : FsProg σ ω Unit :=
  fsStep (label (.write line)) (fun s => .ok (modify (·.map (· ++ line)) s, ()))
    fun n s => modify (·.map (· ++ line.take n)) s

/-- Opening a file for appending, writing and syncing it. -/
def appendLine (label : AppendOp → ω) (modify : (Option Bytes → Option Bytes) → σ → σ)
    (line : Bytes) : FsProg σ ω Unit := do
  fsOp (label .open) (modify fun file => some (file.getD []))
  appendBytes label modify line
  fsOp (label .fsync) id

/-- `append_jsonl` to the file `get`. The best-effort `fsync_directory` changes nothing and raises
nothing. -/
def appendJsonl (json : JsonModule) (label : AppendOp → ω) (get : σ → Option Bytes)
    (modify : (Option Bytes → Option Bytes) → σ → σ) (value : Doc) : FsProg σ ω Unit := do
  fsOp (label .mkdir) id
  let _existed ← fsRead (label .exists) fun s => .ok (get s).isSome
  match jsonLine json value with
  | .error e => throw e
  | .ok line => appendLine label modify (encodeUtf8 line)

section Rules

variable {admits : ω → Choice → σ → Prop} {guarantee : σ → σ → Prop} {post : Unit → σ → Prop}
  {exc : PyError → σ → Prop} {label : AppendOp → ω}
  {modify : (Option Bytes → Option Bytes) → σ → σ} {s : σ}

/-- **The rule of an append**: `t` is the state with the file open, `u` that with the line in it. -/
theorem alone_appendLine {line : Bytes} {t u : σ} (hskip : guarantee s s ∧ exc ioError s)
    (ht : modify (fun file => some (file.getD [])) s = t) (hopen : guarantee s t)
    (hu : modify (·.map (· ++ line)) t = u) (hwrite : guarantee t u)
    (htorn : ∀ n, admits (label (.write line)) (.fault n) t →
      guarantee t (modify (·.map (· ++ line.take n)) t) ∧
        exc ioError (modify (·.map (· ++ line.take n)) t))
    (hwritten : guarantee u u ∧ exc ioError u) (hpost : post () u) :
    Ensures (Contract.alone admits guarantee) post exc (appendLine label modify line) s := by
  refine Ensures.through (fun _ v => v = t) (alone_fsOp (fun _ => ?_) hskip) fun _ v hv => ?_
  · rw [ht]
    exact ⟨hopen, rfl⟩
  subst hv
  refine Ensures.through (fun _ w => w = u) ?_ fun _ w hw => ?_
  · refine alone_fsStep (fun r _ hr => ?_) (fun e he => ?_) htorn
    · cases hr
      dsimp only
      rw [hu]
      exact ⟨hwrite, rfl⟩
    · cases he
  subst hw
  exact alone_fsOp (fun _ => ⟨hwritten.1, hpost⟩) hwritten

/-- The rule of `append_jsonl`. -/
theorem alone_appendJsonl {json : JsonModule} {get : σ → Option Bytes} {value : Doc}
    (hskip : guarantee s s ∧ exc ioError s) (hdumps : ∀ e, e.type = .typeError → exc e s)
    (hline : ∀ line, jsonLine json value = .ok line →
      Ensures (Contract.alone admits guarantee) post exc
        (appendLine label modify (encodeUtf8 line)) s) :
    Ensures (Contract.alone admits guarantee) post exc
      (appendJsonl json label get modify value) s := by
  refine Ensures.through (fun _ t => t = s) (alone_fsOp (fun _ => ⟨hskip.1, rfl⟩) hskip)
    fun _ t ht => ?_
  subst ht
  refine Ensures.through (fun _ u => u = t) ?_ fun _ u hu => ?_
  · exact alone_fsRead hskip.1 (fun _ _ => rfl) (fun _ he => by cases he) hskip.2
  subst hu
  cases hjson : jsonLine json value with
  | error e =>
    refine alone_throw (hdumps e ?_)
    unfold jsonLine at hjson
    cases htext : json.dumps value with
    | error e' =>
      rw [htext] at hjson
      cases hjson
      exact json.dumps_error value e htext
    | ok text =>
      rw [htext] at hjson
      cases hjson
  | ok line => exact hline line hjson

end Rules

/-! ### Reading -/

/-- The lines of a text file: the last one may lack its line end. -/
def textLines (text : List Char) : List (List Char) :=
  let lines := split '\n' (universalNewlines text)
  lines.1 ++ if lines.2 = [] then [] else [lines.2]

/-- `iter_jsonl`: the values by line, `None` where a line does not parse. A file that is not UTF-8
raises. -/
def iterJsonl (json : JsonModule) (b : Bytes) : Except PyError (List (ℕ × Doc)) :=
  match decodeUtf8 b with
  | none => .error ⟨.valueError, "'utf-8' codec can't decode"⟩
  | some text =>
    .ok (((textLines text).map fun line => (json.loads line).getD .null).zipIdx 1 |>.map fun e =>
      (e.2, e.1))

/-! ### What is read back -/

variable {json : JsonModule}

/-- The complete lines of a text that parse. -/
def parsedLines (json : JsonModule) (text : List Char) : List Doc :=
  (split '\n' text).1.filterMap json.loads

/-- A line is read back as it was written. -/
theorem loads_jsonLine {value : Doc} {line : List Char} (h : jsonLine json value = .ok line) :
    json.loads line = some (sortKeys value) ∧ '\r' ∉ line ∧ ∃ p, '\n' ∉ p ∧ line = p ++ ['\n'] := by
  obtain ⟨text, htext, rfl⟩ := map_eq_ok.mp h
  obtain ⟨hn, hr⟩ := json.dumps_newline value text htext
  refine ⟨json.loads_dumps value text htext, ?_, text, hn, rfl⟩
  rw [List.mem_append, not_or]
  exact ⟨hr, by decide⟩

/-- What is appended leaves the complete lines as they are. -/
theorem parsedLines_append (text more : List Char) :
    (parsedLines json text).Sublist (parsedLines json (text ++ more)) := by
  obtain ⟨rest, hrest⟩ := lines_prefix text more
  rw [parsedLines, parsedLines, ← hrest, List.filterMap_append]
  exact List.sublist_append_left _ _

/-- **A line written at the start of a line** is read back behind the others. -/
theorem parsedLines_line {text line : List Char} {value : Doc} (h : AtLineStart '\n' text)
    (hline : jsonLine json value = .ok line) :
    parsedLines json (text ++ line) = parsedLines json text ++ [sortKeys value] := by
  obtain ⟨hloads, -, p, hp, rfl⟩ := loads_jsonLine hline
  rw [parsedLines, split_line h hp, List.filterMap_append, parsedLines, List.filterMap_cons, hloads]
  rfl

/-- **The reader** of a file of UTF-8 text without carriage returns does not raise, and finds every
complete line that parses. -/
theorem iterJsonl_text {text : List Char} (hr : '\r' ∉ text) :
    ∃ values, iterJsonl json (encodeUtf8 text) = .ok values ∧
      (parsedLines json text).Sublist (values.map (·.2)) := by
  refine ⟨_, by rw [iterJsonl, decodeUtf8_encodeUtf8], ?_⟩
  have hlines : textLines text =
      (split '\n' text).1 ++ if (split '\n' text).2 = [] then [] else [(split '\n' text).2] := by
    rw [textLines, universalNewlines_of_not_mem hr]
  have hvalues : ∀ ds : List Doc, ((ds.zipIdx 1).map fun e => (e.2, e.1)).map (·.2) = ds := by
    intro ds
    rw [List.map_map]
    exact List.zipIdx_map_fst 1 ds
  rw [hvalues, hlines, List.map_append]
  refine List.Sublist.trans ?_ (List.sublist_append_left _ _)
  rw [parsedLines]
  generalize (split '\n' text).1 = ls
  induction ls with
  | nil => exact List.Sublist.slnil
  | cons l ls ih =>
    rw [List.filterMap_cons, List.map_cons]
    cases hl : json.loads l with
    | none => exact ih.cons _
    | some d => exact ih.cons_cons _

end BkkCollector.Storage.Jsonl
