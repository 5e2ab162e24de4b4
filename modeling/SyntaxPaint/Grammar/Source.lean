import SyntaxPaint.File.Tree
import SyntaxPaint.Number.Decimal
import SyntaxPaint.Text.Bytes

/-!
The grammars of the stand-in library, as far as choosing one goes, and the files that describe them:
lines of keys with values, where a value is a text, quoted or not, or a list of texts, and indented
lines belong to the key before them.
-/
namespace SyntaxPaint

/-- A grammar: its name, the file extensions that it is for, the scope of its texts, and the first
lines that it recognises. -/
structure Grammar where
  name : Text
  extensions : List Text
  scope : Text
  firstLine : Option Text
  deriving DecidableEq, Repr

namespace Grammar

def scopeParts (scope : Text) : List Text :=
  if scope.isEmpty then []
  else ((scope.reverse.dropWhile (· == '.')).reverse).splitOnP (· == '.')

def mostScopeParts : Nat := 8

end Grammar

inductive SourceValue where
  | text (t : Text)
  | list (items : List SourceValue)
  | other
  deriving Repr

structure SourceEntry where
  key : Text
  value : SourceValue
  nested : List Text
  deriving Repr

inductive SourceError where
  | malformed
  | missingKey (key : Text)
  | wrongType
  | noMain
  | longScope
  deriving DecidableEq, Repr

namespace SourceError

def message : SourceError → Text
  | malformed => "Invalid YAML file syntax".toList
  | missingKey key => "Missing mandatory key in YAML file: ".toList ++ key
  | wrongType => "Type mismatch".toList
  | noMain => "Context 'main' is missing".toList
  | longScope => "Invalid scope: too long".toList

end SourceError

namespace SourceValue

def text? : SourceValue → Option Text
  | text t => some t
  | _ => none

def escapes : List (Char × Char) :=
  [('0', '\x00'), ('a', '\x07'), ('b', '\x08'), ('t', '\t'), ('n', '\n'), ('v', '\x0b'),
    ('f', '\x0c'), ('r', '\r'), ('e', '\x1b'), (' ', ' '), ('"', '"'), ('/', '/'), ('\\', '\\'),
    ('N', '\u0085'), ('_', '\u00a0'), ('L', '\u2028'), ('P', '\u2029')]

def codeLength? : Char → Option Nat
  | 'x' => some 2
  | 'u' => some 4
  | 'U' => some 8
  | _ => none

def readQuoted : Nat → Text → Option (Text × Text)
  | 0, _ | _, [] => none
  | _ + 1, '"' :: t => some ([], t)
  | fuel + 1, '\\' :: c :: t => do
    let (d, t) ← match codeLength? c with
      | some n =>
        if n ≤ t.length then
          ((Text.hexadecimal? (t.take n)).bind Text.scalar?).map (·, t.drop n)
        else none
      | none => (escapes.lookup c).map (·, t)
    let (content, t) ← readQuoted fuel t
    pure (d :: content, t)
  | fuel + 1, c :: t => (readQuoted fuel t).map fun r => (c :: r.1, r.2)

def readVerbatim : Text → Option (Text × Text)
  | '\'' :: '\'' :: t => (readVerbatim t).map fun r => ('\'' :: r.1, r.2)
  | '\'' :: t => some ([], t)
  | c :: t => (readVerbatim t).map fun r => (c :: r.1, r.2)
  | [] => none

def ofWord (word : Text) : SourceValue :=
  let special := ["", "~", "null", "true", "false"].any (·.toList == word)
  if special || (Decimal.read? word).isSome then .other else .text word

def readWord (stops : Char → Bool) (blankBefore : Bool) : Text → Text × Text
  | [] => ([], [])
  | c :: t =>
    if stops c || (blankBefore && c == '#') then ([], c :: t)
    else
      let (word, t) := readWord stops (Text.isBlank c) t
      (c :: word, t)

def readScalar (stops : Char → Bool) : Text → Option (SourceValue × Text)
  | '"' :: t => (readQuoted (t.length + 1) t).map fun r => (.text r.1, r.2)
  | '\'' :: t => (readVerbatim t).map fun r => (.text r.1, r.2)
  | t =>
    let (word, t) := readWord stops true t
    some (ofWord word.trim, t)

def readItems : Nat → Text → Option (List SourceValue × Text)
  | 0, _ => none
  | fuel + 1, t =>
    match t.trimStart with
    | [] => none
    | ']' :: t => some ([], t)
    | t => do
      let (item, t) ← readScalar (fun c => c == ',' || c == ']') t
      match t.trimStart with
      | ',' :: t => (readItems fuel t).map fun r => (item :: r.1, r.2)
      | ']' :: t => pure ([item], t)
      | _ => none

def read? (t : Text) : Option SourceValue := do
  let (value, t) ← match t.trimStart with
    | '[' :: t => (readItems (t.length + 1) t).map fun r => (SourceValue.list r.1, r.2)
    | t => readScalar (fun _ => false) t
  if t.trim.isEmpty || t.trimStart.head? == some '#' then pure value else none

end SourceValue

namespace Grammar

def isVoid (line : Text) : Bool :=
  line.trim.isEmpty || line.trimStart.head? == some '#' || line.head? == some '%' ||
    line == "---".toList

def keyOf? (line : Text) : Option (Text × Text) :=
  (Text.cutAt [':'] line).filter fun cut => cut.2.head?.all Text.isBlank

def isIndented (line : Text) : Bool := line.head?.any fun c => Text.isBlank c || c == '-'

def isInner (line : Text) : Bool := isVoid line || isIndented line

def entries? : List Text → Option (List SourceEntry)
  | [] => some []
  | line :: lines => do
    if isVoid line then entries? lines
    else
      let (key, rest) ← keyOf? line
      if isIndented line then none
      else
        let value ← SourceValue.read? rest
        let later ← entries? (lines.dropWhile isInner)
        pure (⟨key.trim, value, (lines.takeWhile isInner).filter (!isVoid ·)⟩ :: later)
termination_by lines => lines.length
decreasing_by
  · simp
  · have := (List.dropWhile_sublist isInner (l := lines)).length_le
    simp only [List.length_cons]
    omega

def listOf (e : SourceEntry) : List SourceValue :=
  match e.value with
  | .list items => items
  | _ =>
    e.nested.filterMap fun line =>
      match line.trimStart with
      | '-' :: item => SourceValue.read? item
      | _ => none

def hasNested (e : SourceEntry) (key : Text) : Bool :=
  e.nested.any fun line => (keyOf? line).any (·.1.trim == key)

def requiredText (entries : List SourceEntry) (key : Text) : Except SourceError Text :=
  match entries.find? (·.key == key) with
  | none => .error (.missingKey key)
  | some e => (e.value.text?).elim (.error .wrongType) .ok

/-- The grammar that a source describes. One without a name takes that of its file. -/
def ofSource (fileName : Text) (source : Text) : Except SourceError Grammar := do
  let lines := (source.splitOnP (· == '\n')).map fun l => (Text.dropSuffix? ['\r'] l).getD l
  let entries ← (entries? lines).elim (.error .malformed) .ok
  let value? (key : String) := (entries.find? (·.key == key.toList)).bind (·.value.text?)
  let contexts ← (entries.find? (·.key == "contexts".toList)).elim
    (.error (.missingKey "contexts".toList)) .ok
  let scope ← requiredText entries "scope".toList
  if mostScopeParts < (scopeParts scope).length then .error .longScope
  else if !hasNested contexts "main".toList then .error .noMain
  else
    let extensions := (entries.find? (·.key == "file_extensions".toList)).elim [] listOf
    pure {
      name := (value? "name").getD fileName
      extensions := extensions.filterMap SourceValue.text?
      scope
      firstLine := value? "first_line_match" }

def suffix : Text := ".sublime-syntax".toList

def fileName (path : Text) : Text :=
  ((path.splitOnP (· == '/')).filter (!·.isEmpty)).getLast?.getD []

def stem? (path : Text) : Option Text :=
  (Text.dropSuffix? suffix (fileName path)).filter (!·.isEmpty)

def ofFile (path stem : Text) (node : FileNode) : Except Text Grammar :=
  match node.text with
  | .error e => .error ("error reading a file: ".toList ++ e.message)
  | .ok source => (ofSource stem source).mapError fun e => path ++ ": ".toList ++ e.message

def ofTree (path : Text) (found : Except FileError FileNode) : Except Text (List Grammar) :=
  match found with
  | .error e =>
    .error ("error finding all the files in a directory: IO error for operation on ".toList ++
      path ++ ": ".toList ++ e.message)
  | .ok root =>
    (root.contents path).filterMapM fun entry =>
      match stem? entry.1 with
      | none => .ok none
      | some stem => (ofFile entry.1 stem entry.2).map some

end Grammar

end SyntaxPaint
