import Keelith.Lib.Bytes
import Keelith.Lib.Map

/-!
# Path templates

`internal/httptemplate/template.go`: parsing a `google.api.http` path template, expanding it with
the values of its variables, and matching a request path. Strings are bytes here, because a path
need not be valid UTF-8 before it is decoded.

- `Parse` ranges over the runes of a template and asks only for ASCII characters, which bytes show
  as well.
- Indices into a list of segments are the segments that are left; `HasMultiWildcard` variables take
  all of them.
- `Match` is `Template.matchPath`; `Render` is left out.
-/

namespace Keelith.Http

open Bytes

/-! ## Templates -/

/-- `PatternSegment`: a literal, `*` or `**`. -/
inductive PatternSegment where
  | literal (raw : Bytes)
  | single
  | multi
  deriving DecidableEq

/-- `Variable`. -/
structure Variable where
  fieldPath : Bytes
  pattern : List PatternSegment
  explicit : Bool
  deriving DecidableEq

namespace Variable

def hasMultiWildcard (v : Variable) : Bool := v.pattern.getLast? == some .multi

def requiresString (v : Variable) : Bool := v.explicit && v.pattern != [.single]

end Variable

/-- `Segment`. -/
inductive Segment where
  | literal (raw : Bytes)
  | variable (v : Variable)
  deriving DecidableEq

/-- `Template`; a template without a verb has an empty one. -/
structure Template where
  segments : List Segment
  verb : Bytes
  deriving DecidableEq

/-- The variable of a segment. -/
def Segment.variable? : Segment → Option Variable
  | .literal _ => none
  | .variable v => some v

def Template.variables (t : Template) : List Variable := t.segments.filterMap Segment.variable?

/-! ## Errors and limits -/

/-- The errors of the package, one for each text. -/
inductive TemplateError where
  | invalidPath (raw : Bytes)
  | nestedVariable
  | unmatchedClose
  | unmatchedOpen
  | multipleVerbs
  | verbNotTerminal
  | emptyVerb
  | invalidSegmentCount
  | emptySegment
  | anonymousWildcard (raw : Bytes)
  | duplicateFieldPath (fieldPath : Bytes)
  | tooManyVariables
  | multiNotTerminal
  | malformedVariable (raw : Bytes)
  | invalidLiteral (raw : Bytes)
  | undecodableLiteral (raw : Bytes) (cause : TemplateError)
  | invalidFieldPath (fieldPath : Bytes)
  | invalidPattern (fieldPath : Bytes)
  | patternTooLong
  | patternMultiNotTerminal
  | emptyPatternSegment
  | invalidPercentEscape
  | notUtf8
  | fieldAbsent (fieldPath : Bytes)
  | expandedPathEmpty
  | invalidRequestPath
  | verbAbsent
  | verbMismatch
  | pathTooShort
  | pathTooLong
  | literalMismatch (got want : Bytes)
  | variableMismatch (v : Variable) (value : Bytes)
  | emptyMultiSegment
  deriving DecidableEq

def maximumTemplateBytes : Nat := 4096

def maximumTemplateSegments : Nat := 64

def maximumTemplateVariables : Nat := 16

/-- The separator of path segments. -/
def slash : UInt8 := '/'.toUInt8

/-- The byte before a verb. -/
def colon : UInt8 := ':'.toUInt8

/-- The byte before an escape. -/
def percent : UInt8 := '%'.toUInt8

/-! ## Escapes -/

def fromHex (r : UInt8) : Option UInt8 :=
  if '0'.toUInt8 ≤ r ∧ r ≤ '9'.toUInt8 then some (r - '0'.toUInt8)
  else if 'a'.toUInt8 ≤ r ∧ r ≤ 'f'.toUInt8 then some (r - 'a'.toUInt8 + 10)
  else if 'A'.toUInt8 ≤ r ∧ r ≤ 'F'.toUInt8 then some (r - 'A'.toUInt8 + 10)
  else none

/-- The loop of `decodePathSegment`; `none` is an invalid escape. -/
def decodeBytes (preserveSlash : Bool) : Bytes → Option Bytes
  | [] => some []
  | b :: rest =>
    if b = percent then
      match rest with
      | high :: low :: rest =>
        match fromHex high, fromHex low with
        | some h, some l =>
          (decodeBytes preserveSlash rest).map fun decoded =>
            if preserveSlash && (h <<< 4 ||| l) == slash then b :: high :: low :: decoded
            else (h <<< 4 ||| l) :: decoded
        | _, _ => none
      | _ => none
    else (decodeBytes preserveSlash rest).map (b :: ·)

def decodePathSegment (raw : Bytes) (preserveSlash : Bool) : Except TemplateError Bytes :=
  match decodeBytes preserveSlash raw with
  | none => .error .invalidPercentEscape
  | some result => if utf8Valid result then .ok result else .error .notUtf8

/-- The text of a literal: `decodePathSegment` without its error. -/
def decodedLiteral (raw : Bytes) : Bytes :=
  match decodePathSegment raw false with
  | .ok text => text
  | .error _ => []

/-- A byte that `encodePathSegment` writes as it is. -/
def unreserved (r : UInt8) : Bool :=
  ('a'.toUInt8 ≤ r && r ≤ 'z'.toUInt8) || ('A'.toUInt8 ≤ r && r ≤ 'Z'.toUInt8) ||
    ('0'.toUInt8 ≤ r && r ≤ '9'.toUInt8) || (ascii ['-', '_', '.', '~']).contains r

/-- A digit of the constant `hexadecimal`. -/
def hexadecimal (n : UInt8) : UInt8 := if n < 10 then '0'.toUInt8 + n else 'A'.toUInt8 + (n - 10)

def encodePathSegment (value : Bytes) : Bytes :=
  value.flatMap fun r =>
    if unreserved r then [r] else [percent, hexadecimal (r >>> 4), hexadecimal (r &&& 0x0f)]

/-! ## Parsing -/

/-- The characters that `validateLiteral` refuses. -/
def reserved : Bytes := ascii ['{', '}', '*', '/', ':', '?', '#', '\r', '\n', '\t', ' ']

def validateLiteral (raw : Bytes) : Except TemplateError Unit :=
  if raw = [] || containsAny raw reserved then .error (.invalidLiteral raw)
  else
    match decodePathSegment raw false with
    | .error err => .error (.undecodableLiteral raw err)
    | .ok _ => .ok ()

/-- A character of a field path; a digit is not the first one. -/
def fieldPathByte (first : Bool) (r : UInt8) : Bool :=
  r == '_'.toUInt8 || ('a'.toUInt8 ≤ r && r ≤ 'z'.toUInt8) ||
    ('A'.toUInt8 ≤ r && r ≤ 'Z'.toUInt8) ||
    (!first && '0'.toUInt8 ≤ r && r ≤ '9'.toUInt8)

/-- A segment of a field path. -/
def fieldPathSegment : Bytes → Bool
  | [] => false
  | r :: rest => fieldPathByte true r && rest.all (fieldPathByte false)

/-- `validFieldPath`. The characters of a segment are no spaces, so `strings.TrimSpace` is no check
of its own. -/
def validFieldPath (value : Bytes) : Bool :=
  value != [] && value.length ≤ 1024 && (split '.'.toUInt8 value).length ≤ 16 &&
    (split '.'.toUInt8 value).all fieldPathSegment

/-- The loop of `parseVariable` over the segments of a pattern. -/
def parsePattern : List Bytes → Except TemplateError (List PatternSegment)
  | [] => .ok []
  | raw :: rest =>
    if raw = ascii ['*'] then do
      let segments ← parsePattern rest
      .ok (.single :: segments)
    else if raw = ascii ['*', '*'] then
      if rest ≠ [] then .error .patternMultiNotTerminal
      else do
        let segments ← parsePattern rest
        .ok (.multi :: segments)
    else if raw = [] then .error .emptyPatternSegment
    else do
      validateLiteral raw
      let segments ← parsePattern rest
      .ok (.literal raw :: segments)

/-- The field path of a variable and the pattern after `=`, if there is one. -/
def cutAssignment (raw : Bytes) : Bytes × Option Bytes :=
  (raw.takeWhile (· != '='.toUInt8), (raw.dropWhile (· != '='.toUInt8)).tail?)

def parseVariable (raw : Bytes) : Except TemplateError Variable :=
  let (fieldPath, assigned) := cutAssignment raw
  let pattern := assigned.getD (ascii ['*'])
  if !validFieldPath fieldPath then .error (.invalidFieldPath fieldPath)
  else if pattern = [] || containsAny pattern (ascii ['{', '}']) then
    .error (.invalidPattern fieldPath)
  else if maximumTemplateSegments < (split slash pattern).length then .error .patternTooLong
  else do
    let segments ← parsePattern (split slash pattern)
    .ok ⟨fieldPath, segments, assigned.isSome⟩

/-- The loop of `splitVerb`: the index of the colon before the verb. -/
def findVerb (depth : Nat) (found : Option Nat) (index : Nat) :
    Bytes → Except TemplateError (Option Nat)
  | [] => if depth ≠ 0 then .error .unmatchedOpen else .ok found
  | r :: rest =>
    if r = '{'.toUInt8 then
      if depth ≠ 0 then .error .nestedVariable else findVerb (depth + 1) found (index + 1) rest
    else if r = '}'.toUInt8 then
      if depth = 0 then .error .unmatchedClose else findVerb (depth - 1) found (index + 1) rest
    else if r = colon ∧ depth = 0 then
      if found.isSome then .error .multipleVerbs else findVerb depth (some index) (index + 1) rest
    else if r = slash ∧ depth = 0 ∧ found.isSome then .error .verbNotTerminal
    else findVerb depth found (index + 1) rest

def splitVerb (raw : Bytes) : Except TemplateError (Bytes × Bytes) := do
  match ← findVerb 0 none 0 raw with
  | none => .ok (raw, [])
  | some index =>
    let verb := raw.drop (index + 1)
    if verb = [] then .error .emptyVerb
    else do
      validateLiteral verb
      .ok (raw.take index, verb)

/-- The loop of `splitTopLevelSegments`, with the segment read so far. -/
def splitSegments (depth : Nat) (current : Bytes) : Bytes → Except TemplateError (List Bytes)
  | [] => if depth ≠ 0 then .error .unmatchedOpen else .ok [current]
  | r :: rest =>
    if r = '{'.toUInt8 then
      if depth ≠ 0 then .error .nestedVariable else splitSegments (depth + 1) (current ++ [r]) rest
    else if r = '}'.toUInt8 then
      if depth = 0 then .error .unmatchedClose else splitSegments (depth - 1) (current ++ [r]) rest
    else if r = slash ∧ depth = 0 then do
      let segments ← splitSegments depth [] rest
      .ok (current :: segments)
    else splitSegments depth (current ++ [r]) rest

def splitTopLevelSegments (path : Bytes) : Except TemplateError (List Bytes) :=
  if path = [slash] then .ok [] else splitSegments 0 [] (path.drop 1)

/-- The loop of `Parse` over the segments, with the field paths seen so far. -/
def parseSegments (seen : List Bytes) : List Bytes → Except TemplateError (List Segment)
  | [] => .ok []
  | raw :: rest =>
    if raw = [] then .error .emptySegment
    else if raw = ascii ['*'] ∨ raw = ascii ['*', '*'] then .error (.anonymousWildcard raw)
    else if raw.head? = some '{'.toUInt8 ∧ raw.getLast? = some '}'.toUInt8 then do
      let v ← parseVariable raw.tail.dropLast
      if v.fieldPath ∈ seen then .error (.duplicateFieldPath v.fieldPath)
      else if maximumTemplateVariables < seen.length + 1 then .error .tooManyVariables
      else if v.hasMultiWildcard ∧ rest ≠ [] then .error .multiNotTerminal
      else do
        let segments ← parseSegments (v.fieldPath :: seen) rest
        .ok (.variable v :: segments)
    else if containsAny raw (ascii ['{', '}']) then .error (.malformedVariable raw)
    else do
      validateLiteral raw
      let segments ← parseSegments seen rest
      .ok (.literal raw :: segments)

def parse (raw : Bytes) : Except TemplateError Template :=
  if raw = [] || maximumTemplateBytes < raw.length || raw.head? != some slash ||
      containsAny raw (ascii ['?', '#', '\r', '\n', '\t']) then .error (.invalidPath raw)
  else do
    let (path, verb) ← splitVerb raw
    let rawSegments ← splitTopLevelSegments path
    if rawSegments.length = 0 ∨ maximumTemplateSegments < rawSegments.length then
      .error .invalidSegmentCount
    else do
      let segments ← parseSegments [] rawSegments
      .ok ⟨segments, verb⟩

/-! ## Expanding -/

/-- The loop over `**`: each remaining segment of the value. -/
def expandRest (v : Variable) (value : Bytes) : List Bytes → Except TemplateError (List Bytes)
  | [] => .ok []
  | part :: rest =>
    if part = [] then .error (.variableMismatch v value)
    else do
      let expanded ← expandRest v value rest
      .ok (encodePathSegment part :: expanded)

/-- The loop of `expandVariable` over a pattern, with the segments of the value that are left. -/
def expandPattern (v : Variable) (value : Bytes) :
    List PatternSegment → List Bytes → Except TemplateError (List Bytes)
  | [], [] => .ok []
  | [], _ :: _ => .error (.variableMismatch v value)
  | .literal _ :: _, [] => .error (.variableMismatch v value)
  | .literal raw :: pattern, part :: parts =>
    if part ≠ decodedLiteral raw then .error (.variableMismatch v value)
    else do
      let expanded ← expandPattern v value pattern parts
      .ok (raw :: expanded)
  | .single :: _, [] => .error (.variableMismatch v value)
  | .single :: pattern, part :: parts =>
    if part = [] then .error (.variableMismatch v value)
    else do
      let expanded ← expandPattern v value pattern parts
      .ok (encodePathSegment part :: expanded)
  | .multi :: pattern, parts => do
    let rest ← expandRest v value parts
    let expanded ← expandPattern v value pattern []
    .ok (rest ++ expanded)

def expandVariable (v : Variable) (value : Bytes) : Except TemplateError (List Bytes) :=
  if v.pattern = [.single] then
    if value = [] then .error (.variableMismatch v value) else .ok [encodePathSegment value]
  else expandPattern v value v.pattern (split slash value)

/-- The loop of `Expand`. -/
def expandSegments (values : Map Bytes Bytes) : List Segment → Except TemplateError (List Bytes)
  | [] => .ok []
  | .literal raw :: segments => do
    let parts ← expandSegments values segments
    .ok (raw :: parts)
  | .variable v :: segments =>
    match values.lookup v.fieldPath with
    | none => .error (.fieldAbsent v.fieldPath)
    | some value => do
      let expanded ← expandVariable v value
      let parts ← expandSegments values segments
      .ok (expanded ++ parts)

/-- The path of some segments: the verb is a suffix of the last one. -/
def pathWith (parts : List Bytes) (verb : Bytes) : Bytes :=
  slash :: (join slash parts ++ if verb = [] then [] else colon :: verb)

def Template.expand (t : Template) (values : Map Bytes Bytes) : Except TemplateError Bytes := do
  let parts ← expandSegments values t.segments
  if parts = [] then .error .expandedPathEmpty else .ok (pathWith parts t.verb)

/-! ## Matching -/

def matchLiteral (expected raw : Bytes) : Except TemplateError Unit := do
  let got ← decodePathSegment raw false
  if got ≠ decodedLiteral expected then .error (.literalMismatch got (decodedLiteral expected)) else
    .ok ()

/-- The loop of `decodeMultiPath`. -/
def decodeParts : List Bytes → Except TemplateError (List Bytes)
  | [] => .ok []
  | part :: rest =>
    if part = [] then .error .emptyMultiSegment
    else do
      let value ← decodePathSegment part true
      let decoded ← decodeParts rest
      .ok (value :: decoded)

def decodeMultiPath (parts : List Bytes) : Except TemplateError Bytes :=
  if parts = [[]] then .ok []
  else do
    let decoded ← decodeParts parts
    .ok (join slash decoded)

/-- The loop of `matchVariable` over a pattern: the parts of the value, and the segments that are
left. -/
def matchPattern (v : Variable) :
    List PatternSegment → List Bytes → Except TemplateError (List Bytes × List Bytes)
  | [], rawParts => .ok ([], rawParts)
  | .literal _ :: _, [] => .error (.variableMismatch v [])
  | .literal expected :: pattern, raw :: rawParts => do
    matchLiteral expected raw
    let (valueParts, rest) ← matchPattern v pattern rawParts
    .ok (decodedLiteral expected :: valueParts, rest)
  | .single :: _, [] => .error (.variableMismatch v [])
  | .single :: pattern, raw :: rawParts =>
    if raw = [] then .error (.variableMismatch v [])
    else do
      let value ← decodePathSegment raw false
      let (valueParts, rest) ← matchPattern v pattern rawParts
      .ok (value :: valueParts, rest)
  | .multi :: pattern, rawParts => do
    let value ← decodeMultiPath rawParts
    let (valueParts, rest) ← matchPattern v pattern []
    .ok ((if value ≠ [] then [value] else []) ++ valueParts, rest)

/-- `matchVariable`: the value, and the segments that are left. -/
def matchVariable (v : Variable) (rawParts : List Bytes) :
    Except TemplateError (Bytes × List Bytes) :=
  if v.pattern = [.single] then
    match rawParts with
    | [] => .error (.variableMismatch v [])
    | raw :: rest =>
      if raw = [] then .error (.variableMismatch v [])
      else do
        let value ← decodePathSegment raw false
        .ok (value, rest)
  else do
    let (valueParts, rest) ← matchPattern v v.pattern rawParts
    .ok (join slash valueParts, rest)

/-- The loop of `Match`, with the values so far. -/
def matchSegments (values : Map Bytes Bytes) :
    List Segment → List Bytes → Except TemplateError (Map Bytes Bytes)
  | [], [] => .ok values
  | [], _ :: _ => .error .pathTooLong
  | .literal _ :: _, [] => .error .pathTooShort
  | .literal expected :: segments, raw :: rawParts => do
    matchLiteral expected raw
    matchSegments values segments rawParts
  | .variable v :: segments, rawParts => do
    let (value, rest) ← matchVariable v rawParts
    matchSegments (values.insert v.fieldPath value) segments rest

namespace Template

/-- The segments of a request path without the verb of the template. -/
def rawParts (t : Template) (escapedPath : Bytes) : Except TemplateError (List Bytes) :=
  let parts := split slash escapedPath.tail
  if t.verb = [] then .ok parts
  else
    match cutLast colon (parts.getLast?.getD []) with
    | none => .error .verbAbsent
    | some (last, verb) => do
      let gotVerb ← decodePathSegment verb false
      if gotVerb ≠ decodedLiteral t.verb then .error .verbMismatch else
        .ok (parts.dropLast ++ [last])

/-- `Template.Match`. -/
def matchPath (t : Template) (escapedPath : Bytes) : Except TemplateError (Map Bytes Bytes) :=
  if escapedPath.head? != some slash || containsAny escapedPath (ascii ['?', '#', '\r', '\n']) then
    .error .invalidRequestPath
  else do
    let parts ← t.rawParts escapedPath
    matchSegments ∅ t.segments parts

end Template

end Keelith.Http
