import MyBooks.JsonText

/-!
# Id map and row lines of the tenant import

The id map substitutes the ids it knows anywhere in a line of text. PostgreSQL keeps the keys of a
jsonb object sorted, so mapping the ids back leaves them in the order of the new ids, and the line's
jsonb fields are put back in order on the text. Lines are lists of characters, an offset is the text
before it.
-/

namespace MyBooks

namespace Remap

/-! ## Ids in a text -/

def isHex (c : Char) : Bool :=
  ('0' ≤ c && c ≤ '9') || ('a' ≤ c && c ≤ 'f') || ('A' ≤ c && c ≤ 'F')

/-- `UUID_TOKEN_RE` takes a dash at four places and a hex digit of either case elsewhere. -/
def dashAt (i : ℕ) : Bool := i = 8 || i = 13 || i = 18 || i = 23

@[grind =] def tokenFrom : ℕ → ℕ → Text → Bool
  | _, 0, _ => true
  | i, n + 1, c :: s => (if dashAt i then c = '-' else isHex c) && tokenFrom (i + 1) n s
  | _, _ + 1, [] => false

def startsToken (s : Text) : Bool := tokenFrom 0 36 s

/-- `UUID_EXACT_RE` -/
def isUuid (s : Text) : Bool := s.length = 36 && startsToken s

/-- `text.replace(UUID_TOKEN_RE, f)`: the leftmost tokens that do not overlap. The first argument
counts what is left of a token that was replaced. -/
@[grind =] def replaceFrom (f : Text → Text) : ℕ → Text → Text
  | _, [] => []
  | skip + 1, _ :: s => replaceFrom f skip s
  | 0, c :: s =>
    if startsToken (c :: s) then f ((c :: s).take 36) ++ replaceFrom f 35 s
    else c :: replaceFrom f 0 s

def replaceTokens (f : Text → Text) (text : Text) : Text := replaceFrom f 0 text

def toLowerCase (s : Text) : Text := s.map Char.toLower

def NEVER_REMAPPED_UUIDS : List Text := ["00000000-0000-0000-0000-000000000000".toList]

/-- Old ids and new ids, both in lower case, one to one. -/
structure IdMap where
  entries : List (Text × Text)
  uuids : ∀ e ∈ entries, isUuid e.1 = true ∧ isUuid e.2 = true
  lower : ∀ e ∈ entries, toLowerCase e.1 = e.1 ∧ toLowerCase e.2 = e.2
  olds : (entries.map Prod.fst).Nodup
  news : (entries.map Prod.snd).Nodup

namespace IdMap

variable (m : IdMap)

def forward (old : Text) : Option Text := (m.entries.find? fun e => e.1 = old).map Prod.snd
def reverse (new : Text) : Option Text := (m.entries.find? fun e => e.2 = new).map Prod.fst

def substitute (text : Text) : Text :=
  replaceTokens (fun tok => (m.forward (toLowerCase tok)).getD tok) text

def inverse (text : Text) : Text :=
  replaceTokens (fun tok => (m.reverse (toLowerCase tok)).getD tok) text

end IdMap

/-! ## The row-line tokenizer -/

/-- What is passed over after an opening quote, the closing quote included, and what follows. -/
@[grind =] def scanString : Text → Text × Text
  | [] => ([], [])
  | ['\\'] => (['\\'], [])
  | '\\' :: c :: r => ('\\' :: c :: (scanString r).1, (scanString r).2)
  | c :: r => if c = '"' then (['"'], r) else (c :: (scanString r).1, (scanString r).2)

/-- The text of an object or an array through its closing bracket. Each pass takes a character, so
their number bounds the passes. -/
@[grind =] def scanNested : ℕ → ℕ → Text → Text × Text
  | 0, _, s => ([], s)
  | _ + 1, _, [] => ([], [])
  | passes + 1, depth, c :: r =>
    if c = '"' then
      let body := scanString r
      let next := scanNested passes depth body.2
      (c :: body.1 ++ next.1, next.2)
    else if c = '{' ∨ c = '[' then
      let next := scanNested passes (depth + 1) r
      (c :: next.1, next.2)
    else if c = '}' ∨ c = ']' then
      if depth - 1 = 0 then ([c], r)
      else
        let next := scanNested passes (depth - 1) r
        (c :: next.1, next.2)
    else
      let next := scanNested passes depth r
      (c :: next.1, next.2)

def scanValue (s : Text) : Text × Text :=
  match s with
  | '"' :: r => ('"' :: (scanString r).1, (scanString r).2)
  | c :: r =>
    if c = '{' ∨ c = '[' then scanNested (c :: r).length 0 (c :: r)
    else ((c :: r).takeWhile (fun c => c ≠ ',' && c ≠ '}'), (c :: r).dropWhile (fun c => c ≠ ',' && c ≠ '}'))
  | [] => ([], [])

/-- A key with no escape stands for itself; another is parsed, and fails where it is no string. -/
def unescapeKey (key : Text) : Option (List ℕ) :=
  if '\\' ∈ key then unescape key else some (key.flatMap utf16)

structure FieldSpan where
  before : Text
  raw : Text
  after : Text
  deriving DecidableEq

/-- The loop of `topLevelField` behind the opening brace; `none` where it throws. -/
@[grind =] def fieldFrom (name : Text) : ℕ → Text → Text → Option (Option FieldSpan)
  | 0, _, _ => some none
  | _ + 1, _, [] => some none
  | passes + 1, seen, c :: r =>
    if c = '"' then
      let body := scanString r
      let gap := body.2.takeWhile (· ≠ ':')
      let colon := (body.2.dropWhile (· ≠ ':')).take 1
      let behind := (body.2.dropWhile (· ≠ ':')).drop 1
      let blanks := behind.takeWhile (· = ' ')
      let value := scanValue (behind.dropWhile (· = ' '))
      let before := seen ++ c :: body.1 ++ gap ++ colon ++ blanks
      match unescapeKey body.1.dropLast with
      | none => none
      | some key =>
        if key = name.flatMap utf16 then some (some ⟨before, value.1, value.2⟩)
        else
          let isGap : Char → Bool := fun c => c = ',' || c = ' '
          fieldFrom name passes (before ++ value.1 ++ value.2.takeWhile isGap)
            (value.2.dropWhile isGap)
    else if c = '}' then some none
    else fieldFrom name passes (seen ++ [c]) r

def topLevelField (line name : Text) : Option (Option FieldSpan) :=
  match line.dropWhile (· ≠ '{') with
  | [] => some none
  | c :: r => fieldFrom name r.length (line.takeWhile (· ≠ '{') ++ [c]) r

/-! ## The order of jsonb keys -/

/-- By length in bytes, then bytewise. -/
def compareJsonbKeys (a b : List ℕ) : Ordering := cmp (unitRank a) (unitRank b)

structure Piece where
  key : List ℕ
  out : Text
  sep : Text
  deriving DecidableEq

/-- The key of a member with the colon and the blanks; nothing in an array. -/
def scanKey (isObject : Bool) (s : Text) : Option (List ℕ × Text × Text) :=
  if isObject then
    match s with
    | '"' :: r =>
      let body := scanString r
      if body.1.getLast? = some '"' then
        match unescape body.1.dropLast, body.2.dropWhile isWs with
        | some key, ':' :: behind =>
          some (key, '"' :: body.1 ++ body.2.takeWhile isWs ++ ':' :: behind.takeWhile isWs,
            behind.dropWhile isWs)
        | _, _ => none
      else none
    | _ => none
  else some ([], [], s)

/-- `parts[0]!.sep || ', '` -/
def firstSep : List Piece → Text
  | [] => [',', ' ']
  | p :: _ => if p.sep = [] then [',', ' '] else p.sep

def joinPieces (isObject : Bool) (ps : List Piece) : Text :=
  if isObject then
    (firstSep ps).intercalate
      ((ps.insertionSort fun a b => (compareJsonbKeys a.key b.key).isLE).map (·.out))
  else ps.flatMap fun p => p.out ++ p.sep

mutual

/-- `none` where it throws. Each call takes a character or opens a bracket, which bounds the calls. -/
@[grind =] def value : ℕ → Text → Option (Text × Text)
  | 0, _ => none
  | _ + 1, [] => none
  | calls + 1, ch :: r =>
    if ch = '"' then
      let body := scanString r
      if body.1.getLast? = some '"' then some (ch :: body.1, body.2) else none
    else if ch = '{' ∨ ch = '[' then
      let isObject : Bool := ch = '{'
      let lead := r.takeWhile isWs
      let inner := r.dropWhile isWs
      if inner.head? = some (closing isObject) then
        some (ch :: lead ++ [closing isObject], inner.tail)
      else
        match pieces calls isObject inner with
        | none => none
        | some (ps, tail, rest) =>
          some (ch :: lead ++ joinPieces isObject ps ++ tail ++ [closing isObject], rest)
    else
      let isLiteral : Char → Bool := fun c => !isWs c && c ≠ ',' && c ≠ '}' && c ≠ ']'
      if (ch :: r).takeWhile isLiteral = [] then none
      else some ((ch :: r).takeWhile isLiteral, (ch :: r).dropWhile isLiteral)

@[grind =] def pieces : ℕ → Bool → Text → Option (List Piece × Text × Text)
  | 0, _, _ => none
  | calls + 1, isObject, s =>
    match scanKey isObject s with
    | none => none
    | some (key, head, s) =>
      match value calls s with
      | none => none
      | some (out, s) =>
        match s.dropWhile isWs with
        | [] => none
        | c :: r =>
          if c = ',' then
            match pieces calls isObject (r.dropWhile isWs) with
            | none => none
            | some (ps, tail, rest) =>
              some (⟨key, head ++ out, s.takeWhile isWs ++ ',' :: r.takeWhile isWs⟩ :: ps, tail, rest)
          else if c = closing isObject then some ([⟨key, head ++ out, []⟩], s.takeWhile isWs, r)
          else none

end

def reorderJsonKeys (text : Text) : Option Text :=
  match value (2 * text.length + 2) (text.dropWhile isWs) with
  | none => none
  | some (out, rest) =>
    if rest.dropWhile isWs = [] then some (text.takeWhile isWs ++ out ++ rest) else none

/-- A field that is absent, null or no JSON is left as it is. -/
@[grind =] def reorderJsonbFields (line : Text) : List Text → Option Text
  | [] => some line
  | column :: columns =>
    match topLevelField line column with
    | none => none
    | some none => reorderJsonbFields line columns
    | some (some span) =>
      if span.raw = "null".toList then reorderJsonbFields line columns
      else
        match reorderJsonKeys span.raw with
        | none => reorderJsonbFields line columns
        | some raw => reorderJsonbFields (span.before ++ raw ++ span.after) columns

end Remap

end MyBooks
