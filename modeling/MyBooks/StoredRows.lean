import MyBooks.ReorderKeys
import MyBooks.RemapIds

/-!
# Rows as PostgreSQL prints, reads and stores them

A row line is the text `row_to_json` prints: strings escaped in one way, jsonb values with their own
separators and their keys in order. PostgreSQL reads the line with the new ids string by string, and
keeps of a jsonb object the last member of each key, in the order of the keys.
-/

namespace MyBooks

namespace Remap

/-! ## Strings -/

def hexDigit (n : ℕ) : Char := if n < 10 then Char.ofNat (48 + n) else Char.ofNat (87 + n)

def escapeChar (c : Char) : Text :=
  match c with
  | '"' => ['\\', '"']
  | '\\' => ['\\', '\\']
  | '\x08' => ['\\', 'b']
  | '\x0c' => ['\\', 'f']
  | '\n' => ['\\', 'n']
  | '\r' => ['\\', 'r']
  | '\t' => ['\\', 't']
  | c =>
    if c.toNat < 32 then ['\\', 'u', '0', '0', hexDigit (c.toNat / 16), hexDigit (c.toNat % 16)]
    else [c]

/-- `escape_json` -/
def escapeJson (s : List Char) : Text := s.flatMap escapeChar

/-- The characters of a literal. PostgreSQL takes no surrogate alone and no null character. -/
def readString (raw : Text) : Option (List Char) :=
  match (unescape raw).bind (decodeUtf16 none) with
  | some s => if '\x00' ∈ s then none else some s
  | none => none

/-- The raw text PostgreSQL prints for a literal it has read. -/
def reprint (raw : Text) : Option Text := (readString raw).map escapeJson

end Remap

open Remap

/-! ## Values -/

mutual

/-- The raw texts of the strings, the keys of objects included. -/
@[grind =] def Json.strings : Json → List Text
  | .str raw => [raw]
  | .lit _ => []
  | .node isObject _ parts _ => partsStrings isObject parts

@[grind =] def partsStrings (isObject : Bool) : List (Part Json) → List Text
  | [] => []
  | ⟨key, _, value, _⟩ :: ps =>
    (if isObject then [key] else []) ++ value.strings ++ partsStrings isObject ps

end

mutual

@[grind =] def Json.mapStrings (f : Text → Text) : Json → Json
  | .str raw => .str (f raw)
  | .lit raw => .lit raw
  | .node isObject lead parts tail => .node isObject lead (partsMap f isObject parts) tail

@[grind =] def partsMap (f : Text → Text) (isObject : Bool) : List (Part Json) → List (Part Json)
  | [] => []
  | ⟨key, colon, value, sep⟩ :: ps =>
    ⟨if isObject then f key else key, colon, value.mapStrings f, sep⟩ :: partsMap f isObject ps

end

mutual

/-- The value read, with each string as it will be printed. -/
@[grind =] def Json.reread : Json → Option Json
  | .str raw => (reprint raw).map .str
  | .lit raw => some (.lit raw)
  | .node isObject lead parts tail =>
    (partsReread isObject parts).map fun ps => .node isObject lead ps tail

@[grind =] def partsReread (isObject : Bool) : List (Part Json) → Option (List (Part Json))
  | [] => some []
  | ⟨key, colon, value, sep⟩ :: ps =>
    match if isObject then reprint key else some key, value.reread, partsReread isObject ps with
    | some key, some value, some ps => some (⟨key, colon, value, sep⟩ :: ps)
    | _, _, _ => none

end

/-- Of several members of one key the last. -/
@[grind =] def lastKeys : List (Part Json) → List (Part Json)
  | [] => []
  | p :: ps => if ps.any fun q => q.key = p.key then lastKeys ps else p :: lastKeys ps

mutual

@[grind =] def Json.deduped : Json → Json
  | .str raw => .str raw
  | .lit raw => .lit raw
  | .node isObject lead parts tail =>
    .node isObject lead (if isObject then lastKeys (partsDeduped parts) else partsDeduped parts) tail

@[grind =] def partsDeduped : List (Part Json) → List (Part Json)
  | [] => []
  | ⟨key, colon, value, sep⟩ :: ps => ⟨key, colon, value.deduped, sep⟩ :: partsDeduped ps

end

/-- What the database holds of a value it reads, printed. Only a jsonb value has objects. -/
def Json.stored (j : Json) : Option Json := j.reread.map fun j => j.deduped.sorted

mutual

/-- The separators `row_to_json` prints: those of jsonb, and a plain comma in SQL arrays. -/
@[grind =] def Json.Styled : Json → Prop
  | .str raw => closed raw = true
  | .lit raw => raw ≠ [] ∧ raw.all isLiteralChar = true ∧ raw.count '-' ≤ 2
  | .node isObject lead parts tail => lead = [] ∧ tail = [] ∧ ∃ sep, (sep = [','] ∨ sep = [',', ' '])
    ∧ (isObject = true → sep = [',', ' ']) ∧ partsStyled isObject sep parts

@[grind =] def partsStyled (isObject : Bool) (sep : Text) : List (Part Json) → Prop
  | [] => True
  | ⟨key, colon, value, s⟩ :: ps =>
    (if isObject then closed key = true ∧ colon = [':', ' '] else key = [] ∧ colon = [])
      ∧ value.Styled ∧ s = (if ps.isEmpty then [] else sep) ∧ partsStyled isObject sep ps

end

mutual

/-- Strings as they are printed, objects in jsonb only, their keys in order. -/
@[grind =] def Json.Printed (jsonb : Bool) : Json → Prop
  | .str raw => reprint raw = some raw
  | .lit _ => True
  | .node isObject _ parts _ =>
    (isObject = true → jsonb = true ∧ parts.Pairwise fun p q => keyRank p.key < keyRank q.key)
      ∧ partsPrinted jsonb isObject parts

@[grind =] def partsPrinted (jsonb isObject : Bool) : List (Part Json) → Prop
  | [] => True
  | ⟨key, _, value, _⟩ :: ps => (isObject = true → reprint key = some key) ∧ value.Printed jsonb
    ∧ partsPrinted jsonb isObject ps

end

namespace Remap

/-! ## Rows -/

structure Column where
  name : Text
  jsonb : Bool
  value : Json

def fieldText (c : Column) : Text := '"' :: c.name ++ '"' :: ':' :: c.value.text

@[grind =] def fieldsText : List Column → Text
  | [] => []
  | [c] => fieldText c
  | c :: d :: cs => fieldText c ++ ',' :: fieldsText (d :: cs)

def rowLine (columns : List Column) : Text := '{' :: fieldsText columns ++ ['}']

def isNameChar (c : Char) : Bool := c.isAlphanum || c = '_'

/-- A row line. -/
structure Row where
  columns : List Column
  names : (columns.map (·.name)).Nodup
  plain : ∀ c ∈ columns, c.name.all isNameChar = true
  styled : ∀ c ∈ columns, c.value.Styled
  printed : ∀ c ∈ columns, c.value.Printed c.jsonb

def Row.line (row : Row) : Text := rowLine row.columns

def jsonbColumns (columns : List Column) : List Text := (columns.filter (·.jsonb)).map (·.name)

def substituteValue (m : IdMap) (c : Column) : Column :=
  { c with value := c.value.mapStrings m.substitute }

/-- The row as the database prints it after it has read the line with the new ids. -/
def imported (m : IdMap) (columns : List Column) : Option (List Column) :=
  columns.mapM fun c => ((substituteValue m c).value.stored).map fun v => { c with value := v }

/-- The line the verification takes the digest of. -/
def Row.restored (m : IdMap) (row : Row) : Option Text :=
  match imported m row.columns with
  | none => none
  | some columns => reorderJsonbFields (m.inverse (rowLine columns)) (jsonbColumns row.columns)

end Remap

end MyBooks
