import MyBooks.JsonRead
import MyBooks.Utf8

/-!
# The NDJSON codec of the system dump

A dump is written a row a line, with a line of its own for a table or a tenant that is empty, and
read back line by line: tables are found under their names in plain objects, `(tables[t] ??= [])`.
A plain object also finds what `Object.prototype` has, and no such name is read back
(`decodeSystemDump_ownNames`).
-/

namespace MyBooks

/-- The own members of a plain object. -/
abbrev Members (α : Type) := List (JsString × α)

structure SystemDumpContent where
  metadata : JsValue
  installation_files : JsValue
  tenants : Option (List JsValue)
  users : Option (List JsValue)
  user_tenant_access : Option (List JsValue)
  global_tables : Option (Members (List JsValue))
  tenant_data : Option (Members (Members (List JsValue)))

/-! ## Encoding -/

def isTruthy : JsValue → Bool
  | .undefined => false
  | .null => false
  | .bool b => b
  | .num n => n ≠ .zero
  | .str s => s ≠ []
  | _ => true

/-- `v ?? {}` -/
def orEmpty : JsValue → JsValue
  | .undefined => .obj []
  | .null => .obj []
  | v => v

/-- What a line is of. -/
inductive LineKind
  | metadata | inst | tenants | users | uta | g | td
  deriving DecidableEq

def LineKind.name : LineKind → String
  | metadata => "meta"
  | inst => "inst"
  | tenants => "tenants"
  | users => "users"
  | uta => "uta"
  | g => "g"
  | td => "td"

def dumpLine (k : LineKind) (fields : Members JsValue) : JsValue :=
  .obj ((jsString "k", .str (jsString k.name)) :: fields)

/-- A table's rows, or the line of an empty table. -/
def tableLines (k : LineKind) (fields : Members JsValue) : JsString × List JsValue → List JsValue
  | (t, []) => [dumpLine k (fields ++ [(jsString "t", .str t)])]
  | (t, rows) =>
    rows.map fun row => dumpLine k (fields ++ [(jsString "t", .str t), (jsString "row", row)])

def tenantLines : JsString × Members (List JsValue) → List JsValue
  | (id, []) => [dumpLine .td [(jsString "id", .str id)]]
  | (id, tables) => tables.flatMap (tableLines .td [(jsString "id", .str id)])

def DUMP_MAGIC : JsString := jsString "ndjson-v1"

def headerLine : JsValue := .obj [(jsString "vmdump", .str DUMP_MAGIC)]

def dumpLines (c : SystemDumpContent) : List JsValue :=
  headerLine ::
    dumpLine .metadata [(jsString "v", orEmpty c.metadata)] ::
    ((if isTruthy c.installation_files then
        [dumpLine .inst [(jsString "v", c.installation_files)]] else []) ++
      (c.tenants.getD []).map (fun row => dumpLine .tenants [(jsString "row", row)]) ++
      (c.users.getD []).map (fun row => dumpLine .users [(jsString "row", row)]) ++
      (c.user_tenant_access.getD []).map (fun row => dumpLine .uta [(jsString "row", row)]) ++
      (c.global_tables.getD []).flatMap (tableLines .g []) ++
      (c.tenant_data.getD []).flatMap tenantLines)

def encodeSystemDump (c : SystemDumpContent) : List UInt8 :=
  (dumpLines c).flatMap fun v => utf8Bytes (stringify v ++ ['\n'])

def isNdjsonDump (buf : List UInt8) : Bool :=
  "\"vmdump\"".toList <:+: readUtf8 none ((buf.takeWhile (· ≠ 10)).take 128)

/-! ## Decoding -/

structure DecodedDump where
  metadata : JsValue
  installation_files : JsValue
  tenants : List JsValue
  users : List JsValue
  user_tenant_access : List JsValue
  global_tables : Members (List JsValue)
  tenant_data : Members (Members (List JsValue))

inductive DumpError
  | syntaxError
  | typeError
  deriving DecidableEq

/-- The properties of `Object.prototype`, which every plain object inherits. -/
def inheritedNames : List JsString :=
  ["constructor", "__defineGetter__", "__defineSetter__", "hasOwnProperty", "__lookupGetter__",
    "__lookupSetter__", "isPrototypeOf", "propertyIsEnumerable", "toString", "valueOf", "__proto__",
    "toLocaleString"].map jsString

def isInherited (name : JsString) : Bool := inheritedNames.any (· = name)

/-- No table and no tenant has the name of an inherited property. -/
structure DecodedDump.OwnNames (d : DecodedDump) : Prop where
  global_tables : ∀ t ∈ d.global_tables, isInherited t.1 = false
  tenants : ∀ m ∈ d.tenant_data, isInherited m.1 = false
  tables : ∀ m ∈ d.tenant_data, ∀ t ∈ m.2, isInherited t.1 = false

/-- What is left open of the language. -/
structure Engine where
  /-- The number nearest to a decimal. -/
  round : ShortDecimal → JsNumber
  /-- The property key that a value other than a string stands for. -/
  toKey : JsValue → Except DumpError JsString
  /-- Whether the function that `Object.prototype` has under a name has a property. -/
  functionHas : JsString → JsString → Except DumpError Bool
  /-- What a line does once `Object.prototype` was given a property. -/
  onward : DecodedDump → JsValue → Except DumpError DecodedDump

/-- `(o[name] ??= x)` never gives `o` a name that it inherits. -/
def Engine.Lawful (e : Engine) : Prop :=
  ∀ out v out', out.OwnNames → e.onward out v = .ok out' → out'.OwnNames

/-- The dump read so far, and whether `Object.prototype` was given a property. -/
structure DumpReader where
  out : DecodedDump
  patched : Bool

def keyOf (e : Engine) : JsValue → Except DumpError JsString
  | .str s => .ok s
  | v => e.toKey v

/-- `(tables[t] ??= []).push(row)`, without the push where there is no row. Nothing inherited has a
`push`. -/
def pushInto (tables : Members (List JsValue)) (t : JsString) (row : JsValue) :
    Except DumpError (Members (List JsValue)) :=
  match tables.lookup t with
  | some rows => .ok (if row.isUndefined then tables else putMember t (rows ++ [row]) tables)
  | none =>
    if isInherited t then if row.isUndefined then .ok tables else .error .typeError
    else .ok (putMember t (if row.isUndefined then [] else [row]) tables)

/-- The tables of a tenant with a line's row, none where the line names no table. -/
def pushTable (e : Engine) (tables : Members (List JsValue)) (t row : JsValue) :
    Except DumpError (Members (List JsValue)) :=
  if t.isUndefined then .ok tables else (keyOf e t).bind fun t => pushInto tables t row

/-- A row of a tenant whose id is inherited: its tables are `Object.prototype`, the prototype of
which cannot be set, or one of the functions there. -/
def pushInherited (e : Engine) (s : DumpReader) (id : JsString) (t row : JsValue) :
    Except DumpError DumpReader :=
  if t.isUndefined then .ok s
  else
    (keyOf e t).bind fun t =>
      if id = jsString "__proto__" then
        if t = jsString "__proto__" then .error .typeError
        else if isInherited t then if row.isUndefined then .ok s else .error .typeError
        else .ok { s with patched := true }
      else
        (e.functionHas id t).bind fun has =>
          if has && !row.isUndefined then .error .typeError else .ok s

def handleTable (e : Engine) (s : DumpReader) (t row : JsValue) : Except DumpError DumpReader :=
  (keyOf e t).bind fun t =>
    (pushInto s.out.global_tables t row).map fun tables =>
      { s with out := { s.out with global_tables := tables } }

def handleTenant (e : Engine) (s : DumpReader) (id t row : JsValue) : Except DumpError DumpReader :=
  (keyOf e id).bind fun id =>
    let byTable := s.out.tenant_data.lookup id
    if byTable.isNone && isInherited id then pushInherited e s id t row
    else
      (pushTable e (byTable.getD []) t row).map fun tables =>
        { s with out := { s.out with tenant_data := putMember id tables s.out.tenant_data } }

def lineKind (v : JsValue) : Option LineKind :=
  match v with
  | .str k => [.metadata, .inst, .tenants, .users, .uta, .g, .td].find? fun kind : LineKind =>
    k = jsString kind.name
  | _ => none

/-- `obj[name]` -/
def field (ms : Members JsValue) (name : String) : JsValue :=
  (ms.lookup (jsString name)).getD .undefined

def handleKind (e : Engine) (s : DumpReader) (ms : Members JsValue) :
    Option LineKind → Except DumpError DumpReader
  | some .metadata => .ok { s with out := { s.out with metadata := field ms "v" } }
  | some .inst => .ok { s with out := { s.out with installation_files := field ms "v" } }
  | some .tenants =>
    .ok { s with out := { s.out with tenants := s.out.tenants ++ [field ms "row"] } }
  | some .users => .ok { s with out := { s.out with users := s.out.users ++ [field ms "row"] } }
  | some .uta =>
    .ok { s with out :=
      { s.out with user_tenant_access := s.out.user_tenant_access ++ [field ms "row"] } }
  | some .g => handleTable e s (field ms "t") (field ms "row")
  | some .td => handleTenant e s (field ms "id") (field ms "t") (field ms "row")
  | none => .ok s

/-- `handle`, of a line that was parsed. -/
def handleValue (e : Engine) (s : DumpReader) (v : JsValue) : Except DumpError DumpReader :=
  if s.patched then (e.onward s.out v).map fun out => { s with out }
  else
    match v with
    | .null => .error .typeError
    | .obj ms =>
      if isTruthy (field ms "vmdump") then .ok s else handleKind e s ms (lineKind (field ms "k"))
    | _ => .ok s

def handle (e : Engine) (s : DumpReader) (bytes : List UInt8) : Except DumpError DumpReader :=
  if bytes = [] then .ok s
  else (parseJson e.round (readUtf8 none bytes)).elim (.error .syntaxError) (handleValue e s)

def emptyDump : DecodedDump := ⟨.obj [], .null, [], [], [], [], []⟩

def decodeSystemDump (e : Engine) (buf : List UInt8) : Except DumpError DecodedDump :=
  ((buf.splitOn 10).foldlM (handle e) ⟨emptyDump, false⟩).map (·.out)

/-! ## Names that are inherited -/

section OwnNames

variable {e : Engine} {tables tables' : Members (List JsValue)} {t row : JsValue}

theorem of_lookup {α : Type} {ms : Members α} {P : JsString × α → Prop} (h : ∀ m ∈ ms, P m)
    {key : JsString} {a : α} (hlookup : ms.lookup key = some a) : P (key, a) := by
  obtain ⟨before, after, rfl, -⟩ := List.lookup_eq_some_iff.mp hlookup
  exact h _ (by simp)

theorem of_putMember {α : Type} {ms : Members α} {P : JsString × α → Prop} (h : ∀ m ∈ ms, P m)
    {key : JsString} {a : α} (hkey : P (key, a)) : ∀ m ∈ putMember key a ms, P m := by
  intro m hm
  rcases mem_putMember hm with rfl | hm
  exacts [hkey, h m hm]

/-- Pushing a row gives no table a name that is inherited. -/
theorem pushInto_ownNames {t : JsString} (h : ∀ m ∈ tables, isInherited m.1 = false)
    (hpush : pushInto tables t row = .ok tables') : ∀ m ∈ tables', isInherited m.1 = false := by
  unfold pushInto at hpush
  split at hpush
  · rename_i rows hrows
    have ht := of_lookup (P := fun m => isInherited m.1 = false) h hrows
    obtain rfl := Except.ok.inj hpush
    split_ifs
    · exact h
    · exact of_putMember (P := fun m => isInherited m.1 = false) h ht
  · split at hpush
    · split_ifs at hpush
      exact Except.ok.inj hpush ▸ h
    · rename_i hinherited
      obtain rfl := Except.ok.inj hpush
      exact of_putMember (P := fun m => isInherited m.1 = false) h (by simpa using hinherited)

theorem pushTable_ownNames (h : ∀ m ∈ tables, isInherited m.1 = false)
    (hpush : pushTable e tables t row = .ok tables') : ∀ m ∈ tables', isInherited m.1 = false := by
  unfold pushTable at hpush
  split_ifs at hpush
  · exact Except.ok.inj hpush ▸ h
  · obtain ⟨key, -, hpush⟩ := bind_eq_ok.mp hpush
    exact pushInto_ownNames h hpush

theorem pushInherited_out {s s' : DumpReader} {id : JsString}
    (h : pushInherited e s id t row = .ok s') : s'.out = s.out := by
  unfold pushInherited at h
  split at h
  · exact Except.ok.inj h ▸ rfl
  obtain ⟨key, -, h⟩ := bind_eq_ok.mp h
  split at h
  · split at h
    · cases h
    split at h
    · split at h
      · exact Except.ok.inj h ▸ rfl
      · cases h
    · exact Except.ok.inj h ▸ rfl
  · obtain ⟨has, -, h⟩ := bind_eq_ok.mp h
    split at h
    · cases h
    · exact Except.ok.inj h ▸ rfl

theorem handleTenant_ownNames {s s' : DumpReader} {id : JsValue} (h : s.out.OwnNames)
    (hline : handleTenant e s id t row = .ok s') : s'.out.OwnNames := by
  obtain ⟨id, -, hline⟩ := bind_eq_ok.mp hline
  dsimp only at hline
  split at hline
  · rw [pushInherited_out hline]
    exact h
  rename_i hown
  obtain ⟨tables, htables, rfl⟩ := map_eq_ok.mp hline
  have hbefore : isInherited id = false ∧
      ∀ n ∈ ((s.out.tenant_data.lookup id).getD [] : Members (List JsValue)),
        isInherited n.1 = false := by
    cases hlookup : s.out.tenant_data.lookup id with
    | none =>
      rw [hlookup] at hown
      exact ⟨by simpa using hown, by simp⟩
    | some byTable =>
      exact ⟨of_lookup (P := fun m => isInherited m.1 = false) h.tenants hlookup,
        of_lookup (P := fun m => ∀ n ∈ m.2, isInherited n.1 = false) h.tables hlookup⟩
  obtain ⟨hid, hbefore⟩ := hbefore
  exact ⟨h.global_tables, of_putMember (P := fun m => isInherited m.1 = false) h.tenants hid,
    of_putMember (P := fun m : JsString × Members (List JsValue) =>
      ∀ n ∈ m.2, isInherited n.1 = false) h.tables (pushTable_ownNames hbefore htables)⟩

theorem handleKind_ownNames {s s' : DumpReader} {ms : Members JsValue} {kind : Option LineKind}
    (h : s.out.OwnNames) (hline : handleKind e s ms kind = .ok s') : s'.out.OwnNames := by
  rcases kind with _ | kind
  · exact Except.ok.inj hline ▸ h
  cases kind with
  | g =>
    obtain ⟨key, -, hline⟩ := bind_eq_ok.mp hline
    obtain ⟨tables, htables, rfl⟩ := map_eq_ok.mp hline
    exact ⟨pushInto_ownNames h.global_tables htables, h.tenants, h.tables⟩
  | td => exact handleTenant_ownNames h hline
  | _ =>
    obtain rfl := Except.ok.inj hline
    exact ⟨h.global_tables, h.tenants, h.tables⟩

/-- A line gives no table and no tenant an inherited name. -/
theorem handleValue_ownNames (he : e.Lawful) {s s' : DumpReader} {v : JsValue} (h : s.out.OwnNames)
    (hline : handleValue e s v = .ok s') : s'.out.OwnNames := by
  unfold handleValue at hline
  split at hline
  · obtain ⟨out, hout, rfl⟩ := map_eq_ok.mp hline
    exact he _ _ _ h hout
  split at hline
  · cases hline
  · split at hline
    · exact Except.ok.inj hline ▸ h
    · exact handleKind_ownNames h hline
  · exact Except.ok.inj hline ▸ h

/-- What is read gives no table and no tenant an inherited name. -/
theorem decodeSystemDump_ownNames (he : e.Lawful) {buf : List UInt8} {out : DecodedDump}
    (h : decodeSystemDump e buf = .ok out) : out.OwnNames := by
  obtain ⟨s, hs, rfl⟩ := map_eq_ok.mp h
  have hempty : emptyDump.OwnNames :=
    ⟨by simp [emptyDump], by simp [emptyDump], by simp [emptyDump]⟩
  refine foldlM_keeps (fun s : DumpReader => s.out.OwnNames) ?_ hempty hs
  intro bytes _ s s' hown hline
  unfold handle at hline
  split at hline
  · exact Except.ok.inj hline ▸ hown
  rcases hparse : parseJson e.round (readUtf8 none bytes) with _ | v
  · rw [hparse] at hline
    cases hline
  · rw [hparse] at hline
    exact handleValue_ownNames he hown hline

end OwnNames

end MyBooks
