import MyBooks.SystemDump

/-!
# What a system dump is read back as

Tables and tenants are put together row by row as they were listed, so a dump that uses no name of
`Object.prototype` is read back as it was, and no other is (`decodeSystemDump_encodeSystemDump`).
-/

namespace MyBooks

/-! ## Rows -/

section Tables

variable {tables : Members (List JsValue)} {t : JsString} {rows : List JsValue}

theorem pushInto_new (hlast : IsLast t tables) (hname : isInherited t = false) (row : JsValue) :
    pushInto tables t row = .ok (tables ++ [(t, if row.isUndefined then [] else [row])]) := by
  unfold pushInto
  rw [lookup_isLast hlast]
  dsimp only
  rw [hname, if_neg Bool.false_ne_true, putMember_last hlast]

theorem pushInto_again (hlast : IsLast t tables) {row : JsValue} (hrow : row.isUndefined = false) :
    pushInto (tables ++ [(t, rows)]) t row = .ok (tables ++ [(t, rows ++ [row])]) := by
  unfold pushInto
  rw [lookup_concat hlast]
  dsimp only
  rw [hrow, if_neg Bool.false_ne_true, putMember_again hlast]

/-- Further rows of the table that was begun last. -/
theorem push_rows (hlast : IsLast t tables) : ∀ {rows done : List JsValue},
    (∀ row ∈ rows, row.isUndefined = false) →
      rows.foldlM (pushInto · t ·) (tables ++ [(t, done)]) = .ok (tables ++ [(t, done ++ rows)])
  | [], done, _ => by rw [List.append_nil]; rfl
  | row :: rows, done, h => by
    obtain ⟨hrow, hrows⟩ := List.forall_mem_cons.mp h
    rw [List.foldlM_cons, pushInto_again hlast hrow, ok_bind, push_rows hlast hrows]
    simp

/-- The rows of a table's lines; the line of an empty table has none. -/
def lineRows (rows : List JsValue) : List JsValue := if rows.isEmpty then [.undefined] else rows

theorem push_lineRows (hlast : IsLast t tables) (hname : isInherited t = false)
    (hrows : ∀ row ∈ rows, row.isUndefined = false) :
    (lineRows rows).foldlM (pushInto · t ·) tables = .ok (tables ++ [(t, rows)]) := by
  cases rows with
  | nil =>
    rw [lineRows, List.isEmpty_nil, if_pos rfl, List.foldlM_cons, pushInto_new hlast hname, ok_bind]
    rfl
  | cons row rows =>
    obtain ⟨hrow, hrest⟩ := List.forall_mem_cons.mp hrows
    rw [lineRows, List.isEmpty_cons, if_neg Bool.false_ne_true, List.foldlM_cons,
      pushInto_new hlast hname, ok_bind, hrow, if_neg Bool.false_ne_true, push_rows hlast hrest]
    rfl

/-- The rows of all tables, with the names of the tables. -/
def tableRows (tables : Members (List JsValue)) : List (JsString × JsValue) :=
  tables.flatMap fun t => (lineRows t.2).map (t.1, ·)

/-- Tables that can be found under their names: listed as an object lists them, of rows that are
values. -/
structure Findable (tables : Members (List JsValue)) : Prop where
  listed : Listed tables
  names : ∀ t ∈ tables, isInherited t.1 = false
  rows : ∀ t ∈ tables, ∀ row ∈ t.2, row.isUndefined = false

/-- Tables are put together from their rows. -/
theorem push_tableRows : ∀ {tables done : Members (List JsValue)}, Findable (done ++ tables) →
    (tableRows tables).foldlM (fun ts r => pushInto ts r.1 r.2) done = .ok (done ++ tables)
  | [], done, _ => by rw [List.append_nil]; rfl
  | t :: tables, done, h => by
    have ht : t ∈ done ++ t :: tables := by simp
    have hfirst := push_lineRows h.listed.isLast (h.names t ht) (h.rows t ht)
    have hnext : Findable ((done ++ [t]) ++ tables) := by
      rw [List.append_assoc]
      exact h
    have hstep : ((lineRows t.2).map (t.1, ·)).foldlM
        (fun ts r => pushInto ts r.1 r.2) done = .ok (done ++ [t]) := by
      rw [List.foldlM_map]
      exact hfirst
    rw [tableRows, List.flatMap_cons, List.foldlM_append, hstep, ok_bind]
    exact (push_tableRows hnext).trans (by rw [List.append_assoc]; rfl)

end Tables

section Tenants

/-- A row of a tenant, or what its line without a table does. -/
def pushTenant (data : Members (Members (List JsValue))) (id : JsString)
    (row : Option (JsString × JsValue)) : Except DumpError (Members (Members (List JsValue))) :=
  (row.elim (.ok ((data.lookup id).getD [])) fun r =>
    pushInto ((data.lookup id).getD []) r.1 r.2).map fun tables => putMember id tables data

def tenantRows (tables : Members (List JsValue)) : List (Option (JsString × JsValue)) :=
  if tables.isEmpty then [none] else (tableRows tables).map some

variable {data : Members (Members (List JsValue))} {id : JsString}

theorem tableRows_ne_nil (t : JsString × List JsValue) (tables : Members (List JsValue)) :
    ∃ r rs, tableRows (t :: tables) = r :: rs := by
  obtain ⟨name, rows⟩ := t
  cases rows <;> exact ⟨_, _, rfl⟩

theorem pushTenant_again (hlast : IsLast id data) (tables : Members (List JsValue))
    (r : JsString × JsValue) : pushTenant (data ++ [(id, tables)]) id (some r) =
      (pushInto tables r.1 r.2).map fun tables => data ++ [(id, tables)] := by
  unfold pushTenant
  rw [lookup_concat hlast, Option.getD_some, Option.elim_some]
  exact congrArg (fun f => Except.map f _) (funext fun tables => putMember_again hlast)

/-- A tenant is put together from its rows. -/
theorem push_tenantRows (hlast : IsLast id data) {tables : Members (List JsValue)}
    (h : Findable tables) :
    (tenantRows tables).foldlM (pushTenant · id ·) data = .ok (data ++ [(id, tables)]) := by
  cases tables with
  | nil =>
    rw [tenantRows, List.isEmpty_nil, if_pos rfl, List.foldlM_cons, pushTenant,
      lookup_isLast hlast, Option.elim_none, Option.getD_none, Except.map, putMember_last hlast]
    rfl
  | cons t ts =>
    have hrows : (tableRows (t :: ts)).foldlM (fun ts r => pushInto ts r.1 r.2) [] =
        .ok ([] ++ t :: ts) := push_tableRows h
    obtain ⟨r, rs, hr⟩ := tableRows_ne_nil t ts
    rw [hr, List.foldlM_cons, List.nil_append] at hrows
    obtain ⟨tables, hfirst, hrest⟩ := bind_eq_ok.mp hrows
    have hbegin : pushTenant data id (some r) = .ok (data ++ [(id, tables)]) := by
      unfold pushTenant
      rw [lookup_isLast hlast, Option.getD_none, Option.elim_some, hfirst, Except.map,
        putMember_last hlast]
    have hinside : (rs.map some).foldlM (pushTenant · id ·) (data ++ [(id, tables)]) =
        (rs.foldlM (fun ts r => pushInto ts r.1 r.2) tables).map fun ts => data ++ [(id, ts)] :=
      foldlM_inside (i := fun ts => data ++ [(id, ts)]) fun r _ ts => pushTenant_again hlast ts r
    rw [tenantRows, List.isEmpty_cons, if_neg Bool.false_ne_true, hr, List.map_cons,
      List.foldlM_cons, hbegin, ok_bind, hinside, hrest]
    rfl

end Tenants

section Lines

variable {e : Engine} {out : DecodedDump}

/-- The line of a row, without what is undefined. -/
def rowLine (k : LineKind) (fields : Members JsValue) (r : JsString × JsValue) : JsValue :=
  dumpLine k (fields ++ (jsString "t", .str r.1) ::
    if r.2.isUndefined then [] else [(jsString "row", r.2)])

theorem tableLines_eq (k : LineKind) (fields : Members JsValue) {t : JsString × List JsValue}
    (h : ∀ row ∈ t.2, row.isUndefined = false) :
    tableLines k fields t = ((lineRows t.2).map (t.1, ·)).map (rowLine k fields) := by
  obtain ⟨name, rows⟩ := t
  cases rows with
  | nil => rfl
  | cons row rows =>
    rw [tableLines, lineRows, List.isEmpty_cons, if_neg Bool.false_ne_true, List.map_map]
    · refine List.map_congr_left fun r hr => ?_
      rw [Function.comp_apply, rowLine, h r hr, if_neg Bool.false_ne_true]
    · exact List.cons_ne_nil _ _

theorem tablesLines_eq (k : LineKind) (fields : Members JsValue) :
    ∀ {tables : Members (List JsValue)}, (∀ t ∈ tables, ∀ row ∈ t.2, row.isUndefined = false) →
      tables.flatMap (tableLines k fields) = (tableRows tables).map (rowLine k fields)
  | [], _ => rfl
  | t :: tables, h => by
    obtain ⟨ht, hrest⟩ := List.forall_mem_cons.mp h
    rw [List.flatMap_cons, tableLines_eq k fields ht, tablesLines_eq k fields hrest, tableRows,
      tableRows, List.flatMap_cons, List.map_append]

/-- The line of a tenant's row. -/
def tenantLine (id : JsString) (row : Option (JsString × JsValue)) : JsValue :=
  row.elim (dumpLine .td [(jsString "id", .str id)]) (rowLine .td [(jsString "id", .str id)])

theorem tenantLines_eq {m : JsString × Members (List JsValue)} (h : Findable m.2) :
    tenantLines m = (tenantRows m.2).map (tenantLine m.1) := by
  obtain ⟨id, tables⟩ := m
  cases tables with
  | nil => rfl
  | cons t tables =>
    rw [tenantLines, tenantRows, List.isEmpty_cons, if_neg Bool.false_ne_true, List.map_map,
      tablesLines_eq _ _ h.rows]
    · rfl
    · exact List.cons_ne_nil _ _

theorem lineKind_name (k : LineKind) : lineKind (.str (jsString k.name)) = some k := by
  cases k <;> decide

theorem field_self (name : String) (v : JsValue) (ms : Members JsValue) :
    field ((jsString name, v) :: ms) name = v := by
  rw [field, List.lookup_cons_self, Option.getD_some]

theorem field_of_ne {a b : String} (h : jsString b ≠ jsString a) (v : JsValue)
    (ms : Members JsValue) : field ((jsString a, v) :: ms) b = field ms b := by
  rw [field, field, List.lookup_cons, beq_eq_false_iff_ne.mpr h]

theorem handleValue_line (k : LineKind) {fields : Members JsValue}
    (h : field fields "vmdump" = .undefined) :
    handleValue e ⟨out, false⟩ (dumpLine k fields) =
      handleKind e ⟨out, false⟩ ((jsString "k", .str (jsString k.name)) :: fields) (some k) := by
  unfold handleValue dumpLine
  rw [if_neg Bool.false_ne_true]
  dsimp only
  rw [field_of_ne (by decide), h, field_self, lineKind_name]
  rfl

theorem eq_undefined {v : JsValue} (h : v.isUndefined = true) : v = .undefined := by
  cases v <;> first | rfl | cases h

theorem handleValue_table (out : DecodedDump) (r : JsString × JsValue) :
    handleValue e ⟨out, false⟩ (rowLine .g [] r) =
      (pushInto out.global_tables r.1 r.2).map fun tables =>
        ⟨{ out with global_tables := tables }, false⟩ := by
  obtain ⟨t, row⟩ := r
  rw [rowLine]
  cases hrow : row.isUndefined with
  | true =>
    obtain rfl := eq_undefined hrow
    rw [handleValue_line _ rfl]
    rfl
  | false =>
    rw [handleValue_line _ rfl]
    rfl

theorem handleTenant_own {id : JsString} (hid : isInherited id = false) (t row : JsValue) :
    handleTenant e ⟨out, false⟩ (.str id) t row =
      (pushTable e ((out.tenant_data.lookup id).getD []) t row).map fun tables =>
        ⟨{ out with tenant_data := putMember id tables out.tenant_data }, false⟩ := by
  rw [handleTenant, keyOf]
  simp only [Except.bind, hid, Bool.and_false, Bool.false_eq_true, if_false]

theorem handleValue_tenant (out : DecodedDump) {id : JsString} (hid : isInherited id = false)
    (row : Option (JsString × JsValue)) :
    handleValue e ⟨out, false⟩ (tenantLine id row) = (pushTenant out.tenant_data id row).map
      fun data => ⟨{ out with tenant_data := data }, false⟩ := by
  rcases row with _ | ⟨t, row⟩
  · rw [tenantLine, Option.elim_none, handleValue_line _ rfl]
    exact handleTenant_own hid .undefined .undefined
  rw [tenantLine, Option.elim_some, rowLine]
  have hpush : ∀ row, handleTenant e ⟨out, false⟩ (.str id) (.str t) row =
      (pushTenant out.tenant_data id (some (t, row))).map
        fun data => ⟨{ out with tenant_data := data }, false⟩ := by
    intro row
    rw [handleTenant_own hid, pushTenant, Option.elim_some]
    cases hrow : pushInto ((out.tenant_data.lookup id).getD []) t row with
    | error err =>
      simp [pushTable, keyOf, JsValue.isUndefined, Except.bind, hrow, Except.map]
    | ok tables =>
      simp [pushTable, keyOf, JsValue.isUndefined, Except.bind, hrow, Except.map]
  cases hrow : row.isUndefined with
  | true =>
    obtain rfl := eq_undefined hrow
    rw [handleValue_line _ rfl]
    exact hpush .undefined
  | false =>
    rw [handleValue_line _ rfl]
    exact hpush row

/-- The rows of a list are read in their order. -/
theorem read_rows (inside : List JsValue → DecodedDump) {line : JsValue → JsValue}
    (hline : ∀ row rows, handleValue e ⟨inside rows, false⟩ (line row) =
      .ok ⟨inside (rows ++ [row]), false⟩) (rows : List JsValue) :
    (rows.map line).foldlM (handleValue e) ⟨inside [], false⟩ = .ok ⟨inside rows, false⟩ := by
  rw [foldlM_inside (g := fun acc row => .ok (acc ++ [row]))
    (i := fun rows => (⟨inside rows, false⟩ : DumpReader)) fun row _ rows => hline row rows,
    foldlM_collect]
  rfl

/-- The global tables are read as they were written. -/
theorem read_tables (out : DecodedDump) {tables : Members (List JsValue)} (h : Findable tables)
    (hout : out.global_tables = []) :
    (tables.flatMap (tableLines .g [])).foldlM (handleValue e) ⟨out, false⟩ =
      .ok ⟨{ out with global_tables := tables }, false⟩ := by
  have hstart : (⟨out, false⟩ : DumpReader) = ⟨{ out with global_tables := [] }, false⟩ := by
    rw [← hout]
  have hrows : (tableRows tables).foldlM (fun ts r => pushInto ts r.1 r.2) [] =
      .ok ([] ++ tables) := push_tableRows h
  rw [tablesLines_eq _ _ h.rows, hstart, foldlM_inside
    (g := fun ts (r : JsString × JsValue) => pushInto ts r.1 r.2)
    (i := fun tables => (⟨{ out with global_tables := tables }, false⟩ : DumpReader))
    fun r _ tables => handleValue_table { out with global_tables := tables } r, hrows]
  rfl

/-- The tenants are read as they were written. -/
theorem read_tenants : ∀ {data done : Members (Members (List JsValue))} (out : DecodedDump),
    Listed (done ++ data) → (∀ m ∈ data, isInherited m.1 = false ∧ Findable m.2) →
    out.tenant_data = done →
    (data.flatMap tenantLines).foldlM (handleValue e) ⟨out, false⟩ =
      .ok ⟨{ out with tenant_data := done ++ data }, false⟩
  | [], _, out, _, _, hout => by
    rw [List.append_nil, ← hout]
    rfl
  | m :: data, done, out, hlisted, hdata, hout => by
    obtain ⟨⟨hid, hm⟩, hrest⟩ := List.forall_mem_cons.mp hdata
    have hlisted' : Listed ((done ++ [m]) ++ data) := by
      rw [List.append_assoc]
      exact hlisted
    have hstart : (⟨out, false⟩ : DumpReader) = ⟨{ out with tenant_data := done }, false⟩ := by
      rw [← hout]
    rw [List.flatMap_cons, List.foldlM_append, tenantLines_eq hm, hstart, foldlM_inside
      (g := (pushTenant · m.1 ·))
      (i := fun data => (⟨{ out with tenant_data := data }, false⟩ : DumpReader))
      fun row _ data => handleValue_tenant { out with tenant_data := data } hid row,
      push_tenantRows hlisted.isLast hm]
    have hnext := read_tenants { out with tenant_data := done ++ [m] } hlisted' hrest rfl
    rw [List.append_assoc] at hnext
    exact hnext

end Lines

/-! ## Bytes -/

section Bytes

variable {e : Engine}

theorem bytes_ne_nil {v : JsValue} (h : IsJson e.round v) : utf8Bytes (stringify v) ≠ [] := by
  obtain ⟨c, t, hct, -⟩ := stringify_starts h
  rw [hct, utf8Bytes, List.flatMap_cons]
  exact List.append_ne_nil_of_left_ne_nil String.utf8EncodeChar_ne_nil _

theorem handle_bytes {v : JsValue} (h : IsJson e.round v) (s : DumpReader) :
    handle e s (utf8Bytes (stringify v)) = handleValue e s v := by
  rw [handle, if_neg (bytes_ne_nil h), readUtf8_bytes, parse_stringify h, Option.elim_some]

theorem splitOn_lines : ∀ {ls : List (List UInt8)}, (∀ l ∈ ls, 10 ∉ l) →
    (ls.flatMap (· ++ [10])).splitOn 10 = ls ++ [[]]
  | [], _ => rfl
  | l :: ls, h => by
    obtain ⟨hl, hls⟩ := List.forall_mem_cons.mp h
    have hplain : ∀ b ∈ l, (b == 10) = false := by
      intro b hb
      exact beq_eq_false_iff_ne.mpr fun heq => hl (heq ▸ hb)
    have hrest := splitOn_lines hls
    rw [List.splitOn] at hrest ⊢
    rw [List.flatMap_cons, List.append_assoc, List.singleton_append,
      List.splitOnP_append_cons_of_forall_mem hplain 10 rfl, hrest, List.cons_append]

/-- A text of lines is read line by line. -/
theorem read_bytes {vs : List JsValue} (h : ∀ v ∈ vs, IsJson e.round v) (s : DumpReader) :
    ((vs.flatMap fun v => utf8Bytes (stringify v ++ ['\n'])).splitOn 10).foldlM (handle e) s =
      vs.foldlM (handleValue e) s := by
  have hlines : (vs.flatMap fun v => utf8Bytes (stringify v ++ ['\n'])) =
      (vs.map fun v => utf8Bytes (stringify v)).flatMap (· ++ [10]) := by
    rw [List.flatMap_map]
    refine List.flatMap_congr fun v _ => ?_
    rw [utf8Bytes, utf8Bytes, List.flatMap_append]
    rfl
  have hplain : ∀ l ∈ vs.map fun v => utf8Bytes (stringify v), 10 ∉ l := by
    intro l hl hmem
    obtain ⟨v, -, rfl⟩ := List.mem_map.mp hl
    exact newline_notMem_stringify v (newline_of_mem_bytes hmem)
  have hstep : ∀ {vs : List JsValue} {s : DumpReader}, (∀ v ∈ vs, IsJson e.round v) →
      (vs.map fun v => utf8Bytes (stringify v)).foldlM (handle e) s =
        vs.foldlM (handleValue e) s := by
    intro vs
    induction vs with
    | nil => exact fun _ => rfl
    | cons v vs ih =>
      intro s h
      obtain ⟨hv, hvs⟩ := List.forall_mem_cons.mp h
      rw [List.map_cons, List.foldlM_cons, List.foldlM_cons, handle_bytes hv]
      cases handleValue e s v with
      | error err => rfl
      | ok s' => exact ih hvs
  rw [hlines, splitOn_lines hplain, List.foldlM_append, hstep h]
  cases vs.foldlM (handleValue e) s with
  | error err => rfl
  | ok s' => rfl

end Bytes

/-! ## The round trip -/

/-- A dump whose rows are values of JSON. A part may be missing. -/
structure SystemDumpContent.IsDump (round : ShortDecimal → JsNumber) (c : SystemDumpContent) :
    Prop where
  metadata : c.metadata = .undefined ∨ IsJson round c.metadata
  installation_files : c.installation_files = .undefined ∨ IsJson round c.installation_files
  tenants : ∀ row ∈ c.tenants.getD [], IsJson round row
  users : ∀ row ∈ c.users.getD [], IsJson round row
  user_tenant_access : ∀ row ∈ c.user_tenant_access.getD [], IsJson round row
  global_listed : Listed (c.global_tables.getD [])
  global_rows : ∀ t ∈ c.global_tables.getD [], ∀ row ∈ t.2, IsJson round row
  tenants_listed : Listed (c.tenant_data.getD [])
  tables_listed : ∀ m ∈ c.tenant_data.getD [], Listed m.2
  tables_rows : ∀ m ∈ c.tenant_data.getD [], ∀ t ∈ m.2, ∀ row ∈ t.2, IsJson round row

/-- The dump, with what stands for a part that is missing. -/
def SystemDumpContent.whole (c : SystemDumpContent) : DecodedDump where
  metadata := orEmpty c.metadata
  installation_files := if isTruthy c.installation_files then c.installation_files else .null
  tenants := c.tenants.getD []
  users := c.users.getD []
  user_tenant_access := c.user_tenant_access.getD []
  global_tables := c.global_tables.getD []
  tenant_data := c.tenant_data.getD []

/-- What a dump has is there again as it was. -/
structure DecodedDump.Restores (d : DecodedDump) (c : SystemDumpContent) : Prop where
  metadata : c.metadata = .undefined ∨ d.metadata = c.metadata
  installation_files : c.installation_files = .undefined ∨ d.installation_files = c.installation_files
  tenants : c.tenants = none ∨ c.tenants = some d.tenants
  users : c.users = none ∨ c.users = some d.users
  user_tenant_access : c.user_tenant_access = none ∨ c.user_tenant_access = some d.user_tenant_access
  global_tables : c.global_tables = none ∨ c.global_tables = some d.global_tables
  tenant_data : c.tenant_data = none ∨ c.tenant_data = some d.tenant_data

/-- Metadata are no `null`, and installation files are something, missing or `null`. -/
structure SystemDumpContent.Given (c : SystemDumpContent) : Prop where
  metadata : c.metadata ≠ .null
  installation_files : isTruthy c.installation_files = true ∨ c.installation_files = .undefined ∨
    c.installation_files = .null

theorem SystemDumpContent.Given.restores {c : SystemDumpContent} (h : c.Given) :
    c.whole.Restores c where
  metadata := by
    have hnull := h.metadata
    unfold whole
    cases hm : c.metadata <;> simp [orEmpty] at hnull ⊢
    exact hnull hm
  installation_files := by
    rcases h.installation_files with htruthy | hnone | hnull
    · exact .inr (if_pos htruthy)
    · exact .inl hnone
    · refine .inr ?_
      unfold whole
      rw [hnull]
      rfl
  tenants := (Option.eq_none_or_eq_some _).imp_right fun ⟨_, h⟩ => by rw [whole, h]; rfl
  users := (Option.eq_none_or_eq_some _).imp_right fun ⟨_, h⟩ => by rw [whole, h]; rfl
  user_tenant_access := (Option.eq_none_or_eq_some _).imp_right fun ⟨_, h⟩ => by rw [whole, h]; rfl
  global_tables := (Option.eq_none_or_eq_some _).imp_right fun ⟨_, h⟩ => by rw [whole, h]; rfl
  tenant_data := (Option.eq_none_or_eq_some _).imp_right fun ⟨_, h⟩ => by rw [whole, h]; rfl

section RoundTrip

variable {e : Engine} {c : SystemDumpContent}

theorem isJson_line {k : LineKind} {fields : Members JsValue}
    (hkeys : (jsString "k" :: fields.map Prod.fst).Pairwise fun a b =>
      a ≠ b ∧ keyBefore b a = false)
    (h : ∀ m ∈ fields, IsJson e.round m.2) : IsJson e.round (dumpLine k fields) :=
  .obj hkeys (List.forall_mem_cons.mpr ⟨.str _, h⟩)

theorem isJson_field {k : LineKind} {v : JsValue} (h : IsJson e.round v) :
    IsJson e.round (dumpLine k [(jsString "row", v)]) ∧
      IsJson e.round (dumpLine k [(jsString "v", v)]) := by
  refine ⟨isJson_line ?_ (by simpa using h), isJson_line ?_ (by simpa using h)⟩
  all_goals
    simp only [List.map_cons, List.map_nil]
    decide

theorem isJson_rowLine {k : LineKind} {fields : Members JsValue}
    (hfields : fields = [] ∨ ∃ id, fields = [(jsString "id", .str id)]) {r : JsString × JsValue}
    (h : r.2.isUndefined = true ∨ IsJson e.round r.2) : IsJson e.round (rowLine k fields r) := by
  obtain ⟨t, row⟩ := r
  have hids : ∀ m ∈ fields, IsJson e.round m.2 := by
    obtain rfl | ⟨id, rfl⟩ := hfields
    · simp
    · simpa using IsJson.str id
  unfold rowLine
  refine isJson_line ?_ ?_
  · obtain rfl | ⟨id, rfl⟩ := hfields <;> cases row.isUndefined
    all_goals
      simp only [Bool.false_eq_true, if_true, if_false, List.map_cons, List.map_nil,
        List.nil_append, List.cons_append]
      decide
  · intro m hm
    rcases List.mem_append.mp hm with hm | hm
    · exact hids m hm
    rcases List.mem_cons.mp hm with rfl | hm
    · exact .str t
    split_ifs at hm with hrow
    · cases hm
    · obtain rfl := List.mem_singleton.mp hm
      exact h.resolve_left hrow

theorem of_mem_tableRows {tables : Members (List JsValue)}
    (h : ∀ t ∈ tables, ∀ row ∈ t.2, IsJson e.round row) {r : JsString × JsValue}
    (hr : r ∈ tableRows tables) : r.2.isUndefined = true ∨ IsJson e.round r.2 := by
  obtain ⟨t, ht, hr⟩ := List.mem_flatMap.mp hr
  obtain ⟨row, hrow, rfl⟩ := List.mem_map.mp hr
  unfold lineRows at hrow
  split_ifs at hrow
  · exact .inl (List.mem_singleton.mp hrow ▸ rfl)
  · exact .inr (h t ht row hrow)

theorem defined_rows {tables : Members (List JsValue)}
    (h : ∀ t ∈ tables, ∀ row ∈ t.2, IsJson e.round row) :
    ∀ t ∈ tables, ∀ row ∈ t.2, row.isUndefined = false :=
  fun t ht row hrow => (h t ht row hrow).defined

theorem isJson_tables {k : LineKind} {fields : Members JsValue}
    (hfields : fields = [] ∨ ∃ id, fields = [(jsString "id", .str id)])
    {tables : Members (List JsValue)} (h : ∀ t ∈ tables, ∀ row ∈ t.2, IsJson e.round row) :
    ∀ v ∈ tables.flatMap (tableLines k fields), IsJson e.round v := by
  intro v hv
  rw [tablesLines_eq k fields (defined_rows h)] at hv
  obtain ⟨r, hr, rfl⟩ := List.mem_map.mp hv
  exact isJson_rowLine hfields (of_mem_tableRows h hr)

theorem isJson_tenant {m : JsString × Members (List JsValue)}
    (h : ∀ t ∈ m.2, ∀ row ∈ t.2, IsJson e.round row) : ∀ v ∈ tenantLines m, IsJson e.round v := by
  obtain ⟨id, tables⟩ := m
  cases tables with
  | nil =>
    intro v hv
    obtain rfl := List.mem_singleton.mp hv
    refine isJson_line ?_ (by simpa using IsJson.str id)
    simp only [List.map_cons, List.map_nil]
    decide
  | cons t tables =>
    rw [tenantLines]
    · exact isJson_tables (.inr ⟨id, rfl⟩) h
    · exact List.cons_ne_nil _ _

theorem isJson_orEmpty {v : JsValue} (h : v = .undefined ∨ IsJson e.round v) :
    IsJson e.round (orEmpty v) := by
  have hempty : IsJson e.round (.obj []) := .obj .nil (by simp)
  obtain rfl | h := h
  · exact hempty
  · cases v with
    | undefined | null => exact hempty
    | _ => exact h

/-- Every line is a value of JSON. -/
theorem isJson_dumpLines (hc : c.IsDump e.round) : ∀ v ∈ dumpLines c, IsJson e.round v := by
  have hrows : ∀ {k : LineKind} {rows : List JsValue}, (∀ row ∈ rows, IsJson e.round row) →
      ∀ v ∈ rows.map fun row => dumpLine k [(jsString "row", row)], IsJson e.round v := by
    intro k rows h v hv
    obtain ⟨row, hrow, rfl⟩ := List.mem_map.mp hv
    exact (isJson_field (h row hrow)).1
  have hinst : ∀ v ∈ (if isTruthy c.installation_files then
      [dumpLine .inst [(jsString "v", c.installation_files)]] else []), IsJson e.round v := by
    intro v hv
    split_ifs at hv with htruthy
    · obtain rfl := List.mem_singleton.mp hv
      obtain h | h := hc.installation_files
      · rw [h] at htruthy
        cases htruthy
      · exact (isJson_field h).2
    · cases hv
  refine List.forall_mem_cons.mpr ⟨.obj (List.pairwise_singleton _ _)
    (by simpa using IsJson.str _), List.forall_mem_cons.mpr
      ⟨(isJson_field (isJson_orEmpty hc.metadata)).2, ?_⟩⟩
  intro v hv
  simp only [List.mem_append, or_assoc] at hv
  obtain h | h | h | h | h | h := hv
  · exact hinst v h
  · exact hrows hc.tenants v h
  · exact hrows hc.users v h
  · exact hrows hc.user_tenant_access v h
  · exact isJson_tables (.inl rfl) hc.global_rows v h
  · obtain ⟨m, hm, h⟩ := List.mem_flatMap.mp h
    exact isJson_tenant (hc.tables_rows m hm) v h

/-- The lines are read as the dump. -/
theorem read_dumpLines (hc : c.IsDump e.round) (hown : c.whole.OwnNames) :
    (dumpLines c).foldlM (handleValue e) ⟨emptyDump, false⟩ = .ok ⟨c.whole, false⟩ := by
  have htables : Findable (c.global_tables.getD []) :=
    ⟨hc.global_listed, hown.global_tables, defined_rows hc.global_rows⟩
  have htenants : ∀ m ∈ c.tenant_data.getD [], isInherited m.1 = false ∧ Findable m.2 :=
    fun m hm => ⟨hown.tenants m hm, hc.tables_listed m hm, hown.tables m hm,
      defined_rows (hc.tables_rows m hm)⟩
  have hheader : handleValue e ⟨emptyDump, false⟩ headerLine = .ok ⟨emptyDump, false⟩ := rfl
  obtain ⟨m, hm⟩ : ∃ m, orEmpty c.metadata = m := ⟨_, rfl⟩
  have hmetadata : handleValue e ⟨emptyDump, false⟩ (dumpLine .metadata [(jsString "v", m)]) =
      .ok ⟨⟨m, .null, [], [], [], [], []⟩, false⟩ := (handleValue_line _ rfl).trans rfl
  obtain ⟨i, hi⟩ : ∃ i, (if isTruthy c.installation_files = true then c.installation_files
    else .null) = i := ⟨_, rfl⟩
  have hinst : (if isTruthy c.installation_files then
      [dumpLine .inst [(jsString "v", c.installation_files)]] else []).foldlM (handleValue e)
        ⟨⟨m, .null, [], [], [], [], []⟩, false⟩ = .ok ⟨⟨m, i, [], [], [], [], []⟩, false⟩ := by
    split_ifs at hi ⊢
    · rw [List.foldlM_cons, handleValue_line _ rfl, ← hi]
      rfl
    · rw [← hi]
      rfl
  obtain ⟨ts, hts⟩ : ∃ ts, c.tenants.getD [] = ts := ⟨_, rfl⟩
  obtain ⟨us, hus⟩ : ∃ us, c.users.getD [] = us := ⟨_, rfl⟩
  obtain ⟨as, has⟩ : ∃ as, c.user_tenant_access.getD [] = as := ⟨_, rfl⟩
  have htenantRows : (ts.map fun row => dumpLine .tenants [(jsString "row", row)]).foldlM
      (handleValue e) ⟨⟨m, i, [], [], [], [], []⟩, false⟩ =
        .ok ⟨⟨m, i, ts, [], [], [], []⟩, false⟩ :=
    read_rows (fun rows => ⟨m, i, rows, [], [], [], []⟩)
      (fun row rows => (handleValue_line _ rfl).trans rfl) ts
  have husers : (us.map fun row => dumpLine .users [(jsString "row", row)]).foldlM
      (handleValue e) ⟨⟨m, i, ts, [], [], [], []⟩, false⟩ =
        .ok ⟨⟨m, i, ts, us, [], [], []⟩, false⟩ :=
    read_rows (fun rows => ⟨m, i, ts, rows, [], [], []⟩)
      (fun row rows => (handleValue_line _ rfl).trans rfl) us
  have haccess : (as.map fun row => dumpLine .uta [(jsString "row", row)]).foldlM
      (handleValue e) ⟨⟨m, i, ts, us, [], [], []⟩, false⟩ =
        .ok ⟨⟨m, i, ts, us, as, [], []⟩, false⟩ :=
    read_rows (fun rows => ⟨m, i, ts, us, rows, [], []⟩)
      (fun row rows => (handleValue_line _ rfl).trans rfl) as
  have hglobals := read_tables (e := e) ⟨m, i, ts, us, as, [], []⟩ htables rfl
  have hdata := read_tenants (e := e) ⟨m, i, ts, us, as, c.global_tables.getD [], []⟩
    hc.tenants_listed htenants rfl
  unfold dumpLines SystemDumpContent.whole
  rw [hm, hi, hts, hus, has, List.foldlM_cons, hheader, ok_bind, List.foldlM_cons, hmetadata,
    ok_bind]
  simp only [List.foldlM_append, hinst, ok_bind, htenantRows, husers, haccess, hglobals]
  exact hdata

theorem encodeSystemDump_header (c : SystemDumpContent) :
    ∃ rest, encodeSystemDump c = utf8Bytes (stringify headerLine) ++ 10 :: rest := by
  have hbytes : utf8Bytes (stringify headerLine ++ ['\n']) =
      utf8Bytes (stringify headerLine) ++ [10] := List.flatMap_append
  obtain ⟨vs, hvs⟩ : ∃ vs, dumpLines c = headerLine :: vs := ⟨_, rfl⟩
  refine ⟨vs.flatMap fun v => utf8Bytes (stringify v ++ ['\n']), ?_⟩
  rw [encodeSystemDump, hvs, List.flatMap_cons, hbytes, List.append_assoc, List.singleton_append]

/-- An encoded dump is told by its first line. -/
theorem isNdjsonDump_encodeSystemDump (c : SystemDumpContent) :
    isNdjsonDump (encodeSystemDump c) = true := by
  have hshort : (utf8Bytes (stringify headerLine)).length ≤ 128 := by decide +kernel
  have hmagic : "\"vmdump\"".toList <:+: stringify headerLine := by decide +kernel
  obtain ⟨rest, hrest⟩ := encodeSystemDump_header c
  have hplain := newline_notMem_stringify headerLine
  generalize stringify headerLine = header at hshort hmagic hrest hplain
  have hbytes : ∀ b ∈ utf8Bytes header, decide (b ≠ 10) = true := by
    intro b hb
    exact decide_eq_true fun h => hplain (newline_of_mem_bytes (h ▸ hb))
  have htake : (utf8Bytes header ++ 10 :: rest).takeWhile (· ≠ 10) = utf8Bytes header := by
    rw [List.takeWhile_append_of_pos hbytes, List.takeWhile_cons_of_neg (by decide),
      List.append_nil]
  have hread : readUtf8 none (((encodeSystemDump c).takeWhile (· ≠ 10)).take 128) = header := by
    rw [hrest, htake, List.take_of_length_le hshort, readUtf8_bytes]
  refine decide_eq_true ?_
  rw [hread]
  exact hmagic

/-- A dump is read back as it was exactly when it uses no name that a plain object inherits. -/
theorem decodeSystemDump_encodeSystemDump (he : e.Lawful) (hc : c.IsDump e.round) :
    ((decodeSystemDump e (encodeSystemDump c) = .ok c.whole ∧
      isNdjsonDump (encodeSystemDump c) = true) ↔ c.whole.OwnNames) ∧
      (c.Given → c.whole.Restores c) := by
  refine ⟨⟨fun h => decodeSystemDump_ownNames he h.1, fun hown =>
    ⟨?_, isNdjsonDump_encodeSystemDump c⟩⟩, fun h => h.restores⟩
  rw [decodeSystemDump, encodeSystemDump, read_bytes (isJson_dumpLines hc),
    read_dumpLines hc hown]
  rfl

/-- Numbers taken as their decimals, nothing on a function, and no line after a patch. -/
def plainEngine : Engine where
  round := .finite
  toKey := fun _ => .error .typeError
  functionHas := fun _ _ => .ok false
  onward := fun _ _ => .error .typeError

theorem plainEngine_lawful : plainEngine.Lawful := fun _ _ _ _ h => by cases h

/-- A tenant with a row of a line break and an empty table beside it. -/
def accountsDump : SystemDumpContent :=
  ⟨.obj [], .undefined, some [.obj []], none, none, some [(jsString "coa_templates", [])],
    some [(jsString "t1", [(jsString "accounts", [.str (jsString "\n")])]), (jsString "t2", [])]⟩

theorem accountsDump_isDump : accountsDump.IsDump plainEngine.round := by
  have hempty : IsJson plainEngine.round (.obj []) := .obj .nil (by simp)
  exact
    { metadata := .inr hempty
      installation_files := .inl rfl
      tenants := by simpa [accountsDump] using hempty
      users := by simp [accountsDump]
      user_tenant_access := by simp [accountsDump]
      global_listed := List.pairwise_singleton _ _
      global_rows := by simp [accountsDump]
      tenants_listed := by
        simp only [Listed, accountsDump, Option.getD_some, List.map_cons, List.map_nil]
        decide
      tables_listed := by
        simp only [Listed, accountsDump, Option.getD_some]
        decide
      tables_rows := by simpa [accountsDump] using IsJson.str _ }

theorem decodeSystemDump_encodeSystemDump_accounts :
    ((decodeSystemDump plainEngine (encodeSystemDump accountsDump) = .ok accountsDump.whole ∧
      isNdjsonDump (encodeSystemDump accountsDump) = true) ↔ accountsDump.whole.OwnNames) ∧
      (accountsDump.Given → accountsDump.whole.Restores accountsDump) :=
  decodeSystemDump_encodeSystemDump plainEngine_lawful accountsDump_isDump

/-- A global table named as a property of `Object.prototype`. -/
def constructorDump : SystemDumpContent :=
  ⟨.obj [], .undefined, none, none, none, some [(jsString "constructor", [.obj []])], none⟩

/-- The row is pushed on a function, which has no `push`: the dump cannot be read. -/
theorem decodeSystemDump_constructor : constructorDump.IsDump plainEngine.round ∧
    decodeSystemDump plainEngine (encodeSystemDump constructorDump) ≠
      .ok constructorDump.whole := by
  have hempty : IsJson plainEngine.round (.obj []) := .obj .nil (by simp)
  refine ⟨?_, fun h => ?_⟩
  · exact
      { metadata := .inr hempty
        installation_files := .inl rfl
        tenants := by simp [constructorDump]
        users := by simp [constructorDump]
        user_tenant_access := by simp [constructorDump]
        global_listed := List.pairwise_singleton _ _
        global_rows := by simpa [constructorDump] using hempty
        tenants_listed := .nil
        tables_listed := by simp [constructorDump]
        tables_rows := by simp [constructorDump] }
  · have hfails : (decodeSystemDump plainEngine (encodeSystemDump constructorDump)).toBool =
        false := by
      decide +kernel
    rw [h] at hfails
    cases hfails

end RoundTrip

end MyBooks
