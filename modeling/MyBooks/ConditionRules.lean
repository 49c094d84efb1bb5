import MyBooks.Result
import MyBooks.SafeRegex

/-!
# Conditions of bank rules

A rule's condition is a tree of tests. `evaluateCondition` runs it over a bank line, stops where the
answer is clear and throws where a test cannot be made. The sandbox's `traceCondition` runs every
test and notes what was thrown. What the first returns the second shows
(`traceCondition_agrees`): a test that failed can only sit where the answer did not depend on it.
-/

namespace MyBooks

/-! ## The tests -/

inductive RuleError
  | badRequest (message : String) (code : Option String)
  | typeError
  deriving DecidableEq

/-- The built-ins the tests are made with. A `Num` is a float, `NaN` among them. -/
structure JsBuiltins where
  Num : Type
  isNaN : Num → Bool
  eq : Num → Num → Bool
  lt : Num → Num → Bool
  le : Num → Num → Bool
  /-- `Number(value)`, which throws on an object without a primitive value. -/
  number : JsValue → Except RuleError Num
  /-- `String(value)`, which throws there too. -/
  string : JsValue → Except RuleError JsString
  numString : Num → JsString
  toLowerCase : JsString → JsString
  /-- `new Date(text).getTime()`. -/
  getTime : JsString → Num
  /-- `new Date(text).getUTCDay()`. -/
  getUTCDay : JsString → Num
  /-- `new RegExp(pattern, 'i')` as its `test`, `none` where it throws. -/
  regExp : JsString → Option (JsString → Bool)
  /-- The message of a `TypeError`. -/
  typeErrorText : String

variable (js : JsBuiltins)

def RuleError.message : RuleError → String
  | badRequest message _ => message
  | typeError => js.typeErrorText

/-- What the tests read of a bank line; a field may be missing. -/
structure ConditionalRuleContext where
  descriptor : Option JsString
  amount : Option js.Num
  amountSign : Option js.Num
  accountSourceId : Option JsString
  date : Option JsString
  dayOfWeek : Option js.Num

/-- A test as it is stored; fields and operators may be unknown. -/
structure LeafCondition where
  field : String
  operator : String
  value : JsValue

def conditionFieldsDeferred : List String := ["class_id", "location_id"]

def maxRegexHaystack : ℕ := 200

def compileSafeRegex (pattern : JsString) : Except RuleError (Option (JsString → Bool)) :=
  match SafeRegex.checkRegexSafety pattern with
  | .ok checked => .ok (if checked.safe then js.regExp pattern else none)
  | .error _ => .error .typeError

/-- `String(value ?? '')`. -/
def stringOr (v : JsValue) : Except RuleError JsString :=
  match v with
  | .undefined => .ok []
  | .null => .ok []
  | v => js.string v

def evaluateString (field : Option JsString) (op : String) (value : JsValue) :
    Except RuleError Bool := do
  let haystack := js.toLowerCase (field.getD [])
  let needle := js.toLowerCase (← stringOr js value)
  let emptyNeedleInert := op ∈ ["contains", "starts_with", "ends_with", "not_contains",
    "not_starts_with", "not_ends_with"]
  if needle = [] ∧ emptyNeedleInert then return false
  match op with
    | "equals" => return haystack = needle
    | "not_equals" => return haystack ≠ needle
    | "contains" => return needle <:+: haystack
    | "not_contains" => return ¬needle <:+: haystack
    | "starts_with" => return needle <+: haystack
    | "not_starts_with" => return ¬needle <+: haystack
    | "ends_with" => return needle <:+ haystack
    | "not_ends_with" => return ¬needle <:+ haystack
    | "matches_regex" => matchesRegex true
    | "not_matches_regex" => matchesRegex false
    | op => throw (.badRequest s!"Unknown string operator \"{op}\"" none)
where
  /-- Whether the pattern is found is `want`; a refused one is neither found nor missed. -/
  matchesRegex (want : Bool) : Except RuleError Bool := do
    let pattern ← js.string value
    if pattern = [] then return false
    match ← compileSafeRegex js pattern with
    | none => return false
    | some test => return test ((field.getD []).take maxRegexHaystack) = want

/-- `between`, on two readings of its ends. -/
def between (read : JsValue → Except RuleError js.Num) (x : js.Num) :
    JsValue → Except RuleError Bool
  | .arr [first, second] => do
    let lo ← read first
    let hi ← read second
    if js.isNaN lo || js.isNaN hi then return false
    return js.le lo x && js.le x hi
  | _ => .ok false

def evaluateNumeric (field : Option js.Num) (op : String) (value : JsValue) :
    Except RuleError Bool :=
  match field with
  | none => .ok false
  | some x =>
    if js.isNaN x then .ok false
    else if op = "between" then between js js.number x value
    else do
      let v ← js.number value
      if js.isNaN v then return false
      match op with
        | "eq" => return js.eq x v
        | "ne" => return !js.eq x v
        | "gt" => return js.lt v x
        | "gte" => return js.le v x
        | "lt" => return js.lt x v
        | "lte" => return js.le x v
        | op => throw (.badRequest s!"Unknown numeric operator \"{op}\"" none)

/-- The field as text, empty where it is missing. -/
def evaluateEqNe (field : Option JsString) (op : String) (value : JsValue) :
    Except RuleError Bool := do
  let a := field.getD []
  let b ← stringOr js value
  if op = "eq" then return a = b
  if op = "ne" then return a ≠ b
  throw (.badRequest s!"Operator \"{op}\" only supports eq / ne" none)

def dayTime (day : JsString) : js.Num := js.getTime (day ++ jsString "T00:00:00Z")

def evaluateDate (field : Option JsString) (op : String) (value : JsValue) :
    Except RuleError Bool :=
  let day := field.getD []
  if day = [] then .ok false
  else
    let a := dayTime js day
    if js.isNaN a then .ok false
    else if op = "on_day_of_week" then do
      return js.eq (js.getUTCDay (day ++ jsString "T00:00:00Z")) (← js.number value)
    else if op = "between" then
      between js (fun v => (js.string v).map (dayTime js)) a value
    else do
      let v := dayTime js (← js.string value)
      if js.isNaN v then return false
      if op = "before" then return js.lt a v
      if op = "after" then return js.lt v a
      throw (.badRequest s!"Unknown date operator \"{op}\"" none)

variable {js} in
def evaluateLeaf (leaf : LeafCondition) (ctx : ConditionalRuleContext js) : Except RuleError Bool :=
  if leaf.field ∈ conditionFieldsDeferred then
    .error (.badRequest s!"Condition field \"{leaf.field}\" is not yet implemented"
      (some "NOT_IMPLEMENTED"))
  else match leaf.field with
    | "descriptor" => evaluateString js ctx.descriptor leaf.operator leaf.value
    | "amount" => evaluateNumeric js ctx.amount leaf.operator leaf.value
    | "amount_sign" =>
      evaluateEqNe js (ctx.amountSign.map js.numString) leaf.operator leaf.value
    | "account_source_id" => evaluateEqNe js ctx.accountSourceId leaf.operator leaf.value
    | "date" => evaluateDate js ctx.date leaf.operator leaf.value
    | "day_of_week" => evaluateEqNe js (ctx.dayOfWeek.map js.numString) leaf.operator leaf.value
    | field => .error (.badRequest s!"Unknown condition field \"{field}\"" none)

/-! ## Trees -/

inductive ConditionAST
  | leaf (leaf : LeafCondition)
  | group (op : String) (children : List ConditionAST)

@[elab_as_elim]
theorem ConditionAST.induction {P : ConditionAST → Prop} (leaf : ∀ l, P (leaf l))
    (group : ∀ op children, (∀ c ∈ children, P c) → P (group op children)) (c : ConditionAST) :
    P c :=
  @ConditionAST.rec P (fun cs => ∀ c ∈ cs, P c) leaf group
    (fun _ h => absurd h List.not_mem_nil)
    (fun _ _ hc hcs _ h => (List.mem_cons.mp h).elim (fun e => e ▸ hc) (hcs _)) c

def maxConditionDepth : ℕ := 10

def tooDeepText (depth : ℕ) : String :=
  s!"Condition depth {depth} exceeds maximum {maxConditionDepth}"

section Evaluate

variable {js} (ctx : ConditionalRuleContext js)

mutual

def evaluateCondition : ConditionAST → ℕ → Except RuleError Bool
  | .leaf leaf, depth =>
    if maxConditionDepth < depth then
      .error (.badRequest (tooDeepText depth) (some "CONDITION_TOO_DEEP"))
    else evaluateLeaf leaf ctx
  | .group op children, depth =>
    if maxConditionDepth < depth then
      .error (.badRequest (tooDeepText depth) (some "CONDITION_TOO_DEEP"))
    else if children = [] then .ok false
    else if op = "AND" then evaluateEvery children (depth + 1)
    else evaluateSome children (depth + 1)

/-- `children.every`, which stops at the first one that does not match. -/
def evaluateEvery : List ConditionAST → ℕ → Except RuleError Bool
  | [], _ => .ok true
  | c :: cs, depth => do
    if ← evaluateCondition c depth then evaluateEvery cs depth else return false

/-- `children.some`, which stops at the first one that matches. -/
def evaluateSome : List ConditionAST → ℕ → Except RuleError Bool
  | [], _ => .ok false
  | c :: cs, depth => do
    if ← evaluateCondition c depth then return true else evaluateSome cs depth

end

end Evaluate

/-! ## Traces -/

inductive ConditionTrace
  | leaf (field operator : String) (value : JsValue) (matched : Bool) (error : Option String)
  | group (op : String) (matched : Bool) (children : List ConditionTrace)

def ConditionTrace.matched : ConditionTrace → Bool
  | leaf _ _ _ matched _ => matched
  | group _ matched _ => matched

/-- Some node of the trace has an error. -/
inductive ConditionTrace.HasError : ConditionTrace → Prop
  | leaf (field operator : String) (value : JsValue) (matched : Bool) (error : String) :
    HasError (.leaf field operator value matched (some error))
  | child {op : String} {matched : Bool} {children : List ConditionTrace} {t : ConditionTrace} :
    t ∈ children → HasError t → HasError (.group op matched children)

def tooDeep (depth : ℕ) : ConditionTrace := .leaf "<too-deep>" "" .null false (tooDeepText depth)

section Trace

variable {js} (ctx : ConditionalRuleContext js)

mutual

def traceCondition : ConditionAST → ℕ → ConditionTrace
  | .leaf leaf, depth =>
    if maxConditionDepth < depth then tooDeep depth
    else match evaluateCondition ctx (.leaf leaf) depth with
      | .ok matched => .leaf leaf.field leaf.operator leaf.value matched none
      | .error e => .leaf leaf.field leaf.operator leaf.value false (e.message js)
  | .group op children, depth =>
    if maxConditionDepth < depth then tooDeep depth
    else
      let childTraces := traceChildren children (depth + 1)
      .group op (!childTraces.isEmpty &&
        if op = "AND" then childTraces.all (·.matched) else childTraces.any (·.matched)) childTraces

def traceChildren : List ConditionAST → ℕ → List ConditionTrace
  | [], _ => []
  | c :: cs, depth => traceCondition c depth :: traceChildren cs depth

end

variable {ctx}

/-- What the trace of a condition owes its evaluation. -/
structure Agrees (r : Except RuleError Bool) (t : ConditionTrace) : Prop where
  matched : ∀ b, r = .ok b → t.matched = b
  error : ∀ e, r = .error e → t.HasError

theorem agrees_every : ∀ {children : List ConditionAST} {depth : ℕ},
    (∀ c ∈ children, Agrees (evaluateCondition ctx c depth) (traceCondition ctx c depth)) →
      (∀ b, evaluateEvery ctx children depth = .ok b →
        (traceChildren ctx children depth).all (·.matched) = b) ∧
        ∀ e, evaluateEvery ctx children depth = .error e →
          ∃ t ∈ traceChildren ctx children depth, t.HasError
  | [], _, _ => ⟨fun b h => Except.ok.inj h, fun e h => by cases h⟩
  | c :: cs, depth, h => by
    have hc := h c List.mem_cons_self
    obtain ⟨hmatched, herror⟩ := agrees_every fun d hd => h d (List.mem_cons_of_mem _ hd)
    rw [traceChildren, List.all_cons, evaluateEvery]
    cases heval : evaluateCondition ctx c depth with
    | error e =>
      exact ⟨fun b hb => (by cases hb), fun _ _ => ⟨_, List.mem_cons_self, hc.error e heval⟩⟩
    | ok matched =>
      rw [hc.matched matched heval, ok_bind]
      cases matched with
      | true =>
        refine ⟨fun b hb => hmatched b hb, fun e he => ?_⟩
        obtain ⟨t, ht, hterror⟩ := herror e he
        exact ⟨t, List.mem_cons_of_mem _ ht, hterror⟩
      -- The children behind are not evaluated; whatever their traces say, the group has failed.
      | false => exact ⟨fun b hb => Except.ok.inj hb, fun e he => by cases he⟩

theorem agrees_some : ∀ {children : List ConditionAST} {depth : ℕ},
    (∀ c ∈ children, Agrees (evaluateCondition ctx c depth) (traceCondition ctx c depth)) →
      (∀ b, evaluateSome ctx children depth = .ok b →
        (traceChildren ctx children depth).any (·.matched) = b) ∧
        ∀ e, evaluateSome ctx children depth = .error e →
          ∃ t ∈ traceChildren ctx children depth, t.HasError
  | [], _, _ => ⟨fun b h => Except.ok.inj h, fun e h => by cases h⟩
  | c :: cs, depth, h => by
    have hc := h c List.mem_cons_self
    obtain ⟨hmatched, herror⟩ := agrees_some fun d hd => h d (List.mem_cons_of_mem _ hd)
    rw [traceChildren, List.any_cons, evaluateSome]
    cases heval : evaluateCondition ctx c depth with
    | error e =>
      exact ⟨fun b hb => (by cases hb), fun _ _ => ⟨_, List.mem_cons_self, hc.error e heval⟩⟩
    | ok matched =>
      rw [hc.matched matched heval, ok_bind]
      cases matched with
      | true => exact ⟨fun b hb => Except.ok.inj hb, fun e he => by cases he⟩
      | false =>
        refine ⟨fun b hb => hmatched b hb, fun e he => ?_⟩
        obtain ⟨t, ht, hterror⟩ := herror e he
        exact ⟨t, List.mem_cons_of_mem _ ht, hterror⟩

theorem agrees_tooDeep (depth : ℕ) :
    Agrees (.error (.badRequest (tooDeepText depth) (some "CONDITION_TOO_DEEP"))) (tooDeep depth) :=
  ⟨fun b h => (by cases h), fun _ _ => .leaf ..⟩

theorem agrees_leaf (leaf : LeafCondition) (depth : ℕ) :
    Agrees (evaluateCondition ctx (.leaf leaf) depth) (traceCondition ctx (.leaf leaf) depth) := by
  rw [traceCondition]
  split_ifs with hdepth
  · rw [evaluateCondition, if_pos hdepth]
    exact agrees_tooDeep depth
  · cases heval : evaluateCondition ctx (.leaf leaf) depth with
    | ok matched => exact ⟨fun b hb => Except.ok.inj hb, fun e he => by cases he⟩
    | error e => exact ⟨fun b hb => (by cases hb), fun _ _ => .leaf ..⟩

theorem traceChildren_isEmpty (children : List ConditionAST) (depth : ℕ) :
    (traceChildren ctx children depth).isEmpty = children.isEmpty := by
  cases children <;> rfl

theorem agrees_group {op : String} {children : List ConditionAST} {depth : ℕ}
    (h : ∀ c ∈ children,
      Agrees (evaluateCondition ctx c (depth + 1)) (traceCondition ctx c (depth + 1))) :
    Agrees (evaluateCondition ctx (.group op children) depth)
      (traceCondition ctx (.group op children) depth) := by
  rw [evaluateCondition, traceCondition]
  split_ifs with hdepth hempty hop hop
  · exact agrees_tooDeep depth
  · subst hempty
    exact ⟨fun b hb => Except.ok.inj hb, fun e he => by cases he⟩
  · subst hempty
    exact ⟨fun b hb => Except.ok.inj hb, fun e he => by cases he⟩
  · obtain ⟨hmatched, herror⟩ := agrees_every h
    refine ⟨fun b hb => ?_, fun e he => ?_⟩
    · rw [ConditionTrace.matched, traceChildren_isEmpty, hmatched b hb]
      simp [hempty]
    · obtain ⟨t, ht, hterror⟩ := herror e he
      exact .child ht hterror
  · obtain ⟨hmatched, herror⟩ := agrees_some h
    refine ⟨fun b hb => ?_, fun e he => ?_⟩
    · rw [ConditionTrace.matched, traceChildren_isEmpty, hmatched b hb]
      simp [hempty]
    · obtain ⟨t, ht, hterror⟩ := herror e he
      exact .child ht hterror

theorem agrees (c : ConditionAST) :
    ∀ depth, Agrees (evaluateCondition ctx c depth) (traceCondition ctx c depth) := by
  induction c using ConditionAST.induction with
  | leaf leaf => exact agrees_leaf leaf
  | group op children ih => exact fun depth => agrees_group fun c hc => ih c hc (depth + 1)

/-- The sandbox shows what production does: the same answer, and an error where it throws. -/
theorem traceCondition_agrees (ctx : ConditionalRuleContext js) (c : ConditionAST) (depth : ℕ) :
    (∀ b, evaluateCondition ctx c depth = .ok b → (traceCondition ctx c depth).matched = b) ∧
      ∀ e, evaluateCondition ctx c depth = .error e → (traceCondition ctx c depth).HasError :=
  ⟨(agrees c depth).matched, (agrees c depth).error⟩

end Trace

end MyBooks
