import MyBooks.IpAddress
import MyBooks.JsonText

/-!
# The SSRF guard

A literal address is put in its canonical text and the text's start is compared with the ranges. The
agents classify every address they are about to dial. What is refused is every internal address that
the comparison covers (`agents_refuse`); it does not cover all of `fe80::/10`, nor the form that is
compatible with IPv4.
-/

namespace MyBooks

inductive IpClass where
  | linkLocal
  | loopback
  | reserved
  | privateIp
  | publicIp
  deriving DecidableEq

/-! ## The classes -/

/-- What is read of a dotted quad. -/
def classifyQuad : ℕ × ℕ × ℕ × ℕ → IpClass
  | (a, b, _, _) =>
    if a = 169 ∧ b = 254 then .linkLocal
    else if a = 127 then .loopback
    else if a = 10 then .privateIp
    else if a = 0 then .reserved
    else if a = 192 ∧ b = 168 then .privateIp
    else if a = 172 ∧ 16 ≤ b ∧ b ≤ 31 then .privateIp
    else if a = 100 ∧ 64 ≤ b ∧ b ≤ 127 then .privateIp
    else if a = 198 ∧ (b = 18 ∨ b = 19) then .reserved
    else if 224 ≤ a then .reserved
    else .publicIp

def classifyCanonical (canon : Text) : IpClass :=
  if canon = "::1".toList then .loopback
  else if canon = "::".toList then .reserved
  else if "fe80:".toList <+: canon then .linkLocal
  else if "fc".toList <+: canon ∨ "fd".toList <+: canon then .privateIp
  else if "::ffff:".toList <+: canon then
    match dottedQuad (canon.drop "::ffff:".length) with
    | some quad => classifyQuad quad
    -- Any other mapped spelling fails closed.
    | none => .reserved
  else if "64:ff9b:".toList <+: canon then .reserved
  else if "2002:".toList <+: canon then .reserved
  else .publicIp

/-- `host.replace(/^\[|\]$/g, '')` -/
def stripBrackets (host : Text) : Text :=
  let host := if host.head? = some '[' then host.tail else host
  if host.getLast? = some ']' then host.dropLast else host

def classifyIpLiteral (host : Text) : IpClass :=
  match dottedQuad host with
  | some quad => classifyQuad quad
  | none =>
    let lower := stripBrackets (host.map Char.toLower)
    if ':' ∈ lower then
      classifyCanonical (match parseIpv6 lower with
        | some a => a.canonical
        | none => lower)
    else .publicIp

/-! ## The agents -/

structure UrlSafetyOptions where
  allowPrivate : Bool

section Agents

-- `privateTargetsAllowedByEnv`, the options and the resolver's answers.
variable (env : Bool) (opts : UrlSafetyOptions) (resolve : Text → Option (List Text))

def isBlockedClass : IpClass → Bool
  | .linkLocal => true
  | .loopback | .reserved => !opts.allowPrivate
  | .privateIp => !opts.allowPrivate && !env
  | .publicIp => false

/-- The addresses that a name may be dialled at. -/
def safeLookup (all : Bool) (hostname : Text) : Option (List Text) := do
  let list ← resolve hostname
  if list = [] then none
  else if list.any fun address => isBlockedClass env opts (classifyIpLiteral address) then none
  else if all then some list
  else some (list.take 1)

/-- Whether a host may be dialled as it stands. -/
def literalGuard (host : Text) : Bool :=
  let bare := stripBrackets host
  host.isEmpty || !(ipAddress bare).isSome || !isBlockedClass env opts (classifyIpLiteral bare)

/-- The addresses that a connection may dial. An address is dialled without a lookup, and without a
host it is `localhost` that is looked up. -/
def createConnection (all : Bool) (host : Text) : Option (List Text) :=
  if literalGuard env opts host then
    let host := if host = [] then "localhost".toList else host
    if (ipAddress host).isSome then some [host] else safeLookup env opts resolve all host
  else none

end Agents

/-! ## What is internal -/

def linkLocal4 : Cidr := ⟨0xa9fe0000, 16⟩

/-- RFC 1918 and carrier-grade NAT. -/
def private4 : List Cidr :=
  [⟨0x0a000000, 8⟩, ⟨0xac100000, 12⟩, ⟨0xc0a80000, 16⟩, ⟨0x64400000, 10⟩]

/-- Link-local, loopback, this network, benchmarking, multicast and reserved addresses, and the
private ones. -/
def internal4 : List Cidr :=
  [linkLocal4, ⟨0x7f000000, 8⟩, ⟨0, 8⟩, ⟨0xc6120000, 15⟩, ⟨0xe0000000, 4⟩, ⟨0xf0000000, 4⟩] ++
    private4

def linkLocal6 : Cidr := ⟨0xfe80 * 2 ^ 112, 10⟩
def uniqueLocal6 : Cidr := ⟨0xfc00 * 2 ^ 112, 7⟩

def IsInternal4 (v : Ipv4) : Prop := ∃ c ∈ internal4, c.Contains 32 v.value
def IsPrivate4 (v : Ipv4) : Prop := ∃ c ∈ private4, c.Contains 32 v.value

/-- The IPv6 forms of an IPv4 address. -/
inductive Embeds : Ipv6 → Ipv4 → Prop where
  | mapped (v) : Embeds (.mapped v) v
  | compatible (v) : Embeds (.compatible v) v
  | nat64 (v) : Embeds (.nat64 v) v
  | sixToFour (v g3 g4 g5 g6 g7) : Embeds (.sixToFour v g3 g4 g5 g6 g7) v

def IsLinkLocal : IpAddress → Prop
  | .v4 v => linkLocal4.Contains 32 v.value
  | .v6 a => linkLocal6.Contains 128 a.value ∨
    ∃ v, a = .mapped v ∧ linkLocal4.Contains 32 v.value

def IsInternal : IpAddress → Prop
  | .v4 v => IsInternal4 v
  | .v6 a => linkLocal6.Contains 128 a.value ∨ uniqueLocal6.Contains 128 a.value ∨
    a.value = 0 ∨ a.value = 1 ∨ ∃ v, Embeds a v ∧ IsInternal4 v

/-- What the operator can open without `allowPrivate`. -/
def IsPrivate : IpAddress → Prop
  | .v4 v => IsPrivate4 v
  | .v6 a => uniqueLocal6.Contains 128 a.value ∨ ∃ v, a = .mapped v ∧ IsPrivate4 v

/-- The internal addresses that the comparison of texts passes by. -/
def PassedBy : IpAddress → Prop
  | .v4 _ => False
  | .v6 a => linkLocal6.Contains 128 a.value ∧ (a.g0 : ℕ) ≠ 0xfe80 ∨
    1 < a.value ∧ ∃ v, a = .compatible v ∧ IsInternal4 v

/-- An address as a host, an IPv6 one with or without brackets. -/
def Spells (host : Text) : IpAddress → Prop
  | .v4 v => parseIpv4 host = some v
  | .v6 a => parseIpv6 host = some a ∨ ∃ t, host = '[' :: t ++ [']'] ∧ parseIpv6 t = some a

/-! ## IPv4 -/

theorem contains_linkLocal4 {v : Ipv4} :
    linkLocal4.Contains 32 v.value ↔ (v.a : ℕ) = 169 ∧ (v.b : ℕ) = 254 := by
  unfold Cidr.Contains linkLocal4 Ipv4.value
  norm_num
  omega

theorem isPrivate4_iff {v : Ipv4} : IsPrivate4 v ↔ (v.a : ℕ) = 10 ∨
    (v.a : ℕ) = 172 ∧ 16 ≤ (v.b : ℕ) ∧ (v.b : ℕ) ≤ 31 ∨ (v.a : ℕ) = 192 ∧ (v.b : ℕ) = 168 ∨
      (v.a : ℕ) = 100 ∧ 64 ≤ (v.b : ℕ) ∧ (v.b : ℕ) ≤ 127 := by
  simp only [IsPrivate4, private4, List.mem_cons, List.not_mem_nil, or_false, exists_eq_or_imp,
    exists_eq_left, Cidr.Contains, Ipv4.value]
  norm_num
  refine or_congr ?_ (or_congr ?_ (or_congr ?_ ?_)) <;> omega

theorem isInternal4_iff {v : Ipv4} : IsInternal4 v ↔ linkLocal4.Contains 32 v.value ∨
    (v.a : ℕ) = 127 ∨ (v.a : ℕ) = 0 ∨ (v.a : ℕ) = 198 ∧ ((v.b : ℕ) = 18 ∨ (v.b : ℕ) = 19) ∨
      224 ≤ (v.a : ℕ) ∨ IsPrivate4 v := by
  have hrest : ∀ c : Cidr, c ∈ internal4 ↔ c = linkLocal4 ∨ c = ⟨0x7f000000, 8⟩ ∨ c = ⟨0, 8⟩ ∨
      c = ⟨0xc6120000, 15⟩ ∨ c = ⟨0xe0000000, 4⟩ ∨ c = ⟨0xf0000000, 4⟩ ∨ c ∈ private4 := fun c => by
    simp [internal4]
  simp only [IsInternal4, hrest, or_and_right, exists_or, exists_eq_left]
  refine or_congr Iff.rfl ?_
  change _ ∨ _ ∨ _ ∨ _ ∨ _ ∨ IsPrivate4 v ↔ _
  simp only [← or_assoc]
  refine or_congr ?_ Iff.rfl
  unfold Cidr.Contains Ipv4.value
  norm_num
  omega

/-- What each class says of the address. -/
theorem classifyQuad_cases (v : Ipv4) :
    classifyQuad v.quad = .linkLocal ∧ linkLocal4.Contains 32 v.value ∨
      classifyQuad v.quad = .privateIp ∧ IsPrivate4 v ∨
        classifyQuad v.quad = .loopback ∨ classifyQuad v.quad = .reserved ∨
          classifyQuad v.quad = .publicIp ∧ ¬IsInternal4 v := by
  rw [isInternal4_iff, contains_linkLocal4, isPrivate4_iff]
  unfold classifyQuad Ipv4.quad
  dsimp only
  split_ifs with hll hlo hten hthis hlan hmid hnat hbench hhigh
  · exact .inl ⟨rfl, hll⟩
  · exact .inr (.inr (.inl rfl))
  · exact .inr (.inl ⟨rfl, .inl hten⟩)
  · exact .inr (.inr (.inr (.inl rfl)))
  · exact .inr (.inl ⟨rfl, .inr (.inr (.inl hlan))⟩)
  · exact .inr (.inl ⟨rfl, .inr (.inl hmid)⟩)
  · exact .inr (.inl ⟨rfl, .inr (.inr (.inr hnat))⟩)
  · exact .inr (.inr (.inr (.inl rfl)))
  · exact .inr (.inr (.inr (.inl rfl)))
  · refine .inr (.inr (.inr (.inr ⟨rfl, ?_⟩)))
    rintro (h | h | h | h | h | h | h | h | h)
    · exact hll h
    · exact hlo h
    · exact hthis h
    · exact hbench h
    · exact hhigh h
    · exact hten h
    · exact hmid h
    · exact hlan h
    · exact hnat h

theorem classifyQuad_linkLocal_iff {v : Ipv4} :
    classifyQuad v.quad = .linkLocal ↔ linkLocal4.Contains 32 v.value := by
  constructor
  · intro h
    rcases classifyQuad_cases v with ⟨-, hll⟩ | ⟨hc, -⟩ | hc | hc | ⟨hc, -⟩
    · exact hll
    all_goals
      rw [hc] at h
      cases h
  · intro h
    rw [contains_linkLocal4] at h
    exact if_pos h

theorem isPrivate4_of_classifyQuad {v : Ipv4} (h : classifyQuad v.quad = .privateIp) :
    IsPrivate4 v := by
  rcases classifyQuad_cases v with ⟨hc, -⟩ | ⟨-, hp⟩ | hc | hc | ⟨hc, -⟩
  case inr.inl => exact hp
  all_goals
    rw [hc] at h
    cases h

theorem classifyQuad_ne_public {v : Ipv4} (h : IsInternal4 v) :
    classifyQuad v.quad ≠ .publicIp := by
  rcases classifyQuad_cases v with ⟨hc, -⟩ | ⟨hc, -⟩ | hc | hc | ⟨-, hout⟩
  case inr.inr.inr.inr => exact absurd h hout
  all_goals
    rw [hc]
    decide

/-! ## IPv6 -/

theorem value_div (a : Ipv6) : a.value / 2 ^ 112 = a.g0 := by
  unfold Ipv6.value Ipv6.groups
  simp only [List.foldl_cons, List.foldl_nil]
  omega

theorem contains_first_iff {a : Ipv6} {g len : ℕ} (h : len ≤ 16) :
    (⟨g * 2 ^ 112, len⟩ : Cidr).Contains 128 a.value ↔
      (a.g0 : ℕ) / 2 ^ (16 - len) = g / 2 ^ (16 - len) := by
  rw [Cidr.Contains, show 128 - len = 112 + (16 - len) by omega, pow_add, ← Nat.div_div_eq_div_mul,
    ← Nat.div_div_eq_div_mul, value_div, Nat.mul_div_cancel _ (by positivity)]

theorem contains_linkLocal6 {a : Ipv6} :
    linkLocal6.Contains 128 a.value ↔ 0xfe80 ≤ (a.g0 : ℕ) ∧ (a.g0 : ℕ) ≤ 0xfebf := by
  rw [linkLocal6, contains_first_iff (by decide)]
  norm_num
  omega

theorem contains_uniqueLocal6 {a : Ipv6} :
    uniqueLocal6.Contains 128 a.value ↔ 0xfc00 ≤ (a.g0 : ℕ) ∧ (a.g0 : ℕ) ≤ 0xfdff := by
  rw [uniqueLocal6, contains_first_iff (by decide)]
  omega

theorem hex_fe80 : Ipv6.hex 0xfe80 = "fe80".toList := by decide
theorem hex_64 : Ipv6.hex 0x64 = "64".toList := by decide
theorem hex_ff9b : Ipv6.hex 0xff9b = "ff9b".toList := by decide
theorem hex_2002 : Ipv6.hex 0x2002 = "2002".toList := by decide

theorem hex_uniqueLocal {g : Fin 65536} (h : 0xfc00 ≤ (g : ℕ) ∧ (g : ℕ) ≤ 0xfdff) :
    "fc".toList <+: Ipv6.hex g ∨ "fd".toList <+: Ipv6.hex g := by
  have hstep : ∀ n, 16 ≤ n → Nat.toDigits 16 n = Nat.toDigits 16 (n / 16) ++ [(n % 16).digitChar] :=
    fun n hn => Nat.toDigits_of_base_le (by decide) hn
  rw [Ipv6.hex, hstep g (by omega), hstep (g / 16) (by omega), List.append_assoc]
  have htop : (g : ℕ) / 16 / 16 = 0xfc ∨ (g : ℕ) / 16 / 16 = 0xfd := by omega
  rcases htop with h | h
  · exact .inl (h ▸ List.prefix_append _ _)
  · exact .inr (h ▸ List.prefix_append _ _)

theorem classifyCanonical_linkLocal {a : Ipv6} (h : a.g0 = 0xfe80) :
    classifyCanonical a.canonical = .linkLocal := by
  obtain ⟨t, ht, -⟩ := Ipv6.canonical_starts (a := a) (by rw [h]; decide)
  rw [ht, h, hex_fe80]
  rfl

theorem classifyCanonical_uniqueLocal {a : Ipv6} (h : uniqueLocal6.Contains 128 a.value) :
    classifyCanonical a.canonical = .privateIp := by
  rw [contains_uniqueLocal6] at h
  have h0 : a.g0 ≠ 0 := fun h0 => by
    rw [h0] at h
    exact absurd h.1 (by decide)
  obtain ⟨t, ht, -⟩ := Ipv6.canonical_starts h0
  rcases hex_uniqueLocal h with ⟨rest, hrest⟩ | ⟨rest, hrest⟩
  · rw [ht, ← hrest]
    rfl
  · rw [ht, ← hrest]
    rfl

theorem drop_mapped (t : Text) : ("::ffff:".toList ++ t).drop "::ffff:".length = t := rfl

theorem classifyCanonical_mapped (v : Ipv4) :
    classifyCanonical (Ipv6.mapped v).canonical = classifyQuad v.quad := by
  rw [Ipv6.canonical_mapped]
  have hquad := dottedQuad_dotted v
  unfold classifyCanonical
  have hlinkLocal : ¬"fe80:".toList <+: "::ffff:".toList ++ v.dotted :=
    fun ⟨_, h⟩ => by cases h
  have hfc : ¬"fc".toList <+: "::ffff:".toList ++ v.dotted := fun ⟨_, h⟩ => by cases h
  have hfd : ¬"fd".toList <+: "::ffff:".toList ++ v.dotted := fun ⟨_, h⟩ => by cases h
  rw [if_neg (fun h => by cases h), if_neg (fun h => by cases h), if_neg hlinkLocal,
    if_neg (not_or.mpr ⟨hfc, hfd⟩), if_pos (List.prefix_append _ _), drop_mapped, hquad]

theorem classifyCanonical_nat64 (v : Ipv4) :
    classifyCanonical (Ipv6.nat64 v).canonical = .reserved := by
  obtain ⟨t, ht, hnext⟩ := Ipv6.canonical_starts (a := Ipv6.nat64 v)
    (by show (0x64 : Fin 65536) ≠ 0; decide)
  obtain ⟨t', rfl⟩ := hnext (by show (0xff9b : Fin 65536) ≠ 0; decide)
  rw [ht, show (Ipv6.nat64 v).g0 = 0x64 from rfl, show (Ipv6.nat64 v).g1 = 0xff9b from rfl, hex_64,
    hex_ff9b]
  rfl

theorem classifyCanonical_sixToFour (v : Ipv4) (g3 g4 g5 g6 g7 : Fin 65536) :
    classifyCanonical (Ipv6.sixToFour v g3 g4 g5 g6 g7).canonical = .reserved := by
  obtain ⟨t, ht, -⟩ := Ipv6.canonical_starts (a := Ipv6.sixToFour v g3 g4 g5 g6 g7)
    (by show (0x2002 : Fin 65536) ≠ 0; decide)
  rw [ht, show (Ipv6.sixToFour v g3 g4 g5 g6 g7).g0 = 0x2002 from rfl, hex_2002]
  rfl

theorem group_inj {m n : ℕ} {g h : Fin 65536} (heq : m * 65536 + g.val = n * 65536 + h.val) :
    m = n ∧ g = h := by
  rw [Fin.ext_iff]
  omega

theorem eq_of_value {a a' : Ipv6} (h : a.value = a'.value) : a = a' := by
  obtain ⟨g0, g1, g2, g3, g4, g5, g6, g7⟩ := a
  obtain ⟨h0, h1, h2, h3, h4, h5, h6, h7⟩ := a'
  simp only [Ipv6.value, Ipv6.groups, List.foldl_cons, List.foldl_nil] at h
  obtain ⟨heq6, h7⟩ := group_inj h
  obtain ⟨heq5, h6⟩ := group_inj heq6
  obtain ⟨heq4, h5⟩ := group_inj heq5
  obtain ⟨heq3, h4⟩ := group_inj heq4
  obtain ⟨heq2, h3⟩ := group_inj heq3
  obtain ⟨heq1, h2⟩ := group_inj heq2
  obtain ⟨heq0, h1⟩ := group_inj heq1
  obtain ⟨-, h0⟩ := group_inj heq0
  exact (Ipv6.mk.injEq ..).mpr ⟨h0, h1, h2, h3, h4, h5, h6, h7⟩

theorem classifyCanonical_unspecified {a : Ipv6} (h : a.value = 0) :
    classifyCanonical a.canonical = .reserved := by
  rw [eq_of_value (show a.value = Ipv6.value ⟨0, 0, 0, 0, 0, 0, 0, 0⟩ from h)]
  decide

theorem classifyCanonical_loopback {a : Ipv6} (h : a.value = 1) :
    classifyCanonical a.canonical = .loopback := by
  rw [eq_of_value (show a.value = Ipv6.value ⟨0, 0, 0, 0, 0, 0, 0, 1⟩ from h)]
  decide

theorem colon_head {t t' : Text} : ∀ {l l' : Text}, ':' ∉ l → ':' ∉ l' →
    l ++ ':' :: t = l' ++ ':' :: t' → l = l'
  | [], [], _, _, _ => rfl
  | [], c :: l', _, hl', h => absurd (List.cons.inj h).1 fun hc => hl' (hc ▸ List.mem_cons_self)
  | c :: l, [], hl, _, h => absurd (List.cons.inj h).1 fun hc => hl (hc ▸ List.mem_cons_self)
  | c :: l, c' :: l', hl, hl', h => by
    obtain ⟨rfl, htail⟩ := List.cons.inj h
    exact congrArg (c :: ·) (colon_head (fun hc => hl (List.mem_cons_of_mem c hc))
      (fun hc => hl' (List.mem_cons_of_mem c hc)) htail)

theorem dot_mem_of_dottedQuad {t : Text} {quad : ℕ × ℕ × ℕ × ℕ} (h : dottedQuad t = some quad) :
    '.' ∈ t := by
  obtain ⟨p, q, r, s, hsplit, -⟩ := exists_of_dottedQuad h
  by_contra hdot
  rw [List.splitOn_eq_singleton hdot] at hsplit
  cases hsplit

/-- Only two texts are link-local. -/
theorem prefix_of_linkLocal {canon : Text} (h : classifyCanonical canon = .linkLocal)
    (hdot : '.' ∉ canon) : "fe80:".toList <+: canon := by
  unfold classifyCanonical at h
  split_ifs at h with h1 h2 h3
  · exact h3
  · split at h
    · next hquad => exact absurd (List.mem_of_mem_drop (dot_mem_of_dottedQuad hquad)) hdot
    · cases h

theorem classifyCanonical_linkLocal_iff {a : Ipv6} :
    classifyCanonical a.canonical = .linkLocal ↔
      a.g0 = 0xfe80 ∨ ∃ v, a = .mapped v ∧ linkLocal4.Contains 32 v.value := by
  constructor
  · intro h
    cases hmapped : a.isMapped with
    | true =>
      rw [Ipv6.eq_mapped_of_isMapped hmapped, classifyCanonical_mapped,
        classifyQuad_linkLocal_iff] at h
      exact .inr ⟨_, Ipv6.eq_mapped_of_isMapped hmapped, h⟩
    | false =>
      obtain ⟨rest, hrest⟩ := prefix_of_linkLocal h (Ipv6.dot_notMem_canonical hmapped)
      rcases Ipv6.canonical_head hmapped with ⟨-, t, ht⟩ | ⟨t, ht⟩
      · rw [ht] at hrest
        cases hrest
      · rw [ht] at hrest
        have hhex : "fe80".toList = Ipv6.hex a.g0 := colon_head (by decide)
          (Ipv6.hexText_notMem (by decide) _) hrest
        exact .inl (Ipv6.hex_inj (hhex.symm.trans hex_fe80.symm))
  · rintro (h | ⟨v, rfl, h⟩)
    · exact classifyCanonical_linkLocal h
    · rw [classifyCanonical_mapped]
      exact classifyQuad_linkLocal_iff.mpr h

/-! ## Every spelling -/

theorem notMem_of_readIpv6 {t : Text} {a : Ipv6} (h : readIpv6 t = some a) {c : Char}
    (hc : ¬Spelling c) : c ∉ t := fun hmem => hc (spelling_of_readIpv6 h c hmem)

theorem stripBrackets_of_notMem {t : Text} (hopen : '[' ∉ t) (hclose : ']' ∉ t) :
    stripBrackets t = t := by
  unfold stripBrackets
  have h1 : t.head? ≠ some '[' := fun h => hopen (List.mem_of_head? h)
  have h2 : t.getLast? ≠ some ']' := fun h => hclose (List.mem_of_getLast? h)
  rw [if_neg h1]
  exact if_neg h2

theorem stripBrackets_brackets (t : Text) : stripBrackets ('[' :: t ++ [']']) = t := by
  simp [stripBrackets]

theorem not_spelling_open : ¬Spelling '[' := by unfold Spelling; decide
theorem not_spelling_close : ¬Spelling ']' := by unfold Spelling; decide

theorem stripBrackets_of_readIpv6 {t : Text} {a : Ipv6} (h : readIpv6 t = some a) :
    stripBrackets t = t :=
  stripBrackets_of_notMem (notMem_of_readIpv6 h not_spelling_open)
    (notMem_of_readIpv6 h not_spelling_close)

theorem dottedQuad_eq_none {t : Text} {c : Char} (hmem : c ∈ t) (hdot : c ≠ '.')
    (hdigit : digitValue c = none) : dottedQuad t = none := by
  by_contra hquad
  obtain ⟨quad, hquad⟩ := Option.ne_none_iff_exists'.mp hquad
  rcases mem_of_dottedQuad hquad c hmem with h | h
  · exact hdot h
  · rw [hdigit] at h
    cases h

/-- The class of an IPv6 host is that of its address's canonical text. -/
theorem classifyIpLiteral_v6 {host : Text} {a : Ipv6} (h : Spells host (.v6 a)) :
    classifyIpLiteral host = classifyCanonical a.canonical := by
  have hstrip : ∃ t, parseIpv6 t = some a ∧ stripBrackets (host.map Char.toLower) =
      t.map Char.toLower ∧ dottedQuad host = none := by
    rcases h with h | ⟨t, rfl, h⟩
    · refine ⟨host, h, stripBrackets_of_readIpv6 h, ?_⟩
      obtain ⟨c, hc, hlower⟩ := List.mem_map.mp (colon_mem_of_readIpv6 h)
      obtain rfl := eq_of_toLower (by decide) hlower
      exact dottedQuad_eq_none hc (by decide) (by decide)
    · refine ⟨t, h, ?_, dottedQuad_eq_none (c := '[') (by simp) (by decide) (by decide)⟩
      have hmap : ('[' :: t ++ [']']).map Char.toLower = '[' :: t.map Char.toLower ++ [']'] := by
        rw [List.map_append, List.map_cons]
        rfl
      rw [hmap, stripBrackets_brackets]
  obtain ⟨t, hparse, hlower, hquad⟩ := hstrip
  unfold classifyIpLiteral
  dsimp only
  rw [hquad, hlower]
  dsimp only
  rw [if_pos (colon_mem_of_readIpv6 hparse), parseIpv6_toLower, hparse]

theorem classifyIpLiteral_v4 {host : Text} {v : Ipv4} (h : Spells host (.v4 v)) :
    classifyIpLiteral host = classifyQuad v.quad := by
  unfold classifyIpLiteral
  rw [dottedQuad_of_parseIpv4 h]

theorem spells_of_ipAddress {host : Text} {x : IpAddress} (h : ipAddress host = some x) :
    Spells host x := by
  unfold ipAddress at h
  split at h
  · next v hv =>
    obtain rfl := Option.some.inj h
    exact hv
  · obtain ⟨a, ha, rfl⟩ := Option.map_eq_some_iff.mp h
    exact .inl ha

theorem linkLocal_iff {host : Text} {x : IpAddress} (h : Spells host x) (hpassed : ¬PassedBy x) :
    classifyIpLiteral host = .linkLocal ↔ IsLinkLocal x := by
  cases x with
  | v4 v =>
    rw [classifyIpLiteral_v4 h]
    exact classifyQuad_linkLocal_iff
  | v6 a =>
    rw [classifyIpLiteral_v6 h, classifyCanonical_linkLocal_iff]
    refine or_congr ⟨fun h0 => ?_, fun hll => ?_⟩ Iff.rfl
    · rw [contains_linkLocal6, h0]
      decide
    · by_contra h0
      exact hpassed (.inl ⟨hll, fun h => h0 (Fin.ext h)⟩)

/-- An internal address is not public, and one that the operator can open is a private one. -/
theorem classify_internal {host : Text} {x : IpAddress} (h : Spells host x) (hin : IsInternal x)
    (hpassed : ¬PassedBy x) : classifyIpLiteral host ≠ .publicIp ∧
      (classifyIpLiteral host = .privateIp → IsPrivate x) := by
  cases x with
  | v4 v =>
    rw [classifyIpLiteral_v4 h]
    exact ⟨classifyQuad_ne_public hin, isPrivate4_of_classifyQuad⟩
  | v6 a =>
    rw [classifyIpLiteral_v6 h]
    rcases hin with hll | hul | h0 | h1 | ⟨v, hv, hinternal⟩
    · rw [classifyCanonical_linkLocal (by
        by_contra h0
        exact hpassed (.inl ⟨hll, fun h => h0 (Fin.ext h)⟩))]
      exact ⟨by decide, fun hp => (by cases hp)⟩
    · rw [classifyCanonical_uniqueLocal hul]
      exact ⟨by decide, fun _ => .inl hul⟩
    · rw [classifyCanonical_unspecified h0]
      exact ⟨by decide, fun hp => (by cases hp)⟩
    · rw [classifyCanonical_loopback h1]
      exact ⟨by decide, fun hp => (by cases hp)⟩
    · cases hv with
      | mapped =>
        rw [classifyCanonical_mapped]
        exact ⟨classifyQuad_ne_public hinternal,
          fun hp => .inr ⟨v, rfl, isPrivate4_of_classifyQuad hp⟩⟩
      | compatible =>
        have hsmall : ¬1 < (Ipv6.compatible v).value := fun hbig =>
          hpassed (.inr ⟨hbig, v, rfl, hinternal⟩)
        have hvalue : (Ipv6.compatible v).value = 0 ∨ (Ipv6.compatible v).value = 1 := by omega
        rcases hvalue with hvalue | hvalue
        · rw [classifyCanonical_unspecified hvalue]
          exact ⟨by decide, fun hp => (by cases hp)⟩
        · rw [classifyCanonical_loopback hvalue]
          exact ⟨by decide, fun hp => (by cases hp)⟩
      | nat64 =>
        rw [classifyCanonical_nat64]
        exact ⟨by decide, fun hp => (by cases hp)⟩
      | sixToFour =>
        rw [classifyCanonical_sixToFour]
        exact ⟨by decide, fun hp => (by cases hp)⟩

/-! ## What is dialled -/

section Dialled

variable {env : Bool} {opts : UrlSafetyOptions} {resolve : Text → Option (List Text)}

theorem isBlockedClass_of_ne_public {c : IpClass} (h : c ≠ .publicIp)
    (hoff : opts.allowPrivate = false) (hopen : ¬(env = true ∧ c = .privateIp)) :
    isBlockedClass env opts c = true := by
  cases c with
  | linkLocal => rfl
  | loopback => rw [isBlockedClass, hoff]; rfl
  | reserved => rw [isBlockedClass, hoff]; rfl
  | privateIp =>
    cases env with
    | true => exact absurd ⟨rfl, rfl⟩ hopen
    | false => rw [isBlockedClass, hoff]; rfl
  | publicIp => exact absurd rfl h

theorem stripBrackets_of_ipAddress {host : Text} (h : (ipAddress host).isSome = true) :
    stripBrackets host = host := by
  have hspelling : ∀ c : Char, (¬Spelling c) → c.val.toNat < 97 → c.toLower = c → c ∉ host := by
    intro c hc hlow hlower hmem
    unfold ipAddress at h
    split at h
    · next v hv => exact hc (spelling_of_parseIpv4 hv c hmem)
    · cases hparse : parseIpv6 host with
      | none => rw [hparse] at h; cases h
      | some a =>
        refine notMem_of_readIpv6 hparse hc ?_
        exact hlower ▸ List.mem_map_of_mem hmem
  exact stripBrackets_of_notMem
    (hspelling '[' not_spelling_open (by decide) (by decide))
    (hspelling ']' not_spelling_close (by decide) (by decide))

theorem class_of_safeLookup {all : Bool} {hostname : Text} {addresses : List Text}
    (h : safeLookup env opts resolve all hostname = some addresses) :
    ∀ address ∈ addresses, isBlockedClass env opts (classifyIpLiteral address) = false := by
  obtain ⟨list, -, h⟩ := Option.bind_eq_some_iff.mp h
  split_ifs at h with hempty hblocked
  · obtain rfl := Option.some.inj h
    exact fun address hmem => Bool.eq_false_iff.mpr fun hb =>
      hblocked (List.any_eq_true.mpr ⟨address, hmem, hb⟩)
  · obtain rfl := Option.some.inj h
    exact fun address hmem => Bool.eq_false_iff.mpr fun hb =>
      hblocked (List.any_eq_true.mpr ⟨address, List.mem_of_mem_take hmem, hb⟩)

/-- What is dialled was classified, and its class is not blocked. -/
theorem class_of_dialled {all : Bool} {host : Text} {addresses : List Text}
    (h : createConnection env opts resolve all host = some addresses) :
    ∀ address ∈ addresses, isBlockedClass env opts (classifyIpLiteral address) = false := by
  unfold createConnection at h
  split_ifs at h with hguard hempty
  · rw [if_neg (by decide)] at h
    exact class_of_safeLookup h
  · dsimp only at h
    split_ifs at h with hip
    · obtain rfl := Option.some.inj h
      intro address hmem
      obtain rfl := List.mem_singleton.mp hmem
      simpa [literalGuard, stripBrackets_of_ipAddress hip, hip, hempty] using hguard
    · exact class_of_safeLookup h

end Dialled

/-- Every spelling of an address that the comparison covers has its class, and the agents dial no
internal one of them but a private one that the operator has opened. -/
theorem agents_refuse : (∀ host x, Spells host x → ¬PassedBy x →
      (classifyIpLiteral host = .linkLocal ↔ IsLinkLocal x) ∧
        (IsInternal x → classifyIpLiteral host ≠ .publicIp)) ∧
    ∀ env opts resolve all host addresses,
      createConnection env opts resolve all host = some addresses →
        ∀ address ∈ addresses, ∀ x, ipAddress address = some x → ¬PassedBy x →
          ¬IsLinkLocal x ∧
            (opts.allowPrivate = false → IsInternal x → env = true ∧ IsPrivate x) := by
  refine ⟨fun host x h hpassed => ⟨linkLocal_iff h hpassed,
    fun hin => (classify_internal h hin hpassed).1⟩, ?_⟩
  intro env opts resolve all host addresses h address hmem x hx hpassed
  have hspells := spells_of_ipAddress hx
  have hclass := class_of_dialled h address hmem
  constructor
  · intro hll
    rw [(linkLocal_iff hspells hpassed).mpr hll] at hclass
    cases hclass
  · intro hoff hin
    obtain ⟨hpublic, hprivate⟩ := classify_internal hspells hin hpassed
    by_contra hopen
    have hblocked : isBlockedClass env opts (classifyIpLiteral address) = true :=
      isBlockedClass_of_ne_public hpublic hoff fun ⟨henv, hp⟩ => hopen ⟨henv, hprivate hp⟩
    rw [hblocked] at hclass
    cases hclass

/-- The metadata service in its mapped form and in brackets. -/
theorem agents_refuse_metadata : classifyIpLiteral "[::FFFF:a9fe:A9FE]".toList = .linkLocal :=
  (agents_refuse.1 _ (.v6 (.mapped ⟨169, 254, 169, 254⟩))
    (.inr ⟨"::FFFF:a9fe:A9FE".toList, rfl, by decide +kernel⟩) (by
      rintro (⟨h, -⟩ | ⟨-, v, h, -⟩)
      · exact absurd h (by decide)
      · have := congrArg Ipv6.g5 h
        exact absurd this (show (0xffff : Fin 65536) ≠ 0 by decide))).1.mpr
    (.inr ⟨_, rfl, by decide⟩)

/-- `febf::1` is link-local and `::127.0.0.1` embeds a loopback address, and both have the class of
a public address. A private address is dialled where the operator has opened them. -/
theorem agents_refuse_except :
    (Spells "febf::1".toList (.v6 ⟨0xfebf, 0, 0, 0, 0, 0, 0, 1⟩) ∧
      IsLinkLocal (.v6 ⟨0xfebf, 0, 0, 0, 0, 0, 0, 1⟩) ∧
      classifyIpLiteral "febf::1".toList = .publicIp) ∧
    (Spells "::127.0.0.1".toList (.v6 (.compatible ⟨127, 0, 0, 1⟩)) ∧
      IsInternal (.v6 (.compatible ⟨127, 0, 0, 1⟩)) ∧
      classifyIpLiteral "::127.0.0.1".toList = .publicIp) ∧
    (IsInternal (.v4 ⟨10, 0, 0, 1⟩) ∧
      createConnection true ⟨false⟩ (fun _ => none) true "10.0.0.1".toList =
        some ["10.0.0.1".toList]) := by
  refine ⟨⟨.inl (by decide +kernel), .inl (by decide), by decide +kernel⟩,
    ⟨.inl (by decide +kernel), ?_, by decide +kernel⟩, ?_, by decide +kernel⟩
  · exact .inr (.inr (.inr (.inr ⟨_, .compatible _, ⟨0x7f000000, 8⟩, by decide, by decide⟩)))
  · exact ⟨⟨0x0a000000, 8⟩, by decide, by decide⟩

end MyBooks
