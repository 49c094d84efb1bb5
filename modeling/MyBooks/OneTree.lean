import MyBooks.RowFields

/-!
# A JSON text has one tree

A tree is read off its text, up to what may follow it (`Json.text_inj`): strings end at their closing
quote, literals at what cannot be in them, and blanks belong to the separator before them.
-/

namespace MyBooks

namespace Remap

/-- The tree is read off its text. -/
def ReadOff (j : Json) : Prop :=
  ∀ j' r r', j'.Wf → Stops r → Stops r' → j.text ++ r = j'.text ++ r' → j = j' ∧ r = r'

theorem closed_inj {raw raw' r r' : Text} (h : closed raw = true) (h' : closed raw' = true)
    (heq : raw ++ '"' :: r = raw' ++ '"' :: r') : raw = raw' ∧ r = r' := by
  have hscan := scanString_closed h r
  rw [heq, scanString_closed h' r'] at hscan
  obtain ⟨hraw, hrest⟩ := Prod.mk.inj hscan
  exact ⟨(List.append_cancel_right hraw).symm, hrest.symm⟩

/-- Blanks are read off before something else. -/
theorem blanks_inj {a a' r r' : Text} {c c' : Char} (ha : a.all isWs = true)
    (ha' : a'.all isWs = true) (hc : isWs c = false) (hc' : isWs c' = false)
    (h : a ++ c :: r = a' ++ c' :: r') : a = a' ∧ c = c' ∧ r = r' := by
  obtain ⟨htake, hdrop⟩ := takeWhile_ws ha hc r
  obtain ⟨htake', hdrop'⟩ := takeWhile_ws ha' hc' r'
  rw [h, htake'] at htake
  rw [h, hdrop'] at hdrop
  obtain ⟨hcc, hrr⟩ := List.cons.inj hdrop
  exact ⟨htake.symm, hcc.symm, hrr.symm⟩

theorem around_inj {d : Char} {t t' r r' : Text} {c c' : Char} (ht : Around d t)
    (ht' : Around d t') (hd : isWs d = false) (hc : isWs c = false) (hc' : isWs c' = false)
    (h : t ++ c :: r = t' ++ c' :: r') : t = t' ∧ c :: r = c' :: r' := by
  obtain ⟨a, b, ha, hb, rfl⟩ := ht
  obtain ⟨a', b', ha', hb', rfl⟩ := ht'
  rw [List.append_assoc, List.cons_append, List.append_assoc, List.cons_append] at h
  obtain ⟨rfl, -, hrest⟩ := blanks_inj ha ha' hd hd h
  obtain ⟨rfl, rfl, rfl⟩ := blanks_inj hb hb' hc hc' hrest
  exact ⟨rfl, rfl⟩

section Nodes

variable {isObject : Bool} {p p' : Part Json} {ps ps' : List (Part Json)} {tail tail' r r' : Text}

/-- A member's key and colon are read off, or an item has none. -/
theorem head_inj {key key' colon colon' : Text} {c c' : Char} (h : KeyWf isObject key colon)
    (h' : KeyWf isObject key' colon') (hc : isWs c = false) (hc' : isWs c' = false)
    (heq : head isObject key colon ++ c :: r = head isObject key' colon' ++ c' :: r') :
    key = key' ∧ colon = colon' ∧ c :: r = c' :: r' := by
  cases isObject with
  | false =>
    obtain ⟨rfl, rfl⟩ := h
    obtain ⟨rfl, rfl⟩ := h'
    exact ⟨rfl, rfl, heq⟩
  | true =>
    simp only [head, if_true, List.cons_append, List.append_assoc, List.cons.injEq, true_and] at heq
    obtain ⟨rfl, hcolon⟩ := closed_inj h.1 h'.1 heq
    obtain ⟨rfl, hrest⟩ := around_inj h.2 h'.2 rfl hc hc' hcolon
    exact ⟨rfl, rfl, hrest⟩

theorem stops_tail (htail : tail.all isWs = true) (r : Text) :
    Stops (tail ++ closing isObject :: r) :=
  stops_ws htail (by cases isObject <;> simp [closing]) r

theorem stops_sep {sep : Text} (hsep : SepWf ps.isEmpty sep) (htail : tail.all isWs = true)
    (r : Text) : Stops (sep ++ (partsText isObject ps ++ (tail ++ closing isObject :: r))) := by
  cases ps with
  | nil =>
    obtain rfl : sep = [] := hsep
    exact stops_tail htail r
  | cons p ps =>
    obtain ⟨a, b, ha, -, rfl⟩ : Around ',' sep := hsep
    rw [List.append_assoc, List.cons_append]
    exact stops_ws ha (.inl rfl) _

/-- Before a closing bracket there is no comma. -/
theorem comma_ne_closing {sep : Text} (hsep : Around ',' sep) (htail : tail.all isWs = true) :
    sep ++ r ≠ tail ++ closing isObject :: r' := by
  intro h
  obtain ⟨a, b, ha, -, rfl⟩ := hsep
  rw [List.append_assoc, List.cons_append] at h
  obtain ⟨-, hcomma, -⟩ := blanks_inj ha htail rfl (isWs_closing isObject) h
  cases isObject <;> cases hcomma

theorem parts_inj (htail : tail.all isWs = true) (htail' : tail'.all isWs = true) :
    ∀ {ps ps' : List (Part Json)}, ps ≠ [] → ps' ≠ [] → (∀ p ∈ ps, p.value.Wf → ReadOff p.value) →
    partsWf isObject ps → partsWf isObject ps' →
    partsText isObject ps ++ (tail ++ closing isObject :: r) =
      partsText isObject ps' ++ (tail' ++ closing isObject :: r') →
    ps = ps' ∧ tail = tail' ∧ r = r'
  | [], _, hne, _, _, _, _, _ => absurd rfl hne
  | _, [], _, hne', _, _, _, _ => absurd rfl hne'
  | ⟨key, colon, v, sep⟩ :: ps, ⟨key', colon', v', sep'⟩ :: ps', _, _, ih, hwf, hwf', heq => by
    obtain ⟨hkey, hv, hsep, hps⟩ := hwf
    obtain ⟨hkey', hv', hsep', hps'⟩ := hwf'
    obtain ⟨c, t, hct, hc, -⟩ := Json.text_cons hv
    obtain ⟨c', t', hct', hc', -⟩ := Json.text_cons hv'
    rw [partsText, partsText] at heq
    simp only [List.append_assoc] at heq
    obtain ⟨rfl, rfl, hvalues⟩ : key = key' ∧ colon = colon' ∧
        v.text ++ (sep ++ (partsText isObject ps ++ (tail ++ closing isObject :: r))) =
          v'.text ++ (sep' ++ (partsText isObject ps' ++ (tail' ++ closing isObject :: r'))) := by
      rw [hct, hct'] at heq ⊢
      exact head_inj hkey hkey' hc hc' heq
    obtain ⟨rfl, hseps⟩ := ih _ List.mem_cons_self hv _ _ _ hv' (stops_sep hsep htail r)
      (stops_sep hsep' htail' r') hvalues
    cases ps with
    | nil =>
      obtain rfl : sep = [] := hsep
      cases ps' with
      | nil =>
        obtain rfl : sep' = [] := hsep'
        obtain ⟨rfl, -, rfl⟩ :=
          blanks_inj htail htail' (isWs_closing isObject) (isWs_closing isObject) hseps
        exact ⟨rfl, rfl, rfl⟩
      | cons q' qs' => exact absurd hseps.symm (comma_ne_closing hsep' htail)
    | cons q qs =>
      cases ps' with
      | nil =>
        obtain rfl : sep' = [] := hsep'
        exact absurd hseps (comma_ne_closing hsep htail')
      | cons q' qs' =>
        have hnext : ∀ p ∈ q :: qs, p.value.Wf → ReadOff p.value :=
          fun p hp => ih p (List.mem_cons_of_mem _ hp)
        obtain ⟨d, u, hdu, hd, -⟩ := partsText_cons hps
        obtain ⟨d', u', hdu', hd', -⟩ := partsText_cons hps'
        obtain ⟨rfl, hrest⟩ : sep = sep' ∧
            partsText isObject (q :: qs) ++ (tail ++ closing isObject :: r) =
              partsText isObject (q' :: qs') ++ (tail' ++ closing isObject :: r') := by
          rw [hdu, hdu'] at hseps ⊢
          exact around_inj hsep hsep' rfl hd hd' hseps
        obtain ⟨hqs, htails, hr⟩ := parts_inj htail htail' (List.cons_ne_nil q qs)
          (List.cons_ne_nil q' qs') hnext hps hps' hrest
        exact ⟨by rw [hqs], htails, hr⟩

/-- What follows the first blanks of a node begins with the closing bracket if the node is empty. -/
theorem inner_cons (hnil : ps = [] → tail = []) (hps : partsWf isObject ps) (r : Text) :
    ∃ c t, partsText isObject ps ++ (tail ++ closing isObject :: r) = c :: t ∧ isWs c = false ∧
      (ps = [] ↔ c = closing isObject) := by
  cases ps with
  | nil =>
    rw [hnil rfl]
    exact ⟨_, r, rfl, isWs_closing isObject, by simp⟩
  | cons p ps =>
    obtain ⟨c, t, hct, hc, hne⟩ := partsText_cons hps
    exact ⟨c, _, by rw [hct]; rfl, hc, by simp [hne]⟩

end Nodes

/-- Values whose texts begin alike are of one kind. -/
inductive Kind
  | str
  | lit
  | node (isObject : Bool)
  deriving DecidableEq

def kindOf : Json → Kind
  | .str _ => .str
  | .lit _ => .lit
  | .node isObject _ _ _ => .node isObject

def headKind (c : Char) : Kind :=
  if c = '"' then .str else if c = '{' then .node true else if c = '[' then .node false else .lit

theorem headKind_text {j : Json} (hj : j.Wf) (r : Text) :
    ((j.text ++ r).head?).map headKind = some (kindOf j) := by
  cases j with
  | str raw => rfl
  | lit raw =>
    obtain ⟨hne, hall⟩ := hj
    obtain ⟨c, raw, rfl⟩ := List.exists_cons_of_ne_nil hne
    obtain ⟨-, hq, -, ho, ho', -⟩ := literal_char (List.all_eq_true.mp hall c List.mem_cons_self)
    simp [Json.text, headKind, kindOf, hq, ho, ho']
  | node isObject lead parts tail => cases isObject <;> rfl

theorem Json.text_inj (j : Json) (hj : j.Wf) : ReadOff j := by
  induction j using Json.induction with
  | str raw =>
    intro j' r r' hj' _ _ h
    have hkind := headKind_text hj r
    rw [h, headKind_text hj' r'] at hkind
    cases j' with
    | str raw' =>
      rw [Json.text, Json.text] at h
      simp only [List.cons_append, List.append_assoc, List.nil_append, List.cons.injEq,
        true_and] at h
      obtain ⟨rfl, rfl⟩ := closed_inj hj hj' h
      exact ⟨rfl, rfl⟩
    | lit raw' => cases hkind
    | node isObject lead parts tail => cases hkind
  | lit raw =>
    intro j' r r' hj' hr hr' h
    have hkind := headKind_text hj r
    rw [h, headKind_text hj' r'] at hkind
    cases j' with
    | str raw' => cases hkind
    | lit raw' =>
      have hs := takeWhile_literal hj.2 hr
      have ht := takeWhile_literal hj'.2 hr'
      rw [Json.text, Json.text] at h
      rw [h] at hs
      obtain rfl := hs.1.symm.trans ht.1
      exact ⟨rfl, hs.2.symm.trans ht.2⟩
    | node isObject lead parts tail => cases hkind
  | node isObject lead parts tail ih =>
    intro j' r r' hj' _ _ h
    have hkind := headKind_text hj r
    rw [h, headKind_text hj' r'] at hkind
    cases j' with
    | str raw' => cases hkind
    | lit raw' => cases hkind
    | node isObject' lead' parts' tail' =>
      obtain rfl : isObject' = isObject := Kind.node.inj (Option.some.inj hkind)
      obtain ⟨hlead, htail, hnil, hparts⟩ := hj
      obtain ⟨hlead', htail', hnil', hparts'⟩ := hj'
      rw [Json.text, Json.text] at h
      simp only [List.cons_append, List.append_assoc, List.nil_append, List.cons.injEq,
        true_and] at h
      obtain ⟨c, t, hct, hc, hempty⟩ := inner_cons hnil hparts r
      obtain ⟨c', t', hct', hc', hempty'⟩ := inner_cons hnil' hparts' r'
      obtain ⟨rfl, rfl, hrest⟩ : lead = lead' ∧ c = c' ∧
          partsText isObject' parts ++ (tail ++ closing isObject' :: r) =
            partsText isObject' parts' ++ (tail' ++ closing isObject' :: r') := by
        rw [hct, hct'] at h ⊢
        obtain ⟨hleads, hcc, htt⟩ := blanks_inj hlead hlead' hc hc' h
        exact ⟨hleads, hcc, by rw [hcc, htt]⟩
      by_cases hparts0 : parts = []
      · have hparts0' : parts' = [] := hempty'.mpr (hempty.mp hparts0)
        obtain rfl := hnil hparts0
        obtain rfl := hnil' hparts0'
        subst hparts0
        subst hparts0'
        exact ⟨rfl, List.tail_eq_of_cons_eq hrest⟩
      · have hparts0' : parts' ≠ [] := fun h0 => hparts0 (hempty.mpr (hempty'.mp h0))
        obtain ⟨rfl, rfl, rfl⟩ := parts_inj htail htail' hparts0 hparts0'
          (fun p hp hv => ih p hp hv) hparts hparts' hrest
        exact ⟨rfl, rfl⟩

end Remap

end MyBooks
