import SqlalchemyCubrid.Alembic

/-!
# Spellings of an element type

`_resolve_type` reads many spellings as one type: it has synonyms for names, and
white space and leading zeros in numbers do not count.  `compare_type` compares
the spellings.

* `Spelling`: a name of `_type_map` in some case, and parameters.  Every element
  type that `_resolve_type` knows is one, with white space around it
  (`exists_spells`).
* `elementKey_of_spells`: what `compare_type` compares of it.
* `compareType_resolved_iff`: of two element types of one type, those are found
  equal whose names and parameters are the same texts up to case.
-/

namespace SqlalchemyCubrid.Alembic

open Lib Python SqlalchemyCubrid.Types Dialect

/-! ### Names of the type map -/

def typeNames : List Str := typeMap.map Prod.fst

theorem isTypeName_of_mem_typeNames : ∀ b ∈ typeNames, IsTypeName b := by decide +kernel

theorem paren_not_mem_typeName {b : Str} (hb : b ∈ typeNames) : '(' ∉ b := by
  intro h
  have hparen : '(' ∈ nameChars := (isTypeName_of_mem_typeNames b hb).chars _ h
  exact absurd hparen (by decide)

theorem paren_not_mem_of_space {g : Str} (hg : ∀ c ∈ g, isSpace c) : '(' ∉ g := by
  intro h
  exact absurd (hg _ h) (by decide)

theorem not_isSpace_of_mem_typeName {b : Str} (hb : b ∈ typeNames) {c : Char} (hc : c ∈ b)
    (hs : c ≠ ' ') : isSpace c = false :=
  not_isSpace_of_mem_nameChars ((isTypeName_of_mem_typeNames b hb).chars c hc) hs

theorem mem_typeNames_of_lookup {b : Str} {typeCls : TypeCls}
    (h : typeMap.lookup b = some typeCls) : b ∈ typeNames := by
  by_contra hb
  have hnone : typeMap.lookup b = none := by
    rw [List.lookup_eq_none_iff]
    intro x hx
    have hne : b ≠ x.1 := fun e => hb (e ▸ List.mem_map_of_mem hx)
    simpa using hne
  rw [hnone] at h
  cases h

section Spellings

variable [UnicodeData]

/-- A name of the map has no white space in front, in whatever case it is written. -/
theorem head_of_upper {w : Str} (hw : upper w ∈ typeNames) (hne : w ≠ []) :
    isSpace (w.head hne) = false := by
  cases w with
  | nil => exact absurd rfl hne
  | cons c w =>
    rw [List.head_cons]
    by_contra h
    have hc : isSpace c = true := by simpa using h
    rw [upper_cons, UnicodeData.upperChar_space c hc] at hw
    have hspace : c = ' ' := by
      by_contra hs
      have hfalse := not_isSpace_of_mem_typeName hw List.mem_cons_self hs
      rw [hfalse] at hc
      exact Bool.false_ne_true hc
    exact (isTypeName_of_mem_typeNames _ hw).head (by rw [hspace]; rfl)

theorem last_of_upper {w : Str} (hw : upper w ∈ typeNames) (hne : w ≠ []) :
    isSpace (w.getLast hne) = false := by
  obtain ⟨v, c, hv⟩ := (List.eq_nil_or_concat w).resolve_left hne
  rw [List.concat_eq_append] at hv
  subst hv
  rw [List.getLast_append_singleton]
  by_contra h
  have hc : isSpace c = true := by simpa using h
  have hupper : upper (v ++ [c]) = upper v ++ [c] := by
    rw [upper_append, upper_cons, UnicodeData.upperChar_space c hc]
    rfl
  rw [hupper] at hw
  have hspace : c = ' ' := by
    by_contra hs
    have hmem : c ∈ upper v ++ [c] := List.mem_append_right _ (List.mem_singleton_self c)
    rw [not_isSpace_of_mem_typeName hw hmem hs] at hc
    exact Bool.false_ne_true hc
  exact (isTypeName_of_mem_typeNames _ hw).last (by rw [hspace, List.getLast?_concat])

theorem ne_nil_of_upper {w : Str} (hw : upper w ∈ typeNames) : w ≠ [] := by
  rintro rfl
  exact (isTypeName_of_mem_typeNames _ hw).ne_nil rfl

/-! ### Spellings -/

/-- A type as it is spelled: its name, and the parameters with the white space
before them. -/
structure Spelling where
  name : Str
  params : Option (Str × Str)
  known : upper name ∈ typeNames
  gap : ∀ x ∈ params, ∀ c ∈ x.1, isSpace c

/-- The parameters in parentheses. -/
def paramsText : Option (Str × Str) → Str
  | none => []
  | some (g, p) => g ++ '(' :: (p ++ [')'])

namespace Spelling

def text (s : Spelling) : Str := s.name ++ paramsText s.params

/-- The element type `e` is the spelling with white space around it. -/
def Spells (s : Spelling) (e : Str) : Prop :=
  ∃ a b, (∀ c ∈ a, isSpace c) ∧ (∀ c ∈ b, isSpace c) ∧ e = a ++ s.text ++ b

/-- One name and the same parameters, up to case. -/
def Alike (s s' : Spelling) : Prop :=
  upper s.name = upper s'.name ∧
    s.params.map (Prod.map id upper) = s'.params.map (Prod.map id upper)

end Spelling

/-- The two element types are spelled alike. -/
def SpelledAlike (e e' : Str) : Prop := ∃ s s' : Spelling, s.Spells e ∧ s'.Spells e' ∧ s.Alike s'

/-! ### What is compared -/

theorem Spelling.text_ne_nil (s : Spelling) : s.text ≠ [] :=
  List.append_ne_nil_of_left_ne_nil (ne_nil_of_upper s.known) _

theorem Spelling.head_text (s : Spelling) : isSpace (s.text.head s.text_ne_nil) = false := by
  have hne := ne_nil_of_upper s.known
  have hhead : s.text.head s.text_ne_nil = s.name.head hne := List.head_append_of_ne_nil hne
  rw [hhead]
  exact head_of_upper s.known hne

theorem Spelling.last_text (s : Spelling) : isSpace (s.text.getLast s.text_ne_nil) = false := by
  have hne := ne_nil_of_upper s.known
  cases hp : s.params with
  | none =>
    have htext : s.text = s.name := by rw [Spelling.text, hp, paramsText, List.append_nil]
    simp only [htext]
    exact last_of_upper s.known hne
  | some x =>
    have htext : s.text = (s.name ++ x.1 ++ '(' :: x.2) ++ [')'] := by
      rw [Spelling.text, hp]
      show s.name ++ (x.1 ++ '(' :: (x.2 ++ [')'])) = _
      simp only [List.append_assoc, List.cons_append]
    simp only [htext]
    rw [List.getLast_append_singleton]
    decide

theorem upper_paramsText {x : Option (Str × Str)} (hx : ∀ y ∈ x, ∀ c ∈ y.1, isSpace c) :
    upper (paramsText x) = paramsText (x.map (Prod.map id upper)) := by
  have hopen : upper ['('] = ['('] := by rw [upper_ascii (by decide)]; rfl
  have hclose : upper [')'] = [')'] := by rw [upper_ascii (by decide)]; rfl
  match x with
  | none => rfl
  | some (g, p) =>
    show upper (g ++ '(' :: (p ++ [')'])) = g ++ '(' :: (upper p ++ [')'])
    rw [← List.singleton_append, upper_append, upper_append, upper_append,
      upper_spaces (hx (g, p) rfl), hopen, hclose]
    rfl

/-- **What `compare_type` compares of a spelling.** -/
theorem elementKey_of_spells {s : Spelling} {e : Str} (h : s.Spells e) :
    elementKey e = upper s.name ++ paramsText (s.params.map (Prod.map id upper)) := by
  obtain ⟨a, b, ha, hb, rfl⟩ := h
  have hstrip : strip (a ++ s.text ++ b) = s.text :=
    stripIf_surround ha hb s.text_ne_nil s.head_text s.last_text
  rw [elementKey, hstrip, Spelling.text, upper_append, upper_paramsText s.gap]

theorem strip_typeName_append {b g : Str} (hb : b ∈ typeNames) (hg : ∀ c ∈ g, isSpace c) :
    strip (b ++ g) = b := by
  have hname := isTypeName_of_mem_typeNames b hb
  have hupper : upper b ∈ typeNames := by
    rw [hname.upper]
    exact hb
  have h := stripIf_surround (List.forall_mem_nil _) hg hname.ne_nil
    (head_of_upper hupper hname.ne_nil) (last_of_upper hupper hname.ne_nil)
  exact h

omit [UnicodeData] in
theorem paren_mem_paramsText (x : Str × Str) : '(' ∈ paramsText (some x) :=
  List.mem_append_right x.1 List.mem_cons_self

/-- A name and its parameters can be told apart. -/
theorem name_params_inj {b b' : Str} (hb : b ∈ typeNames) (hb' : b' ∈ typeNames)
    {x x' : Option (Str × Str)} (hx : ∀ y ∈ x, ∀ c ∈ y.1, isSpace c)
    (hx' : ∀ y ∈ x', ∀ c ∈ y.1, isSpace c) (h : b ++ paramsText x = b' ++ paramsText x') :
    b = b' ∧ x = x' := by
  match x, x' with
  | none, none =>
    rw [paramsText, List.append_nil, List.append_nil] at h
    exact ⟨h, rfl⟩
  | none, some y =>
    apply absurd _ (paren_not_mem_typeName hb)
    rw [paramsText, List.append_nil] at h
    rw [h]
    exact List.mem_append_right _ (paren_mem_paramsText y)
  | some y, none =>
    apply absurd _ (paren_not_mem_typeName hb')
    rw [paramsText.eq_1, List.append_nil] at h
    rw [← h]
    exact List.mem_append_right _ (paren_mem_paramsText y)
  | some (g, p), some (g', p') =>
    have hg : ∀ c ∈ g, isSpace c := hx (g, p) rfl
    have hg' : ∀ c ∈ g', isSpace c := hx' (g', p') rfl
    have hleft {b g : Str} (hb : b ∈ typeNames) (hg : ∀ c ∈ g, isSpace c) : '(' ∉ b ++ g := by
      intro hc
      rcases List.mem_append.mp hc with hc | hc
      · exact paren_not_mem_typeName hb hc
      · exact paren_not_mem_of_space hg hc
    have hcut : (b ++ g) ++ '(' :: (p ++ [')']) = (b' ++ g') ++ '(' :: (p' ++ [')']) := by
      rw [List.append_assoc, List.append_assoc]
      exact h
    obtain ⟨hfront, hback⟩ := append_cons_inj (hleft hb hg) (hleft hb' hg') hcut
    have hname : b = b' := by
      rw [← strip_typeName_append hb hg, hfront, strip_typeName_append hb' hg']
    subst hname
    rw [List.append_cancel_left hfront, List.append_cancel_right hback]
    exact ⟨rfl, rfl⟩

/-! ### What is read -/

/-- What is read with a name of the map. -/
theorem mem_typeNames_of_resolveBase {b : Str} {params : Option Str}
    (h : resolveBase b params ≠ .null) : b ∈ typeNames := by
  cases hl : typeMap.lookup b with
  | none =>
    rw [resolveBase, hl] at h
    exact absurd rfl h
  | some typeCls => exact mem_typeNames_of_lookup hl

/-- A name, and at most white space after it. -/
theorem exists_spells_name {b tail : Str} (hb : upper (strip b) ∈ typeNames)
    (htail : ∀ c ∈ tail, isSpace c) : ∃ s : Spelling, s.Spells (b ++ tail) := by
  obtain ⟨u, v, hu, hv, hcut⟩ := exists_surround_stripIf isSpace b
  refine ⟨⟨strip b, none, hb, ?_⟩, u, v ++ tail, hu, ?_, ?_⟩
  · intro x hx
    exact absurd hx (Option.not_mem_none x)
  · exact List.forall_mem_append.mpr ⟨hv, htail⟩
  · show b ++ tail = u ++ (strip b ++ []) ++ (v ++ tail)
    rw [List.append_nil, ← List.append_assoc]
    exact congrArg (· ++ tail) hcut

/-- A name with parameters, and at most white space after them. -/
theorem exists_spells_params {b p tail : Str} (hb : upper (strip b) ∈ typeNames)
    (htail : ∀ c ∈ tail, isSpace c) :
    ∃ s : Spelling, s.Spells (b ++ '(' :: (p ++ ')' :: tail)) := by
  obtain ⟨u, v, hu, hv, hcut⟩ := exists_surround_stripIf isSpace b
  refine ⟨⟨strip b, some (v, p), hb, ?_⟩, u, tail, hu, htail, ?_⟩
  · intro x hx
    rw [← Option.mem_some_iff.mp hx]
    exact hv
  · have htext : b ++ '(' :: (p ++ ')' :: tail)
        = (u ++ strip b ++ v) ++ '(' :: (p ++ ')' :: tail) :=
      congrArg (· ++ '(' :: (p ++ ')' :: tail)) hcut
    rw [htext]
    show _ = u ++ (strip b ++ (v ++ '(' :: (p ++ [')']))) ++ tail
    simp only [List.append_assoc, List.cons_append, List.nil_append]

/-- **What `_resolve_type` knows is a spelling.** -/
theorem exists_spells {e : Str} (h : resolveType e ≠ .null) : ∃ s : Spelling, s.Spells e := by
  rw [resolveType] at h
  cases hm : typePattern.first e with
  | none =>
    rw [hm] at h
    exact absurd rfl h
  | some m =>
    rw [hm] at h
    obtain ⟨b, tail, hb, htail, hcut⟩ := mem_run_typePattern (Re.mem_run_of_first hm)
    have hknown : upper (strip b) ∈ typeNames := by
      have hbase := mem_typeNames_of_resolveBase h
      rw [hb] at hbase
      exact hbase
    have htail : ∀ c ∈ tail, isSpace c := by
      rcases htail with rfl | rfl
      · exact List.forall_mem_nil _
      · decide
    rcases hcut with ⟨-, rfl⟩ | ⟨p, -, rfl⟩
    · exact exists_spells_name hknown htail
    · exact exists_spells_params hknown htail

/-- Two spellings are compared equal exactly when they are alike. -/
theorem elementKey_eq_iff {s s' : Spelling} {e e' : Str} (h : s.Spells e) (h' : s'.Spells e') :
    elementKey e = elementKey e' ↔ s.Alike s' := by
  rw [elementKey_of_spells h, elementKey_of_spells h']
  constructor
  · intro heq
    have hgap {s : Spelling} : ∀ y ∈ s.params.map (Prod.map id upper), ∀ c ∈ y.1, isSpace c := by
      intro y hy
      obtain ⟨x, hx, rfl⟩ := Option.map_eq_some_iff.mp hy
      exact s.gap x hx
    exact name_params_inj s.known s'.known hgap hgap heq
  · rintro ⟨hname, hparams⟩
    rw [hname, hparams]

/-- A type that is known and no collection. -/
def IsScalar : SqlType → Prop
  | .scalar _ => True
  | .enum _ => True
  | .collection _ _ => False
  | .null => False

/-- **Element types of one type are found equal** exactly when they are spelled
alike. -/
theorem compareType_resolved_iff (compareSuper : SqlType → SqlType → Bool)
    (kind : CollectionKind) {e e' : Str} {t : SqlType} (ht : IsScalar t)
    (he : resolveType e = t) (he' : resolveType e' = t) :
    compareType compareSuper (.collection kind e) (.collection kind e') = false ↔
      SpelledAlike e e' := by
  have hnull : t ≠ .null := by
    rintro rfl
    exact ht
  obtain ⟨s, hs⟩ := exists_spells (he ▸ hnull)
  obtain ⟨s', hs'⟩ := exists_spells (he' ▸ hnull)
  rw [compareType_collection_eq_false_iff, and_iff_right rfl]
  constructor
  · intro h
    exact ⟨s, s', hs, hs', (elementKey_eq_iff hs hs').mp h⟩
  · rintro ⟨r, r', hr, hr', halike⟩
    exact (elementKey_eq_iff hr hr').mpr halike

end Spellings

/-- One spelling in two cases. -/
theorem compareType_resolved_iff_case :
    let _ := asciiData
    compareType (fun _ _ => true) (.collection .set "DECIMAL(10,2)".toList)
      (.collection .set "decimal(10,2)".toList) = false ↔
        SpelledAlike "DECIMAL(10,2)".toList "decimal(10,2)".toList := by
  intro _
  exact compareType_resolved_iff (t := .scalar (.NUMERIC (some 10) (some 2))) (fun _ _ => true)
    .set trivial (by decide) (by decide)

/-- The server reports `SHORT` for `SMALLINT`, and a blank after a comma. -/
theorem synonym_found_different :
    let _ := asciiData
    let found (e e' : Str) := compareType (fun _ _ => false) (.collection .set e) (.collection .set e')
    (resolveType "SHORT".toList = .scalar .SMALLINT ∧
      resolveType "SMALLINT".toList = .scalar .SMALLINT ∧
      found "SHORT".toList "SMALLINT".toList = true) ∧
    (resolveType "NUMERIC(10, 2)".toList = .scalar (.NUMERIC (some 10) (some 2)) ∧
      resolveType "NUMERIC(10,2)".toList = .scalar (.NUMERIC (some 10) (some 2)) ∧
      found "NUMERIC(10, 2)".toList "NUMERIC(10,2)".toList = true) := by
  decide

end SqlalchemyCubrid.Alembic
