import SqlalchemyCubrid.Compiler.TypeCompiler
import SqlalchemyCubrid.Dialect.ResolveType

/-!
# Recreating a reflected column type

A scalar type is rendered, read back by `_resolve_type` and rendered again.
`KeepsType` says the second text denotes the type of the first one.

`keepsType_iff` is the answer: everything keeps its type but a `Float` with a
precision of at most 7.  It is rendered `FLOAT`, which is read as a `FLOAT` with
no precision, and that is rendered `DOUBLE`.
-/

namespace SqlalchemyCubrid.Dialect

open Python SqlalchemyCubrid.Types Compiler

/-! ### What a type string denotes -/

/-- A type string with the synonyms resolved: `STRING` and `VARCHAR` are the
longest `VARCHAR`, `DECIMAL` is `NUMERIC` and `REAL` is `FLOAT`. -/
def denotes (s : Str) : Str :=
  if s = "STRING".toList ∨ s = "VARCHAR".toList then "VARCHAR(1073741823)".toList
  else if "DECIMAL".toList <+: s then "NUMERIC".toList ++ s.drop 7
  else if "REAL".toList <+: s then "FLOAT".toList ++ s.drop 4
  else s

section Recreate

variable [UnicodeData] (G : GenericTypeCompiler)

/-- The type string of the reflected column. -/
def recreate (t : ScalarType) : Option Str := process G (resolveType (visit G t))

/-- The recreated column has the type of the first one. -/
def KeepsType (t : ScalarType) : Prop :=
  (recreate G t).map denotes = some (denotes (visit G t))

/-- A `Float` rendered as a single precision column. -/
def LowFloat (t : ScalarType) : Prop := ∃ p, p ≤ 7 ∧ (t = .float (some p) ∨ t = .FLOAT (some p))

/-! ### One rule for each shape of text -/

variable {G}

/-- A name of the map, read with no parameters. -/
theorem resolveBase_none {b : Str} {typeCls : TypeCls} (hl : typeMap.lookup b = some typeCls)
    (hc : b ∉ collectionBases) : resolveBase b none = typeCls.default := by
  rw [resolveBase, hl]
  show (construct typeCls b none).getD typeCls.default = typeCls.default
  rw [construct, if_neg hc]
  rfl

theorem keepsType_of_read {t t' : ScalarType} (hr : resolveType (visit G t) = .scalar t')
    (hd : denotes (visit G t') = denotes (visit G t)) : KeepsType G t := by
  rw [KeepsType, recreate, hr, process, Option.map_some, hd]

/-- The text is a name, read as the class `typeCls` with no arguments. -/
theorem keepsType_of_name {t t' : ScalarType} (b : Str) (typeCls : TypeCls) (hv : visit G t = b)
    (hb : IsTypeName b) (hl : typeMap.lookup b = some typeCls) (hc : b ∉ collectionBases)
    (ht : typeCls.default = .scalar t') (hd : denotes (visit G t') = denotes b) :
    KeepsType G t := by
  refine keepsType_of_read (?_ : resolveType (visit G t) = .scalar t') ?_
  · rw [hv, resolveType_name hb, resolveBase_none hl hc, ht]
  · rw [hv, hd]

/-- The text is a name with parameters, read as `t'`, and `t'` prints the same
text. -/
theorem keepsType_of_params {t : ScalarType} (b e : Str) (t' : ScalarType)
    (hv : visit G t = b ++ '(' :: (e ++ [')'])) (hb : IsTypeName b) (he : e ≠ [])
    (hn : ∀ c ∈ e, c ≠ '\n') (hr : resolveBase b (some e) = .scalar t')
    (hd : visit G t' = visit G t) : KeepsType G t := by
  refine keepsType_of_read (?_ : resolveType (visit G t) = .scalar t') ?_
  · rw [hv, resolveType_params hb he hn, hr]
  · rw [hd]

end Recreate

/-! ### Reading numbers -/

theorem ne_of_mem_formatInt {c d : Char} {n : Int} (h : c ∈ formatInt n)
    (hd : d.isDigit = false) (hm : d ≠ '-') : c ≠ d := by
  rintro rfl
  rcases mem_formatInt h with h | h
  · rw [hd] at h
    exact Bool.false_ne_true h
  · exact hm h

section Numbers

variable [UnicodeData]

theorem int_strip_formatInt {gap : Str} (hg : ∀ c ∈ gap, c = ' ') (n : Int) :
    int (strip (gap ++ formatInt n)) = some n := by
  have hgap : ∀ c ∈ gap, isSpace c := by
    intro c hc
    rw [hg c hc]
    decide
  have hstrip := strip_surround hgap (List.forall_mem_nil _) (formatInt_ne_nil n)
    fun c hc => not_isSpace_of_mem_formatInt hc
  rw [List.append_nil] at hstrip
  rw [hstrip]
  exact int_formatInt_self n

/-- `NUMERIC(p)` -/
theorem resolveBase_numeric_precision (p : Int) :
    resolveBase "NUMERIC".toList (some (formatInt p)) = .scalar (.NUMERIC (some p) none) := by
  have hsplit : split ',' (formatInt p) = [formatInt p] :=
    split_eq_singleton fun c hc => ne_of_mem_formatInt hc (by decide) (by decide)
  have hint : int (strip (formatInt p)) = some p :=
    int_strip_formatInt (List.forall_mem_nil _) p
  have hparts : ((split ',' (formatInt p)).mapM fun x => int (strip x)) = some [p] := by
    rw [hsplit, List.mapM_cons, hint]
    rfl
  rw [resolveBase]
  simp only [construct, truthy_some (formatInt_ne_nil p), hparts]
  rfl

/-- `NUMERIC(p, s)` -/
theorem resolveBase_numeric_scale {gap : Str} (hg : ∀ c ∈ gap, c = ' ') (p s : Int) :
    resolveBase "NUMERIC".toList (some (formatInt p ++ ',' :: (gap ++ formatInt s)))
      = .scalar (.NUMERIC (some p) (some s)) := by
  have hcomma : ∀ c ∈ gap ++ formatInt s, c ≠ ',' := by
    intro c hc
    rcases List.mem_append.mp hc with h | h
    · rw [hg c h]
      decide
    · exact ne_of_mem_formatInt h (by decide) (by decide)
  have hsplit : split ',' (formatInt p ++ ',' :: (gap ++ formatInt s))
      = [formatInt p, gap ++ formatInt s] := by
    rw [split_append_cons fun c hc => ne_of_mem_formatInt hc (by decide) (by decide),
      split_eq_singleton hcomma]
  have hp : int (strip (formatInt p)) = some p := int_strip_formatInt (List.forall_mem_nil _) p
  have hs : int (strip (gap ++ formatInt s)) = some s := int_strip_formatInt hg s
  have hparts : ((split ',' (formatInt p ++ ',' :: (gap ++ formatInt s))).mapM
      fun x => int (strip x)) = some [p, s] := by
    rw [hsplit, List.mapM_cons, hp, List.mapM_cons, hs]
    rfl
  rw [resolveBase]
  simp only [construct, truthy_some (List.append_ne_nil_of_left_ne_nil (formatInt_ne_nil p) _),
    hparts]
  rfl

/-- `VARCHAR(n)` -/
theorem resolveBase_varchar (n : Int) :
    resolveBase "VARCHAR".toList (some (formatInt n)) = .scalar (.VARCHAR (some n)) := by
  rw [resolveBase]
  simp only [construct, truthy_some (formatInt_ne_nil n), int_formatInt_self]
  rfl

/-- `CHAR(n)` -/
theorem resolveBase_char (n : Int) :
    resolveBase "CHAR".toList (some (formatInt n)) = .scalar (.CHAR (some n)) := by
  rw [resolveBase]
  simp only [construct, truthy_some (formatInt_ne_nil n), int_formatInt_self]
  rfl

/-- `BIT VARYING(n)` -/
theorem resolveBase_bitVarying (n : Int) :
    resolveBase "BIT VARYING".toList (some (formatInt n))
      = .scalar (.largeBinary (some n)) := by
  rw [resolveBase]
  simp only [construct, truthy_some (formatInt_ne_nil n), int_formatInt_self]
  rfl

end Numbers

/-! ### The families -/

section Families

variable [UnicodeData] {G : GenericTypeCompiler}

theorem keepsType_numeric {t : ScalarType} (p s : Option Int)
    (hv : visit G t = G.visitNUMERIC p s) : KeepsType G t := by
  cases p with
  | none =>
    refine keepsType_of_name "NUMERIC".toList .NUMERIC (hv.trans (G.numeric_default s)) (by decide)
      (by decide) (by decide) rfl ?_
    show denotes (G.visitNUMERIC none none) = _
    rw [G.numeric_default]
  | some p =>
    cases s with
    | none =>
      refine keepsType_of_params "NUMERIC".toList (formatInt p) (.NUMERIC (some p) none) ?_
        (by decide) (formatInt_ne_nil p)
        (fun c hc => ne_of_mem_formatInt hc (by decide) (by decide))
        (resolveBase_numeric_precision p) hv.symm
      rw [hv, G.numeric_precision]
    | some s =>
      obtain ⟨gap, hg, hgap⟩ := G.numeric_scale p s
      refine keepsType_of_params "NUMERIC".toList _ (.NUMERIC (some p) (some s)) (hv.trans hgap)
        (by decide) (List.append_ne_nil_of_left_ne_nil (formatInt_ne_nil p) _) ?_
        (resolveBase_numeric_scale hg p s) hv.symm
      intro c hc
      rcases List.mem_append.mp hc with h | h
      · exact ne_of_mem_formatInt h (by decide) (by decide)
      rcases List.mem_cons.mp h with rfl | h
      · decide
      rcases List.mem_append.mp h with h | h
      · rw [hg c h]
        decide
      · exact ne_of_mem_formatInt h (by decide) (by decide)

/-- A type with an optional length: `print` is its text, `cls` what the text is
read as. -/
structure LengthFamily (G : GenericTypeCompiler) (b : Str) (typeCls : TypeCls)
    (print : Option Int → Str) (cls : Option Int → ScalarType) : Prop where
  isTypeName : IsTypeName b
  lookup : typeMap.lookup b = some typeCls
  not_collection : b ∉ collectionBases
  default : typeCls.default = .scalar (cls none)
  read : ∀ n, resolveBase b (some (formatInt n)) = .scalar (cls (some n))
  visit_cls : ∀ n, visit G (cls n) = print n
  print_none : print none = b
  print_length : ∀ n, n ≠ 0 → print (some n) = b ++ '(' :: (formatInt n ++ [')'])
  print_zero : print (some 0) = b ∨ print (some 0) = b ++ '(' :: (formatInt 0 ++ [')'])

namespace LengthFamily

variable {b : Str} {typeCls : TypeCls} {print : Option Int → Str} {cls : Option Int → ScalarType}

theorem keepsType_name (F : LengthFamily G b typeCls print cls) {t : ScalarType}
    (hv : visit G t = b) : KeepsType G t := by
  apply keepsType_of_name b typeCls hv F.isTypeName F.lookup F.not_collection F.default
  rw [F.visit_cls, F.print_none]

theorem keepsType_params (F : LengthFamily G b typeCls print cls) {t : ScalarType} {n : Int}
    (hv : visit G t = b ++ '(' :: (formatInt n ++ [')']))
    (hn : print (some n) = b ++ '(' :: (formatInt n ++ [')'])) : KeepsType G t := by
  refine keepsType_of_params b (formatInt n) (cls (some n)) hv F.isTypeName (formatInt_ne_nil n)
    (fun c hc => ne_of_mem_formatInt hc (by decide) (by decide)) (F.read n) ?_
  rw [F.visit_cls, hn, hv]

/-- The repository's own texts leave a length of zero out. -/
theorem keepsType_withLength (F : LengthFamily G b typeCls print cls) {t : ScalarType}
    (n : Option Int) (hv : visit G t = withLength b n) : KeepsType G t := by
  cases n with
  | none => exact F.keepsType_name hv
  | some n =>
    rw [withLength] at hv
    by_cases hn : n ≠ 0
    · rw [if_pos hn] at hv
      exact F.keepsType_params hv (F.print_length n hn)
    · rw [if_neg hn] at hv
      exact F.keepsType_name hv

/-- SQLAlchemy's texts may print it. -/
theorem keepsType_print (F : LengthFamily G b typeCls print cls) {t : ScalarType}
    (n : Option Int) (hv : visit G t = print n) : KeepsType G t := by
  cases n with
  | none => exact F.keepsType_name (hv.trans F.print_none)
  | some n =>
    by_cases hn : n = 0
    · subst hn
      rcases F.print_zero with h | h
      · exact F.keepsType_name (hv.trans h)
      · exact F.keepsType_params (hv.trans h) h
    · have h := F.print_length n hn
      exact F.keepsType_params (hv.trans h) h

end LengthFamily

theorem varcharFamily (G : GenericTypeCompiler) :
    LengthFamily G "VARCHAR".toList .VARCHAR G.visitVARCHAR .VARCHAR where
  isTypeName := by decide
  lookup := by decide
  not_collection := by decide
  default := rfl
  read := resolveBase_varchar
  visit_cls _ := rfl
  print_none := G.varchar_default
  print_length := G.varchar_length
  print_zero := G.varchar_zero

theorem charFamily (G : GenericTypeCompiler) :
    LengthFamily G "CHAR".toList .CHAR G.visitCHAR .CHAR where
  isTypeName := by decide
  lookup := by decide
  not_collection := by decide
  default := rfl
  read := resolveBase_char
  visit_cls _ := rfl
  print_none := G.char_default
  print_length := G.char_length
  print_zero := G.char_zero

/-- The text of a `LargeBinary`, whatever its length. -/
theorem keepsType_largeBinary (n : Option Int) : KeepsType G (.largeBinary n) := by
  have htext : "BIT VARYING(1073741823)".toList
      = "BIT VARYING".toList ++ '(' :: (formatInt 1073741823 ++ [')']) := by decide
  have hv : visit G (.largeBinary n)
      = "BIT VARYING".toList ++ '(' :: (formatInt 1073741823 ++ [')']) := htext
  exact keepsType_of_params "BIT VARYING".toList _ (.largeBinary (some 1073741823)) hv (by decide)
    (formatInt_ne_nil _) (fun c hc => ne_of_mem_formatInt hc (by decide) (by decide))
    (resolveBase_bitVarying 1073741823) rfl

/-- A single precision text is read without its precision. -/
theorem keepsType_float_iff {t : ScalarType} (p : Option Int) (hv : visit G t = visitFLOAT p) :
    KeepsType G t ↔ ∀ q, p = some q → ¬ q ≤ 7 := by
  have hdouble : visit G t = "DOUBLE".toList → KeepsType G t := fun hv =>
    keepsType_of_name "DOUBLE".toList .DOUBLE hv (by decide) (by decide) (by decide) rfl rfl
  have hfloat : visit G t = "FLOAT".toList → ¬ KeepsType G t := by
    intro hv hk
    have hread : resolveType (visit G t) = .scalar (.FLOAT none) := by
      have hl : typeMap.lookup "FLOAT".toList = some .FLOAT := by decide
      rw [hv, resolveType_name (by decide), resolveBase_none hl (by decide)]
      rfl
    rw [KeepsType, recreate, hread, hv] at hk
    have hne : some (denotes "DOUBLE".toList) ≠ some (denotes "FLOAT".toList) := by decide
    exact hne hk
  cases p with
  | none => exact ⟨fun _ q h => (by cases h), fun _ => hdouble hv⟩
  | some p =>
    change visit G t = (if p > 7 then "DOUBLE".toList else "FLOAT".toList) at hv
    by_cases hp : p > 7
    · rw [if_pos hp] at hv
      refine ⟨fun _ q h => ?_, fun _ => hdouble hv⟩
      cases h
      omega
    · rw [if_neg hp] at hv
      exact ⟨fun hk => absurd hk (hfloat hv), fun h => absurd (by omega) (h p rfl)⟩

end Families

/-! ### The round trip -/

theorem not_lowFloat_iff {t : ScalarType} {p : Option Int} (ht : t = .float p ∨ t = .FLOAT p) :
    ¬ LowFloat t ↔ ∀ q, p = some q → ¬ q ≤ 7 := by
  constructor
  · rintro h q rfl hq
    rcases ht with rfl | rfl
    · exact h ⟨q, hq, Or.inl rfl⟩
    · exact h ⟨q, hq, Or.inr rfl⟩
  · rintro h ⟨q, hq, hf⟩
    refine h q ?_ hq
    rcases ht with rfl | rfl
    · rcases hf with hf | hf <;> cases hf
      rfl
    · rcases hf with hf | hf <;> cases hf
      rfl

section RoundTrip

variable [UnicodeData]

/-- A text that is a name of the map, printed again by the class it names. -/
theorem keepsType_of_same_name {G : GenericTypeCompiler} {t : ScalarType} (b : Str)
    (typeCls : TypeCls) (t' : ScalarType) (hb : IsTypeName b)
    (hl : typeMap.lookup b = some typeCls) (hc : b ∉ collectionBases)
    (ht : typeCls.default = .scalar t') (hv : visit G t = b) (hv' : visit G t' = b) :
    KeepsType G t :=
  keepsType_of_name b typeCls hv hb hl hc ht (by rw [hv'])

theorem keepsType_of_not_float (G : GenericTypeCompiler) {t : ScalarType}
    (h : ∀ p, t ≠ .float p) (h' : ∀ p, t ≠ .FLOAT p) : KeepsType G t := by
  have hsmallint : ∀ t, visit G t = "SMALLINT".toList → KeepsType G t := fun t hv =>
    keepsType_of_same_name _ .SMALLINT .SMALLINT (by decide) (by decide) (by decide) rfl hv
      G.smallint
  have hstring : ∀ t, visit G t = "STRING".toList → KeepsType G t := by
    intro t hv
    apply keepsType_of_name _ .VARCHAR hv (by decide) (by decide) (by decide) rfl
    show denotes (G.visitVARCHAR none) = _
    rw [G.varchar_default]
    decide
  have hdouble : ∀ t, visit G t = "DOUBLE".toList → KeepsType G t := fun t hv =>
    keepsType_of_same_name _ .DOUBLE (.DOUBLE none) (by decide) (by decide) (by decide) rfl hv rfl
  have hdate : ∀ t, visit G t = "DATE".toList → KeepsType G t := fun t hv =>
    keepsType_of_same_name _ .DATE .DATE (by decide) (by decide) (by decide) rfl hv rfl
  have htime : ∀ t, visit G t = "TIME".toList → KeepsType G t := fun t hv =>
    keepsType_of_same_name _ .TIME .TIME (by decide) (by decide) (by decide) rfl hv rfl
  have hdatetime : ∀ t, visit G t = "DATETIME".toList → KeepsType G t := fun t hv =>
    keepsType_of_same_name _ .DATETIME .DATETIME (by decide) (by decide) (by decide) rfl hv rfl
  have hinteger : ∀ t, visit G t = "INTEGER".toList → KeepsType G t := fun t hv =>
    keepsType_of_same_name _ .INTEGER .INTEGER (by decide) (by decide) (by decide) rfl hv G.integer
  have hbigint : ∀ t, visit G t = "BIGINT".toList → KeepsType G t := fun t hv =>
    keepsType_of_same_name _ .BIGINT .BIGINT (by decide) (by decide) (by decide) rfl hv G.bigint
  cases t with
  | float p => exact absurd rfl (h p)
  | FLOAT p => exact absurd rfl (h' p)
  | integer => exact hinteger _ G.integer
  | INTEGER => exact hinteger _ G.integer
  | bigInteger => exact hbigint _ G.bigint
  | BIGINT => exact hbigint _ G.bigint
  | smallInteger => exact hsmallint _ G.smallint
  | SMALLINT => exact hsmallint _ G.smallint
  | boolean => exact hsmallint _ rfl
  | BOOLEAN => exact hsmallint _ rfl
  | numeric p s => exact keepsType_numeric p s rfl
  | NUMERIC p s => exact keepsType_numeric p s rfl
  | string n => exact (varcharFamily G).keepsType_print n rfl
  | VARCHAR n => exact (varcharFamily G).keepsType_print n rfl
  | CHAR n => exact (charFamily G).keepsType_print n rfl
  | NCHAR n => exact (charFamily G).keepsType_withLength n rfl
  | NVARCHAR n => exact (varcharFamily G).keepsType_withLength n rfl
  | unicode n => exact (varcharFamily G).keepsType_withLength n rfl
  | text n => exact hstring _ rfl
  | TEXT n => exact hstring _ rfl
  | unicodeText n => exact hstring _ rfl
  | double p => exact hdouble _ rfl
  | DOUBLE p => exact hdouble _ rfl
  | date => exact hdate _ rfl
  | DATE => exact hdate _ rfl
  | time => exact htime _ rfl
  | TIME => exact htime _ rfl
  | dateTime => exact hdatetime _ rfl
  | DATETIME => exact hdatetime _ rfl
  | TIMESTAMP =>
    exact keepsType_of_same_name "TIMESTAMP".toList .TIMESTAMP .TIMESTAMP (by decide) (by decide)
      (by decide) rfl rfl rfl
  | BLOB =>
    exact keepsType_of_same_name "BLOB".toList .BLOB .BLOB (by decide) (by decide) (by decide) rfl
      rfl rfl
  | CLOB =>
    exact keepsType_of_same_name "CLOB".toList .CLOB .CLOB (by decide) (by decide) (by decide) rfl
      rfl rfl
  | largeBinary n => exact keepsType_largeBinary n
  | JSON =>
    exact keepsType_of_same_name "JSON".toList .JSON .JSON (by decide) (by decide) (by decide) rfl
      rfl rfl

/-- **Reflect, then recreate.**  A scalar type keeps its type exactly when it is
not a `Float` with a precision of at most 7. -/
theorem keepsType_iff (G : GenericTypeCompiler) (t : ScalarType) :
    KeepsType G t ↔ ¬ LowFloat t := by
  by_cases hf : ∃ p, t = .float p ∨ t = .FLOAT p
  · obtain ⟨p, ht⟩ := hf
    have hv : visit G t = visitFLOAT p := by
      rcases ht with rfl | rfl <;> rfl
    rw [keepsType_float_iff p hv, not_lowFloat_iff ht]
  · have hk : KeepsType G t := keepsType_of_not_float G
      (fun p h => hf ⟨p, Or.inl h⟩) (fun p h => hf ⟨p, Or.inr h⟩)
    refine ⟨fun _ => ?_, fun _ => hk⟩
    rintro ⟨p, -, hp⟩
    exact hf ⟨some p, hp⟩

end RoundTrip

/-- `GenericTypeCompiler` as it is. -/
def genericTypeCompiler : GenericTypeCompiler where
  visitINTEGER := "INTEGER".toList
  visitBIGINT := "BIGINT".toList
  visitSMALLINT := "SMALLINT".toList
  visitNUMERIC
    | none, _ => "NUMERIC".toList
    | some p, none => "NUMERIC".toList ++ '(' :: (formatInt p ++ [')'])
    | some p, some s =>
      "NUMERIC".toList ++ '(' :: ((formatInt p ++ ',' :: ([' '] ++ formatInt s)) ++ [')'])
  visitVARCHAR := withLength "VARCHAR".toList
  visitCHAR := withLength "CHAR".toList
  visitEnum values := withLength "VARCHAR".toList ((values.map fun v => (v.length : Int)).max?)
  integer := rfl
  bigint := rfl
  smallint := rfl
  numeric_default _ := rfl
  numeric_precision _ := rfl
  numeric_scale p s := ⟨[' '], by simp, rfl⟩
  varchar_default := rfl
  varchar_length n hn := if_pos hn
  varchar_zero := Or.inl rfl
  char_default := rfl
  char_length n hn := if_pos hn
  char_zero := Or.inl rfl

/-- **A `Float(5)` column comes back as `DOUBLE`.** -/
theorem float_five_recreated_as_double :
    let _ := asciiData
    visit genericTypeCompiler (.float (some 5)) = "FLOAT".toList ∧
      recreate genericTypeCompiler (.float (some 5)) = some "DOUBLE".toList ∧
      ¬ KeepsType genericTypeCompiler (.float (some 5)) := by
  intro _
  have hr : recreate genericTypeCompiler (.float (some 5)) = some "DOUBLE".toList := by decide
  refine ⟨by decide, hr, fun hk => ?_⟩
  rw [KeepsType, hr] at hk
  exact absurd hk (by decide)

end SqlalchemyCubrid.Dialect
