import SqlalchemyCubrid.Alembic
import SqlalchemyCubrid.Dialect.RecreateType

/-!
# Recreating a table again and again

A column type is reflected from the text the server shows and rendered for a new
table, whose column is reflected and rendered in turn.  `recreations` is what
comes of that, from any text at all.

The texts the dialect prints are read back as types that print them (`Stable`),
with one exception: `FLOAT` is read as a `FLOAT` with no precision, which prints
`DOUBLE`.  So a column has settled after one round unless it is `FLOAT` then, and
after two in any case (`recreations_settle`).
-/

namespace SqlalchemyCubrid.Dialect

open Lib Python SqlalchemyCubrid.Types Compiler

section Settle

variable [UnicodeData] (G : GenericTypeCompiler)

/-- The type text of a column made like one that shows `typeStr`. -/
def recreateText (typeStr : Str) : Option Str := process G (resolveType typeStr)

/-- The text after a number of rounds. -/
def recreations (typeStr : Str) : Nat → Option Str
  | 0 => some typeStr
  | n + 1 => (recreations typeStr n).bind (recreateText G)

def Stable (typeStr : Str) : Prop := recreateText G typeStr = some typeStr

variable {G}

theorem settled_of_read {text : Str} {t : ScalarType} (hr : resolveType text = .scalar t)
    (hv : visit G t = text) : Stable G text := by
  rw [Stable, recreateText, hr, process, hv]

/-- A name of the map that its class prints. -/
theorem settled_name {b : Str} (typeCls : TypeCls) (t : ScalarType) (hb : IsTypeName b)
    (hl : typeMap.lookup b = some typeCls) (hc : b ∉ collectionBases)
    (ht : typeCls.default = .scalar t) (hv : visit G t = b) : Stable G b := by
  refine settled_of_read (?_ : resolveType b = .scalar t) hv
  rw [resolveType_name hb, resolveBase_none hl hc, ht]

theorem settled_params {b e : Str} (t : ScalarType) (hb : IsTypeName b) (he : e ≠ [])
    (hn : ∀ c ∈ e, c ≠ '\n') (hr : resolveBase b (some e) = .scalar t)
    (hv : visit G t = b ++ '(' :: (e ++ [')'])) : Stable G (b ++ '(' :: (e ++ [')'])) := by
  refine settled_of_read (?_ : resolveType _ = .scalar t) hv
  rw [resolveType_params hb he hn, hr]

omit [UnicodeData] in
theorem ne_newline_of_mem_formatInt {c : Char} {n : Int} (h : c ∈ formatInt n) : c ≠ '\n' :=
  ne_of_mem_formatInt h (by decide) (by decide)

/-- Both texts of a length of zero are settled. -/
theorem LengthFamily.settled {b : Str} {typeCls : TypeCls} {print : Option Int → Str}
    {cls : Option Int → ScalarType} (F : LengthFamily G b typeCls print cls) (n : Option Int) :
    Stable G (print n) := by
  have hname : Stable G b :=
    settled_name typeCls (cls none) F.isTypeName F.lookup F.not_collection F.default
      ((F.visit_cls none).trans F.print_none)
  have hparams : ∀ n, print (some n) = b ++ '(' :: (formatInt n ++ [')']) →
      Stable G (print (some n)) := by
    intro n hn
    rw [hn]
    exact settled_params (cls (some n)) F.isTypeName (formatInt_ne_nil n)
      (fun _ hc => ne_newline_of_mem_formatInt hc) (F.read n) ((F.visit_cls _).trans hn)
  cases n with
  | none => exact F.print_none ▸ hname
  | some n =>
    by_cases hn : n = 0
    · subst hn
      rcases F.print_zero with h | h
      · exact h ▸ hname
      · exact hparams 0 h
    · exact hparams n (F.print_length n hn)

theorem settled_numeric (p s : Option Int) : Stable G (G.visitNUMERIC p s) := by
  cases p with
  | none =>
    rw [G.numeric_default]
    exact settled_name .NUMERIC (.NUMERIC none none) (by decide) (by decide) (by decide) rfl
      (G.numeric_default none)
  | some p =>
    cases s with
    | none =>
      have hv := G.numeric_precision p
      rw [hv]
      exact settled_params (.NUMERIC (some p) none) (by decide) (formatInt_ne_nil p)
        (fun _ hc => ne_newline_of_mem_formatInt hc) (resolveBase_numeric_precision p) hv
    | some s =>
      obtain ⟨gap, hg, hv⟩ := G.numeric_scale p s
      rw [hv]
      refine settled_params (.NUMERIC (some p) (some s)) (by decide)
        (List.append_ne_nil_of_left_ne_nil (formatInt_ne_nil p) _) ?_
        (resolveBase_numeric_scale hg p s) hv
      intro c hc
      rcases List.mem_append.mp hc with h | h
      · exact ne_newline_of_mem_formatInt h
      rcases List.mem_cons.mp h with rfl | h
      · decide
      rcases List.mem_append.mp h with h | h
      · rw [hg c h]
        decide
      · exact ne_newline_of_mem_formatInt h

theorem settled_bitVarying : Stable G "BIT VARYING(1073741823)".toList := by
  have htext : "BIT VARYING(1073741823)".toList
      = "BIT VARYING".toList ++ '(' :: (formatInt 1073741823 ++ [')']) := by decide
  have hv : visit G (.largeBinary (some 1073741823))
      = "BIT VARYING".toList ++ '(' :: (formatInt 1073741823 ++ [')']) := htext
  rw [htext]
  exact settled_params (.largeBinary (some 1073741823)) (by decide) (formatInt_ne_nil _)
    (fun _ hc => ne_newline_of_mem_formatInt hc) (resolveBase_bitVarying 1073741823) hv

theorem settled_collection (kind : CollectionKind) {e : Str} (he : e ≠ [])
    (hn : ∀ c ∈ e, c ≠ '\n') : Stable G (getColSpec kind e) := by
  rw [Stable, recreateText, Alembic.resolveType_getColSpec kind he hn, process]

theorem settled_double : Stable G "DOUBLE".toList :=
  settled_name .DOUBLE (.DOUBLE none) (by decide) (by decide) (by decide) rfl rfl

/-- The one text that does not settle at once. -/
theorem recreateText_float : recreateText G "FLOAT".toList = some "DOUBLE".toList := by
  have hl : typeMap.lookup "FLOAT".toList = some .FLOAT := by decide
  rw [recreateText, resolveType_name (by decide), resolveBase_none hl (by decide)]
  rfl

/-! ### The types that reflection builds -/

variable (G) in
/-- The text of the type is settled, or `FLOAT`. -/
def SettlesAtOnce (t : SqlType) : Prop :=
  ∀ text, process G t = some text → Stable G text ∨ text = "FLOAT".toList

theorem SettlesAtOnce.of_settled {t : SqlType} {text : Str} (ht : process G t = some text)
    (h : Stable G text) : SettlesAtOnce G t := by
  intro text' htext
  rw [Option.some.inj (htext.symm.trans ht)]
  exact Or.inl h

theorem settlesAtOnce_name (b : Str) (typeCls : TypeCls) (t : ScalarType) (hb : IsTypeName b)
    (hl : typeMap.lookup b = some typeCls) (hc : b ∉ collectionBases)
    (ht : typeCls.default = .scalar t) (hv : visit G t = b) : SettlesAtOnce G (.scalar t) :=
  .of_settled (congrArg some hv) (settled_name typeCls t hb hl hc ht hv)

theorem settlesAtOnce_float (p : Option Int) : SettlesAtOnce G (.scalar (.FLOAT p)) := by
  intro text htext
  rw [← Option.some.inj htext]
  show Stable G (visitFLOAT p) ∨ visitFLOAT p = _
  cases p with
  | none => exact Or.inl settled_double
  | some p =>
    by_cases hp : p > 7
    · have hv : visitFLOAT (some p) = "DOUBLE".toList := if_pos hp
      rw [hv]
      exact Or.inl settled_double
    · exact Or.inr (if_neg hp)

theorem settlesAtOnce_enum (henum : ∀ values, ∃ n, G.visitEnum values = G.visitVARCHAR n)
    (values : List Str) : SettlesAtOnce G (.enum values) := by
  obtain ⟨n, hn⟩ := henum values
  refine .of_settled (congrArg some hn) ?_
  exact (varcharFamily G).settled n

theorem settlesAtOnce_default (henum : ∀ values, ∃ n, G.visitEnum values = G.visitVARCHAR n)
    (typeCls : TypeCls) : SettlesAtOnce G typeCls.default := by
  have hcollection : ∀ kind, SettlesAtOnce G (.collection kind defaultElementType) := fun kind =>
    .of_settled rfl (settled_collection kind (by decide) (by decide))
  cases typeCls with
  | INTEGER =>
    exact settlesAtOnce_name _ .INTEGER .INTEGER (by decide) (by decide) (by decide) rfl G.integer
  | BIGINT =>
    exact settlesAtOnce_name _ .BIGINT .BIGINT (by decide) (by decide) (by decide) rfl G.bigint
  | SMALLINT =>
    exact settlesAtOnce_name _ .SMALLINT .SMALLINT (by decide) (by decide) (by decide) rfl
      G.smallint
  | FLOAT => exact settlesAtOnce_float none
  | DOUBLE => exact .of_settled rfl settled_double
  | NUMERIC => exact .of_settled rfl (settled_numeric none none)
  | VARCHAR => exact .of_settled rfl ((varcharFamily G).settled none)
  | CHAR => exact .of_settled rfl ((charFamily G).settled none)
  | DATE =>
    exact settlesAtOnce_name "DATE".toList .DATE .DATE (by decide) (by decide) (by decide) rfl rfl
  | TIME =>
    exact settlesAtOnce_name "TIME".toList .TIME .TIME (by decide) (by decide) (by decide) rfl rfl
  | DATETIME =>
    exact settlesAtOnce_name "DATETIME".toList .DATETIME .DATETIME (by decide) (by decide)
      (by decide) rfl rfl
  | TIMESTAMP =>
    exact settlesAtOnce_name "TIMESTAMP".toList .TIMESTAMP .TIMESTAMP (by decide) (by decide)
      (by decide) rfl rfl
  | BLOB =>
    exact settlesAtOnce_name "BLOB".toList .BLOB .BLOB (by decide) (by decide) (by decide) rfl rfl
  | CLOB =>
    exact settlesAtOnce_name "CLOB".toList .CLOB .CLOB (by decide) (by decide) (by decide) rfl rfl
  | LargeBinary => exact .of_settled rfl settled_bitVarying
  | Enum => exact settlesAtOnce_enum henum []
  | JSON =>
    exact settlesAtOnce_name "JSON".toList .JSON .JSON (by decide) (by decide) (by decide) rfl rfl
  | CubridSet => exact hcollection .set
  | CubridMultiset => exact hcollection .multiset
  | CubridList => exact hcollection .list

/-- An element type is not empty and of one line. -/
def TypeArgs.OneLine : TypeArgs → Prop
  | .element e => e ≠ [] ∧ ∀ c ∈ e, c ≠ '\n'
  | _ => True

theorem settlesAtOnce_call (henum : ∀ values, ∃ n, G.visitEnum values = G.visitVARCHAR n)
    {typeCls : TypeCls} {args : TypeArgs} {t : SqlType} (h : typeCls.call args = some t)
    (hargs : args.OneLine) : SettlesAtOnce G t := by
  have hcollection : ∀ kind e, args = .element e → SettlesAtOnce G (.collection kind e) := by
    rintro kind e rfl
    exact .of_settled rfl (settled_collection kind hargs.1 hargs.2)
  have hnumeric : ∀ p s, SettlesAtOnce G (.scalar (.NUMERIC p s)) := fun p s =>
    .of_settled rfl (settled_numeric p s)
  unfold TypeCls.call at h
  split at h <;> cases h
  · exact hcollection .set _ rfl
  · exact hcollection .multiset _ rfl
  · exact hcollection .list _ rfl
  · exact hnumeric _ _
  · exact hnumeric _ _
  · exact hnumeric _ _
  · exact hnumeric _ _
  · exact .of_settled rfl ((varcharFamily G).settled _)
  · exact .of_settled rfl ((charFamily G).settled _)
  · exact .of_settled rfl settled_bitVarying
  · exact settlesAtOnce_float _
  · exact settlesAtOnce_enum henum _

/-- A class called with what was found in the parentheses. -/
theorem construct_cases {typeCls : TypeCls} {b : Str} {params : Option Str} {t : SqlType}
    (h : construct typeCls b params = some t) :
    t = typeCls.default ∨ ∃ args, typeCls.call args = some t ∧
      ∀ e, args = .element e → e = (truthy params).getD defaultElementType := by
  have hints : ∀ ns, typeCls.call (.ints ns) = some t → ∃ args, typeCls.call args = some t ∧
      ∀ e, args = .element e → e = (truthy params).getD defaultElementType :=
    fun ns h => ⟨.ints ns, h, fun e he => by cases he⟩
  rw [construct] at h
  split at h
  · exact Or.inr ⟨_, h, fun e he => by cases he; rfl⟩
  · split at h
    · exact Or.inl (Option.some.inj h).symm
    · rename_i p _
      split at h
      · obtain ⟨parts, -, h⟩ := Option.bind_eq_some_iff.mp h
        exact Or.inr (hints parts h)
      split at h
      · obtain ⟨n, -, h⟩ := Option.bind_eq_some_iff.mp h
        exact Or.inr (hints [n] h)
      split at h
      · exact Or.inr ⟨_, h, fun e he => by cases he⟩
      split at h
      · obtain ⟨n, -, h⟩ := Option.bind_eq_some_iff.mp h
        exact Or.inr ⟨.precision n, h, fun e he => by cases he⟩
      split at h
      · exact Or.inl (Option.some.inj h).symm
      split at h
      · obtain ⟨n, -, h⟩ := Option.bind_eq_some_iff.mp h
        exact Or.inr (hints [n] h)
      · exact Or.inl (Option.some.inj h).symm

omit [UnicodeData] in
/-- What was found in the parentheses is of one line. -/
theorem oneLine_params {params : Option Str} (h : ∀ e, params = some e → ∀ c ∈ e, c ≠ '\n')
    {args : TypeArgs}
    (hargs : ∀ e, args = .element e → e = (truthy params).getD defaultElementType) :
    args.OneLine := by
  cases args with
  | element e =>
    rw [hargs e rfl]
    cases params with
    | none => exact ⟨by decide, by decide⟩
    | some p =>
      by_cases hp : p = []
      · subst hp
        exact ⟨by decide, by decide⟩
      · rw [truthy_some hp]
        exact ⟨hp, h p rfl⟩
  | _ => trivial

/-- **What `_resolve_type` builds**: nothing, a class with no arguments, or a class
called with what was found in the parentheses. -/
theorem resolveBase_cases (b : Str) {params : Option Str}
    (h : ∀ e, params = some e → ∀ c ∈ e, c ≠ '\n') :
    resolveBase b params = .null ∨ (∃ typeCls : TypeCls, resolveBase b params = typeCls.default) ∨
      ∃ (typeCls : TypeCls) (args : TypeArgs),
        typeCls.call args = some (resolveBase b params) ∧ args.OneLine := by
  rw [resolveBase]
  cases typeMap.lookup b with
  | none => exact Or.inl rfl
  | some typeCls =>
    simp only []
    cases hc : construct typeCls b params with
    | none => exact Or.inr (Or.inl ⟨typeCls, rfl⟩)
    | some t =>
      rw [Option.getD_some]
      rcases construct_cases hc with rfl | ⟨args, hcall, hargs⟩
      · exact Or.inr (Or.inl ⟨typeCls, rfl⟩)
      · exact Or.inr (Or.inr ⟨typeCls, args, hcall, oneLine_params h hargs⟩)

theorem settlesAtOnce_resolveBase (henum : ∀ values, ∃ n, G.visitEnum values = G.visitVARCHAR n)
    (b : Str) {params : Option Str} (h : ∀ e, params = some e → ∀ c ∈ e, c ≠ '\n') :
    SettlesAtOnce G (resolveBase b params) := by
  rcases resolveBase_cases b h with ht | ⟨typeCls, ht⟩ | ⟨typeCls, args, hcall, hargs⟩
  · intro text htext
    rw [ht] at htext
    cases htext
  · rw [ht]
    exact settlesAtOnce_default henum typeCls
  · exact settlesAtOnce_call henum hcall hargs

/-- A collection type has an element type of one line. -/
theorem oneLine_resolveBase {b : Str} {params : Option Str} {kind : CollectionKind} {e : Str}
    (h : ∀ e, params = some e → ∀ c ∈ e, c ≠ '\n')
    (ht : resolveBase b params = .collection kind e) : e ≠ [] ∧ ∀ c ∈ e, c ≠ '\n' := by
  rcases resolveBase_cases b h with hb | ⟨typeCls, hb⟩ | ⟨typeCls, args, hcall, hargs⟩
  · rw [ht] at hb
    cases hb
  · have he : e = defaultElementType := by
      rw [ht] at hb
      cases typeCls <;> cases hb <;> rfl
    rw [he]
    exact ⟨by decide, by decide⟩
  · have helement : args = .element e := by
      rw [ht] at hcall
      unfold TypeCls.call at hcall
      split at hcall <;> cases hcall <;> rfl
    rw [helement] at hargs
    exact hargs

/-- The parameters are read by `.`, which reads no line feed. -/
theorem ne_newline_of_group_two {s e : Str} {m : Hit Char} (hm : m ∈ typePattern.run s)
    (he : m.group 2 = some e) : ∀ c ∈ e, c ≠ '\n' := by
  obtain ⟨k, hk, l, hl, rfl⟩ := Re.mem_run_seq.mp hm
  obtain ⟨x, hx, rfl⟩ := Re.mem_run_group.mp hk
  obtain ⟨y, hy, d, hd, rfl⟩ := Re.mem_run_seq.mp hl
  have hend : dollar.NoGroup 2 := trivial
  have hname : (Re.seq (.cls wordChar) (.fewest baseChar)).NoGroup 2 := ⟨trivial, trivial⟩
  have hx2 : (x.record 1).group 2 = none := by
    have h : x.group 2 = none := Re.group_eq_none hname hx
    exact h
  have hd2 : d.group 2 = none := Re.group_eq_none hend hd
  rcases List.mem_append.mp hy with hy | hy
  · obtain ⟨w, t, -, -, hw, rfl⟩ := mem_run_paramsPattern hy
    have hgroup : ((x.record 1).app ((⟨'(' :: (w ++ [')']), [(2, w)], t⟩ : Hit Char).app d)).group 2
        = some w := Re.group_app_of_some (by rw [Re.group_app_of_none hd2]; rfl)
    have hwe : w = e := Option.some.inj (hgroup.symm.trans he)
    intro c hc
    have hnew := hw c (hwe ▸ hc)
    simpa [notNewline] using hnew
  · have hy := List.mem_singleton.mp hy
    rw [Re.group_app_of_none (by rw [Re.group_app_of_none hd2, hy]; rfl), hx2] at he
    cases he

theorem oneLine_resolveType {typeStr : Str} {kind : CollectionKind} {e : Str}
    (h : resolveType typeStr = .collection kind e) : e ≠ [] ∧ ∀ c ∈ e, c ≠ '\n' := by
  rw [resolveType] at h
  cases hm : typePattern.first typeStr with
  | none =>
    rw [hm] at h
    cases h
  | some m =>
    rw [hm] at h
    refine oneLine_resolveBase ?_ h
    intro e he
    exact ne_newline_of_group_two (Re.mem_run_of_first hm) he

/-- **A reflected type prints a settled text**, whatever the server shows, or `FLOAT`. -/
theorem settlesAtOnce_resolveType (henum : ∀ values, ∃ n, G.visitEnum values = G.visitVARCHAR n)
    (typeStr : Str) : SettlesAtOnce G (resolveType typeStr) := by
  rw [resolveType]
  cases hm : typePattern.first typeStr with
  | none =>
    intro text htext
    cases htext
  | some m =>
    apply settlesAtOnce_resolveBase henum
    intro e he
    exact ne_newline_of_group_two (Re.mem_run_of_first hm) he

theorem recreations_of_settled {typeStr text : Str} {k : Nat} (hs : Stable G text)
    (h : recreations G typeStr k = some text) (n : Nat) :
    recreations G typeStr (k + n) = some text := by
  induction n with
  | zero => exact h
  | succ n ih =>
    rw [← Nat.add_assoc, recreations, ih]
    exact hs

theorem recreations_of_none {typeStr : Str} {k : Nat} (h : recreations G typeStr k = none)
    (n : Nat) : recreations G typeStr (k + n) = none := by
  induction n with
  | zero => exact h
  | succ n ih =>
    rw [← Nat.add_assoc, recreations, ih]
    rfl

/-- **Recreating a column settles its type** after one round exactly when the
type is not `FLOAT` then, and after two rounds whatever it was. -/
theorem recreations_settle (G : GenericTypeCompiler)
    (henum : ∀ values, ∃ n, G.visitEnum values = G.visitVARCHAR n) (typeStr : Str) :
    ((∀ n, recreations G typeStr (1 + n) = recreations G typeStr 1) ↔
        recreations G typeStr 1 ≠ some "FLOAT".toList) ∧
      ∀ n, recreations G typeStr (2 + n) = recreations G typeStr 2 := by
  have hone : recreations G typeStr 1 = process G (resolveType typeStr) := rfl
  have hdouble : ∀ {t}, recreations G typeStr 1 = some t → t = "FLOAT".toList →
      recreations G typeStr 2 = some "DOUBLE".toList := by
    rintro t ht rfl
    rw [recreations, ht]
    exact recreateText_float
  cases ht : recreations G typeStr 1 with
  | none =>
    have htwo := recreations_of_none ht 1
    refine ⟨iff_of_true (recreations_of_none ht) (by simp), fun n => ?_⟩
    rw [recreations_of_none htwo n]
    exact htwo.symm
  | some t =>
    rcases settlesAtOnce_resolveType henum typeStr t (hone.symm.trans ht) with hs | rfl
    · refine ⟨iff_of_true (recreations_of_settled hs ht) ?_, fun n => ?_⟩
      · intro hfloat
        rw [Option.some.inj hfloat, Stable, recreateText_float] at hs
        exact absurd hs (by decide)
      · have htwo : recreations G typeStr 2 = some t := recreations_of_settled hs ht 1
        rw [recreations_of_settled hs htwo n]
        exact htwo.symm
    · have htwo := hdouble ht rfl
      refine ⟨iff_of_false (fun h => ?_) (by simp), fun n => ?_⟩
      · have hsame := (h 1).symm.trans htwo
        exact absurd hsame (by decide)
      · rw [recreations_of_settled settled_double htwo n, htwo]

end Settle

/-- `FLOAT(5)` takes two rounds. -/
theorem recreations_settle_float :
    let _ := asciiData
    ((∀ n, recreations genericTypeCompiler "FLOAT(5)".toList (1 + n)
        = recreations genericTypeCompiler "FLOAT(5)".toList 1) ↔
      recreations genericTypeCompiler "FLOAT(5)".toList 1 ≠ some "FLOAT".toList) ∧
    ∀ n, recreations genericTypeCompiler "FLOAT(5)".toList (2 + n)
      = recreations genericTypeCompiler "FLOAT(5)".toList 2 := by
  intro _
  exact recreations_settle genericTypeCompiler (fun values => ⟨_, rfl⟩) _

end SqlalchemyCubrid.Dialect
