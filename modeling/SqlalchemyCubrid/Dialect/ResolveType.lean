import SqlalchemyCubrid.Python.Pattern
import SqlalchemyCubrid.Types.SqlType

/-!
# Reading a type string

`_resolve_type` splits a type string into a base name and parameters with one
regular expression, looks the name up in `_type_map` and builds the type from
the parameters.

* `first_typePattern_name`, `first_typePattern_params`: the lazy base name stops
  at the first parenthesis or at the end, and the greedy parameters run to the
  last one.
* `resolveType_name`, `resolveType_params`: what is left of `_resolve_type` once
  the split is known.
* `resolveType_newline`: parameters of several lines are not understood.
-/

namespace SqlalchemyCubrid.Dialect

open Lib Python SqlalchemyCubrid.Types

/-! ### The type map -/

/-- The classes `_type_map` names. -/
inductive TypeCls where
  | INTEGER
  | BIGINT
  | SMALLINT
  | FLOAT
  | DOUBLE
  | NUMERIC
  | VARCHAR
  | CHAR
  | DATE
  | TIME
  | DATETIME
  | TIMESTAMP
  | BLOB
  | CLOB
  | LargeBinary
  | Enum
  | JSON
  | CubridSet
  | CubridMultiset
  | CubridList
  deriving DecidableEq, Repr

def typeMap : List (Str × TypeCls) :=
  [("INTEGER".toList, .INTEGER), ("INT".toList, .INTEGER), ("BIGINT".toList, .BIGINT),
    ("SHORT".toList, .SMALLINT), ("SMALLINT".toList, .SMALLINT), ("FLOAT".toList, .FLOAT),
    ("REAL".toList, .FLOAT), ("DOUBLE".toList, .DOUBLE), ("DOUBLE PRECISION".toList, .DOUBLE),
    ("NUMERIC".toList, .NUMERIC), ("DECIMAL".toList, .NUMERIC), ("STRING".toList, .VARCHAR),
    ("CHARACTER VARYING".toList, .VARCHAR), ("VARCHAR".toList, .VARCHAR), ("CHAR".toList, .CHAR),
    ("CHARACTER".toList, .CHAR), ("DATE".toList, .DATE), ("TIME".toList, .TIME),
    ("DATETIME".toList, .DATETIME), ("TIMESTAMP".toList, .TIMESTAMP),
    ("DATETIMELTZ".toList, .DATETIME), ("DATETIMETZ".toList, .DATETIME),
    ("TIMESTAMPLTZ".toList, .TIMESTAMP), ("TIMESTAMPTZ".toList, .TIMESTAMP),
    ("BLOB".toList, .BLOB), ("CLOB".toList, .CLOB), ("BIT".toList, .LargeBinary),
    ("BIT VARYING".toList, .LargeBinary), ("ENUM".toList, .Enum), ("JSON".toList, .JSON),
    ("SET".toList, .CubridSet), ("SET_OF".toList, .CubridSet),
    ("MULTISET".toList, .CubridMultiset), ("MULTISET_OF".toList, .CubridMultiset),
    ("LIST".toList, .CubridList), ("LIST_OF".toList, .CubridList),
    ("SEQUENCE".toList, .CubridList), ("SEQUENCE_OF".toList, .CubridList)]

def collectionBases : List Str :=
  ["SET".toList, "SET_OF".toList, "MULTISET".toList, "MULTISET_OF".toList, "LIST".toList,
    "LIST_OF".toList, "SEQUENCE".toList, "SEQUENCE_OF".toList]

/-- `type_cls()` -/
def TypeCls.default : TypeCls → SqlType
  | .INTEGER => .scalar .INTEGER
  | .BIGINT => .scalar .BIGINT
  | .SMALLINT => .scalar .SMALLINT
  | .FLOAT => .scalar (.FLOAT none)
  | .DOUBLE => .scalar (.DOUBLE none)
  | .NUMERIC => .scalar (.NUMERIC none none)
  | .VARCHAR => .scalar (.VARCHAR none)
  | .CHAR => .scalar (.CHAR none)
  | .DATE => .scalar .DATE
  | .TIME => .scalar .TIME
  | .DATETIME => .scalar .DATETIME
  | .TIMESTAMP => .scalar .TIMESTAMP
  | .BLOB => .scalar .BLOB
  | .CLOB => .scalar .CLOB
  | .LargeBinary => .scalar (.largeBinary none)
  | .Enum => .enum []
  | .JSON => .scalar .JSON
  | .CubridSet => .collection .set defaultElementType
  | .CubridMultiset => .collection .multiset defaultElementType
  | .CubridList => .collection .list defaultElementType

/-- The arguments `_resolve_type` calls a class with. -/
inductive TypeArgs where
  | element (elementType : Str)
  | ints (ns : List Int)
  | precision (n : Int)
  | values (vs : List Str)
  deriving DecidableEq, Repr

/-- `type_cls(*args)`; `none` is the `TypeError` of arguments the class does not
take.  The third and the fourth argument of `NUMERIC` say how results are read. -/
def TypeCls.call : TypeCls → TypeArgs → Option SqlType
  | .CubridSet, .element e => some (.collection .set e)
  | .CubridMultiset, .element e => some (.collection .multiset e)
  | .CubridList, .element e => some (.collection .list e)
  | .NUMERIC, .ints [p] => some (.scalar (.NUMERIC (some p) none))
  | .NUMERIC, .ints [p, s] => some (.scalar (.NUMERIC (some p) (some s)))
  | .NUMERIC, .ints [p, s, _] => some (.scalar (.NUMERIC (some p) (some s)))
  | .NUMERIC, .ints [p, s, _, _] => some (.scalar (.NUMERIC (some p) (some s)))
  | .VARCHAR, .ints [n] => some (.scalar (.VARCHAR (some n)))
  | .CHAR, .ints [n] => some (.scalar (.CHAR (some n)))
  | .LargeBinary, .ints [n] => some (.scalar (.largeBinary (some n)))
  | .FLOAT, .precision n => some (.scalar (.FLOAT (some n)))
  | .Enum, .values vs => some (.enum vs)
  | _, _ => none

/-! ### The parameters -/

/-- `\((.+)\)` -/
def paramsPattern : Re Char := .seqs [chr '(', .group 2 (.plus notNewline), chr ')']

def quote : Char := Char.ofNat 39

/-- `'([^']*)'` -/
def enumPattern : Re Char := .seqs [chr quote, .group 1 (.many (· != quote)), chr quote]

/-- The greedy parameters run to the last parenthesis. -/
theorem first_paramsPattern {e : Str} (he : e ≠ []) (hn : ∀ c ∈ e, notNewline c) :
    paramsPattern.first ('(' :: (e ++ [')']))
      = some ⟨'(' :: (e ++ [')']), [(2, e)], []⟩ := by
  obtain ⟨xs, ys, hrun, hxs⟩ := Re.run_plus_split he hn [')']
  have hgroup : (Re.group 2 (.plus notNewline)).run (e ++ [')'])
      = xs.map (Hit.record 2) ++ ⟨e, [(2, e)], [')']⟩ :: ys.map (Hit.record 2) := by
    rw [Re.run_group, hrun, List.map_append, List.map_cons]
    rfl
  have hclose : (Re.seq (chr ')') .eps).first [')'] = some ⟨[')'], [], []⟩ := rfl
  have htail : (Re.seqs [.group 2 (.plus notNewline), chr ')']).first (e ++ [')'])
      = some ((⟨e, [(2, e)], [')']⟩ : Hit Char).app ⟨[')'], [], []⟩) := by
    refine Re.first_seq_of_split hgroup ?_ hclose
    intro x hx
    obtain ⟨y, hy, rfl⟩ := List.mem_map.mp hx
    obtain ⟨a, b, hne, hab, -, hr⟩ := hxs y hy
    -- a longer try has taken the parenthesis
    have hb : b = [] := by
      cases a with
      | nil => exact absurd rfl hne
      | cons d a => exact (List.append_eq_nil_iff.mp (List.cons.inj hab).2.symm).2
    show (Re.seq (chr ')') .eps).run y.rest = []
    rw [hr, hb]
    rfl
  exact Re.first_seq (first_chr '(' _) htail

/-- What the parameters can be. -/
theorem mem_run_paramsPattern {s : Str} {h : Hit Char} (hh : h ∈ paramsPattern.run s) :
    ∃ w t, s = '(' :: (w ++ ')' :: t) ∧ w ≠ [] ∧ (∀ c ∈ w, notNewline c) ∧
      h = ⟨'(' :: (w ++ [')']), [(2, w)], t⟩ := by
  obtain ⟨x, hx, y, hy, rfl⟩ := Re.mem_run_seq.mp hh
  obtain ⟨c, u, rfl, hc, rfl⟩ := Re.mem_run_cls.mp hx
  obtain ⟨z, hz, v, hv, rfl⟩ := Re.mem_run_seq.mp hy
  obtain ⟨z', hz', rfl⟩ := Re.mem_run_group.mp hz
  obtain ⟨w, r, e, hne, hw, rfl⟩ := Re.mem_run_plus.mp hz'
  obtain ⟨p, hp, q, hq, rfl⟩ := Re.mem_run_seq.mp hv
  obtain ⟨d, t, e', hd, rfl⟩ := Re.mem_run_cls.mp hp
  rw [List.mem_singleton.mp hq]
  have hc : c = '(' := by simpa using hc
  have hd : d = ')' := by simpa using hd
  subst hc hd
  have hu : u = w ++ r := e
  have hr : r = ')' :: t := e'
  rw [hu, hr]
  exact ⟨w, t, rfl, hne, hw, rfl⟩

/-- `.` does not read a line feed, so parameters of several lines are none. -/
theorem run_rest_of_newline {e : Str} (he : '\n' ∈ e) :
    (Re.seq (.opt paramsPattern) dollar).run ('(' :: (e ++ [')'])) = [] := by
  rw [List.eq_nil_iff_forall_not_mem]
  intro m hm
  obtain ⟨k, hk, l, hl, -⟩ := Re.mem_run_seq.mp hm
  rcases List.mem_append.mp hk with hk | hk
  · obtain ⟨w, t, e₁, -, hw, rfl⟩ := mem_run_paramsPattern hk
    have hcut : e ++ [')'] = w ++ ')' :: t := (List.cons.inj e₁).2
    have hnw : '\n' ∉ w := by
      intro h
      exact absurd (hw _ h) (by decide)
    have hnt : '\n' ∈ t := by
      have h : '\n' ∈ w ++ ')' :: t := hcut ▸ List.mem_append_left _ he
      rcases List.mem_append.mp h with h | h
      · exact absurd h hnw
      · exact (List.mem_cons.mp h).resolve_left (by decide)
    -- what is left before the end of the text is one line feed, but the text ends in `)`
    rcases eq_of_mem_run_dollar (s := t) hl with rfl | rfl
    · exact List.not_mem_nil hnt
    · have hlast := congrArg List.getLast? hcut
      rw [List.getLast?_append_cons, List.getLast?_append_cons] at hlast
      exact absurd hlast (by decide)
  · rw [List.mem_singleton.mp hk] at hl
    cases e with
    | nil => exact List.not_mem_nil he
    | cons d e => exact List.not_mem_nil hl

/-! ### Names of types -/

def nameChars : Str := "ABCDEFGHIJKLMNOPQRSTUVWXYZ_ ".toList

/-- Capitals, underscores and inner spaces. -/
structure IsTypeName (b : Str) : Prop where
  chars : ∀ c ∈ b, c ∈ nameChars
  ne_nil : b ≠ []
  head : b.head? ≠ some ' '
  last : b.getLast? ≠ some ' '

instance (b : Str) : Decidable (IsTypeName b) :=
  decidable_of_iff ((∀ c ∈ b, c ∈ nameChars) ∧ b ≠ [] ∧ b.head? ≠ some ' ' ∧ b.getLast? ≠ some ' ')
    ⟨fun ⟨h₁, h₂, h₃, h₄⟩ => ⟨h₁, h₂, h₃, h₄⟩, fun h => ⟨h.chars, h.ne_nil, h.head, h.last⟩⟩

theorem ascii_of_mem_nameChars : ∀ c ∈ nameChars, c.toNat < 128 := by decide

theorem toUpper_of_mem_nameChars : ∀ c ∈ nameChars, c.toUpper = c := by decide

theorem ne_newline_of_mem_nameChars : ∀ c ∈ nameChars, c ≠ '\n' := by decide

theorem not_isSpace_of_mem_nameChars {c : Char} (h : c ∈ nameChars) (hs : c ≠ ' ') :
    isSpace c = false := by
  have hspace : ∀ c ∈ nameChars, c ≠ ' ' → isSpace c = false := by decide
  exact hspace c h hs

theorem IsTypeName.strip {b : Str} (hb : IsTypeName b) : strip b = b := by
  have hfirst : isSpace (b.head hb.ne_nil) = false := by
    refine not_isSpace_of_mem_nameChars (hb.chars _ (List.head_mem _)) fun h => hb.head ?_
    rw [List.head?_eq_some_head hb.ne_nil, h]
  have hlast : isSpace (b.getLast hb.ne_nil) = false := by
    refine not_isSpace_of_mem_nameChars (hb.chars _ (List.getLast_mem _)) fun h => hb.last ?_
    rw [List.getLast?_eq_some_getLast hb.ne_nil, h]
  have h := stripIf_surround (List.forall_mem_nil _) (List.forall_mem_nil _) hb.ne_nil hfirst hlast
  rw [List.nil_append, List.append_nil] at h
  exact h

/-! ### The code -/

section Code

variable [UnicodeData]

def wordChar : Char → Bool := UnicodeData.isWord

/-- `[\w\s]` -/
def baseChar (c : Char) : Bool := wordChar c || isSpace c

/-- `(\w[\w\s]*?)` -/
def basePattern : Re Char := .group 1 (.seq (.cls wordChar) (.fewest baseChar))

/-- `(\w[\w\s]*?)(?:\((.+)\))?$` -/
def typePattern : Re Char := .seq basePattern (.seq (.opt paramsPattern) dollar)

/-- The type built from the parameters; `none` is a `ValueError` or a
`TypeError`. -/
def construct (typeCls : TypeCls) (baseType : Str) (params : Option Str) : Option SqlType :=
  if baseType ∈ collectionBases then
    typeCls.call (.element ((truthy params).getD defaultElementType))
  else
    match truthy params with
    | none => some typeCls.default
    | some p =>
      if baseType ∈ ["NUMERIC".toList, "DECIMAL".toList] then
        ((split ',' p).mapM fun x => int (strip x)).bind fun parts => typeCls.call (.ints parts)
      else if baseType ∈ ["VARCHAR".toList, "CHARACTER VARYING".toList, "CHAR".toList,
          "CHARACTER".toList, "STRING".toList] then
        (int p).bind fun n => typeCls.call (.ints [n])
      else if baseType = "ENUM".toList then
        typeCls.call (.values (findAll enumPattern p))
      else if baseType ∈ ["FLOAT".toList, "REAL".toList] then
        (int p).bind fun n => typeCls.call (.precision n)
      else if baseType = "DOUBLE".toList then
        some typeCls.default
      else if baseType ∈ ["BIT".toList, "BIT VARYING".toList] then
        (int p).bind fun n => typeCls.call (.ints [n])
      else
        some typeCls.default

/-- `_resolve_type` after the match. -/
def resolveBase (baseType : Str) (params : Option Str) : SqlType :=
  match typeMap.lookup baseType with
  | none => .null
  | some typeCls => (construct typeCls baseType params).getD typeCls.default

def resolveType (typeStr : Str) : SqlType :=
  match typePattern.first typeStr with
  | none => .null
  | some m => resolveBase (upper (strip ((m.group 1).getD []))) (m.group 2)

/-! ### The split -/

theorem not_baseChar_paren : baseChar '(' = false := by
  rw [baseChar, wordChar, UnicodeData.isWord_ascii '(' (by decide)]
  decide

/-- Inside the base name the rest of the pattern finds nothing. -/
theorem run_rest_of_baseChar {c : Char} (hc : baseChar c) (hn : c ≠ '\n') (s : Str) :
    (Re.seq (.opt paramsPattern) dollar).run (c :: s) = [] := by
  have hp : c ≠ '(' := by
    rintro rfl
    exact absurd hc (by simp [not_baseChar_paren])
  have hopt : (Re.opt paramsPattern).run (c :: s) = [⟨[], [], c :: s⟩] := by
    have hparams : paramsPattern.run (c :: s) = [] :=
      Re.run_seq_of_left (run_chr_cons hp s) _
    rw [Re.opt, Re.run_alt, hparams]
    rfl
  have hend : dollar.run (c :: s) = [] := by
    cases s with
    | nil =>
      show (if c == '\n' then _ else []) = []
      rw [if_neg (by simpa using hn)]
    | cons d s => rfl
  rw [Re.run_seq, hopt]
  show (dollar.run (c :: s)).map _ ++ [] = []
  rw [hend]
  rfl

/-- The base name of the pattern stops where the rest of it can go on. -/
theorem first_typePattern {c : Char} {b v : Str} {k : Hit Char} (hc : wordChar c)
    (hb : ∀ d ∈ b, baseChar d) (hn : ∀ d ∈ b, d ≠ '\n')
    (hk : (Re.seq (.opt paramsPattern) dollar).first v = some k) :
    typePattern.first (c :: b ++ v)
      = some ((⟨c :: b, [(1, c :: b)], v⟩ : Hit Char).app k) := by
  obtain ⟨xs, ys, e, hxs⟩ := Re.run_fewest_split hb v
  have hbase : basePattern.run (c :: b ++ v)
      = (xs.map fun x => ((⟨[c], [], b ++ v⟩ : Hit Char).app x).record 1)
        ++ ⟨c :: b, [(1, c :: b)], v⟩
        :: (ys.map fun x => ((⟨[c], [], b ++ v⟩ : Hit Char).app x).record 1) := by
    rw [basePattern, Re.run_group, Re.run_seq, List.cons_append, Re.run_cls_of_pos hc,
      List.flatMap_cons,
      List.flatMap_nil, List.append_nil, e, List.map_append, List.map_append, List.map_cons,
      List.map_cons, List.map_map, List.map_map]
    rfl
  refine Re.first_seq_of_split hbase ?_ hk
  intro x hx
  obtain ⟨y, hy, rfl⟩ := List.mem_map.mp hx
  obtain ⟨a, b', hne, rfl, hr⟩ := hxs y hy
  cases b' with
  | nil => exact absurd rfl hne
  | cons d b' =>
    show (Re.seq (.opt paramsPattern) dollar).run y.rest = []
    rw [hr]
    exact run_rest_of_baseChar (hb d (by simp)) (hn d (by simp)) _

/-- **A name alone.** -/
theorem first_typePattern_name {c : Char} {b : Str} (hc : wordChar c)
    (hb : ∀ d ∈ b, baseChar d) (hn : ∀ d ∈ b, d ≠ '\n') :
    typePattern.first (c :: b) = some ⟨c :: b, [(1, c :: b)], []⟩ := by
  have hend : dollar.first [] = some ⟨[], [], []⟩ := rfl
  have hrest : (Re.seq (.opt paramsPattern) dollar).first [] = some ⟨[], [], []⟩ :=
    Re.first_seq (Re.first_opt_of_nil rfl) hend
  have h := first_typePattern hc hb hn hrest
  rw [List.append_nil] at h
  rw [h]
  show some (⟨c :: b ++ [], [(1, c :: b)], []⟩ : Hit Char) = _
  rw [List.append_nil]

/-- **A name with parameters**: the split is at the first parenthesis and at the
last. -/
theorem first_typePattern_params {c : Char} {b e : Str} (hc : wordChar c)
    (hb : ∀ d ∈ b, baseChar d) (hn : ∀ d ∈ b, d ≠ '\n') (he : e ≠ [])
    (hen : ∀ d ∈ e, d ≠ '\n') :
    typePattern.first (c :: b ++ '(' :: (e ++ [')']))
      = some ⟨c :: b ++ '(' :: (e ++ [')']), [(2, e), (1, c :: b)], []⟩ := by
  have hparams : paramsPattern.first ('(' :: (e ++ [')']))
      = some ⟨'(' :: (e ++ [')']), [(2, e)], []⟩ :=
    first_paramsPattern he fun d hd => by simpa [notNewline] using hen d hd
  have hend : dollar.first [] = some ⟨[], [], []⟩ := rfl
  have hrest : (Re.seq (.opt paramsPattern) dollar).first ('(' :: (e ++ [')']))
      = some ⟨'(' :: (e ++ [')']) ++ [], [(2, e)], []⟩ :=
    Re.first_seq (Re.first_opt hparams) hend
  rw [List.append_nil] at hrest
  exact first_typePattern hc hb hn hrest

theorem avoids_basePattern : basePattern.Avoids '(' := by
  refine ⟨?_, not_baseChar_paren⟩
  have h := not_baseChar_paren
  rw [baseChar, Bool.or_eq_false_iff] at h
  exact h.1

/-- **A name with parameters of several lines** is not understood. -/
theorem first_typePattern_newline {b e : Str} (hb : ∀ d ∈ b, baseChar d)
    (hn : ∀ d ∈ b, d ≠ '\n') (he : '\n' ∈ e) :
    typePattern.first (b ++ '(' :: (e ++ [')'])) = none := by
  rw [Re.first_eq_none_iff, List.eq_nil_iff_forall_not_mem]
  intro m hm
  obtain ⟨k, hk, l, hl, -⟩ := Re.mem_run_seq.mp hm
  rw [Re.run_append_cons_of_avoids avoids_basePattern] at hk
  obtain ⟨x, hx, rfl⟩ := List.mem_map.mp hk
  have hcut := Re.text_append_rest hx
  have hrest : l ∈ (Re.seq (.opt paramsPattern) dollar).run (x.rest ++ '(' :: (e ++ [')'])) := hl
  cases hr : x.rest with
  | nil =>
    rw [hr, List.nil_append, run_rest_of_newline he] at hrest
    exact List.not_mem_nil hrest
  | cons d r =>
    have hd : d ∈ b := by
      rw [← hcut, hr]
      exact List.mem_append_right _ List.mem_cons_self
    rw [hr, List.cons_append, run_rest_of_baseChar (hb d hd) (hn d hd)] at hrest
    exact List.not_mem_nil hrest

/-- **What the pattern can find**: the base name, the parameters if there are any,
and at most a line feed after them. -/
theorem mem_run_typePattern {s : Str} {m : Hit Char} (hm : m ∈ typePattern.run s) :
    ∃ b tail, m.group 1 = some b ∧ (tail = [] ∨ tail = ['\n']) ∧
      ((m.group 2 = none ∧ s = b ++ tail) ∨
        ∃ e, m.group 2 = some e ∧ s = b ++ '(' :: (e ++ ')' :: tail)) := by
  obtain ⟨k, hk, l, hl, rfl⟩ := Re.mem_run_seq.mp hm
  obtain ⟨x, hx, rfl⟩ := Re.mem_run_group.mp hk
  obtain ⟨y, hy, d, hd, rfl⟩ := Re.mem_run_seq.mp hl
  have hcut : x.text ++ x.rest = s := Re.text_append_rest hx
  have hx2 : (x.record 1).group 2 = none := by
    have hname : (Re.seq (.cls wordChar) (.fewest baseChar)).NoGroup 2 := ⟨trivial, trivial⟩
    have h : x.group 2 = none := Re.group_eq_none hname hx
    exact h
  have hend (n : Nat) : dollar.NoGroup n := trivial
  have hd1 : d.group 1 = none := Re.group_eq_none (hend 1) hd
  have hd2 : d.group 2 = none := Re.group_eq_none (hend 2) hd
  have htail : y.rest = [] ∨ y.rest = ['\n'] := eq_of_mem_run_dollar hd
  have hy1 : y.group 1 = none := by
    refine Re.group_eq_none ?_ hy
    exact ⟨⟨trivial, ⟨by decide, trivial, trivial⟩, trivial, trivial⟩, trivial⟩
  refine ⟨x.text, y.rest, ?_, htail, ?_⟩
  · rw [Re.group_app_of_none (by rw [Re.group_app_of_none hd1, hy1])]
    exact Re.group_record x 1
  · rcases List.mem_append.mp hy with hy | hy
    · obtain ⟨e, t, hrest, -, -, rfl⟩ := mem_run_paramsPattern hy
      refine Or.inr ⟨e, ?_, ?_⟩
      · exact Re.group_app_of_some (by rw [Re.group_app_of_none hd2]; rfl)
      · have hrest : x.rest = '(' :: (e ++ ')' :: t) := hrest
        rw [← hcut, hrest]
    · have hy := List.mem_singleton.mp hy
      refine Or.inl ⟨?_, ?_⟩
      · rw [Re.group_app_of_none (by rw [Re.group_app_of_none hd2, hy]; rfl)]
        exact hx2
      · rw [hy]
        exact hcut.symm

/-! ### `_resolve_type` of a name -/

theorem wordChar_of_mem_nameChars {c : Char} (h : c ∈ nameChars) (hs : c ≠ ' ') : wordChar c := by
  have hword : ∀ c ∈ nameChars, c ≠ ' ' → (c.isAlphanum || c == '_') = true := by decide
  rw [wordChar, UnicodeData.isWord_ascii c (ascii_of_mem_nameChars c h)]
  exact hword c h hs

theorem baseChar_of_mem_nameChars {c : Char} (h : c ∈ nameChars) : baseChar c := by
  by_cases hs : c = ' '
  · subst hs
    exact Bool.or_eq_true_iff.mpr (Or.inr (by decide))
  · exact Bool.or_eq_true_iff.mpr (Or.inl (wordChar_of_mem_nameChars h hs))

theorem IsTypeName.upper {b : Str} (hb : IsTypeName b) : upper b = b := by
  rw [upper_ascii fun c hc => ascii_of_mem_nameChars c (hb.chars c hc)]
  have hmap : b.map Char.toUpper = b.map id :=
    List.map_congr_left fun c hc => toUpper_of_mem_nameChars c (hb.chars c hc)
  rw [hmap, List.map_id]

/-- What the pattern finds in a name, read by `_resolve_type`. -/
theorem resolveType_of_first {b : Str} (hb : IsTypeName b) {text : Str} {m : Hit Char}
    (hm : typePattern.first text = some m) (h1 : m.group 1 = some b) :
    resolveType text = resolveBase b (m.group 2) := by
  rw [resolveType, hm]
  show resolveBase (Python.upper (Python.strip ((m.group 1).getD []))) (m.group 2) = _
  rw [h1, Option.getD_some, hb.strip, hb.upper]

/-- **`_resolve_type` of a name.** -/
theorem resolveType_name {b : Str} (hb : IsTypeName b) : resolveType b = resolveBase b none := by
  cases b with
  | nil => exact absurd rfl hb.ne_nil
  | cons c b =>
    have hc : wordChar c :=
      wordChar_of_mem_nameChars (hb.chars c (by simp)) fun h => hb.head (by rw [h]; rfl)
    have ht : ∀ d ∈ b, d ∈ nameChars := fun d hd => hb.chars d (List.mem_cons_of_mem c hd)
    have hm := first_typePattern_name hc (fun d hd => baseChar_of_mem_nameChars (ht d hd))
      fun d hd => ne_newline_of_mem_nameChars d (ht d hd)
    exact resolveType_of_first hb hm rfl

/-- **`_resolve_type` of a name with parameters.** -/
theorem resolveType_params {b e : Str} (hb : IsTypeName b) (he : e ≠ [])
    (hen : ∀ c ∈ e, c ≠ '\n') :
    resolveType (b ++ '(' :: (e ++ [')'])) = resolveBase b (some e) := by
  cases b with
  | nil => exact absurd rfl hb.ne_nil
  | cons c b =>
    have hc : wordChar c :=
      wordChar_of_mem_nameChars (hb.chars c (by simp)) fun h => hb.head (by rw [h]; rfl)
    have ht : ∀ d ∈ b, d ∈ nameChars := fun d hd => hb.chars d (List.mem_cons_of_mem c hd)
    have hm := first_typePattern_params hc (fun d hd => baseChar_of_mem_nameChars (ht d hd))
      (fun d hd => ne_newline_of_mem_nameChars d (ht d hd)) he hen
    exact resolveType_of_first hb hm rfl

/-- **`_resolve_type` of a name with parameters of several lines.** -/
theorem resolveType_newline {b e : Str} (hb : IsTypeName b) (he : '\n' ∈ e) :
    resolveType (b ++ '(' :: (e ++ [')'])) = .null := by
  rw [resolveType, first_typePattern_newline (fun d hd => baseChar_of_mem_nameChars (hb.chars d hd))
    (fun d hd => ne_newline_of_mem_nameChars d (hb.chars d hd)) he]

end Code

end SqlalchemyCubrid.Dialect
