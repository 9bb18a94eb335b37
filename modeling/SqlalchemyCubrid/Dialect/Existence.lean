import SqlalchemyCubrid.Dialect.HasIndex

/-!
# Existence checks

`has_table` counts the rows of a query that folds the name to lower case,
`has_sequence` looks for the name in a listing, and `has_index` in a cached
listing.  The server stores names in lower case.

The calls of an inspector share an `info_cache`; `Valid` says that every entry of
it is what the server would answer, and every call keeps that.
`existence_agrees_iff` compares the checks with the listings in any state a run
reaches: a check agrees with the folded name in the listing exactly when it is
about a table, the name is in lower case, or the folded name is not listed.
-/

namespace SqlalchemyCubrid.Dialect

open Lib Python

/-! ### The server -/

/-- A row of `db_serial`. -/
structure DbSerial where
  name : Str
  /-- `NULL` for a serial that belongs to no `AUTO_INCREMENT` column -/
  attrName : Option Str
  deriving DecidableEq, Repr

structure Server where
  catalog : Catalog
  dbSerial : List DbSerial
  /-- what `db_serial` calls the column `attrName` -/
  attributeColumn : Str
  version : List Nat

/-- `_serial_attr_column` -/
def serialAttrColumn (version : List Nat) : Str :=
  if [11, 4] ≤ version then "attr_name".toList else "att_name".toList

/-- The methods that list names. -/
inductive NamesMethod where
  | tableNames
  | sequenceNames
  deriving DecidableEq

/-- The key of a listing; like that of `get_indexes` it has the schema as a
keyword. -/
def namesKey (schema : Option Str) : CacheKey := ⟨[], [("schema".toList, schema)]⟩

/-- The `info_cache`. -/
structure Inspector where
  indexes : InfoCache
  /-- the entries of `reflection.cache` for the listings of names -/
  names : Dict (NamesMethod × CacheKey) (List Str)
  /-- the entries of `has_sequence` -/
  ownSequences : Dict (Option Str) (List Str)

/-! ### The code -/

section Code

variable [UnicodeData] (srv : Server)

def isTable (c : DbClass) : Bool := c.isSystemClass = .no ∧ c.classType = "CLASS".toList

def hasTable (tableName : Str) : Bool :=
  0 < (srv.catalog.dbClass.filter fun c => c.className = lower tableName ∧ isTable c).length

/-- The query of `get_table_names`. -/
def tableNames : List Str :=
  (orderBy DbClass.className (srv.catalog.dbClass.filter isTable)).map DbClass.className

/-- The query of `get_sequence_names`. -/
def sequenceNames : List Str :=
  (orderBy DbSerial.name (srv.dbSerial.filter fun s => s.attrName = none)).map DbSerial.name

/-- The bodies of `get_table_names` and `get_sequence_names`; the second one
names a column of `db_serial` by the server's version. -/
def queryNames : NamesMethod → Except PyError (List Str)
  | .tableNames => .ok (tableNames srv)
  | .sequenceNames =>
    if serialAttrColumn srv.version = srv.attributeColumn then .ok (sequenceNames srv)
    else .error .databaseError

/-- The same under `reflection.cache`. -/
def getNames (useCache : Bool) (method : NamesMethod) (key : CacheKey) :
    Py Inspector (List Str) := do
  if useCache then
    match (← get).names.get? (method, key) with
    | some ret => return ret
    | none =>
      let ret ← Py.outcome (queryNames srv method)
      modify fun s => { s with names := s.names.set (method, key) ret }
      return ret
  else
    Py.outcome (queryNames srv method)

def hasSequence (useCache : Bool) (schema : Option Str) (sequenceName : Str) :
    Py Inspector Bool := do
  let known := (← get).ownSequences.get? schema
  match (if useCache then known else none) with
  | some seqNames => return decide (sequenceName ∈ seqNames)
  | none =>
    let seqNames ← getNames srv useCache .sequenceNames (namesKey schema)
    if useCache then
      modify fun s => { s with ownSequences := s.ownSequences.set schema seqNames }
    return decide (sequenceName ∈ seqNames)

/-! ### The machine -/

inductive ExistenceCall where
  | hasTable (useCache : Bool) (schema : Option Str) (tableName : Str)
  | hasSequence (useCache : Bool) (schema : Option Str) (sequenceName : Str)
  | hasIndex (useCache : Bool) (schema : Option Str) (tableName indexName : Str)
  | getNames (useCache : Bool) (schema : Option Str) (method : NamesMethod)
  | getIndexes (useCache : Bool) (schema : Option Str) (tableName : Str)
  deriving DecidableEq

inductive ExistenceAnswer where
  | found (b : Bool)
  | names (l : List Str)
  | indexes (l : List ReflectedIndex)
  deriving DecidableEq

/-- No query fails. -/
def noFaults : QueryFaults := ⟨false, false⟩

/-- A call that reads and writes the index entries alone. -/
def onIndexes {α : Type} (x : Py InfoCache α) (s : Inspector) : Except PyError α × Inspector :=
  ((x.call s.indexes).1, { s with indexes := (x.call s.indexes).2 })

def inspectorMachine : Machine Inspector ExistenceCall (Except PyError ExistenceAnswer) where
  step s
    -- `has_table` drops the `info_cache`
    | .hasTable _ _ tableName => (.ok (.found (hasTable srv tableName)), s)
    | .hasSequence useCache schema sequenceName =>
      (ExistenceAnswer.found <$> hasSequence srv useCache schema sequenceName).call s
    | .hasIndex useCache schema tableName indexName =>
      onIndexes (ExistenceAnswer.found
        <$> hasIndex srv.catalog useCache schema tableName indexName noFaults) s
    | .getNames useCache schema method =>
      (ExistenceAnswer.names <$> getNames srv useCache method (namesKey schema)).call s
    | .getIndexes useCache schema tableName =>
      onIndexes (ExistenceAnswer.indexes
        <$> cachedGetIndexes srv.catalog useCache (cacheKey schema tableName) noFaults) s

def newInspector : Inspector := ⟨emptyCache, [], []⟩

/-! ### What the checks should say -/

/-- The server stores names in lower case, and its version tells how it calls
the column of `db_serial`. -/
structure StoresLower (srv : Server) : Prop where
  attribute_column : serialAttrColumn srv.version = srv.attributeColumn
  classes : ∀ c ∈ srv.catalog.dbClass, lower c.className = c.className
  indexes : ∀ i ∈ srv.catalog.dbIndex, lower i.indexName = i.indexName
  serials : ∀ s ∈ srv.dbSerial, lower s.name = s.name

/-- The folded name is in the listing that belongs to the check, however the
listing is asked for. -/
def Listed (s : Inspector) : ExistenceCall → Prop
  | .hasTable _ _ n =>
    ∃ l, (∀ useCache schema, (inspectorMachine srv).answer s
      (.getNames useCache schema .tableNames) = .ok (.names l)) ∧ lower n ∈ l
  | .hasSequence _ _ n =>
    ∃ l, (∀ useCache schema, (inspectorMachine srv).answer s
      (.getNames useCache schema .sequenceNames) = .ok (.names l)) ∧ lower n ∈ l
  | .hasIndex _ _ t n =>
    ∃ l, (∀ useCache schema, (inspectorMachine srv).answer s
      (.getIndexes useCache schema t) = .ok (.indexes l)) ∧ ∃ e ∈ l, e.name = lower n
  | .getNames _ _ _ => False
  | .getIndexes _ _ _ => False

/-- A check answers whether the folded name is listed. -/
def Agrees (s : Inspector) (c : ExistenceCall) : Prop :=
  match c with
  | .getNames _ _ _ => True
  | .getIndexes _ _ _ => True
  | c => ∃ b, (inspectorMachine srv).answer s c = .ok (.found b) ∧ (b = true ↔ Listed srv s c)

/-- The name is in lower case, or folding it gives no stored name. -/
def FoldingIsIdle : ExistenceCall → Prop
  | .hasSequence _ _ n => lower n = n ∨ lower n ∉ sequenceNames srv
  | .hasIndex _ _ t n => lower n = n ∨ ¬ Visible srv.catalog t (lower n)
  | _ => True

end Code

/-! ### The cache -/

section Valid

variable [UnicodeData] {srv : Server}

/-- Every entry is what the server would answer. -/
structure Valid (srv : Server) (s : Inspector) : Prop where
  own : ∀ schema t l, s.indexes.own.get? (schema, t) = some l → l = knownIndexes srv.catalog t
  reflection : ReflectionValid srv.catalog s.indexes
  names : Dict.Agrees (fun k => queryNames srv k.1) s.names
  sequences : Dict.Agrees (fun _ => queryNames srv .sequenceNames) s.ownSequences

theorem valid_newInspector : Valid srv newInspector where
  own _ _ _ h := by cases h
  reflection _ _ h := by cases h
  names := Dict.agrees_nil _
  sequences := Dict.agrees_nil _

/-- **A listing is the server's answer.** -/
theorem call_getNames {s : Inspector} (hs : Valid srv s) (useCache : Bool) (method : NamesMethod)
    (key : CacheKey) :
    ((getNames srv useCache method key).call s).1 = queryNames srv method ∧
      Valid srv ((getNames srv useCache method key).call s).2 := by
  cases useCache with
  | false => simpa [getNames] using hs
  | true =>
    cases hk : s.names.get? (method, key) with
    | some l =>
      have hl := hs.names (method, key) l hk
      simpa [getNames, hk, hl] using hs
    | none =>
      cases hq : queryNames srv method with
      | error e => simpa [getNames, hk, hq] using hs
      | ok l =>
        have hcall : (getNames srv true method key).call s
            = (.ok l, { s with names := s.names.set (method, key) l }) := by
          simp [getNames, hk, hq]
        rw [hcall]
        exact ⟨rfl, hs.own, hs.reflection, hs.names.set hq, hs.sequences⟩

omit [UnicodeData] in
theorem call_hasSequence_kept {s : Inspector} {schema : Option Str} {l : List Str}
    (h : s.ownSequences.get? schema = some l) (n : Str) :
    (hasSequence srv true schema n).call s = (.ok (decide (n ∈ l)), s) := by
  simp [hasSequence, h]

omit [UnicodeData] in
theorem call_hasSequence_lookup {s : Inspector} {useCache : Bool} {schema : Option Str}
    (h : useCache = true → s.ownSequences.get? schema = none) (n : Str) :
    (hasSequence srv useCache schema n).call s
      = match (getNames srv useCache .sequenceNames (namesKey schema)).call s with
        | (.ok l, s') => (.ok (decide (n ∈ l)),
            if useCache then { s' with ownSequences := s'.ownSequences.set schema l } else s')
        | (.error e, s') => (.error e, s') := by
  cases useCache with
  | false =>
    simp only [hasSequence, Py.call_bind, Py.call_get, Bool.false_eq_true, if_false]
    rcases (getNames srv false .sequenceNames (namesKey schema)).call s with ⟨_ | _, _⟩ <;> rfl
  | true =>
    simp only [hasSequence, Py.call_bind, Py.call_get, if_true, h rfl]
    rcases (getNames srv true .sequenceNames (namesKey schema)).call s with ⟨_ | _, _⟩ <;> rfl

/-- **`has_sequence` looks for the name in the server's answer.** -/
theorem call_hasSequence {s : Inspector} (hs : Valid srv s) (useCache : Bool)
    (schema : Option Str) (n : Str) :
    ((hasSequence srv useCache schema n).call s).1
        = (queryNames srv .sequenceNames).map (fun l => decide (n ∈ l)) ∧
      Valid srv ((hasSequence srv useCache schema n).call s).2 := by
  obtain ⟨hanswer, hvalid⟩ := call_getNames hs useCache .sequenceNames (namesKey schema)
  rcases Dict.get?_cases useCache s.ownSequences schema with ⟨rfl, l, hl⟩ | hnone
  · have hq : queryNames srv .sequenceNames = .ok l := hs.sequences schema l hl
    rw [call_hasSequence_kept hl, hq]
    exact ⟨rfl, hs⟩
  · rw [call_hasSequence_lookup hnone]
    cases hcall : (getNames srv useCache .sequenceNames (namesKey schema)).call s with
    | mk r s' =>
      rw [hcall] at hanswer hvalid
      cases r with
      | error e =>
        have hq : queryNames srv .sequenceNames = .error e := hanswer.symm
        rw [hq]
        exact ⟨rfl, hvalid⟩
      | ok l =>
        have hq : queryNames srv .sequenceNames = .ok l := hanswer.symm
        rw [hq]
        refine ⟨rfl, ?_⟩
        cases useCache with
        | false => exact hvalid
        | true => exact ⟨hvalid.own, hvalid.reflection, hvalid.names, hvalid.sequences.set hq⟩

theorem not_fails (t : Str) : ¬ noFaults.Fails srv.catalog t := by
  rintro (h | ⟨-, h⟩)
  · cases h
  · cases h

/-- **`get_indexes` gives the server's answer.** -/
theorem call_getIndexes {s : InfoCache} (hs : ReflectionValid srv.catalog s) (useCache : Bool)
    (key : CacheKey) :
    ((cachedGetIndexes srv.catalog useCache key noFaults).call s).1
      = getIndexes srv.catalog key.tableName := by
  have hquery : queryIndexes srv.catalog noFaults key.tableName
      = getIndexes srv.catalog key.tableName :=
    if_neg (not_fails key.tableName)
  cases useCache with
  | false => rw [call_uncached, hquery]
  | true =>
    cases hk : s.reflection.get? key with
    | some l => rw [call_cached_hit hk, hs key l hk]
    | none =>
      rw [call_cached_miss hk, hquery]
      cases getIndexes srv.catalog key.tableName <;> rfl

/-- **`has_index` looks for the name among the known indexes.** -/
theorem call_hasIndex {s : Inspector} (hs : Valid srv s) (useCache : Bool) (schema : Option Str)
    (t n : Str) :
    ((hasIndex srv.catalog useCache schema t n noFaults).call s.indexes).1
        = .ok ((knownIndexes srv.catalog t).any fun e => e.name = n) ∧
      Valid srv { s with
        indexes := ((hasIndex srv.catalog useCache schema t n noFaults).call s.indexes).2 } := by
  have hfound : orEmpty ((cachedGetIndexes srv.catalog useCache (cacheKey schema t)
      noFaults).call s.indexes).1 = knownIndexes srv.catalog t :=
    congrArg orEmpty (call_getIndexes hs.reflection useCache (cacheKey schema t))
  obtain ⟨hown, hvalid, -, -⟩ :=
    session_cachedGetIndexes hs.reflection useCache (cacheKey schema t) noFaults rfl
  rcases Dict.get?_cases useCache s.indexes.own (schema, t) with ⟨rfl, l, hl⟩ | hnone
  · rw [call_hasIndex_kept hl, hs.own schema t l hl]
    exact ⟨rfl, hs⟩
  · rw [call_hasIndex_lookup schema t hnone, hfound]
    refine ⟨rfl, ?_⟩
    cases useCache with
    | false =>
      refine ⟨?_, hvalid, hs.names, hs.sequences⟩
      intro schema' t' l h
      exact hs.own schema' t' l (hown ▸ h)
    | true =>
      refine ⟨?_, hvalid, hs.names, hs.sequences⟩
      have hagrees : Dict.Agrees (ε := PyError) (fun k => .ok (knownIndexes srv.catalog k.2))
          s.indexes.own := by
        intro k l h
        rw [hs.own k.1 k.2 l h]
      intro schema' t' l h
      rw [hown] at h
      exact (Except.ok.inj (hagrees.set (k := (schema, t)) rfl (schema', t') l h)).symm

/-- **One call keeps the cache valid.** -/
theorem valid_next {s : Inspector} (hs : Valid srv s) (c : ExistenceCall) :
    Valid srv ((inspectorMachine srv).next s c) := by
  cases c with
  | hasTable useCache schema n => exact hs
  | hasSequence useCache schema n =>
    have hcall : (inspectorMachine srv).next s (.hasSequence useCache schema n)
        = ((hasSequence srv useCache schema n).call s).2 :=
      Py.call_map_snd _ ExistenceAnswer.found s
    rw [hcall]
    exact (call_hasSequence hs useCache schema n).2
  | hasIndex useCache schema t n =>
    have hcall : (inspectorMachine srv).next s (.hasIndex useCache schema t n)
        = { s with
            indexes := ((hasIndex srv.catalog useCache schema t n noFaults).call s.indexes).2 } :=
      congrArg (fun x => { s with indexes := x })
        (Py.call_map_snd _ ExistenceAnswer.found s.indexes)
    rw [hcall]
    exact (call_hasIndex hs useCache schema t n).2
  | getNames useCache schema method =>
    have hcall : (inspectorMachine srv).next s (.getNames useCache schema method)
        = ((getNames srv useCache method (namesKey schema)).call s).2 :=
      Py.call_map_snd _ ExistenceAnswer.names s
    rw [hcall]
    exact (call_getNames hs useCache method (namesKey schema)).2
  | getIndexes useCache schema t =>
    let key := cacheKey schema t
    have hcall : (inspectorMachine srv).next s (.getIndexes useCache schema t)
        = { s with
            indexes := ((cachedGetIndexes srv.catalog useCache key noFaults).call s.indexes).2 } :=
      congrArg (fun x => { s with indexes := x })
        (Py.call_map_snd _ ExistenceAnswer.indexes s.indexes)
    obtain ⟨hown, hvalid, -, -⟩ :=
      session_cachedGetIndexes hs.reflection useCache key noFaults rfl
    rw [hcall]
    refine ⟨?_, hvalid, hs.names, hs.sequences⟩
    intro schema' t' l h
    exact hs.own schema' t' l (hown ▸ h)

theorem valid_run (calls : List ExistenceCall) :
    Valid srv ((inspectorMachine srv).run newInspector calls) :=
  Machine.run_invariant _ (I := Valid srv) (G := fun _ _ => True) (fun _ c hs _ => valid_next hs c)
    valid_newInspector ((Machine.along_const _).mpr fun _ _ => trivial)

/-! ### The checks -/

theorem answer_getNames {s : Inspector} (hs : Valid srv s) (useCache : Bool)
    (schema : Option Str) {method : NamesMethod} {l : List Str}
    (h : queryNames srv method = .ok l) :
    (inspectorMachine srv).answer s (.getNames useCache schema method)
      = .ok (.names l) :=
  Py.call_map_fst_of_ok
    ((call_getNames hs useCache method (namesKey schema)).1.trans h) ExistenceAnswer.names

theorem answer_getIndexes {s : Inspector} (hs : Valid srv s) (useCache : Bool)
    (schema : Option Str) (t : Str) :
    (inspectorMachine srv).answer s (.getIndexes useCache schema t)
      = (getIndexes srv.catalog t).map .indexes := by
  have hcall := call_getIndexes hs.reflection useCache (cacheKey schema t)
  rw [tableName_cacheKey] at hcall
  show ((ExistenceAnswer.indexes
    <$> cachedGetIndexes srv.catalog useCache (cacheKey schema t) noFaults).call s.indexes).1 = _
  rw [Py.call_map_fst, hcall]

omit [UnicodeData] in
theorem mem_tableNames {n : Str} :
    n ∈ tableNames srv ↔ ∃ c ∈ srv.catalog.dbClass, isTable c = true ∧ c.className = n := by
  simp only [tableNames, List.mem_map, mem_orderBy, List.mem_filter, and_assoc]

omit [UnicodeData] in
theorem mem_sequenceNames {n : Str} :
    n ∈ sequenceNames srv ↔ ∃ s ∈ srv.dbSerial, s.attrName = none ∧ s.name = n := by
  simp only [sequenceNames, List.mem_map, mem_orderBy, List.mem_filter, decide_eq_true_iff,
    and_assoc]

/-- **`has_table` folds the name and reads the listing's rows.** -/
theorem hasTable_iff (n : Str) : hasTable srv n = true ↔ lower n ∈ tableNames srv := by
  rw [hasTable, decide_eq_true_iff, List.length_pos_iff_exists_mem, mem_tableNames]
  constructor
  · rintro ⟨c, hc⟩
    obtain ⟨hmem, hcond⟩ := List.mem_filter.mp hc
    obtain ⟨hname, htable⟩ := of_decide_eq_true hcond
    exact ⟨c, hmem, htable, hname⟩
  · rintro ⟨c, hmem, htable, hname⟩
    exact ⟨c, List.mem_filter.mpr ⟨hmem, decide_eq_true ⟨hname, htable⟩⟩⟩

theorem listed_names_iff {s : Inspector} {method : NamesMethod} {names : List Str}
    (hnames : ∀ useCache schema, (inspectorMachine srv).answer s
      (.getNames useCache schema method) = .ok (.names names)) {n : Str} :
    (∃ l, (∀ useCache schema, (inspectorMachine srv).answer s
      (.getNames useCache schema method) = .ok (.names l)) ∧ n ∈ l) ↔ n ∈ names := by
  constructor
  · rintro ⟨l, hl, hn⟩
    have heq := (hl false none).symm.trans (hnames false none)
    cases heq
    exact hn
  · intro hn
    exact ⟨names, hnames, hn⟩

/-- An index is listed when it is visible. -/
theorem listed_index_iff {s : Inspector} (hs : Valid srv s) (useCache : Bool)
    (schema : Option Str) (t n : Str) :
    Listed srv s (.hasIndex useCache schema t n) ↔ Visible srv.catalog t (lower n) := by
  rw [← any_knownIndexes_iff, List.any_eq_true]
  constructor
  · rintro ⟨l, hl, e, he, hn⟩
    have hget := (hl false none).symm.trans (answer_getIndexes hs false none t)
    cases hq : getIndexes srv.catalog t with
    | error x =>
      rw [hq] at hget
      cases hget
    | ok l' =>
      rw [hq] at hget
      cases hget
      exact ⟨e, by rw [knownIndexes_of_ok hq]; exact he, decide_eq_true hn⟩
  · rintro ⟨e, he, hn⟩
    cases hq : getIndexes srv.catalog t with
    | error x =>
      rw [knownIndexes, hq] at he
      exact absurd he List.not_mem_nil
    | ok l =>
      rw [knownIndexes_of_ok hq] at he
      refine ⟨l, ?_, e, he, of_decide_eq_true hn⟩
      intro useCache' schema'
      rw [answer_getIndexes hs, hq]
      rfl

/-- A name that is not in lower case is not stored. -/
theorem unfolded_iff {p : Str → Prop} (hp : ∀ n, p n → lower n = n) (n : Str) :
    (p n ↔ p (lower n)) ↔ lower n = n ∨ ¬ p (lower n) := by
  by_cases hn : lower n = n
  · rw [hn]
    exact iff_of_true Iff.rfl (Or.inl rfl)
  · have hnot : ¬ p n := fun h => hn (hp n h)
    rw [or_iff_right hn]
    exact ⟨fun h hl => hnot (h.mpr hl), fun h => iff_of_false hnot h⟩

omit [UnicodeData] in
/-- A check that answers `b` agrees when `b` says what is listed. -/
theorem agrees_iff {r : Except PyError ExistenceAnswer} {b : Bool} (h : r = .ok (.found b))
    {L : Prop} : (∃ b', r = .ok (.found b') ∧ (b' = true ↔ L)) ↔ (b = true ↔ L) := by
  constructor
  · rintro ⟨b', hb', hiff⟩
    cases h.symm.trans hb'
    exact hiff
  · intro hiff
    exact ⟨b, h, hiff⟩

/-- **One check**, with a valid cache. -/
theorem agrees_iff_of_valid {s : Inspector} (hstores : StoresLower srv) (hs : Valid srv s)
    (c : ExistenceCall) : Agrees srv s c ↔ FoldingIsIdle srv c := by
  have hsequences : queryNames srv .sequenceNames = .ok (sequenceNames srv) :=
    if_pos hstores.attribute_column
  cases c with
  | getNames useCache schema method => exact Iff.rfl
  | getIndexes useCache schema t => exact Iff.rfl
  | hasTable useCache schema n =>
    have hlisted : Listed srv s (.hasTable useCache schema n) ↔ lower n ∈ tableNames srv :=
      listed_names_iff fun useCache schema => answer_getNames hs useCache schema rfl
    refine iff_of_true ⟨_, rfl, ?_⟩ trivial
    rw [hlisted]
    exact hasTable_iff n
  | hasSequence useCache schema n =>
    have hlisted : Listed srv s (.hasSequence useCache schema n) ↔ lower n ∈ sequenceNames srv :=
      listed_names_iff fun useCache schema =>
        answer_getNames hs useCache schema hsequences
    have hstored : ∀ n, n ∈ sequenceNames srv → lower n = n := by
      intro n hn
      obtain ⟨r, hr, -, rfl⟩ := mem_sequenceNames.mp hn
      exact hstores.serials r hr
    have hanswer : (inspectorMachine srv).answer s (.hasSequence useCache schema n)
        = .ok (.found (decide (n ∈ sequenceNames srv))) := by
      apply Py.call_map_fst_of_ok
      rw [(call_hasSequence hs useCache schema n).1, hsequences]
      rfl
    show (∃ b, (inspectorMachine srv).answer s (.hasSequence useCache schema n) = .ok (.found b) ∧
      (b = true ↔ Listed srv s (.hasSequence useCache schema n))) ↔ _
    rw [agrees_iff hanswer, hlisted, decide_eq_true_iff]
    exact unfolded_iff hstored n
  | hasIndex useCache schema t n =>
    have hstored : ∀ n, Visible srv.catalog t n → lower n = n := by
      rintro n ⟨-, i, hi, -, rfl, -⟩
      exact hstores.indexes i hi
    have hanswer : (inspectorMachine srv).answer s (.hasIndex useCache schema t n)
        = .ok (.found ((knownIndexes srv.catalog t).any fun e => e.name = n)) :=
      Py.call_map_fst_of_ok (call_hasIndex hs useCache schema t n).1 ExistenceAnswer.found
    show (∃ b, (inspectorMachine srv).answer s (.hasIndex useCache schema t n) = .ok (.found b) ∧
      (b = true ↔ Listed srv s (.hasIndex useCache schema t n))) ↔ _
    rw [agrees_iff hanswer, listed_index_iff hs, any_knownIndexes_iff]
    exact unfolded_iff hstored n

/-- **The existence checks.**  In a state that a run of calls reaches, a check
answers whether the folded name is listed exactly when folding is idle for it. -/
theorem existence_agrees_iff (hstores : StoresLower srv) (calls : List ExistenceCall)
    (c : ExistenceCall) :
    Agrees srv ((inspectorMachine srv).run newInspector calls) c ↔ FoldingIsIdle srv c :=
  agrees_iff_of_valid hstores (valid_run calls) c

end Valid

/-- The sample catalog and a serial. -/
def sampleServer : Server where
  catalog := sampleCatalog
  dbSerial := [⟨"seq".toList, none⟩, ⟨"team_ai_id".toList, some "id".toList⟩]
  attributeColumn := "attr_name".toList
  version := [11, 4, 0]

theorem sampleServer_storesLower : let _ := asciiData; StoresLower sampleServer := by
  intro _
  exact ⟨by decide, by decide, by decide, by decide⟩

/-- The checks for a name in capitals that no serial has. -/
theorem existence_agrees_iff_other :
    let _ := asciiData
    let calls : List ExistenceCall :=
      [.getNames true none .sequenceNames, .hasIndex true none "Person".toList "IDX".toList]
    let c : ExistenceCall := .hasSequence true none "Other".toList
    Agrees sampleServer ((inspectorMachine sampleServer).run newInspector calls) c ↔
      FoldingIsIdle sampleServer c := by
  intro _ calls c
  exact existence_agrees_iff sampleServer_storesLower calls c

/-- **A serial is denied under the name it was created with**, and so is an index;
a table is found. -/
theorem existence_denied_in_capitals :
    let _ := asciiData
    let answer := (inspectorMachine sampleServer).answer newInspector
    answer (.hasTable false none "Person".toList) = .ok (.found true) ∧
      answer (.hasSequence false none "Seq".toList) = .ok (.found false) ∧
      answer (.getNames false none .sequenceNames) = .ok (.names [lower "Seq".toList]) ∧
      answer (.hasIndex false none "Person".toList "Idx".toList) = .ok (.found false) ∧
      answer (.hasIndex false none "Person".toList (lower "Idx".toList)) = .ok (.found true) ∧
      ¬ Agrees sampleServer newInspector (.hasSequence false none "Seq".toList) ∧
      ¬ Agrees sampleServer newInspector (.hasIndex false none "Person".toList "Idx".toList) := by
  intro _ answer
  have hlisted : Visible sampleCatalog "Person".toList (lower "Idx".toList) :=
    any_knownIndexes_iff.mp (by decide)
  have hseq : ¬ FoldingIsIdle sampleServer (.hasSequence false none "Seq".toList) := by
    rintro (h | h)
    · exact absurd h (by decide)
    · exact h (by decide)
  have hidx : ¬ FoldingIsIdle sampleServer
      (.hasIndex false none "Person".toList "Idx".toList) := by
    rintro (h | h)
    · exact absurd h (by decide)
    · exact h hlisted
  refine ⟨by decide, by decide, by decide, by decide, by decide, ?_, ?_⟩
  · exact fun h => hseq ((agrees_iff_of_valid sampleServer_storesLower valid_newInspector _).mp h)
  · exact fun h => hidx ((agrees_iff_of_valid sampleServer_storesLower valid_newInspector _).mp h)

end SqlalchemyCubrid.Dialect
