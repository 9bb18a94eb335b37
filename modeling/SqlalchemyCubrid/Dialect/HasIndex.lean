import SqlalchemyCubrid.Dialect.Indexes
import SqlalchemyCubrid.Lib.Machine

/-!
# `has_index` and its cache

`has_index` keeps the list of a table's indexes under a key of its own in the
shared `info_cache`, next to the entries of `reflection.cache`.  A lookup that
raises is kept as the empty list.

`History` says what the calls of a run did to the cache, reading the calls alone:
which tables `has_index` has looked up and whether that went well, and which
tables `get_indexes` had already put where that lookup finds them.  `Tracks` ties
it to the cache, and `has_index_runs_right_iff` is the result: the answers of a
run are right exactly when every `has_index` about an index the catalog has comes
from a lookup that went well.
-/

namespace SqlalchemyCubrid.Dialect

open Lib Python

/-! ### The cache -/

/-- The keys of `reflection.cache`: the positional arguments that are strings and
the keyword arguments. -/
structure CacheKey where
  args : List Str
  kw : List (Str × Option Str)
  deriving DecidableEq, Repr

def CacheKey.tableName (key : CacheKey) : Str := key.args.headD []

/-- The key of `get_indexes`.  The wrapper has the signature of the method and
passes the schema on as a keyword, so it does not matter how the caller passed
it. -/
def cacheKey (schema : Option Str) (tableName : Str) : CacheKey :=
  ⟨[tableName], [("schema".toList, schema)]⟩

@[simp] theorem tableName_cacheKey (schema : Option Str) (t : Str) :
    (cacheKey schema t).tableName = t := rfl

theorem cacheKey_injective {schema schema' : Option Str} {t t' : Str}
    (h : cacheKey schema t = cacheKey schema' t') : (schema, t) = (schema', t') := by
  simp only [cacheKey, CacheKey.mk.injEq, List.cons.injEq, and_true, Prod.mk.injEq, true_and] at h
  rw [h.1, h.2]

/-- The `info_cache`: the entries of `has_index`, under schema and table name,
and those of `reflection.cache`. -/
structure InfoCache where
  own : Dict (Option Str × Str) (List ReflectedIndex)
  reflection : Dict CacheKey (List ReflectedIndex)

/-- Which of the two queries of `get_indexes` fail with a `DatabaseError`. -/
structure QueryFaults where
  object : Bool
  index : Bool
  deriving DecidableEq, Repr

/-! ### The code -/

section Code

variable [UnicodeData] (cat : Catalog)

/-- A query that `get_indexes` makes fails; the second one is made for a table
that exists. -/
def QueryFaults.Fails (q : QueryFaults) (tableName : Str) : Prop :=
  q.object = true ∨ hasObject cat tableName = true ∧ q.index = true

instance (q : QueryFaults) (tableName : Str) : Decidable (q.Fails cat tableName) :=
  inferInstanceAs (Decidable (_ ∨ _))

/-- The body of `get_indexes`. -/
def queryIndexes (q : QueryFaults) (tableName : Str) : Except PyError (List ReflectedIndex) :=
  if q.Fails cat tableName then .error .databaseError else getIndexes cat tableName

/-- `get_indexes` under `reflection.cache`; without an `info_cache` nothing is
kept. -/
def cachedGetIndexes (useCache : Bool) (key : CacheKey) (q : QueryFaults) :
    Py InfoCache (List ReflectedIndex) := do
  if useCache then
    match (← get).reflection.get? key with
    | some ret => return ret
    | none =>
      let ret ← Py.outcome (queryIndexes cat q key.tableName)
      modify fun s => { s with reflection := s.reflection.set key ret }
      return ret
  else
    Py.outcome (queryIndexes cat q key.tableName)

/-- `except (ProgrammingError, DatabaseError, NoSuchTableError)` -/
def caught : PyError → Bool
  | .databaseError => true
  | .noSuchTableError _ => true
  | _ => false

/-- The lookup of `has_index`. -/
def lookupIndexes (useCache : Bool) (schema : Option Str) (tableName : Str) (q : QueryFaults) :
    Py InfoCache (List ReflectedIndex) :=
  tryCatch (cachedGetIndexes cat useCache (cacheKey schema tableName) q) fun e =>
    if caught e then pure [] else throw e

def hasIndex (useCache : Bool) (schema : Option Str) (tableName indexName : Str)
    (q : QueryFaults) : Py InfoCache Bool := do
  let known := (← get).own.get? (schema, tableName)
  match (if useCache then known else none) with
  | some indexes => return indexes.any fun e => e.name = indexName
  | none =>
    let indexes ← lookupIndexes cat useCache schema tableName q
    if useCache then
      modify fun s => { s with own := s.own.set (schema, tableName) indexes }
    return indexes.any fun e => e.name = indexName

/-! ### The machine -/

inductive IndexCall where
  | hasIndex (useCache : Bool) (schema : Option Str) (tableName indexName : Str) (q : QueryFaults)
  | getIndexes (useCache : Bool) (schema : Option Str) (tableName : Str) (q : QueryFaults)
  deriving DecidableEq

inductive IndexAnswer where
  | found (b : Bool)
  | indexes (l : List ReflectedIndex)
  deriving DecidableEq

def indexMachine : Machine InfoCache IndexCall (Except PyError IndexAnswer) where
  step s
    | .hasIndex useCache schema tableName indexName q =>
      (IndexAnswer.found <$> hasIndex cat useCache schema tableName indexName q).call s
    | .getIndexes useCache schema tableName q =>
      (IndexAnswer.indexes <$> cachedGetIndexes cat useCache (cacheKey schema tableName) q).call s

def emptyCache : InfoCache := ⟨[], []⟩

/-! ### What the answers should be -/

/-- The catalog has an index of this name on the class that is no primary and no
foreign key. -/
def HasPlainIndex (className indexName : Str) : Prop :=
  ∃ i ∈ cat.dbIndex, i.className = className ∧ i.indexName = indexName ∧ isPlain i = true

/-- A `has_index` that returns says whether the catalog has the index. -/
def Right : IndexCall → Except PyError IndexAnswer → Prop
  | .hasIndex _ _ tableName indexName _, .ok (.found b) =>
    b = true ↔ HasPlainIndex cat tableName indexName
  | _, _ => True

/-- The table name is spelled as the catalog spells class names. -/
def IndexCall.Spelled : IndexCall → Prop
  | .hasIndex _ _ tableName _ _ => lower tableName = tableName
  | .getIndexes _ _ _ _ => True

/-! ### What the calls did -/

/-- `decided`: the tables `has_index` has looked up for the cache, and whether
the lookup went well.  `warm`: the tables whose indexes `get_indexes` has put
where that lookup finds them. -/
structure History where
  decided : Dict (Option Str × Str) Bool
  warm : List (Option Str × Str)

def History.empty : History := ⟨[], []⟩

/-- The lookup of a `has_index` for the cache goes well. -/
def History.goesWell (h : History) (schema : Option Str) (tableName : Str) (q : QueryFaults) :
    Bool :=
  (schema, tableName) ∈ h.warm ∨ ¬ q.Fails cat tableName

def History.note (h : History) : IndexCall → History
  | .hasIndex true schema tableName _ q =>
    match h.decided.get? (schema, tableName) with
    | some _ => h
    | none =>
      { h with decided := h.decided.set (schema, tableName) (h.goesWell cat schema tableName q) }
  | .getIndexes true schema tableName q =>
    if ¬ q.Fails cat tableName ∧ hasObject cat tableName = true then
      { h with warm := (schema, tableName) :: h.warm }
    else
      h
  | _ => h

/-- What came before a call. -/
def history (calls : List IndexCall) : History := calls.foldl (History.note cat) History.empty

/-- The lookup a `has_index` answers from went well: its own, or the one that was
kept. -/
def History.FromGoodLookup (h : History) (useCache : Bool) (schema : Option Str)
    (tableName : Str) (q : QueryFaults) : Prop :=
  if useCache then
    (h.decided.get? (schema, tableName)).getD (h.goesWell cat schema tableName q) = true
  else
    ¬ q.Fails cat tableName

/-- The index can be seen: its class is a user's and it has a key. -/
def Visible (tableName indexName : Str) : Prop :=
  hasObject cat tableName = true ∧
    ∃ i ∈ cat.dbIndex, i.className = lower tableName ∧ i.indexName = indexName ∧
      isPlain i = true ∧ cat.keyRows i ≠ []

/-- **A `has_index` about an index the catalog has answers from a lookup that went
well.** -/
def Sound (h : History) : IndexCall → Prop
  | .hasIndex useCache schema tableName indexName q =>
    HasPlainIndex cat tableName indexName →
      Visible cat tableName indexName ∧ h.FromGoodLookup cat useCache schema tableName q
  | .getIndexes _ _ _ _ => True

end Code

/-! ### The list of a table -/

section Known

variable [UnicodeData] {cat : Catalog}

def orEmpty (r : Except PyError (List ReflectedIndex)) : List ReflectedIndex :=
  match r with
  | .ok l => l
  | .error _ => []

/-- What a lookup that goes well finds; nothing for a table that does not
exist. -/
def knownIndexes (cat : Catalog) (tableName : Str) : List ReflectedIndex :=
  orEmpty (getIndexes cat tableName)

theorem knownIndexes_of_ok {tableName : Str} {l : List ReflectedIndex}
    (h : getIndexes cat tableName = .ok l) : knownIndexes cat tableName = l := by
  rw [knownIndexes, h]
  rfl

/-- An entry of the loop carries its key as its name. -/
theorem name_of_mem_foldIndexes {rows : List (DbIndex × DbIndexKey)} :
    ∀ i ∈ foldIndexes rows, i.2.name = i.1 := by
  intro i hi
  exact Dict.forall_foldl_groupStep (fun r : DbIndex × DbIndexKey => r.1.indexName) newIndex addKey
    (P := fun k v => v.name = k) (fun _ => rfl) (fun _ _ _ h => h)
    (fun _ h => absurd h List.not_mem_nil) i hi

theorem any_foldIndexes_iff {rows : List (DbIndex × DbIndexKey)} {indexName : Str} :
    ((foldIndexes rows).map Prod.snd).any (fun e => e.name = indexName) = true ↔
      ∃ r ∈ rows, r.1.indexName = indexName := by
  have hkeys : indexName ∈ (foldIndexes rows).map Prod.fst ↔
      ∃ r ∈ rows, r.1.indexName = indexName := by
    rw [foldIndexes, Dict.mem_keys_foldl_groupStep]
    exact or_iff_right List.not_mem_nil
  rw [← hkeys, List.any_eq_true]
  constructor
  · rintro ⟨e, he, hn⟩
    obtain ⟨i, hi, rfl⟩ := List.mem_map.mp he
    rw [decide_eq_true_iff, name_of_mem_foldIndexes i hi] at hn
    exact List.mem_map.mpr ⟨i, hi, hn⟩
  · intro h
    obtain ⟨i, hi, hn⟩ := List.mem_map.mp h
    refine ⟨i.2, List.mem_map_of_mem hi, ?_⟩
    rw [decide_eq_true_iff, name_of_mem_foldIndexes i hi, hn]

/-- **A lookup that goes well shows the visible indexes.** -/
theorem any_knownIndexes_iff {tableName indexName : Str} :
    (knownIndexes cat tableName).any (fun e => e.name = indexName) = true ↔
      Visible cat tableName indexName := by
  by_cases hobj : hasObject cat tableName = true
  · have hok : getIndexes cat tableName
        = .ok ((foldIndexes (cat.indexRows (lower tableName) isPlain)).map Prod.snd) := by
      rw [getIndexes, if_pos hobj]
    rw [knownIndexes_of_ok hok, any_foldIndexes_iff]
    constructor
    · rintro ⟨r, hr, hn⟩
      rw [Catalog.indexRows, mem_orderBy, Catalog.joined_eq] at hr
      obtain ⟨i, hi, hr⟩ := List.mem_flatMap.mp hr
      obtain ⟨k, hk, rfl⟩ := List.mem_map.mp hr
      obtain ⟨hi, hc, hp⟩ := Catalog.mem_indexesOf.mp hi
      exact ⟨hobj, i, hi, hc, hn, hp, List.ne_nil_of_mem hk⟩
    · rintro ⟨-, i, hi, hc, hn, hp, hk⟩
      obtain ⟨k, hk⟩ := List.exists_mem_of_ne_nil _ hk
      refine ⟨(i, k), ?_, hn⟩
      rw [Catalog.indexRows, mem_orderBy, Catalog.joined_eq]
      exact List.mem_flatMap.mpr ⟨i, Catalog.mem_indexesOf.mpr ⟨hi, hc, hp⟩,
        List.mem_map_of_mem hk⟩
  · have herr : knownIndexes cat tableName = [] := by
      rw [knownIndexes, getIndexes, if_neg hobj]
      rfl
    rw [herr]
    exact ⟨fun h => absurd h Bool.false_ne_true, fun h => absurd h.1 hobj⟩

theorem hasPlainIndex_of_visible {tableName indexName : Str} (hs : lower tableName = tableName)
    (h : Visible cat tableName indexName) : HasPlainIndex cat tableName indexName := by
  obtain ⟨-, i, hi, hc, hn, hp, -⟩ := h
  exact ⟨i, hi, hc.trans hs, hn, hp⟩

end Known

/-! ### One lookup -/

section Lookup

variable [UnicodeData] {cat : Catalog}

theorem caught_of_queryIndexes {q : QueryFaults} {tableName : Str} {e : PyError}
    (h : queryIndexes cat q tableName = .error e) : caught e = true := by
  rw [queryIndexes] at h
  by_cases hf : q.Fails cat tableName
  · rw [if_pos hf] at h
    cases h
    rfl
  · rw [if_neg hf, getIndexes] at h
    by_cases hobj : hasObject cat tableName = true
    · rw [if_pos hobj] at h
      cases h
    · rw [if_neg hobj] at h
      cases h
      rfl

theorem call_cached_hit {key : CacheKey} {l : List ReflectedIndex} {s : InfoCache}
    (h : s.reflection.get? key = some l) (q : QueryFaults) :
    (cachedGetIndexes cat true key q).call s = (.ok l, s) := by
  simp [cachedGetIndexes, h]

theorem call_cached_miss {key : CacheKey} {s : InfoCache} (h : s.reflection.get? key = none)
    (q : QueryFaults) :
    (cachedGetIndexes cat true key q).call s
      = match queryIndexes cat q key.tableName with
        | .ok l => (.ok l, { s with reflection := s.reflection.set key l })
        | .error e => (.error e, s) := by
  simp only [cachedGetIndexes, if_true, Py.call_bind, Py.call_get, h, Py.call_outcome]
  cases queryIndexes cat q key.tableName <;> rfl

theorem call_uncached (key : CacheKey) (q : QueryFaults) (s : InfoCache) :
    (cachedGetIndexes cat false key q).call s = (queryIndexes cat q key.tableName, s) := by
  simp [cachedGetIndexes]

/-- Every entry of `reflection.cache` is what the catalog says. -/
def ReflectionValid (cat : Catalog) (s : InfoCache) : Prop :=
  ∀ key l, s.reflection.get? key = some l → getIndexes cat key.tableName = .ok l

theorem ok_of_queryIndexes {q : QueryFaults} {tableName : Str} {l : List ReflectedIndex}
    (h : queryIndexes cat q tableName = .ok l) :
    ¬ q.Fails cat tableName ∧ hasObject cat tableName = true ∧
      getIndexes cat tableName = .ok l := by
  rw [queryIndexes] at h
  by_cases hf : q.Fails cat tableName
  · rw [if_pos hf] at h
    cases h
  · rw [if_neg hf] at h
    refine ⟨hf, ?_, h⟩
    rw [getIndexes] at h
    by_cases hobj : hasObject cat tableName = true
    · exact hobj
    · rw [if_neg hobj] at h
      cases h

theorem not_error_of_goes_well {q : QueryFaults} {tableName : Str} {e : PyError}
    (h : queryIndexes cat q tableName = .error e) :
    ¬ (¬ q.Fails cat tableName ∧ hasObject cat tableName = true) := by
  rintro ⟨hf, hobj⟩
  rw [queryIndexes, if_neg hf, getIndexes, if_pos hobj] at h
  cases h

/-- `get_indexes` writes only valid entries, and only under its key. -/
theorem session_cachedGetIndexes {s : InfoCache} (hs : ReflectionValid cat s) (useCache : Bool)
    (key : CacheKey) (q : QueryFaults) {s' : InfoCache}
    (h' : ((cachedGetIndexes cat useCache key q).call s).2 = s') :
    s'.own = s.own ∧ ReflectionValid cat s' ∧
      (∀ key', key' ≠ key → s'.reflection.get? key' = s.reflection.get? key') ∧
      (s'.reflection.get? key ≠ none ↔
        s.reflection.get? key ≠ none ∨
          useCache = true ∧ ¬ q.Fails cat key.tableName ∧ hasObject cat key.tableName = true) := by
  cases useCache with
  | false =>
    rw [call_uncached] at h'
    subst h'
    exact ⟨rfl, hs, fun _ _ => rfl, (or_iff_left fun h => Bool.false_ne_true h.1).symm⟩
  | true =>
    cases hk : s.reflection.get? key with
    | some l =>
      rw [call_cached_hit hk] at h'
      subst h'
      rw [hk]
      exact ⟨rfl, hs, fun _ _ => rfl, ⟨fun h => Or.inl h, fun _ => Option.some_ne_none l⟩⟩
    | none =>
      rw [call_cached_miss hk] at h'
      cases hq : queryIndexes cat q key.tableName with
      | error e =>
        rw [hq] at h'
        subst h'
        refine ⟨rfl, hs, fun _ _ => rfl, ?_⟩
        show s.reflection.get? key ≠ none ↔ _
        rw [hk]
        exact (or_iff_left fun h => not_error_of_goes_well hq h.2).symm
      | ok l =>
        rw [hq] at h'
        subst h'
        obtain ⟨hf, hobj, hl⟩ := ok_of_queryIndexes hq
        refine ⟨rfl, ?_, fun key' hne => Dict.get?_set_of_ne _ hne l, ?_⟩
        · intro key' l' hl'
          by_cases hkey : key' = key
          · subst hkey
            have hset : (s.reflection.set key' l).get? key' = some l' := hl'
            rw [Dict.get?_set_self, Option.some.injEq] at hset
            rw [← hset]
            exact hl
          · have hset : (s.reflection.set key l).get? key' = some l' := hl'
            rw [Dict.get?_set_of_ne _ hkey] at hset
            exact hs key' l' hset
        · show (s.reflection.set key l).get? key ≠ none ↔ _
          rw [Dict.get?_set_self]
          exact ⟨fun _ => Or.inr ⟨rfl, hf, hobj⟩, fun _ => Option.some_ne_none l⟩

/-- What `get_indexes` gives, with an exception read as nothing: what is known,
unless a query fails and nothing is kept. -/
theorem orEmpty_cachedGetIndexes {s : InfoCache} (hs : ReflectionValid cat s) (useCache : Bool)
    (key : CacheKey) (q : QueryFaults) :
    orEmpty ((cachedGetIndexes cat useCache key q).call s).1
      = if (useCache = true ∧ s.reflection.get? key ≠ none) ∨ ¬ q.Fails cat key.tableName then
          knownIndexes cat key.tableName
        else [] := by
  have hquery : orEmpty (queryIndexes cat q key.tableName)
      = if ¬ q.Fails cat key.tableName then knownIndexes cat key.tableName else [] := by
    rw [queryIndexes]
    by_cases hf : q.Fails cat key.tableName
    · rw [if_pos hf, if_neg (not_not.mpr hf)]
      rfl
    · rw [if_neg hf, if_pos hf]
      rfl
  cases useCache with
  | false =>
    rw [call_uncached]
    simpa using hquery
  | true =>
    cases hk : s.reflection.get? key with
    | some l =>
      rw [call_cached_hit hk, if_pos (Or.inl ⟨rfl, Option.some_ne_none l⟩),
        knownIndexes_of_ok (hs key l hk)]
      rfl
    | none =>
      have hmiss : orEmpty ((cachedGetIndexes cat true key q).call s).1
          = orEmpty (queryIndexes cat q key.tableName) := by
        rw [call_cached_miss hk]
        cases queryIndexes cat q key.tableName <;> rfl
      rw [hmiss]
      simpa using hquery

theorem caught_of_cachedGetIndexes {s : InfoCache} {useCache : Bool} {key : CacheKey}
    {q : QueryFaults} {e : PyError}
    (h : ((cachedGetIndexes cat useCache key q).call s).1 = .error e) : caught e = true := by
  cases useCache with
  | false =>
    rw [call_uncached] at h
    exact caught_of_queryIndexes h
  | true =>
    cases hk : s.reflection.get? key with
    | some l =>
      rw [call_cached_hit hk] at h
      cases h
    | none =>
      rw [call_cached_miss hk] at h
      cases hq : queryIndexes cat q key.tableName with
      | ok l =>
        rw [hq] at h
        cases h
      | error e' =>
        rw [hq] at h
        cases h
        exact caught_of_queryIndexes hq

/-- The lookup of `has_index` never raises. -/
theorem call_lookupIndexes (useCache : Bool) (schema : Option Str) (tableName : Str)
    (q : QueryFaults) (s : InfoCache) :
    (lookupIndexes cat useCache schema tableName q).call s
      = (.ok (orEmpty ((cachedGetIndexes cat useCache (cacheKey schema tableName) q).call s).1),
          ((cachedGetIndexes cat useCache (cacheKey schema tableName) q).call s).2) := by
  rw [lookupIndexes, Py.call_tryCatch]
  cases hc : (cachedGetIndexes cat useCache (cacheKey schema tableName) q).call s with
  | mk r s' =>
    cases r with
    | ok l => rfl
    | error e =>
      have he : caught e = true := caught_of_cachedGetIndexes (by rw [hc])
      show Py.call (if caught e = true then pure [] else throw e) s' = _
      rw [if_pos he]
      rfl

/-! ### One `has_index` -/

theorem call_hasIndex_kept {s : InfoCache} {schema : Option Str} {tableName : Str}
    {l : List ReflectedIndex} (h : s.own.get? (schema, tableName) = some l) (indexName : Str)
    (q : QueryFaults) :
    (hasIndex cat true schema tableName indexName q).call s
      = (.ok (l.any fun e => e.name = indexName), s) := by
  simp [hasIndex, h]

theorem call_hasIndex_lookup {s : InfoCache} {useCache : Bool} (schema : Option Str)
    (tableName : Str) (h : useCache = true → s.own.get? (schema, tableName) = none)
    (indexName : Str) (q : QueryFaults) :
    let c := (cachedGetIndexes cat useCache (cacheKey schema tableName) q).call s
    (hasIndex cat useCache schema tableName indexName q).call s
      = (.ok ((orEmpty c.1).any fun e => e.name = indexName),
          if useCache = true then { c.2 with own := c.2.own.set (schema, tableName) (orEmpty c.1) }
          else c.2) := by
  cases useCache with
  | false => simp [hasIndex, call_lookupIndexes]
  | true => simp [hasIndex, h rfl, call_lookupIndexes]

end Lookup

/-! ### The cache and the history -/

section Tracks

variable [UnicodeData] {cat : Catalog}

/-- The cache is what the history says: under the key of `has_index` the known
list where the lookup went well and the empty list where it did not, and under
the key that lookup reads an entry where `get_indexes` has been. -/
structure Tracks (cat : Catalog) (s : InfoCache) (h : History) : Prop where
  own : ∀ schema t, s.own.get? (schema, t)
    = (h.decided.get? (schema, t)).map fun good => if good then knownIndexes cat t else []
  valid : ReflectionValid cat s
  warm : ∀ schema t, h.decided.get? (schema, t) = none →
    (s.reflection.get? (cacheKey schema t) ≠ none ↔ (schema, t) ∈ h.warm)

theorem tracks_empty : Tracks cat emptyCache History.empty where
  own _ _ := rfl
  valid _ _ h := by cases h
  warm _ _ _ := ⟨fun h => absurd rfl h, fun h => absurd h List.not_mem_nil⟩

theorem tracks_uncached {s : InfoCache} {h : History} (ht : Tracks cat s h) (key : CacheKey)
    (q : QueryFaults) : Tracks cat ((cachedGetIndexes cat false key q).call s).2 h := by
  rw [call_uncached]
  exact ht

/-- `get_indexes` warms the table. -/
theorem tracks_getIndexes {s : InfoCache} {h : History} (ht : Tracks cat s h)
    (schema : Option Str) (t : Str) (q : QueryFaults) :
    Tracks cat ((cachedGetIndexes cat true (cacheKey schema t) q).call s).2
      (h.note cat (.getIndexes true schema t q)) := by
  obtain ⟨hown, hvalid, hother, hself⟩ :=
    session_cachedGetIndexes ht.valid true (cacheKey schema t) q rfl
  rw [tableName_cacheKey] at hself
  have hdecided : (h.note cat (.getIndexes true schema t q)).decided = h.decided := by
    rw [History.note]
    split <;> rfl
  have hwarm : ∀ k, k ∈ (h.note cat (.getIndexes true schema t q)).warm ↔
      k ∈ h.warm ∨ k = (schema, t) ∧ ¬ q.Fails cat t ∧ hasObject cat t = true := by
    intro k
    rw [History.note]
    by_cases hw : ¬ q.Fails cat t ∧ hasObject cat t = true
    · rw [if_pos hw]
      show k ∈ (schema, t) :: h.warm ↔ _
      rw [List.mem_cons, or_comm]
      exact or_congr_right ⟨fun hk => ⟨hk, hw⟩, fun hk => hk.1⟩
    · rw [if_neg hw]
      exact (or_iff_left fun hk => hw hk.2).symm
  refine ⟨fun schema' t' => ?_, hvalid, fun schema' t' hd => ?_⟩
  · rw [hown, ht.own, hdecided]
  · rw [hdecided] at hd
    rw [hwarm]
    by_cases hk : cacheKey schema' t' = cacheKey schema t
    · have hkey := cacheKey_injective hk
      rw [hk, hself, ← ht.warm schema' t' hd, hk]
      apply or_congr_right
      exact ⟨fun hw => ⟨hkey, hw.2⟩, fun hw => ⟨rfl, hw.2⟩⟩
    · rw [hother _ hk, ht.warm schema' t' hd]
      refine (or_iff_left fun hw => hk ?_).symm
      obtain ⟨e, -⟩ := hw
      obtain ⟨rfl, rfl⟩ := Prod.mk.inj e
      rfl

/-- The lookup of a `has_index` that is not decided goes as the history says. -/
theorem goesWell_iff {s : InfoCache} {h : History} (ht : Tracks cat s h) {schema : Option Str}
    {t : Str} (hd : h.decided.get? (schema, t) = none) (q : QueryFaults) :
    orEmpty ((cachedGetIndexes cat true (cacheKey schema t) q).call s).1
      = if h.goesWell cat schema t q then knownIndexes cat t else [] := by
  rw [orEmpty_cachedGetIndexes ht.valid, tableName_cacheKey, History.goesWell]
  refine if_congr ?_ rfl rfl
  rw [decide_eq_true_iff, ht.warm schema t hd]
  exact or_congr_left (and_iff_right rfl)

/-- A first `has_index` for the cache decides the table. -/
theorem tracks_hasIndex_lookup {s : InfoCache} {h : History} (ht : Tracks cat s h)
    {schema : Option Str} {t : Str} (hd : h.decided.get? (schema, t) = none) (q : QueryFaults) :
    let c := (cachedGetIndexes cat true (cacheKey schema t) q).call s
    Tracks cat { c.2 with own := c.2.own.set (schema, t) (orEmpty c.1) }
      { h with decided := h.decided.set (schema, t) (h.goesWell cat schema t q) } := by
  intro c
  obtain ⟨hown, hvalid, hother, -⟩ :=
    session_cachedGetIndexes ht.valid true (cacheKey schema t) q (rfl : c.2 = c.2)
  refine ⟨fun schema' t' => ?_, hvalid, fun schema' t' hd' => ?_⟩
  · show (c.2.own.set (schema, t) (orEmpty c.1)).get? (schema', t')
      = ((h.decided.set (schema, t) (h.goesWell cat schema t q)).get? (schema', t')).map _
    by_cases hk : (schema', t') = (schema, t)
    · obtain ⟨rfl, rfl⟩ := Prod.mk.inj hk
      rw [Dict.get?_set_self, Dict.get?_set_self, Option.map_some, goesWell_iff ht hd]
    · rw [Dict.get?_set_of_ne _ hk, Dict.get?_set_of_ne _ hk, hown, ht.own]
  · have hget : (h.decided.set (schema, t) (h.goesWell cat schema t q)).get? (schema', t') = none :=
      hd'
    by_cases hk : (schema', t') = (schema, t)
    · rw [hk, Dict.get?_set_self] at hget
      cases hget
    · rw [Dict.get?_set_of_ne _ hk] at hget
      have hne : cacheKey schema' t' ≠ cacheKey schema t := fun e => hk (cacheKey_injective e)
      show c.2.reflection.get? (cacheKey schema' t') ≠ none ↔ (schema', t') ∈ h.warm
      rw [hother _ hne]
      exact ht.warm schema' t' hget

/-! ### One call -/

/-- What a `has_index` answers: whether the index is visible in a lookup that
went well. -/
theorem answer_hasIndex {s : InfoCache} {h : History} (ht : Tracks cat s h) (useCache : Bool)
    (schema : Option Str) (t i : Str) (q : QueryFaults) :
    ∃ b, ((hasIndex cat useCache schema t i q).call s).1 = .ok b ∧
      (b = true ↔ Visible cat t i ∧ h.FromGoodLookup cat useCache schema t q) := by
  have hempty : ∀ good : Bool,
      ((if good then knownIndexes cat t else []).any fun e => e.name = i) = true ↔
        Visible cat t i ∧ good = true := by
    intro good
    cases good with
    | true => simpa using any_knownIndexes_iff
    | false => simp
  cases useCache with
  | false =>
    have hfresh : false = true → s.own.get? (schema, t) = none := fun h => by cases h
    refine ⟨_, by rw [call_hasIndex_lookup schema t hfresh], ?_⟩
    have hlist := orEmpty_cachedGetIndexes ht.valid false (cacheKey schema t) q
    rw [tableName_cacheKey] at hlist
    rw [hlist, History.FromGoodLookup, if_neg Bool.false_ne_true]
    by_cases hf : q.Fails cat t
    · simp [hf]
    · simpa [hf] using any_knownIndexes_iff
  | true =>
    cases hd : h.decided.get? (schema, t) with
    | some good =>
      have hown : s.own.get? (schema, t) = some (if good then knownIndexes cat t else []) := by
        rw [ht.own, hd, Option.map_some]
      refine ⟨_, by rw [call_hasIndex_kept hown], ?_⟩
      rw [hempty, History.FromGoodLookup, if_pos rfl, hd, Option.getD_some]
    | none =>
      have hown : s.own.get? (schema, t) = none := by
        rw [ht.own, hd, Option.map_none]
      have hfresh : true = true → s.own.get? (schema, t) = none := fun _ => hown
      refine ⟨_, by rw [call_hasIndex_lookup schema t hfresh], ?_⟩
      rw [goesWell_iff ht hd, hempty, History.FromGoodLookup, if_pos rfl, hd, Option.getD_none]

theorem next_hasIndex (s : InfoCache) (useCache : Bool) (schema : Option Str) (t i : Str)
    (q : QueryFaults) :
    (indexMachine cat).next s (.hasIndex useCache schema t i q)
      = ((hasIndex cat useCache schema t i q).call s).2 :=
  Py.call_map_snd _ IndexAnswer.found s

theorem next_getIndexes (s : InfoCache) (useCache : Bool) (schema : Option Str) (t : Str)
    (q : QueryFaults) :
    (indexMachine cat).next s (.getIndexes useCache schema t q)
      = ((cachedGetIndexes cat useCache (cacheKey schema t) q).call s).2 :=
  Py.call_map_snd _ IndexAnswer.indexes s

/-- **One call keeps the cache and the history together.** -/
theorem tracks_next {s : InfoCache} {h : History} (ht : Tracks cat s h) (c : IndexCall) :
    Tracks cat ((indexMachine cat).next s c) (h.note cat c) := by
  cases c with
  | getIndexes useCache schema t q =>
    rw [next_getIndexes]
    cases useCache with
    | false => exact tracks_uncached ht _ q
    | true => exact tracks_getIndexes ht schema t q
  | hasIndex useCache schema t i q =>
    rw [next_hasIndex]
    cases useCache with
    | false =>
      have hfresh : false = true → s.own.get? (schema, t) = none := fun h => by cases h
      rw [call_hasIndex_lookup schema t hfresh]
      exact tracks_uncached ht _ q
    | true =>
      cases hd : h.decided.get? (schema, t) with
      | some good =>
        have hown : s.own.get? (schema, t) = some (if good then knownIndexes cat t else []) := by
          rw [ht.own, hd, Option.map_some]
        rw [call_hasIndex_kept hown, History.note, hd]
        exact ht
      | none =>
        have hown : s.own.get? (schema, t) = none := by
          rw [ht.own, hd, Option.map_none]
        have hfresh : true = true → s.own.get? (schema, t) = none := fun _ => hown
        rw [call_hasIndex_lookup schema t hfresh, History.note, hd]
        exact tracks_hasIndex_lookup ht hd q

/-- **One answer is right exactly when the call is sound.** -/
theorem right_iff_sound {s : InfoCache} {h : History} (ht : Tracks cat s h) {c : IndexCall}
    (hc : c.Spelled) : Right cat c ((indexMachine cat).answer s c) ↔ Sound cat h c := by
  cases c with
  | getIndexes useCache schema t q => exact Iff.rfl
  | hasIndex useCache schema t i q =>
    obtain ⟨b, hb, hiff⟩ := answer_hasIndex ht useCache schema t i q
    have hanswer : (indexMachine cat).answer s (.hasIndex useCache schema t i q)
        = .ok (.found b) :=
      Py.call_map_fst_of_ok hb IndexAnswer.found
    rw [hanswer]
    show (b = true ↔ HasPlainIndex cat t i) ↔ (HasPlainIndex cat t i → _)
    rw [hiff]
    constructor
    · intro hright hidx
      exact hright.mpr hidx
    · intro hsound
      exact ⟨fun hv => hasPlainIndex_of_visible hc hv.1, hsound⟩

/-! ### Runs -/

theorem tracks_run {s : InfoCache} {h : History} (ht : Tracks cat s h) (calls : List IndexCall) :
    Tracks cat ((indexMachine cat).run s calls) (calls.foldl (History.note cat) h) :=
  Machine.run_foldl _ (R := Tracks cat) (History.note cat) (fun _ _ c ht => tracks_next ht c) ht
    calls

/-- **Runs.**  Over one `info_cache`, every answer of a run is right exactly when
every `has_index` of it about an index the catalog has is sound. -/
theorem has_index_runs_right_iff (cat : Catalog) (calls : List IndexCall)
    (h : ∀ c ∈ calls, c.Spelled) :
    (∀ before c after, calls = before ++ c :: after →
        Right cat c ((indexMachine cat).answer ((indexMachine cat).run emptyCache before) c)) ↔
      ∀ before c after, calls = before ++ c :: after → Sound cat (history cat before) c := by
  refine forall_congr' fun before => forall_congr' fun c => forall_congr' fun after => ?_
  apply forall_congr'
  intro e
  have hc : c.Spelled := h c (by rw [e]; simp)
  exact right_iff_sound (tracks_run tracks_empty before) hc

end Tracks

/-- A run in which every lookup goes well. -/
theorem has_index_runs_right_iff_person :
    let _ := asciiData
    let calls : List IndexCall :=
      [.getIndexes true none "person".toList ⟨true, false⟩,
        .hasIndex true none "person".toList "idx".toList ⟨false, false⟩,
        .hasIndex true none "person".toList "idx".toList ⟨true, true⟩]
    (∀ before c after, calls = before ++ c :: after →
        Right sampleCatalog c ((indexMachine sampleCatalog).answer
          ((indexMachine sampleCatalog).run emptyCache before) c)) ↔
      ∀ before c after, calls = before ++ c :: after →
        Sound sampleCatalog (history sampleCatalog before) c := by
  intro _ calls
  refine has_index_runs_right_iff sampleCatalog calls fun c hc => ?_
  simp only [calls, List.mem_cons, List.not_mem_nil, or_false] at hc
  rcases hc with rfl | rfl | rfl
  · trivial
  · exact rfl
  · exact rfl

/-- **A failed query poisons the cache**: the next call, with both queries in
order, denies an index the catalog has, and without the cache it finds it. -/
theorem failed_query_denies_index :
    let _ := asciiData
    let failing : IndexCall := .hasIndex true none "person".toList "idx".toList ⟨true, false⟩
    let next : IndexCall := .hasIndex true none "person".toList "idx".toList ⟨false, false⟩
    let uncached : IndexCall := .hasIndex false none "person".toList "idx".toList ⟨false, false⟩
    let s := (indexMachine sampleCatalog).run emptyCache [failing]
    (indexMachine sampleCatalog).answer s next = .ok (.found false) ∧
      (indexMachine sampleCatalog).answer s uncached = .ok (.found true) ∧
      HasPlainIndex sampleCatalog "person".toList "idx".toList ∧
      ¬ Right sampleCatalog next ((indexMachine sampleCatalog).answer s next) := by
  intro _ failing next uncached s
  have hnext : (indexMachine sampleCatalog).answer s next = .ok (.found false) := by decide
  have hidx : HasPlainIndex sampleCatalog "person".toList "idx".toList := by
    rw [HasPlainIndex]
    decide
  refine ⟨hnext, by decide, hidx, ?_⟩
  rw [hnext]
  exact fun hright => Bool.false_ne_true (hright.mpr hidx)

end SqlalchemyCubrid.Dialect
