import SqlalchemyCubrid.Lib.Bytes
import SqlalchemyCubrid.Python.Exception
import SqlalchemyCubrid.Types.SqlType
import Mathlib.Data.Finset.Dedup

/-!
# Collection payloads

A fetched collection is a run of bytes: four for the type, a count, and the
elements one after another.  `parseCollectionBytes` walks it with an offset, and
the result processors make a set or a list of what it finds.

`encodeCollection` is the format.  `Cursor` is where the loop stands:
`readElement_encodeElement` moves it over one element, `readElements_encodeElements`
over all of them, and `collection_payload_round_trip` is the result.
-/

namespace SqlalchemyCubrid.Types

open Lib Python

/-! ### The parser -/

/-- A value out of the driver.  The elements of a Python collection, in the order
of iteration, are seen through `str` only. -/
inductive RawValue (α : Type) where
  /-- `None` -/
  | null
  | str (s : Str)
  | bytes (data : List UInt8)
  | bytearray (data : List UInt8)
  | set (items : List α)
  | list (items : List α)
  /-- any other value with an iterator -/
  | iterable (items : List α)
  /-- any other value without one -/
  | scalar

/-- `offset` and `results` of the loop. -/
structure Cursor where
  offset : Nat
  results : List Str
  deriving DecidableEq, Repr

/-- One turn of the loop. -/
def readElement (data : List UInt8) (isLast : Bool) (s : Cursor) : Cursor :=
  let size := (data.getD s.offset 0).toNat
  let offset := s.offset + 1
  -- the last element may lack its NUL
  let available := data.length - offset
  let val :=
    if size > 1 then
      let readLen := min (size - 1) available
      decodeUtf8 ((data.drop offset).take readLen)
    else
      []
  let offset := offset + min size available
  let offset := if !isLast then offset + 3 else offset
  ⟨offset, s.results ++ [val]⟩

/-- The loop with so many turns to go; the turn with none after it is the last. -/
def readElements (data : List UInt8) : Nat → Cursor → Cursor
  | 0, s => s
  | n + 1, s =>
    if s.offset ≥ data.length then s
    else readElements data n (readElement data (n = 0) s)

def parseData (data : List UInt8) : Option (List Str) :=
  if data.length < 8 then
    none
  else
    let count := ofLittleEndian ((data.drop 4).take 4)
    some (readElements data count ⟨8, []⟩).results

section Processors

variable {α : Type}

/-- `_parse_collection_bytes` -/
def parseCollectionBytes (raw : RawValue α) : Except PyError (Option (List Str)) :=
  match raw with
  | .str s =>
    match encodeLatin1 s with
    | some data => .ok (parseData data)
    -- a `UnicodeEncodeError`
    | none => .error .other
  | .bytes data => .ok (parseData data)
  | _ => .ok none

/-! ### The result processors -/

inductive Processed (α : Type) where
  /-- the value as it came -/
  | same (value : RawValue α)
  | set (elements : Finset Str)
  | list (elements : List Str)

variable (str : α → Str)

/-- `str(v) for v in value` -/
def strings : RawValue α → Except PyError (List Str)
  | .set items => .ok (items.map str)
  | .list items => .ok (items.map str)
  | .iterable items => .ok (items.map str)
  | .str s => .ok (s.map fun c => [c])
  | .bytes data => .ok (data.map fun b => formatInt b.toNat)
  | .bytearray data => .ok (data.map fun b => formatInt b.toNat)
  -- a `TypeError`
  | .null => .error .other
  | .scalar => .error .other

def RawValue.isBytes : RawValue α → Bool
  | .bytes _ => true
  | .bytearray _ => true
  | _ => false

/-- What a processor makes of a value that is neither `None` nor the collection
already. -/
def processParsed (value : RawValue α) : Except PyError (List Str) := do
  match ← parseCollectionBytes value with
  | some parsed => return parsed
  | none => if value.isBytes then return [] else strings str value

/-- `CubridSet.result_processor` -/
def processSet : RawValue α → Except PyError (Processed α)
  | .null => .ok (.same .null)
  | .set items => .ok (.same (.set items))
  | value => return .set (← processParsed str value).toFinset

/-- The processor `CubridMultiset` and `CubridList` have a copy of each. -/
def processSequence : RawValue α → Except PyError (Processed α)
  | .null => .ok (.same .null)
  | .list items => .ok (.same (.list items))
  | value => return .list (← processParsed str value)

def resultProcessor : CollectionKind → RawValue α → Except PyError (Processed α)
  | .set => processSet str
  | .multiset => processSequence str
  | .list => processSequence str

end Processors

/-! ### The format -/

/-- The size, with one for the NUL, the text, and the NUL. -/
def encodeElement (nul : Bool) (x : Str) : List UInt8 :=
  UInt8.ofNat ((encodeUtf8 x).length + 1) :: encodeUtf8 x ++ if nul then [0] else []

/-- The elements, three bytes of padding between them. -/
def encodeElements (finalNul : Bool) : (Nat → Vector UInt8 3) → List Str → List UInt8
  | _, [] => []
  | _, [x] => encodeElement finalNul x
  | pad, x :: y :: xs =>
    encodeElement true x ++ (pad 0).toList
      ++ encodeElements finalNul (fun i => pad (i + 1)) (y :: xs)

def encodeCollection (typeWord : Vector UInt8 4) (pad : Nat → Vector UInt8 3) (finalNul : Bool)
    (xs : List Str) : List UInt8 :=
  typeWord.toList ++ littleEndian 4 xs.length ++ encodeElements finalNul pad xs

/-- A string the size byte has room for. -/
def Fits (x : Str) : Prop := (encodeUtf8 x).length ≤ 254

instance : DecidablePred Fits := fun x => inferInstanceAs (Decidable ((encodeUtf8 x).length ≤ 254))

theorem fits_iff {x : Str} : Fits x ↔ (encodeUtf8 x).length + 1 < 256 := by
  rw [Fits]
  omega

theorem Fits.toNat_size {x : Str} (hx : Fits x) :
    (UInt8.ofNat ((encodeUtf8 x).length + 1)).toNat = (encodeUtf8 x).length + 1 :=
  UInt8.toNat_ofNat_of_lt' (fits_iff.mp hx)

/-! ### Reading the format -/

theorem eq_nil_of_encodeUtf8 {x : Str} (h : encodeUtf8 x = []) : x = [] := by
  rw [← decodeUtf8_encodeUtf8 x, h]
  rfl

theorem drop_encodeElement (pre rest : List UInt8) (nul : Bool) (x : Str) :
    (pre ++ encodeElement nul x ++ rest).drop (pre.length + 1)
      = encodeUtf8 x ++ ((if nul then [0] else []) ++ rest) := by
  rw [List.append_assoc, List.drop_length_add_append, encodeElement]
  show encodeUtf8 x ++ _ ++ rest = _
  rw [List.append_assoc]

theorem size_encodeElement (pre rest : List UInt8) (nul : Bool) {x : Str} (hx : Fits x) :
    ((pre ++ encodeElement nul x ++ rest).getD pre.length 0).toNat
      = (encodeUtf8 x).length + 1 := by
  rw [List.append_assoc, List.getD_eq_getElem?_getD, List.getElem?_append_right le_rfl,
    Nat.sub_self]
  exact hx.toNat_size

theorem available_encodeElement (pre rest : List UInt8) (nul : Bool) (x : Str) :
    (pre ++ encodeElement nul x ++ rest).length - (pre.length + 1)
      = (encodeUtf8 x).length + (if nul then [(0 : UInt8)] else []).length + rest.length := by
  rw [← List.length_drop, drop_encodeElement, List.length_append, List.length_append,
    Nat.add_assoc]

/-- **The loop reads an element it stands at.** -/
theorem results_readElement (pre rest : List UInt8) (nul isLast : Bool) {x : Str} (hx : Fits x)
    (results : List Str) :
    (readElement (pre ++ encodeElement nul x ++ rest) isLast ⟨pre.length, results⟩).results
      = results ++ [x] := by
  unfold readElement
  simp only [size_encodeElement pre rest nul hx, drop_encodeElement, available_encodeElement]
  congr 2
  by_cases hlen : (encodeUtf8 x).length + 1 > 1
  · have hread : min ((encodeUtf8 x).length + 1 - 1) ((encodeUtf8 x).length
        + (if nul then [(0 : UInt8)] else []).length + rest.length) = (encodeUtf8 x).length := by
      omega
    rw [if_pos hlen, hread, List.take_left, decodeUtf8_encodeUtf8]
  · have hnil : encodeUtf8 x = [] := List.eq_nil_of_length_eq_zero (by omega)
    rw [if_neg hlen, eq_nil_of_encodeUtf8 hnil]

/-- **With its NUL and another element to come, the loop stops behind the
padding.** -/
theorem offset_readElement (pre rest : List UInt8) {x : Str} (hx : Fits x) (results : List Str) :
    (readElement (pre ++ encodeElement true x ++ rest) false ⟨pre.length, results⟩).offset
      = (pre ++ encodeElement true x).length + 3 := by
  unfold readElement
  simp only [size_encodeElement pre rest true hx, available_encodeElement]
  have hlen : (pre ++ encodeElement true x).length = pre.length + ((encodeUtf8 x).length + 2) := by
    rw [List.length_append, encodeElement]
    simp
  rw [hlen]
  simp only [if_true, List.length_singleton, Bool.not_false]
  omega

/-- **The loop reads all the elements in front of it.** -/
theorem results_readElements (finalNul : Bool) {xs : List Str} (hxs : ∀ x ∈ xs, Fits x)
    (pad : Nat → Vector UInt8 3) (pre : List UInt8) (results : List Str) :
    (readElements (pre ++ encodeElements finalNul pad xs) xs.length ⟨pre.length, results⟩).results
      = results ++ xs := by
  have hstart (pre post : List UInt8) (nul : Bool) (x : Str) :
      ¬ pre.length ≥ (pre ++ encodeElement nul x ++ post).length := by
    rw [List.length_append, List.length_append, encodeElement, List.length_append,
      List.length_cons]
    omega
  induction xs generalizing pad pre results with
  | nil => rw [List.append_nil]; rfl
  | cons x xs ih =>
    have hx : Fits x := hxs x List.mem_cons_self
    cases xs with
    | nil =>
      have hread := results_readElement pre [] finalNul true hx results
      have hoff := hstart pre [] finalNul x
      rw [List.append_nil] at hread hoff
      rw [encodeElements, List.length_singleton, readElements, if_neg hoff]
      exact hread
    | cons y ys =>
      have hrest : ∀ z ∈ y :: ys, Fits z := fun z hz => hxs z (List.mem_cons_of_mem _ hz)
      let post := (pad 0).toList ++ encodeElements finalNul (fun i => pad (i + 1)) (y :: ys)
      let next := pre ++ encodeElement true x ++ (pad 0).toList
      have hdata : pre ++ encodeElements finalNul pad (x :: y :: ys)
          = pre ++ encodeElement true x ++ post := by
        rw [encodeElements, List.append_assoc, List.append_assoc]
      have hnext : pre ++ encodeElement true x ++ post
          = next ++ encodeElements finalNul (fun i => pad (i + 1)) (y :: ys) :=
        (List.append_assoc _ _ _).symm
      have hcursor : readElement (pre ++ encodeElement true x ++ post) false ⟨pre.length, results⟩
          = ⟨next.length, results ++ [x]⟩ := by
        have hoffset := offset_readElement pre post hx results
        have hresults := results_readElement pre post true false hx results
        have hlen : next.length = (pre ++ encodeElement true x).length + 3 := by
          rw [List.length_append, Vector.length_toList]
        rw [← hlen] at hoffset
        rw [← hoffset, ← hresults]
      rw [hdata, List.length_cons, readElements, if_neg (hstart pre post true x)]
      have hlast : decide ((y :: ys).length = 0) = false := rfl
      rw [hlast, hcursor, hnext, ih hrest, List.append_assoc]
      rfl

/-- **`_parse_collection_bytes` reads the format.** -/
theorem parseData_encodeCollection (typeWord : Vector UInt8 4) (pad : Nat → Vector UInt8 3)
    (finalNul : Bool) {xs : List Str} (hcount : xs.length < 2 ^ 32) (hxs : ∀ x ∈ xs, Fits x) :
    parseData (encodeCollection typeWord pad finalNul xs) = some xs := by
  let header := typeWord.toList ++ littleEndian 4 xs.length
  have hheader : header.length = 8 := by
    rw [List.length_append, Vector.length_toList, length_littleEndian]
  have hdata : encodeCollection typeWord pad finalNul xs
      = header ++ encodeElements finalNul pad xs := rfl
  have hlen : ¬ (encodeCollection typeWord pad finalNul xs).length < 8 := by
    rw [hdata, List.length_append, hheader]
    omega
  have hcountBytes : ((encodeCollection typeWord pad finalNul xs).drop 4).take 4
      = littleEndian 4 xs.length := by
    rw [encodeCollection, List.append_assoc,
      List.drop_left' (Vector.length_toList), List.take_left' (length_littleEndian _ _)]
  rw [parseData, if_neg hlen, hcountBytes, ofLittleEndian_littleEndian hcount, hdata, ← hheader]
  exact congrArg some (results_readElements finalNul hxs pad header [])

example :
    parseData [0, 0, 0, 0, 2, 0, 0, 0, 2, 97, 0, 9, 9, 9, 3, 0xC3, 0xA9]
      = some ["a".toList, "é".toList] := by
  decide

/-! ### The round trip -/

section RoundTrip

variable {α : Type}

/-- A value that carries bytes: in its own, or as the characters they are in
Latin-1. -/
inductive Carries (data : List UInt8) : RawValue α → Prop where
  | bytes : Carries data (.bytes data)
  | str : Carries data (.str (decodeLatin1 data))

theorem parseCollectionBytes_of_carries {raw : RawValue α} {data : List UInt8}
    (h : Carries data raw) : parseCollectionBytes raw = .ok (parseData data) := by
  cases h with
  | bytes => rfl
  | str => rw [parseCollectionBytes, encodeLatin1_decodeLatin1]

theorem processParsed_of_parsed (str : α → Str) {raw : RawValue α} {xs : List Str}
    (h : parseCollectionBytes raw = .ok (some xs)) : processParsed str raw = .ok xs := by
  rw [processParsed, h]
  rfl

/-- **The processors, on a value that carries bytes.** -/
theorem process_of_carries (str : α → Str) {raw : RawValue α} {data : List UInt8} {xs : List Str}
    (hraw : Carries data raw) (h : parseData data = some xs) :
    processSet str raw = .ok (.set xs.toFinset) ∧ processSequence str raw = .ok (.list xs) := by
  have hparsed : processParsed str raw = .ok xs :=
    processParsed_of_parsed str (by rw [parseCollectionBytes_of_carries hraw, h])
  cases hraw with
  | bytes =>
    refine ⟨?_, ?_⟩
    · show (do return Processed.set (← processParsed str (.bytes data)).toFinset) = _
      rw [hparsed]
      rfl
    · show (do return Processed.list (← processParsed str (.bytes data))) = _
      rw [hparsed]
      rfl
  | str =>
    refine ⟨?_, ?_⟩
    · show (do return Processed.set (← processParsed str (.str (decodeLatin1 data))).toFinset) = _
      rw [hparsed]
      rfl
    · show (do return Processed.list (← processParsed str (.str (decodeLatin1 data)))) = _
      rw [hparsed]
      rfl

/-- **Round trip.**  A payload is read back as the strings it was made of. -/
theorem collection_payload_round_trip (str : α → Str) (typeWord : Vector UInt8 4)
    (pad : Nat → Vector UInt8 3) (finalNul : Bool) (xs : List Str) (hcount : xs.length < 2 ^ 32)
    (hxs : ∀ x ∈ xs, Fits x) (raw : RawValue α)
    (hraw : Carries (encodeCollection typeWord pad finalNul xs) raw) :
    parseCollectionBytes raw = .ok (some xs) ∧
      resultProcessor str .list raw = .ok (.list xs) ∧
      resultProcessor str .multiset raw = .ok (.list xs) ∧
      resultProcessor str .set raw = .ok (.set xs.toFinset) := by
  have hdata := parseData_encodeCollection typeWord pad finalNul hcount hxs
  have hparse : parseCollectionBytes raw = .ok (some xs) := by
    rw [parseCollectionBytes_of_carries hraw, hdata]
  obtain ⟨hset, hsequence⟩ := process_of_carries str hraw hdata
  exact ⟨hparse, hsequence, hsequence, hset⟩

/-- `['a', '', 'é', 'a']`, the last without its NUL. -/
theorem collection_payload_round_trip_words :
    let xs : List Str := ["a".toList, [], "é".toList, "a".toList]
    let raw : RawValue Str :=
      .bytes (encodeCollection #v[0, 0, 0, 0] (fun _ => #v[1, 2, 3]) false xs)
    parseCollectionBytes raw = .ok (some xs) ∧
      resultProcessor id .list raw = .ok (.list xs) ∧
      resultProcessor id .multiset raw = .ok (.list xs) ∧
      resultProcessor id .set raw = .ok (.set xs.toFinset) := by
  intro xs raw
  exact collection_payload_round_trip id #v[0, 0, 0, 0] (fun _ => #v[1, 2, 3]) false xs
    (by decide) (by decide) raw .bytes

end RoundTrip

end SqlalchemyCubrid.Types
