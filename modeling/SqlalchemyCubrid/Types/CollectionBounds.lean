import SqlalchemyCubrid.Types.CollectionBytes

/-!
# Payloads that lie

The count of a payload and the sizes of its elements may be anything.
`slices` follows the loop of the parser and keeps, for each turn, where the size
byte is and how many bytes behind it are decoded.

* `checkedReadElements_eq`: with `IndexError` in the model, none is raised.
* `results_readElements_slices`, `pairwise_slices`, `sum_slices_le`: the strings are
  those of the slices, the slices follow one another, and all of them together fit
  into the bytes that are left.
* `decoder_bounded` is the result for a whole payload.
-/

namespace SqlalchemyCubrid.Types

open Lib Python

/-! ### Slices -/

/-- A size byte, and how many of the bytes behind it are decoded. -/
structure Slice where
  sizeAt : Nat
  length : Nat
  deriving DecidableEq, Repr

namespace Slice

def stop (x : Slice) : Nat := x.sizeAt + 1 + x.length

def bytes (data : List UInt8) (x : Slice) : List UInt8 :=
  (data.drop (x.sizeAt + 1)).take x.length

end Slice

/-- What the loop decodes at an offset. -/
def sliceAt (data : List UInt8) (offset : Nat) : Slice where
  sizeAt := offset
  length := min ((data.getD offset 0).toNat - 1) (data.length - (offset + 1))

/-- The slices the loop decodes, with so many turns to go. -/
def slices (data : List UInt8) : Nat → Cursor → List Slice
  | 0, _ => []
  | n + 1, s =>
    if s.offset ≥ data.length then []
    else sliceAt data s.offset :: slices data n (readElement data (n = 0) s)

/-! ### One turn -/

theorem stop_sliceAt_le {data : List UInt8} {offset : Nat} (h : offset < data.length) :
    (sliceAt data offset).stop ≤ data.length := by
  have hmin : (sliceAt data offset).length ≤ data.length - (offset + 1) := Nat.min_le_right _ _
  show offset + 1 + (sliceAt data offset).length ≤ data.length
  omega

theorem results_readElement_sliceAt (data : List UInt8) (isLast : Bool) (s : Cursor) :
    (readElement data isLast s).results
      = s.results ++ [decodeUtf8 ((sliceAt data s.offset).bytes data)] := by
  unfold readElement sliceAt Slice.bytes
  by_cases hsize : (data.getD s.offset 0).toNat > 1
  · simp only [if_pos hsize]
  · have hnone : (data.getD s.offset 0).toNat - 1 = 0 := by omega
    simp only [if_neg hsize, hnone, Nat.zero_min, List.take_zero]
    rfl

/-- **The offset never goes back into a slice.** -/
theorem stop_sliceAt_le_offset (data : List UInt8) (isLast : Bool) (s : Cursor) :
    (sliceAt data s.offset).stop ≤ (readElement data isLast s).offset := by
  have hread : min ((data.getD s.offset 0).toNat - 1) (data.length - (s.offset + 1))
      ≤ min (data.getD s.offset 0).toNat (data.length - (s.offset + 1)) :=
    min_le_min_right _ (Nat.sub_le _ _)
  have hskip : s.offset + 1 + min (data.getD s.offset 0).toNat (data.length - (s.offset + 1))
      ≤ (readElement data isLast s).offset := by
    unfold readElement
    cases isLast with
    | true => exact Nat.le_refl _
    | false => exact Nat.le_add_right _ 3
  exact (Nat.add_le_add_left hread _).trans hskip

/-! ### All turns -/

section Run

variable (data : List UInt8)

theorem results_readElements_slices (n : Nat) (s : Cursor) :
    (readElements data n s).results
      = s.results ++ (slices data n s).map fun x => decodeUtf8 (x.bytes data) := by
  induction n generalizing s with
  | zero => exact (List.append_nil _).symm
  | succ n ih =>
    rw [readElements, slices]
    by_cases h : s.offset ≥ data.length
    · rw [if_pos h, if_pos h, List.map_nil, List.append_nil]
    · rw [if_neg h, if_neg h, ih, results_readElement_sliceAt, List.append_assoc, List.map_cons]
      rfl

theorem length_slices_le (n : Nat) (s : Cursor) : (slices data n s).length ≤ n := by
  induction n generalizing s with
  | zero => exact Nat.zero_le _
  | succ n ih =>
    rw [slices]
    split
    · exact Nat.zero_le _
    · exact Nat.succ_le_succ (ih _)

/-- Every slice is one that the loop decodes at its offset, and within the data. -/
theorem within_slices (n : Nat) (s : Cursor) :
    ∀ x ∈ slices data n s, s.offset ≤ x.sizeAt ∧ x.stop ≤ data.length ∧
      x = sliceAt data x.sizeAt := by
  induction n generalizing s with
  | zero => exact List.forall_mem_nil _
  | succ n ih =>
    rw [slices]
    by_cases h : s.offset ≥ data.length
    · rw [if_pos h]
      exact List.forall_mem_nil _
    · rw [if_neg h, List.forall_mem_cons]
      have hstop : s.offset ≤ (sliceAt data s.offset).stop := by
        show s.offset ≤ s.offset + 1 + _
        omega
      refine ⟨⟨Nat.le_refl _, stop_sliceAt_le (Nat.lt_of_not_le h), rfl⟩, ?_⟩
      intro x hx
      obtain ⟨hle, hrest⟩ := ih _ x hx
      exact ⟨hstop.trans ((stop_sliceAt_le_offset data _ s).trans hle), hrest⟩

/-- The slices do not overlap, and come one after another. -/
theorem pairwise_slices (n : Nat) (s : Cursor) :
    (slices data n s).Pairwise fun x y => x.stop ≤ y.sizeAt := by
  induction n generalizing s with
  | zero => exact List.Pairwise.nil
  | succ n ih =>
    rw [slices]
    by_cases h : s.offset ≥ data.length
    · rw [if_pos h]
      exact List.Pairwise.nil
    · rw [if_neg h, List.pairwise_cons]
      refine ⟨?_, ih _⟩
      intro x hx
      exact (stop_sliceAt_le_offset data _ s).trans (within_slices data n _ x hx).1

/-- **All slices with their size bytes fit into what is left.** -/
theorem sum_slices_le (n : Nat) (s : Cursor) :
    (slices data n s).length + ((slices data n s).map Slice.length).sum
      ≤ data.length - s.offset := by
  induction n generalizing s with
  | zero => exact Nat.zero_le _
  | succ n ih =>
    rw [slices]
    by_cases h : s.offset ≥ data.length
    · rw [if_pos h]
      exact Nat.zero_le _
    · rw [if_neg h, List.length_cons, List.map_cons, List.sum_cons]
      have hrest := ih (readElement data (n = 0) s)
      have hoffset : s.offset + 1 + (sliceAt data s.offset).length
          ≤ (readElement data (n = 0) s).offset := stop_sliceAt_le_offset data _ s
      have hstop : s.offset + 1 + (sliceAt data s.offset).length ≤ data.length :=
        stop_sliceAt_le (Nat.lt_of_not_le h)
      omega

/-! ### Indexing -/

/-- One turn, where `data[offset]` may raise an `IndexError`. -/
def checkedReadElement (isLast : Bool) (s : Cursor) : Except PyError Cursor :=
  match data[s.offset]? with
  | none => .error .other
  | some _ => .ok (readElement data isLast s)

/-- The loop of such turns. -/
def checkedReadElements : Nat → Cursor → Except PyError Cursor
  | 0, s => .ok s
  | n + 1, s =>
    if s.offset ≥ data.length then .ok s
    else do checkedReadElements n (← checkedReadElement data (n = 0) s)

/-- **The loop never indexes outside the data.** -/
theorem checkedReadElements_eq (n : Nat) (s : Cursor) :
    checkedReadElements data n s = .ok (readElements data n s) := by
  induction n generalizing s with
  | zero => rfl
  | succ n ih =>
    rw [checkedReadElements, readElements]
    by_cases h : s.offset ≥ data.length
    · rw [if_pos h, if_pos h]
    · have hturn : checkedReadElement data (n = 0) s = .ok (readElement data (n = 0) s) := by
        rw [checkedReadElement, List.getElem?_eq_getElem (Nat.lt_of_not_le h)]
      rw [if_neg h, if_neg h, hturn]
      exact ih _

end Run

/-- The word behind the first four bytes, which claims a count. -/
def countWord (data : List UInt8) : Nat := ofLittleEndian ((data.drop 4).take 4)

/-- The slices of a whole payload. -/
def decodedSlices (data : List UInt8) : List Slice := slices data (countWord data) ⟨8, []⟩

/-- **The decoder is bounded by its input.**  Whatever the count and the sizes are,
the loop stays within the data, and what it decodes are slices behind their size
bytes that follow one another. -/
theorem decoder_bounded (data : List UInt8) (hlen : 8 ≤ data.length) :
    checkedReadElements data (countWord data) ⟨8, []⟩
        = .ok (readElements data (countWord data) ⟨8, []⟩) ∧
      parseData data = some ((decodedSlices data).map fun x => decodeUtf8 (x.bytes data)) ∧
      (∀ x ∈ decodedSlices data,
        8 ≤ x.sizeAt ∧ x.stop ≤ data.length ∧ x = sliceAt data x.sizeAt) ∧
      (decodedSlices data).Pairwise (fun x y => x.stop ≤ y.sizeAt) ∧
      (decodedSlices data).length + ((decodedSlices data).map Slice.length).sum
        ≤ data.length - 8 ∧
      (decodedSlices data).length ≤ countWord data := by
  have hparse : parseData data
      = some ((decodedSlices data).map fun x => decodeUtf8 (x.bytes data)) := by
    rw [parseData, if_neg (Nat.not_lt_of_le hlen)]
    exact congrArg some (results_readElements_slices data (countWord data) ⟨8, []⟩)
  exact ⟨checkedReadElements_eq data _ _, hparse, within_slices data _ _,
    pairwise_slices data _ _, sum_slices_le data _ _, length_slices_le data _ _⟩

/-- The largest count, over a size of nine and two bytes. -/
theorem decoder_bounded_hostile :
    let data : List UInt8 := [0, 0, 0, 0, 255, 255, 255, 255, 9, 97, 98]
    checkedReadElements data (countWord data) ⟨8, []⟩
        = .ok (readElements data (countWord data) ⟨8, []⟩) ∧
      parseData data = some ((decodedSlices data).map fun x => decodeUtf8 (x.bytes data)) ∧
      (∀ x ∈ decodedSlices data,
        8 ≤ x.sizeAt ∧ x.stop ≤ data.length ∧ x = sliceAt data x.sizeAt) ∧
      (decodedSlices data).Pairwise (fun x y => x.stop ≤ y.sizeAt) ∧
      (decodedSlices data).length + ((decodedSlices data).map Slice.length).sum
        ≤ data.length - 8 ∧
      (decodedSlices data).length ≤ countWord data :=
  decoder_bounded _ (by decide)

end SqlalchemyCubrid.Types
