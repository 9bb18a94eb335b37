import SqlalchemyCubrid.Types.CollectionScan
import Mathlib.Data.Finset.Insert

/-!
# The container of a payload

The same bytes can come as `bytes`, as `bytearray` or as a `str` of Latin-1
characters.  The parser knows the first and the last; what it cannot read falls to
the processor, which makes an empty collection of bytes of both kinds and the single
characters of a `str`.

`resultProcessor_eq` puts the three processors in one form, and
`containers_agree_iff` says for which bytes the container makes no difference.
-/

namespace SqlalchemyCubrid.Types

open Lib Python

variable {α : Type}

/-! ### The processors in one form -/

/-- The collection of a kind. -/
def collectionOf (kind : CollectionKind) (xs : List Str) : Processed α :=
  match kind with
  | .set => .set xs.toFinset
  | .multiset => .list xs
  | .list => .list xs

/-- A value that only the parser or `str` can make a collection of. -/
def RawValue.isRaw : RawValue α → Bool
  | .str _ => true
  | .bytes _ => true
  | .bytearray _ => true
  | _ => false

theorem resultProcessor_eq (str : α → Str) (kind : CollectionKind) {raw : RawValue α}
    (h : raw.isRaw = true) :
    resultProcessor str kind raw = (processParsed str raw).map (collectionOf kind) := by
  cases raw with
  | str s => cases kind <;> rfl
  | bytes data => cases kind <;> rfl
  | bytearray data => cases kind <;> rfl
  | null => cases h
  | set items => cases h
  | list items => cases h
  | iterable items => cases h
  | scalar => cases h

theorem collectionOf_eq_nil_iff (kind : CollectionKind) (xs : List Str) :
    (collectionOf kind xs : Processed α) = collectionOf kind [] ↔ xs = [] := by
  cases kind with
  | set =>
    rw [collectionOf, collectionOf, Processed.set.injEq, List.toFinset_nil,
      List.toFinset_eq_empty_iff]
  | multiset => rw [collectionOf, collectionOf, Processed.list.injEq]
  | list => rw [collectionOf, collectionOf, Processed.list.injEq]

/-! ### What each container is read as -/

section Containers

variable (str : α → Str)

theorem processParsed_bytes (data : List UInt8) :
    processParsed str (.bytes data) = .ok ((parseData data).getD []) := by
  rw [processParsed, parseCollectionBytes]
  cases parseData data <;> rfl

/-- The parser does not know a `bytearray`. -/
theorem processParsed_bytearray (data : List UInt8) :
    processParsed str (.bytearray data) = .ok [] := rfl

theorem processParsed_latin1 (data : List UInt8) :
    processParsed str (.str (decodeLatin1 data))
      = .ok ((parseData data).getD ((decodeLatin1 data).map fun c => [c])) := by
  rw [processParsed, parseCollectionBytes_of_carries .str]
  cases parseData data <;> rfl

theorem encodeLatin1_eq_none {s : Str} (h : ∃ c ∈ s, 0xFF < c.toNat) : encodeLatin1 s = none := by
  obtain ⟨c, hc, hwide⟩ := h
  rw [encodeLatin1, if_neg]
  intro hall
  have hbyte := List.all_eq_true.mp hall c hc
  rw [decide_eq_true_eq] at hbyte
  omega

theorem processParsed_wide {s : Str} (h : ∃ c ∈ s, 0xFF < c.toNat) :
    processParsed str (.str s) = .error .other := by
  rw [processParsed, parseCollectionBytes, encodeLatin1_eq_none h]
  rfl

end Containers

/-! ### Where the container makes no difference -/

theorem scanElements_eq_nil_iff (n : Nat) (bs : List UInt8) :
    scanElements n bs = [] ↔ n = 0 ∨ bs = [] := by
  cases n with
  | zero => exact iff_of_true rfl (Or.inl rfl)
  | succ n =>
    cases bs with
    | nil => exact iff_of_true rfl (Or.inr rfl)
    | cons b bs =>
      apply iff_of_false (List.cons_ne_nil _ _)
      intro h
      cases h with
      | inl h => exact Nat.succ_ne_zero n h
      | inr h => exact List.cons_ne_nil b bs h

/-- **The containers agree on what has no elements, and only on that.**  A `str` with
other characters than those of Latin-1 gives no collection at all. -/
theorem containers_agree_iff (str : α → Str) (kind : CollectionKind) :
    (∀ data : List UInt8,
      (resultProcessor str kind (.bytearray data) = resultProcessor str kind (.bytes data) ∧
          resultProcessor str kind (.str (decodeLatin1 data))
            = resultProcessor str kind (.bytes data)) ↔
        data = [] ∨ 8 ≤ data.length ∧
          (ofLittleEndian ((data.drop 4).take 4) = 0 ∨ data.length = 8)) ∧
      ∀ s : Str, (∃ c ∈ s, 0xFF < c.toNat) →
        ¬ ∃ value, resultProcessor str kind (.str s) = .ok value := by
  refine ⟨?_, ?_⟩
  · intro data
    rw [resultProcessor_eq str kind rfl, resultProcessor_eq str kind rfl,
      resultProcessor_eq str kind rfl, processParsed_bytes, processParsed_bytearray,
      processParsed_latin1]
    simp only [Except.map, Except.ok.injEq]
    rw [eq_comm, collectionOf_eq_nil_iff, parseData_eq]
    by_cases hlen : data.length < 8
    · -- nothing is parsed: the characters of the `str` are the collection
      rw [if_pos hlen, Option.getD_none, Option.getD_none, collectionOf_eq_nil_iff,
        List.map_eq_nil_iff, decodeLatin1, List.map_eq_nil_iff]
      apply Iff.intro
      · intro h
        exact Or.inl h.2
      · intro h
        cases h with
        | inl h => exact ⟨rfl, h⟩
        | inr h => exact absurd hlen (Nat.not_lt_of_le h.1)
    · have hne : data ≠ [] := by
        intro h
        rw [h] at hlen
        exact hlen (by decide)
      have hempty : data.drop 8 = [] ↔ data.length = 8 := by
        rw [List.drop_eq_nil_iff]
        omega
      rw [if_neg hlen, Option.getD_some, Option.getD_some, scanElements_eq_nil_iff, hempty]
      apply Iff.intro
      · intro h
        exact Or.inr ⟨Nat.le_of_not_lt hlen, h.1⟩
      · intro h
        cases h with
        | inl h => exact absurd h hne
        | inr h => exact ⟨h.2, rfl⟩
  · intro s hs h
    obtain ⟨value, hvalue⟩ := h
    rw [resultProcessor_eq str kind rfl, processParsed_wide str hs] at hvalue
    cases hvalue

/-- One element `a` as a `bytearray`, two bytes as a `str`, and the character after
the last of Latin-1. -/
theorem containers_differ :
    let data : List UInt8 := [0, 0, 0, 0, 1, 0, 0, 0, 2, 97, 0]
    resultProcessor id .list (.bytes data) = .ok (.list ["a".toList] : Processed Str) ∧
      resultProcessor id .list (.bytearray data) = .ok (.list [] : Processed Str) ∧
      resultProcessor id .list (.bytes [97, 98]) = .ok (.list [] : Processed Str) ∧
      resultProcessor id .list (.str (decodeLatin1 [97, 98]))
        = .ok (.list ["a".toList, "b".toList] : Processed Str) ∧
      resultProcessor id .list (.str [Char.ofNat 0x100] : RawValue Str) = .error .other :=
  ⟨rfl, rfl, rfl, rfl, rfl⟩

end SqlalchemyCubrid.Types
