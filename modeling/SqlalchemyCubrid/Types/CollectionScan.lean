import SqlalchemyCubrid.Types.CollectionBytes

/-!
# Payloads that are cut

`scanElements` is the loop of the parser on the bytes still to be read, with no
offset (`results_readElements_eq`).

A payload cut short is read element by element as long as there is a size byte.
An element whose text is not complete is reported all the same: `CutsText` says
that the cut falls into a text, and `truncated_prefix_iff` that exactly then the
strings of the payload are not what is returned.
-/

namespace SqlalchemyCubrid.Types

open Lib Python

/-! ### The loop on the bytes to be read -/

/-- The string of an element: its size, and the bytes behind the size. -/
def elementText (size : Nat) (bs : List UInt8) : Str :=
  if size > 1 then decodeUtf8 (bs.take (size - 1)) else []

/-- The loop, with so many turns to go. -/
def scanElements : Nat → List UInt8 → List Str
  | 0, _ => []
  | _ + 1, [] => []
  | n + 1, b :: bs => elementText b.toNat bs :: scanElements n (bs.drop (b.toNat + 3))

theorem scanElements_nil (n : Nat) : scanElements n [] = [] := by
  cases n <;> rfl

theorem length_scanElements_le (n : Nat) (bs : List UInt8) : (scanElements n bs).length ≤ n := by
  induction n generalizing bs with
  | zero => exact Nat.zero_le _
  | succ n ih =>
    cases bs with
    | nil => exact Nat.zero_le _
    | cons b bs => exact Nat.succ_le_succ (ih _)

/-- One turn, at an offset with a size byte. -/
theorem readElement_eq {data : List UInt8} {b : UInt8} {bs : List UInt8} {s : Cursor}
    (h : data.drop s.offset = b :: bs) (isLast : Bool) :
    (readElement data isLast s).results = s.results ++ [elementText b.toNat bs] ∧
      (isLast = false →
        data.drop (readElement data isLast s).offset = bs.drop (b.toNat + 3)) := by
  have hget : data.getD s.offset 0 = b := by
    have hsome : (data.drop s.offset)[0]? = some b := by rw [h]; rfl
    rw [List.getElem?_drop, Nat.add_zero] at hsome
    rw [List.getD_eq_getElem?_getD, hsome]
    rfl
  have hdrop : data.drop (s.offset + 1) = bs := by
    rw [← List.drop_drop, h]
    rfl
  have havailable : data.length - (s.offset + 1) = bs.length := by
    rw [← List.length_drop, hdrop]
  have htake (k : Nat) : bs.take (min k bs.length) = bs.take k := by
    rw [← List.take_take, List.take_length]
  unfold readElement
  simp only [hget, hdrop, havailable, htake]
  refine ⟨rfl, ?_⟩
  intro hlast
  simp only [hlast, Bool.not_false, if_true]
  rw [Nat.add_assoc, ← List.drop_drop, hdrop]
  by_cases hsize : b.toNat ≤ bs.length
  · rw [Nat.min_eq_left hsize]
  · rw [Nat.min_eq_right (by omega), List.drop_of_length_le (by omega),
      List.drop_of_length_le (by omega)]

/-- **The loop reads what its offset points to.** -/
theorem results_readElements_eq (data : List UInt8) (n : Nat) (s : Cursor) :
    (readElements data n s).results = s.results ++ scanElements n (data.drop s.offset) := by
  induction n generalizing s with
  | zero => exact (List.append_nil _).symm
  | succ n ih =>
    rw [readElements]
    cases hd : data.drop s.offset with
    | nil =>
      have hoff : s.offset ≥ data.length := List.drop_eq_nil_iff.mp hd
      rw [if_pos hoff, scanElements, List.append_nil]
    | cons b bs =>
      have hoff : ¬ s.offset ≥ data.length := by
        rw [ge_iff_le, ← List.drop_eq_nil_iff, hd]
        exact List.cons_ne_nil b bs
      rw [if_neg hoff, ih]
      obtain ⟨hresults, hnext⟩ := readElement_eq hd (decide (n = 0))
      rw [hresults, List.append_assoc, scanElements]
      cases n with
      | zero => rfl
      | succ n => rw [hnext (by simp)]; rfl

theorem parseData_eq (data : List UInt8) :
    parseData data = if data.length < 8 then none
      else some (scanElements (ofLittleEndian ((data.drop 4).take 4)) (data.drop 8)) := by
  rw [parseData]
  by_cases h : data.length < 8
  · rw [if_pos h, if_pos h]
  · rw [if_neg h, if_neg h]
    exact congrArg some (results_readElements_eq data _ ⟨8, []⟩)

/-! ### Where a cut falls -/

/-- So many bytes of the elements end inside the text of one of them. -/
def CutsText : List Str → Nat → Prop
  | [], _ => False
  | x :: xs, m =>
    (1 ≤ m ∧ m < 1 + (encodeUtf8 x).length) ∨ CutsText xs (m - ((encodeUtf8 x).length + 5))

instance decidableCutsText : (xs : List Str) → (m : Nat) → Decidable (CutsText xs m)
  | [], _ => inferInstanceAs (Decidable False)
  | x :: xs, m =>
    have := decidableCutsText xs (m - ((encodeUtf8 x).length + 5))
    inferInstanceAs (Decidable ((1 ≤ m ∧ m < 1 + (encodeUtf8 x).length) ∨ _))

/-- How many elements are there, in so many bytes, with their size and all of
their text.  The NUL may be missing. -/
def present : List Str → Nat → Nat
  | [], _ => 0
  | x :: xs, m =>
    if 1 + (encodeUtf8 x).length ≤ m then present xs (m - ((encodeUtf8 x).length + 5)) + 1 else 0

example :
    CutsText ["ab".toList, "é".toList] 9 ∧ ¬ CutsText ["ab".toList, "é".toList] 10 ∧
      present ["ab".toList, "é".toList] 9 = 1 := by
  decide

theorem not_cutsText_zero (xs : List Str) : ¬ CutsText xs 0 := by
  induction xs with
  | nil => exact id
  | cons x xs ih =>
    intro h
    cases h with
    | inl h => exact absurd h.1 (by omega)
    | inr h =>
      rw [Nat.zero_sub] at h
      exact ih h

/-! ### Reading a payload that is cut -/

/-- The first element, and where the next one begins. -/
theorem encodeElements_cons (finalNul : Bool) (pad : Nat → Vector UInt8 3) (x : Str)
    (xs : List Str) :
    ∃ tail, encodeElements finalNul pad (x :: xs)
        = UInt8.ofNat ((encodeUtf8 x).length + 1) :: (encodeUtf8 x ++ tail) ∧
      tail.drop 4 = encodeElements finalNul (fun i => pad (i + 1)) xs := by
  cases xs with
  | nil =>
    refine ⟨if finalNul then [0] else [], rfl, ?_⟩
    cases finalNul <;> rfl
  | cons y ys =>
    refine ⟨0 :: ((pad 0).toList ++ encodeElements finalNul (fun i => pad (i + 1)) (y :: ys)), ?_,
      ?_⟩
    · rw [encodeElements, encodeElement]
      simp
    · rw [List.drop_succ_cons]
      exact List.drop_left' (Vector.length_toList)

/-- What is read of a text that is there or not. -/
theorem elementText_take {x : Str} (hx : Fits x) (tail : List UInt8) (m : Nat) :
    elementText (UInt8.ofNat ((encodeUtf8 x).length + 1)).toNat ((encodeUtf8 x ++ tail).take m)
      = if (encodeUtf8 x).length ≤ m then x else decodeUtf8 ((encodeUtf8 x).take m) := by
  rw [elementText, hx.toNat_size, Nat.add_sub_cancel, List.take_take]
  by_cases hm : (encodeUtf8 x).length ≤ m
  · rw [if_pos hm, Nat.min_eq_left hm, List.take_left, decodeUtf8_encodeUtf8]
    split
    · rfl
    · have hnil : encodeUtf8 x = [] := List.eq_nil_of_length_eq_zero (by omega)
      exact (eq_nil_of_encodeUtf8 hnil).symm
  · rw [if_neg hm, Nat.min_eq_right (by omega), if_pos (by omega),
      List.take_append_of_le_length (by omega)]

/-- **One element of a payload that is cut.** -/
theorem scanElements_take (finalNul : Bool) (pad : Nat → Vector UInt8 3) {x : Str} (hx : Fits x)
    (xs : List Str) (n m : Nat) :
    scanElements (n + 1) ((encodeElements finalNul pad (x :: xs)).take (m + 1))
      = (if (encodeUtf8 x).length ≤ m then x else decodeUtf8 ((encodeUtf8 x).take m))
        :: scanElements n ((encodeElements finalNul (fun i => pad (i + 1)) xs).take
            (m + 1 - ((encodeUtf8 x).length + 5))) := by
  obtain ⟨tail, hdata, htail⟩ := encodeElements_cons finalNul pad x xs
  rw [hdata, List.take_succ_cons, scanElements, elementText_take hx, hx.toNat_size, ← htail,
    List.drop_take, Nat.add_assoc, List.drop_length_add_append]
  congr 3
  omega

/-- **A cut between two texts loses whole elements only.** -/
theorem scanElements_take_of_not_cutsText (finalNul : Bool) {xs : List Str}
    (hxs : ∀ x ∈ xs, Fits x) (pad : Nat → Vector UInt8 3) {m : Nat} (hm : ¬ CutsText xs m) :
    scanElements xs.length ((encodeElements finalNul pad xs).take m) = xs.take (present xs m) := by
  induction xs generalizing pad m with
  | nil => rfl
  | cons x xs ih =>
    have hx : Fits x := hxs x List.mem_cons_self
    have hrest : ∀ z ∈ xs, Fits z := fun z hz => hxs z (List.mem_cons_of_mem _ hz)
    cases m with
    | zero =>
      rw [List.take_zero, scanElements_nil, present, if_neg (by omega)]
      rfl
    | succ m =>
      have hcut : ¬ m < (encodeUtf8 x).length := by
        intro h
        exact hm (Or.inl ⟨by omega, by omega⟩)
      have hnext : ¬ CutsText xs (m + 1 - ((encodeUtf8 x).length + 5)) := fun h => hm (Or.inr h)
      rw [List.length_cons, scanElements_take finalNul pad hx, if_pos (by omega), ih hrest _ hnext,
        present, if_pos (by omega)]
      rfl

/-- **A cut inside a text reports one element more than there are.** -/
theorem length_scanElements_take (finalNul : Bool) {xs : List Str} (hxs : ∀ x ∈ xs, Fits x)
    (pad : Nat → Vector UInt8 3) {m : Nat} (hm : CutsText xs m) :
    (scanElements xs.length ((encodeElements finalNul pad xs).take m)).length
      = present xs m + 1 := by
  induction xs generalizing pad m with
  | nil => exact absurd hm id
  | cons x xs ih =>
    have hx : Fits x := hxs x List.mem_cons_self
    have hrest : ∀ z ∈ xs, Fits z := fun z hz => hxs z (List.mem_cons_of_mem _ hz)
    cases m with
    | zero => exact absurd hm (not_cutsText_zero _)
    | succ m =>
      rw [List.length_cons, scanElements_take finalNul pad hx, List.length_cons, present]
      by_cases hlen : 1 + (encodeUtf8 x).length ≤ m + 1
      · rw [if_pos hlen]
        cases hm with
        | inl h => exact absurd h.2 (by omega)
        | inr h => rw [ih hrest _ h]
      · -- nothing of what comes after is there
        have hgone : m + 1 - ((encodeUtf8 x).length + 5) = 0 := by omega
        rw [if_neg hlen, hgone, List.take_zero, scanElements_nil]
        rfl

theorem parseData_take (typeWord : Vector UInt8 4) (pad : Nat → Vector UInt8 3) (finalNul : Bool)
    {xs : List Str} (hcount : xs.length < 2 ^ 32) {k : Nat} (hk : 8 ≤ k) :
    parseData ((encodeCollection typeWord pad finalNul xs).take k)
      = some (scanElements xs.length ((encodeElements finalNul pad xs).take (k - 8))) := by
  obtain ⟨m, rfl⟩ : ∃ m, k = 8 + m := ⟨k - 8, by omega⟩
  let header := typeWord.toList ++ littleEndian 4 xs.length
  have hheader : header.length = 8 := by
    rw [List.length_append, Vector.length_toList, length_littleEndian]
  have hdata : (encodeCollection typeWord pad finalNul xs).take (8 + m)
      = header ++ (encodeElements finalNul pad xs).take m := by
    rw [← hheader]
    exact List.take_length_add_append m
  have hcountBytes : ((header ++ (encodeElements finalNul pad xs).take m).drop 4).take 4
      = littleEndian 4 xs.length := by
    rw [List.append_assoc, List.drop_left' (Vector.length_toList),
      List.take_left' (length_littleEndian _ _)]
  have hlen : ¬ (header ++ (encodeElements finalNul pad xs).take m).length < 8 := by
    rw [List.length_append, hheader]
    omega
  rw [hdata, parseData_eq, if_neg hlen, hcountBytes, ofLittleEndian_littleEndian hcount,
    List.drop_left' hheader, Nat.add_sub_cancel_left]

/-! ### What a cut payload gives -/

variable {α : Type}

/-- **A cut payload gives the elements that are there, exactly when it is not cut
inside a text.** -/
theorem truncated_prefix_iff (typeWord : Vector UInt8 4) (pad : Nat → Vector UInt8 3)
    (finalNul : Bool) (xs : List Str) (hcount : xs.length < 2 ^ 32) (hxs : ∀ x ∈ xs, Fits x)
    (k : Nat) (hk : 8 ≤ k) (raw : RawValue α)
    (hraw : Carries ((encodeCollection typeWord pad finalNul xs).take k) raw) :
    (∃ ys, parseCollectionBytes raw = .ok (some ys) ∧ ys <+: xs ∧
        ys.length ≤ present xs (k - 8)) ↔
      ¬ CutsText xs (k - 8) := by
  rw [parseCollectionBytes_of_carries hraw, parseData_take typeWord pad finalNul hcount hk]
  apply Iff.intro
  · intro h hcut
    obtain ⟨ys, hys, _, hlen⟩ := h
    injection hys with hys
    injection hys with hys
    rw [← hys, length_scanElements_take finalNul hxs pad hcut] at hlen
    exact Nat.not_succ_le_self _ hlen
  · intro hcut
    refine ⟨xs.take (present xs (k - 8)), ?_, List.take_prefix _ _, ?_⟩
    · rw [scanElements_take_of_not_cutsText finalNul hxs pad hcut]
    · rw [List.length_take]
      exact Nat.min_le_left _ _

/-- `['ab', 'c']`, cut behind the text of the first. -/
theorem truncated_prefix_iff_behind_text :
    let xs : List Str := ["ab".toList, "c".toList]
    let raw : RawValue Str :=
      .bytes ((encodeCollection #v[0, 0, 0, 0] (fun _ => #v[0, 0, 0]) true xs).take 11)
    (∃ ys, parseCollectionBytes raw = .ok (some ys) ∧ ys <+: xs ∧ ys.length ≤ present xs 3) ↔
      ¬ CutsText xs 3 := by
  intro xs raw
  exact truncated_prefix_iff #v[0, 0, 0, 0] (fun _ => #v[0, 0, 0]) true xs (by decide) (by decide)
    11 (by decide) raw .bytes

/-- `['ab']`, cut behind the `a`, is read as `['a']`. -/
theorem truncated_element_reported :
    let xs : List Str := ["ab".toList]
    let data := (encodeCollection #v[0, 0, 0, 0] (fun _ => #v[0, 0, 0]) true xs).take 10
    parseCollectionBytes (.bytes data : RawValue Str) = .ok (some ["a".toList]) ∧
      ¬ ["a".toList] <+: xs := by
  refine ⟨rfl, ?_⟩
  decide

end SqlalchemyCubrid.Types
