import SqlalchemyCubrid.Types.CollectionScan

/-!
# The payload of the broker

The broker sends a type byte, a count and, before each element, its length, all in
big-endian order.  The parser reads the last byte of a length for the size, the
first three of the next one for padding, and three bytes of the first length as
part of the count.  While everything fits in a byte these are zeros, and the
payload is `encodeCollection` with zeros in it (`brokerPayload_eq`).
Beyond that `broker_payload_iff` says that no list is read back.
-/

namespace SqlalchemyCubrid.Types

open Lib Python

/-! ### The payload -/

/-- The length, with one for the NUL, the text, and the NUL. -/
def brokerElement (nul : Bool) (x : Str) : List UInt8 :=
  bigEndian 4 ((encodeUtf8 x).length + 1) ++ (encodeUtf8 x ++ if nul then [0] else [])

def brokerElements (finalNul : Bool) : List Str → List UInt8
  | [] => []
  | [x] => brokerElement finalNul x
  | x :: y :: xs => brokerElement true x ++ brokerElements finalNul (y :: xs)

def brokerPayload (typeByte : UInt8) (finalNul : Bool) (xs : List Str) : List UInt8 :=
  typeByte :: bigEndian 4 xs.length ++ brokerElements finalNul xs

/-! ### Everything fits in a byte -/

/-- Three zeros, and the size byte. -/
theorem brokerElement_of_fits {x : Str} (hx : Fits x) (nul : Bool) :
    brokerElement nul x = List.replicate 3 0 ++ encodeElement nul x := by
  rw [brokerElement, bigEndian_succ_of_lt (fits_iff.mp hx), List.append_assoc, encodeElement]
  rfl

/-- The zeros of a length are the padding behind the element before. -/
theorem brokerElements_of_fits (finalNul : Bool) {x : Str} {xs : List Str}
    (hxs : ∀ z ∈ x :: xs, Fits z) :
    brokerElements finalNul (x :: xs)
      = List.replicate 3 0 ++ encodeElements finalNul (fun _ => #v[0, 0, 0]) (x :: xs) := by
  induction xs generalizing x with
  | nil => exact brokerElement_of_fits (hxs x List.mem_cons_self) finalNul
  | cons y ys ih =>
    have hrest : ∀ z ∈ y :: ys, Fits z := fun z hz => hxs z (List.mem_cons_of_mem _ hz)
    rw [brokerElements, brokerElement_of_fits (hxs x List.mem_cons_self), ih hrest,
      encodeElements, List.append_assoc, List.append_assoc]
    rfl

/-- **The layout of the docstring**, byte for byte. -/
theorem brokerPayload_eq (typeByte : UInt8) (finalNul : Bool) {xs : List Str} (hne : xs ≠ [])
    (hcount : xs.length < 256) (hxs : ∀ x ∈ xs, Fits x) :
    brokerPayload typeByte finalNul xs
      = encodeCollection #v[typeByte, 0, 0, 0] (fun _ => #v[0, 0, 0]) finalNul xs := by
  obtain ⟨x, rest, rfl⟩ := List.exists_cons_of_ne_nil hne
  rw [brokerPayload, brokerElements_of_fits finalNul hxs, bigEndian_succ_of_lt hcount,
    encodeCollection, littleEndian_succ_of_lt hcount]
  rfl

/-! ### What is read when something does not fit -/

/-- A text that does not fit is not read: 256 bytes of it are missing. -/
theorem fits_of_elementText {x : Str} {tail : List UInt8}
    (h : elementText (UInt8.ofNat ((encodeUtf8 x).length + 1)).toNat (encodeUtf8 x ++ tail) = x) :
    Fits x := by
  by_contra hx
  have hlen : 254 < (encodeUtf8 x).length := Nat.lt_of_not_le hx
  have hsize : (UInt8.ofNat ((encodeUtf8 x).length + 1)).toNat + 256
      ≤ (encodeUtf8 x).length + 1 := by
    rw [UInt8.toNat_ofNat']
    omega
  rw [elementText] at h
  split at h
  · rw [List.take_append_of_le_length (by omega)] at h
    exact decodeUtf8_take_ne (by omega) h
  · rw [← h] at hlen
    exact absurd hlen (by decide)

/-- The first length, and where the next one is. -/
theorem brokerElements_cons (finalNul : Bool) (x : Str) (xs : List Str) :
    ∃ tail, brokerElements finalNul (x :: xs)
        = bigEndian 4 ((encodeUtf8 x).length + 1) ++ (encodeUtf8 x ++ tail) ∧
      tail.drop 4 = (brokerElements finalNul xs).drop 3 := by
  cases xs with
  | nil =>
    refine ⟨if finalNul then [0] else [], rfl, ?_⟩
    cases finalNul <;> rfl
  | cons y ys =>
    refine ⟨[0] ++ brokerElements finalNul (y :: ys), ?_, rfl⟩
    rw [brokerElements, brokerElement, List.append_assoc, List.append_assoc]
    rfl

theorem drop_brokerElements_cons (finalNul : Bool) (x : Str) (xs : List Str) :
    ∃ tail, (brokerElements finalNul (x :: xs)).drop 3
        = UInt8.ofNat ((encodeUtf8 x).length + 1) :: (encodeUtf8 x ++ tail) ∧
      tail.drop 4 = (brokerElements finalNul xs).drop 3 := by
  obtain ⟨tail, hdata, htail⟩ := brokerElements_cons finalNul x xs
  refine ⟨tail, ?_, htail⟩
  rw [hdata, bigEndian_succ, List.append_assoc, List.drop_left' (length_bigEndian _ _)]
  rfl

/-- **Where the elements are read back, each of them fits**, whatever the count. -/
theorem fits_of_scanElements (finalNul : Bool) {n : Nat} {xs : List Str}
    (h : scanElements n ((brokerElements finalNul xs).drop 3) = xs) : ∀ x ∈ xs, Fits x := by
  induction xs generalizing n with
  | nil =>
    intro x hx
    exact absurd hx List.not_mem_nil
  | cons x xs ih =>
    obtain ⟨tail, hdata, htail⟩ := drop_brokerElements_cons finalNul x xs
    cases n with
    | zero => exact absurd h (List.cons_ne_nil x xs).symm
    | succ n =>
      rw [hdata, scanElements, List.cons.injEq] at h
      obtain ⟨htext, hrest⟩ := h
      have hx : Fits x := fits_of_elementText htext
      rw [hx.toNat_size, Nat.add_assoc, List.drop_length_add_append, htail] at hrest
      intro z hz
      cases List.mem_cons.mp hz with
      | inl hz => rw [hz]; exact hx
      | inr hz => exact ih hrest z hz

/-- The elements that the parser finds, and its count. -/
theorem parseData_brokerPayload (typeByte : UInt8) (finalNul : Bool) (x : Str) (xs : List Str) :
    parseData (brokerPayload typeByte finalNul (x :: xs))
      = some (scanElements
          (ofLittleEndian (UInt8.ofNat (x :: xs).length
            :: (brokerElements finalNul (x :: xs)).take 3))
          ((brokerElements finalNul (x :: xs)).drop 3)) := by
  let front := typeByte :: bigEndian 3 ((x :: xs).length / 256)
  have hfront : front.length = 4 := by rw [List.length_cons, length_bigEndian]
  have hdata : brokerPayload typeByte finalNul (x :: xs)
      = front ++ (UInt8.ofNat (x :: xs).length :: brokerElements finalNul (x :: xs)) := by
    rw [brokerPayload, bigEndian_succ]
    show typeByte :: (_ ++ _ ++ _) = typeByte :: (_ ++ _)
    rw [List.append_assoc]
    rfl
  have hlen : ¬ (brokerPayload typeByte finalNul (x :: xs)).length < 8 := by
    obtain ⟨tail, helements, _⟩ := brokerElements_cons finalNul x xs
    rw [brokerPayload, helements, List.length_append, List.length_append, List.length_cons,
      length_bigEndian, length_bigEndian]
    omega
  rw [parseData_eq, if_neg hlen, hdata, List.drop_left' hfront]
  have hdrop : (front ++ (UInt8.ofNat (x :: xs).length
      :: brokerElements finalNul (x :: xs))).drop 8
        = (brokerElements finalNul (x :: xs)).drop 3 := by
    rw [show 8 = front.length + 4 by rw [hfront], List.drop_length_add_append]
    rfl
  rw [hdrop]
  rfl

/-- The count, where the first element fits. -/
theorem count_of_fits (finalNul : Bool) {x : Str} (hx : Fits x) (xs : List Str) (n : Nat) :
    ofLittleEndian (UInt8.ofNat n :: (brokerElements finalNul (x :: xs)).take 3) = n % 256 := by
  obtain ⟨tail, hdata, _⟩ := brokerElements_cons finalNul x xs
  rw [hdata, bigEndian_succ_of_lt (fits_iff.mp hx), List.append_assoc]
  show (UInt8.ofNat n).toNat + 256 * 0 = n % 256
  rw [UInt8.toNat_ofNat']
  omega

/-! ### What is read back -/

variable {α : Type}

/-- **A payload of the broker is the layout of the docstring while everything fits
in a byte, and exactly then it is read back.** -/
theorem broker_payload_iff (typeByte : UInt8) (finalNul : Bool) (xs : List Str) (hne : xs ≠ [])
    (raw : RawValue α) (hraw : Carries (brokerPayload typeByte finalNul xs) raw) :
    (xs.length < 256 → (∀ x ∈ xs, (encodeUtf8 x).length + 1 < 256) →
        brokerPayload typeByte finalNul xs
          = encodeCollection #v[typeByte, 0, 0, 0] (fun _ => #v[0, 0, 0]) finalNul xs) ∧
      (parseCollectionBytes raw = .ok (some xs) ↔
        xs.length < 256 ∧ ∀ x ∈ xs, (encodeUtf8 x).length + 1 < 256) := by
  have hlayout (hcount : xs.length < 256) (hxs : ∀ x ∈ xs, (encodeUtf8 x).length + 1 < 256) :=
    brokerPayload_eq typeByte finalNul hne hcount fun x hx => fits_iff.mpr (hxs x hx)
  refine ⟨hlayout, ?_⟩
  rw [parseCollectionBytes_of_carries hraw]
  apply Iff.intro
  · intro h
    injection h with h
    obtain ⟨x, rest, rfl⟩ := List.exists_cons_of_ne_nil hne
    rw [parseData_brokerPayload, Option.some.injEq] at h
    have hfits : ∀ z ∈ x :: rest, Fits z := fits_of_scanElements finalNul h
    rw [count_of_fits finalNul (hfits x List.mem_cons_self)] at h
    have hle := length_scanElements_le ((x :: rest).length % 256)
      ((brokerElements finalNul (x :: rest)).drop 3)
    rw [h] at hle
    refine ⟨?_, fun z hz => fits_iff.mp (hfits z hz)⟩
    omega
  · intro h
    obtain ⟨hcount, hxs⟩ := h
    rw [hlayout hcount hxs, parseData_encodeCollection _ _ _ (by omega)
      fun x hx => fits_iff.mpr (hxs x hx)]

/-- `['a', 'é']` -/
theorem broker_payload_iff_words :
    let xs : List Str := ["a".toList, "é".toList]
    let raw : RawValue Str := .bytes (brokerPayload 2 true xs)
    (xs.length < 256 → (∀ x ∈ xs, (encodeUtf8 x).length + 1 < 256) →
        brokerPayload 2 true xs
          = encodeCollection #v[2, 0, 0, 0] (fun _ => #v[0, 0, 0]) true xs) ∧
      (parseCollectionBytes raw = .ok (some xs) ↔
        xs.length < 256 ∧ ∀ x ∈ xs, (encodeUtf8 x).length + 1 < 256) := by
  intro xs raw
  exact broker_payload_iff 2 true xs (by decide) raw .bytes

/-- Of 256 elements none is read. -/
theorem broker_payload_lost :
    let xs : List Str := List.replicate 256 []
    parseCollectionBytes (.bytes (brokerPayload 2 true xs) : RawValue Str) = .ok (some []) ∧
      xs ≠ [] := by
  have hdata : parseData (brokerPayload 2 true (List.replicate 256 [])) = some [] := by
    decide +kernel
  exact ⟨congrArg Except.ok hdata, by decide⟩

end SqlalchemyCubrid.Types
