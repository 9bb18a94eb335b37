import Mathlib.Algebra.Ring.Nat
import Mathlib.Data.List.Basic

/-!
# Bytes

Ways to write something as bytes: numbers in little-endian and in big-endian order,
Latin-1 text, and UTF-8 text read back by a decoder that never fails.  Where the bytes
are not UTF-8, `decodeUtf8` puts one replacement character for each maximal
beginning of a character, as the standard recommends.

`ofLittleEndian_littleEndian`, `encodeLatin1_decodeLatin1` and
`decodeUtf8_encodeUtf8` are the round trips, and `decodeUtf8_take_ne` says that a
text that lacks many of its bytes is not read back.
-/

namespace SqlalchemyCubrid.Lib

/-! ### Numbers -/

/-- The `k` lowest bytes of a number, lowest first. -/
def littleEndian : Nat → Nat → List UInt8
  | 0, _ => []
  | k + 1, n => UInt8.ofNat n :: littleEndian k (n / 256)

def ofLittleEndian : List UInt8 → Nat
  | [] => 0
  | b :: bs => b.toNat + 256 * ofLittleEndian bs

@[simp] theorem length_littleEndian (k n : Nat) : (littleEndian k n).length = k := by
  induction k generalizing n with
  | zero => rfl
  | succ k ih => rw [littleEndian, List.length_cons, ih]

theorem ofLittleEndian_littleEndian {k n : Nat} (h : n < 256 ^ k) :
    ofLittleEndian (littleEndian k n) = n := by
  induction k generalizing n with
  | zero =>
    have : n = 0 := by omega
    rw [this]
    rfl
  | succ k ih =>
    have hdiv : n / 256 < 256 ^ k := by
      rw [Nat.pow_succ] at h
      omega
    rw [littleEndian, ofLittleEndian, ih hdiv, UInt8.toNat_ofNat']
    omega

/-- The `k` lowest bytes of a number, highest first. -/
def bigEndian (k n : Nat) : List UInt8 := (littleEndian k n).reverse

@[simp] theorem length_bigEndian (k n : Nat) : (bigEndian k n).length = k := by
  rw [bigEndian, List.length_reverse, length_littleEndian]

theorem bigEndian_succ (k n : Nat) :
    bigEndian (k + 1) n = bigEndian k (n / 256) ++ [UInt8.ofNat n] := by
  rw [bigEndian, littleEndian, List.reverse_cons, bigEndian]

theorem littleEndian_zero (k : Nat) : littleEndian k 0 = List.replicate k 0 := by
  induction k with
  | zero => rfl
  | succ k ih => rw [littleEndian, ih]; rfl

/-- A number of one byte. -/
theorem bigEndian_succ_of_lt {n : Nat} (h : n < 256) (k : Nat) :
    bigEndian (k + 1) n = List.replicate k 0 ++ [UInt8.ofNat n] := by
  rw [bigEndian_succ, Nat.div_eq_of_lt h, bigEndian, littleEndian_zero, List.reverse_replicate]

theorem littleEndian_succ_of_lt {n : Nat} (h : n < 256) (k : Nat) :
    littleEndian (k + 1) n = UInt8.ofNat n :: List.replicate k 0 := by
  rw [littleEndian, Nat.div_eq_of_lt h, littleEndian_zero]

/-! ### Latin-1 -/

def decodeLatin1 (bs : List UInt8) : List Char := bs.map fun b => Char.ofNat b.toNat

/-- `none` when a character has no byte. -/
def encodeLatin1 (s : List Char) : Option (List UInt8) :=
  if s.all fun c => c.toNat < 256 then some (s.map fun c => UInt8.ofNat c.toNat) else none

theorem toNat_ofNat_byte (b : UInt8) : (Char.ofNat b.toNat).toNat = b.toNat := by
  have hb : b.toNat < 256 := b.toNat_lt
  have hvalid : b.toNat.isValidChar := Or.inl (by omega)
  rw [Char.ofNat, dif_pos hvalid]
  rfl

theorem encodeLatin1_decodeLatin1 (bs : List UInt8) : encodeLatin1 (decodeLatin1 bs) = some bs := by
  have hall : ((decodeLatin1 bs).all fun c => c.toNat < 256) = true := by
    rw [decodeLatin1, List.all_map, List.all_eq_true]
    intro b _
    show decide ((Char.ofNat b.toNat).toNat < 256) = true
    rw [toNat_ofNat_byte, decide_eq_true_eq]
    exact b.toNat_lt
  rw [encodeLatin1, if_pos hall, decodeLatin1, List.map_map]
  congr 1
  conv_rhs => rw [← List.map_id bs]
  apply List.map_congr_left
  intro b _
  show UInt8.ofNat (Char.ofNat b.toNat).toNat = b
  rw [toNat_ofNat_byte]
  exact UInt8.ofNat_toNat

/-! ### UTF-8 -/

def encodeUtf8 (s : List Char) : List UInt8 := s.flatMap String.utf8EncodeChar

/-- After a leading byte: how many bytes follow, and the bounds of the first of
them. -/
def utf8Lead (b : Nat) : Option (Nat × Nat × Nat) :=
  if 0xC2 ≤ b ∧ b ≤ 0xDF then some (1, 0x80, 0xBF)
  else if b = 0xE0 then some (2, 0xA0, 0xBF)
  else if b = 0xED then some (2, 0x80, 0x9F)
  else if 0xE1 ≤ b ∧ b ≤ 0xEF then some (2, 0x80, 0xBF)
  else if b = 0xF0 then some (3, 0x90, 0xBF)
  else if 0xF1 ≤ b ∧ b ≤ 0xF3 then some (3, 0x80, 0xBF)
  else if b = 0xF4 then some (3, 0x80, 0x8F)
  else none

/-- The following bytes, six bits each: the code point, `none` when one is missing
or out of bounds, and how many were good. -/
def utf8Tail : Nat → Nat → Nat → Nat → List UInt8 → Option Nat × Nat
  | 0, _, _, acc, _ => (some acc, 0)
  | _ + 1, _, _, _, [] => (none, 0)
  | n + 1, low, high, acc, b :: bs =>
    if low ≤ b.toNat ∧ b.toNat ≤ high then
      let (v, k) := utf8Tail n 0x80 0xBF (acc * 64 + b.toNat % 64) bs
      (v, k + 1)
    else
      (none, 0)

def replacement : Char := Char.ofNat 0xFFFD

/-- A character, and how many bytes after the first it takes. -/
def utf8Char (b : UInt8) (bs : List UInt8) : Char × Nat :=
  if b.toNat < 0x80 then (Char.ofNat b.toNat, 0)
  else
    match utf8Lead b.toNat with
    | none => (replacement, 0)
    | some (n, low, high) =>
      match utf8Tail n low high (b.toNat % 2 ^ (6 - n)) bs with
      | (some v, k) => (Char.ofNat v, k)
      | (none, k) => (replacement, k)

/-- Decode, with so many bytes still to skip. -/
def decodeUtf8From : Nat → List UInt8 → List Char
  | _, [] => []
  | k + 1, _ :: bs => decodeUtf8From k bs
  | 0, b :: bs => (utf8Char b bs).1 :: decodeUtf8From (utf8Char b bs).2 bs

def decodeUtf8 (bs : List UInt8) : List Char := decodeUtf8From 0 bs

theorem utf8Tail_cons {low high x : Nat} (hx : x < 256) (h : low ≤ x ∧ x ≤ high) (n acc : Nat)
    (bs : List UInt8) :
    utf8Tail (n + 1) low high acc (UInt8.ofNat x :: bs)
      = ((utf8Tail n 0x80 0xBF (acc * 64 + x % 64) bs).1,
          (utf8Tail n 0x80 0xBF (acc * 64 + x % 64) bs).2 + 1) := by
  have hb : (UInt8.ofNat x).toNat = x := UInt8.toNat_ofNat_of_lt' hx
  rw [utf8Tail, hb, if_pos h]

theorem utf8Char_of_tail {x n low high v k : Nat} {bs : List UInt8} (hx : 0x80 ≤ x ∧ x < 256)
    (hlead : utf8Lead x = some (n, low, high))
    (htail : utf8Tail n low high (x % 2 ^ (6 - n)) bs = (some v, k)) :
    utf8Char (UInt8.ofNat x) bs = (Char.ofNat v, k) := by
  have hb : (UInt8.ofNat x).toNat = x := UInt8.toNat_ofNat_of_lt' hx.2
  rw [utf8Char, hb, if_neg (by omega), hlead]
  show (match utf8Tail n low high (x % 2 ^ (6 - n)) bs with
    | (some v, k) => (Char.ofNat v, k)
    | (none, k) => (replacement, k)) = _
  rw [htail]

theorem decodeUtf8From_drop (bs cs : List UInt8) :
    decodeUtf8From bs.length (bs ++ cs) = decodeUtf8From 0 cs := by
  induction bs with
  | nil => rfl
  | cons b bs ih => exact ih

theorem code_bounds (c : Char) :
    c.toNat < 0xD800 ∨ (0xDFFF < c.toNat ∧ c.toNat < 0x110000) := c.valid

theorem utf8Lead_three {b : Nat} (h : 0xE0 ≤ b ∧ b ≤ 0xEF) :
    utf8Lead b = some (2, if b = 0xE0 then 0xA0 else 0x80, if b = 0xED then 0x9F else 0xBF) := by
  rw [utf8Lead, if_neg (by omega)]
  by_cases h0 : b = 0xE0
  · subst h0
    rfl
  · by_cases hd : b = 0xED
    · subst hd
      rfl
    · rw [if_neg h0, if_neg hd, if_pos (by omega), if_neg h0, if_neg hd]

theorem utf8Lead_four {b : Nat} (h : 0xF0 ≤ b ∧ b ≤ 0xF4) :
    utf8Lead b = some (3, if b = 0xF0 then 0x90 else 0x80, if b = 0xF4 then 0x8F else 0xBF) := by
  rw [utf8Lead, if_neg (by omega), if_neg (by omega), if_neg (by omega), if_neg (by omega)]
  by_cases h0 : b = 0xF0
  · subst h0
    rfl
  · by_cases h4 : b = 0xF4
    · subst h4
      rfl
    · rw [if_neg h0, if_pos (by omega), if_neg h0, if_neg h4]

theorem utf8Char_two {v : Nat} (h : 0x80 ≤ v ∧ v ≤ 0x7FF) (rest : List UInt8) :
    utf8Char (UInt8.ofNat (v / 64 % 0x20 + 0xc0)) (UInt8.ofNat (v % 0x40 + 0x80) :: rest)
      = (Char.ofNat v, 1) := by
  have hlead : utf8Lead (v / 64 % 0x20 + 0xc0) = some (1, 0x80, 0xBF) := by
    rw [utf8Lead, if_pos (by omega)]
  refine utf8Char_of_tail (by omega) hlead ?_
  rw [utf8Tail_cons (by omega) (by omega)]
  show (some ((v / 64 % 0x20 + 0xc0) % 32 * 64 + (v % 0x40 + 0x80) % 64), 1) = (some v, 1)
  congr 2
  omega

theorem utf8Char_three {v : Nat} (h : 0x800 ≤ v ∧ v ≤ 0xFFFF) (hs : v < 0xD800 ∨ 0xDFFF < v)
    (rest : List UInt8) :
    utf8Char (UInt8.ofNat (v / 4096 % 0x10 + 0xe0))
        (UInt8.ofNat (v / 64 % 0x40 + 0x80) :: UInt8.ofNat (v % 0x40 + 0x80) :: rest)
      = (Char.ofNat v, 2) := by
  refine utf8Char_of_tail (by omega) (utf8Lead_three (by omega)) ?_
  have hbounds : (if v / 4096 % 0x10 + 0xe0 = 0xE0 then 0xA0 else 0x80) ≤ v / 64 % 0x40 + 0x80 ∧
      v / 64 % 0x40 + 0x80 ≤ if v / 4096 % 0x10 + 0xe0 = 0xED then 0x9F else 0xBF := by
    split <;> split <;> omega
  rw [utf8Tail_cons (by omega) hbounds, utf8Tail_cons (by omega) (by omega)]
  show (some (((v / 4096 % 0x10 + 0xe0) % 16 * 64 + (v / 64 % 0x40 + 0x80) % 64) * 64
    + (v % 0x40 + 0x80) % 64), 2) = (some v, 2)
  congr 2
  omega

theorem utf8Char_four {v : Nat} (h : 0x10000 ≤ v ∧ v < 0x110000) (rest : List UInt8) :
    utf8Char (UInt8.ofNat (v / 262144 % 0x08 + 0xf0))
        (UInt8.ofNat (v / 4096 % 0x40 + 0x80) :: UInt8.ofNat (v / 64 % 0x40 + 0x80)
          :: UInt8.ofNat (v % 0x40 + 0x80) :: rest)
      = (Char.ofNat v, 3) := by
  refine utf8Char_of_tail (by omega) (utf8Lead_four (by omega)) ?_
  have hbounds : (if v / 262144 % 0x08 + 0xf0 = 0xF0 then 0x90 else 0x80)
        ≤ v / 4096 % 0x40 + 0x80 ∧
      v / 4096 % 0x40 + 0x80 ≤ if v / 262144 % 0x08 + 0xf0 = 0xF4 then 0x8F else 0xBF := by
    split <;> split <;> omega
  rw [utf8Tail_cons (by omega) hbounds, utf8Tail_cons (by omega) (by omega),
    utf8Tail_cons (by omega) (by omega)]
  show (some ((((v / 262144 % 0x08 + 0xf0) % 8 * 64 + (v / 4096 % 0x40 + 0x80) % 64) * 64
    + (v / 64 % 0x40 + 0x80) % 64) * 64 + (v % 0x40 + 0x80) % 64), 3) = (some v, 3)
  congr 2
  omega

/-- **One character.** -/
theorem utf8Char_encode {c : Char} {b : UInt8} {bs : List UInt8}
    (h : String.utf8EncodeChar c = b :: bs) (rest : List UInt8) :
    utf8Char b (bs ++ rest) = (c, bs.length) := by
  have hc := code_bounds c
  have hv : c.val.toNat = c.toNat := rfl
  rw [String.utf8EncodeChar] at h
  simp only [hv] at h
  by_cases h1 : c.toNat ≤ 0x7f
  · rw [if_pos h1, List.cons.injEq] at h
    obtain ⟨rfl, rfl⟩ := h
    have hlt : c.toNat < 256 := by omega
    have hb : (UInt8.ofNat c.toNat).toNat = c.toNat := UInt8.toNat_ofNat_of_lt' hlt
    rw [utf8Char, hb, if_pos (by omega), Char.ofNat_toNat]
    rfl
  · rw [if_neg h1] at h
    by_cases h2 : c.toNat ≤ 0x7ff
    · rw [if_pos h2, List.cons.injEq] at h
      obtain ⟨rfl, rfl⟩ := h
      exact (utf8Char_two (by omega) rest).trans (by rw [Char.ofNat_toNat]; rfl)
    · rw [if_neg h2] at h
      by_cases h3 : c.toNat ≤ 0xffff
      · rw [if_pos h3, List.cons.injEq] at h
        obtain ⟨rfl, rfl⟩ := h
        exact (utf8Char_three (by omega) (by omega) rest).trans (by rw [Char.ofNat_toNat]; rfl)
      · rw [if_neg h3, List.cons.injEq] at h
        obtain ⟨rfl, rfl⟩ := h
        exact (utf8Char_four (by omega) rest).trans (by rw [Char.ofNat_toNat]; rfl)

/-- **Text in UTF-8 is read back**, whatever follows it. -/
theorem decodeUtf8From_encodeUtf8 (s : List Char) (rest : List UInt8) :
    decodeUtf8From 0 (encodeUtf8 s ++ rest) = s ++ decodeUtf8From 0 rest := by
  induction s with
  | nil => rfl
  | cons c s ih =>
    obtain ⟨b, bs, hb⟩ : ∃ b bs, String.utf8EncodeChar c = b :: bs :=
      List.exists_cons_of_ne_nil (String.utf8EncodeChar_ne_nil)
    have hsplit : encodeUtf8 (c :: s) ++ rest = b :: (bs ++ (encodeUtf8 s ++ rest)) := by
      rw [encodeUtf8, List.flatMap_cons, hb, List.append_assoc]
      rfl
    rw [hsplit, decodeUtf8From, utf8Char_encode hb, decodeUtf8From_drop, ih]
    rfl

theorem decodeUtf8_encodeUtf8 (s : List Char) : decodeUtf8 (encodeUtf8 s) = s := by
  have h := decodeUtf8From_encodeUtf8 s []
  rw [List.append_nil, decodeUtf8From, List.append_nil] at h
  exact h

/-! ### A part of a text -/

theorem encodeUtf8_append (s t : List Char) : encodeUtf8 (s ++ t) = encodeUtf8 s ++ encodeUtf8 t :=
  List.flatMap_append

theorem length_encodeUtf8_le (s : List Char) : (encodeUtf8 s).length ≤ 4 * s.length := by
  induction s with
  | nil => exact Nat.le_refl 0
  | cons c s ih =>
    have hc := c.utf8Size_le_four
    rw [encodeUtf8, List.flatMap_cons, List.length_append, String.length_utf8EncodeChar]
    rw [encodeUtf8] at ih
    rw [List.length_cons]
    omega

theorem length_decodeUtf8From_le (k : Nat) (bs : List UInt8) :
    (decodeUtf8From k bs).length ≤ bs.length := by
  induction bs generalizing k with
  | nil => cases k <;> exact Nat.le_refl 0
  | cons b bs ih =>
    cases k with
    | zero => exact Nat.succ_le_succ (ih _)
    | succ k => exact Nat.le_succ_of_le (ih k)

/-- The first bytes are those of whole characters, and at most three more. -/
theorem encodeUtf8_take (s : List Char) (k : Nat) :
    ∃ t u r, s = t ++ u ∧ (encodeUtf8 s).take k = encodeUtf8 t ++ r ∧ r.length ≤ 3 := by
  induction s generalizing k with
  | nil => exact ⟨[], [], [], rfl, List.take_nil, Nat.zero_le 3⟩
  | cons c s ih =>
    have hc := c.utf8Size_le_four
    rw [← String.length_utf8EncodeChar] at hc
    have hcons : encodeUtf8 (c :: s) = String.utf8EncodeChar c ++ encodeUtf8 s := List.flatMap_cons
    by_cases hk : (String.utf8EncodeChar c).length ≤ k
    · obtain ⟨t, u, r, hs, htake, hr⟩ := ih (k - (String.utf8EncodeChar c).length)
      refine ⟨c :: t, u, r, congrArg (List.cons c) hs, ?_, hr⟩
      rw [hcons, List.take_append, List.take_of_length_le hk, htake, ← List.append_assoc]
      rfl
    · refine ⟨[], c :: s, (String.utf8EncodeChar c).take k, rfl, ?_, ?_⟩
      · rw [hcons, List.take_append_of_le_length (by omega)]
        rfl
      · rw [List.length_take]
        omega

/-- **A text without its last bytes**, when those are more than twelve: what is read
is too short. -/
theorem decodeUtf8_take_ne {s : List Char} {k : Nat} (h : k + 12 < (encodeUtf8 s).length) :
    decodeUtf8 ((encodeUtf8 s).take k) ≠ s := by
  obtain ⟨t, u, r, hs, htake, hr⟩ := encodeUtf8_take s k
  intro heq
  have hlen : (decodeUtf8From 0 r).length = u.length := by
    rw [decodeUtf8, htake, decodeUtf8From_encodeUtf8, hs] at heq
    exact congrArg List.length (List.append_cancel_left heq)
  have hread := length_decodeUtf8From_le 0 r
  have hmissing := length_encodeUtf8_le u
  have htaken : (encodeUtf8 t).length + r.length ≤ k := by
    rw [← List.length_append, ← htake]
    exact List.length_take_le _ _
  rw [hs, encodeUtf8_append, List.length_append] at h
  omega

end SqlalchemyCubrid.Lib
