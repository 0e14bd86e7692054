import SymbolRename.Text.Utf8
import Mathlib.Data.List.TakeWhile

/-!
# Decoding character by character

What the first character of some bytes is depends on the bytes of that character only. Bytes that
can be decoded can be cut anywhere: what stands before the cut is decoded up to a character that the
cut goes through, and of that one the decoder says that its end is missing. What was encoded is
decoded to what it was.
-/

set_option autoImplicit false

namespace SymbolRename.Text.Utf8

theorem fitting_le (lead : UInt8) (tail : List UInt8) : fitting lead tail ≤ tail.length := by
  cases tail with
  | nil => exact Nat.le_refl 0
  | cons s rest =>
    rw [fitting]
    split
    · have hw : (rest.takeWhile isTail).length ≤ rest.length :=
        (List.takeWhile_sublist isTail).length_le
      rw [List.length_cons]
      omega
    · exact Nat.zero_le _

theorem fitting_take {lead : UInt8} {tail : List UInt8} (h : fitting lead tail = tail.length)
    (k : ℕ) : fitting lead (tail.take k) = (tail.take k).length := by
  cases tail with
  | nil => rw [List.take_nil]; rfl
  | cons s rest =>
    cases k with
    | zero => rfl
    | succ k =>
      rw [fitting] at h
      split at h
      · next hs =>
        have hl : (rest.takeWhile isTail).length = rest.length := by
          rw [List.length_cons] at h
          omega
        have ha : rest.takeWhile isTail = rest :=
          (List.takeWhile_prefix isTail).eq_of_length hl
        have hk : (rest.take k).takeWhile isTail = rest.take k := by
          rw [List.takeWhile_eq_self_iff] at ha ⊢
          exact fun x hx => ha x (List.mem_of_mem_take hx)
        rw [List.take_succ_cons, fitting, if_pos hs, hk, List.length_cons, Nat.add_comm]
      · cases h

theorem first_ok {b : UInt8} {rest : List UInt8} {c : Char} {w : ℕ}
    (h : first (b :: rest) = .ok (c, w)) :
    width? b = some w ∧ 1 ≤ w ∧ (rest.take (w - 1)).length = w - 1 ∧
      fitting b (rest.take (w - 1)) = (rest.take (w - 1)).length := by
  rw [first] at h
  split at h
  · cases h
  · next v hv =>
    dsimp only at h
    split at h
    · next hg =>
      cases h
      have hl : (rest.take (w - 1)).length ≤ w - 1 := List.length_take_le _ _
      have hf := fitting_le b (rest.take (w - 1))
      exact ⟨hv, by omega, by omega, by omega⟩
    · split at h <;> cases h

/-- The bytes after the first character do not matter for it. -/
theorem first_append {bytes : List UInt8} {c : Char} {w : ℕ} (h : first bytes = .ok (c, w))
    {part : List UInt8} (hp : w ≤ part.length) (more : List UInt8)
    (he : part <+: bytes) : first (part ++ more) = .ok (c, w) := by
  cases bytes with
  | nil => cases h
  | cons b rest =>
    obtain ⟨hw, h1, -, -⟩ := first_ok h
    cases part with
    | nil =>
      rw [List.length_nil] at hp
      omega
    | cons a part =>
      obtain ⟨rfl, others, rfl⟩ := List.cons_prefix_cons.mp he
      rw [List.length_cons] at hp
      have ht : (part ++ more).take (w - 1) = (part ++ others).take (w - 1) := by
        rw [List.take_append_of_le_length (by omega), List.take_append_of_le_length (by omega)]
      rw [first, hw] at h
      rw [List.cons_append, first, hw]
      dsimp only at h ⊢
      rw [ht]
      exact h

/-- A character that is cut off has its end missing. -/
theorem first_cut {bytes : List UInt8} {c : Char} {w : ℕ} (h : first bytes = .ok (c, w))
    {part : List UInt8} (hp : part.length < w) (hn : part ≠ []) (he : part <+: bytes) :
    first part = .error (.truncated, part.length) := by
  cases bytes with
  | nil => cases h
  | cons b rest =>
    obtain ⟨hw, h1, hl, hf⟩ := first_ok h
    cases part with
    | nil => exact absurd rfl hn
    | cons a part =>
      obtain ⟨rfl, hr⟩ := List.cons_prefix_cons.mp he
      rw [List.length_cons] at hp
      have hk : part = (rest.take (w - 1)).take part.length := by
        rw [List.take_take, Nat.min_eq_left (by omega)]
        exact List.prefix_iff_eq_take.mp hr
      have hg : fitting a part = part.length := by
        have ht := fitting_take hf part.length
        rw [← hk] at ht
        exact ht
      have hs : part.take (w - 1) = part := List.take_of_length_le (by omega)
      rw [first, hw]
      dsimp only
      rw [hs, hg, if_neg (by omega), if_pos rfl, List.length_cons]

inductive Decodes : List UInt8 → List Char → Prop
  | nil : Decodes [] []
  | cons {bytes : List UInt8} {c : Char} {w : ℕ} {s : List Char} (head : first bytes = .ok (c, w))
      (rest : Decodes (bytes.drop w) s) : Decodes bytes (c :: s)

theorem first_length {bytes : List UInt8} {c : Char} {w : ℕ} (h : first bytes = .ok (c, w)) :
    1 ≤ w ∧ w ≤ bytes.length := by
  cases bytes with
  | nil => cases h
  | cons b rest =>
    obtain ⟨-, h1, hl, -⟩ := first_ok h
    rw [List.length_take] at hl
    rw [List.length_cons]
    omega

theorem decodeFrom_skip (position k : ℕ) (bytes : List UInt8) :
    decodeFrom position k bytes = decodeFrom (position + min k bytes.length) 0 (bytes.drop k) := by
  induction bytes generalizing position k with
  | nil => simp [decodeFrom]
  | cons b bytes ih =>
    cases k with
    | zero => simp
    | succ k =>
      rw [decodeFrom, ih, List.drop_succ_cons, List.length_cons]
      congr 1
      omega

theorem decodeFrom_first {bytes : List UInt8} {c : Char} {w : ℕ} (h : first bytes = .ok (c, w))
    (position : ℕ) :
    decodeFrom position 0 bytes = (decodeFrom (position + w) 0 (bytes.drop w)).map (c :: ·) := by
  obtain ⟨h1, hl⟩ := first_length h
  cases bytes with
  | nil => cases h
  | cons b rest =>
    rw [List.length_cons] at hl
    obtain ⟨k, rfl⟩ : ∃ k, w = k + 1 := ⟨w - 1, by omega⟩
    rw [decodeFrom, h]
    dsimp only
    rw [Nat.add_sub_cancel, decodeFrom_skip, List.drop_succ_cons, Nat.min_eq_left (by omega)]
    congr 2
    omega

theorem decodeFrom_append {a : List UInt8} {s : List Char} (h : Decodes a s) (b : List UInt8)
    (position : ℕ) :
    decodeFrom position 0 (a ++ b) = (decodeFrom (position + a.length) 0 b).map (s ++ ·) := by
  induction h generalizing position with
  | nil =>
    simp only [List.nil_append, List.length_nil, Nat.add_zero]
    cases decodeFrom position 0 b <;> rfl
  | @cons bytes c w s head rest ih =>
    obtain ⟨-, hl⟩ := first_length head
    have hf : first (bytes ++ b) = .ok (c, w) := first_append head hl b List.prefix_rfl
    rw [decodeFrom_first hf, List.drop_append_of_le_length hl, ih, List.length_drop,
      Nat.add_assoc, Nat.add_sub_cancel' hl]
    cases decodeFrom (position + bytes.length) 0 b <;> rfl

theorem decodes_decode {bytes : List UInt8} {s : List Char} (h : Decodes bytes s) :
    decode bytes = .ok s := by
  have ha := decodeFrom_append h [] 0
  rw [List.append_nil] at ha
  rw [decode, ha, decodeFrom]
  exact congrArg Except.ok (List.append_nil s)

theorem decodeFrom_decodes {n : ℕ} {bytes : List UInt8} (hb : bytes.length ≤ n) {position : ℕ}
    {s : List Char} (h : decodeFrom position 0 bytes = .ok s) : Decodes bytes s := by
  induction n generalizing bytes position s with
  | zero =>
    obtain rfl := List.length_eq_zero_iff.mp (Nat.le_zero.mp hb)
    cases h
    exact .nil
  | succ n ih =>
    cases bytes with
    | nil =>
      cases h
      exact .nil
    | cons b rest =>
      cases hf : first (b :: rest) with
      | error e =>
        rw [decodeFrom, hf] at h
        cases h
      | ok r =>
        obtain ⟨c, w⟩ := r
        obtain ⟨h1, -⟩ := first_length hf
        rw [decodeFrom_first hf] at h
        cases hd : decodeFrom (position + w) 0 ((b :: rest).drop w) with
        | error e =>
          rw [hd] at h
          cases h
        | ok t =>
          rw [hd] at h
          cases h
          refine .cons hf (ih ?_ hd)
          rw [List.length_drop]
          omega

theorem decode_eq_ok_iff {bytes : List UInt8} {s : List Char} :
    decode bytes = .ok s ↔ Decodes bytes s :=
  ⟨decodeFrom_decodes (Nat.le_refl _), decodes_decode⟩

/-- Bytes cut in two: the characters before the cut, and a rest that no character ends in. -/
theorem decodes_cut {a b : List UInt8} {s : List Char} (h : Decodes (a ++ b) s) :
    ∃ a₁ a₂ s₁ s₂, a = a₁ ++ a₂ ∧ s = s₁ ++ s₂ ∧ Decodes a₁ s₁ ∧ Decodes (a₂ ++ b) s₂ ∧
      first a₂ = .error (.truncated, a₂.length) := by
  generalize hab : a ++ b = ab at h
  induction h generalizing a with
  | nil =>
    obtain ⟨rfl, rfl⟩ := List.append_eq_nil_iff.mp hab
    exact ⟨[], [], [], [], rfl, rfl, .nil, .nil, rfl⟩
  | @cons bytes c w s head rest ih =>
    subst hab
    by_cases hw : w ≤ a.length
    · obtain ⟨a₁, a₂, s₁, s₂, ha, rfl, h₁, h₂, hc⟩ := ih (List.drop_append_of_le_length hw).symm
      have hf : first (a.take w ++ a₁) = .ok (c, w) :=
        first_append head (by rw [List.length_take]; omega) a₁
          ((List.take_prefix w a).trans (List.prefix_append a b))
      refine ⟨a.take w ++ a₁, a₂, c :: s₁, s₂, ?_, rfl, .cons hf ?_, h₂, hc⟩
      · rw [List.append_assoc, ← ha, List.take_append_drop]
      · rw [List.drop_left' (by rw [List.length_take]; omega)]
        exact h₁
    · refine ⟨[], a, [], c :: s, rfl, rfl, .nil, .cons head rest, ?_⟩
      by_cases hn : a = []
      · rw [hn]
        rfl
      · exact first_cut head (by omega) hn (List.prefix_append a b)

theorem holdBack_truncated {bytes at' : List UInt8} {n : ℕ}
    (h : decode bytes = .error ⟨at', n, .truncated⟩) :
    holdBack bytes = (bytes.take n, bytes.drop n) := by
  rw [holdBack, h]
  rfl

/-- What is held back of bytes that go on is the character that they do not finish. -/
theorem holdBack_cut {a b : List UInt8} {s : List Char} (h : Decodes (a ++ b) s) :
    ∃ s₁ s₂, s = s₁ ++ s₂ ∧ Decodes (holdBack a).1 s₁ ∧ Decodes ((holdBack a).2 ++ b) s₂ := by
  obtain ⟨a₁, a₂, s₁, s₂, rfl, rfl, h₁, h₂, hc⟩ := decodes_cut h
  have hd : decode (a₁ ++ a₂) = (decodeFrom (0 + a₁.length) 0 a₂).map (s₁ ++ ·) :=
    decodeFrom_append h₁ a₂ 0
  cases a₂ with
  | nil =>
    rw [decodeFrom] at hd
    rw [holdBack, hd]
    refine ⟨s₁, s₂, rfl, ?_, h₂⟩
    rw [List.append_nil]
    exact h₁
  | cons x rest =>
    rw [decodeFrom, hc, Nat.zero_add] at hd
    rw [holdBack_truncated hd, List.take_left, List.drop_left]
    exact ⟨s₁, s₂, rfl, h₁, h₂⟩

theorem width?_eq (b : UInt8) :
    width? b =
      if b.toNat < 0x80 then some 1
      else if b.toNat < 0xC2 then none
      else if b.toNat < 0xE0 then some 2
      else if b.toNat < 0xF0 then some 3
      else if b.toNat < 0xF5 then some 4
      else none := by
  simp only [width?, UInt8.lt_iff_toNat_lt]
  rfl

theorem isTail_iff (b : UInt8) : isTail b = true ↔ 0x80 ≤ b.toNat ∧ b.toNat ≤ 0xBF := by
  rw [isTail, Bool.and_eq_true, decide_eq_true_eq, decide_eq_true_eq, UInt8.le_iff_toNat_le,
    UInt8.le_iff_toNat_le]
  rfl

theorem secondFits_of {lead second : UInt8} (ht : isTail second = true)
    (h3 : lead.toNat = 0xE0 → 0xA0 ≤ second.toNat) (hs : lead.toNat = 0xED → second.toNat < 0xA0)
    (h4 : lead.toNat = 0xF0 → 0x90 ≤ second.toNat)
    (hm : lead.toNat = 0xF4 → second.toNat < 0x90) : secondFits lead second = true := by
  rw [secondFits, ht, Bool.true_and]
  split
  · next h => exact decide_eq_true (UInt8.le_iff_toNat_le.mpr (h3 (h ▸ rfl)))
  split
  · next h => exact decide_eq_true (UInt8.lt_iff_toNat_lt.mpr (hs (h ▸ rfl)))
  split
  · next h => exact decide_eq_true (UInt8.le_iff_toNat_le.mpr (h4 (h ▸ rfl)))
  split
  · next h => exact decide_eq_true (UInt8.lt_iff_toNat_lt.mpr (hm (h ▸ rfl)))
  · rfl

theorem first_of_fitting {b : UInt8} {tail : List UInt8} {w : ℕ} (hw : width? b = some w)
    (hl : tail.length + 1 = w) (hf : fitting b tail = tail.length) (more : List UInt8) :
    first (b :: tail ++ more) =
      .ok (Char.ofNat (tail.foldl (fun n t => n * 64 + bits t 6)
        (if w = 1 then b.toNat else bits b (7 - w))), w) := by
  have ht : (tail ++ more).take (w - 1) = tail := List.take_left' (by omega)
  rw [List.cons_append, first, hw]
  dsimp only
  rw [ht, hf, if_pos hl]

theorem toNat_byte {n : ℕ} (hn : n < 256) : (UInt8.ofNat n).toNat = n :=
  UInt8.toNat_ofNat_of_lt' hn

theorem toNat_tail (m : ℕ) : (UInt8.ofNat (m % 64 + 128)).toNat = m % 64 + 128 :=
  toNat_byte (by omega)

theorem isTail_tail (m : ℕ) : isTail (UInt8.ofNat (m % 64 + 128)) = true := by
  rw [isTail_iff, toNat_tail]
  omega

theorem bits_tail (m : ℕ) : bits (UInt8.ofNat (m % 64 + 128)) 6 = m % 64 := by
  rw [bits, toNat_tail]
  change (m % 64 + 128) % 64 = m % 64
  omega

section
variable {n : ℕ}

theorem first_one (hn : n < 0x80) (more : List UInt8) :
    first ([UInt8.ofNat n] ++ more) = .ok (Char.ofNat n, 1) := by
  have hb : (UInt8.ofNat n).toNat = n := toNat_byte (by omega)
  have hw : width? (UInt8.ofNat n) = some 1 := by
    rw [width?_eq, hb, if_pos hn]
  rw [first_of_fitting hw rfl rfl more]
  dsimp only [List.foldl_nil]
  rw [if_pos rfl, hb]

theorem first_two (hl : 0x80 ≤ n) (hu : n < 0x800) (more : List UInt8) :
    first ([UInt8.ofNat (n / 64 % 32 + 192), UInt8.ofNat (n % 64 + 128)] ++ more) =
      .ok (Char.ofNat n, 2) := by
  have hb : (UInt8.ofNat (n / 64 % 32 + 192)).toNat = n / 64 % 32 + 192 :=
    toNat_byte (by omega)
  have hw : width? (UInt8.ofNat (n / 64 % 32 + 192)) = some 2 := by
    rw [width?_eq, hb, if_neg (by omega), if_neg (by omega), if_pos (by omega)]
  have hs : secondFits (UInt8.ofNat (n / 64 % 32 + 192)) (UInt8.ofNat (n % 64 + 128)) = true := by
    apply secondFits_of (isTail_tail n) <;> rw [hb] <;> omega
  have hf : fitting (UInt8.ofNat (n / 64 % 32 + 192)) [UInt8.ofNat (n % 64 + 128)] = 1 := by
    rw [fitting, if_pos hs]
    rfl
  have hv : (n / 64 % 32 + 192) % 32 * 64 + n % 64 = n := by omega
  rw [first_of_fitting hw rfl hf more]
  dsimp only [List.foldl_cons, List.foldl_nil]
  rw [if_neg (by omega), bits_tail, bits, hb]
  exact congrArg (fun n => Except.ok (Char.ofNat n, 2)) hv

/-- Surrogates have no encoding. -/
theorem first_three (hl : 0x800 ≤ n) (hu : n < 0x10000) (hc : n < 0xD800 ∨ 0xDFFF < n)
    (more : List UInt8) :
    first ([UInt8.ofNat (n / 4096 % 16 + 224), UInt8.ofNat (n / 64 % 64 + 128),
      UInt8.ofNat (n % 64 + 128)] ++ more) = .ok (Char.ofNat n, 3) := by
  have hb : (UInt8.ofNat (n / 4096 % 16 + 224)).toNat = n / 4096 % 16 + 224 :=
    toNat_byte (by omega)
  have hw : width? (UInt8.ofNat (n / 4096 % 16 + 224)) = some 3 := by
    rw [width?_eq, hb, if_neg (by omega), if_neg (by omega), if_neg (by omega), if_pos (by omega)]
  have hs : secondFits (UInt8.ofNat (n / 4096 % 16 + 224))
      (UInt8.ofNat (n / 64 % 64 + 128)) = true := by
    apply secondFits_of (isTail_tail _) <;> rw [hb, toNat_tail] <;> omega
  have hf : fitting (UInt8.ofNat (n / 4096 % 16 + 224))
      [UInt8.ofNat (n / 64 % 64 + 128), UInt8.ofNat (n % 64 + 128)] = 2 := by
    rw [fitting, if_pos hs, List.takeWhile_cons_of_pos (isTail_tail n)]
    rfl
  have hv : ((n / 4096 % 16 + 224) % 16 * 64 + n / 64 % 64) * 64 + n % 64 = n := by omega
  rw [first_of_fitting hw rfl hf more]
  dsimp only [List.foldl_cons, List.foldl_nil]
  rw [if_neg (by omega), bits_tail, bits_tail, bits, hb]
  exact congrArg (fun n => Except.ok (Char.ofNat n, 3)) hv

theorem first_four (hl : 0x10000 ≤ n) (hu : n < 0x110000) (more : List UInt8) :
    first ([UInt8.ofNat (n / 262144 % 8 + 240), UInt8.ofNat (n / 4096 % 64 + 128),
      UInt8.ofNat (n / 64 % 64 + 128), UInt8.ofNat (n % 64 + 128)] ++ more) =
      .ok (Char.ofNat n, 4) := by
  have hb : (UInt8.ofNat (n / 262144 % 8 + 240)).toNat = n / 262144 % 8 + 240 :=
    toNat_byte (by omega)
  have hw : width? (UInt8.ofNat (n / 262144 % 8 + 240)) = some 4 := by
    rw [width?_eq, hb, if_neg (by omega), if_neg (by omega), if_neg (by omega), if_neg (by omega),
      if_pos (by omega)]
  have hs : secondFits (UInt8.ofNat (n / 262144 % 8 + 240))
      (UInt8.ofNat (n / 4096 % 64 + 128)) = true := by
    have ht := toNat_tail (n / 4096)
    apply secondFits_of (isTail_tail _) <;> rw [hb] <;> omega
  have hf : fitting (UInt8.ofNat (n / 262144 % 8 + 240))
      [UInt8.ofNat (n / 4096 % 64 + 128), UInt8.ofNat (n / 64 % 64 + 128),
        UInt8.ofNat (n % 64 + 128)] = 3 := by
    rw [fitting, if_pos hs, List.takeWhile_cons_of_pos (isTail_tail _),
      List.takeWhile_cons_of_pos (isTail_tail n)]
    rfl
  have hv : (((n / 262144 % 8 + 240) % 8 * 64 + n / 4096 % 64) * 64 + n / 64 % 64) * 64 +
      n % 64 = n := by omega
  rw [first_of_fitting hw rfl hf more]
  dsimp only [List.foldl_cons, List.foldl_nil]
  rw [if_neg (by omega), bits_tail, bits_tail, bits_tail, bits, hb]
  exact congrArg (fun n => Except.ok (Char.ofNat n, 4)) hv

end

theorem first_encode (c : Char) (more : List UInt8) :
    first (String.utf8EncodeChar c ++ more) = .ok (c, (String.utf8EncodeChar c).length) := by
  have hc : c.val.toNat < 0xD800 ∨ (0xDFFF < c.val.toNat ∧ c.val.toNat < 0x110000) := c.valid
  have hn : Char.ofNat c.val.toNat = c := Char.ofNat_toNat c
  rw [String.utf8EncodeChar]
  generalize c.val.toNat = n at hc hn
  subst hn
  split
  · exact first_one (by omega) more
  split
  · exact first_two (by omega) (by omega) more
  split
  · exact first_three (by omega) (by omega) (by omega) more
  · exact first_four (by omega) (by omega) more

theorem encode_decodes (s : List Char) : Decodes (encode s) s := by
  induction s with
  | nil => exact .nil
  | cons c s ih =>
    have he : encode (c :: s) = String.utf8EncodeChar c ++ encode s := List.flatMap_cons
    have hf := first_encode c (encode s)
    rw [he]
    refine .cons hf ?_
    rw [List.drop_left]
    exact ih

theorem decode_encode (s : List Char) : decode (encode s) = .ok s :=
  decodes_decode (encode_decodes s)

end SymbolRename.Text.Utf8
