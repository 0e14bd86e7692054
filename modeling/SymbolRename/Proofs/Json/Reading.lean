import SymbolRename.Json.Reader
import SymbolRename.Json.Writer
import Mathlib.Data.List.Basic

/-!
# Reading JSON that was written

An object of plain texts is read as it was written. Brackets that are opened beyond the limit are
not read at all.
-/

set_option autoImplicit false

namespace SymbolRename.Json
open Text

def isPlain (c : Char) : Bool := isAsciiPrintable c && c ≠ '"' && c ≠ '\\'

def Plain (s : List Char) : Prop := s.all isPlain = true

theorem plain_cons {c : Char} {s : List Char} :
    Plain (c :: s) ↔ (isAsciiPrintable c = true ∧ c ≠ '"' ∧ c ≠ '\\') ∧ Plain s := by
  simp [Plain, isPlain, and_assoc]

theorem printable_bounds {c : Char} (h : isAsciiPrintable c = true) :
    0x20 ≤ c.toNat ∧ c.toNat < 0x7F := by
  simpa [isAsciiPrintable] using h

theorem escape_plain {c : Char} (h : isAsciiPrintable c = true) (hq : c ≠ '"') (hb : c ≠ '\\') :
    escape (.char c) = [c] := by
  obtain ⟨hl, -⟩ := printable_bounds h
  have hne {d : Char} (hd : d.toNat < 0x20) : c ≠ d := by
    rintro rfl
    omega
  rw [escape, escapeChar, if_neg hq, if_neg hb, if_neg (hne (by decide)), if_neg (hne (by decide)),
    if_neg (hne (by decide)), if_neg (by omega), if_neg (by omega), if_pos h]

theorem quoted_plain {s : List Char} (h : Plain s) :
    quoted (ofChars s) = '"' :: s ++ ['"'] := by
  rw [quoted]
  congr 2
  induction s with
  | nil => rfl
  | cons c s ih =>
    obtain ⟨⟨ha, hq, hb⟩, hs⟩ := plain_cons.mp h
    rw [ofChars, List.map_cons, List.flatMap_cons, escape_plain ha hq hb]
    exact congrArg (c :: ·) (ih hs)

theorem takeCodes_plain {s : List Char} (h : Plain s) (rest : List Char) :
    takeCodes (s ++ '"' :: rest) = some (s.map Char.toNat, rest) := by
  induction s with
  | nil => rw [List.nil_append, takeCodes.eq_def]; rfl
  | cons c s ih =>
    obtain ⟨⟨ha, hq, hb⟩, hs⟩ := plain_cons.mp h
    have hl := (printable_bounds ha).1
    rw [List.cons_append, takeCodes.eq_def]
    dsimp only
    rw [if_neg hq, if_neg hb, if_neg (by omega), ih hs]
    rfl

theorem ofNat_plain {c : Char} (h : isAsciiPrintable c = true) : Code.ofNat c.toNat = .char c := by
  have hs : Code.isSurrogate c.toNat = false := by
    have hu := (printable_bounds h).2
    simp [Code.isSurrogate]
    omega
  rw [Code.ofNat, if_neg (by simp [hs]), Char.ofNat_toNat]

theorem joinCodes_plain {s : List Char} (h : Plain s) :
    joinCodes (s.map Char.toNat) = ofChars s := by
  induction s with
  | nil => rfl
  | cons c s ih =>
    obtain ⟨⟨ha, -⟩, hs⟩ := plain_cons.mp h
    cases s with
    | nil => simp [joinCodes, ofNat_plain ha, ofChars]
    | cons d s =>
      have hu := (printable_bounds ha).2
      rw [List.map_cons, List.map_cons, joinCodes, if_neg (by simp; omega), ofNat_plain ha]
      exact congrArg (_ :: ·) (ih hs)

theorem takeText?_plain {s : List Char} (h : Plain s) (rest : List Char) :
    takeText? (s ++ '"' :: rest) = some (ofChars s, rest) := by
  rw [takeText?, takeCodes_plain h, ← joinCodes_plain h]
  rfl

def entryOf (e : List Char × List Char) : Value × Value :=
  (.text (ofChars e.1), .text (ofChars e.2))

def member (e : List Char × List Char) : List Char :=
  '"' :: (e.1 ++ '"' :: ':' :: ' ' :: '"' :: (e.2 ++ ['"']))

def PlainEntry (e : List Char × List Char) : Prop := Plain e.1 ∧ Plain e.2

theorem entryTexts_plain {es : List (List Char × List Char)} (h : ∀ e ∈ es, PlainEntry e) :
    entryTexts (es.map entryOf) = es.map member := by
  induction es with
  | nil => rfl
  | cons e es ih =>
    obtain ⟨hk, hv⟩ := h e List.mem_cons_self
    rw [List.map_cons, List.map_cons, entryOf, entryTexts, write, keyText, quoted_plain hk,
      quoted_plain hv, ih fun e he => h e (List.mem_cons_of_mem _ he)]
    simp [member]

theorem takeValue_plain {s : List Char} (h : Plain s) (fuel depth : ℕ) (rest : List Char) :
    takeValue (fuel + 1) depth ('"' :: (s ++ '"' :: rest)) = .ok (.text (ofChars s), rest) := by
  have ht (t : List Char) : takeValue (fuel + 1) depth ('"' :: t) =
      (orMalformed (takeText? t)).map fun r => (.text r.1, r.2) := by
    rw [takeValue.eq_def]
    cases depth <;> rfl
  rw [ht, takeText?_plain h]
  rfl

/-- What is made of the rest of an object behind one of its entries. -/
theorem takeMembers_plain {e : List Char × List Char} (h : PlainEntry e) (fuel depth : ℕ)
    (rest : List Char) :
    takeMembers (fuel + 2) depth (member e ++ rest) =
      match skipSpace rest with
      | '\x7d' :: rest => .ok ([entryOf e], rest)
      | ',' :: rest => do
        let (ms, rest) ← takeMembers (fuel + 1) depth (skipSpace rest)
        return (entryOf e :: ms, rest)
      | _ => throw .malformed := by
  have hm : member e ++ rest =
      '"' :: (e.1 ++ '"' :: ':' :: ' ' :: '"' :: (e.2 ++ '"' :: rest)) := by simp [member]
  have hs (r : List Char) : skipSpace (':' :: r) = ':' :: r := rfl
  have hq (r : List Char) : skipSpace (' ' :: '"' :: r) = '"' :: r := rfl
  rw [hm, takeMembers, takeText?_plain h.1]
  simp only [orMalformed, bind, Except.bind, hs, hq, takeValue_plain h.2]
  rfl

theorem takeMembers_all {es : List (List Char × List Char)} (h : ∀ e ∈ es, PlainEntry e)
    (hn : es ≠ []) {fuel : ℕ} (hf : es.length < fuel) (depth : ℕ) (rest : List Char) :
    takeMembers fuel depth (separated (es.map member) ++ '\x7d' :: rest) =
      .ok (es.map entryOf, rest) := by
  induction es generalizing fuel with
  | nil => exact absurd rfl hn
  | cons e es ih =>
    obtain ⟨he, hes⟩ := List.forall_mem_cons.mp h
    obtain ⟨fuel, rfl⟩ : ∃ m, fuel = m + 2 := ⟨fuel - 2, by rw [List.length_cons] at hf; omega⟩
    cases es with
    | nil =>
      rw [List.map_singleton, separated, List.intercalate_singleton, takeMembers_plain he]
      rfl
    | cons e' es =>
      obtain ⟨t, ht⟩ : ∃ t, separated ((e' :: es).map member) ++ '\x7d' :: rest = '"' :: t := by
        cases es <;> exact ⟨_, rfl⟩
      have hlength : (e' :: es).length < fuel + 1 := by
        rw [List.length_cons] at hf
        omega
      have hm := ih hes (List.cons_ne_nil e' es) hlength
      have hs : skipSpace (' ' :: '"' :: t) = '"' :: t := rfl
      have hw : separated ((e :: e' :: es).map member) ++ '\x7d' :: rest =
          member e ++ ',' :: ' ' :: '"' :: t := by
        rw [← ht, List.map_cons, List.map_cons, separated, List.intercalate_cons_cons]
        simp [separated]
      rw [hw, takeMembers_plain he]
      rw [ht] at hm
      change (takeMembers (fuel + 1) depth (skipSpace (' ' :: '"' :: t)) >>= _) = _
      rw [hs, hm]
      rfl

theorem length_separated (es : List (List Char × List Char)) :
    es.length ≤ (separated (es.map member)).length := by
  induction es with
  | nil => exact Nat.zero_le _
  | cons e es ih =>
    cases es with
    | nil => simp [separated, member]
    | cons e' es =>
      simp only [separated, List.map_cons, List.intercalate_cons_cons, List.length_append,
        List.length_cons] at ih ⊢
      omega

theorem write_plain {es : List (List Char × List Char)} (h : ∀ e ∈ es, PlainEntry e) :
    write (.dict (es.map entryOf)) = '\x7b' :: (separated (es.map member) ++ ['\x7d']) := by
  rw [write, entryTexts_plain h]
  rfl

/-- An object of plain texts is read as it is written; a key that comes again counts once. -/
theorem read_write_plain {es : List (List Char × List Char)} (h : ∀ e ∈ es, PlainEntry e) :
    read (write (.dict (es.map entryOf))) = .ok (.dict (Entries.ofList (es.map entryOf))) := by
  rw [write_plain h]
  cases es with
  | nil => rfl
  | cons e es =>
    obtain ⟨t, ht⟩ : ∃ t, separated ((e :: es).map member) ++ ['\x7d'] = '"' :: t := by
      cases es <;> exact ⟨_, rfl⟩
    have hl := length_separated (e :: es)
    have hlen := congrArg List.length ht
    rw [List.length_append, List.length_cons (a := '"')] at hlen
    have hlength : (e :: es).length < 2 * ('\x7b' :: '"' :: t).length + 1 := by
      simp at hl hlen ⊢
      omega
    have hm := takeMembers_all h (List.cons_ne_nil e es) hlength 984 []
    rw [ht] at hm ⊢
    have hs : skipSpace ('\x7b' :: '"' :: t) = '\x7b' :: '"' :: t := rfl
    have hv (fuel : ℕ) : takeValue (fuel + 1) depthLimit ('\x7b' :: '"' :: t) =
        (takeMembers fuel 984 ('"' :: t)).map fun (members, rest) =>
          (.dict (Entries.ofList members), rest) := rfl
    rw [read, hs, hv, hm]
    rfl

theorem mem_separated {c : Char} {items : List (List Char)} (h : c ∈ separated items) :
    c = ',' ∨ c = ' ' ∨ ∃ item ∈ items, c ∈ item := by
  induction items with
  | nil => cases h
  | cons item items ih =>
    cases items with
    | nil => exact .inr (.inr ⟨item, List.mem_cons_self, by simpa [separated] using h⟩)
    | cons next items =>
      rw [separated, List.intercalate_cons_cons, List.append_assoc, List.mem_append,
        List.mem_append] at h
      rcases h with hc | hc | hc
      · exact .inr (.inr ⟨item, List.mem_cons_self, hc⟩)
      · simp only [List.mem_cons, List.not_mem_nil, or_false] at hc
        exact hc.imp_right .inl
      · rcases ih hc with h | h | ⟨it, hi, h⟩
        · exact .inl h
        · exact .inr (.inl h)
        · exact .inr (.inr ⟨it, List.mem_cons_of_mem _ hi, h⟩)

theorem break_not_plain {s : List Char} (h : Plain s) : '\r' ∉ s := fun hm =>
  absurd (List.all_eq_true.mp h _ hm) (by decide)

/-- There is no line break in what is written for plain texts. -/
theorem write_unbroken {es : List (List Char × List Char)} (h : ∀ e ∈ es, PlainEntry e) :
    '\r' ∉ write (.dict (es.map entryOf)) := by
  rw [write_plain h, List.mem_cons, List.mem_append, List.mem_singleton]
  rintro (hc | hc | hc)
  · exact absurd hc (by decide)
  · rcases mem_separated hc with hc | hc | ⟨item, hi, hc⟩
    · exact absurd hc (by decide)
    · exact absurd hc (by decide)
    · obtain ⟨e, he, rfl⟩ := List.mem_map.mp hi
      have hk := break_not_plain (h e he).1
      have hv := break_not_plain (h e he).2
      simp [member, hk, hv] at hc
  · exact absurd hc (by decide)

theorem takeValue_brackets {depth n fuel : ℕ} (hd : depth < n) (hf : 2 * depth < fuel) :
    takeValue fuel depth (List.replicate n '[') = .error .tooDeep := by
  induction depth generalizing n fuel with
  | zero =>
    obtain ⟨n, rfl⟩ := Nat.exists_eq_add_of_lt hd
    obtain ⟨fuel, rfl⟩ := Nat.exists_eq_add_of_lt hf
    rfl
  | succ depth ih =>
    obtain ⟨n, rfl⟩ : ∃ m, n = m + 2 := ⟨n - 2, by omega⟩
    obtain ⟨fuel, rfl⟩ : ∃ m, fuel = m + 2 := ⟨fuel - 2, by omega⟩
    have hi : takeValue fuel depth (List.replicate (n + 1) '[') = .error .tooDeep :=
      ih (by omega) (by omega)
    rw [List.replicate_succ] at hi
    have hs : skipSpace ('[' :: List.replicate n '[') = '[' :: List.replicate n '[' := rfl
    simp only [List.replicate_succ, takeValue, takeItems, hs]
    split
    · next h => exact absurd (List.cons.inj h).1 (by decide)
    · rw [hi]
      rfl

/-- Brackets that are opened beyond the limit are told as such, not as a fault of the text. -/
theorem read_brackets {n : ℕ} (hn : depthLimit < n) :
    read (List.replicate n '[') = .error .tooDeep := by
  have hs : skipSpace (List.replicate n '[') = List.replicate n '[' := by
    cases n <;> rfl
  rw [read, hs, takeValue_brackets hn (by rw [List.length_replicate]; omega)]
  rfl

end SymbolRename.Json
