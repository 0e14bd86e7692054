import SymbolRename.Yaml.Supply
import SymbolRename.Yaml.Writer
import Mathlib.Data.List.Basic

/-!
# What is written is made of

A document that is written holds only characters that a document may hold, and among them no
carriage return: what is no such character makes its text stand between double quotes, where it is
written by an escape. Said here of documents of texts, lists and dictionaries.
-/

set_option autoImplicit false

namespace SymbolRename.Yaml

/-- A document may hold the character, and reading a file leaves it as it is. -/
def Lasting (c : Char) : Prop := isAllowed c = true ∧ c ≠ '\r'

instance (c : Char) : Decidable (Lasting c) := inferInstanceAs (Decidable (_ ∧ _))

def AllLasting (s : List Char) : Prop := ∀ c ∈ s, Lasting c

instance (s : List Char) : Decidable (AllLasting s) := List.decidableBAll Lasting s

theorem allLasting_nil : AllLasting [] := fun _ hc => nomatch hc

theorem allLasting_cons {c : Char} {s : List Char} :
    AllLasting (c :: s) ↔ Lasting c ∧ AllLasting s := List.forall_mem_cons

theorem allLasting_append {s t : List Char} :
    AllLasting (s ++ t) ↔ AllLasting s ∧ AllLasting t := List.forall_mem_append

theorem lasting_of_toNat {c : Char}
    (h : c.toNat = 0xA ∨ (0x20 ≤ c.toNat ∧ c.toNat ≤ 0x7E) ∨ c.toNat = 0x85 ∨
      (0xA0 ≤ c.toNat ∧ c.toNat ≤ 0xD7FF) ∨ (0xE000 ≤ c.toNat ∧ c.toNat ≤ 0xFFFD) ∨
      0x10000 ≤ c.toNat) : Lasting c := by
  constructor
  · simp only [isAllowed, Bool.or_eq_true, Bool.and_eq_true, decide_eq_true_eq]
    omega
  · rintro rfl
    revert h
    decide

namespace Style

theorem lasting_of_plain {c : Char} (h : needsEscape true c = false) : Lasting c := by
  apply lasting_of_toNat
  simp only [needsEscape, isAscii, isWide, Bool.not_eq_false', Bool.or_eq_true, Bool.and_eq_true,
    Bool.true_and, decide_eq_true_eq] at h
  rcases h with (rfl | h) | h
  · exact .inl rfl
  · exact .inr (.inl h)
  · omega

theorem lasting_of_literal {c : Char} (h : isLiteral true c = true) : Lasting c := by
  apply lasting_of_toNat
  simp only [isLiteral, isAscii, Bool.or_eq_true, Bool.and_eq_true, Bool.true_and,
    decide_eq_true_eq] at h
  omega

theorem pad_lasting (n : ℕ) : AllLasting (pad n) := by
  intro c hc
  rw [List.eq_of_mem_replicate hc]
  decide

theorem newLine_lasting (indent : ℕ) : AllLasting (newLine indent) :=
  allLasting_cons.mpr ⟨by decide, pad_lasting indent⟩

def Run.chars : Run → List Char
  | .spaces _ => []
  | .breaks cs | .word cs => cs

def RunsLasting (rs : List Run) : Prop := ∀ r ∈ rs, AllLasting (Run.chars r)

theorem runsLasting_cons {r : Run} {rs : List Run} :
    RunsLasting (r :: rs) ↔ AllLasting (Run.chars r) ∧ RunsLasting rs := List.forall_mem_cons

theorem addChar_lasting {c : Char} {rs : List Run} (hc : Lasting c) (hr : RunsLasting rs) :
    RunsLasting (addChar c rs) := by
  rw [addChar.eq_def]
  split
  · split
    · exact runsLasting_cons.mpr ⟨allLasting_nil, (runsLasting_cons.mp hr).2⟩
    · exact runsLasting_cons.mpr ⟨allLasting_nil, hr⟩
  · split
    · split
      · obtain ⟨hb, hr⟩ := runsLasting_cons.mp hr
        exact runsLasting_cons.mpr ⟨allLasting_cons.mpr ⟨hc, hb⟩, hr⟩
      · exact runsLasting_cons.mpr ⟨allLasting_cons.mpr ⟨hc, allLasting_nil⟩, hr⟩
    · split
      · obtain ⟨hb, hr⟩ := runsLasting_cons.mp hr
        exact runsLasting_cons.mpr ⟨allLasting_cons.mpr ⟨hc, hb⟩, hr⟩
      · exact runsLasting_cons.mpr ⟨allLasting_cons.mpr ⟨hc, allLasting_nil⟩, hr⟩

theorem runs_lasting {s : List Char} (h : AllLasting s) : RunsLasting (runs s) := by
  induction s with
  | nil => exact fun _ hr => nomatch hr
  | cons c s ih =>
    obtain ⟨hc, hs⟩ := allLasting_cons.mp h
    exact addChar_lasting hc (ih hs)

theorem writtenBreaks_lasting {cs : List Char} (h : AllLasting cs) :
    AllLasting (writtenBreaks cs) := by
  rw [writtenBreaks]
  split
  · exact allLasting_cons.mpr ⟨by decide, h⟩
  · exact h

theorem fold_lasting {written : List Char → List Char}
    (hw : ∀ cs, AllLasting cs → AllLasting (written cs)) (split : Bool) (indent : ℕ)
    {rs : List Run} (hr : RunsLasting rs) (first : Bool) (column : ℕ) :
    AllLasting (fold split indent written first column rs) := by
  induction rs generalizing first column with
  | nil => exact allLasting_nil
  | cons r rs ih =>
    obtain ⟨hc, hrest⟩ := runsLasting_cons.mp hr
    cases r with
    | spaces n =>
      rw [fold]
      split
      · exact allLasting_append.mpr ⟨newLine_lasting indent, ih hrest _ _⟩
      · exact allLasting_append.mpr ⟨pad_lasting n, ih hrest _ _⟩
    | breaks cs =>
      rw [fold]
      refine allLasting_append.mpr ⟨allLasting_append.mpr ⟨?_, pad_lasting indent⟩, ih hrest _ _⟩
      exact writtenBreaks_lasting hc
    | word cs => exact allLasting_append.mpr ⟨hw cs hc, ih hrest _ _⟩

theorem doubleQuotes_lasting {cs : List Char} (h : AllLasting cs) :
    AllLasting (doubleQuotes cs) := by
  intro c hc
  obtain ⟨d, hd, hm⟩ := List.mem_flatMap.mp hc
  split at hm
  · have hq : c = '\x27' := by simpa using hm
    rw [hq]
    decide
  · rw [List.mem_singleton.mp hm]
    exact h d hd

theorem hexDigit_lasting : ∀ d < 16, Lasting (Text.hexDigit d).toUpper := by
  decide

theorem digits_lasting (fuel n : ℕ) : ∀ c ∈ Text.digitsFrom 16 fuel n, Lasting c.toUpper := by
  induction fuel generalizing n with
  | zero => exact fun _ hc => nomatch hc
  | succ fuel ih =>
    intro c hc
    rw [Text.digitsFrom] at hc
    rcases List.mem_cons.mp hc with rfl | hc
    · exact hexDigit_lasting _ (Nat.mod_lt n (by decide))
    · split at hc
      · cases hc
      · exact ih _ c hc

theorem upperHex_lasting (width n : ℕ) : AllLasting (upperHex width n) := by
  intro c hc
  obtain ⟨d, hm, rfl⟩ := List.mem_map.mp hc
  rcases List.mem_append.mp hm with hm | hm
  · rw [List.eq_of_mem_replicate hm]
    decide
  · exact digits_lasting _ _ d (List.mem_reverse.mp hm)

theorem letters_lasting : ∀ e ∈ letters, Lasting e.2 := by
  decide

theorem escape_lasting (c : Code) : AllLasting (escape c) := by
  have hb : Lasting '\\' := by decide
  rw [escape]
  split
  · next l hl =>
    have hm := letters_lasting _ (List.mem_of_find?_eq_some hl)
    exact allLasting_cons.mpr ⟨hb, allLasting_cons.mpr ⟨hm, allLasting_nil⟩⟩
  · split
    · exact allLasting_cons.mpr ⟨hb, allLasting_cons.mpr ⟨by decide, upperHex_lasting _ _⟩⟩
    · split
      · exact allLasting_cons.mpr ⟨hb, allLasting_cons.mpr ⟨by decide, upperHex_lasting _ _⟩⟩
      · exact allLasting_cons.mpr ⟨hb, allLasting_cons.mpr ⟨by decide, upperHex_lasting _ _⟩⟩

theorem lasting_of_literal? {c : Code} {x : Char} (h : literal? true c = some x) : Lasting x := by
  cases c with
  | half n => cases h
  | char c =>
    rw [literal?] at h
    split at h
    · next hl =>
      cases h
      exact lasting_of_literal hl
    · cases h

theorem escaped_lasting (split : Bool) (indent : ℕ) (s : Text) (first afterEscape : Bool)
    (column : ℕ) : AllLasting (escaped true split indent first afterEscape column s) := by
  have hb : Lasting '\\' := by decide
  have hk (q : Prop) [Decidable q] : AllLasting (if q then ['\\'] else []) := by
    split <;> decide
  have hl : AllLasting ('\\' :: newLine indent) :=
    allLasting_cons.mpr ⟨hb, newLine_lasting indent⟩
  induction s generalizing first afterEscape column with
  | nil => exact allLasting_nil
  | cons c s ih =>
    rw [escaped]
    dsimp only
    split
    · next x hx =>
      have hx : Lasting x := lasting_of_literal? hx
      split
      · refine allLasting_append.mpr ⟨allLasting_append.mpr ⟨hl, hk _⟩, ?_⟩
        exact allLasting_cons.mpr ⟨hx, ih _ _ _⟩
      · exact allLasting_cons.mpr ⟨hx, ih _ _ _⟩
    · split
      · refine allLasting_append.mpr ⟨allLasting_append.mpr ⟨?_, hk _⟩, ih _ _ _⟩
        exact allLasting_append.mpr ⟨escape_lasting c, hl⟩
      · exact allLasting_append.mpr ⟨escape_lasting c, ih _ _ _⟩

def Sound : Style → Prop
  | .plain s | .single s => AllLasting s
  | .double _ => True

theorem allLasting_of_any {s : List Char} (h : s.any (needsEscape true) = false) :
    AllLasting s := by
  intro c hc
  apply lasting_of_plain
  rw [List.any_eq_false] at h
  simpa using h c hc

theorem ofText_sound (s : Text) : (ofText true s).Sound := by
  rw [ofText]
  split
  · next cs _ =>
    rw [ofChars]
    split
    · next hp =>
      simp only [fitsPlain, Bool.and_eq_true, Bool.not_eq_true'] at hp
      exact allLasting_of_any hp.2.1.1.2
    · split
      · next hs =>
        simp only [fitsSingle, Bool.and_eq_true, Bool.not_eq_true'] at hs
        exact allLasting_of_any hs.2
      · trivial
  · trivial

theorem write_lasting {style : Style} (h : style.Sound) (split : Bool) (column indent : ℕ) :
    AllLasting (style.write true split column indent) := by
  cases style with
  | plain s => exact fold_lasting (fun _ hs => hs) split indent (runs_lasting h) true column
  | single s =>
    have hf := fold_lasting (fun _ hs => doubleQuotes_lasting hs) split indent (runs_lasting h) true
      (column + 1)
    exact allLasting_append.mpr ⟨allLasting_cons.mpr ⟨by decide, hf⟩, by decide⟩
  | double s =>
    have he := escaped_lasting split indent s true false (column + 1)
    exact allLasting_append.mpr ⟨allLasting_cons.mpr ⟨by decide, he⟩, by decide⟩

end Style

namespace Writer

theorem text_lasting (s : Text) (column indent : ℕ) :
    AllLasting (scalarLines true column indent (text true s)) := by
  have hl : AllLasting ['\n'] := by decide
  exact allLasting_append.mpr ⟨Style.write_lasting (Style.ofText_sound s) true _ indent, hl⟩

theorem stacked_lasting (indent : ℕ) {blocks : List (List Char)}
    (h : ∀ b ∈ blocks, AllLasting b) : AllLasting (stacked indent blocks) := by
  cases blocks with
  | nil => exact allLasting_nil
  | cons b bs =>
    refine allLasting_append.mpr ⟨h b (by simp), ?_⟩
    intro c hc
    obtain ⟨d, hd, hm⟩ := List.mem_flatMap.mp hc
    rcases List.mem_append.mp hm with hm | hm
    · exact Style.pad_lasting indent c hm
    · exact h d (by simp [hd]) c hm

/-- Wherever the value stands in a document, it is written in such characters. -/
structure ValueLasting (v : Value) : Prop where
  mark : ∀ indent, AllLasting (afterMark true indent v)
  key : ∀ indent column, AllLasting (afterKey true indent column v)

theorem valueLasting_text (s : Text) : ValueLasting (.text s) := by
  constructor
  · intro indent
    exact text_lasting s indent indent
  · intro indent column
    exact allLasting_cons.mpr ⟨by decide, text_lasting s (column + 1) (indent + 2)⟩

theorem itemBlocks_lasting {vs : List Value} (h : ∀ v ∈ vs, ValueLasting v) (indent : ℕ) :
    ∀ b ∈ itemBlocks true indent vs, AllLasting b := by
  induction vs with
  | nil => exact fun _ hb => nomatch hb
  | cons v vs ih =>
    intro b hb
    rcases List.mem_cons.mp hb with rfl | hb
    · refine allLasting_cons.mpr ⟨by decide, allLasting_cons.mpr ⟨by decide, ?_⟩⟩
      exact (h v (by simp)).mark (indent + 2)
    · exact ih (fun w hw => h w (by simp [hw])) b hb

theorem valueLasting_list {vs : List Value} (h : ∀ v ∈ vs, ValueLasting v) :
    ValueLasting (.list vs) := by
  have hn : AllLasting emptySequence := by decide
  constructor
  · intro indent
    rw [afterMark]
    split
    · exact hn
    · exact stacked_lasting indent (itemBlocks_lasting h indent)
  · intro indent column
    rw [afterKey]
    split
    · exact allLasting_cons.mpr ⟨by decide, hn⟩
    · refine allLasting_append.mpr ⟨Style.newLine_lasting indent, ?_⟩
      exact stacked_lasting indent (itemBlocks_lasting h indent)

theorem simpleKey_lasting {k : Text} {column : ℕ} {key : List Char}
    (h : simpleKey? true column (.text k) = some key) : AllLasting key := by
  change (if _ then some _ else none) = some key at h
  split at h
  · cases h
    exact Style.write_lasting (Style.ofText_sound k) false column 0
  · cases h

theorem entryBlocks_lasting {es : List (Text × Value)} (h : ∀ e ∈ es, ValueLasting e.2)
    (indent : ℕ) :
    ∀ b ∈ entryBlocks true indent (es.map fun e => (.text e.1, e.2)), AllLasting b := by
  induction es with
  | nil => exact fun _ hb => nomatch hb
  | cons e es ih =>
    intro b hb
    rw [List.map_cons, entryBlocks] at hb
    rcases List.mem_cons.mp hb with rfl | hb
    · have hv := h e (by simp)
      split
      · next key hk =>
        refine allLasting_append.mpr ⟨simpleKey_lasting hk, ?_⟩
        exact allLasting_cons.mpr ⟨by decide, hv.key indent _⟩
      · apply stacked_lasting
        have hm (c : Char) (hc : Lasting c) {s : List Char} (hs : AllLasting s) :
            AllLasting (c :: ' ' :: s) :=
          allLasting_cons.mpr ⟨hc, allLasting_cons.mpr ⟨by decide, hs⟩⟩
        intro b hb
        rcases List.mem_pair.mp hb with rfl | rfl
        · exact hm '?' (by decide) ((valueLasting_text e.1).mark _)
        · exact hm ':' (by decide) (hv.mark _)
    · exact ih (fun w hw => h w (by simp [hw])) b hb

theorem valueLasting_dict (es : List (Text × Value)) (h : ∀ e ∈ es, ValueLasting e.2) :
    ValueLasting (.dict (es.map fun e => (.text e.1, e.2))) := by
  have hn : AllLasting emptyMapping := by decide
  constructor
  · intro indent
    rw [afterMark]
    split
    · exact hn
    · exact stacked_lasting indent (entryBlocks_lasting h indent)
  · intro indent column
    rw [afterKey]
    split
    · exact allLasting_cons.mpr ⟨by decide, hn⟩
    · refine allLasting_append.mpr ⟨Style.newLine_lasting (indent + 2), ?_⟩
      exact stacked_lasting (indent + 2) (entryBlocks_lasting h (indent + 2))

/-- The document of a dictionary. -/
theorem document_lasting (es : List (Text × Value)) (h : ∀ e ∈ es, ValueLasting e.2) :
    AllLasting (document true (.dict (es.map fun e => (.text e.1, e.2)))) :=
  (valueLasting_dict es h).mark 0

end Writer
end SymbolRename.Yaml
