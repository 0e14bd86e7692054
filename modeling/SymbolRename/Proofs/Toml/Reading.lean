import SymbolRename.Proofs.Task
import SymbolRename.Proofs.Text.Taking
import SymbolRename.Toml.Reader

/-!
# How reading TOML ends

Each part of the reading takes something off the front of a text and leaves an end of it, or finds
that the text is no TOML. Two faults remain: a decimal integer may have more digits than can be
read, and brackets may open deeper than the reading goes. A text that has few digits and few opening
brackets in all runs into neither: what is left for a part has no more of them than the whole.
-/

set_option autoImplicit false

namespace SymbolRename.Toml
open Text

/-- A part of the reading gives what it should, or finds that the text is no TOML. -/
abbrev Reads {α : Type} (P : α → Prop) (r : Except Fault α) : Prop := Yields (· = .malformed) P r

/-- The same, but nothing is said about the fault unless the text keeps within bounds. -/
abbrev ReadsIf {α : Type} (bounded : Prop) (P : α → Prop) (r : Except Fault α) : Prop :=
  Yields (fun e => bounded → e = .malformed) P r

section Leaves
variable {α β : Type} {s t : List Char} {r : Except Fault (α × List Char)}

theorem Reads.later (h : Reads (Leaves s) r) (hs : s <:+ t) : Reads (Leaves t) r :=
  h.imp fun _ ha => ha.trans hs

theorem Reads.along (h : Reads (Leaves s) r) (hs : s <:+ t) {f : α → β} :
    Reads (Leaves t) (r.map fun (a, rest) => (f a, rest)) :=
  h.map fun _ ha => ha.trans hs

end Leaves

section Bounds
variable {α : Type} {P : α → Prop} {r : Except Fault α} {b c : Prop}

theorem Reads.anyway (h : Reads P r) : ReadsIf b P r := h.weaken fun _ he _ => he

theorem ReadsIf.within (h : ReadsIf b P r) (hb : b) : Reads P r := h.weaken fun _ he => he hb

theorem ReadsIf.mono (h : ReadsIf b P r) (hb : c → b) : ReadsIf c P r :=
  h.weaken fun _ he hc => he (hb hc)

end Bounds

/-! ## Texts and keys -/

theorem takeBasic_reads (multiline : Bool) (skipping : Skipping) (s : List Char) :
    Reads (Leaves s) (takeBasic multiline skipping s) := by
  fun_induction takeBasic multiline skipping s
  -- the closing quotes
  case case6 => exact List.suffix_cons _ _
  case case7 => exact List.suffix_append [_, _, _] _
  -- nothing is added, or one character is
  case case2 ih | case3 ih | case5 ih => exact ih.later (List.suffix_cons _ _)
  case case13 ih | case14 ih => exact ih.later (List.suffix_append [_, _] _)
  case case8 ih | case19 ih => exact ih.along (List.suffix_cons _ _)
  case case15 ih => exact ih.along (List.suffix_append [_, _] _)
  case case9 ih => exact ih.along (List.suffix_append [_, _, _, _, _, _] _)
  case case11 ih => exact ih.along (List.suffix_append [_, _, _, _, _, _, _, _, _, _] _)
  all_goals rfl

theorem takeLiteral_reads (multiline : Bool) (s : List Char) :
    Reads (Leaves s) (takeLiteral multiline s) := by
  fun_induction takeLiteral multiline s
  case case2 => exact List.suffix_cons _ _
  case case3 => exact List.suffix_append [_, _, _] _
  case case4 ih | case6 ih => exact ih.along (List.suffix_cons _ _)
  all_goals rfl

theorem takeExtra_leaves (quote : Char) (s : List Char) : Leaves s (takeExtra quote s) := by
  fun_cases takeExtra quote s
  case case1 => exact List.suffix_append [_, _] _
  case case2 | case4 => exact List.suffix_cons _ _
  all_goals exact List.suffix_refl _

theorem dropFeed_suffix (s : List Char) : dropFeed s <:+ s := by
  rw [dropFeed.eq_def]
  split
  · exact List.suffix_cons _ _
  · exact List.suffix_refl _

theorem takeText_reads (s : List Char) : Reads (Leaves s) (takeText s) := by
  fun_cases takeText s
  case case1 s =>
    refine (takeBasic_reads true .nothing (dropFeed s)).bind fun ⟨t, rest⟩ hr => ?_
    exact (takeExtra_leaves '"' rest).trans
      (hr.trans ((dropFeed_suffix s).trans (List.suffix_append [_, _, _] s)))
  case case2 s =>
    refine (takeLiteral_reads true (dropFeed s)).bind fun ⟨t, rest⟩ hr => ?_
    exact (takeExtra_leaves '\x27' rest).trans
      (hr.trans ((dropFeed_suffix s).trans (List.suffix_append [_, _, _] s)))
  case case3 s _ => exact (takeBasic_reads false .nothing s).along (List.suffix_cons _ _)
  case case4 s _ => exact (takeLiteral_reads false s).along (List.suffix_cons _ _)
  case case5 => rfl

theorem takeKeyPart_reads (s : List Char) : Reads (Leaves s) (takeKeyPart s) := by
  fun_cases takeKeyPart s
  case case1 s => exact (takeBasic_reads false .nothing s).along (List.suffix_cons _ _)
  case case2 s => exact (takeLiteral_reads false s).along (List.suffix_cons _ _)
  case case3 => rfl
  case case4 => exact List.dropWhile_suffix _

theorem skipBlanks_suffix (s : List Char) : skipBlanks s <:+ s := List.dropWhile_suffix _

theorem takeKey_reads (fuel : ℕ) (s : List Char) : Reads (Leaves s) (takeKey fuel s) := by
  induction fuel generalizing s with
  | zero => rfl
  | succ fuel ih =>
    rw [takeKey]
    refine (takeKeyPart_reads s).bind fun ⟨part, rest⟩ hr => ?_
    have hs : skipBlanks rest <:+ s := (skipBlanks_suffix rest).trans hr
    dsimp only
    split
    · next rest' he =>
      rw [he] at hs
      refine (ih (skipBlanks rest')).bind fun ⟨parts, behind⟩ hb => ?_
      exact hb.trans ((skipBlanks_suffix rest').trans ((List.suffix_cons _ _).trans hs))
    · exact hs

theorem skipComment_reads (s : List Char) : Reads (· <:+ s) (skipComment s) := by
  rw [skipComment.eq_def]
  split
  · split
    · rfl
    · exact (List.dropWhile_suffix _).trans (List.suffix_cons _ _)
  · exact List.suffix_refl _

theorem skipFiller_reads (fuel : ℕ) (s : List Char) : Reads (· <:+ s) (skipFiller fuel s) := by
  induction fuel generalizing s with
  | zero => exact List.suffix_refl _
  | succ fuel ih =>
    rw [skipFiller.eq_def]
    dsimp only
    split
    · exact (skipComment_reads _).bind fun t ht => (ih t).imp fun _ h => h.trans ht
    · split
      · exact (ih _).imp fun _ h => h.trans (List.suffix_cons _ _)
      · exact List.suffix_refl _
    · exact List.suffix_refl _

/-! ## Numbers and moments -/

structure TakesDigits (base : ℕ) (s : List Char) (taken : List Char × List Char) : Prop where
  length : taken.1.length ≤ s.countP (isDigitIn base)
  rest : taken.2 <:+ s

theorem takesDigits_none (base : ℕ) (s : List Char) : TakesDigits base s ([], s) :=
  ⟨Nat.zero_le _, List.suffix_refl s⟩

theorem TakesDigits.cons {base : ℕ} {c : Char} {s digits rest : List Char}
    (h : TakesDigits base s (digits, rest)) (hc : isDigitIn base c = true) :
    TakesDigits base (c :: s) (c :: digits, rest) := by
  constructor
  · rw [List.countP_cons_of_pos hc]
    exact Nat.succ_le_succ h.length
  · exact h.rest.trans (List.suffix_cons c s)

theorem TakesDigits.later {base : ℕ} {s t : List Char} {taken : List Char × List Char}
    (h : TakesDigits base s taken) (hs : s <:+ t) : TakesDigits base t taken :=
  ⟨h.length.trans (hs.sublist.countP_le), h.rest.trans hs⟩

theorem takeMore_digits (base : ℕ) (s : List Char) : TakesDigits base s (takeMore base s) := by
  fun_induction takeMore base s
  case case2 c s hc digits rest hr ih =>
    rw [hr] at ih
    exact ih.cons hc
  case case3 d s hd digits rest hr _ ih =>
    rw [hr] at ih
    exact (ih.cons hd).later (List.suffix_cons _ _)
  all_goals exact takesDigits_none _ _

theorem takeDigits_digits (base : ℕ) (s : List Char) :
    Offers (TakesDigits base s) (takeDigits base s) := by
  cases s with
  | nil => exact offers_none
  | cons c s =>
    rw [takeDigits]
    split
    · next hc => exact offers_some ((takeMore_digits base s).cons hc)
    · exact offers_none

theorem takeWhole_digits (s : List Char) : Offers (TakesDigits 10 s) (takeWhole s) := by
  rw [takeWhole.eq_def]
  split
  · next s => exact offers_some ((takesDigits_none 10 s).cons (by decide))
  · exact takeDigits_digits 10 _

theorem takeFraction_leaves (s : List Char) : Leaves s (takeFraction s) := by
  rw [takeFraction.eq_def]
  split
  · next s =>
    cases h : takeDigits 10 s with
    | none => exact List.suffix_refl _
    | some taken => exact ((takeDigits_digits 10 s) taken h).rest.trans (List.suffix_cons _ _)
  · exact List.suffix_refl _

theorem takeExponent_leaves (s : List Char) : Leaves s (takeExponent s) := by
  rw [takeExponent.eq_def]
  split
  · next c r =>
    split
    · dsimp only
      split
      · next digits rest h =>
        exact ((takeDigits_digits 10 _) _ h).rest.trans
          ((takeSign_suffix r).trans (List.suffix_cons c r))
      · exact List.suffix_refl _
    · exact List.suffix_refl _
  · exact List.suffix_refl _

theorem takeMarked_leaves (s : List Char) : Offers (Leaves s) (takeMarked? s) := by
  rw [takeMarked?.eq_def]
  split
  · next c s =>
    have hd (base : ℕ) : Offers (Leaves ('0' :: c :: s)) (takeDigits base s >>= fun taken =>
        some (Value.int (digitsValue base taken.1), taken.2)) := by
      refine (takeDigits_digits base s).bind fun taken h => offers_some ?_
      exact h.rest.trans (List.suffix_append [_, _] s)
    dsimp only
    split
    · exact hd 16
    · split
      · exact hd 8
      · split
        · exact hd 2
        · exact offers_none
  · exact offers_none

theorem takeFloatWord_leaves (s : List Char) : Offers (Leaves s) (takeFloatWord? s) := by
  intro taken h
  rcases Option.or_eq_some_iff.mp h with h | ⟨-, h⟩
  all_goals
    obtain ⟨rest, hr, rfl⟩ := Option.map_eq_some_iff.mp h
    exact (isPrefixOf?_suffix hr).trans (takeSign_suffix s)

theorem wordValue_leaves (s : List Char) : Offers (Leaves s) (wordValue? s) := by
  intro taken h
  rcases Option.or_eq_some_iff.mp h with h | ⟨-, h⟩
  all_goals
    obtain ⟨rest, hr, rfl⟩ := Option.map_eq_some_iff.mp h
    exact isPrefixOf?_suffix hr

theorem takeDecimal_reads (s : List Char) :
    ReadsIf (s.countP (isDigitIn 10) ≤ digitLimit) (Leaves s) (takeDecimal s) := by
  rw [takeDecimal]
  dsimp only
  split
  · next whole rest hw =>
    have ht := ((takeWhole_digits _) _ hw).later (takeSign_suffix s)
    have hf := (takeFraction_leaves rest).trans ht.rest
    have he := (takeExponent_leaves (takeFraction rest).2).trans hf
    split
    · split
      · next hn => exact fun h => absurd (ht.length.trans h) (Nat.not_le.mpr hn)
      · exact he
    · exact he
  · exact fun _ => rfl

theorem takeNat_leaves (count low high : ℕ) (s : List Char) :
    Offers (Leaves s) (takeNat count low high s) := by
  rw [takeNat]
  split
  · intro taken h
    obtain ⟨n, -, hn⟩ := Option.mem_bind_iff.mp h
    dsimp only at hn
    split at hn
    · cases hn
      exact List.drop_suffix count s
    · cases hn
  · exact offers_none

theorem takeChar_suffix (c : Char) (s : List Char) : Offers (· <:+ s) (takeChar c s) := by
  cases s with
  | nil => exact offers_none
  | cons d s =>
    rw [takeChar]
    split
    · exact offers_some (List.suffix_cons d s)
    · exact offers_none

theorem takeMicroseconds_leaves (s : List Char) : Leaves s (takeMicroseconds s) := by
  rw [takeMicroseconds.eq_def]
  split
  · dsimp only
    split
    · exact List.suffix_refl _
    · exact (List.dropWhile_suffix _).trans (List.suffix_cons _ _)
  · exact List.suffix_refl _

theorem takeTime_leaves (s : List Char) : Offers (Leaves s) (takeTime? s) := by
  rw [takeTime?]
  refine (takeNat_leaves 2 0 23 s).bind fun ⟨hour, s₁⟩ h₁ => ?_
  refine (takeChar_suffix ':' s₁).bind fun s₂ h₂ => ?_
  refine (takeNat_leaves 2 0 59 s₂).bind fun ⟨minute, s₃⟩ h₃ => ?_
  refine (takeChar_suffix ':' s₃).bind fun s₄ h₄ => ?_
  refine (takeNat_leaves 2 0 59 s₄).bind fun ⟨second, s₅⟩ h₅ => offers_some ?_
  exact (takeMicroseconds_leaves s₅).trans
    (h₅.trans (h₄.trans (h₃.trans (h₂.trans h₁))))

theorem takeDate_leaves (s : List Char) : Offers (Leaves s) (takeDate? s) := by
  rw [takeDate?]
  refine (takeNat_leaves 4 0 9999 s).bind fun ⟨year, s₁⟩ h₁ => ?_
  refine (takeChar_suffix '-' s₁).bind fun s₂ h₂ => ?_
  refine (takeNat_leaves 2 1 12 s₂).bind fun ⟨month, s₃⟩ h₃ => ?_
  refine (takeChar_suffix '-' s₃).bind fun s₄ h₄ => ?_
  refine (takeNat_leaves 2 1 31 s₄).bind fun ⟨day, s₅⟩ h₅ => offers_some ?_
  exact h₅.trans (h₄.trans (h₃.trans (h₂.trans h₁)))

theorem takeOffset_leaves (s : List Char) : Offers (Leaves s) (takeOffset? s) := by
  rw [takeOffset?.eq_def]
  split
  · next c s =>
    split
    · exact offers_some (List.suffix_cons c s)
    · split
      · refine (takeNat_leaves 2 0 23 s).bind fun ⟨hour, s₁⟩ h₁ => ?_
        refine (takeChar_suffix ':' s₁).bind fun s₂ h₂ => ?_
        refine (takeNat_leaves 2 0 59 s₂).bind fun ⟨minute, s₃⟩ h₃ => offers_some ?_
        exact h₃.trans (h₂.trans (h₁.trans (List.suffix_cons c s)))
      · exact offers_none
  · exact offers_none

theorem takeTimeAfterDate_leaves (s : List Char) :
    Offers (Leaves s) (takeTimeAfterDate? s) := by
  rw [takeTimeAfterDate?.eq_def]
  split
  · next c s =>
    split
    · exact fun taken h => (takeTime_leaves s taken h).trans (List.suffix_cons c s)
    · exact offers_none
  · exact offers_none

theorem takeMoment_reads (s : List Char) : Offers (Reads (Leaves s)) (takeMoment? s) := by
  rw [takeMoment?]
  split
  · next date rest hd =>
    have hr : rest <:+ s := takeDate_leaves s _ hd
    refine offers_some ?_
    split
    · rfl
    · split
      · exact hr
      · next time rest' ht =>
        have hr' := (takeTimeAfterDate_leaves rest _ ht).trans hr
        split
        · next offset behind ho => exact (takeOffset_leaves rest' _ ho).trans hr'
        · exact hr'
  · intro r hm
    obtain ⟨taken, ht, rfl⟩ := Option.map_eq_some_iff.mp hm
    exact takeTime_leaves s taken ht

/-! ## Collections -/

def opens (c : Char) : Bool := c = '[' || c = '\x7b'

/-- A text has too few digits and too few opening brackets to be too much for the reading. -/
structure Modest (left : ℕ) (s : List Char) : Prop where
  digits : s.countP (isDigitIn 10) ≤ digitLimit
  brackets : tableWeight * s.countP opens ≤ left

theorem Modest.sublist {left : ℕ} {s t : List Char} (h : Modest left s) (ht : t.Sublist s) :
    Modest left t :=
  ⟨ht.countP_le.trans h.digits, (Nat.mul_le_mul_left _ ht.countP_le).trans h.brackets⟩

theorem Modest.suffix {left : ℕ} {s t : List Char} (h : Modest left s) (ht : t <:+ s) :
    Modest left t := h.sublist ht.sublist

/-- There is weight left for a collection that opens here, and enough for what is behind. -/
theorem deeper_reads {weight left : ℕ} {c : Char} {s : List Char} (hc : opens c = true)
    (hw : weight ≤ tableWeight) :
    ReadsIf (Modest left (c :: s)) (fun rest => Modest left (c :: s) → Modest rest s)
      (deeper weight left) := by
  have hb (h : Modest left (c :: s)) : tableWeight * s.countP opens + tableWeight ≤ left := by
    have hb := h.brackets
    rwa [List.countP_cons_of_pos hc, Nat.mul_succ] at hb
  rw [deeper]
  split
  · next hl =>
    intro h
    have := hb h
    omega
  · intro h
    have := hb h
    exact ⟨(h.suffix (List.suffix_cons c s)).digits, by omega⟩

mutual

theorem takeValue_reads : ∀ (fuel left : ℕ) (s : List Char),
    ReadsIf (Modest left s) (Leaves s) (takeValue fuel left s)
  | 0, _, _ => fun _ => rfl
  | fuel + 1, left, s => by
    rw [takeValue.eq_def]
    dsimp only
    split
    · exact ((takeText_reads _).along (List.suffix_refl _)).anyway
    · exact ((takeText_reads _).along (List.suffix_refl _)).anyway
    · next s =>
      refine (deeper_reads (c := '[') rfl (by decide)).bind fun left' hl => ?_
      refine ((takeItems_reads fuel left' s).mono hl).bind fun ⟨items, rest⟩ hr => ?_
      exact hr.trans (List.suffix_cons _ s)
    · next s =>
      refine (deeper_reads (c := '\x7b') rfl (by decide)).bind fun left' hl => ?_
      have hs := skipBlanks_suffix s
      split
      · next rest he =>
        rw [he] at hs
        exact (List.suffix_cons _ rest).trans (hs.trans (List.suffix_cons _ s))
      · refine ((takeInline_reads fuel left' [] [] _).mono fun h => (hl h).suffix hs).bind
          fun ⟨t, rest⟩ hr => ?_
        exact hr.trans (hs.trans (List.suffix_cons _ s))
    · split
      · next hw => exact wordValue_leaves s _ hw
      · split
        · next hm => exact (takeMoment_reads s _ hm).anyway
        · split
          · next hm => exact takeMarked_leaves s _ hm
          · split
            · next hf => exact takeFloatWord_leaves s _ hf
            · exact (takeDecimal_reads s).mono Modest.digits

theorem takeItems_reads : ∀ (fuel left : ℕ) (s : List Char),
    ReadsIf (Modest left s) (Leaves s) (takeItems fuel left s)
  | 0, _, _ => fun _ => rfl
  | fuel + 1, left, s => by
    rw [takeItems.eq_def]
    refine (skipFiller_reads s.length s).anyway.bind fun s₁ h₁ => ?_
    split
    · exact (List.suffix_cons _ _).trans h₁
    · refine ((takeValue_reads fuel left _).mono fun h => h.suffix h₁).bind fun ⟨v, s₂⟩ h₂ => ?_
      refine (skipFiller_reads s₂.length s₂).anyway.bind fun s₃ h₃ => ?_
      have h₃ := h₃.trans (h₂.trans h₁)
      split
      · exact (List.suffix_cons _ _).trans h₃
      · have hr := (List.suffix_cons _ _).trans h₃
        refine ((takeItems_reads fuel left _).mono fun h => h.suffix hr).bind
          fun ⟨vs, behind⟩ hb => ?_
        exact hb.trans hr
      · exact fun _ => rfl

theorem takeInline_reads : ∀ (fuel left : ℕ) (t : Table) (seals : Seals) (s : List Char),
    ReadsIf (Modest left s) (Leaves s) (takeInline fuel left t seals s)
  | 0, _, _, _, _ => fun _ => rfl
  | fuel + 1, left, t, seals, s => by
    rw [takeInline.eq_def]
    refine (takeKey_reads s.length s).anyway.bind fun ⟨key, s₁⟩ h₁ => ?_
    dsimp only
    split
    · next s₂ =>
      have h₂ := (skipBlanks_suffix s₂).trans ((List.suffix_cons _ _).trans h₁)
      refine ((takeValue_reads fuel left _).mono fun h => h.suffix h₂).bind fun ⟨v, s₃⟩ h₃ => ?_
      have h₃ := (skipBlanks_suffix s₃).trans (h₃.trans h₂)
      dsimp only
      split
      · exact fun _ => rfl
      · split
        · split
          · next he =>
            rw [he] at h₃
            exact (List.suffix_cons _ _).trans h₃
          · next rest he =>
            rw [he] at h₃
            have hr := (skipBlanks_suffix rest).trans ((List.suffix_cons _ _).trans h₃)
            exact ((takeInline_reads fuel left _ _ _).mono fun h => h.suffix hr).imp
              fun _ hb => hb.trans hr
          · exact fun _ => rfl
        · exact fun _ => rfl
    · exact fun _ => rfl

end

/-! ## Documents -/

theorem orMalformed_reads {α : Type} (r : Option α) : Reads (fun _ => True) (orMalformed r) := by
  cases r with
  | none => rfl
  | some a => trivial

theorem takeStatement_reads (d : Document) (s : List Char) :
    ReadsIf (Modest nesting s) (Leaves s) (takeStatement d s) := by
  rw [takeStatement.eq_def]
  split
  · next t =>
    refine (takeKey_reads t.length (skipBlanks t)).anyway.bind fun ⟨key, rest⟩ hr => ?_
    have hr := hr.trans ((skipBlanks_suffix t).trans (List.suffix_append ['[', '['] t))
    refine (orMalformed_reads (d.settle.openItem key)).anyway.bind fun d _ => ?_
    split
    · exact (List.suffix_append [_, _] _).trans hr
    · exact fun _ => rfl
  · next t _ =>
    refine (takeKey_reads t.length (skipBlanks t)).anyway.bind fun ⟨key, rest⟩ hr => ?_
    have hr := hr.trans ((skipBlanks_suffix t).trans (List.suffix_cons '[' t))
    refine (orMalformed_reads (d.settle.openTable key)).anyway.bind fun d _ => ?_
    split
    · exact (List.suffix_cons _ _).trans hr
    · exact fun _ => rfl
  · refine (takeKey_reads s.length s).anyway.bind fun ⟨key, s₁⟩ h₁ => ?_
    dsimp only
    split
    · next s₂ =>
      have h₂ := (skipBlanks_suffix s₂).trans ((List.suffix_cons _ _).trans h₁)
      refine ((takeValue_reads (2 * s₂.length + 2) nesting _).mono fun h => h.suffix h₂).bind
        fun ⟨v, s₃⟩ h₃ => ?_
      exact (orMalformed_reads (d.addValue key v)).anyway.bind fun d _ => h₃.trans h₂
    · exact fun _ => rfl

/-- Behind a statement stands the end of its line, and then the rest of the document. -/
def readOn (fuel : ℕ) (d : Document) (t : List Char) : Except Fault Table := do
  match ← skipComment (skipBlanks t) with
  | [] => return d.table
  | '\n' :: rest => readFrom fuel d rest
  | _ => throw .malformed

theorem readOn_reads {fuel : ℕ} (d : Document) {t : List Char}
    (ih : ∀ s, s <:+ t → Reads (fun _ => True) (readFrom fuel d s)) :
    Reads (fun _ => True) (readOn fuel d t) := by
  refine (skipComment_reads (skipBlanks t)).bind fun u hu => ?_
  split
  · trivial
  · exact ih _ ((List.suffix_cons _ _).trans (hu.trans (skipBlanks_suffix t)))
  · rfl

theorem readFrom_reads (fuel : ℕ) (d : Document) {s : List Char} (h : Modest nesting s) :
    Reads (fun _ => True) (readFrom fuel d s) := by
  induction fuel generalizing d s with
  | zero => trivial
  | succ fuel ih =>
    have hs := skipBlanks_suffix s
    have onward (d : Document) {t : List Char} (ht : t <:+ s) :=
      readOn_reads d fun u hu => ih d (h.suffix (hu.trans ht))
    rw [readFrom.eq_def]
    dsimp only
    split
    · trivial
    · next he =>
      rw [he] at hs
      exact ih d (h.suffix ((List.suffix_cons _ _).trans hs))
    · split
      · exact onward d hs
      · refine ((takeStatement_reads d _).within (h.suffix hs)).bind fun ⟨d, t⟩ ht => ?_
        exact onward d (ht.trans hs)

theorem dropReturns_sublist (s : List Char) : (dropReturns s).Sublist s := by
  fun_induction dropReturns s
  case case1 ih => exact (ih.cons_cons _).cons _
  case case2 ih => exact ih.cons_cons _
  case case3 => exact List.Sublist.refl _

/-- A text with at most 4300 digits and at most 329 opening brackets is read, or it is no TOML. -/
theorem read_reads {s : List Char} (h : Modest nesting s) : Reads (fun _ => True) (read s) :=
  readFrom_reads _ _ (h.sublist (dropReturns_sublist s))

end SymbolRename.Toml
