import SymbolRename.Proofs.Toml.Reading

/-!
# Steps of reading TOML

Reading goes by steps, and a number of them is given to each part beforehand. None of these numbers
is ever used up: with any number that is as large as the text asks for, the reading comes to the
same. An array takes two steps for its one bracket, so a value may take twice as many as it has
characters; every other part takes at most one for a character.
-/

set_option autoImplicit false

namespace SymbolRename.Toml

theorem skipComment_shorter {c : Char} {s : List Char} (h : c = '#') :
    Reads (·.length ≤ s.length) (skipComment (c :: s)) := by
  subst h
  rw [skipComment]
  split
  · rfl
  · exact (List.dropWhile_suffix _).length_le

theorem skipFiller_enough {fuel fuel' : ℕ} {s : List Char} (h : s.length ≤ fuel)
    (h' : s.length ≤ fuel') : skipFiller fuel s = skipFiller fuel' s := by
  have hempty (fuel : ℕ) : skipFiller fuel [] = .ok [] := by cases fuel <;> rfl
  induction fuel generalizing fuel' s with
  | zero => rw [List.length_eq_zero_iff.mp (Nat.le_zero.mp h), hempty, hempty]
  | succ fuel ih =>
    cases fuel' with
    | zero => rw [List.length_eq_zero_iff.mp (Nat.le_zero.mp h'), hempty, hempty]
    | succ fuel' =>
      rw [skipFiller.eq_def, skipFiller.eq_def (fuel' + 1)]
      dsimp only
      split
      · rw [List.length_cons] at h h'
        exact (skipComment_shorter rfl).bind_congr fun t ht => ih (by omega) (by omega)
      · rw [List.length_cons] at h h'
        rw [ih (by omega) (by omega : _ ≤ fuel')]
      · rfl

theorem takeKey_enough {fuel fuel' : ℕ} {s : List Char} (h : s.length ≤ fuel)
    (h' : s.length ≤ fuel') : takeKey fuel s = takeKey fuel' s := by
  have hempty (fuel : ℕ) : takeKey fuel [] = .error .malformed := by cases fuel <;> rfl
  induction fuel generalizing fuel' s with
  | zero => rw [List.length_eq_zero_iff.mp (Nat.le_zero.mp h), hempty, hempty]
  | succ fuel ih =>
    cases fuel' with
    | zero => rw [List.length_eq_zero_iff.mp (Nat.le_zero.mp h'), hempty, hempty]
    | succ fuel' =>
      rw [takeKey, takeKey]
      refine (takeKeyPart_reads s).bind_congr fun taken hr => ?_
      obtain ⟨part, rest⟩ := taken
      have hr : (skipBlanks rest).length ≤ s.length :=
        ((skipBlanks_suffix rest).trans hr).length_le
      dsimp only
      split
      · next behind he =>
        have hb := (skipBlanks_suffix behind).length_le
        rw [he, List.length_cons] at hr
        rw [ih (by omega) (by omega : _ ≤ fuel')]
      · rfl

mutual

theorem takeValue_enough : ∀ {fuel fuel' : ℕ} (left : ℕ) {s : List Char},
    2 * s.length < fuel → 2 * s.length < fuel' → takeValue fuel left s = takeValue fuel' left s
  | fuel + 1, fuel' + 1, left, s, h, h' => by
    rw [takeValue.eq_def, takeValue.eq_def (fuel' + 1)]
    dsimp only
    split
    · rfl
    · rfl
    · rw [List.length_cons] at h h'
      refine congrArg _ (funext fun left' => ?_)
      rw [takeItems_enough left' (by omega) (by omega : _ < fuel')]
    · next s =>
      rw [List.length_cons] at h h'
      have hs := (skipBlanks_suffix s).length_le
      refine congrArg _ (funext fun left' => ?_)
      split
      · rfl
      · rw [takeInline_enough left' [] [] (by omega) (by omega : _ < fuel')]
    · rfl

theorem takeItems_enough : ∀ {fuel fuel' : ℕ} (left : ℕ) {s : List Char},
    2 * s.length + 1 < fuel → 2 * s.length + 1 < fuel' →
      takeItems fuel left s = takeItems fuel' left s
  | fuel + 1, fuel' + 1, left, s, h, h' => by
    rw [takeItems.eq_def, takeItems.eq_def (fuel' + 1)]
    refine (skipFiller_reads s.length s).bind_congr fun s₁ h₁ => ?_
    have h₁ := h₁.length_le
    split
    · rfl
    · rw [takeValue_enough left (by omega) (by omega : _ < fuel')]
      refine (takeValue_reads fuel' left _).bind_congr fun taken h₂ => ?_
      obtain ⟨v, s₂⟩ := taken
      have h₂ : s₂.length ≤ _ := List.IsSuffix.length_le h₂
      refine (skipFiller_reads s₂.length s₂).bind_congr fun s₃ h₃ => ?_
      have h₃ := h₃.length_le
      split
      · rfl
      · rw [List.length_cons] at h₃
        rw [takeItems_enough left (by omega) (by omega : _ < fuel')]
      · rfl

theorem takeInline_enough : ∀ {fuel fuel' : ℕ} (left : ℕ) (t : Table) (seals : Seals)
    {s : List Char}, 2 * s.length < fuel → 2 * s.length < fuel' →
      takeInline fuel left t seals s = takeInline fuel' left t seals s
  | fuel + 1, fuel' + 1, left, t, seals, s, h, h' => by
    rw [takeInline.eq_def, takeInline.eq_def (fuel' + 1)]
    refine (takeKey_reads s.length s).bind_congr fun taken h₁ => ?_
    obtain ⟨key, s₁⟩ := taken
    have h₁ : s₁.length ≤ _ := List.IsSuffix.length_le h₁
    dsimp only
    split
    · next s₂ _ =>
      rw [List.length_cons] at h₁
      have h₂ := (skipBlanks_suffix s₂).length_le
      rw [takeValue_enough left (by omega) (by omega : _ < fuel')]
      refine (takeValue_reads fuel' left _).bind_congr fun taken h₃ => ?_
      obtain ⟨v, s₃⟩ := taken
      have h₃ : s₃.length ≤ _ := List.IsSuffix.length_le h₃
      dsimp only
      split
      · rfl
      · split
        · split
          · rfl
          · next rest he =>
            have h₄ := (skipBlanks_suffix s₃).length_le
            have h₅ := (skipBlanks_suffix rest).length_le
            rw [he, List.length_cons] at h₄
            rw [takeInline_enough left _ _ (by omega) (by omega : _ < fuel')]
          · rfl
        · rfl
    · rfl

end

theorem readFrom_enough {fuel fuel' : ℕ} (d : Document) {s : List Char} (h : s.length < fuel)
    (h' : s.length < fuel') : readFrom fuel d s = readFrom fuel' d s := by
  induction fuel generalizing fuel' d s with
  | zero => cases h
  | succ fuel ih =>
    cases fuel' with
    | zero => cases h'
    | succ fuel' =>
      have hs := (skipBlanks_suffix s).length_le
      -- behind a statement one more character is gone: the end of its line
      have onward (d : Document) {t : List Char} (ht : t.length ≤ s.length) :
          readOn fuel d t = readOn fuel' d t := by
        have hb := (skipBlanks_suffix t).length_le
        refine (skipComment_reads (skipBlanks t)).bind_congr fun u hu => ?_
        have hu := hu.length_le
        split
        · rfl
        · rw [List.length_cons] at hu
          exact ih d (by omega) (by omega)
        · rfl
      rw [readFrom.eq_def, readFrom.eq_def (fuel' + 1)]
      dsimp only
      split
      · rfl
      · next he =>
        rw [he, List.length_cons] at hs
        exact ih d (by omega) (by omega)
      · split
        · exact onward d hs
        · refine (takeStatement_reads d _).bind_congr fun ⟨d, t⟩ ht => ?_
          exact onward d ((List.IsSuffix.length_le ht).trans hs)

/-- A document is read the same with any number of steps for its statements. -/
theorem read_enough {fuel : ℕ} {s : List Char} (h : s.length < fuel) :
    read s = readFrom fuel .empty (dropReturns s) := by
  have hs := (dropReturns_sublist s).length_le
  exact readFrom_enough .empty (by omega) (by omega)

/-! ## Brackets -/

/-- Brackets that open deeper than the reading goes are told as such, whatever comes behind them. -/
theorem takeValue_tooDeep {n left fuel : ℕ} (hn : left < arrayWeight * n) (hf : 2 * n ≤ fuel)
    (rest : List Char) :
    takeValue fuel left (List.replicate n '[' ++ rest) = .error .tooDeep := by
  induction n generalizing left fuel with
  | zero => cases hn
  | succ n ih =>
    obtain ⟨fuel, rfl⟩ : ∃ m, fuel = m + 2 := ⟨fuel - 2, by omega⟩
    have hopen (s : List Char) : takeValue (fuel + 2) left ('[' :: s) = (do
        let taken ← takeItems (fuel + 1) (← deeper arrayWeight left) s
        return (.list taken.1, taken.2)) := rfl
    rw [List.replicate_succ, List.cons_append, hopen, deeper]
    rw [arrayWeight] at hn ⊢
    split
    · rfl
    · next hl =>
      have hv : takeValue fuel (left - 2) (List.replicate n '[' ++ rest) = .error .tooDeep :=
        ih (by rw [arrayWeight]; omega) (by omega)
      obtain ⟨n, rfl⟩ : ∃ m, n = m + 1 := ⟨n - 1, by omega⟩
      rw [List.replicate_succ, List.cons_append] at hv ⊢
      change ((takeValue fuel (left - 2) ('[' :: (List.replicate n '[' ++ rest)) >>= _) >>= _) = _
      rw [hv]
      rfl

theorem read_brackets {n : ℕ} (hn : nesting < arrayWeight * n) (rest : List Char) :
    read ('a' :: '=' :: (List.replicate n '[' ++ rest)) = .error .tooDeep := by
  have hd (n : ℕ) : dropReturns (List.replicate n '[' ++ rest) =
      List.replicate n '[' ++ dropReturns rest := by
    induction n with
    | zero => rfl
    | succ n ih =>
      rw [List.replicate_succ, List.cons_append, List.cons_append, ← ih]
      rfl
  have hb : dropReturns ('a' :: '=' :: (List.replicate n '[' ++ rest)) =
      'a' :: '=' :: (List.replicate n '[' ++ dropReturns rest) := by
    rw [← hd]
    rfl
  obtain ⟨n, rfl⟩ : ∃ m, n = m + 1 := Nat.exists_eq_succ_of_ne_zero fun h => by
    rw [h] at hn
    cases hn
  have hv {fuel : ℕ} (hf : 2 * (n + 1) ≤ fuel) := takeValue_tooDeep hn hf (dropReturns rest)
  rw [List.replicate_succ, List.cons_append] at hv
  rw [read, hb, List.replicate_succ, List.cons_append]
  change ((takeValue _ nesting ('[' :: (List.replicate n '[' ++ dropReturns rest)) >>= _) >>= _) = _
  rw [hv (by simp; omega)]
  rfl

end SymbolRename.Toml
