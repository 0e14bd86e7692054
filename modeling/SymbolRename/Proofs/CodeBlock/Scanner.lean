import SymbolRename.Proofs.CodeBlock.Blocks
import SymbolRename.Proofs.CodeBlock.Search

/-!
# Where a fenced block is read

Which block is read can be told by positions alone. A block opens at a fence that is followed, after
the letter c perhaps, by blanks with a line feed among them, all the blanks that there are. Its body
starts behind the last of these line feeds and goes up to the first fence at the start of a line. If
there is none, but a fence right where the body should start, then the body is what lies between the
last two line feeds of the blanks. The block that is read is the one that opens first.
-/

set_option autoImplicit false

namespace SymbolRename.CodeBlock
open Text

def between (s : Text) (a b : ℕ) : Text := (s.drop a).take (b - a)

/-- A fence at `i`, perhaps the letter c, and then all blanks that follow, from `a` up to `b`. -/
structure Opening (s : Text) (i a b : ℕ) : Prop where
  fence : Stands fence s i
  start : a = if s[i + 3]? = some (.char 'c') then i + 4 else i + 3
  le : a ≤ b
  blank : ∀ j, a ≤ j → j < b → ∃ c, s[j]? = some c ∧ isBlank c = true
  inked : ∀ c, s[b]? = some c → isBlank c = false

/-- The last line feed from `a` up to `b` is at `k`. -/
structure LastFeed (s : Text) (a b k : ℕ) : Prop where
  le : a ≤ k
  lt : k < b
  feed : s[k]? = some (.char '\n')
  last : ∀ j, k < j → j < b → s[j]? ≠ some (.char '\n')

/-- The first fence at the start of a line, from `m` on, has its line feed at `p`. -/
structure FirstClosing (s : Text) (m p : ℕ) : Prop where
  le : m ≤ p
  stands : Stands closing s p
  first : ∀ q, m ≤ q → q < p → ¬ Stands closing s q

/-- A block opens at `i`, and this is its body. -/
inductive Matches (s : Text) (i : ℕ) : Text → Prop
  | closed {a b k p : ℕ} (opening : Opening s i a b) (feed : LastFeed s a b k)
      (closing : FirstClosing s (k + 1) p) : Matches s i (between s (k + 1) p)
  | blank {a b k j : ℕ} (opening : Opening s i a b) (feed : LastFeed s a b k)
      (unclosed : ∀ p, k + 1 ≤ p → ¬ Stands closing s p) (fenced : Stands fence s (k + 1))
      (before : LastFeed s a k j) : Matches s i (between s (j + 1) k)

structure Leads (s : Text) (i : ℕ) (body : Text) : Prop where
  here : Matches s i body
  before : ∀ j < i, ∀ other, ¬ Matches s j other

variable {s : Text} {i a b k m p : ℕ}

theorem between_drop (h : a ≤ b) : between s a b ++ s.drop b = s.drop a := by
  conv_rhs => rw [← List.take_append_drop (b - a) (s.drop a), List.drop_drop, Nat.add_sub_of_le h]
  rfl

theorem drop_feed (h : s[k]? = some (.char '\n')) :
    s.drop k = .char '\n' :: s.drop (k + 1) := by
  obtain ⟨hk, he⟩ := List.getElem?_eq_some_iff.mp h
  rw [List.drop_eq_getElem_cons hk, he]

theorem between_feed (hl : a ≤ k) (hr : k < b) (h : s[k]? = some (.char '\n')) :
    between s a b = between s a k ++ .char '\n' :: between s (k + 1) b := by
  have hb : b - a = (k - a) + (b - k) := by omega
  have hk : b - k = (b - (k + 1)) + 1 := by omega
  rw [between, hb, List.take_add, List.drop_drop, Nat.add_sub_of_le hl, drop_feed h, hk,
    List.take_succ_cons]
  rfl

theorem mem_between {c : Code} (h : c ∈ between s a b) : ∃ j, a ≤ j ∧ j < b ∧ s[j]? = some c := by
  obtain ⟨j, hj⟩ := List.mem_iff_getElem?.mp h
  rw [between, List.getElem?_take, List.getElem?_drop] at hj
  split_ifs at hj with hlt
  exact ⟨a + j, by omega, by omega, hj⟩

theorem unfed_between (hn : ∀ j, a ≤ j → j < b → s[j]? ≠ some (.char '\n')) :
    Code.char '\n' ∉ between s a b := by
  intro hf
  obtain ⟨j, hle, hlt, hj⟩ := mem_between hf
  exact hn j hle hlt hj

theorem afterFeeds_between (hn : ∀ j, a ≤ j → j < b → s[j]? ≠ some (.char '\n')) :
    afterFeeds (between s a b) = [] := by
  rw [← List.append_nil (between s a b)]
  exact afterFeeds_unfed (unfed_between hn) rfl

theorem lastFeed_or (s : Text) (a b : ℕ) :
    (∃ k, LastFeed s a b k) ∨ ∀ k, a ≤ k → k < b → s[k]? ≠ some (.char '\n') := by
  induction b with
  | zero => exact .inr fun k _ hk => absurd hk k.not_lt_zero
  | succ b ih =>
    by_cases hb : a ≤ b ∧ s[b]? = some (.char '\n')
    · exact .inl ⟨b, hb.1, b.lt_succ_self, hb.2, fun j hj hlt => by omega⟩
    obtain ⟨k, hk⟩ | hn := ih
    · refine .inl ⟨k, hk.le, hk.lt.trans b.lt_succ_self, hk.feed, fun j hj hlt => ?_⟩
      rcases Nat.lt_succ_iff_lt_or_eq.mp hlt with hlt | rfl
      · exact hk.last j hj hlt
      · exact fun hf => hb ⟨hk.le.trans hj.le, hf⟩
    · refine .inr fun j hle hlt => ?_
      rcases Nat.lt_succ_iff_lt_or_eq.mp hlt with hlt | rfl
      · exact hn j hle hlt
      · exact fun hf => hb ⟨hle, hf⟩

theorem opening_of_fence (h : Stands fence s i) : ∃ a b, Opening s i a b := by
  let a := if s[i + 3]? = some (.char 'c') then i + 4 else i + 3
  have hat (n : ℕ) : s[a + n]? =
      ((s.drop a).takeWhile isBlank ++ (s.drop a).dropWhile isBlank)[n]? := by
    rw [List.takeWhile_append_dropWhile, List.getElem?_drop]
  refine ⟨a, a + ((s.drop a).takeWhile isBlank).length, h, rfl, Nat.le_add_right _ _, ?_, ?_⟩
  · intro j hle hlt
    obtain ⟨n, rfl⟩ := Nat.exists_eq_add_of_le hle
    have hn : n < ((s.drop a).takeWhile isBlank).length := by omega
    rw [hat, List.getElem?_append_left hn, List.getElem?_eq_getElem hn]
    exact ⟨_, rfl, List.mem_takeWhile_imp (List.getElem_mem hn)⟩
  · intro c hc
    rw [hat, List.getElem?_append_right le_rfl, Nat.sub_self, ← List.head?_eq_getElem?] at hc
    have hn := List.head?_dropWhile_not isBlank (s.drop a)
    rw [hc] at hn
    exact hn

theorem drop_fence (h : Stands fence s i) : fence.isPrefixOf? (s.drop i) = some (s.drop (i + 3)) := by
  obtain ⟨rest, hr⟩ := h
  have hrest : rest = s.drop (i + 3) := by
    rw [← List.drop_drop, ← hr]
    rfl
  rw [List.isPrefixOf?_eq_some_iff_append_eq, ← hr, hrest]

theorem Opening.bodyAt?_eq (ho : Opening s i a b) :
    bodyAt? (s.drop i) = (afterFeeds (s.drop a)).findSome? bodyBefore? := by
  have hlang : dropLanguage (s.drop (i + 3)) = s.drop a := by
    rw [dropLanguage_eq, List.head?_drop, List.tail_drop, ho.start]
    split <;> rfl
  rw [bodyAt?, drop_fence ho.fence]
  exact congrArg (List.findSome? bodyBefore? <| afterFeeds ·) hlang

theorem Opening.blanks (ho : Opening s i a b) (hk : k ≤ b) : Blank (between s a k) := by
  intro c hc
  obtain ⟨j, hle, hlt, hj⟩ := mem_between hc
  obtain ⟨d, hd, hb⟩ := ho.blank j hle (by omega)
  rw [hj] at hd
  cases hd
  exact hb

/-- Without a line feed from some position on, there is nowhere to cut the blanks. -/
theorem Opening.unfed (ho : Opening s i a b) (hm : m ≤ b)
    (hn : ∀ j, m ≤ j → j < b → s[j]? ≠ some (.char '\n')) : afterFeeds (s.drop m) = [] := by
  rw [← between_drop hm]
  apply afterFeeds_unfed (unfed_between hn)
  apply afterFeeds_of_inked
  rw [List.head?_drop]
  exact ho.inked

theorem head?_afterFeeds_between (ho : Opening s i a b) (hk : k ≤ b) (hj : LastFeed s a k m) :
    (afterFeeds (between s a k)).head? = some (between s (m + 1) k) := by
  have hm := hj.lt
  have hu : afterFeeds (between s (m + 1) k) = [] :=
    afterFeeds_between fun n hle hlt => hj.last n hle hlt
  rw [between_feed hj.le hj.lt hj.feed, afterFeeds_feed (ho.blanks (by omega)) hu]
  rfl

/-- What is read at an opening: a body behind the last line feed, or else, in front of a fence, the
blanks between the last two. -/
theorem bodyAt?_feed (ho : Opening s i a b) (hk : LastFeed s a b k) :
    bodyAt? (s.drop i) = (bodyBefore? (s.drop (k + 1))).or
      (if fence.isPrefixOf (s.drop (k + 1)) then (afterFeeds (between s a k)).head? else none) := by
  have hlt := hk.lt
  have hblank := ho.blanks (k := k) (by omega)
  have hu : afterFeeds (s.drop (k + 1)) = [] :=
    ho.unfed hk.lt fun j hle hlt => hk.last j hle hlt
  rw [ho.bodyAt?_eq, ← between_drop hk.le, drop_feed hk.feed, afterFeeds_feed hblank hu,
    List.findSome?_cons]
  cases hbody : bodyBefore? (s.drop (k + 1)) with
  | some body => rfl
  | none =>
    rw [Option.none_or, List.findSome?_map]
    apply findSome?_blank hbody
    intro rest hm
    obtain ⟨blanks, -, he⟩ := mem_afterFeeds.mp hm
    exact fun c hc => hblank c (by rw [he]; simp [hc])

theorem bodyBefore?_drop_eq_some_iff {body : Text} :
    bodyBefore? (s.drop m) = some body ↔ ∃ p, FirstClosing s m p ∧ body = between s m p := by
  simp only [bodyBefore?_eq_some_iff, stands_drop]
  constructor
  · rintro ⟨n, ⟨hn, rfl⟩, hfirst⟩
    refine ⟨m + n, ⟨Nat.le_add_right m n, hn, fun q hle hlt => ?_⟩, ?_⟩
    · obtain ⟨q, rfl⟩ := Nat.exists_eq_add_of_le hle
      exact hfirst q (by omega)
    · rw [between, Nat.add_sub_cancel_left]
  · rintro ⟨p, ⟨hle, hp, hfirst⟩, rfl⟩
    obtain ⟨n, rfl⟩ := Nat.exists_eq_add_of_le hle
    refine ⟨n, ⟨hp, ?_⟩, fun q hq => hfirst (m + q) (by omega) (by omega)⟩
    rw [between, Nat.add_sub_cancel_left]

theorem bodyBefore?_drop_eq_none_iff :
    bodyBefore? (s.drop m) = none ↔ ∀ p, m ≤ p → ¬ Stands closing s p := by
  simp only [bodyBefore?_eq_none_iff, stands_drop]
  constructor
  · intro h p hle
    obtain ⟨n, rfl⟩ := Nat.exists_eq_add_of_le hle
    exact h n
  · exact fun h n => h (m + n) (Nat.le_add_right m n)

theorem bodyAt?_of_matches {body : Text} (h : Matches s i body) :
    bodyAt? (s.drop i) = some body := by
  cases h with
  | closed opening feed closing =>
    have hbody := bodyBefore?_drop_eq_some_iff.mpr ⟨_, closing, rfl⟩
    rw [bodyAt?_feed opening feed, hbody, Option.some_or]
  | blank opening feed unclosed fenced before =>
    have hbody := bodyBefore?_drop_eq_none_iff.mpr unclosed
    rw [bodyAt?_feed opening feed, hbody, Option.none_or, if_pos ((fence_iff s _).mpr fenced)]
    exact head?_afterFeeds_between opening feed.lt.le before

theorem matches_of_bodyAt? {body : Text} (h : bodyAt? (s.drop i) = some body) :
    Matches s i body := by
  have hfence : Stands fence s i := by
    rw [← fence_iff, ← Bool.not_eq_false]
    intro hf
    rw [bodyAt?_fence hf] at h
    cases h
  obtain ⟨a, b, ho⟩ := opening_of_fence hfence
  obtain ⟨k, hk⟩ | hn := lastFeed_or s a b
  · rw [bodyAt?_feed ho hk] at h
    cases hbody : bodyBefore? (s.drop (k + 1)) with
    | some other =>
      rw [hbody, Option.some_or] at h
      cases h
      obtain ⟨p, hp, rfl⟩ := bodyBefore?_drop_eq_some_iff.mp hbody
      exact .closed ho hk hp
    | none =>
      rw [hbody, Option.none_or] at h
      split_ifs at h with hf
      have hunclosed := bodyBefore?_drop_eq_none_iff.mp hbody
      obtain ⟨j, hj⟩ | hn := lastFeed_or s a k
      · rw [head?_afterFeeds_between ho hk.lt.le hj] at h
        cases h
        exact .blank ho hk hunclosed ((fence_iff s _).mp hf) hj
      · rw [afterFeeds_between hn] at h
        cases h
  · rw [ho.bodyAt?_eq, ho.unfed ho.le hn] at h
    cases h

theorem matches_iff {body : Text} : Matches s i body ↔ bodyAt? (s.drop i) = some body :=
  ⟨bodyAt?_of_matches, matches_of_bodyAt?⟩

theorem unmatched_iff : (∀ body, ¬ Matches s i body) ↔ bodyAt? (s.drop i) = none := by
  simp only [matches_iff, Option.eq_none_iff_forall_ne_some, ne_eq]

theorem fenced?_eq_some_iff_leads {body : Text} :
    fenced? s = some body ↔ ∃ i, Leads s i body := by
  rw [fenced?_eq_some_iff]
  constructor
  · rintro ⟨i, hi, hfirst⟩
    exact ⟨i, matches_iff.mpr hi, fun j hj => unmatched_iff.mpr (hfirst j hj)⟩
  · rintro ⟨i, hi, hfirst⟩
    exact ⟨i, matches_iff.mp hi, fun j hj => unmatched_iff.mp (hfirst j hj)⟩

theorem fenced?_eq_none_iff_unmatched : fenced? s = none ↔ ∀ i body, ¬ Matches s i body := by
  simp only [fenced?_eq_none_iff, unmatched_iff]

/-- The fenced block of a response is the one that opens first, if one opens anywhere, and then its
body is the code, even if it is empty. The lines are read one by one just if none opens. -/
theorem extract_scans (s : Text) :
    (∀ body, fenced? s = some body ↔ ∃ i, Leads s i body) ∧
    (fenced? s = none ↔ ∀ i body, ¬ Matches s i body) ∧
    ((∃ i body, Leads s i body ∧ extract s = body) ∨
      (∀ i body, ¬ Matches s i body) ∧ extract s = terminated (bare (lines s))) := by
  refine ⟨fun body => fenced?_eq_some_iff_leads, fenced?_eq_none_iff_unmatched, ?_⟩
  rw [extract]
  cases h : fenced? s with
  | some body =>
    obtain ⟨i, hi⟩ := fenced?_eq_some_iff_leads.mp h
    exact .inl ⟨i, body, hi, rfl⟩
  | none => exact .inr ⟨fenced?_eq_none_iff_unmatched.mp h, rfl⟩

/-- Blank lines in front of a body are left out; a body of nothing else is cut short instead. -/
example : extract "\x60\x60\x60c\n \n\nint x;\n\x60\x60\x60" = "int x;" ∧
    extract "\x60\x60\x60\n \n\n\x60\x60\x60" = "" := by decide

end SymbolRename.CodeBlock
