import SymbolRename.Proofs.Yaml.Lexer
import SymbolRename.Yaml.Node

/-!
# Which faults reading a graph runs into

The nodes of a document are read from its tokens. Beside the faults among the tokens, and what
breaks the rules of the language, only collections that stand too deep one inside another stop the
reading.
-/

set_option autoImplicit false

namespace SymbolRename.Yaml.Graph

def GraphFault (text : List Char) (f : Fault) : Prop := CutFault text f ∨ f = .tooDeep

/-- Every fault among the tokens that are left is one of cutting the text. -/
def Cut (text : List Char) (s : Source) : Prop :=
  ∀ f, Token.broken f ∈ s.tokens → CutFault text f

abbrev Builds {α : Type} (text : List Char) (work : Reading α) : Prop :=
  Safe (GraphFault text) (Cut text) work

section Reading
variable {text : List Char}

theorem fail_builds {α : Type} : Builds text (fail : Reading α) := safe_throw (.inl .unreadable)

theorem fail_first {α β : Type} {next : α → Reading β} :
    Builds text ((fail : Reading α) >>= next) := safe_throw_first (.inl .unreadable)

theorem peek_builds : Builds text peek := by
  rw [peek]
  refine safe_get.bind fun s hs => ?_
  split
  · exact safe_pure trivial
  · next f ts he => exact safe_throw (.inl (hs f (he ▸ List.mem_cons_self)))
  · exact safe_pure trivial

theorem drop_builds : Builds text drop :=
  safe_modify fun _ hs f hf => hs f (List.mem_of_mem_tail hf)

theorem properties_builds : Builds text properties := by
  rw [properties]
  refine peek_builds.bind fun t => ?_
  split
  · refine drop_builds.bind fun _ => peek_builds.bind fun t => ?_
    split
    · exact drop_builds.bind fun _ => safe_pure trivial
    · exact safe_pure trivial
  · refine drop_builds.bind fun _ => peek_builds.bind fun t => ?_
    split
    · exact drop_builds.bind fun _ => safe_pure trivial
    · exact safe_pure trivial
  · exact safe_pure trivial

theorem tagText_builds (tag : Option (Option String × String)) : Builds text (tagText tag) := by
  rw [tagText.eq_def]
  split
  · exact safe_pure trivial
  · exact safe_pure trivial
  · refine safe_get.bind fun s _ => ?_
    split
    · exact safe_pure trivial
    · exact fail_builds

theorem named_builds (a : String) : Builds text (named a) := by
  rw [named]
  refine safe_get.bind fun s _ => ?_
  split
  · exact safe_pure trivial
  · exact fail_builds

theorem add_builds (anchor : Option String) (node : Node) : Builds text (add anchor node) := by
  rw [add]
  refine safe_get.bind fun s hs => ?_
  dsimp only
  split
  · exact Safe.bind (safe_set (by exact hs)) fun _ => safe_pure trivial
  · split
    · exact fail_first
    · exact Safe.bind (safe_set (by exact hs)) fun _ => safe_pure trivial

theorem collect_builds (anchor : Option String) (tag : Tag) {contents : Reading Body}
    (h : Builds text contents) : Builds text (collect anchor tag contents) := by
  rw [collect]
  refine (add_builds anchor _).bind fun n => safe_get.bind fun s _ => ?_
  dsimp only
  split
  · exact safe_throw_first (.inr rfl)
  · refine Safe.bind (safe_modify (by exact fun _ hs => hs)) fun _ => h.bind fun body => ?_
    exact Safe.bind (safe_modify (by exact fun _ hs => hs)) fun _ => safe_pure trivial

theorem map_builds {α β : Type} {work : Reading α} (h : Builds text work) (f : α → β) :
    Builds text (f <$> work) := by
  rw [map_eq_pure_bind]
  exact h.bind fun _ => safe_pure trivial

/-! ## Nodes -/

mutual

theorem nodeHere_builds : ∀ (n : ℕ) (block indentless : Bool),
    Builds text (nodeHere n block indentless)
  | 0, _, _ => fail_builds
  | n + 1, block, indentless => by
    rw [nodeHere]
    refine peek_builds.bind fun t => ?_
    split
    · exact drop_builds.bind fun _ => named_builds _
    · refine properties_builds.bind fun ⟨anchor, tag⟩ => (tagText_builds tag).bind fun tag => ?_
      refine peek_builds.bind fun next => ?_
      dsimp only
      split
      · exact collect_builds _ _ (map_builds (indentlessItems_builds n) _)
      · split
        · exact drop_builds.bind fun _ => add_builds _ _
        · exact drop_builds.bind fun _ => collect_builds _ _ (map_builds (flowItems_builds n _) _)
        · exact drop_builds.bind fun _ =>
            collect_builds _ _ (map_builds (flowEntries_builds n _) _)
        · split
          · exact fail_first
          · exact drop_builds.bind fun _ => collect_builds _ _ (map_builds (blockItems_builds n) _)
        · split
          · exact fail_first
          · exact drop_builds.bind fun _ =>
              collect_builds _ _ (map_builds (blockEntries_builds n) _)
        · split
          · exact add_builds _ _
          · exact fail_builds

theorem nodeUnless_builds : ∀ (n : ℕ) (block indentless : Bool) (stops : Option Token → Bool),
    Builds text (nodeUnless n block indentless stops)
  | 0, _, _, _ => fail_builds
  | n + 1, block, indentless, stops => by
    rw [nodeUnless]
    refine peek_builds.bind fun t => ?_
    split
    · exact add_builds _ _
    · exact nodeHere_builds n block indentless

theorem blockItems_builds : ∀ n : ℕ, Builds text (blockItems n)
  | 0 => fail_builds
  | n + 1 => by
    rw [blockItems]
    refine peek_builds.bind fun t => ?_
    split
    · refine drop_builds.bind fun _ => (nodeUnless_builds n _ _ _).bind fun item => ?_
      exact (blockItems_builds n).bind fun _ => safe_pure trivial
    · split
      · exact drop_builds.bind fun _ => safe_pure trivial
      · exact fail_builds

theorem indentlessItems_builds : ∀ n : ℕ, Builds text (indentlessItems n)
  | 0 => fail_builds
  | n + 1 => by
    rw [indentlessItems]
    refine peek_builds.bind fun t => ?_
    split
    · refine drop_builds.bind fun _ => (nodeUnless_builds n _ _ _).bind fun item => ?_
      exact (indentlessItems_builds n).bind fun _ => safe_pure trivial
    · exact safe_pure trivial

theorem blockEntries_builds : ∀ n : ℕ, Builds text (blockEntries n)
  | 0 => fail_builds
  | n + 1 => by
    rw [blockEntries]
    refine peek_builds.bind fun t => ?_
    split
    · refine drop_builds.bind fun _ => (nodeUnless_builds n _ _ _).bind fun k => ?_
      refine peek_builds.bind fun next => ?_
      split
      · refine drop_builds.bind fun _ => (nodeUnless_builds n _ _ _).bind fun v => ?_
        exact (blockEntries_builds n).bind fun _ => safe_pure trivial
      · refine (add_builds _ _).bind fun v => ?_
        exact (blockEntries_builds n).bind fun _ => safe_pure trivial
    · split
      · exact drop_builds.bind fun _ => safe_pure trivial
      · exact fail_builds

theorem flowValue_builds : ∀ (n : ℕ) (ends : Option Token → Bool),
    Builds text (flowValue n ends)
  | 0, _ => fail_builds
  | n + 1, ends => by
    rw [flowValue]
    refine peek_builds.bind fun t => ?_
    split
    · exact drop_builds.bind fun _ => nodeUnless_builds n _ _ _
    · exact add_builds _ _

theorem flowPair_builds : ∀ n : ℕ, Builds text (flowPair n)
  | 0 => fail_builds
  | n + 1 => by
    rw [flowPair]
    refine (nodeUnless_builds n _ _ _).bind fun k => ?_
    exact (flowValue_builds n _).bind fun v => safe_pure trivial

theorem flowItems_builds : ∀ (n : ℕ) (first : Bool), Builds text (flowItems n first)
  | 0, _ => fail_builds
  | n + 1, first => by
    have onward : Builds text (do
        let next ← peek
        if isKey next then
          drop
          let item ← collect none .mapping (.mapping <$> flowPair n)
          return item :: (← flowItems n false)
        else if endsSequence next then
          drop
          return []
        else
          let item ← nodeHere n false false
          return item :: (← flowItems n false)) := by
      refine peek_builds.bind fun next => ?_
      split
      · refine drop_builds.bind fun _ => ?_
        refine (collect_builds _ _ (map_builds (flowPair_builds n) _)).bind fun item => ?_
        exact (flowItems_builds n false).bind fun _ => safe_pure trivial
      · split
        · exact drop_builds.bind fun _ => safe_pure trivial
        · refine (nodeHere_builds n _ _).bind fun item => ?_
          exact (flowItems_builds n false).bind fun _ => safe_pure trivial
    rw [flowItems]
    refine peek_builds.bind fun t => ?_
    dsimp only
    split
    · exact drop_builds.bind fun _ => safe_pure trivial
    · split
      · refine peek_builds.bind fun t => ?_
        split
        · exact drop_builds.bind fun _ => onward
        · exact fail_first
      · exact onward

theorem flowEntries_builds : ∀ (n : ℕ) (first : Bool), Builds text (flowEntries n first)
  | 0, _ => fail_builds
  | n + 1, first => by
    have entry (k v : ℕ) : Builds text (do return (k, v) :: (← flowEntries n false)) :=
      (flowEntries_builds n false).bind fun _ => safe_pure trivial
    have onward : Builds text (do
        let next ← peek
        if isKey next then
          drop
          let k ← nodeUnless n false false fun t => isValue t || isFlowEntry t || endsMapping t
          let v ← flowValue n endsMapping
          return (k, v) :: (← flowEntries n false)
        else if endsMapping next then
          drop
          return []
        else
          let k ← nodeHere n false false
          let v ← add none .empty
          return (k, v) :: (← flowEntries n false)) := by
      refine peek_builds.bind fun next => ?_
      split
      · refine drop_builds.bind fun _ => (nodeUnless_builds n _ _ _).bind fun k => ?_
        exact (flowValue_builds n _).bind fun v => entry k v
      · split
        · exact drop_builds.bind fun _ => safe_pure trivial
        · exact (nodeHere_builds n _ _).bind fun k => (add_builds _ _).bind fun v => entry k v
    rw [flowEntries]
    refine peek_builds.bind fun t => ?_
    dsimp only
    split
    · exact drop_builds.bind fun _ => safe_pure trivial
    · split
      · refine peek_builds.bind fun t => ?_
        split
        · exact drop_builds.bind fun _ => onward
        · exact fail_first
      · exact onward

end

/-! ## Documents -/

theorem directives_builds (n : ℕ) (versioned : Bool) (handles : List (String × String)) :
    Builds text (directives n versioned handles) := by
  induction n generalizing versioned handles with
  | zero => exact fail_builds
  | succ n ih =>
    rw [directives]
    refine peek_builds.bind fun t => ?_
    split
    · refine drop_builds.bind fun _ => ?_
      split
      · split
        · exact fail_builds
        · exact ih _ _
      · split
        · exact fail_builds
        · exact ih _ _
      · exact ih _ _
    · exact safe_pure trivial

theorem dropDocumentEnds_builds (n : ℕ) : Builds text (dropDocumentEnds n) := by
  induction n with
  | zero => exact fail_builds
  | succ n ih =>
    rw [dropDocumentEnds]
    refine peek_builds.bind fun t => ?_
    split
    · exact drop_builds.bind fun _ => ih
    · exact safe_pure trivial

theorem finish_builds (n root : ℕ) : Builds text (finish n root) := by
  rw [finish]
  refine (dropDocumentEnds_builds n).bind fun _ => peek_builds.bind fun t => ?_
  split
  · exact safe_pure trivial
  · exact (directives_builds n _ _).bind fun _ => peek_builds.bind fun _ => fail_builds

/-- A document that is opened by a mark, perhaps with directives before it. -/
theorem opened_builds (n : ℕ) : Builds text (do
    let handles ← directives n false []
    match ← peek with
    | some .documentStart =>
      drop
      let missing := standardHandles.filter fun e => (handles.lookup e.1).isNone
      modify fun s => { s with handles := handles ++ missing }
      finish n (← nodeUnless n true false endsDocument)
    | _ => fail) := by
  refine (directives_builds n _ _).bind fun handles => peek_builds.bind fun t => ?_
  split
  · refine drop_builds.bind fun _ => Safe.bind (safe_modify (by exact fun _ hs => hs)) fun _ => ?_
    exact (nodeUnless_builds n _ _ _).bind fun root => finish_builds n root
  · exact fail_builds

theorem document_builds (n : ℕ) : Builds text (document n) := by
  rw [document]
  refine peek_builds.bind fun t => ?_
  split
  · exact safe_pure trivial
  · exact opened_builds n
  · exact opened_builds n
  · exact (nodeHere_builds n _ _).bind fun root => finish_builds n root

end Reading

/-- What keeps the graph of a text from being read. -/
theorem read_fault {s : Supply} (hs : ∀ f ∈ s.ending, f = .unreadable) {f : Fault}
    (h : read s = .error f) : GraphFault s.chars f := by
  have start : Cut s.chars ⟨tokens s, #[], [], standardHandles, 0⟩ :=
    fun f hf => tokens_broken hs hf
  have hr := document_builds (4 * (tokens s).length + 8) _ start
  rcases bind_eq_error h with hf | ⟨p, -, hp⟩
  · rw [hf] at hr
    exact hr
  · cases hp

end SymbolRename.Yaml.Graph
