import Mathlib
import ScopedCss.Dialect.Registry
import ScopedCss.Proofs.Text.Words

namespace ScopedCss.Dialect

-- What style sheets of all dialects consist of, apart from how it is written: nested rules, their
-- declarations, and variables.

-- A text of characters of some kind, at least one.
structure Letters (p : Char → Bool) where
  text   : List Char
  ne_nil : text ≠ []
  all    : ∀ c ∈ text, p c = true

def isPropertyChar (c : Char) : Bool :=
  c.isLower || c == '-'

def isPlainChar (c : Char) : Bool :=
  c.isAlphanum || c == '.' || c == '%'

def isSelectorChar (c : Char) : Bool :=
  c.isAlphanum || ['.', '&', '>', ':', '-', '_', ' '].contains c

abbrev Variable := Letters Char.isLower

abbrev Property := Letters isPropertyChar

structure Selector extends Letters isSelectorChar where
  trimmed : Text.trim text = text

inductive Word
  | plain (w : Letters isPlainChar)
  | reference (v : Variable)

structure Value where
  words  : List Word
  ne_nil : words ≠ []

inductive Tree
  | declaration (property : Property) (value : Value)
  | definition (name : Variable) (value : Value)
  | rule (selector : Selector) (children : List Tree)

def Letters.string {p : Char → Bool} (l : Letters p) : String :=
  .ofList l.text

namespace Tree

def defined : Tree → List Variable
  | definition name _ => [name]
  | _                 => []

end Tree

def Value.RefersTo (value : Value) (known : List Variable) : Prop :=
  ∀ v, .reference v ∈ value.words → v ∈ known

mutual

-- All rules have children, and all references are to variables that are known in front of the tree
-- or that are defined earlier in a block around them.
def Tree.WellFormed (known : List Variable) : Tree → Prop
  | .declaration _ value => value.RefersTo known
  | .definition _ value  => value.RefersTo known
  | .rule _ children     => children ≠ [] ∧ Tree.AllWellFormed known children

def Tree.AllWellFormed (known : List Variable) : List Tree → Prop
  | []           => True
  | tree :: rest => tree.WellFormed known ∧ Tree.AllWellFormed (tree.defined ++ known) rest

end

-- Induction over the trees of a block.
@[elab_as_elim]
theorem Tree.forest {motive : List Tree → Prop} (nil : motive [])
    (declaration : ∀ property value rest, motive rest → motive (.declaration property value :: rest))
    (definition : ∀ name value rest, motive rest → motive (.definition name value :: rest))
    (rule : ∀ selector children rest, motive children → motive rest →
      motive (.rule selector children :: rest)) :
    ∀ trees, motive trees
  | [] => nil
  | .declaration _ _ :: rest => declaration _ _ _ (forest nil declaration definition rule rest)
  | .definition _ _ :: rest => definition _ _ _ (forest nil declaration definition rule rest)
  | .rule _ children :: rest =>
    rule _ _ _ (forest nil declaration definition rule children)
      (forest nil declaration definition rule rest)

-- How a dialect writes variables: the sign in front of references to them, and what belongs to
-- their names besides the name itself.
structure Spelling where
  sign   : Char
  kept   : List Char
  isSign : sign = '$' ∨ sign = '@'

namespace Spelling

def stored (s : Spelling) (v : Variable) : String :=
  .ofList (s.kept ++ v.text)

def word (s : Spelling) : Word → List Char
  | .plain w     => w.text
  | .reference v => s.sign :: v.text

def value (s : Spelling) (v : Value) : List Char :=
  Text.join [' '] (v.words.map s.word)

mutual

-- The nodes of trees, all without a place.
def node (s : Spelling) : Tree → Node
  | .declaration property value => .declaration property.string (.ofList (s.value value)) .start
  | .definition name value      => .definition (s.stored name) (.ofList (s.value value)) false .start
  | .rule selector children     => .rule selector.string (s.nodes children) .start

def nodes (s : Spelling) : List Tree → List Node
  | []           => []
  | tree :: rest => s.node tree :: s.nodes rest

end

-- The text of a declaration, and of a definition with a colon or an equals sign in it.
def declaration (s : Spelling) (property : Property) (value : Value) : List Char :=
  property.text ++ ':' :: ' ' :: s.value value

def definition (s : Spelling) (between : List Char) (name : Variable) (value : Value) : List Char :=
  s.sign :: name.text ++ between ++ s.value value

end Spelling

mutual

def Node.unplaced : Node → Node
  | .declaration property value _     => .declaration property value .start
  | .definition name value fallback _ => .definition name value fallback .start
  | .imports targets _                => .imports targets .start
  | .rule selector children _         => .rule selector (Node.allUnplaced children) .start
  | .atStatement name params _        => .atStatement name params .start
  | .atBlock name params children _   => .atBlock name params (Node.allUnplaced children) .start

def Node.allUnplaced : List Node → List Node
  | []           => []
  | node :: rest => node.unplaced :: Node.allUnplaced rest

end

-- Two spaces a level.
def indentation (depth : Nat) : List Char :=
  .replicate (2 * depth) ' '

namespace Spelling

mutual

def braced (s : Spelling) (depth : Nat) : Tree → List Char
  | .declaration property value =>
    indentation depth ++ s.declaration property value ++ [';', '\n']
  | .definition name value =>
    indentation depth ++ s.definition [':', ' '] name value ++ [';', '\n']
  | .rule selector children =>
    indentation depth ++ selector.text ++ [' ', '\x7b', '\n'] ++ s.allBraced (depth + 1) children ++
      indentation depth ++ ['\x7d', '\n']

def allBraced (s : Spelling) (depth : Nat) : List Tree → List Char
  | []           => []
  | tree :: rest => s.braced depth tree ++ s.allBraced depth rest

end

mutual

-- The lines of trees, each with its level.
def lines (s : Spelling) (depth : Nat) : Tree → List (Nat × List Char)
  | .declaration property value => [(depth, s.declaration property value)]
  | .definition name value      => [(depth, s.definition [' ', '=', ' '] name value)]
  | .rule selector children     => (depth, selector.text) :: s.allLines (depth + 1) children

def allLines (s : Spelling) (depth : Nat) : List Tree → List (Nat × List Char)
  | []           => []
  | tree :: rest => s.lines depth tree ++ s.allLines depth rest

end

def indented (s : Spelling) (trees : List Tree) : List Char :=
  (s.allLines 0 trees).flatMap fun (depth, text) => indentation depth ++ text ++ ['\n']

end Spelling

-- Characters that stand for themselves wherever trees are written: no reader cuts or joins at them.
def isQuiet (c : Char) : Bool :=
  c.isAlphanum || ['.', '%', '&', '>', ':', '-', '_', ' ', '$', '@', '='].contains c

theorem isBlank_of_mem_indentation (depth : Nat) : ∀ c ∈ indentation depth, Text.isBlank c = true := by
  intro c hc
  rw [List.eq_of_mem_replicate hc]
  rfl

structure IsQuiet (s : List Char) : Prop where
  ne_nil  : s ≠ []
  quiet   : ∀ c ∈ s, isQuiet c = true
  trimmed : Text.trim s = s

theorem isQuiet_of_isLower {c : Char} (h : c.isLower = true) : isQuiet c = true := by
  simp [isQuiet, Char.isAlphanum, Char.isAlpha, h]

theorem isQuiet_of_isPropertyChar {c : Char} (h : isPropertyChar c = true) : isQuiet c = true := by
  simp only [isPropertyChar, Bool.or_eq_true, beq_iff_eq] at h
  cases h
  case inl h => exact isQuiet_of_isLower h
  case inr h => simp [isQuiet, h]

theorem isQuiet_of_isPlainChar {c : Char} (h : isPlainChar c = true) : isQuiet c = true := by
  simp only [isPlainChar, Bool.or_eq_true, beq_iff_eq] at h
  rcases h with (h | rfl) | rfl <;> simp_all [isQuiet]

theorem isQuiet_of_isSelectorChar {c : Char} (h : isSelectorChar c = true) : isQuiet c = true := by
  simp only [isSelectorChar, Bool.or_eq_true] at h
  cases h
  case inl h => simp [isQuiet, h]
  case inr h => simp_all [isQuiet]; grind

theorem toNat_of_isAlphanum {c : Char} (h : c.isAlphanum = true) : 48 ≤ c.toNat ∧ c.toNat ≤ 122 := by
  simp only [Char.isAlphanum, Char.isAlpha, Char.isUpper, Char.isLower, Char.isDigit, Bool.or_eq_true,
    Bool.and_eq_true, decide_eq_true_eq, ge_iff_le, UInt32.le_iff_toNat_le] at h
  have : c.toNat = c.val.toNat := rfl
  grind

theorem not_isBlank {c : Char} (h : isQuiet c = true) (hc : c ≠ ' ') : Text.isBlank c = false := by
  simp only [isQuiet, Bool.or_eq_true] at h
  cases h
  case inl h =>
    have := toNat_of_isAlphanum h
    simp only [Text.isBlank, Bool.or_eq_false_iff, Bool.and_eq_false_iff, decide_eq_false_iff_not,
      beq_eq_false_iff_ne]
    omega
  case inr h =>
    simp only [List.contains_eq_mem, List.mem_cons, List.not_mem_nil, hc, decide_eq_true_eq] at h
    rcases h with rfl | rfl | rfl | rfl | rfl | rfl | rfl | h | rfl | rfl | rfl | h
    all_goals first | rfl | cases h

theorem Selector.isQuiet (s : Selector) : IsQuiet s.text where
  ne_nil  := s.ne_nil
  quiet c := isQuiet_of_isSelectorChar ∘ s.all c
  trimmed := s.trimmed

namespace Letters

variable {p : Char → Bool}

theorem isWord (l : Letters p) (hq : ∀ c, p c = true → isQuiet c = true) (hs : p ' ' = false) :
    Text.IsWord l.text := by
  refine ⟨l.ne_nil, fun c hc => not_isBlank (hq c (l.all c hc)) ?_⟩
  rintro rfl
  simp [l.all _ hc] at hs

end Letters

theorem Variable.isWord (v : Variable) : Text.IsWord v.text :=
  Letters.isWord v (fun _ => isQuiet_of_isLower) (by decide)

theorem Property.isWord (p : Property) : Text.IsWord p.text :=
  Letters.isWord p (fun _ => isQuiet_of_isPropertyChar) (by decide)

namespace Spelling

variable (s : Spelling)

theorem isQuiet_sign : isQuiet s.sign = true := by
  cases s.isSign
  all_goals simp_all [isQuiet]

theorem isWord_reference (v : Variable) : Text.IsWord (s.sign :: v.text) := by
  have hb : Text.isBlank s.sign = false := by
    cases s.isSign
    all_goals simp_all [Text.isBlank]
  refine ⟨by simp, fun c hc => ?_⟩
  cases hc
  case head    => exact hb
  case tail hc => exact (Variable.isWord v).2 c hc

theorem isWord_word (w : Word) : Text.IsWord (s.word w) := by
  cases w
  case plain w     => exact w.isWord (fun _ => isQuiet_of_isPlainChar) (by decide)
  case reference v => exact s.isWord_reference v

theorem quiet_word (w : Word) : ∀ c ∈ s.word w, isQuiet c = true := by
  intro c hc
  cases w
  case plain w => exact isQuiet_of_isPlainChar (w.all c hc)
  case reference v =>
    cases hc
    case head    => exact s.isQuiet_sign
    case tail hc => exact isQuiet_of_isLower (v.all c hc)

theorem quiet_value (v : Value) : ∀ c ∈ s.value v, isQuiet c = true := by
  intro c hc
  cases Text.mem_join hc
  case inl h => exact h ▸ rfl
  case inr h =>
    have ⟨_, hw, hc⟩ := h
    have ⟨w, _, he⟩ := List.mem_map.1 hw
    exact s.quiet_word w c (he ▸ hc)

-- A value ends in a word.
theorem value_eq_append (v : Value) : ∃ t last, s.value v = t ++ last ∧ Text.IsWord last := by
  have hn : v.words.map s.word ≠ [] := by simpa using v.ne_nil
  have ⟨_, last, hl, t, ht⟩ := Text.join_eq_append [' '] hn
  have ⟨w, _, he⟩ := List.mem_map.1 hl
  exact ⟨t, last, ht, he ▸ s.isWord_word w⟩

theorem value_ne_nil (v : Value) : s.value v ≠ [] := by
  have ⟨_, _, hv, hl⟩ := s.value_eq_append v
  simp [hv, hl.1]

theorem trim_value (v : Value) : Text.trim (' ' :: s.value v) = s.value v := by
  have ht : Text.trim (s.value v) = s.value v := by
    refine Text.trim_join (fun w hw => ?_) [' ']
    have ⟨w, _, he⟩ := List.mem_map.1 hw
    exact he ▸ s.isWord_word w
  simpa using Text.trim_surrounded (v := [' ']) (w := []) ht (s.value_ne_nil v) (by decide) (by simp)

-- A value behind a word is trimmed, whatever stands between them.
theorem isQuiet_append {w t : List Char} (hw : Text.IsWord w) (hq : ∀ c ∈ w ++ t, isQuiet c = true)
    (v : Value) : IsQuiet (w ++ t ++ s.value v) where
  ne_nil := by simp [hw.1]
  quiet  := by
    intro c hc
    cases List.mem_append.1 hc
    case inl hc => exact hq c hc
    case inr hc => exact s.quiet_value v c hc
  trimmed := by
    have ⟨u, last, hv, hl⟩ := s.value_eq_append v
    rw [Text.trim, List.append_assoc, Text.trimStart_word hw, hv, ← List.append_assoc,
      ← List.append_assoc, Text.trimEnd_word _ hl]

theorem isQuiet_declaration (property : Property) (value : Value) :
    IsQuiet (s.declaration property value) := by
  have hb : ∀ c ∈ [':', ' '], isQuiet c = true := by decide
  have hq : ∀ c ∈ property.text ++ [':', ' '], isQuiet c = true := by
    intro c hc
    cases List.mem_append.1 hc
    case inl hc => exact isQuiet_of_isPropertyChar (property.all c hc)
    case inr hc => exact hb c hc
  simpa [declaration] using s.isQuiet_append property.isWord hq value

theorem declaration_eq_cons (property : Property) (value : Value) :
    ∃ c t, s.declaration property value = c :: t ∧ isPropertyChar c = true := by
  cases hp : property.text
  case nil      => exact absurd hp property.ne_nil
  case cons c t =>
    exact ⟨c, t ++ ':' :: ' ' :: s.value value, by simp [declaration, hp], property.all c (by simp [hp])⟩

theorem atStatement?_declaration (property : Property) (value : Value) (pos : Position) :
    atStatement? (s.declaration property value) pos = none := by
  have ⟨c, t, he, hc⟩ := s.declaration_eq_cons property value
  have hn : '@' ≠ c := by
    rintro rfl
    cases hc
  have hi : Text.dropPrefix? "@import".toList (c :: t) = none := Text.dropPrefix?_eq_none hn _ _
  rw [he, atStatement?.eq_def, hi]
  split
  all_goals simp_all

theorem isQuiet_definition (between : List Char) (hb : ∀ c ∈ between, isQuiet c = true)
    (name : Variable) (value : Value) : IsQuiet (s.definition between name value) := by
  refine s.isQuiet_append (s.isWord_reference name) (fun c hc => ?_) value
  cases List.mem_append.1 hc
  case inl hc => exact s.quiet_word (.reference name) c hc
  case inr hc => exact hb c hc

end Spelling

end Dialect

namespace Dialect

def spelling : Dialect → Spelling
  | sass   => ⟨'$', [], .inl rfl⟩
  | less   => ⟨'@', [], .inr rfl⟩
  | stylus => ⟨'$', ['$'], .inl rfl⟩

def written (d : Dialect) (trees : List Dialect.Tree) : List Char :=
  match d with
  | sass | less => d.spelling.allBraced 0 trees
  | stylus      => d.spelling.indented trees

end Dialect

end ScopedCss
