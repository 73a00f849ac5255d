import ScopedCss.Proofs.Dialect.Tree

namespace ScopedCss.Dialect

namespace BraceToken

variable {c : Char}

theorem scan_char (hc : isQuiet c = true ∨ Text.isBlank c = true) (pos : Position) (s : List Char) :
    scan 0 pos (c :: s) = ⟨.char c, pos⟩ :: scan 0 (pos.after [c]) s := by
  have hs : ∀ d ∈ ['/', '#', '"', '\'', '\x7b', ';', '\x7d', '(', ')'],
      ¬(isQuiet d = true ∨ Text.isBlank d = true) := by decide
  have hn : ∀ d ∈ ['/', '#', '"', '\'', '\x7b', ';', '\x7d', '(', ')'], c ≠ d := by
    rintro d hd rfl
    exact hs c hd hc
  rw [scan.eq_def]
  split
  all_goals simp_all

theorem scan_cut (hc : c ∈ ['\x7b', ';', '\x7d']) (pos : Position) (s : List Char) :
    scan 0 pos (c :: s) = ⟨.cut c, pos⟩ :: scan 0 (pos.after [c]) s := by
  rw [scan.eq_def]
  split
  all_goals simp_all
  all_goals grind

end BraceToken

namespace Clause

variable {t w : List Char}

-- The clauses of a text from a place on, in front of a statement and inside one.
abbrev reading (pos : Position) (s : List Char) : List Clause :=
  ofTokens none (BraceToken.scan 0 pos s)

abbrev inside (begun : List Char) (start pos : Position) (s : List Char) : List Clause :=
  ofTokens (some (begun, start)) (BraceToken.scan 0 pos s)

theorem reading_blank (hw : ∀ c ∈ w, Text.isBlank c = true) (pos : Position) (s : List Char) :
    reading pos (w ++ s) = reading (pos.after w) s := by
  induction w generalizing pos
  case nil => rfl
  case cons c w ih =>
    have hc := hw c List.mem_cons_self
    have := ih (fun c hc => hw c (.tail _ hc)) (pos.after [c])
    rw [List.cons_append, reading, BraceToken.scan_char (.inr hc)]
    simpa [ofTokens, hc, Position.after] using this

theorem inside_quiet (ht : ∀ c ∈ t, isQuiet c = true) (begun : List Char) (start pos : Position)
    (s : List Char) : inside begun start pos (t ++ s) = inside (begun ++ t) start (pos.after t) s := by
  induction t generalizing begun pos
  case nil => simp [Position.after]
  case cons c t ih =>
    have hc := ht c List.mem_cons_self
    have := ih (fun c hc => ht c (.tail _ hc)) (begun ++ [c]) (pos.after [c])
    rw [List.cons_append, inside, BraceToken.scan_char (.inl hc)]
    simpa [ofTokens, Piece.text, Position.after] using this

theorem reading_quiet (ht : IsQuiet t) (pos : Position) (s : List Char) :
    reading pos (t ++ s) = inside t pos (pos.after t) s := by
  have ⟨c, t', he, hb⟩ := Text.eq_cons_of_trim ht.trimmed ht.ne_nil
  subst he
  have hq := ht.quiet
  have := inside_quiet (fun c hc => hq c (.tail _ hc)) [c] pos (pos.after [c]) s
  rw [List.cons_append, reading, BraceToken.scan_char (.inl (hq c List.mem_cons_self))]
  simpa [ofTokens, hb, Position.after] using this

-- What a statement, the header of a block and the end of a block are read as.
theorem reading_statement (hw : ∀ c ∈ w, Text.isBlank c = true) (ht : IsQuiet t) (pos : Position)
    (s : List Char) :
    ∃ p q, reading pos (w ++ t ++ [';', '\n'] ++ s) = statement t p :: reading q s := by
  have he : reading pos (w ++ t ++ [';', '\n'] ++ s) =
      inside t (pos.after w) ((pos.after w).after t) (';' :: '\n' :: s) := by
    simp only [List.append_assoc, reading_blank hw, reading_quiet ht, List.cons_append, List.nil_append]
  have hn := reading_blank (w := ['\n']) (by decide) (((pos.after w).after t).after [';']) s
  refine ⟨pos.after w, (((pos.after w).after t).after [';']).after ['\n'], ?_⟩
  rw [he, inside, BraceToken.scan_cut (by decide), ← hn]
  simp [ofTokens, ofBegun, ht.trimmed, ht.ne_nil]

theorem reading_opening (hw : ∀ c ∈ w, Text.isBlank c = true) (ht : IsQuiet t) (pos : Position)
    (s : List Char) :
    ∃ p q, reading pos (w ++ t ++ [' ', '\x7b', '\n'] ++ s) = opening t p :: reading q s := by
  have hs : Text.trim (t ++ [' ']) = t := by
    simpa using Text.trim_surrounded (v := []) (w := [' ']) ht.trimmed ht.ne_nil (by simp) (by decide)
  have he : reading pos (w ++ t ++ [' ', '\x7b', '\n'] ++ s) =
      inside (t ++ [' ']) (pos.after w) (((pos.after w).after t).after [' ']) ('\x7b' :: '\n' :: s) := by
    rw [← inside_quiet (t := [' ']) (by decide)]
    simp only [List.append_assoc, reading_blank hw, reading_quiet ht, List.cons_append, List.nil_append]
  have hn := reading_blank (w := ['\n']) (by decide)
    ((((pos.after w).after t).after [' ']).after ['\x7b']) s
  refine ⟨pos.after w, ((((pos.after w).after t).after [' ']).after ['\x7b']).after ['\n'], ?_⟩
  rw [he, inside, BraceToken.scan_cut (by decide), ← hn]
  simp [ofTokens, hs]

theorem reading_closing (hw : ∀ c ∈ w, Text.isBlank c = true) (pos : Position) (s : List Char) :
    ∃ p q, reading pos (w ++ ['\x7d', '\n'] ++ s) = closing p :: reading q s := by
  have hn := reading_blank (w := ['\n']) (by decide) ((pos.after w).after ['\x7d']) s
  refine ⟨pos.after w, ((pos.after w).after ['\x7d']).after ['\n'], ?_⟩
  simp only [List.append_assoc, reading_blank hw, List.cons_append, List.nil_append]
  rw [reading, BraceToken.scan_cut (by decide), ← hn]
  simp [ofTokens, ofBegun]

end Clause

namespace Brace

variable (s : Spelling)

theorem dropFlags_eq {value : List Char} (h : ∀ c ∈ value, isQuiet c = true) :
    dropFlags value = (value, false) := by
  have hn : '!' ∉ value := fun hm => absurd (h '!' hm) (by decide)
  have hd : Text.dropSuffix? "!default".toList value = none :=
    Text.dropSuffix?_eq_none (c := '!') (by decide) hn
  have hg : Text.dropSuffix? "!global".toList value = none :=
    Text.dropSuffix?_eq_none (c := '!') (by decide) hn
  simp only [dropFlags, hd, hg]

theorem statementNode_declaration (property : Property) (value : Value) (pos : Position) :
    statementNode s.sign (s.declaration property value) pos =
      .ok (.declaration property.string (.ofList (s.value value)) pos) := by
  have ⟨c, t, he, hc⟩ := s.declaration_eq_cons property value
  have hs : s.sign ≠ c := by
    cases s.isSign
    all_goals
      rintro rfl
      simp_all [isPropertyChar]
  have hd : definition? s.sign (s.declaration property value) pos = none := by
    simp [definition?, he, Text.dropPrefix?_eq_none hs]
  have hp : ∀ c ∈ property.text, (c == ':') = false := by
    intro c hc
    have := property.all c hc
    rw [beq_eq_false_iff_ne]
    rintro rfl
    cases this
  have hc : Text.cut? (· == ':') (s.declaration property value) =
      some (property.text, ':', ' ' :: s.value value) := Text.cut?_append hp rfl _
  simp only [statementNode, hd, s.atStatement?_declaration, declaration, hc, property.isWord.trim, s.trim_value,
    property.ne_nil]
  rfl

theorem statementNode_definition (name : Variable) (value : Value) (pos : Position) :
    statementNode s.sign (s.definition [':', ' '] name value) pos =
      .ok (.definition name.string (.ofList (s.value value)) false pos) := by
  have hw : ∀ c ∈ name.text, Text.isWordChar c = true := by
    intro c hc
    simp [Text.isWordChar, Char.isAlphanum, Char.isAlpha, name.all c hc]
  have hs : Text.dropPrefix? [s.sign] (s.definition [':', ' '] name value) =
      some (name.text ++ ':' :: ' ' :: s.value value) :=
    Text.dropPrefix?_eq_some_iff.2 (by simp [Spelling.definition])
  have hd : definition? s.sign (s.definition [':', ' '] name value) pos =
      some (.definition name.string (.ofList (s.value value)) false pos) := by
    have ht := Text.takeWhile_append hw (t := ':' :: ' ' :: s.value value) rfl
    have hr := Text.dropWhile_append hw (t := ':' :: ' ' :: s.value value) rfl
    simp only [definition?, hs, Option.bind_eq_bind, Option.bind_some, ht, hr, name.ne_nil, if_false]
    have hc : Text.trimStart (':' :: ' ' :: s.value value) = ':' :: ' ' :: s.value value := rfl
    have hv : Text.dropPrefix? [':'] (':' :: ' ' :: s.value value) = some (' ' :: s.value value) := rfl
    simp only [hc, hv, Option.bind_some, s.trim_value, dropFlags_eq (s.quiet_value value)]
    rfl
  simp only [statementNode, hd]
  rfl

theorem blockNode_selector (selector : Selector) (children : List Node) (pos : Position) :
    blockNode selector.text children pos = .ok (.rule selector.string children pos) := by
  rw [blockNode.eq_def]
  split
  case h_1 h => exact absurd h selector.ne_nil
  case h_2 h => cases selector.all '@' (by simp [h])
  case h_3   => rfl

-- The clauses of written trees become the nodes of the trees, in whatever block they stand.
theorem assemble_allBraced (hs : s.kept = []) (trees : List Tree) (depth : Nat) (pos : Position)
    (rest : List Char) :
    ∃ nodes q, Node.allUnplaced nodes = s.nodes trees ∧
      ∀ stack before, assemble s.sign stack before (Clause.reading pos (s.allBraced depth trees ++ rest)) =
        assemble s.sign stack (before ++ nodes) (Clause.reading q rest) := by
  have hb := isBlank_of_mem_indentation
  induction trees using Tree.forest generalizing depth pos rest
  case nil => exact ⟨[], pos, rfl, by simp [Spelling.allBraced]⟩
  case declaration property value trees ih =>
    have ⟨p, q, hr⟩ := Clause.reading_statement (hb depth) (s.isQuiet_declaration property value) pos
      (s.allBraced depth trees ++ rest)
    have ⟨nodes, q', hn, ih⟩ := ih depth q rest
    refine ⟨.declaration property.string (.ofList (s.value value)) p :: nodes, q', ?_, fun stack before => ?_⟩
    · simp [Node.allUnplaced, Node.unplaced, Spelling.nodes, Spelling.node, hn]
    · rw [Spelling.allBraced, Spelling.braced, List.append_assoc _ (s.allBraced depth trees), hr, assemble,
        statementNode_declaration]
      simp [ih]
  case definition name value trees ih =>
    have ⟨p, q, hr⟩ := Clause.reading_statement (hb depth)
      (s.isQuiet_definition [':', ' '] (by decide) name value) pos
      (s.allBraced depth trees ++ rest)
    have ⟨nodes, q', hn, ih⟩ := ih depth q rest
    refine ⟨.definition name.string (.ofList (s.value value)) false p :: nodes, q', ?_, fun stack before => ?_⟩
    · simp [Node.allUnplaced, Node.unplaced, Spelling.nodes, Spelling.node, Spelling.stored, hs, hn,
        Letters.string]
    · rw [Spelling.allBraced, Spelling.braced, List.append_assoc _ (s.allBraced depth trees), hr, assemble,
        statementNode_definition]
      simp [ih]
  case rule selector children trees ihc iht =>
    have ⟨p, q, ho⟩ := Clause.reading_opening (hb depth) selector.isQuiet pos
      (s.allBraced (depth + 1) children ++
        (indentation depth ++ ['\x7d', '\n'] ++ (s.allBraced depth trees ++ rest)))
    have ⟨inner, q, hi, ihc⟩ := ihc (depth + 1) q
      (indentation depth ++ ['\x7d', '\n'] ++ (s.allBraced depth trees ++ rest))
    have ⟨_, q, hc⟩ := Clause.reading_closing (hb depth) q (s.allBraced depth trees ++ rest)
    have ⟨nodes, q, hn, iht⟩ := iht depth q rest
    refine ⟨.rule selector.string inner p :: nodes, q, ?_, fun stack before => ?_⟩
    · simp [Node.allUnplaced, Node.unplaced, Spelling.nodes, Spelling.node, hi, hn]
    · have he : s.allBraced depth (.rule selector children :: trees) ++ rest =
          indentation depth ++ selector.text ++ [' ', '\x7b', '\n'] ++
            (s.allBraced (depth + 1) children ++
              (indentation depth ++ ['\x7d', '\n'] ++ (s.allBraced depth trees ++ rest))) := by
        simp [Spelling.allBraced, Spelling.braced]
      rw [he, ho, assemble, ihc, hc, assemble, List.nil_append, blockNode_selector]
      simp [iht]

-- Style sheets with braces are read as the trees that they were written for.
theorem parse_allBraced (hs : s.kept = []) (trees : List Tree) :
    ∃ nodes, parse s.sign (s.allBraced 0 trees) = .ok nodes ∧ Node.allUnplaced nodes = s.nodes trees := by
  have ⟨nodes, q, hn, h⟩ := assemble_allBraced s hs trees 0 .start []
  refine ⟨nodes, ?_, hn⟩
  have := h [] []
  simp only [List.append_nil, List.nil_append] at this
  rw [parse, Clause.ofText, this, Clause.reading, BraceToken.scan.eq_def]
  rfl

end Brace

end ScopedCss.Dialect
