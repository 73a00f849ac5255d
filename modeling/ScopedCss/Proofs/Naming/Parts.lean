import ScopedCss.Naming.Basic
import ScopedCss.Proofs.Path.Canonical
import ScopedCss.Proofs.Text.Suffix
import ScopedCss.Proofs.Text.Words

namespace ScopedCss

namespace Text

-- Pieces that can be joined by a separator and told apart again.
def Separable (sep : Char) (pieces : List (List Char)) : Prop :=
  ∀ w ∈ pieces, w ≠ [] ∧ sep ∉ w

variable {sep : Char} {pieces pieces' : List (List Char)} {s t rest : List Char}

theorem join_splitWhere (sep : Char) (s : List Char) : join [sep] (splitWhere (· == sep) s) = s := by
  induction s
  case nil => rfl
  case cons c s ih =>
    unfold splitWhere
    obtain ⟨w, ws, hs⟩ := List.exists_cons_of_ne_nil (splitWhere_ne_nil (· == sep) s)
    rw [hs] at ih ⊢
    by_cases hc : c = sep
    case pos => simp [hc, join, ih]
    case neg =>
      have hb : (c == sep) = false := by simpa using hc
      rw [← ih, hb]
      cases ws <;> simp [join]

namespace Separable

theorem splitWhere_join (h : Separable sep pieces) (hn : pieces ≠ []) :
    splitWhere (· == sep) (join [sep] pieces) = pieces :=
  Text.splitWhere_join (by simp) (fun w hw c hc => by simpa using ne_of_mem_of_not_mem hc (h w hw).2) hn

theorem join_eq_nil (h : Separable sep pieces) : join [sep] pieces = [] ↔ pieces = [] := by
  refine ⟨fun he => ?_, fun he => he ▸ rfl⟩
  by_contra hn
  have hs := h.splitWhere_join hn
  rw [he] at hs
  exact (h [] (hs ▸ .head _)).1 rfl

theorem join_inj (h : Separable sep pieces) (h' : Separable sep pieces')
    (he : join [sep] pieces = join [sep] pieces') : pieces = pieces' := by
  by_cases hn : pieces = []
  case pos =>
    rw [hn] at he ⊢
    exact (h'.join_eq_nil.1 he.symm).symm
  case neg =>
    have hn' : pieces' ≠ [] := fun e => hn (h.join_eq_nil.1 (by rw [he, e]; rfl))
    rw [← h.splitWhere_join hn, he, h'.splitWhere_join hn']

-- A join ends in some pieces just if its last pieces are these.
theorem join_eq_append_iff (h : Separable sep pieces) (h' : Separable sep pieces') (hn' : pieces' ≠ []) :
    join [sep] pieces = s ++ sep :: join [sep] pieces' ↔
      ∃ before, pieces = before ++ pieces' ∧ before ≠ [] ∧ s = join [sep] before := by
  constructor
  case mpr =>
    rintro ⟨before, rfl, hb, rfl⟩
    simp [join_append _ hb hn']
  case mp =>
    intro he
    have hn : pieces ≠ [] := fun e => by simp [e, join] at he
    have hpieces : pieces = splitWhere (· == sep) s ++ pieces' := by
      rw [← h.splitWhere_join hn, he, splitWhere_append_sep (by simp), h'.splitWhere_join hn']
    exact ⟨_, hpieces, splitWhere_ne_nil _ s, (join_splitWhere sep s).symm⟩

-- Where two separators stand side by side, the pieces before them can be told.
theorem takeWhile_splitWhere (h : Separable sep pieces) (s : List Char) :
    (splitWhere (· == sep) (join [sep] pieces ++ sep :: sep :: s)).takeWhile (· ≠ []) = pieces := by
  rw [splitWhere_append_sep (by simp), splitWhere, if_pos (by simp)]
  by_cases hn : pieces = []
  case pos => simp [hn, join, splitWhere]
  case neg =>
    rw [h.splitWhere_join hn, List.takeWhile_append_of_pos fun w hw => by simpa using (h w hw).1]
    simp

theorem double_append_inj (h : Separable sep pieces) (h' : Separable sep pieces')
    (he : join [sep] pieces ++ sep :: sep :: s = join [sep] pieces' ++ sep :: sep :: t) :
    pieces = pieces' ∧ s = t := by
  have hp : pieces = pieces' := by rw [← h.takeWhile_splitWhere s, he, h'.takeWhile_splitWhere t]
  subst hp
  simpa using he

end Separable

end Text

namespace Naming

variable {n : Naming} {path path' own own' name name' : String}

-- The runs of characters that a name keeps.
def wordsOf (s : List Char) : List (List Char) :=
  (Text.splitWhere (!isKept ·) s).filter (· ≠ [])

-- A path from the base folder on, with its package folded and without its extension.
def stem (n : Naming) (path : String) : List Char :=
  dropExtension (foldPackage (dropEmptyPackage (n.relative (Path.forwardSlashes path).toList)))

-- The words of the last segment of a path, without its extension.
def lastWords (path : String) : List (List Char) :=
  wordsOf (dropExtension (Path.basename (Path.forwardSlashes path)).toList)

-- The words of a path with those of its last segment apart, if there are some of both kinds.
def partsOf (words last : List (List Char)) : List (List (List Char)) :=
  let before := words.take (words.length - last.length)
  if last ≠ [] ∧ before ≠ [] ∧ words = before ++ last then [before, last] else [words]

-- What a scoped name has of a path.
def parts (n : Naming) (path : String) : List (List (List Char)) :=
  partsOf (wordsOf (n.stem path)) (lastWords path)

-- A part as it stands in a name.
def written (part : List (List Char)) : List Char :=
  Text.join ['_'] part

theorem separable_wordsOf (s : List Char) : Text.Separable '_' (wordsOf s) := by
  intro w hw
  have ⟨hm, hn⟩ := List.mem_filter.1 hw
  refine ⟨by simpa using hn, fun hc => ?_⟩
  have := (Text.not_mem_splitWhere hm hc).2
  simp [isKept] at this

theorem sanitize_eq (s : List Char) : sanitize s = written (wordsOf s) :=
  rfl

theorem partsOf_cases (words last : List (List Char)) :
    partsOf words last = [words] ∨
      ∃ before, words = before ++ last ∧ before ≠ [] ∧ last ≠ [] ∧ partsOf words last = [before, last] := by
  unfold partsOf
  dsimp only
  split
  case isFalse   => exact .inl rfl
  case isTrue he => exact .inr ⟨_, he.2.2, he.2.1, he.1, rfl⟩

-- A path has one part or two.
theorem parts_cases (n : Naming) (path : String) :
    (∃ words, Text.Separable '_' words ∧ n.parts path = [words]) ∨
      ∃ before last, Text.Separable '_' before ∧ Text.Separable '_' last ∧ n.parts path = [before, last] := by
  have hs := separable_wordsOf (n.stem path)
  rcases partsOf_cases (wordsOf (n.stem path)) (lastWords path) with h | ⟨before, he, -, -, h⟩
  · exact .inl ⟨_, hs, h⟩
  · exact .inr ⟨before, _, fun w hw => hs w (he ▸ List.mem_append_left _ hw), separable_wordsOf _, h⟩

-- A name tells the words of the last segment just if the words of the whole path end in them.
theorem separateName_written {words last : List (List Char)} (hw : Text.Separable '_' words)
    (hl : Text.Separable '_' last) :
    separateName (written last) (written words) =
      Text.join ['_', '_'] ((partsOf words last).map written) := by
  unfold separateName partsOf
  by_cases hn : last = []
  case pos => simp [hn, written, Text.join]
  case neg =>
    have hwritten : written last ≠ [] := mt hl.join_eq_nil.1 hn
    rw [if_neg hwritten]
    cases hd : Text.dropSuffix? ('_' :: written last) (written words)
    case some head =>
      obtain ⟨before, he, hb, hh⟩ :=
        (hw.join_eq_append_iff hl hn).1 (Text.dropSuffix?_eq_some_iff.1 hd)
      subst he hh
      simp [hn, hb, written, Text.join]
    case none =>
      have hnot : ¬(last ≠ [] ∧ words.take (words.length - last.length) ≠ [] ∧
          words = words.take (words.length - last.length) ++ last) := by
        rintro ⟨-, hb, he⟩
        have h := (hw.join_eq_append_iff (s := written (words.take (words.length - last.length))) hl hn).2
          ⟨_, he, hb, rfl⟩
        exact Option.some_ne_none _ ((Text.dropSuffix?_eq_some_iff.2 h).symm.trans hd)
      rw [if_neg hnot]
      simp [Text.join]

-- The parts of a path stand in a name with two underscores between them, ...
theorem sanitizedPath_eq (n : Naming) (path : String) :
    n.sanitizedPath path = Text.join ['_', '_'] ((n.parts path).map written) := by
  have hw : Text.Separable '_' (wordsOf (n.stem path)) := separable_wordsOf _
  have hl : Text.Separable '_' (lastWords path) := separable_wordsOf _
  rw [parts, ← separateName_written hw hl]
  rfl

-- ... and so does the local name behind them.
theorem rawName_eq (hn : n.template = none) (own path : String) :
    (n.rawName own path).toList =
      '_' :: Text.join ['_', '_'] ((n.parts path).map written ++ [own.toList]) := by
  have hp : (n.parts path).map written ≠ [] := by
    rcases n.parts_cases path with ⟨_, -, he⟩ | ⟨_, _, -, -, he⟩ <;> simp [he]
  rw [rawName, hn, Text.join_append _ hp (by simp), ← sanitizedPath_eq]
  simp [Text.join]

theorem join_cons (part : List (List Char)) (parts : List (List (List Char))) (s : List Char) :
    Text.join ['_', '_'] ((part :: parts).map written ++ [s]) =
      written part ++ '_' :: '_' :: Text.join ['_', '_'] (parts.map written ++ [s]) := by
  rcases parts with _ | ⟨_, _⟩ <;> simp [Text.join]

-- The last part may as well be the beginning of the local name.
theorem join_append_part (parts : List (List (List Char))) (part : List (List Char)) (s : List Char) :
    Text.join ['_', '_'] ((parts ++ [part]).map written ++ [s]) =
      Text.join ['_', '_'] (parts.map written ++ [written part ++ '_' :: '_' :: s]) := by
  induction parts
  case nil => simp [Text.join]
  case cons p parts ih => rw [List.cons_append, join_cons, join_cons, ih]

-- Parts are read back from their join with a local name, as far as it does not go on with parts.
theorem join_inj {ps qs : List (List (List Char))} (hp : ∀ p ∈ ps, Text.Separable '_' p)
    (hq : ∀ q ∈ qs, Text.Separable '_' q) {s t : List Char}
    (h : Text.join ['_', '_'] (ps.map written ++ [s]) = Text.join ['_', '_'] (qs.map written ++ [t])) :
    ∃ more, qs = ps ++ more ∧ s = Text.join ['_', '_'] (more.map written ++ [t]) ∨
      ps = qs ++ more ∧ t = Text.join ['_', '_'] (more.map written ++ [s]) := by
  induction ps generalizing qs
  case nil => exact ⟨qs, .inl ⟨rfl, h⟩⟩
  case cons p ps ih =>
    cases qs
    case nil => exact ⟨p :: ps, .inr ⟨rfl, h.symm⟩⟩
    case cons q qs =>
      rw [join_cons, join_cons] at h
      have ⟨he, hrest⟩ := (hp p (.head _)).double_append_inj (hq q (.head _)) h
      have ⟨more, hm⟩ := ih (fun p hm => hp p (.tail _ hm)) (fun q hm => hq q (.tail _ hm)) hrest
      exact ⟨more, by simpa [he] using hm⟩

theorem separable_parts {part : List (List Char)} (h : part ∈ n.parts path) : Text.Separable '_' part := by
  rcases n.parts_cases path with ⟨_, hw, he⟩ | ⟨_, _, hb, hl, he⟩
  all_goals
    rw [he] at h
    simp only [List.mem_cons, List.not_mem_nil, or_false] at h
  · exact h ▸ hw
  · rcases h with rfl | rfl <;> assumption

theorem length_parts (n : Naming) (path : String) :
    (n.parts path).length = 1 ∨ (n.parts path).length = 2 := by
  rcases n.parts_cases path with ⟨_, -, he⟩ | ⟨_, _, -, -, he⟩ <;> simp [he]

-- One path has no more parts than another, or one.
theorem parts_append {more : List (List (List Char))} (h : n.parts path' = n.parts path ++ more) :
    more = [] ∨ ∃ part, more = [part] := by
  have hlength := congrArg List.length h
  have hp := n.length_parts path
  have hp' := n.length_parts path'
  rw [List.length_append] at hlength
  have hmore : more.length = 0 ∨ more.length = 1 := by omega
  exact hmore.imp List.length_eq_zero_iff.1 List.length_eq_one_iff.1

theorem generate_ok (h : n.generate own path = .ok name) (hr : n.replacements = []) :
    name = n.rawName own path := by
  unfold generate at h
  rw [hr] at h
  dsimp only [List.foldl_nil] at h
  split at h <;> cases h
  rfl

-- Two scoped names are the same just if the local names are the same and the paths have the same
-- parts, or if one path has one part more, and the other's local name begins with it.
theorem generate_eq_iff {base : String} (hn : make base [] none = .ok n) (h : n.generate own path = .ok name)
    (h' : n.generate own' path' = .ok name') :
    name = name' ↔
      n.parts path = n.parts path' ∧ own = own' ∨
      (∃ part, n.parts path' = n.parts path ++ [part] ∧ own.toList = written part ++ '_' :: '_' :: own'.toList) ∨
      ∃ part, n.parts path = n.parts path' ++ [part] ∧ own'.toList = written part ++ '_' :: '_' :: own.toList := by
  have hplain : n.replacements = [] ∧ n.template = none := by
    have he := Except.ok.inj hn
    exact ⟨he ▸ rfl, he ▸ rfl⟩
  rw [generate_ok h hplain.1, generate_ok h' hplain.1, ← String.toList_inj, rawName_eq hplain.2,
    rawName_eq hplain.2, List.cons.injEq, and_iff_right rfl]
  constructor
  case mp =>
    intro he
    have ⟨more, hm⟩ := join_inj (fun _ => separable_parts) (fun _ => separable_parts) he
    rcases hm with ⟨hparts, hown⟩ | ⟨hparts, hown⟩
    all_goals rcases parts_append hparts with rfl | ⟨part, rfl⟩
    · exact .inl ⟨by rw [hparts, List.append_nil], String.toList_inj.1 hown⟩
    · exact .inr (.inl ⟨part, hparts, by rw [hown]; simp [Text.join]⟩)
    · exact .inl ⟨by rw [hparts, List.append_nil], (String.toList_inj.1 hown).symm⟩
    · exact .inr (.inr ⟨part, hparts, by rw [hown]; simp [Text.join]⟩)
  case mpr =>
    rintro (⟨hparts, rfl⟩ | ⟨part, hparts, hown⟩ | ⟨part, hparts, hown⟩)
    · rw [hparts]
    · rw [hparts, join_append_part, hown]
    · rw [hparts, join_append_part, hown]

theorem generate_eq_iff_folder :
    make "/app" [] none = .ok ⟨"/app", [], none⟩ ∧
      generate ⟨"/app", [], none⟩ "x__c" "/app/a.css" = .ok "_a__x__c" ∧
      generate ⟨"/app", [], none⟩ "c" "/app/a/x.css" = .ok "_a__x__c" ∧
      ("_a__x__c" = "_a__x__c" ↔
        parts ⟨"/app", [], none⟩ "/app/a.css" = parts ⟨"/app", [], none⟩ "/app/a/x.css" ∧ "x__c" = "c" ∨
        (∃ part, parts ⟨"/app", [], none⟩ "/app/a/x.css" = parts ⟨"/app", [], none⟩ "/app/a.css" ++ [part] ∧
          "x__c".toList = written part ++ '_' :: '_' :: "c".toList) ∨
        ∃ part, parts ⟨"/app", [], none⟩ "/app/a.css" = parts ⟨"/app", [], none⟩ "/app/a/x.css" ++ [part] ∧
          "c".toList = written part ++ '_' :: '_' :: "x__c".toList) := by
  have hn : make "/app" [] none = .ok ⟨"/app", [], none⟩ := by decide +kernel
  have h : generate ⟨"/app", [], none⟩ "x__c" "/app/a.css" = .ok "_a__x__c" := by decide +kernel
  have h' : generate ⟨"/app", [], none⟩ "c" "/app/a/x.css" = .ok "_a__x__c" := by decide +kernel
  exact ⟨hn, h, h', generate_eq_iff hn h h'⟩

-- Paths that differ in nothing but what stands between their words share their names.
theorem generate_not_injective :
    make "/app" [] none = .ok ⟨"/app", [], none⟩ ∧
      Path.IsCanonical "/app/a-b.css" ∧ Path.IsCanonical "/app/a_b.css" ∧
      ("/app/a-b.css", "x") ≠ ("/app/a_b.css", "x") ∧
      generate ⟨"/app", [], none⟩ "x" "/app/a-b.css" = .ok "_a_b__x" ∧
      generate ⟨"/app", [], none⟩ "x" "/app/a_b.css" = .ok "_a_b__x" := by
  refine ⟨by decide +kernel, ?_, ?_, by decide, by decide +kernel, by decide +kernel⟩
  · exact (by decide +kernel : Path.clean "/app/a-b.css" = "/app/a-b.css") ▸ Path.isCanonical_clean _
  · exact (by decide +kernel : Path.clean "/app/a_b.css" = "/app/a_b.css") ▸ Path.isCanonical_clean _

end Naming

end ScopedCss
