import ScopedCss.Proofs.Naming.Parts
import ScopedCss.Proofs.Path.Base
import ScopedCss.Proofs.Path.Packages

namespace ScopedCss

variable {s t : List Char} {place : String}

namespace Text

theorem dropWhileEnd_append {p : Char → Bool} (h : ∃ c ∈ t, p c = false) (s : List Char) :
    dropWhileEnd p (s ++ t) = s ++ dropWhileEnd p t := by
  obtain ⟨c, hc, hp⟩ := h
  have hn : (t.reverse.dropWhile p).isEmpty = false := by
    rw [List.isEmpty_eq_false_iff, Ne, List.dropWhile_eq_nil_iff]
    intro hall
    have := hall c (List.mem_reverse.2 hc)
    simp_all
  simp [dropWhileEnd, List.dropWhile_append, hn]

theorem takeWhileEnd_append {p : Char → Bool} {c : Char} (hc : p c = false) (s t : List Char) :
    takeWhileEnd p (s ++ c :: t) = takeWhileEnd p t := by
  have h : (t.reverse ++ c :: s.reverse).takeWhile p = t.reverse.takeWhile p := by
    rw [List.takeWhile_append]
    split
    case isTrue h  => simp [hc, (List.takeWhile_prefix p).eq_of_length h]
    case isFalse h => rfl
  simp [takeWhileEnd, h]

theorem cutLast?_cons {p : Char → Bool} {c : Char} (hc : p c = false) (s : List Char) :
    cutLast? p (c :: s) = (cutLast? p s).map fun (l, d, r) => (c :: l, d, r) := by
  have h (s : List Char) : cut? p (s ++ [c]) = (cut? p s).map fun (l, d, r) => (l, d, r ++ [c]) := by
    induction s
    case nil => simp [cut?, hc]
    case cons d s ih =>
      rw [List.cons_append, cut?, cut?, ih]
      split
      case isTrue  => rfl
      case isFalse => cases cut? p s <;> rfl
  rw [cutLast?, List.reverse_cons, h, cutLast?]
  cases cut? p s.reverse <;> simp

end Text

namespace Naming

-- What becomes of a path before the words of its last segment are set apart.
def tidy (s : List Char) : List Char :=
  sanitize (dropExtension (foldPackage (dropEmptyPackage s)))

-- A slash in front is passed over by each of the steps, ...
theorem sanitize_slash (s : List Char) : sanitize ('/' :: s) = sanitize s := by
  have hk : (!isKept '/') = true := by decide
  simp [sanitize, Text.splitWhere, hk]

theorem dropExtension_slash (s : List Char) : dropExtension ('/' :: s) = '/' :: dropExtension s := by
  unfold dropExtension
  rw [Text.cutLast?_cons (by decide)]
  rcases Text.cutLast? (· == '.') s with _ | ⟨stem, c, _ | ⟨d, rest⟩⟩
  · rfl
  · rfl
  · simp only [Option.map_some]
    split <;> rfl

theorem afterPackage?_slash (s : List Char) : afterPackage? ('/' :: s) = afterPackage? s := by
  rw [afterPackage?]
  cases afterPackage? s <;> simp

theorem foldPackage_slash (s : List Char) :
    foldPackage ('/' :: s) = foldPackage s ∨ foldPackage ('/' :: s) = '/' :: foldPackage s := by
  unfold foldPackage
  rw [afterPackage?_slash]
  cases afterPackage? s
  case none => exact .inr rfl
  case some => exact .inl rfl

theorem dropEmptyPackage_eq (h : ¬(dropEmptyPackage s).length < s.length) : dropEmptyPackage s = s := by
  fun_induction dropEmptyPackage s
  case case3 hlt _ =>
    rw [List.length_cons] at h
    exact absurd (hlt.trans (Nat.lt_succ_self _)) h
  all_goals simp_all
  omega

theorem dropEmptyPackage_slash (s : List Char) :
    dropEmptyPackage ('/' :: s) = dropEmptyPackage s ∨ dropEmptyPackage ('/' :: s) = '/' :: dropEmptyPackage s := by
  rw [dropEmptyPackage]
  simp only [show ('/' : Char) ≠ '\n' by decide, if_false]
  split
  case isTrue    => exact .inl rfl
  case isFalse h =>
    rw [dropEmptyPackage_eq h]
    exact .inr rfl

-- ... and so it leaves no trace.
theorem tidy_slash (s : List Char) : tidy ('/' :: s) = tidy s := by
  have hfold (s : List Char) :
      sanitize (dropExtension (foldPackage ('/' :: s))) = sanitize (dropExtension (foldPackage s)) := by
    rcases foldPackage_slash s with h | h
    · rw [h]
    · rw [h, dropExtension_slash, sanitize_slash]
  unfold tidy
  rcases dropEmptyPackage_slash s with h | h
  · rw [h]
  · rw [h, hfold]

theorem tidy_slashes (h : ∀ c ∈ t, c = '/') (s : List Char) : tidy (t ++ s) = tidy s := by
  induction t
  case nil => rfl
  case cons c t ih =>
    obtain ⟨rfl, ht⟩ := List.forall_mem_cons.1 h
    rw [List.cons_append, tidy_slash, ih ht]

variable {n : Naming} {base : String}

-- The last segment of a path is in its place already, if the place has a segment at all.
theorem sanitizedName_below (hp : ∃ c ∈ place.toList, Path.isSeparator c = false) (base : String) :
    sanitizedName (base ++ "/" ++ place) = sanitizedName place := by
  have hslash : ∃ c ∈ place.toList, (c == '/') = false := by
    obtain ⟨c, hc, hs⟩ := hp
    exact ⟨c, hc, by simp_all [Path.isSeparator]⟩
  have hl : (base ++ "/" ++ place).toList = base.toList ++ '/' :: place.toList := by simp
  have hb : Path.basename (base ++ "/" ++ place) = Path.basename place := by
    have hdrop := Text.dropWhileEnd_append hslash (base.toList ++ ['/'])
    simp only [List.append_assoc, List.singleton_append] at hdrop
    rw [Path.basename, hl, hdrop, Text.takeWhileEnd_append (by decide), Path.basename]
  rw [sanitizedName, hb, sanitizedName]

-- Behind the base folder, slashes may be left in front of a place.
theorem relative_below (hn : n.base = (Resolver.ofBase base).base) (place : String) :
    ∃ slashes, (∀ c ∈ slashes, c = '/') ∧
      n.relative (Path.forwardSlashes (base ++ "/" ++ place)).toList =
        slashes ++ (Path.forwardSlashes place).toList := by
  let slashes := Text.takeWhileEnd (· == '/') (Path.forwardSlashes base).toList
  have hslashes : ∀ c ∈ slashes, c = '/' := by
    intro c hc
    simpa using List.mem_takeWhile_imp (List.mem_reverse.1 hc)
  have hbase : (Path.forwardSlashes base).toList = n.base.toList ++ slashes := by
    rw [hn, Resolver.ofBase, String.toList_ofList, Text.dropWhileEnd_append_takeWhileEnd]
  have hswap (s : List Char) : slashes ++ '/' :: s = '/' :: (slashes ++ s) := by
    rw [List.eq_replicate_iff.2 ⟨rfl, hslashes⟩, List.append_cons, ← List.replicate_succ', List.replicate_succ,
      List.cons_append]
  have hl : (Path.forwardSlashes (base ++ "/" ++ place)).toList =
      n.base.toList ++ '/' :: (slashes ++ (Path.forwardSlashes place).toList) := by
    rw [← hswap, ← List.append_assoc, ← hbase]
    simp [Path.toList_forwardSlashes]
  refine ⟨slashes, hslashes, ?_⟩
  rw [relative, hl, Text.dropPrefix?_append]
  rfl

-- A file below the base folder has the names that its place has where there is no base folder.
theorem sanitizedPath_below (hn : n.base = (Resolver.ofBase base).base)
    (hp : ∃ c ∈ place.toList, Path.isSeparator c = false) :
    n.sanitizedPath (base ++ "/" ++ place) = { n with base := "" }.sanitizedPath place := by
  have hf : Path.forwardSlashes (base ++ "/" ++ place) = Path.forwardSlashes base ++ "/" ++ Path.forwardSlashes place :=
    String.toList_inj.1 (by simp [Path.toList_forwardSlashes])
  have hforward : ∃ c ∈ (Path.forwardSlashes place).toList, Path.isSeparator c = false := by
    obtain ⟨c, hc, hs⟩ := hp
    refine ⟨c, ?_, hs⟩
    rw [Path.toList_forwardSlashes]
    refine List.mem_map.2 ⟨c, hc, if_neg ?_⟩
    rintro rfl
    cases hs
  have hbelow : tidy (n.relative (Path.forwardSlashes (base ++ "/" ++ place)).toList) =
      tidy (Path.forwardSlashes place).toList := by
    obtain ⟨slashes, hs, hl⟩ := relative_below hn place
    rw [hl, tidy_slashes hs]
  have hnone : tidy ({ n with base := "" }.relative (Path.forwardSlashes place).toList) =
      tidy (Path.forwardSlashes place).toList := by
    unfold relative
    split
    case h_1 rest hrest => rw [Text.dropPrefix?_eq_some_iff.1 hrest, String.toList_empty, List.nil_append, tidy_slash]
    case h_2            => rfl
  have hname :
      sanitizedName (Path.forwardSlashes (base ++ "/" ++ place)) = sanitizedName (Path.forwardSlashes place) := by
    rw [hf, sanitizedName_below hforward]
  unfold tidy at hbelow hnone
  simp only [sanitizedPath, hbelow, hnone, hname]

theorem rawName_below (hn : n.base = (Resolver.ofBase base).base)
    (hp : ∃ c ∈ place.toList, Path.isSeparator c = false) (own : String) :
    n.rawName own (base ++ "/" ++ place) = { n with base := "" }.rawName own place := by
  have hpath := sanitizedPath_below hn hp
  have hvalue (p : Placeholder) :
      n.placeholderValue (base ++ "/" ++ place) own p = { n with base := "" }.placeholderValue place own p := by
    cases p
    case path      => exact hpath
    case name      => exact sanitizedName_below hp base
    case localName => rfl
    case hash      => exact congrArg shortHash hpath
  unfold rawName
  simp only [hpath, hvalue]

theorem generate_below (hn : n.base = (Resolver.ofBase base).base)
    (hp : ∃ c ∈ place.toList, Path.isSeparator c = false) (own : String) :
    (n.generate own (base ++ "/" ++ place)).toOption = ({ n with base := "" }.generate own place).toOption := by
  unfold generate
  dsimp only
  rw [rawName_below hn hp]
  split <;> rfl

-- Wherever a project is, the files in it have the same scoped names, or none in either place.
theorem generate_moved (hp : ∃ c ∈ place.toList, Path.isSeparator c = false) (base base' : String)
    (replacements : List Replacement) (template : Option String) (own : String) :
    ((make base replacements template).bind (·.generate own (base ++ "/" ++ place))).toOption =
      ((make base' replacements template).bind (·.generate own (base' ++ "/" ++ place))).toOption := by
  have hmake (base : String) :
      ((make base replacements template).bind (·.generate own (base ++ "/" ++ place))).toOption =
        ((make "" replacements template).bind (·.generate own place)).toOption := by
    rw [make_eq base]
    cases hn : make "" replacements template
    case error => simp only [Except.map, Except.bind, Except.toOption]
    case ok n =>
      have hnone : { n with base := "" } = n := by
        rw [← (make_base hn).trans (by decide : (Resolver.ofBase "").base = "")]
      have hbase : { n with base := (Resolver.ofBase base).base }.base = (Resolver.ofBase base).base := rfl
      simp only [Except.map, Except.bind]
      rw [generate_below hbase hp, hnone]
  rw [hmake base, hmake base']

-- A base folder with a package, an extension and a slash at its end.
theorem generate_moved_braces :
    ((make "/app" [] none).bind (·.generate "x" ("/app" ++ "/" ++ "ui/a.css"))).toOption = some "_ui__a__x" ∧
      ((make "C:\\\x7b\x7d\\b.css/" [] none).bind
        (·.generate "x" ("C:\\\x7b\x7d\\b.css/" ++ "/" ++ "ui/a.css"))).toOption = some "_ui__a__x" := by
  have happ : ((make "/app" [] none).bind (·.generate "x" ("/app" ++ "/" ++ "ui/a.css"))).toOption =
    some "_ui__a__x" := by decide +kernel
  exact ⟨happ, (generate_moved ⟨'u', by decide, by decide⟩ _ "/app" [] none "x").trans happ⟩

end Naming

end ScopedCss
