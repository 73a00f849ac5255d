import ScopedCss.Proofs.Path.Canonical
import ScopedCss.Proofs.Text.Suffix
import ScopedCss.Proofs.Text.Words

namespace ScopedCss

namespace Path

-- Where segments lead from the folder with these names on the way from the root. Empty ones and `.` stay
-- there, and `..` goes to the folder above, as long as there is one.
def walk (names : List Segment) : List Segment → List Segment
  | []        => names
  | s :: rest =>
    if s = [] ∨ s = ['.'] then walk names rest
    else if s = ['.', '.'] then walk names.dropLast rest
    else walk (names ++ [s]) rest

theorem walk_append (names segments rest : List Segment) :
    walk names (segments ++ rest) = walk (walk names segments) rest := by
  induction segments generalizing names
  case nil => rfl
  case cons s segments ih =>
    simp only [List.cons_append, walk]
    split
    case isTrue  => exact ih names
    case isFalse =>
      split
      case isTrue  => exact ih names.dropLast
      case isFalse => exact ih (names ++ [s])

theorem isName_of_mem_walk {names segments : List Segment} (hn : ∀ s ∈ names, IsName s)
    (hs : ∀ s ∈ segments, ∀ c ∈ s, isSeparator c = false) : ∀ s ∈ walk names segments, IsName s := by
  induction segments generalizing names
  case nil => exact hn
  case cons s segments ih =>
    obtain ⟨hsep, hs⟩ := List.forall_mem_cons.1 hs
    simp only [walk]
    split
    case isTrue => exact ih hn hs
    case isFalse hsame =>
      rw [not_or] at hsame
      split
      case isTrue      => exact ih (fun s hm => hn s (List.dropLast_subset names hm)) hs
      case isFalse hup =>
        refine ih (fun t hm => ?_) hs
        rcases List.mem_append.1 hm with hm | hm
        · exact hn t hm
        · exact List.mem_singleton.1 hm ▸ ⟨hsame.1, hsame.2, hup, hsep⟩

-- From the root, collapsing the segments of a path walks along them.
theorem reverse_foldl_pushSegment {stack segments : List Segment} (h : ['.', '.'] ∉ stack) :
    (segments.foldl (pushSegment true) stack).reverse = walk stack.reverse segments := by
  induction segments generalizing stack
  case nil => rfl
  case cons s segments ih =>
    simp only [List.foldl_cons, walk, pushSegment]
    split
    case isTrue => exact ih h
    case isFalse =>
      split
      case isTrue =>
        cases stack
        case nil => exact ih h
        case cons top below =>
          rw [List.mem_cons, not_or] at h
          obtain ⟨ht, hb⟩ := h
          simp only [Ne.symm ht, if_false]
          rw [ih hb, List.reverse_cons, List.dropLast_concat]
      case isFalse hup =>
        have hm : ['.', '.'] ∉ s :: stack := by
          rw [List.mem_cons, not_or]
          exact ⟨Ne.symm hup, h⟩
        rw [ih hm, List.reverse_cons]

theorem collapse_eq_walk (segments : List Segment) : collapse true segments = walk [] segments :=
  reverse_foldl_pushSegment List.not_mem_nil

-- A canonical path from the root, by which a file is told from others.
structure IsIdentity (path : String) : Prop where
  rooted  : path.toList.head? = some '/'
  forward : '\\' ∉ path.toList
  names   : path ≠ "/" → ∀ s ∈ (segments path).tail, s ≠ [] ∧ s ≠ ['.'] ∧ s ≠ ['.', '.']
  ending  : path ≠ "/" → path.toList.getLast? ≠ some '/'

theorem isIdentity_ofSegments {names : List Segment} (h : ∀ s ∈ names, IsName s) :
    IsIdentity (ofSegments true names) := by
  have hs (s) (hm : s ∈ names) (c) (hc : c ∈ s) : (c == '/') = false := by
    have := (h s hm).2.2.2 c hc
    simp_all [isSeparator]
  have hl : (ofSegments true names).toList = '/' :: Text.join ['/'] names := by simp [ofSegments]
  have hne (hp : ofSegments true names ≠ "/") : names ≠ [] := by
    rintro rfl
    exact hp rfl
  refine ⟨by rw [hl]; rfl, ?forward, fun hp => ?names, fun hp => ?ending⟩
  case forward =>
    rw [hl, List.mem_cons]
    rintro (hb | hb)
    · cases hb
    · rcases Text.mem_join hb with hb | ⟨s, hm, hb⟩
      · cases hb
      · cases (h s hm).2.2.2 _ hb
  case names =>
    rw [segments, hl, Text.splitWhere, if_pos (by decide), Text.splitWhere_join rfl hs (hne hp)]
    exact fun s hm => ⟨(h s hm).1, (h s hm).2.1, (h s hm).2.2.1⟩
  case ending =>
    obtain ⟨_, last, hm, t, ht⟩ := Text.join_eq_append ['/'] (hne hp)
    rw [hl, ht, ← List.cons_append, List.getLast?_append_of_ne_nil _ (h last hm).1]
    exact fun he => absurd (hs last hm '/' (List.mem_of_getLast? he)) (by decide)

section

variable {path : String}

theorem head?_forwardSlashes (h : path.toList.head? = some '/') : (forwardSlashes path).toList.head? = some '/' := by
  rw [forwardSlashes, String.toList_ofList, List.head?_map, h]
  rfl

theorem mem_of_mem_forwardSlashes {c : Char} (h : c ∈ (forwardSlashes path).toList) (hc : c ≠ '/') : c ∈ path.toList := by
  rw [forwardSlashes, String.toList_ofList] at h
  obtain ⟨d, hd, rfl⟩ := List.mem_map.1 h
  split at hc
  case isTrue  => exact absurd rfl hc
  case isFalse hb => rwa [if_neg hb]

theorem clean_eq_walk (h : path.toList.head? = some '/') :
    clean path = ofSegments true (walk [] (segments (forwardSlashes path))) := by
  have hr : isRooted (forwardSlashes path) = true := by rw [isRooted, head?_forwardSlashes h]; rfl
  simp only [clean, hr, collapse_eq_walk]

theorem isIdentity_clean (h : path.toList.head? = some '/') : IsIdentity (clean path) := by
  rw [clean_eq_walk h]
  refine isIdentity_ofSegments (isName_of_mem_walk (by simp) fun s hs => ?_)
  exact isSeparator_of_mem_segments (forwardSlashes_toList path) hs

theorem segments_of_toList {head tail : List Char} (h : path.toList = head ++ '/' :: tail) :
    segments path = Text.splitWhere (· == '/') head ++ Text.splitWhere (· == '/') tail := by
  rw [segments, h, Text.splitWhere_append_sep rfl]

-- The folder of a file, by the last slash of its path.
theorem dirname_of_rooted (hh : path.toList.head? = some '/') (hf : '\\' ∉ path.toList) :
    (dirname path).toList.head? = some '/' ∧ (dirname path).toList ⊆ path.toList ∧
      ∀ names, walk names (segments (dirname path)) = walk names (segments path).dropLast := by
  obtain ⟨rest, hr⟩ := List.head?_eq_some_iff.1 hh
  obtain ⟨tail, head, he, hn⟩ := List.eq_append_cons_of_mem (List.mem_reverse.2 (hr ▸ List.mem_cons_self))
  have hp : path.toList = head.reverse ++ '/' :: tail.reverse := by
    rw [← List.reverse_reverse path.toList, he]
    simp
  have ht (c) (hc : c ∈ tail) : isSeparator c = false := by
    have hs : c ≠ '/' := fun h => hn (h ▸ hc)
    have hb : c ≠ '\\' := by
      rintro rfl
      exact hf (hp ▸ List.mem_append_right _ (.tail _ (List.mem_reverse.2 hc)))
    simp [isSeparator, hs, hb]
  have hsegments : (segments path).dropLast = Text.splitWhere (· == '/') head.reverse := by
    rw [segments, hp, Text.splitWhere_append_sep rfl, Text.splitWhere_of_none (s := tail.reverse), List.dropLast_concat]
    intro c hc
    have := ht c (List.mem_reverse.1 hc)
    simp_all [isSeparator]
  have hcut : Text.cutLast? isSeparator path.toList = some (head.reverse, '/', tail.reverse) := by
    rw [Text.cutLast?, he, Text.cut?_append ht rfl]
    rfl
  have hdir : dirname path = if head.reverse = [] then "/" else .ofList head.reverse := by
    simp only [dirname, hcut]
    split <;> simp_all
  rw [hsegments, hdir, hp]
  rw [hp] at hh
  split
  case isTrue h => simp [h, segments, Text.splitWhere, walk]
  case isFalse h =>
    refine ⟨?_, ?_, fun names => by rw [segments, String.toList_ofList]⟩
    · obtain ⟨c, dir, hd⟩ := List.exists_cons_of_ne_nil h
      simpa [hd] using hh
    · rw [String.toList_ofList]
      exact List.subset_append_left _ _

end

end Path

namespace Resolver

variable {r : Resolver} {base importing specifier : String} {spec : List Char}

-- The base folder is given from the root.
def IsRooted (r : Resolver) : Prop :=
  ∀ s, (r.base ++ "/" ++ s).toList.head? = some '/'

theorem isRooted_ofBase (h : base.toList.head? = some '/') : (ofBase base).IsRooted := by
  intro s
  have hl : (ofBase base).base.toList <+: (Path.forwardSlashes base).toList := by
    simp only [ofBase, String.toList_ofList]
    exact ⟨_, Text.dropWhileEnd_append_takeWhileEnd _ _⟩
  have hb := Path.head?_forwardSlashes h
  cases hc : (ofBase base).base.toList
  case nil => simp [hc]
  case cons c rest =>
    obtain ⟨t, ht⟩ := hl
    rw [← ht, hc] at hb
    simpa [hc] using hb

-- A specifier that starts with a drive, as in `C:/file.css`.
def hasDrive : List Char → Bool
  | c :: d :: _ => c.isAlpha && d == ':'
  | _           => false

theorem head?_of_isAbsolute (ha : Path.isAbsolute (.ofList spec) = true) (hd : hasDrive spec = false) (hf : '\\' ∉ spec) :
    spec.head? = some '/' := by
  have hsep {c : Char} (hm : c ∈ spec) (hc : Path.isSeparator c = true) : c = '/' := by
    simp only [Path.isSeparator, Bool.or_eq_true, beq_iff_eq] at hc
    exact hc.resolve_right fun hb => hf (hb ▸ hm)
  simp only [Path.isAbsolute, String.toList_ofList] at ha
  split at ha
  case h_1 c d rest =>
    rw [Bool.or_eq_true, Bool.and_eq_true, beq_iff_eq] at ha
    rcases ha with ha | ⟨hc, rfl⟩
    · rw [hsep (.head _) ha, List.head?_cons]
    · simp [hasDrive, hc] at hd
  case h_2 c => rw [hsep (.head _) ha, List.head?_cons]
  case h_3   => cases ha

theorem fromBrace?_eq_none (h : '\x7b' ∉ spec) : fromBrace? spec = none := by
  rw [fromBrace?, Text.cut?_eq_none fun c hc => by simpa using ne_of_mem_of_not_mem hc h]
  rfl

-- Outside of packages, the importing file counts as it is.
theorem importer_eq (h : '\x7b' ∉ importing.toList) : importer importing = Path.forwardSlashes importing := by
  rw [importer, fromBrace?_eq_none fun hm => h (Path.mem_of_mem_forwardSlashes hm (by decide))]
  rfl

-- What is next to a file has the names of the file's folder in front of it.
theorem besides_walk (ha : Path.isAbsolute (.ofList spec) = false) (hi : importing.toList.head? = some '/')
    (hn : '\x7b' ∉ importing.toList) :
    (besides importing spec).toList.head? = some '/' ∧
      ('\x7b' ∉ spec → '\x7b' ∉ (besides importing spec).toList) ∧
      ('\\' ∉ spec → Path.walk [] (Path.segments (Path.forwardSlashes (besides importing spec))) =
        Path.walk [] ((Path.segments (Path.forwardSlashes importing)).dropLast ++ Text.splitWhere (· == '/') spec)) := by
  obtain ⟨hhead, hsub, hwalk⟩ := Path.dirname_of_rooted (Path.head?_forwardSlashes hi) (Path.forwardSlashes_toList importing)
  have hb : (besides importing spec).toList = (Path.dirname (Path.forwardSlashes importing)).toList ++
      '/' :: (if spec.head? = some '.' then spec else '.' :: '/' :: spec) := by
    simp [besides, ha, importer_eq hn]
  have hmem {c : Char} (hc : c ∈ (besides importing spec).toList) :
      c ∈ (Path.forwardSlashes importing).toList ∨ c = '/' ∨ c = '.' ∨ c ∈ spec := by
    rw [hb, List.mem_append, List.mem_cons] at hc
    rcases hc with hc | rfl | hc
    · exact .inl (hsub hc)
    · exact .inr (.inl rfl)
    · split at hc
      case isTrue  => exact .inr (.inr (.inr hc))
      case isFalse =>
        rw [List.mem_cons, List.mem_cons] at hc
        rcases hc with hc | hc | hc
        · exact .inr (.inr (.inl hc))
        · exact .inr (.inl hc)
        · exact .inr (.inr (.inr hc))
  refine ⟨?_, fun hs hc => ?_, fun hs => ?_⟩
  · obtain ⟨rest, hr⟩ := List.head?_eq_some_iff.1 hhead
    rw [hb, hr]
    rfl
  · rcases hmem hc with hc | hc | hc | hc
    · exact hn (Path.mem_of_mem_forwardSlashes hc (by decide))
    all_goals simp_all
  · have hf : Path.forwardSlashes (besides importing spec) = besides importing spec := by
      refine Path.forwardSlashes_eq fun hc => ?_
      rcases hmem hc with hc | hc | hc | hc
      · exact Path.forwardSlashes_toList importing hc
      all_goals simp_all
    have hspec (names : List Path.Segment) :
        Path.walk names (Text.splitWhere (· == '/') (if spec.head? = some '.' then spec else '.' :: '/' :: spec)) =
          Path.walk names (Text.splitWhere (· == '/') spec) := by
      split
      case isTrue  => rfl
      case isFalse => simp [Text.splitWhere, Path.walk]
    have hdir := hwalk []
    rw [Path.segments] at hdir
    rw [hf, Path.segments_of_toList hb, Path.walk_append, Path.walk_append, hspec, hdir]

-- Without a sign of its own, and outside of packages, a specifier names a path.
theorem target_besides (hspec : spelled specifier = spec) (hmodule : spec.head? ≠ some '~')
    (hslash : spec.head? ≠ some '/') (hbrace : '\x7b' ∉ spec) (hb : '\x7b' ∉ (besides importing spec).toList) :
    r.target specifier importing = .path (Path.clean (besides importing spec)) := by
  unfold target
  unfold spelled at hspec
  simp only [hspec]
  split
  case h_1 => exact absurd rfl hmodule
  case h_2 => exact absurd rfl hslash
  case h_3 => exact absurd (List.mem_cons_self) hbrace
  case h_4 =>
    rw [← besides, fromBrace?_eq_none hb]

-- Whatever a specifier leads to has a canonical path from the root, and one without a sign of its own leads on
-- from the folder of the importing file.
theorem resolve_identity (hb : base.toList.head? = some '/') (hi : importing.toList.head? = some '/')
    (hn : '\x7b' ∉ importing.toList)
    (hd : hasDrive ((Text.dropPrefix? ['/'] (spelled specifier)).getD (spelled specifier)) = false) (disk : Disk)
    (present : String → Bool) :
    (∀ path, (ofBase base).resolve disk present specifier importing = .ok path → Path.IsIdentity path) ∧
      ((spelled specifier).head? ≠ some '~' → (spelled specifier).head? ≠ some '/' → '\x7b' ∉ spelled specifier →
        (ofBase base).resolve disk present specifier importing = .ok (.ofList ('/' :: Text.join ['/']
          (Path.walk [] ((Path.segments (Path.forwardSlashes importing)).dropLast ++
            Text.splitWhere (· == '/') (spelled specifier)))))) := by
  have hf : '\\' ∉ spelled specifier := Path.forwardSlashes_toList _
  have ha (hh : (spelled specifier).head? ≠ some '/') : Path.isAbsolute (.ofList (spelled specifier)) = false := by
    by_contra ha
    have hdrop : Text.dropPrefix? ['/'] (spelled specifier) = none := by
      cases hs : spelled specifier
      case nil        => rfl
      case cons c rest =>
        rw [hs] at hh
        have hc : '/' ≠ c := fun he => hh (he ▸ rfl)
        exact Text.dropPrefix?_eq_none hc _ _
    rw [hdrop] at hd
    exact hh (head?_of_isAbsolute (by simpa using ha) hd hf)
  constructor
  case left =>
    intro path hp
    have hl : ((ofBase base).target specifier importing).LeadsTo Path.IsIdentity := by
      refine leadsTo_target rfl (fun s => Path.isIdentity_clean (isRooted_ofBase hb s)) (fun s hs habs => ?_)
        fun hh => Path.isIdentity_clean (besides_walk (ha hh) hi hn).1
      rw [hs] at hd hf
      refine Path.isIdentity_clean ?_
      rw [String.toList_ofList]
      exact head?_of_isAbsolute habs (by simpa [Text.dropPrefix?] using hd) fun hm => hf (.tail _ hm)
    exact hl.settle hp
  case right =>
    intro hmodule hslash hbrace
    obtain ⟨hhead, hnone, hwalk⟩ := besides_walk (ha hslash) hi hn
    rw [resolve, target_besides rfl hmodule hslash hbrace (hnone hbrace), ImportTarget.settle, Path.clean_eq_walk hhead,
      hwalk hf, Path.ofSegments, if_pos rfl]
    rfl

-- Quotes, backslashes, and more steps up than there are folders.
theorem resolve_identity_upwards :
    (ofBase "/app/").resolve ⟨∅, [], "/"⟩ (fun _ => false) " '..\\..\\../lib/./x.css' " "/app/ui/a.css" =
        .ok "/lib/x.css" ∧ Path.IsIdentity "/lib/x.css" := by
  obtain ⟨hidentity, hpath⟩ := @resolve_identity "/app/" "/app/ui/a.css" " '..\\..\\../lib/./x.css' "
    (by decide) (by decide) (by decide) (by decide) ⟨∅, [], "/"⟩ fun _ => false
  have h : (ofBase "/app/").resolve ⟨∅, [], "/"⟩ (fun _ => false) " '..\\..\\../lib/./x.css' " "/app/ui/a.css" =
      .ok "/lib/x.css" :=
    (hpath (by decide) (by decide) (by decide)).trans (congrArg Except.ok (by decide))
  exact ⟨h, hidentity _ h⟩

end Resolver

end ScopedCss
