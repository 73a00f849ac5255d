import ScopedCss.Proofs.Naming.Parts
import ScopedCss.Proofs.Path.Base
import ScopedCss.Proofs.Path.Packages

namespace ScopedCss

namespace Path

instance (s : Segment) : Decidable (IsName s) :=
  inferInstanceAs (Decidable (_ ∧ _ ∧ _ ∧ _))

-- Wherever it is taken from, a path leads from there down by these names.
structure LeadsDown (s : List Char) (names : List Segment) : Prop where
  isName : ∀ n ∈ names, IsName n
  walks  : ∀ rooted stack, (Text.splitWhere (· == '/') s).foldl (pushSegment rooted) stack = names.reverse ++ stack

-- A path that leads down by folders, and then to what its last segment names.
inductive Down : List Char → List Segment → Segment → Prop
  | here {name : Segment} : IsName name → Down name [] name
  | below {dir : List Char} {folders : List Segment} {name : Segment} :
    LeadsDown dir folders → IsName name → Down (dir ++ '/' :: name) folders name

section

variable {s : List Char} {names folders : List Segment} {name : Segment} {base path : String}

theorem IsName.slashless (h : IsName name) : ∀ c ∈ name, (c == '/') = false :=
  (Disk.no_slash_of_isName h).2

-- An ending of two characters or more makes no name one of the two that are none.
theorem IsName.append {ending : List Char} (h : IsName name) (hl : 2 ≤ ending.length)
    (he : ∀ c ∈ ending, isSeparator c = false) : IsName (name ++ ending) := by
  have hn := List.length_pos_iff.2 h.1
  have hlength : (name ++ ending).length = _ := List.length_append
  refine ⟨List.append_ne_nil_of_left_ne_nil h.1 _, fun hs => ?_, fun hs => ?_, fun c hc => ?_⟩
  · rw [hs, List.length_singleton] at hlength
    omega
  · rw [hs, List.length_cons, List.length_singleton] at hlength
    omega
  · exact (List.mem_append.1 hc).elim (h.2.2.2 c) (he c)

theorem pushSegment_name (h : IsName name) (rooted : Bool) (stack : List Segment) :
    pushSegment rooted stack name = name :: stack := by
  simp [pushSegment, h.1, h.2.1, h.2.2.1]

theorem pushSegment_same {t : Segment} (h : t = [] ∨ t = ['.']) (rooted : Bool) (stack : List Segment) :
    pushSegment rooted stack t = stack :=
  if_pos h

namespace LeadsDown

theorem nil : LeadsDown [] [] where
  isName     := by simp
  walks _ _  := rfl

theorem unique {names' : List Segment} (h : LeadsDown s names) (h' : LeadsDown s names') : names = names' := by
  have hw := (h.walks true []).symm.trans (h'.walks true [])
  simpa using hw

-- Slashes in front make no difference, and no more does a dot before one.
theorem of_slash (h : LeadsDown ('/' :: s) names) : LeadsDown s names where
  isName           := h.isName
  walks rooted stack := by
    have hw := h.walks rooted stack
    rwa [Text.splitWhere, if_pos (by decide), List.foldl_cons, pushSegment_same (.inl rfl)] at hw

theorem slash (h : LeadsDown s names) : LeadsDown ('/' :: s) names where
  isName           := h.isName
  walks rooted stack := by
    rw [Text.splitWhere, if_pos (by decide), List.foldl_cons, pushSegment_same (.inl rfl)]
    exact h.walks rooted stack

theorem of_dot (h : LeadsDown ('.' :: '/' :: s) names) : LeadsDown s names where
  isName           := h.isName
  walks rooted stack := by
    have hsplit : Text.splitWhere (· == '/') ('.' :: '/' :: s) = ['.'] :: Text.splitWhere (· == '/') s :=
      Text.splitWhere_append (s := ['.']) (by decide) rfl
    have hw := h.walks rooted stack
    rwa [hsplit, List.foldl_cons, pushSegment_same (.inr rfl)] at hw

-- Where nothing but names stands between slashes, those are the way.
theorem of_names (h : ∀ t ∈ segments path, t = [] ∨ IsName t) : LeadsDown path.toList (namesOf path) where
  isName n hn := by
    obtain ⟨hm, hne⟩ := List.mem_filter.1 hn
    exact (h n hm).resolve_left (by simpa using hne)
  walks rooted stack := by
    rw [namesOf, ← segments]
    generalize segments path = segments at h ⊢
    induction segments generalizing stack
    case nil => rfl
    case cons t rest ih =>
      obtain ⟨ht, hrest⟩ := List.forall_mem_cons.1 h
      rw [List.foldl_cons, ih _ hrest]
      by_cases he : t = []
      case pos => simp [he, pushSegment]
      case neg => simp [he, pushSegment_name (ht.resolve_left he)]

end LeadsDown

namespace Down

theorem isName (h : Down s folders name) : IsName name := by
  cases h <;> assumption

theorem ne_nil (h : Down s folders name) : s ≠ [] := by
  cases h
  case here hn => exact hn.1
  case below   => simp

theorem isName_names (h : Down s folders name) : ∀ n ∈ folders ++ [name], IsName n := by
  have hname := h.isName
  cases h
  case here => simpa using hname
  case below hd _ =>
    intro n hn
    rcases List.mem_append.1 hn with hn | hn
    · exact hd.isName n hn
    · exact List.mem_singleton.1 hn ▸ hname

theorem leads (h : Down s folders name) : LeadsDown s (folders ++ [name]) where
  isName := h.isName_names
  walks rooted stack := by
    cases h
    case here hn =>
      rw [Text.splitWhere_of_none hn.slashless]
      exact pushSegment_name hn rooted stack
    case below dir hd hn =>
      rw [Text.splitWhere_append_sep rfl, Text.splitWhere_of_none hn.slashless, List.foldl_append, hd.walks]
      simp [pushSegment_name hn]

-- Nothing but the last name changes when an ending is put to a path.
theorem append {ending : List Char} (h : Down s folders name) (hl : 2 ≤ ending.length)
    (he : ∀ c ∈ ending, isSeparator c = false) : Down (s ++ ending) folders (name ++ ending) := by
  cases h
  case here hn => exact .here (hn.append hl he)
  case below hd hn =>
    rw [List.append_assoc, List.cons_append]
    exact .below hd (hn.append hl he)

theorem of_slash (h : Down ('/' :: s) folders name) : Down s folders name := by
  generalize hs : '/' :: s = s' at h
  cases h
  case here hn =>
    subst hs
    exact absurd (hn.slashless '/' (.head _)) (by decide)
  case below dir hd hn =>
    cases dir
    case nil =>
      cases hs
      obtain rfl := hd.unique .nil
      exact .here hn
    case cons =>
      cases hs
      exact .below hd.of_slash hn

theorem slash (h : Down s folders name) : Down ('/' :: s) folders name := by
  cases h
  case here hn     => exact .below .nil hn
  case below hd hn => exact .below hd.slash hn

theorem of_dot (h : Down ('.' :: '/' :: s) folders name) : Down s folders name := by
  generalize hs : '.' :: '/' :: s = s' at h
  cases h
  case here hn =>
    subst hs
    exact absurd (hn.slashless '/' (.tail _ (.head _))) (by decide)
  case below dir hd hn =>
    rcases dir with _ | ⟨c, _ | ⟨d, dir⟩⟩
    case nil => cases hs
    case cons.nil =>
      have hdot : LeadsDown ['.'] [] := ⟨by simp, fun _ _ => rfl⟩
      cases hs
      obtain rfl := hd.unique hdot
      exact .here hn
    case cons.cons =>
      cases hs
      exact .below hd.of_dot hn

theorem dropSlashes (h : Down s folders name) : Down (s.dropWhile (· == '/')) folders name := by
  induction s
  case nil => exact h
  case cons c s ih =>
    rw [List.dropWhile_cons]
    split
    case isFalse  => exact h
    case isTrue hc =>
      rw [beq_iff_eq] at hc
      exact ih (hc ▸ h).of_slash

-- A path between whose slashes nothing but names stands, and that ends in one.
theorem exists_of_names (h : ∀ t ∈ segments path, t = [] ∨ IsName t) (hn : path ≠ "")
    (hl : path.toList.getLast? ≠ some '/') :
    ∃ folders name, Down path.toList folders name ∧ namesOf path = folders ++ [name] := by
  have hlast {t : List Char} (ht : '/' ∉ t) (hm : t ∈ segments path) (hne : t ≠ []) :
      IsName t ∧ (Text.splitWhere (· == '/') t).filter (· ≠ []) = [t] := by
    have hsplit : Text.splitWhere (· == '/') t = [t] :=
      Text.splitWhere_of_none fun c hc => by simpa using ne_of_mem_of_not_mem hc ht
    exact ⟨(h t hm).resolve_left hne, by simp [hsplit, hne]⟩
  by_cases hs : '/' ∈ path.toList
  case neg =>
    have hsegments : segments path = [path.toList] :=
      Text.splitWhere_of_none fun c hc => by simpa using ne_of_mem_of_not_mem hc hs
    have hne : path.toList ≠ [] := fun he => hn (String.toList_inj.1 he)
    obtain ⟨hname, hfilter⟩ := hlast hs (by simp [hsegments]) hne
    exact ⟨[], path.toList, .here hname, hfilter⟩
  case pos =>
    obtain ⟨tail, head, he, ht⟩ := List.eq_append_cons_of_mem (List.mem_reverse.2 hs)
    have hp : path.toList = head.reverse ++ '/' :: tail.reverse := by
      rw [← List.reverse_reverse path.toList, he]
      simp
    have hsegments := segments_of_toList hp
    have hne : tail.reverse ≠ [] := by
      intro hnil
      rw [hp, hnil, List.getLast?_append] at hl
      exact hl rfl
    have ht : '/' ∉ tail.reverse := fun hm => ht (List.mem_reverse.1 hm)
    have hsplit : Text.splitWhere (· == '/') tail.reverse = [tail.reverse] :=
      Text.splitWhere_of_none fun c hc => by simpa using ne_of_mem_of_not_mem hc ht
    obtain ⟨hname, hfilter⟩ := hlast ht (by simp [hsegments, hsplit]) hne
    have hhead : LeadsDown (String.ofList head.reverse).toList (namesOf (.ofList head.reverse)) := by
      refine .of_names fun t hm => h t ?_
      rw [segments, String.toList_ofList] at hm
      exact hsegments ▸ List.mem_append_left _ hm
    rw [String.toList_ofList] at hhead
    refine ⟨namesOf (.ofList head.reverse), tail.reverse, hp ▸ .below hhead hname, ?_⟩
    rw [namesOf, hsegments, List.filter_append, hfilter, namesOf, segments, String.toList_ofList]

end Down

-- The canonical path of what is below the root.
def IsBelowRoot (path : String) : Prop :=
  ∃ names, names ≠ [] ∧ (∀ n ∈ names, IsName n) ∧ ofSegments true names = path

namespace IsBelowRoot

variable {rest : String}

theorem isIdentity (h : IsBelowRoot path) : IsIdentity path := by
  obtain ⟨names, -, hn, rfl⟩ := h
  exact isIdentity_ofSegments hn

theorem segments_eq (h : IsBelowRoot path) : ∃ names, (∀ n ∈ names, IsName n) ∧ segments path = [] :: names := by
  obtain ⟨names, hne, hn, rfl⟩ := h
  refine ⟨names, hn, ?_⟩
  rw [segments, ofSegments, if_pos rfl, String.toList_ofList, Text.splitWhere, if_pos (by decide),
    Text.splitWhere_join rfl (fun n hm => (hn n hm).slashless) hne]

theorem segments_cases (h : IsBelowRoot path) : ∀ t ∈ segments path, t = [] ∨ IsName t := by
  obtain ⟨names, hn, hs⟩ := h.segments_eq
  rw [hs]
  exact List.forall_mem_cons.2 ⟨.inl rfl, fun n hm => .inr (hn n hm)⟩

theorem ne_root (h : IsBelowRoot path) : path ≠ "/" := by
  obtain ⟨names, hne, hn, rfl⟩ := h
  intro he
  have hnames := congrArg namesOf he
  rw [namesOf_ofSegments fun n hm => ⟨(hn n hm).1, (hn n hm).slashless⟩] at hnames
  exact hne hnames

theorem toList_eq (h : IsBelowRoot path) : ∃ s, path.toList = '/' :: s ∧ s ≠ [] ∧ s.head? ≠ some '/' := by
  obtain ⟨s, hs⟩ := List.head?_eq_some_iff.1 h.isIdentity.rooted
  have hc : IsCanonical path :=
    have ⟨names, _, hn, hp⟩ := h
    ⟨⟨true, 0, names, fun _ => rfl, hn⟩, hp⟩
  refine ⟨s, hs, fun hnil => h.ne_root (String.toList_inj.1 ?_), hc.head?_ne (s := []) hs⟩
  rw [hs, hnil]
  rfl

theorem isAbsolute (h : IsBelowRoot path) : isAbsolute path = true := by
  obtain ⟨s, hs, hne, -⟩ := h.toList_eq
  obtain ⟨c, s, rfl⟩ := List.exists_cons_of_ne_nil hne
  simp [Path.isAbsolute, hs, isSeparator]

theorem clean_eq (h : IsBelowRoot path) : clean path = path := by
  have hs := h.segments_cases
  have hrooted := h.isIdentity.rooted
  have hw := (LeadsDown.of_names hs).walks true []
  rw [← segments] at hw
  simp only [clean, forwardSlashes_eq h.isIdentity.forward, isRooted, hrooted, collapse]
  change ofSegments true ((segments path).foldl (pushSegment true) []).reverse = path
  rw [hw, List.append_nil, List.reverse_reverse]
  obtain ⟨names, -, hn, rfl⟩ := h
  rw [namesOf_ofSegments fun n hm => ⟨(hn n hm).1, (hn n hm).slashless⟩]

-- One slash more at its end makes no difference.
theorem clean_slash (h : IsBelowRoot path) : clean (path ++ "/") = path := by
  have hf := h.isIdentity.forward
  have hslash : forwardSlashes (path ++ "/") = path ++ "/" :=
    forwardSlashes_eq (by simp [hf])
  have hlist : (path ++ "/").toList = path.toList ++ '/' :: [] := by simp
  have hsegments : segments (path ++ "/") = segments path ++ [[]] := segments_of_toList hlist
  have hrooted : isRooted (path ++ "/") = isRooted path := by
    obtain ⟨s, hs, -⟩ := h.toList_eq
    simp [isRooted, hs]
  have hclean := h.clean_eq
  simp only [clean, forwardSlashes_eq hf, collapse] at hclean
  simp only [clean, hslash, hrooted, hsegments, collapse, List.foldl_append]
  exact hclean

theorem down (h : IsBelowRoot path) :
    ∃ folders name, Down path.toList folders name ∧ namesOf path = folders ++ [name] := by
  refine Down.exists_of_names h.segments_cases (fun he => ?_) (h.isIdentity.ending h.ne_root)
  obtain ⟨s, hs, -⟩ := h.toList_eq
  rw [he] at hs
  cases hs

-- So does what follows a folder that it is below.
theorem down_below (h : IsBelowRoot path) (hb : below? base path = some rest) :
    ∃ folders name, Down rest.toList folders name ∧ namesOf rest = folders ++ [name] := by
  have hp := below?_eq_some_iff.1 hb
  have hlast := h.isIdentity.ending h.ne_root
  rw [hp, List.getLast?_append, List.getLast?_cons] at hlast
  refine Down.exists_of_names (fun t hm => h.segments_cases t ?_) (fun he => ?_) fun he => ?_
  · rw [segments_of_toList hp]
    exact List.mem_append_right _ hm
  · simp [he] at hlast
  · simp [he] at hlast

-- What follows the folder is nothing but names.
theorem toList_below (h : IsBelowRoot path) (hb : below? base path = some rest) :
    rest.toList = Text.join ['/'] (namesOf rest) := by
  obtain ⟨names, hn, hs⟩ := h.segments_eq
  rw [segments_of_toList (below?_eq_some_iff.1 hb)] at hs
  obtain ⟨t, more, ht⟩ := List.exists_cons_of_ne_nil (Text.splitWhere_ne_nil (· == '/') base.toList)
  rw [ht] at hs
  obtain ⟨-, rfl⟩ := List.cons.inj hs
  have hnames : namesOf rest = segments rest :=
    List.filter_eq_self.2 fun n hm => decide_eq_true (hn n (List.mem_append_right _ hm)).1
  rw [hnames, segments, Text.join_splitWhere]

end IsBelowRoot

-- A path from a folder on leads down from that.
theorem exists_canonical_down (folder : String) :
    ∃ c : Canonical, c.rooted = (forwardSlashes folder).toList.head?.all (· == '/') ∧ c.path = clean (folder ++ "/") ∧
      ∀ path folders name, Down (forwardSlashes path).toList folders name →
        clean (folder ++ "/" ++ path) = ofSegments c.rooted (c.segments ++ (folders ++ [name])) := by
  have hforward (path : String) : forwardSlashes (folder ++ "/" ++ path) =
      .ofList ((forwardSlashes folder).toList ++ '/' :: (forwardSlashes path).toList) := by
    apply String.toList_inj.1
    simp [toList_forwardSlashes]
  have hcollapse (path : String) : clean (folder ++ "/" ++ path) =
      let rooted := (forwardSlashes folder).toList.head?.all (· == '/')
      ofSegments rooted ((Text.splitWhere (· == '/') (forwardSlashes path).toList).foldl (pushSegment rooted)
        ((Text.splitWhere (· == '/') (forwardSlashes folder).toList).foldl (pushSegment rooted) [])).reverse := by
    simp only [clean]
    rw [hforward, isRooted_ofList, collapse, segments, String.toList_ofList, Text.splitWhere_append_sep rfl,
      List.foldl_append]
  obtain ⟨c, hrooted, hsegments, hc⟩ := exists_canonical (folder ++ "/" ++ "")
  rw [hforward, isRooted_ofList] at hrooted hsegments
  rw [collapse, segments, String.toList_ofList, Text.splitWhere_append_sep rfl, List.foldl_append] at hsegments
  refine ⟨c, hrooted, hc.trans (by rw [String.append_empty]), fun path folders name h => ?_⟩
  rw [hcollapse]
  dsimp only
  rw [hrooted, h.leads.walks, List.reverse_append, List.reverse_reverse]
  exact congrArg (ofSegments _ <| · ++ _) hsegments.symm

theorem Canonical.down_inj {c : Canonical} {names' : List Segment} (hn : ∀ n ∈ names, IsName n)
    (hn' : ∀ n ∈ names', IsName n)
    (h : ofSegments c.rooted (c.segments ++ names) = ofSegments c.rooted (c.segments ++ names')) : names = names' := by
  let down (names : List Segment) (hn : ∀ n ∈ names, IsName n) : Canonical :=
    ⟨c.rooted, c.ups, c.names ++ names, c.ups_eq_zero, fun n hm => (List.mem_append.1 hm).elim (c.isName n) (hn n)⟩
  have hdown (names) (hn : ∀ n ∈ names, IsName n) : (down names hn).segments = c.segments ++ names := by
    simp [down, Canonical.segments]
  have hpath : (down names hn).path = (down names' hn').path := by
    rw [Canonical.path, Canonical.path, hdown names hn, hdown names' hn']
    exact h
  have hsegments := Canonical.segments_inj hpath
  rw [hdown names hn, hdown names' hn'] at hsegments
  exact List.append_cancel_left hsegments

theorem exists_folder_join (out : String) :
    ∃ folder, ∀ path, path.toList.head? ≠ some '/' → join out path = folder ++ "/" ++ path := by
  by_cases hslash : out.toList.getLast? = some '/'
  case neg => exact ⟨out, fun path hp => by rw [join, if_neg hp, if_neg hslash]⟩
  case pos =>
    obtain ⟨folder, hf⟩ := List.getLast?_eq_some_iff.1 hslash
    refine ⟨.ofList folder, fun path hp => ?_⟩
    rw [join, if_neg hp, if_pos hslash]
    apply String.toList_inj.1
    simp [hf]

-- The names of a path from a folder on, if it is below that, and from the root on otherwise.
def mirror (folder path : String) : List Segment :=
  namesOf ((below? folder path).getD path)

-- Below a canonical folder, a path is mirrored by its names from there.
theorem mirror_canonical {c : Canonical} (hr : c.rooted = true) (hne : names ≠ []) (hn : ∀ n ∈ names, IsName n) :
    mirror c.path (ofSegments true (c.segments ++ names)) = names := by
  have hslash (n) (hm : n ∈ names) := (hn n hm).slashless
  have hnames {names : List Segment} (hn : ∀ n ∈ names, IsName n) : namesOf (ofSegments true names) = names :=
    namesOf_ofSegments fun n hm => ⟨(hn n hm).1, (hn n hm).slashless⟩
  unfold mirror
  by_cases hc : c.segments = []
  case pos =>
    have hbelow : below? c.path (ofSegments true names) = none := by
      rw [Option.eq_none_iff_forall_ne_some]
      intro rest hrest
      obtain ⟨s, hs, -, hhead⟩ : ∃ s, (ofSegments true names).toList = '/' :: s ∧ s ≠ [] ∧ s.head? ≠ some '/' :=
        IsBelowRoot.toList_eq ⟨names, hne, hn, rfl⟩
      rw [below?_eq_some_iff, Canonical.path, hr, hc, hs] at hrest
      exact hhead ((List.cons.inj hrest).2 ▸ rfl)
    rw [hc, List.nil_append, hbelow, Option.getD_none, hnames hn]
  case neg =>
    have hbelow : below? c.path (ofSegments true (c.segments ++ names)) = some (.ofList (Text.join ['/'] names)) := by
      rw [below?_eq_some_iff, Canonical.path, hr]
      simp [ofSegments, Text.join_append ['/'] hc hne]
    rw [hbelow, Option.getD_some, namesOf, segments, String.toList_ofList, Text.splitWhere_join rfl hslash hne]
    exact List.filter_eq_self.2 fun n hm => decide_eq_true (hn n hm).1

theorem head?_forwardSlashes_of_relative (h : isAbsolute path = false) :
    (forwardSlashes path).toList.head? ≠ some '/' := by
  rw [toList_forwardSlashes, List.head?_map]
  unfold isAbsolute at h
  generalize path.toList = s at h
  rcases s with _ | ⟨c, _ | ⟨d, s⟩⟩
  case nil => simp
  all_goals
    have hc : isSeparator c = false := by simp_all
    have ⟨hslash, hback⟩ : c ≠ '/' ∧ c ≠ '\\' := by simpa [isSeparator] using hc
    simpa [hback] using hslash

-- The folder of a project as it is kept, without a slash at its end.
def IsBase (base : String) : Prop :=
  base = "" ∨ IsBelowRoot base

theorem IsBase.prefix_cases (hb : IsBase base) (h : base.toList <+: s) :
    base = "" ∨ ∃ rest, s = '/' :: rest ∧ rest.head? ≠ some '/' := by
  refine hb.imp id fun hb => ?_
  obtain ⟨t, ht, hne, hh⟩ := hb.toList_eq
  obtain ⟨rest, rfl⟩ := h
  rw [ht]
  refine ⟨t ++ rest, rfl, ?_⟩
  rwa [List.head?_append_of_ne_nil _ hne]

theorem IsBase.ofBase_base (hb : IsBase base) : (Resolver.ofBase base).base = base := by
  rcases hb with rfl | hb
  case inl => rfl
  case inr =>
    have hdrop : Text.dropWhileEnd (· == '/') base.toList = base.toList := by
      refine List.rdropWhile_eq_self_iff.2 fun hne hlast => hb.isIdentity.ending hb.ne_root ?_
      rw [List.getLast?_eq_some_getLast hne, beq_iff_eq.1 hlast]
    rw [Resolver.ofBase, forwardSlashes_eq hb.isIdentity.forward, hdrop, String.ofList_toList]

theorem IsBase.head?_all (hb : IsBase base) (more : String) (hm : more.toList.head?.all (· == '/') = true) :
    (forwardSlashes (base ++ more)).toList.head?.all (· == '/') = true := by
  rw [toList_forwardSlashes, String.toList_append, List.head?_map, List.head?_append]
  rcases hb with rfl | hb
  case inr =>
    rw [hb.isIdentity.rooted]
    rfl
  case inl =>
    rw [String.toList_empty, List.head?_nil, Option.none_or]
    cases hh : more.toList.head?
    case none => rfl
    case some c =>
      rw [hh, Option.all_some, beq_iff_eq] at hm
      rw [hm]
      rfl

-- What leads down from a base folder is written behind it by its names.
theorem IsBase.clean_down (hb : IsBase base) (h : Down (forwardSlashes path).toList folders name) :
    clean (base ++ "/" ++ path) = base ++ "/" ++ .ofList (Text.join ['/'] (folders ++ [name])) := by
  obtain ⟨c, hrooted, hc, hdown⟩ := exists_canonical_down base
  have hr : c.rooted = true := by
    rw [hrooted, ← base.append_empty]
    exact hb.head?_all "" rfl
  rw [hdown path folders name h, hr]
  apply String.toList_inj.1
  rcases hb with rfl | hb
  case inl =>
    let root : Canonical := ⟨true, 0, [], fun _ => rfl, by simp⟩
    have hnil : c.segments = [] := Canonical.segments_inj (d := root) (hc.trans (by decide))
    simp [hnil, ofSegments]
  case inr =>
    rw [hb.clean_slash, Canonical.path, hr] at hc
    have hne : c.segments ≠ [] := by
      intro hnil
      rw [hnil] at hc
      exact hb.ne_root hc.symm
    rw [← hc]
    simp [ofSegments, Text.join_append ['/'] hne]

end

end Path

end ScopedCss
