import ScopedCss.Proofs.Disk
import ScopedCss.Proofs.Path.Resolution

namespace ScopedCss

namespace Path

theorem toList_forwardSlashes (path : String) :
    (forwardSlashes path).toList = path.toList.map fun c => if c = '\\' then '/' else c :=
  String.toList_ofList

theorem clean_congr {path path' : String} (h : forwardSlashes path = forwardSlashes path') :
    clean path = clean path' := by
  simp only [clean, h]

theorem isRooted_ofList (before after : List Char) :
    isRooted (.ofList (before ++ '/' :: after)) = before.head?.all (· == '/') := by
  cases before <;> simp [isRooted]

theorem Canonical.segments_inj {c d : Canonical} (h : c.path = d.path) : c.segments = d.segments := by
  have hfilter (c : Canonical) : (Path.segments c.path).filter (fun s => s ≠ [] ∧ s ≠ ['.']) = c.segments := by
    obtain ⟨first, hf, hs⟩ := Disk.segments_path c
    rw [hf, List.filter_append, List.filter_eq_nil_iff.2 fun s hm => by rcases hs s hm with rfl | rfl <;> decide,
      List.nil_append, List.filter_eq_self]
    intro s hm
    rcases List.mem_append.1 hm with hm | hm
    · rw [List.eq_of_mem_replicate hm]
      decide
    · simpa using ⟨(c.isName s hm).1, (c.isName s hm).2.1⟩
  rw [← hfilter c, ← hfilter d, h]

-- A slash more or less makes no difference.
theorem clean_double (before after : List Char) :
    clean (.ofList (before ++ '/' :: '/' :: after)) = clean (.ofList (before ++ '/' :: after)) := by
  have hpush (rooted : Bool) (stack : List Segment) : pushSegment rooted stack [] = stack := by simp [pushSegment]
  simp only [clean, forwardSlashes, String.toList_ofList, List.map_append, List.map_cons]
  simp only [Char.reduceEq, if_false, isRooted_ofList, segments, String.toList_ofList]
  rw [Text.splitWhere_append_sep rfl, Text.splitWhere_append_sep rfl, Text.splitWhere, if_pos (by decide)]
  simp only [collapse, List.foldl_append, List.foldl_cons, hpush]

theorem clean_dropSlashes (before after : List Char) :
    clean (.ofList (before ++ '/' :: after.dropWhile (· == '/'))) = clean (.ofList (before ++ '/' :: after)) := by
  induction after
  case nil => rfl
  case cons c after ih =>
    rw [List.dropWhile_cons]
    split
    case isFalse => rfl
    case isTrue h =>
      rw [beq_iff_eq] at h
      rw [h, clean_double, ih]

end Path

namespace Resolver

variable {r : Resolver} {name path : String} {folder rest : List Char} {importing : String}

-- The specifier of a file of a package.
def packaged (name path : String) : String :=
  "\x7b" ++ name ++ "\x7d/" ++ path

-- A name with every colon as an underscore, as folders of packages are named.
def joinScopes (name : List Char) : List Char :=
  Text.replaceChar ':' ['_'] name

-- The place of a file in a folder of packages.
def inFolder (r : Resolver) (folder path : List Char) : String :=
  Path.clean (r.base ++ "/packages/" ++ .ofList folder ++ "/" ++ .ofList path)

def candidates (r : Resolver) (name path : List Char) : List String :=
  if r.inFolder (dropScope name) path = r.inFolder (joinScope name) path then [r.inFolder (joinScope name) path]
  else [r.inFolder (joinScope name) path, r.inFolder (dropScope name) path]

theorem inFolder_dropSlashes (folder path : List Char) :
    r.inFolder folder (path.dropWhile (· == '/')) = r.inFolder folder path := by
  have h (path : List Char) : r.base ++ "/packages/" ++ .ofList folder ++ "/" ++ .ofList path =
      .ofList ((r.base ++ "/packages/" ++ .ofList folder).toList ++ '/' :: path) :=
    String.toList_inj.1 (by simp)
  rw [inFolder, inFolder, h, h, Path.clean_dropSlashes]

theorem inPackage_eq (name path : String) :
    r.inPackage (some name) path =
      r.inFolder (joinScopes (Path.forwardSlashes name).toList) (Path.forwardSlashes path).toList := by
  have hc (c : Char) : (if c = ':' then ['_'] else [c]).map (fun c => if c = '\\' then '/' else c) =
      (if (if c = '\\' then '/' else c) = ':' then ['_'] else [if c = '\\' then '/' else c]).map
        (fun c => if c = '\\' then '/' else c) := by
    split <;> split <;> simp_all
  have hp (c : Char) : (if (if c = '\\' then '/' else c) = '\\' then '/' else if c = '\\' then '/' else c) =
      if c = '\\' then '/' else c := by
    split <;> simp_all
  refine Path.clean_congr (String.toList_inj.1 ?_)
  simp only [Path.toList_forwardSlashes, joinScopes, Text.replaceChar, String.toList_append, String.toList_ofList,
    List.map_append, List.map_flatMap, List.flatMap_map, List.map_map, Function.comp_def, hp,
    List.flatMap_congr fun c _ => hc c]

theorem packageTarget_eq (hn : folder ≠ []) (hb : '\x7d' ∉ folder) :
    r.packageTarget ('\x7b' :: folder ++ '\x7d' :: '/' :: rest) = .firstExisting (r.candidates folder rest) := by
  have hcut : Text.cut? (· == '\x7d') ('\x7b' :: folder ++ '\x7d' :: '/' :: rest) =
      some ('\x7b' :: folder, '\x7d', '/' :: rest) := by
    refine Text.cut?_append (fun c hc => ?_) rfl _
    rcases List.mem_cons.1 hc with rfl | hc
    · rfl
    · simpa using ne_of_mem_of_not_mem hc hb
  obtain ⟨c, l, rfl⟩ := List.exists_cons_of_ne_nil hn
  unfold packageTarget
  rw [hcut]
  have hin (name : List Char) : Path.clean (r.base ++ "/packages/" ++ .ofList name ++ "/" ++
      .ofList (('/' :: rest).dropWhile (· == '/'))) = r.inFolder name rest :=
    inFolder_dropSlashes name rest
  simp only [hin]
  rfl

-- With one colon at most, it makes no difference whether the first or all are replaced.
theorem joinScope_eq (h : folder.count ':' ≤ 1) : joinScope folder = joinScopes folder := by
  have hnone {s : List Char} (hs : ':' ∉ s) : joinScopes s = s := by
    have hsame (c) (hm : c ∈ s) : (if c = ':' then ['_'] else [c]) = [c] := if_neg (ne_of_mem_of_not_mem hm hs)
    rw [joinScopes, Text.replaceChar, List.flatMap_congr hsame]
    simp
  unfold joinScope
  split
  case h_1 scope c rest hcut =>
    obtain ⟨rfl, hc, hscope⟩ := Text.eq_of_cut? hcut
    obtain rfl : c = ':' := by simpa using hc
    have hs : ':' ∉ scope := fun hm => hscope ':' hm (by decide)
    have hr : ':' ∉ rest := by
      rw [List.count_append, List.count_cons_self] at h
      exact List.count_eq_zero.1 (by omega)
    have h₁ := hnone hs
    have h₂ := hnone hr
    simp only [joinScopes, Text.replaceChar, List.flatMap_append, List.flatMap_cons, if_true] at h₁ h₂ ⊢
    rw [h₁, h₂]
    rfl
  case h_2 hcut =>
    refine (hnone fun hm => ?_).symm
    obtain ⟨scope, rest, hs, hc⟩ := List.eq_append_cons_of_mem hm
    rw [hs, Text.cut?_append (fun c hm => by simpa using ne_of_mem_of_not_mem hm hc) rfl] at hcut
    cases hcut

theorem spelled_packaged (name : String) (h : Text.trimmed path = path) :
    spelled (packaged name path) =
      '\x7b' :: (Path.forwardSlashes name).toList ++ '\x7d' :: '/' :: (Path.forwardSlashes path).toList := by
  have hl : (packaged name path).toList = '\x7b' :: name.toList ++ '\x7d' :: '/' :: path.toList := by
    simp [packaged]
  have ht : Text.trim (packaged name path).toList = (packaged name path).toList := by
    have hp : Text.trim path.toList = path.toList := by simpa [Text.trimmed] using congrArg String.toList h
    have hstart : Text.trimStart (packaged name path).toList = (packaged name path).toList := by
      rw [hl]
      rfl
    rw [Text.trim, hstart, hl]
    by_cases hn : path.toList = []
    case pos =>
      rw [hn]
      exact Text.trimEnd_append_of_trim (t := ['\x7d', '/']) (by decide) (by decide) _
    case neg =>
      have hs : '\x7b' :: name.toList ++ '\x7d' :: '/' :: path.toList =
        ('\x7b' :: name.toList ++ ['\x7d', '/']) ++ path.toList := by simp
      rw [hs, Text.trimEnd_append_of_trim hp hn]
  rw [spelled, ht, hl]
  simp [Text.unquote, Path.toList_forwardSlashes]

-- What is looked for where a package's file is named.
theorem target_packaged (hn : name ≠ "") (hb : '\x7d' ∉ name.toList) (ht : Text.trimmed path = path)
    (importing : String) :
    r.target (packaged name path) importing =
      .firstExisting (r.candidates (Path.forwardSlashes name).toList (Path.forwardSlashes path).toList) := by
  have hs := spelled_packaged name ht
  unfold spelled at hs
  unfold target
  simp only [hs]
  refine packageTarget_eq (fun he => hn (String.toList_inj.1 ?_)) fun hm => ?_
  · simpa [Path.toList_forwardSlashes] using he
  · exact hb (Path.mem_of_mem_forwardSlashes hm (by decide))

-- Wherever there is a file of the package, its specifier leads to it.
def Finds (r : Resolver) (name : String) : Prop :=
  ∀ path disk present importing, Text.trimmed path = path → present (r.inPackage (some name) path) = true →
    r.resolve disk present (packaged name path) importing = .ok (r.inPackage (some name) path)

theorem count_forwardSlashes (name : String) :
    (Path.forwardSlashes name).toList.count ':' = name.toList.count ':' := by
  rw [Path.toList_forwardSlashes]
  induction name.toList
  case nil => rfl
  case cons c rest ih =>
    rw [List.map_cons, List.count_cons, List.count_cons, ih]
    by_cases h : c = '\\' <;> simp [h]

theorem finds_of_count (hn : name ≠ "") (hb : '\x7d' ∉ name.toList) (hc : name.toList.count ':' ≤ 1) :
    r.Finds name := by
  intro path disk present importing ht hp
  rw [inPackage_eq] at hp ⊢
  rw [← count_forwardSlashes] at hc
  have hfind : (r.candidates (Path.forwardSlashes name).toList (Path.forwardSlashes path).toList).find? present =
      some (r.inFolder (joinScopes (Path.forwardSlashes name).toList)
        (Path.forwardSlashes path).toList) := by
    unfold candidates
    rw [joinScope_eq hc]
    split <;> exact List.find?_cons_of_pos hp
  rw [resolve, target_packaged hn hb ht, ImportTarget.settle]
  simp only [hfind]
  rfl

-- The place of a folder of packages has the name of the folder last, if it is a name.
theorem exists_canonical_inFolder (r : Resolver) :
    ∃ rooted stack, ∀ folder : List Char, (∀ c ∈ folder, Path.isSeparator c = false) →
      ∃ c : Path.Canonical, c.path = r.inFolder folder [] ∧
        c.segments = (Path.pushSegment rooted ("packages".toList :: stack) folder).reverse := by
  let base := (Path.forwardSlashes r.base).toList
  let rooted := base.head?.all (· == '/')
  refine ⟨rooted, (Text.splitWhere (· == '/') base).foldl (Path.pushSegment rooted) [], fun folder hs => ?_⟩
  obtain ⟨c, -, hc, hp⟩ := Path.exists_canonical (r.base ++ "/packages/" ++ .ofList folder ++ "/" ++ .ofList [])
  refine ⟨c, hp, ?_⟩
  have hfolder : (Path.forwardSlashes (.ofList folder)).toList = folder := by
    rw [Path.forwardSlashes_eq, String.toList_ofList]
    rw [String.toList_ofList]
    exact fun hm => absurd (hs _ hm) (by decide)
  rw [Path.toList_forwardSlashes, String.toList_ofList] at hfolder
  have hf : Path.forwardSlashes (r.base ++ "/packages/" ++ .ofList folder ++ "/" ++ .ofList []) =
      .ofList (base ++ '/' :: ("packages".toList ++ '/' :: (folder ++ '/' :: []))) := by
    apply String.toList_inj.1
    simp [Path.toList_forwardSlashes, base, hfolder]
  have hslash (c) (hm : c ∈ folder) : (c == '/') = false := by
    have := hs c hm
    simp_all [Path.isSeparator]
  have hpush (stack : List Path.Segment) : Path.pushSegment rooted stack [] = stack := by simp [Path.pushSegment]
  rw [hc, hf, Path.isRooted_ofList, Path.segments, String.toList_ofList, Text.splitWhere_append_sep rfl,
    Text.splitWhere_append (by decide) rfl, Text.splitWhere_append hslash rfl, Text.splitWhere, Path.collapse,
    List.foldl_append]
  simp only [List.foldl_cons, List.foldl_nil]
  rw [hpush]
  rfl

theorem inFolder_inj {other : List Char} (hs : ∀ c ∈ other, Path.isSeparator c = false)
    (hname : Path.IsName folder) (h : r.inFolder other [] = r.inFolder folder []) : other = folder := by
  obtain ⟨rooted, stack, hfolder⟩ := r.exists_canonical_inFolder
  obtain ⟨c, hc, hsegments⟩ := hfolder folder hname.2.2.2
  obtain ⟨d, hd, hsegments'⟩ := hfolder other hs
  have he : d.segments = c.segments := Path.Canonical.segments_inj (hd.trans (h.trans hc.symm))
  rw [hsegments, hsegments', List.reverse_inj] at he
  have hpush :
      Path.pushSegment rooted ("packages".toList :: stack) folder = folder :: "packages".toList :: stack := by
    simp [Path.pushSegment, hname.1, hname.2.1, hname.2.2.1]
  rw [hpush, Path.pushSegment] at he
  split at he
  case isTrue => exact absurd (congrArg List.length he) (by simp)
  case isFalse =>
    split at he
    case isTrue =>
      rw [if_neg (by decide)] at he
      exact absurd (congrArg List.length he) (by simp only [List.length_cons]; omega)
    case isFalse => exact (List.cons.inj he).1

theorem mem_joinScopes {c : Char} (hm : c ∈ joinScopes folder) : c = '_' ∨ c ∈ folder ∧ c ≠ ':' := by
  obtain ⟨d, hd, hm⟩ := List.mem_flatMap.1 hm
  split at hm
  case isTrue     => exact .inl (List.mem_singleton.1 hm)
  case isFalse hn => exact List.mem_singleton.1 hm ▸ .inr ⟨hd, hn⟩

theorem isName_joinScopes (hs : ∀ c ∈ folder, Path.isSeparator c = false) (hc : ':' ∈ folder) :
    Path.IsName (joinScopes folder) := by
  have hm : '_' ∈ joinScopes folder := List.mem_flatMap.2 ⟨':', hc, .head _⟩
  refine ⟨List.ne_nil_of_mem hm, ?_, ?_, fun c hm => ?_⟩
  · exact fun he => by simp [he] at hm
  · exact fun he => by simp [he] at hm
  · rcases mem_joinScopes hm with rfl | ⟨hm, -⟩
    · rfl
    · exact hs c hm

theorem not_isSeparator_joinScope (hs : ∀ c ∈ folder, Path.isSeparator c = false) :
    ∀ c ∈ joinScope folder, Path.isSeparator c = false := by
  intro c hm
  unfold joinScope at hm
  split at hm
  case h_1 hcut =>
    obtain ⟨rfl, -, -⟩ := Text.eq_of_cut? hcut
    simp only [List.mem_append, List.mem_cons] at hm hs
    rcases hm with hm | rfl | hm
    · exact hs c (.inl hm)
    · rfl
    · exact hs c (.inr (.inr hm))
  case h_2 => exact hs c hm

theorem joinScope_ne_joinScopes (hc : 1 < folder.count ':') : joinScope folder ≠ joinScopes folder := by
  have hj : ':' ∈ joinScope folder := by
    unfold joinScope
    split
    case h_1 scope c rest hcut =>
      obtain ⟨rfl, hp, hscope⟩ := Text.eq_of_cut? hcut
      obtain rfl : c = ':' := by simpa using hp
      have hn : scope.count ':' = 0 := List.count_eq_zero.2 fun hm => hscope ':' hm (by decide)
      rw [List.count_append, List.count_cons_self, hn] at hc
      exact List.mem_append_right _ (.tail _ (List.count_pos_iff.1 (by omega)))
    case h_2 => exact List.count_pos_iff.1 (by omega)
  intro he
  rw [he] at hj
  simpa using mem_joinScopes hj

theorem dropScope_suffix (folder : List Char) : dropScope folder <:+ folder :=
  ⟨_, Text.dropWhileEnd_append_takeWhileEnd _ _⟩

theorem dropScope_ne_joinScopes (hc : ':' ∈ folder) : dropScope folder ≠ joinScopes folder := by
  intro he
  have hlength : (joinScopes folder).length = folder.length := by
    have hone (c : Char) : (if c = ':' then ['_'] else [c]).length = 1 := by split <;> rfl
    simp [joinScopes, Text.replaceChar, List.length_flatMap, hone]
  have := (dropScope_suffix folder).eq_of_length (he ▸ hlength)
  rw [← this, he] at hc
  simpa using mem_joinScopes hc

-- With more colons, none of the places looked at is in the folder where all of them are replaced.
theorem not_mem_candidates (hs : ∀ c ∈ folder, Path.isSeparator c = false) (hc : 1 < folder.count ':') :
    r.inFolder (joinScopes folder) [] ∉ r.candidates folder [] := by
  have hm : ':' ∈ folder := List.count_pos_iff.1 (by omega)
  have hname := isName_joinScopes hs hm
  have hjoined (h : r.inFolder (joinScopes folder) [] = r.inFolder (joinScope folder) []) : False :=
    joinScope_ne_joinScopes hc (inFolder_inj (not_isSeparator_joinScope hs) hname h.symm)
  have hunscoped (h : r.inFolder (joinScopes folder) [] = r.inFolder (dropScope folder) []) : False :=
    dropScope_ne_joinScopes hm (inFolder_inj (fun c hm => hs c ((dropScope_suffix folder).subset hm)) hname h.symm)
  unfold candidates
  split
  case isTrue => exact fun hm => hjoined (List.mem_singleton.1 hm)
  case isFalse =>
    rw [List.mem_pair]
    exact fun hm => hm.elim hjoined hunscoped

theorem count_of_finds (hn : name ≠ "") (hb : '\x7d' ∉ name.toList)
    (hs : ∀ c ∈ name.toList, Path.isSeparator c = false) (h : r.Finds name) : name.toList.count ':' ≤ 1 := by
  by_contra hcount
  have hspelled : Path.forwardSlashes name = name :=
    Path.forwardSlashes_eq fun hm => absurd (hs _ hm) (by decide)
  have hfound := h "" ⟨∅, [], "/"⟩ (· == r.inPackage (some name) "") "" rfl (beq_self_eq_true _)
  rw [resolve, target_packaged hn hb rfl, ImportTarget.settle, hspelled] at hfound
  have hmem : r.inPackage (some name) "" ∈ r.candidates name.toList [] := by
    split at hfound
    case h_1 hfind =>
      cases hfound
      exact List.mem_of_find?_eq_some hfind
    case h_2 => cases hfound
  rw [inPackage_eq, hspelled] at hmem
  exact not_mem_candidates hs (by omega) hmem

-- The files of a package are found by its name, as long as there is no more than one colon in it.
theorem finds_iff_count (hn : name ≠ "") (hb : '\x7d' ∉ name.toList) :
    (name.toList.count ':' ≤ 1 → r.Finds name) ∧
      ((∀ c ∈ name.toList, Path.isSeparator c = false) → r.Finds name → name.toList.count ':' ≤ 1) :=
  ⟨finds_of_count hn hb, count_of_finds hn hb⟩

theorem finds_iff_count_scopes :
    (ofBase "/app").resolve ⟨∅, [], "/"⟩ (· == "/app/packages/acme_ui/x.css") "\x7bacme:ui\x7d/x.css" "" =
        .ok "/app/packages/acme_ui/x.css" ∧ ¬(ofBase "/app").Finds "acme:ui:new" := by
  have hplace : (ofBase "/app").inPackage (some "acme:ui") "x.css" = "/app/packages/acme_ui/x.css" := by decide
  have hone := (@finds_iff_count (ofBase "/app") "acme:ui" (by decide) (by decide)).1 (by decide)
  have hmore := (@finds_iff_count (ofBase "/app") "acme:ui:new" (by decide) (by decide)).2 (by decide)
  constructor
  case left =>
    rw [← hplace]
    exact hone "x.css" _ _ "" (by decide) (beq_self_eq_true _)
  case right => exact fun h => absurd (hmore h) (by decide)

end Resolver

end ScopedCss
