import ScopedCss.CommandLine.Project
import ScopedCss.Proofs.Output.Identity

namespace ScopedCss

open Path OutputTemplate

section

variable {base place path : String} {s : List Char} {names folders : List Segment} {name : Segment}

-- What is put to the path of a file for its style sheet and for its script.
def endings : List String :=
  [".css", ".js"]

theorem append_ending {ending : String} (he : ending ∈ endings) (h : Down s folders name) :
    Down (s ++ ending.toList) folders (name ++ ending.toList) := by
  rcases List.mem_pair.1 he with rfl | rfl
  all_goals exact h.append (by decide) (by decide)

theorem forwardSlashes_ending {ending : String} (he : ending ∈ endings) : forwardSlashes ending = ending := by
  rcases List.mem_pair.1 he with rfl | rfl <;> decide

theorem toList_artifactPlace (base path : String) :
    (artifactPlace base path).toList = (artifactPlace.dropDots
      ((Text.dropPrefix? base.toList (forwardSlashes path).toList).getD (forwardSlashes path).toList)).dropWhile
        (· == '/') :=
  String.toList_ofList

theorem Path.Down.dropDots (h : Down s folders name) : Down (artifactPlace.dropDots s) folders name := by
  fun_induction artifactPlace.dropDots s
  case case1 ih => exact ih h.of_dot
  case case2    => exact h

-- Where what is written for a file lands in the folder for artifacts, by the place of the file: there for a relative
-- place, and for a place from the root what follows the base folder, if it is below that, or else all of it. A place
-- that goes on from the text of the base folder lies below it.
inductive Lands (base : String) : String → List Segment → Prop
  | relative {place : String} {folders : List Segment} {name : Segment} :
    Unmarked place → isAbsolute place = false → Down (forwardSlashes place).toList folders name →
    Lands base place (folders ++ [name])
  | rooted {place : String} :
    Unmarked place → IsBelowRoot place →
    (∀ ending ∈ endings, base.toList <+: (place ++ ending).toList → (below? base place).isSome) →
    Lands base place (mirror base place)

-- A relative place between whose slashes nothing but names stands lands there by these.
theorem Lands.of_names (hu : Unmarked place) (ha : isAbsolute place = false) (hf : '\\' ∉ place.toList)
    (h : ∀ t ∈ segments place, t = [] ∨ IsName t) (hn : place ≠ "") (hl : place.toList.getLast? ≠ some '/') :
    Lands base place (namesOf place) := by
  obtain ⟨folders, name, hd, hnames⟩ := Down.exists_of_names h hn hl
  rw [hnames]
  refine .relative hu ha ?_
  rwa [forwardSlashes_eq hf]

theorem Path.Down.artifactPlace {t : List Char} (ht : (forwardSlashes path).toList = s)
    (hd : (Text.dropPrefix? base.toList s).getD s = t) (h : Down t folders name) :
    Down (ScopedCss.artifactPlace base path).toList folders name := by
  rw [toList_artifactPlace, ht, hd]
  exact h.dropDots.dropSlashes

-- Nothing is taken off where the base folder is not in front, or is the root.
theorem Path.Down.artifactPlace_whole (ht : (forwardSlashes path).toList = s) (hnot : base.toList <+: s → base = "")
    (h : Down s folders name) : Down (ScopedCss.artifactPlace base path).toList folders name := by
  refine h.artifactPlace ht ?_
  by_cases hprefix : base.toList <+: s
  case pos => rw [hnot hprefix]; rfl
  case neg => rw [Text.dropPrefix?_eq_none_iff.2 hprefix, Option.getD_none]

theorem target_relative {ending : String} (hb : IsBase base) (hu : Unmarked place) (ha : isAbsolute place = false)
    (hd : Down (forwardSlashes place).toList folders name) (he : ending ∈ endings) :
    Down (artifactPlace base (fill identityText place ++ ending)).toList folders (name ++ ending.toList) := by
  obtain ⟨lead, hfill, hlead, hcases⟩ := toList_fill_identity hu hd
  refine .artifactPlace_whole (by rw [toList_forwardSlashes_append, hfill, forwardSlashes_ending he])
    (fun hprefix => ?_) (append_ending he hlead)
  have hhead := head?_forwardSlashes_of_relative ha
  refine (hb.prefix_cases hprefix).resolve_right fun ⟨rest, hrest, _⟩ => ?_
  rcases hcases with rfl | ⟨rfl, _⟩ | ⟨rfl, hp⟩
  · have hne : (forwardSlashes place).toList ≠ [] := fun hnil => by
      rw [hnil] at hd
      exact absurd hd.ne_nil (by simp)
    rw [List.nil_append] at hrest
    rw [← List.head?_append_of_ne_nil _ hne, hrest] at hhead
    exact hhead rfl
  · cases hrest
  · rw [hp] at hhead
    exact hhead rfl

theorem target_outside {ending : String} (hb : IsBase base) (hu : Unmarked place) (hp : IsBelowRoot place)
    (hd : Down place.toList folders name) (hnot : ¬base.toList <+: (place ++ ending).toList) (he : ending ∈ endings) :
    Down (artifactPlace base (fill identityText place ++ ending)).toList folders (name ++ ending.toList) := by
  have hf := forwardSlashes_eq hp.isIdentity.forward
  obtain ⟨lead, hfill, hlead, hcases⟩ := toList_fill_identity hu (hf.symm ▸ hd)
  rw [hf] at hfill hlead hcases
  refine .artifactPlace_whole (by rw [toList_forwardSlashes_append, hfill, forwardSlashes_ending he])
    (fun hprefix => ?_) (append_ending he hlead)
  refine (hb.prefix_cases hprefix).resolve_right fun ⟨t, ht, hhead⟩ => ?_
  rcases hcases with rfl | ⟨rfl, _⟩ | ⟨rfl, hname⟩
  · exact hnot (by rwa [String.toList_append])
  · cases ht
  · rw [hname] at ht
    obtain ⟨-, rfl⟩ := List.cons.inj ht
    exact hhead rfl

theorem target_below {ending rest : String} (hu : Unmarked place) (hp : IsBelowRoot place)
    (hbelow : below? base place = some rest) (hd : Down rest.toList folders name) (he : ending ∈ endings) :
    Down (artifactPlace base (fill identityText place ++ ending)).toList folders (name ++ ending.toList) := by
  have hf := forwardSlashes_eq hp.isIdentity.forward
  obtain ⟨_, last, hlast, -⟩ := hp.down
  obtain ⟨lead, hfill, -, hcases⟩ := toList_fill_identity hu (hf.symm ▸ hlast)
  rw [hf] at hfill hcases
  have htext : (forwardSlashes (fill identityText place ++ ending)).toList = lead ++ place.toList ++ ending.toList := by
    rw [toList_forwardSlashes_append, hfill, forwardSlashes_ending he]
  have hplace := below?_eq_some_iff.1 hbelow
  rcases hcases with rfl | ⟨rfl, hname⟩ | ⟨rfl, hname⟩
  · refine .artifactPlace (t := '/' :: (rest.toList ++ ending.toList)) htext ?_ (append_ending he hd).slash
    rw [List.nil_append, hplace, List.append_assoc, Text.dropPrefix?_append]
    rfl
  · exact absurd (hlast.isName.slashless '/' (hname ▸ hplace ▸ by simp)) (by decide)
  · -- The file stands in the root folder, which is then the base folder.
    have hroot : base.toList = [] := by
      rw [hname] at hplace
      refine Classical.byContradiction fun hne => ?_
      obtain ⟨c, t, ht⟩ := List.exists_cons_of_ne_nil hne
      rw [ht] at hplace
      exact absurd (hlast.isName.slashless '/' ((List.cons.inj hplace).2 ▸ by simp)) (by decide)
    rw [hroot, List.nil_append] at hplace
    refine .artifactPlace (t := '/' :: '/' :: (rest.toList ++ ending.toList)) htext ?_ (append_ending he hd).slash.slash
    rw [hroot, hplace]
    rfl

theorem Lands.target (hb : IsBase base) (h : Lands base place names) :
    ∃ folders name, names = folders ++ [name] ∧ ∀ ending ∈ endings,
      Down (artifactPlace base (fill identityText place ++ ending)).toList folders (name ++ ending.toList) := by
  cases h
  case relative folders name hu ha hd => exact ⟨folders, name, rfl, fun ending he => target_relative hb hu ha hd he⟩
  case rooted hu hp hbeside =>
    unfold mirror
    cases hbelow : below? base place
    case none =>
      obtain ⟨folders, name, hd, hnames⟩ := hp.down
      refine ⟨folders, name, hnames, fun ending he => target_outside hb hu hp hd (fun hprefix => ?_) he⟩
      have hsome := hbeside ending he hprefix
      rw [hbelow] at hsome
      cases hsome
    case some rest =>
      obtain ⟨folders, name, hd, hnames⟩ := hp.down_below hbelow
      exact ⟨folders, name, hnames, fun ending he => target_below hu hp hbelow hd he⟩

-- The files that artifacts of a place are written to: the style sheet, its source map and the script.
def targets (base out place : String) : List String :=
  let target (ending : String) : String := join out (artifactPlace base (fill identityText place ++ ending))
  [target ".css", target ".css" ++ ".map", target ".js"]

def tails : List String :=
  [".css", ".css.map", ".js"]

theorem artifactPlace_suffix (base path : String) :
    (artifactPlace base path).toList <:+ (forwardSlashes path).toList := by
  have hdots (s : List Char) : artifactPlace.dropDots s <:+ s := by
    fun_induction artifactPlace.dropDots s
    case case1 rest ih => exact ih.trans ⟨['.', '/'], rfl⟩
    case case2         => exact List.suffix_refl _
  rw [toList_artifactPlace]
  refine ((List.dropWhile_suffix _).trans (hdots _)).trans ?_
  cases hrest : Text.dropPrefix? base.toList (forwardSlashes path).toList
  case none      => exact List.suffix_refl _
  case some rest => exact ⟨_, (Text.dropPrefix?_eq_some_iff.1 hrest).symm⟩

theorem head?_artifactPlace (base path : String) : (artifactPlace base path).toList.head? ≠ some '/' := by
  rw [toList_artifactPlace]
  intro hhead
  have hnot := List.head?_dropWhile_not (· == '/') (artifactPlace.dropDots
    ((Text.dropPrefix? base.toList (forwardSlashes path).toList).getD (forwardSlashes path).toList))
  rw [hhead] at hnot
  cases hnot

-- In the folder for artifacts, what is written for a file is where the file is in its own folder, with other endings.
theorem exists_clean_targets (out : String) :
    ∃ c : Canonical, ∀ {base place names}, IsBase base → Lands base place names →
      ∃ folders name, names = folders ++ [name] ∧
        (∀ tail ∈ tails, ∀ n ∈ folders ++ [name ++ tail.toList], IsName n) ∧
        (targets base out place).map clean =
          tails.map fun tail => ofSegments c.rooted (c.segments ++ (folders ++ [name ++ tail.toList])) := by
  obtain ⟨folder, hfolder⟩ := exists_folder_join out
  obtain ⟨c, -, -, hdown⟩ := exists_canonical_down folder
  refine ⟨c, fun {base place names} hb hl => ?_⟩
  obtain ⟨folders, name, hnames, htarget⟩ := hl.target hb
  have hforward (path more : String) (hm : '\\' ∉ more.toList) :
      forwardSlashes (artifactPlace base path ++ more) = artifactPlace base path ++ more := by
    refine forwardSlashes_eq fun hback => ?_
    rw [String.toList_append, List.mem_append] at hback
    exact hback.elim (fun hb => forwardSlashes_toList path ((artifactPlace_suffix base path).subset hb)) hm
  have hclean {ending : String} (he : ending ∈ endings) :
      clean (join out (artifactPlace base (fill identityText place ++ ending))) =
        ofSegments c.rooted (c.segments ++ (folders ++ [name ++ ending.toList])) := by
    rw [hfolder _ (head?_artifactPlace _ _)]
    refine hdown _ folders _ ?_
    have hsame := hforward (fill identityText place ++ ending) "" (by simp)
    rw [String.append_empty] at hsame
    exact hsame.symm ▸ htarget ending he
  have hsheet := (htarget ".css" (by decide)).append (by decide : 2 ≤ ".map".toList.length) (by decide)
  have hmap : clean (join out (artifactPlace base (fill identityText place ++ ".css")) ++ ".map") =
      ofSegments c.rooted (c.segments ++ (folders ++ [name ++ ".css.map".toList])) := by
    rw [hfolder _ (head?_artifactPlace _ _), String.append_assoc]
    refine hdown _ folders _ ?_
    rw [hforward _ _ (by decide), String.toList_append]
    simpa using hsheet
  refine ⟨folders, name, hnames, ?_, ?_⟩
  · intro tail ht
    simp only [tails, List.mem_cons, List.not_mem_nil, or_false] at ht
    rcases ht with rfl | rfl | rfl
    · exact (htarget ".css" (by decide)).isName_names
    · simpa using hsheet.isName_names
    · exact (htarget ".js" (by decide)).isName_names
  · simp only [targets, tails, List.map_cons, List.map_nil]
    rw [hclean (by decide), hmap, hclean (by decide)]

-- No ending is the end of another.
theorem tails_apart {name name' : Segment} {tail tail' : String} (ht : tail ∈ tails) (ht' : tail' ∈ tails)
    (h : name ++ tail.toList = name' ++ tail'.toList) : name = name' ∧ tail = tail' := by
  have hall : ∀ tail ∈ tails, ∀ tail' ∈ tails, tail.toList <:+ tail'.toList → tail = tail' := by decide
  have htail : tail = tail' := by
    rcases List.suffix_or_suffix_of_suffix ⟨name, rfl⟩ ⟨name', h.symm⟩ with hs | hs
    · exact hall tail ht tail' ht' hs
    · exact (hall tail' ht' tail ht hs).symm
  subst htail
  exact ⟨List.append_cancel_right h, rfl⟩

-- So the files that are written for two files that land in different places are different, and each file is written
-- once.
theorem targets_apart (hb : IsBase base) (h : Lands base place names) (out : String) :
    ((targets base out place).map clean).Nodup ∧ ∀ {place' names'}, Lands base place' names' → names ≠ names' →
      ((targets base out place).map clean).Disjoint ((targets base out place').map clean) := by
  obtain ⟨c, hc⟩ := exists_clean_targets out
  obtain ⟨folders, name, rfl, hn, htargets⟩ := hc hb h
  have hinj {folders' name' tail tail'} (hn' : ∀ tail ∈ tails, ∀ n ∈ folders' ++ [name' ++ tail.toList], IsName n)
      (ht : tail ∈ tails) (ht' : tail' ∈ tails)
      (he : ofSegments c.rooted (c.segments ++ (folders ++ [name ++ tail.toList])) =
        ofSegments c.rooted (c.segments ++ (folders' ++ [name' ++ tail'.toList]))) :
      folders = folders' ∧ name = name' ∧ tail = tail' := by
    obtain ⟨hfolders, hlast⟩ := List.append_inj' (Canonical.down_inj (hn tail ht) (hn' tail' ht') he) rfl
    exact ⟨hfolders, tails_apart ht ht' (List.cons.inj hlast).1⟩
  rw [htargets]
  constructor
  case left =>
    refine List.Nodup.map_on (fun tail ht tail' ht' he => (hinj hn ht ht' he).2.2) (by decide)
  case right =>
    intro place' names' h' hne
    obtain ⟨folders', name', rfl, hn', htargets'⟩ := hc hb h'
    rw [htargets']
    intro path hm hm'
    obtain ⟨tail, ht, rfl⟩ := List.mem_map.1 hm
    obtain ⟨tail', ht', he⟩ := List.mem_map.1 hm'
    obtain ⟨rfl, rfl, -⟩ := hinj hn' ht ht' he.symm
    exact hne rfl

end

end ScopedCss
