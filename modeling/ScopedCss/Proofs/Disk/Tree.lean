import Mathlib.Data.List.Count
import Mathlib.Data.List.Sort
import ScopedCss.CommandLine.Project
import ScopedCss.Proofs.Disk.Region
import ScopedCss.Proofs.Text.Words

namespace ScopedCss

namespace Path

-- A segment that leads one folder down.
structure IsStep (s : Segment) : Prop where
  nonempty : s ≠ []
  dot      : s ≠ ['.']
  up       : s ≠ ['.', '.']
  slash    : ∀ c ∈ s, (c == '/') = false

theorem IsName.isStep {s : Segment} (h : IsName s) : IsStep s where
  nonempty := h.1
  dot      := h.2.1
  up       := h.2.2.1
  slash    := (Disk.no_slash_of_isName h).2

-- The place one step below another.
def below (path : String) (s : Segment) : String :=
  ofSegments true (namesOf path ++ [s])

section

variable {path folder : String} {s : Segment} {names : List Segment}

theorem namesOf_of_steps (h : ∀ s ∈ names, IsStep s) : namesOf (ofSegments true names) = names :=
  namesOf_ofSegments fun s hm => ⟨(h s hm).nonempty, (h s hm).slash⟩

theorem settled_of_steps (h : ∀ s ∈ names, IsStep s) : Disk.Settled (ofSegments true names) :=
  congrArg (ofSegments true) (namesOf_of_steps h)

theorem slashless_append {names more : List Segment} (h : ∀ s ∈ names, s ≠ [] ∧ ∀ c ∈ s, (c == '/') = false)
    (h' : ∀ s ∈ more, s ≠ [] ∧ ∀ c ∈ s, (c == '/') = false) :
    ∀ s ∈ names ++ more, s ≠ [] ∧ ∀ c ∈ s, (c == '/') = false :=
  fun s hm => (List.mem_append.1 hm).elim (h s) (h' s)

theorem namesOf_below (hs : IsStep s) : namesOf (below path s) = namesOf path ++ [s] :=
  namesOf_ofSegments <| slashless_append (fun _ => namesOf_mem) fun _ hm =>
    List.mem_singleton.1 hm ▸ ⟨hs.nonempty, hs.slash⟩

theorem settled_below (hs : IsStep s) : Disk.Settled (below path s) :=
  congrArg (ofSegments true) (namesOf_below hs)

theorem namesOf_of_toList {tail : List Char} {head : List Char} (h : path.toList = head ++ '/' :: tail) :
    namesOf path = namesOf (.ofList head) ++ namesOf (.ofList tail) := by
  rw [namesOf, segments, h, Text.splitWhere_append_sep rfl, List.filter_append]
  simp [namesOf, segments]

theorem toList_ofSegments (names : List Segment) : (ofSegments true names).toList = '/' :: Text.join ['/'] names := by
  rw [ofSegments, if_pos rfl, String.toList_ofList]

theorem namesOf_ne_nil (hf : Disk.Settled folder) (hn : folder ≠ "/") : namesOf folder ≠ [] := by
  intro he
  rw [← hf, he] at hn
  exact hn rfl

theorem segments_of_settled (hs : Disk.Settled path) (hn : namesOf path ≠ []) : segments path = [] :: namesOf path := by
  conv => lhs; rw [← hs]
  rw [segments, toList_ofSegments, Text.splitWhere, if_pos (by decide),
    Text.splitWhere_join rfl (fun s hm => (namesOf_mem hm).2) hn]

theorem toList_join (hf : Disk.Settled folder) (hn : folder ≠ "/") {name : String}
    (hname : name.toList.head? ≠ some '/') : (join folder name).toList = folder.toList ++ '/' :: name.toList := by
  have ⟨_, last, hm, t, ht⟩ := Text.join_eq_append ['/'] (namesOf_ne_nil hf hn)
  have ⟨hlast, hslash⟩ := namesOf_mem hm
  have hend : folder.toList.getLast? ≠ some '/' := by
    rw [← hf, toList_ofSegments, ht, ← List.cons_append, List.getLast?_append_of_ne_nil _ hlast]
    exact fun hl => absurd (hslash '/' (List.mem_of_getLast? hl)) (by decide)
  rw [join, if_neg hname, if_neg hend]
  simp

-- What is in a folder has the names of the folder first.
theorem isWithin_iff (hf : Disk.Settled folder) (hp : Disk.Settled path) :
    isWithin folder path = true ↔ ∃ more, namesOf path = namesOf folder ++ more := by
  by_cases hn : folder = "/"
  case pos =>
    subst hn
    refine iff_of_true ?_ ⟨namesOf path, rfl⟩
    rw [isWithin, ← hp, toList_ofSegments]
    simp [join, Text.startsWith, Text.dropPrefix?]
  case neg =>
    have hstarts : Text.startsWith (join folder "").toList path.toList = true ↔
        ∃ rest, path.toList = folder.toList ++ '/' :: rest := by
      rw [Text.startsWith, Option.isSome_iff_exists, toList_join hf hn (by simp)]
      simp [Text.dropPrefix?_eq_some_iff]
    rw [isWithin, Bool.or_eq_true, beq_iff_eq, hstarts]
    constructor
    case mp =>
      rintro (rfl | ⟨rest, hr⟩)
      · exact ⟨[], (List.append_nil _).symm⟩
      · refine ⟨namesOf (.ofList rest), ?_⟩
        rw [namesOf_of_toList hr, String.ofList_toList]
    case mpr =>
      rintro ⟨more, hm⟩
      by_cases he : more = []
      case pos =>
        rw [he, List.append_nil] at hm
        exact .inl (by rw [← hp, hm, hf])
      case neg =>
        refine .inr ⟨Text.join ['/'] more, ?_⟩
        rw [← hp, hm, toList_ofSegments, Text.join_append ['/'] (namesOf_ne_nil hf hn) he, ← hf, toList_ofSegments, hf]
        simp

end

end Path

namespace Disk

open Path

-- A path from the root that every segment of leads one folder down.
structure Upright (path : String) : Prop where
  settled : Settled path
  steps   : ∀ s ∈ namesOf path, IsStep s

-- With a place, everything below it is in the region.
def Deep (region : String → Bool) : Prop :=
  ∀ path s, Settled path → IsStep s → region path = true → region (below path s) = true

section

variable {d d' : Disk} {region : String → Bool} {here path t : String} {s : Segment} {names : List Segment}

theorem settled_root : Settled "/" :=
  rfl

theorem namesOf_root : namesOf "/" = [] :=
  rfl

theorem Upright.below (h : Upright path) (hs : IsStep s) : Upright (below path s) where
  settled   := settled_below hs
  steps u hm := by
    rw [namesOf_below hs] at hm
    rcases List.mem_append.1 hm with hm | hm
    · exact h.steps u hm
    · exact List.mem_singleton.1 hm ▸ hs

theorem step_of_isStep (hs : IsStep s) (h : d.step here s = .ok t) : t = below here s := by
  unfold step at h
  split at h
  · cases h
  · cases h
  · rw [if_neg (not_or.2 ⟨hs.nonempty, hs.dot⟩), if_neg hs.up] at h
    split at h
    · cases h
    · cases h
      rfl

theorem namesOf_walk (hn : ∀ s ∈ names, IsStep s) (h : names.foldlM d.step here = .ok t) :
    namesOf t = namesOf here ++ names := by
  induction names generalizing here
  case nil =>
    cases h
    exact (List.append_nil _).symm
  case cons s names ih =>
    rw [List.foldlM_cons] at h
    cases hs : d.step here s
    case error =>
      rw [hs] at h
      cases h
    case ok next =>
      rw [hs] at h
      rw [ih (fun s hm => hn s (.tail _ hm)) h, step_of_isStep (hn s (.head _)) hs, namesOf_below (hn s (.head _)),
        List.append_assoc]
      rfl

theorem Upright.segments (h : Upright path) : ∃ first, segments path = first ++ namesOf path ∧ ∀ s ∈ first, s = [] := by
  by_cases hn : namesOf path = []
  case pos =>
    refine ⟨[[], []], ?_, by simp⟩
    rw [← h.settled, hn]
    rfl
  case neg => exact ⟨[[]], segments_of_settled h.settled hn, by simp⟩

theorem Upright.isRooted (h : Upright path) : isRooted path = true := by
  rw [Path.isRooted, ← h.settled, toList_ofSegments]
  rfl

theorem Upright.locate (h : Upright path) (hl : d.locate path = .ok here) : here = path := by
  have ⟨_, hwalk⟩ := locate_eq_ok.1 hl
  have ⟨first, hsegments, hfirst⟩ := h.segments
  rw [hsegments, start, if_pos h.isRooted] at hwalk
  have hnames := foldlM_same (fun s hm => .inl (hfirst s hm)) hwalk
  have hsettled : Settled here := settled_foldlM settled_root (fun s hm => (h.steps s hm).slash) hnames
  rw [← hsettled, namesOf_walk h.steps hnames]
  exact h.settled

theorem Deep.onward (h : Deep region) (hn : ∀ s ∈ names, IsStep s) (hs : Settled here) (hr : region here = true) :
    region (ofSegments true (namesOf here ++ names)) = true := by
  induction names generalizing here
  case nil => rwa [List.append_nil, hs]
  case cons s names ih =>
    have hstep := hn s (.head _)
    have hrest := ih (fun s hm => hn s (.tail _ hm)) (settled_below hstep) (h here s hs hstep hr)
    rwa [namesOf_below hstep, List.append_assoc] at hrest

theorem avoidsFrom_of_steps (h : Deep region) (hn : ∀ s ∈ names, IsStep s) (hs : Settled here)
    (hr : region (ofSegments true (namesOf here ++ names)) = false) : d.avoidsFrom region here names = true := by
  induction names generalizing here
  case nil =>
    rw [List.append_nil, hs] at hr
    simp [avoidsFrom, hr]
  case cons s names ih =>
    have hstep := hn s (.head _)
    have hhere : region here = false := by
      rw [← Bool.not_eq_true]
      exact fun ht => Bool.false_ne_true (hr.symm.trans (h.onward hn hs ht))
    rw [avoidsFrom, hhere, Bool.not_false, Bool.true_and]
    cases hnext : d.step here s
    case error => rfl
    case ok next =>
      have hbelow := step_of_isStep hstep hnext
      subst hbelow
      refine ih (fun s hm => hn s (.tail _ hm)) (settled_below hstep) ?_
      rwa [namesOf_below hstep, List.append_assoc]

-- A way straight down stays out of a region if it ends outside.
theorem Upright.avoids (h : Upright path) (hd : Deep region) (hr : region path = false) :
    d.avoids region path = true := by
  have ⟨first, hsegments, hfirst⟩ := h.segments
  have hnames : d.avoidsFrom region "/" (namesOf path) = true :=
    avoidsFrom_of_steps hd h.steps settled_root (by rwa [namesOf_root, List.nil_append, h.settled])
  rw [Disk.avoids, hsegments, start, if_pos h.isRooted]
  have hroot : region "/" = false := by
    rw [← Bool.not_eq_true]
    intro ht
    have hall := hd.onward h.steps settled_root ht
    rw [namesOf_root, List.nil_append, h.settled] at hall
    exact Bool.false_ne_true (hr.symm.trans hall)
  clear hsegments
  induction first
  case nil => exact hnames
  case cons s first ih =>
    rw [List.cons_append, avoidsFrom, hroot, hfirst s (.head _)]
    cases hnext : d.step "/" []
    case error => rfl
    case ok next =>
      rw [step_same (.inl rfl) hnext]
      exact ih fun s hm => hfirst s (.tail _ hm)

end

-- Every file and every folder is under its own name, and relative paths start in a folder that can be walked to.
structure Tree (d : Disk) : Prop where
  proper  : d.Proper
  cwd     : Upright d.cwd
  settled : ∀ path ∈ d.files.keys ++ d.folders, Settled path

-- The places that a walk goes through.
structure Tours (region enters : String → Bool) (V : String → Prop) : Prop where
  upright : ∀ path, V path → Upright path
  outside : ∀ path, V path → region path = false
  child   : ∀ path, V (parent path) → Settled path → path ≠ "/" → enters path = true → V path

section

variable {d d' : Disk} {region enters : String → Bool} {V : String → Prop} {path : String}

theorem filter_mergeSort (q : String → Bool) (l : List String) :
    (l.mergeSort (· ≤ ·)).filter q = (l.filter q).mergeSort (· ≤ ·) := by
  have htrans (a b c : String) (hab : decide (a ≤ b) = true) (hbc : decide (b ≤ c) = true) : decide (a ≤ c) = true :=
    decide_eq_true (String.le_trans (of_decide_eq_true hab) (of_decide_eq_true hbc))
  have htotal (a b : String) : (decide (a ≤ b) || decide (b ≤ a)) = true := by simpa using String.le_total a b
  have hsorted (l : List String) := List.pairwise_mergeSort htrans htotal l
  refine List.Perm.eq_of_pairwise (fun a b _ _ hab hba => ?_) ((hsorted l).filter q) (hsorted (l.filter q)) ?_
  · exact String.le_antisymm (of_decide_eq_true hab) (of_decide_eq_true hba)
  · exact ((List.mergeSort_perm l _).filter q).trans (List.mergeSort_perm (l.filter q) _).symm

-- A place is in its folder under its name.
theorem join_parent (hs : Settled path) (hn : path ≠ "/") : join (parent path) (nameIn path) = path := by
  have hnames := namesOf_ne_nil hs hn
  have ⟨names, last, he⟩ := (List.eq_nil_or_concat (namesOf path)).resolve_left hnames
  rw [List.concat_eq_append] at he
  have hall (s) (hm : s ∈ names ++ [last]) : s ≠ [] ∧ ∀ c ∈ s, (c == '/') = false := namesOf_mem (he ▸ hm)
  have hparent : parent path = ofSegments true names := by
    rw [parent]
    change ofSegments true (namesOf path).dropLast = _
    rw [he, List.dropLast_concat]
  have hname : nameIn path = .ofList last := by
    rw [nameIn, segments_of_settled hs hnames, he, ← List.cons_append, List.getLast?_concat]
    rfl
  have hsettled : Settled (ofSegments true names) := settled_ofSegments fun s hm => hall s (List.mem_append_left _ hm)
  have hhead : (String.ofList last).toList.head? ≠ some '/' := by
    rw [String.toList_ofList]
    exact fun hh => absurd ((hall last (by simp)).2 '/' (List.mem_of_mem_head? hh)) (by decide)
  have hpath : path.toList = '/' :: Text.join ['/'] (names ++ [last]) := by
    conv => lhs; rw [← hs]
    rw [toList_ofSegments, he]
  apply String.toList_inj.1
  rw [hparent, hname, hpath]
  by_cases hroot : names = []
  case pos =>
    subst hroot
    rw [join, if_neg hhead, if_pos (by decide), String.toList_append, String.toList_ofList]
    rfl
  case neg =>
    have hne : ofSegments true names ≠ "/" := by
      intro h
      have hnone := namesOf_ofSegments fun s hm => hall s (List.mem_append_left _ hm)
      rw [h] at hnone
      exact hroot hnone.symm
    rw [toList_join hsettled hne hhead, toList_ofSegments, String.toList_ofList, Text.join_append ['/'] hroot (by simp)]
    simp [Text.join]

-- What is in a folder and is entered from there, by its place.
def entered (d : Disk) (enters : String → Bool) (path : String) : List String :=
  ((d.names path).map (join path)).filter enters

-- The files and folders of a disk.
def places (d : Disk) : List String :=
  d.files.keys ++ d.folders

theorem places_without (d : Disk) (region : String → Bool) :
    (d.without region).places = d.places.filter (!region ·) := by
  rw [places, places, List.filter_append]
  exact congrArg (· ++ _) Dict.keys_without

theorem list_eq (d : Disk) (path : String) : d.list path =
    (d.places.filterMap fun k => if k ≠ "/" ∧ parent k = path then some (nameIn k) else none).mergeSort (· ≤ ·) :=
  rfl

theorem mem_entered {c : String} (ht : d.Tree) (hu : Upright path) (hc : c ∈ d.entered enters path) :
    c ∈ d.places ∧ Settled c ∧ c ≠ "/" ∧ parent c = path ∧ enters c = true := by
  have ⟨hm, he⟩ := List.mem_filter.1 hc
  have ⟨name, hn, hj⟩ := List.mem_map.1 hm
  unfold names at hn
  cases hl : d.locate path
  case error =>
    rw [hl] at hn
    cases hn
  case ok here =>
    rw [hl, hu.locate hl] at hn
    dsimp only at hn
    split at hn
    case isFalse => cases hn
    case isTrue =>
      rw [list_eq, List.mem_mergeSort, List.mem_filterMap] at hn
      have ⟨k, hk, hname⟩ := hn
      split at hname
      case isFalse => cases hname
      case isTrue hin =>
        have hsettled := ht.settled k hk
        have hkc : k = c := by rw [← hj, ← Option.some.inj hname, ← hin.2, join_parent hsettled hin.1]
        subst hkc
        exact ⟨hk, hsettled, hin.1, hin.2, he⟩

-- The same is entered from a folder, whatever is in the region.
theorem entered_congr (hT : Tours region enters V) (ht : d.Tree) (ht' : d'.Tree)
    (hd : Deep region) (he : d'.without region = d.without region) (hV : V path) :
    d'.entered enters path = d.entered enters path := by
  have hu := hT.upright path hV
  have ha := hu.avoids (d := d) hd (hT.outside path hV)
  have hinside (d : Disk) (ht : d.Tree) : ((d.list path).map (join path)).filter enters =
      ((((d.without region).places.filterMap fun k =>
        (if k ≠ "/" ∧ parent k = path then some (nameIn k) else none).filter (enters ∘ join path))).mergeSort
          (· ≤ ·)).map (join path) := by
    rw [List.filter_map, list_eq, filter_mergeSort, List.filter_filterMap, places_without, List.filterMap_filter]
    congr 2
    refine List.filterMap_congr fun k hk => ?_
    cases hr : region k
    case false => rfl
    case true =>
      by_cases hin : k ≠ "/" ∧ parent k = path
      case neg => simp [hin]
      case pos =>
        rw [if_pos hin, Option.filter_some, if_neg, if_neg (by simp)]
        have hsettled := ht.settled k hk
        rw [Function.comp_apply, ← hin.2, join_parent hsettled hin.1]
        exact fun hk' => Bool.false_ne_true
          ((hT.outside k (hT.child k (hin.2 ▸ hV) hsettled hin.1 hk')).symm.trans hr)
  unfold entered names
  rw [locate_of_avoids he ha]
  cases hl : d.locate path
  case error => rfl
  case ok here =>
    rw [hu.locate hl] at *
    dsimp only
    rw [entry_of_without he (hT.outside path hV)]
    split
    case isTrue  => rw [hinside d ht, hinside d' ht', he]
    case isFalse => rfl

-- How many folders there are at a place and below it. The root folder counts as well.
def depth (d : Disk) (path : String) : Nat :=
  d.folders.countP (isWithin path ·) + if path = "/" then 1 else 0

theorem countP_lt {α : Type} {p q : α → Bool} {l : List α} {x : α} (h : ∀ x ∈ l, p x = true → q x = true) (hx : x ∈ l)
    (hp : p x = false) (hq : q x = true) : l.countP p < l.countP q := by
  induction l
  case nil => cases hx
  case cons y l ih =>
    rw [List.countP_cons, List.countP_cons]
    have hle : l.countP p ≤ l.countP q := List.countP_mono_left fun x hm => h x (.tail _ hm)
    rcases List.mem_cons.1 hx with rfl | hx
    · rw [if_neg (by simp [hp]), if_pos hq]
      omega
    · have hlt := ih (fun x hm => h x (.tail _ hm)) hx
      have hy := h y (.head _)
      by_cases hpy : p y = true
      · rw [if_pos hpy, if_pos (hy hpy)]
        omega
      · rw [if_neg hpy]
        omega

theorem depth_lt (ht : d.Tree) (hp : Settled path) (hpath : path ≠ "/") (hf : d.entry (parent path) = .folder) :
    d.depth path < d.depth (parent path) := by
  have hparent : Settled (parent path) := settled_ofSegments fun s hm => namesOf_mem (List.dropLast_subset _ hm)
  have hnames := namesOf_ne_nil hp hpath
  have hmore : namesOf path = namesOf (parent path) ++ [(namesOf path).getLast hnames] := by
    rw [namesOf_parent, List.dropLast_append_getLast hnames]
  have hwithin (f : String) (hf : f ∈ d.folders) (hin : isWithin path f = true) : isWithin (parent path) f = true := by
    have hs := ht.settled f (List.mem_append_right _ hf)
    have ⟨more, hm⟩ := (isWithin_iff hp hs).1 hin
    refine (isWithin_iff hparent hs).2 ⟨(namesOf path).getLast hnames :: more, ?_⟩
    rw [hm]
    conv => lhs; rw [hmore]
    simp
  have hle : d.folders.countP (isWithin path ·) ≤ d.folders.countP (isWithin (parent path) ·) :=
    List.countP_mono_left hwithin
  unfold depth
  rw [if_neg hpath]
  split
  case isTrue  => omega
  case isFalse hroot =>
    have hmem : parent path ∈ d.folders := by
      unfold entry at hf
      split at hf
      · cases hf
      · split at hf
        case isTrue h  => exact h.resolve_left hroot
        case isFalse   => cases hf
    refine Nat.add_lt_add_right (countP_lt hwithin hmem ?_ ((isWithin_iff hparent hparent).2 ⟨[], by simp⟩)) 0
    rw [← Bool.not_eq_true, isWithin_iff hp hparent]
    rintro ⟨more, hm⟩
    have hlen := congrArg List.length hm
    have hlen' := congrArg List.length hmore
    rw [List.length_append] at hlen hlen'
    simp only [List.length_singleton] at hlen'
    omega

-- A walk that does not enter the region finds the same files, whatever is there.
theorem walk_congr (hT : Tours region enters V) (ht : d.Tree) (ht' : d'.Tree) (hd : Deep region)
    (he : d'.without region = d.without region) (hV : V path) {n m : Nat} (hn : d.depth path < n)
    (hm : d'.depth path < m) : d'.walk enters m path = d.walk enters n path := by
  induction n generalizing m path
  case zero => cases hn
  case succ n ih =>
    cases m
    case zero => cases hm
    case succ m =>
      have hu := hT.upright path hV
      have hr := hT.outside path hV
      have ha := hu.avoids (d := d) hd hr
      rw [walk, walk, entryAt_of_avoids he ha]
      cases hp : d.entryAt path
      case missing => rfl
      case file    => rfl
      case folder =>
        have hfolder : d.entry path = .folder := by
          unfold entryAt at hp
          cases hl : d.locate path
          case error =>
            rw [hl] at hp
            cases hp
          case ok here =>
            rw [hl] at hp
            exact hu.locate hl ▸ hp
        have hfolder' : d'.entry path = .folder := (entry_of_without he hr).trans hfolder
        have hsame := entered_congr hT ht ht' hd he hV
        unfold entered at hsame
        dsimp only
        rw [hsame]
        refine List.flatMap_congr fun c hc => ?_
        have ⟨_, hs, hne, hparent, henters⟩ := mem_entered ht hu hc
        subst hparent
        have hlt := depth_lt ht hs hne hfolder
        have hlt' := depth_lt ht' hs hne hfolder'
        exact ih (hT.child c hV hs hne henters) (by omega) (by omega)

theorem depth_le (d : Disk) (path : String) : d.depth path < d.folders.length + 2 := by
  unfold depth
  have := List.countP_le_length (p := (isWithin path ·)) (l := d.folders)
  split <;> omega

theorem filesBelow_congr (hT : Tours region enters V) (ht : d.Tree) (ht' : d'.Tree) (hd : Deep region)
    (he : d'.without region = d.without region) (hV : V path) :
    d'.filesBelow enters path = d.filesBelow enters path :=
  walk_congr hT ht ht' hd he hV (d.depth_le path) (d'.depth_le path)

end

end Disk

end ScopedCss
