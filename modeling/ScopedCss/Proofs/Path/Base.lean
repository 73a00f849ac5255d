import Mathlib.Data.List.DropRight
import ScopedCss.Proofs.Composition.Respelled
import ScopedCss.Proofs.Path.Canonical

namespace ScopedCss

namespace Text

theorem dropPrefix?_append (start rest : List Char) : dropPrefix? start (start ++ rest) = some rest :=
  dropPrefix?_eq_some_iff.2 rfl

theorem dropPrefix?_eq_none_iff {start s : List Char} : dropPrefix? start s = none ↔ ¬start <+: s := by
  rw [Option.eq_none_iff_forall_ne_some]
  constructor
  case mp =>
    rintro h ⟨rest, rfl⟩
    exact h rest (dropPrefix?_append start rest)
  case mpr => exact fun h rest hrest => h ⟨rest, (dropPrefix?_eq_some_iff.1 hrest).symm⟩

end Text

namespace Path

variable {base path rest : String}

-- What follows the slash behind the base folder, for a path below that.
def below? (base path : String) : Option String :=
  (Text.dropPrefix? (base.toList ++ ['/']) path.toList).map .ofList

theorem below?_eq_some_iff : below? base path = some rest ↔ path.toList = base.toList ++ '/' :: rest.toList := by
  rw [below?, Option.map_eq_some_iff]
  constructor
  case mp =>
    rintro ⟨s, hs, rfl⟩
    simp [Text.dropPrefix?_eq_some_iff.1 hs]
  case mpr =>
    intro h
    refine ⟨rest.toList, Text.dropPrefix?_eq_some_iff.2 ?_, String.ofList_toList⟩
    simp [h]

-- No two slashes stand side by side in a canonical path.
theorem IsCanonical.head?_ne (h : IsCanonical path) {s t : List Char} (hp : path.toList = s ++ '/' :: t) :
    t.head? ≠ some '/' := by
  intro ht
  obtain ⟨t, rfl⟩ := List.head?_eq_some_iff.1 ht
  obtain ⟨c, rfl⟩ := h
  have hslash (w) (hw : w ∈ c.segments) (d) (hd : d ∈ w) : (d == '/') = false := by
    have := c.not_isSeparator hw d hd
    simp_all [isSeparator]
  by_cases hn : c.segments = []
  case pos =>
    have hlength := congrArg List.length hp
    cases hr : c.rooted <;> simp [Canonical.path, ofSegments, hn, hr, Text.join] at hlength
    all_goals omega
  case neg =>
    have hjoin := Text.splitWhere_join (c := '/') rfl hslash hn
    have hsplit : Text.splitWhere (· == '/') c.path.toList =
        Text.splitWhere (· == '/') s ++ [] :: Text.splitWhere (· == '/') t := by
      rw [hp, Text.splitWhere_append_sep rfl]
      rfl
    obtain ⟨w, before, hs⟩ := List.exists_cons_of_ne_nil (Text.splitWhere_ne_nil (· == '/') s)
    rw [hs, Canonical.path, ofSegments] at hsplit
    have hempty : [] ∈ c.segments := by
      cases hr : c.rooted
      case false =>
        simp only [hr, Bool.false_eq_true, if_false, hn, String.toList_ofList, hjoin] at hsplit
        simp [hsplit]
      case true =>
        simp only [hr, if_true, String.toList_ofList, Text.splitWhere, beq_self_eq_true, hjoin] at hsplit
        simp [(List.cons.inj hsplit).2]
    exact c.ne_nil hempty rfl

end Path

section

variable {o : Options} {disk : Disk} {renderers : Renderers} {s : Settings} {n : Naming} {p : Project}
  {r : Registry} {resolver : Resolver} {replacements : List Replacement} {template : Option String}
  {base path rest : String}

theorem Text.dropWhile_slash {s : List Char} (h : s.head? ≠ some '/') : s.dropWhile (· == '/') = s := by
  cases s <;> simp_all

theorem Registry.placeOf_append (h : path.toList = r.base.toList ++ rest.toList) :
    r.placeOf path = .ofList (rest.toList.dropWhile (· == '/')) := by
  rw [placeOf, h, Text.dropPrefix?_append]

theorem Registry.placeOf_eq (h : ¬r.base.toList <+: path.toList) : r.placeOf path = path := by
  rw [placeOf, Text.dropPrefix?_eq_none_iff.2 h]

theorem Resolver.fromBase_append (hf : Path.forwardSlashes path = path)
    (h : path.toList = resolver.base.toList ++ rest.toList) :
    resolver.fromBase path = .ofList ('/' :: rest.toList.dropWhile (· == '/')) := by
  simp only [fromBase, hf]
  rw [h, Text.dropPrefix?_append]

theorem Resolver.fromBase_eq (hf : Path.forwardSlashes path = path) (h : ¬resolver.base.toList <+: path.toList) :
    resolver.fromBase path = path := by
  simp only [fromBase, hf]
  rw [Text.dropPrefix?_eq_none_iff.2 h]

theorem Naming.relative_eq (n : Naming) (path : String) :
    n.relative path.toList = ((Path.below? n.base path).getD path).toList := by
  unfold relative
  split
  case h_1 rest hrest =>
    have hb : Path.below? n.base path = some (.ofList rest) := by
      rw [Path.below?_eq_some_iff, Text.dropPrefix?_eq_some_iff.1 hrest, String.toList_ofList]
    rw [hb, Option.getD_some, String.toList_ofList]
  case h_2 hnot =>
    have hb : Path.below? n.base path = none := by
      rw [Option.eq_none_iff_forall_ne_some]
      intro rest hrest
      refine hnot rest.toList ?_
      rw [Path.below?_eq_some_iff.1 hrest, Text.dropPrefix?_append]
    rw [hb, Option.getD_none]

-- Where trailing slashes are off already, nothing is left to take off.
theorem Resolver.ofBase_base (base : String) : ofBase (ofBase base).base = ofBase base := by
  have hf : Path.forwardSlashes (ofBase base).base = (ofBase base).base := by
    refine Path.forwardSlashes_eq fun hm => Path.forwardSlashes_toList base ?_
    rw [ofBase, String.toList_ofList] at hm
    rw [← Text.dropWhileEnd_append_takeWhileEnd (· == '/') (Path.forwardSlashes base).toList]
    exact List.mem_append_left _ hm
  have hdrop : Text.dropWhileEnd (· == '/') (ofBase base).base.toList = (ofBase base).base.toList := by
    rw [ofBase, String.toList_ofList]
    exact List.rdropWhile_idempotent ..
  rw [ofBase, hf, hdrop, String.ofList_toList]

theorem Options.settle_base (h : o.settle disk base renderers = .ok s) : s.base = (Resolver.ofBase base).base := by
  unfold settle at h
  simp only [bind, Except.bind] at h
  repeat' split at h
  all_goals cases h
  simp only [Resolver.ofBase]

-- The base folder has no part in the reading of a template.
theorem Naming.make_eq (base : String) : make base replacements template =
    (make "" replacements template).map fun n => { n with base := (Resolver.ofBase base).base } := by
  cases template
  case none => rfl
  case some text =>
    simp only [make, bind, Except.bind]
    cases Template.parse text <;> rfl

theorem Naming.make_base (h : make base replacements template = .ok n) : n.base = (Resolver.ofBase base).base := by
  rw [make_eq] at h
  cases hn : make "" replacements template
  all_goals rw [hn] at h
  case error => cases h
  case ok => rw [← Except.ok.inj h]

-- All parts of a project have the same base folder.
theorem Options.project_base (h : o.project disk base renderers = .ok p) :
    p.settings.base = (Resolver.ofBase base).base ∧ p.resolver.base = p.settings.base ∧
      p.naming.base = p.settings.base := by
  unfold project at h
  cases hs : o.settle disk base renderers
  all_goals rw [hs] at h
  case error => cases h
  case ok settings =>
    unfold Except.bind Project.make at h
    dsimp only at h
    have hbase := settle_base hs
    cases hn : Naming.make settings.base settings.replacements settings.options.template
    all_goals
      rw [hn] at h
      cases h
    have hresolver : (Resolver.ofBase settings.base).base = settings.base := by rw [hbase, Resolver.ofBase_base]
    exact ⟨hbase, hresolver, (Naming.make_base hn).trans hresolver⟩

-- A path below the base folder is cut alike everywhere. Any other stays as it is in scoped names, and elsewhere
-- too, unless it goes on from the text of the base folder with anything but a slash.
theorem Options.project_below (h : o.project disk base renderers = .ok p) (hp : Path.IsCanonical path)
    (arch raw : String) :
    (∀ rest, Path.below? p.settings.base path = some rest →
      ((Registry.ofSettings p.settings arch).sourceOf path raw).place = rest ∧
        p.resolver.fromBase path = "/" ++ rest ∧ p.naming.relative path.toList = rest.toList) ∧
      (Path.below? p.settings.base path = none →
        p.naming.relative path.toList = path.toList ∧
        (((Registry.ofSettings p.settings arch).sourceOf path raw).place = path ∧ p.resolver.fromBase path = path ↔
          ¬p.settings.base.toList <+: path.toList) ∧
        ∀ rest, path = p.settings.base ++ rest →
          ((Registry.ofSettings p.settings arch).sourceOf path raw).place = rest ∧
            p.resolver.fromBase path = "/" ++ rest) := by
  obtain ⟨-, hresolver, hnaming⟩ := project_base h
  have hf := hp.forwardSlashes_eq
  have hplace : ((Registry.ofSettings p.settings arch).sourceOf path raw).place =
    (Registry.ofSettings p.settings arch).placeOf path := rfl
  -- Without slashes in front, the rest behind the base folder is all that is left of a path.
  have hprefix (s rest : String) (hl : path.toList = p.settings.base.toList ++ s.toList)
      (hs : s.toList.dropWhile (· == '/') = rest.toList) :
      (Registry.ofSettings p.settings arch).placeOf path = rest ∧ p.resolver.fromBase path = "/" ++ rest := by
    constructor
    case left  => rw [Registry.placeOf_append hl, hs, String.ofList_toList]
    case right =>
      rw [Resolver.fromBase_append hf (hresolver ▸ hl), hs]
      exact String.toList_inj.1 (by simp)
  rw [hplace, Naming.relative_eq, hnaming]
  constructor
  case left =>
    intro rest hrest
    have hl := Path.below?_eq_some_iff.1 hrest
    have ⟨hplace, hfrom⟩ := hprefix ("/" ++ rest) rest (by simpa using hl)
      (by simpa using Text.dropWhile_slash (hp.head?_ne hl))
    exact ⟨hplace, hfrom, by rw [hrest, Option.getD_some]⟩
  case right =>
    intro hnone
    have hcut (rest : String) (he : path = p.settings.base ++ rest) :
        (Registry.ofSettings p.settings arch).placeOf path = rest ∧ p.resolver.fromBase path = "/" ++ rest := by
      have hl : path.toList = p.settings.base.toList ++ rest.toList := by rw [he, String.toList_append]
      refine hprefix rest rest hl (Text.dropWhile_slash fun hhead => ?_)
      obtain ⟨t, ht⟩ := List.head?_eq_some_iff.1 hhead
      have hsome : Path.below? p.settings.base path = some (.ofList t) := by
        rw [Path.below?_eq_some_iff, hl, ht, String.toList_ofList]
      exact Option.some_ne_none _ (hsome.symm.trans hnone)
    refine ⟨by rw [hnone, Option.getD_none], ⟨?_, fun hbase => ?_⟩, hcut⟩
    · rintro ⟨hplace, hfrom⟩ ⟨rest, hrest⟩
      have ⟨hp, hr⟩ := hcut (.ofList rest) (String.toList_inj.1 (by simp [hrest]))
      have hlength := congrArg String.length (hp.symm.trans (hplace.trans (hfrom.symm.trans hr)))
      simp at hlength
    · exact ⟨Registry.placeOf_eq hbase, Resolver.fromBase_eq hf (hresolver ▸ hbase)⟩

-- Below the base folder, and in a folder next to it with a longer name.
theorem Options.project_below_beside :
    ∃ p, ({} : Options).project ⟨∅, [], "/"⟩ "/app/" .builtin = .ok p ∧
      (((Registry.ofSettings p.settings "web.browser").sourceOf "/app/ui/a.css" "").place = "ui/a.css" ∧
        p.resolver.fromBase "/app/ui/a.css" = "/ui/a.css" ∧
        p.naming.relative "/app/ui/a.css".toList = "ui/a.css".toList) ∧
      ((Registry.ofSettings p.settings "web.browser").sourceOf "/application/a.css" "").place = "lication/a.css" ∧
      p.resolver.fromBase "/application/a.css" = "/lication/a.css" ∧
      p.naming.relative "/application/a.css".toList = "/application/a.css".toList := by
  have hp : (({} : Options).project ⟨∅, [], "/"⟩ "/app/" .builtin).toOption.isSome = true := by decide +kernel
  cases h : ({} : Options).project ⟨∅, [], "/"⟩ "/app/" .builtin
  all_goals rw [h] at hp
  case error => cases hp
  case ok p =>
    have hbase : p.settings.base = "/app" := (project_base h).1
    have hcanonical (path : String) (hp : Path.clean path = path) : Path.IsCanonical path :=
      hp ▸ Path.isCanonical_clean path
    have hbelow := (project_below h (hcanonical "/app/ui/a.css" (by decide +kernel)) "web.browser" "").1 "ui/a.css"
      (by rw [hbase]; decide)
    have hbeside := (project_below h (hcanonical "/application/a.css" (by decide +kernel)) "web.browser" "").2
      (by rw [hbase]; decide)
    exact ⟨p, rfl, hbelow, (hbeside.2.2 "lication/a.css" (by rw [hbase]; rfl)).1,
      (hbeside.2.2 "lication/a.css" (by rw [hbase]; rfl)).2, hbeside.1⟩

end

end ScopedCss
