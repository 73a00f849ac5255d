import ScopedCss.Proofs.Preprocessing

namespace ScopedCss

namespace Text

theorem mem_of_mem_takeWhileEnd {p : Char → Bool} {s : List Char} {c : Char} (h : c ∈ takeWhileEnd p s) :
    c ∈ s := by
  have hs := List.takeWhile_sublist (l := s.reverse) p
  exact List.mem_reverse.1 (hs.subset (List.mem_reverse.1 h))

theorem mem_of_mem_dropWhileEnd {p : Char → Bool} {s : List Char} {c : Char} (h : c ∈ dropWhileEnd p s) :
    c ∈ s := by
  have hs := List.dropWhile_sublist (l := s.reverse) p
  exact List.mem_reverse.1 (hs.subset (List.mem_reverse.1 h))

end Text

namespace Path

theorem mem_of_mem_basename {path : String} {c : Char} (h : c ∈ (basename path).toList) : c ∈ path.toList := by
  rw [basename, String.toList_ofList] at h
  exact Text.mem_of_mem_dropWhileEnd (Text.mem_of_mem_takeWhileEnd h)

theorem mem_of_mem_dirname {path : String} {c : Char} (h : c ∈ (dirname path).toList) :
    c ∈ path.toList ∨ c = '.' ∨ c = '/' := by
  unfold dirname at h
  split at h
  · simp_all
  · simp_all
  case h_3 dir sep rest _ hcut =>
    have ⟨⟨l, _, r⟩, hl, he⟩ := Option.map_eq_some_iff.1 hcut
    cases he
    have hr : path.toList = r.reverse ++ sep :: l.reverse := by
      rw [← List.reverse_reverse path.toList, (Text.eq_of_cut? hl).1]
      simp
    rw [String.toList_ofList] at h
    exact .inl (hr ▸ List.mem_append_left _ h)

end Path

namespace Lookup

variable {resolver : Resolver} {dialect : Dialect} {disk : Disk} {specifier importing : String} {l : Lookup}
  {paths : List String} {q : String}

-- Candidates for a canonical path have forward slashes like it.
theorem forwardSlashes_candidates {path : String} (h : Path.forwardSlashes path = path)
    (hq : q ∈ candidates dialect.defaultExtension path) : Path.forwardSlashes q = q := by
  have hpath : '\\' ∉ path.toList := h ▸ Path.forwardSlashes_toList path
  have hext : '\\' ∉ dialect.defaultExtension.toList := by cases dialect <;> decide
  unfold candidates at hq
  dsimp only at hq
  generalize he : (if Path.extension path = "" then path ++ dialect.defaultExtension else path) = named at hq
  have hnamed : '\\' ∉ named.toList := by
    subst he
    split
    case isTrue  => simp [hpath, hext]
    case isFalse => exact hpath
  apply Path.forwardSlashes_eq
  split at hq
  case isTrue => exact List.mem_singleton.1 hq ▸ hnamed
  case isFalse =>
    rcases List.mem_cons.1 hq with rfl | hq
    · exact hnamed
    · rw [List.mem_singleton.1 hq]
      intro hm
      simp only [toString, String.toList_append, List.mem_append] at hm
      rcases hm with (hm | hm) | hm
      · rcases Path.mem_of_mem_dirname hm with h | h | h
        · exact hnamed h
        · simp at h
        · simp at h
      · simp at hm
      · exact hnamed (Path.mem_of_mem_basename hm)

-- What is loaded is registered, under the same path and with the same text.
structure Faithful (l : Lookup) : Prop where
  keyed  : l.registry.Keyed
  loaded : ∀ q imported, l.loaded.get? q = some imported →
    imported.path = q ∧ ∃ source, l.registry.get? q = some source ∧ source.path = q ∧ source.raw = imported.source

-- Lookups in the middle of a build. All files are registered before the first import is looked up;
-- from then on, files are read by whoever asks for them first, and a registered file is replaced by
-- what a stage makes of it, with the text that it was read with.
inductive Reached (resolver : Resolver) (dialect : Dialect) : Lookup → Prop
  | start {registry : Registry} : registry.sources = ∅ → Reached resolver dialect ⟨registry, ∅, ∅⟩
  | registered {l : Lookup} (source : Source) :
    Reached resolver dialect l → l.loaded = ∅ →
    Reached resolver dialect { l with registry := l.registry.insert source }
  | imported {l : Lookup} (disk : Disk) (specifier importing : String) :
    Reached resolver dialect l →
    Reached resolver dialect
      ((importFile resolver disk dialect.defaultExtension specifier importing).run.run l).2
  | read {l : Lookup} {disk : Disk} {path : String} {source : Source} {registry : Registry} :
    Reached resolver dialect l → l.registry.fetch disk path = .ok (source, registry) →
    Reached resolver dialect { l with registry }
  | replaced {l : Lookup} {source old : Source} :
    Reached resolver dialect l → l.registry.get? source.path = some old → source.raw = old.raw →
    Reached resolver dialect { l with registry := l.registry.insert source }
  | nextRoot {l : Lookup} (references : PathSet) :
    Reached resolver dialect l → Reached resolver dialect { l with references }

namespace Faithful

theorem read {path : String} {source : Source} {registry : Registry} (h : l.Faithful)
    (hf : l.registry.fetch disk path = .ok (source, registry)) : { l with registry }.Faithful := by
  have ⟨hlater, _⟩ : l.registry.Later disk (fun _ => True) registry ∧ _ := Registry.fetch_later hf
  refine ⟨hlater.keyed h.keyed, fun q imported hq => ?_⟩
  have ⟨hp, source, hg, hs⟩ := h.loaded q imported hq
  have hget := hlater.get? q trivial (Registry.contains_of_get? hg)
  exact ⟨hp, source, hget.trans hg, hs⟩

theorem replaced {source old : Source} (h : l.Faithful) (hold : l.registry.get? source.path = some old)
    (hraw : source.raw = old.raw) : { l with registry := l.registry.insert source }.Faithful := by
  refine ⟨h.keyed.insert source, fun q imported hq => ?_⟩
  have ⟨hp, source', hg, hpath, hs⟩ := h.loaded q imported hq
  refine ⟨hp, ?_⟩
  by_cases he : q = source.path
  case neg => exact ⟨source', by simpa [Registry.get?, Registry.insert, Registry.insertAt, he] using hg, hpath, hs⟩
  case pos =>
    subst he
    rw [hold] at hg
    cases hg
    exact ⟨source, by simp [Registry.get?, Registry.insert, Registry.insertAt], rfl, hraw.trans hs⟩

-- A file that is found under one of the candidates.
theorem fetchFirst {registry : Registry} {source : Source} (h : l.Faithful)
    (hs : ∀ q ∈ paths, Path.forwardSlashes q = q)
    (hf : l.registry.fetchFirst disk specifier paths = .ok (source, registry)) :
    (paths.find? l.registry.contains <|> paths.find? disk.isFile) = some source.path ∧
      registry.get? source.path = some source ∧
      l.registry.fetch disk source.path = .ok (source, registry) := by
  unfold Registry.fetchFirst at hf
  cases hq : (paths.find? l.registry.contains <|> paths.find? disk.isFile)
  case none =>
    rw [hq] at hf
    cases hf
  case some q =>
    rw [hq] at hf
    dsimp only at hf
    have hm : q ∈ paths := by
      rw [Option.orElse_eq_orElse, Option.orElse_eq_or, Option.or_eq_some_iff] at hq
      rcases hq with hq | ⟨_, hq⟩
      all_goals exact List.mem_of_find?_eq_some hq
    have ⟨hlater, hg⟩ : l.registry.Later disk (fun _ => True) _ ∧ _ := Registry.fetch_later hf
    have hpath : source.path = q := hlater.keyed h.keyed q source (hs q hm) hg
    rw [hpath]
    exact ⟨rfl, hg, hf⟩

theorem imported (h : l.Faithful) (disk : Disk) (specifier importing : String) :
    ((importFile resolver disk dialect.defaultExtension specifier importing).run.run l).2.Faithful := by
  rw [importFile_run]
  split
  case h_1 => exact h
  case h_2 path hr =>
    have hs (q) (hq : q ∈ candidates dialect.defaultExtension path) : Path.forwardSlashes q = q :=
      forwardSlashes_candidates (Resolver.isCanonical_resolve hr).forwardSlashes_eq hq
    split
    case h_1 => exact ⟨h.keyed, h.loaded⟩
    case h_2 =>
      split
      case h_1 => exact h
      case h_2 source registry hf =>
        have ⟨_, hg, hf⟩ := h.fetchFirst hs hf
        have hread := h.read hf
        refine ⟨hread.keyed, fun q imported hq => ?_⟩
        rw [Dict.get?_insert] at hq
        split at hq
        case isFalse => exact hread.loaded q imported hq
        case isTrue he =>
          subst he
          cases hq
          exact ⟨rfl, source, hg, rfl, rfl⟩

end Faithful

theorem Reached.faithful (h : Reached resolver dialect l) : l.Faithful := by
  induction h
  case start hr => exact ⟨fun q source _ hq => by simp [Registry.get?, hr] at hq, by simp⟩
  case registered source _ hl ih => exact ⟨ih.keyed.insert source, by simp [hl]⟩
  case imported disk specifier importing _ ih => exact ih.imported disk specifier importing
  case read hf ih => exact ih.read hf
  case replaced hold hraw ih => exact ih.replaced hold hraw
  case nextRoot ih => exact ⟨ih.keyed, ih.loaded⟩

-- The imports of one preprocessor read files for all others.
theorem Reached.importedBeside {extension : String} {other : Resolver} {l' : Lookup} {loaded : Dict Dialect.Imported}
    {references : PathSet} (h : Reached resolver dialect ⟨l'.registry, loaded, references⟩) :
    Reached resolver dialect
      ⟨((importFile other disk extension specifier importing).run.run l').2.registry, loaded, references⟩ := by
  rw [importFile_run]
  split
  case h_1 => exact h
  case h_2 =>
    split
    case h_1 => exact h
    case h_2 =>
      split
      case h_1 => exact h
      case h_2 hf =>
        have ⟨_, _, hf⟩ := Registry.fetch_of_fetchFirst hf
        exact h.read hf

-- The partial has been loaded, and the file that goes before it has not, although it is registered.
def Shadowed (l : Lookup) (paths : List String) : Prop :=
  ∃ path partialPath, paths = [path, partialPath] ∧ l.registry.contains path = true ∧
    l.loaded.get? path = none ∧ (l.loaded.get? partialPath).isSome

-- The first registered candidate is found, whatever is on disk.
theorem fetchFirst_of_registered {source : Source} (hq : paths.find? l.registry.contains = some q)
    (hg : l.registry.get? q = some source) :
    l.registry.fetchFirst disk specifier paths = .ok (source, l.registry) := by
  unfold Registry.fetchFirst
  rw [hq]
  exact Registry.fetch_registered hg

theorem candidates_eq (extension path : String) :
    ∃ named, candidates extension path = [named] ∨
      ∃ partialPath, candidates extension path = [named, partialPath] := by
  unfold candidates
  dsimp only
  generalize (if Path.extension path = "" then path ++ extension else path) = named
  refine ⟨named, ?_⟩
  split
  case isTrue  => exact .inl rfl
  case isFalse => exact .inr ⟨_, rfl⟩

-- What is loaded is what would be looked up, but for a file that its partial hides.
theorem Faithful.findSome? (disk : Disk) (specifier : String) {path extension : String} {imported : Dialect.Imported}
    (h : l.Faithful) (hs : ∀ q ∈ candidates extension path, Path.forwardSlashes q = q)
    (hl : (candidates extension path).findSome? l.loaded.get? = some imported) :
    ∃ source, l.registry.fetchFirst disk specifier (candidates extension path) =
        .ok (source, l.registry) ∧
      ((⟨source.path, source.raw⟩ : Dialect.Imported) = imported ↔
        ¬l.Shadowed (candidates extension path)) := by
  have ⟨named, hc⟩ := candidates_eq extension path
  cases hn : l.loaded.get? named
  case some imported' =>
    have ⟨hp, source, hg, hpath, hraw⟩ := h.loaded named imported' hn
    have hr := Registry.contains_of_get? hg
    refine ⟨source, fetchFirst_of_registered (q := named) ?_ hg, ?_⟩
    · rcases hc with hc | ⟨_, hc⟩
      all_goals simp [hc, hr]
    · have hi : imported' = imported := by
        rcases hc with hc | ⟨_, hc⟩
        all_goals simpa [hc, hn] using hl
      have hs : ¬l.Shadowed (candidates extension path) := by
        rintro ⟨path, partialPath, hpaths, -, hunloaded, -⟩
        rcases hc with hc | ⟨_, hc⟩
        · simp [hc] at hpaths
        · rw [hc] at hpaths
          cases hpaths
          simp [hn] at hunloaded
      subst hi
      cases imported'
      simp_all
  case none =>
    rcases hc with hc | ⟨partialPath, hc⟩
    case inl => simp [hc, hn] at hl
    case inr =>
      have hl : l.loaded.get? partialPath = some imported := by simpa [hc, hn] using hl
      have ⟨hp, source, hg, hpath, hraw⟩ := h.loaded partialPath imported hl
      cases hr : l.registry.contains named
      case true =>
        have ⟨source', hg'⟩ := Option.isSome_iff_exists.1 hr
        have hpath' : source'.path = named := h.keyed named source' (hs named (by simp [hc])) hg'
        refine ⟨source', fetchFirst_of_registered (q := named) (by simp [hc, hr]) hg', ?_⟩
        have hshadowed : l.Shadowed (candidates extension path) := ⟨named, partialPath, hc, hr, hn, by simp [hl]⟩
        have hne : named ≠ partialPath := fun he => by simp [he, hl] at hn
        simp only [hshadowed, not_true_eq_false, iff_false]
        rintro rfl
        exact hne (hpath'.symm.trans hp)
      case false =>
        have hr' := Registry.contains_of_get? hg
        refine ⟨source, fetchFirst_of_registered (q := partialPath) (by simp [hc, hr, hr']) hg, ?_⟩
        have hshadowed : ¬l.Shadowed (candidates extension path) := by
          rintro ⟨path, _, hpaths, hregistered, -⟩
          rw [hc] at hpaths
          cases hpaths
          simp [hr] at hregistered
        simp only [hshadowed, not_false_eq_true, hpath, hraw, ← hp]

-- A lookup comes to the first candidate that is registered, or else the first that is a file, unless
-- what has been loaded hides it.
theorem importFile_eq_unloaded_iff (h : Reached resolver dialect l) {imported : Dialect.Imported}
    (hrun : ((importFile resolver disk dialect.defaultExtension specifier importing).run.run l).1 = .ok imported) :
    ∃ path imported',
      resolver.resolve disk (l.registry.knows disk) specifier importing = .ok path ∧
      ((candidates dialect.defaultExtension path).find? l.registry.contains <|>
        (candidates dialect.defaultExtension path).find? disk.isFile) = some imported'.path ∧
      ((importFile resolver disk dialect.defaultExtension specifier importing).run.run
        { l with loaded := ∅ }).1 = .ok imported' ∧
      (imported' = imported ↔ ¬l.Shadowed (candidates dialect.defaultExtension path)) := by
  have hf := h.faithful
  rw [importFile_run] at hrun ⊢
  cases hr : resolver.resolve disk (l.registry.knows disk) specifier importing
  case error =>
    rw [hr] at hrun
    cases hrun
  case ok path =>
    have hs (q) (hq : q ∈ candidates dialect.defaultExtension path) : Path.forwardSlashes q = q :=
      forwardSlashes_candidates (Resolver.isCanonical_resolve hr).forwardSlashes_eq hq
    have hunloaded : (candidates dialect.defaultExtension path).findSome? (∅ : Dict Dialect.Imported).get? = none := by
      simp
    rw [hr] at hrun
    dsimp only at hrun ⊢
    rw [hunloaded]
    dsimp only
    cases hl : (candidates dialect.defaultExtension path).findSome? l.loaded.get?
    case some imported' =>
      rw [hl] at hrun
      cases hrun
      have ⟨source, hfetch, hiff⟩ := hf.findSome? disk specifier hs hl
      have ⟨hchosen, _, _⟩ := hf.fetchFirst hs hfetch
      exact ⟨path, ⟨source.path, source.raw⟩, rfl, hchosen, by rw [hfetch], hiff⟩
    case none =>
      rw [hl] at hrun
      dsimp only at hrun
      cases hfetch : l.registry.fetchFirst disk specifier (candidates dialect.defaultExtension path)
      case error =>
        rw [hfetch] at hrun
        cases hrun
      case ok found =>
        have ⟨source, registry⟩ := found
        rw [hfetch] at hrun
        cases hrun
        have ⟨hchosen, _, _⟩ := hf.fetchFirst hs hfetch
        refine ⟨path, ⟨source.path, source.raw⟩, rfl, hchosen, rfl, iff_of_true rfl ?_⟩
        rintro ⟨_, partialPath, hpaths, -, -, hloaded⟩
        have hnone := List.findSome?_eq_none_iff.1 hl partialPath (by simp [hpaths])
        simp [hnone] at hloaded

-- Both a file and its partial are registered, and the partial is imported first.
def partialFirst : Lookup :=
  let sheet (path text : String) : Source := { path, place := path, arch := "web", raw := text, contents := text }
  ((importFile ⟨""⟩ .empty ".scss" "./_x" "/p/a.scss").run.run
    ⟨(Registry.mk ∅ "" "" "web" |>.insert (sheet "/p/x.scss" "exact")).insert (sheet "/p/_x.scss" "partial"), ∅, ∅⟩).2

theorem importFile_eq_unloaded_iff_partialFirst :
    Reached ⟨""⟩ .sass partialFirst ∧
      ((importFile ⟨""⟩ .empty ".scss" "./x" "/p/b.scss").run.run partialFirst).1 = .ok ⟨"/p/_x.scss", "partial"⟩ ∧
      ((importFile ⟨""⟩ .empty ".scss" "./x" "/p/b.scss").run.run { partialFirst with loaded := ∅ }).1 =
        .ok ⟨"/p/x.scss", "exact"⟩ ∧
      ∃ path imported',
        Resolver.resolve ⟨""⟩ .empty (partialFirst.registry.knows .empty) "./x" "/p/b.scss" = .ok path ∧
        ((candidates ".scss" path).find? partialFirst.registry.contains <|>
          (candidates ".scss" path).find? Disk.empty.isFile) = some imported'.path ∧
        ((importFile ⟨""⟩ .empty ".scss" "./x" "/p/b.scss").run.run { partialFirst with loaded := ∅ }).1 = .ok imported' ∧
        (imported' = ⟨"/p/_x.scss", "partial"⟩ ↔ ¬partialFirst.Shadowed (candidates ".scss" path)) := by
  have hreached : Reached ⟨""⟩ .sass partialFirst :=
    .imported .empty "./_x" "/p/a.scss" (.registered _ (.registered _ (.start rfl) rfl) rfl)
  have hrun : ((importFile ⟨""⟩ .empty ".scss" "./x" "/p/b.scss").run.run partialFirst).1 =
      .ok ⟨"/p/_x.scss", "partial"⟩ := by
    decide
  exact ⟨hreached, hrun, by decide, importFile_eq_unloaded_iff hreached hrun⟩

end Lookup

namespace Preprocessor

open Lookup

variable {p : Preprocessor} {s : Settings} {disk : Disk} {registry : Registry} {source old : Source}
  {resolver : Resolver} {dialect : Dialect} {loaded : Dict Dialect.Imported}

-- What every lookup keeps is kept by rendering a text.
theorem rendered_keeps {P : Lookup → Prop}
    (step : ∀ l specifier importing, P l →
      P ((importFile (.ofBase s.base) disk p.dialect.defaultExtension specifier importing).run.run l).2)
    (h : P ⟨registry, p.loaded, ∅⟩) : P (p.rendered s disk registry source).2 := by
  let keeps : Related (StateM Lookup) (StateM Lookup) :=
    .keeps (fun l₁ l₂ => P l₁ → P l₂) (fun _ h => h) fun _ _ _ h₁ h₂ h => h₂ (h₁ h)
  let importer := importFile (.ofBase s.base) disk p.dialect.defaultExtension
  have hstep (specifier importing) : keeps.Rel (importer specifier importing).run (importer specifier importing).run :=
    fun l => step l specifier importing
  exact p.dialect.grammar.render_related keeps hstep source.path source.contents _ h

-- Rendering replaces the source by one with the same text, if it succeeds.
theorem render_cases (p : Preprocessor) (s : Settings) (disk : Disk) (hold : registry.get? source.path = some old)
    (hraw : source.raw = old.raw) (hr : source.isRendered = false) :
    ∃ l, l = (p.rendered s disk registry source).2 ∧
      (p.render s disk registry source).preprocessor.loaded = l.loaded ∧
      ((p.render s disk registry source).registry = l.registry ∨
        ∃ rendered old, rendered.raw = old.raw ∧ l.registry.get? rendered.path = some old ∧
          (p.render s disk registry source).registry = l.registry.insert rendered) := by
  have hlater : registry.Later disk (fun _ => True) (p.rendered s disk registry source).2.registry := rendered_later
  have hkept := (hlater.get? _ trivial (Registry.contains_of_get? hold)).trans hold
  rw [render_eq hr]
  generalize p.rendered s disk registry source = r at hkept
  rcases r with ⟨e | css, l⟩
  · exact ⟨l, rfl, rfl, .inl rfl⟩
  · exact ⟨l, rfl, rfl, .inr ⟨renderedSource source css l, old, hraw, hkept, rfl⟩⟩

-- Rendering a root is looking up its imports, for the preprocessor that renders it, ...
theorem render_reached (h : Reached (.ofBase s.base) p.dialect ⟨registry, p.loaded, ∅⟩)
    (hold : registry.get? source.path = some old) (hraw : source.raw = old.raw) :
    Reached (.ofBase s.base) p.dialect
      ⟨(p.render s disk registry source).registry, (p.render s disk registry source).preprocessor.loaded, ∅⟩ := by
  cases hr : source.isRendered
  case true =>
    rw [render_isRendered hr]
    exact h
  case false =>
    have ⟨l, hl, hloaded, hregistry⟩ := render_cases p s disk hold hraw hr
    have hreached : Reached (.ofBase s.base) p.dialect l := by
      rw [hl]
      exact rendered_keeps (fun _ specifier importing h => h.imported disk specifier importing) h
    rw [hloaded]
    rcases hregistry with he | ⟨rendered, old, hraw, hold, he⟩
    all_goals rw [he]
    · exact hreached.nextRoot ∅
    · exact (hreached.replaced hold hraw).nextRoot ∅

-- ... and reading files for any other.
theorem render_reachedBeside (h : Reached resolver dialect ⟨registry, loaded, ∅⟩)
    (hold : registry.get? source.path = some old) (hraw : source.raw = old.raw) :
    Reached resolver dialect ⟨(p.render s disk registry source).registry, loaded, ∅⟩ := by
  cases hr : source.isRendered
  case true =>
    rw [render_isRendered hr]
    exact h
  case false =>
    have ⟨l, hl, _, hregistry⟩ := render_cases p s disk hold hraw hr
    have hreached : Reached resolver dialect ⟨l.registry, loaded, ∅⟩ := by
      rw [hl]
      exact rendered_keeps (P := fun l => Reached resolver dialect ⟨l.registry, loaded, ∅⟩)
        (fun _ _ _ h => h.importedBeside) h
    rcases hregistry with he | ⟨rendered, old, hraw, hold, he⟩
    all_goals rw [he]
    · exact hreached
    · exact hreached.replaced hold hraw

end Preprocessor

end ScopedCss
