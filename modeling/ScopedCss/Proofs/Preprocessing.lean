import ScopedCss.Proofs.Registry
import ScopedCss.Proofs.Stateful

namespace ScopedCss

namespace Lookup

variable {resolver : Resolver} {disk : Disk} {extension specifier importing : String}
  {held : String → Prop}

theorem importFile_run (l : Lookup) :
    (importFile resolver disk extension specifier importing).run.run l =
      match resolver.resolve disk (l.registry.knows disk) specifier importing with
      | .error e => (.error e, l)
      | .ok path =>
        match (candidates extension path).findSome? l.loaded.get? with
        | some imported => (.ok imported, { l with references := l.references.add imported.path })
        | none =>
          match l.registry.fetchFirst disk specifier (candidates extension path) with
          | .error e => (.error e, l)
          | .ok (source, registry) =>
            (.ok ⟨source.path, source.raw⟩,
              ⟨registry, l.loaded.insert source.path ⟨source.path, source.raw⟩,
                l.references.add source.path⟩) := by
  rw [importFile, Stateful.run_bind_ok (Stateful.run_get l), Stateful.run_bind, Stateful.run_except]
  cases resolver.resolve disk (l.registry.knows disk) specifier importing
  case error => rfl
  case ok path =>
    dsimp only
    cases (candidates extension path).findSome? l.loaded.get?
    case some => rfl
    case none =>
      dsimp only
      rw [Stateful.run_bind, Stateful.run_except]
      cases l.registry.fetchFirst disk specifier (candidates extension path) <;> rfl
theorem importFile_later (l : Lookup) :
    l.registry.Later disk held
      ((importFile resolver disk extension specifier importing).run.run l).2.registry := by
  rw [importFile_run]
  split
  · exact .refl _
  · split
    · exact .refl _
    · split
      · exact .refl _
      · exact Registry.fetchFirst_later ‹_›

-- What lookups leave of the registry.
abbrev later (disk : Disk) (held : String → Prop) : Related (StateM Lookup) (StateM Lookup) :=
  .keeps (fun l₁ l₂ => l₁.registry.Later disk held l₂.registry) (fun _ => .refl _)
    fun _ _ _ h₁ h₂ => h₁.trans h₂

theorem render_later (g : Dialect.Grammar) (file source : String) (l : Lookup) :
    l.registry.Later disk held
      ((g.render (importFile resolver disk extension) file source).run.run l).2.registry := by
  have h (specifier importing) : (later disk held).Rel
      (importFile resolver disk extension specifier importing).run
      (importFile resolver disk extension specifier importing).run := importFile_later
  exact g.render_related (later disk held) h file source l

end Lookup

namespace Preprocessor

variable {p : Preprocessor} {s : Settings} {disk : Disk} {registry : Registry} {source : Source}
  {held : String → Prop}

-- The text that a root is rendered to, with what its imports leave behind.
def rendered (p : Preprocessor) (s : Settings) (disk : Disk) (registry : Registry) (source : Source) :
    Except Error String × Lookup :=
  (p.dialect.grammar.render (Lookup.importFile (.ofBase s.base) disk p.dialect.defaultExtension)
    source.path source.contents).run.run ⟨registry, p.loaded, ∅⟩

def renderedSource (source : Source) (css : String) (l : Lookup) : Source :=
  { source with
    contents := css
    sourceMap := none
    isRendered := true
    references := source.references.addAll l.references.keys }

theorem render_eq (h : source.isRendered = false) :
    p.render s disk registry source =
      match p.rendered s disk registry source with
      | (.ok css, l) =>
        ⟨.ok (renderedSource source css l), { p with loaded := l.loaded },
          l.registry.insert (renderedSource source css l), []⟩
      | (.error e, l) =>
        ⟨.error (errorInRoot s source e), { p with loaded := l.loaded }, l.registry,
          LogEntry.banner p.dialect.stage source.path (errorInRoot s source e)⟩ := by
  unfold render rendered
  rw [h]
  dsimp only [Bool.false_eq_true, ↓reduceIte]
  generalize StateT.run _ _ = r
  rcases r with ⟨e | css, l⟩ <;> rfl

theorem rendered_later : registry.Later disk held (p.rendered s disk registry source).2.registry :=
  Lookup.render_later _ _ _ ⟨registry, p.loaded, ∅⟩

theorem render_isRendered (h : source.isRendered = true) :
    p.render s disk registry source = ⟨.ok source, p, registry, []⟩ := by
  unfold render
  rw [h]
  rfl

-- Rendering replaces the entry of the root alone, and that only if it succeeds.
theorem render_later (hc : registry.contains source.path = true) (hh : ¬held source.path) :
    registry.Later disk held (p.render s disk registry source).registry := by
  cases hr : source.isRendered
  case true =>
    rw [render_isRendered hr]
    exact .refl _
  case false =>
    have h : registry.Later disk held (p.rendered s disk registry source).2.registry := rendered_later
    rw [render_eq hr]
    generalize p.rendered s disk registry source = r at h
    rcases r with ⟨e | css, l⟩
    · exact h
    · have hi : l.registry.Later disk held (l.registry.insert (renderedSource source css l)) :=
        .insert (h.contains _ hc) hh
      exact h.trans hi

theorem render_keyed (hk : registry.Keyed) : (p.render s disk registry source).registry.Keyed := by
  cases hr : source.isRendered
  case true =>
    rw [render_isRendered hr]
    exact hk
  case false =>
    have h : registry.Later disk (fun _ => True) (p.rendered s disk registry source).2.registry :=
      rendered_later
    rw [render_eq hr]
    generalize p.rendered s disk registry source = r at h
    rcases r with ⟨e | css, l⟩
    · exact h.keyed hk
    · exact (h.keyed hk).insert _

-- What a root is rendered to is the root with another text.
theorem render_result {source' : Source} (h : (p.render s disk registry source).result = .ok source') :
    source' = source ∨ ∃ css l, source' = renderedSource source css l := by
  cases hr : source.isRendered
  case true =>
    rw [render_isRendered hr] at h
    exact .inl (Except.ok.inj h).symm
  case false =>
    rw [render_eq hr] at h
    generalize p.rendered s disk registry source = r at h
    rcases r with ⟨e | css, l⟩
    · cases h
    · exact .inr ⟨css, l, (Except.ok.inj h).symm⟩

-- Rendering logs nothing but its failure.
theorem render_log {source' : Source} (h : (p.render s disk registry source).result = .ok source') :
    (p.render s disk registry source).log = [] := by
  cases hr : source.isRendered
  case true => rw [render_isRendered hr]
  case false =>
    rw [render_eq hr] at h ⊢
    generalize p.rendered s disk registry source = r at h
    rcases r with ⟨e | css, l⟩
    case error => cases h
    case ok    => rfl

end Preprocessor

end ScopedCss
