import Mathlib.Logic.Relation
import ScopedCss.Proofs.Composition.Request
import ScopedCss.Proofs.Preprocessing.Loaded

namespace ScopedCss

open Lookup Preprocessor SessionM

-- The texts under which files were first seen.
abbrev Texts := String → Option String

-- A file is looked at on a disk. A text that has been seen stays.
def Texts.seen (t : Texts) (disk : Disk) (path : String) : Texts := fun q =>
  match t q with
  | some text => some text
  | none      => if q = path then (disk.read path).toOption else none

namespace Texts

variable {t : Texts} {path q text : String}

theorem seen_of_some (h : t q = some text) (disk : Disk) (path : String) : t.seen disk path q = some text := by
  rw [seen, h]

theorem seen_other (disk : Disk) (h : q ≠ path) : t.seen disk path q = t q := by
  rw [seen]
  cases t q
  case some => rfl
  case none => exact if_neg h

theorem seen_self (h : t path = none) (disk : Disk) : t.seen disk path path = (disk.read path).toOption := by
  rw [seen, h]
  exact if_pos rfl

theorem seen_eq_self (h : t path = some text) (disk : Disk) : t.seen disk path = t := by
  funext q
  by_cases hq : q = path
  case pos => rw [hq, seen_of_some h, h]
  case neg => exact seen_other disk hq

end Texts

-- What a build has got, next to the texts that it should know files by. A file in its hands is on its way through a stage.
structure Stock where
  registry : Registry
  preprocessors : List Preprocessor
  held : List Source
  texts : Texts

-- What happens to the files of a build. Each time, the disk can be another one.
inductive Stock.Step : Stock → Stock → Prop
  | hashing {k : Stock} {disk : Disk} {path : String} {source : Source} {registry : Registry} :
    k.registry.fetch disk path = .ok (source, registry) →
    Step k { k with registry, texts := k.texts.seen disk path }
  | taking {k : Stock} {disk : Disk} {path : String} {source : Source} {registry : Registry} :
    Path.forwardSlashes path = path → k.registry.fetch disk path = .ok (source, registry) →
    Step k { k with registry, held := source :: k.held, texts := k.texts.seen disk path }
  | importing {k : Stock} {n : Nat} {p : Preprocessor} {resolver : Resolver} {disk : Disk} {specifier importing : String}
      {references : PathSet} {imported : Dialect.Imported} {l : Lookup} :
    k.preprocessors[n]? = some p →
    (importFile resolver disk p.dialect.defaultExtension specifier importing).run.run ⟨k.registry, p.loaded, references⟩ =
      (.ok imported, l) →
    Step k { k with
      registry      := l.registry
      preprocessors := k.preprocessors.set n { p with loaded := l.loaded }
      texts         := k.texts.seen disk imported.path }
  | rendering {k : Stock} {source : Source} (css : String) (l : Lookup) :
    source ∈ k.held →
    Step k { k with
      registry := k.registry.insert (renderedSource source css l)
      held     := renderedSource source css l :: k.held }
  | scoping {k : Stock} {source : Source} (p : Project) (r : ScopedModule) :
    source ∈ k.held →
    Step k { k with
      registry := k.registry.insert (source.scopedAs p r)
      held     := source.scopedAs p r :: k.held }

-- Whatever has been made of it, a file goes with the text that it was first seen with.
structure Stock.Faithful (k : Stock) : Prop where
  raw    : ∀ q, (k.registry.get? q).map (·.raw) = k.texts q
  keyed  : k.registry.Keyed
  held   : ∀ source ∈ k.held, k.texts source.path = some source.raw
  loaded : ∀ p ∈ k.preprocessors, ∀ q imported, p.loaded.get? q = some imported →
    imported.path = q ∧ k.texts q = some imported.source

namespace Registry

variable {disk : Disk} {r r' : Registry} {path : String} {source : Source} {t : Texts}

theorem fetch_texts (h : ∀ q, (r.get? q).map (·.raw) = t q) (hf : r.fetch disk path = .ok (source, r')) :
    (∀ q, (r'.get? q).map (·.raw) = t.seen disk path q) ∧ t.seen disk path path = some source.raw := by
  unfold fetch at hf
  split at hf
  case h_1 hg =>
    cases hf
    have ht : t path = some source.raw := by rw [← h, hg]; rfl
    rw [Texts.seen_eq_self ht]
    exact ⟨h, ht⟩
  case h_2 hg =>
    split at hf
    case h_2 => cases hf
    case h_1 raw hr =>
      cases hf
      have ht : t path = none := by rw [← h, hg]; rfl
      have hself : t.seen disk path path = some raw := by rw [Texts.seen_self ht, hr]; rfl
      refine ⟨fun q => ?_, hself⟩
      rw [get?, insertAt, Dict.get?_insert]
      split
      case isTrue hq => exact hq ▸ hself.symm
      case isFalse hq =>
        rw [Texts.seen_other disk hq]
        exact h q

theorem hashOf_texts (h : ∀ q, (r.get? q).map (·.raw) = t q) (disk : Disk) (path : String) :
    (r.hashOf disk path).1 = (t.seen disk path path).map fingerprint := by
  unfold hashOf
  cases hf : r.fetch disk path
  case ok found =>
    dsimp only
    rw [(fetch_texts h hf).2]
    rfl
  case error =>
    unfold fetch at hf
    split at hf
    case h_1 => cases hf
    case h_2 hg =>
      have ht : t path = none := by rw [← h, hg]; rfl
      rw [Texts.seen_self ht]
      split at hf
      case h_1 => cases hf
      case h_2 hr =>
        rw [hr]
        rfl

end Registry

namespace Stock.Faithful

variable {k : Stock} {disk : Disk} {path specifier importing : String} {source : Source} {registry : Registry} {n : Nat}
  {p : Preprocessor} {resolver : Resolver} {references : PathSet} {imported : Dialect.Imported} {l : Lookup}

theorem fetch (h : k.Faithful) (hf : k.registry.fetch disk path = .ok (source, registry)) :
    { k with registry, texts := k.texts.seen disk path }.Faithful := by
  have hlater : k.registry.Later disk (fun _ => True) registry := (Registry.fetch_later hf).1
  refine ⟨(Registry.fetch_texts h.raw hf).1, hlater.keyed h.keyed, fun held hm => ?_, fun p hp q imported hq => ?_⟩
  · exact Texts.seen_of_some (h.held held hm) disk path
  · obtain ⟨hpath, ht⟩ := h.loaded p hp q imported hq
    exact ⟨hpath, Texts.seen_of_some ht disk path⟩

-- A file that is asked for by its canonical path has this path itself.
theorem path_of_fetch (h : k.Faithful) (hp : Path.forwardSlashes path = path)
    (hf : k.registry.fetch disk path = .ok (source, registry)) : source.path = path := by
  have hfetch : k.registry.Later disk (fun _ => True) registry ∧ registry.get? path = some source := Registry.fetch_later hf
  exact hfetch.1.keyed h.keyed path source hp hfetch.2

theorem take (h : k.Faithful) (hp : Path.forwardSlashes path = path)
    (hf : k.registry.fetch disk path = .ok (source, registry)) :
    { k with registry, held := source :: k.held, texts := k.texts.seen disk path }.Faithful := by
  have hread := h.fetch hf
  refine { hread with held := ?_ }
  intro held hm
  rcases List.mem_cons.1 hm with rfl | hm
  case inl =>
    dsimp only
    rw [h.path_of_fetch hp hf]
    exact (Registry.fetch_texts h.raw hf).2
  case inr => exact hread.held held hm

-- A stage registers a file that it had in its hands, with the text that the file came with.
theorem replace (h : k.Faithful) {made : Source} (hs : source ∈ k.held) (hpath : made.path = source.path)
    (hraw : made.raw = source.raw) : { k with registry := k.registry.insert made, held := made :: k.held }.Faithful := by
  have hmade : k.texts made.path = some made.raw := hpath ▸ hraw ▸ h.held source hs
  refine ⟨fun q => ?_, h.keyed.insert made, fun held hm => ?_, h.loaded⟩
  · dsimp only
    rw [Registry.get?, Registry.insert, Registry.insertAt, Dict.get?_insert]
    split
    case isTrue hq  => exact hq ▸ hmade.symm
    case isFalse hq => exact h.raw q
  · rcases List.mem_cons.1 hm with rfl | hm
    case inl => exact hmade
    case inr => exact h.held held hm

-- What an import comes to is the text that the file was first seen with, and it is loaded under its path.
theorem importFile (h : k.Faithful) (hn : k.preprocessors[n]? = some p)
    (hrun : (importFile resolver disk p.dialect.defaultExtension specifier importing).run.run
      ⟨k.registry, p.loaded, references⟩ = (.ok imported, l)) :
    { k with
      registry      := l.registry
      preprocessors := k.preprocessors.set n { p with loaded := l.loaded }
      texts         := k.texts.seen disk imported.path }.Faithful ∧
      k.texts.seen disk imported.path imported.path = some imported.source := by
  have hp := List.mem_of_getElem? hn
  rw [importFile_run] at hrun
  dsimp only at hrun
  cases hr : resolver.resolve disk (k.registry.knows disk) specifier importing
  case error =>
    rw [hr] at hrun
    cases hrun
  case ok path =>
    rw [hr] at hrun
    dsimp only at hrun
    cases hl : (candidates p.dialect.defaultExtension path).findSome? p.loaded.get?
    case some found =>
      rw [hl] at hrun
      cases hrun
      obtain ⟨q, _, hq⟩ := List.exists_of_findSome?_eq_some hl
      obtain ⟨hpath, ht⟩ := h.loaded p hp q imported hq
      subst hpath
      refine ⟨?_, Texts.seen_of_some ht disk _⟩
      rw [Texts.seen_eq_self ht]
      refine ⟨h.raw, h.keyed, h.held, fun p' hm => ?_⟩
      rcases List.mem_or_eq_of_mem_set hm with hm | rfl
      case inl => exact h.loaded p' hm
      case inr => exact h.loaded p hp
    case none =>
      rw [hl] at hrun
      dsimp only at hrun
      cases hfirst : k.registry.fetchFirst disk specifier (candidates p.dialect.defaultExtension path)
      case error =>
        rw [hfirst] at hrun
        cases hrun
      case ok found =>
        obtain ⟨source, registry⟩ := found
        rw [hfirst] at hrun
        cases hrun
        obtain ⟨q, hm, hf⟩ := Registry.fetch_of_fetchFirst hfirst
        have hq := forwardSlashes_candidates (Resolver.isCanonical_resolve hr).forwardSlashes_eq hm
        have hpath := h.path_of_fetch hq hf
        have hread := h.fetch hf
        have htext := (Registry.fetch_texts h.raw hf).2
        dsimp only
        rw [hpath]
        refine ⟨⟨hread.raw, hread.keyed, hread.held, fun p' hm q' imported hi => ?_⟩, htext⟩
        rcases List.mem_or_eq_of_mem_set hm with hm | rfl
        case inl => exact hread.loaded p' hm q' imported hi
        case inr =>
          rw [Dict.get?_insert] at hi
          split at hi
          case isFalse => exact hread.loaded p hp q' imported hi
          case isTrue he =>
            subst he
            cases hi
            exact ⟨rfl, htext⟩

theorem step {k' : Stock} (h : k.Faithful) (hs : Stock.Step k k') : k'.Faithful := by
  cases hs
  case hashing hf        => exact h.fetch hf
  case taking hp hf      => exact h.take hp hf
  case importing hn hrun => exact (h.importFile hn hrun).1
  case rendering hs      => exact h.replace hs rfl rfl
  case scoping hs        => exact h.replace hs rfl rfl

theorem steps {k' : Stock} (h : k.Faithful) (hs : Relation.ReflTransGen Stock.Step k k') : k'.Faithful := by
  induction hs
  case refl         => exact h
  case tail hs ih   => exact ih.step hs

end Stock.Faithful

-- A text that has been seen stays, along all that happens.
theorem Stock.texts_of_steps {k k' : Stock} (hs : Relation.ReflTransGen Stock.Step k k') {q text : String}
    (h : k.texts q = some text) : k'.texts q = some text := by
  induction hs
  case refl => exact h
  case tail hs ih =>
    cases hs
    case rendering => exact ih
    case scoping   => exact ih
    all_goals exact Texts.seen_of_some ih _ _

-- An import that fails leaves nothing behind.
theorem Lookup.importFile_error {resolver : Resolver} {disk : Disk} {extension specifier importing : String}
    {l l' : Lookup} {e : Error}
    (h : (importFile resolver disk extension specifier importing).run.run l = (.error e, l')) : l' = l := by
  rw [importFile_run] at h
  split at h
  case h_1 => exact (congrArg Prod.snd h).symm
  case h_2 =>
    split at h
    case h_1 => cases h
    case h_2 =>
      split at h
      case h_1 => exact (congrArg Prod.snd h).symm
      case h_2 => cases h

namespace Session

-- What a session has got, with these files in the hands of a stage.
def stock (s : Session) (held : List Source) (texts : Texts) : Stock where
  registry := s.registry
  preprocessors := s.preprocessors
  held := held
  texts := texts

-- With the files `need` in its hands, a stage gets from one session to another step by step, and has `got` then as well.
def Leads (need : List Source) (s t : Session) (got : List Source) : Prop :=
  ∀ held texts, need ⊆ held → ∃ held' texts', held ⊆ held' ∧ got ⊆ held' ∧
    Relation.ReflTransGen Stock.Step (s.stock held texts) (t.stock held' texts')

namespace Leads

variable {need got more : List Source} {s t u : Session}

theorem of_eq (hr : t.registry = s.registry) (hp : t.preprocessors = s.preprocessors) : Leads need s t need := by
  intro held texts hn
  have hstock : t.stock held texts = s.stock held texts := by rw [stock, stock, hr, hp]
  exact ⟨held, texts, List.Subset.refl _, hn, hstock ▸ .refl⟩

theorem refl (need : List Source) (s : Session) : Leads need s s need :=
  of_eq rfl rfl

theorem trans (h : Leads need s t got) (h' : Leads got t u more) : Leads need s u more := by
  intro held texts hn
  obtain ⟨held₁, texts₁, hh₁, hg₁, hs₁⟩ := h held texts hn
  obtain ⟨held₂, texts₂, hh₂, hg₂, hs₂⟩ := h' held₁ texts₁ hg₁
  exact ⟨held₂, texts₂, List.Subset.trans hh₁ hh₂, hg₂, hs₁.trans hs₂⟩

theorem mono {need' got' : List Source} (h : Leads need s t got) (hn : need ⊆ need') (hg : got' ⊆ got) :
    Leads need' s t got' := by
  intro held texts hneed
  obtain ⟨held', texts', hh, hg', hs⟩ := h held texts (List.Subset.trans hn hneed)
  exact ⟨held', texts', hh, List.Subset.trans hg hg', hs⟩

-- What else is in the hands of a stage stays there.
theorem frame (h : Leads [] s t got) (kept : List Source) : Leads kept s t kept := by
  intro held texts hk
  obtain ⟨held', texts', hh, _, hs⟩ := h held texts (List.nil_subset _)
  exact ⟨held', texts', hh, List.Subset.trans hk hh, hs⟩

-- Only what a session has got counts.
theorem to_eq (h : Leads need s t got) (hr : u.registry = t.registry) (hp : u.preprocessors = t.preprocessors) :
    Leads need s u got :=
  h.trans (of_eq hr hp)

theorem hashing {disk : Disk} {path : String} {source : Source} {registry : Registry}
    (hf : s.registry.fetch disk path = .ok (source, registry)) : Leads need s { s with registry } need := by
  intro held texts hn
  exact ⟨held, texts.seen disk path, List.Subset.refl _, hn, .single (.hashing hf)⟩

theorem taking {disk : Disk} {path : String} {source : Source} {registry : Registry}
    (hp : Path.forwardSlashes path = path) (hf : s.registry.fetch disk path = .ok (source, registry)) :
    Leads [] s { s with registry } [source] := by
  intro held texts hn
  refine ⟨source :: held, texts.seen disk path, List.subset_cons_self _ _, ?_, .single (.taking hp hf)⟩
  exact List.cons_subset_cons source hn

theorem rendering {source : Source} (css : String) (l : Lookup) :
    Leads [source] s { s with registry := s.registry.insert (renderedSource source css l) } [renderedSource source css l] := by
  intro held texts hn
  refine ⟨renderedSource source css l :: held, texts, List.subset_cons_self _ _, ?_, .single (.rendering css l (hn (.head _)))⟩
  exact List.cons_subset_cons _ (List.nil_subset _)

theorem scoping {source : Source} (p : Project) (r : ScopedModule) :
    Leads [source] s { s with registry := s.registry.insert (source.scopedAs p r) } [source.scopedAs p r] := by
  intro held texts hn
  refine ⟨source.scopedAs p r :: held, texts, List.subset_cons_self _ _, ?_, .single (.scoping p r (hn (.head _)))⟩
  exact List.cons_subset_cons _ (List.nil_subset _)

end Leads

-- The imports of a root are looked up one after another.
theorem leads_rendered {s : Session} {index : Nat} {preprocessor : Preprocessor} (need : List Source) (settings : Settings)
    (disk : Disk) (source : Source) (hn : s.preprocessors[index]? = some preprocessor) :
    Leads need s { s with
      registry      := (preprocessor.rendered settings disk s.registry source).2.registry
      preprocessors := s.preprocessors.set index
        { preprocessor with loaded := (preprocessor.rendered settings disk s.registry source).2.loaded } } need := by
  intro held texts hneed
  suffices h : ∃ texts', Relation.ReflTransGen Stock.Step (s.stock held texts)
      { registry      := (preprocessor.rendered settings disk s.registry source).2.registry
        preprocessors := s.preprocessors.set index
          { preprocessor with loaded := (preprocessor.rendered settings disk s.registry source).2.loaded }
        held
        texts         := texts' } by
    obtain ⟨texts', hs⟩ := h
    exact ⟨held, texts', List.Subset.refl _, hneed, hs⟩
  have hindex := (List.getElem?_eq_some_iff.1 hn).1
  refine rendered_keeps (P := fun l => ∃ texts', Relation.ReflTransGen Stock.Step (s.stock held texts)
    ⟨l.registry, s.preprocessors.set index { preprocessor with loaded := l.loaded }, held, texts'⟩) ?_ ?_
  case refine_1 =>
    rintro l specifier importing ⟨texts', hs⟩
    rcases hrun : (importFile (.ofBase settings.base) disk preprocessor.dialect.defaultExtension specifier importing).run.run l
      with ⟨e | imported, l'⟩
    case error =>
      cases importFile_error hrun
      exact ⟨texts', hs⟩
    case ok =>
      have hget : (s.preprocessors.set index { preprocessor with loaded := l.loaded })[index]? =
          some { preprocessor with loaded := l.loaded } := List.getElem?_set_self hindex
      have hstep : Stock.Step ⟨l.registry, _, held, texts'⟩ _ := .importing hget hrun
      rw [List.set_set] at hstep
      exact ⟨_, hs.tail hstep⟩
  case refine_2 =>
    have hself : s.preprocessors.set index preprocessor = s.preprocessors := by
      rw [← (List.getElem?_eq_some_iff.1 hn).2, List.set_getElem_self]
    exact ⟨texts, by rw [hself]; exact .refl⟩

end Session

namespace SessionM

variable {p : Project} {s : Session} {source : Source} {path : String}

theorem render_leads (index : Nat) : Session.Leads [source] s ((render p index source).on s).2
    ((render p index source).on s).1.toOption.toList := by
  rw [render_on]
  cases hn : s.preprocessors[index]?
  case none => exact .refl _ s
  case some preprocessor =>
    dsimp only
    cases hr : source.isRendered
    case true =>
      rw [render_isRendered hr]
      refine .of_eq rfl ?_
      dsimp only
      rw [← (List.getElem?_eq_some_iff.1 hn).2, List.set_getElem_self]
    case false =>
      have hleads := Session.leads_rendered [source] p.settings p.disk source hn
      rw [render_eq hr]
      rcases hrun : preprocessor.rendered p.settings p.disk s.registry source with ⟨e | css, l⟩
      all_goals rw [hrun] at hleads
      case error => exact (hleads.to_eq rfl rfl).mono (List.Subset.refl _) (List.nil_subset _)
      case ok    => exact (hleads.trans (.rendering css l)).to_eq rfl rfl

theorem contentsOf_leads (hp : Path.forwardSlashes path = path) : Session.Leads [] s ((contentsOf p path).on s).2 [] := by
  rw [contentsOf_on]
  cases hf : s.registry.fetch p.disk path
  case error => exact .refl _ s
  case ok found =>
    obtain ⟨source, registry⟩ := found
    have htaken : Session.Leads [] s { s with registry } [source] := .taking hp hf
    dsimp only
    split
    case h_2 => exact htaken.mono (List.Subset.refl _) (List.nil_subset _)
    case h_1 index _ _ =>
      have hrender := (htaken.trans (render_leads (p := p) index)).mono (List.Subset.refl _) (List.nil_subset _)
      generalize (render p index source).on { s with registry } = rendered at hrender
      rcases rendered with ⟨e | source, t⟩
      all_goals exact hrender

end SessionM

namespace Visit

open Scoping

variable {p : Project} {v w : Visit}

-- A file that is not the first of its chain is asked for by its canonical path.
theorem run_leads (hc : v.contents = none → Path.IsCanonical v.path) : Session.Leads [] v.session (v.run p).2 [] := by
  induction v using induct (p := p)
  case h v ih =>
    have henter : Session.Leads [] v.session (v.session.enter v.path) [] := .of_eq rfl rfl
    have hreading : Session.Leads [] v.session (v.reading p).2 [] := by
      unfold reading
      cases hcontents : v.contents
      case some => exact henter
      case none => exact henter.trans (contentsOf_leads (hc hcontents).forwardSlashes_eq)
    have hafter {text : String} (ho : v.Opens p text) : Session.Leads [] v.session (v.after p (plan text)).2 [] := by
      have hcalls (w : Visit) (hw : v.Calls p w) (hl : Session.Leads [] v.session w.session []) :
          Session.Leads [] v.session (w.run p).2 [] := by
        have hcanonical : Path.IsCanonical w.path := by
          cases hw
          case mk hr => exact Resolver.isCanonical_resolve hr
        exact hl.trans (ih w hw fun _ => hcanonical)
      exact after_induct (P := (Session.Leads [] v.session · [])) ho hreading hcalls (plan_end text)
    have ho := outcome (p := p) (v := v)
    generalize v.run p = result at ho
    cases ho
    case unread hread =>
      rw [hread] at hreading
      exact hreading.to_eq rfl rfl
    case stopped ho ha =>
      have hleads := hafter ho
      rw [ha] at hleads
      exact hleads.to_eq rfl rfl
    case finished ho ha =>
      have hleads := hafter ho
      rw [ha] at hleads
      exact hleads.to_eq rfl rfl
    all_goals exact .refl _ _

end Visit

theorem SessionM.scope_leads (p : Project) (s : Session) (source : Source) :
    Session.Leads [source] s ((SessionM.scope p source).on s).2 ((SessionM.scope p source).on s).1.toOption.toList := by
  have hcontents : (Visit.top p s source).contents ≠ none := Option.some_ne_none _
  have htop : Session.Leads [] s ((Visit.top p s source).run p).2 [] := Visit.run_leads fun hc => absurd hc hcontents
  have hleads : Session.Leads [source] s ((Visit.top p s source).run p).2 [source] := htop.frame [source]
  rw [scope_on]
  split
  case isTrue => exact .refl _ s
  case isFalse =>
    generalize (Visit.top p s source).run p = result at hleads
    rcases result with ⟨e | r, t⟩
    case error => exact (hleads.to_eq rfl rfl).mono (List.Subset.refl _) (List.nil_subset _)
    case ok    => exact hleads.trans (.scoping p r)

end ScopedCss
