import ScopedCss.Proofs.Composition.Request

namespace ScopedCss

-- The names that are exported in camelCase, with what they stand for.
def Tokens.camelCased (tokens : Tokens) : Tokens :=
  .ofList (tokens.entries.map fun (own, names) => (Text.camelCase own, names))

-- A file with its exported names in camelCase.
def Source.respelled (source : Source) : Source :=
  { source with tokens := source.tokens.map Tokens.camelCased }

theorem Source.respelled_eq {source : Source} (h : source.tokens = none) : source.respelled = source := by
  rw [respelled, h, Option.map_none, ← h]

-- A project that exports its names in camelCase. The hash of its settings is another one.
def Project.camelCased (p : Project) (hash : String) : Project :=
  { p with settings := { p.settings with options := { p.settings.options with camelCase := true }, hash } }

namespace Registry

variable {disk : Disk} {path : String}

def respelled (r : Registry) : Registry :=
  { r with sources := r.sources.mapValues fun _ => Source.respelled }

theorem get?_respelled (r : Registry) (q : String) : r.respelled.get? q = (r.get? q).map Source.respelled :=
  Dict.get?_mapValues ..

theorem contains_respelled (r : Registry) : r.respelled.contains = r.contains := by
  funext q
  exact Dict.contains_mapValues ..

theorem knows_respelled (r : Registry) : r.respelled.knows disk = r.knows disk := by
  funext q
  rw [knows, contains_respelled, knows]

theorem insertAt_respelled (r : Registry) (q : String) (source : Source) :
    r.respelled.insertAt q source.respelled = (r.insertAt q source).respelled := by
  unfold insertAt respelled
  dsimp only
  rw [Dict.mapValues_insert]

-- A file that is read from disk exports nothing yet.
theorem fetch_respelled (r : Registry) :
    r.respelled.fetch disk path = (r.fetch disk path).map fun (source, r) => (source.respelled, r.respelled) := by
  unfold fetch
  rw [get?_respelled]
  cases r.get? path
  case some => rfl
  case none =>
    dsimp only [Option.map_none]
    cases disk.read path
    case error => rfl
    case ok raw =>
      have hinsert := r.insertAt_respelled path (r.sourceOf path raw)
      exact congrArg (fun registry => Except.ok (r.sourceOf path raw, registry)) hinsert

theorem fetchFirst_respelled (r : Registry) (specifier : String) (paths : List String) :
    r.respelled.fetchFirst disk specifier paths =
      (r.fetchFirst disk specifier paths).map fun (source, r) => (source.respelled, r.respelled) := by
  unfold fetchFirst
  rw [contains_respelled]
  cases paths.find? r.contains <|> paths.find? disk.isFile
  case none => rfl
  case some => exact fetch_respelled r

end Registry

namespace Lookup

variable {resolver : Resolver} {disk : Disk} {extension specifier importing : String}

def respelled (l : Lookup) : Lookup :=
  { l with registry := l.registry.respelled }

-- What an import reads of a file is not what that exports.
theorem importFile_respelled :
    (Related.mapping respelled).toExcept.Rel (importFile resolver disk extension specifier importing)
      (importFile resolver disk extension specifier importing) := by
  intro l
  rw [importFile_run, importFile_run]
  have hknows : l.respelled.registry.knows disk = l.registry.knows disk := l.registry.knows_respelled
  rw [hknows]
  cases resolver.resolve disk (l.registry.knows disk) specifier importing
  case error => rfl
  case ok path =>
    dsimp only
    have hloaded : l.respelled.loaded = l.loaded := rfl
    rw [hloaded]
    cases (candidates extension path).findSome? l.loaded.get?
    case some => rfl
    case none =>
      dsimp only
      have hfetch : l.respelled.registry.fetchFirst disk specifier (candidates extension path) =
          (l.registry.fetchFirst disk specifier (candidates extension path)).map fun (source, r) =>
            (source.respelled, r.respelled) :=
        l.registry.fetchFirst_respelled specifier _
      rw [hfetch]
      cases l.registry.fetchFirst disk specifier (candidates extension path) <;> rfl

theorem render_respelled (g : Dialect.Grammar) (file source : String) (l : Lookup) :
    (g.render (importFile resolver disk extension) file source).run.run l.respelled =
      (((g.render (importFile resolver disk extension) file source).run.run l).1,
        ((g.render (importFile resolver disk extension) file source).run.run l).2.respelled) :=
  g.render_related (Related.mapping respelled) (fun _ _ => importFile_respelled) file source l

end Lookup

def Rendering.respelled (r : Rendering) : Rendering :=
  { r with result := r.result.map Source.respelled, registry := r.registry.respelled }

namespace Preprocessor

variable {pre : Preprocessor} {p : Project} {hash : String} {disk : Disk} {registry : Registry} {source : Source}

theorem render_respelled :
    pre.render (p.camelCased hash).settings disk registry.respelled source.respelled =
      (pre.render p.settings disk registry source).respelled := by
  cases hr : source.isRendered
  all_goals have hr' : source.respelled.isRendered = source.isRendered := rfl
  case true =>
    rw [render_isRendered hr, render_isRendered (hr'.trans hr)]
    rfl
  case false =>
    have hrendered : pre.rendered (p.camelCased hash).settings disk registry.respelled source.respelled =
        ((pre.rendered p.settings disk registry source).1, (pre.rendered p.settings disk registry source).2.respelled) :=
      Lookup.render_respelled _ _ _ ⟨registry, pre.loaded, ∅⟩
    rw [render_eq hr, render_eq (hr'.trans hr), hrendered]
    rcases pre.rendered p.settings disk registry source with ⟨e | css, l⟩
    case error => rfl
    case ok =>
      have hsource : renderedSource source.respelled css l.respelled = (renderedSource source css l).respelled := rfl
      dsimp only
      rw [hsource]
      unfold Rendering.respelled Registry.insert
      dsimp only
      rw [← Registry.insertAt_respelled]
      rfl

end Preprocessor

def Session.respelled (s : Session) : Session :=
  { s with registry := s.registry.respelled }

namespace SessionM

variable {p : Project} {hash path specifier : String} {s : Session} {source : Source}

theorem render_respelled (s : Session) (source : Source) (hash : String) (index : Nat) :
    (render (p.camelCased hash) index source.respelled).on s.respelled =
      (((render p index source).on s).1.map Source.respelled, ((render p index source).on s).2.respelled) := by
  have hpre : s.respelled.preprocessors[index]? = s.preprocessors[index]? := rfl
  rw [render_on, render_on, hpre]
  cases s.preprocessors[index]?
  case none => rfl
  case some pre =>
    dsimp only
    have hrender : pre.render (p.camelCased hash).settings (p.camelCased hash).disk s.respelled.registry
        source.respelled = (pre.render p.settings p.disk s.registry source).respelled :=
      Preprocessor.render_respelled
    rw [hrender]
    rfl

-- The text of a file does not depend on what it exports.
theorem contentsOf_respelled :
    (contentsOf (p.camelCased hash) path).on s.respelled =
      (((contentsOf p path).on s).1, ((contentsOf p path).on s).2.respelled) := by
  rw [contentsOf_on, contentsOf_on]
  have hfetch : s.respelled.registry.fetch (p.camelCased hash).disk path =
      (s.registry.fetch p.disk path).map fun (source, r) => (source.respelled, r.respelled) :=
    Registry.fetch_respelled _
  rw [hfetch]
  cases s.registry.fetch p.disk path
  case error => rfl
  case ok found =>
    have ⟨source, registry⟩ := found
    have hrole : Role.of s.respelled.preprocessors source.respelled = Role.of s.preprocessors source := rfl
    have hrendered : source.respelled.isRendered = source.isRendered := rfl
    dsimp only [Except.map]
    rw [hrole, hrendered]
    cases source.isRendered
    case true => rfl
    case false =>
      cases Role.of s.preprocessors source
      case root index =>
        dsimp only
        have hrender : (render (p.camelCased hash) index source.respelled).on
            { s.respelled with registry := registry.respelled } =
              (((render p index source).on { s with registry }).1.map Source.respelled,
                ((render p index source).on { s with registry }).2.respelled) :=
          render_respelled { s with registry } source hash index
        rw [hrender]
        rcases (render p index source).on { s with registry } with ⟨e | source, t⟩ <;> rfl
      all_goals rfl

theorem textOf_respelled (s : Session) (hash : String) (contents : Option String) :
    (textOf (p.camelCased hash) path contents).on s.respelled =
      (((textOf p path contents).on s).1, ((textOf p path contents).on s).2.respelled) := by
  cases contents
  case some => rfl
  case none => exact contentsOf_respelled

-- While a text is scoped, what its file is composed of is recorded besides.
abbrev composing : RelatedExcept (StateT (List ImportRecord) (StateM Session)) (StateT (List ImportRecord) (StateM Session)) :=
  ((Related.mapping Session.respelled).state (List ImportRecord)).toExcept

theorem composed_respelled {other other' : String → SessionM ScopedModule}
    (h : ∀ path, (Related.mapping Session.respelled).toExcept.Rel (other path) (other' path)) :
    composing.Rel (composed p path other specifier) (composed (p.camelCased hash) path other' specifier) := by
  intro records s
  change ComposeM.on (composed (p.camelCased hash) path other' specifier) records s.respelled =
    ((ComposeM.on (composed p path other specifier) records s).1,
      (ComposeM.on (composed p path other specifier) records s).2.respelled)
  rw [composed_on, composed_on]
  have hresolve : (p.camelCased hash).resolver.resolve (p.camelCased hash).disk
      (s.respelled.registry.knows (p.camelCased hash).disk) specifier path =
        p.resolver.resolve p.disk (s.registry.knows p.disk) specifier path :=
    congrArg (p.resolver.resolve p.disk · specifier path) (Registry.knows_respelled _)
  rw [hresolve]
  cases p.resolver.resolve p.disk (s.registry.knows p.disk) specifier path
  case error => rfl
  case ok target =>
    have hother : (other' target).on s.respelled = (((other target).on s).1, ((other target).on s).2.respelled) :=
      h target s
    dsimp only
    rw [hother]
    rcases (other target).on s with ⟨e | r, t⟩ <;> rfl

theorem scopeText_respelled {other other' : String → SessionM ScopedModule}
    (h : ∀ path, (Related.mapping Session.respelled).toExcept.Rel (other path) (other' path)) (text : String) :
    (scopeText (p.camelCased hash) path other' text).on s.respelled =
      (((scopeText p path other text).on s).1, ((scopeText p path other text).on s).2.respelled) := by
  have hscope : ComposeM.on (Scoping.scope text path ((p.camelCased hash).naming.generate · path)
      (composed (p.camelCased hash) path other')) [] s.respelled =
        ((ComposeM.on (Scoping.scope text path (p.naming.generate · path) (composed p path other)) [] s).1,
          (ComposeM.on (Scoping.scope text path (p.naming.generate · path) (composed p path other)) [] s).2.respelled) :=
    Scoping.scope_related composing (fun _ => composed_respelled h) text [] s
  rw [scopeText_on, scopeText_on, hscope]
  rcases ComposeM.on (Scoping.scope text path (p.naming.generate · path) (composed p path other)) [] s
    with ⟨⟨e | sheet, records⟩, t⟩ <;> rfl

-- All results are the same, whatever names are exported in the end.
theorem scopeFile_respelled (fuel : Nat) (path : String) (contents : Option String) :
    (Related.mapping Session.respelled).toExcept.Rel (scopeFile p fuel path contents)
      (scopeFile (p.camelCased hash) fuel path contents) := by
  intro s
  change (scopeFile (p.camelCased hash) fuel path contents).on s.respelled =
    (((scopeFile p fuel path contents).on s).1, ((scopeFile p fuel path contents).on s).2.respelled)
  -- A file is scoped with less fuel when another one is composed of it.
  induction fuel generalizing path contents s
  case zero => rfl
  case succ fuel ih =>
    cases hs : s.slots.get? path
    case some slot =>
      cases slot
      case pending => rw [scopeFile_pending_on hs, scopeFile_pending_on (s := s.respelled) hs]; rfl
      case done    => rw [scopeFile_done_on hs, scopeFile_done_on (s := s.respelled) hs]
    case none =>
      have hbody : (scopeBody (p.camelCased hash) fuel path contents).on (s.respelled.enter path) =
          (((scopeBody p fuel path contents).on (s.enter path)).1,
            ((scopeBody p fuel path contents).on (s.enter path)).2.respelled) := by
        have htext : (textOf (p.camelCased hash) path contents).on (s.respelled.enter path) =
            (((textOf p path contents).on (s.enter path)).1, ((textOf p path contents).on (s.enter path)).2.respelled) :=
          textOf_respelled (s.enter path) hash contents
        unfold scopeBody
        rw [on_bind, on_bind, htext]
        rcases (textOf p path contents).on (s.enter path) with ⟨e | text, t⟩
        case error => rfl
        case ok    => exact scopeText_respelled (fun path s => ih path none s) text
      rw [scopeFile_none_on hs, scopeFile_none_on (s := s.respelled) hs, hbody]
      rfl

-- A file that is scoped exports its names respelled.
theorem scope_respelled (s : Session) (source : Source) (hash : String) (hc : p.settings.options.camelCase = false) :
    (scope (p.camelCased hash) source.respelled).on s.respelled =
      (((scope p source).on s).1.map Source.respelled, ((scope p source).on s).2.respelled) := by
  have hleft : isLeft (p.camelCased hash) source.respelled = isLeft p source := rfl
  rw [scope_on, scope_on, hleft]
  split
  case isTrue => rfl
  case isFalse =>
    have hfuel : maxChain (p.camelCased hash) s.respelled = maxChain p s := by
      unfold maxChain
      change (s.registry.sources.mapValues _).size + _ + _ = _
      rw [Dict.size_mapValues]
      rfl
    have hrun : (Visit.top (p.camelCased hash) s.respelled source.respelled).run (p.camelCased hash) =
        (((Visit.top p s source).run p).1, ((Visit.top p s source).run p).2.respelled) := by
      unfold Visit.run Visit.top
      rw [hfuel]
      exact scopeFile_respelled _ _ _ s
    rw [hrun]
    rcases (Visit.top p s source).run p with ⟨e | r, t⟩
    case error => rfl
    case ok =>
      have hscoped : source.respelled.scopedAs (p.camelCased hash) r = (source.scopedAs p r).respelled := by
        unfold Source.scopedAs Source.respelled exportTokens
        simp only [hc, Project.camelCased]
        rfl
      dsimp only
      rw [hscoped]
      unfold Session.respelled
      dsimp only
      rw [Registry.insert, Registry.insert, ← Registry.insertAt_respelled]
      rfl

theorem scopePlain_respelled (hc : p.settings.options.camelCase = false) :
    (scopePlain (p.camelCased hash) source.respelled).on s.respelled =
      (((scopePlain p source).on s).1.map Source.respelled, ((scopePlain p source).on s).2.respelled) := by
  have hscope : (scope (p.camelCased hash) source.respelled).on { s.respelled with preprocessors := [] } =
      (((scope p source).on { s with preprocessors := [] }).1.map Source.respelled,
        ((scope p source).on { s with preprocessors := [] }).2.respelled) :=
    scope_respelled { s with preprocessors := [] } source hash hc
  rw [scopePlain_on, scopePlain_on, hscope]
  rfl

end SessionM

namespace Request

open SessionM

variable {p : Project} {hash : String} {s : Session}

def respelled : Request → Request
  | insert source       => insert source.respelled
  | load path           => load path
  | equip preprocessors => equip preprocessors
  | render index source => render index source.respelled
  | scopePlain source   => scopePlain source.respelled
  | scope source        => scope source.respelled

-- What a request answers, where it is for a file.
def answer? (p : Project) (s : Session) : Request → Option (Except Error Source)
  | load path           => some ((s.registry.fetch p.disk path).map Prod.fst)
  | render index source => some ((SessionM.render p index source).on s).1
  | scopePlain source   => some ((SessionM.scopePlain p source).on s).1
  | scope source        => some ((SessionM.scope p source).on s).1
  | _                   => none

def answers (p : Project) : Session → List Request → List (Option (Except Error Source))
  | _, []              => []
  | s, request :: rest => request.answer? p s :: answers p (request.run p s) rest

theorem answer?_respelled (hc : p.settings.options.camelCase = false) (request : Request) :
    request.respelled.answer? (p.camelCased hash) s.respelled =
      (request.answer? p s).map (Except.map Source.respelled) := by
  cases request
  case load path =>
    have hfetch : s.respelled.registry.fetch (p.camelCased hash).disk path =
        (s.registry.fetch p.disk path).map fun (source, r) => (source.respelled, r.respelled) :=
      Registry.fetch_respelled _
    change some ((s.respelled.registry.fetch (p.camelCased hash).disk path).map Prod.fst) = _
    rw [hfetch, answer?]
    cases s.registry.fetch p.disk path <;> rfl
  case render     => exact congrArg (fun outcome => some outcome.1) (render_respelled ..)
  case scopePlain => exact congrArg (fun outcome => some outcome.1) (scopePlain_respelled hc)
  case scope      => exact congrArg (fun outcome => some outcome.1) (scope_respelled _ _ _ hc)
  all_goals rfl

theorem run_respelled (hc : p.settings.options.camelCase = false) (request : Request) :
    request.respelled.run (p.camelCased hash) s.respelled = (request.run p s).respelled := by
  cases request
  case insert source =>
    exact congrArg (fun registry => { s with registry }) (s.registry.insertAt_respelled source.path source)
  case load path =>
    have hfetch : s.respelled.registry.fetch (p.camelCased hash).disk path =
        (s.registry.fetch p.disk path).map fun (source, r) => (source.respelled, r.respelled) :=
      Registry.fetch_respelled _
    unfold run respelled
    dsimp only
    rw [hfetch]
    cases s.registry.fetch p.disk path <;> rfl
  case render     => exact congrArg Prod.snd (render_respelled ..)
  case scopePlain => exact congrArg Prod.snd (scopePlain_respelled hc)
  case scope      => exact congrArg Prod.snd (scope_respelled _ _ _ hc)
  all_goals rfl

theorem runAll_respelled (hc : p.settings.options.camelCase = false) (requests : List Request) (s : Session) :
    runAll (p.camelCased hash) s.respelled (requests.map respelled) = (runAll p s requests).respelled := by
  induction requests generalizing s
  case nil => rfl
  case cons request requests ih =>
    rw [List.map_cons, runAll, run_respelled hc, ih, runAll]

theorem answers_respelled (hc : p.settings.options.camelCase = false) (requests : List Request) (s : Session) :
    answers (p.camelCased hash) s.respelled (requests.map respelled) =
      (answers p s requests).map (Option.map (Except.map Source.respelled)) := by
  induction requests generalizing s
  case nil => rfl
  case cons request requests ih =>
    rw [List.map_cons, answers, answer?_respelled hc, run_respelled hc, ih, answers, List.map_cons]

-- What is answered in a project that exports its names in camelCase, next to what is answered in one that exports
-- them as they are: the exported names are respelled, and nothing else. Files that have been answered before may be
-- asked for again.
structure Respells (off on : Project) (arch : String) (requests : List Request) : Prop where
  answers : answers on (.start (.ofSettings on.settings arch) []) (requests.map respelled) =
    (answers off (.start (.ofSettings off.settings arch) []) requests).map (Option.map (Except.map Source.respelled))
  results : ∀ q, (runAll on (.start (.ofSettings on.settings arch) []) (requests.map respelled)).resultOf q =
    (runAll off (.start (.ofSettings off.settings arch) []) requests).resultOf q
  imports : ∀ q, (runAll on (.start (.ofSettings on.settings arch) []) (requests.map respelled)).importsOf q =
    (runAll off (.start (.ofSettings off.settings arch) []) requests).importsOf q

theorem respells (hc : p.settings.options.camelCase = false) (arch : String) (requests : List Request) :
    Respells p (p.camelCased hash) arch requests where
  answers   := answers_respelled hc requests (.start (.ofSettings p.settings arch) [])
  results q := congrArg (·.resultOf q) (runAll_respelled hc requests (.start (.ofSettings p.settings arch) []))
  imports q := congrArg (·.importsOf q) (runAll_respelled hc requests (.start (.ofSettings p.settings arch) []))

end Request

-- The project of some options.
def Options.project (o : Options) (disk : Disk) (base : String) (renderers : Renderers) : Except Error Project :=
  (o.settle disk base renderers).bind (Project.make disk)

-- Options settle in the same way, whatever names are exported in the end.
theorem Options.project_camelCase (o : Options) (disk : Disk) (base : String) (renderers : Renderers) :
    ∃ hash : Project → String, { o with camelCase := true }.project disk base renderers =
      ({ o with camelCase := false }.project disk base renderers).map fun p : Project => p.camelCased (hash p) := by
  refine ⟨fun p => fingerprint ({ o with camelCase := true }.hashedText p.settings.prelude), ?_⟩
  unfold project settle
  generalize String.ofList (Text.dropWhileEnd (· == '/') (Path.forwardSlashes base).toList) = base
  have hprelude (camelCase : Bool) : { o with camelCase }.prelude disk base = o.prelude disk base := rfl
  dsimp only
  rw [hprelude true, hprelude false]
  cases o.prelude disk base
  case error => rfl
  cases Pattern.compile ignoredByDefault ""
  case ok.error => rfl
  cases o.ignored.mapM PatternSpec.compile
  case ok.ok.error => rfl
  cases o.included.mapM PatternSpec.compile
  case ok.ok.ok.error => rfl
  cases o.passthrough.mapM PatternSpec.compile
  case ok.ok.ok.ok.error => rfl
  cases o.replacements.mapM ReplacementSpec.compile
  case ok.ok.ok.ok.ok.error => rfl
  case ok.ok.ok.ok.ok.ok prelude always ignored included passthrough replacements =>
    change Project.make disk _ = (Project.make disk _).map _
    unfold Project.make
    dsimp only
    cases Naming.make base replacements o.template <;> rfl

theorem Options.settle_options {o : Options} {disk : Disk} {base : String} {renderers : Renderers} {s : Settings}
    (h : o.settle disk base renderers = .ok s) : s.options = o := by
  unfold settle at h
  simp only [bind, Except.bind] at h
  repeat' split at h
  all_goals cases h
  rfl

theorem Options.project_options {o : Options} {disk : Disk} {base : String} {renderers : Renderers} {p : Project}
    (h : o.project disk base renderers = .ok p) : p.settings.options = o := by
  unfold project at h
  cases hs : o.settle disk base renderers
  all_goals rw [hs] at h
  case error => cases h
  case ok settings =>
    unfold Except.bind Project.make at h
    dsimp only at h
    cases hn : Naming.make settings.base settings.replacements settings.options.template
    all_goals
      rw [hn] at h
      cases h
    exact settle_options hs

-- Exporting names in camelCase changes the names that are exported, and nothing else.
theorem camelCase_respells_exports (o : Options) (disk : Disk) (base : String) (renderers : Renderers) :
    (match { o with camelCase := false }.project disk base renderers,
        { o with camelCase := true }.project disk base renderers with
      | .error e, .error e' => e = e'
      | .ok off, .ok on     => ∀ arch requests, Request.Respells off on arch requests
      | _, _                => False) ∧
    (∀ tokens : Tokens, tokens.camelCased.keys = (tokens.keys.map Text.camelCase).eraseDups ∧
      ∀ k, tokens.camelCased.get? k =
        (tokens.entries.map fun (own, names) => (Text.camelCase own, names)).reverse.lookup k) ∧
    ∀ source : Source, source.tokens = none → source.respelled = source := by
  refine ⟨?_, fun tokens => ⟨?_, Dict.get?_ofList _⟩, fun source => Source.respelled_eq⟩
  case refine_1 =>
    have ⟨hash, hon⟩ := o.project_camelCase disk base renderers
    rw [hon]
    cases hoff : { o with camelCase := false }.project disk base renderers
    case error => rfl
    case ok off =>
      have hc : off.settings.options.camelCase = false := by rw [Options.project_options hoff]
      exact fun arch requests => Request.respells hc arch requests
  case refine_2 =>
    rw [Tokens.camelCased, Dict.keys_ofList, List.map_map, Dict.keys, List.map_map]
    rfl

end ScopedCss
