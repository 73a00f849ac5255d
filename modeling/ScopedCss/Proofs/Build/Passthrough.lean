import ScopedCss.Proofs.Build.Deliveries

namespace ScopedCss

open SessionM

-- No preprocessor is for the file.
def Unowned (preprocessors : List Preprocessor) (source : Source) : Prop :=
  ∀ q ∈ preprocessors, q.owns source = false

theorem Role.of_unowned {preprocessors : List Preprocessor} {source : Source} (h : Unowned preprocessors source) :
    Role.of preprocessors source = .plain := by
  have hroot : preprocessors.findIdx? (fun q => q.owns source && source.isRoot) = none := by
    rw [List.findIdx?_eq_none_iff]
    intro q hq
    rw [h q hq]
    rfl
  have hany : preprocessors.any (·.owns source) = false :=
    List.any_eq_false.2 fun q hq => Bool.eq_false_iff.1 (h q hq)
  simp [Role.of, hroot, hany]

-- Rendering a file does not change what its preprocessor is for.
theorem Preprocessor.render_owns (q : Preprocessor) (s : Settings) (disk : Disk) (registry : Registry)
    (source other : Source) : (q.render s disk registry source).preprocessor.owns other = q.owns other := by
  cases hr : source.isRendered
  case true => rw [render_isRendered hr]
  case false =>
    rw [render_eq hr]
    rcases q.rendered s disk registry source with ⟨e | css, l⟩ <;> rfl

namespace Compiler

variable {c : Compiler} {p : Project} {b : BuildState} {u : BuildUnit} {i : Input} {f : HostFile}
  {pre : List Preprocessor}

theorem render_unowned {role : Role} {source other : Source} {s : Session} (h : Unowned s.preprocessors other) :
    Unowned ((render p role source).on s).2.preprocessors other := by
  cases role
  case root index =>
    unfold render
    rw [render_on]
    cases hq : s.preprocessors[index]?
    case none => exact h
    case some q =>
      intro q' hm
      rcases List.mem_or_eq_of_mem_set hm with hm | rfl
      · exact h q' hm
      · rw [Preprocessor.render_owns]
        exact h q (List.mem_of_getElem? hq)
  all_goals exact h

-- A file that is let through as it is, on its way to clients.
structure LetsThrough (c : Compiler) (pre : List Preprocessor) (i : Input) : Prop where
  unowned : Unowned pre (i.source c.settings i.contents)
  matched : Pattern.anyMatch c.settings.passthrough (i.path c.settings) = true

-- The first pass of a first build, in which no file has come to be owned.
structure Unclaimed (p : Project) (pre : List Preprocessor) (b : BuildState) : Prop where
  fresh   : Fresh p b
  unowned : ∀ source, Unowned pre source → Unowned b.session.preprocessors source

-- What such a file is delivered.
def passed (c : Compiler) (u : BuildUnit) (i : Input) : Delivery :=
  c.delivery u i (.ok (.ofSource (i.source c.settings i.contents) (c.settings.isClient i.arch))) .compiled

theorem prepare_unclaimed (h : Unclaimed p pre b) : Unclaimed p pre ((c.prepare p u i).run b).2 where
  fresh          := (h.fresh.prepare).1
  unowned source hs := by
    have hb := h.unowned source hs
    have hrun := prepare_run (c := c) (p := p) (u := u) (i := i) b
    generalize (c.prepare p u i).run b = result at hrun
    cases hrun
    case skipped hsame => exact hsame.session ▸ hb
    case answered hr _ =>
      rw [h.fresh.reusing] at hr
      cases hr
    case refused hr hrender hands =>
      rw [h.fresh.reusing] at hr
      cases hr
      have ht := congrArg (fun x => Unowned x.2.preprocessors source) hrender
      exact hands.same.session ▸ ht ▸ render_unowned hb
    case rendered hr hrender =>
      rw [h.fresh.reusing] at hr
      cases hr
      have ht := congrArg (fun x => Unowned x.2.preprocessors source) hrender
      exact ht ▸ render_unowned hb

-- It is not rendered, ...
theorem prepare_passed (h : Unclaimed p pre b) (hi : c.LetsThrough pre i) :
    (c.prepare p u i).run b =
      (some ⟨i.source c.settings i.contents, c.keyFor i⟩, b.withSession b.session) := by
  rw [prepare_eq, Role.of_unowned (h.unowned _ hi.unowned), h.fresh.reusing]
  rfl

-- ... and not scoped.
theorem scope_passed (hp : p.settings = c.settings) (hi : c.LetsThrough pre i) (s : Session) :
    ((SessionM.scope p (i.source c.settings i.contents)).on s).1 = .ok (i.source c.settings i.contents) := by
  have hleft : isLeft p (i.source c.settings i.contents) = true := by
    rw [isLeft, passesThrough, hp]
    exact Bool.or_eq_true_iff.2 (.inl hi.matched)
  rw [Request.scope_left hleft]

-- The steps of a first build. A file that is let through is delivered as it is.
theorem steps_passed (hp : p.settings = c.settings) :
    c.Steps p (Unclaimed p pre) (fun _ => True)
      (fun u => c.LetsThrough pre u.input → u.source = u.input.source c.settings u.input.contents)
      (fun i d => c.Delivered i d ∧ (c.LetsThrough pre i → d = c.passed d.unit i)) where
  prepare {b u i} hb hi := by
    refine ⟨prepare_unclaimed hb, ?_⟩
    by_cases hl : c.LetsThrough pre i
    case pos =>
      rw [prepare_passed hb hl]
      exact .ready (fun _ => rfl) (.of_eq rfl rfl)
    case neg =>
      have hpass := prepare_passes (c := c) (p := p) hi
      generalize (c.prepare p u i).run b = result at hpass
      cases hpass
      case delivered hunit hd hone => exact .delivered hunit ⟨hd, fun h => absurd h hl⟩ hone
      case ready hnone             => exact .ready (fun h => absurd h hl) hnone
  turn _ := trivial
  finish {b u} _ hi hr := by
    refine ⟨trivial, _, rfl, ⟨.compiled .., fun hl => ?_⟩, finish_delivers hi u.2.2⟩
    have hsource : u.2.2.source = u.input.source c.settings u.input.contents := hr hl
    have hp' : { p with disk := b.workspace.disk }.settings = c.settings := hp
    rw [hsource, scope_passed hp' hl]
    rfl

-- The preprocessors of a build are those of its settings.
theorem plan_preprocessors {disk : Disk} {files : List HostFile} {plan : Plan} (h : c.plan disk files = .ok plan) :
    plan.project.settings = c.settings ∧
      Preprocessor.ofSettings c.settings c.renderers = .ok plan.session.preprocessors := by
  unfold Compiler.plan startSession at h
  dsimp only at h
  cases hpre : Preprocessor.ofSettings c.settings c.renderers
  all_goals rw [hpre] at h
  case error => cases h
  case ok preprocessors =>
    unfold Project.make at h
    cases hn : Naming.make c.settings.base c.settings.replacements c.settings.options.template
    all_goals rw [hn] at h
    case error => cases h
    case ok naming =>
      dsimp only [bind, Except.bind, pure, Except.pure] at h
      split at h
      case h_1 => cases h
      case h_2 =>
        cases h
        exact ⟨rfl, rfl⟩

theorem start_unclaimed {disk : Disk} {files : List HostFile} {plan : Plan} (h : c.plan disk files = .ok plan) :
    Unclaimed plan.project plan.session.preprocessors (plan.start (.inMemory disk) files) where
  fresh       := (FirstBuild.mk c disk files plan h).start_fresh
  unowned _   := id

end Compiler

-- A file that is handed a delivery.
def Delivery.to (f : HostFile) (d : Delivery) : HostFile :=
  f.hand d.handed

namespace Compiler

variable {c : Compiler} {files files' : List HostFile} {found : List IncludedFile} {ds : List Delivery} {n : Nat}
  {f : HostFile} {disk : Disk} {report : BuildReport} {w' : Workspace}

-- Each file is handed the deliveries that it is the handle for, one after another.
theorem getElem?_give (ds : List Delivery) (files : List HostFile) (n : Nat) :
    (ds.foldl Delivery.give files)[n]? =
      files[n]?.map fun f => (ds.filter (·.unit.handle = n)).foldl Delivery.to f := by
  induction ds generalizing files
  case nil => simp
  case cons d ds ih =>
    rw [List.foldl_cons, ih, Delivery.give, List.getElem?_modify]
    by_cases hn : d.unit.handle = n
    case pos =>
      cases files[n]? <;> simp [hn, Delivery.to]
    case neg =>
      cases files[n]? <;> simp [hn]

theorem count_unitsOf (hn : n ∈ c.kept files) : (c.unitsOf files found).count (.host n) = 1 := by
  have hinj : Function.Injective BuildUnit.host := fun _ _ h => by
    cases h
    rfl
  have hincluded (l : List IncludedFile) (backing : Nat) :
      (l.map (BuildUnit.included · backing)).count (.host n) = 0 := by
    refine List.count_eq_zero.2 fun hm => ?_
    obtain ⟨_, _, he⟩ := List.mem_map.1 hm
    cases he
  rw [unitsOf, List.count_append, hincluded, List.count_map_of_injective _ _ hinj]
  exact List.count_eq_one_of_mem kept_nodup hn

-- A file that was asked for has a delivery of its own. The others that it is the handle for are those of
-- included files.
theorem own_delivery (hu : (ds.map Delivery.unit).Perm (c.unitsOf files found)) (hn : n ∈ c.kept files) :
    ∃ own before after, ds.filter (·.unit.handle = n) = before ++ own :: after ∧ own.unit = .host n ∧
      ∀ d ∈ before ++ after, ∃ file, d.unit = .included file n := by
  have hcount : ((ds.filter (·.unit.handle = n)).map Delivery.unit).count (.host n) = 1 := by
    rw [← count_unitsOf hn, ← hu.count_eq, List.count_eq_countP, List.count_eq_countP, List.countP_map,
      List.countP_filter, List.countP_map]
    refine List.countP_congr fun d _ => ?_
    have hhandle : d.unit = .host n → d.unit.handle = n := fun h => by rw [h]; rfl
    simpa using hhandle
  obtain ⟨own, hm, hown⟩ := List.mem_map.1 (List.count_pos_iff.1 (hcount ▸ Nat.one_pos))
  obtain ⟨before, after, hsplit⟩ := List.append_of_mem hm
  rw [hsplit, List.map_append, List.map_cons, hown, List.count_append, List.count_cons_self] at hcount
  refine ⟨own, before, after, hsplit, hown, fun d hd => ?_⟩
  have hother : d.unit ≠ .host n := by
    intro he
    have hpos : 0 < ((before ++ after).map Delivery.unit).count (.host n) :=
      List.count_pos_iff.2 (List.mem_map.2 ⟨d, hd, he⟩)
    rw [List.map_append, List.count_append] at hpos
    omega
  have hhandle : d.unit.handle = n := by
    have hd' : d ∈ ds.filter (·.unit.handle = n) := by
      rw [hsplit]
      rcases List.mem_append.1 hd with hd | hd
      · exact List.mem_append_left _ hd
      · exact List.mem_append_right _ (.tail _ hd)
    simpa using (List.mem_filter.1 hd').2
  rcases hunit : d.unit with m | ⟨file, backing⟩
  all_goals rw [hunit] at hother hhandle
  case host     => exact absurd (congrArg BuildUnit.host hhandle) hother
  case included => exact ⟨file, congrArg (BuildUnit.included file) hhandle⟩

-- A file that passes through in a build for clients.
structure PassesThrough (c : Compiler) (f : HostFile) : Prop where
  client  : c.settings.isClient f.arch = true
  eager   : isLazyPath f.place = false
  kept    : c.settings.keeps f.place = true
  unowned : ∀ preprocessors, Preprocessor.ofSettings c.settings c.renderers = .ok preprocessors →
    Unowned preprocessors (f.source c.settings)
  matched : Pattern.anyMatch c.settings.passthrough (f.source c.settings).path = true

-- A style sheet with the text that is prepared of a file.
def preparedSheet (c : Compiler) (f : HostFile) (path : String) : SheetArtifact :=
  ⟨c.settings.withPrelude f.contents, path ++ ".css", path ++ ".css", none, false⟩

theorem passed_eq {path : String} (hf : c.PassesThrough f) (hn : c.settings.withPrelude f.contents ≠ "")
    (hp : c.settings.options.sheetPath.expand f.place = .ok path) (u : BuildUnit) :
    c.passed u (.ofHost f) = ⟨u, ⟨[c.preparedSheet f path], [], []⟩, .compiled⟩ := by
  let r : Compiled := .ofSource (f.source c.settings) (c.settings.isClient f.arch)
  -- It has no imports, no tokens, and no style sheet to add, so that there is nothing to be put in a script.
  have hscript : r.script (c.settings.isClient f.arch) = "" := by
    have hsheet : r.sheetCode = "" := by
      change (if isLazyPath f.place && _ && _ then _ else "") = ""
      rw [hf.eager]
      rfl
    have himports : r.importsCode = "" := rfl
    have htokens : r.tokensCode = "" := rfl
    simp [Compiled.script, hsheet, himports, htokens]
  have hartifacts : c.artifacts f.arch r = (.ok [c.preparedSheet f path], .ok []) := by
    have hcss : r.css = c.settings.withPrelude f.contents := rfl
    have hlazy : r.isLazy = false := hf.eager
    have hplace : c.settings.options.sheetPath.expand r.place = .ok path := hp
    unfold artifacts
    dsimp only
    rw [hscript, hf.client, hlazy, hplace, hcss]
    simp only [ne_eq, hn, not_false_eq_true, decide_true, Bool.and_self, Bool.not_false, if_true]
    rfl
  have hhanded : c.handed (.ofHost f) (.ok r) = ⟨[c.preparedSheet f path], [], []⟩ := by
    unfold handed
    dsimp only [Input.ofHost]
    rw [hartifacts]
  change c.delivery u (.ofHost f) (.ok r) .compiled = _
  unfold delivery
  rw [hhanded]
  rfl

-- A build without a cache hands the prepared text of a file that passes through back with it, and no script
-- and no error, whatever else is composed of it and wherever its turn comes.
theorem build_passes_through (h : c.build (.inMemory disk) files = (.ok report, files', w')) :
    ∃ found ds, c.Delivers files found c.Delivered ds report files' ∧
      ∀ n f path, files[n]? = some f → c.PassesThrough f → c.settings.withPrelude f.contents ≠ "" →
        c.settings.options.sheetPath.expand f.place = .ok path →
          let own : Delivery := ⟨.host n, ⟨[c.preparedSheet f path], [], []⟩, .compiled⟩
          ∃ before after, ds.filter (·.unit.handle = n) = before ++ own :: after ∧
            (∀ d ∈ before ++ after, ∃ file, d.unit = .included file n) ∧
              files'[n]? = some ((before ++ own :: after).foldl Delivery.to f) := by
  have hcache : c.startCache (.inMemory disk) = .inMemory disk := startCache_inMemory disk
  obtain ⟨plan, hp⟩ : ∃ plan, c.plan disk files = .ok plan := by
    unfold build at h
    rw [hcache] at h
    dsimp only [Workspace.inMemory] at h
    cases hp : c.plan disk files
    case ok plan => exact ⟨plan, rfl⟩
    case error =>
      rw [hp] at h
      cases h
  obtain ⟨hsettings, hpre⟩ := plan_preprocessors hp
  obtain ⟨found, -, ds, -, hd⟩ := Steps.build h fun plan' hp' => by
    rw [hcache] at hp' ⊢
    cases hp.symm.trans hp'
    exact ⟨steps_passed hsettings, start_unclaimed hp⟩
  refine ⟨found, ds, ⟨hd.units, fun d hm => ?_, hd.handed, hd.counted⟩, fun n f path hf hpass hn hpath => ?_⟩
  case refine_1 =>
    obtain ⟨i, hi, hdel, -⟩ := hd.delivered d hm
    exact ⟨i, hi, hdel⟩
  case refine_2 =>
    obtain ⟨own, before, after, hsplit, hunit, hothers⟩ := own_delivery hd.units ((mem_kept hf).2 hpass.kept)
    have hm : own ∈ ds.filter (·.unit.handle = n) := hsplit ▸ List.mem_append_right _ (.head _)
    obtain ⟨i, hi, -, hown⟩ := hd.delivered own (List.mem_of_mem_filter hm)
    have hi' : i = .ofHost f := by
      rw [hunit, BuildUnit.input?, BuildUnit.handle, hf] at hi
      exact (Option.some.inj hi).symm
    subst hi'
    have hown' : own = ⟨.host n, ⟨[c.preparedSheet f path], [], []⟩, .compiled⟩ := by
      rw [hown ⟨hpass.unowned _ hpre, hpass.matched⟩, hunit]
      exact passed_eq hpass hn hpath _
    refine ⟨before, after, hown' ▸ hsplit, hothers, ?_⟩
    rw [hd.handed, getElem?_give, hf, hsplit, hown']
    rfl

-- Options with a global variable, and a file that passes through with them.
def accented : Options where
  globalVariables := [.object [("accent", .string "red")]]
  passthrough     := [.text "b"]

def accenting : Compiler where
  settings  := (accented.settle .empty "" .builtin).toOption.getD bare.settings
  renderers := .builtin

def passedFile : HostFile :=
  .ofText "b.css" "web.browser" ".b \x7b color: red \x7d"

-- Results of runs on fixed inputs are compared as options, for which equality can be decided.
theorem eq_ok_of_toOption {α : Type} {x : Except Error α} {a : α} (h : x.toOption = some a) : x = .ok a := by
  cases x
  case error => cases h
  case ok    => exact congrArg Except.ok (Option.some.inj h)

theorem accented_settle : accented.settle .empty "" .builtin = .ok accenting.settings := by
  have hs : (accented.settle .empty "" .builtin).toOption.isSome = true := by decide +kernel
  obtain ⟨settings, hs⟩ := Option.isSome_iff_exists.1 hs
  rw [accenting, hs]
  exact eq_ok_of_toOption hs

theorem passesThrough_passedFile : accenting.PassesThrough passedFile where
  client  := by decide +kernel
  eager   := by decide +kernel
  kept    := by decide +kernel
  unowned preprocessors h := by
    have hnone :
        (Preprocessor.ofSettings accenting.settings accenting.renderers).toOption.map (·.length) = some 0 := by
      decide +kernel
    rw [h] at hnone
    obtain rfl : preprocessors = [] := List.eq_nil_of_length_eq_zero (Option.some.inj hnone)
    exact nofun
  matched := by decide +kernel

-- Another file is composed of it.
def accentedFiles : List HostFile :=
  [.ofText "a.css" "web.browser" ".a \x7b composes: b from './b.css' \x7d", passedFile]

theorem build_passes_through_composed :
    accenting.PassesThrough passedFile ∧ accenting.settings.withPrelude passedFile.contents ≠ "" ∧
      accenting.settings.options.sheetPath.expand passedFile.place = .ok "./b.css" ∧
        ∃ report files' w' before after,
          accenting.build (.inMemory .empty) accentedFiles = (.ok report, files', w') ∧
            let own : Delivery := ⟨.host 1, ⟨[accenting.preparedSheet passedFile "./b.css"], [], []⟩, .compiled⟩
            files'[1]? = some ((before ++ own :: after).foldl Delivery.to passedFile) := by
  have hn : accenting.settings.withPrelude passedFile.contents ≠ "" := by decide +kernel
  have hpath : accenting.settings.options.sheetPath.expand passedFile.place = .ok "./b.css" :=
    eq_ok_of_toOption (by decide +kernel)
  refine ⟨passesThrough_passedFile, hn, hpath, ?_⟩
  have hplans : (accenting.plan .empty accentedFiles).toOption.isSome = true := by decide +kernel
  obtain ⟨plan, hplan⟩ := Option.isSome_iff_exists.1 hplans
  let b : FirstBuild := ⟨accenting, .empty, accentedFiles, plan, eq_ok_of_toOption hplan⟩
  obtain ⟨_, _, -, hown⟩ := build_passes_through b.build_eq
  obtain ⟨before, after, -, -, hfiles⟩ := hown 1 passedFile "./b.css" rfl passesThrough_passedFile hn hpath
  exact ⟨b.final.report, b.final.files, b.final.workspace, before, after, b.build_eq, hfiles⟩

-- It is not the text that was supplied that is handed back then.
theorem not_passed_unmodified :
    accented.settle .empty "" .builtin = .ok accenting.settings ∧ accenting.PassesThrough passedFile ∧
      ∃ report files' w' data, accenting.build (.inMemory .empty) [passedFile] = (.ok report, files', w') ∧
        report.compiled = 1 ∧ files'.map (·.sheets.map (·.data)) = [[data]] ∧ data ≠ passedFile.contents := by
  have hrun : (match accenting.build (.inMemory .empty) [passedFile] with
      | (.ok report, files', _) => report.compiled == 1 &&
        files'.map (·.sheets.map (·.data)) == [["$accent: red;\n\n\n.b \x7b color: red \x7d"]]
      | (.error _, _)           => false) = true := by
    decide +kernel
  refine ⟨accented_settle, passesThrough_passedFile, ?_⟩
  generalize accenting.build (.inMemory .empty) [passedFile] = result at hrun
  rcases result with ⟨e | report, files', w'⟩
  case error => cases hrun
  case ok =>
    obtain ⟨hcompiled, hsheets⟩ := Bool.and_eq_true_iff.1 hrun
    exact ⟨report, files', w', _, rfl, beq_iff_eq.1 hcompiled, beq_iff_eq.1 hsheets, by decide +kernel⟩

end Compiler

end ScopedCss
