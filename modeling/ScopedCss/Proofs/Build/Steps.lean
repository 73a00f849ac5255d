import ScopedCss.Proofs.Build.Handed

namespace ScopedCss

open SessionM

-- The canonical path of an input.
def Input.path (i : Input) (s : Settings) : String :=
  (i.source s i.contents).path

-- The state with another session, in which everything that was logged has been passed on.
def BuildState.withSession (b : BuildState) (t : Session) : BuildState :=
  { b with session := { t with log := [] }, workspace := { b.workspace with log := b.workspace.log ++ t.log } }

namespace BuildM

variable {α : Type} {b : BuildState}

theorem run_bind {β : Type} (act : BuildM α) (f : α → BuildM β) (b : BuildState) :
    (act >>= f).run b = (f (act.run b).1).run (act.run b).2 :=
  rfl

theorem run_get (b : BuildState) : (get : BuildM BuildState).run b = (b, b) :=
  rfl

theorem session_run (act : SessionM α) (b : BuildState) :
    (session act).run b = ((act.on b.session).1, b.withSession (act.on b.session).2) :=
  rfl

theorem reuse_run {path key : String} {r : Option Compiled} {w : Workspace} {s : Session}
    (h : ((Workspace.reuse path key (hashOf b.workspace.disk)).run b.workspace).run b.session = ((r, w), s)) :
    (reuse path key).run b = (r, { b with workspace := w, session := s }) := by
  have hr : (reuse path key).run b =
      (fun x : (Option Compiled × Workspace) × Session =>
        (x.1.1, { b with workspace := x.1.2, session := x.2 }))
      (((Workspace.reuse path key (hashOf b.workspace.disk)).run b.workspace).run b.session) := rfl
  rw [hr, h]

-- Taking fingerprints does nothing but read files, one after another.
theorem hashes_run {P : BuildState → Prop} {current : String → Option String} (paths : List String)
    (step : ∀ path ∈ paths, ∀ b', P b' →
      ((hashOf b.workspace.disk path).run b'.session).1 = current path ∧
        P { b' with session := ((hashOf b.workspace.disk path).run b'.session).2 })
    (hb : P b) :
    ((hashes paths).run b).1 = .ofList (paths.filterMap fun q => (current q).map (q, ·)) ∧
      P ((hashes paths).run b).2 := by
  let read (path : String) : BuildM (Option (String × String)) := modifyGet fun b' =>
    let hashed := (hashOf b.workspace.disk path).run b'.session
    (hashed.1.map (path, ·), { b' with session := hashed.2 })
  have hloop (paths : List String) (found : List (String × String)) (b' : BuildState)
      (step : ∀ path ∈ paths, ∀ b', P b' →
        ((hashOf b.workspace.disk path).run b'.session).1 = current path ∧
          P { b' with session := ((hashOf b.workspace.disk path).run b'.session).2 })
      (h : P b') :
      ((List.filterMapM.loop read paths found).run b').1 =
          found.reverse ++ paths.filterMap (fun q => (current q).map (q, ·)) ∧
        P ((List.filterMapM.loop read paths found).run b').2 := by
    induction paths generalizing found b'
    case nil => exact ⟨(List.append_nil _).symm, h⟩
    case cons path paths ih =>
      obtain ⟨hc, hp⟩ := step path (.head _) b' h
      have hrest (path : String) (hm : path ∈ paths) := step path (.tail _ hm)
      have hread : ((read path).run b').1 = (current path).map (path, ·) :=
        congrArg (fun hash : Option String => hash.map (path, ·)) hc
      rw [List.filterMapM.loop, run_bind, hread, List.filterMap_cons]
      cases current path
      case none   => exact ih found _ hrest hp
      case some x =>
        obtain ⟨hl, hq⟩ := ih ((path, x) :: found) _ hrest hp
        rw [List.reverse_cons, List.append_assoc] at hl
        exact ⟨hl, hq⟩
  obtain ⟨hf, hp⟩ := hloop paths [] b step hb
  exact ⟨congrArg SortedDict.ofList hf, hp⟩

end BuildM

namespace Compiler

variable (c : Compiler) (p : Project) (u : BuildUnit) (i : Input)

-- What the cache is asked for when an input is built.
def keyFor (i : Input) : String :=
  CacheEntry.keyOf c.settings.hash (fingerprint i.contents)

def reusing (i : Input) : BuildM (Option Compiled) :=
  BuildM.reuse (i.path c.settings) (c.keyFor i)

-- What preparing a unit comes to.
inductive Prepares (b : BuildState) : Option Prepared × BuildState → Prop
  | skipped {b' : BuildState} :
    Role.of b.session.preprocessors (i.source c.settings i.contents) = .partialFile →
    b.Same b' → Prepares b (none, b')
  | answered {r : Compiled} {b₁ b' : BuildState} :
    Role.of b.session.preprocessors (i.source c.settings i.contents) ≠ .partialFile →
    (c.reusing i).run b = (some r, b₁) →
    BuildState.Hands c u i (.ok r) b₁ b' → Prepares b (none, b')
  | refused {e : Error} {b₁ b' : BuildState} {t : Session} :
    Role.of b.session.preprocessors (i.source c.settings i.contents) ≠ .partialFile →
    (c.reusing i).run b = (none, b₁) →
    (render { p with disk := b₁.workspace.disk }
      (Role.of b.session.preprocessors (i.source c.settings i.contents))
      (i.source c.settings i.contents)).on b₁.session = (.error e, t) →
    BuildState.Hands c u i (.error e) (b₁.withSession t) b' → Prepares b (none, b')
  | rendered {source : Source} {b₁ : BuildState} {t : Session} :
    Role.of b.session.preprocessors (i.source c.settings i.contents) ≠ .partialFile →
    (c.reusing i).run b = (none, b₁) →
    (render { p with disk := b₁.workspace.disk }
      (Role.of b.session.preprocessors (i.source c.settings i.contents))
      (i.source c.settings i.contents)).on b₁.session = (.ok source, t) →
    Prepares b (some ⟨source, c.keyFor i⟩, b₁.withSession t)

variable {c p u i}

theorem prepare_eq (b : BuildState) :
    (c.prepare p u i).run b =
      if Role.of b.session.preprocessors (i.source c.settings i.contents) = .partialFile then
        (none, { b with report := { b.report with skipped := b.report.skipped + 1 } })
      else
        match (c.reusing i).run b with
        | (some r, b₁) =>
          match (c.emitUnit u i r).run b₁ with
          | (.ok (), b₂)   => (none, { b₂ with report := { b₂.report with cached := b₂.report.cached + 1 } })
          | (.error e, b₂) => (none, ((BuildM.fail u i e).run b₂).2)
        | (none, b₁)   =>
          match (render { p with disk := b₁.workspace.disk }
            (Role.of b.session.preprocessors (i.source c.settings i.contents))
            (i.source c.settings i.contents)).on b₁.session with
          | (.ok source, t) => (some ⟨source, c.keyFor i⟩, b₁.withSession t)
          | (.error e, t)   => (none, ((BuildM.fail u i e).run (b₁.withSession t)).2) := by
  unfold prepare
  dsimp only
  rw [BuildM.run_bind, BuildM.run_get]
  change (if Role.of b.session.preprocessors (i.source c.settings i.contents) =
    .partialFile then _ else _ : BuildM (Option Prepared)).run b = _
  split
  case isTrue => rfl
  case isFalse =>
    have hreuse : BuildM.reuse (i.source c.settings i.contents).path
        (CacheEntry.keyOf c.settings.hash (fingerprint i.contents)) = c.reusing i := rfl
    rw [BuildM.run_bind, hreuse]
    rcases (c.reusing i).run b with ⟨_ | r, b₁⟩
    case some =>
      dsimp only
      rw [BuildM.run_bind]
      rcases (c.emitUnit u i r).run b₁ with ⟨e | ⟨⟩, b₂⟩ <;> rfl
    case none =>
      dsimp only
      rw [BuildM.run_bind, BuildM.run_get, BuildM.run_bind, BuildM.session_run]
      dsimp only
      rcases (render { p with disk := b₁.workspace.disk }
        (Role.of b.session.preprocessors (i.source c.settings i.contents))
        (i.source c.settings i.contents)).on b₁.session with ⟨e | source, t⟩ <;> rfl

theorem prepare_run (b : BuildState) : c.Prepares p u i b ((c.prepare p u i).run b) := by
  rw [prepare_eq]
  split
  case isTrue hrole => exact .skipped hrole ⟨rfl, rfl, rfl, rfl⟩
  case isFalse hrole =>
    rcases hr : (c.reusing i).run b with ⟨_ | r, b₁⟩
    case some =>
      dsimp only
      rcases he : (c.emitUnit u i r).run b₁ with ⟨e | ⟨⟩, b₂⟩
      case error => exact .answered hrole hr (BuildM.emitUnit_fail_hands he)
      case ok    =>
        obtain ⟨hsame, hfiles⟩ := BuildM.emitUnit_hands he
        exact .answered hrole hr ⟨hsame.trans ⟨rfl, rfl, rfl, rfl⟩, hfiles⟩
    case none =>
      dsimp only
      rcases hs : (render { p with disk := b₁.workspace.disk }
        (Role.of b.session.preprocessors (i.source c.settings i.contents))
        (i.source c.settings i.contents)).on b₁.session with ⟨e | source, t⟩
      case error => exact .refused hrole hr hs (BuildM.fail_hands e)
      case ok    => exact .rendered hrole hr hs

-- What is remembered of a unit that has been scoped.
def entryFor (c : Compiler) (prepared : Prepared) (source : Source) (dependencies : SortedDict String) :
    CacheEntry :=
  ⟨prepared.source.path, prepared.key, .ofSource source (c.settings.isClient source.arch), dependencies⟩

-- What scoping a source comes to when it is a unit of its own.
def compiled (c : Compiler) (outcome : Except Error Source) : Except Error Compiled :=
  outcome.map fun source => .ofSource source (c.settings.isClient source.arch)

-- What scoping a unit comes to. A result that there is no path for is not remembered.
inductive Finishes (c : Compiler) (p : Project) (u : BuildUnit) (i : Input) (prepared : Prepared)
    (b : BuildState) : BuildState → Prop
  | unkept {outcome : Except Error Source} {b' : BuildState} {t : Session} :
    (SessionM.scope { p with disk := b.workspace.disk } prepared.source).on b.session = (outcome, t) →
    BuildState.Hands c u i (c.compiled outcome) (b.withSession t) b' → Finishes c p u i prepared b b'
  | kept {source : Source} {b₁ b₂ b' : BuildState} {t : Session} {dependencies : SortedDict String} :
    (SessionM.scope { p with disk := b.workspace.disk } prepared.source).on b.session = (.ok source, t) →
    BuildState.Hands c u i (c.compiled (.ok source)) (b.withSession t) b₁ →
    (BuildM.hashes source.references.keys).run b₁ = (dependencies, b₂) →
    b' = { b₂ with
      workspace := b₂.workspace.remember (c.entryFor prepared source dependencies)
      report    := { b₂.report with compiled := b₂.report.compiled + 1 } } →
    Finishes c p u i prepared b b'

theorem finish_eq (prepared : Prepared) (b : BuildState) :
    (c.finish p u i prepared).run b =
      match (SessionM.scope { p with disk := b.workspace.disk } prepared.source).on b.session with
      | (.error e, t)   => (BuildM.fail u i e).run (b.withSession t)
      | (.ok source, t) =>
        match (c.emitUnit u i (.ofSource source (c.settings.isClient source.arch))).run (b.withSession t) with
        | (.error e, b₁) => (BuildM.fail u i e).run b₁
        | (.ok (), b₁)   =>
          let hashed := (BuildM.hashes source.references.keys).run b₁
          ((), { hashed.2 with
            workspace := hashed.2.workspace.remember (c.entryFor prepared source hashed.1)
            report    := { hashed.2.report with compiled := hashed.2.report.compiled + 1 } }) := by
  unfold finish
  dsimp only
  rw [BuildM.run_bind, BuildM.run_get, BuildM.run_bind, BuildM.session_run]
  dsimp only
  rcases (SessionM.scope { p with disk := b.workspace.disk } prepared.source).on b.session with ⟨e | source, t⟩
  case error => rfl
  case ok =>
    dsimp only
    rw [BuildM.run_bind]
    rcases (c.emitUnit u i (.ofSource source (c.settings.isClient source.arch))).run (b.withSession t)
      with ⟨e | ⟨⟩, b₁⟩ <;> rfl

theorem finish_run (prepared : Prepared) (b : BuildState) :
    c.Finishes p u i prepared b ((c.finish p u i prepared).run b).2 := by
  rw [finish_eq]
  rcases hs : (SessionM.scope { p with disk := b.workspace.disk } prepared.source).on b.session
    with ⟨e | source, t⟩
  case error => exact .unkept hs (BuildM.fail_hands e)
  case ok =>
    dsimp only
    rcases he : (c.emitUnit u i (.ofSource source (c.settings.isClient source.arch))).run (b.withSession t)
      with ⟨e | ⟨⟩, b₁⟩
    case error => exact .unkept hs (BuildM.emitUnit_fail_hands he)
    case ok    => exact .kept hs (BuildM.emitUnit_hands he) rfl rfl

theorem prepareAll_cons_run (rest : List BuildUnit) (b : BuildState) :
    (c.prepareAll p (u :: rest)).run b =
      match u.input? b.files with
      | none   => (c.prepareAll p rest).run b
      | some i =>
        ((((c.prepare p u i).run b).1.map (u, i, ·)).toList ++
            ((c.prepareAll p rest).run ((c.prepare p u i).run b).2).1,
          ((c.prepareAll p rest).run ((c.prepare p u i).run b).2).2) := by
  rw [prepareAll, BuildM.run_bind, BuildM.run_get]
  dsimp only
  cases u.input? b.files <;> rfl

theorem finishAll_cons_run (rest : List (BuildUnit × Input × Prepared)) (prepared : Prepared)
    (b : BuildState) :
    (c.finishAll p ((u, i, prepared) :: rest)).run b =
      (c.finishAll p rest).run ((c.finish p u i prepared).run b).2 :=
  rfl

end Compiler

end ScopedCss
