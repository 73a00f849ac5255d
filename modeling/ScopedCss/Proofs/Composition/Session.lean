import ScopedCss.Composition.Scoped
import ScopedCss.Proofs.Preprocessing

namespace ScopedCss

namespace SessionM

variable {α β : Type}

def on (act : SessionM α) (s : Session) : Except Error α × Session :=
  act.run.run s

@[simp]
theorem on_pure (a : α) (s : Session) : (pure a : SessionM α).on s = (.ok a, s) :=
  rfl

@[simp]
theorem on_throw (e : Error) (s : Session) : (throw e : SessionM α).on s = (.error e, s) :=
  rfl

@[simp]
theorem on_get (s : Session) : (get : SessionM Session).on s = (.ok s, s) :=
  rfl

@[simp]
theorem on_set (s t : Session) : (set t : SessionM PUnit).on s = (.ok ⟨⟩, t) :=
  rfl

@[simp]
theorem on_modify (f : Session → Session) (s : Session) :
    (modify f : SessionM PUnit).on s = (.ok ⟨⟩, f s) :=
  rfl

@[simp]
theorem on_attempt (act : SessionM α) (s : Session) :
    act.attempt.on s = (.ok (act.on s).1, (act.on s).2) :=
  rfl

@[simp]
theorem on_liftExcept (r : Except Error α) (s : Session) : (liftM r : SessionM α).on s = (r, s) := by
  cases r <;> rfl

theorem on_bind (act : SessionM α) (f : α → SessionM β) (s : Session) :
    (act >>= f).on s =
      match act.on s with
      | (.ok a, t)    => (f a).on t
      | (.error e, t) => (.error e, t) := by
  rw [on, Stateful.run_bind]
  unfold on
  rcases act.run.run s with ⟨e | a, t⟩ <;> rfl

theorem on_bind_ok {act : SessionM α} {f : α → SessionM β} {s t : Session} {a : α}
    (h : act.on s = (.ok a, t)) : (act >>= f).on s = (f a).on t := by
  rw [on_bind, h]

theorem on_bind_error {act : SessionM α} {f : α → SessionM β} {s t : Session} {e : Error}
    (h : act.on s = (.error e, t)) : (act >>= f).on s = (.error e, t) := by
  rw [on_bind, h]

end SessionM

-- Actions while the text of a file is scoped: what it is composed of is recorded on the way.
abbrev ComposeM := ExceptT Error (StateT (List ImportRecord) (StateM Session))

namespace ComposeM

variable {α β : Type}

def on (act : ComposeM α) (records : List ImportRecord) (s : Session) :
    (Except Error α × List ImportRecord) × Session :=
  (act.run.run records).run s

theorem on_bind (act : ComposeM α) (f : α → ComposeM β) (records : List ImportRecord) (s : Session) :
    (act >>= f).on records s =
      match act.on records s with
      | ((.ok a, records), t)    => (f a).on records t
      | ((.error e, records), t) => ((.error e, records), t) := by
  rw [on, Stateful.run_bind₂]
  unfold on
  rcases (act.run.run records).run s with ⟨⟨e | a, records⟩, t⟩ <;> rfl

theorem on_bind_ok {act : ComposeM α} {f : α → ComposeM β} {records records' : List ImportRecord}
    {s t : Session} {a : α} (h : act.on records s = ((.ok a, records'), t)) :
    (act >>= f).on records s = (f a).on records' t := by
  rw [on_bind, h]

@[simp]
theorem on_pure (a : α) (records : List ImportRecord) (s : Session) :
    (pure a : ComposeM α).on records s = ((.ok a, records), s) :=
  rfl

@[simp]
theorem on_throw (e : Error) (records : List ImportRecord) (s : Session) :
    (throw e : ComposeM α).on records s = ((.error e, records), s) :=
  rfl

end ComposeM

namespace SessionM

variable (p : Project)

-- The text under which a file is scoped.
def textOf (path : String) : Option String → SessionM String
  | some text => pure text
  | none => contentsOf p path

def scopeBody (fuel : Nat) (path : String) (contents : Option String) : SessionM ScopedModule := do
  scopeText p path (scopeFile p fuel · none) (← textOf p path contents)

variable {p} {path specifier : String} {contents : Option String} {s : Session}

theorem scopeFile_done_on {fuel : Nat} {r : ScopedModule} (h : s.slots.get? path = some (.done r)) :
    (scopeFile p (fuel + 1) path contents).on s = (.ok r, s) := by
  unfold scopeFile
  rw [on_bind_ok (on_get s), h]
  rfl

theorem scopeFile_pending_on {fuel : Nat} (h : s.slots.get? path = some .pending) :
    (scopeFile p (fuel + 1) path contents).on s = (.error (cyclic s.chain path), s) := by
  unfold scopeFile
  rw [on_bind_ok (on_get s), h]
  rfl

theorem scopeFile_none_on {fuel : Nat} (h : s.slots.get? path = none) :
    (scopeFile p (fuel + 1) path contents).on s =
      (((scopeBody p fuel path contents).on (s.enter path)).1,
        ((scopeBody p fuel path contents).on (s.enter path)).2.leave path
          ((scopeBody p fuel path contents).on (s.enter path)).1) := by
  rw [scopeFile, on_bind_ok (on_get s), h]
  dsimp only
  rw [on_bind_ok (on_set s _), on_bind_ok (on_attempt ..), on_bind_ok (on_modify ..),
    on_liftExcept]
  cases contents <;> rfl

theorem render_on (index : Nat) (source : Source) :
    (render p index source).on s =
      match s.preprocessors[index]? with
      | none => (.ok source, s)
      | some preprocessor =>
        let r := preprocessor.render p.settings p.disk s.registry source
        (r.result, { s with
          registry := r.registry
          preprocessors := s.preprocessors.set index r.preprocessor
          log := s.log ++ r.log }) := by
  rw [render, on_bind_ok (on_get s)]
  cases s.preprocessors[index]?
  case none => rfl
  case some preprocessor =>
    dsimp only
    rw [on_bind_ok (on_set s _), on_liftExcept]

theorem contentsOf_on :
    (contentsOf p path).on s =
      match s.registry.fetch p.disk path with
      | .error e => (.error e, s)
      | .ok (source, registry) =>
        match source.isRendered, Role.of s.preprocessors source with
        | false, .root index =>
          match (render p index source).on { s with registry } with
          | (.ok source, t) => (.ok source.contents, t)
          | (.error e, t)   => (.error e, t)
        | _, _ => (.ok source.contents, { s with registry }) := by
  rw [contentsOf, on_bind_ok (on_get s), on_bind, on_liftExcept]
  cases s.registry.fetch p.disk path
  case error => rfl
  case ok found =>
    have ⟨source, registry⟩ := found
    dsimp only
    rw [on_bind_ok (on_set s _)]
    cases source.isRendered
    case true => rfl
    case false =>
      simp only [Bool.false_eq_true, ↓reduceIte]
      cases Role.of s.preprocessors source
      case root index =>
        rw [on_bind]
        dsimp only
        rcases (render p index source).on { s with registry } with ⟨e | source, t⟩ <;> rfl
      all_goals rfl

-- Reading a text changes no more than this.
theorem contentsOf_later (hk : s.registry.Keyed) (hp : Path.forwardSlashes path = path) :
    ∃ registry preprocessors log,
      ((contentsOf p path).on s).2 = { s with registry, preprocessors, log } ∧
      s.registry.Later p.disk (· ≠ path) registry ∧
      (s.registry.knows p.disk path = true → registry.contains path = true) := by
  rw [contentsOf_on]
  cases hf : s.registry.fetch p.disk path
  case error e =>
    refine ⟨_, _, _, rfl, .refl _, fun hk => ?_⟩
    have ⟨_, _, h⟩ := Registry.fetch_of_knows hk
    cases hf.symm.trans h
  case ok found =>
    have ⟨source, registry⟩ := found
    have ⟨hl, hg⟩ : s.registry.Later p.disk (· ≠ path) registry ∧ registry.get? path = some source :=
      Registry.fetch_later hf
    have hc := Registry.contains_of_get? hg
    have he : source.path = path := hl.keyed hk path source hp hg
    dsimp only
    split
    case h_2 => exact ⟨_, _, _, rfl, hl, fun _ => hc⟩
    case h_1 index _ _ =>
      rw [render_on]
      cases s.preprocessors[index]?
      case none => exact ⟨_, _, _, rfl, hl, fun _ => hc⟩
      case some preprocessor =>
        have hr : registry.Later p.disk (· ≠ path)
            (preprocessor.render p.settings p.disk registry source).registry :=
          Preprocessor.render_later (he ▸ hc) (by simp [he])
        dsimp only
        split
        all_goals
          rename_i h
          obtain ⟨-, rfl⟩ := Prod.mk.inj h
          exact ⟨_, _, _, rfl, hl.trans hr, fun _ => hr.contains _ hc⟩

theorem knows_of_contentsOf {text : String} (h : ((contentsOf p path).on s).1 = .ok text) :
    s.registry.knows p.disk path = true := by
  rw [contentsOf_on] at h
  cases hf : s.registry.fetch p.disk path
  case error => simp [hf] at h
  case ok    => simpa [Registry.knows] using Registry.contains_of_fetch hf

theorem composed_on (other : String → SessionM ScopedModule) (records : List ImportRecord) :
    ComposeM.on (composed p path other specifier) records s =
      match p.resolver.resolve p.disk (s.registry.knows p.disk) specifier path with
      | .error e => ((.error e, records), s)
      | .ok target =>
        match (other target).on s with
        | (.error e, t) => ((.error e, records), t)
        | (.ok r, t)    =>
          ((.ok r.tokens, records ++ [⟨.ofList (Text.unquote specifier.toList), target⟩]), t) := by
  unfold composed
  rw [ComposeM.on_bind_ok rfl]
  cases h : p.resolver.resolve p.disk (s.registry.knows p.disk) specifier path
  case error e => rfl
  case ok target =>
    have hl : ComposeM.on (liftM (Except.ok target : Except Error String)) records s =
      ((.ok target, records), s) := rfl
    rw [ComposeM.on_bind_ok hl, ComposeM.on_bind]
    have h : ComposeM.on (ExceptT.mk (StateT.lift (other target).run)) records s =
      ((((other target).on s).1, records), ((other target).on s).2) := rfl
    rw [h]
    dsimp only
    rcases (other target).on s with ⟨e | r, t⟩ <;> rfl

theorem scopeText_on (other : String → SessionM ScopedModule) (text : String) :
    (scopeText p path other text).on s =
      match ComposeM.on (Scoping.scope text path (p.naming.generate · path) (composed p path other))
        [] s with
      | ((.error e, _), t)        => (.error e, t)
      | ((.ok sheet, records), t) =>
        (.ok {
          css := sheet.css
          tokens := sheet.tokens
          sourceMap := sheet.sourceMap
          imports := records.map (·.specifier)
          importTree := importTree t records },
        { t with
          imports := t.imports.insert path records
          completed := t.completed ++ [path] }) := by
  unfold scopeText
  have h : SessionM.on (ExceptT.lift ((Scoping.scope text path (p.naming.generate · path)
      (composed p path other)).run.run [])) s =
      (Except.ok (ComposeM.on (Scoping.scope text path (p.naming.generate · path) (composed p path other))
        [] s).1,
      (ComposeM.on (Scoping.scope text path (p.naming.generate · path) (composed p path other))
        [] s).2) := rfl
  rw [on_bind_ok h]
  rcases ComposeM.on (Scoping.scope text path (p.naming.generate · path) (composed p path other))
    [] s with ⟨⟨e | sheet, records⟩, t⟩ <;> rfl

end SessionM

end ScopedCss
