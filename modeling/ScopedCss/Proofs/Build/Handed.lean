import ScopedCss.Build.Compiler
import ScopedCss.Proofs.Composition.Request

namespace ScopedCss

-- Two states of a build that differ in nothing but what is handed back, reported and logged.
structure BuildState.Same (b b' : BuildState) : Prop where
  session : b'.session = b.session
  disk    : b'.workspace.disk = b.workspace.disk
  cache   : b'.workspace.cache = b.workspace.cache
  inputs  : b'.files.map Input.ofHost = b.files.map Input.ofHost

theorem BuildState.Same.trans {b b' b'' : BuildState} (h : b.Same b') (h' : b'.Same b'') : b.Same b'' where
  session := h'.session.trans h.session
  disk    := h'.disk.trans h.disk
  cache   := h'.cache.trans h.cache
  inputs  := h'.inputs.trans h.inputs

-- What a build hands back with a file.
structure Handed where
  sheets  : List SheetArtifact
  scripts : List ScriptArtifact
  errors  : List FileError

def HostFile.hand (f : HostFile) (h : Handed) : HostFile :=
  { f with
    sheets  := f.sheets ++ h.sheets
    scripts := f.scripts ++ h.scripts
    errors  := f.errors ++ h.errors }

-- A file is handed its artifacts, or an error. The style sheet stays with it if there is no path for
-- the script.
def Compiler.handed (c : Compiler) (i : Input) : Except Error Compiled → Handed
  | .error e => ⟨[], [], [⟨e.message, i.place⟩]⟩
  | .ok r    =>
    match c.artifacts i.arch r with
    | (.error e, _)             => ⟨[], [], [⟨e.message, i.place⟩]⟩
    | (.ok sheets, .error e)    => ⟨sheets, [], [⟨e.message, i.place⟩]⟩
    | (.ok sheets, .ok scripts) => ⟨sheets, scripts, []⟩

-- Nothing has happened but that an outcome has been handed back.
structure BuildState.Hands (c : Compiler) (u : BuildUnit) (i : Input) (outcome : Except Error Compiled)
    (b b' : BuildState) : Prop where
  same  : b.Same b'
  files : ∀ n f, u = .host n → b.files[n]? = some f →
    b'.files = b.files.set n (f.hand (c.handed i outcome))

theorem modify_eq_set {α : Type} {l : List α} {n : Nat} {a : α} (h : l[n]? = some a) (g : α → α) :
    l.modify n g = l.set n (g a) := by
  apply List.ext_getElem?
  intro k
  rw [List.getElem?_modify, List.getElem?_set]
  by_cases hk : n = k
  case neg => simp [hk]
  case pos =>
    subst hk
    have ⟨hn, ha⟩ := List.getElem?_eq_some_iff.1 h
    simp [hn, ha]

namespace BuildM

variable {α : Type} {b b' : BuildState} {u : BuildUnit} {i : Input} {n : Nat} {f : HostFile} {c : Compiler}
  {r : Compiled} {e : Error}

theorem changeHandle_same {g : HostFile → HostFile} (hg : ∀ file, Input.ofHost (g file) = Input.ofHost file) :
    b.Same ((changeHandle u g).run b).2 where
  session := rfl
  disk    := rfl
  cache   := rfl
  inputs  := by
    change (b.files.modify u.handle g).map Input.ofHost = b.files.map Input.ofHost
    apply List.ext_getElem?
    intro n
    simp only [List.getElem?_map, List.getElem?_modify]
    cases b.files[n]?
    case none => rfl
    case some file => by_cases hn : u.handle = n <;> simp [hn, hg]

theorem fail_same (e : Error) : b.Same ((fail u i e).run b).2 :=
  (changeHandle_same (g := (·.addError _)) fun _ => rfl).trans ⟨rfl, rfl, rfl, rfl⟩

theorem fail_files (e : Error) (h : b.files[n]? = some f) :
    ((fail (.host n) i e).run b).2.files = b.files.set n (f.addError ⟨e.message, i.place⟩) :=
  modify_eq_set h _

theorem fail_hands (e : Error) : b.Hands c u i (.error e) ((fail u i e).run b).2 where
  same := fail_same e
  files n f hu hf := by
    subst hu
    rw [fail_files e hf]
    simp [HostFile.hand, HostFile.addError, Compiler.handed]

theorem emitUnit_run :
    (c.emitUnit u i r).run b =
      match b.files[u.handle]? with
      | none   => (.ok (), b)
      | some f => ((c.emit i.arch r f).1, { b with files := b.files.set u.handle (c.emit i.arch r f).2 }) := by
  change (match b.files[u.handle]? with
    | none => _
    | some f => _) = _
  cases b.files[u.handle]? <;> rfl

theorem emitUnit_files (r : Compiled) :
    ((c.emitUnit u i r).run b).2.files = b.files.modify u.handle fun f => (c.emit i.arch r f).2 := by
  rw [emitUnit_run]
  cases hf : b.files[u.handle]?
  case none   => exact (List.modify_eq_self (List.getElem?_eq_none_iff.1 hf)).symm
  case some f => exact (modify_eq_set hf fun f => (c.emit i.arch r f).2).symm

theorem emit_eq :
    c.emit i.arch r f =
      match c.artifacts i.arch r with
      | (.error e, _)             => (.error e, f)
      | (.ok sheets, .error e)    => (.error e, f.emit sheets [])
      | (.ok sheets, .ok scripts) => (.ok (), f.emit sheets scripts) := by
  unfold Compiler.emit
  rcases c.artifacts i.arch r with ⟨_ | _, _ | _⟩ <;> rfl

theorem emitUnit_same : b.Same ((c.emitUnit u i r).run b).2 := by
  rw [emitUnit_run]
  cases hf : b.files[u.handle]?
  case none => exact ⟨rfl, rfl, rfl, rfl⟩
  case some f =>
    refine ⟨rfl, rfl, rfl, ?_⟩
    have he : Input.ofHost (c.emit i.arch r f).2 = Input.ofHost f := by
      rw [emit_eq]
      rcases c.artifacts i.arch r with ⟨_ | _, _ | _⟩ <;> rfl
    dsimp only
    rw [List.map_set, he]
    have ⟨hn, hg⟩ := List.getElem?_eq_some_iff.1 hf
    have hget : Input.ofHost f = (b.files.map Input.ofHost).get ⟨u.handle, by simpa using hn⟩ := by
      simp [hg]
    rw [hget]
    exact List.set_getElem_self (by simpa using hn)

-- A result has been handed back once its artifacts are, ...
theorem emitUnit_hands (h : (c.emitUnit u i r).run b = (.ok (), b')) : b.Hands c u i (.ok r) b' where
  same := by
    have hs := emitUnit_same (b := b) (u := u) (i := i) (c := c) (r := r)
    rwa [h] at hs
  files n f hu hf := by
    subst hu
    rw [emitUnit_run] at h
    dsimp only [BuildUnit.handle] at h
    rw [hf] at h
    dsimp only at h
    rw [emit_eq] at h
    unfold Compiler.handed
    dsimp only
    generalize c.artifacts i.arch r = artifacts at h
    rcases artifacts with ⟨e | sheets, e | scripts⟩
    all_goals
      dsimp only at h
      cases h
    simp [HostFile.hand, HostFile.emit]

-- ... or once it is reported that there is no path for them.
theorem emitUnit_fail_hands (h : (c.emitUnit u i r).run b = (.error e, b')) :
    b.Hands c u i (.ok r) ((fail u i e).run b').2 where
  same := by
    have hs := emitUnit_same (b := b) (u := u) (i := i) (c := c) (r := r)
    rw [h] at hs
    exact hs.trans (fail_same e)
  files n f hu hf := by
    subst hu
    rw [emitUnit_run] at h
    dsimp only [BuildUnit.handle] at h
    rw [hf] at h
    dsimp only at h
    rw [emit_eq] at h
    unfold Compiler.handed
    dsimp only
    have hset (g : HostFile) : (b.files.set n g)[n]? = some g :=
      List.getElem?_set_self (List.getElem?_eq_some_iff.1 hf).1
    have hfail (e : Error) (g : HostFile) :
        ((fail (.host n) i e).run { b with files := b.files.set n g }).2.files =
          b.files.set n (g.addError ⟨e.message, i.place⟩) := by
      rw [fail_files e (hset g), List.set_set]
    generalize c.artifacts i.arch r = artifacts at h
    rcases artifacts with ⟨e | sheets, e | scripts⟩
    all_goals dsimp only at h
    case ok.ok => cases h
    all_goals
      cases h
      refine (hfail _ _).trans ?_
      simp [HostFile.hand, HostFile.addError, HostFile.emit]

end BuildM

end ScopedCss
