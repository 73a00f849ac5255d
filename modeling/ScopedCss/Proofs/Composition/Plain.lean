import ScopedCss.Proofs.Composition.Memory
import ScopedCss.Proofs.Composition.Request

namespace ScopedCss

theorem Registry.known_of_text {r : Registry} {disk : Disk} {path css : String}
    (h : (r.found disk path).map Source.contents = .ok css) : r.knows disk path = true := by
  cases hf : r.found disk path
  case error =>
    rw [hf] at h
    cases h
  case ok => exact knows_of_found hf

-- The files that can be read from a registry and from disk, with nothing rendered.
def Registry.collection (r : Registry) (disk : Disk) : Collection where
  text path := (r.found disk path).map Source.contents
  known     := r.knows disk
  knows _ _ := known_of_text
  size      := r.sources.size + disk.files.size * Disk.maxPathLength
  disk      := disk
  finite paths hn h := by
    refine r.length_le hn fun q hq => ?_
    have ⟨hc, css, ht⟩ := h q hq
    have hk := Registry.known_of_text ht
    rw [Registry.knows, Bool.or_eq_true] at hk
    exact hk.imp id fun h => ⟨hc, h⟩

namespace SessionM

variable {p : Project} {s : Session} {path : String}

theorem contentsOf_plain_on (h : s.preprocessors = []) :
    (contentsOf p path).on s =
      match s.registry.fetch p.disk path with
      | .error e              => (.error e, s)
      | .ok (source, registry) => (.ok source.contents, { s with registry }) := by
  have hr (source : Source) : Role.of s.preprocessors source = .plain := by
    simp [Role.of, h]
  rw [contentsOf_on]
  cases s.registry.fetch p.disk path
  case error => rfl
  case ok found =>
    dsimp only
    rw [hr]
    cases found.1.isRendered <;> rfl

theorem scope_outcome {source : Source} :
    ((scope p source).on s).1 =
      if isLeft p source then .ok source
      else ((Visit.top p s source).run p).1.map (source.scopedAs p) := by
  rw [scope_on]
  split
  case isTrue => rfl
  case isFalse => rcases (Visit.top p s source).run p with ⟨e | r, t⟩ <;> rfl

end SessionM

open SessionM

variable {p : Project} {registry : Registry} {s t : Session} {source : Source}

-- Reading with nothing rendered. A file that has been scoped is registered as such, but it has a
-- result then, and is not read.
def plainReader (p : Project) (registry : Registry) : Reader p (registry.collection p.disk) where
  Good s := s.preprocessors = [] ∧ s.registry.knows p.disk = registry.knows p.disk ∧
    ∀ q, Path.IsCanonical q → s.resultOf q = none → s.registry.found p.disk q = registry.found p.disk q
  Ends _ := True
  Same := Eq
  refl _ := rfl
  ends _ h := h
  known {s q} h _ hc := by
    change registry.knows p.disk q = true
    rw [← h.2.1, Registry.knows, hc]
    rfl
  resolve {s specifier path} h _ := by
    rw [h.2.1]
    exact .refl (fun _ => rfl) _
  text {s path} h hc hr _ := by
    have he : ((contentsOf p path).on s).1 = (registry.collection p.disk).text path := by
      change _ = (registry.found p.disk path).map Source.contents
      rw [← h.2.2 path hc hr, contentsOf_plain_on h.1, Registry.found]
      cases s.registry.fetch p.disk path <;> rfl
    exact he ▸ .refl (fun _ => rfl) _
  read {s path} h _ _ _ := by
    rw [contentsOf_plain_on h.1]
    cases hf : s.registry.fetch p.disk path
    case error => exact h
    case ok found =>
      refine ⟨h.1, (Registry.knows_of_fetch hf).trans h.2.1, fun q hc hr => ?_⟩
      exact (Registry.found_of_fetch hf q).trans (h.2.2 q hc hr)
  frame {s t} h hr hp hd := ⟨hp ▸ h.1, hr ▸ h.2.1, fun q hc hq => hr ▸ h.2.2 q hc (hd q hq)⟩

-- Scopes files one after another, whether or not those before were refused.
def scopeEach (p : Project) : List Source → Session → List (Except Error Source) × Session
  | [], s             => ([], s)
  | source :: rest, s =>
    let (result, t) := (scopePlain p source).on s
    let (results, u) := scopeEach p rest t
    (result :: results, u)

-- What stays the same while files are scoped that have the texts of a registry.
structure Plain (p : Project) (registry : Registry) (s : Session) : Prop where
  resting    : s.Resting
  consistent : Consistent (plainReader p registry) { s with preprocessors := [] }
  size       : registry.sources.size ≤ s.registry.sources.size

namespace Plain

theorem start (h : registry.Keyed) (preprocessors : List Preprocessor) :
    Plain p registry (.start registry preprocessors) where
  resting    := .start h
  consistent := ⟨⟨rfl, rfl, fun _ _ _ => rfl⟩, by simp [Session.resultOf, Session.start]⟩
  size       := Nat.le_refl _

theorem withoutPreprocessors (h : Plain p registry s) :
    { s with preprocessors := [] }.Resting :=
  h.resting.of_eq h.resting.keyed rfl rfl rfl rfl

-- Registering a file that has a result does not change what is read.
theorem consistent_insert (h : Consistent (plainReader p registry) t) {r : ScopedModule}
    (hk : registry.knows p.disk source.path = true) (hr : t.resultOf source.path = some r) :
    Consistent (plainReader p registry)
      { t with registry := t.registry.insert source, preprocessors := [] } where
  good := by
    have ⟨_, hknown, hf⟩ := h.good
    refine ⟨rfl, (Registry.knows_insert (hknown ▸ hk)).trans hknown, fun q hq hn => ?_⟩
    have hne : q ≠ source.path := by
      rintro rfl
      cases hr.symm.trans hn
    exact (Registry.found_insertAt hne).trans (hf q hq hn)
  done := h.done

section

variable (ht : (registry.collection p.disk).text source.path = .ok source.contents)

include ht

theorem fits (h : Plain p registry s) :
    (Visit.top p { s with preprocessors := [] } source).Fits (plainReader p registry) where
  proper     := h.withoutPreprocessors.proper
  chained    := h.withoutPreprocessors.chained
  consistent := h.consistent
  admits     := by
    simp only [Visit.top, h.resting.chain]
    exact .nil
  nested hc  := absurd h.resting.chain hc
  text css hc := by
    cases hc
    exact ht
  fuel       := by
    have := h.size
    simp only [Visit.top, h.resting.chain, SessionM.maxChain, Registry.collection, List.length_nil]
    omega

theorem evaluates (h : Plain p registry s) :
    Evaluates p (registry.collection p.disk) [] source.path
      ((Visit.top p { s with preprocessors := [] } source).run p).1 := by
  have hs : (Visit.top p { s with preprocessors := [] } source).session.chain = [] := h.resting.chain
  have ⟨_, he, ha, _⟩ := (h.fits ht).run trivial
  rwa [hs, ← ha.eq] at he

-- What has been scoped before does not show in an outcome.
theorem outcome_eq (h : Plain p registry s) (h' : Plain p registry t) :
    ((scopePlain p source).on s).1 = ((scopePlain p source).on t).1 := by
  rw [scopePlain_on, scopePlain_on]
  dsimp only
  rw [scope_outcome, scope_outcome]
  split
  case isTrue  => rfl
  case isFalse => exact congrArg _ ((h.evaluates ht).unique (h'.evaluates ht))

theorem step (h : Plain p registry s) : Plain p registry ((scopePlain p source).on s).2 := by
  have ⟨_, _, _, hc⟩ := (h.fits ht).run trivial
  have hl := (Visit.run_later (p := p) (h.fits ht).proper).registry.size
  refine ⟨Request.run_resting h.resting (.scopePlain source), ?_, ?_⟩
  all_goals
    rw [scopePlain_on, scope_on]
    split
  case refine_1.isTrue => exact h.consistent
  case refine_2.isTrue => exact h.size
  all_goals
    rcases hr : (Visit.top p { s with preprocessors := [] } source).run p with ⟨e | r, t⟩
    all_goals rw [hr] at hc hl
  case refine_1.isFalse.error => exact ⟨⟨rfl, hc.good.2⟩, hc.done⟩
  case refine_1.isFalse.ok    => exact consistent_insert hc (Registry.known_of_text ht) (Visit.resultOf_run hr)
  case refine_2.isFalse.error => exact h.size.trans hl
  case refine_2.isFalse.ok    => exact (h.size.trans hl).trans (Dict.size_le_insert _ _ _)

end

theorem each_outcome {sources : List Source}
    (ht : ∀ source ∈ sources, (registry.collection p.disk).text source.path = .ok source.contents)
    (h : Plain p registry s) (h' : Plain p registry t) :
    (scopeEach p sources s).1 = sources.map fun source => ((scopePlain p source).on t).1 := by
  induction sources generalizing s
  case nil => rfl
  case cons source rest ih =>
    have hs := ht source (by simp)
    have hr := ih (fun source hm => ht source (.tail _ hm)) (h.step hs)
    exact congrArg₂ List.cons (outcome_eq hs h h') hr

theorem each_plain {sources : List Source}
    (ht : ∀ source ∈ sources, (registry.collection p.disk).text source.path = .ok source.contents)
    (h : Plain p registry s) : Plain p registry (scopeEach p sources s).2 := by
  induction sources generalizing s
  case nil => exact h
  case cons source rest ih =>
    exact ih (fun source hm => ht source (.tail _ hm)) (h.step (ht source (by simp)))

end Plain

-- Scoping one file after another, in any order and with repeats, comes to what each of them comes to
-- alone, and scopes no file to its end twice.
theorem each_is_scoped_as_if_alone (p : Project) {registry : Registry} (hr : registry.Keyed)
    (preprocessors : List Preprocessor) {sources : List Source}
    (ht : ∀ source ∈ sources, (registry.collection p.disk).text source.path = .ok source.contents) :
    (scopeEach p sources (.start registry preprocessors)).1 =
        sources.map (fun source => ((scopePlain p source).on (.start registry preprocessors)).1) ∧
      (scopeEach p sources (.start registry preprocessors)).2.completed.Nodup :=
  have h : Plain p registry (.start registry preprocessors) := .start hr preprocessors
  ⟨Plain.each_outcome ht h h, (Plain.each_plain ht h).resting.nodup⟩

-- A project in the root folder that leaves everything to the defaults.
def Project.bare (files : Dict String) : Project where
  disk     := { Disk.empty with files }
  settings := {
    options      := {}
    base         := ""
    ignored      := []
    included     := []
    passthrough  := []
    replacements := []
    sass         := .off
    stylus       := .off
    less         := .off
    prelude      := ""
    hash         := "" }
  naming   := ⟨"", [], none⟩

def diamondDisk : Dict String :=
  .ofList [("/c.css", ".c \x7b color: red \x7d")]

def diamondSources : List Source := ["a", "b"].map fun name => {
  path     := "/" ++ name ++ ".css"
  place    := name ++ ".css"
  arch     := "web"
  raw      := ""
  contents := "." ++ name ++ " \x7b composes: c from './c.css' \x7d" }

def diamondRegistry : Registry :=
  diamondSources.foldl Registry.insert (.ofSettings (Project.bare diamondDisk).settings "web")

theorem each_is_scoped_as_if_alone_diamond :
    let p := Project.bare diamondDisk
    let sources := diamondSources ++ diamondSources.reverse
    diamondRegistry.Keyed ∧
      (∀ source ∈ sources, (diamondRegistry.collection p.disk).text source.path = .ok source.contents) ∧
      (scopeEach p sources (.start diamondRegistry [])).1 =
        sources.map (fun source => ((scopePlain p source).on (.start diamondRegistry [])).1) ∧
      (scopeEach p sources (.start diamondRegistry [])).2.completed.Nodup := by
  have hr : diamondRegistry.Keyed := ((Registry.keyed_ofSettings _ _).insert _).insert _
  have ht : ∀ source ∈ diamondSources ++ diamondSources.reverse,
      (diamondRegistry.collection (Project.bare diamondDisk).disk).text source.path =
        .ok source.contents := by
    decide
  exact ⟨hr, ht, each_is_scoped_as_if_alone _ hr [] ht⟩

end ScopedCss
