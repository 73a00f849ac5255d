import ScopedCss.Proofs.Build.Accounts
import ScopedCss.Proofs.Cache.Served
import ScopedCss.Proofs.Composition.Region

namespace ScopedCss

open SessionM

-- The fingerprint of a file, as a build takes it.
def Project.currentHash (p : Project) (registry : Registry) (path : String) : Option String :=
  (registry.rawOf p.disk path).map fingerprint

theorem Workspace.Moves.of_same {region : String → Bool} {b b' : BuildState} (h : b.Same b') :
    Moves region b.workspace b'.workspace where
  folder := by rw [h.cache]
  disk   := by
    rw [h.disk]
    exact .refl ..

namespace Compiler

variable (c : Compiler) (p : Project) (registry : Registry) (region cache : String → Bool) (here : String)
  (files : List HostFile)

-- What a cache is asked for a file, ...
def asking (f : HostFile) : CacheOp :=
  .get (f.source c.settings).path (c.keyFor (.ofHost f)) (p.currentHash registry)

-- ... and the answer.
def answerOf (m : CacheMap) (f : HostFile) : Option Compiled :=
  (m.step (c.asking p registry f)).1

-- The paths under which the results of files are cached.
def Used (path : String) : Prop :=
  ∃ f ∈ files, (f.source c.settings).path = path

-- Entries of files at their places that depend on nothing in a region.
def Tame (m : CacheMap) : Prop :=
  ∀ f ∈ files, ∀ e, m (f.source c.settings).path = some e →
    e.result.place = f.place ∧ ∀ d ∈ e.dependencies.entries, p.disk.avoids region d.1 = true

-- Files that are as they are registered, that are told apart by their paths, and that are composed of nothing in a
-- region, which holds the files of their entries.
structure Grounds : Prop where
  keyed  : registry.Keyed
  text   : ∀ f ∈ files,
    (registry.collection p.disk).text (f.source c.settings).path = .ok (f.source c.settings).contents
  raw    : ∀ f ∈ files, registry.rawOf p.disk (f.source c.settings).path = some f.contents
  spares : ∀ f ∈ files, (registry.collection p.disk).Spares p region (f.source c.settings).path
  apart  : ∀ f ∈ files, ∀ f' ∈ files, (f'.source c.settings).path = (f.source c.settings).path → f' = f
  inside : Workspace.Inside cache here (c.Used files)
  within : ∀ q, cache q = true → region q = true

-- A build with nothing to render whose cache is one map, on a disk that is the one of the project outside of a region.
structure Warm (m : CacheMap) (b : BuildState) : Prop where
  plain         : Plain p registry b.session
  raws          : registry.SameRaws p.disk b.session.registry
  preprocessors : b.session.preprocessors = []
  disk          : b.workspace.disk.without region = p.disk
  serves        : b.workspace.Serves (c.Used files) here m
  tame          : c.Tame p region files m

variable {c p registry region cache here files} {m : CacheMap} {f g : HostFile} {b b' : BuildState} {path : String}

theorem Tame.put_none (h : c.Tame p region files m) (path : String) : c.Tame p region files (m.put path none) := by
  intro f hf e he
  rw [CacheMap.put] at he
  split at he
  case isTrue  => cases he
  case isFalse => exact h f hf e he

theorem Tame.step_get (h : c.Tame p region files m) (path key : String) (hashes : String → Option String) :
    c.Tame p region files (m.step (.get path key hashes)).2 := by
  cases hm : m path
  case none =>
    rw [CacheMap.step_get_none hm]
    exact h
  case some e =>
    by_cases hk : e.key = key
    case neg =>
      rw [CacheMap.step_get_other hm hk]
      exact h
    case pos =>
      by_cases hc : e.Current hashes
      case pos =>
        rw [CacheMap.step_get_current hm hk hc]
        exact h
      case neg =>
        rw [CacheMap.step_get_stale hm hk hc]
        exact h.put_none path

-- What is answered to a file depends on its own entry only.
theorem answerOf_congr {m' : CacheMap} (h : m' (g.source c.settings).path = m (g.source c.settings).path) :
    c.answerOf p registry m' g = c.answerOf p registry m g := by
  unfold answerOf asking
  cases hm : m (g.source c.settings).path
  all_goals rw [hm] at h
  case none => rw [CacheMap.step_get_none hm, CacheMap.step_get_none h]
  case some e =>
    by_cases hk : e.key = c.keyFor (.ofHost g)
    case neg => rw [CacheMap.step_get_other hm hk, CacheMap.step_get_other h hk]
    case pos =>
      by_cases hc : e.Current (p.currentHash registry)
      case pos => rw [CacheMap.step_get_current hm hk hc, CacheMap.step_get_current h hk hc]
      case neg => rw [CacheMap.step_get_stale hm hk hc, CacheMap.step_get_stale h hk hc]

-- Asking does not change what is answered, to this file or to any other.
theorem answerOf_step (hf : (g.source c.settings).path = (f.source c.settings).path → g = f) :
    c.answerOf p registry (m.step (c.asking p registry f)).2 g = c.answerOf p registry m g := by
  unfold asking
  cases hm : m (f.source c.settings).path
  case none => rw [CacheMap.step_get_none hm]
  case some e =>
    by_cases hk : e.key = c.keyFor (.ofHost f)
    case neg => rw [CacheMap.step_get_other hm hk]
    case pos =>
      by_cases hc : e.Current (p.currentHash registry)
      case pos => rw [CacheMap.step_get_current hm hk hc]
      case neg =>
        rw [CacheMap.step_get_stale hm hk hc]
        by_cases hpath : (g.source c.settings).path = (f.source c.settings).path
        case neg => exact answerOf_congr (CacheMap.put_other _ _ hpath)
        case pos =>
          cases hf hpath
          unfold answerOf asking
          rw [CacheMap.step_get_stale hm hk hc, CacheMap.step_get_none (CacheMap.put_same ..)]

-- What is remembered of a file is the answer from then on.
theorem answerOf_put {e : CacheEntry} (hf : (g.source c.settings).path = (f.source c.settings).path → g = f)
    (hk : e.key = c.keyFor (.ofHost f)) (hc : e.Current (p.currentHash registry)) :
    c.answerOf p registry (m.put (f.source c.settings).path (some e)) g =
      if g = f then some e.result else c.answerOf p registry m g := by
  by_cases hg : g = f
  case pos =>
    subst hg
    unfold answerOf asking
    rw [CacheMap.step_get_current (CacheMap.put_same ..) hk hc, if_pos rfl]
  case neg =>
    rw [if_neg hg]
    exact answerOf_congr (CacheMap.put_other _ _ (mt hf hg))

namespace Warm

theorem moved (h : c.Warm p registry region here files m b) :
    p.Moved { p with disk := b.workspace.disk } region where
  settings := rfl
  naming   := rfl
  disk     := by
    dsimp only
    rw [← h.disk, Disk.without_without]

theorem same (h : c.Warm p registry region here files m b) (hs : b.Same b') :
    c.Warm p registry region here files m b' where
  plain         := hs.session ▸ h.plain
  raws          := hs.session ▸ h.raws
  preprocessors := hs.session ▸ h.preprocessors
  disk          := hs.disk ▸ h.disk
  serves        := by
    refine ⟨fun hn => ?_, fun folder hf => ?_⟩
    all_goals rw [hs.cache] at *
    · exact h.serves.memory hn
    · have hholds := h.serves.files folder hf
      exact ⟨hs.cache ▸ hholds.kept, hs.disk ▸ hholds.houses, hs.disk ▸ hholds.stored, hs.cache ▸ hholds.memory⟩
  tame          := h.tame

theorem withSession (h : c.Warm p registry region here files m b) {t : Session} (ht : Plain p registry t)
    (hr : registry.SameRaws p.disk t.registry) (hp : t.preprocessors = []) :
    c.Warm p registry region here files m (b.withSession t) where
  plain         := ht.filled (.refl ..) []
  raws          := hr
  preprocessors := hp
  disk          := h.disk
  serves        := ⟨h.serves.memory, fun folder hf =>
    have hholds := h.serves.files folder hf
    ⟨hholds.kept, hholds.houses, hholds.stored, hholds.memory⟩⟩
  tame          := h.tame

-- Outside of the region, fingerprints are those of the registered texts.
theorem hashOf (h : c.Warm p registry region here files m b) (ha : p.disk.avoids region path = true) :
    ((BuildM.hashOf b.workspace.disk path).run b.session).1 = p.currentHash registry path ∧
      c.Warm p registry region here files m
        { b with session := ((BuildM.hashOf b.workspace.disk path).run b.session).2 } := by
  have hmoved : b.session.registry.hashOf b.workspace.disk path = b.session.registry.hashOf p.disk path :=
    h.moved.hashOf ha
  have ⟨hhash, hraws⟩ := h.raws.hashOf path
  have hrun : (BuildM.hashOf b.workspace.disk path).run b.session =
      ((b.session.registry.hashOf b.workspace.disk path).1,
        { b.session with registry := (b.session.registry.hashOf b.workspace.disk path).2 }) := rfl
  rw [hrun, hmoved]
  exact ⟨hhash, { h with
    plain := h.plain.filled (Registry.filled_hashOf ..) _
    raws  := hraws }⟩

theorem reusing (h : c.Warm p registry region here files m b) (hg : c.Grounds p registry region cache here files)
    (hf : f ∈ files) : ∃ b', (c.reusing (.ofHost f)).run b = (c.answerOf p registry m f, b') ∧
      c.Warm p registry region here files (m.step (c.asking p registry f)).2 b' ∧
        b.workspace.Moves cache b'.workspace ∧ b'.files = b.files ∧ b'.report = b.report := by
  have hu : c.Used files (f.source c.settings).path := ⟨f, hf, rfl⟩
  have hstep (e : CacheEntry) (he : m (f.source c.settings).path = some e) (d : String × String)
      (hd : d ∈ e.dependencies.entries) (s : Session) (hs : c.Warm p registry region here files m { b with session := s }) :
      ((BuildM.hashOf b.workspace.disk d.1).run s).1 = p.currentHash registry d.1 ∧
        c.Warm p registry region here files m
          { b with session := ((BuildM.hashOf b.workspace.disk d.1).run s).2 } :=
    hs.hashOf ((h.tame f hf e he).2 d hd)
  have ⟨w, s, hrun, hserves, hmoves, hs⟩ := h.serves.reuse hg.inside hu (c.keyFor (.ofHost f)) hstep h
  have hreuse := BuildM.reuse_run hrun
  exact ⟨{ b with workspace := w, session := s }, hreuse, {
    plain         := hs.plain
    raws          := hs.raws
    preprocessors := hs.preprocessors
    disk          := (Disk.without_mono hg.within hmoves.disk.beyond).trans h.disk
    serves        := hserves
    tame          := h.tame.step_get _ _ _ }, hmoves, rfl, rfl⟩

end Warm

end Compiler

end ScopedCss
