import Mathlib.Data.List.Perm.Basic
import ScopedCss.Proofs.Build.Warm

namespace ScopedCss

open SessionM

-- What a file of a build comes to, and how this is counted.
structure Result where
  index  : Nat
  handed : Handed
  ending : Ending

def Result.give (files : List HostFile) (r : Result) : List HostFile :=
  files.modify r.index (·.hand r.handed)

def Result.count (report : BuildReport) (r : Result) : BuildReport :=
  report.count r.ending

-- A unit whose artifacts cannot all be handed back has failed.
def Handed.ending (h : Handed) (otherwise : Ending) : Ending :=
  match h.errors with
  | []     => otherwise
  | e :: _ => .failed e

-- Results have been handed back and counted, one after another, and nothing else.
structure BuildState.Gives (results : List Result) (b b' : BuildState) : Prop where
  files  : b'.files = results.foldl Result.give b.files
  report : b'.report = results.foldl Result.count b.report

namespace BuildState.Gives

variable {results results' : List Result} {b b' b'' : BuildState}

theorem of_eq (hfiles : b'.files = b.files) (hreport : b'.report = b.report) : b.Gives [] b' :=
  ⟨hfiles, hreport⟩

theorem trans (h : b.Gives results b') (h' : b'.Gives results' b'') : b.Gives (results ++ results') b'' where
  files  := by rw [h'.files, h.files, List.foldl_append]
  report := by rw [h'.report, h.report, List.foldl_append]

theorem inputs (h : b.Gives results b') : b'.files.map Input.ofHost = b.files.map Input.ofHost := by
  rw [h.files]
  generalize b.files = files
  clear h
  induction results generalizing files
  case nil => rfl
  case cons r results ih =>
    rw [List.foldl_cons, ih, Result.give]
    apply List.ext_getElem?
    intro n
    simp only [List.getElem?_map, List.getElem?_modify]
    cases files[n]?
    case none   => rfl
    case some f => by_cases hn : r.index = n <;> simp [hn, HostFile.hand, Input.ofHost]

end BuildState.Gives

namespace BuildM

variable {b : BuildState} {c : Compiler} {n : Nat} {i : Input} {f : HostFile}

theorem fail_gives (e : Error) :
    b.Gives [⟨n, ⟨[], [], [⟨e.message, i.place⟩]⟩, .failed ⟨e.message, i.place⟩⟩] ((fail (.host n) i e).run b).2 where
  files := by
    have hadd : (fun f : HostFile => f.addError ⟨e.message, i.place⟩) =
        fun f => f.hand ⟨[], [], [⟨e.message, i.place⟩]⟩ := by
      funext f
      simp [HostFile.addError, HostFile.hand]
    exact congrArg (b.files.modify n) hadd
  report := rfl

-- Handing a result back succeeds, or it fails for want of a path.
inductive Emitted (c : Compiler) (n : Nat) (i : Input) (r : Compiled) (b : BuildState) :
    Except Error Unit × BuildState → Prop
  | ok {b' : BuildState} :
    (c.handed i (.ok r)).errors = [] →
    b.Same b' →
    b'.files = b.files.modify n (·.hand (c.handed i (.ok r))) →
    b'.report = b.report → Emitted c n i r b (.ok (), b')
  | error {e : Error} {b' : BuildState} :
    (c.handed i (.ok r)).errors = [⟨e.message, i.place⟩] →
    b.Same ((fail (.host n) i e).run b').2 →
    ((fail (.host n) i e).run b').2.files = b.files.modify n (·.hand (c.handed i (.ok r))) →
    ((fail (.host n) i e).run b').2.report = b.report.count (.failed ⟨e.message, i.place⟩) →
    Emitted c n i r b (.error e, b')

theorem emitUnit_emitted (hf : b.files[n]? = some f) (r : Compiled) :
    Emitted c n i r b ((c.emitUnit (.host n) i r).run b) := by
  have hreport := (emitUnit_ends c (.host n) i r b).report
  have hresult : ((c.emitUnit (.host n) i r).run b).1 = (c.emit i.arch r f).1 := by
    rw [emitUnit_run]
    dsimp only [BuildUnit.handle]
    rw [hf]
  rcases he : (c.emitUnit (.host n) i r).run b with ⟨e | ⟨⟩, b'⟩
  all_goals
    rw [he] at hreport hresult
    rw [emit_eq] at hresult
  case error =>
    have hands := emitUnit_fail_hands he
    refine .error ?_ hands.same ?_ ?_
    · unfold Compiler.handed
      dsimp only
      generalize c.artifacts i.arch r = artifacts at hresult
      rcases artifacts with ⟨_ | _, _ | _⟩
      all_goals cases hresult
      all_goals rfl
    · rw [hands.files n f rfl hf, modify_eq_set hf]
    · have hfail : ((fail (.host n) i e).run b').2.report = b'.report.count (.failed ⟨e.message, i.place⟩) := rfl
      rw [hfail]
      exact congrArg (BuildReport.count · _) hreport
  case ok =>
    have ⟨hsame, hfiles⟩ := emitUnit_hands he
    refine .ok ?_ hsame ?_ hreport
    · unfold Compiler.handed
      dsimp only
      generalize c.artifacts i.arch r = artifacts at hresult
      rcases artifacts with ⟨_ | _, _ | _⟩
      all_goals cases hresult
      rfl
    · rw [hfiles n f rfl hf, modify_eq_set hf]

end BuildM

-- A file to be built, with its place among all files.
abbrev Task := Nat × HostFile

namespace Compiler

variable (c : Compiler) (p : Project) (registry : Registry) (m : CacheMap)

-- A file is answered with what is cached, or else with what it comes to alone.
def outcomeOf (f : HostFile) : Except Error Compiled :=
  match c.answerOf p registry m f with
  | some r => .ok r
  | none   => c.alone p registry (f.source c.settings)

-- What a file comes to alone, as a result, ...
def freshResult (t : Task) : Result where
  index  := t.1
  handed := c.handed (.ofHost t.2) (c.alone p registry (t.2.source c.settings))
  ending := (c.handed (.ofHost t.2) (c.alone p registry (t.2.source c.settings))).ending .compiled

-- ... and what it comes to with the cache.
def resultOf (t : Task) : Result where
  index  := t.1
  handed := c.handed (.ofHost t.2) (c.outcomeOf p registry m t.2)
  ending := (c.handed (.ofHost t.2) (c.outcomeOf p registry m t.2)).ending
    (if (c.answerOf p registry m t.2).isSome then .cached else .compiled)

-- What is cached of a file that has been scoped: nothing if its artifacts could not all be handed back.
def kept? (f : HostFile) : Option Compiled :=
  match c.alone p registry (f.source c.settings) with
  | .error _ => none
  | .ok r    => if (c.handed (.ofHost f) (.ok r)).errors = [] then some r else none

variable {c p registry m} {region cache : String → Bool} {here : String} {files : List HostFile} {f : HostFile}
  {n : Nat} {b : BuildState}

theorem resultOf_none {t : Task} (h : c.answerOf p registry m t.2 = none) :
    c.resultOf p registry m t = c.freshResult p registry t := by
  unfold resultOf outcomeOf
  rw [h]
  rfl

theorem resultOf_some {t : Task} {r : Compiled} (h : c.answerOf p registry m t.2 = some r) : c.resultOf p registry m t =
    ⟨t.1, c.handed (.ofHost t.2) (.ok r), (c.handed (.ofHost t.2) (.ok r)).ending .cached⟩ := by
  unfold resultOf outcomeOf
  rw [h]
  rfl

theorem Tame.put {e : CacheEntry} (h : c.Tame p region files m)
    (hpath : ∀ g ∈ files, (g.source c.settings).path = (f.source c.settings).path → g = f)
    (hplace : e.result.place = f.place) (hd : ∀ d ∈ e.dependencies.entries, p.disk.avoids region d.1 = true) :
    c.Tame p region files (m.put (f.source c.settings).path (some e)) := by
  intro g hg e' he
  by_cases hq : (g.source c.settings).path = (f.source c.settings).path
  case neg => exact h g hg e' ((CacheMap.put_other _ _ hq).symm.trans he)
  case pos =>
    cases hpath g hg hq
    cases (CacheMap.put_same ..).symm.trans he
    exact ⟨hplace, hd⟩

-- What a file is scoped to.
structure Scoped (p : Project) (region : String → Bool) (f : HostFile) (source : Source) : Prop where
  place      : source.place = f.place
  references : ∀ q ∈ source.references.keys, p.disk.avoids region q = true
  sourceMap  : ∀ map ∈ source.sourceMap, map.Storable

namespace Warm

theorem scopes (h : c.Warm p registry region here files m b) (hg : c.Grounds p registry region cache here files)
    (hf : f ∈ files) {source : Source}
    (hs : ((SessionM.scope p (f.source c.settings)).on b.session).1 = .ok source) : Scoped p region f source := by
  rcases h.plain.scoped_eq_ok h.preprocessors (hg.text f hf) hs with rfl | ⟨r, heval, rfl⟩
  · exact ⟨rfl, nofun, nofun⟩
  · refine ⟨rfl, fun q hq => ?_, fun map hm => ?_⟩
    · have hmem := (PathSet.mem_of_mem_addAll hq).resolve_right nofun
      exact heval.avoids (hg.spares f hf) rfl q hmem
    · cases heval.sourceMap.symm.trans hm
      exact storable_lineSourceMap _ _

theorem hashes (h : c.Warm p registry region here files m b) {paths : List String}
    (hp : ∀ q ∈ paths, p.disk.avoids region q = true) :
    ∃ b', (BuildM.hashes paths).run b = (.ofList (paths.filterMap fun q => (p.currentHash registry q).map (q, ·)), b') ∧
      c.Warm p registry region here files m b' ∧ b'.workspace = b.workspace ∧ b.Gives [] b' := by
  have hrun : ((BuildM.hashes paths).run b).1 = .ofList (paths.filterMap fun q => (p.currentHash registry q).map (q, ·)) ∧
      c.Warm p registry region here files m ((BuildM.hashes paths).run b).2 ∧
        ((BuildM.hashes paths).run b).2.workspace = b.workspace ∧ b.Gives [] ((BuildM.hashes paths).run b).2 := by
    refine BuildM.hashes_run
      (P := fun b' => c.Warm p registry region here files m b' ∧ b'.workspace = b.workspace ∧ b.Gives [] b') paths
      (fun path hm b' ⟨hwarm, hworkspace, hgives⟩ => ?_) ⟨h, rfl, .of_eq rfl rfl⟩
    have ⟨hhash, hwarm'⟩ := hwarm.hashOf (hp path hm)
    rw [← hworkspace]
    exact ⟨hhash, hwarm', rfl, hgives.files, hgives.report⟩
  exact ⟨_, Prod.ext hrun.1 rfl, hrun.2⟩

theorem role (h : c.Warm p registry region here files m b) (source : Source) :
    Role.of b.session.preprocessors source = .plain := by
  simp [Role.of, h.preprocessors]

-- A file is answered, or it is to be scoped as it is.
theorem prepare (h : c.Warm p registry region here files m b) (hg : c.Grounds p registry region cache here files)
    {t : Task} (hf : t.2 ∈ files) (ht : (BuildUnit.host t.1).input? b.files = some (.ofHost t.2)) :
    ∃ prepared b', (c.prepare p (.host t.1) (.ofHost t.2)).run b = (prepared, b') ∧
      c.Warm p registry region here files (m.step (c.asking p registry t.2)).2 b' ∧
      b.workspace.Moves cache b'.workspace ∧
      match c.answerOf p registry m t.2 with
      | none   => prepared = some (c.asIs t.2) ∧ b.Gives [] b'
      | some _ => prepared = none ∧ b.Gives [c.resultOf p registry m t] b' := by
  have ⟨b₁, hrun, hwarm, hmoves, hfiles, hreport⟩ := h.reusing hg hf
  have hgives : b.Gives [] b₁ := .of_eq hfiles hreport
  rw [prepare_eq, if_neg (by simp [h.role]), hrun]
  cases ha : c.answerOf p registry m t.2
  case none =>
    dsimp only
    rw [h.role]
    exact ⟨_, _, rfl, hwarm.withSession hwarm.plain hwarm.raws hwarm.preprocessors,
      ⟨hmoves.folder, hmoves.disk⟩, rfl, ⟨hgives.files, hgives.report⟩⟩
  case some r =>
    dsimp only
    have ⟨g, hget, _⟩ := Option.map_eq_some_iff.1 ht
    rw [← hfiles] at hget
    have hemit := BuildM.emitUnit_emitted (c := c) (n := t.1) (i := .ofHost t.2) hget r
    generalize (c.emitUnit (.host t.1) (.ofHost t.2) r).run b₁ = emitted at hemit
    rw [resultOf_some ha]
    cases hemit
    case ok b₂ herrors hsame hfiles₂ hreport₂ =>
      have hmoves₂ : b₁.workspace.Moves cache b₂.workspace := .of_same hsame
      refine ⟨_, _, rfl, (hwarm.same hsame).same ⟨rfl, rfl, rfl, rfl⟩, hmoves.trans hmoves₂, rfl, ?_⟩
      refine hgives.trans ⟨hfiles₂, ?_⟩
      dsimp only
      rw [Handed.ending, herrors, hreport₂]
      rfl
    case error e b₂ herrors hsame hfiles₂ hreport₂ =>
      refine ⟨_, _, rfl, hwarm.same hsame, hmoves.trans (.of_same hsame), rfl, hgives.trans ⟨hfiles₂, ?_⟩⟩
      rw [Handed.ending, herrors, hreport₂]
      rfl

-- Answers are handed back first, and all other files are to be scoped as they are.
theorem prepareAll (h : c.Warm p registry region here files m b) (hg : c.Grounds p registry region cache here files)
    (tasks : List Task)
    (ht : ∀ t ∈ tasks, t.2 ∈ files ∧ (BuildUnit.host t.1).input? b.files = some (.ofHost t.2)) :
    ∃ m' b', (c.prepareAll p (tasks.map fun t => .host t.1)).run b =
        ((tasks.filter fun t => (c.answerOf p registry m t.2).isNone).map fun t => c.ready t.1 t.2, b') ∧
      c.Warm p registry region here files m' b' ∧ b.workspace.Moves cache b'.workspace ∧
      (∀ g ∈ files, c.answerOf p registry m' g = c.answerOf p registry m g) ∧
      b.Gives ((tasks.filter fun t => (c.answerOf p registry m t.2).isSome).map (c.resultOf p registry m)) b' := by
  induction tasks generalizing m b
  case nil => exact ⟨m, b, rfl, h, .refl .., fun _ _ => rfl, .of_eq rfl rfl⟩
  case cons t tasks ih =>
    have ⟨hf, hi⟩ := ht t (.head _)
    have ⟨prepared, b₁, hrun₁, h₁, hmoves₁, hcase⟩ := h.prepare hg hf hi
    have hsame (g : HostFile) (hm : g ∈ files) :
        c.answerOf p registry (m.step (c.asking p registry t.2)).2 g = c.answerOf p registry m g :=
      answerOf_step fun hpath => hg.apart t.2 hf g hm hpath
    have hgives₁ : ∃ results, b.Gives results b₁ := by
      cases ha : c.answerOf p registry m t.2
      all_goals
        rw [ha] at hcase
        exact ⟨_, hcase.2⟩
    have ⟨m', b', hrun, hwarm, hmoves, hanswers, hgives⟩ := ih h₁ fun t' hm =>
      have ⟨hf', hi'⟩ := ht t' (.tail _ hm)
      ⟨hf', (BuildUnit.input?_congr _ hgives₁.choose_spec.inputs).trans hi'⟩
    have hnone : tasks.filter (fun t' => (c.answerOf p registry (m.step (c.asking p registry t.2)).2 t'.2).isNone) =
        tasks.filter fun t' => (c.answerOf p registry m t'.2).isNone :=
      List.filter_congr fun t' hm => by rw [hsame _ (ht t' (.tail _ hm)).1]
    have hsome : (tasks.filter fun t' => (c.answerOf p registry (m.step (c.asking p registry t.2)).2 t'.2).isSome).map
          (c.resultOf p registry (m.step (c.asking p registry t.2)).2) =
        (tasks.filter fun t' => (c.answerOf p registry m t'.2).isSome).map (c.resultOf p registry m) := by
      rw [List.filter_congr fun t' hm => by rw [hsame _ (ht t' (.tail _ hm)).1]]
      refine List.map_congr_left fun t' hm => ?_
      have he := hsame t'.2 (ht t' (.tail _ (List.mem_filter.1 hm).1)).1
      unfold resultOf outcomeOf
      rw [he]
    rw [hnone] at hrun
    rw [hsome] at hgives
    refine ⟨m', b', ?_, hwarm, hmoves₁.trans hmoves, fun g hm => (hanswers g hm).trans (hsame g hm), ?_⟩
    all_goals
      cases ha : c.answerOf p registry m t.2
      all_goals rw [ha] at hcase
    case refine_1.none | refine_1.some =>
      rw [List.map_cons, prepareAll_cons_run, hi]
      dsimp only
      rw [hrun₁, hcase.1, hrun]
      simp [ha, ready]
    case refine_2.none | refine_2.some =>
      have hboth := hcase.2.trans hgives
      simpa [List.filter_cons, ha] using hboth

-- An entry of a file is remembered.
theorem remember (h : c.Warm p registry region here files m b) (hg : c.Grounds p registry region cache here files)
    (hf : f ∈ files) {e : CacheEntry} (hpath : e.path = (f.source c.settings).path) (hplace : e.result.place = f.place)
    (hstorable : e.result.Storable) (hd : ∀ d ∈ e.dependencies.entries, p.disk.avoids region d.1 = true)
    (report : BuildReport) :
    c.Warm p registry region here files (m.put (f.source c.settings).path (some e))
        { b with workspace := b.workspace.remember e, report } ∧
      b.workspace.Moves cache (b.workspace.remember e) := by
  have hu : c.Used files e.path := ⟨f, hf, hpath.symm⟩
  have hmoves : b.workspace.Moves cache (b.workspace.remember e) := .remember (h.serves.spots hg.inside hu)
  rw [← hpath]
  exact ⟨{
    plain         := h.plain
    raws          := h.raws
    preprocessors := h.preprocessors
    disk          := (Disk.without_mono hg.within hmoves.disk.beyond).trans h.disk
    serves        := h.serves.remember hu hstorable
    tame          := hpath ▸ h.tame.put (hg.apart f hf) hplace hd }, hmoves⟩

-- A file is handed what it comes to alone, which is cached if all of it could be handed back.
theorem finish (h : c.Warm p registry region here files m b) (hg : c.Grounds p registry region cache here files)
    {t : Task} (hf : t.2 ∈ files) (ht : (BuildUnit.host t.1).input? b.files = some (.ofHost t.2)) :
    ∃ m' b', ((c.finish p (.host t.1) (.ofHost t.2) (c.asIs t.2)).run b).2 = b' ∧
      c.Warm p registry region here files m' b' ∧ b.workspace.Moves cache b'.workspace ∧
      (∀ g ∈ files, c.answerOf p registry m' g =
        if g = t.2 then (c.kept? p registry t.2).or (c.answerOf p registry m g) else c.answerOf p registry m g) ∧
      b.Gives [c.freshResult p registry t] b' := by
  have hsize : p.disk.files.size ≤ b.workspace.disk.files.size := by
    rw [← h.disk]
    exact Disk.size_without_le ..
  have hscope : (SessionM.scope { p with disk := b.workspace.disk } (t.2.source c.settings)).on b.session =
      (SessionM.scope p (t.2.source c.settings)).on b.session :=
    h.plain.scope_moved h.moved hsize h.preprocessors (hg.text _ hf) (hg.spares _ hf)
  obtain ⟨hplain, hpre, hout⟩ := h.plain.scope hg.keyed h.preprocessors (hg.text _ hf)
  have hraws := h.plain.scope_raws h.preprocessors (hg.text _ hf) h.raws (hg.raw _ hf)
  have halone : c.alone p registry (t.2.source c.settings) =
      c.compiled ((SessionM.scope p (t.2.source c.settings)).on b.session).1 := by rw [hout, alone]
  have hsource : (c.asIs t.2).source = t.2.source c.settings := rfl
  rw [finish_eq, hsource, hscope]
  have hspec (source : Source) (hs : ((SessionM.scope p (t.2.source c.settings)).on b.session).1 = .ok source) :=
    h.scopes hg hf hs
  generalize (SessionM.scope p (t.2.source c.settings)).on b.session = result at hplain hpre hraws hspec halone
  obtain ⟨outcome, s⟩ := result
  have hwarm := h.withSession hplain hraws hpre
  have hgives : b.Gives [] (b.withSession s) := .of_eq rfl rfl
  have hmoves : b.workspace.Moves cache (b.withSession s).workspace := ⟨rfl, .refl ..⟩
  cases outcome
  case error e =>
    have hfresh : c.freshResult p registry t =
        ⟨t.1, ⟨[], [], [⟨e.message, t.2.place⟩]⟩, .failed ⟨e.message, t.2.place⟩⟩ := by
      unfold freshResult
      rw [halone]
      rfl
    have hkept : c.kept? p registry t.2 = none := by
      unfold kept?
      rw [halone]
      rfl
    have hsame := BuildM.fail_same (b := b.withSession s) (u := .host t.1) (i := .ofHost t.2) e
    have hfail := BuildM.fail_gives (b := b.withSession s) (n := t.1) (i := .ofHost t.2) e
    rw [hfresh, hkept]
    exact ⟨m, _, rfl, hwarm.same hsame, hmoves.trans (.of_same hsame),
      fun g _ => by rw [Option.none_or, ite_self], hgives.trans hfail⟩
  case ok source =>
    replace hspec := hspec source rfl
    obtain ⟨g, hget, _⟩ := Option.map_eq_some_iff.1 ht
    have hemit := BuildM.emitUnit_emitted (c := c) (b := b.withSession s) (n := t.1) (i := .ofHost t.2) hget
      (.ofSource source (c.settings.isClient source.arch))
    dsimp only
    generalize (c.emitUnit (.host t.1) (.ofHost t.2) _).run (b.withSession s) = emitted at hemit ⊢
    generalize hr : Compiled.ofSource source (c.settings.isClient source.arch) = r at hemit
    have halone : c.alone p registry (t.2.source c.settings) = .ok r := hr ▸ halone
    have hfresh : c.freshResult p registry t =
        ⟨t.1, c.handed (.ofHost t.2) (.ok r), (c.handed (.ofHost t.2) (.ok r)).ending .compiled⟩ := by
      unfold freshResult
      rw [halone]
    have hkept : c.kept? p registry t.2 = if (c.handed (.ofHost t.2) (.ok r)).errors = [] then some r else none := by
      unfold kept?
      rw [halone]
    rw [hfresh, hkept]
    cases hemit
    case error e b₁ herrors hsame hfiles hreport =>
      refine ⟨m, _, rfl, hwarm.same hsame, hmoves.trans (.of_same hsame), fun g _ => ?_, hgives.trans ⟨hfiles, ?_⟩⟩
      · rw [herrors, if_neg (List.cons_ne_nil _ _), Option.none_or, ite_self]
      · rw [Handed.ending, herrors, hreport]
        rfl
    case ok b₁ herrors hsame hfiles hreport =>
      obtain ⟨b₂, hhash, hwarm₂, hworkspace, hgives₂⟩ := (hwarm.same hsame).hashes hspec.references
      dsimp only
      rw [hhash]
      dsimp only
      have hcurrent (d : String × String) (hd : d ∈ (SortedDict.ofList
          (source.references.keys.filterMap fun q => (p.currentHash registry q).map (q, ·))).entries) :
          d.1 ∈ source.references.keys ∧ p.currentHash registry d.1 = some d.2 := by
        have hget := SortedDict.get?_of_mem_entries hd
        rw [SortedDict.get?_ofList_filterMap] at hget
        split at hget
        case isTrue hm => exact ⟨hm, hget⟩
        case isFalse   => cases hget
      have hentry (dependencies : SortedDict String) : c.entryFor (c.asIs t.2) source dependencies =
          ⟨(t.2.source c.settings).path, c.keyFor (.ofHost t.2), r, dependencies⟩ := hr ▸ rfl
      have hplace : r.place = t.2.place := hr ▸ hspec.place
      have hstorable : r.Storable := hr ▸ hspec.sourceMap
      rw [hentry]
      obtain ⟨hwarm', hmoves'⟩ := hwarm₂.remember hg hf (e := ⟨_, c.keyFor (.ofHost t.2), r, _⟩) rfl hplace hstorable
        (fun d hd => hspec.references _ (hcurrent d hd).1) { b₂.report with compiled := b₂.report.compiled + 1 }
      have hmoved : b.workspace.Moves cache b₂.workspace := hworkspace ▸ hmoves.trans (.of_same hsame)
      refine ⟨_, _, rfl, hwarm', hmoved.trans hmoves', fun g hm => ?_, hgives.trans ⟨?_, ?_⟩⟩
      · rw [answerOf_put (hg.apart t.2 hf g hm) rfl fun d hd => (hcurrent d hd).2, if_pos herrors, Option.some_or]
      · exact hgives₂.files.trans hfiles
      · have hreport₂ : b₂.report = (b.withSession s).report := hgives₂.report.trans hreport
        dsimp only
        rw [hreport₂, Handed.ending, herrors]
        rfl

theorem finishAll (h : c.Warm p registry region here files m b) (hg : c.Grounds p registry region cache here files)
    (tasks : List Task)
    (ht : ∀ t ∈ tasks, t.2 ∈ files ∧ (BuildUnit.host t.1).input? b.files = some (.ofHost t.2)) :
    ∃ m' b', ((c.finishAll p (tasks.map fun t => c.ready t.1 t.2)).run b).2 = b' ∧
      c.Warm p registry region here files m' b' ∧ b.workspace.Moves cache b'.workspace ∧
      (∀ g ∈ files, c.answerOf p registry m' g = if g ∈ tasks.map Prod.snd
        then (c.kept? p registry g).or (c.answerOf p registry m g) else c.answerOf p registry m g) ∧
      b.Gives (tasks.map (c.freshResult p registry)) b' := by
  induction tasks generalizing m b
  case nil => exact ⟨m, b, rfl, h, .refl .., fun g _ => (if_neg (by simp)).symm, .of_eq rfl rfl⟩
  case cons t tasks ih =>
    have ⟨hf, hi⟩ := ht t (.head _)
    have ⟨m₁, b₁, hrun₁, h₁, hmoves₁, hanswers₁, hgives₁⟩ := h.finish hg hf hi
    have ⟨m', b', hrun, hwarm, hmoves, hanswers, hgives⟩ := ih h₁ fun t' hm =>
      have ⟨hf', hi'⟩ := ht t' (.tail _ hm)
      ⟨hf', (BuildUnit.input?_congr _ hgives₁.inputs).trans hi'⟩
    refine ⟨m', b', ?_, hwarm, hmoves₁.trans hmoves, fun g hm => ?_, hgives₁.trans hgives⟩
    · rw [List.map_cons, ready, finishAll_cons_run, hrun₁, hrun]
    · rw [hanswers g hm, hanswers₁ g hm, List.map_cons]
      by_cases hg : g = t.2
      case neg =>
        have hmem : g ∈ t.2 :: tasks.map Prod.snd ↔ g ∈ tasks.map Prod.snd := List.mem_cons.trans (or_iff_right hg)
        simp only [if_neg hg, hmem]
      case pos =>
        subst hg
        rw [if_pos rfl, if_pos List.mem_cons_self]
        cases c.kept? p registry t.2 <;> simp

end Warm

-- A build looks at the disk of its workspace only.
theorem prepareAll_withDisk (disk : Disk) (units : List BuildUnit) :
    c.prepareAll { p with disk } units = c.prepareAll p units := by
  induction units
  case nil             => rfl
  case cons u units ih =>
    rw [prepareAll, prepareAll, ih]
    rfl

-- All files are handed what they come to, which is cached from then on if all of it could be handed back.
theorem Warm.buildUnits (h : c.Warm p registry region here files m b)
    (hg : c.Grounds p registry region cache here files) {tasks : List Task}
    (ht : ∀ t ∈ tasks, t.2 ∈ files ∧ (BuildUnit.host t.1).input? b.files = some (.ofHost t.2))
    {plan : Plan} {disk : Disk} (hproject : plan.project = { p with disk })
    (hunits : plan.units = tasks.map fun t => .host t.1) :
    ∃ m' b' results, ((c.buildUnits plan).run b).2 = b' ∧
      c.Warm p registry region here files m' b' ∧ b.workspace.Moves cache b'.workspace ∧
      (∀ t ∈ tasks, c.answerOf p registry m' t.2 = (c.answerOf p registry m t.2).or (c.kept? p registry t.2)) ∧
      results.Perm (tasks.map (c.resultOf p registry m)) ∧ b.Gives results b' := by
  have ⟨m₁, b₁, hrun₁, h₁, hmoves₁, hanswers₁, hgives₁⟩ := h.prepareAll hg tasks ht
  have ⟨m', b', hrun, hwarm, hmoves, hanswers, hgives⟩ := h₁.finishAll hg
    (tasks.filter fun t => (c.answerOf p registry m t.2).isNone) fun t hm =>
      have ⟨hf, hi⟩ := ht t (List.mem_filter.1 hm).1
      ⟨hf, (BuildUnit.input?_congr _ hgives₁.inputs).trans hi⟩
  refine ⟨m', b', _, ?_, hwarm, hmoves₁.trans hmoves, fun t hm => ?_, ?_, hgives₁.trans hgives⟩
  · have hbuild : (c.buildUnits plan).run b =
        (c.finishAll p ((c.prepareAll plan.project plan.units).run b).1).run
          ((c.prepareAll plan.project plan.units).run b).2 := by
      unfold Compiler.buildUnits
      rw [BuildM.run_bind, hproject]
      rfl
    rw [hbuild, hproject, prepareAll_withDisk, hunits, hrun₁]
    exact hrun
  · rw [hanswers t.2 (ht t hm).1, hanswers₁ t.2 (ht t hm).1]
    cases ha : c.answerOf p registry m t.2
    case none =>
      have hmem : t.2 ∈ (tasks.filter fun t => (c.answerOf p registry m t.2).isNone).map Prod.snd :=
        List.mem_map.2 ⟨t, List.mem_filter.2 ⟨hm, by simp [ha]⟩, rfl⟩
      rw [if_pos hmem, Option.or_none, Option.none_or]
    case some r =>
      have hmem : t.2 ∉ (tasks.filter fun t => (c.answerOf p registry m t.2).isNone).map Prod.snd := by
        intro hmem
        have ⟨t', hm', he⟩ := List.mem_map.1 hmem
        have hnone := (List.mem_filter.1 hm').2
        simp [he, ha] at hnone
      rw [if_neg hmem, Option.some_or]
  · have hfresh : (tasks.filter fun t => (c.answerOf p registry m t.2).isNone).map (c.freshResult p registry) =
        (tasks.filter fun t => (c.answerOf p registry m t.2).isNone).map (c.resultOf p registry m) :=
      List.map_congr_left fun t hm => (resultOf_none (by simpa using (List.mem_filter.1 hm).2)).symm
    rw [hfresh, ← List.map_append]
    refine List.Perm.map _ ?_
    have hperm := List.filter_append_perm (fun t => (c.answerOf p registry m t.2).isSome) tasks
    simpa using hperm

end Compiler

end ScopedCss
