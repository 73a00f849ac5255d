import ScopedCss.Proofs.Build.Passes

namespace ScopedCss

open SessionM

-- How a unit ends once its result is cached.
def Ending.again : Ending → Ending
  | .compiled => .cached
  | e         => e

def Result.again (r : Result) : Result :=
  { r with ending := r.ending.again }

-- A report of how results have been counted.
structure BuildReport.Counts (r : BuildReport) (skipped : Nat) (results : List Result) : Prop where
  compiled : r.compiled = results.countP (·.ending = .compiled)
  cached   : r.cached = results.countP (·.ending = .cached)
  skipped  : r.skipped = skipped + results.countP (·.ending = .skipped)
  failed   : r.failed = results.countP (·.ending.failure?.isSome)

namespace BuildReport.Counts

variable {r r' : BuildReport} {skipped : Nat} {results results' : List Result}

theorem of_foldl (skipped : Nat) (results : List Result) :
    (results.foldl Result.count { skipped }).Counts skipped results := by
  have hunits (r : BuildReport) : results.foldl Result.count r =
      (results.map fun r => ((.host r.index, r.ending) : EndedUnit)).foldl (fun r u => r.count u.2) r := by
    rw [List.foldl_map]
    rfl
  have hfailed : (results.filterMap (·.ending.failure?)).length = results.countP (·.ending.failure?.isSome) := by
    rw [List.length_filterMap_eq_countP]
  rw [hunits, foldl_count]
  simp only [List.countP_map, List.filterMap_map, Function.comp_def]
  exact ⟨Nat.zero_add _, Nat.zero_add _, rfl, (Nat.zero_add _).trans hfailed⟩

theorem perm (h : r.Counts skipped results) (hp : results.Perm results') : r.Counts skipped results' where
  compiled := h.compiled.trans (hp.countP_eq _)
  cached   := h.cached.trans (hp.countP_eq _)
  skipped  := h.skipped.trans (congrArg _ (hp.countP_eq _))
  failed   := h.failed.trans (hp.countP_eq _)

-- Once all that was compiled is cached, the counts are the same but for what was compiled.
theorem again (h : r.Counts skipped results) (h' : r'.Counts skipped (results.map Result.again)) :
    r'.compiled = 0 ∧ r'.cached = r.compiled + r.cached ∧ r'.skipped = r.skipped ∧ r'.failed = r.failed := by
  have hcount (P : Ending → Bool) (Q : Ending → Bool) (hPQ : ∀ e, P e.again = Q e) :
      (results.map Result.again).countP (fun r => P r.ending) = results.countP fun r => Q r.ending := by
    rw [List.countP_map]
    exact List.countP_congr fun r _ => by simp [Result.again, hPQ]
  have hskipped := hcount (· = .skipped) (· = .skipped) (by rintro (_ | _ | _ | _) <;> simp [Ending.again])
  have hfailed := hcount (·.failure?.isSome) (·.failure?.isSome) (by rintro (_ | _ | _ | _) <;> simp [Ending.again, Ending.failure?])
  have hcompiled := hcount (· = .compiled) (fun _ => false) (by rintro (_ | _ | _ | _) <;> simp [Ending.again])
  have hcached := hcount (· = .cached) (fun e => e = .compiled || e = .cached) (by rintro (_ | _ | _ | _) <;> simp [Ending.again])
  have hsum : results.countP (fun r => r.ending = .compiled || r.ending = .cached) =
      results.countP (·.ending = .compiled) + results.countP (·.ending = .cached) := by
    clear * -
    induction results
    case nil => rfl
    case cons r results ih =>
      simp only [List.countP_cons] at ih ⊢
      rw [ih]
      rcases r.ending with _ | _ | _ | _ <;> simp <;> omega
  refine ⟨?_, ?_, ?_, ?_⟩
  · rw [h'.compiled, hcompiled, List.countP_false]
    rfl
  · rw [h'.cached, hcached, h.compiled, h.cached, hsum]
  · rw [h'.skipped, h.skipped, hskipped]
  · rw [h'.failed, h.failed, hfailed]

end BuildReport.Counts

-- Results for different files can be handed back in any order.
theorem Result.foldl_give_perm {results results' : List Result} (hp : results.Perm results')
    (hn : (results.map Result.index).Nodup) (files : List HostFile) :
    results.foldl Result.give files = results'.foldl Result.give files := by
  refine hp.foldl_eq' (fun r hr r' hr' files => ?_) files
  by_cases he : r = r'
  case pos => rw [he]
  case neg =>
    have hne : r.index ≠ r'.index := fun hi => he (List.inj_on_of_nodup_map hn hr hr' hi)
    apply List.ext_getElem?
    intro n
    simp only [Result.give, List.getElem?_modify]
    by_cases hi : r.index = n
    · have hi' : r'.index ≠ n := fun h => hne (hi.trans h.symm)
      simp [hi, hi']
    · by_cases hi' : r'.index = n <;> simp [hi, hi']

namespace Compiler

-- The files that are to be built, with their places.
def tasks (c : Compiler) (files : List HostFile) : List Task :=
  (c.kept files).filterMap fun n => files[n]?.map (n, ·)

-- A build without caching starts with an empty cache.
def startMap (c : Compiler) (m : CacheMap) : CacheMap :=
  if c.settings.options.caching then m else fun _ => none

-- A workspace whose disk is the one of a project outside of a region, and whose cache is one map.
structure Stocked (c : Compiler) (p : Project) (region : String → Bool) (here : String) (files : List HostFile)
    (m : CacheMap) (w : Workspace) : Prop where
  disk   : w.disk.without region = p.disk
  serves : w.Serves (c.Used files) here m
  tame   : c.Tame p region files m

-- What becomes of a workspace in a build, what is handed back and what is reported.
structure Fills (c : Compiler) (p : Project) (region cache : String → Bool) (here : String) (files : List HostFile)
    (m m' : CacheMap) (w w' : Workspace) (files' : List HostFile) (report : BuildReport) : Prop where
  stocked : c.Stocked p region here files m' w'
  moves   : w.Moves cache w'
  answers : ∀ t ∈ c.tasks files, c.answerOf p (c.registered files) m' t.2 =
    (c.answerOf p (c.registered files) m t.2).or (c.kept? p (c.registered files) t.2)
  handed  : files' = ((c.tasks files).map (c.resultOf p (c.registered files) m)).foldl Result.give files
  report  : report.Counts (files.length - (c.kept files).length) ((c.tasks files).map (c.resultOf p (c.registered files) m))

variable {c : Compiler} {p : Project} {registry : Registry} {region cache : String → Bool} {here : String}
  {files : List HostFile} {m m' : CacheMap} {w w' : Workspace} {t : Task}

theorem mem_tasks (h : t ∈ c.tasks files) : files[t.1]? = some t.2 := by
  have ⟨n, _, ht⟩ := List.mem_filterMap.1 h
  have ⟨f, hf, he⟩ := Option.map_eq_some_iff.1 ht
  exact he ▸ hf

theorem map_tasks {α : Type} (g : Nat → α) : (c.tasks files).map (fun t => g t.1) = (c.kept files).map g := by
  rw [tasks, List.map_filterMap, ← List.filterMap_eq_map]
  refine List.filterMap_congr fun n hn => ?_
  rw [List.getElem?_eq_getElem (lt_of_mem_kept hn)]
  rfl

theorem tame_empty : c.Tame p region files fun _ => none :=
  nofun

theorem Stocked.startCache (h : c.Stocked p region here files m w) (hw : ∀ q, cache q = true → region q = true)
    (hc : w.Confined cache) :
    c.Stocked p region here files (c.startMap m) (c.startCache w) ∧ w.Moves cache (c.startCache w) := by
  unfold Compiler.startCache startMap
  cases c.settings.options.caching
  case true => exact ⟨h, .refl ..⟩
  case false =>
    have hmoves := Workspace.Moves.forgetAll hc
    exact ⟨⟨(Disk.without_mono hw hmoves.disk.beyond).trans h.disk, h.serves.forgetAll, tame_empty⟩, hmoves⟩

section

variable (hd : c.settings.dialects = []) (hi : c.settings.options.includedFolders = [])
  (hp : Project.make p.disk c.settings = .ok p) (hg : c.Grounds p (c.registered files) region cache here files)

include hd hi hp hg

-- A build hands back what files come to with its cache.
theorem build_stocked (h : c.Stocked p region here files m w) (hc : w.Confined cache) :
    ∃ m' report files' w', c.build w files = (.ok report, files', w') ∧
      c.Fills p region cache here files (c.startMap m) m' w w' files' report := by
  have ⟨hstart, hmoves⟩ := h.startCache hg.within hc
  have hmake : Project.make (c.startCache w).disk c.settings = .ok { p with disk := (c.startCache w).disk } := by
    rw [c.make_eq p.disk, hp]
    rfl
  have hwarm : c.Warm p (c.registered files) region here files (c.startMap m)
      { workspace := { c.startCache w with log := (c.startCache w).log ++ [] }
        session   := .start (c.registered files) []
        files
        report    := { skipped := files.length - (c.kept files).length } } := {
    plain         := .start hg.keyed []
    raws _        := rfl
    preprocessors := rfl
    disk          := hstart.disk
    serves        := ⟨hstart.serves.memory, fun folder hf =>
      have hholds := hstart.serves.files folder hf
      ⟨hholds.kept, hholds.houses, hholds.stored, hholds.memory⟩⟩
    tame          := hstart.tame }
  have ht (t : Task) (hm : t ∈ c.tasks files) : t.2 ∈ files ∧ (BuildUnit.host t.1).input? files = some (.ofHost t.2) :=
    have hget := mem_tasks hm
    ⟨List.mem_of_getElem? hget, congrArg (Option.map Input.ofHost) hget⟩
  have hproject : (c.plainPlan files { p with disk := (c.startCache w).disk }).project =
      { p with disk := (c.startCache w).disk } := rfl
  have ⟨m', b', results, hrun, hwarm', hmoves', hanswers, hperm, hgives⟩ :=
    hwarm.buildUnits hg ht hproject (map_tasks BuildUnit.host).symm
  have hindex : (results.map Result.index).Nodup := by
    have hmap : ((c.tasks files).map (c.resultOf p (c.registered files) (c.startMap m))).map Result.index = c.kept files := by
      rw [List.map_map]
      exact (map_tasks id).trans (List.map_id _)
    exact ((hperm.map _).nodup_iff).2 (hmap ▸ kept_nodup)
  refine ⟨m', b'.report, b'.files, b'.workspace, ?_, {
    stocked := ⟨hwarm'.disk, hwarm'.serves, hwarm'.tame⟩
    moves   := hmoves.trans ⟨hmoves'.folder, hmoves'.disk⟩
    answers := hanswers
    handed  := hgives.files.trans (Result.foldl_give_perm hperm hindex _)
    report  := hgives.report ▸ (BuildReport.Counts.of_foldl _ results).perm hperm }⟩
  unfold build
  dsimp only
  rw [plan_plain hd hi, hmake]
  dsimp only [Except.map]
  rw [← hrun]
  rfl

end

-- What has been handed back in full is answered from then on.
theorem resultOf_again (h : c.answerOf p registry m' t.2 = (c.answerOf p registry m t.2).or (c.kept? p registry t.2)) :
    c.resultOf p registry m' t = (c.resultOf p registry m t).again := by
  cases ha : c.answerOf p registry m t.2
  case some r =>
    rw [ha, Option.some_or] at h
    rw [resultOf_some h, resultOf_some ha, Result.again, Handed.ending]
    cases (c.handed (.ofHost t.2) (.ok r)).errors <;> rfl
  case none =>
    rw [ha, Option.none_or, kept?] at h
    rw [resultOf_none ha]
    cases halone : c.alone p registry (t.2.source c.settings)
    case error e =>
      rw [halone] at h
      rw [resultOf_none h, freshResult, halone]
      rfl
    case ok r =>
      rw [halone] at h
      dsimp only at h
      cases herrors : (c.handed (.ofHost t.2) (.ok r)).errors
      case nil =>
        rw [if_pos herrors] at h
        rw [resultOf_some h, freshResult, halone, Handed.ending, Handed.ending, herrors]
        rfl
      case cons =>
        rw [if_neg (by simp [herrors])] at h
        rw [resultOf_none h, freshResult, halone, Result.again, Handed.ending, herrors]
        rfl

-- A second build hands back the same. With caching, nothing is left to be compiled in it.
theorem Fills.again {m'' : CacheMap} {w₂ w₂' : Workspace} {files' files'' : List HostFile} {report report' : BuildReport}
    (h : c.Fills p region cache here files (c.startMap m) m' w w' files' report)
    (h' : c.Fills p region cache here files (c.startMap m') m'' w₂ w₂' files'' report') :
    files'' = files' ∧ report'.skipped = report.skipped ∧ report'.failed = report.failed ∧
      (c.settings.options.caching = true → report'.compiled = 0 ∧ report'.cached = report.compiled + report.cached) := by
  have hcounts := h'.report
  have hfiles := h'.handed
  cases hcaching : c.settings.options.caching
  case false =>
    have hstart (m : CacheMap) : c.startMap m = fun _ => none := by
      rw [startMap, hcaching]
      rfl
    rw [hstart, ← hstart m] at hcounts hfiles
    have hreport := h.report
    refine ⟨hfiles.trans h.handed.symm, ?_, ?_, nofun⟩
    · rw [hcounts.skipped, hreport.skipped]
    · rw [hcounts.failed, hreport.failed]
  case true =>
    have hstart : c.startMap m' = m' := by
      rw [startMap, hcaching]
      rfl
    have hresults : (c.tasks files).map (c.resultOf p (c.registered files) m') =
        ((c.tasks files).map (c.resultOf p (c.registered files) (c.startMap m))).map Result.again := by
      rw [List.map_map]
      exact List.map_congr_left fun t hm => resultOf_again (h.answers t hm)
    rw [hstart, hresults] at hcounts hfiles
    have ⟨hcompiled, hcached, hskipped, hfailed⟩ := h.report.again hcounts
    refine ⟨?_, hskipped, hfailed, fun _ => ⟨hcompiled, hcached⟩⟩
    rw [hfiles, h.handed, List.foldl_map]
    rfl

end Compiler

end ScopedCss
