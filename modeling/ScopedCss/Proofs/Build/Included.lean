import ScopedCss.Proofs.Build.Texts

namespace ScopedCss

theorem countP_range {α : Type} (l : List α) (P : α → Bool) :
    (List.range l.length).countP (fun n => l[n]?.any P) = l.countP P := by
  have hmap : (List.range l.length).map (l[·]?) = l.map some := by
    refine List.ext_getElem (by simp) fun n hn _ => ?_
    simp only [List.length_map, List.length_range] at hn
    simp [hn]
  have hcount := congrArg (List.countP (Option.any P)) hmap
  rw [List.countP_map, List.countP_map] at hcount
  exact hcount

namespace Compiler

variable {c : Compiler} {disk : Disk} {files : List HostFile} {found : List IncludedFile} {q : String}

-- The path of the file that a unit is for.
def unitPath? (c : Compiler) (files : List HostFile) (u : BuildUnit) : Option String :=
  (u.input? files).map (·.path c.settings)

-- Of the included files, the first under each path that is not known yet is kept.
theorem mem_paths_newFiles {known : List String} :
    q ∈ (c.newFiles known found).map c.pathOf ↔ q ∈ found.map c.pathOf ∧ q ∉ known := by
  -- What is known grows with each file that is kept.
  induction found generalizing known
  case nil => simp [newFiles]
  case cons g found ih =>
    have hnew : c.newFiles known (g :: found) =
        if known.contains (c.pathOf g) then c.newFiles known found
        else g :: c.newFiles (c.pathOf g :: known) found := rfl
    rw [hnew]
    split
    case isTrue hg =>
      have hg : c.pathOf g ∈ known := List.contains_iff_mem.1 hg
      rw [ih, List.map_cons, List.mem_cons]
      refine ⟨And.imp_left .inr, ?_⟩
      rintro ⟨rfl | hm, hk⟩
      case inl => exact absurd hg hk
      case inr => exact ⟨hm, hk⟩
    case isFalse hg =>
      rw [List.contains_iff_mem] at hg
      rw [List.map_cons, List.mem_cons, ih, List.map_cons, List.mem_cons, List.mem_cons, not_or]
      by_cases hq : q = c.pathOf g
      case pos => simp [hq, hg]
      case neg => simp [hq]

theorem count_newFiles (known : List String) :
    ((c.newFiles known found).map c.pathOf).count q = if q ∈ found.map c.pathOf ∧ q ∉ known then 1 else 0 := by
  rw [(newFiles_nodup known found).count]
  simp only [mem_paths_newFiles]

theorem mem_keys_register {s : Settings} (inputs : List Input) (r : Registry) :
    q ∈ (inputs.foldl (fun registry i => registry.insert (i.source s i.contents)) r).sources.keys ↔
      q ∈ r.sources.keys ∨ ∃ i ∈ inputs, i.path s = q := by
  induction inputs generalizing r
  case nil => simp
  case cons i inputs ih =>
    have hinsert : q ∈ (r.insert (i.source s i.contents)).sources.keys ↔ q ∈ r.sources.keys ∨ i.path s = q := by
      change q ∈ (r.sources.insert (i.path s) (i.source s i.contents)).keys ↔ _
      rw [Dict.keys_insert]
      split
      case isTrue hm  => exact ⟨.inl, fun h => h.elim id fun he => he ▸ hm⟩
      case isFalse hm => rw [List.mem_append, List.mem_singleton, eq_comm (a := q)]
    rw [List.foldl_cons, ih, hinsert, or_assoc]
    simp

theorem mem_registered : q ∈ (c.registered files).sources.keys ↔ ∃ f ∈ files, (f.source c.settings).path = q := by
  rw [registered, mem_keys_register]
  have hstart : ¬q ∈ (Registry.ofSettings c.settings
    ((files.head?.map (·.arch)).getD c.settings.options.clientArch)).sources.keys := by
    rintro ⟨⟩
  simp only [hstart, false_or, List.mem_map, exists_exists_and_eq_and]
  exact Iff.rfl

theorem countP_hosts :
    ((c.kept files).map BuildUnit.host).countP (c.unitPath? files · = some q) =
      files.countP fun f => c.settings.keeps f.place && (f.source c.settings).path = q := by
  rw [List.countP_map, kept, List.countP_filter, ← countP_range files]
  refine List.countP_congr fun n _ => ?_
  cases hf : files[n]?
  case none => simp [unitPath?, BuildUnit.input?, BuildUnit.handle, hf]
  case some f =>
    have hpath : c.unitPath? files (.host n) = some (f.source c.settings).path := by
      rw [unitPath?, BuildUnit.input?, BuildUnit.handle, hf]
      rfl
    simp [hpath, and_comm]

theorem countP_included {backing : Nat} (hb : backing < files.length) (l : List IncludedFile) :
    (l.map (BuildUnit.included · backing)).countP (c.unitPath? files · = some q) = (l.map c.pathOf).count q := by
  rw [List.countP_map, List.count, List.countP_map]
  refine List.countP_congr fun f _ => ?_
  have hpath : c.unitPath? files (.included f backing) = some (c.pathOf f) := by
    rw [unitPath?, BuildUnit.input?, BuildUnit.handle, List.getElem?_eq_getElem hb, Option.map_some, Option.map_some]
    exact congrArg some (path_included ..)
  simp [hpath]

-- A path under which files were found is that of one included file, or of the files that were asked for under it
-- and are kept.
theorem countP_unitsOf {n : Nat} (hn : (c.kept files).head? = some n) (hq : q ∈ found.map c.pathOf) :
    (c.unitsOf files found).countP (c.unitPath? files · = some q) =
      if ∃ f ∈ files, (f.source c.settings).path = q then
        files.countP fun f => c.settings.keeps f.place && (f.source c.settings).path = q
      else 1 := by
  have hlt : n < files.length := lt_of_mem_kept (List.mem_of_mem_head? hn)
  rw [unitsOf, List.countP_append, countP_hosts, hn, Option.getD_some, countP_included hlt, count_newFiles]
  split
  case isTrue hnew =>
    -- Nothing has been asked for under the path, so that all there is is the file that is included first.
    have hnone : ¬∃ f ∈ files, (f.source c.settings).path = q := fun hf => hnew.2 (mem_registered.2 hf)
    rw [if_neg hnone, Nat.add_eq_right]
    refine List.countP_eq_zero.2 fun f hf hp => hnone ⟨f, hf, ?_⟩
    exact of_decide_eq_true (Bool.and_eq_true_iff.1 hp).2
  case isFalse hknown =>
    rw [if_pos (mem_registered.1 (not_not.1 fun hnew => hknown ⟨hq, hnew⟩)), Nat.add_zero]

theorem countP_kept (hn : (files.map fun f => (f.source c.settings).path).count q ≤ 1)
    (hk : ∀ f ∈ files, (f.source c.settings).path = q → c.settings.keeps f.place = true)
    (hq : ∃ f ∈ files, (f.source c.settings).path = q) :
    files.countP (fun f => c.settings.keeps f.place && (f.source c.settings).path = q) = 1 := by
  have hpath : files.countP (fun f => c.settings.keeps f.place && (f.source c.settings).path = q) =
      (files.map fun f => (f.source c.settings).path).count q := by
    rw [List.count, List.countP_map]
    refine List.countP_congr fun f hf => ?_
    simpa using hk f hf
  rw [hpath]
  exact Nat.le_antisymm hn (List.count_pos_iff.2 (List.mem_map.2 hq))

-- In a build that has a file to hand included ones back with, each file with a handled extension below an included
-- folder ends once, as a unit of its own or as one that was asked for. Only one that was asked for and is ignored
-- does not, since what has been asked for is known already.
theorem included_files_end {w w' : Workspace} {files' : List HostFile} {report : BuildReport}
    (h : c.build w files = (.ok report, files', w')) (hk : ∃ f ∈ files, c.settings.keeps f.place = true) :
    ∃ found ended, c.Accounts files found ended report files' ∧
      ∀ folder ∈ c.settings.options.includedFolders, ∀ path ∈ c.handledBelow (c.startCache w).disk folder,
        let q := (Resolver.ofBase c.settings.base).absolute path
        let units := ended.countP fun u => c.unitPath? files u.1 = some q
        (units =
          if ∃ f ∈ files, (f.source c.settings).path = q then
            files.countP fun f => c.settings.keeps f.place && (f.source c.settings).path = q
          else 1) ∧
        ((files.map fun f => (f.source c.settings).path).count q ≤ 1 →
          (∀ f ∈ files, (f.source c.settings).path = q → c.settings.keeps f.place = true) → units = 1) := by
  have haccounts := c.build_accounts w files
  rw [h] at haccounts
  have ⟨found, log, ended, hfound, hended⟩ := haccounts
  refine ⟨found, ended, hended, fun folder hf path hp => ?_⟩
  have ⟨n, hn⟩ : ∃ n, (c.kept files).head? = some n := by
    have ⟨f, hf, hkeeps⟩ := hk
    have ⟨n, hget⟩ := List.mem_iff_getElem?.1 hf
    have hm : n ∈ c.kept files := (mem_kept hget).2 hkeeps
    exact ⟨_, List.head?_eq_some_head (List.ne_nil_of_mem hm)⟩
  have ⟨file, hfile, he⟩ := found_of_discover (hn ▸ hfound) hf hp
  subst he
  have hcount := countP_unitsOf hn (List.mem_map_of_mem (f := c.pathOf) hfile)
  rw [← hended.units.countP_eq, List.countP_map] at hcount
  refine ⟨hcount, fun honce hkept => hcount.trans ?_⟩
  split
  case isTrue hq => exact countP_kept honce hkept hq
  case isFalse   => rfl

-- Two included folders with a file in each. One of the files is asked for, but ignored.
def sharedDisk : Disk :=
  { Disk.empty with
    files   := .ofList [("/lib/x.css", ".x \x7b\x7d"), ("/kit/y.css", ".y \x7b\x7d")]
    folders := ["/lib", "/kit"] }

def sharing : Compiler :=
  { bare with
    settings := { bare.settings with
      options := { bare.settings.options with includedFolders := ["lib", "kit"] }
      ignored := (Pattern.compile "^lib/" "").toOption.toList } }

def sharedFiles : List HostFile :=
  [.ofText "main.css" "web.browser" ".m \x7b\x7d", .ofText "lib/x.css" "web.browser" ".x \x7b\x7d"]

-- Then the ignored file is not built, though the other one is.
theorem included_files_end_ignored :
    (∃ f ∈ sharedFiles, sharing.settings.keeps f.place = true) ∧
    ∃ report files' w', sharing.build (.inMemory sharedDisk) sharedFiles = (.ok report, files', w') ∧
      "/lib/x.css" ∈ sharing.handledBelow sharedDisk "lib" ∧
      ∃ found ended, sharing.Accounts sharedFiles found ended report files' ∧
        ended.countP (fun u => sharing.unitPath? sharedFiles u.1 = some "/lib/x.css") = 0 ∧
        ended.countP (fun u => sharing.unitPath? sharedFiles u.1 = some "/kit/y.css") = 1 := by
  have hk : ∃ f ∈ sharedFiles, sharing.settings.keeps f.place = true := ⟨_, .head _, by decide +kernel⟩
  have hx : "/lib/x.css" ∈ sharing.handledBelow sharedDisk "lib" := by decide +kernel
  have hy : "/kit/y.css" ∈ sharing.handledBelow sharedDisk "kit" := by decide +kernel
  have hplans : (sharing.plan sharedDisk sharedFiles).toOption.isSome = true := by decide +kernel
  cases hp : sharing.plan sharedDisk sharedFiles
  case error =>
    rw [hp] at hplans
    cases hplans
  case ok plan =>
    let b : FirstBuild := ⟨sharing, sharedDisk, sharedFiles, plan, hp⟩
    have hbuild : sharing.build (.inMemory sharedDisk) sharedFiles =
      (.ok b.final.report, b.final.files, b.final.workspace) := b.build_eq
    have ⟨found, ended, haccounts, hcount⟩ := included_files_end hbuild hk
    rw [startCache_inMemory] at hcount
    refine ⟨hk, _, _, _, hbuild, hx, found, ended, haccounts, ?_, ?_⟩
    case refine_1 => exact (hcount "lib" (by decide) "/lib/x.css" hx).1.trans (by decide +kernel)
    case refine_2 => exact (hcount "kit" (by decide) "/kit/y.css" hy).1.trans (by decide +kernel)

end Compiler

end ScopedCss
