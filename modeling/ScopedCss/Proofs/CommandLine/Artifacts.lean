import ScopedCss.Proofs.Build.Deliveries
import ScopedCss.Proofs.Build.Included
import ScopedCss.Proofs.Cache.Known
import ScopedCss.Proofs.Output.Targets

namespace ScopedCss

open Path OutputTemplate

section

variable {base out : String} {names : List Segment}

-- The folder that the place of an input is given from, ...
def Input.home (i : Input) (s : Settings) : String :=
  if isAbsolute i.place then s.base else (Resolver.ofBase s.base).inPackage i.package ""

-- ... and its path from there on.
def Input.mirrored (i : Input) (s : Settings) : List Segment :=
  mirror (i.home s) (i.path s)

-- What is written for an input lands where its file is, as seen from the folder that its place is given from.
theorem Lands.mirrored {i : Input} {s : Settings} (hb : IsBase s.base) (h : Lands s.base i.place names) :
    i.mirrored s = names := by
  unfold Input.mirrored Input.home Input.path Input.source
  generalize i.place = place at h
  cases h
  case rooted hp _ =>
    have ha := hp.isAbsolute
    simp only [ha, if_true]
    rw [Resolver.absolute, if_pos ha, hp.clean_eq]
  case relative folders name hu ha hd =>
    have hbelow (folder : String) (hf : (forwardSlashes folder).toList.head?.all (· == '/') = true) :
        mirror (clean (folder ++ "/" ++ "")) (clean (folder ++ "/" ++ place)) = folders ++ [name] := by
      obtain ⟨c, hrooted, hc, hdown⟩ := exists_canonical_down folder
      rw [hf] at hrooted
      rw [String.append_empty, ← hc, hdown place folders name hd, hrooted]
      exact mirror_canonical hrooted (by simp) hd.isName_names
    simp only [ha, Bool.false_eq_true, if_false]
    cases i.package
    all_goals
      simp only [Resolver.inPackage, hb.ofBase_base]
      refine hbelow _ ?_
    case none      => simpa only [String.append_empty] using hb.head?_all "" rfl
    case some name =>
      rw [String.append_assoc]
      exact hb.head?_all _ (by simp)

-- In the base folder itself, a file is told by its names from there.
theorem Lands.path_below {i : Input} {s : Settings} (hb : IsBase s.base) (h : Lands s.base i.place names)
    (hp : i.package = none) (hbelow : (below? s.base (i.path s)).isSome) :
    i.path s = s.base ++ "/" ++ .ofList (Text.join ['/'] names) := by
  unfold Input.path Input.source at hbelow ⊢
  generalize i.place = place at h hbelow
  cases h
  case rooted hplace _ =>
    have ha := hplace.isAbsolute
    simp only [ha, if_true, Resolver.absolute, hplace.clean_eq] at hbelow ⊢
    obtain ⟨rest, hrest⟩ := Option.isSome_iff_exists.1 hbelow
    have hp := below?_eq_some_iff.1 hrest
    rw [hplace.toList_below hrest] at hp
    rw [mirror, hrest, Option.getD_some]
    exact String.toList_inj.1 (by simp [hp])
  case relative folders name hu ha hd =>
    simp only [ha, Bool.false_eq_true, if_false, hp, Resolver.inPackage, hb.ofBase_base]
    exact hb.clean_down hd

-- What is written of what is handed back with a file, ...
def Handed.outputs (base out : String) (h : Handed) : List (String × String) :=
  HostFile.outputs base out { place := "", arch := "", contents := "", sheets := h.sheets, scripts := h.scripts }

theorem outputs_hand (f : HostFile) (h : Handed) :
    ((f.hand h).outputs base out).Perm (f.outputs base out ++ h.outputs base out) := by
  simp only [HostFile.outputs, Handed.outputs, HostFile.hand, List.flatMap_append, List.map_append, List.append_assoc]
  refine .append_left _ ?_
  rw [← List.append_assoc, ← List.append_assoc]
  exact .append_right _ List.perm_append_comm

-- ... is written besides what has been handed back before.
theorem outputs_give {files : List HostFile} {d : Delivery} (hd : d.unit.handle < files.length) :
    ((Delivery.give files d).flatMap (·.outputs base out)).Perm
      (files.flatMap (·.outputs base out) ++ d.handed.outputs base out) := by
  unfold Delivery.give
  generalize d.unit.handle = n at hd
  induction files generalizing n
  case nil => cases hd
  case cons f files ih =>
    cases n
    case zero =>
      rw [List.modify_zero_cons, List.flatMap_cons, List.flatMap_cons, List.append_assoc]
      refine ((outputs_hand f d.handed).append_right _).trans ?_
      rw [List.append_assoc]
      exact .append_left _ List.perm_append_comm
    case succ n =>
      rw [List.modify_succ_cons, List.flatMap_cons, List.flatMap_cons, List.append_assoc]
      exact (ih n (Nat.lt_of_succ_lt_succ hd)).append_left _

theorem outputs_gives (base out : String) {files : List HostFile} {ds : List Delivery}
    (hd : ∀ d ∈ ds, d.unit.handle < files.length) :
    ((ds.foldl Delivery.give files).flatMap (·.outputs base out)).Perm
      (files.flatMap (·.outputs base out) ++ ds.flatMap (·.handed.outputs base out)) := by
  induction ds generalizing files
  case nil => simp
  case cons d ds ih =>
    have hlength : (Delivery.give files d).length = files.length := List.length_modify ..
    obtain ⟨hfirst, hrest⟩ := List.forall_mem_cons.1 hd
    refine (ih fun d hm => hlength ▸ hrest d hm).trans ?_
    rw [List.flatMap_cons, ← List.append_assoc]
    exact (outputs_give hfirst).append_right _

namespace Compiler

variable {c : Compiler} {p : Project} {w w' : Workspace} {b : BuildState} {u : BuildUnit} {i : Input}

-- No templates for the paths of artifacts have been given.
structure Untemplated (o : Options) : Prop where
  sheetPath  : o.sheetPath = .single identityText
  scriptPath : o.scriptPath = .single identityText

theorem artifacts_untemplated (ho : Untemplated c.settings.options) (arch : String) (r : Compiled) :
    ∃ sheets scripts, c.artifacts arch r = (.ok sheets, .ok scripts) ∧
      (sheets = [] ∨ ∃ map, sheets =
        [⟨r.css, fill identityText r.place ++ ".css", fill identityText r.place ++ ".css", map, false⟩]) ∧
      (scripts = [] ∨ ∃ text,
        scripts = [⟨text, fill identityText r.place ++ ".js", fill identityText r.place, r.isLazy, false⟩]) := by
  have hexpand : (OutputTemplate.single identityText).expand r.place = .ok (fill identityText r.place) := rfl
  unfold artifacts
  dsimp only
  rw [ho.sheetPath, ho.scriptPath, hexpand]
  split
  all_goals
    split
    all_goals refine ⟨_, _, rfl, ?_, ?_⟩
  all_goals first | exact .inl rfl | exact .inr ⟨_, rfl⟩

theorem handed_targets (ho : Untemplated c.settings.options) (base out : String) (i : Input) (r : Compiled) :
    (((c.handed i (.ok r)).outputs base out).map Prod.fst).Sublist (targets base out r.place) := by
  obtain ⟨sheets, scripts, hartifacts, hsheets, hscripts⟩ := artifacts_untemplated ho i.arch r
  have hhanded : c.handed i (.ok r) = ⟨sheets, scripts, []⟩ := by
    unfold handed
    dsimp only
    rw [hartifacts]
  rw [hhanded]
  unfold Handed.outputs HostFile.outputs targets
  dsimp only
  rw [List.map_append]
  refine List.Sublist.append (?sheets : List.Sublist _ [_, _]) (?scripts : List.Sublist _ [_])
  case sheets =>
    rcases hsheets with rfl | ⟨_ | map, rfl⟩
    · simp
    · simp
    · simp
  case scripts =>
    rcases hscripts with rfl | ⟨text, rfl⟩
    · simp
    · simp

theorem render_place {role : Role} {source source' : Source} {s : Session}
    (h : ((render p role source).on s).1 = .ok source') : source'.place = source.place := by
  cases role
  case root index =>
    unfold render at h
    rw [SessionM.render_on] at h
    cases hp : s.preprocessors[index]?
    all_goals rw [hp] at h
    case none => rw [← Except.ok.inj h]
    case some =>
      rcases Preprocessor.render_result h with rfl | ⟨css, l, rfl⟩
      · rfl
      · rfl
  all_goals rw [← Except.ok.inj h]

theorem scope_place {source source' : Source} {s : Session}
    (h : ((SessionM.scope p source).on s).1 = .ok source') : source'.place = source.place := by
  rw [SessionM.scope_on] at h
  split at h
  case isTrue  => rw [← Except.ok.inj h]
  case isFalse =>
    rcases hv : (Visit.top p s source).run p with ⟨e | r, t⟩
    all_goals rw [hv] at h
    case error => cases h
    case ok    => rw [← Except.ok.inj h]; rfl

-- Looking up a result leaves no more in the cache than was there, and finds none that was not.
theorem reusing_shrinks (h : w.Shrinks b.workspace) :
    w.Shrinks ((c.reusing i).run b).2.workspace ∧ ∀ r, ((c.reusing i).run b).1 = some r →
      ∃ e, w.Knows (i.path c.settings) e ∧ e.key = c.keyFor i ∧ e.result = r := by
  obtain ⟨hshrinks, hknown⟩ :=
    Workspace.shrinks_reuse h.proper (i.path c.settings) (c.keyFor i) b.workspace.disk b.session
  rcases hr : ((Workspace.reuse (i.path c.settings) (c.keyFor i) (BuildM.hashOf b.workspace.disk)).run b.workspace).run
    b.session with ⟨⟨r, w'⟩, t⟩
  rw [hr] at hshrinks hknown
  rw [reusing, BuildM.reuse_run hr]
  refine ⟨h.trans hshrinks, fun r hr => ?_⟩
  obtain ⟨e, he, hkey, hresult⟩ := hknown r hr
  exact ⟨e, h.known _ e he, hkey, hresult⟩

theorem prepare_shrinks (h : w.Shrinks b.workspace) : w.Shrinks ((c.prepare p u i).run b).2.workspace := by
  have hreused := (reusing_shrinks (c := c) (i := i) h).1
  have hrun := prepare_run (c := c) (p := p) (u := u) (i := i) b
  generalize (c.prepare p u i).run b = result at hrun
  cases hrun
  case skipped hsame => exact h.of_eq hsame.disk hsame.cache
  case answered hr hands =>
    rw [hr] at hreused
    exact hreused.of_eq hands.same.disk hands.same.cache
  case refused hr _ hands =>
    rw [hr] at hreused
    exact hreused.of_eq hands.same.disk hands.same.cache
  case rendered hr _ =>
    rw [hr] at hreused
    exact hreused.of_eq rfl rfl

theorem startCache_proper (c : Compiler) (hw : w.disk.Proper) : (c.startCache w).disk.Proper := by
  unfold startCache
  split
  case isTrue  => exact hw
  case isFalse => exact Workspace.forgetAll_proper hw

-- An input that lands somewhere, and results for it in the cache that land there too.
structure Places (c : Compiler) (w : Workspace) (i : Input) : Prop where
  lands  : ∃ names, Lands c.settings.base i.place names
  cached : ∀ e, w.Knows (i.path c.settings) e → e.key = c.keyFor i →
    Lands c.settings.base e.result.place (i.mirrored c.settings)

-- What is written of a delivery is what is written for a file that lands where the input does.
def WritesTo (c : Compiler) (out : String) (i : Input) (d : Delivery) : Prop :=
  ∃ place, Lands c.settings.base place (i.mirrored c.settings) ∧
    ((d.handed.outputs c.settings.base out).map Prod.fst).Sublist (targets c.settings.base out place)

theorem Places.lands_mirrored (hb : IsBase c.settings.base) (h : c.Places w i) :
    Lands c.settings.base i.place (i.mirrored c.settings) := by
  obtain ⟨names, hn⟩ := h.lands
  exact (hn.mirrored hb).symm ▸ hn

theorem steps_writing (ho : Untemplated c.settings.options) (hb : IsBase c.settings.base) (out : String) :
    c.Steps p (fun b => w.Shrinks b.workspace) (fun _ => True) (fun u => u.source.place = u.input.place)
      (fun i d => c.Places w i → c.WritesTo out i d) where
  prepare {b u i} h hi := by
    refine ⟨prepare_shrinks h, prepare_passes_of hi ?skipped ?cached ?refused ?ready⟩
    case skipped => exact fun hs => ⟨_, hs.lands_mirrored hb, List.nil_sublist _⟩
    case cached =>
      intro r hr hs
      obtain ⟨e, he, hkey, rfl⟩ := (reusing_shrinks h).2 r hr
      exact ⟨_, hs.cached e he hkey, handed_targets ho c.settings.base out i e.result⟩
    case refused => exact fun e hs => ⟨_, hs.lands_mirrored hb, List.nil_sublist _⟩
    case ready   => exact render_place
  turn _ := trivial
  finish {b u} _ hi hr := by
    refine ⟨trivial, _, rfl, fun hs => ⟨_, hs.lands_mirrored hb, ?_⟩, finish_delivers hi u.2.2⟩
    cases hscope : ((SessionM.scope { p with disk := b.workspace.disk } u.2.2.source).on b.session).1
    case error => exact List.nil_sublist _
    case ok source =>
      have hplace : (Compiled.ofSource source (c.settings.isClient source.arch)).place = u.input.place :=
        (scope_place hscope).trans hr
      have hwritten := handed_targets ho c.settings.base out u.input
        (.ofSource source (c.settings.isClient source.arch))
      rw [hplace] at hwritten
      exact hwritten

variable {files files' : List HostFile} {found : List IncludedFile} {report : BuildReport} {log : Log}

-- The path of the file that a unit is for, from the folder that its place is given from.
def mirrored? (c : Compiler) (files : List HostFile) (u : BuildUnit) : Option (List Segment) :=
  (u.input? files).map (·.mirrored c.settings)

-- What deliveries are written to is different if it lands in different places.
theorem nodup_written {ds : List Delivery} (hb : IsBase c.settings.base)
    (hd : ∀ d ∈ ds, ∃ i, d.unit.input? files = some i ∧ c.WritesTo out i d)
    (hapart : ((ds.map Delivery.unit).map (c.mirrored? files)).Nodup) :
    (ds.flatMap fun d => (d.handed.outputs c.settings.base out).map fun o => clean o.1).Nodup := by
  have hclean (d : Delivery) : ((d.handed.outputs c.settings.base out).map fun o => clean o.1) =
      ((d.handed.outputs c.settings.base out).map Prod.fst).map clean := by
    rw [List.map_map]
    rfl
  rw [List.nodup_flatMap]
  constructor
  case left =>
    intro d hm
    obtain ⟨i, -, place, hlands, hsublist⟩ := hd d hm
    rw [hclean]
    exact (targets_apart hb hlands out).1.sublist (hsublist.map clean)
  case right =>
    rw [List.map_map, List.Nodup, List.pairwise_map] at hapart
    refine hapart.imp_of_mem fun {d d'} hm hm' hne => ?_
    obtain ⟨i, hi, place, hlands, hsublist⟩ := hd d hm
    obtain ⟨i', hi', place', hlands', hsublist'⟩ := hd d' hm'
    have hmirrored : i.mirrored c.settings ≠ i'.mirrored c.settings := fun he => hne <| by
      simp only [Function.comp_apply, mirrored?, hi, hi', Option.map_some, he]
    have hdisjoint := (targets_apart hb hlands out).2 hlands' hmirrored
    change List.Disjoint (List.map _ _) (List.map _ _)
    rw [hclean, hclean]
    exact fun path hp hp' =>
      hdisjoint ((hsublist.map clean).subset hp) ((hsublist'.map clean).subset hp')

-- In the base folder itself, different files are different from there.
theorem nodup_mirrored {units : List BuildUnit} (hb : IsBase c.settings.base)
    (hu : ∀ u ∈ units, ∃ i, u.input? files = some i ∧ Lands c.settings.base i.place (i.mirrored c.settings) ∧
      i.package = none ∧ (below? c.settings.base (i.path c.settings)).isSome)
    (hpaths : (units.map (c.unitPath? files)).Nodup) : (units.map (c.mirrored? files)).Nodup := by
  rw [List.Nodup, List.pairwise_map] at hpaths ⊢
  refine hpaths.imp_of_mem fun {u u'} hm hm' hne he => hne ?_
  obtain ⟨i, hi, hl, hp, hbelow⟩ := hu u hm
  obtain ⟨i', hi', hl', hp', hbelow'⟩ := hu u' hm'
  rw [mirrored?, mirrored?, hi, hi', Option.map_some, Option.map_some, Option.some_inj] at he
  rw [unitPath?, unitPath?, hi, hi', Option.map_some, Option.map_some, hl.path_below hb hp hbelow,
    hl'.path_below hb hp' hbelow', he]

-- Artifacts of a build are written to different files if the files that they are made from are different, each of them
-- as seen from the folder that its place is given from. So they are if all files are in the base folder itself, and
-- have different paths.
theorem build_writes_apart (h : c.build w files = (.ok report, files', w'))
    (hfound : c.discover (c.startCache w).disk (c.kept files).head? = .ok (found, log))
    (ho : Untemplated c.settings.options) (hb : IsBase c.settings.base) (hw : w.disk.Proper)
    (hnew : ∀ f ∈ files, f.sheets = [] ∧ f.scripts = [])
    (hs : ∀ u ∈ c.unitsOf files found, ∀ i, u.input? files = some i → c.Places (c.startCache w) i)
    (hapart : ((c.unitsOf files found).map (c.mirrored? files)).Nodup ∨
      (∀ u ∈ c.unitsOf files found, ∀ i, u.input? files = some i →
          i.package = none ∧ (below? c.settings.base (i.path c.settings)).isSome) ∧
        ((c.unitsOf files found).map (c.unitPath? files)).Nodup)
    (out : String) :
    ((files'.flatMap (·.outputs c.settings.base out)).map fun o => clean o.1).Nodup := by
  have hproper := startCache_proper c hw
  obtain ⟨found', log', ds, hfound', hd⟩ := Steps.build h fun plan hp =>
    ⟨c.steps_writing (p := plan.project) (w := c.startCache w) ho hb out, .of_eq (.refl hproper) rfl rfl⟩
  cases hfound.symm.trans hfound'
  have hunit {d : Delivery} (hm : d ∈ ds) : d.unit ∈ c.unitsOf files found :=
    hd.units.mem_iff.1 (List.mem_map_of_mem hm)
  have hwrites (d : Delivery) (hm : d ∈ ds) : ∃ i, d.unit.input? files = some i ∧ c.WritesTo out i d := by
    obtain ⟨i, hi, hdel⟩ := hd.delivered d hm
    exact ⟨i, hi, hdel (hs d.unit (hunit hm) i hi)⟩
  have hmirrored : ((c.unitsOf files found).map (c.mirrored? files)).Nodup := by
    refine hapart.elim id fun ⟨hin, hpaths⟩ => nodup_mirrored hb (fun u hu => ?_) hpaths
    obtain ⟨d, hm, rfl⟩ := List.mem_map.1 (hd.units.mem_iff.2 hu)
    obtain ⟨i, hi, -⟩ := hwrites d hm
    exact ⟨i, hi, (hs _ hu i hi).lands_mirrored hb, hin _ hu i hi⟩
  have hempty : files.flatMap (·.outputs c.settings.base out) = [] := by
    refine List.flatMap_eq_nil_iff.2 fun f hf => ?_
    obtain ⟨hsheets, hscripts⟩ := hnew f hf
    simp [HostFile.outputs, hsheets, hscripts]
  have hperm := outputs_gives c.settings.base out fun d hm => handle_lt hfound d.unit (hunit hm)
  rw [hempty, List.nil_append, ← hd.handed] at hperm
  rw [(hperm.map _).nodup_iff, List.map_flatMap]
  exact nodup_written hb hwrites ((hd.units.map _).nodup_iff.2 hmirrored)

-- The included files of a build that ends, and what it has handed back.
def built? (c : Compiler) (w : Workspace) (files : List HostFile) : Option (List IncludedFile × List HostFile) :=
  match c.discover (c.startCache w).disk (c.kept files).head?, c.build w files with
  | .ok (found, _), (.ok _, files', _) => some (found, files')
  | _, _                               => none

theorem of_built? (h : c.built? w files = some (found, files')) :
    ∃ log report w', c.discover (c.startCache w).disk (c.kept files).head? = .ok (found, log) ∧
      c.build w files = (.ok report, files', w') := by
  unfold built? at h
  split at h
  case h_1 hfound hbuild =>
    cases h
    exact ⟨_, _, _, hfound, hbuild⟩
  case h_2 => cases h

-- A file of a project, one of a package in it, and an included one outside.
def mirroredDisk : Disk :=
  { Disk.empty with
    files   := .ofList [("/lib/x.css", ".x \x7b\x7d"), ("/apple/x.css", ".y \x7b\x7d")]
    folders := ["/lib", "/apple"] }

def mirroring (included : String) : Compiler :=
  { bare with
    settings := { bare.settings with
      base    := "/app"
      options := { bare.settings.options with includedFolders := [included] } } }

def styled (place : String) : HostFile :=
  .ofText place "web.browser" ".a \x7b\x7d"

def packaged (package place : String) : HostFile :=
  { styled place with package := some package }

def mirroredFiles : List HostFile :=
  [styled "client/x.css", packaged "ui" "b.css"]

-- Nothing is known that a workspace in memory starts with.
theorem places_inMemory {disk : Disk} {names : List Segment} (h : Lands c.settings.base i.place names) :
    c.Places (c.startCache (.inMemory disk)) i where
  lands := ⟨names, h⟩
  cached e he := by
    rw [startCache_inMemory] at he
    rcases he with he | ⟨folder, hf, -⟩
    · cases he
    · cases hf

def mirroredOutputs : List String :=
  ["client/x.css.css", "client/x.css.css.map", "lib/x.css.css", "lib/x.css.css.map", "client/x.css.js", "lib/x.css.js",
    "b.css.css", "b.css.css.map", "b.css.js"].map ("/out/" ++ ·)

theorem build_writes_apart_mirrored :
    ∃ report files' w', (mirroring "/lib").build (.inMemory mirroredDisk) mirroredFiles = (.ok report, files', w') ∧
      (files'.flatMap (·.outputs "/app" "/out")).map Prod.fst = mirroredOutputs ∧
        ((files'.flatMap (·.outputs "/app" "/out")).map fun o => clean o.1).Nodup := by
  have hrun : ((mirroring "/lib").built? (.inMemory mirroredDisk) mirroredFiles).any (fun built =>
      ((mirroring "/lib").unitsOf mirroredFiles built.1).all (fun u =>
          (u.input? mirroredFiles).all (·.place ∈ ["client/x.css", "b.css", "/lib/x.css"])) &&
        decide (((mirroring "/lib").unitsOf mirroredFiles built.1).map
          ((mirroring "/lib").mirrored? mirroredFiles)).Nodup &&
        (built.2.flatMap (·.outputs "/app" "/out")).map Prod.fst == mirroredOutputs) = true := by
    decide +kernel
  obtain ⟨⟨found, files'⟩, hbuilt, hrun⟩ := (Option.any_eq_true ..).1 hrun
  obtain ⟨log, report, w', hfound, hbuild⟩ := of_built? hbuilt
  simp only [Bool.and_eq_true, List.all_eq_true, decide_eq_true_iff, beq_iff_eq] at hrun
  obtain ⟨⟨hplaces, hapart⟩, hwritten⟩ := hrun
  have hclient : Lands "/app" "client/x.css" _ :=
    .of_names ⟨by decide, by decide⟩ (by decide) (by decide) (by decide +kernel) (by decide) (by decide)
  have hpackage : Lands "/app" "b.css" _ :=
    .of_names ⟨by decide, by decide⟩ (by decide) (by decide) (by decide +kernel) (by decide) (by decide)
  have hincluded : Lands "/app" "/lib/x.css" _ :=
    .rooted ⟨by decide, by decide⟩ ⟨["lib".toList, "x.css".toList], by decide, by decide, by decide +kernel⟩
      (by decide +kernel)
  refine ⟨report, files', w', hbuild, hwritten, ?_⟩
  refine build_writes_apart hbuild hfound ⟨rfl, rfl⟩ ?base ⟨rfl, by decide⟩ (by decide) ?places (.inl hapart) "/out"
  case base => exact .inr ⟨["app".toList], by decide, by decide, by decide +kernel⟩
  case places =>
    intro u hu i hi
    have hplace := hplaces u hu
    rw [hi, Option.all_some, decide_eq_true_iff] at hplace
    simp only [List.mem_cons, List.not_mem_nil, or_false] at hplace
    rcases hplace with hp | hp | hp
    · exact places_inMemory (hp ▸ hclient)
    · exact places_inMemory (hp ▸ hpackage)
    · exact places_inMemory (hp ▸ hincluded)

-- A build of different files without templates, in which one artifact is written over another.
def WritesOver (c : Compiler) (w : Workspace) (files : List HostFile) (out : String) : Prop :=
  Untemplated c.settings.options ∧
    ∃ found log report files' w', c.discover (c.startCache w).disk (c.kept files).head? = .ok (found, log) ∧
      c.build w files = (.ok report, files', w') ∧ ((c.unitsOf files found).map (c.unitPath? files)).Nodup ∧
        ¬((files'.flatMap (·.outputs c.settings.base out)).map fun o => clean o.1).Nodup

def writesOver (c : Compiler) (w : Workspace) (files : List HostFile) (out : String) : Bool :=
  (c.built? w files).any fun (found, files') =>
    decide ((c.unitsOf files found).map (c.unitPath? files)).Nodup &&
      !decide ((files'.flatMap (·.outputs c.settings.base out)).map fun o => clean o.1).Nodup

theorem WritesOver.of_decide {files : List HostFile} (ho : Untemplated c.settings.options)
    (h : writesOver c w files out = true) : c.WritesOver w files out := by
  obtain ⟨⟨found, files'⟩, hbuilt, h⟩ := (Option.any_eq_true ..).1 h
  obtain ⟨log, report, w', hfound, hbuild⟩ := of_built? hbuilt
  rw [Bool.and_eq_true, Bool.not_eq_true', decide_eq_true_iff, decide_eq_false_iff_not] at h
  exact ⟨ho, found, log, report, files', w', hfound, hbuild, h⟩

-- What the conditions on places and paths keep out, build by build: a file outside, and one of the project that has the
-- same path from the base folder on; a file of a package, and one of the project at the same place; a file outside in a
-- folder whose name begins like the base folder's; a folder named like a placeholder; a place that climbs; and a cached
-- result that was made for another place.
theorem build_writes_over :
    (mirroring "/lib").WritesOver (.inMemory mirroredDisk) [styled "lib/x.css"] "/out" ∧
    (mirroring "/lib").WritesOver (.inMemory mirroredDisk) [styled "x.css", packaged "ui" "x.css"] "/out" ∧
    (mirroring "/apple").WritesOver (.inMemory mirroredDisk) [styled "le/x.css"] "/out" ∧
    (mirroring "/lib").WritesOver (.inMemory mirroredDisk)
      [styled "x/x.css", styled "\x7bbasename\x7d/x.css"] "/out" ∧
    (mirroring "/lib").WritesOver (.inMemory mirroredDisk) [styled "x.css", styled "../out/x.css"] "/app/out" ∧
    (mirroring "/lib").WritesOver ((mirroring "/lib").build (.inMemory mirroredDisk) [packaged "ui" "x.css"]).2.2
      [styled "x.css", styled "packages/ui/x.css"] "/out" := by
  have hover {included out : String} {w : Workspace} {files : List HostFile}
      (h : writesOver (mirroring included) w files out = true) : (mirroring included).WritesOver w files out :=
    .of_decide ⟨rfl, rfl⟩ h
  refine ⟨hover ?_, hover ?_, hover ?_, hover ?_, hover ?_, hover ?_⟩
  all_goals decide +kernel

end Compiler

end

end ScopedCss
