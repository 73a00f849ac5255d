import ScopedCss.Proofs.Build.First
import ScopedCss.Proofs.Composition.Origins

namespace ScopedCss

open Scoping SessionM

theorem Text.infix_join {sep w : List Char} {ws : List (List Char)} (h : w ∈ ws) : w <:+: join sep ws := by
  induction ws
  case nil => cases h
  case cons v ws ih =>
    rcases List.mem_cons.1 h with rfl | h
    · cases ws
      case nil       => exact List.infix_refl w
      case cons v ws => exact ⟨[], sep ++ join sep (v :: ws), by simp [join]⟩
    · cases ws
      case nil        => cases h
      case cons v' ws => exact (ih h).trans (List.suffix_append (v ++ sep) _).isInfix

namespace HostFile

-- A style sheet has been handed back with a file: as it is, or in a script that adds it.
def Delivers (f : HostFile) (css : String) : Prop :=
  (∃ sheet ∈ f.sheets, sheet.data = css) ∨
    ∃ script ∈ f.scripts, (Compiled.sheetText css).toList <:+: script.data.toList

-- Of what has been handed back with a file, nothing is taken back.
structure Grows (f f' : HostFile) : Prop where
  sheets  : f.sheets ⊆ f'.sheets
  scripts : f.scripts ⊆ f'.scripts

variable {f f' f'' : HostFile}

theorem Grows.refl (f : HostFile) : f.Grows f :=
  ⟨fun _ => id, fun _ => id⟩

theorem Grows.trans (h : f.Grows f') (h' : f'.Grows f'') : f.Grows f'' where
  sheets  := List.Subset.trans h.sheets h'.sheets
  scripts := List.Subset.trans h.scripts h'.scripts

theorem Delivers.mono {css : String} (h : f.Delivers css) (hg : f.Grows f') : f'.Delivers css :=
  h.imp (fun ⟨sheet, hm, he⟩ => ⟨sheet, hg.sheets hm, he⟩) fun ⟨script, hm, he⟩ => ⟨script, hg.scripts hm, he⟩

theorem grows_emit (f : HostFile) (sheets : List SheetArtifact) (scripts : List ScriptArtifact) :
    f.Grows (f.emit sheets scripts) :=
  ⟨List.subset_append_left _ _, List.subset_append_left _ _⟩

end HostFile

def FilesGrow (l l' : List HostFile) : Prop :=
  ∀ (n : Nat) f, l[n]? = some f → ∃ f', l'[n]? = some f' ∧ f.Grows f'

namespace FilesGrow

variable {l l' l'' : List HostFile}

theorem refl (l : List HostFile) : FilesGrow l l :=
  fun _ f h => ⟨f, h, .refl f⟩

theorem trans (h : FilesGrow l l') (h' : FilesGrow l' l'') : FilesGrow l l'' := by
  intro n f hf
  have ⟨f', hf', hg⟩ := h n f hf
  have ⟨f'', hf'', hg'⟩ := h' n f' hf'
  exact ⟨f'', hf'', hg.trans hg'⟩

theorem modify {g : HostFile → HostFile} (h : ∀ f : HostFile, f.Grows (g f)) (n : Nat) :
    FilesGrow l (l.modify n g) := by
  intro m f hf
  by_cases hm : n = m
  case pos => exact ⟨g f, by simp [hf, hm], h f⟩
  case neg => exact ⟨f, by simp [hf, hm], .refl f⟩

end FilesGrow

namespace Compiler

variable {c : Compiler} {p : Project} {u : BuildUnit} {i : Input} {prepared : Prepared} {b : BuildState}
  {source : Source} {f f' : HostFile}

theorem emit_grows (r : Compiled) (f : HostFile) : f.Grows (c.emit i.arch r f).2 := by
  rw [BuildM.emit_eq]
  rcases c.artifacts i.arch r with ⟨_ | _, _ | _⟩
  case ok.error => exact f.grows_emit _ _
  case ok.ok    => exact f.grows_emit _ _
  all_goals exact .refl f

theorem emitUnit_grow (r : Compiled) : FilesGrow b.files ((c.emitUnit u i r).run b).2.files := by
  rw [BuildM.emitUnit_files]
  exact .modify (emit_grows r) _

theorem fail_grow (e : Error) : FilesGrow b.files ((BuildM.fail u i e).run b).2.files :=
  .modify (g := (·.addError _)) (fun _ => ⟨fun _ => id, fun _ => id⟩) u.handle

theorem finish_grow (prepared : Prepared) (b : BuildState) :
    FilesGrow b.files ((c.finish p u i prepared).run b).2.files := by
  rw [finish_eq]
  rcases (SessionM.scope { p with disk := b.workspace.disk } prepared.source).on b.session with ⟨e | source, t⟩
  case error => exact fail_grow (b := b.withSession t) e
  case ok =>
    have hg := emitUnit_grow (c := c) (u := u) (i := i) (b := b.withSession t)
      (.ofSource source (c.settings.isClient source.arch))
    dsimp only
    rcases he : (c.emitUnit u i (.ofSource source (c.settings.isClient source.arch))).run (b.withSession t)
      with ⟨e | ⟨⟩, b₁⟩
    all_goals rw [he] at hg
    case error => exact hg.trans (fail_grow (b := b₁) e)
    case ok =>
      have ⟨_, hread, _⟩ := BuildM.hashes_filled source.references.keys b₁
      dsimp only
      rw [hread]
      exact hg

-- A unit is counted as compiled once its artifacts have been handed back.
theorem finish_counted {t : Session} (hf : b.files[u.handle]? = some f)
    (hs : (SessionM.scope { p with disk := b.workspace.disk } prepared.source).on b.session = (.ok source, t))
    (h : ((c.finish p u i prepared).run b).2.report.compiled = b.report.compiled + 1) :
    ∃ f', c.emit i.arch (.ofSource source (c.settings.isClient source.arch)) f = (.ok (), f') ∧
      ((c.finish p u i prepared).run b).2.files[u.handle]? = some f' := by
  have hrun : (c.emitUnit u i (.ofSource source (c.settings.isClient source.arch))).run (b.withSession t) =
      ((c.emit i.arch (.ofSource source (c.settings.isClient source.arch)) f).1, { b.withSession t with
        files := b.files.set u.handle (c.emit i.arch (.ofSource source (c.settings.isClient source.arch)) f).2 }) := by
    have hf' : (b.withSession t).files[u.handle]? = some f := hf
    rw [BuildM.emitUnit_run, hf']
    rfl
  rw [finish_eq, hs] at h ⊢
  dsimp only at h ⊢
  rw [hrun] at h ⊢
  generalize c.emit i.arch (.ofSource source (c.settings.isClient source.arch)) f = emitted at h ⊢
  rcases emitted with ⟨e | ⟨⟩, f'⟩
  case error =>
    have hfail : b.report.compiled = b.report.compiled + 1 := h
    omega
  case ok =>
    refine ⟨f', rfl, ?_⟩
    dsimp only
    generalize hb₁ : ({ b.withSession t with files := b.files.set u.handle f' } : BuildState) = b₁
    have ⟨_, hread, _⟩ := BuildM.hashes_filled source.references.keys b₁
    rw [hread, ← hb₁]
    exact List.getElem?_set_self (List.getElem?_eq_some_iff.1 hf).1

theorem sheetText_ne_empty (css : String) : Compiled.sheetText css ≠ "" := by
  intro h
  unfold Compiled.sheetText at h
  have hl := congrArg String.length h
  simp only [String.length_append] at hl
  have hend : ");".length = 2 := rfl
  have hnone : "".length = 0 := rfl
  omega

theorem infix_script (hlazy : isLazyPath source.place = true) (hcss : source.contents ≠ "") :
    (Compiled.sheetText source.contents).toList <:+: ((Compiled.ofSource source true).script true).toList := by
  have hsheet : (Compiled.ofSource source true).sheetCode = Compiled.sheetText source.contents := by
    simp [Compiled.ofSource, hlazy, hcss]
  unfold Compiled.script
  rw [String.toList_intercalate, Text.intercalate_eq_join]
  refine Text.infix_join (List.mem_map.2 ⟨_, ?_, rfl⟩)
  simp [hsheet, sheetText_ne_empty]

theorem artifacts_sheets {r : Compiled} {arch : String} {sheets : List SheetArtifact}
    (h : (c.artifacts arch r).1 = .ok sheets) (hcss : r.css ≠ "") (hclient : c.settings.isClient arch = true)
    (hlazy : r.isLazy = false) : ∃ sheet ∈ sheets, sheet.data = r.css := by
  unfold artifacts at h
  dsimp only at h
  rw [if_pos (by simp [hcss, hclient, hlazy])] at h
  cases hp : c.settings.options.sheetPath.expand r.place
  all_goals
    rw [hp] at h
    cases h
  exact ⟨_, .head _, rfl⟩

theorem artifacts_scripts {r : Compiled} {arch : String} {scripts : List ScriptArtifact}
    (h : (c.artifacts arch r).2 = .ok scripts) (hn : r.script (c.settings.isClient arch) ≠ "") :
    ∃ script ∈ scripts, script.data = r.script (c.settings.isClient arch) := by
  unfold artifacts at h
  dsimp only at h
  rw [if_neg hn] at h
  cases hp : c.settings.options.scriptPath.expand r.place
  all_goals
    rw [hp] at h
    cases h
  exact ⟨_, .head _, rfl⟩

-- A style sheet that is not empty is handed back with its file in a build for clients.
theorem emit_delivers (hcss : source.contents ≠ "") (hclient : c.settings.isClient i.arch = true)
    (he : c.emit i.arch (.ofSource source true) f = (.ok (), f')) : f'.Delivers source.contents := by
  rw [BuildM.emit_eq] at he
  rcases ha : c.artifacts i.arch (.ofSource source true) with ⟨e | sheets, e | scripts⟩
  all_goals
    rw [ha] at he
    cases he
  cases hlazy : isLazyPath source.place
  case false =>
    have ⟨sheet, hm, hd⟩ := artifacts_sheets (congrArg Prod.fst ha) hcss hclient hlazy
    exact .inl ⟨sheet, List.mem_append_right _ hm, hd⟩
  case true =>
    have hinfix := infix_script hlazy hcss
    have hn : (Compiled.ofSource source true).script (c.settings.isClient i.arch) ≠ "" := by
      rw [hclient]
      intro h
      rw [h, String.toList_empty, List.infix_nil, ← String.toList_empty, String.toList_inj] at hinfix
      exact sheetText_ne_empty _ hinfix
    have ⟨script, hm, hd⟩ := artifacts_scripts (congrArg Prod.snd ha) hn
    exact .inr ⟨script, List.mem_append_right _ hm, by rwa [hd, hclient]⟩

end Compiler

namespace FirstBuild

variable {b : FirstBuild} {u uA uB : ReadyUnit} {source sourceA sourceB : Source} {r : ScopedModule}

-- What a unit is scoped to, by the call that has scoped its file.
structure Scopes (b : FirstBuild) (u : ReadyUnit) (source : Source) (v : Visit) (text : String)
    (r : ScopedModule) : Prop where
  made   : b.Makes v
  path   : v.path = u.source.path
  opens  : v.Opens b.plan.project text
  result : (v.run b.plan.project).1 = .ok r
  source : source = u.source.scopedAs b.plan.project r

theorem after_grow (done more : List ReadyUnit) : FilesGrow (b.after done).files (b.after (done ++ more)).files := by
  induction more using List.reverseRecOn
  case nil =>
    rw [List.append_nil]
    exact .refl _
  case append_singleton more u ih =>
    rw [← List.append_assoc, after_append]
    exact ih.trans (Compiler.finish_grow u.2.2 (b.after (done ++ more)))

namespace Compiles

theorem mem (h : b.Compiles u source) : u ∈ b.prepared.1 := by
  cases h
  case mk hsplit _ _ => simp [hsplit]

theorem arch (h : b.Compiles u source) : source.arch = u.input.arch := by
  have hready := ready h.mem
  cases h
  case mk hscope _ =>
    rw [scope_on] at hscope
    split at hscope
    case isTrue => exact Except.ok.inj hscope ▸ hready.unscoped.arch
    case isFalse =>
      split at hscope <;> cases hscope
      exact hready.unscoped.arch

-- A unit that exports anything has been scoped, ...
theorem not_left_of_tokens (h : b.Compiles u source) (ht : source.tokens ≠ none) :
    isLeft b.plan.project u.source = false := by
  have hready := ready h.mem
  cases h
  case mk hscope _ =>
    rw [scope_on] at hscope
    split at hscope
    case isTrue          => exact absurd (Except.ok.inj hscope ▸ hready.unscoped.tokens) ht
    case isFalse hscoped => exact Bool.eq_false_iff.2 hscoped

-- ... and so has one that does not pass through.
theorem not_left_of_path (h : b.Compiles u source) (hp : passesThrough b.plan.project u.source.path = false) :
    isLeft b.plan.project u.source = false := by
  rw [isLeft, hp, (ready h.mem).unscoped.isScoped]
  rfl

theorem result (h : b.Compiles u source) (hl : isLeft b.plan.project u.source = false) :
    ∃ r, source = u.source.scopedAs b.plan.project r ∧ b.final.session.resultOf u.source.path = some r := by
  cases h
  case mk before rest hsplit hscope _ =>
    have hbeside : ((SessionM.scope b.plan.project u.source).on (b.after before).session).2.Beside
        (b.after (before ++ [u])).session := after_beside
    rw [scope_on, hl] at hscope hbeside
    rcases hrun : (Visit.top b.plan.project (b.after before).session u.source).run b.plan.project with ⟨e | r, t⟩
    all_goals rw [hrun] at hscope hbeside
    case error => cases hscope
    case ok =>
      refine ⟨r, (Except.ok.inj hscope).symm, (keeps_final hsplit _ _ ?_).1⟩
      exact (hbeside.resultOf _).trans (Visit.resultOf_run hrun)

theorem scopes (h : b.Compiles u source) (hl : isLeft b.plan.project u.source = false) :
    ∃ v text r, b.Scopes u source v text r := by
  have ⟨r, hsource, hr⟩ := h.result hl
  have ⟨v, hmade, hy⟩ := origin (List.append_nil _).symm hr
  have ⟨text, ho⟩ := hy.opens
  exact ⟨v, text, r, hmade, hy.path, ho, hy.result, hsource⟩

theorem delivers (h : b.Compiles u source) (hclient : b.compiler.settings.isClient u.input.arch = true)
    (hcss : source.contents ≠ "") :
    ∃ f, b.final.files[u.unit.handle]? = some f ∧ f.Delivers source.contents := by
  have hready := ready h.mem
  have harch := h.arch
  cases h
  case mk before rest hsplit hscope hcount =>
    have hstart : u.unit.handle < b.prepared.2.files.length := by simpa using hready.handle
    have ⟨f, hf, _⟩ := after_grow (b := b) [] before _ _ (List.getElem?_eq_getElem hstart)
    rcases hrun : (SessionM.scope b.plan.project u.source).on (b.after before).session with ⟨result, t⟩
    rw [hrun] at hscope
    dsimp only at hscope
    subst hscope
    rw [← (going before).project] at hrun
    rw [after_append] at hcount
    have ⟨f', hemit, hf'⟩ := Compiler.finish_counted hf hrun hcount
    rw [harch, hclient] at hemit
    rw [← after_append] at hf'
    have ⟨f'', hf'', hgrows⟩ := after_grow (b := b) (before ++ [u]) rest _ _ hf'
    exact ⟨f'', after_final hsplit ▸ hf'', (Compiler.emit_delivers hcss hclient hemit).mono hgrows⟩

end Compiles

theorem Scopes.accounts {v : Visit} {text : String} (h : b.Scopes u source v text r) :
    v.Accounts b.plan.project text r b.final.session ∧ b.final.session.resultOf u.source.path = some r := by
  have hrun : v.run b.plan.project = (.ok r, (v.run b.plan.project).2) := Prod.ext h.result rfl
  refine ⟨Visit.accounts h.made.proper h.opens h.result h.made.keeps (going b.prepared.1).resting, ?_⟩
  exact (h.made.keeps _ _ (h.path ▸ Visit.resultOf_run hrun)).1

-- A name stands in the style sheet that a unit is scoped to, in the place of one of its own, and the build
-- hands this style sheet back.
structure Shown (b : FirstBuild) (u : ReadyUnit) (source : Source) (text x : String) : Prop where
  shows    : b.plan.project.naming.Shows u.source.path text source.contents x
  delivers : ∃ f, (b.compiler.build (.inMemory b.disk) b.files).2.1[u.unit.handle]? = some f ∧
    f.Delivers source.contents

-- What one unit takes over from another is listed in its exports, and is shown by the other, unless that
-- has taken it over itself.
structure Lends (b : FirstBuild) (uA : ReadyUnit) (sourceA : Source) (uB : ReadyUnit) (sourceB : Source) :
    Prop where
  borrower : ∃ v text r, b.Scopes uA sourceA v text r
  lender   : ∃ v text r, b.Scopes uB sourceB v text r
  names    : ∀ vA textA rA vB textB rB,
    b.Scopes uA sourceA vA textA rA → b.Scopes uB sourceB vB textB rB →
      ∀ d ∈ compositionsOf textA, ∀ specifier, d.source = .file specifier →
        vA.resolve b.plan.project vA.session specifier = .ok uB.source.path →
          ∀ name ∈ d.names, ∃ names, wordsOf rB.tokens name = some names ∧
            (∀ c ∈ d.targets, ∃ listed, wordsOf rA.tokens c = some listed ∧ names ⊆ listed) ∧
            ∀ x ∈ names, b.Shown uB sourceB textB x ∨ vB.TakesOver b.plan.project textB b.final.session x

theorem lends_of_compiles (b : FirstBuild) (hA : b.Compiles uA sourceA) (hB : b.Compiles uB sourceB)
    (hexports : sourceA.tokens ≠ none) (hpath : passesThrough b.plan.project uB.source.path = false)
    (hclient : b.compiler.settings.isClient uB.input.arch = true) : b.Lends uA sourceA uB sourceB := by
  refine ⟨hA.scopes (hA.not_left_of_tokens hexports), hB.scopes (hB.not_left_of_path hpath), ?_⟩
  intro vA textA rA vB textB rB hscopesA hscopesB d hd specifier hs hres name hn
  have ⟨haccountsA, _⟩ := hscopesA.accounts
  have ⟨haccountsB, hrB⟩ := hscopesB.accounts
  have ⟨value, hvalue⟩ : ∃ value, rB.tokens.get? name = some value := by
    have hcomposes := Visit.composes hscopesA.made.proper hscopesA.opens hscopesA.result hscopesA.made.keeps
    obtain ⟨_, _, hres', hr', hsupplied⟩ := hcomposes.imports d hd specifier hs
    cases hres.symm.trans hres'
    cases hrB.symm.trans hr'
    exact hsupplied name hn
  have ⟨names, hnames, hall⟩ := haccountsB.tokens name value hvalue
  refine ⟨names, hnames, haccountsA.taken d hd specifier hs _ _ hres hrB name hn names hnames, fun x hx => ?_⟩
  refine (hall x hx).imp_left fun hshows => ?_
  rw [hscopesB.path] at hshows
  have hcss : rB.css = sourceB.contents := congrArg Source.contents hscopesB.source.symm
  rw [hcss] at hshows
  refine ⟨hshows, ?_⟩
  rw [b.build_eq]
  exact hB.delivers hclient hshows.ne_empty

def ofFiles? (c : Compiler) (disk : Disk) (files : List HostFile) : Option FirstBuild :=
  match h : c.plan disk files with
  | .ok plan => some ⟨c, disk, files, plan, h⟩
  | .error _ => none

-- The second file is composed of the first.
def loanFiles (lender : String) : List HostFile :=
  [.ofText "b.css" "web.browser" lender, .ofText "a.css" "web.browser" ".a \x7b composes: n from './b.css' \x7d"]

-- What the first hands on is from nowhere in particular.
def relayedFiles : List HostFile :=
  loanFiles ".n \x7b composes: g from global; color: red \x7d"

-- The first is let through as it is.
def passedFiles : List HostFile :=
  loanFiles ".n \x7b color: red \x7d"

def passing : Compiler where
  settings  := { Compiler.bare.settings with
    options     := { passthrough := [.text "/b"] }
    passthrough := (Pattern.compile "/b" "").toOption.toList }
  renderers := .builtin

-- The second unit of a build takes over a name from the first, but this name stands in none of the style sheets
-- that are handed back with that.
def Withholds (b : FirstBuild) (uB uA : ReadyUnit) (sourceA : Source) (x : String) : Prop :=
  b.compiler.settings.isClient uB.input.arch = true ∧
  (∃ d ∈ compositionsOf uA.source.contents, "a" ∈ d.targets ∧ "n" ∈ d.names ∧ d.source = .file "./b.css") ∧
  b.plan.project.resolver.resolve b.disk ((b.after [uB]).session.registry.knows b.disk) "./b.css"
    uA.source.path = .ok uB.source.path ∧
  (∃ names ∈ sourceA.tokens.bind (wordsOf · "a"), x ∈ names) ∧
  ∃ f ∈ (b.compiler.build (.inMemory b.disk) b.files).2.1[uB.unit.handle]?,
    (∀ sheet ∈ f.sheets, ¬x.toList <:+: sheet.data.toList) ∧
      ∀ script ∈ f.scripts, ¬"addStyles".toList <:+: script.data.toList

instance {x : String} : Decidable (b.Withholds uB uA sourceA x) :=
  inferInstanceAs (Decidable (_ ∧ _))

-- What a build of two such files comes to.
structure Loan (b : FirstBuild) (uB : ReadyUnit) (sourceB : Source) (uA : ReadyUnit) (sourceA : Source)
    (passes : Bool) (x : String) : Prop where
  units     : b.prepared.1 = [uB, uA]
  lender    : ((SessionM.scope b.plan.project uB.source).on (b.after []).session).1 = .ok sourceB
  borrower  : ((SessionM.scope b.plan.project uA.source).on (b.after [uB]).session).1 = .ok sourceA
  first     : (b.after [uB]).report.compiled = (b.after []).report.compiled + 1
  second    : (b.after [uB, uA]).report.compiled = (b.after [uB]).report.compiled + 1
  path      : passesThrough b.plan.project uB.source.path = passes
  withholds : b.Withholds uB uA sourceA x

def loan? (b : FirstBuild) (passes : Bool) (x : String) : Option (ReadyUnit × Source × ReadyUnit × Source) :=
  match b.prepared.1 with
  | [uB, uA] =>
    match ((SessionM.scope b.plan.project uB.source).on (b.after []).session).1,
      ((SessionM.scope b.plan.project uA.source).on (b.after [uB]).session).1 with
    | .ok sourceB, .ok sourceA =>
      if (b.after [uB]).report.compiled = (b.after []).report.compiled + 1 ∧
        (b.after [uB, uA]).report.compiled = (b.after [uB]).report.compiled + 1 ∧
        passesThrough b.plan.project uB.source.path = passes ∧ b.Withholds uB uA sourceA x
      then some (uB, sourceB, uA, sourceA)
      else none
    | _, _ => none
  | _ => none

namespace Loan

variable {passes : Bool} {x : String}

theorem of_loan? (h : b.loan? passes x = some (uB, sourceB, uA, sourceA)) :
    Loan b uB sourceB uA sourceA passes x := by
  unfold loan? at h
  split at h
  case h_2 => cases h
  case h_1 hunits =>
    split at h
    case h_2 => cases h
    case h_1 hlender hborrower =>
      split at h
      case isFalse => cases h
      case isTrue hfacts =>
        cases h
        have ⟨hfirst, hsecond, hpath, hwithholds⟩ := hfacts
        exact ⟨hunits, hlender, hborrower, hfirst, hsecond, hpath, hwithholds⟩

theorem of_files {c : Compiler} {files : List HostFile}
    (h : ((ofFiles? c .empty files).bind (·.loan? passes x)).isSome = true) :
    ∃ b uB sourceB uA sourceA, ofFiles? c .empty files = some b ∧ Loan b uB sourceB uA sourceA passes x := by
  have ⟨(uB, sourceB, uA, sourceA), hbind⟩ := Option.isSome_iff_exists.1 h
  have ⟨b, hb, hloan⟩ := Option.bind_eq_some_iff.1 hbind
  exact ⟨b, uB, sourceB, uA, sourceA, hb, of_loan? hloan⟩

theorem relayed : ∃ b uB sourceB uA sourceA, ofFiles? .bare .empty relayedFiles = some b ∧
    Loan b uB sourceB uA sourceA false "g" :=
  of_files (by decide +kernel)

theorem passed : ∃ b uB sourceB uA sourceA, ofFiles? passing .empty passedFiles = some b ∧
    Loan b uB sourceB uA sourceA true "_b__n" :=
  of_files (by decide +kernel)

variable (h : Loan b uB sourceB uA sourceA passes x)

include h

theorem compiles_lender : b.Compiles uB sourceB :=
  .mk (show b.prepared.1 = [] ++ uB :: [uA] from h.units) h.lender h.first

theorem compiles_borrower : b.Compiles uA sourceA :=
  .mk (show b.prepared.1 = [uB] ++ uA :: [] from h.units) h.borrower h.second

theorem client : b.compiler.settings.isClient uB.input.arch = true :=
  h.withholds.1

theorem tokens_borrower : sourceA.tokens ≠ none := by
  intro hn
  have ⟨_, _, _, ⟨_, hm, _⟩, _⟩ := h.withholds
  simp [hn] at hm

end Loan

theorem lends_of_compiles_loan : ∃ b uA sourceA uB sourceB, ofFiles? .bare .empty relayedFiles = some b ∧
    b.Compiles uA sourceA ∧ b.Compiles uB sourceB ∧ sourceA.tokens ≠ none ∧
      passesThrough b.plan.project uB.source.path = false ∧
        b.compiler.settings.isClient uB.input.arch = true ∧ b.Lends uA sourceA uB sourceB := by
  have ⟨b, uB, sourceB, uA, sourceA, hb, h⟩ := Loan.relayed
  exact ⟨b, uA, sourceA, uB, sourceB, hb, h.compiles_borrower, h.compiles_lender, h.tokens_borrower, h.path,
    h.client, lends_of_compiles b h.compiles_borrower h.compiles_lender h.tokens_borrower h.path h.client⟩

-- Not all that a unit takes over from another is shown by that, which may have taken it over itself, or may
-- pass through as it is.
theorem taken_not_shown :
    (∃ b uB sourceB uA sourceA, ofFiles? .bare .empty relayedFiles = some b ∧ b.Compiles uA sourceA ∧
      b.Compiles uB sourceB ∧ passesThrough b.plan.project uB.source.path = false ∧
        b.Withholds uB uA sourceA "g") ∧
    (∃ b uB sourceB uA sourceA, ofFiles? passing .empty passedFiles = some b ∧ b.Compiles uA sourceA ∧
      b.Compiles uB sourceB ∧ passesThrough b.plan.project uB.source.path = true ∧
        b.Withholds uB uA sourceA "_b__n") := by
  have ⟨b, uB, sourceB, uA, sourceA, hb, h⟩ := Loan.relayed
  have ⟨b', uB', sourceB', uA', sourceA', hb', h'⟩ := Loan.passed
  exact ⟨⟨b, uB, sourceB, uA, sourceA, hb, h.compiles_borrower, h.compiles_lender, h.path, h.withholds⟩,
    b', uB', sourceB', uA', sourceA', hb', h'.compiles_borrower, h'.compiles_lender, h'.path, h'.withholds⟩

end FirstBuild

end ScopedCss
