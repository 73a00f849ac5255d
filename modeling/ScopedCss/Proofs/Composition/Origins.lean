import ScopedCss.Proofs.Composition.Cycles
import ScopedCss.Proofs.Composition.Exports
import ScopedCss.Proofs.Scoping.Origins

namespace ScopedCss

open Scoping

-- The scoped name of a local one, and some other where there is none.
def Naming.standIn (naming : Naming) (path n : String) : String :=
  (naming.generate n path).toOption.getD "_"

theorem Naming.standIn_eq {naming : Naming} {path n full : String} (h : naming.generate n path = .ok full) :
    naming.standIn path n = full := by
  simp [standIn, h, Except.toOption]

theorem Naming.renaming_standIn (naming : Naming) (path : String) : Renaming (naming.standIn path) := by
  intro n
  cases h : naming.generate n path
  case error   => simp [standIn, h, Except.toOption, Text.IsWord, show Text.isBlank '_' = false by decide]
  case ok full => exact standIn_eq h ▸ isWord_of_generate h

-- In what the text of the file at `path` is scoped to, a name stands in the place of one of the classes,
-- ids or keyframes of the text.
def Naming.Shows (naming : Naming) (path text css x : String) : Prop :=
  ∃ before kind n after, plan text = before ++ .name kind n :: after ∧ naming.generate n path = .ok x ∧
    css.toList = Scoping.written (naming.standIn path) (piecesOf before) ++ x.toList ++
      Scoping.written (naming.standIn path) (piecesOf after)

theorem Naming.Shows.ne_empty {naming : Naming} {path text css x : String}
    (h : naming.Shows path text css x) : css ≠ "" := by
  have ⟨before, kind, n, after, _, hx, hcss⟩ := h
  have ⟨hword, _⟩ := isWord_of_generate hx
  rintro rfl
  simp_all

namespace Visit

variable {p : Project} {v : Visit} {text : String} {progress : Progress} {records : List ImportRecord}
  {t : Session} {r : ScopedModule}

theorem closed (ha : v.after p (plan text) = ((.ok progress, records), t)) :
    Closed (p.naming.standIn v.path) (plan text) progress := by
  have hsettled : Settled (p.naming.standIn v.path) (plan text) :=
    (p.naming.renaming_standIn v.path).settled (gapped_planSegments ..)
  refine steps_induct .start (fun he h ha hr => ?_) (fun tokens _ h => h.know _ tokens) ha
  exact h.more (fun _ _ => Naming.standIn_eq) (fun _ hg => h.written.endsInBlank (hg ▸ he ▸ hsettled)) ha hr

-- No file takes classes from itself.
theorem target_ne (hv : v.Proper) (ho : v.Opens p text) (hr : (v.run p).1 = .ok r)
    (hk : (v.run p).2.Keeps t) (ht : t.Resting) {specifier target : String}
    (hs : ∃ step ∈ plan text, step.specifier? = some specifier)
    (hres : v.resolve p v.session specifier = .ok target) : target ≠ v.path := by
  have ⟨step, hm, hspec⟩ := hs
  have hn : Names p v text target := ⟨step, hm, specifier, hspec, (resolve_reading hv specifier).trans hres⟩
  have ⟨record, hrecord, he⟩ := hn.imported hv ho hr
  have hrun : v.run p = (.ok r, (v.run p).2) := Prod.ext hr rfl
  have ⟨hresult, himports⟩ := hk _ _ (resultOf_run hrun)
  rintro rfl
  exact ht.settled.acyclic v.path (.single ⟨⟨r, hresult⟩, record, himports ▸ hrecord, he⟩)

-- A declaration takes a name over, from nowhere in particular or from another file.
inductive TakesOver (p : Project) (v : Visit) (text : String) (t : Session) (x : String) : Prop
  | everywhere {d : Declaration} :
    d ∈ compositionsOf text → d.source = .everywhere → x ∈ d.names → TakesOver p v text t x
  | file {d : Declaration} {specifier target name : String} {r : ScopedModule} {names : List String} :
    d ∈ compositionsOf text → d.source = .file specifier → v.resolve p v.session specifier = .ok target →
    target ≠ v.path → t.resultOf target = some r → name ∈ d.names → wordsOf r.tokens name = some names →
    x ∈ names → TakesOver p v text t x

-- What a call that succeeds exports, name by name.
structure Accounts (p : Project) (v : Visit) (text : String) (r : ScopedModule) (t : Session) : Prop where
  tokens : ∀ c value, r.tokens.get? c = some value → ∃ names, wordsOf r.tokens c = some names ∧
    ∀ x ∈ names, p.naming.Shows v.path text r.css x ∨ v.TakesOver p text t x
  taken  : ∀ d ∈ compositionsOf text, ∀ specifier, d.source = .file specifier →
    ∀ target r', v.resolve p v.session specifier = .ok target → t.resultOf target = some r' →
      ∀ name ∈ d.names, ∀ names, wordsOf r'.tokens name = some names →
        ∀ c ∈ d.targets, ∃ listed, wordsOf r.tokens c = some listed ∧ names ⊆ listed

theorem accounts (hv : v.Proper) (ho : v.Opens p text) (hr : (v.run p).1 = .ok r) (hk : (v.run p).2.Keeps t)
    (ht : t.Resting) : v.Accounts p text r t := by
  have hcomp := composes hv ho hr hk
  obtain ⟨progress, records, u, ha, he, hrun⟩ := run_of_opens ho hr
  have hclosed := closed ha
  have hds := declarationsOf_plan (unfailed ha)
  have hproper (d) (hd : d ∈ compositionsOf text) : d.Proper (localNames (plan text)) :=
    (placed_plan text).of_mem (hds ▸ hd)
  have hlocal (c value) (h : r.tokens.get? c = some value) : c ∈ localNames (plan text) := by
    rw [he, scopedModule, Dict.get?_mapValues] at h
    obtain ⟨_, hg, _⟩ := Option.map_eq_some_iff.1 h
    have := Dict.mem_keys_of_get? hg
    rwa [hclosed.written.keys, List.mem_eraseDups] at this
  have hcomes (c x) (hc : c ∈ localNames (plan text)) (hx : x ∈ accumulated
      (scopedName (p.naming.generate · v.path)) (v.exportsIn p t) (compositionsOf text) c) :
      Comes (localNames (plan text)) (scopedName (p.naming.generate · v.path)) (v.exportsIn p t)
        (compositionsOf text) x :=
    comes_of_mem_accumulated (hds ▸ hclosed.locals) hc hx
  have hwords (c) (hc : c ∈ localNames (plan text)) : wordsOf r.tokens c = some (accumulated
      (scopedName (p.naming.generate · v.path)) (v.exportsIn p t) (compositionsOf text) c) := by
    obtain ⟨own, hown, htokens⟩ := hcomp.exports c hc
    rw [wordsOf, htokens, Option.map_some, listOf_eq hown, Text.words_intercalate fun x hx => ?_]
    refine (hcomes c x hc hx).isWord (fun n hn => ?_) fun d hd => (hproper d hd).words
    obtain ⟨full, hfull, _⟩ := hcomp.exports n hn
    simpa [scopedName, hfull, Except.toOption] using Naming.isWord_of_generate hfull
  refine ⟨fun c value hg => ⟨_, hwords c (hlocal c value hg), fun x hx => ?_⟩, ?_⟩
  · cases hcomes c x (hlocal c value hg) hx
    case own n hn hx =>
      obtain ⟨full, hfull, _⟩ := hcomp.exports n hn
      obtain ⟨before, kind, after, hsplit, hcss⟩ := hclosed.written.split hn
      have hx : full = x := by simpa [scopedName, hfull, Except.toOption] using hx
      rw [Naming.standIn_eq hfull] at hcss
      exact .inl ⟨before, kind, n, after, hsplit, hx ▸ hfull, by rw [← hx, ← hcss, he]; rfl⟩
    case everywhere hd hs hx => exact .inr (.everywhere hd hs hx)
    case file d specifier name names hd hs hn hw hx =>
      obtain ⟨target, r', hres, hr', _⟩ := hcomp.imports d hd specifier hs
      rw [exportsIn_eq hres hr'] at hw
      have hother := target_ne hv ho hr hk ht (specifier?_of_mem (hds ▸ hd) hs) hres
      exact .inr (.file hd hs hres hother hr' hn hw hx)
  · intro d hd specifier hs target r' hres hr' name hn names hw c hc
    refine ⟨_, hwords c ((hproper d hd).written c hc), ?_⟩
    exact subset_accumulated hd hs hc hn (by rwa [exportsIn_eq hres hr'])

end Visit

end ScopedCss
