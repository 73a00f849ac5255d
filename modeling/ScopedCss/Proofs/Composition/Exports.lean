import ScopedCss.Proofs.Composition.Request
import ScopedCss.Proofs.Scoping.Accumulated

namespace ScopedCss

open Scoping

theorem Naming.isWord_of_isValid {name : String} (h : isValid name = true) : Text.IsWord name.toList := by
  simpa [isValid, Text.IsWord] using h

theorem Naming.isWord_of_generate {naming : Naming} {own path full : String}
    (h : naming.generate own path = .ok full) : Text.IsWord full.toList := by
  unfold generate at h
  dsimp only at h
  split at h
  case isFalse => cases h
  case isTrue hv =>
    cases h
    exact isWord_of_isValid hv

namespace Visit

variable {p : Project} {v : Visit} {text : String} {steps rest : List Step} {progress : Progress}
  {records : List ImportRecord} {t : Session} {exported : String → Tokens}

theorem unfailed (ha : v.after p steps = ((.ok progress, records), t)) : ¬Fails steps := by
  refine steps_induct (P := fun done _ => ¬Fails done) (by simp [Fails]) (fun _ h _ hr hf => ?_)
    (fun _ _ h => h) ha
  refine (fails_append.1 hf).elim h fun hlast => ?_
  obtain ⟨fault, pos, hm⟩ := hlast
  cases List.mem_singleton.1 hm
  cases hr

-- Whatever the exports of other files are known to be, the lists go by them.
theorem listed (h : plan text = steps ++ rest) (ha : v.after p steps = ((.ok progress, records), t))
    (hx : ∀ specifier tokens, progress.imported.get? specifier = some tokens →
      exported specifier = tokens) :
    Listed (p.naming.generate · v.path) exported steps progress := by
  have hplaced : Placed [] steps := (placed_append.1 (h ▸ placed_plan text)).1
  refine steps_induct (P := fun done q =>
    (∀ specifier tokens, q.imported.get? specifier = some tokens → exported specifier = tokens) →
      Listed (p.naming.generate · v.path) exported done q) (fun _ => .start) ?known ?know ha hx
  case known =>
    intro done rest step q q' he h hs hr hx
    rw [he, List.append_cons] at hplaced
    exact (h (runKnown_imported hs hr ▸ hx)).more (placed_append.1 hplaced).1 hs hr
      (runKnown_imported hs hr ▸ hx)
  case know =>
    intro done q specifier tokens hn h hx
    exact .know (h fun other found hk => hx other found (Progress.get?_know hn hk))

variable (p v) in
-- The exports, as they are in a session, of the file that a specifier leads to from that of a call.
def exportsIn (t : Session) (specifier : String) : Tokens :=
  match v.resolve p v.session specifier with
  | .ok target => ((t.resultOf target).map (·.tokens)).getD ∅
  | .error _   => ∅

theorem exportsIn_eq {specifier target : String} {r : ScopedModule}
    (h : v.resolve p v.session specifier = .ok target) (hr : t.resultOf target = some r) :
    v.exportsIn p t specifier = r.tokens := by
  unfold exportsIn
  rw [h]
  dsimp only
  rw [hr]
  rfl

-- The list of a class in full: its scoped name, and then what each declaration adds.
def listOf (p : Project) (v : Visit) (t : Session) (text own c : String) : List String :=
  own :: (compositionsOf text).zipIdx.flatMap fun (d, i) =>
    d.adds (v.exportsIn p t)
      (accumulated (scopedName (p.naming.generate · v.path)) (v.exportsIn p t)
        ((compositionsOf text).take i)) c

theorem listOf_eq {own c : String} (h : p.naming.generate c v.path = .ok own) :
    v.listOf p t text own c =
      accumulated (scopedName (p.naming.generate · v.path)) (v.exportsIn p t) (compositionsOf text) c := by
  have hscoped : scopedName (p.naming.generate · v.path) c = own := by
    simp [scopedName, h, Except.toOption]
  rw [accumulated_eq, hscoped, listOf]

theorem resolve_reading (hv : v.Proper) (specifier : String) :
    v.resolve p (v.reading p).2 specifier = v.resolve p v.session specifier := by
  have ⟨_, _, _, he, hl, _⟩ := reading_later (p := p) hv
  simp [resolve, he, hl.knows]

-- What a call that succeeds exports, going by any session in which its results are kept.
structure Composes (p : Project) (v : Visit) (text : String) (r : ScopedModule) (t : Session) : Prop where
  imports : ∀ d ∈ compositionsOf text, ∀ specifier, d.source = .file specifier →
    ∃ target r', v.resolve p v.session specifier = .ok target ∧ t.resultOf target = some r' ∧
      ∀ name ∈ d.names, ∃ value, r'.tokens.get? name = some value
  exports : ∀ c ∈ localNames (plan text), ∃ own, p.naming.generate c v.path = .ok own ∧
    r.tokens.get? c = some (" ".intercalate (v.listOf p t text own c))

theorem composes {r : ScopedModule} (hv : v.Proper) (ho : v.Opens p text) (hr : (v.run p).1 = .ok r)
    (hk : (v.run p).2.Keeps t) : Composes p v text r t := by
  obtain ⟨progress, records, u, ha, he, _⟩ := run_of_opens ho hr
  have hg := gathered ho hv (plan_end _) ha
  have hu := (after_later ho hv (plan_end _)).knows
  have huk := (after_keeps ho hv).trans hk
  have hd := declarationsOf_plan (unfailed ha)
  rw [ha] at hu huk
  have hknown (specifier tokens) (h : progress.imported.get? specifier = some tokens) :
      ∃ target r', v.resolve p v.session specifier = .ok target ∧ t.resultOf target = some r' ∧
        r'.tokens = tokens := by
    obtain ⟨target, r', hres, _, hr', ht⟩ := hg.known specifier tokens h
    refine ⟨target, r', ?_, (huk _ _ hr').1, ht⟩
    rw [← resolve_reading hv, ← hres, resolve, resolve, hu]
  have hl : Listed (p.naming.generate · v.path) (v.exportsIn p t) (plan text) progress := by
    refine listed (plan_end _) ha fun specifier tokens h => ?_
    obtain ⟨target, r', hres, hr', ht⟩ := hknown specifier tokens h
    exact (exportsIn_eq hres hr').trans ht
  refine ⟨fun d hm specifier hs => ?_, fun c hc => ?_⟩
  · obtain ⟨step, hstep, hspec⟩ := specifier?_of_mem (hd ▸ hm) hs
    obtain ⟨tokens, hk⟩ := Option.isSome_iff_exists.1 (hg.asked step hstep specifier hspec)
    obtain ⟨target, r', hres, hr', _⟩ := hknown specifier tokens hk
    have hsupplied := hl.supplied d (hd ▸ hm) specifier hs
    rw [exportsIn_eq hres hr'] at hsupplied
    exact ⟨target, r', hres, hr', hsupplied⟩
  · obtain ⟨own, hown⟩ := hl.named c hc
    refine ⟨own, hown, ?_⟩
    rw [listOf_eq hown, he, scopedModule, Dict.get?_mapValues, hl.lists c, if_pos hc, hd,
      Option.map_some]

end Visit

namespace Request

variable {p : Project} {s : Session} {requests : List Request}

-- A call for one of the requests that scopes its file under a text, with success.
structure Scoped (p : Project) (s : Session) (requests : List Request) (v : Visit) (text : String)
    (r : ScopedModule) : Prop where
  visited : Visited p s requests v
  opens   : v.Opens p text
  result  : (v.run p).1 = .ok r

-- A class that takes over one other, which takes over one other, and so on down to one that takes
-- over none, each from another file: with their scoped names.
inductive Chain (p : Project) (s : Session) (requests : List Request) :
    String → String → List String → Prop
  | last {v : Visit} {text c own : String} {r : ScopedModule} :
    Scoped p s requests v text r →
    c ∈ localNames (plan text) →
    p.naming.generate c v.path = .ok own →
    (compositionsOf text).filter (c ∈ ·.targets) = [] →
    Chain p s requests v.path c [own]
  | link {v : Visit} {text c own specifier name target : String} {targets names : List String}
    {r : ScopedModule} :
    Scoped p s requests v text r →
    c ∈ localNames (plan text) →
    p.naming.generate c v.path = .ok own →
    (compositionsOf text).filter (c ∈ ·.targets) = [⟨targets, [name], .file specifier⟩] →
    v.resolve p v.session specifier = .ok target →
    Chain p s requests target name names →
    Chain p s requests v.path c (own :: names)

theorem Scoped.resultOf {v : Visit} {text : String} {r : ScopedModule} (h : Scoped p s requests v text r)
    (hs : s.Resting) : (runAll p s requests).resultOf v.path = some r := by
  have hr : v.run p = (.ok r, (v.run p).2) := Prod.ext h.result rfl
  exact (h.visited.run_keeps hs _ _ (Visit.resultOf_run hr)).1

theorem Scoped.composes {v : Visit} {text : String} {r : ScopedModule}
    (h : Scoped p s requests v text r) (hs : s.Resting) :
    v.Composes p text r (runAll p s requests) :=
  Visit.composes (h.visited.proper hs) h.opens h.result (h.visited.run_keeps hs)

theorem Chain.isWord {q c : String} {names : List String} (h : Chain p s requests q c names) :
    ∀ n ∈ names, Text.IsWord n.toList := by
  induction h
  case last ho _ =>
    intro n hn
    exact List.mem_singleton.1 hn ▸ Naming.isWord_of_generate ho
  case link ho _ _ _ ih =>
    intro n hn
    rcases List.mem_cons.1 hn with rfl | hn
    · exact Naming.isWord_of_generate ho
    · exact ih n hn

theorem Chain.exports {q c : String} {names : List String} (h : Chain p s requests q c names)
    (hs : s.Resting) {r : ScopedModule} (hr : (runAll p s requests).resultOf q = some r) :
    r.tokens.get? c = some (" ".intercalate names) := by
  induction h generalizing r
  case last v text c own r' hv hc ho hf =>
    cases (hv.resultOf hs).symm.trans hr
    obtain ⟨own', ho', he⟩ := (hv.composes hs).exports c hc
    cases ho.symm.trans ho'
    rw [he, Visit.listOf_eq ho, accumulated_of_not_mem (by simpa using hf), scopedName, ho]
    rfl
  case link v text c own specifier name target targets names r' hv hc ho hf hres hchain ih =>
    cases (hv.resultOf hs).symm.trans hr
    have hcomp := hv.composes hs
    obtain ⟨own', ho', he⟩ := hcomp.exports c hc
    cases ho.symm.trans ho'
    have hd : ⟨targets, [name], .file specifier⟩ ∈ compositionsOf text := by
      have := List.mem_singleton.2 (Eq.refl (⟨targets, [name], .file specifier⟩ : Declaration))
      rw [← hf] at this
      exact (List.mem_filter.1 this).1
    obtain ⟨target', r'', hres', hr'', _⟩ := hcomp.imports _ hd specifier rfl
    cases hres.symm.trans hres'
    have hx := Visit.exportsIn_eq hres hr''
    have hw : wordsOf r''.tokens name = some names := by
      rw [wordsOf, ih hr'', Option.map_some, Text.words_intercalate hchain.isWord]
    obtain ⟨lists, ha⟩ := @accumulated_of_filter (scopedName (p.naming.generate · v.path))
      (v.exportsIn p (runAll p s requests)) _ _ _ hf
    rw [he, Visit.listOf_eq ho, ha]
    simp [Declaration.stand, hx, hw, scopedName, ho, Except.toOption]

end Request

end ScopedCss
