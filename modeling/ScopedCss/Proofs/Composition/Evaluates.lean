import ScopedCss.Proofs.Composition.Chain

namespace ScopedCss

-- The style sheets of a project as they are before any is scoped: the text of each file, which files
-- there are, a bound for how many of them can be read, and where the manifests of packages are.
structure Collection where
  text   : String → Except Error String
  known  : String → Bool
  knows  : ∀ q css, text q = .ok css → known q = true
  size   : Nat
  finite : ∀ paths : List String, paths.Nodup →
    (∀ q ∈ paths, Path.IsCanonical q ∧ ∃ css, text q = .ok css) → paths.length ≤ size
  disk   : Disk

-- A file that is taken classes from, with its result.
abbrev Composed := ImportRecord × ScopedModule

section

open Scoping

variable (p : Project) (W : Collection)

def Collection.resolve (specifier path : String) : Except Error String :=
  p.resolver.resolve W.disk W.known specifier path

-- Looks up exports in results that are given for all specifiers.
def answer (path : String) (other : String → Except Error ScopedModule) (specifier : String) :
    ExceptT Error (StateM (List Composed)) Tokens := do
  let target ← W.resolve p specifier path
  let r ← other specifier
  modifyThe (List Composed) (· ++ [(⟨.ofList (Text.unquote specifier.toList), target⟩, r)])
  pure r.tokens

def moduleOf (sheet : ScopedSheet) (composed : List Composed) : ScopedModule where
  css        := sheet.css
  tokens     := sheet.tokens
  sourceMap  := sheet.sourceMap
  imports    := composed.map (·.1.specifier)
  importTree := composed.map (·.1.path) ++ composed.flatMap (·.2.importTree)

-- The result of a text, given those of all files that it takes classes from.
def resultOfText (path : String) (other : String → Except Error ScopedModule) (css : String) :
    Except Error ScopedModule :=
  match (Scoping.scope css path (p.naming.generate · path) (answer p W path other)).run.run [] with
  | (.error e, _)         => .error e
  | (.ok sheet, composed) => .ok (moduleOf sheet composed)

-- What scoping a file below a chain of others comes to when nothing is remembered: each file is
-- scoped anew wherever classes are taken from it.
inductive Evaluates : List String → String → Except Error ScopedModule → Prop
  | cyclic {chain : List String} {path : String} :
    path ∈ chain → Evaluates chain path (.error (SessionM.cyclic chain path))
  | unread {chain : List String} {path : String} {e : Error} :
    path ∉ chain → W.text path = .error e → Evaluates chain path (.error e)
  | read {chain : List String} {path css : String} {other : String → Except Error ScopedModule} :
    path ∉ chain →
    W.text path = .ok css →
    (∀ specifier ∈ specifiersOf css, ∀ target, W.resolve p specifier path = .ok target →
      Evaluates (chain ++ [path]) target (other specifier)) →
    Evaluates chain path (resultOfText p W path other css)

end

section

open Scoping

variable {p : Project} {W : Collection} {path css : String} {chain : List String}
  {other other' : String → Except Error ScopedModule}

theorem answer_run (specifier : String) (composed : List Composed) :
    (answer p W path other specifier).run.run composed =
      match W.resolve p specifier path, other specifier with
      | .error e, _     => (.error e, composed)
      | .ok _, .error e => (.error e, composed)
      | .ok target, .ok r =>
        (.ok r.tokens, composed ++ [(⟨.ofList (Text.unquote specifier.toList), target⟩, r)]) := by
  unfold answer
  rw [Stateful.run_bind, Stateful.run_except]
  cases W.resolve p specifier path
  case error => rfl
  case ok target =>
    dsimp only
    rw [Stateful.run_bind, Stateful.run_except]
    cases other specifier <;> rfl

theorem answer_congr {specifier : String}
    (h : ∀ target, W.resolve p specifier path = .ok target → other specifier = other' specifier) :
    answer p W path other specifier = answer p W path other' specifier := by
  funext composed
  change (answer p W path other specifier).run.run composed =
    (answer p W path other' specifier).run.run composed
  rw [answer_run, answer_run]
  cases hr : W.resolve p specifier path
  case error     => rfl
  case ok target => rw [h target hr]

theorem resultOfText_congr
    (h : ∀ specifier ∈ specifiersOf css, ∀ target, W.resolve p specifier path = .ok target →
      other specifier = other' specifier) :
    resultOfText p W path other css = resultOfText p W path other' css := by
  unfold resultOfText
  rw [scope_congr fun specifier hs => answer_congr (h specifier hs)]

theorem Evaluates.unique {r r' : Except Error ScopedModule} (h : Evaluates p W chain path r)
    (h' : Evaluates p W chain path r') : r = r' := by
  induction h generalizing r'
  case cyclic =>
    cases h'
    case cyclic => rfl
    all_goals contradiction
  case unread hc ht =>
    cases h'
    case cyclic => contradiction
    case unread ht' _ => rw [ht] at ht'; cases ht'; rfl
    case read ht' _ _ => rw [ht] at ht'; cases ht'
  case read hc ht _ ih =>
    cases h'
    case cyclic => contradiction
    case unread ht' _ => rw [ht] at ht'; cases ht'
    case read ht' _ ho =>
      rw [ht] at ht'
      cases ht'
      exact resultOfText_congr fun specifier hs target hr => ih specifier hs target hr (ho specifier hs target hr)

theorem Evaluates.text {r : ScopedModule} (h : Evaluates p W chain path (.ok r)) :
    ∃ css, W.text path = .ok css := by
  generalize hr : (Except.ok r : Except Error ScopedModule) = result at h
  cases h
  case read ht _ _ => exact ⟨_, ht⟩
  all_goals cases hr

-- The files that classes were taken from are those of the specifiers so far, which are `named`.
structure Answered (p : Project) (W : Collection) (path : String)
    (other : String → Except Error ScopedModule) (named : List String) (progress : Progress)
    (composed : List Composed) : Prop where
  sound    : ∀ c ∈ composed, ∃ specifier ∈ named,
    W.resolve p specifier path = .ok c.1.path ∧ other specifier = .ok c.2
  complete : ∀ specifier, progress.imported.contains specifier = true →
    ∃ c ∈ composed, W.resolve p specifier path = .ok c.1.path ∧ other specifier = .ok c.2

variable {named : List String} {progress progress' : Progress} {composed composed' : List Composed}
  {rename : String → Except Error String} {file : String} {step : Step} {steps : List Step}

theorem Answered.know (h : Answered p W path other named progress composed) {specifier target : String}
    {r : ScopedModule} (hn : specifier ∈ named) (ht : W.resolve p specifier path = .ok target)
    (hr : other specifier = .ok r) :
    Answered p W path other named (progress.know specifier r.tokens)
      (composed ++ [(⟨.ofList (Text.unquote specifier.toList), target⟩, r)]) where
  sound c hc := by
    rcases List.mem_append.1 hc with hc | hc
    · exact h.sound c hc
    · cases List.mem_singleton.1 hc
      exact ⟨specifier, hn, ht, hr⟩
  complete name hc := by
    simp only [Progress.know, Dict.contains_insert, Bool.or_eq_true, decide_eq_true_eq] at hc
    rcases hc with rfl | hc
    · exact ⟨(⟨.ofList (Text.unquote name.toList), target⟩, r), by simp, ht, hr⟩
    · obtain ⟨c, hm, h⟩ := h.complete name hc
      exact ⟨c, by simp [hm], h⟩

theorem runKnown_run (ha : step.asks progress = none) :
    (runStep file rename (answer p W path other) progress step).run.run composed =
      (runKnown file rename progress step, composed) := by
  rw [runStep_known ha]
  rfl

theorem runStep_answered (h : Answered p W path other named progress composed)
    (hn : ∀ specifier, step.specifier? = some specifier → specifier ∈ named)
    (hrun : (runStep file rename (answer p W path other) progress step).run.run composed =
      (.ok progress', composed')) :
    Answered p W path other named progress' composed' ∧
      (∀ specifier, progress.imported.contains specifier = true ∨ step.specifier? = some specifier →
        progress'.imported.contains specifier = true) := by
  cases ha : step.asks progress
  case none =>
    rw [runKnown_run ha, Prod.mk.injEq] at hrun
    have ⟨he, hc⟩ := hrun
    have hi := runKnown_imported ha he
    subst hc
    refine ⟨⟨h.sound, hi ▸ h.complete⟩, fun specifier hs => hi ▸ ?_⟩
    exact hs.elim id (Step.asks_eq_none.1 ha specifier)
  case some asked =>
    have ⟨hs, _⟩ := Step.asks_eq_some.1 ha
    rw [runStep_asks ha, Stateful.run_bind, answer_run] at hrun
    cases ht : W.resolve p asked path
    case error =>
      rw [ht] at hrun
      cases hrun
    case ok target =>
      cases hr : other asked
      case error =>
        rw [ht, hr] at hrun
        cases hrun
      case ok r =>
        simp only [ht, hr] at hrun
        rw [runKnown_run (Step.asks_know ha), Prod.mk.injEq] at hrun
        have ⟨he, hc⟩ := hrun
        have hi := runKnown_imported (Step.asks_know ha) he
        have hk := h.know (hn asked hs) ht hr
        subst hc
        refine ⟨⟨hk.sound, hi ▸ hk.complete⟩, fun specifier hor => hi ▸ ?_⟩
        simp only [Progress.know, Dict.contains_insert, Bool.or_eq_true, decide_eq_true_eq]
        exact hor.elim .inr fun hs' => .inl <| Option.some.inj (hs'.symm.trans hs)

theorem runSteps_answered (h : Answered p W path other named progress composed)
    (hn : ∀ step ∈ steps, ∀ specifier, step.specifier? = some specifier → specifier ∈ named)
    (hrun : (runSteps file rename (answer p W path other) steps progress).run.run composed =
      (.ok progress', composed')) :
    Answered p W path other named progress' composed' ∧
      ∀ specifier, progress.imported.contains specifier = true ∨
        (∃ step ∈ steps, step.specifier? = some specifier) →
        progress'.imported.contains specifier = true := by
  induction steps generalizing progress composed
  case nil =>
    cases hrun
    exact ⟨h, fun specifier hs => hs.elim id (by simp)⟩
  case cons step steps ih =>
    rw [runSteps, Stateful.run_bind] at hrun
    rcases hr : (runStep file rename (answer p W path other) progress step).run.run composed
      with ⟨e | progress₁, composed₁⟩
    case error =>
      rw [hr] at hrun
      cases hrun
    case ok =>
      rw [hr] at hrun
      obtain ⟨h₁, hi₁⟩ := runStep_answered h (hn step (by simp)) hr
      obtain ⟨h₂, hi₂⟩ := ih h₁ (fun step hm => hn step (.tail _ hm)) hrun
      refine ⟨h₂, fun specifier hs => hi₂ specifier ?_⟩
      rcases hs with hs | ⟨other, hm, hs⟩
      · exact .inl (hi₁ specifier (.inl hs))
      · rcases List.mem_cons.1 hm with rfl | hm
        · exact .inl (hi₁ specifier (.inr hs))
        · exact .inr ⟨other, hm, hs⟩

-- A result stands on the results for exactly the specifiers that its text names.
theorem composed_of_resultOfText {r : ScopedModule} (h : resultOfText p W path other css = .ok r) :
    ∃ sheet composed, r = moduleOf sheet composed ∧
      (∀ c ∈ composed, ∃ specifier ∈ specifiersOf css,
        W.resolve p specifier path = .ok c.1.path ∧ other specifier = .ok c.2) ∧
      ∀ specifier ∈ specifiersOf css, ∃ c ∈ composed,
        W.resolve p specifier path = .ok c.1.path ∧ other specifier = .ok c.2 := by
  unfold resultOfText Scoping.scope at h
  rw [Stateful.run_bind] at h
  rcases hr : (runSteps path (p.naming.generate · path) (answer p W path other) (plan css) .start).run.run []
    with ⟨e | progress, composed⟩
  case error =>
    rw [hr] at h
    cases h
  case ok =>
    rw [hr] at h
    have hs : Answered p W path other (specifiersOf css) .start [] :=
      ⟨by simp, by simp [Progress.start, Dict.contains]⟩
    obtain ⟨ha, hi⟩ := runSteps_answered hs
      (fun step hm specifier hs => List.mem_filterMap.2 ⟨step, hm, hs⟩) hr
    cases h
    refine ⟨_, _, rfl, ha.sound, fun specifier hm => ha.complete specifier (hi specifier (.inr ?_))⟩
    exact List.mem_filterMap.1 hm

theorem sourceMap_of_resultOfText {r : ScopedModule} (h : resultOfText p W path other css = .ok r) :
    r.sourceMap = some (lineSourceMap path r.css) := by
  unfold resultOfText Scoping.scope at h
  rw [Stateful.run_bind] at h
  rcases hr : (runSteps path (p.naming.generate · path) (answer p W path other) (plan css) .start).run.run []
    with ⟨e | progress, composed⟩
  all_goals
    rw [hr] at h
    cases h
  rfl

theorem mem_importTree {sheet : ScopedSheet} {q : String}
    (h : q ∈ (moduleOf sheet composed).importTree) :
    ∃ c ∈ composed, q ∈ c.1.path :: c.2.importTree := by
  simp only [moduleOf, List.mem_append, List.mem_map, List.mem_flatMap] at h
  rcases h with ⟨c, hc, rfl⟩ | ⟨c, hc, hq⟩
  · exact ⟨c, hc, .head _⟩
  · exact ⟨c, hc, .tail _ hq⟩

theorem importTree_mem {sheet : ScopedSheet} {q : String} {c : Composed} (hc : c ∈ composed)
    (h : q ∈ c.1.path :: c.2.importTree) : q ∈ (moduleOf sheet composed).importTree := by
  simp only [moduleOf, List.mem_append, List.mem_map, List.mem_flatMap]
  rcases List.mem_cons.1 h with rfl | h
  · exact .inl ⟨c, hc, rfl⟩
  · exact .inr ⟨c, hc, h⟩

-- A file with a result is not in its chain, nor is any file that the result stands on.
theorem Evaluates.not_mem {result : Except Error ScopedModule} (h : Evaluates p W chain path result)
    {r : ScopedModule} (hr : result = .ok r) : ∀ q ∈ path :: r.importTree, q ∉ chain := by
  induction h generalizing r
  case cyclic => cases hr
  case unread => cases hr
  case read hc _ _ ih =>
    have ⟨sheet, composed, he, hsound, _⟩ := composed_of_resultOfText hr
    intro q hq
    rcases List.mem_cons.1 hq with rfl | hq
    · exact hc
    · have ⟨c, hm, hq⟩ := mem_importTree (he ▸ hq)
      have ⟨specifier, hs, ht, ho⟩ := hsound c hm
      exact fun h => ih specifier hs _ ht ho q hq (List.mem_append_left _ h)

theorem Evaluates.sourceMap {r : ScopedModule} (h : Evaluates p W chain path (.ok r)) :
    r.sourceMap = some (lineSourceMap path r.css) := by
  generalize hr : Except.ok r = result at h
  cases h
  case read =>
    exact sourceMap_of_resultOfText hr.symm
  all_goals cases hr

-- Where a file has a result, it has the same below all other chains that nothing that the result
-- stands on is in.
theorem Evaluates.move {result : Except Error ScopedModule} (h : Evaluates p W chain path result)
    {r : ScopedModule} (hr : result = .ok r) {chain' : List String}
    (hd : ∀ q ∈ path :: r.importTree, q ∉ chain') : Evaluates p W chain' path result := by
  induction h generalizing r chain'
  case cyclic => cases hr
  case unread => cases hr
  case read ht ho ih =>
    have ⟨sheet, composed, he, _, hcomplete⟩ := composed_of_resultOfText hr
    refine .read (hd _ (.head _)) ht fun specifier hs target hres => ?_
    have ⟨c, hm, hres', hother⟩ := hcomplete specifier hs
    rw [hres, Except.ok.injEq] at hres'
    refine ih specifier hs target hres hother fun q hq => ?_
    have hq' : q ∈ r.importTree := he ▸ importTree_mem hm (hres' ▸ hq)
    have hn := (ho specifier hs target hres).not_mem hother q hq
    simp only [List.mem_append, List.mem_singleton, not_or] at hn ⊢
    exact ⟨hd q (.tail _ hq'), hn.2⟩

-- A chain that can come about: all files in it could be read, and all but the first were resolved to.
structure Collection.Admits (W : Collection) (chain : List String) : Prop where
  nodup : chain.Nodup
  read  : ∀ q ∈ chain, ∃ css, W.text q = .ok css
  tail  : ∀ q ∈ chain.tail, Path.IsCanonical q

namespace Collection.Admits

theorem nil : W.Admits [] where
  nodup := .nil
  read  := by simp
  tail  := by simp

theorem length_le (h : W.Admits chain) : chain.length ≤ W.size + 1 := by
  have := W.finite chain.tail (h.nodup.sublist (List.tail_sublist _)) fun q hq =>
    ⟨h.tail q hq, h.read q (List.mem_of_mem_tail hq)⟩
  rw [List.length_tail] at this
  omega

theorem append (h : W.Admits chain) (hn : path ∉ chain) (hc : chain ≠ [] → Path.IsCanonical path)
    (ht : W.text path = .ok css) : W.Admits (chain ++ [path]) where
  nodup := by
    refine List.nodup_append.2 ⟨h.nodup, by simp, fun q hq q' hq' he => hn ?_⟩
    rwa [← List.mem_singleton.1 hq', ← he]
  read q hq := by
    rcases List.mem_append.1 hq with hq | hq
    · exact h.read q hq
    · exact ⟨css, List.mem_singleton.1 hq ▸ ht⟩
  tail q hq := by
    cases chain
    case nil => simp at hq
    case cons first chain =>
      simp only [List.cons_append, List.tail_cons, List.mem_append, List.mem_singleton] at hq
      rcases hq with hq | rfl
      · exact h.tail q hq
      · exact hc (by simp)

end Collection.Admits

-- The results of all files that a file could take classes from.
theorem exists_other (path : String)
    (h : ∀ target, Path.IsCanonical target → ∃ result, Evaluates p W chain target result) :
    ∃ other : String → Except Error ScopedModule, ∀ specifier target,
      W.resolve p specifier path = .ok target → Evaluates p W chain target (other specifier) := by
  have hnext (specifier : String) : ∃ result, ∀ target,
      W.resolve p specifier path = .ok target → Evaluates p W chain target result := by
    cases hr : W.resolve p specifier path
    case error e => exact ⟨.error e, by simp⟩
    case ok target =>
      have ⟨result, he⟩ := h target (Resolver.isCanonical_resolve hr)
      exact ⟨result, fun t h => Except.ok.inj h ▸ he⟩
  choose other hother using hnext
  exact ⟨other, hother⟩

-- Scoping anew ends: a chain cannot become longer than there are files.
theorem exists_evaluates (h : W.Admits chain) (hc : chain ≠ [] → Path.IsCanonical path) :
    ∃ result, Evaluates p W chain path result := by
  induction hm : W.size + 2 - chain.length generalizing chain path
  case zero =>
    have := h.length_le
    omega
  case succ more ih =>
    by_cases hn : path ∈ chain
    case pos => exact ⟨_, .cyclic hn⟩
    case neg =>
      cases ht : W.text path
      case error => exact ⟨_, .unread hn ht⟩
      case ok css =>
        have ⟨other, hother⟩ := exists_other path fun target hcan =>
          ih (h.append hn hc ht) (fun _ => hcan) (by simp; omega)
        exact ⟨_, .read hn ht fun specifier _ => hother specifier⟩

end

end ScopedCss
