import ScopedCss.Proofs.Dict
import ScopedCss.Proofs.Scoping.Plan
import ScopedCss.Proofs.Scoping.Steps
import ScopedCss.Proofs.Stateful

namespace ScopedCss.Scoping

-- A piece of what a style sheet is scoped to: a text, or a local name in whose place another stands.
inductive Piece
  | text (s : List Char)
  | name (n : String)

namespace Piece

def own? : Piece → Option String
  | text _ => none
  | name n => some n

def written (rename : String → String) : Piece → List Char
  | text s => s
  | name n => (rename n).toList

end Piece

def Step.piece? : Step → Option Piece
  | .text s   => some (.text s)
  | .gap s    => some (.text s)
  | .name _ n => some (.name n)
  | _         => none

def piecesOf (steps : List Step) : List Piece :=
  steps.filterMap Step.piece?

-- The text that the pieces make up with all local names replaced.
def written (rename : String → String) (pieces : List Piece) : List Char :=
  pieces.flatMap (Piece.written rename)

theorem piecesOf_append (steps₁ steps₂ : List Step) :
    piecesOf (steps₁ ++ steps₂) = piecesOf steps₁ ++ piecesOf steps₂ :=
  List.filterMap_append

theorem written_append (rename : String → String) (pieces₁ pieces₂ : List Piece) :
    written rename (pieces₁ ++ pieces₂) = written rename pieces₁ ++ written rename pieces₂ :=
  List.flatMap_append

theorem filterMap_own?_piecesOf (steps : List Step) :
    (piecesOf steps).filterMap Piece.own? = localNames steps := by
  unfold piecesOf localNames
  rw [List.filterMap_filterMap]
  congr
  funext step
  cases step <;> rfl

-- White space that could be dropped stands behind something else, so that it is kept.
def Settled (rename : String → String) (steps : List Step) : Prop :=
  ∀ before s after, steps = before ++ .gap s :: after →
    ∃ c, (written rename (piecesOf before)).getLast? = some c ∧ Text.isBlank c = false

section

variable {file : String} {rename : String → String} {p p' : Progress} {step : Step} {n : String}
  {targets names : List String}

-- In every list of names, the first is that which the local name is replaced by.
def Headed (rename : String → String) (exports : Dict (List String)) : Prop :=
  ∀ n list, exports.get? n = some list → list.head? = some (rename n)

theorem Headed.insert {exports : Dict (List String)} {list : List String} (h : Headed rename exports)
    (hl : list.head? = some (rename n)) : Headed rename (exports.insert n list) := by
  intro k found hk
  rw [Dict.get?_insert] at hk
  split at hk
  case isTrue he =>
    cases hk
    rw [he, hl]
  case isFalse => exact h k found hk

theorem addNames_keys (targets names : List String) (p : Progress) :
    (p.addNames targets names).exports.keys = p.exports.keys := by
  unfold Progress.addNames
  dsimp only
  generalize p.exports = exports
  induction targets generalizing exports
  case nil => rfl
  case cons target targets ih =>
    rw [List.foldl_cons, ih]
    split
    case h_1 hg => exact Dict.keys_insert_of_get? hg
    case h_2    => rfl

theorem addNames_headed (targets names : List String) (h : Headed rename p.exports) :
    Headed rename (p.addNames targets names).exports := by
  unfold Progress.addNames
  dsimp only
  generalize p.exports = exports at h
  induction targets generalizing exports
  case nil => exact h
  case cons target targets ih =>
    rw [List.foldl_cons]
    refine ih _ ?_
    split
    case h_2         => exact h
    case h_1 list hg =>
      refine h.insert ?_
      rw [List.head?_append, h target list hg, Option.some_or]

theorem keys_writeName (n full : String) (p : Progress) :
    (p.writeName n full).exports.keys =
      if n ∈ p.exports.keys then p.exports.keys else p.exports.keys ++ [n] := by
  unfold Progress.writeName
  by_cases h : n ∈ p.exports.keys
  case pos => simp [h, Dict.contains_iff_mem_keys]
  case neg => simp [h, Dict.contains_iff_mem_keys, Dict.keys_insert]

-- What a run of steps has come to with local names replaced by `rename`.
structure Written (rename : String → String) (steps : List Step) (p : Progress) : Prop where
  css    : p.css.toList = written rename (piecesOf steps)
  keys   : p.exports.keys = (localNames steps).eraseDups
  headed : Headed rename p.exports

theorem Written.start : Written rename [] .start where
  css          := rfl
  keys         := rfl
  headed _ _ h := by cases h

section

variable {steps : List Step} (h : Written rename steps p)

include h

theorem Written.know (specifier : String) (tokens : Tokens) :
    Written rename steps (p.know specifier tokens) :=
  ⟨h.css, h.keys, h.headed⟩

theorem Written.text (hs : step.piece? = some (.text s)) (ho : step.own? = none) :
    Written rename (steps ++ [step]) (p.write s) where
  css    := by simp [Progress.write, h.css, piecesOf, hs, written, Piece.written]
  keys   := by simp [Progress.write, h.keys, localNames, ho]
  headed := h.headed

theorem Written.name (kind : NameKind) (n : String) :
    Written rename (steps ++ [.name kind n]) (p.writeName n (rename n)) where
  css    := by simp [Progress.writeName, h.css, piecesOf, Step.piece?, written, Piece.written]
  keys   := by
    have hl : localNames (steps ++ [.name kind n]) = localNames steps ++ [n] := localNames_append _ _
    rw [hl, List.eraseDups_append]
    rw [keys_writeName, h.keys]
    by_cases hm : n ∈ localNames steps
    case pos => simp [hm, List.removeAll]
    case neg => simp [hm, List.removeAll, List.eraseDups_cons]
  headed := by
    unfold Progress.writeName
    dsimp only
    split
    case isTrue  => exact h.headed
    case isFalse => exact h.headed.insert rfl

theorem Written.compose (hs : step.piece? = none) (ho : step.own? = none) :
    Written rename (steps ++ [step]) (p.addNames targets names) where
  css    := by simp [Progress.addNames, h.css, piecesOf, hs]
  keys   := by rw [addNames_keys, h.keys]; simp [localNames, ho]
  headed := addNames_headed targets names h.headed

-- What one more step writes, once what it asks for is known.
theorem Written.more (hg : ∀ s, step = .gap s → p.endsInBlank = false) (ha : step.asks p = none)
    (hr : runKnown file (fun n => .ok (rename n)) p step = .ok p') :
    Written rename (steps ++ [step]) p' := by
  cases step
  case text s =>
    cases hr
    exact h.text rfl rfl
  case gap s =>
    cases hr
    simp only [hg s rfl, Bool.false_eq_true, ↓reduceIte]
    exact h.text rfl rfl
  case name kind n =>
    cases hr
    exact h.name kind n
  case fail => cases hr
  case compose targets names source pos =>
    cases source
    case everywhere =>
      cases hr
      exact h.compose rfl rfl
    case sameFile =>
      rw [runKnown_sameFile] at hr
      split at hr <;> cases hr
      exact h.compose rfl rfl
    case file specifier =>
      have ⟨tokens, hk⟩ := Option.isSome_iff_exists.1 (Step.asks_eq_none.1 ha specifier rfl)
      rw [runKnown_file hk] at hr
      split at hr <;> cases hr
      exact h.compose rfl rfl

end

end

-- A property of all that the steps of a run come to: each step keeps it, once what the step asks for
-- is known, and so does learning the exports of another file when they are asked for.
theorem runSteps_induct {file : String} {rename : String → Except Error String} {σ : Type}
    {resolve : String → ExceptT Error (StateM σ) Tokens} {P : List Step → Progress → Prop}
    {done steps all : List Step} {p p' : Progress} {s t : σ}
    (known : ∀ {done rest step p p'}, all = done ++ step :: rest → P done p → step.asks p = none →
      runKnown file rename p step = .ok p' → P (done ++ [step]) p')
    (know : ∀ {done p specifier tokens u v}, P done p → p.imported.contains specifier = false →
      (resolve specifier).run.run u = (.ok tokens, v) → P done (p.know specifier tokens))
    (ha : all = done ++ steps) (hp : P done p)
    (hr : (runSteps file rename resolve steps p).run.run s = (.ok p', t)) : P all p' := by
  induction steps generalizing done p s
  case nil =>
    cases hr
    simpa [ha] using hp
  case cons step steps ih =>
    have hstep {p s} (hp : P done p) (hasks : step.asks p = none)
        (hr : (runSteps file rename resolve (step :: steps) p).run.run s = (.ok p', t)) : P all p' := by
      rw [runSteps, Stateful.run_bind, runStep_known hasks] at hr
      cases hk : runKnown file rename p step
      all_goals rw [hk] at hr
      case error => cases hr
      case ok next => exact ih (by simp [ha]) (known ha hp hasks hk) hr
    cases hasks : step.asks p
    case none => exact hstep hp hasks hr
    case some specifier =>
      rw [runSteps, runStep_asks hasks, bind_assoc, Stateful.run_bind] at hr
      rcases hres : (resolve specifier).run.run s with ⟨e | tokens, s'⟩
      all_goals rw [hres] at hr
      case error => cases hr
      case ok => exact hstep (know hp (Step.asks_eq_some.1 hasks).2 hres) (Step.asks_know hasks) hr

-- White space that could be dropped is written behind something else.
theorem Written.endsInBlank {rename : String → String} {steps rest : List Step} {s : List Char} {p : Progress}
    (h : Written rename steps p) (hs : Settled rename (steps ++ .gap s :: rest)) : p.endsInBlank = false := by
  have ⟨c, hc, hb⟩ := hs _ s _ rfl
  rw [Progress.endsInBlank, h.css, hc]
  exact hb

-- What a whole run of steps writes.
theorem Written.runSteps {file : String} {rename : String → String} {σ : Type}
    {resolve : String → ExceptT Error (StateM σ) Tokens} {steps : List Step} {p : Progress} {s t : σ}
    (hs : Settled rename steps)
    (hr : (Scoping.runSteps file (fun n => .ok (rename n)) resolve steps .start).run.run s = (.ok p, t)) :
    Written rename steps p := by
  refine runSteps_induct (P := Written rename) (fun ha h hasks hk => ?_) (fun h _ _ => h.know _ _) rfl
    .start hr
  exact h.more (fun blanks hg => h.endsInBlank (hg ▸ ha ▸ hs)) hasks hk

-- A project without other files.
def nowhere (specifier : String) : ExceptT Error (StateM Unit) Tokens :=
  throw (.fileNotFound specifier)

end ScopedCss.Scoping
