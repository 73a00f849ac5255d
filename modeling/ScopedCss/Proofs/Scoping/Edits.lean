import ScopedCss.Proofs.Scoping.Comments
import ScopedCss.Proofs.Scoping.Parts

namespace ScopedCss.Scoping

section

variable (rename : String → Except Error String)

-- What a step writes where local names are replaced by `rename`.
inductive Step.Writes : Step → List Char → Prop
  | text (s : List Char) : Writes (.text s) s
  | kept (blanks : List Char) : Writes (.gap blanks) blanks
  | dropped (blanks : List Char) : Writes (.gap blanks) []
  | name {kind : NameKind} {n full : String} : rename n = .ok full → Writes (.name kind n) full.toList
  | compose {targets names : List String} {source : ComposesSource} {pos : Position} :
    Writes (.compose targets names source pos) []

inductive Writes : List Step → List Char → Prop
  | nil : Writes [] []
  | cons {step : Step} {steps : List Step} {u w : List Char} :
    step.Writes rename u → Writes steps w → Writes (step :: steps) (u ++ w)

-- A stretch of a style sheet, and what stands for it where the style sheet is scoped.
structure Edit where
  source  : List Char
  written : List Char

-- All that scoping changes.
inductive Edit.Made : Edit → Prop
  | kept (s : List Char) : Made ⟨s, s⟩
  | renamed (kind : NameKind) {n : List Char} {full : String} :
    rename (.ofList n) = .ok full → (kind.lead ++ n).head?.any (· != '\n') = true →
    Made ⟨kind.lead ++ n, kind.lead ++ full.toList⟩
  | unmarked {word blanks : List Char} :
    word ∈ marks → (∀ c ∈ blanks, Text.isBlank c = true) → Made ⟨word ++ blanks, []⟩
  | unwrapped {opening body : List Char} :
    opening ∈ marks → Made ⟨opening ++ body ++ [')'], Text.trim body⟩
  | unwrappedName {opening body : List Char} {full : String} :
    opening ∈ marks → rename (.ofList (Text.trim body)) = .ok full →
    Made ⟨opening ++ body ++ [')'], full.toList⟩
  | composed {declaration stop : List Char} :
    (composesValue? declaration).isSome = true → stop = [] ∨ stop = [';'] →
    Made ⟨declaration ++ stop, lineBreaks declaration⟩

-- How one text comes to stand for another, stretch by stretch.
structure Edits (s w : List Char) (edits : List Edit) : Prop where
  source  : edits.flatMap Edit.source = s
  written : edits.flatMap Edit.written = w
  made    : ∀ e ∈ edits, e.Made rename

def Edited (s w : List Char) : Prop :=
  ∃ edits, Edits rename s w edits

end

section

variable {rename : String → Except Error String}

namespace Writes

variable {step : Step} {steps steps' : List Step} {u w : List Char}

theorem only (h : step.Writes rename u) : Writes rename [step] u := by
  have hs := cons h nil
  rwa [List.append_nil] at hs

theorem append (h : Writes rename steps u) (h' : Writes rename steps' w) :
    Writes rename (steps ++ steps') (u ++ w) := by
  induction h
  case nil => exact h'
  case cons hstep _ ih =>
    rw [List.append_assoc]
    exact .cons hstep ih

theorem of_append (h : Writes rename (steps ++ steps') w) :
    ∃ u v, w = u ++ v ∧ Writes rename steps u ∧ Writes rename steps' v := by
  induction steps generalizing w
  case nil => exact ⟨[], w, rfl, .nil, h⟩
  case cons step steps ih =>
    rcases h with _ | ⟨hstep, hrest⟩
    obtain ⟨u, v, rfl, hu, hv⟩ := ih hrest
    exact ⟨_, v, by rw [List.append_assoc], .cons hstep hu, hv⟩

theorem of_only (h : Writes rename [step] w) : step.Writes rename w := by
  rcases h with _ | ⟨hstep, hrest⟩
  cases hrest
  rwa [List.append_nil]

end Writes

theorem Step.Writes.text_eq {s u : List Char} (h : Step.Writes rename (.text s) u) : u = s := by
  cases h
  rfl

-- What writes nothing of itself.
theorem Step.Writes.eq_nil {step : Step} {u : List Char} (h : step.Writes rename u) (hs : step.piece? = none) :
    u = [] := by
  cases h
  case compose => rfl
  all_goals cases hs

theorem Writes.of_text {s w : List Char} {steps : List Step} (h : Writes rename (.text s :: steps) w) :
    ∃ v, w = s ++ v ∧ Writes rename steps v := by
  rcases h with _ | ⟨hstep, hrest⟩
  exact ⟨_, congrArg (· ++ _) hstep.text_eq, hrest⟩

theorem Writes.of_composed {compose : Step} {s t w : List Char} (hc : compose.piece? = none)
    (h : Writes rename [compose, .text s, .text t] w) : w = s ++ t := by
  rcases h with _ | ⟨hcompose, hrest⟩
  obtain ⟨v, rfl, hlast⟩ := hrest.of_text
  have hv : v = t := hlast.of_only.text_eq
  rw [hcompose.eq_nil hc, hv, List.nil_append]

namespace Edited

variable {s t u w : List Char} {e : Edit}

theorem nil : Edited rename [] [] :=
  ⟨[], rfl, rfl, by simp⟩

theorem only (h : e.Made rename) : Edited rename e.source e.written :=
  ⟨[e], by simp, by simp, by simpa using h⟩

theorem append (h : Edited rename s u) (h' : Edited rename t w) : Edited rename (s ++ t) (u ++ w) := by
  obtain ⟨edits, rfl, rfl, hm⟩   := h
  obtain ⟨edits', rfl, rfl, hm'⟩ := h'
  refine ⟨edits ++ edits', List.flatMap_append, List.flatMap_append, fun e he => ?_⟩
  exact (List.mem_append.1 he).elim (hm e) (hm' e)

theorem kept (s : List Char) : Edited rename s s :=
  only (.kept s)

end Edited

theorem edited_part {part : Part} {w : List Char} (h : Writes rename part.steps w) :
    Edited rename part.source w := by
  cases part
  case text s =>
    cases h.of_only
    exact .kept _
  case name kind n hn =>
    have hname {w : List Char} (hw : Step.Writes rename (.name kind (.ofList n)) w) :
        Edited rename (kind.lead ++ n) (kind.lead ++ w) := by
      cases hw
      exact .only (.renamed kind ‹_› hn)
    cases kind
    case keyframes => exact hname h.of_only
    all_goals
      rcases h with _ | ⟨hlead, hrest⟩
      cases hlead
      exact hname hrest.of_only
  case mark word blanks hw hb =>
    cases h
    exact .only (.unmarked hw hb)
  case gap word blanks hw hb =>
    cases h.of_only
    case dropped => exact .only (.unmarked hw hb)
    case kept    =>
      have hword : Edited rename (word ++ []) [] := .only (.unmarked hw (List.forall_mem_nil _))
      rw [List.append_nil] at hword
      exact hword.append (.kept _)
  case wrapped opening body ho =>
    cases h.of_only
    exact .only (.unwrapped ho)
  case wrappedName opening body ho =>
    cases h.of_only
    exact .only (.unwrappedName ho ‹_›)
  case composed compose comments declaration stop hc hd hs =>
    rw [h.of_composed hc]
    have he : Edited rename (comments ++ (declaration ++ stop)) (comments ++ lineBreaks declaration) :=
      (Edited.kept comments).append (.only (.composed hd hs))
    rwa [← List.append_assoc] at he

-- What is written for a text that was planned in parts is that text with changes.
theorem edited_of_plans {s w : List Char} {steps : List Step} (h : Plans s steps) (hw : Writes rename steps w) :
    Edited rename s w := by
  obtain ⟨parts, rfl, rfl⟩ := h
  induction parts generalizing w
  case nil =>
    cases hw
    exact .nil
  case cons part parts ih =>
    rw [List.flatMap_cons] at hw ⊢
    obtain ⟨u, v, rfl, hu, hv⟩ := hw.of_append
    exact (edited_part hu).append (ih hv)

section

variable {css file : String} {σ : Type} {resolve : String → ExceptT Error (StateM σ) Tokens} {p p' : Progress}
  {step : Step} {steps : List Step} {s t : σ}

theorem runKnown_writes (ha : step.asks p = none) (hr : runKnown file rename p step = .ok p') :
    ∃ u, step.Writes rename u ∧ p'.css.toList = p.css.toList ++ u := by
  cases step
  case text s =>
    cases hr
    exact ⟨s, .text s, by simp [Progress.write]⟩
  case gap blanks =>
    cases hr
    split
    case isTrue  => exact ⟨[], .dropped blanks, by simp⟩
    case isFalse => exact ⟨blanks, .kept blanks, by simp [Progress.write]⟩
  case name kind n =>
    rw [runKnown_name] at hr
    cases hn : rename n
    all_goals
      rw [hn] at hr
      cases hr
    exact ⟨_, .name hn, String.toList_append⟩
  case fail => cases hr
  case compose =>
    obtain ⟨u, hu, hnone, _⟩ := runKnown_css ha hr
    exact ⟨u, hnone rfl ▸ .compose, hu⟩

theorem runSteps_writes (hr : (runSteps file rename resolve steps p).run.run s = (.ok p', t)) :
    ∃ w, Writes rename steps w ∧ p'.css.toList = p.css.toList ++ w := by
  refine runSteps_induct (P := fun steps q => ∃ w, Writes rename steps w ∧ q.css.toList = p.css.toList ++ w)
    (fun _ h ha hk => ?_) (fun h _ _ => h) (List.nil_append _).symm ⟨[], .nil, by simp⟩ hr
  obtain ⟨w, hw, hp⟩ := h
  obtain ⟨u, hu, hq⟩ := runKnown_writes ha hk
  exact ⟨w ++ u, hw.append (.only hu), by rw [hq, hp, List.append_assoc]⟩

theorem run_of_scope {sheet : ScopedSheet} (hr : (scope css file rename resolve).run.run s = (.ok sheet, t)) :
    ∃ p, (runSteps file rename resolve (plan css) .start).run.run s = (.ok p, t) ∧ sheet = p.toSheet file := by
  rw [scope_run] at hr
  rcases hrun : (runSteps file rename resolve (plan css) .start).run.run s with ⟨_ | p, _⟩
  all_goals
    rw [hrun] at hr
    cases hr
  exact ⟨p, rfl, rfl⟩

-- What a style sheet is scoped to.
theorem scope_writes {sheet : ScopedSheet} (hr : (scope css file rename resolve).run.run s = (.ok sheet, t)) :
    ¬Fails (plan css) ∧ Writes rename (plan css) sheet.css.toList := by
  obtain ⟨p, hrun, rfl⟩ := run_of_scope hr
  obtain ⟨w, hw, hp⟩ := runSteps_writes hrun
  refine ⟨not_fails_of_runSteps hrun, ?_⟩
  rwa [show (p.toSheet file).css.toList = w from hp]

theorem scope_edited {sheet : ScopedSheet} (hr : (scope css file rename resolve).run.run s = (.ok sheet, t)) :
    Edited rename css.toList sheet.css.toList := by
  have ⟨hf, hw⟩ := scope_writes hr
  have hp : Plans _ (plan css) := plans_planSegments hf
  rw [text_ofText (not_broken_of_not_fails hf)] at hp
  exact edited_of_plans hp hw

-- The source map is that of what was written.
theorem scope_sourceMap {sheet : ScopedSheet} (hr : (scope css file rename resolve).run.run s = (.ok sheet, t)) :
    sheet.sourceMap = some (lineSourceMap file sheet.css) := by
  obtain ⟨_, _, rfl⟩ := run_of_scope hr
  rfl

end

end

end ScopedCss.Scoping
