import Mathlib.Data.List.Nodup
import ScopedCss.Proofs.Dict
import ScopedCss.Proofs.Scoping.Plan
import ScopedCss.Proofs.Scoping.Steps
import ScopedCss.Proofs.Stateful

namespace ScopedCss.Scoping

-- The file that a declaration takes classes from.
def Declaration.file? (d : Declaration) : Option String :=
  match d.source with
  | .file specifier => some specifier
  | _               => none

-- The files that the declarations of a style sheet take classes from, each where it is named first.
def filesOf (css : String) : List String :=
  ((compositionsOf css).filterMap Declaration.file?).eraseDups

theorem filterMap_declarationsOf (steps : List Step) :
    (declarationsOf steps).filterMap Declaration.file? = steps.filterMap Step.specifier? := by
  rw [declarationsOf, List.filterMap_filterMap]
  congr
  funext step
  rcases step with _ | _ | _ | ⟨_, _, _ | _ | _, _⟩ | _ <;> rfl

theorem eraseDups_mono {l l' : List String} (h : l <+: l') : l.eraseDups <+: l'.eraseDups := by
  obtain ⟨more, rfl⟩ := h
  rw [List.eraseDups_append]
  exact List.prefix_append ..

theorem nodup_eraseDups (l : List String) : l.eraseDups.Nodup := by
  induction l using List.reverseRecOn
  case nil => exact .nil
  case append_singleton l a ih =>
    rw [eraseDups_append_singleton]
    split
    case isTrue => exact ih
    case isFalse h =>
      rw [← List.concat_eq_append, List.nodup_concat, List.mem_eraseDups]
      exact ⟨h, ih⟩

section

variable {ran steps more : List Step} {step : Step} {others : List Declaration}

-- What the beginning of some steps declares, if nothing fails in it: the beginning is empty or has the first step, ...
theorem declarationsOf_beginning_cons {own : List Declaration} (hp : ran <+: step :: more) (hf : ¬Fails ran)
    (hown : ¬Fails [step] → declarationsOf [step] = own)
    (hrest : ∀ ran, ran <+: more → ¬Fails ran → declarationsOf ran <+: others) :
    declarationsOf ran <+: own ++ others := by
  cases ran
  case nil => exact List.nil_prefix
  case cons step' ran =>
    obtain ⟨rfl, hrun⟩ := List.cons_prefix_cons.1 hp
    rw [← List.singleton_append, fails_append, not_or] at hf
    rw [← List.singleton_append, declarationsOf_append, hown hf.1, List.prefix_append_right_inj]
    exact hrest ran hrun hf.2

-- ... and steps that only write declare nothing.
theorem declarationsOf_beginning_write (ho : OnlyWrite steps) (hp : ran <+: steps ++ more) (hf : ¬Fails ran)
    (hrest : ∀ ran, ran <+: more → ¬Fails ran → declarationsOf ran <+: others) :
    declarationsOf ran <+: others := by
  induction steps generalizing ran
  case nil => exact hrest ran hp hf
  case cons step steps ih =>
    obtain ⟨hs, ho⟩ := onlyWrite_cons.1 ho
    have hown : declarationsOf [step] = [] := OnlyWrite.declarationsOf (by simpa using hs)
    have hall : declarationsOf ran <+: [] ++ others :=
      declarationsOf_beginning_cons hp hf (fun _ => hown) fun ran hp hf => ih ho hp hf
    exact hall

theorem declarationsOf_beginning_declaration {stack : List Block} {text : List Char} {pos : Position} {closes : Bool}
    (hp : ran <+: declarationSteps stack text pos closes ++ more) (hf : ¬Fails ran)
    (hrest : ∀ ran, ran <+: more → ¬Fails ran → declarationsOf ran <+: others) :
    declarationsOf ran <+:
      ((stack.map Block.rule).head?.join.bind (Declaration.ofText? · text)).toList ++ others := by
  have hstop : OnlyWrite (if closes then [] else [Step.text [';']]) := by
    cases closes <;> simp
  have hplain {steps : List Step} (ho : OnlyWrite steps) (hp : ran <+: steps ++ more)
      {d : Option Declaration} (hd : d = none) : declarationsOf ran <+: d.toList ++ others := by
    rw [hd]
    exact declarationsOf_beginning_write ho hp hf hrest
  unfold declarationSteps at hp
  dsimp only at hp
  split at hp
  case h_2 hn =>
    refine hplain (by simp [hstop]) hp ?_
    rcases stack with _ | ⟨⟨blockPos, rule⟩, stack⟩
    case nil => rfl
    case cons =>
      cases rule
      case none => rfl
      case some targets => exact (hn blockPos targets stack rfl).elim
  case h_1 block targets rest =>
    simp only [List.map_cons, List.head?_cons, Option.join_some, Option.bind_some, Declaration.ofText?]
    cases hv : composesValue? (splitComments text).2
    case some value =>
      rw [hv] at hp
      refine declarationsOf_beginning_cons hp hf declarationsOf_composeStep fun ran hp hf => ?_
      exact declarationsOf_beginning_write (by simp) hp hf hrest
    case none =>
      rw [hv] at hp
      dsimp only at hp
      split at hp
      case h_1 steps hs => exact hplain (by simp [hstop, onlyWrite_animationSteps? hs]) hp rfl
      case h_2 => exact hplain (by simp [hstop]) hp rfl

-- As far as a style sheet is scoped, it is read as having its declarations, in their order.
theorem declarationsOf_beginning {stack : List Block} {segments : List Segment}
    (hp : ran <+: planSegments stack segments) (hf : ¬Fails ran) :
    declarationsOf ran <+: declared (stack.map Block.rule) segments := by
  induction segments generalizing stack ran
  case nil =>
    rw [List.prefix_nil.1 hp]
    exact List.nil_prefix
  case cons segment rest ih =>
    have hplain {steps : List Step} {stack : List Block} (ho : OnlyWrite steps)
        (hp : ran <+: steps ++ planSegments stack rest) :
        declarationsOf ran <+: declared (stack.map Block.rule) rest :=
      declarationsOf_beginning_write ho hp hf fun ran hp hf => ih hp hf
    have hfail {fault : Fault} {pos : Position} {others : List Declaration} (ran : List Step)
        (hp : ran <+: [.fail fault pos]) (hf : ¬Fails ran) : declarationsOf ran <+: others := by
      cases ran
      case nil => exact List.nil_prefix
      case cons step ran =>
        obtain ⟨rfl, _⟩ := List.cons_prefix_cons.1 hp
        exact absurd ⟨fault, pos, .head _⟩ hf
    cases segment
    case blank s => exact hplain (onlyWrite_text s) hp
    case opening prelude pos =>
      unfold planSegments at hp
      unfold declared blockClasses
      cases hn : atRuleName? prelude
      all_goals
        rw [hn] at hp
        dsimp only at hp ⊢
        rw [List.append_cons] at hp
      case some name => exact hplain (by simp [onlyWrite_atRuleSteps]) hp
      case none => exact hplain (by simp [onlyWrite_selectorSteps]) hp
    case verbatim prelude body =>
      unfold planSegments at hp
      rw [List.append_cons, List.append_cons] at hp
      exact hplain (by simp [onlyWrite_atRuleSteps]) hp
    case declaration text pos closes =>
      unfold planSegments at hp
      rw [declared]
      refine declarationsOf_beginning_declaration hp hf fun ran hp hf => ?_
      cases closes
      case false => exact ih hp hf
      case true =>
        cases stack
        case nil => exact hfail ran hp hf
        case cons block stack =>
          exact declarationsOf_beginning_write (onlyWrite_text _) hp hf fun ran hp hf => ih hp hf
    case tail text =>
      unfold planSegments at hp
      cases stack
      case nil => exact hplain (onlyWrite_text text) hp
      case cons block stack => exact declarationsOf_beginning_write (onlyWrite_text text) hp hf hfail
    case broken => exact hfail ran hp hf

end

-- A file that was asked for, and what was answered.
structure Inquiry where
  specifier : String
  answer    : Except Error Tokens

variable {σ : Type}

-- Answers as before, and notes what was asked and what was answered.
def recording (resolve : String → ExceptT Error (StateM σ) Tokens) (specifier : String) :
    ExceptT Error (StateM (σ × List Inquiry)) Tokens :=
  ExceptT.mk fun (s, record) =>
    let (answer, t) := (resolve specifier).run.run s
    (answer, t, record ++ [⟨specifier, answer⟩])

theorem run_recording {resolve : String → ExceptT Error (StateM σ) Tokens} {specifier : String} {s t : σ}
    {answer : Except Error Tokens} (h : (resolve specifier).run.run s = (answer, t)) (record : List Inquiry) :
    (recording resolve specifier).run.run (s, record) = (answer, t, record ++ [⟨specifier, answer⟩]) := by
  have hrun : (recording resolve specifier).run.run (s, record) =
      match (resolve specifier).run.run s with
      | (answer, t) => (answer, t, record ++ [⟨specifier, answer⟩]) := rfl
  rw [hrun, h]

-- The inquiries of a run with this result: no answer but the last can be a failure, and it is then that of the run.
inductive Answered {α : Type} (result : Except Error α) (record : List Inquiry) : Prop
  | all (h : ∀ inquiry ∈ record, inquiry.answer.isOk = true)
  | failed (before : List Inquiry) (specifier : String) (e : Error)
      (hr : record = before ++ [⟨specifier, .error e⟩]) (h : ∀ inquiry ∈ before, inquiry.answer.isOk = true)
      (he : result = .error e)

-- The inquiries that have been made for some steps, all of them answered.
structure Recorded (steps : List Step) (p : Progress) (record : List Inquiry) : Prop where
  known    : p.imported.keys = record.map Inquiry.specifier
  named    : record.map Inquiry.specifier = (steps.filterMap Step.specifier?).eraseDups
  answered : ∀ inquiry ∈ record, inquiry.answer.isOk = true

-- How a run of some steps ends, going on from others: how far it came, and what it has asked for.
structure Ended (done steps : List Step) (result : Except Error Progress) (record : List Inquiry) : Prop where
  asked    : ∃ ran, ran <+: steps ∧ ¬Fails ran ∧ (result.isOk = true → ran = steps) ∧
    record.map Inquiry.specifier = ((done ++ ran).filterMap Step.specifier?).eraseDups
  answered : Answered result record

section

variable {file : String} {rename : String → Except Error String}
  {resolve : String → ExceptT Error (StateM σ) Tokens} {s : σ} {p p' : Progress} {done steps : List Step}
  {step : Step} {record : List Inquiry} {specifier : String} {tokens : Tokens}

theorem Recorded.known_step (h : Recorded done p record) (ha : step.asks p = none) :
    record.map Inquiry.specifier = ((done ++ [step]).filterMap Step.specifier?).eraseDups := by
  rw [List.filterMap_append]
  cases hs : step.specifier?
  case none => simpa [hs] using h.named
  case some specifier =>
    have hm : specifier ∈ done.filterMap Step.specifier? := by
      rw [← List.mem_eraseDups, ← h.named, ← h.known, ← Dict.contains_iff_mem_keys]
      exact Step.asks_eq_none.1 ha specifier hs
    simp only [List.filterMap_cons, hs, List.filterMap_nil]
    rw [eraseDups_append_singleton, if_pos hm, h.named]

theorem Recorded.new_step (h : Recorded done p record) (ha : step.asks p = some specifier) :
    record.map Inquiry.specifier ++ [specifier] =
      ((done ++ [step]).filterMap Step.specifier?).eraseDups := by
  obtain ⟨hs, hn⟩ := Step.asks_eq_some.1 ha
  have hm : specifier ∉ done.filterMap Step.specifier? := by
    rw [← List.mem_eraseDups, ← h.named, ← h.known, ← Dict.contains_iff_mem_keys, hn]
    exact Bool.false_ne_true
  rw [List.filterMap_append]
  simp only [List.filterMap_cons, hs, List.filterMap_nil]
  rw [eraseDups_append_singleton, if_neg hm, h.named]

-- The inquiries of a run that goes no further than this step.
theorem Ended.of_error {e : Error}
    (hn : record.map Inquiry.specifier = ((done ++ [step]).filterMap Step.specifier?).eraseDups)
    (ha : Answered (.error e : Except Error Progress) record) : Ended done (step :: steps) (.error e) record := by
  refine ⟨?_, ha⟩
  by_cases hf : Fails [step]
  case pos =>
    obtain ⟨fault, pos, hm⟩ := hf
    have hs : [step].filterMap Step.specifier? = [] := by
      rw [← List.mem_singleton.1 hm]
      rfl
    rw [List.filterMap_append, hs] at hn
    exact ⟨[], List.nil_prefix, by simp [Fails], by simp [Except.isOk, Except.toBool], by simpa using hn⟩
  case neg => exact ⟨[step], by simp, hf, by simp [Except.isOk, Except.toBool], hn⟩

theorem Ended.cons {result : Except Error Progress} (h : Ended (done ++ [step]) steps result record)
    (hf : ¬Fails [step]) : Ended done (step :: steps) result record := by
  obtain ⟨⟨ran, hp, hr, hall, hn⟩, ha⟩ := h
  refine ⟨⟨step :: ran, List.cons_prefix_cons.2 ⟨rfl, hp⟩, ?_, fun hok => by rw [hall hok], by simpa using hn⟩, ha⟩
  rw [← List.singleton_append, fails_append, not_or]
  exact ⟨hf, hr⟩

-- One step: it makes one inquiry or none.
inductive Taken (file : String) (rename : String → Except Error String)
    (resolve : String → ExceptT Error (StateM σ) Tokens) (p : Progress) (step : Step) (s : σ)
    (record : List Inquiry) : Except Error Progress × σ × List Inquiry → Prop
  | known (ha : step.asks p = none) : Taken file rename resolve p step s record (runKnown file rename p step, s, record)
  | answered (specifier : String) (tokens : Tokens) (t : σ) (ha : step.asks p = some specifier)
      (hr : (resolve specifier).run.run s = (.ok tokens, t)) :
      Taken file rename resolve p step s record
        (runKnown file rename (p.know specifier tokens) step, t, record ++ [⟨specifier, .ok tokens⟩])
  | failed (specifier : String) (e : Error) (t : σ) (ha : step.asks p = some specifier)
      (hr : (resolve specifier).run.run s = (.error e, t)) :
      Taken file rename resolve p step s record (.error e, t, record ++ [⟨specifier, .error e⟩])

theorem taken_runStep :
    Taken file rename resolve p step s record
      ((runStep file rename (recording resolve) p step).run.run (s, record)) := by
  cases ha : step.asks p
  case none =>
    rw [runStep_known ha]
    exact .known ha
  case some specifier =>
    rw [runStep_asks ha, Stateful.run_bind]
    rcases hr : (resolve specifier).run.run s with ⟨e | tokens, t⟩
    case error =>
      rw [run_recording hr]
      exact .failed specifier e t ha hr
    case ok =>
      rw [run_recording hr]
      dsimp only
      rw [runStep_known (Step.asks_know ha)]
      exact .answered specifier tokens t ha hr

-- Noting the inquiries changes nothing else.
theorem runStep_unrecorded (record : List Inquiry) :
    (runStep file rename resolve p step).run.run s =
      ((runStep file rename (recording resolve) p step).run.run (s, record)).map id Prod.fst := by
  generalize hx : (runStep file rename (recording resolve) p step).run.run (s, record) = x
  cases (hx ▸ taken_runStep : Taken file rename resolve p step s record x)
  case known ha =>
    rw [runStep_known ha]
    rfl
  case answered specifier tokens t ha hr =>
    rw [runStep_asks ha, Stateful.run_bind_ok hr, runStep_known (Step.asks_know ha)]
    rfl
  case failed specifier e t ha hr =>
    rw [runStep_asks ha, Stateful.run_bind, hr]
    rfl

theorem runSteps_unrecorded (resolve : String → ExceptT Error (StateM σ) Tokens) (record : List Inquiry) :
    (runSteps file rename resolve steps p).run.run s =
      ((runSteps file rename (recording resolve) steps p).run.run (s, record)).map id Prod.fst := by
  induction steps generalizing p s record
  case nil => rfl
  case cons step steps ih =>
    simp only [runSteps]
    rw [Stateful.run_bind, Stateful.run_bind, runStep_unrecorded record]
    rcases (runStep file rename (recording resolve) p step).run.run (s, record) with ⟨_ | p, t, record⟩
    case error => rfl
    case ok => exact ih record

theorem Taken.not_fails {x : Except Error Progress × σ × List Inquiry}
    (ht : Taken file rename resolve p step s record x) (hx : x.1 = .ok p') : ¬Fails [step] := by
  rintro ⟨fault, pos, hm⟩
  obtain rfl := List.mem_singleton.1 hm
  cases ht
  case known                  => cases hx
  case answered specifier _ _ ha _ => cases (Step.asks_eq_some.1 ha).1
  case failed                 => cases hx

-- What a step adds to the inquiries, if it succeeds, ...
theorem Recorded.go_on {x : Except Error Progress × σ × List Inquiry} (h : Recorded done p record)
    (ht : Taken file rename resolve p step s record x) (hx : x.1 = .ok p') :
    Recorded (done ++ [step]) p' x.2.2 := by
  cases ht
  case known ha => exact ⟨(runKnown_imported ha hx).symm ▸ h.known, h.known_step ha, h.answered⟩
  case answered specifier tokens t ha hr =>
    have hn : specifier ∉ p.imported.keys := by
      rw [← Dict.contains_iff_mem_keys, (Step.asks_eq_some.1 ha).2]
      exact Bool.false_ne_true
    refine ⟨?_, by simpa using h.new_step ha, ?_⟩
    · rw [runKnown_imported (Step.asks_know ha) hx, Progress.know, Dict.keys_insert, if_neg hn, h.known]
      simp
    · simpa [or_imp, forall_and] using ⟨h.answered, rfl⟩
  case failed => cases hx

-- ... and if it fails.
theorem Recorded.stop {x : Except Error Progress × σ × List Inquiry} {e : Error} (h : Recorded done p record)
    (ht : Taken file rename resolve p step s record x) (hx : x.1 = .error e) :
    Ended done (step :: steps) (.error e) x.2.2 := by
  cases ht
  case known ha => exact .of_error (h.known_step ha) (.all h.answered)
  case answered specifier tokens t ha hr =>
    refine .of_error (by simpa using h.new_step ha) (.all ?_)
    simpa [or_imp, forall_and] using ⟨h.answered, rfl⟩
  case failed specifier e' t ha hr =>
    cases hx
    exact .of_error (by simpa using h.new_step ha) (.failed record specifier e rfl h.answered rfl)

theorem Recorded.ended (h : Recorded done p record) :
    Ended done steps ((runSteps file rename (recording resolve) steps p).run.run (s, record)).1
      ((runSteps file rename (recording resolve) steps p).run.run (s, record)).2.2 := by
  induction steps generalizing p done s record
  case nil =>
    refine ⟨⟨[], List.nil_prefix, by simp [Fails], fun _ => rfl, ?_⟩, .all h.answered⟩
    rw [List.append_nil]
    exact h.named
  case cons step steps ih =>
    simp only [runSteps]
    rw [Stateful.run_bind]
    have ht : Taken file rename resolve p step s record _ := taken_runStep
    rcases hx : (runStep file rename (recording resolve) p step).run.run (s, record) with ⟨_ | p, t, record⟩
    all_goals rw [hx] at ht
    case error => exact h.stop ht rfl
    case ok =>
      exact (ih (h.go_on ht rfl)).cons (ht.not_fails rfl)

end

theorem Answered.last {α : Type} {result : Except Error α} {record before after : List Inquiry} {inquiry : Inquiry}
    {e : Error} (h : Answered result record) (hr : record = before ++ inquiry :: after)
    (he : inquiry.answer = .error e) : after = [] ∧ result = .error e := by
  have hfails : inquiry.answer.isOk = false := by
    rw [he]
    rfl
  cases h
  case all h =>
    have := h inquiry (by simp [hr])
    simp [hfails] at this
  case failed oks specifier e' hlast hoks hresult =>
    rw [hr] at hlast
    rcases after.eq_nil_or_concat with rfl | ⟨after, final, rfl⟩
    · obtain ⟨_, hl⟩ := List.append_inj' hlast rfl
      cases List.singleton_inj.1 hl
      cases he
      exact ⟨rfl, hresult⟩
    · rw [List.concat_eq_append, ← List.cons_append, ← List.append_assoc] at hlast
      obtain ⟨hbefore, _⟩ := List.append_inj' hlast rfl
      have := hoks inquiry (by simp [← hbefore])
      simp [hfails] at this

theorem recorded_start : Recorded [] .start [] :=
  ⟨rfl, rfl, by simp⟩

-- Every file that a style sheet takes classes from is asked for once, in the order in which the declarations name
-- the files, and nothing is asked for after a failure.
theorem scope_asks_once (css file : String) (rename : String → Except Error String)
    (resolve : String → ExceptT Error (StateM σ) Tokens) (s : σ) :
    let (result, t, record) := (scope css file rename (recording resolve)).run.run (s, [])
    (scope css file rename resolve).run.run s = (result, t) ∧
      (record.map Inquiry.specifier).Nodup ∧
      record.map Inquiry.specifier <+: filesOf css ∧
      (result.isOk = true → record.map Inquiry.specifier = filesOf css) ∧
      ∀ before inquiry after e, record = before ++ inquiry :: after → inquiry.answer = .error e →
        after = [] ∧ result = .error e := by
  have hended : Ended [] (plan css) ((runSteps file rename (recording resolve) (plan css) .start).run.run (s, [])).1 _ :=
    recorded_start.ended
  rw [scope, scope, Stateful.run_bind, Stateful.run_bind, runSteps_unrecorded resolve []]
  generalize (runSteps file rename (recording resolve) (plan css) .start).run.run (s, []) = x at hended ⊢
  obtain ⟨result, t, record⟩ := x
  obtain ⟨⟨ran, hp, hf, hall, hn⟩, ha⟩ := hended
  rw [List.nil_append, ← filterMap_declarationsOf] at hn
  have hnodup : (record.map Inquiry.specifier).Nodup := by
    rw [hn]
    exact nodup_eraseDups _
  have hprefix : record.map Inquiry.specifier <+: filesOf css := by
    rw [hn]
    exact eraseDups_mono ((declarationsOf_beginning hp hf).filterMap _)
  cases result
  case error e =>
    refine ⟨rfl, hnodup, hprefix, fun h => (by cases h), ?_⟩
    intro before inquiry after e' hr he
    obtain ⟨hafter, hresult⟩ := ha.last hr he
    cases hresult
    exact ⟨hafter, rfl⟩
  case ok p =>
    refine ⟨rfl, hnodup, hprefix, fun _ => ?_, ?_⟩
    · obtain rfl := hall rfl
      rw [filesOf, ← declarationsOf_plan hf]
      exact hn
    · intro before inquiry after e hr he
      cases (ha.last hr he).2

example : filesOf ".a \x7b composes: x from \"./b.css\"; composes: y from ./b.css; composes: z from global \x7d" =
    ["./b.css"] := by
  decide +kernel

end ScopedCss.Scoping
