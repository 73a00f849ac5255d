import Mathlib.Data.List.TakeWhile
import ScopedCss.Proofs.Scoping.Lossless
import ScopedCss.Proofs.Scoping.Places
import ScopedCss.Proofs.Scoping.Substitution

namespace ScopedCss

namespace Text

theorem trim_cons {c : Char} (h : isBlank c = false) (s : List Char) :
    ∃ rest, trim (c :: s) = c :: rest ∧ rest <+: s := by
  have hs : trimStart (c :: s) = c :: s := by simp [trimStart, h]
  rw [trim, hs]
  have hp := prefix_trimEnd (c :: s)
  cases he : trimEnd (c :: s)
  case nil =>
    have hdrop := congrArg List.reverse he
    rw [trimEnd, dropWhileEnd, List.reverse_reverse] at hdrop
    have hc := List.dropWhile_eq_nil_iff.1 hdrop c (by simp)
    rw [h] at hc
    cases hc
  case cons d rest =>
    rw [he] at hp
    obtain ⟨hd, hrest⟩ := List.cons_prefix_cons.1 hp
    exact ⟨rest, by rw [hd], hrest⟩

-- What can stand in a comment: nothing that ends it.
def IsBody (body : List Char) : Prop :=
  ¬['*', '/'] <:+: body

instance (body : List Char) : Decidable (IsBody body) :=
  inferInstanceAs (Decidable (¬_))

section

variable {body : List Char} {c : Char}

theorem IsBody.tail (h : IsBody (c :: body)) : IsBody body :=
  fun hi => h (hi.trans (List.suffix_cons _ _).isInfix)

-- A comment is not closed before its end.
theorem IsBody.open (h : IsBody (c :: body)) (s rest : List Char) :
    c :: (body ++ '*' :: '/' :: s) ≠ '*' :: '/' :: rest := by
  intro he
  have ⟨hc, he⟩ := List.cons.inj he
  cases body
  case nil => cases he
  case cons d body _ =>
    have ⟨hd, _⟩ := List.cons.inj he
    exact h ⟨[], body, by simp [hc, hd]⟩

theorem IsBody.splitOnce? (h : IsBody body) (s : List Char) :
    splitOnce? ['*', '/'] (body ++ '*' :: '/' :: s) = some (body, s) := by
  induction body
  case nil => rfl
  case cons c body ih =>
    have hc : dropPrefix? ['*', '/'] (c :: (body ++ '*' :: '/' :: s)) = none := by
      rw [Option.eq_none_iff_forall_ne_some]
      intro rest hr
      exact h.open s rest (dropPrefix?_eq_some_iff.1 hr)
    rw [List.cons_append, Text.splitOnce?, hc, ih h.tail]
    rfl

theorem IsBody.closeComment? (h : IsBody body) (s : List Char) :
    closeComment? (body ++ '*' :: '/' :: s) = some (body ++ ['*', '/'], s) := by
  induction body
  case nil => rfl
  case cons c body ih =>
    have hopen (t) (hc : c = '*') (he : body ++ '*' :: '/' :: s = '/' :: t) : False := h.open s t (by rw [hc, he])
    rw [List.cons_append, closeComment?.eq_2 _ _ hopen, ih h.tail]
    rfl

end

end Text

namespace Scoping

open Text

def comment (body : List Char) : List Char :=
  '/' :: '*' :: (body ++ ['*', '/'])

section

variable {body : List Char}

theorem comment_append (body s : List Char) : comment body ++ s = '/' :: '*' :: (body ++ '*' :: '/' :: s) := by
  simp [comment]

theorem takeComment_comment (h : IsBody body) (s : List Char) :
    takeComment (body ++ '*' :: '/' :: s) = (body ++ ['*', '/'], s) := by
  induction body
  case nil => rfl
  case cons c body ih =>
    have hopen (t) (hc : c = '*') (he : body ++ '*' :: '/' :: s = '/' :: t) : False := h.open s t (by rw [hc, he])
    rw [List.cons_append, takeComment.eq_2 _ _ hopen, ih h.tail]
    rfl

theorem scan_comment_append (h : IsBody body) (s : List Char) :
    Token.scan (comment body ++ s) = .atom (comment body) :: Token.scan s := by
  rw [comment_append, Token.scan_comment (h.closeComment? s)]
  rfl

theorem atRuleName?_comment (body s : List Char) : atRuleName? (comment body ++ s) = none := by
  have ⟨rest, hr, _⟩ := Text.trim_cons (c := '/') (by decide) ('*' :: (body ++ '*' :: '/' :: s))
  rw [comment_append, atRuleName?, hr]
  rfl

-- What begins otherwise than a class is no list of classes.
theorem isClassList_cons {c : Char} (hb : isBlank c = false) (hc : c ≠ ',') (hd : c ≠ '.') (s : List Char) :
    isClassList (c :: s) = false := by
  obtain ⟨first, parts, hparts⟩ := List.exists_cons_of_ne_nil (splitWhere_ne_nil (· == ',') s)
  have hsplit : splitWhere (· == ',') (c :: s) = (c :: first) :: parts := by
    rw [splitWhere, if_neg (by simpa using hc), hparts]
  obtain ⟨rest, hr, _⟩ := Text.trim_cons hb first
  rw [isClassList, hsplit, List.all_cons, hr]
  split
  case h_1 he => exact absurd (List.cons.inj he).1 hd
  case h_2    => rfl

-- A comment is no class.
theorem isClassList_comment (body s : List Char) : isClassList (comment body ++ s) = false := by
  rw [comment_append]
  exact isClassList_cons (by decide) (by decide) (by decide) _

-- A comment that begins with a slash is misread: it is taken to end at once.
theorem dropComment?_comment (h : IsBody body) (hs : body.head? ≠ some '/') (s : List Char) :
    dropComment? (comment body ++ s) = some s := by
  have hsplit : splitOnce? ['*', '/'] ('/' :: '*' :: (body ++ '*' :: '/' :: s)) = some ('/' :: '*' :: body, s) := by
    have hstar : dropPrefix? ['*', '/'] ('*' :: (body ++ '*' :: '/' :: s)) = none := by
      cases body
      case nil => rfl
      case cons c body =>
        have hc : '/' ≠ c := fun he => hs (by rw [he]; rfl)
        simp [dropPrefix?, hc]
    rw [splitOnce?, splitOnce?, hstar, h.splitOnce? s]
    rfl
  rw [comment_append, dropComment?, hsplit]
  rfl

theorem splitComments_comment (h : IsBody body) (hs : body.head? ≠ some '/') (s : List Char) :
    splitComments (comment body ++ s) = (comment body ++ (splitComments s).1, (splitComments s).2) := by
  have htrim : trimStart (comment body ++ s) = comment body ++ s := by
    rw [comment_append]
    rfl
  have hdrop : dropComments (comment body ++ s) = dropComments s := by
    rw [dropComments]
    split
    case h_1 rest hr =>
      rw [htrim, dropComment?_comment h hs] at hr
      cases hr
      rfl
    case h_2 hr =>
      rw [htrim, dropComment?_comment h hs] at hr
      cases hr
  have hle := (dropComments_suffix s).length_le
  unfold splitComments
  rw [hdrop]
  dsimp only
  rw [List.length_append, Nat.add_sub_assoc hle, List.take_length_add_append]

-- Selectors in front of which it does not matter what is written.
structure Unled (s : List Char) : Prop where
  global : ¬":global".toList <+: s
  local' : ¬":local".toList <+: s

theorem Unled.dropPrefix?_global {s : List Char} (h : Unled s) (more rest : List Char) :
    Text.dropPrefix? (":global".toList ++ more) s ≠ some rest := by
  intro hr
  refine h.global ⟨more ++ rest, ?_⟩
  rw [Text.dropPrefix?_eq_some_iff.1 hr, List.append_assoc]

theorem Unled.dropPrefix?_local {s : List Char} (h : Unled s) (more rest : List Char) :
    Text.dropPrefix? (":local".toList ++ more) s ≠ some rest := by
  intro hr
  refine h.local' ⟨more ++ rest, ?_⟩
  rw [Text.dropPrefix?_eq_some_iff.1 hr, List.append_assoc]

theorem Trail.ofText_cons_eq (trail trail' : Trail) (c : Char) (s : List Char) :
    trail.ofText (c :: s) = trail'.ofText (c :: s) := by
  have ⟨d, hd⟩ : ∃ d, (c :: s).getLast? = some d := ⟨_, List.getLast?_eq_some_getLast (List.cons_ne_nil _ _)⟩
  simp only [ofText, hd]

theorem Unled.selectorSteps {s : List Char} (h : Unled s) (pos : Position) (outer free : Bool)
    (trail trail' : Trail) :
    Scoping.selectorSteps pos outer free trail s = Scoping.selectorSteps pos outer free trail' s := by
  fun_cases Scoping.selectorSteps pos outer free trail s
  case case1 => rw [Scoping.selectorSteps]
  case case2 => rw [Scoping.selectorSteps, Trail.ofText_cons_eq]
  case case6 | case7 => exact absurd ‹_› (h.dropPrefix?_global ['('] _)
  case case8 | case9 => exact absurd ‹_› (h.dropPrefix?_local ['('] _)
  case case10 hp _ _ _ _ =>
    obtain ⟨_, hg⟩ := dropPrefix?_of_dropPseudo? hp
    exact absurd hg (h.dropPrefix?_global [] _)
  case case11 hp _ _ _ _ =>
    obtain ⟨_, hl⟩ := dropPrefix?_of_dropPseudo? hp
    exact absurd hl (h.dropPrefix?_local [] _)
  all_goals
    rw [Scoping.selectorSteps.eq_3 _ _ _ _ _ _ (by assumption)]
    repeat' split
    all_goals grind [Trail.ofText_cons_eq]

theorem selectorSteps_comment (h : IsBody body) {s : List Char} (hs : Unled s) (pos : Position) :
    selectorSteps pos false false .blank (comment body ++ s) =
      .text (comment body) :: selectorSteps pos false false .blank s := by
  rw [comment_append, selectorSteps, takeComment_comment h]
  exact congrArg _ (hs.selectorSteps ..)

end

def composes (text : List Char) : Bool :=
  (composesValue? (splitComments text).2).isSome

def animates (text : List Char) : Bool :=
  (animationSteps? (splitComments text).2).isSome

-- Whether there is such a declaration right inside the block that is `depth` blocks further out.
def declaresWithin (is : List Char → Bool) (depth : Nat) : List Segment → Bool
  | [] => false
  | .opening .. :: rest => declaresWithin is (depth + 1) rest
  | .declaration text _ closes :: rest =>
    (depth == 0 && is text) ||
      if closes then
        match depth with
        | 0         => false
        | depth + 1 => declaresWithin is depth rest
      else
        declaresWithin is depth rest
  | _ :: rest => declaresWithin is depth rest

-- What a block is only matters to the declarations right inside.
theorem planSegments_congr {is : List Char → Bool} {pos : Position} {targets targets' : Option (List String)}
    (hsame : ∀ stack text at_ closes, is text = false →
      declarationSteps (⟨pos, targets⟩ :: stack) text at_ closes =
        declarationSteps (⟨pos, targets'⟩ :: stack) text at_ closes)
    (inner : List Block) {stack : List Block} {segments : List Segment}
    (h : declaresWithin is inner.length segments = false) :
    planSegments (inner ++ ⟨pos, targets⟩ :: stack) segments =
      planSegments (inner ++ ⟨pos, targets'⟩ :: stack) segments := by
  induction segments generalizing inner
  case nil => rfl
  case cons segment rest ih =>
    cases segment
    case blank s => exact congrArg _ (ih inner h)
    case opening prelude at_ =>
      have hrest (block : Block) := ih (block :: inner) h
      simp only [planSegments]
      cases atRuleName? prelude
      case some name => exact congrArg _ (congrArg _ (hrest _))
      case none      => exact congrArg _ (congrArg _ (hrest _))
    case verbatim prelude body =>
      simp only [planSegments]
      rw [ih inner h]
    case declaration text at_ closes =>
      simp only [planSegments]
      simp only [declaresWithin, Bool.or_eq_false_iff] at h
      cases inner
      case nil =>
        have hd := hsame stack text at_ closes (by simpa using h.1)
        cases closes
        case false => exact congrArg₂ _ hd (ih [] h.2)
        case true  => exact congrArg₂ _ hd rfl
      case cons block inner =>
        have hd (targets targets' : Option (List String)) :
            declarationSteps (block :: inner ++ ⟨pos, targets⟩ :: stack) text at_ closes =
              declarationSteps (block :: inner ++ ⟨pos, targets'⟩ :: stack) text at_ closes := by
          rcases block with ⟨_, _ | _⟩ <;> rfl
        cases closes
        case false => exact congrArg₂ _ (hd _ _) (ih (block :: inner) h.2)
        case true  => exact congrArg₂ _ (hd _ _) (congrArg _ (ih inner h.2))
    case tail text =>
      simp only [planSegments]
      cases inner
      case nil  => rfl
      case cons => rfl
    case broken => rfl

theorem declarationSteps_classes {pos : Position} (targets targets' : List String) (stack : List Block)
    (text : List Char) (at_ : Position) (closes : Bool) (h : composes text = false) :
    declarationSteps (⟨pos, some targets⟩ :: stack) text at_ closes =
      declarationSteps (⟨pos, some targets'⟩ :: stack) text at_ closes := by
  have hc : composesValue? (splitComments text).2 = none := by simpa [composes] using h
  unfold declarationSteps
  simp only [hc]

theorem declarationSteps_inert {pos : Position} (targets : List String) (stack : List Block)
    (text : List Char) (at_ : Position) (closes : Bool) (h : (composes text || animates text) = false) :
    declarationSteps (⟨pos, none⟩ :: stack) text at_ closes =
      declarationSteps (⟨pos, some targets⟩ :: stack) text at_ closes := by
  have ⟨hc, ha⟩ := Bool.or_eq_false_iff.1 h
  have hc : composesValue? (splitComments text).2 = none := by simpa [composes] using hc
  have ha : animationSteps? (splitComments text).2 = none := by simpa [animates] using ha
  unfold declarationSteps
  simp only [hc, ha]

def Segment.behind (s : List Char) : Segment → Segment
  | .blank blanks                 => .blank (s ++ blanks)
  | .opening prelude pos          => .opening (s ++ prelude) pos
  | .verbatim prelude body        => .verbatim (s ++ prelude) body
  | .declaration text pos closes  => .declaration (s ++ text) pos closes
  | .tail text                    => .tail (s ++ text)
  | .broken fault pos             => .broken fault pos

-- Text in which nothing is renamed where it is read as a selector.
structure Nameless (pos : Position) (s : List Char) : Prop where
  unmarked : Unmarked s
  texts    : ∀ step ∈ selectorSteps pos false false .blank s, ∃ t, step = .text t

-- Statements that are read in the same way behind a comment.
inductive Tolerant (body : List Char) : List Segment → Prop
  | declaration {text : List Char} {pos : Position} {closes : Bool} {rest : List Segment} :
    body.head? ≠ some '/' → Tolerant body (.declaration text pos closes :: rest)
  | rule {prelude : List Char} {pos : Position} {rest : List Segment} :
    atRuleName? prelude = none → Unled prelude →
    (isClassList prelude = true → declaresWithin composes 0 rest = false) → Tolerant body (.opening prelude pos :: rest)
  | group {name prelude : List Char} {pos : Position} {rest : List Segment} :
    atRuleName? prelude = some name → isKeyframesName name = false → Nameless pos prelude →
    declaresWithin (fun text => composes text || animates text) 0 rest = false →
    Tolerant body (.opening prelude pos :: rest)
  | tail {text : List Char} {rest : List Segment} : Tolerant body (.tail text :: rest)
  | broken {fault : Fault} {pos : Position} {rest : List Segment} : Tolerant body (.broken fault pos :: rest)

-- Steps that write a text more, and nothing else before it.
inductive Inserted (s : List Char) : List Step → List Step → Prop
  | here (steps : List Step) : Inserted s steps (.text s :: steps)
  | within (t : List Char) (steps : List Step) : Inserted s (.text t :: steps) (.text (s ++ t) :: steps)
  | spelled {t : List Char} {steps : List Step} (rest : List Step) :
    Spells t steps → (∀ step ∈ steps, ∃ t, step = .text t) →
    Inserted s (.text t :: rest) (.text s :: (steps ++ rest))
  | behind {step : Step} {steps steps' : List Step} :
    step.piece? = none → Inserted s steps steps' → Inserted s (step :: steps) (step :: steps')
  | failed (fault : Fault) (pos : Position) (steps steps' : List Step) :
    Inserted s (.fail fault pos :: steps) (.fail fault pos :: steps')

theorem inserted_planSegments {body : List Char} (hb : IsBody body) (stack : List Block) {segment : Segment}
    {rest : List Segment} (h : Tolerant body (segment :: rest)) :
    Inserted (comment body) (planSegments stack (segment :: rest))
      (planSegments stack (segment.behind (comment body) :: rest)) := by
  cases h
  case tail   => exact .within _ _
  case broken => exact .failed _ _ _ _
  case rule prelude pos hname hunled hclasses =>
    have hcomposable : composableClasses (comment body ++ prelude)
        (.text (comment body) :: selectorSteps pos false false .blank prelude) = [] := by
      rw [composableClasses, isClassList_comment]
      rfl
    have hrest (targets : List String) (ht : declaresWithin composes 0 rest = false) :
        planSegments (⟨pos, some targets⟩ :: stack) rest = planSegments (⟨pos, some []⟩ :: stack) rest :=
      planSegments_congr (declarationSteps_classes targets []) [] ht
    have hsame : planSegments
        (⟨pos, some (composableClasses prelude (selectorSteps pos false false .blank prelude))⟩ :: stack) rest =
          planSegments (⟨pos, some []⟩ :: stack) rest := by
      unfold composableClasses
      split
      case isFalse   => rfl
      case isTrue hc => exact hrest _ (hclasses hc)
    simp only [planSegments, Segment.behind, hname, atRuleName?_comment, selectorSteps_comment hb hunled, hcomposable,
      hsame]
    exact .here _
  case group name prelude pos hname hk hnameless hinert =>
    have hrest (targets : List String) :
        planSegments (⟨pos, none⟩ :: stack) rest = planSegments (⟨pos, some targets⟩ :: stack) rest :=
      planSegments_congr (declarationSteps_inert targets) [] hinert
    have hunled : Unled prelude :=
      ⟨fun h => hnameless.unmarked.1 h.isInfix, fun h => hnameless.unmarked.2 h.isInfix⟩
    have htexts : atRuleSteps name prelude = [.text prelude] := if_neg (Bool.eq_false_iff.1 hk)
    simp only [planSegments, Segment.behind, hname, atRuleName?_comment, selectorSteps_comment hb hunled, htexts]
    rw [hrest]
    exact .spelled _ (spells_selectorSteps hnameless.unmarked ..) hnameless.texts
  case declaration text pos closes hs =>
    have hsplit := splitComments_comment hb hs text
    have hwithin (steps : List Step) (more : List Step) (t : List Char) :
        Inserted (comment body) (.text t :: steps ++ more) (.text (comment body ++ t) :: steps ++ more) :=
      .within _ _
    simp only [planSegments, Segment.behind]
    unfold declarationSteps
    rw [hsplit]
    rcases stack with _ | ⟨⟨_, _ | targets⟩, stack⟩
    · exact hwithin ..
    · exact hwithin ..
    · dsimp only
      cases composesValue? (splitComments text).2
      case some value =>
        refine .behind ?_ (hwithin ..)
        unfold composeStep
        dsimp only
        repeat' split
        all_goals rfl
      case none =>
        cases animationSteps? (splitComments text).2
        case none => exact hwithin ..
        case some => exact hwithin ..

-- Steps of which none that comes late is taken before something has been written.
def Led (late : Step → Bool) : List Step → Prop
  | []           => True
  | step :: rest => late step = false ∧ ((∃ c s, step = .text (c :: s)) ∨ Led late rest)

def Step.isGap : Step → Bool
  | .gap _ => true
  | _      => false

def Step.isGapOrName : Step → Bool
  | .gap _ | .name .. => true
  | _                 => false

section

variable {late : Step → Bool} {steps steps' : List Step} {trail : Trail}

theorem Led.mono {late' : Step → Bool} (h : Led late steps) (hl : ∀ step, late step = false → late' step = false) :
    Led late' steps := by
  induction steps
  case nil             => trivial
  case cons step steps ih => exact ⟨hl step h.1, h.2.imp id ih⟩

theorem Led.append (h : Led late steps) (h' : Led late steps') : Led late (steps ++ steps') := by
  induction steps
  case nil             => exact h'
  case cons step steps ih => exact ⟨h.1, h.2.imp id ih⟩

theorem Simple.led (h : Simple steps) : Led Step.isGap steps := by
  induction steps
  case nil => trivial
  case cons step steps ih =>
    refine ⟨?_, .inr (ih fun step hm => h step (.tail _ hm))⟩
    rcases h step (.head _) with ⟨_, he⟩ | ⟨_, _, he⟩
    all_goals
      subst he
      rfl

-- Without names, the output ends in one only if it did before or if something has been written.
theorem Led.append_trail (h : Led Step.isGapOrName steps) (ht : trail ≠ .named)
    (h' : steps.foldl Trail.after trail ≠ .named → Led Step.isGapOrName steps') :
    Led Step.isGapOrName (steps ++ steps') := by
  induction steps
  case nil => exact h' ht
  case cons step steps ih =>
    rcases h.2 with hwritten | hsteps
    case inl => exact ⟨h.1, .inl hwritten⟩
    case inr =>
      rcases step with (_ | ⟨c, s⟩) | _ | _ | _ | _
      case text.cons => exact ⟨rfl, .inl ⟨c, s, rfl⟩⟩
      case name      => cases h.1
      case gap       => cases h.1
      all_goals exact ⟨h.1, .inr (ih hsteps h')⟩

theorem led_selectorSteps (pos : Position) (outer free : Bool) (h : trail ≠ .named) (s : List Char) :
    Led Step.isGapOrName (selectorSteps pos outer free trail s) := by
  have hgap {trail : Trail} (h : trail ≠ .named) (blanks : List Char) :
      Led Step.isGapOrName (gapSteps trail blanks) := by
    cases trail
    case blank => trivial
    case solid => exact ⟨rfl, .inr trivial⟩
    case named => exact absurd rfl h
  fun_induction selectorSteps pos outer free trail s
  case case1         => trivial
  case case6 | case8 => exact ⟨rfl, .inr trivial⟩
  case case7 inner outside | case9 inner outside => exact (inner (by simp)).append_trail h outside
  case case10 ih | case11 ih => exact (hgap h _).append_trail h ih
  all_goals exact ⟨rfl, .inl ⟨_, _, rfl⟩⟩

theorem led_declarationSteps (stack : List Block) (text : List Char) (pos : Position) (closes : Bool) :
    Led Step.isGap (declarationSteps stack text pos closes) := by
  have hstop : Simple (if closes then [] else [.text [';']]) := by
    cases closes <;> simp
  have htext : Led Step.isGap (.text text :: if closes then [] else [.text [';']]) := Simple.led (by simp [hstop])
  unfold declarationSteps
  rcases stack with _ | ⟨⟨_, _ | targets⟩, stack⟩
  · exact htext
  · exact htext
  · dsimp only
    cases composesValue? (splitComments text).2
    case some value =>
      refine ⟨?_, .inr (Simple.led (by simp))⟩
      unfold composeStep
      dsimp only
      repeat' split
      all_goals rfl
    case none =>
      cases hs : animationSteps? (splitComments text).2
      case none => exact htext
      case some => exact Simple.led (by simp [hstop, simple_animationSteps? hs])

theorem led_planSegments (stack : List Block) (segments : List Segment) :
    Led Step.isGap (planSegments stack segments) := by
  induction segments generalizing stack
  case nil => trivial
  case cons segment rest ih =>
    have htext (s : List Char) {steps : List Step} (h : Led Step.isGap steps) : Led Step.isGap (.text s :: steps) :=
      ⟨rfl, .inr h⟩
    cases segment
    case blank s => exact htext s (ih stack)
    case opening prelude pos =>
      simp only [planSegments]
      cases atRuleName? prelude
      case some name => exact (simple_atRuleSteps name prelude).led.append (htext _ (ih _))
      case none =>
        have hselector : Led Step.isGap (selectorSteps pos false false .blank prelude) :=
          (led_selectorSteps pos false false (by simp) prelude).mono fun step h => by
            cases step <;> simp_all [Step.isGap, Step.isGapOrName]
        exact hselector.append (htext _ (ih _))
    case verbatim prelude body => exact (simple_atRuleSteps _ prelude).led.append (htext _ (htext _ (ih stack)))
    case declaration text pos closes =>
      refine (led_declarationSteps stack text pos closes).append ?_
      cases closes
      case false => exact ih stack
      case true =>
        cases stack
        case nil             => exact ⟨rfl, .inr trivial⟩
        case cons block rest => exact htext _ (ih rest)
    case tail text =>
      refine htext text ?_
      cases stack
      case nil  => exact ih []
      case cons => exact ⟨rfl, .inr trivial⟩
    case broken => exact ⟨rfl, .inr trivial⟩

end

-- A progress with a text more in its output.
def Progress.insertAt (n : Nat) (s : List Char) (p : Progress) : Progress :=
  { p with css := .ofList (p.css.toList.take n ++ s ++ p.css.toList.drop n) }

namespace Progress

variable {n : Nat} {s t : List Char} {p p' : Progress}

theorem insertAt_length : p.insertAt p.css.toList.length s = p.write s := by
  simp [insertAt, write]

theorem write_insertAt (h : n ≤ p.css.toList.length) : (p.insertAt n s).write t = (p.write t).insertAt n s := by
  simp [insertAt, write, List.take_append_of_le_length h, List.drop_append_of_le_length h, String.append_assoc]

theorem writeName_insertAt (h : n ≤ p.css.toList.length) (own full : String) :
    (p.insertAt n s).writeName own full = (p.writeName own full).insertAt n s := by
  simp [insertAt, writeName, List.take_append_of_le_length h, List.drop_append_of_le_length h, String.append_assoc]

theorem endsInBlank_insertAt (h : n < p.css.toList.length) : (p.insertAt n s).endsInBlank = p.endsInBlank := by
  have hne : p.css.toList.drop n ≠ [] := by simpa using h
  have hl : (p.css.toList.take n ++ s ++ p.css.toList.drop n).getLast? = p.css.toList.getLast? := by
    rw [List.getLast?_append_of_ne_nil _ hne, List.getLast?_drop, if_neg (Nat.not_le.2 h)]
  simp only [endsInBlank, insertAt, String.toList_ofList, hl]

end Progress

section

variable {file : String} {rename : String → Except Error String} {p p' : Progress} {step : Step} {n : Nat}
  {s : List Char}

theorem runKnown_insertAt (ha : step.asks p = none) (hn : n ≤ p.css.toList.length)
    (hg : step.isGap = true → n < p.css.toList.length) :
    runKnown file rename (p.insertAt n s) step = (runKnown file rename p step).map (Progress.insertAt n s) := by
  cases step
  case text t => exact congrArg Except.ok (Progress.write_insertAt hn)
  case name kind own =>
    rw [runKnown_name, runKnown_name]
    cases rename own
    case error => rfl
    case ok    => exact congrArg Except.ok (Progress.writeName_insertAt hn ..)
  case gap t =>
    have hblank := Progress.endsInBlank_insertAt (s := s) (hg rfl)
    have hrun (p : Progress) : runKnown file rename p (.gap t) = .ok (if p.endsInBlank then p else p.write t) := rfl
    rw [hrun, hrun, hblank]
    split
    case isTrue  => rfl
    case isFalse => exact congrArg Except.ok (Progress.write_insertAt hn)
  case fail => rfl
  case compose targets names source pos =>
    cases source
    case everywhere => rfl
    case sameFile =>
      have hexports : (p.insertAt n s).exports = p.exports := rfl
      rw [runKnown_sameFile, runKnown_sameFile, hexports]
      cases expandNames p.exports.get? names <;> rfl
    case file specifier =>
      have ⟨tokens, ht⟩ := Option.isSome_iff_exists.1 (Step.asks_eq_none.1 ha specifier rfl)
      have ht' : (p.insertAt n s).imported.get? specifier = some tokens := ht
      rw [runKnown_file ht, runKnown_file ht']
      cases expandNames (wordsOf tokens) names <;> rfl

-- A step writes something behind the output, or nothing.
theorem runKnown_css (ha : step.asks p = none) (hr : runKnown file rename p step = .ok p') :
    ∃ t, p'.css.toList = p.css.toList ++ t ∧ (step.piece? = none → t = []) ∧ ∀ s, step = .text s → t = s := by
  have hnames (names : List String) (targets : List String) :
      (p.addNames targets names).css.toList = p.css.toList ++ [] := (List.append_nil _).symm
  cases step
  case text t =>
    cases hr
    exact ⟨t, by simp [Progress.write], by simp [Step.piece?], fun _ h => Step.text.inj h⟩
  case name kind own =>
    rw [runKnown_name] at hr
    cases hn : rename own
    all_goals
      rw [hn] at hr
      cases hr
    exact ⟨_, String.toList_append, by simp [Step.piece?], by simp⟩
  case gap t =>
    cases hr
    split
    case isTrue  => exact ⟨[], by simp, by simp, by simp⟩
    case isFalse => exact ⟨t, by simp [Progress.write], by simp [Step.piece?], by simp⟩
  case fail => cases hr
  case compose targets names source pos =>
    cases source
    case everywhere =>
      cases hr
      exact ⟨[], hnames .., by simp, by simp⟩
    case sameFile =>
      rw [runKnown_sameFile] at hr
      split at hr <;> cases hr
      exact ⟨[], hnames .., by simp, by simp⟩
    case file specifier =>
      obtain ⟨tokens, ht⟩ := Option.isSome_iff_exists.1 (Step.asks_eq_none.1 ha specifier rfl)
      rw [runKnown_file ht] at hr
      split at hr <;> cases hr
      exact ⟨[], hnames .., by simp, by simp⟩

variable {σ : Type} {resolve : String → ExceptT Error (StateM σ) Tokens} {steps steps' : List Step} {state : σ}

-- A text that stands in the output before anything is dropped behind it makes no other difference.
theorem runSteps_insertAt (hn : n ≤ p.css.toList.length) (hl : n < p.css.toList.length ∨ Led Step.isGap steps) :
    (runSteps file rename resolve steps (p.insertAt n s)).run.run state =
      Prod.map (Except.map (Progress.insertAt n s)) id ((runSteps file rename resolve steps p).run.run state) := by
  induction steps generalizing p state
  case nil => rfl
  case cons step steps ih =>
    have hknown {p : Progress} (ha : step.asks p = none) (hn : n ≤ p.css.toList.length)
        (hl : n < p.css.toList.length ∨ Led Step.isGap (step :: steps)) (state : σ) :
        (runSteps file rename resolve (step :: steps) (p.insertAt n s)).run.run state =
          Prod.map (Except.map (Progress.insertAt n s)) id
            ((runSteps file rename resolve (step :: steps) p).run.run state) := by
      have hg (hgap : step.isGap = true) : n < p.css.toList.length := by
        rcases hl with hlt | hled
        · exact hlt
        · cases hgap.symm.trans hled.1
      rw [runSteps, runSteps, Stateful.run_bind, Stateful.run_bind, runStep_known ha,
        runStep_known (p := p.insertAt n s) ha, runKnown_insertAt ha hn hg]
      cases hr : runKnown file rename p step
      case error => rfl
      case ok p' =>
        obtain ⟨t, hcss, _, htext⟩ := runKnown_css ha hr
        have hlength : p'.css.toList.length = p.css.toList.length + t.length := by rw [hcss, List.length_append]
        refine ih (by omega) ?_
        rcases hl with hlt | ⟨_, ⟨c, u, hstep⟩ | hled⟩
        · exact .inl (by omega)
        · refine .inl ?_
          rw [hlength, htext _ hstep, List.length_cons]
          omega
        · exact .inr hled
    cases ha : step.asks p
    case none           => exact hknown ha hn hl state
    case some specifier =>
      rw [runSteps, runSteps, runStep_asks ha, runStep_asks (p := p.insertAt n s) ha, bind_assoc, bind_assoc,
        Stateful.run_bind, Stateful.run_bind]
      rcases (resolve specifier).run.run state with ⟨e | tokens, state'⟩
      case error => rfl
      case ok    => exact hknown (p := p.know specifier tokens) (Step.asks_know ha) hn hl state'

theorem runSteps_write_insertAt {t : List Char} (hl : Led Step.isGap (.text t :: steps)) :
    (runSteps file rename resolve steps (p.write (s ++ t))).run.run state =
      Prod.map (Except.map (Progress.insertAt p.css.toList.length s)) id
        ((runSteps file rename resolve steps (p.write t)).run.run state) := by
  have hboth : p.write (s ++ t) = (p.write t).insertAt p.css.toList.length s := by
    rw [← Progress.write_insertAt (Nat.le_refl _), Progress.insertAt_length]
    simp [Progress.write, String.append_assoc]
  have hlength : (p.write t).css.toList.length = p.css.toList.length + t.length := by simp [Progress.write]
  rw [hboth]
  refine runSteps_insertAt (by omega) ?_
  rcases hl.2 with ⟨c, u, ht⟩ | hled
  · refine .inl ?_
    rw [hlength, Step.text.inj ht, List.length_cons]
    omega
  · exact .inr hled

theorem runSteps_texts {t : List Char} (h : Spells t steps) (ht : ∀ step ∈ steps, ∃ t, step = .text t) :
    (runSteps file rename resolve (steps ++ steps') p).run.run state =
      (runSteps file rename resolve steps' (p.write t)).run.run state := by
  have hw := h.written
  clear h
  induction steps generalizing p t
  case nil =>
    have hempty : p.write [] = p := by simp [Progress.write]
    rw [← hw]
    exact congrArg (fun p => (runSteps file rename resolve steps' p).run.run state) hempty.symm
  case cons step steps ih =>
    obtain ⟨u, hu⟩ := ht _ (.head _)
    subst hu
    have hwrite : p.write t = (p.write u).write (written id (piecesOf steps)) := by
      rw [← hw]
      simp [Progress.write, String.append_assoc, piecesOf, Step.piece?, written, Piece.written]
    rw [hwrite]
    exact ih (fun step hm => ht step (.tail _ hm)) rfl

theorem runSteps_inserted (h : Inserted s steps steps') (hl : Led Step.isGap steps) :
    (runSteps file rename resolve steps' p).run.run state =
      Prod.map (Except.map (Progress.insertAt p.css.toList.length s)) id
        ((runSteps file rename resolve steps p).run.run state) := by
  induction h generalizing p state
  case here steps =>
    have hwrite : (runSteps file rename resolve (.text s :: steps) p).run.run state =
        (runSteps file rename resolve steps (p.write s)).run.run state := rfl
    rw [hwrite, ← Progress.insertAt_length]
    exact runSteps_insertAt (Nat.le_refl _) (.inr hl)
  case within t steps =>
    have hwrite (t : List Char) : (runSteps file rename resolve (.text t :: steps) p).run.run state =
        (runSteps file rename resolve steps (p.write t)).run.run state := rfl
    rw [hwrite, hwrite]
    exact runSteps_write_insertAt hl
  case spelled t steps rest hs ht =>
    have hwrite (t : List Char) (steps : List Step) :
        (runSteps file rename resolve (.text t :: steps) p).run.run state =
          (runSteps file rename resolve steps (p.write t)).run.run state := rfl
    have hboth : (p.write s).write t = p.write (s ++ t) := by simp [Progress.write, String.append_assoc]
    rw [hwrite, hwrite, runSteps_texts hs ht, hboth]
    exact runSteps_write_insertAt hl
  case behind step steps steps' hp _ ih =>
    have hled : Led Step.isGap steps := by
      rcases hl.2 with ⟨c, u, ht⟩ | hled
      · rw [ht] at hp
        cases hp
      · exact hled
    have hknown {p : Progress} (ha : step.asks p = none) (state : σ) :
        (runSteps file rename resolve (step :: steps') p).run.run state =
          Prod.map (Except.map (Progress.insertAt p.css.toList.length s)) id
            ((runSteps file rename resolve (step :: steps) p).run.run state) := by
      rw [runSteps, runSteps, Stateful.run_bind, Stateful.run_bind, runStep_known ha]
      cases hr : runKnown file rename p step
      case error => rfl
      case ok p' =>
        obtain ⟨t, hcss, hnone, _⟩ := runKnown_css ha hr
        rw [hnone hp, List.append_nil] at hcss
        rw [← hcss]
        exact ih hled
    cases ha : step.asks p
    case none           => exact hknown ha state
    case some specifier =>
      rw [runSteps, runSteps, runStep_asks ha, bind_assoc, bind_assoc, Stateful.run_bind, Stateful.run_bind]
      rcases (resolve specifier).run.run state with ⟨e | tokens, state'⟩
      case error => rfl
      case ok    => exact hknown (p := p.know specifier tokens) (Step.asks_know ha) state'
  case failed => rfl

end

-- The blocks that are open behind some segments, the innermost first.
def openBlocks : List Block → List Segment → List Block
  | stack, []                              => stack
  | stack, .opening prelude pos :: rest    => openBlocks (⟨pos, blockClasses prelude pos⟩ :: stack) rest
  | stack, .declaration _ _ closes :: rest => openBlocks (if closes then stack.tail else stack) rest
  | stack, _ :: rest                       => openBlocks stack rest

-- What is planned for some segments in front of others does not depend on these, or it fails.
theorem planSegments_append (stack : List Block) (before : List Segment) :
    (∀ more, planSegments stack (before ++ more) =
        planSegments stack before ++ planSegments (openBlocks stack before) more) ∨
      (Fails (planSegments stack before) ∧
        ∀ more, planSegments stack (before ++ more) = planSegments stack before) := by
  induction before generalizing stack
  case nil => exact .inl fun more => rfl
  case cons segment rest ih =>
    -- What only adds steps in front changes neither.
    have hfront {stack' : List Block} (steps : List Step)
        (ho : openBlocks stack (segment :: rest) = openBlocks stack' rest)
        (hs : ∀ more, planSegments stack (segment :: more) = steps ++ planSegments stack' more) :
        (∀ more, planSegments stack (segment :: rest ++ more) =
            planSegments stack (segment :: rest) ++ planSegments (openBlocks stack (segment :: rest)) more) ∨
          (Fails (planSegments stack (segment :: rest)) ∧
            ∀ more, planSegments stack (segment :: rest ++ more) = planSegments stack (segment :: rest)) := by
      rcases ih stack' with hrest | ⟨hf, hrest⟩
      · exact .inl fun more => by rw [List.cons_append, hs, hs, hrest, List.append_assoc, ho]
      · refine .inr ⟨?_, fun more => by rw [List.cons_append, hs, hs, hrest]⟩
        rw [hs]
        exact fails_append.2 (.inr hf)
    cases segment
    case blank s => exact hfront [.text s] rfl fun _ => rfl
    case opening prelude pos =>
      cases hn : atRuleName? prelude
      case some name =>
        have hblock : blockClasses prelude pos = none := by rw [blockClasses, hn]
        refine hfront (atRuleSteps name prelude ++ [.text ['\x7b']]) (by rw [openBlocks, hblock]) fun more => ?_
        simp only [planSegments, hn]
        rw [List.append_assoc]
        rfl
      case none =>
        have hblock : blockClasses prelude pos =
            some (composableClasses prelude (selectorSteps pos false false .blank prelude)) := by
          rw [blockClasses, hn]
        refine hfront (selectorSteps pos false false .blank prelude ++ [.text ['\x7b']])
          (by rw [openBlocks, hblock]) fun more => ?_
        simp only [planSegments, hn]
        rw [List.append_assoc]
        rfl
    case verbatim prelude body =>
      refine hfront (atRuleSteps ((atRuleName? prelude).getD []) prelude ++ [.text ['\x7b'], .text body]) rfl
        fun more => ?_
      rw [planSegments, List.append_assoc]
      rfl
    case declaration text pos closes =>
      cases closes
      case false => exact hfront (declarationSteps stack text pos false) rfl fun _ => rfl
      case true =>
        cases stack
        case nil => exact .inr ⟨fails_append.2 (.inr ⟨_, _, .head _⟩), fun _ => rfl⟩
        case cons block stack =>
          refine hfront (declarationSteps (block :: stack) text pos true ++ [.text ['\x7d']]) rfl fun more => ?_
          rw [planSegments, List.append_assoc]
          rfl
    case tail text =>
      cases stack
      case nil  => exact hfront [.text text] rfl fun _ => rfl
      case cons => exact .inr ⟨⟨_, _, .tail _ (.head _)⟩, fun _ => rfl⟩
    case broken => exact .inr ⟨⟨_, _, .head _⟩, fun _ => rfl⟩

-- A place in a style sheet where a statement starts, behind the white space in front of it.
structure StatementStart (css : List Char) where
  before   : List Segment
  blanks   : List Char
  next     : Segment
  rest     : List Segment
  segments : Segment.ofText css = before ++ .blank blanks :: next :: rest

namespace StatementStart

variable {css body : List Char} (place : StatementStart css)

def lead : List Char :=
  place.before.flatMap Segment.text ++ place.blanks

-- The style sheet with a text put in at this place.
def insert (s : List Char) : List Char :=
  place.lead ++ s ++ css.drop place.lead.length

-- What is planned for the text in front of the place.
def steps : List Step :=
  planSegments [] (place.before ++ [.blank place.blanks])

end StatementStart

theorem ofTokens_comment {body : List Char} {pos : Position} {tokens : List Token} {blanks : List Char}
    {next : Segment} {rest : List Segment} (h : Segment.ofTokens pos tokens = .blank blanks :: next :: rest)
    (ht : Tolerant body (next :: rest)) :
    ∃ white behind, tokens = white ++ behind ∧ spell? white = some blanks ∧
      (Segment.ofTokens pos (white ++ .atom (comment body) :: behind)).map Segment.unplaced =
        (.blank blanks :: next.behind (comment body) :: rest).map Segment.unplaced := by
  have ⟨white, hwhite, hspell, _, hmore⟩ := takeBlank_append tokens
  rw [Segment.ofTokens_eq] at h
  have ⟨hblank, hstatement⟩ := List.cons.inj h
  cases hblank
  refine ⟨white, (takeBlank tokens).2, hwhite, hspell, ?_⟩
  have hread : readText 0 (.atom (comment body) :: (takeBlank tokens).2) =
      (comment body ++ (readText 0 (takeBlank tokens).2).1, (readText 0 (takeBlank tokens).2).2) := rfl
  rw [Segment.ofTokens_eq, hmore _ rfl, List.map_cons, List.map_cons]
  dsimp only
  congr 1
  unfold Segment.ofStatement at hstatement ⊢
  rw [hread]
  rcases hr : readText 0 (takeBlank tokens).2 with ⟨text, ending, behind⟩
  rw [hr] at hstatement
  cases ending
  case input =>
    cases hstatement
    rfl
  case broken =>
    cases hstatement
    rfl
  case cut c =>
    dsimp only at hstatement ⊢
    split at hstatement
    case isFalse hopen =>
      cases hstatement
      rw [if_neg hopen, List.map_cons]
      exact congrArg _ (unplaced_ofTokens ..)
    case isTrue hopen =>
      rw [if_pos hopen, atRuleName?_comment, Option.all_none, if_pos rfl, List.map_cons]
      split at hstatement
      case isTrue =>
        cases hstatement
        exact congrArg _ (unplaced_ofTokens ..)
      case isFalse =>
        split at hstatement
        all_goals
          cases hstatement
          cases ht

namespace StatementStart

variable {css body : List Char} (place : StatementStart css)

-- Up to the place, and from it on, the text is read as before.
theorem ofText_insert (hb : IsBody body) (ht : Tolerant body (place.next :: place.rest)) :
    (∃ behind, css = place.lead ++ behind) ∧
      (Segment.ofText (place.insert (comment body))).map Segment.unplaced =
        (place.before ++ .blank place.blanks :: place.next.behind (comment body) :: place.rest).map
          Segment.unplaced := by
  have ⟨taken, rest, pos, htokens, hspell, hrest, hmore⟩ := Segment.ofTokens_append place.segments
  have ⟨white, behind, hwhite, hblanks, hcommented⟩ := ofTokens_comment hrest ht
  have hlead : spell? (taken ++ white) = some place.lead := by
    rw [spell?_append, hspell, hblanks]
    rfl
  have hread : Token.scan css = taken ++ white ++ behind := by rw [htokens, hwhite, List.append_assoc]
  have ⟨text, hcss, htext, happend⟩ := Token.scan_append hread hlead
  refine ⟨⟨text, hcss⟩, ?_⟩
  have hinsert : place.insert (comment body) = place.lead ++ (comment body ++ text) := by
    have hdrop : css.drop place.lead.length = text := (congrArg _ hcss).trans List.drop_left
    rw [insert, hdrop, List.append_assoc]
  have hscan : Token.scan (place.insert (comment body)) = taken ++ (white ++ .atom (comment body) :: behind) := by
    rw [hinsert, happend _ (by simp [comment]), scan_comment_append hb, htext, List.append_assoc]
  rw [Segment.ofText, hscan, hmore, List.map_append, hcommented, List.map_append]

end StatementStart

-- Outcomes for a text with and without a comment. What comes before the place where it stands has been
-- written in front of it; errors are the same but for their places.
inductive Commented (comment : List Char) (before : Except Error Progress) :
    Except Error ScopedSheet → Except Error ScopedSheet → Prop
  | ok {p : Progress} {sheet sheet' : ScopedSheet} (r : List Char) :
    before = .ok p → sheet.css.toList = p.css.toList ++ r → sheet'.css.toList = p.css.toList ++ comment ++ r →
    sheet'.tokens = sheet.tokens → Commented comment before (.ok sheet) (.ok sheet')
  | error {e e' : Error} : e'.unplaced = e.unplaced → Commented comment before (.error e) (.error e')

section

variable {css body : List Char} {file : String} {rename : String → Except Error String} {σ : Type}
  {resolve : String → ExceptT Error (StateM σ) Tokens}

-- The output only ever grows.
theorem runSteps_prefix {steps : List Step} {p p' : Progress} {s t : σ}
    (hr : (runSteps file rename resolve steps p).run.run s = (.ok p', t)) : p.css.toList <+: p'.css.toList := by
  refine runSteps_induct (P := fun _ q => p.css.toList <+: q.css.toList) (fun _ h ha hk => ?_)
    (fun h _ _ => h) (List.nil_append _).symm List.prefix_rfl hr
  have ⟨t, hcss, _, _⟩ := runKnown_css ha hk
  exact h.trans ⟨t, hcss.symm⟩

theorem runSteps_comment (file : String) (rename : String → Except Error String)
    (resolve : String → ExceptT Error (StateM σ) Tokens) (place : StatementStart css) (hb : IsBody body)
    (ht : Tolerant body (place.next :: place.rest)) (s : σ) :
    let plain := (runSteps file rename resolve (planSegments [] (Segment.ofText css)) .start).run.run s
    let commented := (runSteps file rename resolve (planSegments []
      (place.before ++ .blank place.blanks :: place.next.behind (comment body) :: place.rest)) .start).run.run s
    commented.2 = plain.2 ∧
      ((∃ e, plain.1 = .error e ∧ commented.1 = .error e) ∨
        ∃ p q, ((runSteps file rename resolve place.steps .start).run.run s).1 = .ok p ∧ plain.1 = .ok q ∧
          p.css.toList <+: q.css.toList ∧ commented.1 = .ok (q.insertAt p.css.toList.length (comment body))) := by
  dsimp only
  rw [place.segments]
  rcases planSegments_append [] place.before with hmore | ⟨hfails, hmore⟩
  case inr =>
    -- The text in front of the place cannot be scoped already.
    rw [hmore, hmore]
    refine ⟨rfl, .inl ?_⟩
    rcases hr : (runSteps file rename resolve (planSegments [] place.before) .start).run.run s with ⟨e | p, t⟩
    case error => exact ⟨e, rfl, rfl⟩
    case ok    => exact absurd hfails (not_fails_of_runSteps hr)
  case inl =>
    have hsteps (next : Segment) : planSegments [] (place.before ++ .blank place.blanks :: next :: place.rest) =
        place.steps ++ planSegments (openBlocks [] place.before) (next :: place.rest) := by
      unfold StatementStart.steps
      rw [hmore, hmore, List.append_assoc]
      rfl
    have hinserted := inserted_planSegments hb (openBlocks [] place.before) ht
    rw [hsteps, hsteps, runSteps_append, runSteps_append, Stateful.run_bind, Stateful.run_bind]
    rcases (runSteps file rename resolve place.steps .start).run.run s with ⟨e | p, t⟩
    case error => exact ⟨rfl, .inl ⟨e, rfl, rfl⟩⟩
    case ok =>
      dsimp only
      rw [runSteps_inserted hinserted (led_planSegments ..)]
      rcases hr : (runSteps file rename resolve
          (planSegments (openBlocks [] place.before) (place.next :: place.rest)) p).run.run t with ⟨e | q, u⟩
      case error => exact ⟨rfl, .inl ⟨e, rfl, rfl⟩⟩
      case ok    => exact ⟨rfl, .inr ⟨p, q, rfl, rfl, runSteps_prefix hr, rfl⟩⟩

-- A comment in front of a statement that is read behind it as before is left in its place, and nothing
-- else changes: scoping succeeds with the same tokens or fails, and asks for the same files.
theorem scope_comment (file : String) (rename : String → Except Error String)
    (resolve : String → ExceptT Error (StateM σ) Tokens) (place : StatementStart css) (hb : IsBody body)
    (ht : Tolerant body (place.next :: place.rest)) (s : σ) :
    ((scope (.ofList (place.insert (comment body))) file rename resolve).run.run s).2 =
        ((scope (.ofList css) file rename resolve).run.run s).2 ∧
      Commented (comment body) ((runSteps file rename resolve place.steps .start).run.run s).1
        ((scope (.ofList css) file rename resolve).run.run s).1
        ((scope (.ofList (place.insert (comment body))) file rename resolve).run.run s).1 := by
  have ⟨_, hsegments⟩ := place.ofText_insert hb ht
  have hplan : (plan (.ofList (place.insert (comment body)))).map Step.unplaced =
      (planSegments [] (place.before ++ .blank place.blanks :: place.next.behind (comment body) :: place.rest)).map
        Step.unplaced := by
    rw [plan, String.toList_ofList, unplaced_planSegments, hsegments, unplaced_planSegments]
  have ⟨hsame, halike⟩ := runSteps_alike file rename .start resolve hplan s
  have ⟨hstate, hcases⟩ := runSteps_comment file rename resolve place hb ht s
  have hcss : plan (.ofList css) = planSegments [] (Segment.ofText css) := by rw [plan, String.toList_ofList]
  rw [scope_run, scope_run, hcss]
  refine ⟨hsame.trans hstate, ?_⟩
  rcases halike with ⟨e, e', hcommented, hread, he⟩ | ⟨q', hcommented, hread⟩
  case inl =>
    rcases hcases with ⟨_, hplain, hread'⟩ | ⟨_, _, _, _, _, hread'⟩
    · cases hread.symm.trans hread'
      rw [Prod.map_fst, Prod.map_fst, hplain, hcommented]
      exact .error he
    · cases hread.symm.trans hread'
  case inr =>
    rcases hcases with ⟨_, _, hread'⟩ | ⟨p, q, hbefore, hplain, ⟨r, hr⟩, hread'⟩
    · cases hread.symm.trans hread'
    · cases hread.symm.trans hread'
      rw [Prod.map_fst, Prod.map_fst, hplain, hcommented]
      refine Commented.ok r hbefore (show (q.toSheet file).css.toList = _ from hr.symm) ?_ rfl
      simp [Progress.insertAt, Progress.toSheet, ← hr]

end

def composedText : String :=
  ".b \x7b\x7d .a \x7b composes: b; top: 0 \x7d"

-- The place in front of what is composed.
def composesStart : StatementStart composedText.toList where
  before   := [.blank [], .opening ".b ".toList ⟨1, 1⟩, .blank [], .declaration [] ⟨1, 5⟩ true, .blank [' '],
    .opening ".a ".toList ⟨1, 7⟩]
  blanks   := [' ']
  next     := .declaration "composes: b".toList ⟨1, 12⟩ false
  rest     := [.blank [' '], .declaration "top: 0 ".toList ⟨1, 25⟩ true, .blank [], .tail []]
  segments := by decide +kernel

theorem scope_comment_composed :
    Text.IsBody "c".toList ∧ Tolerant "c".toList (composesStart.next :: composesStart.rest) ∧
      String.ofList (composesStart.insert (comment "c".toList)) =
        ".b \x7b\x7d .a \x7b /*c*/composes: b; top: 0 \x7d" ∧
      ∃ p sheet sheet' r,
        (runSteps "ab.css" (fun n => .ok (underscored n)) nowhere composesStart.steps .start).run.run () = (.ok p, ()) ∧
        p.css = "._b \x7b\x7d ._a \x7b " ∧
        (scope composedText "ab.css" (fun n => .ok (underscored n)) nowhere).run.run () = (.ok sheet, ()) ∧
        sheet.css.toList = p.css.toList ++ r ∧
        (scope ".b \x7b\x7d .a \x7b /*c*/composes: b; top: 0 \x7d" "ab.css" (fun n => .ok (underscored n))
          nowhere).run.run () = (.ok sheet', ()) ∧
        sheet'.css.toList = p.css.toList ++ "/*c*/".toList ++ r ∧ sheet'.tokens = sheet.tokens := by
  have hb : Text.IsBody "c".toList := by decide
  have ht : Tolerant "c".toList (composesStart.next :: composesStart.rest) := .declaration (by decide)
  have hinsert : String.ofList (composesStart.insert (comment "c".toList)) =
      ".b \x7b\x7d .a \x7b /*c*/composes: b; top: 0 \x7d" := by
    decide +kernel
  have hbefore : ((runSteps "ab.css" (fun n => .ok (underscored n)) nowhere composesStart.steps
      .start).run.run ()).1.map Progress.css = .ok "._b \x7b\x7d ._a \x7b " := by
    decide +kernel
  have hok : ((scope composedText "ab.css" (fun n => .ok (underscored n)) nowhere).run.run ()).1.isOk = true := by
    decide +kernel
  have ⟨_, hsame⟩ := scope_comment "ab.css" (fun n => .ok (underscored n)) nowhere composesStart hb ht ()
  rw [hinsert, String.ofList_toList] at hsame
  refine ⟨hb, ht, hinsert, ?_⟩
  generalize hp : (runSteps "ab.css" (fun n => .ok (underscored n)) nowhere composesStart.steps
    .start).run.run () = before at hbefore hsame
  generalize hplain : (scope composedText "ab.css" (fun n => .ok (underscored n)) nowhere).run.run () = plain
    at hok hsame
  generalize hcommented : (scope ".b \x7b\x7d .a \x7b /*c*/composes: b; top: 0 \x7d" "ab.css"
    (fun n => .ok (underscored n)) nowhere).run.run () = commented at hsame
  rcases before with ⟨before, _⟩
  rcases plain with ⟨plain, _⟩
  rcases commented with ⟨commented, _⟩
  cases hsame
  case error => cases hok
  case ok p sheet sheet' r hr hcss hcss' htokens =>
    cases hr
    exact ⟨p, sheet, sheet', r, rfl, Except.ok.inj hbefore, rfl, hcss, rfl, hcss', htokens⟩

end Scoping

end ScopedCss
