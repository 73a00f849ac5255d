import ScopedCss.Proofs.Scoping.Gaps
import ScopedCss.Proofs.Scoping.Pieces
import ScopedCss.Proofs.Scoping.Spelling
import ScopedCss.Proofs.Text.Suffix

namespace ScopedCss.Scoping

-- Steps that write a text again, with the local names that stand in it left as they are.
structure Spells (s : List Char) (steps : List Step) : Prop where
  simple  : Simple steps
  written : written id (piecesOf steps) = s

section

variable {s t : List Char} {steps steps' : List Step} {kind : NameKind}

theorem Spells.nil : Spells [] [] :=
  ⟨simple_nil, rfl⟩

theorem Spells.text (s : List Char) (h : Spells t steps) : Spells (s ++ t) (.text s :: steps) where
  simple  := simple_text.2 h.simple
  written := congrArg (s ++ ·) h.written

theorem Spells.name (kind : NameKind) (s : List Char) (h : Spells t steps) :
    Spells (s ++ t) (.name kind (.ofList s) :: steps) where
  simple  := simple_name.2 h.simple
  written := congrArg₂ (· ++ ·) String.toList_ofList h.written

theorem Spells.append (h : Spells s steps) (h' : Spells t steps') : Spells (s ++ t) (steps ++ steps') where
  simple  := simple_append.2 ⟨h.simple, h'.simple⟩
  written := by rw [piecesOf_append, written_append, h.written, h'.written]

theorem Spells.only (s : List Char) : Spells s [.text s] := by
  simpa using Spells.nil.text s

theorem Spells.onlyName (kind : NameKind) (s : List Char) : Spells s [.name kind (.ofList s)] := by
  have h := Spells.nil.name kind s
  rwa [List.append_nil] at h

end

-- Texts in which nothing says what is global and what is local.
structure Unmarked (s : List Char) : Prop where
  global : ¬":global".toList <:+: s
  local' : ¬":local".toList <:+: s

section

variable {s t rest start : List Char}

theorem Unmarked.part (h : Unmarked s) (ht : t <:+: s) : Unmarked t :=
  ⟨fun hi => h.global (hi.trans ht), fun hi => h.local' (hi.trans ht)⟩

-- What is left when the text behind `start` has been read in part.
theorem Unmarked.behind {p : List Char × List Char} (start : List Char) (h : Unmarked (start ++ s))
    (hp : p.1 ++ p.2 = s) : Unmarked p.2 :=
  h.part ⟨start ++ p.1, [], by simp [hp]⟩

theorem Unmarked.dropPrefix?_global (h : Unmarked s) (more rest : List Char) :
    Text.dropPrefix? (":global".toList ++ more) s ≠ some rest := by
  intro hr
  refine h.global ⟨[], more ++ rest, ?_⟩
  rw [Text.dropPrefix?_eq_some_iff.1 hr, List.nil_append, List.append_assoc]

theorem Unmarked.dropPrefix?_local (h : Unmarked s) (more rest : List Char) :
    Text.dropPrefix? (":local".toList ++ more) s ≠ some rest := by
  intro hr
  refine h.local' ⟨[], more ++ rest, ?_⟩
  rw [Text.dropPrefix?_eq_some_iff.1 hr, List.nil_append, List.append_assoc]

theorem dropPrefix?_of_dropPseudo? {name : List Char} (h : dropPseudo? name s = some rest) :
    ∃ rest, Text.dropPrefix? name s = some rest := by
  have ⟨rest, hr, _⟩ := Option.bind_eq_some_iff.1 h
  exact ⟨rest, hr⟩

end

section

variable {s rest : List Char} {steps : List Step} {p : List Char × List Char}

-- Writing what was read behind `start` at once.
theorem Spells.read (h : Spells p.2 steps) (start : List Char) (hp : p.1 ++ p.2 = s) :
    Spells (start ++ s) (.text (start ++ p.1) :: steps) := by
  rw [← hp, ← List.append_assoc]
  exact h.text _

end

theorem spells_selectorSteps {s : List Char} (h : Unmarked s) (pos : Position) (outer free : Bool)
    (trail : Trail) : Spells s (selectorSteps pos outer free trail s) := by
  fun_induction selectorSteps pos outer free trail s
  case case1 => exact .nil
  case case2 s _ _ ih =>
    exact (ih (h.behind ['/', '*'] (takeComment_append s))).read ['/', '*'] (takeComment_append s)
  case case3 c s _ _ _ _ ih =>
    exact (ih (h.behind [c] (takeString_append c s))).read [c] (takeString_append c s)
  case case4 s _ _ _ _ ih =>
    exact (ih (h.behind ['['] (takeBracket_append _ s))).read ['['] (takeBracket_append _ s)
  case case12 c s _ _ _ _ _ _ _ _ _ _ _ ih =>
    exact (ih (h.behind [c] (takeName_append s))).read [c] (takeName_append s)
  case case13 c s _ _ _ _ _ _ _ _ _ name _ _ kind ih =>
    have hr := ((ih (h.behind [c] (takeName_append s))).name kind name).text [c]
    rwa [takeName_append] at hr
  case case5 s _ _ _ ih => exact (ih (h.part (List.suffix_cons _ _).isInfix)).text [',']
  case case14 c s _ _ _ _ _ _ _ _ _ ih => exact (ih (h.part (List.suffix_cons _ _).isInfix)).text [c]
  case case6 | case7   => exact absurd ‹_› (h.dropPrefix?_global ['('] _)
  case case8 | case9   => exact absurd ‹_› (h.dropPrefix?_local ['('] _)
  case case10 hp _ _ _ _ _ =>
    obtain ⟨_, hg⟩ := dropPrefix?_of_dropPseudo? hp
    exact absurd hg (h.dropPrefix?_global [] _)
  case case11 hp _ _ _ _ _ =>
    obtain ⟨_, hl⟩ := dropPrefix?_of_dropPseudo? hp
    exact absurd hl (h.dropPrefix?_local [] _)

theorem dropVendor_suffix (s : List Char) : dropVendor s <:+ s := by
  unfold dropVendor
  split
  case h_2 => exact List.suffix_rfl
  case h_1 rest =>
    split
    case h_2          => exact List.suffix_rfl
    case h_1 rest' hs =>
      exact (List.suffix_cons _ _).trans ((Text.span_suffix hs).trans (List.suffix_cons _ _))

theorem splitKeyframes?_append {prelude head name blanks : List Char}
    (h : splitKeyframes? prelude = some (head, name, blanks)) : head ++ (name ++ blanks) = prelude := by
  have ⟨rest, hat, h⟩ := Option.bind_eq_some_iff.1 h
  have ⟨rest', hword, h⟩ := Option.bind_eq_some_iff.1 h
  split at h
  case h_1           => cases h
  case h_2 body _ hs =>
    cases h
    have hb : body <:+ prelude :=
      (Text.span_suffix hs).trans <| (Text.dropWord?_suffix hword).trans <|
        (dropVendor_suffix _).trans <| (Text.dropPrefix?_suffix hat).trans (Text.trimStart_suffix _)
    rw [List.prefix_iff_eq_append.1 (Text.prefix_trimEnd body)]
    exact List.suffix_iff_eq_append.1 hb

theorem splitAnimation?_append {declaration head value : List Char} {shorthand : Bool}
    (h : splitAnimation? declaration = some (head, shorthand, value)) : head ++ value = declaration := by
  have ⟨rest, hword, h⟩ := Option.bind_eq_some_iff.1 h
  have ⟨rest', hcolon, h⟩ := Option.bind_eq_some_iff.1 h
  cases h
  have hn : (Text.dropWord? "-name".toList rest).getD rest <:+ rest := by
    cases hd : Text.dropWord? "-name".toList rest
    case none => exact List.suffix_rfl
    case some => exact Text.dropWord?_suffix hd
  exact List.suffix_iff_eq_append.1 <|
    (Text.trimStart_suffix _).trans <| (Text.dropPrefix?_suffix hcolon).trans <|
      (Text.trimStart_suffix _).trans <| hn.trans <| (Text.dropWord?_suffix hword).trans <|
        (dropVendor_suffix _).trans (Text.trimStart_suffix _)

theorem dropComments_suffix (s : List Char) : dropComments s <:+ s := by
  fun_induction dropComments s
  case case2 => exact List.suffix_rfl
  case case1 s rest hc _ ih =>
    have ⟨_, _, hc⟩ := Option.bind_eq_some_iff.1 hc
    have ⟨⟨_, _⟩, hs, he⟩ := Option.bind_eq_some_iff.1 hc
    cases he
    exact ih.trans ((Text.splitOnce?_suffix hs).trans (Text.trimStart_suffix _))

theorem splitComments_append (s : List Char) : (splitComments s).1 ++ (splitComments s).2 = s :=
  List.suffix_iff_eq_append.1 (dropComments_suffix s)

theorem spells_keyframesNameSteps {name : List Char} (h : Unmarked name) :
    Spells name (keyframesNameSteps name) := by
  have hw {start : List Char} (hd : ∀ rest, Text.dropPrefix? start name ≠ some rest) :
      wrapped? start name = none := by
    rw [wrapped?, Option.eq_none_iff_forall_ne_some.2 hd]
    rfl
  unfold keyframesNameSteps
  have hg : wrapped? ":global(".toList name = none := hw (h.dropPrefix?_global ['('])
  have hl : wrapped? ":local(".toList name = none  := hw (h.dropPrefix?_local ['('])
  rw [hg, hl, Option.getD_none]
  dsimp only
  split
  case h_1 => exact .nil
  case h_2 =>
    split
    case isTrue  => exact .only _
    case isFalse => exact .onlyName .keyframes _

theorem spells_atRuleSteps {prelude : List Char} (h : Unmarked prelude) (name : List Char) :
    Spells prelude (atRuleSteps name prelude) := by
  unfold atRuleSteps
  split
  case isFalse => exact .only _
  case isTrue  =>
    unfold keyframesSteps
    split
    case h_2                     => exact .only _
    case h_1 head name blanks hs =>
      have he := splitKeyframes?_append hs
      have hn : Unmarked name := h.part ⟨head, blanks, by rw [← he, List.append_assoc]⟩
      rw [← he]
      exact ((spells_keyframesNameSteps hn).append (.only blanks)).text head

theorem spells_animationValueSteps (shorthand : Bool) (depth : Nat) (named : Bool) (s : List Char) :
    Spells s (animationValueSteps shorthand depth named s) := by
  fun_induction animationValueSteps shorthand depth named s
  case case1 => exact .nil
  case case2 ih => exact ih.text ['(']
  case case3 ih => exact ih.text [')']
  case case4 c _ _ _ _ ih => exact ih.text [c]
  case case5 c s _ _ _ _ _ ih => exact ih.read [c] (takeString_append c s)
  case case6 c s _ _ _ _ _ _ ih =>
    exact ih.read [c] (p := (_, _)) List.takeWhile_append_dropWhile
  case case7 c s _ _ _ _ _ _ _ _ _ _ ih => exact ih.read [c] (takeName_append s)
  case case8 c s _ _ _ _ _ _ word _ _ _ ih =>
    have hr := ih.name .keyframes word
    rwa [List.cons_append, takeName_append] at hr
  case case9 c _ _ _ _ _ _ _ ih => exact ih.text [c]

theorem spells_animationSteps? {declaration : List Char} {steps : List Step}
    (h : animationSteps? declaration = some steps) : Spells declaration steps := by
  have ⟨⟨head, shorthand, value⟩, hs, he⟩ := Option.map_eq_some_iff.1 h
  rw [← he, ← splitAnimation?_append hs]
  exact (spells_animationValueSteps ..).text head

-- What ends a declaration, where it is not the brace that closes its block.
def stopOf (closes : Bool) : List Char :=
  if closes then [] else [';']

theorem spells_declarationSteps {stack : List Block} {text : List Char} {pos : Position} {closes : Bool}
    (h : (stack.map Block.rule).head?.join.bind (Declaration.ofText? · text) = none) :
    Spells (text ++ stopOf closes) (declarationSteps stack text pos closes) := by
  have hstop : Spells (stopOf closes) (if closes then [] else [.text [';']]) := by
    cases closes
    case false => exact .only _
    case true  => exact .nil
  unfold declarationSteps
  dsimp only
  split
  case h_2 => exact hstop.text text
  case h_1 pos' targets rest =>
    have hc : composesValue? (splitComments text).2 = none := by
      simpa [Declaration.ofText?] using h
    rw [hc]
    dsimp only
    split
    case h_2          => exact hstop.text text
    case h_1 steps hs =>
      have hs := spells_animationSteps? hs
      have hr := (hs.append hstop).text (splitComments text).1
      rwa [← List.append_assoc, splitComments_append] at hr

theorem spells_planSegments {stack : List Block} {segments : List Segment}
    (hf : ¬Fails (planSegments stack segments)) (hc : declared (stack.map Block.rule) segments = [])
    (ht : ∀ segment ∈ segments, Unmarked segment.text) :
    Spells (segments.flatMap Segment.text) (planSegments stack segments) := by
  induction segments generalizing stack
  case nil => exact .nil
  case cons segment rest ih =>
    have ⟨hu, hr⟩ := List.forall_mem_cons.1 ht
    -- Whatever is written in front of them, the segments behind it are written without loss.
    have hrest {stack : List Block} (steps : List Step) (hf : ¬Fails (steps ++ planSegments stack rest))
        (hc : declared (stack.map Block.rule) rest = []) :
        Spells (rest.flatMap Segment.text) (planSegments stack rest) :=
      ih (fun h => hf (fails_append.2 (.inr h))) hc hr
    rw [List.flatMap_cons]
    cases segment
    case blank s => exact (hrest [.text s] hf hc).text s
    case opening prelude pos =>
      have hp : Unmarked prelude := hu.part ⟨[], ['\x7b'], rfl⟩
      unfold planSegments at hf ⊢
      unfold declared blockClasses at hc
      rw [Segment.text, List.append_assoc]
      cases hn : atRuleName? prelude
      all_goals
        rw [hn] at hf hc
        dsimp only at hf hc ⊢
        rw [List.append_cons] at hf
      case some name => exact (spells_atRuleSteps hp name).append ((hrest _ hf hc).text ['\x7b'])
      case none      => exact (spells_selectorSteps hp ..).append ((hrest _ hf hc).text ['\x7b'])
    case verbatim prelude body =>
      have hp : Unmarked prelude := hu.part ⟨[], '\x7b' :: body, rfl⟩
      unfold planSegments at hf ⊢
      rw [List.append_cons, List.append_cons] at hf
      rw [Segment.text, List.append_assoc]
      exact (spells_atRuleSteps hp _).append (((hrest _ hf hc).text body).text ['\x7b'])
    case declaration text pos closes =>
      rw [declared, List.append_eq_nil_iff, Option.toList_eq_nil_iff] at hc
      have hd : Spells (text ++ stopOf closes) (declarationSteps stack text pos closes) :=
        spells_declarationSteps hc.1
      unfold planSegments at hf ⊢
      cases closes
      case false => exact hd.append (hrest _ hf hc.2)
      case true =>
        cases stack
        case nil => exact absurd (fails_append.2 (.inr ⟨_, _, .head _⟩)) hf
        case cons block stack =>
          dsimp only at hf ⊢
          rw [if_pos rfl] at hf ⊢
          rw [List.append_cons] at hf
          rw [stopOf, if_pos rfl, List.append_nil] at hd
          rw [Segment.text, List.append_assoc]
          exact hd.append ((hrest _ hf hc.2).text ['\x7d'])
    case tail text =>
      cases stack
      case nil  => exact (hrest [.text text] hf hc).text text
      case cons => exact absurd ⟨_, _, .tail _ (.head _)⟩ hf
    case broken => exact absurd ⟨_, _, .head _⟩ hf

-- Segments that can be planned are planned one after the other.
theorem planSegments_cons {stack : List Block} {segment : Segment} {rest : List Segment}
    (hf : ¬Fails (planSegments stack (segment :: rest))) :
    ∃ steps stack', planSegments stack (segment :: rest) = steps ++ planSegments stack' rest := by
  cases segment
  case blank s => exact ⟨[.text s], stack, rfl⟩
  case opening prelude pos =>
    rw [planSegments]
    cases atRuleName? prelude
    all_goals exact ⟨_, _, List.append_cons ..⟩
  case verbatim prelude body =>
    rw [planSegments, List.append_cons, List.append_cons]
    exact ⟨_, stack, rfl⟩
  case declaration text pos closes =>
    cases closes
    case false => exact ⟨_, stack, rfl⟩
    case true  =>
      cases stack
      case nil             => exact absurd (fails_append.2 (.inr ⟨_, _, .head _⟩)) hf
      case cons block rest => exact ⟨_, _, List.append_cons ..⟩
  case tail text =>
    cases stack
    case nil  => exact ⟨[.text text], [], rfl⟩
    case cons => exact absurd ⟨_, _, .tail _ (.head _)⟩ hf
  case broken => exact absurd ⟨_, _, .head _⟩ hf

theorem not_broken_of_not_fails {stack : List Block} {segments : List Segment}
    (hf : ¬Fails (planSegments stack segments)) (fault : Fault) (pos : Position) :
    Segment.broken fault pos ∉ segments := by
  induction segments generalizing stack
  case nil => simp
  case cons segment rest ih =>
    have ⟨steps, stack', he⟩ := planSegments_cons hf
    have hrest : ¬Fails (planSegments stack' rest) := fun h => hf (he ▸ fails_append.2 (.inr h))
    refine List.not_mem_cons_of_ne_of_not_mem (fun hs => ?_) (ih hrest)
    subst hs
    exact hf ⟨_, _, .head _⟩

theorem Simple.settled {rename : String → String} {steps : List Step} (h : Simple steps) :
    Settled rename steps := by
  intro before blanks after he
  subst he
  rcases h (.gap blanks) (by simp) with ⟨_, hs⟩ | ⟨_, _, hs⟩
  all_goals cases hs

section

variable {css file : String} {σ : Type} {resolve : String → ExceptT Error (StateM σ) Tokens} {s t : σ}

-- Nothing can be wrong with the steps of a run that succeeds.
theorem not_fails_of_runSteps {rename : String → Except Error String} {steps : List Step} {p : Progress}
    (hr : (runSteps file rename resolve steps .start).run.run s = (.ok p, t)) : ¬Fails steps := by
  refine runSteps_induct (P := fun steps _ => ¬Fails steps) (fun _ h _ hk => ?_) (fun h _ _ => h)
    (List.nil_append _).symm (by simp [Fails]) hr
  rw [fails_append, not_or]
  refine ⟨h, fun hlast => ?_⟩
  obtain ⟨_, _, hm⟩ := hlast
  rw [← List.mem_singleton.1 hm] at hk
  cases hk

-- A style sheet that composes nothing and does not say what is global and what is local stays as it
-- is, character for character, where local names do.
theorem scope_lossless {sheet : ScopedSheet} (hc : compositionsOf css = [])
    (hg : ¬":global".toList <:+: css.toList) (hl : ¬":local".toList <:+: css.toList)
    (hr : (scope css file (fun n => .ok n) resolve).run.run s = (.ok sheet, t)) : sheet.css = css := by
  rw [scope, Stateful.run_bind] at hr
  rcases hrun : (runSteps file (fun n => .ok n) resolve (plan css) .start).run.run s with ⟨_ | p, _⟩
  all_goals rw [hrun] at hr
  case error => cases hr
  case ok    =>
    cases hr
    have hf : ¬Fails (plan css) := not_fails_of_runSteps hrun
    have htext : (Segment.ofText css.toList).flatMap Segment.text = css.toList :=
      text_ofText (not_broken_of_not_fails hf)
    have hs : Spells _ (plan css) := spells_planSegments hf hc fun segment hm =>
      Unmarked.part ⟨hg, hl⟩ (htext ▸ List.infix_of_mem_flatten (List.mem_map_of_mem hm))
    have hw : Written id (plan css) p := .runSteps hs.simple.settled hrun
    refine String.toList_inj.1 ?_
    rw [hw.css, hs.written, htext]

end

def cardText : String :=
  "@keyframes in \x7b from \x7b top: 0 \x7d \x7d /* ; */\n.card:hover, #a > b[href=\";\"] \x7b animation: in 2s; \x7d"

theorem scope_lossless_card :
    compositionsOf cardText = [] ∧ ¬":global".toList <:+: cardText.toList ∧
      ¬":local".toList <:+: cardText.toList ∧ ∃ sheet,
        (scope cardText "card.css" (fun n => .ok n) nowhere).run.run () = (.ok sheet, ()) ∧
          sheet.css = cardText := by
  have hc : compositionsOf cardText = [] := by decide +kernel
  have hg : ¬":global".toList <:+: cardText.toList := by decide +kernel
  have hl : ¬":local".toList <:+: cardText.toList := by decide +kernel
  have hok : ((scope cardText "card.css" (fun n => .ok n) nowhere).run.run ()).1.isOk = true := by
    decide +kernel
  refine ⟨hc, hg, hl, ?_⟩
  rcases hr : (scope cardText "card.css" (fun n => .ok n) nowhere).run.run () with ⟨_ | sheet, _⟩
  all_goals rw [hr] at hok
  case error => cases hok
  case ok    => exact ⟨sheet, rfl, scope_lossless hc hg hl hr⟩

end ScopedCss.Scoping
