import ScopedCss.Proofs.Scoping.Comments

namespace ScopedCss.Scoping

-- Every parenthesis has its counterpart.
inductive Balanced : List Char → Prop
  | nil : Balanced []
  | char {c : Char} {s : List Char} : c ≠ '(' → c ≠ ')' → Balanced s → Balanced (c :: s)
  | group {s t : List Char} : Balanced s → Balanced t → Balanced ('(' :: s ++ ')' :: t)

theorem Balanced.flat {s : List Char} (h : ∀ c ∈ s, c ≠ '(' ∧ c ≠ ')') : Balanced s := by
  induction s
  case nil => exact .nil
  case cons c s ih =>
    have ⟨ho, hc⟩ := h c (.head _)
    exact .char ho hc (ih fun c hm => h c (.tail _ hm))

theorem Balanced.append {s t : List Char} (h : Balanced s) (ht : Balanced t) : Balanced (s ++ t) := by
  induction h
  case nil => exact ht
  case char ho hc _ ih => exact .char ho hc ih
  case group hs _ _ ih =>
    have hg := Balanced.group hs ih
    rwa [← List.cons_append, ← List.append_assoc] at hg

-- The parenthesis that closes another one is not looked for in what is balanced.
theorem takeParens?_balanced {s : List Char} (h : Balanced s) (depth : Nat) (rest : List Char) :
    takeParens? depth (s ++ rest) = (takeParens? depth rest).map fun (l, r) => (s ++ l, r) := by
  induction h generalizing depth rest
  case nil => simp
  case char c s ho hc _ ih =>
    rw [List.cons_append, takeParens?]
    simp [ho, hc, ih, Function.comp_def]
  case group s t _ _ ihs iht =>
    have hopen : ∀ u, takeParens? depth ('(' :: u) = (takeParens? (depth + 1) u).map fun (l, r) => ('(' :: l, r) := by
      simp [takeParens?]
    have hclose : ∀ u, takeParens? (depth + 1) (')' :: u) = (takeParens? depth u).map fun (l, r) => (')' :: l, r) := by
      simp [takeParens?]
    rw [List.append_assoc, List.cons_append, hopen, ihs, List.cons_append, hclose, iht]
    simp [Function.comp_def]

theorem takeParens?_close {s : List Char} (h : Balanced s) (rest : List Char) :
    takeParens? 0 (s ++ ')' :: rest) = some (s, rest) := by
  rw [takeParens?_balanced h]
  simp [takeParens?]

-- Steps that write a text as it is, and do nothing else.
structure Copies (s : List Char) (steps : List Step) : Prop where
  spells : Spells s steps
  texts  : ∀ step ∈ steps, ∃ t, step = .text t

namespace Copies

variable {s t : List Char} {steps steps' : List Step}

theorem nil : Copies [] [] :=
  ⟨.nil, List.forall_mem_nil _⟩

theorem text (s : List Char) (h : Copies t steps) : Copies (s ++ t) (.text s :: steps) :=
  ⟨h.spells.text s, List.forall_mem_cons.2 ⟨⟨s, rfl⟩, h.texts⟩⟩

theorem append (h : Copies s steps) (h' : Copies t steps') : Copies (s ++ t) (steps ++ steps') :=
  ⟨h.spells.append h'.spells, fun step hm => (List.mem_append.1 hm).elim (h.texts step) (h'.texts step)⟩

theorem of_nameless (h : Spells s steps) (hn : ∀ kind n, Step.name kind n ∉ steps) : Copies s steps where
  spells := h
  texts step hm := (h.simple step hm).resolve_right fun ⟨kind, n, he⟩ => hn kind n (he ▸ hm)

theorem run {file : String} {rename : String → Except Error String} {σ : Type}
    {resolve : String → ExceptT Error (StateM σ) Tokens} (h : Copies s steps) (p : Progress) (st : σ) :
    (runSteps file rename resolve steps p).run.run st = (.ok (p.write s), st) := by
  have hr : (runSteps file rename resolve (steps ++ []) p).run.run st = (.ok (p.write s), st) :=
    runSteps_texts h.spells h.texts
  rwa [List.append_nil] at hr

end Copies

-- What stands behind `:global` is written as it is up to the first comma, and from there on as what
-- stands in `outer` parentheses.
def Reaches (pos : Position) (outer : Bool) (s : List Char) (steps : List Step) : Prop :=
  ∃ a b copying, s = a ++ b ∧ (b = [] ∨ a.getLast? = some ',') ∧ Copies a copying ∧
    steps = copying ++ selectorSteps pos outer outer .solid b

section

variable {pos : Position} {outer : Bool} {s t : List Char} {steps : List Step} {p : List Char × List Char}

theorem Reaches.text (s : List Char) (h : Reaches pos outer t steps) :
    Reaches pos outer (s ++ t) (.text s :: steps) := by
  obtain ⟨a, b, copying, rfl, hb, hc, rfl⟩ := h
  refine ⟨s ++ a, b, .text s :: copying, (List.append_assoc ..).symm, hb.imp_right fun ha => ?_, hc.text s, rfl⟩
  rw [List.getLast?_append, ha, Option.some_or]

theorem Reaches.read (h : Reaches pos outer p.2 steps) (start : List Char) (hp : p.1 ++ p.2 = s) :
    Reaches pos outer (start ++ s) (.text (start ++ p.1) :: steps) := by
  rw [← hp, ← List.append_assoc]
  exact h.text _

theorem reaches_selectorSteps (h : Unmarked s) (pos : Position) (outer : Bool) (trail : Trail) :
    Reaches pos outer s (selectorSteps pos outer true trail s) := by
  generalize hf : true = free
  fun_induction selectorSteps pos outer free trail s
  case case1 => exact ⟨[], [], [], rfl, .inl rfl, .nil, by simp [selectorSteps]⟩
  case case2 s _ _ ih =>
    exact (ih (h.behind ['/', '*'] (takeComment_append s)) hf).read ['/', '*'] (takeComment_append s)
  case case3 c s _ _ _ _ ih =>
    exact (ih (h.behind [c] (takeString_append c s)) hf).read [c] (takeString_append c s)
  case case4 s _ _ _ _ ih =>
    exact (ih (h.behind ['['] (takeBracket_append _ s)) hf).read ['['] (takeBracket_append _ s)
  case case5 s _ _ _ _ => exact ⟨[','], s, [.text [',']], rfl, .inr rfl, Copies.nil.text [','], rfl⟩
  case case6 | case7   => exact absurd ‹_› (h.dropPrefix?_global ['('] _)
  case case8 | case9   => exact absurd ‹_› (h.dropPrefix?_local ['('] _)
  case case10 hp _ _ _ _ _ =>
    obtain ⟨_, hg⟩ := dropPrefix?_of_dropPseudo? hp
    exact absurd hg (h.dropPrefix?_global [] _)
  case case11 hp _ _ _ _ _ =>
    obtain ⟨_, hl⟩ := dropPrefix?_of_dropPseudo? hp
    exact absurd hl (h.dropPrefix?_local [] _)
  case case12 c s _ _ _ _ _ _ _ _ _ _ _ ih =>
    exact (ih (h.behind [c] (takeName_append s)) hf).read [c] (takeName_append s)
  case case13 => exact absurd hf.symm ‹_›
  case case14 c s _ _ _ _ _ _ _ _ _ ih =>
    exact (ih (h.part (List.suffix_cons _ _).isInfix) hf).text [c]

-- In the parentheses of `:global` a comma changes nothing.
theorem copies_selectorSteps {s : List Char} (h : Unmarked s) (pos : Position) (trail : Trail) :
    Copies s (selectorSteps pos true true trail s) := by
  obtain ⟨a, b, copying, rfl, hb, hc, he⟩ := reaches_selectorSteps h pos true trail
  rw [he]
  refine hc.append ?_
  rcases hb with rfl | ha
  case inl =>
    rw [selectorSteps]
    exact .nil
  case inr =>
    have hlt : b.length < (a ++ b).length := by
      cases a
      case nil  => cases ha
      case cons c a =>
        rw [List.length_append, List.length_cons]
        omega
    exact copies_selectorSteps (h.part (List.suffix_append a b).isInfix) pos .solid
termination_by s.length

def globalParens (s : List Char) : List Char :=
  ":global(".toList ++ s ++ [')']

def globalWord (s : List Char) : List Char :=
  ":global ".toList ++ s

theorem selectorSteps_parens {inner l r : List Char} (hp : takeParens? 0 inner = some (l, r)) (pos : Position)
    (outer free : Bool) (trail : Trail) :
    selectorSteps pos outer free trail (":global(".toList ++ inner) =
      selectorSteps pos true true .blank l ++
        selectorSteps pos outer free ((selectorSteps pos true true .blank l).foldl Trail.after trail) r := by
  have hd : Text.dropPrefix? ":global(".toList (':' :: ("global(".toList ++ inner)) = some inner :=
    Text.dropPrefix?_eq_some_iff.2 rfl
  change selectorSteps pos outer free trail (':' :: ("global(".toList ++ inner)) = _
  rw [selectorSteps.eq_3 _ _ _ _ _ _ (by simp), if_neg (by decide), if_neg (by decide), if_neg (by decide)]
  split
  case h_1 hd'   =>
    cases hd.symm.trans hd'
    split
    case h_1 hp' => cases hp.symm.trans hp'
    case h_2 hp' =>
      cases hp.symm.trans hp'
      rfl
  case h_2 hd' _ => cases hd.symm.trans hd'
  case h_3 hd' _ => cases hd.symm.trans hd'

theorem selectorSteps_globalParens (hb : Balanced s) (pos : Position) :
    selectorSteps pos false false .blank (globalParens s) = selectorSteps pos true true .blank s := by
  have hclosed : globalParens s = ":global(".toList ++ (s ++ ')' :: []) := List.append_assoc ..
  have hnil (trail : Trail) : selectorSteps pos false false trail [] = [] := selectorSteps.eq_1 ..
  rw [hclosed, selectorSteps_parens (takeParens?_close hb []), hnil, List.append_nil]

theorem selectorSteps_globalWord (pos : Position) (s : List Char) :
    selectorSteps pos false false .blank (globalWord s) =
      selectorSteps pos false true .blank (Text.trimStart s) := by
  have hd : dropPseudo? ":global".toList (':' :: ("global ".toList ++ s)) = some (' ' :: s) := rfl
  change selectorSteps pos false false .blank (':' :: ("global ".toList ++ s)) = _
  rw [selectorSteps.eq_3 _ _ _ _ _ _ (by simp), if_neg (by decide), if_neg (by decide), if_neg (by decide)]
  split
  case h_1 hp   => cases hp
  case h_2 _ hp => cases hp
  case h_3 =>
    split
    case h_1 hd'   =>
      cases hd.symm.trans hd'
      rfl
    case h_2 hd' _ => cases hd.symm.trans hd'
    case h_3 hd' _ => cases hd.symm.trans hd'

end

-- A rule in the two spellings of `:global`: in parentheses the selectors are written as they are, and
-- as a word what stands behind the white space is, up to the first comma. No class can be composed into.
theorem global_spellings {s : List Char} (hb : Balanced s) (hu : Unmarked s) (pos : Position) (file : String)
    (rename : String → Except Error String) {σ : Type} (resolve : String → ExceptT Error (StateM σ) Tokens)
    (p : Progress) (st : σ) :
    let steps (prelude : List Char) := selectorSteps pos false false .blank prelude
    let run (steps : List Step) (p : Progress) := (runSteps file rename resolve steps p).run.run st
    run (steps (globalParens s)) p = (.ok (p.write s), st) ∧
      composableClasses (globalParens s) (steps (globalParens s)) = [] ∧
      composableClasses (globalWord s) (steps (globalWord s)) = [] ∧
      ∃ a b, Text.trimStart s = a ++ b ∧ (b = [] ∨ a.getLast? = some ',') ∧
        run (steps (globalWord s)) p = run (selectorSteps pos false false .solid b) (p.write a) ∧
        ((∀ kind n, Step.name kind n ∉ selectorSteps pos false false .solid b) →
          run (steps (globalWord s)) p = (.ok (p.write (Text.trimStart s)), st)) := by
  have hclasses (t : List Char) (steps : List Step) : composableClasses (':' :: t) steps = [] := by
    rw [composableClasses, isClassList_cons (by decide) (by decide) (by decide)]
    rfl
  have hu' : Unmarked (Text.trimStart s) := hu.part (Text.trimStart_suffix s).isInfix
  dsimp only
  rw [selectorSteps_globalParens hb, selectorSteps_globalWord]
  refine ⟨(copies_selectorSteps hu pos .blank).run p st, hclasses .., hclasses .., ?_⟩
  obtain ⟨a, b, copying, hs, hcomma, hcopies, he⟩ := reaches_selectorSteps hu' pos false .blank
  rw [he]
  refine ⟨a, b, hs, hcomma, runSteps_texts hcopies.spells hcopies.texts, fun hn => ?_⟩
  have hb' : Unmarked b := hu'.part ⟨a, [], by rw [hs, List.append_nil]⟩
  have hall := hcopies.append (.of_nameless (spells_selectorSteps hb' pos false false .solid) hn)
  rw [hs]
  exact hall.run p st

-- Parentheses in which there is no comma.
theorem global_spellings_nested :
    let s := "li:not(.a) > #b".toList
    let steps (prelude : List Char) := selectorSteps ⟨1, 1⟩ false false .blank prelude
    let run (steps : List Step) (p : Progress) :=
      (runSteps "a.css" (fun n => .ok (underscored n)) nowhere steps p).run.run ()
    Balanced s ∧ Unmarked s ∧
      run (steps (globalParens s)) .start = (.ok (Progress.start.write s), ()) ∧
      run (steps (globalWord s)) .start = (.ok (Progress.start.write s), ()) ∧
      composableClasses (globalParens s) (steps (globalParens s)) = [] ∧
      composableClasses (globalWord s) (steps (globalWord s)) = [] := by
  intro s steps run
  have hb : Balanced s := by
    have hs : s = "li:not".toList ++ ('(' :: ".a".toList ++ ')' :: " > #b".toList) := by decide +kernel
    rw [hs]
    exact (Balanced.flat (by decide +kernel)).append (.group (.flat (by decide +kernel)) (.flat (by decide +kernel)))
  have hu : Unmarked s := ⟨by decide +kernel, by decide +kernel⟩
  have hcomma : ',' ∉ s := by decide +kernel
  have hstart : Text.trimStart s = s := by decide +kernel
  clear_value s
  have ⟨hparens, hclasses, hclasses', a, b, hs, hb', _, hword⟩ :=
    global_spellings hb hu ⟨1, 1⟩ "a.css" (fun n => .ok (underscored n)) nowhere .start ()
  rw [hstart] at hs hword
  refine ⟨hb, hu, hparens, hword fun kind n => ?_, hclasses, hclasses'⟩
  rcases hb' with rfl | ha
  case inl => simp [selectorSteps.eq_1]
  case inr => exact absurd (hs ▸ List.mem_append_left b (List.mem_of_getLast? ha)) hcomma

-- In the parentheses of another pseudo-class a comma ends what `:global` as a word says.
example :
    ((runSteps "a.css" (fun n => .ok (underscored n)) nowhere
      (selectorSteps ⟨1, 1⟩ false false .blank (globalWord ":is(.a, .b)".toList)) .start).run.run ()).1.map
        Progress.css = .ok ":is(.a, ._b)" := by
  decide +kernel

end ScopedCss.Scoping
