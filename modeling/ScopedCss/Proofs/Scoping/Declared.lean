import ScopedCss.Proofs.Scoping.Accumulated
import ScopedCss.Proofs.Scoping.Edits
import ScopedCss.Proofs.Scoping.Pieces

namespace ScopedCss.Scoping

-- What was learned of other files while some steps were run: it is what their specifiers resolve to.
structure Learned {σ : Type} (resolve : String → ExceptT Error (StateM σ) Tokens) (steps : List Step)
    (p : Progress) : Prop where
  known : ∀ specifier tokens, p.imported.get? specifier = some tokens →
    ∃ u v, (resolve specifier).run.run u = (.ok tokens, v)
  asked : ∀ step ∈ steps, ∀ specifier, step.specifier? = some specifier → p.imported.contains specifier = true

section

variable {file : String} {rename : String → Except Error String} {σ : Type}
  {resolve : String → ExceptT Error (StateM σ) Tokens} {steps : List Step} {step : Step} {p p' : Progress}

theorem Learned.start : Learned resolve [] .start where
  known _ _ h := by cases h
  asked _ h   := by cases h

theorem Learned.more (h : Learned resolve steps p) (ha : step.asks p = none)
    (hr : runKnown file rename p step = .ok p') : Learned resolve (steps ++ [step]) p' := by
  have hi := runKnown_imported ha hr
  refine ⟨hi ▸ h.known, fun step' hm => ?_⟩
  rw [hi]
  rcases List.mem_append.1 hm with hm | hm
  · exact h.asked step' hm
  · exact List.mem_singleton.1 hm ▸ Step.asks_eq_none.1 ha

theorem Learned.know {specifier : String} {tokens : Tokens} {u v : σ} (h : Learned resolve steps p)
    (hr : (resolve specifier).run.run u = (.ok tokens, v)) : Learned resolve steps (p.know specifier tokens) where
  known other found hk := by
    rw [Progress.know, Dict.get?_insert] at hk
    split at hk
    case isFalse    => exact h.known other found hk
    case isTrue heq =>
      cases hk
      exact heq ▸ ⟨u, v, hr⟩
  asked step hm other ho := by
    have hc := h.asked step hm other ho
    rw [Dict.contains] at hc ⊢
    rw [Progress.know, Dict.get?_insert]
    split
    case isTrue  => rfl
    case isFalse => exact hc

-- The lists of all names behind some steps, going by the exports that other files were found to have.
theorem exists_listed {s t : σ} (hp : Placed [] steps)
    (hr : (runSteps file rename resolve steps .start).run.run s = (.ok p, t)) :
    ∃ exported, Listed rename exported steps p ∧ ∀ step ∈ steps, ∀ specifier, step.specifier? = some specifier →
      ∃ u v, (resolve specifier).run.run u = (.ok (exported specifier), v) := by
  have ⟨hlearned, hlisted⟩ : Learned resolve steps p ∧ ∀ exported : String → Tokens,
      (∀ specifier tokens, p.imported.get? specifier = some tokens → exported specifier = tokens) →
        Listed rename exported steps p := by
    refine runSteps_induct (P := fun done q => Learned resolve done q ∧ ∀ exported : String → Tokens,
      (∀ specifier tokens, q.imported.get? specifier = some tokens → exported specifier = tokens) →
        Listed rename exported done q) ?known ?know (List.nil_append _).symm ⟨.start, fun _ _ => .start⟩ hr
    case known =>
      intro done rest step q q' he ⟨hlearned, h⟩ ha hk
      rw [he, List.append_cons] at hp
      refine ⟨hlearned.more ha hk, fun exported hx => ?_⟩
      rw [runKnown_imported ha hk] at hx
      exact (h exported hx).more (placed_append.1 hp).1 ha hk hx
    case know =>
      intro done q specifier tokens u v ⟨hlearned, h⟩ hn hres
      refine ⟨hlearned.know hres, fun exported hx => .know (h exported fun other found hk => ?_)⟩
      exact hx other found (Progress.get?_know hn hk)
  refine ⟨fun specifier => (p.imported.get? specifier).getD ∅, hlisted _ fun _ _ hk => ?_,
    fun step hm specifier hs => ?_⟩
  · rw [hk]
    rfl
  · obtain ⟨tokens, hk⟩ := Option.isSome_iff_exists.1 (hlearned.asked step hm specifier hs)
    dsimp only
    rw [hk]
    exact hlearned.known specifier tokens hk

-- The names that are exported behind some steps are the local ones.
theorem exports_get?_eq_none_iff {steps : List Step} {p : Progress} (hp : Placed [] steps)
    (hr : (runSteps file rename resolve steps .start).run.run s = (.ok p, t)) (n : String) :
    p.exports.get? n = none ↔ n ∉ localNames steps := by
  obtain ⟨exported, hl, _⟩ := exists_listed hp hr
  rw [hl.lists n]
  split
  case isTrue hn  => simp [hn]
  case isFalse hn => simp [hn]

end

-- Later declarations add behind what is there.
theorem prefix_accumulated {own : String → String} {exported : String → Tokens} (ds more : List Declaration)
    (c : String) : accumulated own exported ds c <+: accumulated own exported (ds ++ more) c := by
  induction more using List.reverseRecOn
  case nil => simp
  case append_singleton more d ih =>
    rw [← List.append_assoc, accumulated_append]
    exact ih.trans (List.prefix_append _ _)

-- What a declaration takes over stands in the lists of its classes behind what was there before.
theorem Listed.taken {rename : String → Except Error String} {exported : String → Tokens} {front rest : List Step}
    {step : Step} {d : Declaration} {p : Progress} {c : String} (h : Listed rename exported (front ++ step :: rest) p)
    (hp : Placed [] (front ++ step :: rest)) (hd : step.declaration? = some d) (hc : c ∈ d.targets) :
    ∃ more,
      let lists := accumulated (scopedName rename) exported (declarationsOf front)
      p.exports.get? c = some (lists c ++ d.names.flatMap (d.stand exported lists) ++ more) := by
  have hlocal : c ∈ localNames front := (hp.proper hd).written c hc
  have hds : declarationsOf (front ++ step :: rest) = declarationsOf front ++ [d] ++ declarationsOf rest := by
    have hstep : declarationsOf (step :: rest) = d :: declarationsOf rest := List.filterMap_cons_some hd
    rw [declarationsOf_append, hstep, List.append_cons]
  obtain ⟨more, hmore⟩ : accumulated (scopedName rename) exported (declarationsOf front ++ [d]) c <+:
      accumulated (scopedName rename) exported (declarationsOf (front ++ step :: rest)) c :=
    hds ▸ prefix_accumulated ..
  refine ⟨more, ?_⟩
  rw [h.lists c, localNames_append, if_pos (List.mem_append_left _ hlocal), ← hmore, accumulated_append,
    Declaration.adds, if_pos hc]

-- Comments, with the white space in front of each. One that begins with a slash is misread.
inductive Lead : List Char → Prop
  | nil : Lead []
  | comment {blanks body s : List Char} :
    (∀ c ∈ blanks, Text.isBlank c = true) → Text.IsBody body → body.head? ≠ some '/' → Lead s →
    Lead (blanks ++ comment body ++ s)

theorem dropComments_of_composesValue? {declaration value : List Char}
    (h : composesValue? declaration = some value) : dropComments declaration = declaration := by
  rw [dropComments]
  split
  case h_2 => rfl
  case h_1 hc =>
    have ⟨_, hopen, _⟩ := Option.bind_eq_some_iff.1 hc
    have ⟨_, hword, _⟩ := Option.bind_eq_some_iff.1 h
    rw [Text.dropPrefix?_eq_some_iff.1 hopen] at hword
    cases hword

theorem dropComments_lead {lead : List Char} (hl : Lead lead) (s : List Char) :
    dropComments (lead ++ s) = dropComments s := by
  induction hl
  case nil => rfl
  case comment blanks body lead hb hbody hslash _ ih =>
    have htrim : Text.trimStart (blanks ++ comment body ++ lead ++ s) = comment body ++ (lead ++ s) := by
      rw [List.append_assoc, List.append_assoc, Text.trimStart_blank hb, comment_append]
      rfl
    rw [dropComments]
    split
    case h_1 rest hr =>
      rw [htrim, dropComment?_comment hbody hslash] at hr
      cases hr
      exact ih
    case h_2 hr =>
      rw [htrim, dropComment?_comment hbody hslash] at hr
      cases hr

theorem splitComments_lead {lead declaration value : List Char} (hl : Lead lead)
    (hv : composesValue? declaration = some value) : splitComments (lead ++ declaration) = (lead, declaration) := by
  have hdrop : dropComments (lead ++ declaration) = declaration := by
    rw [dropComments_lead hl, dropComments_of_composesValue? hv]
  rw [splitComments, hdrop]
  simp

-- What is planned for a declaration and what stands behind it.
theorem planSegments_declaration (stack : List Block) (text : List Char) (pos : Position) (closes : Bool)
    (after : List Segment) :
    ∃ more, planSegments stack (.declaration text pos closes :: after) =
        declarationSteps stack text pos closes ++ more ∧
      (¬Fails more → Plans ((if closes then ['\x7d'] else []) ++ after.flatMap Segment.text) more) := by
  cases closes
  case false => exact ⟨_, rfl, plans_planSegments⟩
  case true  =>
    cases stack
    case nil  => exact ⟨_, rfl, fun hf => absurd ⟨_, _, .head _⟩ hf⟩
    case cons => exact ⟨_, rfl, fun hf => (plans_planSegments (not_fails_tail hf)).text ['\x7d']⟩

-- A `composes` declaration of a style sheet, with the comments in front of it.
structure ComposesDeclaration (css : List Char) where
  before      : List Segment
  lead        : List Char
  declaration : List Char
  value       : List Char
  pos         : Position
  closes      : Bool
  after       : List Segment
  segments    : Segment.ofText css = before ++ .declaration (lead ++ declaration) pos closes :: after
  isLead      : Lead lead
  value_eq    : composesValue? declaration = some value

namespace ComposesDeclaration

variable {css : List Char} (place : ComposesDeclaration css)

-- What is planned for the text in front of it.
def front : List Step :=
  planSegments [] place.before

-- The blocks that it stands in, the innermost first.
def blocks : List Block :=
  openBlocks [] place.before

-- The classes that it composes into, if the innermost block is that of a rule.
def classes? : Option (List String) :=
  place.blocks.head?.bind Block.rule

def composition : Composition :=
  .ofValue place.value

def behind : List Char :=
  (if place.closes then ['\x7d'] else []) ++ place.after.flatMap Segment.text

def steps : List Step :=
  declarationSteps place.blocks (place.lead ++ place.declaration) place.pos place.closes

theorem steps_of_some {classes : List String} (h : place.classes? = some classes) :
    place.steps = [composeStep classes place.value place.pos, .text place.lead,
      .text (lineBreaks place.declaration)] := by
  obtain ⟨⟨q, rule⟩, hblock, rfl⟩ := Option.bind_eq_some_iff.1 h
  obtain ⟨stack, hblocks⟩ := List.head?_eq_some_iff.1 hblock
  rw [steps, hblocks, declarationSteps, splitComments_lead place.isLead place.value_eq]
  dsimp only
  rw [place.value_eq]

-- In blocks of another kind it is taken for any declaration.
theorem steps_of_none (h : place.classes? = none) :
    place.steps = .text (place.lead ++ place.declaration) :: if place.closes then [] else [.text [';']] := by
  rw [steps, declarationSteps]
  dsimp only
  split
  case h_2 => rfl
  case h_1 hblocks =>
    rw [classes?, hblocks] at h
    cases h

theorem plan_eq :
    (Fails place.front ∧ planSegments [] (Segment.ofText css) = place.front) ∨
      ∃ more, planSegments [] (Segment.ofText css) = place.front ++ (place.steps ++ more) ∧
        (¬Fails more → Plans place.behind more) := by
  rw [place.segments]
  rcases planSegments_append [] place.before with hmore | ⟨hf, hmore⟩
  case inr => exact .inl ⟨hf, hmore _⟩
  case inl =>
    obtain ⟨more, he, hp⟩ := planSegments_declaration place.blocks (place.lead ++ place.declaration) place.pos
      place.closes place.after
    exact .inr ⟨more, (hmore _).trans (congrArg (place.front ++ ·) he), hp⟩

theorem not_fails_front (hf : ¬Fails (planSegments [] (Segment.ofText css))) : ¬Fails place.front := by
  rcases place.plan_eq with ⟨hfront, he⟩ | ⟨more, he, _⟩
  case inl => exact he ▸ hf
  case inr => exact not_fails_left (he ▸ hf)

section

variable {σ : Type} (rename : String → Except Error String) (resolve : String → ExceptT Error (StateM σ) Tokens)

-- Each of these classes is exported with what the names of the declaration stand for at that point, behind
-- what it had so far.
def Appends (classes : List String) (tokens : Tokens) : Prop :=
  ∃ exported : String → Tokens,
    (∀ specifier, place.composition.source = .file specifier →
      (∃ u v, (resolve specifier).run.run u = (.ok (exported specifier), v)) ∧
        ∀ name ∈ place.composition.names, ∃ value, (exported specifier).get? name = some value) ∧
    ∀ c ∈ classes, ∃ more,
      let lists := accumulated (scopedName rename) exported (declarationsOf place.front)
      let declaration : Declaration := ⟨classes, place.composition.names, place.composition.source⟩
      tokens.get? c = some (" ".intercalate
        (lists c ++ place.composition.names.flatMap (declaration.stand exported lists) ++ more))

end

end ComposesDeclaration

theorem composeStep_eq {targets : List String} {value : List Char} {pos : Position}
    (h : ¬Fails [composeStep targets value pos]) :
    targets ≠ [] ∧ (Composition.ofValue value).names ≠ [] ∧
      composeStep targets value pos =
        .compose targets (Composition.ofValue value).names (Composition.ofValue value).source pos := by
  unfold composeStep at h ⊢
  dsimp only at h ⊢
  split at h
  case isTrue => exact absurd ⟨_, _, .head _⟩ h
  case isFalse ht =>
    split at h
    case isTrue     => exact absurd ⟨_, _, .head _⟩ h
    case isFalse hn => exact ⟨ht, hn, by rw [if_neg ht, if_neg hn]⟩

section

variable {css file : String} {rename : String → Except Error String} {σ : Type}
  {resolve : String → ExceptT Error (StateM σ) Tokens} {s t : σ} {sheet : ScopedSheet}

-- What is exported where a declaration has been carried out.
theorem appends_of_plan_eq (place : ComposesDeclaration css.toList) {classes : List String} {more : List Step}
    (hc : place.classes? = some classes) (he : plan css = place.front ++ (place.steps ++ more))
    (hr : (scope css file rename resolve).run.run s = (.ok sheet, t)) :
    classes ≠ [] ∧ place.composition.names ≠ [] ∧ place.Appends rename resolve classes sheet.tokens := by
  obtain ⟨p, hrun, rfl⟩ := run_of_scope hr
  have hf := not_fails_of_runSteps hrun
  have hplaced := placed_plan css
  obtain ⟨exported, hl, hanswers⟩ := exists_listed hplaced hrun
  rw [place.steps_of_some hc, List.cons_append] at he
  rw [he] at hf hplaced hl hanswers
  obtain ⟨hclasses, hnames, hstep⟩ := composeStep_eq fun ⟨fault, pos, hm⟩ =>
    hf ⟨fault, pos, List.mem_append_right _ (List.mem_cons.2 (.inl (List.mem_singleton.1 hm)))⟩
  have hdeclaration : (composeStep classes place.value place.pos).declaration? =
      some ⟨classes, place.composition.names, place.composition.source⟩ := by
    rw [hstep]
    rfl
  refine ⟨hclasses, hnames, exported, fun specifier hs => ?_, fun c hm => ?_⟩
  case refine_1 =>
    have hspecifier : (composeStep classes place.value place.pos).specifier? = some specifier := by
      rw [hstep]
      change Step.specifier? (.compose _ _ place.composition.source _) = _
      rw [hs]
      rfl
    refine ⟨hanswers _ (List.mem_append_right _ (.head _)) specifier hspecifier, ?_⟩
    exact hl.supplied _ (List.mem_filterMap.2 ⟨_, List.mem_append_right _ (.head _), hdeclaration⟩) specifier hs
  case refine_2 =>
    obtain ⟨more, hlist⟩ := hl.taken hplaced hdeclaration hm
    refine ⟨more, ?_⟩
    rw [Progress.toSheet, Dict.get?_mapValues, hlist]
    rfl

-- A `composes` declaration right inside a rule is gone, but for its line breaks and the comments in front
-- of it, and its names are appended to those of the classes of the rule. Anywhere else it is left.
theorem scope_composes (place : ComposesDeclaration css.toList)
    (hr : (scope css file rename resolve).run.run s = (.ok sheet, t)) :
    ∃ u v, Edited rename (place.before.flatMap Segment.text) u ∧ Edited rename place.behind v ∧
      match place.classes? with
      | some classes =>
        sheet.css.toList = u ++ (place.lead ++ lineBreaks place.declaration) ++ v ∧ classes ≠ [] ∧
          place.composition.names ≠ [] ∧ place.Appends rename resolve classes sheet.tokens
      | none => sheet.css.toList = u ++ (place.lead ++ place.declaration ++ stopOf place.closes) ++ v := by
  have ⟨hf, hw⟩ := scope_writes hr
  rcases place.plan_eq with ⟨hfront, he⟩ | ⟨more, he, hplans⟩
  case inl =>
    rw [plan, he] at hf
    exact absurd hfront hf
  case inr =>
    change plan css = _ at he
    rw [he] at hf hw
    obtain ⟨u, w, hcss, hu, hw⟩ := hw.of_append
    obtain ⟨m, v, rfl, hm, hv⟩ := hw.of_append
    have hbefore := edited_of_plans (plans_planSegments (not_fails_left hf)) hu
    have hbehind := edited_of_plans (hplans (not_fails_right (not_fails_right hf))) hv
    refine ⟨u, v, hbefore, hbehind, ?_⟩
    rw [hcss, ← List.append_assoc]
    cases hc : place.classes?
    case none =>
      rw [place.steps_of_none hc] at hm
      obtain ⟨stop, rfl, hstop⟩ := hm.of_text
      have hstop : stop = stopOf place.closes := by
        cases hcloses : place.closes
        all_goals rw [hcloses] at hstop
        case false => exact hstop.of_only.text_eq
        case true  =>
          cases hstop
          rfl
      rw [hstop]
    case some classes =>
      refine ⟨?_, appends_of_plan_eq place hc he hr⟩
      rw [place.steps_of_some hc] at hm
      rw [hm.of_composed (piece?_composeStep ..)]

end

def nestedText : String :=
  ".b \x7b\x7d @media print \x7b .a \x7b /* c */ composes: b; top: 0 \x7d \x7d"

-- A rule in a container, and a declaration behind a comment.
def nestedPlace : ComposesDeclaration nestedText.toList where
  before      := [.blank [], .opening ".b ".toList ⟨1, 1⟩, .blank [], .declaration [] ⟨1, 5⟩ true, .blank [' '],
    .opening "@media print ".toList ⟨1, 7⟩, .blank [' '], .opening ".a ".toList ⟨1, 22⟩, .blank [' ']]
  lead        := [] ++ comment " c ".toList ++ []
  declaration := " composes: b".toList
  value       := ['b']
  pos         := ⟨1, 27⟩
  closes      := false
  after       := [.blank [' '], .declaration "top: 0 ".toList ⟨1, 48⟩ true, .blank [' '],
    .declaration [] ⟨1, 57⟩ true, .blank [], .tail []]
  segments    := by decide +kernel
  isLead      := .comment (List.forall_mem_nil _) (by decide +kernel) (by decide +kernel) .nil
  value_eq    := by decide +kernel

theorem scope_composes_nested :
    nestedPlace.classes? = some ["a"] ∧ ∃ sheet u v,
      (scope nestedText "ab.css" (fun n => .ok (underscored n)) nowhere).run.run () = (.ok sheet, ()) ∧
      sheet.css = "._b \x7b\x7d @media print \x7b ._a \x7b /* c */ top: 0 \x7d \x7d" ∧
      Edited (fun n => .ok (underscored n)) (nestedPlace.before.flatMap Segment.text) u ∧
      Edited (fun n => .ok (underscored n)) nestedPlace.behind v ∧
      sheet.css.toList = u ++ (nestedPlace.lead ++ lineBreaks nestedPlace.declaration) ++ v ∧
      nestedPlace.Appends (fun n => .ok (underscored n)) nowhere ["a"] sheet.tokens := by
  have hclasses : nestedPlace.classes? = some ["a"] := by decide +kernel
  have hok : ((scope nestedText "ab.css" (fun n => .ok (underscored n)) nowhere).run.run ()).1.map ScopedSheet.css =
      .ok "._b \x7b\x7d @media print \x7b ._a \x7b /* c */ top: 0 \x7d \x7d" := by
    decide +kernel
  obtain ⟨sheet, ⟨⟩, hr, hcss⟩ := Stateful.run_eq_of_map_eq hok
  obtain ⟨u, v, hu, hv, h⟩ := scope_composes nestedPlace hr
  rw [hclasses] at h
  exact ⟨hclasses, sheet, u, v, hr, hcss, hu, hv, h.1, h.2.2.2⟩

-- A container right around a declaration keeps it from being carried out.
example :
    ((scope ".b \x7b\x7d .a \x7b @media print \x7b composes: b; \x7d \x7d" "ab.css"
      (fun n => .ok (underscored n)) nowhere).run.run ()).1.map ScopedSheet.css =
        .ok "._b \x7b\x7d ._a \x7b @media print \x7b composes: b; \x7d \x7d" := by
  decide +kernel

end ScopedCss.Scoping
