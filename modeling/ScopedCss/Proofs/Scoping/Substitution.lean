import ScopedCss.Proofs.Scoping.Gaps
import ScopedCss.Proofs.Scoping.Pieces

namespace ScopedCss.Scoping

-- Names that can stand in the place of local ones: they are not empty and have no white space.
def Renaming (rename : String → String) : Prop :=
  ∀ n, Text.IsWord (rename n).toList

section

variable {rename : String → String} {steps : List Step} {file : String}

-- Behind a name, the text does not end in white space.
theorem Renaming.last_of_named (h : Renaming rename) (ht : steps.foldl Trail.after .blank = .named) :
    ∃ c, (written rename (piecesOf steps)).getLast? = some c ∧ Text.isBlank c = false := by
  induction steps using List.reverseRecOn
  case nil => cases ht
  case append_singleton steps step ih =>
    rw [List.foldl_append, List.foldl_cons, List.foldl_nil] at ht
    rw [piecesOf_append, written_append]
    cases step
    case name kind n =>
      have ⟨hn, hb⟩ := h n
      have hl := List.getLast?_eq_some_getLast hn
      refine ⟨_, ?_, hb _ (List.getLast_mem hn)⟩
      simp [piecesOf, Step.piece?, written, Piece.written, List.getLast?_append, hl]
    case text s =>
      simp only [Trail.after, Trail.ofText] at ht
      cases hs : s.getLast?
      case none =>
        rw [hs] at ht
        simpa [piecesOf, Step.piece?, written, Piece.written, List.getLast?_eq_none_iff.1 hs] using ih ht
      case some c =>
        simp only [hs] at ht
        split at ht <;> cases ht
    case gap s =>
      simp only [Trail.after] at ht
      split at ht
      case isTrue hs  => simpa [piecesOf, Step.piece?, written, Piece.written, hs] using ih ht
      case isFalse hs => cases ht
    -- What writes nothing changes nothing.
    all_goals
      rw [show piecesOf [_] = [] from rfl, show written rename [] = [] from rfl, List.append_nil]
      exact ih ht

theorem Renaming.settled (h : Renaming rename) (hg : Gapped .blank steps) : Settled rename steps := by
  intro before s after he
  subst he
  exact h.last_of_named ((gapped_append.1 hg).2.1 s rfl)

end

-- Results that come to the same either fail in the same way or both succeed.
theorem alike_of_map_eq {ε α β γ : Type} {f : α → γ} {g : β → γ} {x : Except ε α} {y : Except ε β}
    (h : x.map f = y.map g) :
    (∃ e, x = .error e ∧ y = .error e) ∨ ∃ a b, x = .ok a ∧ y = .ok b ∧ f a = g b := by
  cases x
  case error e =>
    cases y <;> cases h
    exact .inl ⟨e, rfl, rfl⟩
  case ok a =>
    cases y
    case error => cases h
    case ok b  => exact .inr ⟨a, b, rfl, rfl, Except.ok.inj h⟩

-- What a progress has in common with all others that differ in the chosen names only.
def Progress.outline (p : Progress) : List String × Dict Tokens :=
  (p.exports.keys, p.imported)

section

variable {f g : String → String} {p q : Progress} {step : Step} {file : String}

theorem get?_eq_none_iff_of_outline (h : p.outline = q.outline) (n : String) :
    p.exports.get? n = none ↔ q.exports.get? n = none := by
  have hk : p.exports.keys = q.exports.keys := congrArg Prod.fst h
  rw [Dict.get?_eq_none_iff, Dict.get?_eq_none_iff, hk]

theorem outline_writeName (h : p.outline = q.outline) (n full full' : String) :
    (p.writeName n full).outline = (q.writeName n full').outline := by
  have ⟨hk, hi⟩ := Prod.mk.inj h
  exact Prod.ext (by simp [Progress.outline, keys_writeName, hk]) hi

theorem outline_addNames (h : p.outline = q.outline) (targets names names' : List String) :
    (p.addNames targets names).outline = (q.addNames targets names').outline := by
  have ⟨hk, hi⟩ := Prod.mk.inj h
  exact Prod.ext (by simp [Progress.outline, addNames_keys, hk]) hi

-- Which name is missing shows where the names lead to something, not in what they lead to.
theorem expandNames_unit {look look' : String → Option (List String)}
    (h : ∀ n, look n = none ↔ look' n = none) (names : List String) :
    (expandNames look names).map (fun _ => ()) = (expandNames look' names).map (fun _ => ()) := by
  induction names
  case nil => rfl
  case cons n names ih =>
    unfold expandNames
    cases hn : look n
    case none => rw [(h n).1 hn]
    case some =>
      cases hn' : look' n
      case none => cases hn.symm.trans ((h n).2 hn')
      case some =>
        rcases alike_of_map_eq ih with ⟨_, hx, hy⟩ | ⟨_, _, hx, hy, _⟩
        all_goals rw [hx, hy]
        all_goals rfl

theorem runKnown_outline (h : p.outline = q.outline) (ha : step.asks p = none) :
    (runKnown file (fun n => .ok (f n)) p step).map Progress.outline =
      (runKnown file (fun n => .ok (g n)) q step).map Progress.outline := by
  have ⟨hk, hi⟩ := Prod.mk.inj h
  cases step
  case text s => exact congrArg Except.ok h
  case gap s =>
    have hgap (p : Progress) : (if p.endsInBlank then p else p.write s).outline = p.outline := by
      split <;> rfl
    exact congrArg Except.ok ((hgap p).trans (h.trans (hgap q).symm))
  case name kind n => exact congrArg Except.ok (outline_writeName h ..)
  case fail => rfl
  case compose targets names source pos =>
    cases source
    case everywhere => exact congrArg Except.ok (outline_addNames h ..)
    case sameFile =>
      have hx := expandNames_unit (get?_eq_none_iff_of_outline h) names
      rw [runKnown_sameFile, runKnown_sameFile]
      rcases alike_of_map_eq hx with ⟨_, hp, hq⟩ | ⟨_, _, hp, hq, _⟩
      all_goals rw [hp, hq]
      case inr => exact congrArg Except.ok (outline_addNames h ..)
    case file specifier =>
      have ⟨tokens, ht⟩ := Option.isSome_iff_exists.1 (Step.asks_eq_none.1 ha specifier rfl)
      rw [runKnown_file ht, runKnown_file (hi ▸ ht)]
      cases expandNames (wordsOf tokens) names
      case error => rfl
      case ok    => exact congrArg Except.ok (outline_addNames h ..)

-- Which files are asked for, whether the steps succeed, and what they export do not depend on the
-- chosen names.
theorem runSteps_outline (file : String) (h : p.outline = q.outline) {σ : Type}
    (resolve : String → ExceptT Error (StateM σ) Tokens) (steps : List Step) (s : σ) :
    Prod.map (Except.map Progress.outline) id
        ((runSteps file (fun n => .ok (f n)) resolve steps p).run.run s) =
      Prod.map (Except.map Progress.outline) id
        ((runSteps file (fun n => .ok (g n)) resolve steps q).run.run s) := by
  induction steps generalizing p q s
  case nil => exact congrArg (fun o => (Except.ok o, s)) h
  case cons step steps ih =>
    have hknown {p q : Progress} (h : p.outline = q.outline) (ha : step.asks p = none)
        (hb : step.asks q = none) (s : σ) :
        Prod.map (Except.map Progress.outline) id
            ((runSteps file (fun n => .ok (f n)) resolve (step :: steps) p).run.run s) =
          Prod.map (Except.map Progress.outline) id
            ((runSteps file (fun n => .ok (g n)) resolve (step :: steps) q).run.run s) := by
      rw [runSteps, runSteps, Stateful.run_bind, Stateful.run_bind, runStep_known ha, runStep_known hb]
      rcases alike_of_map_eq (runKnown_outline h ha) with ⟨_, hp, hq⟩ | ⟨_, _, hp, hq, hr⟩
      all_goals rw [hp, hq]
      case inl => rfl
      case inr => exact ih hr s
    have hasks : step.asks p = step.asks q := by
      unfold Step.asks
      rw [show p.imported = q.imported from congrArg Prod.snd h]
    cases ha : step.asks p
    case none => exact hknown h ha (hasks ▸ ha) s
    case some specifier =>
      have hb := hasks ▸ ha
      rw [runSteps, runSteps, runStep_asks ha, runStep_asks hb, bind_assoc, bind_assoc,
        Stateful.run_bind, Stateful.run_bind]
      rcases (resolve specifier).run.run s with ⟨e | tokens, s'⟩
      case error => rfl
      case ok =>
        obtain ⟨hk, hi⟩ := Prod.mk.inj h
        refine hknown ?_ (Step.asks_know ha) (Step.asks_know hb) s'
        exact Prod.ext hk (by simp [Progress.outline, Progress.know, hi])

end

-- A scoped style sheet is made of pieces: its text is that of the pieces with all local names
-- replaced, the local names are exported in the order in which they first occur, and the first word
-- of each value is that which the local name is replaced by.
structure Substitutes (pieces : List Piece) (rename : String → String) (sheet : ScopedSheet) : Prop where
  css   : sheet.css.toList = written rename pieces
  keys  : sheet.tokens.keys = (pieces.filterMap Piece.own?).eraseDups
  first : ∀ n value, sheet.tokens.get? n = some value →
    (Text.words value.toList).head? = some (rename n).toList

def Progress.toSheet (file : String) (p : Progress) : ScopedSheet where
  css       := p.css
  tokens    := p.exports.mapValues fun _ names => " ".intercalate names
  sourceMap := some (lineSourceMap file p.css)

theorem scope_run {css file : String} {rename : String → Except Error String} {σ : Type}
    {resolve : String → ExceptT Error (StateM σ) Tokens} (s : σ) :
    (scope css file rename resolve).run.run s =
      Prod.map (Except.map (Progress.toSheet file)) id
        ((runSteps file rename resolve (plan css) .start).run.run s) := by
  rw [scope, Stateful.run_bind]
  rcases (runSteps file rename resolve (plan css) .start).run.run s with ⟨_ | _, _⟩ <;> rfl

theorem Renaming.substitutes {rename : String → String} (h : Renaming rename) {steps : List Step}
    {p : Progress} (hw : Written rename steps p) {file : String} :
    Substitutes (piecesOf steps) rename (p.toSheet file) where
  css := hw.css
  keys := by
    rw [filterMap_own?_piecesOf, ← hw.keys]
    exact Dict.keys_mapValues ..
  first n value hv := by
    rw [Progress.toSheet, Dict.get?_mapValues] at hv
    have ⟨list, hl, he⟩ := Option.map_eq_some_iff.1 hv
    have ⟨rest, hr⟩ := List.head?_eq_some_iff.1 (hw.headed n list hl)
    rw [← he, hr]
    exact Text.head?_words_intercalate (h n) rest

-- For every text there are pieces such that, whatever the local names are replaced by, scoping fails
-- in the same way or comes to these pieces with all local names replaced. Which files are resolved
-- does not depend on the chosen names either.
theorem scope_substitutes (css file : String) :
    ∃ pieces : List Piece, ∀ (σ : Type) (resolve : String → ExceptT Error (StateM σ) Tokens) (s : σ), ∃ t,
      (∃ e, ∀ rename, Renaming rename →
        (scope css file (fun n => .ok (rename n)) resolve).run.run s = (.error e, t)) ∨
      ∀ rename, Renaming rename → ∃ sheet,
        (scope css file (fun n => .ok (rename n)) resolve).run.run s = (.ok sheet, t) ∧
          Substitutes pieces rename sheet := by
  refine ⟨piecesOf (plan css), fun σ resolve s => ?_⟩
  have hgaps : Gapped .blank (plan css) := gapped_planSegments ..
  -- One run, with each name left as it is, tells how all others go.
  rcases hrun : (runSteps file (fun n => .ok n) resolve (plan css) .start).run.run s with ⟨r, t⟩
  have halike (rename : String → String) :
      ∃ r', (runSteps file (fun n => .ok (rename n)) resolve (plan css) .start).run.run s = (r', t) ∧
        r.map Progress.outline = r'.map Progress.outline := by
    have hsame := runSteps_outline file (f := fun n => n) (g := rename) (p := .start) rfl resolve (plan css) s
    rw [hrun] at hsame
    have ⟨hr, ht⟩ := Prod.mk.inj hsame
    exact ⟨_, Prod.ext rfl ht.symm, hr⟩
  refine ⟨t, ?_⟩
  cases r
  case error e =>
    refine .inl ⟨e, fun rename _ => ?_⟩
    have ⟨r', hr, hs⟩ := halike rename
    rcases alike_of_map_eq hs with ⟨_, he, he'⟩ | ⟨_, _, he, _⟩
    all_goals cases he
    rw [scope_run, hr, he']
    rfl
  case ok p =>
    refine .inr fun rename h => ?_
    have ⟨r', hr, hs⟩ := halike rename
    rcases alike_of_map_eq hs with ⟨_, he, _⟩ | ⟨_, q, _, hq, _⟩
    case inl => cases he
    case inr =>
      rw [hq] at hr
      refine ⟨q.toSheet file, ?_, h.substitutes (.runSteps (h.settled hgaps) hr)⟩
      rw [scope_run, hr]
      rfl

def underscored (n : String) : String :=
  .ofList ('_' :: n.toList.filter (!Text.isBlank ·))

theorem renaming_underscored : Renaming underscored := by
  have hu : Text.isBlank '_' = false := by decide
  simp [Renaming, underscored, Text.IsWord, hu]

theorem scope_substitutes_underscored :
    Renaming underscored ∧ ∃ pieces sheet,
      (scope ".a, .b \x7b animation: a \x7d" "ab.css" (fun n => .ok (underscored n)) nowhere).run.run () =
        (.ok sheet, ()) ∧
      Substitutes pieces underscored sheet ∧ sheet.css = "._a, ._b \x7b animation: _a \x7d" := by
  have ⟨pieces, h⟩ := scope_substitutes ".a, .b \x7b animation: a \x7d" "ab.css"
  have hcss : ((scope ".a, .b \x7b animation: a \x7d" "ab.css" (fun n => .ok (underscored n))
      nowhere).run.run ()).1.map ScopedSheet.css = .ok "._a, ._b \x7b animation: _a \x7d" := by
    decide +kernel
  refine ⟨renaming_underscored, pieces, ?_⟩
  rcases h Unit nowhere () with ⟨_, ⟨_, hs⟩ | hs⟩
  case inl =>
    rw [hs _ renaming_underscored] at hcss
    cases hcss
  case inr =>
    have ⟨sheet, hr, hw⟩ := hs _ renaming_underscored
    rw [hr] at hcss
    exact ⟨sheet, hr, hw, Except.ok.inj hcss⟩

end ScopedCss.Scoping
