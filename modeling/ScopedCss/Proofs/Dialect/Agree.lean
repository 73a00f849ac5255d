import Mathlib.Data.List.Forall2
import ScopedCss.Proofs.Dialect.Brace
import ScopedCss.Proofs.Dialect.Indented
import ScopedCss.Proofs.Dialect.Reference

namespace ScopedCss.Dialect

mutual

-- What trees come to under selectors, and the variables behind them. No dialect has a part in it.
def Tree.outcome (selectors : List String) : Tree → Env → BlockOutput × Env
  | .declaration property value, env =>
    (.ofDeclaration (property.string ++ ": " ++ .ofList (value.resolved env.lookup) ++ ";"), env)
  | .definition name value, env =>
    (.empty, env.assign name.string (.ofList (value.resolved env.lookup)) false)
  | .rule selector children, env =>
    let inner := combineSelectors selectors selector.string
    let (output, env) := Tree.outcomes inner children env.push
    (.ofItems (output.toItems inner), env.pop)

def Tree.outcomes (selectors : List String) : List Tree → Env → BlockOutput × Env
  | [], env => (.empty, env)
  | tree :: rest, env =>
    let (first, env) := tree.outcome selectors env
    let (others, env) := Tree.outcomes selectors rest env
    (first.append others, env)

end

def Tree.css (trees : List Tree) : String :=
  Grammar.writeSheet [] ((Tree.outcomes [] trees Env.start.push).1.toItems [])

-- The same variables, under the names that a dialect stores them by.
structure Spelling.Stores (s : Spelling) (d stored : Dict String) : Prop where
  named  : ∀ n, stored.get? (.ofList (s.kept ++ n)) = d.get? (.ofList n)
  others : ∀ k, (∀ n, k ≠ s.kept ++ n) → stored.get? (.ofList k) = none

namespace Spelling.Stores

variable {s : Spelling} {d stored : Dict String}

theorem empty (s : Spelling) : s.Stores ∅ ∅ := ⟨fun _ => rfl, fun _ _ => rfl⟩

theorem insert (h : s.Stores d stored) (v : Variable) (value : String) :
    s.Stores (d.insert v.string value) (stored.insert (s.stored v) value) where
  named n := by
    simp only [Dict.get?_insert, Spelling.stored, Letters.string, h.named, String.ofList_inj,
      List.append_cancel_left_eq]
  others k hk := by
    have hn : String.ofList k ≠ s.stored v := by
      rw [Spelling.stored, ne_eq, String.ofList_inj]
      exact hk v.text
    rw [Dict.get?_insert, if_neg hn, h.others k hk]

theorem contains (h : s.Stores d stored) (v : Variable) :
    stored.contains (s.stored v) = d.contains v.string :=
  congrArg Option.isSome (h.named v.text)

end Spelling.Stores

namespace Env

variable {s : Spelling} {scopes stored : List (Dict String)}

theorem lookup_stored (h : List.Forall₂ s.Stores scopes stored) (n : List Char) :
    stored.findSome? (·.get? (.ofList (s.kept ++ n))) = scopes.findSome? (·.get? (.ofList n)) := by
  induction h
  case nil => rfl
  case cons h _ ih => simp only [List.findSome?_cons, h.named, ih]

theorem lookup_others (h : List.Forall₂ s.Stores scopes stored) {k : List Char}
    (hk : ∀ n, k ≠ s.kept ++ n) : stored.findSome? (·.get? (.ofList k)) = none := by
  induction h
  case nil => rfl
  case cons h _ ih => simp only [List.findSome?_cons, h.others k hk, ih]

theorem assignIn_stored (h : List.Forall₂ s.Stores scopes stored) (v : Variable) (value : String) :
    Option.Rel (List.Forall₂ s.Stores) (assignIn v.string value false scopes)
      (assignIn (s.stored v) value false stored) := by
  induction h
  case nil => exact .none
  case cons d d' ds ds' h hs ih =>
    simp only [assignIn, h.contains]
    split
    case isTrue => exact .some (.cons (h.insert v value) hs)
    case isFalse =>
      generalize assignIn v.string value false ds = scopes at ih ⊢
      generalize assignIn (s.stored v) value false ds' = stored at ih ⊢
      cases ih
      case some ih => exact .some (.cons h ih)
      case none    => exact .none

end Env

-- The same state of an evaluation, but for the names that variables are stored by.
structure Spelling.Agree (s : Spelling) (env stored : Env) : Prop where
  scopes  : List.Forall₂ s.Stores env.scopes stored.scopes
  hoisted : stored.hoisted = env.hoisted

namespace Spelling.Agree

variable {s : Spelling} {env stored : Env}

theorem start (s : Spelling) : s.Agree .start .start := ⟨.cons (.empty s) .nil, rfl⟩

theorem assign (h : s.Agree env stored) (v : Variable) (value : String) :
    s.Agree (env.assign v.string value false) (stored.assign (s.stored v) value false) := by
  have ⟨scopes, _⟩ := env
  have ⟨scopes', _⟩ := stored
  have hs : List.Forall₂ s.Stores scopes scopes' := h.scopes
  have ha := Env.assignIn_stored hs v value
  unfold Env.assign
  dsimp only
  generalize Env.assignIn v.string value false scopes = assigned at ha ⊢
  generalize Env.assignIn (s.stored v) value false scopes' = assigned' at ha ⊢
  cases ha
  case some ha => exact ⟨ha, h.hoisted⟩
  case none =>
    cases hs
    case nil        => exact h
    case cons hd hs => exact ⟨.cons (hd.insert v value) hs, h.hoisted⟩

theorem push (h : s.Agree env stored) : s.Agree env.push stored.push :=
  ⟨.cons (.empty s) h.scopes, h.hoisted⟩

theorem pop (h : s.Agree env stored) : s.Agree env.pop stored.pop := by
  have ⟨scopes, _⟩ := env
  have ⟨scopes', _⟩ := stored
  have hs : List.Forall₂ s.Stores scopes scopes' := h.scopes
  refine ⟨?_, h.hoisted⟩
  cases hs
  case nil        => exact .nil
  case cons hd hs => exact hs

-- A dialect reads values with the variables that it has stored.
theorem reads_sigil (h : s.Agree env stored) (hk : s.kept = []) :
    Reads s env.lookup stored.lookup (.sigil s.sign) := by
  refine .sigil (funext fun k => ?_)
  have := Env.lookup_stored h.scopes k.toList
  simpa [hk, Env.lookup] using this

theorem reads_bare (h : s.Agree env stored) (hs : s.sign = '$') (hk : s.kept = ['$']) :
    Reads s env.lookup stored.lookup .bare := by
  refine .bare hs (fun n => ?_) fun k hn => ?_
  · simpa [hk, Env.lookup] using Env.lookup_stored h.scopes n
  · refine Env.lookup_others h.scopes fun n he => hn ?_
    simp [he, hk]

end Spelling.Agree

-- Whatever has a value in a block keeps having one there.
def KeepsKeys (d later : Dict String) : Prop :=
  ∀ k, (d.get? k).isSome → (later.get? k).isSome

theorem keepsKeys_insert (d : Dict String) (name value : String) : KeepsKeys d (d.insert name value) := by
  intro k hk
  rw [Dict.get?_insert]
  split
  case isTrue  => rfl
  case isFalse => exact hk

def Env.Keeps (env later : Env) : Prop :=
  List.Forall₂ KeepsKeys env.scopes later.scopes

namespace Env.Keeps

variable {env env' env'' : Env} {scopes scopes' scopes'' : List (Dict String)}

theorem refl_scopes (scopes : List (Dict String)) : List.Forall₂ KeepsKeys scopes scopes :=
  List.forall₂_same.2 fun _ _ _ => id

theorem trans_scopes (h : List.Forall₂ KeepsKeys scopes scopes')
    (h' : List.Forall₂ KeepsKeys scopes' scopes'') : List.Forall₂ KeepsKeys scopes scopes'' := by
  induction h generalizing scopes''
  case nil => exact h'
  case cons hd _ ih =>
    cases h'
    case cons hd' hs' => exact .cons (fun k hk => hd' k (hd k hk)) (ih hs')

theorem trans (h : env.Keeps env') (h' : env'.Keeps env'') : env.Keeps env'' :=
  trans_scopes h h'

theorem assignIn {name value : String} (h : assignIn name value false scopes = some scopes') :
    List.Forall₂ KeepsKeys scopes scopes' := by
  induction scopes generalizing scopes'
  case nil => cases h
  case cons d ds ih =>
    simp only [Env.assignIn] at h
    split at h
    case isTrue =>
      cases h
      exact .cons (keepsKeys_insert d name value) (refl_scopes ds)
    case isFalse =>
      have ⟨ds', hs, he⟩ := Option.map_eq_some_iff.1 h
      exact he ▸ .cons (fun _ => id) (ih hs)

theorem assign (env : Env) (name value : String) : env.Keeps (env.assign name value false) := by
  unfold Env.assign
  split
  case h_1 h => exact Keeps.assignIn h
  case h_2 =>
    split
    case h_1          => exact refl_scopes env.scopes
    case h_2 d ds hds =>
      rw [Keeps, hds]
      exact .cons (keepsKeys_insert d name value) (refl_scopes ds)

theorem pop (h : env.push.Keeps env') : env.Keeps env'.pop := by
  have ⟨scopes, _⟩ := env'
  have h : List.Forall₂ KeepsKeys (∅ :: env.scopes) scopes := h
  cases h
  case cons hs => exact hs

theorem lookup (h : env.Keeps env') {k : String} (hk : (env.lookup k).isSome) :
    (env'.lookup k).isSome := by
  have ⟨scopes, _⟩ := env
  have ⟨scopes', _⟩ := env'
  have h : List.Forall₂ KeepsKeys scopes scopes' := h
  simp only [Env.lookup, List.findSome?_isSome_iff] at hk ⊢
  induction h
  case nil => exact hk
  case cons hd hs ih =>
    simp only [List.mem_cons, exists_eq_or_imp] at hk ⊢
    exact hk.imp (hd k) (ih hs)

end Env.Keeps

namespace Tree

theorem outcomes_keeps (selectors : List String) (trees : List Tree) (env : Env) :
    env.Keeps (outcomes selectors trees env).2 := by
  induction trees using forest generalizing selectors env
  case nil => exact Env.Keeps.refl_scopes env.scopes
  case declaration property value trees ih => exact ih selectors env
  case definition name value trees ih => exact (Env.Keeps.assign ..).trans (ih selectors _)
  case rule selector children trees ihc iht => exact (ihc _ _).pop.trans (iht selectors _)

theorem outcomes_hoisted (selectors : List String) (trees : List Tree) (env : Env) :
    (outcomes selectors trees env).2.hoisted = env.hoisted := by
  induction trees using forest generalizing selectors env
  case nil => rfl
  case declaration property value trees ih => exact ih selectors env
  case definition name value trees ih =>
    refine (ih selectors _).trans ?_
    unfold Env.assign
    split
    case h_1 => rfl
    case h_2 => split <;> rfl
  case rule selector children trees ihc iht => exact (iht selectors _).trans (ihc _ _)

end Tree

namespace Env

theorem assignIn_lookup {name value : String} {scopes scopes' : List (Dict String)}
    (h : assignIn name value false scopes = some scopes') :
    scopes'.findSome? (·.get? name) = some value := by
  induction scopes generalizing scopes'
  case nil => cases h
  case cons d ds ih =>
    simp only [assignIn] at h
    split at h
    case isTrue =>
      cases h
      simp
    case isFalse hd =>
      have ⟨ds', hs, he⟩ := Option.map_eq_some_iff.1 h
      have hd : d.get? name = none := by simpa [Dict.contains] using hd
      rw [← he, List.findSome?_cons, hd]
      exact ih hs

theorem lookup_assign {env : Env} (h : env.scopes ≠ []) (name value : String) :
    (env.assign name value false).lookup name = some value := by
  unfold assign lookup
  split
  case h_1 ha => exact assignIn_lookup ha
  case h_2 =>
    split
    case h_1 hs => exact absurd hs h
    case h_2    => simp

theorem Keeps.ne_nil {env env' : Env} (h : env.Keeps env') (hn : env.scopes ≠ []) : env'.scopes ≠ [] := by
  have hl : env.scopes.length = env'.scopes.length := List.Forall₂.length_eq h
  rw [← List.length_pos_iff] at hn ⊢
  exact hl ▸ hn

end Env

namespace Node

variable {n : Node} {property name value selector : String} {fallback : Bool} {children : List Node}
  {pos : Position}

theorem eq_declaration (h : n.unplaced = .declaration property value .start) :
    ∃ pos, n = .declaration property value pos := by
  cases n
  case declaration =>
    cases h
    exact ⟨_, rfl⟩
  all_goals cases h

theorem eq_definition (h : n.unplaced = .definition name value fallback .start) :
    ∃ pos, n = .definition name value fallback pos := by
  cases n
  case definition =>
    cases h
    exact ⟨_, rfl⟩
  all_goals cases h

theorem eq_rule (h : n.unplaced = .rule selector children .start) :
    ∃ children' pos, n = .rule selector children' pos ∧ allUnplaced children' = children := by
  cases n
  case rule =>
    cases h
    exact ⟨_, _, rfl, rfl⟩
  all_goals cases h

theorem eq_cons {nodes rest : List Node} (h : allUnplaced nodes = n :: rest) :
    ∃ n' rest', nodes = n' :: rest' ∧ n'.unplaced = n ∧ allUnplaced rest' = rest := by
  cases nodes
  case nil => cases h
  case cons n' rest' =>
    cases h
    exact ⟨n', rest', rfl, rfl, rfl⟩

end Node

namespace Grammar

variable {m : Type → Type} [Monad m] [LawfulMonad m]

theorem run_bind_ok {α β : Type} {x : Eval m α} {f : α → Eval m β} {env env' : Env} {a : α}
    (h : x.run.run env = pure (.ok a, env')) : (x >>= f).run.run env = (f a).run.run env' := by
  rw [ExceptT.run_bind, StateT.run_bind, h, pure_bind]

theorem run_get (env : Env) : (get : Eval m Env).run.run env = pure (.ok env, env) := by
  have h : (get : StateT Env m Env).run env = pure (env, env) := StateT.run_get env
  change (do let (a, env) ← (get : StateT Env m Env).run env; pure (Except.ok a, env) : m _) = _
  rw [h, pure_bind]

theorem run_modify (f : Env → Env) (env : Env) :
    (modify f : Eval m PUnit).run.run env = pure (.ok ⟨⟩, f env) := by
  have h : (modify f : StateT Env m PUnit).run env = pure (⟨⟩, f env) := StateT.run_modify f env
  change (do let (a, env) ← (modify f : StateT Env m PUnit).run env; pure (Except.ok a, env) : m _) = _
  rw [h, pure_bind]

theorem run_lift (g : Grammar) (file : String) (pos : Position) {f : Values → Except Fault (List Char)}
    {env : Env} {t : List Char} (h : f env.lookup = .ok t) :
    (g.lift file pos f : Eval m String).run.run env = pure (.ok (.ofList t), env) := by
  rw [lift, run_bind_ok (run_get env), h]
  rfl

theorem run_inBlock {act : Eval m BlockOutput} {env env' : Env} {result : Except Error BlockOutput}
    (h : act.run.run env.push = pure (result, env')) :
    (inBlock act).run.run env = pure (result, env'.pop) := by
  change (do
    modify Env.push
    let result ← act.run
    modify Env.pop
    pure result : StateT Env m _).run env = _
  simp [StateT.run_bind, StateT.run_modify, h]

theorem run_interpolated (g : Grammar) (file : String) (pos : Position) {p : Char → Bool} (l : Letters p)
    (hp : ∀ c, p c = true → isQuiet c = true) (env : Env) :
    (g.interpolated file pos l.string : Eval m String).run.run env = pure (.ok l.string, env) := by
  refine run_lift g file pos ?_
  rw [Letters.string, String.toList_ofList]
  exact interpolate_quiet fun c hc => hp c (l.all c hc)

theorem run_substituted {g : Grammar} {s : Spelling} {env stored : Env}
    (h : Reads s env.lookup stored.lookup g.style) (file : String) (pos : Position) {v : Value}
    (hv : v.Resolvable env.lookup) :
    (g.substituted file pos (.ofList (s.value v)) : Eval m String).run.run stored =
      pure (.ok (.ofList (v.resolved env.lookup)), stored) := by
  refine run_lift g file pos ?_
  rw [String.toList_ofList]
  exact substitute_value h hv

-- Trees come to the same in every dialect that reads values with the variables that it has stored.
theorem run_evalNodes {g : Grammar} {s : Spelling}
    (hg : ∀ {env stored}, s.Agree env stored → Reads s env.lookup stored.lookup g.style)
    (including : Include m) (file : String) {known : List Variable} {trees : List Tree}
    (hw : Tree.AllWellFormed known trees) {nodes : List Node} (hn : Node.allUnplaced nodes = s.nodes trees)
    (selectors : List String) {env stored : Env} (h : s.Agree env stored) (he : env.scopes ≠ [])
    (hk : ∀ v ∈ known, (env.lookup v.string).isSome) :
    ∃ stored', s.Agree (Tree.outcomes selectors trees env).2 stored' ∧
      (evalNodes g including file selectors nodes).run.run stored =
        pure (.ok (Tree.outcomes selectors trees env).1, stored') := by
  induction trees using Tree.forest generalizing known nodes selectors env stored
  case nil => 
    cases nodes
    case nil  => exact ⟨stored, h, by simp only [evalNodes]; rfl⟩
    case cons => cases hn
  case declaration property value trees ih =>
    obtain ⟨n, rest, hc, hu, ht⟩ := Node.eq_cons hn
    obtain ⟨pos, hp⟩ := Node.eq_declaration hu
    subst hc hp
    have hv : value.Resolvable env.lookup := fun v hm => hk v (hw.1 v hm)
    have hi := run_interpolated (m := m) g file pos property (fun _ => isQuiet_of_isPropertyChar) stored
    have hs := run_substituted (m := m) (hg h) file pos hv
    obtain ⟨stored', h', hr⟩ := ih hw.2 ht selectors h he hk
    have hd : (evalNode g including file selectors
          (.declaration property.string (.ofList (s.value value)) pos)).run.run stored =
        pure (.ok (Tree.outcome selectors (.declaration property value) env).1, stored) := by
      simp only [evalNode]
      rw [run_bind_ok hi, run_bind_ok hs]
      rfl
    refine ⟨stored', h', ?_⟩
    simp only [evalNodes]
    rw [run_bind_ok hd, run_bind_ok hr]
    rfl
  case definition name value trees ih =>
    obtain ⟨n, rest, hc, hu, ht⟩ := Node.eq_cons hn
    obtain ⟨pos, hp⟩ := Node.eq_definition hu
    subst hc hp
    have hv : value.Resolvable env.lookup := fun v hm => hk v (hw.1 v hm)
    have hs := run_substituted (m := m) (hg h) file pos hv
    have ha := h.assign name (.ofList (value.resolved env.lookup))
    have hkeep := Env.Keeps.assign env name.string (.ofList (value.resolved env.lookup))
    have hk' : ∀ v ∈ [name] ++ known,
        ((env.assign name.string (.ofList (value.resolved env.lookup)) false).lookup v.string).isSome := by
      intro v hm
      cases List.mem_cons.1 hm
      case inl hv => rw [hv, Env.lookup_assign he]; rfl
      case inr hm => exact hkeep.lookup (hk v hm)
    obtain ⟨stored', h', hr⟩ := ih hw.2 ht selectors ha (hkeep.ne_nil he) hk'
    have hd : (evalNode g including file selectors
          (.definition (s.stored name) (.ofList (s.value value)) false pos)).run.run stored =
        pure (.ok .empty, stored.assign (s.stored name) (.ofList (value.resolved env.lookup)) false) := by
      simp only [evalNode]
      rw [run_bind_ok hs, run_bind_ok (run_modify _ stored)]
      rfl
    refine ⟨stored', h', ?_⟩
    simp only [evalNodes]
    rw [run_bind_ok hd, run_bind_ok hr]
    rfl
  case rule selector children trees ihc iht =>
    obtain ⟨n, rest, hc, hu, ht⟩ := Node.eq_cons hn
    obtain ⟨inner, pos, hp, hin⟩ := Node.eq_rule hu
    subst hc hp
    obtain ⟨⟨_, hwc⟩, hwt⟩ := hw
    have hi := run_interpolated (m := m) g file pos selector.toLetters (fun _ => isQuiet_of_isSelectorChar) stored
    have hpush : ∀ v ∈ known, (env.push.lookup v.string).isSome := hk
    obtain ⟨stored', h', hr⟩ :=
      ihc hwc hin (combineSelectors selectors selector.string) h.push (List.cons_ne_nil _ _) hpush
    have hkeep := (Tree.outcomes_keeps (combineSelectors selectors selector.string) children env.push).pop
    obtain ⟨stored'', h'', hr'⟩ :=
      iht hwt ht selectors h'.pop (hkeep.ne_nil he) fun v hm => hkeep.lookup (hk v hm)
    have hd : (evalNode g including file selectors (.rule selector.string inner pos)).run.run stored =
        pure (.ok (Tree.outcome selectors (.rule selector children) env).1, stored'.pop) := by
      simp only [evalNode]
      rw [run_bind_ok hi, run_bind_ok (run_inBlock hr)]
      rfl
    refine ⟨stored'', h'', ?_⟩
    simp only [evalNodes]
    rw [run_bind_ok hd, run_bind_ok hr']
    rfl

theorem evaluate_eq {g : Grammar} {s : Spelling}
    (hg : ∀ {env stored}, s.Agree env stored → Reads s env.lookup stored.lookup g.style)
    (importer : String → String → ExceptT Error m Imported) (file : String) {trees : List Tree}
    (hw : Tree.AllWellFormed [] trees) {nodes : List Node} (hn : Node.allUnplaced nodes = s.nodes trees) :
    g.evaluate importer file nodes = pure (Tree.css trees) := by
  have ⟨stored, h, hr⟩ := run_evalNodes hg (g.includeFile importer (maxOpenFiles - 1) file) file hw hn []
    (Spelling.Agree.start s).push (List.cons_ne_nil _ _) (by simp)
  have hh : stored.pop.hoisted = [] := h.hoisted.trans (Tree.outcomes_hoisted [] trees _)
  have hb := run_inBlock hr
  simp only [evaluate]
  rw [hb, pure_bind, hh]
  rfl

end Grammar

end Dialect

namespace Dialect

open Dialect

theorem parse_written (d : Dialect) {trees : List Tree} (h : Tree.AllWellFormed [] trees) :
    ∃ nodes, d.grammar.parse (d.written trees) = .ok nodes ∧ Node.allUnplaced nodes = d.spelling.nodes trees := by
  cases d
  case sass   => exact Brace.parse_allBraced (spelling sass) rfl trees
  case less   => exact Brace.parse_allBraced (spelling less) rfl trees
  case stylus => exact Indented.parse_indented rfl rfl h

theorem reads (d : Dialect) {env stored : Env} (h : d.spelling.Agree env stored) :
    Reads d.spelling env.lookup stored.lookup d.grammar.style := by
  cases d
  case sass   => exact h.reads_sigil rfl
  case less   => exact h.reads_sigil rfl
  case stylus => exact h.reads_bare rfl rfl

-- The dialects agree: each reads the trees that were written in it as they are, and what it renders
-- them to is the same for all of them.
theorem render_written {trees : List Tree} (h : Tree.AllWellFormed [] trees) (d : Dialect)
    {m : Type → Type} [Monad m] [LawfulMonad m] (importer : String → String → ExceptT Error m Imported)
    (file : String) :
    (∃ nodes, d.grammar.parse (d.written trees) = .ok nodes ∧
      Node.allUnplaced nodes = d.spelling.nodes trees) ∧
    d.grammar.render importer file (.ofList (d.written trees)) = pure (Tree.css trees) := by
  have ⟨nodes, hp, hu⟩ := d.parse_written h
  refine ⟨⟨nodes, hp, hu⟩, ?_⟩
  rw [Grammar.render, String.toList_ofList, hp]
  exact Grammar.evaluate_eq d.reads importer file h hu

-- A variable, a rule that uses it, and a rule in that.
def button : List Tree :=
  let main : Variable := ⟨"main".toList, by decide, by decide⟩
  let color : Property := ⟨"color".toList, by decide, by decide⟩
  let red : Value := ⟨[.plain ⟨"red".toList, by decide, by decide⟩], by simp⟩
  let uses : Value := ⟨[.reference main], by simp⟩
  [.definition main red,
    .rule ⟨⟨".button".toList, by decide, by decide⟩, by decide⟩ [
      .declaration color uses,
      .rule ⟨⟨"&:hover".toList, by decide, by decide⟩, by decide⟩ [.declaration color red]]]

theorem render_written_button :
    Tree.AllWellFormed [] button ∧
      ∀ d : Dialect,
        d.grammar.render (fun _ _ => throw (.fileNotFound "") : String → String → ExceptT Error Id Imported)
          "button" (.ofList (d.written button)) =
            pure ".button \x7b\n  color: red;\n\x7d\n.button:hover \x7b\n  color: red;\n\x7d\n" := by
  have h : Tree.AllWellFormed [] button := by
    simp [button, Tree.AllWellFormed, Tree.WellFormed, Value.RefersTo, Tree.defined]
  have hc : Tree.css button = ".button \x7b\n  color: red;\n\x7d\n.button:hover \x7b\n  color: red;\n\x7d\n" := by
    decide +kernel
  exact ⟨h, fun d => hc ▸ (render_written h d _ "button").2⟩

end Dialect

end ScopedCss
