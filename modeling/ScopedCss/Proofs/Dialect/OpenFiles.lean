import Mathlib.Logic.Relation
import ScopedCss.Dialect.Registry
import ScopedCss.Proofs.Related
import ScopedCss.Proofs.Stateful

namespace ScopedCss.Dialect

-- An importer that gives one file, or one error, for each specifier in each importing file.
abbrev Answers := String → String → Except Error Imported

def Answers.importer {m : Type → Type} [Monad m] (answers : Answers) :
    String → String → ExceptT Error m Imported :=
  fun specifier importing => ExceptT.mk (pure (answers specifier importing))

-- The paths of the files that are open at a time, the innermost first.
abbrev OpenFiles := List String

-- Every stack of open files that there has been.
abbrev Watched := StateM (List OpenFiles)

namespace Grammar

def note (stack : OpenFiles) : Eval Watched PUnit :=
  modifyThe (List OpenFiles) (· ++ [stack])

-- Includes a file while the importing one is open, and those behind it. Nothing but the height of the
-- stack ends this.
def includeOnto (g : Grammar) (answers : Answers) (file : String) (outer : OpenFiles) : Include Watched :=
  fun specifier pos selectors =>
    if _h : maxOpenFiles ≤ (file :: outer).length then
      throw (g.fail file (.importTooDeep specifier) pos)
    else do
      let imported ← g.load answers.importer file specifier pos
      match g.parse imported.source.toList with
      | .ok nodes    =>
        note (imported.path :: file :: outer)
        evalNodes g (includeOnto g answers imported.path (file :: outer)) imported.path selectors nodes
      | .error fault => throw (fault.toError g.stage imported.path)
termination_by maxOpenFiles - outer.length
decreasing_by
  simp only [List.length_cons] at _h ⊢
  omega

-- Renders a style sheet with its open files on a stack.
def renderOnto (g : Grammar) (answers : Answers) (file source : String) :
    Except Error String × List OpenFiles :=
  match g.parse source.toList with
  | .error fault => (.error (fault.toError g.stage file), [])
  | .ok nodes    =>
    let root : Eval Watched BlockOutput := inBlock (evalNodes g (g.includeOnto answers file []) file [] nodes)
    let ((result, env), opened) := (root.run.run .start).run [[file]]
    (result.map fun output => writeSheet env.hoisted (output.toItems []), opened)

-- What is watched does not tell on the outcome.
def unwatched : Related Watched Id where
  Rel x y := ∀ l, (x.run l).1 = y.run
  pure _ _ := rfl
  bind {_ _ x y f g} hx hf l := by
    have h : ((x >>= f).run l).1 = ((f (x.run l).1).run (x.run l).2).1 := rfl
    rw [h, hx]
    exact hf _ _

-- All stacks there have been are low enough.
def keepsLow : Related Watched Watched :=
  .keeps
    (fun l l' => (∀ stack ∈ l, stack.length ≤ maxOpenFiles) → ∀ stack ∈ l', stack.length ≤ maxOpenFiles)
    (fun _ => id) (fun _ _ _ h h' => h' ∘ h)

variable {g : Grammar} {answers : Answers}

theorem includeOnto_unwatched (g : Grammar) (answers : Answers) (budget : Nat) (file : String) (outer : OpenFiles)
    (h : budget + outer.length + 1 = maxOpenFiles) (specifier : String) (pos : Position)
    (selectors : List String) :
    (EvalRelated.ofRelated unwatched).Rel (g.includeOnto answers file outer specifier pos selectors)
      (g.includeFile answers.importer budget file specifier pos selectors) := by
  induction budget generalizing file outer specifier pos selectors
  case zero =>
    have hfull : maxOpenFiles ≤ (file :: outer).length := by simp only [List.length_cons]; omega
    rw [includeOnto, dif_pos hfull]
    exact (EvalRelated.ofRelated unwatched).throw _
  case succ budget ih =>
    have hroom : ¬maxOpenFiles ≤ (file :: outer).length := by simp only [List.length_cons]; omega
    rw [includeOnto, dif_neg hroom]
    refine (EvalRelated.ofRelated unwatched).bind
      (load_related g unwatched (fun _ _ _ => rfl) file specifier pos) fun imported => ?_
    cases g.parse imported.source.toList
    case error => exact (EvalRelated.ofRelated unwatched).throw _
    case ok nodes =>
      have hopen : budget + (file :: outer).length + 1 = maxOpenFiles := by
        simp only [List.length_cons]
        omega
      have hnodes := evalNodes_related g (.ofRelated unwatched) (lift_related g _ imported.path)
        (ih imported.path (file :: outer) hopen) selectors nodes
      exact fun env l => hnodes env (l ++ [imported.path :: file :: outer])

theorem includeOnto_low (g : Grammar) (answers : Answers) (file : String) (outer : OpenFiles) (specifier : String)
    (pos : Position) (selectors : List String) :
    (EvalRelated.ofRelated keepsLow).Rel (g.includeOnto answers file outer specifier pos selectors)
      (g.includeOnto answers file outer specifier pos selectors) := by
  fun_induction includeOnto g answers file outer specifier pos selectors
  case case1 => exact (EvalRelated.ofRelated keepsLow).throw _
  case case2 file outer specifier pos selectors hroom ih =>
    refine (EvalRelated.ofRelated keepsLow).bind
      (load_related g keepsLow (fun _ _ _ => id) file specifier pos) fun imported => ?_
    cases g.parse imported.source.toList
    case error => exact (EvalRelated.ofRelated keepsLow).throw _
    case ok nodes =>
      have hnodes := evalNodes_related g (.ofRelated keepsLow) (lift_related g _ imported.path) (ih imported)
        selectors nodes
      refine fun env l hlow => hnodes env (l ++ [imported.path :: file :: outer]) fun stack hm => ?_
      rcases List.mem_append.1 hm with hm | hm
      · exact hlow stack hm
      · rw [List.mem_singleton.1 hm, List.length_cons]
        omega

theorem renderOnto_eq (answers : Answers) (file source : String) :
    (g.renderOnto answers file source).1 = (g.render answers.importer file source : ExceptT Error Id String).run := by
  unfold renderOnto render
  cases g.parse source.toList
  case error => rfl
  case ok nodes =>
    have hroot := (EvalRelated.ofRelated unwatched).inBlock <| evalNodes_related g (.ofRelated unwatched)
      (lift_related g _ file) (includeOnto_unwatched g answers (maxOpenFiles - 1) file [] rfl) [] nodes
    exact congrArg (fun ended : Except Error BlockOutput × Env =>
      ended.1.map fun output => writeSheet ended.2.hoisted (output.toItems [])) (hroot .start [[file]])

theorem renderOnto_low (answers : Answers) (file source : String) :
    ∀ stack ∈ (g.renderOnto answers file source).2, stack.length ≤ maxOpenFiles := by
  unfold renderOnto
  cases g.parse source.toList
  case error => simp
  case ok nodes =>
    have hroot := (EvalRelated.ofRelated keepsLow).inBlock <| evalNodes_related g (.ofRelated keepsLow)
      (lift_related g _ file) (includeOnto_low g answers file []) [] nodes
    refine hroot .start [[file]] fun stack hm => ?_
    rw [List.mem_singleton.1 hm]
    exact Nat.le_of_ble_eq_true rfl

end Grammar

-- The file that a target of an import names.
def specifierOf (target : String) : String :=
  .ofList (Text.unquote target.toList)

mutual

-- What the imports of a node name, in whatever blocks they are, but for what is left to the browser.
def Node.included : Node → List String
  | .imports targets _                         =>
    (targets.filter fun target => !isPlainImport target (specifierOf target)).map specifierOf
  | .rule _ children _ | .atBlock _ _ children _ => Node.allIncluded children
  | .declaration ..                            => []
  | .definition ..                             => []
  | .atStatement ..                            => []

def Node.allIncluded : List Node → List String
  | []           => []
  | node :: rest => node.included ++ Node.allIncluded rest

end

-- The evaluation has a result in some state.
def Succeeds {α : Type} (x : Eval Id α) : Prop :=
  ∃ env a env', x.run.run env = (.ok a, env')

namespace Succeeds

variable {α β : Type} {x : Eval Id α} {f : α → Eval Id β}

theorem of_bind (h : Succeeds (x >>= f)) : Succeeds x ∧ ∃ a, Succeeds (f a) := by
  obtain ⟨env, b, env', h⟩ := h
  rw [Stateful.run_bind] at h
  rcases hx : x.run.run env with ⟨e | a, env₁⟩
  all_goals rw [hx] at h
  case error => cases h
  case ok    => exact ⟨⟨env, a, env₁, hx⟩, a, env₁, b, env', h⟩

theorem of_inBlock (h : Succeeds (Grammar.inBlock x)) : Succeeds x := by
  obtain ⟨env, a, env', h⟩ := h
  have hr : (x.run.run env.push).1 = .ok a := congrArg Prod.fst h
  exact ⟨env.push, a, _, Prod.ext hr rfl⟩

end Succeeds

namespace Grammar

variable {g : Grammar} {answers : Answers} {including : Include Id} {file : String} {selectors : List String}

-- The file is included somewhere.
def Included (including : Include Id) (specifier : String) : Prop :=
  ∃ pos selectors, Succeeds (including specifier pos selectors)

theorem included_of_evalImports {pos : Position} {targets : List String}
    (h : Succeeds (evalImports including pos selectors targets)) :
    ∀ specifier ∈ (Node.imports targets pos).included, Included including specifier := by
  induction targets
  case nil => simp [Node.included]
  case cons target targets ih =>
    obtain ⟨hfirst, _, h⟩ := h.of_bind
    obtain ⟨hrest, _, -⟩ := h.of_bind
    simp only [Node.included, List.mem_map, List.mem_filter] at ih ⊢
    rintro _ ⟨target', ⟨hm, hp⟩, rfl⟩
    rcases List.mem_cons.1 hm with rfl | hm
    · simp only [evalImport] at hfirst
      rw [if_neg (by simpa [specifierOf] using hp)] at hfirst
      exact ⟨pos, selectors, hfirst⟩
    · exact ih hrest _ ⟨target', ⟨hm, hp⟩, rfl⟩

mutual

theorem included_of_evalNode : (node : Node) → (selectors : List String) →
    Succeeds (evalNode g including file selectors node) →
    ∀ specifier ∈ node.included, Included including specifier
  | .declaration .., _, _ | .definition .., _, _ | .atStatement .., _, _ => by simp [Node.included]
  | .imports targets pos, _, h => by
    simp only [evalNode] at h
    exact included_of_evalImports h
  | .rule selector children pos, _, h => by
    simp only [evalNode] at h
    obtain ⟨-, _, h⟩ := h.of_bind
    simp only [Node.included]
    exact included_of_evalNodes children _ h.of_bind.1.of_inBlock
  | .atBlock name params children pos, _, h => by
    simp only [evalNode] at h
    obtain ⟨-, _, h⟩ := h.of_bind
    simp only [Node.included]
    exact included_of_evalNodes children _ h.of_bind.1.of_inBlock

theorem included_of_evalNodes : (nodes : List Node) → (selectors : List String) →
    Succeeds (evalNodes g including file selectors nodes) →
    ∀ specifier ∈ Node.allIncluded nodes, Included including specifier
  | [], _, _ => by simp [Node.allIncluded]
  | node :: rest, _, h => by
    simp only [evalNodes] at h
    obtain ⟨hfirst, _, h⟩ := h.of_bind
    simp only [Node.allIncluded, List.forall_mem_append]
    exact ⟨included_of_evalNode node _ hfirst, included_of_evalNodes rest _ h.of_bind.1⟩

end

-- One file imports another, from wherever in it.
def Includes (g : Grammar) (answers : Answers) (x y : Imported) : Prop :=
  ∃ nodes, g.parse x.source.toList = .ok nodes ∧
    ∃ specifier ∈ Node.allIncluded nodes, answers specifier x.path = .ok y

-- While this many more files may be open, the file is evaluated to its end.
def Evaluates (g : Grammar) (answers : Answers) (budget : Nat) (x : Imported) : Prop :=
  ∃ nodes selectors, g.parse x.source.toList = .ok nodes ∧
    Succeeds (evalNodes g (g.includeFile answers.importer budget x.path) x.path selectors nodes)

theorem load_answer {file specifier : String} {imported : Imported}
    (h : answers specifier file = .ok imported) (pos : Position) :
    (g.load answers.importer file specifier pos : Eval Id Imported) = pure imported := by
  have hrun : (Answers.importer answers specifier file : ExceptT Error Id Imported) = pure imported := h
  rw [load, hrun]
  rfl

theorem Evaluates.included {budget : Nat} {x y : Imported} (h : g.Evaluates answers budget x)
    (hi : g.Includes answers x y) : ∃ less < budget, g.Evaluates answers less y := by
  obtain ⟨nodes, _, hp, hs⟩ := h
  obtain ⟨nodes', hp', specifier, hm, ha⟩ := hi
  cases hp.symm.trans hp'
  obtain ⟨pos, selectors, hs⟩ := included_of_evalNodes nodes _ hs specifier hm
  obtain _ | budget := budget
  case zero =>
    obtain ⟨env, a, env', hs⟩ := hs
    cases hs
  case succ =>
    refine ⟨budget, Nat.lt_succ_self budget, ?_⟩
    rw [includeFile] at hs
    dsimp only at hs
    rw [load_answer ha, pure_bind] at hs
    cases hy : g.parse y.source.toList
    all_goals rw [hy] at hs
    case error =>
      obtain ⟨env, a, env', hs⟩ := hs
      cases hs
    case ok nodes => exact ⟨nodes, selectors, hy, hs⟩

theorem Evaluates.reached {budget : Nat} {x y : Imported} (h : g.Evaluates answers budget x)
    (hr : Relation.ReflTransGen (g.Includes answers) x y) : ∃ less ≤ budget, g.Evaluates answers less y := by
  induction hr
  case refl => exact ⟨budget, Nat.le_refl budget, h⟩
  case tail _ hi ih =>
    obtain ⟨less, hl, hx⟩ := ih
    obtain ⟨less', hl', hy⟩ := hx.included hi
    exact ⟨less', by omega, hy⟩

-- A file that takes in itself, at whatever distance, would need less room than it has.
theorem Evaluates.acyclic {budget : Nat} {x : Imported} (h : g.Evaluates answers budget x) :
    ¬Relation.TransGen (g.Includes answers) x x := by
  intro hx
  induction budget using Nat.strongRecOn
  case ind budget ih =>
    obtain ⟨y, hi, hr⟩ := Relation.TransGen.head'_iff.1 hx
    obtain ⟨less, hl, hy⟩ := h.included hi
    obtain ⟨less', hl', hx'⟩ := hy.reached hr
    exact ih less' (by omega) hx'

theorem evaluates_of_render {file source css : String}
    (h : (g.render answers.importer file source : ExceptT Error Id String).run = .ok css) :
    g.Evaluates answers (maxOpenFiles - 1) ⟨file, source⟩ := by
  unfold render at h
  cases hp : g.parse source.toList
  all_goals rw [hp] at h
  case error => cases h
  case ok nodes =>
    let root : Eval Id BlockOutput := g.evalRoot answers.importer file nodes
    have hcss : (root.run.run .start).1.map
        (fun output => writeSheet (root.run.run .start).2.hoisted (output.toItems [])) = .ok css := h
    rcases hr : root.run.run .start with ⟨e | output, env⟩
    all_goals rw [hr] at hcss
    case error => cases hcss
    case ok =>
      have hroot : Succeeds root := ⟨.start, output, env, hr⟩
      exact ⟨nodes, [], hp, hroot.of_inBlock⟩

-- Rendering ends, with at most 64 files open at any time, and a cycle among the files that a style sheet
-- takes in, wherever in them they import each other, is an error.
theorem render_ends (d : Dialect) (answers : Answers) (file source : String) :
    let rendered := (d.grammar.render answers.importer file source : ExceptT Error Id String).run
    let watched := d.grammar.renderOnto answers file source
    watched.1 = rendered ∧ (∀ stack ∈ watched.2, stack.length ≤ 64) ∧
      ((∃ x, Relation.ReflTransGen (d.grammar.Includes answers) ⟨file, source⟩ x ∧
        Relation.TransGen (d.grammar.Includes answers) x x) → ∃ e, rendered = .error e) := by
  intro rendered watched
  refine ⟨renderOnto_eq answers file source, renderOnto_low answers file source, ?_⟩
  rintro ⟨x, hr, hx⟩
  rcases hrendered : rendered with e | css
  case error => exact ⟨e, rfl⟩
  case ok =>
    obtain ⟨less, _, he⟩ := (evaluates_of_render hrendered).reached hr
    exact absurd hx he.acyclic

-- Two files import each other, one of them in a block and next to a style sheet for the browser.
def mutualAnswers : Answers := fun specifier _ =>
  if specifier == "a" then
    .ok ⟨"a", "@import 'b';"⟩
  else
    .ok ⟨"b", ".x \x7b @media print \x7b @import 'c.css', 'a'; \x7d \x7d"⟩

theorem includes_of_parse {x y : Imported} {specifier : String} {included : List String}
    (hp : (g.parse x.source.toList).toOption.map Node.allIncluded = some included)
    (hm : specifier ∈ included) (ha : answers specifier x.path = .ok y) : g.Includes answers x y := by
  cases hx : g.parse x.source.toList
  all_goals rw [hx] at hp
  case error => cases hp
  case ok nodes =>
    obtain rfl : Node.allIncluded nodes = included := Option.some.inj hp
    exact ⟨nodes, hx, specifier, hm, ha⟩

theorem render_ends_mutual :
    ∃ e, (Dialect.sass.grammar.render mutualAnswers.importer "main" "@import 'a';" :
      ExceptT Error Id String).run = .error e := by
  let a : Imported := ⟨"a", "@import 'b';"⟩
  let b : Imported := ⟨"b", ".x \x7b @media print \x7b @import 'c.css', 'a'; \x7d \x7d"⟩
  have hmain : Dialect.sass.grammar.Includes mutualAnswers ⟨"main", "@import 'a';"⟩ a :=
    includes_of_parse (by decide +kernel) (List.mem_singleton_self "a") rfl
  have hab : Dialect.sass.grammar.Includes mutualAnswers a b :=
    includes_of_parse (by decide +kernel) (List.mem_singleton_self "b") rfl
  have hba : Dialect.sass.grammar.Includes mutualAnswers b a :=
    includes_of_parse (by decide +kernel) (List.mem_singleton_self "a") rfl
  exact (render_ends .sass mutualAnswers "main" "@import 'a';").2.2
    ⟨a, .single hmain, .tail (.single hab) hba⟩

end Grammar

end ScopedCss.Dialect
