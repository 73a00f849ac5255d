import ScopedCss.Dialect.Evaluate
import ScopedCss.Scoping.Scope

namespace ScopedCss

-- A relation between the actions of two monads that pure actions are in and that sequencing keeps.
-- A function that is generic in its monad then keeps it as well, whatever the relation is: this is
-- how two runs over different states are compared, and how one run is shown to keep an invariant.
structure Related (m n : Type → Type) [Monad m] [Monad n] where
  Rel {α : Type} : m α → n α → Prop
  pure {α : Type} (a : α) : Rel (pure a) (pure a)
  bind {α β : Type} {x : m α} {y : n α} {f : α → m β} {g : α → n β} :
    Rel x y → (∀ a, Rel (f a) (g a)) → Rel (x >>= f) (y >>= g)

-- The same for actions that can fail, where the relation may depend on whether they do.
structure RelatedExcept (m n : Type → Type) [Monad m] [Monad n] where
  Rel {α : Type} : ExceptT Error m α → ExceptT Error n α → Prop
  pure {α : Type} (a : α) : Rel (pure a) (pure a)
  throw {α : Type} (e : Error) : Rel (throw e : ExceptT Error m α) (throw e)
  bind {α β : Type} {x : ExceptT Error m α} {y : ExceptT Error n α}
    {f : α → ExceptT Error m β} {g : α → ExceptT Error n β} :
    Rel x y → (∀ a, Rel (f a) (g a)) → Rel (x >>= f) (y >>= g)

namespace Related

variable {m n : Type → Type} [Monad m] [Monad n]

def toExcept (r : Related m n) : RelatedExcept m n where
  Rel x y := r.Rel x.run y.run
  pure a := r.pure (Except.ok a)
  throw e := r.pure (Except.error e)
  bind hx hf := by
    apply r.bind hx
    intro a
    cases a
    case ok a    => exact hf a
    case error e => exact r.pure (Except.error e)

-- A state of their own does not tell related actions apart.
def state (r : Related m n) (σ : Type) : Related (StateT σ m) (StateT σ n) where
  Rel x y := ∀ s, r.Rel (x.run s) (y.run s)
  pure a s := r.pure (a, s)
  bind hx hf s := r.bind (hx s) fun (a, s) => hf a s

-- That an action only changes its state in some way is a relation to itself.
def keeps {σ : Type} (R : σ → σ → Prop) (refl : ∀ s, R s s) (trans : ∀ s t u, R s t → R t u → R s u) :
    Related (StateM σ) (StateM σ) where
  Rel x _ := ∀ s, R s (x.run s).2
  pure _ s := refl s
  bind hx hf s := trans _ _ _ (hx s) (hf _ _)

-- So is that it does to one state what it does to another, which a map makes of it.
def mapping {σ τ : Type} (f : σ → τ) : Related (StateM σ) (StateM τ) where
  Rel x y := ∀ s, y.run (f s) = ((x.run s).1, f (x.run s).2)
  pure _ _ := rfl
  bind {_ _ x y g g'} hx hg s := by
    rw [StateT.run_bind, StateT.run_bind, hx]
    exact hg _ _

end Related

-- Outcomes that are the same, but for what is told about errors.
inductive Alike (Same : Error → Error → Prop) {α : Type} : Except Error α → Except Error α → Prop
  | ok (a : α) : Alike Same (.ok a) (.ok a)
  | error {e e' : Error} : Same e e' → Alike Same (.error e) (.error e')

namespace Alike

variable {Same : Error → Error → Prop} {α β : Type} {x y : Except Error α}

theorem refl (h : ∀ e, Same e e) (x : Except Error α) : Alike Same x x := by
  cases x
  case ok a    => exact .ok a
  case error e => exact .error (h e)

theorem eq (h : Alike Eq x y) : x = y := by
  cases h
  case ok       => rfl
  case error he => rw [he]

end Alike

namespace Scoping

variable {m n : Type → Type} [Monad m] [Monad n]

section

variable (r : RelatedExcept m n) {file : String} {rename : String → Except Error String}
  {resolve₁ : String → ExceptT Error m Tokens} {resolve₂ : String → ExceptT Error n Tokens}

theorem importTokens_related (h : ∀ specifier, r.Rel (resolve₁ specifier) (resolve₂ specifier))
    (specifier : String) (p : Progress) :
    r.Rel (importTokens resolve₁ specifier p) (importTokens resolve₂ specifier p) := by
  unfold importTokens
  cases p.imported.get? specifier
  case some => exact r.pure _
  case none => exact r.bind (h specifier) fun _ => r.pure _

theorem compose_related (h : ∀ specifier, r.Rel (resolve₁ specifier) (resolve₂ specifier))
    (targets names : List String) (source : ComposesSource) (pos : Position) (p : Progress) :
    r.Rel (compose file resolve₁ targets names source pos p)
      (compose file resolve₂ targets names source pos p) := by
  unfold compose
  cases source
  case everywhere => exact r.pure _
  case sameFile =>
    dsimp only
    cases expandNames p.exports.get? names
    case ok    => exact r.pure _
    case error => exact r.throw _
  case file specifier =>
    refine r.bind (importTokens_related r h specifier p) fun ⟨tokens, p⟩ => ?_
    dsimp only
    cases expandNames (fun name =>
      (tokens.get? name).map fun value => (Text.words value.toList).map String.ofList) names
    case ok    => exact r.pure _
    case error => exact r.throw _

theorem runStep_related (h : ∀ specifier, r.Rel (resolve₁ specifier) (resolve₂ specifier))
    (p : Progress) (step : Step) :
    r.Rel (runStep file rename resolve₁ p step) (runStep file rename resolve₂ p step) := by
  cases step
  case text s => exact r.pure _
  case gap s => exact r.pure _
  case name kind n =>
    simp only [runStep]
    cases rename n
    case ok    => exact r.pure _
    case error => exact r.throw _
  case compose targets names source pos => exact compose_related r h targets names source pos p
  case fail fault pos => exact r.throw _

theorem runSteps_related (h : ∀ specifier, r.Rel (resolve₁ specifier) (resolve₂ specifier))
    (steps : List Step) (p : Progress) :
    r.Rel (runSteps file rename resolve₁ steps p) (runSteps file rename resolve₂ steps p) := by
  induction steps generalizing p
  case nil => exact r.pure _
  case cons step steps ih => exact r.bind (runStep_related r h p step) ih

-- The free theorem of scoping: two resolvers that are related scope to related results.
theorem scope_related (h : ∀ specifier, r.Rel (resolve₁ specifier) (resolve₂ specifier))
    (css : String) :
    r.Rel (scope css file rename resolve₁) (scope css file rename resolve₂) :=
  r.bind (runSteps_related r h (plan css) .start) fun _ => r.pure _

end

end Scoping

namespace Dialect

variable {m n : Type → Type} [Monad m] [Monad n]

-- The same for evaluations, which have variables besides.
structure EvalRelated (m n : Type → Type) [Monad m] [Monad n] extends
    RelatedExcept (StateT Env m) (StateT Env n) where
  get : Rel (get : Eval m Env) (get : Eval n Env)
  modify (f : Env → Env) : Rel (modify f : Eval m PUnit) (modify f : Eval n PUnit)
  inBlock {α : Type} {x : Eval m α} {y : Eval n α} : Rel x y → Rel (Grammar.inBlock x) (Grammar.inBlock y)

def EvalRelated.ofRelated (r : Related m n) : EvalRelated m n where
  toRelatedExcept := (r.state Env).toExcept
  get env := r.bind (r.pure (env, env)) fun (a, env) => r.pure (Except.ok a, env)
  modify f env := r.bind (r.pure (PUnit.unit, f env)) fun (a, env) => r.pure (Except.ok a, env)
  inBlock h := by
    refine (r.state Env).bind (fun env => r.pure (PUnit.unit, env.push)) fun _ => ?_
    refine (r.state Env).bind h fun result => ?_
    exact (r.state Env).bind (fun env => r.pure (PUnit.unit, env.pop)) fun _ =>
      (r.state Env).pure result

namespace Grammar

variable (g : Grammar)

section

variable (R : EvalRelated m n)

theorem lift_related (file : String) (pos : Position) (f : Values → Except Fault (List Char)) :
    R.Rel (g.lift file pos f) (g.lift file pos f) := by
  refine R.bind R.get fun env => ?_
  cases f env.lookup
  case ok    => exact R.pure _
  case error => exact R.throw _

variable {including₁ : Include m} {including₂ : Include n}

theorem evalImport_related
    (h : ∀ specifier pos selectors,
      R.Rel (including₁ specifier pos selectors) (including₂ specifier pos selectors))
    (pos : Position) (selectors : List String) (target : String) :
    R.Rel (evalImport including₁ pos selectors target)
      (evalImport including₂ pos selectors target) := by
  unfold evalImport
  dsimp only
  split
  · exact R.bind (R.modify _) fun _ => R.pure _
  · exact h _ _ _

theorem evalImports_related
    (h : ∀ specifier pos selectors,
      R.Rel (including₁ specifier pos selectors) (including₂ specifier pos selectors))
    (pos : Position) (selectors targets : List String) :
    R.Rel (evalImports including₁ pos selectors targets)
      (evalImports including₂ pos selectors targets) := by
  induction targets
  case nil => exact R.pure _
  case cons target targets ih =>
    refine R.bind (evalImport_related R h pos selectors target) fun _ => ?_
    exact R.bind ih fun _ => R.pure _

variable {file₁ file₂ : String}

-- Which file the nodes are in shows in the faults of their texts only.
mutual

theorem evalNode_related (hl : ∀ pos f, R.Rel (g.lift file₁ pos f) (g.lift file₂ pos f))
    (h : ∀ specifier pos selectors,
      R.Rel (including₁ specifier pos selectors) (including₂ specifier pos selectors))
    (selectors : List String) : (node : Node) →
    R.Rel (evalNode g including₁ file₁ selectors node) (evalNode g including₂ file₂ selectors node)
  | .declaration property value pos => by
    simp only [evalNode]
    refine R.bind (hl _ _) fun _ => ?_
    exact R.bind (hl _ _) fun _ => R.pure _
  | .definition name value fallback pos => by
    simp only [evalNode]
    refine R.bind (hl _ _) fun _ => ?_
    exact R.bind (R.modify _) fun _ => R.pure _
  | .imports targets pos => by
    simp only [evalNode]
    exact evalImports_related R h pos selectors targets
  | .rule selector children pos => by
    simp only [evalNode]
    refine R.bind (hl _ _) fun _ => ?_
    refine R.bind (R.inBlock ?_) fun _ => R.pure _
    exact evalNodes_related hl h _ children
  | .atStatement name params pos => by
    simp only [evalNode]
    exact R.bind (hl _ _) fun _ => R.pure _
  | .atBlock name params children pos => by
    simp only [evalNode]
    refine R.bind (hl _ _) fun _ => ?_
    refine R.bind (R.inBlock ?_) fun _ => R.pure _
    exact evalNodes_related hl h _ children

theorem evalNodes_related (hl : ∀ pos f, R.Rel (g.lift file₁ pos f) (g.lift file₂ pos f))
    (h : ∀ specifier pos selectors,
      R.Rel (including₁ specifier pos selectors) (including₂ specifier pos selectors))
    (selectors : List String) : (nodes : List Node) →
    R.Rel (evalNodes g including₁ file₁ selectors nodes) (evalNodes g including₂ file₂ selectors nodes)
  | [] => by
    simp only [evalNodes]
    exact R.pure _
  | node :: rest => by
    simp only [evalNodes]
    refine R.bind (evalNode_related hl h selectors node) fun _ => ?_
    exact R.bind (evalNodes_related hl h selectors rest) fun _ => R.pure _

end

variable {importer₁ : String → String → ExceptT Error m Imported}
  {importer₂ : String → String → ExceptT Error n Imported}

theorem includeFile_related
    (h : ∀ file specifier pos,
      R.Rel (g.load importer₁ file specifier pos) (g.load importer₂ file specifier pos))
    (budget : Nat) (file specifier : String) (pos : Position) (selectors : List String) :
    R.Rel (g.includeFile importer₁ budget file specifier pos selectors)
      (g.includeFile importer₂ budget file specifier pos selectors) := by
  induction budget generalizing file specifier pos selectors
  case zero => exact R.throw _
  case succ budget ih =>
    refine R.bind (h file specifier pos) fun imported => ?_
    cases g.parse imported.source.toList
    case ok nodes =>
      exact evalNodes_related g R (lift_related g R _) (ih _) _ _
    case error => exact R.throw _

-- The nodes of a root, as they are evaluated.
abbrev evalRoot (importer : String → String → ExceptT Error m Imported) (file : String)
    (nodes : List Node) : Eval m BlockOutput :=
  inBlock (evalNodes g (g.includeFile importer (maxOpenFiles - 1) file) file [] nodes)

theorem evalRoot_related
    (h : ∀ file specifier pos,
      R.Rel (g.load importer₁ file specifier pos) (g.load importer₂ file specifier pos))
    (file : String) (nodes : List Node) :
    R.Rel (g.evalRoot importer₁ file nodes) (g.evalRoot importer₂ file nodes) :=
  R.inBlock <| evalNodes_related g R (lift_related g R file) (includeFile_related g R h _ file) [] nodes

end

variable (r : Related m n) {importer₁ : String → String → ExceptT Error m Imported}
  {importer₂ : String → String → ExceptT Error n Imported}

theorem load_related
    (h : ∀ specifier file, r.Rel (importer₁ specifier file).run (importer₂ specifier file).run)
    (file specifier : String) (pos : Position) :
    (EvalRelated.ofRelated r).Rel (g.load importer₁ file specifier pos)
      (g.load importer₂ file specifier pos) := by
  refine (EvalRelated.ofRelated r).bind (x := liftM (importer₁ specifier file).run)
    (y := liftM (importer₂ specifier file).run) (fun env => ?_) fun result => ?_
  · exact r.bind (r.bind (h specifier file) fun a => r.pure (a, env)) fun (a, env) =>
      r.pure (Except.ok a, env)
  · cases result
    case ok => exact (EvalRelated.ofRelated r).pure _
    case error e =>
      cases e
      case resolution => exact (EvalRelated.ofRelated r).throw _
      all_goals exact (EvalRelated.ofRelated r).throw _

-- The free theorem of rendering: two importers that are related render to related results.
theorem render_related
    (h : ∀ specifier file, r.Rel (importer₁ specifier file).run (importer₂ specifier file).run)
    (file source : String) :
    r.Rel (g.render importer₁ file source).run (g.render importer₂ file source).run := by
  unfold render
  cases g.parse source.toList
  case ok nodes =>
    refine r.bind (evalRoot_related g (.ofRelated r) (load_related g r h) file nodes _) fun _ => ?_
    exact r.pure _
  case error => exact r.pure _

end Grammar

end Dialect

end ScopedCss
