import ScopedCss.Proofs.Dialect.Defined
import ScopedCss.Proofs.Dialect.OpenFiles

namespace ScopedCss.Dialect

variable {σ α β : Type}

-- With these variables, the evaluation comes to this and leaves those, whatever the importer has been asked.
def Gives (x : Eval (StateM σ) α) (env : Env) (a : α) (env' : Env) : Prop :=
  ∀ l, ((x.run.run env).run l).1 = (.ok a, env')

-- It may do so.
def CanGive (x : Eval (StateM σ) α) (env : Env) (a : α) (env' : Env) : Prop :=
  ∃ l, ((x.run.run env).run l).1 = (.ok a, env')

theorem not_canGive_throw {e : Error} {env env' : Env} {a : α} :
    ¬CanGive (throw e : Eval (StateM σ) α) env a env' := by
  rintro ⟨l, h⟩
  cases h

theorem CanGive.of_bind {x : Eval (StateM σ) α} {f : α → Eval (StateM σ) β} {env env' : Env} {b : β}
    (h : CanGive (x >>= f) env b env') : ∃ a env₁, CanGive x env a env₁ ∧ CanGive (f a) env₁ b env' := by
  obtain ⟨l, h⟩ := h
  rw [Stateful.run_bind₂] at h
  rcases hr : (x.run.run env).run l with ⟨⟨e | a, env₁⟩, l₁⟩
  all_goals rw [hr] at h
  case error => cases h
  case ok    => exact ⟨a, env₁, ⟨l, congrArg Prod.fst hr⟩, l₁, h⟩

theorem CanGive.of_inBlock {x : Eval (StateM σ) α} {env env' : Env} {a : α}
    (h : CanGive (Grammar.inBlock x) env a env') : ∃ inside, CanGive x env.push a inside ∧ inside.pop = env' := by
  obtain ⟨l, h⟩ := h
  rw [Follows.run_inBlock] at h
  obtain ⟨hr, he⟩ := Prod.mk.inj h
  exact ⟨_, ⟨l, Prod.ext hr rfl⟩, he⟩

theorem Gives.canGive [Nonempty σ] {x : Eval (StateM σ) α} {env env' : Env} {a : α} (h : Gives x env a env') :
    CanGive x env a env' :=
  ⟨Classical.arbitrary σ, h _⟩

theorem Gives.bind {x : Eval (StateM σ) α} {f : α → Eval (StateM σ) β} {env env₁ env' : Env} {a : α} {b : β}
    (hx : Gives x env a env₁) (hf : Gives (f a) env₁ b env') : Gives (x >>= f) env b env' := by
  intro l
  rw [Stateful.run_bind₂]
  rcases hr : (x.run.run env).run l with ⟨r, l₁⟩
  have hx := hx l
  rw [hr] at hx
  subst hx
  exact hf l₁

-- What the one evaluation may come to, the other comes to.
def refines (σ : Type) : EvalRelated (StateM σ) (StateM σ) where
  Rel x y := ∀ ⦃env a env'⦄, CanGive x env a env' → Gives y env a env'
  pure a env b env' h := h.elim fun _ h _ => h
  throw e env b env' h := absurd h not_canGive_throw
  bind hx hf env b env' h := by
    obtain ⟨a, env₁, ha, hb⟩ := h.of_bind
    exact (hx ha).bind (hf a hb)
  get env b env' h := h.elim fun _ h _ => h
  modify f env b env' h := h.elim fun _ h _ => h
  inBlock hx env a env' h := by
    obtain ⟨inside, hi, rfl⟩ := h.of_inBlock
    intro l
    rw [Follows.run_inBlock, hx hi l]

-- The importer answers a specifier alike in all files, whatever else it has been asked.
def Uniform (answers : String → Except Error Imported)
    (importer : String → String → ExceptT Error (StateM σ) Imported) : Prop :=
  ∀ specifier file l, ((importer specifier file).run.run l).1 = answers specifier

-- What is around a place in a tree.
inductive Around
  | here (front back : List Node)
  | rule (front : List Node) (selector : String) (inner : Around) (pos : Position) (back : List Node)
  | atBlock (front : List Node) (name params : String) (inner : Around) (pos : Position) (back : List Node)

-- The tree with these nodes in the place.
def Around.fill (nodes : List Node) : Around → List Node
  | here front back                         => front ++ (nodes ++ back)
  | rule front selector inner pos back       => front ++ .rule selector (inner.fill nodes) pos :: back
  | atBlock front name params inner pos back => front ++ .atBlock name params (inner.fill nodes) pos :: back

-- An evaluation that starts under these selectors, and with these variables, comes to the place under those
-- selectors, and with those variables. What is in the place has no part in it.
inductive Arrives (g : Grammar) (including : Include (StateM σ)) (file : String) :
    Around → List String → Env → List String → Env → Prop
  | here {front back selectors env output env'}
    (hf : Gives (Grammar.evalNodes g including file selectors front) env output env') :
    Arrives g including file (.here front back) selectors env selectors env'
  | rule {front selector inner pos back selectors env output env₁ resolved env₂ selectors' env'}
    (hf : Gives (Grammar.evalNodes g including file selectors front) env output env₁)
    (hs : Gives (g.interpolated file pos selector : Eval (StateM σ) String) env₁ resolved env₂)
    (hi : Arrives g including file inner (combineSelectors selectors resolved) env₂.push selectors' env') :
    Arrives g including file (.rule front selector inner pos back) selectors env selectors' env'
  | atBlock {front name params inner pos back selectors env output env₁ resolved env₂ selectors' env'}
    (hf : Gives (Grammar.evalNodes g including file selectors front) env output env₁)
    (hs : Gives (g.substituted file pos params : Eval (StateM σ) String) env₁ resolved env₂)
    (hi : Arrives g including file inner (if isConditional name then selectors else []) env₂.push selectors' env') :
    Arrives g including file (.atBlock front name params inner pos back) selectors env selectors' env'

theorem BlockOutput.append_assoc (a b c : BlockOutput) : (a.append b).append c = a.append (b.append c) := by
  simp [append]

theorem BlockOutput.append_empty (o : BlockOutput) : o.append .empty = o := by
  simp [append, empty]

namespace Grammar

section

variable {m : Type → Type} [Monad m] [LawfulMonad m] (g : Grammar) (including : Include m) (file : String)
  (selectors : List String)

theorem evalNodes_append (nodes rest : List Node) :
    evalNodes g including file selectors (nodes ++ rest) = (do
      let first ← evalNodes g including file selectors nodes
      let others ← evalNodes g including file selectors rest
      pure (first.append others)) := by
  induction nodes
  case nil => simp only [List.nil_append, evalNodes, pure_bind, empty_append, bind_pure]
  case cons node nodes ih =>
    simp only [List.cons_append, evalNodes, ih, bind_assoc, pure_bind, BlockOutput.append_assoc]

theorem evalNodes_singleton (node : Node) :
    evalNodes g including file selectors [node] = evalNode g including file selectors node := by
  simp [evalNodes, BlockOutput.append_empty]

theorem evalImports_append (pos : Position) (targets rest : List String) :
    evalImports including pos selectors (targets ++ rest) = (do
      let first ← evalImports including pos selectors targets
      let others ← evalImports including pos selectors rest
      pure (first.append others)) := by
  induction targets
  case nil => simp only [List.nil_append, evalImports, pure_bind, empty_append, bind_pure]
  case cons target targets ih =>
    simp only [List.cons_append, evalImports, ih, bind_assoc, pure_bind, BlockOutput.append_assoc]

end

-- The statement that is left of an import of these targets.
def importsOf (targets : List String) (pos : Position) : List Node :=
  if targets = [] then [] else [.imports targets pos]

theorem evalNodes_importsOf {m : Type → Type} [Monad m] [LawfulMonad m] (g : Grammar) (including : Include m)
    (file : String) (selectors targets : List String) (pos : Position) :
    evalNodes g including file selectors (importsOf targets pos) = evalImports including pos selectors targets := by
  unfold importsOf
  split
  case isTrue h  => simp [h, evalNodes, evalImports]
  case isFalse h => rw [evalNodes_singleton, evalNode]

variable {g : Grammar} {answers : String → Except Error Imported}
  {importer : String → String → ExceptT Error (StateM σ) Imported} {file file' : String} {budget budget' : Nat}

theorem throw_refines (e : Error) (y : Eval (StateM σ) α) : (refines σ).Rel (throw e) y :=
  fun _ _ _ h => absurd h not_canGive_throw

-- Which file it is shows in errors only.
theorem lift_refines (g : Grammar) (file file' : String) (pos : Position)
    (f : Values → Except Fault (List Char)) :
    (refines σ).Rel (g.lift file pos f) (g.lift file' pos f) := by
  refine (refines σ).bind (refines σ).get fun env => ?_
  cases f env.lookup
  case ok    => exact (refines σ).pure _
  case error => exact throw_refines _ _

theorem load_eq_ok (hu : Uniform answers importer) (g : Grammar) (file specifier : String) (pos : Position)
    {env env' : Env} {l : σ} {imported : Imported} :
    (((g.load importer file specifier pos).run.run env).run l).1 = (.ok imported, env') ↔
      answers specifier = .ok imported ∧ env' = env := by
  obtain ⟨henv, hload⟩ := run_load g importer file specifier pos env l
  rw [Prod.ext_iff, hload, hu, henv]
  exact and_congr_right fun _ => eq_comm

theorem load_refines (hu : Uniform answers importer) (g : Grammar) (file file' specifier : String) (pos : Position) :
    (refines σ).Rel (g.load importer file specifier pos) (g.load importer file' specifier pos) := by
  intro env imported env' h l
  obtain ⟨l', h⟩ := h
  rw [load_eq_ok hu] at h ⊢
  exact h

-- Where there is room for a file, there is so for more, and in another file.
theorem includeFile_refines (hu : Uniform answers importer) (hb : budget ≤ budget') (file file' specifier : String)
    (pos : Position) (selectors : List String) :
    (refines σ).Rel (g.includeFile importer budget file specifier pos selectors)
      (g.includeFile importer budget' file' specifier pos selectors) := by
  induction budget generalizing budget' file file' specifier pos selectors
  case zero => exact throw_refines _ _
  case succ budget ih =>
    obtain ⟨budget', rfl⟩ : ∃ less, budget' = less + 1 := ⟨budget' - 1, by omega⟩
    refine (refines σ).bind (load_refines hu ..) fun imported => ?_
    cases g.parse imported.source.toList
    case error => exact throw_refines _ _
    case ok nodes =>
      exact evalNodes_related g (refines σ) (lift_refines g _ _) (ih (by omega) _ _) selectors nodes

theorem evalNodes_refines (hu : Uniform answers importer) (hb : budget ≤ budget') (file file' : String)
    (selectors : List String) (nodes : List Node) :
    (refines σ).Rel (evalNodes g (g.includeFile importer budget file) file selectors nodes)
      (evalNodes g (g.includeFile importer budget' file') file' selectors nodes) :=
  evalNodes_related g (refines σ) (lift_refines g _ _) (includeFile_refines hu hb _ _) selectors nodes

-- A statement may be another that comes to the same.
theorem evalNodes_middle_refines {node node' : Node} {selectors : List String} (hu : Uniform answers importer)
    (hn : (refines σ).Rel (evalNode g (g.includeFile importer budget file) file selectors node)
      (evalNode g (g.includeFile importer budget file) file selectors node')) (front back : List Node) :
    (refines σ).Rel (evalNodes g (g.includeFile importer budget file) file selectors (front ++ node :: back))
      (evalNodes g (g.includeFile importer budget file) file selectors (front ++ node' :: back)) := by
  have hr (nodes) := evalNodes_refines (g := g) hu (Nat.le_refl budget) file file selectors nodes
  simp only [evalNodes_append, evalNodes]
  refine (refines σ).bind (hr front) fun _ => (refines σ).bind ?_ fun _ => (refines σ).pure _
  exact (refines σ).bind hn fun _ => (refines σ).bind (hr back) fun _ => (refines σ).pure _

-- So may be the nodes in a place, whatever is around.
theorem fill_refines {old new : List Node} (hu : Uniform answers importer)
    (hn : ∀ selectors, (refines σ).Rel (evalNodes g (g.includeFile importer budget file) file selectors old)
      (evalNodes g (g.includeFile importer budget file) file selectors new))
    (around : Around) (selectors : List String) :
    (refines σ).Rel (evalNodes g (g.includeFile importer budget file) file selectors (around.fill old))
      (evalNodes g (g.includeFile importer budget file) file selectors (around.fill new)) := by
  induction around generalizing selectors
  case here front back =>
    have hr (nodes) := evalNodes_refines (g := g) hu (Nat.le_refl budget) file file selectors nodes
    simp only [Around.fill, evalNodes_append]
    refine (refines σ).bind (hr front) fun _ => (refines σ).bind ?_ fun _ => (refines σ).pure _
    exact (refines σ).bind (hn _) fun _ => (refines σ).bind (hr back) fun _ => (refines σ).pure _
  case rule front selector inner pos back ih =>
    refine evalNodes_middle_refines hu ?_ front back
    simp only [evalNode]
    refine (refines σ).bind (lift_refines ..) fun _ => ?_
    exact (refines σ).bind ((refines σ).inBlock (ih _)) fun _ => (refines σ).pure _
  case atBlock front name params inner pos back ih =>
    refine evalNodes_middle_refines hu ?_ front back
    simp only [evalNode]
    refine (refines σ).bind (lift_refines ..) fun _ => ?_
    exact (refines σ).bind ((refines σ).inBlock (ih _)) fun _ => (refines σ).pure _

theorem canGive_middle {including : Include (StateM σ)} {node : Node} {selectors : List String} {env env' : Env}
    {output : BlockOutput} (front back : List Node)
    (h : CanGive (evalNodes g including file selectors (front ++ node :: back)) env output env') :
    ∃ first env₁ output' env₂, CanGive (evalNodes g including file selectors front) env first env₁ ∧
      CanGive (evalNode g including file selectors node) env₁ output' env₂ := by
  rw [evalNodes_append] at h
  obtain ⟨first, env₁, hf, h⟩ := h.of_bind
  obtain ⟨_, _, h, -⟩ := h.of_bind
  rw [evalNodes] at h
  obtain ⟨output', env₂, hn, -⟩ := h.of_bind
  exact ⟨first, env₁, output', env₂, hf, hn⟩

-- A tree is not evaluated to its end but by way of the place.
theorem arrives_of_fill {nodes : List Node} (hu : Uniform answers importer) (around : Around)
    {selectors : List String} {env env' : Env} {output : BlockOutput}
    (h : CanGive (evalNodes g (g.includeFile importer budget file) file selectors (around.fill nodes)) env output
      env') :
    ∃ selectors' env₁ output' env₂, Arrives g (g.includeFile importer budget file) file around selectors env
      selectors' env₁ ∧ CanGive (evalNodes g (g.includeFile importer budget file) file selectors' nodes) env₁
        output' env₂ := by
  have hr (selectors nodes) := evalNodes_refines (g := g) hu (Nat.le_refl budget) file file selectors nodes
  induction around generalizing selectors env output env'
  case here front back =>
    rw [Around.fill, evalNodes_append] at h
    obtain ⟨_, env₁, hf, h⟩ := h.of_bind
    obtain ⟨_, _, h, -⟩ := h.of_bind
    rw [evalNodes_append] at h
    obtain ⟨output', env₂, hn, -⟩ := h.of_bind
    exact ⟨selectors, env₁, output', env₂, .here (hr _ _ hf), hn⟩
  case rule front selector inner pos back ih =>
    obtain ⟨_, _, _, _, hf, h⟩ := canGive_middle front back h
    simp only [evalNode] at h
    obtain ⟨_, _, hs, h⟩ := h.of_bind
    obtain ⟨_, _, h, -⟩ := h.of_bind
    obtain ⟨_, h, -⟩ := h.of_inBlock
    obtain ⟨selectors', env₁, output', env₂, hi, hn⟩ := ih h
    exact ⟨selectors', env₁, output', env₂, .rule (hr _ _ hf) (lift_refines _ _ _ _ _ hs) hi, hn⟩
  case atBlock front name params inner pos back ih =>
    obtain ⟨_, _, _, _, hf, h⟩ := canGive_middle front back h
    simp only [evalNode] at h
    obtain ⟨_, _, hs, h⟩ := h.of_bind
    obtain ⟨_, _, h, -⟩ := h.of_bind
    obtain ⟨_, h, -⟩ := h.of_inBlock
    obtain ⟨selectors', env₁, output', env₂, hi, hn⟩ := ih h
    exact ⟨selectors', env₁, output', env₂, .atBlock (hr _ _ hf) (lift_refines _ _ _ _ _ hs) hi, hn⟩

-- With more room, and in another file, an evaluation comes by the same way.
theorem arrives_refines [Nonempty σ] (hu : Uniform answers importer) (hb : budget ≤ budget') (file' : String)
    {around : Around} {selectors selectors' : List String} {env env' : Env}
    (h : Arrives g (g.includeFile importer budget file) file around selectors env selectors' env') :
    Arrives g (g.includeFile importer budget' file') file' around selectors env selectors' env' := by
  have hr (selectors nodes) := evalNodes_refines (g := g) hu hb file file' selectors nodes
  induction h
  case here hf            => exact .here (hr _ _ hf.canGive)
  case rule hf hs _ ih    => exact .rule (hr _ _ hf.canGive) (lift_refines _ _ _ _ _ hs.canGive) ih
  case atBlock hf hs _ ih => exact .atBlock (hr _ _ hf.canGive) (lift_refines _ _ _ _ _ hs.canGive) ih

section

variable {target : String} {pos : Position} {imported : Imported} {nodes : List Node} {selectors : List String}
  {env env' : Env} {output : BlockOutput}

-- What an import comes to is what the nodes of its file do, with one file more open.
theorem exists_imported (hu : Uniform answers importer) (ht : isPlainImport target (specifierOf target) = false)
    (h : CanGive (evalImport (g.includeFile importer budget file) pos selectors target) env output env') :
    ∃ less imported nodes, budget = less + 1 ∧ answers (specifierOf target) = .ok imported ∧
      g.parse imported.source.toList = .ok nodes ∧
        CanGive (evalNodes g (g.includeFile importer less imported.path) imported.path selectors nodes) env output
          env' := by
  rw [specifierOf] at ht
  simp only [evalImport, ht, Bool.false_eq_true, if_false] at h
  cases budget
  case zero => exact absurd h not_canGive_throw
  case succ less =>
    rw [includeFile] at h
    obtain ⟨imported, _, ⟨l, hl⟩, hn⟩ := CanGive.of_bind h
    obtain ⟨ha, rfl⟩ := (load_eq_ok hu ..).1 hl
    cases hp : g.parse imported.source.toList
    all_goals rw [hp] at hn
    case error    => exact absurd hn not_canGive_throw
    case ok nodes => exact ⟨less, imported, nodes, rfl, ha, hp, hn⟩

-- A statement with the nodes of the file in place of one of its targets.
theorem imports_refines (hu : Uniform answers importer) (ht : isPlainImport target (specifierOf target) = false)
    (ha : answers (specifierOf target) = .ok imported) (hp : g.parse imported.source.toList = .ok nodes)
    (before after : List String) (selectors : List String) :
    (refines σ).Rel
      (evalNodes g (g.includeFile importer budget file) file selectors [.imports (before ++ target :: after) pos])
      (evalNodes g (g.includeFile importer budget file) file selectors
        (importsOf before pos ++ (nodes ++ importsOf after pos))) := by
  have hr := includeFile_refines (g := g) hu (Nat.le_refl budget) file file
  have hn : (refines σ).Rel (evalImport (g.includeFile importer budget file) pos selectors target)
      (evalNodes g (g.includeFile importer budget file) file selectors nodes) := by
    intro env output env' h
    obtain ⟨less, imported, nodes, rfl, ha', hp', h⟩ := exists_imported hu ht h
    cases ha.symm.trans ha'
    cases hp.symm.trans hp'
    exact evalNodes_refines hu (Nat.le_succ less) _ _ selectors nodes h
  simp only [evalNodes_singleton, evalNode, evalImports_append, evalImports, evalNodes_append, evalNodes_importsOf]
  refine (refines σ).bind (evalImports_related (refines σ) hr ..) fun _ => ?_
  refine (refines σ).bind ?_ fun _ => (refines σ).pure _
  refine (refines σ).bind hn fun _ => ?_
  exact (refines σ).bind (evalImports_related (refines σ) hr ..) fun _ => (refines σ).pure _

end

-- The nodes of a file stand for its import: they come to the same, and wherever in them an evaluation comes,
-- it has the same variables.
structure Stands (g : Grammar) (importer : String → String → ExceptT Error (StateM σ) Imported) (room : Nat)
    (file target : String) (pos : Position) (imported : Imported) (nodes : List Node) (selectors : List String)
    (env : Env) (output : BlockOutput) (env' : Env) : Prop where
  included : Gives (evalImport (g.includeFile importer (room + 1) file) pos selectors target) env output env'
  inPlace  : Gives (evalNodes g (g.includeFile importer (room + 1) file) file selectors nodes) env output env'
  within   : ∀ around hole, around.fill hole = nodes → ∃ selectors' env₁,
    Arrives g (g.includeFile importer room imported.path) imported.path around selectors env selectors' env₁ ∧
      Arrives g (g.includeFile importer (room + 1) file) file around selectors env selectors' env₁

theorem stands [Nonempty σ] (hu : Uniform answers importer) {room : Nat} {target : String} {pos : Position}
    (ht : isPlainImport target (specifierOf target) = false) {selectors : List String} {env env' : Env}
    {output : BlockOutput}
    (h : CanGive (evalImport (g.includeFile importer (room + 1) file) pos selectors target) env output env') :
    ∃ imported nodes, answers (specifierOf target) = .ok imported ∧ g.parse imported.source.toList = .ok nodes ∧
      g.Stands importer room file target pos imported nodes selectors env output env' := by
  obtain ⟨less, imported, nodes, hroom, ha, hp, hn⟩ := exists_imported hu ht h
  obtain rfl : room = less := Nat.succ.inj hroom
  refine ⟨imported, nodes, ha, hp, ?included, ?inPlace, fun around hole hf => ?within⟩
  case included =>
    exact evalImport_related (refines σ) (includeFile_refines hu (Nat.le_refl _) _ _) pos selectors target h
  case inPlace => exact evalNodes_refines hu (Nat.le_succ room) _ _ selectors nodes hn
  case within =>
    subst hf
    obtain ⟨selectors', env₁, _, _, harrives, -⟩ := arrives_of_fill hu around hn
    exact ⟨selectors', env₁, harrives, arrives_refines hu (Nat.le_succ room) file harrives⟩

theorem evaluate_refines {tree tree' : List Node} {css : String}
    (hr : (refines σ).Rel (evalNodes g (g.includeFile importer (maxOpenFiles - 1) file) file [] tree)
      (evalNodes g (g.includeFile importer (maxOpenFiles - 1) file) file [] tree'))
    (h : ∃ l, ((g.evaluate importer file tree).run.run l).1 = .ok css) (l : σ) :
    ((g.evaluate importer file tree').run.run l).1 = .ok css := by
  obtain ⟨l', h⟩ := h
  obtain ⟨result, env, hrun, hcss⟩ := run_evaluate_eq_ok.1 (Prod.ext h rfl)
  have hresult := hr ⟨l', congrArg Prod.fst hrun⟩ l
  exact congrArg Prod.fst (run_evaluate_eq_ok.2 ⟨result, env, Prod.ext hresult rfl, hcss⟩)

-- One import less: the nodes of a file are in the place of a target that names it.
inductive Inlines (g : Grammar) (answers : String → Except Error Imported) : List Node → List Node → Prop
  | intro {around : Around} {before after : List String} {target : String} {pos : Position} {imported : Imported}
    {nodes : List Node} (ht : isPlainImport target (specifierOf target) = false)
    (ha : answers (specifierOf target) = .ok imported) (hp : g.parse imported.source.toList = .ok nodes) :
    Inlines g answers (around.fill [.imports (before ++ target :: after) pos])
      (around.fill (importsOf before pos ++ (nodes ++ importsOf after pos)))

theorem inlines_refines {tree tree' : List Node} (hu : Uniform answers importer) (h : g.Inlines answers tree tree')
    (selectors : List String) :
    (refines σ).Rel (evalNodes g (g.includeFile importer budget file) file selectors tree)
      (evalNodes g (g.includeFile importer budget file) file selectors tree') := by
  cases h
  case intro ht ha hp => exact fill_refines hu (imports_refines hu ht ha hp _ _) _ selectors

-- As many imports as one likes may be written out, also those that come up by it.
theorem evaluate_inlines {tree tree' : List Node} {css : String} (hu : Uniform answers importer)
    (hi : Relation.ReflTransGen (g.Inlines answers) tree tree')
    (h : ∃ l, ((g.evaluate importer file tree).run.run l).1 = .ok css) (l : σ) :
    ((g.evaluate importer file tree').run.run l).1 = .ok css := by
  induction hi generalizing l
  case refl         => exact evaluate_refines (evalNodes_refines hu (Nat.le_refl _) _ _ _ _) h l
  case tail _ hi ih => exact evaluate_refines (inlines_refines hu hi _) ⟨l, ih l⟩ l

-- An import is inclusion: with the nodes of its file in its place, at whatever depth, a tree is evaluated to the
-- same rules and the same style sheet, with the same variables in front of the place, in it and behind it.
theorem evaluate_included (hu : Uniform answers importer) {target : String}
    (ht : isPlainImport target (specifierOf target) = false) {around : Around} {before after : List String}
    {pos : Position} {css : String} {l : σ}
    (h : ((g.evaluate importer file (around.fill [.imports (before ++ target :: after) pos])).run.run l).1 = .ok css) :
    let including := g.includeFile importer (maxOpenFiles - 1) file
    ∃ imported nodes, answers (specifierOf target) = .ok imported ∧ g.parse imported.source.toList = .ok nodes ∧
      let inlined := around.fill (importsOf before pos ++ (nodes ++ importsOf after pos))
      (∀ l', ((g.evaluate importer file inlined).run.run l').1 = .ok css) ∧
      (∃ result env, Gives (evalNodes g including file [] inlined) Env.start.push result env ∧
        Gives (evalNodes g including file [] (around.fill [.imports (before ++ target :: after) pos])) Env.start.push
          result env) ∧
      ∃ selectors env₀ first env₁ output env₂,
        Arrives g including file around [] Env.start.push selectors env₀ ∧
        Gives (evalNodes g including file selectors (importsOf before pos)) env₀ first env₁ ∧
        g.Stands importer (maxOpenFiles - 2) file target pos imported nodes selectors env₁ output env₂ := by
  intro including
  have : Nonempty σ := ⟨l⟩
  obtain ⟨result, env, hrun, -⟩ := run_evaluate_eq_ok.1 (Prod.ext h rfl)
  have hroot : CanGive _ _ _ _ := ⟨l, congrArg Prod.fst hrun⟩
  obtain ⟨selectors, env₀, _, _, harrives, hplace⟩ := arrives_of_fill hu around hroot
  rw [evalNodes_singleton, evalNode, evalImports_append] at hplace
  obtain ⟨first, env₁, hbefore, hplace⟩ := hplace.of_bind
  obtain ⟨_, _, hplace, -⟩ := hplace.of_bind
  rw [evalImports] at hplace
  obtain ⟨output, env₂, htarget, -⟩ := hplace.of_bind
  obtain ⟨imported, nodes, ha, hp, hstands⟩ : ∃ imported nodes, answers (specifierOf target) = .ok imported ∧
      g.parse imported.source.toList = .ok nodes ∧
      g.Stands importer (maxOpenFiles - 2) file target pos imported nodes selectors env₁ output env₂ :=
    stands hu ht htarget
  have hinlined := inlines_refines hu (.intro ht ha hp) [] hroot
  refine ⟨imported, nodes, ha, hp, fun l' => ?css, ⟨result, env, hinlined, ?result⟩,
    selectors, env₀, first, env₁, output, env₂, harrives, ?before, hstands⟩
  case css    => exact evaluate_refines (inlines_refines hu (.intro ht ha hp) []) ⟨l, h⟩ l'
  case result => exact evalNodes_refines hu (Nat.le_refl _) _ _ _ _ hroot
  case before =>
    rw [evalNodes_importsOf]
    exact evalImports_related (refines σ) (includeFile_refines hu (Nat.le_refl _) _ _) pos selectors before hbefore

-- Two blocks deep and behind a target for the browser, from an importer that counts its calls.
def themeText : String :=
  "$c: blue; .x \x7b color: $c \x7d"

def themeImporter (specifier _ : String) : ExceptT Error (StateM Nat) Imported :=
  ExceptT.mk fun calls => (.ok ⟨specifier, themeText⟩, calls + 1)

def printAround : Around :=
  .rule [.definition "c" "red" false .start] ".a" (.atBlock [] "media" "print" (.here [] []) .start []) .start []

def printCss : String :=
  "@import url(e);\n@media print \x7b\n  .a .x \x7b\n    color: blue;\n  \x7d\n\x7d\n"

theorem evaluate_included_nested :
    ∃ nodes, Dialect.sass.grammar.parse themeText.toList = .ok nodes ∧ ∀ l,
      ((Dialect.sass.grammar.evaluate themeImporter "main"
        (printAround.fill (.imports ["url(e)"] .start :: nodes))).run.run l).1 = .ok printCss := by
  have hu : Uniform (fun specifier => .ok ⟨specifier, themeText⟩) themeImporter := fun _ _ _ => rfl
  have h : ((Dialect.sass.grammar.evaluate themeImporter "main"
      (printAround.fill [.imports (["url(e)"] ++ "'b'" :: []) .start])).run.run 0).1 = .ok printCss := by
    decide +kernel
  obtain ⟨imported, nodes, ha, hp, hcss, -⟩ :=
    @evaluate_included Nat _ _ _ "main" hu "'b'" (by decide) printAround ["url(e)"] [] .start printCss 0 h
  have hs : imported.source = themeText := congrArg Imported.source (Except.ok.inj ha).symm
  have hleft : importsOf ["url(e)"] .start ++ (nodes ++ importsOf [] .start) = .imports ["url(e)"] .start :: nodes := by
    rw [importsOf, importsOf, if_neg (List.cons_ne_nil _ _), if_pos rfl, List.append_nil, List.singleton_append]
  rw [hs] at hp
  rw [hleft] at hcss
  exact ⟨nodes, hp, hcss⟩

end Grammar

end ScopedCss.Dialect
