import ScopedCss.Proofs.Dialect.Placed
import ScopedCss.Proofs.Stateful

namespace ScopedCss

-- If the error is one of this file, it notes such a place.
def Error.TellsOf (file : String) (P : Position → Prop) (e : Error) : Prop :=
  ∀ stage pos reason, e = .transform stage file pos reason → P pos

namespace Dialect

variable {σ α β : Type} {Clean : σ → Prop} {file importing : String} {P : Position → Prop}

inductive Outcome (file : String) (P : Position → Prop) (Q : α → Prop) : Except Error α → Prop
  | ok {a : α}        : Q a → Outcome file P Q (.ok a)
  | error {e : Error} : e.TellsOf file P → Outcome file P Q (.error e)

theorem Outcome.map {Q : α → Prop} {r : Except Error α} (h : Outcome file P Q r) (f : α → β) :
    Outcome file P (fun _ => True) (r.map f) := by
  cases h
  case ok          => exact .ok trivial
  case error e he  => exact .error he

-- An evaluation that leaves a clean state began in one, and what it tells of the file is true: its
-- errors note such places.
def Tells (Clean : σ → Prop) (file : String) (P : Position → Prop) (Q : α → Prop)
    (x : Eval (StateM σ) α) : Prop :=
  ∀ env l, Clean ((x.run.run env).run l).2 → Clean l ∧ Outcome file P Q ((x.run.run env).run l).1.1

-- The same without a word about what is told.
abbrev Traces (Clean : σ → Prop) (x : Eval (StateM σ) α) : Prop :=
  ∀ env l, Clean ((x.run.run env).run l).2 → Clean l

namespace Tells

variable {Q : α → Prop} {R : β → Prop} {x : Eval (StateM σ) α} {f : α → Eval (StateM σ) β}

theorem pure {a : α} (h : Q a) : Tells Clean file P Q (Pure.pure a) :=
  fun _ _ hc => ⟨hc, .ok h⟩

theorem throw {e : Error} (h : e.TellsOf file P) : Tells Clean file P Q (throw e) :=
  fun _ _ hc => ⟨hc, .error h⟩

theorem traces (h : Tells Clean file P Q x) : Traces Clean x :=
  fun env l hc => (h env l hc).1

-- What is known of the result of the first part is known only in a clean state. That the second part
-- began in one has to be known without it.
theorem bind (hx : Tells Clean file P Q x) (ht : ∀ a, Traces Clean (f a))
    (hf : ∀ a, Q a → Tells Clean file P R (f a)) : Tells Clean file P R (x >>= f) := by
  intro env l hc
  have hx := hx env l
  rw [Stateful.run_bind₂] at hc ⊢
  generalize (x.run.run env).run l = r at hx hc ⊢
  obtain ⟨⟨e | a, env'⟩, l'⟩ := r
  case error =>
    obtain ⟨hl, ho⟩ := hx hc
    cases ho
    case error he => exact ⟨hl, .error he⟩
  case ok =>
    obtain ⟨hl, ho⟩ := hx (ht a env' l' hc)
    cases ho
    case ok hq => exact ⟨hl, (hf a hq env' l' hc).2⟩

theorem bind_all (hx : Tells Clean file P (fun _ => True) x) (hf : ∀ a, Tells Clean file P R (f a)) :
    Tells Clean file P R (x >>= f) :=
  hx.bind (fun a => (hf a).traces) fun a _ => hf a

theorem get : Tells Clean file P (fun _ => True) (get : Eval (StateM σ) Env) :=
  fun _ _ hc => ⟨hc, .ok trivial⟩

theorem modify (f : Env → Env) : Tells Clean file P (fun _ => True) (modify f : Eval (StateM σ) PUnit) :=
  fun _ _ hc => ⟨hc, .ok trivial⟩

theorem inBlock (hx : Tells Clean file P Q x) : Tells Clean file P Q (Grammar.inBlock x) :=
  fun env l hc => hx env.push l hc

end Tells

-- What an importer has to do with it: its errors are none of the file, and the state is clean behind an
-- import only if it was so before and the import was none of the file itself.
def Imports (Clean : σ → Prop) (file : String)
    (importer : String → String → ExceptT Error (StateM σ) Imported) : Prop :=
  ∀ specifier importing l, Clean ((importer specifier importing).run.run l).2 →
    Clean l ∧ Outcome file (fun _ => False) (·.path ≠ file) ((importer specifier importing).run.run l).1

namespace Grammar

variable {g : Grammar} {including : Include (StateM σ)}

theorem fail_tellsOf (g : Grammar) {pos : Position} (fault : Fault) (h : importing = file → P pos) :
    (g.fail importing fault pos).TellsOf file P := by
  intro stage pos' reason he
  cases he
  exact h rfl

theorem lift_tells {pos : Position} (h : importing = file → P pos) (f : Values → Except Fault (List Char)) :
    Tells Clean file P (fun _ => True) (g.lift importing pos f : Eval (StateM σ) String) := by
  refine Tells.get.bind_all fun env => ?_
  cases f env.lookup
  case ok          => exact .pure trivial
  case error fault => exact .throw (g.fail_tellsOf fault h)

-- Every place that is included from is such a place.
def IncludesTelling (Clean : σ → Prop) (file : String) (P : Position → Prop) (importing : String)
    (including : Include (StateM σ)) : Prop :=
  ∀ specifier pos selectors, (importing = file → P pos) →
    Tells Clean file P (fun _ => True) (including specifier pos selectors)

theorem evalImports_tells (hi : IncludesTelling Clean file P importing including) {pos : Position}
    (h : importing = file → P pos) (selectors targets : List String) :
    Tells Clean file P (fun _ => True) (evalImports including pos selectors targets) := by
  induction targets
  case nil => exact .pure trivial
  case cons target targets ih =>
    refine Tells.bind_all ?_ fun _ => ih.bind_all fun _ => .pure trivial
    unfold evalImport
    dsimp only
    split
    case isTrue  => exact (Tells.modify _).bind_all fun _ => .pure trivial
    case isFalse => exact hi _ _ _ h

mutual

theorem evalNode_tells (hi : IncludesTelling Clean file P importing including) (selectors : List String) :
    (node : Node) → (importing = file → node.Placed P) →
      Tells Clean file P (fun _ => True) (evalNode g including importing selectors node)
  | .declaration property value pos, h => by
    simp only [evalNode]
    exact (lift_tells h _).bind_all fun _ => (lift_tells h _).bind_all fun _ => .pure trivial
  | .definition name value fallback pos, h => by
    simp only [evalNode]
    exact (lift_tells h _).bind_all fun _ => (Tells.modify _).bind_all fun _ => .pure trivial
  | .imports targets pos, h => by
    simp only [evalNode]
    exact evalImports_tells hi h selectors targets
  | .rule selector children pos, h => by
    simp only [evalNode]
    refine (lift_tells (fun he => (h he).1) _).bind_all fun _ => ?_
    exact (evalNodes_tells hi _ children fun he => (h he).2).inBlock.bind_all fun _ => .pure trivial
  | .atStatement name params pos, h => by
    simp only [evalNode]
    exact (lift_tells h _).bind_all fun _ => .pure trivial
  | .atBlock name params children pos, h => by
    simp only [evalNode]
    refine (lift_tells (fun he => (h he).1) _).bind_all fun _ => ?_
    exact (evalNodes_tells hi _ children fun he => (h he).2).inBlock.bind_all fun _ => .pure trivial

theorem evalNodes_tells (hi : IncludesTelling Clean file P importing including) (selectors : List String) :
    (nodes : List Node) → (importing = file → Node.AllPlaced P nodes) →
      Tells Clean file P (fun _ => True) (evalNodes g including importing selectors nodes)
  | [], _ => by
    simp only [evalNodes]
    exact .pure trivial
  | node :: rest, h => by
    simp only [evalNodes]
    refine (evalNode_tells hi selectors node fun he => (h he).1).bind_all fun _ => ?_
    exact (evalNodes_tells hi selectors rest fun he => (h he).2).bind_all fun _ => .pure trivial

end

variable {importer : String → String → ExceptT Error (StateM σ) Imported}

theorem load_tells (h : Imports Clean file importer) {pos : Position} (hp : importing = file → P pos)
    (specifier : String) : Tells Clean file P (·.path ≠ file) (g.load importer importing specifier pos) := by
  have hx : Tells Clean file P (Outcome file (fun _ => False) (·.path ≠ file))
      (liftM (importer specifier importing).run : Eval (StateM σ) (Except Error Imported)) :=
    fun _ l hc => (h specifier importing l hc).imp_right .ok
  refine hx.bind (fun result => ?_) fun result hr => ?_
  case refine_1 =>
    cases result
    case ok => exact fun _ _ hc => hc
    case error e =>
      cases e
      all_goals exact fun _ _ hc => hc
  case refine_2 =>
    cases hr
    case ok imported hn => exact .pure hn
    case error e he =>
      have hf : e.TellsOf file P := fun stage pos reason ht => (he stage pos reason ht).elim
      cases e
      case resolution => exact .throw (g.fail_tellsOf _ hp)
      all_goals exact .throw hf

theorem imported_tells {imported : Imported}
    (hi : IncludesTelling Clean file P imported.path including) (hn : imported.path = file → ∀ pos, P pos)
    (selectors : List String) :
    Tells Clean file P (fun _ => True) (match g.parse imported.source.toList with
      | .ok nodes    => evalNodes g including imported.path selectors nodes
      | .error fault => throw (fault.toError g.stage imported.path)) := by
  cases g.parse imported.source.toList
  case ok nodes    => exact evalNodes_tells hi selectors nodes fun he => .of_forall (hn he) nodes
  case error fault => exact .throw (g.fail_tellsOf fault.fault fun he => hn he fault.pos)

theorem includeFile_tells (g : Grammar) (h : Imports Clean file importer) (budget : Nat) (importing : String)
    (P : Position → Prop) : IncludesTelling Clean file P importing (g.includeFile importer budget importing) := by
  induction budget generalizing importing P
  case zero => exact fun specifier pos _ hp => .throw (g.fail_tellsOf _ hp)
  case succ budget ih =>
    intro specifier pos selectors hp
    refine (load_tells h hp specifier).bind (fun imported => ?_) fun imported hn => ?_
    -- What is imported traces also where it is the file itself: then every place is allowed.
    case refine_1 => exact (imported_tells (ih _ fun _ => True) (fun _ _ => trivial) selectors).traces
    case refine_2 => exact imported_tells (ih _ P) (fun he => absurd he hn) selectors

-- An error that rendering a file reports of the file notes a place of its text, if the file is not
-- imported meanwhile.
theorem render_tells (h : Imports Clean file importer) (d : Dialect) (source : String) (l : σ)
    (hc : Clean ((d.grammar.render importer file source).run.run l).2) :
    Outcome file (d.MarksIn source.toList) (fun _ => True)
      ((d.grammar.render importer file source).run.run l).1 := by
  have hp := d.parse_notes source.toList
  unfold render at hc ⊢
  generalize d.grammar.parse source.toList = result at hp hc ⊢
  cases result
  case error fault =>
    refine .error fun stage pos reason he => ?_
    cases he
    exact hp
  case ok nodes =>
    have hi := d.grammar.includeFile_tells h (maxOpenFiles - 1) file (d.MarksIn source.toList)
    exact ((evalNodes_tells hi [] nodes fun _ => hp).inBlock .start l hc).2.map _

end Grammar

end Dialect

end ScopedCss
