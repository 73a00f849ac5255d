import ScopedCss.Proofs.Dialect.Variables

namespace ScopedCss.Dialect

-- The value in place of the name, if that is all there is.
def fillValue (filled : List Global) (value : String) : String :=
  match filled.find? (fun g => value.toList == '$' :: g.name) with
  | some g => .ofList g.value
  | none   => value

namespace Node

mutual

-- The node with the values of these variables written out where declarations refer to them.
def filled (globals : List Global) : Node → Node
  | declaration property value pos       => declaration property (fillValue globals value) pos
  | definition name value fallback pos   => definition name value fallback pos
  | imports targets pos                  => imports targets pos
  | rule selector children pos           => rule selector (allFilled globals children) pos
  | atStatement name params pos          => atStatement name params pos
  | atBlock name params children pos     => atBlock name params (allFilled globals children) pos

def allFilled (globals : List Global) : List Node → List Node
  | []           => []
  | node :: rest => node.filled globals :: allFilled globals rest

end

mutual

-- Nothing in the node turns on whether the variables are defined in front of it. A fallback would count
-- if they were not, and a variable that is filled in must not get another value.
def Fits (style : ReferenceStyle) (globals filled : List Global) : Node → Prop
  | declaration property value _     => Flat style property.toList ∧ Flat style value.toList
  | definition name value fallback _ => Flat style value.toList ∧
    (fallback = true → ∀ g ∈ globals, name ≠ g.key style) ∧ ∀ g ∈ filled, ¬g.Reserves style name
  | imports _ _                      => True
  | rule selector children _         => Flat style selector.toList ∧ AllFit style globals filled children
  | atStatement _ params _           => Flat style params.toList
  | atBlock _ params children _      => Flat style params.toList ∧ AllFit style globals filled children

def AllFit (style : ReferenceStyle) (globals filled : List Global) : List Node → Prop
  | []           => True
  | node :: rest => node.Fits style globals filled ∧ AllFit style globals filled rest

end

mutual

def decideFits (style : ReferenceStyle) (globals filled : List Global) :
    (node : Node) → Decidable (node.Fits style globals filled)
  | declaration _ _ _      => inferInstanceAs (Decidable (_ ∧ _))
  | definition _ _ _ _     => inferInstanceAs (Decidable (_ ∧ _ ∧ _))
  | imports _ _            => inferInstanceAs (Decidable True)
  | rule _ children _      =>
    have := decideAllFit style globals filled children
    inferInstanceAs (Decidable (_ ∧ _))
  | atStatement _ _ _      => inferInstanceAs (Decidable (Flat _ _))
  | atBlock _ _ children _ =>
    have := decideAllFit style globals filled children
    inferInstanceAs (Decidable (_ ∧ _))

def decideAllFit (style : ReferenceStyle) (globals filled : List Global) :
    (nodes : List Node) → Decidable (AllFit style globals filled nodes)
  | []           => inferInstanceAs (Decidable True)
  | node :: rest =>
    have := decideFits style globals filled node
    have := decideAllFit style globals filled rest
    inferInstanceAs (Decidable (_ ∧ _))

end

instance (style : ReferenceStyle) (globals filled : List Global) : DecidablePred (AllFit style globals filled) :=
  decideAllFit style globals filled

variable {n : Node} {name params : String} {targets : List String} {children : List Node}

theorem eq_imports (h : n.unplaced = .imports targets .start) : ∃ pos, n = .imports targets pos := by
  cases n
  case imports =>
    cases h
    exact ⟨_, rfl⟩
  all_goals cases h

theorem eq_atStatement (h : n.unplaced = .atStatement name params .start) :
    ∃ pos, n = .atStatement name params pos := by
  cases n
  case atStatement =>
    cases h
    exact ⟨_, rfl⟩
  all_goals cases h

theorem eq_atBlock (h : n.unplaced = .atBlock name params children .start) :
    ∃ children' pos, n = .atBlock name params children' pos ∧ allUnplaced children' = children := by
  cases n
  case atBlock =>
    cases h
    exact ⟨_, _, rfl, rfl⟩
  all_goals cases h

end Node

-- The grammar that reads style sheets with these variables filled in.
def Grammar.filling (g : Grammar) (filled : List Global) : Grammar :=
  { g with parse := fun s => (g.parse s).map (Node.allFilled filled) }

mutual

theorem Node.filled_nil : (n : Node) → n.filled [] = n
  | .declaration _ _ _      => rfl
  | .definition _ _ _ _     => rfl
  | .imports _ _            => rfl
  | .rule _ children _      => by simp only [filled, allFilled_nil children]
  | .atStatement _ _ _      => rfl
  | .atBlock _ _ children _ => by simp only [filled, allFilled_nil children]

theorem Node.allFilled_nil : (nodes : List Node) → allFilled [] nodes = nodes
  | []           => rfl
  | node :: rest => by simp only [allFilled, filled_nil node, allFilled_nil rest]

end

theorem Grammar.filling_nil (g : Grammar) : g.filling [] = g := by
  have hp : (g.filling []).parse = g.parse := by
    funext s
    change (g.parse s).map (Node.allFilled []) = g.parse s
    cases g.parse s
    case error    => rfl
    case ok nodes => exact congrArg Except.ok (Node.allFilled_nil nodes)
  exact congrArg (mk g.stage g.style) hp

variable {style : ReferenceStyle} {globals filled : List Global} {σ α β : Type}

-- Where the first evaluation succeeds in a state, the second does in each that is behind it, and they do
-- the same to the world around them.
def Follows (style : ReferenceStyle) (globals filled : List Global) (Q : α → α → Prop)
    (x y : Eval (StateM σ) α) : Prop :=
  ∀ ⦃alone behind⦄, Env.Behind style globals filled alone behind → ∀ ⦃l a alone' l'⦄,
    (x.run.run alone).run l = ((.ok a, alone'), l') →
    ∃ b behind', (y.run.run behind).run l = ((.ok b, behind'), l') ∧ Q a b ∧
      Env.Behind style globals filled alone' behind' ∧ behind.Keeps behind'

namespace Follows

variable {Q : α → α → Prop} {R : β → β → Prop} {x y : Eval (StateM σ) α} {f k : α → Eval (StateM σ) β}

theorem pure {a b : α} (h : Q a b) :
    Follows style globals filled Q (Pure.pure a : Eval (StateM σ) α) (Pure.pure b) := by
  intro alone behind hb l a' alone' l' hx
  cases hx
  exact ⟨b, behind, rfl, h, hb, Env.Keeps.refl_scopes behind.scopes⟩

theorem throw (e : Error) (y : Eval (StateM σ) α) : Follows style globals filled Q (throw e) y := by
  intro alone behind _ l a alone' l' hx
  cases hx

theorem bind (hx : Follows style globals filled Q x y)
    (hf : ∀ a b, Q a b → Follows style globals filled R (f a) (k b)) :
    Follows style globals filled R (x >>= f) (y >>= k) := by
  intro alone behind hb l c alone' l' h
  rw [Stateful.run_bind₂] at h ⊢
  cases hr : (x.run.run alone).run l
  case mk r l₁ =>
    obtain ⟨r, alone₁⟩ := r
    rw [hr] at h
    cases r
    case error => cases h
    case ok a =>
      obtain ⟨b, behind₁, hy, hq, hb₁, hk₁⟩ := hx hb hr
      obtain ⟨d, behind₂, hz, hr, hb₂, hk₂⟩ := hf a b hq hb₁ h
      rw [hy]
      exact ⟨d, behind₂, hz, hr, hb₂, hk₁.trans hk₂⟩

theorem get : Follows style globals filled (Env.Behind style globals filled) (get : Eval (StateM σ) Env) get := by
  intro alone behind hb l a alone' l' hx
  cases hx
  exact ⟨behind, behind, rfl, hb, hb, Env.Keeps.refl_scopes behind.scopes⟩

theorem modify {u u' : Env → Env}
    (h : ∀ ⦃alone behind⦄, Env.Behind style globals filled alone behind →
      Env.Behind style globals filled (u alone) (u' behind) ∧ behind.Keeps (u' behind)) :
    Follows style globals filled (fun _ _ => True) (modify u : Eval (StateM σ) PUnit) (modify u') := by
  intro alone behind hb l a alone' l' hx
  cases hx
  exact ⟨⟨⟩, u' behind, rfl, trivial, (h hb).1, (h hb).2⟩

theorem run_inBlock (x : Eval (StateM σ) α) (env : Env) (l : σ) :
    ((Grammar.inBlock x).run.run env).run l =
      ((((x.run.run env.push).run l).1.1, ((x.run.run env.push).run l).1.2.pop), ((x.run.run env.push).run l).2) :=
  rfl

theorem inBlock (hx : Follows style globals filled Q x y) :
    Follows style globals filled Q (Grammar.inBlock x) (Grammar.inBlock y) := by
  intro alone behind hb l a alone' l' h
  rw [run_inBlock] at h
  cases hr : (x.run.run alone.push).run l
  case mk r l₁ =>
    obtain ⟨r, alone₁⟩ := r
    rw [hr] at h
    cases h
    obtain ⟨b, behind₁, hy, hq, hb₁, hk⟩ := hx hb.push hr
    have hk := hk.pop
    refine ⟨b, behind₁.pop, by rw [run_inBlock, hy], hq, hb₁.pop fun g hg => hk.lookup ?_, hk⟩
    obtain ⟨v, hv, -⟩ := hb.keys g hg
    rw [Env.lookup_isSome_iff, hv]
    exact List.cons_ne_nil v []

theorem lift {g g' : Grammar} {file : String} {pos pos' : Position} {P : List Char → List Char → Prop}
    {u u' : Values → Except Fault (List Char)}
    (h : ∀ ⦃alone behind⦄, Env.Behind style globals filled alone behind →
      ∀ ⦃t⦄, u alone.lookup = .ok t → ∃ t', u' behind.lookup = .ok t' ∧ P t t') :
    Follows style globals filled (fun s s' => P s.toList s'.toList)
      (g.lift file pos u : Eval (StateM σ) String) (g'.lift file pos' u') := by
  refine bind get fun alone behind hb => ?_
  cases hu : u alone.lookup
  case error => exact .throw _ _
  case ok t =>
    obtain ⟨t', ht', hp⟩ := h hb hu
    rw [ht']
    refine .pure ?_
    rwa [String.toList_ofList, String.toList_ofList]

end Follows

-- Both refer to variables in this style: by a dollar, in one way or the other.
structure Grammar.Share (style : ReferenceStyle) (g g' : Grammar) : Prop where
  dollar : style = .sigil '$' ∨ style = .bare
  left   : g.style = style
  right  : g'.style = style

section

variable {g g' : Grammar} (hg : g.Share style g') {file : String} {pos pos' : Position} {text : String}

include hg

theorem interpolated_follows (h : Flat style text.toList) :
    Follows style globals filled (fun s s' => s' = s) (g.interpolated file pos text : Eval (StateM σ) String)
      (g'.interpolated file pos' text) := by
  have hf : Follows style globals filled (fun s s' => s'.toList = s.toList)
      (g.interpolated file pos text : Eval (StateM σ) String) (g'.interpolated file pos' text) := by
    refine Follows.lift (P := fun t t' => t' = t) fun alone behind hb t ht => ?_
    rw [hg.left] at ht
    rw [hg.right]
    exact ⟨t, interpolate_eq (hb.mirrors hg.dollar) h ht, rfl⟩
  simpa only [String.toList_inj] using hf

theorem substituted_follows (h : Flat style text.toList) :
    Follows style globals filled (fun s s' => Alike style globals s.toList s'.toList)
      (g.substituted file pos text : Eval (StateM σ) String) (g'.substituted file pos' text) := by
  refine Follows.lift fun alone behind hb t ht => ?_
  rw [hg.left] at ht
  rw [hg.right]
  exact substitute_mirrors (hb.mirrors hg.dollar) h ht

-- A reference stands for the value that is written out in its place.
theorem filled_follows (h : Flat style text.toList) :
    Follows style globals filled (fun s s' => Alike style globals s.toList s'.toList)
      (g.substituted file pos (fillValue filled text) : Eval (StateM σ) String) (g'.substituted file pos' text) := by
  unfold fillValue
  split
  case h_2 => exact substituted_follows hg h
  case h_1 v hf =>
    have hm := List.mem_of_find?_eq_some hf
    have ht : text.toList = '$' :: v.name := by simpa using List.find?_some hf
    refine Follows.lift fun alone behind hb t hs => ?_
    obtain ⟨hv, hn⟩ := hb.filled v hm
    rw [hg.left, String.toList_ofList, substitute_plain hg.dollar fun n hr => ?_] at hs
    · cases hs
      have hl : behind.lookup (v.key style) = some (.ofList v.value) := by
        rw [Env.lookup_eq, hv]
        rfl
      refine ⟨_, by rw [hg.right, ht]; exact substitute_name hg.dollar hl, ?_⟩
      rw [String.toList_ofList]
      exact .refl _
    · rw [Env.lookup_eq, hn n hr]
      rfl

end

theorem Env.Behind.hoist {alone behind : Env} (h : Env.Behind style globals filled alone behind) (target : String) :
    Env.Behind style globals filled (alone.hoist target) (behind.hoist target) where
  among   := h.among
  hoisted := congrArg (· ++ [target]) h.hoisted
  others  := h.others
  keys    := h.keys
  filled  := h.filled

abbrev IncludesFollow (style : ReferenceStyle) (globals filled : List Global)
    (including including' : Include (StateM σ)) : Prop :=
  ∀ specifier pos pos' selectors, Follows style globals filled (BlockOutput.Alike style globals)
    (including specifier pos selectors) (including' specifier pos' selectors)

namespace Grammar

variable {including including' : Include (StateM σ)} {g g' : Grammar}

theorem evalImports_follows (hi : IncludesFollow style globals filled including including') (pos pos' : Position)
    (selectors targets : List String) :
    Follows style globals filled (BlockOutput.Alike style globals) (evalImports including pos selectors targets)
      (evalImports including' pos' selectors targets) := by
  induction targets
  case nil => exact .pure (.inl rfl)
  case cons target targets ih =>
    have ht : Follows style globals filled (BlockOutput.Alike style globals)
        (evalImport including pos selectors target) (evalImport including' pos' selectors target) := by
      unfold evalImport
      dsimp only
      split
      case isFalse => exact hi ..
      case isTrue =>
        refine .bind (.modify fun alone behind hb => ⟨hb.hoist target, ?_⟩) fun _ _ _ => .pure (.inl rfl)
        exact Env.Keeps.refl_scopes behind.scopes
    exact ht.bind fun _ _ ha => ih.bind fun _ _ ha' => .pure (ha.append ha')

theorem keeps_assign (env : Env) (name value : String) (fallback : Bool) :
    env.Keeps (env.assign name value fallback) := by
  cases fallback
  case false => exact Env.Keeps.assign ..
  case true =>
    rw [Env.assign_fallback]
    split
    case isTrue  => exact Env.Keeps.refl_scopes env.scopes
    case isFalse => exact Env.Keeps.assign ..

-- Each statement of a sheet follows the same statement with the variables filled in, wherever the two
-- stand.
mutual

theorem evalNode_follows (hg : g.Share style g')
    (hi : IncludesFollow style globals filled including including') (file : String) (selectors : List String) :
    (n : Node) → n.Fits style globals filled → (node node' : Node) →
      node.unplaced = (n.filled filled).unplaced → node'.unplaced = n.unplaced →
      Follows style globals filled (BlockOutput.Alike style globals) (evalNode g including file selectors node)
        (evalNode g' including' file selectors node')
  | .declaration property value _, hf, node, node', hn, hn' => by
    obtain ⟨pos, rfl⟩ := Node.eq_declaration hn
    obtain ⟨pos', rfl⟩ := Node.eq_declaration hn'
    simp only [evalNode]
    refine (interpolated_follows hg hf.1).bind fun property _ he => ?_
    subst he
    exact (filled_follows hg hf.2).bind fun _ _ ha => .pure (.ofDeclaration ha _)
  | .definition name value fallback _, hf, node, node', hn, hn' => by
    obtain ⟨pos, rfl⟩ := Node.eq_definition hn
    obtain ⟨pos', rfl⟩ := Node.eq_definition hn'
    obtain ⟨hv, hk, hr⟩ := hf
    simp only [evalNode]
    refine (substituted_follows hg hv).bind fun v v' ha => ?_
    refine .bind (.modify fun alone behind hb => ⟨?_, keeps_assign ..⟩) fun _ _ _ => .pure (.inl rfl)
    cases fallback
    case false => exact hb.assign hr ha
    case true  => exact hb.assign_fallback (hk rfl) hr ha
  | .imports targets _, hf, node, node', hn, hn' => by
    obtain ⟨pos, rfl⟩ := Node.eq_imports hn
    obtain ⟨pos', rfl⟩ := Node.eq_imports hn'
    simp only [evalNode]
    exact evalImports_follows hi ..
  | .rule selector inner _, hf, node, node', hn, hn' => by
    obtain ⟨children, pos, rfl, hc⟩ := Node.eq_rule hn
    obtain ⟨children', pos', rfl, hc'⟩ := Node.eq_rule hn'
    simp only [evalNode]
    refine (interpolated_follows hg hf.1).bind fun selector _ he => ?_
    subst he
    refine (evalNodes_follows hg hi file _ inner hf.2 children children' hc hc').inBlock.bind fun _ _ ha => ?_
    exact .pure (ha.toItems _)
  | .atStatement name params _, hf, node, node', hn, hn' => by
    obtain ⟨pos, rfl⟩ := Node.eq_atStatement hn
    obtain ⟨pos', rfl⟩ := Node.eq_atStatement hn'
    simp only [evalNode]
    exact (substituted_follows hg hf).bind fun _ _ ha => .pure (.atStatement ha name)
  | .atBlock name params inner _, hf, node, node', hn, hn' => by
    obtain ⟨children, pos, rfl, hc⟩ := Node.eq_atBlock hn
    obtain ⟨children', pos', rfl, hc'⟩ := Node.eq_atBlock hn'
    simp only [evalNode]
    refine (substituted_follows hg hf.1).bind fun _ _ hp => ?_
    refine (evalNodes_follows hg hi file _ inner hf.2 children children' hc hc').inBlock.bind fun _ _ ha => ?_
    exact .pure (.atBlock hp name ha _)

theorem evalNodes_follows (hg : g.Share style g')
    (hi : IncludesFollow style globals filled including including') (file : String) (selectors : List String) :
      (ns : List Node) → Node.AllFit style globals filled ns → (nodes nodes' : List Node) →
      Node.allUnplaced nodes = Node.allUnplaced (Node.allFilled filled ns) →
      Node.allUnplaced nodes' = Node.allUnplaced ns →
      Follows style globals filled (BlockOutput.Alike style globals) (evalNodes g including file selectors nodes)
        (evalNodes g' including' file selectors nodes')
  | [], _, nodes, nodes', hn, hn' => by
    cases nodes
    case cons => cases hn
    case nil =>
      cases nodes'
      case cons => cases hn'
      case nil =>
        simp only [evalNodes]
        exact .pure (.inl rfl)
  | n :: ns, hf, nodes, nodes', hn, hn' => by
    obtain ⟨node, rest, rfl, hh, ht⟩ := Node.eq_cons hn
    obtain ⟨node', rest', rfl, hh', ht'⟩ := Node.eq_cons hn'
    simp only [evalNodes]
    refine (evalNode_follows hg hi file selectors n hf.1 node node' hh hh').bind fun _ _ ha => ?_
    exact (evalNodes_follows hg hi file selectors ns hf.2 rest rest' ht ht').bind fun _ _ ha' => .pure (ha.append ha')

end

-- All that is imported is such.
def Supplies (P : Imported → Prop) (importer : String → String → ExceptT Error (StateM σ) Imported) : Prop :=
  ∀ specifier importing l imported, ((importer specifier importing).run.run l).1 = .ok imported → P imported

variable {importer : String → String → ExceptT Error (StateM σ) Imported} {P : Imported → Prop}

-- What is loaded is what the importer supplies, and variables have no part in it.
theorem run_load (g : Grammar) (importer : String → String → ExceptT Error (StateM σ) Imported)
    (file specifier : String) (pos : Position) (env : Env) (l : σ) :
    (((g.load importer file specifier pos).run.run env).run l).1.2 = env ∧
      ∀ imported, (((g.load importer file specifier pos).run.run env).run l).1.1 = .ok imported ↔
        ((importer specifier file).run.run l).1 = .ok imported := by
  have hl : (((liftM (importer specifier file).run : Eval (StateM σ) (Except Error Imported)).run.run env).run l) =
      ((.ok ((importer specifier file).run.run l).1, env), ((importer specifier file).run.run l).2) :=
    rfl
  rw [load, Stateful.run_bind₂, hl]
  cases ((importer specifier file).run.run l).1
  case ok i => exact ⟨rfl, fun _ => Iff.rfl⟩
  case error e =>
    cases e
    all_goals exact ⟨rfl, fun _ => ⟨nofun, nofun⟩⟩

theorem load_follows (h : Supplies P importer) (file specifier : String) (pos pos' : Position) :
    Follows style globals filled (fun i i' => i' = i ∧ P i) (g.load importer file specifier pos)
      (g'.load importer file specifier pos') := by
  have hl : Follows style globals filled (fun r r' => r' = r ∧ ∀ i, r = .ok i → P i)
      (liftM (importer specifier file).run : Eval (StateM σ) (Except Error Imported))
      (liftM (importer specifier file).run) := by
    intro alone behind hb l r alone' l' hx
    cases hx
    exact ⟨_, behind, rfl, ⟨rfl, h specifier file l⟩, hb, Env.Keeps.refl_scopes behind.scopes⟩
  refine hl.bind fun _ r hr => ?_
  obtain ⟨rfl, hp⟩ := hr
  cases r
  case ok i => exact .pure ⟨rfl, hp i rfl⟩
  case error e =>
    cases e
    all_goals exact .throw _ _

theorem includeFile_follows (hg : (g.filling filled).Share style g)
    (h : Supplies (fun i => ∀ nodes, g.parse i.source.toList = .ok nodes → Node.AllFit style globals filled nodes)
      importer) (budget : Nat) (file : String) :
    IncludesFollow style globals filled ((g.filling filled).includeFile importer budget file)
      (g.includeFile importer budget file) := by
  induction budget generalizing file
  case zero => exact fun _ _ _ _ => .throw _ _
  case succ budget ih =>
    intro specifier pos pos' selectors
    refine (load_follows h file specifier pos pos').bind fun _ i hi => ?_
    obtain ⟨rfl, hf⟩ := hi
    have hp : (g.filling filled).parse i.source.toList =
      (g.parse i.source.toList).map (Node.allFilled filled) := rfl
    rw [hp]
    cases hn : g.parse i.source.toList
    case error => exact .throw _ _
    case ok nodes => exact evalNodes_follows hg (ih i.path) i.path selectors nodes (hf nodes hn) _ _ rfl rfl

end Grammar

end ScopedCss.Dialect
