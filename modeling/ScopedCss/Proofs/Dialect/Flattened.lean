import ScopedCss.Proofs.Dialect.Agree
import ScopedCss.Proofs.Dialect.Shown

namespace ScopedCss.Dialect

-- What is around a declaration.
inductive Enclosing
  | rule (selector : String)
  | block (name params : String)

namespace Enclosing

def header? : Enclosing → Option String
  | rule _            => none
  | block name params => some (atHeader name params)

-- The selectors around a declaration count from the last at-rule on that leaves them behind.
def restrict (path : List String) : Enclosing → List String
  | rule selector => path ++ [selector]
  | block name _  => if isConditional name then path else []

end Enclosing

-- One part of each of these lists of selectors, in every way, the first part of the first list first.
def choices : List String → List (List (List Char))
  | []               => [[]]
  | selector :: path => (listParts selector.toList).flatMap fun part => (choices path).map (part :: ·)

-- The outermost part has no parent, and each of the others is nested in all those around it.
def chain : List (List Char) → List Char
  | []            => []
  | part :: parts => parts.foldl nest (Text.trim (Text.replaceChar '&' [] part))

def pathSelectors (path : List String) : List String :=
  if path.isEmpty then [] else (choices path).map fun parts => .ofList (chain parts)

theorem choices_append (path : List String) (selector : String) :
    choices (path ++ [selector]) =
      (choices path).flatMap fun parts => (listParts selector.toList).map fun part => parts ++ [part] := by
  induction path
  case nil => simp [choices, ← List.map_eq_flatMap]
  case cons s _ ih =>
    simp only [List.cons_append, choices, ih, List.map_flatMap, List.flatMap_assoc, List.flatMap_map, List.map_map]
    rfl

theorem choices_ne_nil {path : List String} (h : ∀ s ∈ path, listParts s.toList ≠ []) : choices path ≠ [] := by
  induction path
  case nil => simp [choices]
  case cons s path ih =>
    obtain ⟨part, hp⟩ := List.exists_mem_of_ne_nil _ (h s List.mem_cons_self)
    obtain ⟨parts, hps⟩ := List.exists_mem_of_ne_nil _ (ih fun s hs => h s (List.mem_cons_of_mem _ hs))
    exact List.ne_nil_of_mem (List.mem_flatMap.2 ⟨part, hp, List.mem_map_of_mem hps⟩)

theorem chain_append {parts : List (List Char)} (h : parts ≠ []) (part : List Char) :
    chain (parts ++ [part]) = nest (chain parts) part := by
  obtain ⟨p, ps, rfl⟩ := List.exists_cons_of_ne_nil h
  simp [chain]

-- Combined one after the other, the lists of selectors around a block come to all the choices among them.
theorem combineSelectors_path {path : List String} (h : ∀ s ∈ path, listParts s.toList ≠ []) (selector : String) :
    combineSelectors (pathSelectors path) selector = pathSelectors (path ++ [selector]) := by
  obtain rfl | hn := eq_or_ne path []
  case inl =>
    simp [combineSelectors, pathSelectors, choices, chain, ← List.map_eq_flatMap]
  case inr =>
    have hp : ∀ parts ∈ choices path, parts ≠ [] := by
      obtain ⟨s, path, rfl⟩ := List.exists_cons_of_ne_nil hn
      simp only [choices, List.mem_flatMap, List.mem_map]
      rintro _ ⟨part, -, parts, -, rfl⟩
      exact List.cons_ne_nil part parts
    simp only [combineSelectors, pathSelectors, List.isEmpty_iff, hn, if_false, List.map_eq_nil_iff,
      choices_ne_nil h, List.append_eq_nil_iff, false_and, choices_append, List.flatMap_map, List.map_flatMap,
      List.map_map]
    refine List.flatMap_congr fun parts hm => List.map_congr_left fun part _ => ?_
    simp only [Function.comp_apply, String.toList_ofList, chain_append (hp parts hm)]

-- A declaration, with the headers of the at-rules that it is in and the selectors that it is for.
structure Entry where
  headers     : List String
  selectors   : List String
  declaration : String
deriving DecidableEq

def pathHeaders (path : List Enclosing) : List String :=
  path.filterMap Enclosing.header?

def pathRules (path : List Enclosing) : List String :=
  path.foldl Enclosing.restrict []

-- What a declaration comes to is a matter of what is around it.
def Entry.within (path : List Enclosing) (declaration : String) : Entry where
  headers     := pathHeaders path
  selectors   := pathSelectors (pathRules path)
  declaration := declaration

mutual

-- The declarations of a style sheet, as they stand in it.
def CssItem.entries (headers : List String) : CssItem → List Entry
  | .rule selectors declarations => declarations.map (Entry.mk headers selectors)
  | .atStatement _               => []
  | .atBlock header items        => CssItem.allEntries (headers ++ [header]) items

def CssItem.allEntries (headers : List String) : List CssItem → List Entry
  | []           => []
  | item :: rest => item.entries headers ++ CssItem.allEntries headers rest

end

def ruleOf (selectors declarations : List String) : List CssItem :=
  if declarations.isEmpty then [] else [.rule selectors declarations]

theorem toItems_eq (o : BlockOutput) (selectors : List String) :
    o.toItems selectors = ruleOf selectors o.declarations ++ o.items := by
  unfold BlockOutput.toItems ruleOf
  split <;> rfl

namespace Node

-- A declaration of the block itself, as it is written.
def own : Node → List String
  | declaration property value _ => [property ++ ": " ++ value ++ ";"]
  | definition ..                => []
  | imports ..                   => []
  | rule ..                      => []
  | atStatement ..               => []
  | atBlock ..                   => []

mutual

-- What the blocks in a node come to, each with its own declarations first.
def nested (path : List Enclosing) : Node → List CssItem
  | rule selector children _       =>
    let inner := path ++ [.rule selector]
    ruleOf (pathSelectors (pathRules inner)) (children.flatMap own) ++ allNested inner children
  | atBlock name params children _ =>
    let inner := path ++ [.block name params]
    [.atBlock (atHeader name params)
      (ruleOf (pathSelectors (pathRules inner)) (children.flatMap own) ++ allNested inner children)]
  | declaration ..                 => []
  | definition ..                  => []
  | imports ..                     => []
  | atStatement ..                 => []

def allNested (path : List Enclosing) : List Node → List CssItem
  | []           => []
  | node :: rest => node.nested path ++ allNested path rest

end

-- What a style sheet comes to without nested rules.
def flattened (nodes : List Node) : List CssItem :=
  ruleOf [] (nodes.flatMap own) ++ allNested [] nodes

mutual

-- One entry for each declaration in a node, in the order of the source.
def declared (path : List Enclosing) : Node → List Entry
  | declaration property value _   => [.within path (property ++ ": " ++ value ++ ";")]
  | rule selector children _       => allDeclared (path ++ [.rule selector]) children
  | atBlock name params children _ => allDeclared (path ++ [.block name params]) children
  | definition ..                  => []
  | imports ..                     => []
  | atStatement ..                 => []

def allDeclared (path : List Enclosing) : List Node → List Entry
  | []           => []
  | node :: rest => node.declared path ++ allDeclared path rest

end

mutual

-- The same entries for the blocks in a node, with the own declarations of a block in front of all that is
-- nested in it.
def beneath (path : List Enclosing) : Node → List Entry
  | rule selector children _       =>
    let inner := path ++ [.rule selector]
    (children.flatMap own).map (.within inner) ++ allBeneath inner children
  | atBlock name params children _ =>
    let inner := path ++ [.block name params]
    (children.flatMap own).map (.within inner) ++ allBeneath inner children
  | declaration ..                 => []
  | definition ..                  => []
  | imports ..                     => []
  | atStatement ..                 => []

def allBeneath (path : List Enclosing) : List Node → List Entry
  | []           => []
  | node :: rest => node.beneath path ++ allBeneath path rest

end

def blockEntries (path : List Enclosing) (nodes : List Node) : List Entry :=
  (nodes.flatMap own).map (.within path) ++ allBeneath path nodes

end Node

theorem pathHeaders_append (path : List Enclosing) (e : Enclosing) :
    pathHeaders (path ++ [e]) = pathHeaders path ++ e.header?.toList := by
  cases e <;> simp [pathHeaders, Enclosing.header?]

theorem pathRules_append (path : List Enclosing) (e : Enclosing) :
    pathRules (path ++ [e]) = e.restrict (pathRules path) := by
  simp [pathRules]

namespace CssItem

theorem allEntries_append (headers : List String) (a b : List CssItem) :
    allEntries headers (a ++ b) = allEntries headers a ++ allEntries headers b := by
  induction a
  case nil             => rfl
  case cons item _ ih => simp only [List.cons_append, allEntries, ih, List.append_assoc]

theorem allEntries_ruleOf (headers selectors declarations : List String) :
    allEntries headers (ruleOf selectors declarations) = declarations.map (Entry.mk headers selectors) := by
  cases declarations <;> simp [ruleOf, allEntries, entries]

end CssItem

namespace Node

mutual

theorem entries_nested (path : List Enclosing) :
    (node : Node) → CssItem.allEntries (pathHeaders path) (node.nested path) = node.beneath path
  | declaration .. | definition .. | imports .. | atStatement .. => rfl
  | rule selector children _ => by
    have ih := entries_allNested (path ++ [.rule selector]) children
    simp only [pathHeaders_append, Enclosing.header?, Option.toList_none, List.append_nil] at ih
    simp only [nested, beneath, CssItem.allEntries_append, CssItem.allEntries_ruleOf, ih]
    simp [Entry.within, pathHeaders_append, Enclosing.header?]
  | atBlock name params children _ => by
    have ih := entries_allNested (path ++ [.block name params]) children
    simp only [pathHeaders_append, Enclosing.header?, Option.toList_some] at ih
    simp only [nested, beneath, CssItem.allEntries, CssItem.entries, CssItem.allEntries_append,
      CssItem.allEntries_ruleOf, ih]
    simp [Entry.within, pathHeaders_append, Enclosing.header?]

theorem entries_allNested (path : List Enclosing) :
    (nodes : List Node) → CssItem.allEntries (pathHeaders path) (allNested path nodes) = allBeneath path nodes
  | []           => rfl
  | node :: rest => by
    simp only [allNested, allBeneath, CssItem.allEntries_append, entries_nested path node, entries_allNested path rest]

end

theorem entries_flattened (nodes : List Node) :
    CssItem.allEntries [] (flattened nodes) = blockEntries [] nodes := by
  rw [flattened, CssItem.allEntries_append, CssItem.allEntries_ruleOf]
  exact congrArg _ (entries_allNested [] nodes)

mutual

theorem beneath_perm (path : List Enclosing) :
    (node : Node) → (node.own.map (Entry.within path) ++ node.beneath path).Perm (node.declared path)
  | declaration .. | definition .. | imports .. | atStatement .. => .refl _
  | rule selector children _       => by
    have ih := blockEntries_perm (path ++ [.rule selector]) children
    simpa only [own, beneath, declared, blockEntries, List.map_nil, List.nil_append] using ih
  | atBlock name params children _ => by
    have ih := blockEntries_perm (path ++ [.block name params]) children
    simpa only [own, beneath, declared, blockEntries, List.map_nil, List.nil_append] using ih

theorem blockEntries_perm (path : List Enclosing) :
    (nodes : List Node) → (blockEntries path nodes).Perm (allDeclared path nodes)
  | []           => .refl _
  | node :: rest => by
    have hfirst := beneath_perm path node
    have hrest : ((rest.flatMap own).map (Entry.within path) ++ allBeneath path rest).Perm (allDeclared path rest) :=
      blockEntries_perm path rest
    simp only [blockEntries, allDeclared, allBeneath, List.flatMap_cons, List.map_append]
    refine .trans ?_ (hfirst.append hrest)
    simp only [List.append_assoc]
    exact (List.perm_append_comm_assoc ..).append_left _

end

end Node

-- What a character does to the quotes that it stands in.
def Quotes.behind (quotes : Quotes) (c : Char) (s : List Char) : Quotes :=
  match quotes with
  | .outside   => if c = '"' ∨ c = '\'' then .inside c else .outside
  | .inside q  => if c = '\\' ∧ s ≠ [] then .escaped q else if c = q then .outside else .inside q
  | .escaped q => .inside q

-- The text refers to a variable, outside of quotes.
def refersTo (sign : Char) (quotes : Quotes) : List Char → Bool
  | []     => false
  | c :: s =>
    (quotes == .outside && c == sign && s.head?.any isReferenceStart) || refersTo sign (quotes.behind c s) s

theorem refersTo_cons {sign : Char} {quotes : Quotes} {c : Char} {s : List Char} :
    refersTo sign quotes (c :: s) = false ↔
      ¬(quotes = .outside ∧ c = sign ∧ s.head?.any isReferenceStart) ∧
        refersTo sign (quotes.behind c s) s = false := by
  simp [refersTo]

-- A text in which no variable is replaced. Names need no sign to be variables in some dialect, but
-- nothing is one there unless it is defined.
structure Unreferring (style : ReferenceStyle) (s : String) : Prop where
  uninterpolated : ¬['#', '\x7b'] <:+: s.toList
  unreferred     : ∀ sign, style = .sigil sign → refersTo sign .outside s.toList = false

theorem Unreferring.of_refersTo {sign : Char} {s : String}
    (h : ¬['#', '\x7b'] <:+: s.toList ∧ refersTo sign .outside s.toList = false) :
    Unreferring (.sigil sign) s where
  uninterpolated     := h.1
  unreferred sign hs := by
    cases hs
    exact h.2

theorem replaceReferences_unreferring {style : ReferenceStyle} {values : Values} (hv : ∀ n, values n = none)
    {quotes : Quotes} {last : Option Char} {s : List Char}
    (h : ∀ sign, style = .sigil sign → refersTo sign quotes s = false) :
    replaceReferences style values quotes last s = .ok s := by
  fun_induction replaceReferences style values quotes last s
  case case1 => rfl
  case case2 ih =>
    rw [ih fun sign hs => (refersTo_cons.1 (h sign hs)).2]
    rfl
  case case3 ih =>
    rw [ih fun sign hs => (refersTo_cons.1 (h sign hs)).2]
    rfl
  case case4 c s _ hc ih =>
    have hb : Quotes.outside.behind c s = .inside c := if_pos hc
    rw [ih fun sign hs => hb ▸ (refersTo_cons.1 (h sign hs)).2]
    rfl
  case case5 hs hc _ _ _ _ => exact absurd ⟨rfl, hc⟩ (refersTo_cons.1 (h _ hs)).1
  case case6 hs hc _ _     => exact absurd ⟨rfl, hc⟩ (refersTo_cons.1 (h _ hs)).1
  case case7 c s _ hc sign hs _ ih =>
    have hb : Quotes.outside.behind c s = .outside := if_neg hc
    have hr := ih fun sign hs => by
      have h' := (refersTo_cons.1 (h sign hs)).2
      rwa [hb] at h'
    subst hs
    rw [hr]
    rfl
  case case8 c s _ _ hs _ word value ih =>
    have hw : value = word := by simp only [value, hv, Option.map_none, Option.getD_none]
    have hr := ih fun sign hs' => by cases hs.symm.trans hs'
    subst hs
    rw [hr, hw]
    exact congrArg (fun s => Except.ok (c :: s)) List.takeWhile_append_dropWhile
  case case9 c s _ hc hs _ ih =>
    have hr := ih fun sign hs' => by cases hs.symm.trans hs'
    subst hs
    rw [hr]
    rfl

theorem substitute_unreferring {style : ReferenceStyle} {values : Values} (hv : ∀ n, values n = none) {s : String}
    (h : Unreferring style s) : substitute style values s.toList = .ok s.toList := by
  rw [substitute, interpolate_flat h.uninterpolated]
  change references style values s.toList = _
  rw [references, replaceReferences_unreferring hv h.unreferred]
  rfl

namespace Node

mutual

-- Rules, declarations and blocks of at-rules only, without variables and interpolations. Each rule has a
-- selector.
def Plain (style : ReferenceStyle) : Node → Prop
  | declaration property value _ => ¬['#', '\x7b'] <:+: property.toList ∧ Unreferring style value
  | rule selector children _     =>
    (¬['#', '\x7b'] <:+: selector.toList ∧ listParts selector.toList ≠ []) ∧ AllPlain style children
  | atBlock _ params children _  => Unreferring style params ∧ AllPlain style children
  | definition ..                => False
  | imports ..                   => False
  | atStatement ..               => False

def AllPlain (style : ReferenceStyle) : List Node → Prop
  | []           => True
  | node :: rest => node.Plain style ∧ AllPlain style rest

end

end Node

namespace Grammar

variable {m : Type → Type} [Monad m] [LawfulMonad m] {g : Grammar} {including : Include m} {file : String}

-- No variable has a value.
def Blank (env : Env) : Prop :=
  ∀ name, env.lookup name = none

theorem Blank.push {env : Env} (h : Blank env) : Blank env.push :=
  h

theorem run_interpolated_plain {env : Env} {s : String} (h : ¬['#', '\x7b'] <:+: s.toList) (pos : Position) :
    (g.interpolated file pos s : Eval m String).run.run env = pure (.ok s, env) := by
  rw [interpolated, run_lift g file pos (interpolate_flat h), String.ofList_toList]

theorem run_substituted_plain {env : Env} (he : Blank env) {s : String} (h : Unreferring g.style s)
    (pos : Position) : (g.substituted file pos s : Eval m String).run.run env = pure (.ok s, env) := by
  rw [substituted, run_lift g file pos (substitute_unreferring he h), String.ofList_toList]

-- Each selector around has a part.
def Selective (path : List Enclosing) : Prop :=
  ∀ s ∈ pathRules path, listParts s.toList ≠ []

mutual

theorem run_evalNode_plain : (node : Node) → (path : List Enclosing) → (env : Env) → node.Plain g.style →
    Selective path → Blank env →
    (evalNode g including file (pathSelectors (pathRules path)) node).run.run env =
      pure (.ok ⟨node.own, node.nested path⟩, env)
  | .declaration property value pos, path, env, ⟨hp, hv⟩, hpath, he => by
    rw [evalNode, run_bind_ok (run_interpolated_plain hp pos), run_bind_ok (run_substituted_plain he hv pos)]
    rfl
  | .rule selector children pos, path, env, ⟨⟨hi, hs⟩, hc⟩, hpath, he => by
    have hrules : pathRules (path ++ [.rule selector]) = pathRules path ++ [selector] := pathRules_append ..
    have hpath' : Selective (path ++ [.rule selector]) := by
      rw [Selective, hrules]
      exact List.forall_mem_append.2 ⟨hpath, List.forall_mem_singleton.2 hs⟩
    have hrun := run_evalNodes_plain children (path ++ [.rule selector]) env.push hc hpath' he.push
    rw [evalNode, run_bind_ok (run_interpolated_plain hi pos), combineSelectors_path hpath, ← hrules,
      run_bind_ok (run_inBlock hrun), toItems_eq]
    rfl
  | .atBlock name params children pos, path, env, ⟨hp, hc⟩, hpath, he => by
    have hrules : pathRules (path ++ [.block name params]) = if isConditional name then pathRules path else [] :=
      pathRules_append ..
    have hpath' : Selective (path ++ [.block name params]) := by
      rw [Selective, hrules]
      split
      case isTrue  => exact hpath
      case isFalse => exact List.forall_mem_nil _
    have hsel : (if isConditional name then pathSelectors (pathRules path) else []) =
        pathSelectors (pathRules (path ++ [.block name params])) := by
      rw [hrules]
      split <;> rfl
    have hrun := run_evalNodes_plain children (path ++ [.block name params]) env.push hc hpath' he.push
    rw [evalNode, run_bind_ok (run_substituted_plain he hp pos), hsel, run_bind_ok (run_inBlock hrun), toItems_eq]
    rfl

theorem run_evalNodes_plain : (nodes : List Node) → (path : List Enclosing) → (env : Env) →
    Node.AllPlain g.style nodes → Selective path → Blank env →
    (evalNodes g including file (pathSelectors (pathRules path)) nodes).run.run env =
      pure (.ok ⟨nodes.flatMap Node.own, Node.allNested path nodes⟩, env)
  | [], path, env, _, hpath, he => rfl
  | node :: rest, path, env, ⟨hn, hr⟩, hpath, he => by
    rw [evalNodes, run_bind_ok (run_evalNode_plain node path env hn hpath he),
      run_bind_ok (run_evalNodes_plain rest path env hr hpath he)]
    rfl

end

theorem run_evaluate_plain {importer : String → String → ExceptT Error m Imported} {nodes : List Node}
    (h : Node.AllPlain g.style nodes) :
    (g.evaluate importer file nodes).run = pure (.ok (CssItem.writeAll 0 (Node.flattened nodes))) := by
  have hrun : (evalNodes g (g.includeFile importer (maxOpenFiles - 1) file) file [] nodes).run.run
      Env.start.push = pure (.ok ⟨nodes.flatMap Node.own, Node.allNested [] nodes⟩, Env.start.push) :=
    run_evalNodes_plain nodes [] Env.start.push h (List.forall_mem_nil _) fun _ => rfl
  simp only [evaluate, ExceptT.run_mk, run_inBlock hrun, pure_bind, Except.map, toItems_eq]
  rfl

-- What a plain tree comes to, in whatever dialect: each block of an at-rule where it stands, each block with
-- its own declarations in front, and all declarations, each once, for the selectors that the path to it has.
theorem evaluate_flattened (d : Dialect) (importer : String → String → ExceptT Error m Imported) (file : String)
    {nodes : List Node} (h : Node.AllPlain d.grammar.style nodes) :
    (d.grammar.evaluate importer file nodes).run = pure (.ok (CssItem.writeAll 0 (Node.flattened nodes))) ∧
      CssItem.allEntries [] (Node.flattened nodes) = Node.blockEntries [] nodes ∧
      (Node.blockEntries [] nodes).Perm (Node.allDeclared [] nodes) :=
  ⟨run_evaluate_plain h, Node.entries_flattened nodes, Node.blockEntries_perm [] nodes⟩

def emptyFiles : String → String → ExceptT Error Id Imported :=
  fun specifier _ => pure ⟨specifier, ""⟩

def nestedSheet : List Node :=
  [.rule ".a, .b" [
    .atBlock "media" "print" [.rule "&:hover, i" [.declaration "top" "'$x'" .start] .start] .start,
    .atBlock "font-face" "" [.declaration "src" "none" .start] .start,
    .declaration "color" "red" .start] .start]

theorem evaluate_flattened_nested :
    Node.AllPlain Dialect.sass.grammar.style nestedSheet ∧
      (Dialect.sass.grammar.evaluate emptyFiles "a.scss" nestedSheet).run =
        .ok (CssItem.writeAll 0 (Node.flattened nestedSheet)) ∧
      CssItem.allEntries [] (Node.flattened nestedSheet) = [
        ⟨[], [".a", ".b"], "color: red;"⟩,
        ⟨["@media print"], [".a:hover", ".a i", ".b:hover", ".b i"], "top: '$x';"⟩,
        ⟨["@font-face"], [], "src: none;"⟩] := by
  have h : Node.AllPlain Dialect.sass.grammar.style nestedSheet :=
    ⟨⟨by decide +kernel,
      ⟨.of_refersTo (by decide +kernel),
        ⟨by decide +kernel, ⟨by decide +kernel, .of_refersTo (by decide +kernel)⟩, ⟨⟩⟩, ⟨⟩⟩,
      ⟨.of_refersTo (by decide +kernel), ⟨by decide +kernel, .of_refersTo (by decide +kernel)⟩, ⟨⟩⟩,
      ⟨by decide +kernel, .of_refersTo (by decide +kernel)⟩, ⟨⟩⟩, ⟨⟩⟩
  obtain ⟨hcss, hentries, -⟩ := evaluate_flattened .sass emptyFiles "a.scss" h
  refine ⟨h, hcss, hentries.trans ?_⟩
  decide +kernel

-- An at-rule without declarations is in the style sheet as well.
theorem no_print_of_entries :
    ¬∃ print : List Entry → String, ∀ nodes, Node.AllPlain Dialect.sass.grammar.style nodes →
      ∃ entries, entries.length = (Node.allDeclared [] nodes).length ∧
        (Dialect.sass.grammar.evaluate emptyFiles "a.scss" nodes).run = .ok (print entries) := by
  rintro ⟨print, h⟩
  have hempty : Node.AllPlain Dialect.sass.grammar.style [.atBlock "media" "print" [] .start] :=
    ⟨⟨.of_refersTo (by decide +kernel), ⟨⟩⟩, ⟨⟩⟩
  obtain ⟨none, hn, hnone⟩ := h [] ⟨⟩
  obtain ⟨block, hb, hblock⟩ := h _ hempty
  obtain rfl : none = [] := List.eq_nil_of_length_eq_zero hn
  obtain rfl : block = [] := List.eq_nil_of_length_eq_zero hb
  have hsame := Except.ok.inj <| ((run_evaluate_plain (m := Id) hempty).symm.trans hblock).trans
    (hnone.symm.trans (run_evaluate_plain (m := Id) ⟨⟩))
  revert hsame
  decide +kernel

end Grammar

end ScopedCss.Dialect
