import ScopedCss.Proofs.Dialect.Following

namespace ScopedCss.Dialect

variable {style : ReferenceStyle} {globals filled : List Global} {env : Env} {σ : Type}

theorem Global.not_reserves {g g' : Global} (h : g.key style ≠ g'.key style) : ¬g.Reserves style (g'.key style) := by
  rintro (hk | ⟨rfl, hi⟩)
  · exact h hk.symm
  · rw [key, String.toList_ofList] at hi
    exact absurd (g.plain '$' (hi.subset List.mem_cons_self)) (by decide)

namespace Env

-- The variables behind the definitions of global ones.
def defining (style : ReferenceStyle) (env : Env) (globals : List Global) : Env :=
  globals.foldl (fun env g => env.assign (g.key style) (.ofList g.value) false) env

theorem hoisted_defining (env : Env) (globals : List Global) :
    (env.defining style globals).hoisted = env.hoisted := by
  induction globals generalizing env
  case nil => rfl
  case cons g globals ih => exact (ih _).trans (hoisted_assign ..)

theorem keeps_defining (env : Env) (globals : List Global) : env.Keeps (env.defining style globals) := by
  induction globals generalizing env
  case nil => exact Keeps.refl_scopes env.scopes
  case cons g globals ih => exact (Keeps.assign ..).trans (ih _)

theorem values_defining_ne {n : String} (h : ∀ g ∈ globals, n ≠ g.key style) (env : Env) :
    (env.defining style globals).values n = env.values n := by
  induction globals generalizing env
  case nil => rfl
  case cons g globals ih =>
    obtain ⟨hg, h⟩ := List.forall_mem_cons.1 h
    exact (ih h _).trans (values_assign_ne hg ..)

theorem values_defining (hn : (globals.map (·.key style)).Nodup) (hs : env.scopes ≠ [])
    (he : ∀ g ∈ globals, env.values (g.key style) = []) :
    ∀ g ∈ globals, (env.defining style globals).values (g.key style) = [.ofList g.value] := by
  induction globals generalizing env
  case nil => simp
  case cons g globals ih =>
    obtain ⟨hg, hn⟩ := List.nodup_cons.1 hn
    obtain ⟨hv, he⟩ := List.forall_mem_cons.1 he
    have hne : ∀ g' ∈ globals, g.key style ≠ g'.key style := fun g' hm hk =>
      hg (List.mem_map.2 ⟨g', hm, hk.symm⟩)
    refine List.forall_mem_cons.2 ⟨?_, ih hn ((Keeps.assign ..).ne_nil hs) fun g' hm => ?_⟩
    · refine (values_defining_ne hne _).trans ?_
      rw [values_assign hs, hv]
      rfl
    · rw [values_assign_ne (hne g' hm).symm, he g' hm]

theorem alikeApart_defining {scopes : List (Dict String)} {some : List Global} (hs : some ⊆ globals)
    (h : List.Forall₂ (AlikeApart style globals) scopes env.scopes) :
    List.Forall₂ (AlikeApart style globals) scopes (env.defining style some).scopes := by
  induction some generalizing env
  case nil => exact h
  case cons g some ih =>
    obtain ⟨hg, hs⟩ := List.cons_subset.1 hs
    exact ih hs (AlikeApart.sameBut h hg (SameBut.refl ..) (sameBut_assign ..))

-- Where nothing is defined yet, the definitions make the difference.
theorem behind_defining (hn : (globals.map (·.key style)).Nodup) (hs : filled ⊆ globals) (hne : env.scopes ≠ [])
    (he : ∀ n, env.values n = []) : Behind style globals filled env (env.defining style globals) where
  among   := hs
  hoisted := hoisted_defining env globals
  others  := by
    refine alikeApart_defining (List.Subset.refl globals) (List.forall₂_same.2 fun d hd n _ => ?_)
    have hd : d.get? n = none := by
      have he := he n
      rw [values, List.filterMap_eq_nil_iff] at he
      exact he d hd
    rw [hd]
    exact .none
  keys g hg := ⟨_, values_defining hn hne (fun g _ => he _) g hg, fun v vs hv => by rw [he] at hv; cases hv⟩
  filled g hg := ⟨values_defining hn hne (fun g _ => he _) g (hs hg), fun n _ => he n⟩

end Env

namespace Grammar

variable {g : Grammar} {m : Type → Type} [Monad m] [LawfulMonad m]

theorem empty_append (o : BlockOutput) : BlockOutput.empty.append o = o := by
  simp [BlockOutput.append, BlockOutput.empty]

-- Definitions of global variables come to nothing but the variables.
theorem run_definitions (hd : style = .sigil '$' ∨ style = .bare) (hg : g.style = style)
    (including : Include m) (file : String) (selectors : List String) {front : List Node}
    (hf : Node.allUnplaced front =
      globals.map (fun g => .definition (g.key style) (.ofList g.value) false .start))
    (hn : (globals.map (·.key style)).Nodup) (he : ∀ g ∈ globals, ∀ n, g.Reserves style n → env.lookup n = none)
    (rest : List Node) :
    (evalNodes g including file selectors (front ++ rest)).run.run env =
      (evalNodes g including file selectors rest).run.run (env.defining style globals) := by
  induction globals generalizing front env
  case nil =>
    cases front
    case nil  => rfl
    case cons => cases hf
  case cons v globals ih =>
    obtain ⟨node, front, rfl, hh, ht⟩ := Node.eq_cons hf
    obtain ⟨pos, rfl⟩ := Node.eq_definition hh
    obtain ⟨hv, hn⟩ := List.nodup_cons.1 hn
    obtain ⟨hev, he⟩ := List.forall_mem_cons.1 he
    have hs : (g.substituted file pos (.ofList v.value) : Eval m String).run.run env =
        pure (.ok (.ofList v.value), env) := by
      refine run_lift g file pos ?_
      rw [hg, String.toList_ofList]
      exact substitute_plain hd hev
    have hx : (evalNode g including file selectors
          (.definition (v.key style) (.ofList v.value) false pos)).run.run env =
        pure (.ok .empty, env.assign (v.key style) (.ofList v.value) false) := by
      simp only [evalNode]
      rw [run_bind_ok hs, run_bind_ok (run_modify _ env)]
      rfl
    have hn' : ∀ g' ∈ globals, ∀ n, g'.Reserves style n →
        (env.assign (v.key style) (.ofList v.value) false).lookup n = none := by
      intro g' hm n hr
      have hk : n ≠ v.key style := by
        rintro rfl
        exact Global.not_reserves (fun hk => hv (List.mem_map.2 ⟨g', hm, hk⟩)) hr
      rw [Env.lookup_eq, Env.values_assign_ne hk, ← Env.lookup_eq]
      exact he g' hm n hr
    rw [List.cons_append, evalNodes, run_bind_ok hx]
    simp only [empty_append, bind_pure]
    exact ih ht hn hn'

variable {importer : String → String → ExceptT Error (StateM σ) Imported}

theorem run_evaluate_eq_ok {file css : String} {nodes : List Node} {l l' : σ} :
    (g.evaluate importer file nodes).run.run l = (.ok css, l') ↔
      ∃ output env, ((evalNodes g (g.includeFile importer (maxOpenFiles - 1) file) file [] nodes).run.run
        Env.start.push).run l = ((.ok output, env), l') ∧ writeSheet env.hoisted (output.toItems []) = css := by
  have hr : (g.evaluate importer file nodes).run.run l =
      (fun r => (r.1.1.map fun output => writeSheet r.1.2.hoisted (output.toItems []), r.2) :
        (Except Error BlockOutput × Env) × σ → Except Error String × σ)
      (((evalNodes g (g.includeFile importer (maxOpenFiles - 1) file) file [] nodes).run.run Env.start.push).run l) :=
    rfl
  rw [hr]
  generalize StateT.run _ l = r
  obtain ⟨⟨result, env⟩, l₁⟩ := r
  cases result
  case error =>
    constructor
    · rintro ⟨⟩
    · rintro ⟨_, _, ⟨⟩, _⟩
  case ok output =>
    constructor
    · rintro ⟨⟩
      exact ⟨output, env, rfl, rfl⟩
    · rintro ⟨_, _, ⟨⟩, rfl⟩
      rfl

-- A sheet behind the definitions of global variables is rendered as it is alone with some of these
-- filled in, if nothing in it turns on the others.
theorem evaluate_defined (hd : style = .sigil '$' ∨ style = .bare) (hg : g.style = style)
    (hn : (globals.map (·.key style)).Nodup) (hs : filled ⊆ globals)
    (hi : Supplies (fun i => ∀ nodes, g.parse i.source.toList = .ok nodes → Node.AllFit style globals filled nodes)
      importer) {nodes read : List Node} (hf : Node.AllFit style globals filled nodes)
    (hr : Node.allUnplaced read =
      globals.map (fun g => .definition (g.key style) (.ofList g.value) false .start) ++ Node.allUnplaced nodes)
    {file css : String} {l l' : σ}
    (h : ((g.filling filled).evaluate importer file (Node.allFilled filled nodes)).run.run l = (.ok css, l'))
    (hc : ¬Shows style globals css.toList) : (g.evaluate importer file read).run.run l = (.ok css, l') := by
  obtain ⟨front, rest, rfl, hfront, hrest⟩ : ∃ front rest, read = front ++ rest ∧
      Node.allUnplaced front = globals.map (fun g => .definition (g.key style) (.ofList g.value) false .start) ∧
      Node.allUnplaced rest = Node.allUnplaced nodes := by
    rw [Node.allUnplaced_eq_map, List.map_eq_append_iff] at hr
    obtain ⟨front, rest, he, hfr, hre⟩ := hr
    exact ⟨front, rest, he, by rw [Node.allUnplaced_eq_map, hfr], by rw [Node.allUnplaced_eq_map, hre]⟩
  have hb : Env.Behind style globals filled Env.start.push (Env.start.push.defining style globals) :=
    Env.behind_defining hn hs (List.cons_ne_nil _ _) fun _ => rfl
  have hshare : (g.filling filled).Share style g := ⟨hd, hg, hg⟩
  have hfollows := evalNodes_follows hshare (includeFile_follows hshare hi (maxOpenFiles - 1) file) file [] nodes hf
    _ rest rfl hrest hb
  obtain ⟨output, alone, ho, rfl⟩ := run_evaluate_eq_ok.1 h
  obtain ⟨output', behind, ho', ha, hb, -⟩ := hfollows ho
  refine run_evaluate_eq_ok.2 ⟨output', behind, ?_, ?_⟩
  · rwa [run_definitions hd hg _ file [] hfront hn fun _ _ _ _ => rfl]
  · obtain rfl | ha := ha
    · rw [hb.hoisted]
    · refine absurd ((ha.toItems [] 0).of_isInfix ?_) hc
      rw [writeSheet, String.toList_append]
      exact (List.suffix_append ..).isInfix

-- The same of texts.
theorem render_defined (hd : style = .sigil '$' ∨ style = .bare) (hg : g.style = style)
    (hn : (globals.map (·.key style)).Nodup) (hs : filled ⊆ globals)
    (hi : Supplies (fun i => ∀ nodes, g.parse i.source.toList = .ok nodes → Node.AllFit style globals filled nodes)
      importer) {raw text : String}
    (hf : ∀ nodes, g.parse raw.toList = .ok nodes → Node.AllFit style globals filled nodes)
    (hr : ∀ nodes, g.parse raw.toList = .ok nodes → ∃ read, g.parse text.toList = .ok read ∧
      Node.allUnplaced read =
        globals.map (fun g => .definition (g.key style) (.ofList g.value) false .start) ++ Node.allUnplaced nodes)
    {file css : String} {l l' : σ}
    (h : ((g.filling filled).render importer file raw).run.run l = (.ok css, l'))
    (hc : ¬Shows style globals css.toList) : (g.render importer file text).run.run l = (.ok css, l') := by
  have hp : (g.filling filled).parse raw.toList = (g.parse raw.toList).map (Node.allFilled filled) := rfl
  rw [render, hp] at h
  cases hnodes : g.parse raw.toList
  case error =>
    rw [hnodes] at h
    cases h
  case ok nodes =>
    rw [hnodes] at h
    obtain ⟨read, hread, hu⟩ := hr nodes hnodes
    rw [render, hread]
    exact evaluate_defined hd hg hn hs hi (hf nodes hnodes) hu h hc

end Grammar

end ScopedCss.Dialect
