import ScopedCss.Proofs.Dialect.Following

namespace ScopedCss.Dialect

-- What an evaluation does to variables on its way through nodes, or through some of them if it fails, with the
-- values that it writes other than as fallbacks. At an import, it goes through sheets of this kind.
inductive Moves (Sheet : List Node → Prop) : List Node → Env → List (String × String) → Env → Prop
  | nil {env} : Moves Sheet [] env [] env
  | skip {node rest env writes env'} (hr : Moves Sheet rest env writes env') :
    Moves Sheet (node :: rest) env writes env'
  | fallback {name text pos value rest env writes env'}
    (hr : Moves Sheet rest (env.assign name value true) writes env') :
    Moves Sheet (.definition name text true pos :: rest) env writes env'
  | write {name text pos value rest env writes env'}
    (hr : Moves Sheet rest (env.assign name value false) writes env') :
    Moves Sheet (.definition name text false pos :: rest) env ((name, value) :: writes) env'
  | hoist {targets pos target rest env writes env'}
    (hr : Moves Sheet (.imports targets pos :: rest) (env.hoist target) writes env') :
    Moves Sheet (.imports targets pos :: rest) env writes env'
  | sheet {targets pos nodes rest env writes env₁ more env'} (hs : Sheet nodes)
    (hn : Moves Sheet nodes env writes env₁) (hr : Moves Sheet (.imports targets pos :: rest) env₁ more env') :
    Moves Sheet (.imports targets pos :: rest) env (writes ++ more) env'
  | rule {selector children pos rest env writes inside more env'}
    (hc : Moves Sheet children env.push writes inside) (hr : Moves Sheet rest inside.pop more env') :
    Moves Sheet (.rule selector children pos :: rest) env (writes ++ more) env'
  | atBlock {name params children pos rest env writes inside more env'}
    (hc : Moves Sheet children env.push writes inside) (hr : Moves Sheet rest inside.pop more env') :
    Moves Sheet (.atBlock name params children pos :: rest) env (writes ++ more) env'

namespace Moves

variable {Sheet : List Node → Prop} {nodes rest : List Node} {env env₁ env' : Env}
  {writes more : List (String × String)}

theorem skipAll (nodes : List Node) (env : Env) : Moves Sheet nodes env [] env := by
  induction nodes
  case nil       => exact .nil
  case cons _ ih => exact .skip ih

theorem append (h : Moves Sheet nodes env writes env₁) (hr : Moves Sheet rest env₁ more env') :
    Moves Sheet (nodes ++ rest) env (writes ++ more) env' := by
  induction h
  case nil                => exact hr
  case skip ih            => exact .skip (ih hr)
  case fallback ih        => exact .fallback (ih hr)
  case write ih           => exact .write (ih hr)
  case hoist ih           => exact .hoist (ih hr)
  case sheet hs hn _ _ ih => exact List.append_assoc .. ▸ .sheet hs hn (ih hr)
  case rule hc _ _ ih     => exact List.append_assoc .. ▸ .rule hc (ih hr)
  case atBlock hc _ _ ih  => exact List.append_assoc .. ▸ .atBlock hc (ih hr)

end Moves

namespace Env

variable {env : Env} {scopes scopes' : List (Dict String)} {name value : String}

-- The value of a name in one of the blocks, counted from the innermost.
def valueAt (scopes : List (Dict String)) (i : Nat) (name : String) : Option String :=
  scopes[i]?.bind (·.get? name)

-- A value is written in the innermost block where the name has one, if there is any.
def overwrite (scopes : List (Dict String)) (write : String × String) : List (Dict String) :=
  (assignIn write.1 write.2 false scopes).getD scopes

theorem drop_assignIn (h : assignIn name value false scopes = some scopes') (k : Nat) :
    scopes'.drop k = scopes.drop k ∨ scopes'.drop k = overwrite (scopes.drop k) (name, value) := by
  induction scopes generalizing scopes' k
  case nil => cases h
  case cons d ds ih =>
    cases k
    case zero =>
      refine .inr ?_
      rw [List.drop_zero, List.drop_zero, overwrite, h, Option.getD_some]
    case succ k =>
      simp only [assignIn] at h
      split at h
      case isTrue =>
        cases h
        exact .inl rfl
      case isFalse =>
        obtain ⟨ds', hs, rfl⟩ := Option.map_eq_some_iff.1 h
        exact ih hs k

theorem drop_assign (env : Env) (name value : String) (k : Nat) :
    (env.assign name value false).scopes.drop (k + 1) = env.scopes.drop (k + 1) ∨
      (env.assign name value false).scopes.drop (k + 1) = overwrite (env.scopes.drop (k + 1)) (name, value) := by
  unfold assign
  split
  case h_1 h => exact drop_assignIn h (k + 1)
  case h_2 =>
    split
    case h_1    => exact .inl rfl
    case h_2 hs => exact .inl (hs ▸ rfl)

-- A fallback changes no block but the innermost.
theorem drop_fallback (env : Env) (name value : String) (k : Nat) :
    (env.assign name value true).scopes.drop (k + 1) = env.scopes.drop (k + 1) := by
  rw [assign_fallback]
  split
  case isTrue => rfl
  case isFalse h =>
    have hn := (assignIn_eq_none name value false).2 (by simpa using h)
    rw [assign, hn]
    dsimp only
    split
    case h_1    => rfl
    case h_2 hs => exact hs ▸ rfl

-- The write is at one place, and none of the blocks further in has a value for the name.
theorem assignIn_eq_modify (h : assignIn name value false scopes = some scopes') :
    ∃ k, (∀ j < k, valueAt scopes j name = none) ∧ (valueAt scopes k name).isSome ∧
      scopes' = scopes.modify k (·.insert name value) := by
  induction scopes generalizing scopes'
  case nil => cases h
  case cons d ds ih =>
    simp only [assignIn] at h
    split at h
    case isTrue hd =>
      cases h
      exact ⟨0, by simp, hd, rfl⟩
    case isFalse hd =>
      obtain ⟨ds', hs, rfl⟩ := Option.map_eq_some_iff.1 h
      obtain ⟨k, hk, hv, rfl⟩ := ih hs
      refine ⟨k + 1, fun j hj => ?_, hv, rfl⟩
      cases j
      case zero   => simpa [valueAt, Dict.contains] using hd
      case succ j => exact hk j (by omega)

theorem valueAt_modify (scopes : List (Dict String)) (k i : Nat) (name value n : String) :
    valueAt (scopes.modify k (·.insert name value)) i n =
      if i = k ∧ n = name then scopes[i]?.map fun _ => value else valueAt scopes i n := by
  rw [valueAt, List.getElem?_modify]
  cases hd : scopes[i]?
  case none => simp [valueAt, hd]
  case some d =>
    by_cases hi : k = i
    case neg => simp [valueAt, hd, hi, Ne.symm hi]
    case pos =>
      subst hi
      simp [valueAt, hd, Dict.get?_insert]

-- A write changes one value at most.
theorem overwrite_spec (scopes : List (Dict String)) (write : String × String) :
    (overwrite scopes write).length = scopes.length ∧
      (∀ i n, (valueAt (overwrite scopes write) i n).isSome = (valueAt scopes i n).isSome) ∧
      ∀ i n, valueAt (overwrite scopes write) i n ≠ valueAt scopes i n →
        write.1 = n ∧ ∀ j < i, valueAt scopes j n = none := by
  cases ha : assignIn write.1 write.2 false scopes
  case none => simp [overwrite, ha]
  case some scopes' =>
    obtain ⟨k, hk, hv, rfl⟩ := assignIn_eq_modify ha
    simp only [overwrite, ha, Option.getD_some, valueAt_modify]
    refine ⟨List.length_modify .., fun i n => ?_, fun i n hne => ?_⟩
    · split
      case isFalse => rfl
      case isTrue h =>
        obtain ⟨rfl, rfl⟩ := h
        rw [hv, Option.isSome_map]
        exact Option.isSome_of_isSome_bind hv
    · split at hne
      case isFalse => exact absurd rfl hne
      case isTrue h =>
        obtain ⟨rfl, rfl⟩ := h
        exact ⟨rfl, hk⟩

-- So it is with several writes.
theorem foldl_overwrite_spec (scopes : List (Dict String)) (writes : List (String × String)) :
    (writes.foldl overwrite scopes).length = scopes.length ∧
      (∀ i n, (valueAt (writes.foldl overwrite scopes) i n).isSome = (valueAt scopes i n).isSome) ∧
      ∀ i n, valueAt (writes.foldl overwrite scopes) i n ≠ valueAt scopes i n →
        (∃ value, (n, value) ∈ writes) ∧ ∀ j < i, valueAt scopes j n = none := by
  induction writes generalizing scopes
  case nil => simp
  case cons write writes ih =>
    obtain ⟨hl, hn, hc⟩ := overwrite_spec scopes write
    obtain ⟨hl', hn', hc'⟩ := ih (overwrite scopes write)
    refine ⟨hl'.trans hl, fun i n => (hn' i n).trans (hn i n), fun i n hne => ?_⟩
    by_cases h : valueAt (overwrite scopes write) i n = valueAt scopes i n
    case neg =>
      obtain ⟨rfl, hj⟩ := hc i n h
      exact ⟨⟨write.2, .head _⟩, hj⟩
    case pos =>
      obtain ⟨⟨value, hm⟩, hj⟩ := hc' i n (h ▸ hne)
      refine ⟨⟨value, .tail _ hm⟩, fun j hji => ?_⟩
      have := hn j n
      rwa [hj j hji, Option.isSome_none, eq_comm, Option.isSome_eq_false_iff, Option.isNone_iff_eq_none] at this

end Env

-- From this depth on, blocks become what some of the writes make of them, in their order.
def Rewrites (depth : Nat) (writes : List (String × String)) (env env' : Env) : Prop :=
  ∃ kept : List (String × String), kept.Sublist writes ∧
    env'.scopes.drop (depth + 1) = kept.foldl Env.overwrite (env.scopes.drop (depth + 1))

namespace Rewrites

variable {depth : Nat} {env env₁ inside env' : Env} {writes more : List (String × String)}

theorem refl (depth : Nat) (env : Env) : Rewrites depth [] env env :=
  ⟨[], .slnil, rfl⟩

theorem trans (h : Rewrites depth writes env env₁) (h' : Rewrites depth more env₁ env') :
    Rewrites depth (writes ++ more) env env' := by
  obtain ⟨kept, hk, hs⟩ := h
  obtain ⟨kept', hk', hs'⟩ := h'
  exact ⟨kept ++ kept', hk.append hk', by rw [hs', hs, List.foldl_append]⟩

theorem assign (depth : Nat) (env : Env) (name value : String) :
    Rewrites depth [(name, value)] env (env.assign name value false) := by
  obtain h | h := env.drop_assign name value depth
  · exact ⟨[], List.nil_sublist _, h⟩
  · exact ⟨[(name, value)], .refl _, h⟩

theorem fallback (depth : Nat) (env : Env) (name value : String) :
    Rewrites depth [] env (env.assign name value true) :=
  ⟨[], .slnil, env.drop_fallback name value depth⟩

-- A block of its own is one more on top.
theorem block (h : Rewrites (depth + 1) writes env.push inside) : Rewrites depth writes env inside.pop := by
  obtain ⟨kept, hk, hs⟩ := h
  exact ⟨kept, hk, by rw [Env.pop, List.drop_tail, hs]; rfl⟩

end Rewrites

theorem Moves.rewrites {Sheet : List Node → Prop} {nodes : List Node} {env env' : Env}
    {writes : List (String × String)} (h : Moves Sheet nodes env writes env') (depth : Nat) :
    Rewrites depth writes env env' := by
  induction h generalizing depth
  case nil             => exact .refl depth _
  case skip ih         => exact ih depth
  case fallback ih     => exact (Rewrites.fallback ..).trans (ih depth)
  case write ih        => exact (Rewrites.assign ..).trans (ih depth)
  case hoist ih        => exact ih depth
  case sheet ihn ihr   => exact (ihn depth).trans (ihr depth)
  case rule ihc ihr    => exact (ihc (depth + 1)).block.trans (ihr depth)
  case atBlock ihc ihr => exact (ihc (depth + 1)).block.trans (ihr depth)

variable {σ α β : Type} {env env₁ env' : Env}

-- An evaluation, whether it succeeds or fails, may leave the variables so.
def Leaves (x : Eval (StateM σ) α) (env env' : Env) : Prop :=
  ∃ l, ((x.run.run env).run l).1.2 = env'

namespace Leaves

theorem of_pure {a : α} (h : Leaves (pure a : Eval (StateM σ) α) env env') : env' = env :=
  h.elim fun _ h => h.symm

theorem of_throw {e : Error} (h : Leaves (throw e : Eval (StateM σ) α) env env') : env' = env :=
  h.elim fun _ h => h.symm

theorem of_modify {u : Env → Env} (h : Leaves (modify u : Eval (StateM σ) PUnit) env env') : env' = u env :=
  h.elim fun _ h => h.symm

theorem of_bind {x : Eval (StateM σ) α} {f : α → Eval (StateM σ) β} (h : Leaves (x >>= f) env env') :
    ∃ env₁, Leaves x env env₁ ∧ (env' = env₁ ∨ ∃ a, Leaves (f a) env₁ env') := by
  obtain ⟨l, h⟩ := h
  rw [Stateful.run_bind₂] at h
  rcases hr : (x.run.run env).run l with ⟨⟨e | a, env₁⟩, l₁⟩
  all_goals rw [hr] at h
  case error => exact ⟨env₁, ⟨l, by rw [hr]⟩, .inl h.symm⟩
  case ok    => exact ⟨env₁, ⟨l, by rw [hr]⟩, .inr ⟨a, l₁, h⟩⟩

theorem of_map {x : Eval (StateM σ) α} {f : α → β} (h : Leaves (x >>= fun a => pure (f a)) env env') :
    Leaves x env env' := by
  obtain ⟨env₁, hx, rfl | ⟨_, hf⟩⟩ := h.of_bind
  · exact hx
  · exact hf.of_pure ▸ hx

theorem of_inBlock {x : Eval (StateM σ) α} (h : Leaves (Grammar.inBlock x) env env') :
    ∃ inside, Leaves x env.push inside ∧ env' = inside.pop := by
  obtain ⟨l, h⟩ := h
  rw [Follows.run_inBlock] at h
  exact ⟨_, ⟨l, rfl⟩, h.symm⟩

theorem of_lift {g : Grammar} {file : String} {pos : Position} {f : Values → Except Fault (List Char)}
    (h : Leaves (g.lift file pos f : Eval (StateM σ) String) env env') : env' = env := by
  obtain ⟨env₁, ⟨_, rfl⟩, rfl | ⟨values, h⟩⟩ := of_bind h
  · rfl
  · cases hf : f values.lookup
    all_goals rw [hf] at h
    case ok    => exact h.of_pure
    case error => exact h.of_throw

end Leaves

namespace Grammar

variable {g : Grammar} {Sheet : List Node → Prop} {including : Include (StateM σ)}

-- An inclusion goes through one of the sheets, if it comes to that.
def Enters (Sheet : List Node → Prop) (including : Include (StateM σ)) : Prop :=
  ∀ ⦃specifier pos selectors env env'⦄, Leaves (including specifier pos selectors) env env' →
    env' = env ∨ ∃ nodes writes, Sheet nodes ∧ Moves Sheet nodes env writes env'

theorem moves_evalImports (hi : Enters Sheet including) {pos : Position} {selectors : List String}
    (all targets : List String) (h : Leaves (evalImports including pos selectors targets) env env') :
    ∃ writes, Moves Sheet [.imports all pos] env writes env' := by
  induction targets generalizing env
  case nil => exact ⟨[], h.of_pure ▸ .skipAll _ _⟩
  case cons target targets ih =>
    obtain ⟨env₁, ht, hr⟩ := h.of_bind
    obtain ⟨writes, hm⟩ : ∃ writes, Moves Sheet [.imports all pos] env₁ writes env' := by
      obtain rfl | ⟨_, hr⟩ := hr
      · exact ⟨[], .skipAll _ _⟩
      · exact ih hr.of_map
    unfold evalImport at ht
    dsimp only at ht
    split at ht
    case isTrue =>
      obtain rfl := ht.of_map.of_modify
      exact ⟨writes, .hoist hm⟩
    case isFalse =>
      obtain rfl | ⟨nodes, first, hs, hn⟩ := hi ht
      · exact ⟨writes, hm⟩
      · exact ⟨first ++ writes, .sheet hs hn hm⟩

-- The statements of a sheet change variables in this way only, wherever the evaluation ends.
mutual

theorem moves_evalNode (hi : Enters Sheet including) (file : String) (selectors : List String) : (node : Node) →
    ∀ {env env'}, Leaves (evalNode g including file selectors node) env env' →
      ∃ writes, Moves Sheet [node] env writes env'
  | .declaration property value pos, env, env', h => by
    simp only [evalNode] at h
    obtain ⟨env₁, hp, hr⟩ := h.of_bind
    obtain rfl := hp.of_lift
    obtain rfl | ⟨_, hr⟩ := hr
    · exact ⟨[], .skipAll _ _⟩
    · exact ⟨[], hr.of_map.of_lift ▸ .skipAll _ _⟩
  | .definition name text fallback pos, env, env', h => by
    simp only [evalNode] at h
    obtain ⟨env₁, hv, hr⟩ := h.of_bind
    obtain rfl := hv.of_lift
    obtain rfl | ⟨value, hr⟩ := hr
    · exact ⟨[], .skipAll _ _⟩
    · obtain rfl := hr.of_map.of_modify
      cases fallback
      case false => exact ⟨[(name, value)], .write .nil⟩
      case true  => exact ⟨[], .fallback .nil⟩
  | .imports targets pos, env, env', h => by
    simp only [evalNode] at h
    exact moves_evalImports hi targets targets h
  | .rule selector children pos, env, env', h => by
    simp only [evalNode] at h
    obtain ⟨env₁, hs, hr⟩ := h.of_bind
    obtain rfl := hs.of_lift
    obtain rfl | ⟨_, hr⟩ := hr
    · exact ⟨[], .skipAll _ _⟩
    · obtain ⟨inside, hc, rfl⟩ := hr.of_map.of_inBlock
      obtain ⟨writes, hc⟩ := moves_evalNodes hi file _ children hc
      exact ⟨writes ++ [], .rule hc .nil⟩
  | .atStatement name params pos, env, env', h => by
    simp only [evalNode] at h
    exact ⟨[], h.of_map.of_lift ▸ .skipAll _ _⟩
  | .atBlock name params children pos, env, env', h => by
    simp only [evalNode] at h
    obtain ⟨env₁, hp, hr⟩ := h.of_bind
    obtain rfl := hp.of_lift
    obtain rfl | ⟨_, hr⟩ := hr
    · exact ⟨[], .skipAll _ _⟩
    · obtain ⟨inside, hc, rfl⟩ := hr.of_map.of_inBlock
      obtain ⟨writes, hc⟩ := moves_evalNodes hi file _ children hc
      exact ⟨writes ++ [], .atBlock hc .nil⟩

theorem moves_evalNodes (hi : Enters Sheet including) (file : String) (selectors : List String) :
    (nodes : List Node) → ∀ {env env'}, Leaves (evalNodes g including file selectors nodes) env env' →
      ∃ writes, Moves Sheet nodes env writes env'
  | [], env, env', h => by
    simp only [evalNodes] at h
    exact ⟨[], h.of_pure ▸ .nil⟩
  | node :: rest, env, env', h => by
    simp only [evalNodes] at h
    obtain ⟨env₁, hn, hr⟩ := h.of_bind
    obtain ⟨writes, hn⟩ := moves_evalNode hi file selectors node hn
    obtain rfl | ⟨_, hr⟩ := hr
    · exact ⟨writes ++ [], hn.append (.skipAll rest _)⟩
    · obtain ⟨more, hr⟩ := moves_evalNodes hi file selectors rest hr.of_map
      exact ⟨writes ++ more, hn.append hr⟩

end

variable {importer : String → String → ExceptT Error (StateM σ) Imported}

-- What an importer may supply, as it is read.
def Supplied (g : Grammar) (importer : String → String → ExceptT Error (StateM σ) Imported) (nodes : List Node) :
    Prop :=
  ∃ specifier importing l imported, ((importer specifier importing).run.run l).1 = .ok imported ∧
    g.parse imported.source.toList = .ok nodes

theorem enters_includeFile (g : Grammar) (importer : String → String → ExceptT Error (StateM σ) Imported)
    (budget : Nat) (file : String) : Enters (g.Supplied importer) (g.includeFile importer budget file) := by
  induction budget generalizing file
  case zero => exact fun _ _ _ _ _ h => .inl h.of_throw
  case succ budget ih =>
    rintro specifier pos selectors env env' ⟨l, h⟩
    obtain ⟨henv, hload⟩ := run_load g importer file specifier pos env l
    rw [includeFile, Stateful.run_bind₂] at h
    rcases hr : ((g.load importer file specifier pos).run.run env).run l with ⟨⟨e | imported, env₁⟩, l₁⟩
    all_goals
      rw [hr] at h henv hload
      obtain rfl : env₁ = env := henv
    case error => exact .inl h.symm
    case ok =>
      dsimp only at h
      cases hp : g.parse imported.source.toList
      all_goals rw [hp] at h
      case error => exact .inl h.symm
      case ok nodes =>
        obtain ⟨writes, hm⟩ := moves_evalNodes (ih imported.path) imported.path selectors nodes ⟨l₁, h⟩
        exact .inr ⟨nodes, writes, ⟨specifier, file, l, imported, (hload imported).1 rfl, hp⟩, hm⟩

-- The body of a rule or of an at-rule leaves the blocks around it with the names that they have, however it ends.
-- It is some of its writes, in their order, that change them, and none is a fallback. A value that is another
-- afterwards was the innermost of its name.
theorem inBlock_encloses (g : Grammar) (importer : String → String → ExceptT Error (StateM σ) Imported) (budget : Nat)
    (file : String) (selectors : List String) (children : List Node) (env : Env) (l : σ) :
    let body : Eval (StateM σ) BlockOutput :=
      inBlock (evalNodes g (g.includeFile importer budget file) file selectors children)
    let env' := ((body.run.run env).run l).1.2
    env'.scopes.length = env.scopes.length ∧
      (∀ i n, (Env.valueAt env'.scopes i n).isSome = (Env.valueAt env.scopes i n).isSome) ∧
      ∃ writes inside kept, Moves (g.Supplied importer) children env.push writes inside ∧ env' = inside.pop ∧
        List.Sublist kept writes ∧ env'.scopes = kept.foldl Env.overwrite env.scopes ∧
        ∀ i n, Env.valueAt env'.scopes i n ≠ Env.valueAt env.scopes i n →
          (∃ value, (n, value) ∈ kept) ∧ ∀ j < i, Env.valueAt env.scopes j n = none := by
  intro body env'
  obtain ⟨inside, hb, he⟩ := Leaves.of_inBlock ⟨l, rfl⟩
  obtain ⟨writes, hm⟩ := moves_evalNodes (enters_includeFile g importer budget file) file selectors children hb
  obtain ⟨kept, hk, hs⟩ := hm.rewrites 0
  have hscopes : env'.scopes = kept.foldl Env.overwrite env.scopes := by
    have hp : env'.scopes = inside.pop.scopes := congrArg Env.scopes he
    rw [hp, Env.pop, ← List.drop_one, hs]
    rfl
  obtain ⟨hlength, hnames, hchange⟩ := Env.foldl_overwrite_spec env.scopes kept
  rw [← hscopes] at hlength hnames hchange
  exact ⟨hlength, hnames, writes, inside, kept, hm, he, hk, hscopes, hchange⟩

end Grammar

end ScopedCss.Dialect
