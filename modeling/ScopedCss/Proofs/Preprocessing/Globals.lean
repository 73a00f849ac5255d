import ScopedCss.Proofs.Dialect.Defined
import ScopedCss.Proofs.Preprocessing.Lines

namespace ScopedCss

namespace Dialect

-- What is read, if anything is, is such.
def IfRead {α : Type} (P : α → Prop) : Except FaultAt α → Prop
  | .ok a    => P a
  | .error _ => True

instance {α : Type} (P : α → Prop) [DecidablePred P] : DecidablePred (IfRead P)
  | .ok a    => inferInstanceAs (Decidable (P a))
  | .error _ => inferInstanceAs (Decidable True)

theorem IfRead.of_ok {α : Type} {P : α → Prop} {x : Except FaultAt α} (h : IfRead P x) {a : α} (hx : x = .ok a) :
    P a := by
  subst hx
  exact h

-- The first line of the text, if it has lines, is not indented.
def Indented.StartsOut (raw : List Char) : Prop :=
  IfRead (fun lines => ∀ l ∈ lines.head?, l.indent = 0) (Line.ofSource raw)

instance (raw : List Char) : Decidable (Indented.StartsOut raw) :=
  inferInstanceAs (Decidable (IfRead _ _))

theorem Global.name_eq_of_key {style : ReferenceStyle} {g g' : Global} (h : g.key style = g'.key style) :
    g.name = g'.name := by
  cases style
  case sigil => exact String.ofList_inj.1 h
  case bare  => exact (List.cons.inj (String.ofList_inj.1 h)).2

-- The fields of an object define these variables.
def Defines (fields : List (String × Json)) (globals : List Global) : Prop :=
  fields.map (fun f => (f.1.toList, (Options.variableValue f.2).toList)) = globals.map fun g => (g.name, g.value)

namespace Defines

variable {fields : List (String × Json)} {globals : List Global}

theorem toList_defineVariables (h : Defines fields globals) :
    (Options.defineVariables fields).toList = globals.flatMap fun g => g.text ++ [';', '\n'] := by
  induction fields generalizing globals
  case nil =>
    rw [Defines, List.map_nil, eq_comm, List.map_eq_nil_iff] at h
    subst h
    rfl
  case cons f fields ih =>
    rw [Defines, List.map_cons, eq_comm] at h
    obtain ⟨g, globals, rfl, hg, h⟩ := List.map_eq_cons_iff.1 h
    have hn : g.name = f.1.toList := congrArg Prod.fst hg
    have hv : g.value = (Options.variableValue f.2).toList := congrArg Prod.snd hg
    have ih := ih h.symm
    rw [Options.defineVariables, String.toList_join] at ih ⊢
    rw [List.map_cons, List.flatMap_cons, List.flatMap_cons, ih, Global.text, hn, hv]
    simp [ToString.toString]

theorem nodup (h : Defines fields globals) (hn : (fields.map Prod.fst).Nodup) (style : ReferenceStyle) :
    (globals.map (·.key style)).Nodup := by
  have hp : fields.map (fun f => f.1.toList) = globals.map Global.name := by
    have hp := congrArg (List.map Prod.fst) h
    rwa [List.map_map, List.map_map] at hp
  have hm : (globals.map Global.name).Nodup := by
    rw [← hp, List.Nodup, List.pairwise_map]
    rw [List.Nodup, List.pairwise_map] at hn
    exact hn.imp fun hne he => hne (String.toList_inj.1 he)
  rw [List.Nodup, List.pairwise_map] at hm ⊢
  exact hm.imp fun hne hk => hne (Global.name_eq_of_key hk)

end Defines

end Dialect

namespace Options

theorem prelude_of_settle {o : Options} {disk : Disk} {base : String} {renderers : Renderers} {s : Settings}
    (h : o.settle disk base renderers = .ok s) :
    ∃ base, o.prelude disk base = .ok s.prelude := by
  unfold settle at h
  dsimp only at h
  generalize String.ofList _ = folder at h
  refine ⟨folder, ?_⟩
  cases hp : o.prelude disk folder
  case error =>
    rw [hp] at h
    cases h
  case ok text =>
    rw [hp] at h
    simp only [bind, Except.bind] at h
    repeat' split at h
    all_goals cases h
    rfl

theorem prelude_object {o : Options} {fields : List (String × Json)} (hv : o.globalVariables = [.object fields])
    (ht : o.globalText = "") (disk : Disk) (base : String) : o.prelude disk base = .ok (defineVariables fields) := by
  rw [prelude, hv, ht]
  simp [preludeSection]
  rfl

end Options

namespace Dialect

-- A sheet in a dialect that knows the definitions of global variables is read behind them.
theorem parse_globals {d : Dialect} (hd : d ≠ .less) (globals : List Global) {raw : List Char} {nodes : List Node}
    (h : d.grammar.parse raw = .ok nodes) (hr : d = .stylus → Indented.StartsOut raw) :
    ∃ read, d.grammar.parse (globals.flatMap (fun g => g.text ++ [';', '\n']) ++ '\n' :: '\n' :: raw) = .ok read ∧
      Node.allUnplaced read =
        globals.map (fun g => .definition (g.key d.grammar.style) (.ofList g.value) false .start) ++
          Node.allUnplaced nodes := by
  cases d
  case sass   => exact Brace.parse_globals globals h
  case less   => exact absurd rfl hd
  case stylus => exact Indented.parse_globals globals h fun _ => (hr rfl).of_ok

theorem isDollar {d : Dialect} (hd : d ≠ .less) : d.grammar.style = .sigil '$' ∨ d.grammar.style = .bare := by
  cases d
  case sass   => exact .inl rfl
  case less   => exact absurd rfl hd
  case stylus => exact .inr rfl

-- A sheet and all that it may import, in which nothing turns on the variables being defined in front of
-- it, and which leave those alone that are filled in.
structure Suits {σ : Type} (d : Dialect) (globals filled : List Global) (raw : String)
    (importer : String → String → ExceptT Error (StateM σ) Imported) : Prop where
  sheet   : IfRead (Node.AllFit d.grammar.style globals filled) (d.grammar.parse raw.toList)
  imports : Grammar.Supplies
    (fun i => IfRead (Node.AllFit d.grammar.style globals filled) (d.grammar.parse i.source.toList)) importer
  begins  : d = .stylus → Indented.StartsOut raw.toList

end Dialect

namespace Settings

open Dialect

variable {d : Dialect} {o : Options} {fields : List (String × Json)} {globals filled : List Global} {disk : Disk}
  {base : String} {renderers : Renderers} {s : Settings} {σ : Type}
  {importer : String → String → ExceptT Error (StateM σ) Imported} {raw file css : String} {l l' : σ}

theorem render_filled (hd : d ≠ .less) (hv : o.globalVariables = [.object fields]) (ht : o.globalText = "")
    (hg : Defines fields globals) (hn : (fields.map Prod.fst).Nodup) (hs : o.settle disk base renderers = .ok s)
    (hf : filled ⊆ globals) (hraw : d.Suits globals filled raw importer)
    (h : ((d.grammar.filling filled).render importer file raw).run.run l = (.ok css, l'))
    (hc : ¬Shows d.grammar.style globals css.toList) :
    (d.grammar.render importer file (s.withPrelude raw)).run.run l = (.ok css, l') := by
  have hp : s.prelude = Options.defineVariables fields := by
    obtain ⟨base, hp⟩ := Options.prelude_of_settle hs
    rw [Options.prelude_object hv ht] at hp
    exact (Except.ok.inj hp).symm
  have hi : Grammar.Supplies (fun i => ∀ nodes, d.grammar.parse i.source.toList = .ok nodes →
      Node.AllFit d.grammar.style globals filled nodes) importer :=
    fun specifier importing l i hi nodes => (hraw.imports specifier importing l i hi).of_ok
  refine Grammar.render_defined (isDollar hd) rfl (hg.nodup hn _) hf hi (fun _ => hraw.sheet.of_ok)
    (fun nodes hnodes => ?_) h hc
  have hl := hg.toList_defineVariables
  rw [toList_withPrelude, gap, hp, hl]
  split
  case isFalse => simpa using parse_globals hd globals hnodes hraw.begins
  case isTrue hempty =>
    rw [hempty] at hl
    cases globals
    case nil       => exact ⟨nodes, hnodes, rfl⟩
    case cons g gs => simp [Global.text] at hl

end Settings

end ScopedCss
