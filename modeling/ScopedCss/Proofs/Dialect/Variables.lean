import ScopedCss.Proofs.Dialect.Agree
import ScopedCss.Proofs.Dialect.Shown
import ScopedCss.Proofs.Stateful

namespace ScopedCss.Dialect

namespace Env

variable {env : Env} {scopes scopes' : List (Dict String)} {name value : String}

-- The values that a name has in the blocks, from the innermost on.
def values (env : Env) (name : String) : List String :=
  env.scopes.filterMap (·.get? name)

theorem lookup_eq (env : Env) (name : String) : env.lookup name = (env.values name).head? :=
  List.head?_filterMap.symm

theorem hoisted_assign (env : Env) (name value : String) (fallback : Bool) :
    (env.assign name value fallback).hoisted = env.hoisted := by
  unfold assign
  split
  case h_1 => rfl
  case h_2 => split <;> rfl

-- The blocks, but for what the name is in them.
abbrev SameBut (name : String) : List (Dict String) → List (Dict String) → Prop :=
  List.Forall₂ fun d d' => ∀ n, n ≠ name → d'.get? n = d.get? n

theorem SameBut.refl (name : String) (scopes : List (Dict String)) : SameBut name scopes scopes :=
  List.forall₂_same.2 fun _ _ _ _ => rfl

theorem SameBut.insert (d : Dict String) (name value : String) (scopes : List (Dict String)) :
    SameBut name (d :: scopes) (d.insert name value :: scopes) := by
  refine .cons (fun n hn => ?_) (SameBut.refl name scopes)
  rw [Dict.get?_insert, if_neg hn]

theorem SameBut.values (h : SameBut name scopes scopes') {n : String} (hn : n ≠ name) :
    scopes'.filterMap (·.get? n) = scopes.filterMap (·.get? n) := by
  induction h
  case nil => rfl
  case cons hd _ ih => rw [List.filterMap_cons, List.filterMap_cons, hd n hn, ih]

-- A name that has a value gets another in the same block.
theorem assignIn_some (h : assignIn name value false scopes = some scopes') :
    SameBut name scopes scopes' ∧ ∃ v vs, scopes.filterMap (·.get? name) = v :: vs ∧
      scopes'.filterMap (·.get? name) = value :: vs := by
  induction scopes generalizing scopes'
  case nil => cases h
  case cons d ds ih =>
    simp only [assignIn] at h
    split at h
    case isTrue hd =>
      cases h
      obtain ⟨v, hv⟩ := Option.isSome_iff_exists.1 hd
      exact ⟨SameBut.insert d name value ds, v, ds.filterMap (·.get? name), by simp [hv], by simp⟩
    case isFalse hd =>
      obtain ⟨ds', hs, rfl⟩ := Option.map_eq_some_iff.1 h
      obtain ⟨ho, v, vs, hv, hv'⟩ := ih hs
      have hd : d.get? name = none := by simpa [Dict.contains] using hd
      exact ⟨.cons (fun _ _ => rfl) ho, v, vs, by simp [hd, hv], by simp [hd, hv']⟩

theorem assignIn_isSome (name value : String) (fallback : Bool) (scopes : List (Dict String)) :
    (assignIn name value fallback scopes).isSome = (scopes.findSome? (·.get? name)).isSome := by
  induction scopes
  case nil => rfl
  case cons d ds ih =>
    rw [assignIn, List.findSome?_cons, Dict.contains]
    cases hd : d.get? name
    case some => simp
    case none => simpa using ih

theorem sameBut_assign (env : Env) (name value : String) :
    SameBut name env.scopes (env.assign name value false).scopes := by
  unfold assign
  split
  case h_1 h => exact (assignIn_some h).1
  case h_2 =>
    split
    case h_1          => exact SameBut.refl name env.scopes
    case h_2 d ds hds =>
      rw [hds]
      exact SameBut.insert d name value ds

theorem values_assign_ne {n : String} (h : n ≠ name) (env : Env) (value : String) :
    (env.assign name value false).values n = env.values n :=
  (sameBut_assign env name value).values h

theorem assignIn_eq_none (name value : String) (fallback : Bool) :
    assignIn name value fallback env.scopes = none ↔ env.lookup name = none := by
  rw [← Option.isNone_iff_eq_none, ← Option.isNone_iff_eq_none, ← Option.not_isSome, ← Option.not_isSome,
    assignIn_isSome]
  rfl

theorem assign_of_lookup_none (h : env.lookup name = none) (hs : env.scopes ≠ []) (value : String)
    (fallback : Bool) :
    ∃ d ds, env.scopes = d :: ds ∧ env.assign name value fallback = { env with scopes := d.insert name value :: ds } := by
  have hn := (assignIn_eq_none name value fallback).2 h
  obtain ⟨d, ds, hd⟩ := List.exists_cons_of_ne_nil hs
  refine ⟨d, ds, hd, ?_⟩
  rw [assign, hn, hd]

theorem values_assign (hs : env.scopes ≠ []) (name value : String) :
    (env.assign name value false).values name = value :: (env.values name).tail := by
  cases ha : assignIn name value false env.scopes
  case some scopes =>
    obtain ⟨-, v, vs, hv, hv'⟩ := assignIn_some ha
    rw [assign, ha]
    exact hv'.trans (congrArg (fun l => value :: l.tail) hv.symm)
  case none =>
    have hn := (assignIn_eq_none name value false).1 ha
    obtain ⟨d, ds, hd, ha⟩ := assign_of_lookup_none hn hs value false
    rw [lookup_eq, List.head?_eq_none_iff] at hn
    have hds : ds.filterMap (·.get? name) = [] := by
      rw [values, hd, List.filterMap_cons] at hn
      cases hg : d.get? name
      case none => simpa [hg] using hn
      case some => simp [hg] at hn
    rw [ha, hn]
    simp [values, hds]

-- A fallback counts only where the name has no value.
theorem assign_fallback (env : Env) (name value : String) :
    env.assign name value true = if (env.lookup name).isSome then env else env.assign name value false := by
  have hs {scopes scopes' : List (Dict String)} (h : assignIn name value true scopes = some scopes') :
      scopes' = scopes := by
    induction scopes generalizing scopes'
    case nil => cases h
    case cons d ds ih =>
      simp only [assignIn] at h
      split at h
      case isTrue => exact (Option.some.inj h).symm
      case isFalse =>
        obtain ⟨ds', hs, rfl⟩ := Option.map_eq_some_iff.1 h
        rw [ih hs]
  cases hl : env.lookup name
  case none =>
    simp only [assign, (assignIn_eq_none name value _).2 hl]
    rfl
  case some v =>
    cases ha : assignIn name value true env.scopes
    case none =>
      rw [assignIn_eq_none, hl] at ha
      cases ha
    case some scopes =>
      rw [assign, ha, hs ha]
      rfl

theorem values_pop (env : Env) (name : String) : env.pop.values name <:+ env.values name := by
  have hd : env.pop.scopes <:+ env.scopes := List.tail_suffix env.scopes
  exact hd.filterMap _

theorem values_pop_of_singleton {v : String} (h : env.values name = [v]) :
    env.pop.values name = [v] ∨ env.pop.values name = [] := by
  have hs := env.values_pop name
  rw [h, List.suffix_cons_iff] at hs
  exact hs.imp_right List.suffix_nil.1

theorem lookup_isSome_iff (env : Env) (name : String) : (env.lookup name).isSome ↔ env.values name ≠ [] := by
  rw [lookup_eq]
  cases env.values name
  all_goals simp

end Env

-- The values of names that are none of the global variables are alike.
def AlikeApart (style : ReferenceStyle) (globals : List Global) (d d' : Dict String) : Prop :=
  ∀ n, (∀ g ∈ globals, n ≠ g.key style) →
    Option.Rel (fun v v' => Alike style globals v.toList v'.toList) (d.get? n) (d'.get? n)

-- The state of an evaluation of a sheet alone, and of one behind the definitions of global variables:
-- these have one value, which the sheet may have given them itself. The variables that are filled in
-- keep theirs, and alone there is none by such a name.
structure Env.Behind (style : ReferenceStyle) (globals filled : List Global) (alone behind : Env) : Prop where
  among   : filled ⊆ globals
  hoisted : behind.hoisted = alone.hoisted
  others  : List.Forall₂ (AlikeApart style globals) alone.scopes behind.scopes
  keys    : ∀ g ∈ globals, ∃ v', behind.values (g.key style) = [v'] ∧
    ∀ v vs, alone.values (g.key style) = v :: vs → vs = [] ∧ Alike style globals v.toList v'.toList
  filled  : ∀ g ∈ filled, behind.values (g.key style) = [.ofList g.value] ∧
    ∀ n, g.Reserves style n → alone.values n = []

section

variable {style : ReferenceStyle} {globals filled : List Global} {name value value' : String}
  {scopes scopes' : List (Dict String)} {alone behind : Env}

namespace AlikeApart

theorem insert {d d' : Dict String} (h : AlikeApart style globals d d')
    (hv : Alike style globals value.toList value'.toList) (name : String) :
    AlikeApart style globals (d.insert name value) (d'.insert name value') := by
  intro n hn
  rw [Dict.get?_insert, Dict.get?_insert]
  split
  case isTrue  => exact .some hv
  case isFalse => exact h n hn

theorem lookup (h : List.Forall₂ (AlikeApart style globals) scopes scopes') {n : String}
    (hn : ∀ g ∈ globals, n ≠ g.key style) :
    Option.Rel (fun v v' => Alike style globals v.toList v'.toList)
      (scopes.findSome? (·.get? n)) (scopes'.findSome? (·.get? n)) := by
  induction h
  case nil => exact .none
  case cons d d' _ _ hd _ ih =>
    have hd := hd n hn
    rw [List.findSome?_cons, List.findSome?_cons]
    generalize d.get? n = v at hd ⊢
    generalize d'.get? n = v' at hd ⊢
    cases hd
    case some hv => exact .some hv
    case none    => exact ih

theorem assignIn (h : List.Forall₂ (AlikeApart style globals) scopes scopes')
    (hn : ∀ g ∈ globals, name ≠ g.key style) (hv : Alike style globals value.toList value'.toList) :
    Option.Rel (List.Forall₂ (AlikeApart style globals)) (Env.assignIn name value false scopes)
      (Env.assignIn name value' false scopes') := by
  induction h
  case nil => exact .none
  case cons d d' ds ds' hd hs ih =>
    have hc : d'.contains name = d.contains name := by
      have hd := hd name hn
      rw [Dict.contains, Dict.contains]
      generalize d.get? name = v at hd ⊢
      generalize d'.get? name = v' at hd ⊢
      cases hd <;> rfl
    simp only [Env.assignIn, hc]
    split
    case isTrue => exact .some (.cons (hd.insert hv name) hs)
    case isFalse =>
      generalize Env.assignIn name value false ds = rest at ih ⊢
      generalize Env.assignIn name value' false ds' = rest' at ih ⊢
      cases ih
      case some ih => exact .some (.cons hd ih)
      case none    => exact .none

theorem assign (h : List.Forall₂ (AlikeApart style globals) alone.scopes behind.scopes)
    (hn : ∀ g ∈ globals, name ≠ g.key style) (hv : Alike style globals value.toList value'.toList) :
    List.Forall₂ (AlikeApart style globals) (alone.assign name value false).scopes
      (behind.assign name value' false).scopes := by
  obtain ⟨scopes, _⟩ := alone
  obtain ⟨scopes', _⟩ := behind
  have ha := assignIn h hn hv
  unfold Env.assign
  dsimp only at h ha ⊢
  generalize Env.assignIn name value false scopes = assigned at ha ⊢
  generalize Env.assignIn name value' false scopes' = assigned' at ha ⊢
  cases ha
  case some ha => exact ha
  case none =>
    cases h
    case nil        => exact .nil
    case cons hd hs => exact .cons (hd.insert hv name) hs

-- What is done to global variables has no part in it.
theorem sameBut (h : List.Forall₂ (AlikeApart style globals) scopes scopes') {later later' : List (Dict String)}
    {g : Global} (hg : g ∈ globals) (hs : Env.SameBut (g.key style) scopes later)
    (hs' : Env.SameBut (g.key style) scopes' later') : List.Forall₂ (AlikeApart style globals) later later' := by
  induction h generalizing later later'
  case nil =>
    cases hs
    cases hs'
    exact .nil
  case cons hd _ ih =>
    cases hs
    case cons he hs =>
      cases hs'
      case cons he' hs' =>
        refine .cons (fun n hn => ?_) (ih hs hs')
        rw [he n (hn g hg), he' n (hn g hg)]
        exact hd n hn

end AlikeApart

namespace Env.Behind

theorem lookup (h : Behind style globals filled alone behind) (n : String) :
    Option.Rel (fun v v' => Alike style globals v.toList v'.toList) (alone.lookup n) (behind.lookup n) ∨
      ∃ g ∈ globals, n = g.key style ∧ alone.lookup n = none := by
  by_cases hn : ∀ g ∈ globals, n ≠ g.key style
  case pos => exact .inl (AlikeApart.lookup h.others hn)
  case neg =>
    push Not at hn
    obtain ⟨g, hg, rfl⟩ := hn
    obtain ⟨v', hv', ha⟩ := h.keys g hg
    cases hv : alone.lookup (g.key style)
    case none => exact .inr ⟨g, hg, rfl, rfl⟩
    case some v =>
      rw [lookup_eq, List.head?_eq_some_iff] at hv
      obtain ⟨vs, hv⟩ := hv
      rw [lookup_eq, hv']
      exact .inl (.some (ha v vs hv).2)

theorem mirrors (h : Behind style globals filled alone behind) (hd : style = .sigil '$' ∨ style = .bare) :
    Mirrors globals alone.lookup behind.lookup style := by
  obtain rfl | rfl := hd
  case inl =>
    refine .sigil '$' fun n v hv => ?_
    obtain hr | ⟨_, _, _, hn⟩ := h.lookup n
    · rw [hv] at hr
      generalize behind.lookup n = v' at hr
      cases hr
      case some ha => rw [String.toList_inj.1 ha.eq_of_sigil]
    · rw [hv] at hn
      cases hn
  case inr =>
    refine .bare fun n => ?_
    obtain hr | ⟨g, hg, hk, hn⟩ := h.lookup (.ofList n)
    · generalize alone.lookup (.ofList n) = v at hr ⊢
      generalize behind.lookup (.ofList n) = v' at hr ⊢
      cases hr
      case some ha => exact ha
      case none    => exact .refl n
    · rw [hn]
      exact .inr ⟨rfl, g, hg, by rw [String.ofList_inj.1 hk]; exact List.infix_rfl⟩

theorem push (h : Behind style globals filled alone behind) :
    Behind style globals filled alone.push behind.push where
  among   := h.among
  hoisted := h.hoisted
  others  := .cons (fun _ _ => .none) h.others
  keys    := h.keys
  filled  := h.filled

theorem pop (h : Behind style globals filled alone behind)
    (hk : ∀ g ∈ globals, (behind.pop.lookup (g.key style)).isSome) :
    Behind style globals filled alone.pop behind.pop where
  among   := h.among
  hoisted := h.hoisted
  others  := by
    have ho := h.others
    unfold Env.pop
    generalize alone.scopes = scopes at ho ⊢
    generalize behind.scopes = scopes' at ho ⊢
    cases ho
    case nil       => exact .nil
    case cons _ ho => exact ho
  keys g hg := by
    obtain ⟨v', hv', ha⟩ := h.keys g hg
    have hn := (lookup_isSome_iff _ _).1 (hk g hg)
    refine ⟨v', (values_pop_of_singleton hv').resolve_right hn, fun v vs hv => ?_⟩
    cases hu : alone.values (g.key style)
    case nil =>
      have hs := alone.values_pop (g.key style)
      rw [hu, hv] at hs
      cases List.suffix_nil.1 hs
    case cons u us =>
      obtain ⟨rfl, hau⟩ := ha u us hu
      obtain hp | hp := values_pop_of_singleton hu
      all_goals
        rw [hv] at hp
        cases hp
      exact ⟨rfl, hau⟩
  filled g hg := by
    obtain ⟨hv, hf⟩ := h.filled g hg
    have hn := (lookup_isSome_iff _ _).1 (hk g (h.among hg))
    refine ⟨(values_pop_of_singleton hv).resolve_right hn, fun n hr => ?_⟩
    have hs := alone.values_pop n
    rw [hf n hr] at hs
    exact List.suffix_nil.1 hs

theorem assign (h : Behind style globals filled alone behind) (hr : ∀ g ∈ filled, ¬g.Reserves style name)
    (hv : Alike style globals value.toList value'.toList) :
    Behind style globals filled (alone.assign name value false) (behind.assign name value' false) where
  among   := h.among
  hoisted := by rw [hoisted_assign, hoisted_assign, h.hoisted]
  others  := by
    by_cases hn : ∀ g ∈ globals, name ≠ g.key style
    case pos => exact AlikeApart.assign h.others hn hv
    case neg =>
      push Not at hn
      obtain ⟨g, hg, rfl⟩ := hn
      exact AlikeApart.sameBut h.others hg (sameBut_assign ..) (sameBut_assign ..)
  keys g hg := by
    obtain ⟨v', hv', ha⟩ := h.keys g hg
    by_cases hk : g.key style = name
    case neg =>
      rw [values_assign_ne hk, values_assign_ne hk]
      exact ⟨v', hv', ha⟩
    case pos =>
      subst hk
      have hb : behind.scopes ≠ [] := by
        intro hb
        rw [values, hb] at hv'
        cases hv'
      have hal : alone.scopes ≠ [] := by
        intro ha
        have hl := h.others.length_eq
        rw [ha, eq_comm, List.length_nil, List.length_eq_zero_iff] at hl
        exact hb hl
      rw [values_assign hb, hv', values_assign hal]
      refine ⟨value', rfl, fun v vs he => ?_⟩
      cases he
      refine ⟨?_, hv⟩
      cases hu : alone.values (g.key style)
      case nil       => rfl
      case cons u us => exact (ha u us hu).1
  filled g hg := by
    obtain ⟨hv, hf⟩ := h.filled g hg
    have hk : g.key style ≠ name := fun hk => hr g hg (.inl hk.symm)
    refine ⟨by rw [values_assign_ne hk, hv], fun n hn => ?_⟩
    have hnn : n ≠ name := fun he => hr g hg (he ▸ hn)
    rw [values_assign_ne hnn, hf n hn]

-- A fallback may not be one of a global variable: alone it would count.
theorem assign_fallback (h : Behind style globals filled alone behind) (hn : ∀ g ∈ globals, name ≠ g.key style)
    (hr : ∀ g ∈ filled, ¬g.Reserves style name) (hv : Alike style globals value.toList value'.toList) :
    Behind style globals filled (alone.assign name value true) (behind.assign name value' true) := by
  have hs : (behind.lookup name).isSome = (alone.lookup name).isSome := by
    have ho := AlikeApart.lookup h.others hn
    unfold Env.lookup
    generalize alone.scopes.findSome? (·.get? name) = v at ho ⊢
    generalize behind.scopes.findSome? (·.get? name) = v' at ho ⊢
    cases ho <;> rfl
  rw [Env.assign_fallback, Env.assign_fallback, hs]
  split
  case isTrue  => exact h
  case isFalse => exact h.assign hr hv

end Env.Behind

end

end ScopedCss.Dialect
