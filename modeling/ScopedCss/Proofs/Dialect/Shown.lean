import ScopedCss.Proofs.Dialect.Global

namespace ScopedCss.Dialect

-- Where names need no sign, one without a value stays in the text: such a text shows that a variable
-- is missing.
def Shows (style : ReferenceStyle) (globals : List Global) (t : List Char) : Prop :=
  style = .bare ∧ ∃ g ∈ globals, '$' :: g.name <:+: t

-- The second text is the first, unless that shows a missing variable.
def Alike (style : ReferenceStyle) (globals : List Global) (t t' : List Char) : Prop :=
  t' = t ∨ Shows style globals t

variable {style : ReferenceStyle} {globals : List Global} {s s' t t' : List Char}

theorem Shows.of_isInfix (h : Shows style globals s) (hi : s <:+: t) : Shows style globals t := by
  obtain ⟨hs, g, hg, hg'⟩ := h
  exact ⟨hs, g, hg, hg'.trans hi⟩

namespace Alike

theorem refl (t : List Char) : Alike style globals t t :=
  .inl rfl

theorem append (h : Alike style globals s s') (h' : Alike style globals t t') :
    Alike style globals (s ++ t) (s' ++ t') := by
  obtain rfl | h := h
  · exact h'.imp (congrArg (s' ++ ·)) fun h' => h'.of_isInfix (List.suffix_append s' t).isInfix
  · exact .inr (h.of_isInfix (List.prefix_append s t).isInfix)

theorem eq_of_sigil {c : Char} (h : Alike (.sigil c) globals t t') : t' = t := by
  obtain h | ⟨hs, -⟩ := h
  · exact h
  · cases hs

end Alike

-- The name that a style stores the variable by.
def Global.key (style : ReferenceStyle) (g : Global) : String :=
  match style with
  | .sigil _ => .ofList g.name
  | .bare    => .ofList ('$' :: g.name)

-- What values have to do with each other for texts to be read alike with them.
inductive Mirrors (globals : List Global) (values values' : Values) : ReferenceStyle → Prop
  | sigil (c : Char) : (∀ n v, values n = some v → values' n = some v) → Mirrors globals values values' (.sigil c)
  | bare : (∀ n, Alike .bare globals (((values (.ofList n)).map String.toList).getD n)
    (((values' (.ofList n)).map String.toList).getD n)) → Mirrors globals values values' .bare

section

variable {values values' : Values}

-- What is read behind a text.
theorem read_behind {ε : Type} {x x' : Except ε (List Char)} {p p' : List Char}
    (hx : ∀ t, x = .ok t → ∃ t', x' = .ok t' ∧ Alike style globals t t') (hp : Alike style globals p p')
    (h : (p ++ ·) <$> x = .ok t) : ∃ t', (p' ++ ·) <$> x' = .ok t' ∧ Alike style globals t t' := by
  cases x
  case error => cases h
  case ok r =>
    cases h
    obtain ⟨r', rfl, hr⟩ := hx r rfl
    exact ⟨p' ++ r', rfl, hp.append hr⟩

theorem replaceReferences_mirrors (h : Mirrors globals values values' style) {quotes : Quotes}
    {last : Option Char} (ht : replaceReferences style values quotes last s = .ok t) :
    ∃ t', replaceReferences style values' quotes last s = .ok t' ∧ Alike style globals t t' := by
  fun_induction replaceReferences style values quotes last s generalizing t
  case case1 =>
    cases ht
    exact ⟨[], by rw [replaceReferences.eq_def]; rfl, .refl []⟩
  case case2 c s q ih =>
    rw [replaceReferences.eq_def]
    exact read_behind (p := [c]) (fun _ => ih) (.refl [c]) ht
  case case3 c s q quotes ih =>
    rw [replaceReferences.eq_def]
    exact read_behind (p := [c]) (fun _ => ih) (.refl [c]) ht
  case case4 hq ih =>
    rw [replaceReferences.eq_def]
    simp only [hq, if_true]
    exact read_behind (p := [_]) (fun _ => ih) (.refl _) ht
  case case5 hq d hs hc name value hv ih =>
    subst hs
    obtain ⟨rfl, hc⟩ := hc
    cases h
    case sigil h =>
      have hv' := h _ _ hv
      rw [replaceReferences.eq_def]
      simp only [hq, if_false, hc, and_self, if_true]
      rw [hv']
      exact read_behind (fun _ => ih) (.refl _) ht
  case case6 => cases ht
  case case7 hq d hs hc ih =>
    subst hs
    rw [replaceReferences.eq_def]
    simp only [hq, hc, if_false]
    exact read_behind (p := [_]) (fun _ => ih) (.refl _) ht
  case case8 hq hs hc word value ih =>
    subst hs
    cases h
    case bare h =>
      rw [replaceReferences.eq_def]
      simp only [hq, hc, if_false, and_self, if_true]
      exact read_behind (fun _ => ih) (h word) ht
  case case9 hq hs hc ih =>
    subst hs
    rw [replaceReferences.eq_def]
    simp only [hq, hc, if_false]
    exact read_behind (p := [_]) (fun _ => ih) (.refl _) ht

theorem references_mirrors (h : Mirrors globals values values' style) (ht : references style values s = .ok t) :
    ∃ t', references style values' s = .ok t' ∧ Alike style globals t t' := by
  unfold references at ht ⊢
  cases hr : replaceReferences style values .outside none s
  case error =>
    rw [hr] at ht
    cases ht
  case ok r =>
    rw [hr] at ht
    cases ht
    obtain ⟨r', hr', ha⟩ := replaceReferences_mirrors h hr
    rw [hr']
    exact ⟨r', rfl, ha⟩

theorem interpolate_mirrors (h : Mirrors globals values values' style) (ht : interpolate style values s = .ok t) :
    ∃ t', interpolate style values' s = .ok t' ∧ Alike style globals t t' := by
  fun_induction interpolate style values s generalizing t
  case case1 =>
    cases ht
    exact ⟨[], by rw [interpolate]; rfl, .refl []⟩
  case case2 hc inner d rest hcut ih =>
    obtain ⟨rfl, hs⟩ := hc
    rw [interpolate.eq_def]
    simp only [hs, and_self, if_true]
    split
    case h_2 hn =>
      rw [hcut] at hn
      cases hn
    case h_1 hs =>
      rw [hcut] at hs
      cases hs
      cases hr : references style values (Text.trim inner)
      case error =>
        rw [hr] at ht
        cases ht
      case ok value =>
        rw [hr] at ht
        obtain ⟨value', hv, ha⟩ := references_mirrors h hr
        rw [hv]
        exact read_behind (fun _ => ih) ha ht
  case case3 => cases ht
  case case4 hn ih =>
    rw [interpolate.eq_def]
    simp only [hn, if_false]
    exact read_behind (p := [_]) (fun _ => ih) (.refl _) ht

-- A text without interpolations, where names need no sign: what an interpolation puts in there is
-- looked through for names once more.
def Flat (style : ReferenceStyle) (t : List Char) : Prop :=
  style = .bare → ¬['#', '\x7b'] <:+: t

instance (style : ReferenceStyle) (t : List Char) : Decidable (Flat style t) :=
  inferInstanceAs (Decidable (_ → _))

theorem interpolate_flat (h : ¬['#', '\x7b'] <:+: s) : interpolate style values s = .ok s := by
  induction s
  case nil =>
    rw [interpolate]
    rfl
  case cons c s ih =>
    have hn : ¬(c = '#' ∧ s.head? = some '\x7b') := by
      rintro ⟨rfl, hs⟩
      obtain ⟨r, rfl⟩ := List.head?_eq_some_iff.1 hs
      exact h ⟨[], r, rfl⟩
    rw [interpolate, if_neg hn, ih fun hi => h (hi.trans (List.suffix_cons c s).isInfix)]
    rfl

theorem interpolate_eq (h : Mirrors globals values values' style) (hs : Flat style s)
    (ht : interpolate style values s = .ok t) : interpolate style values' s = .ok t := by
  cases style
  case bare =>
    rw [interpolate_flat (hs rfl)] at ht ⊢
    exact ht
  case sigil c =>
    obtain ⟨t', ht', ha⟩ := interpolate_mirrors h ht
    exact ha.eq_of_sigil ▸ ht'

theorem substitute_mirrors (h : Mirrors globals values values' style) (hs : Flat style s)
    (ht : substitute style values s = .ok t) :
    ∃ t', substitute style values' s = .ok t' ∧ Alike style globals t t' := by
  unfold substitute at ht ⊢
  cases hi : interpolate style values s
  case error =>
    rw [hi] at ht
    cases ht
  case ok r =>
    rw [hi] at ht
    rw [interpolate_eq h hs hi]
    exact references_mirrors h ht

-- Names that have to be free for the value of the variable to stand for itself, and for its name to
-- stand for that value.
def Global.Reserves (style : ReferenceStyle) (g : Global) (n : String) : Prop :=
  n = g.key style ∨ (style = .bare ∧ n.toList <:+: g.value)

instance (style : ReferenceStyle) (g : Global) (n : String) : Decidable (g.Reserves style n) :=
  inferInstanceAs (Decidable (_ ∨ _))

-- A text of plain words, none of which is a name in reach.
structure Inert (style : ReferenceStyle) (values : Values) (s : List Char) : Prop where
  plain : ∀ c ∈ s, isValueChar c = true
  free  : style = .bare → ∀ n, n <:+: s → values (.ofList n) = none

theorem Inert.of_suffix (h : Inert style values s) (hs : t <:+ s) : Inert style values t where
  plain c hc    := h.plain c (hs.subset hc)
  free hb n hn  := h.free hb n (hn.trans hs.isInfix)

theorem replaceReferences_inert (hd : style = .sigil '$' ∨ style = .bare) {last : Option Char}
    (h : Inert style values s) : replaceReferences style values .outside last s = .ok s := by
  have hno {c : Char} (h : style = .sigil c) : ¬isValueChar c = true := by
    obtain rfl | rfl := hd
    · cases h
      decide
    · cases h
  generalize hq : Quotes.outside = quotes
  fun_induction replaceReferences style values quotes last s
  case case1 => rfl
  case case2 => cases hq
  case case3 => cases hq
  case case4 hc _ =>
    have h := notMem_cuts (isSolid_of_isValueChar (h.plain _ List.mem_cons_self))
    obtain rfl | rfl := hc
    all_goals exact absurd (by decide) h
  case case5 d hs hc _ _ _ _ =>
    obtain ⟨rfl, -⟩ := hc
    exact absurd (h.plain _ List.mem_cons_self) (hno hs)
  case case6 d hs hc _ _ =>
    obtain ⟨rfl, -⟩ := hc
    exact absurd (h.plain _ List.mem_cons_self) (hno hs)
  case case7 hs _ ih =>
    have hr := ih (h.of_suffix (List.suffix_cons ..)) rfl
    subst hs
    rw [hr]
    rfl
  case case8 s _ _ hb _ word value ih =>
    have hw : value = word := by
      have hp : word <+: _ :: s := List.cons_prefix_cons.2 ⟨rfl, List.takeWhile_prefix _⟩
      simp only [value, h.free hb word hp.isInfix, Option.map_none, Option.getD_none]
    have hr := ih (h.of_suffix ((List.dropWhile_suffix _).trans (List.suffix_cons ..))) rfl
    subst hb
    rw [hr, hw]
    exact congrArg (fun s => Except.ok (_ :: s)) List.takeWhile_append_dropWhile
  case case9 hb _ ih =>
    have hr := ih (h.of_suffix (List.suffix_cons ..)) rfl
    subst hb
    rw [hr]
    rfl

theorem substitute_plain (hd : style = .sigil '$' ∨ style = .bare) {g : Global}
    (h : ∀ n, g.Reserves style n → values n = none) : substitute style values g.value = .ok g.value := by
  have hf : ¬['#', '\x7b'] <:+: g.value := by
    intro hi
    have hc := g.plain '\x7b' (hi.subset (by simp))
    cases hc
  have hr : replaceReferences style values .outside none g.value = .ok g.value := by
    refine replaceReferences_inert hd ⟨g.plain, fun hs n hn => h _ (.inr ⟨hs, ?_⟩)⟩
    rwa [String.toList_ofList]
  rw [substitute, interpolate_flat hf]
  change references style values g.value = _
  rw [references, hr]
  rfl

theorem substitute_name (hd : style = .sigil '$' ∨ style = .bare) {g : Global} {v : String}
    (h : values (g.key style) = some v) : substitute style values ('$' :: g.name) = .ok v.toList := by
  have hf : ¬['#', '\x7b'] <:+: '$' :: g.name := by
    intro hi
    obtain hm | hm := List.mem_cons.1 (hi.subset (by simp : '\x7b' ∈ _))
    · cases hm
    · cases g.isWordChar_name _ hm
  have ht : g.name.takeWhile Text.isWordChar = g.name := by
    simpa using Text.takeWhile_append g.isWordChar_name (t := []) rfl
  have hw : g.name.dropWhile Text.isWordChar = [] := by
    simpa using Text.dropWhile_append g.isWordChar_name (t := []) rfl
  have hnil (last : Option Char) : replaceReferences style values .outside last [] = .ok [] := by
    rw [replaceReferences.eq_def]
    rfl
  have hr : replaceReferences style values .outside none ('$' :: g.name) = .ok v.toList := by
    rw [replaceReferences.eq_def]
    obtain rfl | rfl := hd
    case inl =>
      have hs : g.name.head?.any isReferenceStart = true := by
        obtain ⟨c, t, hn, hc, -⟩ := g.named
        rw [hn]
        obtain hc | rfl := hc
        · simp [isReferenceStart, hc]
        · rfl
      have hv : values (.ofList g.name) = some v := h
      simp only [hs, ht, hw, hv, hnil]
      simp
    case inr =>
      have hv : values (.ofList ('$' :: g.name)) = some v := h
      simp only [ht, hw, hv, hnil]
      simp
  rw [substitute, interpolate_flat hf]
  change references style values ('$' :: g.name) = _
  rw [references, hr]
  rfl

end

theorem infix_between (a s b : String) : s.toList <:+: (a ++ s ++ b).toList := by
  rw [String.toList_append, String.toList_append]
  exact List.infix_append a.toList s.toList b.toList

theorem infix_atHeader (name params : String) : params.toList <:+: (atHeader name params).toList := by
  unfold atHeader
  split
  case isTrue h  => simp [h]
  case isFalse   => simpa using infix_between ("@" ++ name ++ " ") params ""

-- What is written of a style sheet has its parts in it.
namespace CssItem

theorem infix_writeRule {d : String} {declarations : List String} (hd : d ∈ declarations) (depth : Nat)
    (selectors : List String) : d.toList <:+: (writeRule depth selectors declarations).toList := by
  have hj (a b : String) : d.toList <:+: (String.join (declarations.map fun d => a ++ d ++ b)).toList := by
    obtain ⟨l, r, rfl⟩ := List.append_of_mem hd
    refine (infix_between a d b).trans
      ⟨(String.join (l.map fun d => a ++ d ++ b)).toList, (String.join (r.map fun d => a ++ d ++ b)).toList, ?_⟩
    simp
  unfold writeRule
  dsimp only
  split
  case isTrue  => exact hj (indentation depth) "\n"
  case isFalse =>
    refine (hj (indentation depth ++ "  ") "\n").trans ?_
    rw [String.append_assoc]
    exact infix_between ..

theorem infix_writeAll (depth : Nat) (item : CssItem) :
    (item.write depth).toList <:+: (writeAll depth [item]).toList := by
  simp [writeAll]

theorem infix_atStatement (depth : Nat) (header : String) :
    header.toList <:+: (writeAll depth [.atStatement header]).toList := by
  refine .trans ?_ (infix_writeAll ..)
  rw [write]
  exact infix_between ..

theorem infix_atBlock (depth : Nat) (header : String) (items : List CssItem) :
    header.toList <:+: (writeAll depth [.atBlock header items]).toList ∧
      (writeAll (depth + 1) items).toList <:+: (writeAll depth [.atBlock header items]).toList := by
  have hw := infix_writeAll depth (.atBlock header items)
  rw [write] at hw
  constructor
  case left =>
    refine .trans ?_ hw
    rw [String.append_assoc, String.append_assoc, String.append_assoc]
    exact infix_between ..
  case right =>
    refine .trans ?_ hw
    rw [String.append_assoc]
    exact infix_between ..

theorem writeAll_append (depth : Nat) (a b : List CssItem) :
    writeAll depth (a ++ b) = writeAll depth a ++ writeAll depth b := by
  induction a
  case nil            => simp [writeAll]
  case cons i rest ih => rw [List.cons_append, writeAll, writeAll, ih, String.append_assoc]

end CssItem

namespace BlockOutput

-- Declarations that show a missing variable, or items that do wherever they are written.
def Shows (style : ReferenceStyle) (globals : List Global) (o : BlockOutput) : Prop :=
  (∃ d ∈ o.declarations, Dialect.Shows style globals d.toList) ∨
    ∀ depth, Dialect.Shows style globals (CssItem.writeAll depth o.items).toList

def Alike (style : ReferenceStyle) (globals : List Global) (o o' : BlockOutput) : Prop :=
  o' = o ∨ o.Shows style globals

theorem Shows.append_left {o : BlockOutput} (h : o.Shows style globals) (o' : BlockOutput) :
    (o'.append o).Shows style globals := by
  refine h.imp (fun ⟨d, hd, hs⟩ => ⟨d, List.mem_append_right _ hd, hs⟩) fun h depth => ?_
  rw [append, CssItem.writeAll_append, String.toList_append]
  exact (h depth).of_isInfix (List.suffix_append ..).isInfix

theorem Shows.append_right {o : BlockOutput} (h : o.Shows style globals) (o' : BlockOutput) :
    (o.append o').Shows style globals := by
  refine h.imp (fun ⟨d, hd, hs⟩ => ⟨d, List.mem_append_left _ hd, hs⟩) fun h depth => ?_
  rw [append, CssItem.writeAll_append, String.toList_append]
  exact (h depth).of_isInfix (List.prefix_append ..).isInfix

-- A block that shows one does so among the items around it.
theorem Shows.toItems {o : BlockOutput} (h : o.Shows style globals) (selectors : List String) (depth : Nat) :
    Dialect.Shows style globals (CssItem.writeAll depth (o.toItems selectors)).toList := by
  unfold BlockOutput.toItems
  split
  case isTrue hn =>
    rw [List.isEmpty_iff] at hn
    obtain ⟨d, hd, -⟩ | h := h
    · rw [hn] at hd
      cases hd
    · exact h depth
  case isFalse =>
    rw [CssItem.writeAll, String.toList_append]
    obtain ⟨d, hd, hs⟩ | h := h
    · rw [CssItem.write]
      exact hs.of_isInfix ((CssItem.infix_writeRule hd depth selectors).trans (List.prefix_append ..).isInfix)
    · exact (h depth).of_isInfix (List.suffix_append ..).isInfix

namespace Alike

variable {o o' p p' : BlockOutput}

theorem append (h : Alike style globals o o') (h' : Alike style globals p p') :
    Alike style globals (o.append p) (o'.append p') := by
  obtain rfl | h := h
  · exact h'.imp (congrArg o'.append) fun h' => h'.append_left o'
  · exact .inr (h.append_right p)

theorem toItems (h : Alike style globals o o') (selectors : List String) :
    Alike style globals (ofItems (o.toItems selectors)) (ofItems (o'.toItems selectors)) := by
  obtain rfl | h := h
  · exact .inl rfl
  · exact .inr (.inr (h.toItems selectors))

theorem ofDeclaration {value value' : String} (h : Dialect.Alike style globals value.toList value'.toList)
    (property : String) :
    Alike style globals (BlockOutput.ofDeclaration (property ++ ": " ++ value ++ ";"))
      (BlockOutput.ofDeclaration (property ++ ": " ++ value' ++ ";")) := by
  obtain h | h := h
  · exact .inl (by rw [String.toList_inj.1 h])
  · exact .inr (.inl ⟨_, List.mem_singleton_self _, h.of_isInfix (infix_between ..)⟩)

variable {params params' : String}

theorem atStatement (h : Dialect.Alike style globals params.toList params'.toList) (name : String) :
    Alike style globals (ofItems [.atStatement (atHeader name params)])
      (ofItems [.atStatement (atHeader name params')]) := by
  obtain h | h := h
  · exact .inl (by rw [String.toList_inj.1 h])
  · exact .inr (.inr fun depth =>
      h.of_isInfix ((infix_atHeader name params).trans (CssItem.infix_atStatement ..)))

theorem atBlock (h : Dialect.Alike style globals params.toList params'.toList) (name : String)
    (ho : Alike style globals o o') (selectors : List String) :
    Alike style globals (ofItems [.atBlock (atHeader name params) (o.toItems selectors)])
      (ofItems [.atBlock (atHeader name params') (o'.toItems selectors)]) := by
  obtain h | h := h
  case inr =>
    exact .inr (.inr fun depth =>
      h.of_isInfix ((infix_atHeader name params).trans (CssItem.infix_atBlock ..).1))
  case inl =>
    obtain rfl | ho := ho
    · exact .inl (by rw [String.toList_inj.1 h])
    · exact .inr (.inr fun depth =>
        (ho.toItems selectors (depth + 1)).of_isInfix (CssItem.infix_atBlock ..).2)

end Alike

end BlockOutput

end ScopedCss.Dialect
