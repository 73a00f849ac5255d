import Mathlib.Data.List.Infix
import Mathlib.Data.List.Nodup
import ScopedCss.Proofs.Text.Suffix
import ScopedCss.Text.Cut

namespace ScopedCss.Text

section

variable {old new rest s t : List Char} {c : Char}

theorem startsWith_eq_true_iff : startsWith old s = true ↔ old <+: s := by
  rw [startsWith, Option.isSome_iff_exists]
  constructor
  case mp  => exact fun ⟨rest, h⟩ => ⟨rest, (dropPrefix?_eq_some_iff.1 h).symm⟩
  case mpr => exact fun ⟨rest, h⟩ => ⟨rest, dropPrefix?_eq_some_iff.2 h.symm⟩

-- A text without a character is found on one side of it, if at all.
theorem infix_append_cons (hc : c ∉ old) (h : old <:+: s ++ c :: t) : old <:+: s ∨ old <:+: t := by
  obtain ⟨before, after, he⟩ := h
  rw [List.append_assoc, List.append_eq_append_iff] at he
  rcases he with ⟨u, rfl, hu⟩ | ⟨u, rfl, hu⟩
  case inl =>
    rcases List.append_eq_append_iff.1 hu with ⟨v, rfl, -⟩ | ⟨v, rfl, hv⟩
    case inl => exact .inl ⟨before, v, by simp⟩
    case inr =>
      rcases v with _ | ⟨d, v⟩
      case nil  => exact .inl ⟨before, [], by simp⟩
      case cons => exact absurd (List.mem_append_right _ (by simp [(List.cons.inj hv).1])) hc
  case inr =>
    rcases u with _ | ⟨d, u⟩
    case nil =>
      rcases old with _ | ⟨d, old⟩
      case nil  => exact .inl ⟨[], s, by simp⟩
      case cons => exact absurd (by simp [(List.cons.inj hu).1]) hc
    case cons => exact .inr ⟨u, after, by simp [(List.cons.inj hu).2]⟩

theorem replaceFrom_eq (old new : List Char) (skip : Nat) (s : List Char) :
    replaceFrom old new skip s = replace old new (s.drop skip) := by
  induction skip generalizing s
  case zero         => rfl
  case succ skip ih =>
    cases s
    case nil  => rfl
    case cons => exact ih _

theorem replace_cons (new : List Char) (h : ¬old <+: c :: s) : replace old new (c :: s) = c :: replace old new s := by
  have hstart : startsWith old (c :: s) = false := Bool.eq_false_iff.2 fun hs => h (startsWith_eq_true_iff.1 hs)
  rw [replace, replaceFrom, hstart]
  rfl

theorem replace_eq_self (new : List Char) (h : ¬old <:+: s) : replace old new s = s := by
  induction s
  case nil => rfl
  case cons d s ih => rw [replace_cons new fun hp => h hp.isInfix, ih fun hs => h (List.infix_cons hs)]

-- Where the first character of a text does not come again in it, it is found where it stands, and not before.
theorem replace_append (new t : List Char) (ho : old = c :: rest) (hc : c ∉ rest) (h : ¬old <:+: s) :
    replace old new (s ++ old ++ t) = s ++ new ++ replace old new t := by
  subst ho
  induction s
  case nil =>
    have hstart : startsWith (c :: rest) (c :: (rest ++ t)) = true := startsWith_eq_true_iff.2 ⟨t, rfl⟩
    rw [List.nil_append, List.cons_append, replace, replaceFrom, if_pos hstart, replaceFrom_eq, List.length_cons,
      Nat.add_sub_cancel, List.drop_left, List.nil_append]
  case cons d s ih =>
    have hd : ¬c :: rest <+: d :: (s ++ c :: rest ++ t) := by
      intro hprefix
      have hlonger : d :: s <+: d :: (s ++ c :: rest ++ t) := ⟨c :: rest ++ t, by simp⟩
      rcases List.prefix_or_prefix_of_prefix hprefix hlonger with hp | ⟨more, hmore⟩
      · exact h hp.isInfix
      · -- What is missing begins with the same character once more.
        have hp : more <+: c :: rest ++ t := by
          obtain ⟨after, ha⟩ := hprefix
          have hafter : d :: s ++ (more ++ after) = d :: s ++ (c :: rest ++ t) := by
            rw [← List.append_assoc, hmore, ha]
            simp
          exact ⟨after, List.append_cancel_left hafter⟩
        rcases more with _ | ⟨e, more⟩
        · exact h ⟨[], [], by simpa using hmore.symm⟩
        · obtain rfl : e = c := (List.cons_prefix_cons.1 hp).1
          rw [List.cons_append] at hmore
          exact hc ((List.cons.inj hmore).2 ▸ List.mem_append_right _ (.head _))
    have hs := ih fun hs => h (List.infix_cons hs)
    rw [List.cons_append, List.cons_append, replace_cons new hd, hs]
    rfl

theorem replace_once (new : List Char) (ho : old = c :: rest) (hc : c ∉ rest) (hs : ¬old <:+: s) (ht : ¬old <:+: t) :
    replace old new (s ++ old ++ t) = s ++ new ++ t := by
  rw [replace_append new t ho hc hs, replace_eq_self new ht]

end

-- A rule is a text to look for and what stands in its place. Characters `skip` ahead belong to an
-- occurrence that was just replaced.
def replaceEachFrom (rules : List (List Char × List Char)) : (skip : Nat) → List Char → List Char
  | _, []            => []
  | skip + 1, _ :: s => replaceEachFrom rules skip s
  | 0, c :: s        =>
    match rules.find? fun (old, _) => startsWith old (c :: s) with
    | some (old, new) => new ++ replaceEachFrom rules (old.length - 1) s
    | none            => c :: replaceEachFrom rules 0 s

-- Every occurrence of every rule is replaced, and what is put in is not looked at again.
def replaceEach (rules : List (List Char × List Char)) (s : List Char) : List Char :=
  replaceEachFrom rules 0 s

-- A name in braces.
def IsMark (m : List Char) : Prop :=
  ∃ name, m = '\x7b' :: (name ++ ['\x7d']) ∧ '\x7b' ∉ name ∧ '\x7d' ∉ name

-- No occurrence comes about by replacing: each is one of the text.
def MakesNone (rules : List (List Char × List Char)) (m s : List Char) : Prop :=
  ∀ u v, replaceEach rules s = u ++ m ++ v →
    ∃ x y, s = x ++ m ++ y ∧ replaceEach rules x = u ∧ replaceEach rules y = v

-- Every opening brace begins a mark.
inductive Paired : List Char → Prop
  | nil : Paired []
  | mark {m s : List Char} : IsMark m → Paired s → Paired (m ++ s)
  | char {c : Char} {s : List Char} : c ≠ '\x7b' → Paired s → Paired (c :: s)

section

variable {rules : List (List Char × List Char)} {old new m s t : List Char} {c : Char}

namespace IsMark

theorem ne_nil (h : IsMark m) : m ≠ [] := by
  obtain ⟨name, rfl, -⟩ := h
  exact List.cons_ne_nil _ _

-- Two marks in a text are the same one, or the second stands behind the first.
theorem apart {m' x y : List Char} (h : IsMark m) (h' : IsMark m') (he : x ++ m' ++ y = m ++ s) :
    (x = [] ∧ m' = m ∧ y = s) ∨ ∃ x', x = m ++ x' ∧ x' ++ m' ++ y = s := by
  obtain ⟨name, rfl, ho, hc⟩ := h
  obtain ⟨name', rfl, -, hc'⟩ := h'
  rw [List.append_assoc, List.append_eq_append_iff] at he
  rcases he with ⟨z, hz, he⟩ | ⟨x', hx, he⟩
  case inr => exact .inr ⟨x', hx, by rw [he, List.append_assoc]⟩
  case inl =>
    rcases x with _ | ⟨d, x⟩
    case nil =>
      rw [List.nil_append] at hz
      subst hz
      simp only [List.cons_append, List.append_assoc, List.nil_append, List.cons.injEq, true_and] at he
      have hcut {name rest : List Char} (hn : '\x7d' ∉ name) :
          cut? (· == '\x7d') (name ++ '\x7d' :: rest) = some (name, '\x7d', rest) :=
        cut?_append (fun d hd => by simpa using fun he : d = '\x7d' => hn (he ▸ hd)) rfl rest
      have hsame := congrArg (cut? (· == '\x7d')) he
      rw [hcut hc', hcut hc] at hsame
      cases hsame
      exact .inl ⟨rfl, rfl, rfl⟩
    case cons =>
      -- The second mark would begin with a brace inside the first one.
      obtain ⟨hd, hz⟩ := List.cons.inj hz
      rcases z with _ | ⟨e, z⟩
      case nil => exact .inr ⟨[], by simp [hz, ← hd], by simpa using he⟩
      case cons =>
        obtain rfl := (List.cons.inj he).1
        have hm : '\x7b' ∈ name ++ ['\x7d'] := hz ▸ List.mem_append_right _ (.head _)
        simp [ho] at hm

end IsMark

theorem replaceEachFrom_eq (rules : List (List Char × List Char)) (skip : Nat) (s : List Char) :
    replaceEachFrom rules skip s = replaceEach rules (s.drop skip) := by
  induction skip generalizing s
  case zero         => rfl
  case succ skip ih =>
    cases s
    case nil  => rfl
    case cons => exact ih _

theorem replaceEach_cons (h : ∀ r ∈ rules, ¬r.1 <+: c :: s) : replaceEach rules (c :: s) = c :: replaceEach rules s := by
  have hfind : rules.find? (fun r => startsWith r.1 (c :: s)) = none := by
    refine List.find?_eq_none.2 fun r hr hs => h r hr (startsWith_eq_true_iff.1 hs)
  rw [replaceEach, replaceEachFrom, hfind]
  rfl

theorem replace_eq_replaceEach (old new s : List Char) : replace old new s = replaceEach [(old, new)] s := by
  have hfrom (skip : Nat) : replaceFrom old new skip s = replaceEachFrom [(old, new)] skip s := by
    fun_induction replaceFrom old new skip s
    case case1      => cases ‹Nat› <;> rfl
    case case2 ih   => exact ih
    case case3 h ih => simp [replaceEachFrom, h, ih]
    case case4 h ih => simp [replaceEachFrom, h, ih]
  exact hfrom 0

-- What stands in front of all occurrences stays as it is.
theorem replaceEach_append {w : List Char}
    (h : ∀ r ∈ rules, ∀ u v, w ++ t = u ++ r.1 ++ v → w.length ≤ u.length) :
    replaceEach rules (w ++ t) = w ++ replaceEach rules t := by
  induction w
  case nil => rfl
  case cons c w ih =>
    have hnone : ∀ r ∈ rules, ¬r.1 <+: c :: (w ++ t) := fun r hr ⟨v, hv⟩ => by
      simpa using h r hr [] v (by simpa using hv.symm)
    have hw := ih fun r hr u v he => by simpa using h r hr (c :: u) v (by simp [he])
    rw [List.cons_append, replaceEach_cons hnone, hw, List.cons_append]

-- Rules for different marks.
structure Marked (rules : List (List Char × List Char)) : Prop where
  mark  : ∀ r ∈ rules, IsMark r.1
  nodup : (rules.map Prod.fst).Nodup

theorem Marked.replaceEach_mark (h : Marked rules) (hr : (old, new) ∈ rules) (s : List Char) :
    replaceEach rules (old ++ s) = new ++ replaceEach rules s := by
  have hold := h.mark _ hr
  obtain ⟨c, rest, rfl⟩ := List.exists_cons_of_ne_nil hold.ne_nil
  cases hfind : rules.find? (fun r => startsWith r.1 (c :: (rest ++ s)))
  case none =>
    refine absurd (startsWith_eq_true_iff.2 ?_) (List.find?_eq_none.1 hfind _ hr)
    exact ⟨s, rfl⟩
  case some r =>
    have hmem := List.mem_of_find?_eq_some hfind
    obtain ⟨behind, hb⟩ := startsWith_eq_true_iff.1 (List.find?_some (p := fun r : List Char × List Char => startsWith r.1 (c :: (rest ++ s))) hfind)
    -- The rule that is found is the only one for the mark.
    have hsame : r.1 = c :: rest := by
      rcases hold.apart (h.mark r hmem) (x := []) hb with ⟨-, he, -⟩ | ⟨x, hx, -⟩
      · exact he
      · cases hx
    have hrule : r = (c :: rest, new) := List.inj_on_of_nodup_map h.nodup hmem hr hsame
    rw [List.cons_append, replaceEach, replaceEachFrom, hfind, hrule]
    simp [replaceEachFrom_eq]

-- How a text is cut into occurrences and other characters.
inductive Replaced (rules : List (List Char × List Char)) : List Char → List Char → Prop
  | nil : Replaced rules [] []
  | mark {old new s t : List Char} :
    (old, new) ∈ rules → Replaced rules s t → Replaced rules (old ++ s) (new ++ t)
  | char {c : Char} {s t : List Char} :
    (∀ r ∈ rules, ¬r.1 <+: c :: s) → Replaced rules s t → Replaced rules (c :: s) (c :: t)

theorem Marked.replaced (h : Marked rules) (s : List Char) : Replaced rules s (replaceEach rules s) := by
  induction hn : s.length using Nat.strong_induction_on generalizing s
  case h n ih =>
    by_cases hmark : ∃ r ∈ rules, r.1 <+: s
    case pos =>
      obtain ⟨⟨old, new⟩, hr, rest, rfl⟩ := hmark
      have hlength := List.length_pos_of_ne_nil (h.mark _ hr).ne_nil
      rw [h.replaceEach_mark hr]
      exact .mark hr (ih rest.length (by simp only [List.length_append] at hn hlength; omega) rest rfl)
    case neg =>
      cases s
      case nil => exact .nil
      case cons c s =>
        have hnone : ∀ r ∈ rules, ¬r.1 <+: c :: s := fun r hr hp => hmark ⟨r, hr, hp⟩
        rw [replaceEach_cons hnone]
        exact .char hnone (ih s.length (by simp at hn; omega) s rfl)

-- A mark that no rule is for is passed over.
theorem Marked.replaceEach_other (h : Marked rules) (hm : IsMark m) (hne : ∀ r ∈ rules, r.1 ≠ m) (s : List Char) :
    replaceEach rules (m ++ s) = m ++ replaceEach rules s := by
  refine replaceEach_append fun r hr u v he => ?_
  rcases hm.apart (h.mark r hr) he.symm with ⟨-, he, -⟩ | ⟨x, rfl, -⟩
  · exact absurd he (hne r hr)
  · simp

namespace MakesNone

-- Behind a mark, and behind a character that begins none, no more comes about than in the whole text.
theorem of_mark (h : MakesNone rules m (old ++ s)) (hrules : Marked rules) (hm : IsMark m)
    (hr : (old, new) ∈ rules) (hne : old ≠ m) : MakesNone rules m s := by
  intro u v he
  obtain ⟨x, y, hs, hx, hy⟩ := h (new ++ u) v (by simp [hrules.replaceEach_mark hr, he])
  rcases (hrules.mark _ hr).apart hm hs.symm with ⟨-, hm, -⟩ | ⟨x', rfl, hrest⟩
  · exact absurd hm.symm hne
  · rw [hrules.replaceEach_mark hr, List.append_cancel_left_eq] at hx
    exact ⟨x', y, hrest.symm, hx, hy⟩

theorem of_other (h : MakesNone rules m (m ++ s)) (hrules : Marked rules) (hm : IsMark m)
    (hne : ∀ r ∈ rules, r.1 ≠ m) : MakesNone rules m s := by
  intro u v he
  obtain ⟨x, y, hs, hx, hy⟩ := h (m ++ u) v (by simp [hrules.replaceEach_other hm hne, he])
  rcases hm.apart hm hs.symm with ⟨rfl, -, rfl⟩ | ⟨x', rfl, hrest⟩
  · exact absurd (List.append_eq_nil_iff.1 hx.symm).1 hm.ne_nil
  · rw [hrules.replaceEach_other hm hne, List.append_cancel_left_eq] at hx
    exact ⟨x', y, hrest.symm, hx, hy⟩

theorem of_char (h : MakesNone rules m (c :: s)) (hnone : ∀ r ∈ rules, ¬r.1 <+: c :: s)
    (hnot : ¬m <+: c :: s) : MakesNone rules m s ∧ ¬m <+: c :: replaceEach rules s := by
  have hcons {x w : List Char} (hx : c :: s = c :: x ++ w) : replaceEach rules (c :: x) = c :: replaceEach rules x :=
    replaceEach_cons fun r hr hp => hnone r hr (hp.trans ⟨w, hx.symm⟩)
  -- What stands in front of an occurrence is nothing, or begins with the character.
  have hcases {u v : List Char} (he : c :: replaceEach rules s = u ++ m ++ v) :
      ∃ x y, s = x ++ m ++ y ∧ c :: replaceEach rules x = u ∧ replaceEach rules y = v := by
    obtain ⟨x, y, hs, hx, hy⟩ := h u v (by rw [replaceEach_cons hnone, he])
    rcases x with _ | ⟨d, x⟩
    case nil => exact absurd ⟨y, hs.symm⟩ hnot
    case cons =>
      obtain ⟨rfl, hrest⟩ := List.cons.inj hs
      rw [hcons (w := m ++ y) (by simp [hrest])] at hx
      exact ⟨x, y, hrest, hx, hy⟩
  constructor
  case left =>
    intro u v he
    obtain ⟨x, y, hs, hx, hy⟩ := hcases (u := c :: u) (v := v) (by simp [he])
    exact ⟨x, y, hs, (List.cons.inj hx).2, hy⟩
  case right =>
    rintro ⟨v, hv⟩
    obtain ⟨x, -, -, hx, -⟩ := hcases (u := []) (v := v) (by simp [hv])
    cases hx

end MakesNone

-- Where no occurrence of a mark comes about by replacing others, it may as well be replaced together with them.
theorem Marked.replaceEach_replaceEach (h : Marked (rules ++ [(m, new)])) (hs : MakesNone rules m s) :
    replaceEach [(m, new)] (replaceEach rules s) = replaceEach (rules ++ [(m, new)]) s := by
  have hm : IsMark m := h.mark _ (List.mem_append_right _ (.head _))
  have hrules : Marked rules :=
    ⟨fun r hr => h.mark r (List.mem_append_left _ hr), (List.nodup_append.1 (List.map_append ▸ h.nodup)).1⟩
  have hone : Marked [(m, new)] := ⟨by simpa using hm, by simp⟩
  have hne : ∀ r ∈ rules, r.1 ≠ m := fun r hr he =>
    (List.nodup_append.1 (List.map_append ▸ h.nodup)).2.2 r.1 (List.mem_map_of_mem hr) m (.head _) he
  have hr := h.replaced s
  generalize replaceEach (rules ++ [(m, new)]) s = t at hr ⊢
  induction hr
  case nil => rfl
  case mark old new' s t hr hst ih =>
    rcases List.mem_append.1 hr with hr | hr
    case inl =>
      -- No occurrence begins inside what is put in for another mark.
      have hput : replaceEach [(m, new)] (new' ++ replaceEach rules s) =
          new' ++ replaceEach [(m, new)] (replaceEach rules s) := by
        refine replaceEach_append fun r hr' u v he => ?_
        obtain rfl := List.mem_singleton.1 hr'
        obtain ⟨x, y, hxy, rfl, -⟩ := hs u v (by rw [hrules.replaceEach_mark hr, he])
        rcases (hrules.mark _ hr).apart hm hxy.symm with ⟨-, he, -⟩ | ⟨x', rfl, -⟩
        · exact absurd he.symm (hne _ hr)
        · simp [hrules.replaceEach_mark hr]
      rw [hrules.replaceEach_mark hr, hput, ih (hs.of_mark hrules hm hr (hne _ hr))]
    case inr =>
      cases List.mem_singleton.1 hr
      rw [hrules.replaceEach_other hm hne, hone.replaceEach_mark (.head _), ih (hs.of_other hrules hm hne)]
  case char c s t hnone hst ih =>
    have hnone' : ∀ r ∈ rules, ¬r.1 <+: c :: s := fun r hr => hnone r (List.mem_append_left _ hr)
    obtain ⟨hbehind, hnot⟩ := hs.of_char hnone' (hnone (m, new) (List.mem_append_right _ (.head _)))
    rw [replaceEach_cons hnone', replaceEach_cons (by simpa using hnot), ih hbehind]

-- Nothing comes about where all braces of the text are those of marks, and what is put in has none.
theorem Marked.makesNone (h : Marked rules) (hm : IsMark m) (hnew : ∀ r ∈ rules, '\x7b' ∉ r.2) (hs : Paired s) :
    MakesNone rules m s := by
  have hbrace {t : List Char} : m ++ t = '\x7b' :: (m ++ t).tail := by
    obtain ⟨name, rfl, -⟩ := hm
    rfl
  induction hs
  case nil =>
    intro u v he
    have hnil : u ++ m ++ v = [] := he.symm
    simp [hm.ne_nil] at hnil
  case mark m' s hm' hs ih =>
    intro u v he
    by_cases hr : ∃ r ∈ rules, r.1 = m'
    case pos =>
      obtain ⟨⟨_, new⟩, hr, rfl⟩ := hr
      rw [h.replaceEach_mark hr, List.append_assoc, List.append_eq_append_iff] at he
      obtain ⟨u', rfl, hrest⟩ : ∃ u', u = new ++ u' ∧ replaceEach rules s = u' ++ (m ++ v) := by
        rcases he with he | ⟨w, hw, he⟩
        case inl => exact he
        case inr =>
          cases w
          case nil => exact ⟨[], by simpa using hw.symm, he.symm⟩
          case cons =>
            rw [hbrace] at he
            obtain ⟨rfl, -⟩ := List.cons.inj he
            exact absurd (hw ▸ List.mem_append_right _ (.head _)) (hnew _ hr)
      obtain ⟨x, y, rfl, rfl, hy⟩ := ih u' v (by rw [hrest, List.append_assoc])
      exact ⟨_ ++ x, y, by simp, h.replaceEach_mark hr x, hy⟩
    case neg =>
      -- The mark is left as it is, and may be the one that is found.
      have hother := h.replaceEach_other hm' fun r hmem he => hr ⟨r, hmem, he⟩
      rw [hother] at he
      rcases hm'.apart hm he.symm with ⟨rfl, rfl, rfl⟩ | ⟨u', rfl, hrest⟩
      case inl => exact ⟨[], s, rfl, rfl, rfl⟩
      case inr =>
        obtain ⟨x, y, rfl, rfl, hy⟩ := ih u' v hrest.symm
        exact ⟨m' ++ x, y, by simp, hother x, hy⟩
  case char c s hc hs ih =>
    have hcons (s : List Char) : replaceEach rules (c :: s) = c :: replaceEach rules s := by
      refine replaceEach_cons fun r hr hp => ?_
      obtain ⟨name, he, -⟩ := h.mark r hr
      exact hc (List.cons_prefix_cons.1 (he ▸ hp)).1.symm
    intro u v he
    rw [hcons] at he
    rcases u with _ | ⟨d, u⟩
    case nil =>
      rw [List.nil_append, hbrace] at he
      exact absurd (List.cons.inj he).1 hc
    case cons =>
      obtain ⟨rfl, he⟩ := List.cons.inj he
      obtain ⟨x, y, rfl, rfl, hy⟩ := ih u v (by simpa using he)
      exact ⟨c :: x, y, by simp, hcons x, hy⟩

end

end ScopedCss.Text
