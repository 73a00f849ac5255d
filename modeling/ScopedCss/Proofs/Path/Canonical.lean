import Mathlib.Data.List.Basic
import ScopedCss.Path.Resolver

namespace ScopedCss

namespace Text

theorem splitWhere_append_sep {p : Char → Bool} {c : Char} (hc : p c = true) (s t : List Char) :
    splitWhere p (s ++ c :: t) = splitWhere p s ++ splitWhere p t := by
  induction s
  case nil => simp [splitWhere, hc]
  case cons d s ih =>
    obtain ⟨w, ws, hw⟩ := List.exists_cons_of_ne_nil (splitWhere_ne_nil p s)
    rw [hw] at ih
    rw [List.cons_append, splitWhere, splitWhere, ih, hw]
    split <;> rfl

theorem splitWhere_append {p : Char → Bool} {s t : List Char} {c : Char} (hs : ∀ c ∈ s, p c = false)
    (hc : p c = true) : splitWhere p (s ++ c :: t) = s :: splitWhere p t := by
  induction s
  case nil => simp [splitWhere, hc]
  case cons d s ih =>
    have hd := hs d (by simp)
    simp [splitWhere, hd, ih fun c h => hs c (by simp [h])]

theorem splitWhere_of_none {p : Char → Bool} {s : List Char} (hs : ∀ c ∈ s, p c = false) :
    splitWhere p s = [s] := by
  induction s
  case nil => rfl
  case cons d s ih =>
    have hd := hs d (by simp)
    simp [splitWhere, hd, ih fun c h => hs c (by simp [h])]

theorem not_mem_splitWhere {p : Char → Bool} {s w : List Char} (h : w ∈ splitWhere p s) {c : Char}
    (hc : c ∈ w) : c ∈ s ∧ p c = false := by
  induction s generalizing w
  case nil => simp_all [splitWhere]
  case cons d s ih =>
    cases hd : p d
    case true =>
      simp only [splitWhere, hd, ↓reduceIte, List.mem_cons] at h
      rcases h with rfl | h
      · simp at hc
      · exact ⟨.tail _ (ih h hc).1, (ih h hc).2⟩
    case false =>
      simp only [splitWhere, hd, Bool.false_eq_true, ↓reduceIte] at h
      cases hw : splitWhere p s
      case nil => exact absurd hw (splitWhere_ne_nil p s)
      case cons v ws =>
        simp only [hw, List.mem_cons] at h ih
        rcases h with rfl | h
        · rcases List.mem_cons.1 hc with rfl | hc
          · exact ⟨.head _, hd⟩
          · exact ⟨.tail _ (ih (.inl rfl) hc).1, (ih (.inl rfl) hc).2⟩
        · exact ⟨.tail _ (ih (.inr h) hc).1, (ih (.inr h) hc).2⟩

theorem splitWhere_join {p : Char → Bool} {c : Char} {ws : List (List Char)} (hc : p c = true)
    (hw : ∀ w ∈ ws, ∀ c ∈ w, p c = false) (hne : ws ≠ []) : splitWhere p (join [c] ws) = ws := by
  induction ws
  case nil => exact absurd rfl hne
  case cons w ws ih =>
    cases ws
    case nil => exact splitWhere_of_none (hw w (by simp))
    case cons v ws =>
      have h := ih (fun w hm => hw w (.tail _ hm)) (by simp)
      simp only [join, List.append_assoc, List.singleton_append]
      rw [splitWhere_append (hw w (by simp)) hc, h]

theorem mem_join {sep : Char} {ws : List (List Char)} {c : Char} (h : c ∈ join [sep] ws) :
    c = sep ∨ ∃ w ∈ ws, c ∈ w := by
  induction ws
  case nil => simp [join] at h
  case cons w ws ih =>
    cases ws
    case nil => exact .inr ⟨w, by simp, h⟩
    case cons v ws =>
      simp only [join, List.append_assoc, List.singleton_append, List.mem_append,
        List.mem_cons] at h
      rcases h with h | h | h
      · exact .inr ⟨w, by simp, h⟩
      · exact .inl h
      · exact (ih h).imp id fun ⟨w, hw, hc⟩ => ⟨w, .tail _ hw, hc⟩

end Text

namespace Path

-- A segment that goes down by one name.
def IsName (s : Segment) : Prop :=
  s ≠ [] ∧ s ≠ ['.'] ∧ s ≠ ['.', '.'] ∧ ∀ c ∈ s, isSeparator c = false

-- The segments of a canonical path: first the steps up, none of them from the root, then names.
structure Canonical where
  rooted : Bool
  ups : Nat
  names : List Segment
  ups_eq_zero : rooted = true → ups = 0
  isName : ∀ s ∈ names, IsName s

namespace Canonical

def segments (c : Canonical) : List Segment :=
  .replicate c.ups ['.', '.'] ++ c.names

def path (c : Canonical) : String :=
  ofSegments c.rooted c.segments

theorem not_isSeparator {c : Canonical} {s : Segment} (h : s ∈ c.segments) :
    ∀ d ∈ s, isSeparator d = false := by
  intro d hd
  rcases List.mem_append.1 h with h | h
  · rw [List.eq_of_mem_replicate h] at hd
    simp only [List.mem_cons, List.not_mem_nil, or_false, or_self] at hd
    exact hd ▸ rfl
  · exact (c.isName s h).2.2.2 d hd

theorem ne_nil {c : Canonical} {s : Segment} (h : s ∈ c.segments) : s ≠ [] := by
  rcases List.mem_append.1 h with h | h
  · simp [List.eq_of_mem_replicate h]
  · exact (c.isName s h).1

end Canonical

def IsCanonical (path : String) : Prop :=
  ∃ c : Canonical, c.path = path

-- What the stack of a collapse looks like, last segment first.
def IsStack (rooted : Bool) (stack : List Segment) : Prop :=
  ∃ ups names, (rooted = true → ups = 0) ∧ (∀ s ∈ names, IsName s) ∧
    stack = names ++ .replicate ups ['.', '.']

theorem IsStack.pushSegment {rooted : Bool} {stack : List Segment} {s : Segment}
    (h : IsStack rooted stack) (hs : ∀ c ∈ s, isSeparator c = false) :
    IsStack rooted (Path.pushSegment rooted stack s) := by
  have ⟨ups, names, hu, hn, he⟩ := h
  unfold Path.pushSegment
  split
  case isTrue => exact h
  case isFalse hs₁ =>
    rw [not_or] at hs₁
    split
    case isTrue hup =>
      subst hup he
      cases names
      case nil =>
        cases ups
        case zero => cases rooted <;> [exact ⟨1, [], by simp⟩; exact ⟨0, [], by simp⟩]
        case succ ups =>
          have hr : rooted = false := by simpa using hu
          exact ⟨ups + 2, [], by simp [hr], by simp, by simp [List.replicate_succ]⟩
      case cons t names =>
        have ht : t ≠ ['.', '.'] := (hn t (by simp)).2.2.1
        simp only [List.cons_append, ht, ↓reduceIte]
        exact ⟨ups, names, hu, fun s h => hn s (.tail _ h), rfl⟩
    case isFalse hup =>
      refine ⟨ups, s :: names, hu, fun t ht => ?_, by simp [he]⟩
      rcases List.mem_cons.1 ht with rfl | ht
      · exact ⟨hs₁.1, hs₁.2, hup, hs⟩
      · exact hn t ht

theorem IsStack.foldl {rooted : Bool} {segments : List Segment}
    (hs : ∀ s ∈ segments, ∀ c ∈ s, isSeparator c = false) {stack : List Segment}
    (h : IsStack rooted stack) : IsStack rooted (segments.foldl (Path.pushSegment rooted) stack) := by
  induction segments generalizing stack
  case nil => exact h
  case cons s segments ih =>
    exact ih (fun s h => hs s (.tail _ h)) (h.pushSegment (hs s (by simp)))

theorem forwardSlashes_toList (path : String) : '\\' ∉ (forwardSlashes path).toList := by
  simp only [forwardSlashes, String.toList_ofList, List.mem_map, not_exists, not_and]
  intro c _
  split <;> simp_all

theorem forwardSlashes_eq {path : String} (h : '\\' ∉ path.toList) : forwardSlashes path = path := by
  apply String.toList_inj.1
  simp only [forwardSlashes, String.toList_ofList]
  conv_rhs => rw [← List.map_id path.toList]
  apply List.map_congr_left
  intro c hc
  simp [ne_of_mem_of_not_mem hc h]

theorem isSeparator_of_mem_segments {path : String} (h : '\\' ∉ path.toList) {s : Segment}
    (hs : s ∈ segments path) : ∀ c ∈ s, isSeparator c = false := by
  intro c hc
  have ⟨hm, hf⟩ := Text.not_mem_splitWhere hs hc
  have := ne_of_mem_of_not_mem hm h
  simp_all [isSeparator]

-- What cleaning makes of a path.
theorem exists_canonical (path : String) :
    ∃ c : Canonical, c.rooted = isRooted (forwardSlashes path) ∧
      c.segments = collapse (isRooted (forwardSlashes path)) (segments (forwardSlashes path)) ∧ c.path = clean path := by
  have hs (s) (h : s ∈ segments (forwardSlashes path)) :=
    isSeparator_of_mem_segments (forwardSlashes_toList path) h
  have ⟨ups, names, hu, hn, he⟩ :
      IsStack (isRooted (forwardSlashes path)) ((segments (forwardSlashes path)).foldl
        (Path.pushSegment (isRooted (forwardSlashes path))) []) :=
    IsStack.foldl hs ⟨0, [], by simp⟩
  let c : Canonical := ⟨_, ups, names.reverse, hu, by simpa using hn⟩
  have hc : c.segments = collapse (isRooted (forwardSlashes path)) (segments (forwardSlashes path)) := by
    simp [c, Canonical.segments, collapse, he]
  exact ⟨c, rfl, hc, by rw [Canonical.path, hc]; rfl⟩

theorem isCanonical_clean (path : String) : IsCanonical (clean path) :=
  have ⟨c, _, _, hc⟩ := exists_canonical path
  ⟨c, hc⟩

-- Both kinds of slashes stay as they are in a canonical path: it has only one kind.
theorem IsCanonical.forwardSlashes_eq {path : String} (h : IsCanonical path) :
    forwardSlashes path = path := by
  have ⟨c, hc⟩ := h
  apply Path.forwardSlashes_eq
  subst hc
  have hj : '\\' ∉ Text.join ['/'] c.segments := by
    intro hm
    rcases Text.mem_join hm with h | ⟨s, hs, h⟩
    · simp at h
    · simpa [isSeparator] using c.not_isSeparator hs _ h
  simp only [Canonical.path, ofSegments]
  split
  · simpa using hj
  · split
    · simp
    · simpa using hj

end Path

namespace ImportTarget

-- Wherever the target may lead, it is to such a path.
inductive LeadsTo (P : String → Prop) : ImportTarget → Prop
  | path {p : String} (h : P p) : LeadsTo P (.path p)
  | mainEntry {folder : String} (h : ∀ entry, P (Path.clean (folder ++ "/" ++ entry))) :
    LeadsTo P (.mainEntry folder)
  | firstExisting {candidates : List String} (h : ∀ q ∈ candidates, P q) : LeadsTo P (.firstExisting candidates)
  | unterminatedPackage : LeadsTo P .unterminatedPackage

theorem LeadsTo.settle {P : String → Prop} {target : ImportTarget} {specifier path : String} {disk : Disk}
    {present : String → Bool} (h : target.LeadsTo P) (hs : target.settle specifier disk present = .ok path) :
    P path := by
  cases h
  case path hp =>
    cases hs
    exact hp
  case unterminatedPackage => cases hs
  case firstExisting candidates hc =>
    simp only [ImportTarget.settle] at hs
    cases hf : candidates.find? present
    case none => simp [hf] at hs
    case some q =>
      rw [hf] at hs
      cases hs
      exact hc path (List.mem_of_find?_eq_some hf)
  case mainEntry folder hm =>
    simp only [ImportTarget.settle] at hs
    repeat' split at hs
    all_goals cases hs
    exact hm _

end ImportTarget

namespace Resolver

variable {r : Resolver} {P : String → Prop}

theorem leadsTo_packageTarget (h : ∀ s, P (Path.clean (r.base ++ "/" ++ s))) (spec : List Char) :
    (r.packageTarget spec).LeadsTo P := by
  have hfolder (name rest : String) : P (Path.clean (r.base ++ "/packages/" ++ name ++ "/" ++ rest)) := by
    have hp : "/packages/" = "/" ++ "packages/" := rfl
    simpa only [hp, String.append_assoc] using h ("packages/" ++ name ++ "/" ++ rest)
  unfold packageTarget
  split
  case h_1 => exact .unterminatedPackage
  case h_2 => exact .path (h _)
  case h_3 =>
    refine .firstExisting fun q hq => ?_
    split at hq
    case isTrue => exact List.mem_singleton.1 hq ▸ hfolder _ _
    case isFalse =>
      rcases List.mem_pair.1 hq with rfl | rfl
      all_goals exact hfolder _ _

-- A specifier as it is meant: without white space around it and without its quotes, with forward slashes.
def spelled (specifier : String) : List Char :=
  (Path.forwardSlashes (.ofList (Text.unquote (Text.trim specifier.toList)))).toList

-- What a specifier without a sign of its own comes to, in a file next to others.
def besides (importing : String) (spec : List Char) : String :=
  if Path.isAbsolute (.ofList spec) then .ofList spec
  else
    Path.dirname (importer importing) ++ "/" ++ .ofList (if spec.head? = some '.' then spec else '.' :: '/' :: spec)

-- What a specifier leads to is in the base folder, or it is given from the root, or it is next to the
-- importing file.
theorem leadsTo_target {specifier importing : String} {spec : List Char} (hspec : spelled specifier = spec)
    (hbase : ∀ s, P (Path.clean (r.base ++ "/" ++ s)))
    (hrooted : ∀ s, spec = '/' :: s → Path.isAbsolute (.ofList s) → P (Path.clean (.ofList s)))
    (hbeside : spec.head? ≠ some '/' → P (Path.clean (besides importing spec))) :
    (r.target specifier importing).LeadsTo P := by
  unfold target
  unfold spelled at hspec
  simp only [hspec]
  split
  case h_1 module =>
    have hm : "/node_modules/" = "/" ++ "node_modules/" := rfl
    have hn (s : String) : P (Path.clean (r.base ++ "/node_modules/" ++ s)) := by
      simpa only [hm, String.append_assoc] using hbase ("node_modules/" ++ s)
    unfold moduleTarget
    dsimp only
    split
    case isTrue  => exact .path (hn _)
    case isFalse =>
      refine .mainEntry fun entry => ?_
      simpa only [String.append_assoc] using hn (.ofList module ++ ("/" ++ entry))
  case h_2 s =>
    refine .path ?_
    unfold absolute
    split
    case isTrue ha => exact hrooted s rfl ha
    case isFalse   => exact hbase _
  case h_3 => exact leadsTo_packageTarget hbase _
  case h_4 hslash _ =>
    have hh : spec.head? ≠ some '/' := by
      intro hh
      obtain ⟨s, rfl⟩ := List.head?_eq_some_iff.1 hh
      exact hslash s rfl
    rw [← besides]
    cases fromBrace? (besides importing spec).toList
    case some braced => exact leadsTo_packageTarget hbase braced
    case none        => exact .path (hbeside hh)

-- Every file that a specifier is resolved to has a canonical path.
theorem isCanonical_resolve {disk : Disk} {present : String → Bool} {specifier importing path : String}
    (h : r.resolve disk present specifier importing = .ok path) : Path.IsCanonical path := by
  have hl : (r.target specifier importing).LeadsTo Path.IsCanonical :=
    leadsTo_target rfl (fun _ => Path.isCanonical_clean _) (fun _ _ _ => Path.isCanonical_clean _)
      fun _ => Path.isCanonical_clean _
  exact hl.settle h

end Resolver

end ScopedCss
