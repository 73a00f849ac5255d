import ScopedCss.Proofs.Text.Suffix
import ScopedCss.Text.Position

namespace ScopedCss

namespace Position

theorem line_after (pos : Position) (s : List Char) : (pos.after s).line = pos.line + s.count '\n' := by
  induction s generalizing pos
  case nil => simp [after]
  case cons c s ih =>
    rw [after, ih]
    by_cases hc : c = '\n'
    case pos => simp [hc]; omega
    case neg => simp [hc]

-- Lines in front of a text move all of its places down, and do nothing else to them.
theorem after_below (n : Nat) (pos : Position) (s : List Char) :
    (⟨pos.line + n, pos.column⟩ : Position).after s = ⟨(pos.after s).line + n, (pos.after s).column⟩ := by
  induction s generalizing pos
  case nil => rfl
  case cons c s ih =>
    by_cases hc : c = '\n'
    case pos => simpa [after, hc, Nat.add_right_comm] using ih ⟨pos.line + 1, 1⟩
    case neg => simpa [after, hc] using ih ⟨pos.line, pos.column + 1⟩

end Position

namespace Text

-- Every carriage return belongs to the end of a line.
def NoLoneReturn (s : List Char) : Prop :=
  ∀ a b, s = a ++ '\r' :: b → b.head? = some '\n'

theorem NoLoneReturn.of_append {s t : List Char} (h : NoLoneReturn (s ++ t)) : NoLoneReturn t := by
  intro a b ht
  exact h (s ++ a) b (by rw [ht, List.append_assoc])

theorem lineCount_eq {s : List Char} (h : NoLoneReturn s) : lineCount s = s.count '\n' + 1 := by
  fun_induction lineCount s
  case case1 => rfl
  case case2 s ih => rw [ih (NoLoneReturn.of_append (s := ['\r', '\n']) h)]; simp
  case case3 s hn ih =>
    cases s
    case nil => cases h [] [] rfl
    case cons d s =>
      cases h [] (d :: s) rfl
      exact absurd rfl (hn s)
  case case4 s ih => rw [ih (NoLoneReturn.of_append (s := ['\n']) h)]; simp
  case case5 c s _ _ hn ih =>
    rw [ih (NoLoneReturn.of_append (s := [c]) h)]
    have hc : c ≠ '\n' := fun he => hn he
    simp [hc]

-- The returns of a text in front of another one, which can end in the middle of the end of a line.
theorem noLoneReturn_append {s t : List Char} :
    NoLoneReturn (s ++ t) ↔ (∀ a b, s = a ++ '\r' :: b → (b ++ t).head? = some '\n') ∧ NoLoneReturn t := by
  constructor
  case mp  => exact fun h => ⟨fun a b hs => h a (b ++ t) (by simp [hs]), h.of_append⟩
  case mpr =>
    intro h a b hst
    obtain ⟨hs, ht⟩ := h
    rcases List.append_eq_append_iff.1 hst with ⟨a', rfl, hb⟩ | ⟨b', rfl, hb⟩
    case inl => exact ht a' b hb
    case inr =>
      rcases b' with _ | ⟨c, b'⟩
      case nil  => exact ht [] b hb.symm
      case cons =>
        cases hb
        exact hs a b' rfl

theorem noLoneReturn_cons {c : Char} {s : List Char} :
    NoLoneReturn (c :: s) ↔ (c = '\r' → s.head? = some '\n') ∧ NoLoneReturn s := by
  rw [← List.singleton_append, noLoneReturn_append]
  refine and_congr_left fun _ => ⟨fun h hc => h [] [] (hc ▸ rfl), fun h a b he => ?_⟩
  obtain ⟨rfl, rfl, rfl⟩ : a = [] ∧ '\r' = c ∧ b = [] := by simpa [List.singleton_eq_append_iff] using he
  exact h rfl

instance decidableNoLoneReturn : (s : List Char) → Decidable (NoLoneReturn s)
  | []     => isTrue fun a b h => by simp at h
  | c :: s =>
    have := decidableNoLoneReturn s
    decidable_of_iff _ noLoneReturn_cons.symm

-- Without a return nothing ends in the middle of the end of a line.
theorem noLoneReturn_append_of_not_mem {s t : List Char} (hs : '\r' ∉ s) (ht : NoLoneReturn t) :
    NoLoneReturn (s ++ t) :=
  noLoneReturn_append.2 ⟨fun a _ he => absurd (he ▸ List.mem_append_right a List.mem_cons_self) hs, ht⟩

-- A text, with the white space around it.
theorem exists_trim (s : List Char) : ∃ a b, s = a ++ trim s ++ b :=
  have ⟨a, ha⟩ := trimStart_suffix s
  have ⟨b, hb⟩ := prefix_trimEnd (trimStart s)
  ⟨a, b, by rw [List.append_assoc, show trim s ++ b = trimStart s from hb, ha]⟩

theorem getLast?_trim (s : List Char) : (trim s).getLast?.any isBlank = false := by
  rw [trim, trimEnd, dropWhileEnd, List.getLast?_reverse]
  have h := List.head?_dropWhile_not isBlank (trimStart s).reverse
  cases hd : ((trimStart s).reverse.dropWhile isBlank).head?
  case none   => rfl
  case some c =>
    rw [hd] at h
    simpa using h

end Text

end ScopedCss
