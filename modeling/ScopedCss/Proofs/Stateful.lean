import ScopedCss.Error

namespace ScopedCss

-- Running actions that can fail, and that leave their state behind also when they do.
namespace Stateful

variable {σ τ α β : Type}

theorem run_bind (act : ExceptT Error (StateM σ) α) (f : α → ExceptT Error (StateM σ) β) (s : σ) :
    (act >>= f).run.run s =
      match act.run.run s with
      | (.ok a, t)    => (f a).run.run t
      | (.error e, t) => (.error e, t) := by
  have h : (act >>= f).run.run s =
    (ExceptT.bindCont f (act.run.run s).1).run (act.run.run s).2 := rfl
  rw [h]
  rcases act.run.run s with ⟨e | a, t⟩ <;> rfl

theorem run_bind_ok {act : ExceptT Error (StateM σ) α} {f : α → ExceptT Error (StateM σ) β} {s t : σ}
    {a : α} (h : act.run.run s = (.ok a, t)) : (act >>= f).run.run s = (f a).run.run t := by
  rw [run_bind, h]

-- An action that is known to succeed by what its result shows.
theorem run_eq_of_map_eq {act : ExceptT Error (StateM σ) α} {f : α → β} {s : σ} {b : β}
    (h : (act.run.run s).1.map f = .ok b) : ∃ a t, act.run.run s = (.ok a, t) ∧ f a = b := by
  rcases hr : act.run.run s with ⟨e | a, t⟩
  all_goals rw [hr] at h
  case error => cases h
  case ok    => exact ⟨a, t, rfl, Except.ok.inj h⟩

-- Binding over two states.
theorem run_bind₂ (act : ExceptT Error (StateT σ (StateM τ)) α)
    (f : α → ExceptT Error (StateT σ (StateM τ)) β) (s : σ) (t : τ) :
    ((act >>= f).run.run s).run t =
      match (act.run.run s).run t with
      | ((.ok a, s), t)    => ((f a).run.run s).run t
      | ((.error e, s), t) => ((.error e, s), t) := by
  have h : ((act >>= f).run.run s).run t =
    ((ExceptT.bindCont f ((act.run.run s).run t).1.1).run ((act.run.run s).run t).1.2).run
      ((act.run.run s).run t).2 := rfl
  rw [h]
  rcases (act.run.run s).run t with ⟨⟨e | a, s⟩, t⟩ <;> rfl

theorem run_get (s : σ) : (get : ExceptT Error (StateM σ) σ).run.run s = (.ok s, s) :=
  rfl

theorem run_except (r : Except Error α) (s : σ) :
    (liftM r : ExceptT Error (StateM σ) α).run.run s = (r, s) := by
  cases r <;> rfl

end Stateful

end ScopedCss
