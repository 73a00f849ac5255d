import ScopedCss.Build.Compiler

namespace ScopedCss

namespace Workspace

variable {w : Workspace} {path key : String} {disk : Disk} {s : Session}

theorem allCurrent_run {P : Session → Prop} {current : String → Option String} (l : List (String × String))
    (step : ∀ d ∈ l, ∀ s, P s →
      ((BuildM.hashOf disk d.1).run s).1 = current d.1 ∧ P ((BuildM.hashOf disk d.1).run s).2)
    (hs : P s) :
    ((allCurrent (BuildM.hashOf disk) l).run s).1 = l.all (fun d => decide (current d.1 = some d.2)) ∧
      P ((allCurrent (BuildM.hashOf disk) l).run s).2 := by
  induction l generalizing s
  case nil => exact ⟨rfl, hs⟩
  case cons d l ih =>
    have ⟨hh, hp⟩ := step d (.head _) s hs
    have hrun : (allCurrent (BuildM.hashOf disk) (d :: l)).run s =
      (if ((BuildM.hashOf disk d.1).run s).1 = some d.2 then allCurrent (BuildM.hashOf disk) l
        else pure false : StateM Session Bool).run ((BuildM.hashOf disk d.1).run s).2 := rfl
    rw [hrun, hh, List.all_cons]
    by_cases hc : current d.1 = some d.2
    · simp only [hc, if_true, decide_true, Bool.true_and]
      exact ih (fun d hm => step d (.tail _ hm)) hp
    · simp only [hc, if_false, decide_false, Bool.false_and]
      exact ⟨rfl, hp⟩

-- An entry under the key is used, or forgotten if it is no longer current.
theorem reuse_eq : ((Workspace.reuse path key (BuildM.hashOf disk)).run w).run s =
    match (w.entry path).1 with
    | none   => ((none, (w.entry path).2), s)
    | some e =>
      if e.key = key then
        if ((allCurrent (BuildM.hashOf disk) e.dependencies.entries).run s).1 then
          ((some e.result, (w.entry path).2), ((allCurrent (BuildM.hashOf disk) e.dependencies.entries).run s).2)
        else
          ((none, (w.entry path).2.forget path), ((allCurrent (BuildM.hashOf disk) e.dependencies.entries).run s).2)
      else
        ((none, (w.entry path).2), s) := by
  unfold Workspace.reuse
  simp only [StateT.run_bind, StateT.run_get, pure_bind]
  generalize w.entry path = found
  obtain ⟨e, w'⟩ := found
  cases e
  case none => rfl
  case some e =>
    by_cases hk : e.key = key
    case neg => simp only [hk, if_false, ne_eq, not_false_eq_true, if_true]; rfl
    case pos =>
      simp only [hk, if_true, ne_eq, not_true_eq_false, if_false]
      change ((if ((allCurrent (BuildM.hashOf disk) e.dependencies.entries).run s).1 = true then
          pure (some e.result) else do modify (·.forget path); pure none :
          StateT Workspace (StateM Session) (Option Compiled)).run w').run
        ((allCurrent (BuildM.hashOf disk) e.dependencies.entries).run s).2 = _
      split <;> rfl

theorem entry_eq (hf : w.cache.folder = none) (path : String) : w.entry path = (w.cache.entries.get? path, w) := by
  unfold Workspace.entry Workspace.readEntry Workspace.entryFile?
  rw [hf]
  cases w.cache.entries.get? path <;> rfl

theorem forget_eq (hf : w.cache.folder = none) (path : String) :
    w.forget path = w.setEntries (w.cache.entries.erase path) := by
  unfold forget entryFile?
  dsimp only [setEntries]
  rw [hf]
  rfl

theorem reuse_run (hf : w.cache.folder = none) :
    ((Workspace.reuse path key (BuildM.hashOf disk)).run w).run s =
      match w.cache.entries.get? path with
      | none   => ((none, w), s)
      | some e =>
        if e.key = key then
          if ((allCurrent (BuildM.hashOf disk) e.dependencies.entries).run s).1 then
            ((some e.result, w), ((allCurrent (BuildM.hashOf disk) e.dependencies.entries).run s).2)
          else
            ((none, w.setEntries (w.cache.entries.erase path)),
              ((allCurrent (BuildM.hashOf disk) e.dependencies.entries).run s).2)
        else
          ((none, w), s) := by
  rw [reuse_eq, entry_eq hf, forget_eq hf]

theorem remember_eq (hf : w.cache.folder = none) (e : CacheEntry) :
    w.remember e = w.setEntries (w.cache.entries.insert e.path e) := by
  have hwrite : w.writeEntry e = w := by simp [writeEntry, entryFile?, hf]
  unfold remember
  dsimp only
  rw [hwrite]

end Workspace

end ScopedCss
