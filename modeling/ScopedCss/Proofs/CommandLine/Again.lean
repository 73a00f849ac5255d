import ScopedCss.Proofs.CommandLine.Site

namespace ScopedCss.CommandLine

open Disk (Keeps Changed)

variable {g : Given} {d d' e x : Disk} {s : Site} {project : String} {err : Error} {w : Workspace}

theorem projectOn_again (hk : Keeps d d') (h : projectOn g d = .ok project) : projectOn g d' = .ok project := by
  unfold projectOn at h ⊢
  split at h
  case isFalse => cases h
  case isTrue hf =>
    rw [if_pos (hk.isFolder hf)]
    cases hl : d.locate (g.project.getD ".")
    all_goals
      rw [hl] at h
      cases h
    rw [hk.locate hl]
    rfl

theorem outputOn_again (hk : Keeps d d') : outputOn g d' project = outputOn g d project := by
  unfold outputOn
  rw [hk.cwd]

-- A workspace starts empty, and with the folder of its cache if it has one.
theorem workspaceOn_eq_ok : workspaceOn g d project = .ok w ↔
    g.noCache = true ∧ w = .inMemory d ∨
      g.noCache = false ∧ ∃ made, d.createFolders (Path.join project cacheFolder) = .ok made ∧
        w = ⟨made, ⟨∅, some (Path.join project cacheFolder)⟩, []⟩ := by
  unfold workspaceOn Workspace.openCache
  cases g.noCache
  case true => simp [eq_comm]
  case false =>
    dsimp only [Workspace.inMemory]
    cases d.createFolders (Path.join project cacheFolder)
    case error => simp
    case ok    => simp [pure, Except.pure, eq_comm]

-- One that is opened once can be opened again.
theorem workspaceOn_again (hp : d.Proper) (h : workspaceOn g d project = .ok w) (hk : Keeps w.disk x) :
    workspaceOn g x project = .ok { w with disk := x } := by
  rw [workspaceOn_eq_ok] at h ⊢
  rcases h with ⟨hn, rfl⟩ | ⟨hn, made, hc, rfl⟩
  case inl => exact .inl ⟨hn, rfl⟩
  case inr => exact .inr ⟨hn, x, (hk.opens (hp.createFolders hc).2).createFolders, rfl⟩

theorem workspaceOn_changed (hp : d.Proper) (h : workspaceOn g d project = .ok w) :
    Changed (fun _ => true) d w.disk := by
  rcases workspaceOn_eq_ok.1 h with ⟨_, rfl⟩ | ⟨_, made, hc, rfl⟩
  case inl => exact .refl _ d
  case inr => exact .createFolders_any hp hc

-- The steps to where a build takes place.
structure Site.Reached (g : Given) (d made : Disk) (s : Site) : Prop where
  project   : projectOn g d = .ok s.project
  folder    : d.createFolders (outputOn g d s.project) = .ok made
  out       : made.locate (outputOn g d s.project) = .ok s.out
  workspace : workspaceOn g made s.project = .ok s.workspace
  settings  : settingsOn g s.workspace.disk s.project = .ok s.settings

theorem siteOn_eq_ok (h : siteOn g d = (.ok s, e)) : ∃ made, s.Reached g d made := by
  unfold siteOn enterOn at h
  cases hproject : projectOn g d
  all_goals rw [hproject] at h
  case error => cases h
  case ok project =>
    dsimp only at h
    cases hmade : d.createFolders (outputOn g d project)
    all_goals rw [hmade] at h
    case error => cases h
    case ok made =>
      dsimp only at h
      cases hout : made.locate (outputOn g d project)
      all_goals rw [hout] at h
      case error => cases h
      case ok out =>
        dsimp only at h
        cases hw : workspaceOn g made project
        all_goals rw [hw] at h
        case error => cases h
        case ok w =>
          dsimp only at h
          cases hs : settingsOn g w.disk project
          all_goals
            rw [hs] at h
            cases h
          exact ⟨made, hproject, hmade, hout, hw, hs⟩

theorem siteOn_again {made : Disk} (hp : d.Proper) (hproject : projectOn g d = .ok project)
    (hfolder : d.createFolders (outputOn g d project) = .ok made) (hk : Keeps made x) :
    siteOn g x = enterOn g x project (outputOn g d project) := by
  have hkeeps := (Changed.createFolders_any hp hfolder).keeps.trans hk
  unfold siteOn
  rw [projectOn_again hkeeps hproject]
  dsimp only
  rw [outputOn_again hkeeps, (hk.opens (hp.createFolders hfolder).2).createFolders]

namespace Site.Reached

variable {made : Disk}

theorem changed (h : s.Reached g d made) (hp : d.Proper) : Changed (fun _ => true) d s.workspace.disk :=
  .trans (.createFolders_any hp h.folder) (workspaceOn_changed (hp.createFolders h.folder).1 h.workspace)

-- What has been made is there from then on.
theorem again (h : s.Reached g d made) (hp : d.Proper) (hk : Keeps s.workspace.disk x)
    (hs : settingsOn g x s.project = .ok s.settings) :
    siteOn g x = (.ok { s with workspace := { s.workspace with disk := x } }, x) := by
  have hproper := (hp.createFolders h.folder).1
  have hmade := (workspaceOn_changed hproper h.workspace).keeps.trans hk
  rw [siteOn_again hp h.project h.folder hmade, enterOn, hmade.locate h.out]
  dsimp only
  rw [workspaceOn_again hproper h.workspace hk]
  dsimp only
  rw [hs]

end Site.Reached

-- What fails before files are looked for fails again.
theorem siteOn_error_again (hp : d.Proper) (h : siteOn g d = (.error err, d')) : siteOn g d' = (.error err, d') := by
  have hfirst := h
  unfold siteOn at h
  cases hproject : projectOn g d
  all_goals rw [hproject] at h
  case error =>
    cases h
    exact hfirst
  case ok project =>
    dsimp only at h
    cases hfolder : d.createFolders (outputOn g d project)
    all_goals rw [hfolder] at h
    case error =>
      cases h
      exact hfirst
    case ok made =>
      have hproper := (hp.createFolders hfolder).1
      have hsecond (x : Disk) (hk : Keeps made x) := siteOn_again hp hproject hfolder hk
      have hsame (d : Disk) : Keeps d d := ⟨rfl, fun _ => id⟩
      have henter := h
      dsimp only at h
      unfold enterOn at h
      cases hout : made.locate (outputOn g d project)
      case error =>
        rw [hout] at h
        cases h
        rw [hsecond _ (hsame _)]
        exact henter
      case ok out =>
        rw [hout] at h
        dsimp only at h
        cases hw : workspaceOn g made project
        case error =>
          rw [hw] at h
          cases h
          rw [hsecond _ (hsame _)]
          exact henter
        case ok w =>
          rw [hw] at h
          dsimp only at h
          cases hs : settingsOn g w.disk project
          all_goals
            rw [hs] at h
            cases h
          have hk := (workspaceOn_changed hproper hw).keeps
          rw [hsecond w.disk hk, enterOn, hk.locate hout]
          dsimp only
          rw [workspaceOn_again hproper hw (hsame _)]
          dsimp only
          rw [hs]

end ScopedCss.CommandLine
