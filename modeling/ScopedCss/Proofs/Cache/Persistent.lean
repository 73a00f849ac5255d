import ScopedCss.Proofs.Cache.Folder

namespace ScopedCss

-- What can be done to a cache in a folder. To reopen it is to start a new one there.
inductive CacheOp
  | insert (e : CacheEntry)
  | get (path key : String) (hashes : String → Option String)
  | remove (path : String)
  | clear
  | reopen

-- One entry for each path, wherever it is kept.
abbrev CacheMap := String → Option CacheEntry

namespace CacheEntry

def Current (e : CacheEntry) (hashes : String → Option String) : Prop :=
  ∀ d ∈ e.dependencies.entries, hashes d.1 = some d.2

instance (e : CacheEntry) (hashes : String → Option String) : Decidable (e.Current hashes) :=
  inferInstanceAs (Decidable (∀ d ∈ e.dependencies.entries, hashes d.1 = some d.2))

end CacheEntry

namespace CacheMap

def put (m : CacheMap) (path : String) (e : Option CacheEntry) : CacheMap :=
  fun q => if q = path then e else m q

@[simp]
theorem put_same (m : CacheMap) (path : String) (e : Option CacheEntry) : m.put path e path = e :=
  if_pos rfl

theorem put_other (m : CacheMap) {path q : String} (e : Option CacheEntry) (h : q ≠ path) : m.put path e q = m q :=
  if_neg h

theorem put_self (m : CacheMap) (path : String) : m.put path (m path) = m := by
  funext q
  by_cases h : q = path
  case pos => rw [h, put_same]
  case neg => rw [m.put_other _ h]

-- The answer, and what is kept after it.
def step (m : CacheMap) : CacheOp → Option Compiled × CacheMap
  | .insert e => (none, m.put e.path (some e))
  | .get path key hashes =>
    match m path with
    | none   => (none, m)
    | some e =>
      if e.key ≠ key then (none, m)
      else if e.Current hashes then (some e.result, m)
      else (none, m.put path none)
  | .remove path => (none, m.put path none)
  | .clear => (none, fun _ => none)
  | .reopen => (none, m)

def run (m : CacheMap) : List CacheOp → List (Option Compiled) × CacheMap
  | [] => ([], m)
  | op :: ops => ((m.step op).1 :: ((m.step op).2.run ops).1, ((m.step op).2.run ops).2)

end CacheMap

-- A lookup where the fingerprints of all files are known.
def Workspace.ask (w : Workspace) (path key : String) (hashes : String → Option String) :
    Option Compiled × Workspace :=
  ((Workspace.reuse (m := Id) path key hashes).run w).run

namespace CacheOp

def run (folder : String) (w : Workspace) : CacheOp → Except Error (Option Compiled × Workspace)
  | insert e => pure (none, w.remember e)
  | get path key hashes => pure (w.ask path key hashes)
  | remove path => pure (none, w.forget path)
  | clear => pure (none, w.forgetAll)
  | reopen => do pure (none, ← w.openCache folder)

def runAll (folder : String) (w : Workspace) : List CacheOp → Except Error (List (Option Compiled) × Workspace)
  | [] => pure ([], w)
  | op :: ops => do
    let (answer, w) ← op.run folder w
    let (answers, w) ← runAll folder w ops
    pure (answer :: answers, w)

theorem runAll_cons {folder : String} {w w' : Workspace} {op : CacheOp} {answer : Option Compiled}
    (h : op.run folder w = .ok (answer, w')) (ops : List CacheOp) :
    runAll folder w (op :: ops) = (runAll folder w' ops).map fun r => (answer :: r.1, r.2) := by
  rw [runAll, h]
  change (do
    let (answers, w) ← runAll folder w' ops
    pure (answer :: answers, w)) = _
  cases runAll folder w' ops <;> rfl

-- Which paths are named, and what is put under them.
def Uses (used : String → Prop) : CacheOp → Prop
  | insert e     => used e.path ∧ e.result.Storable
  | get path _ _ => used path
  | remove path  => used path
  | clear        => True
  | reopen       => True

end CacheOp

namespace Workspace

open CacheEntry

variable {w w' : Workspace} {path : String}

theorem removeFile_eq (w : Workspace) (file : String) : w.removeFile file = { w with disk := w.disk.discard file } := by
  unfold removeFile Disk.discard
  cases w.disk.remove file <;> rfl

theorem entryFile?_eq {folder : String} (h : w.cache.folder = some folder) (path : String) :
    w.entryFile? path = some (fileIn folder path) := by
  rw [entryFile?, h]
  rfl

theorem allCurrent_iff {hashes : String → Option String} {l : List (String × String)} :
    (allCurrent (m := Id) hashes l).run = true ↔ ∀ d ∈ l, hashes d.1 = some d.2 := by
  induction l
  case nil => exact iff_of_true rfl fun d hd => nomatch hd
  case cons d l ih =>
    have hcons : (allCurrent (m := Id) hashes (d :: l)).run =
        if hashes d.1 = some d.2 then (allCurrent (m := Id) hashes l).run else false := by
      rw [allCurrent]
      change (if hashes d.1 = some d.2 then allCurrent (m := Id) hashes l else pure false).run = _
      split <;> rfl
    rw [hcons, List.forall_mem_cons]
    by_cases hd : hashes d.1 = some d.2
    case pos => rw [if_pos hd, ih, and_iff_right hd]
    case neg =>
      rw [if_neg hd]
      exact iff_of_false (fun h => nomatch h) fun h => hd h.1

theorem ask_eq (w : Workspace) (path key : String) (hashes : String → Option String) :
    w.ask path key hashes =
      match (w.entry path).1 with
      | none   => (none, (w.entry path).2)
      | some e =>
        if e.key ≠ key then (none, (w.entry path).2)
        else if e.Current hashes then (some e.result, (w.entry path).2)
        else (none, (w.entry path).2.forget path) := by
  unfold ask reuse
  simp only [StateT.run_bind, StateT.run_get, pure_bind]
  generalize w.entry path = found
  obtain ⟨e, w'⟩ := found
  cases e
  case none => rfl
  case some e =>
    have hcurrent : (allCurrent (m := Id) hashes e.dependencies.entries).run = true ↔ e.Current hashes := allCurrent_iff
    change ((if e.key ≠ key then pure none
      else if (allCurrent (m := Id) hashes e.dependencies.entries).run = true then pure (some e.result)
      else do modify (·.forget path); pure none : StateT Workspace Id (Option Compiled)).run w').run = _
    by_cases hk : e.key ≠ key
    case pos =>
      rw [if_pos hk]
      dsimp only
      rw [if_pos hk]
      rfl
    case neg =>
      dsimp only
      rw [if_neg hk, if_neg hk]
      by_cases hc : e.Current hashes
      case pos =>
        rw [if_pos (hcurrent.2 hc), if_pos hc]
        rfl
      case neg =>
        rw [if_neg (mt hcurrent.1 hc), if_neg hc]
        rfl

-- A change to what is kept for one path.
structure Change (here path : String) (w w' : Workspace) : Prop where
  folder : w'.cache.folder = w.cache.folder
  disk   : Disk.Edit (spotIn here path) w.disk w'.disk
  memory : ∀ q, q ≠ path → w'.cache.entries.get? q = w.cache.entries.get? q

-- A cache in a folder is one map: its files say which, and what is in memory agrees with them.
structure Holds (folder : String) (used : String → Prop) (here : String) (m : CacheMap) (w : Workspace) : Prop where
  kept   : w.cache.folder = some folder
  houses : Houses folder used here w.disk
  stored : ∀ path, used path → w.disk.stored folder path = m path
  memory : ∀ path e, used path → w.cache.entries.get? path = some e → m path = some e

namespace Holds

variable {folder here key : String} {used : String → Prop} {m : CacheMap} {e : Option CacheEntry}

theorem change (h : Holds folder used here m w) (hu : used path) (hc : Change here path w w')
    (hs : w'.disk.stored folder path = e) (hm : ∀ e', w'.cache.entries.get? path = some e' → e = some e') :
    Holds folder used here (m.put path e) w' where
  kept   := hc.folder.trans h.kept
  houses := h.houses.edit hc.disk
  stored q hq := by
    by_cases hne : q = path
    case pos => rw [hne, hs, CacheMap.put_same]
    case neg => rw [h.houses.stored_other hu hq hne hc.disk, h.stored q hq, m.put_other e hne]
  memory q e' hq he := by
    by_cases hne : q = path
    case pos =>
      subst hne
      rw [CacheMap.put_same]
      exact hm e' he
    case neg =>
      rw [m.put_other e hne]
      exact h.memory q e' hq (hc.memory q hne ▸ he)

theorem discard (h : Holds folder used here m w) (hu : used path) :
    (w.disk.discard (fileIn folder path)).stored folder path = none := by
  have ⟨hedit, hentry⟩ := h.houses.discard hu
  exact (h.houses.edit hedit).stored_of_missing hu hentry

theorem readEntry (h : Holds folder used here m w) (hu : used path) :
    (w.readEntry path).1 = m path ∧ (w.readEntry path).2.cache = w.cache ∧
      (w.readEntry path).2.disk.stored folder path = m path ∧
      Disk.Edit (spotIn here path) w.disk (w.readEntry path).2.disk ∧
      ((m path).isSome → (w.readEntry path).2.disk = w.disk) := by
  have hstored := h.stored path hu
  unfold Workspace.readEntry
  rw [entryFile?_eq h.kept]
  dsimp only
  rw [← hstored, Disk.stored]
  cases hr : w.disk.read (fileIn folder path)
  case error => exact ⟨rfl, rfl, by rw [Disk.stored, hr], .refl _ _, fun _ => rfl⟩
  case ok text =>
    dsimp only
    cases hp : CacheEntry.parse? text
    case some found =>
      refine ⟨?_, rfl, by rw [Disk.stored, hr]; dsimp only; rw [hp], .refl _ _, fun _ => rfl⟩
      rw [Option.filter_some]
      by_cases hpath : found.path = path
      case pos => simp [hpath]
      case neg => simp [hpath]
    case none =>
      obtain ⟨hedit, _⟩ := h.houses.discard hu
      have hstored := h.discard hu
      have hdisk (warning : String) :
          ((w.warn warning).removeFile (fileIn folder path)).disk = w.disk.discard (fileIn folder path) := by
        rw [removeFile_eq]
        rfl
      refine ⟨rfl, ?_, ?_, ?_, fun hsome => by cases hsome⟩
      · rw [removeFile_eq]
        rfl
      · rw [hdisk, hstored]
        rfl
      · rw [hdisk]
        exact hedit

theorem entry (h : Holds folder used here m w) (hu : used path) :
    (w.entry path).1 = m path ∧ Holds folder used here m (w.entry path).2 ∧ Change here path w (w.entry path).2 ∧
      ((m path).isSome → (w.entry path).2.disk = w.disk ∧ w.cache.entries.Within (w.entry path).2.cache.entries) := by
  unfold Workspace.entry
  cases hg : w.cache.entries.get? path
  case some e =>
    exact ⟨(h.memory path e hu hg).symm, h, ⟨rfl, .refl _ _, fun _ _ => rfl⟩, fun _ => ⟨rfl, .refl _⟩⟩
  case none =>
    have ⟨hfound, hcache, hstored, hedit, hdisk⟩ := h.readEntry hu
    have hchange : Change here path w (w.readEntry path).2 := ⟨hcache ▸ rfl, hedit, fun _ _ => hcache ▸ rfl⟩
    generalize w.readEntry path = r at *
    obtain ⟨found, w'⟩ := r
    dsimp only at *
    cases found
    case none =>
      have hholds := h.change hu hchange hstored fun e' he => by
        rw [hcache, hg] at he
        cases he
      rw [m.put_self] at hholds
      exact ⟨hfound, hholds, hchange, fun hsome => by rw [← hfound] at hsome; cases hsome⟩
    case some e =>
      have hinsert : Change here path w (w'.setEntries (w'.cache.entries.insert path e)) := by
        refine ⟨hchange.folder, hedit, fun q hq => ?_⟩
        change (w'.cache.entries.insert path e).get? q = _
        rw [Dict.get?_insert, if_neg hq]
        exact hchange.memory q hq
      have hholds := h.change hu hinsert hstored fun e' he => by
        change (w'.cache.entries.insert path e).get? path = _ at he
        rw [Dict.get?_insert, if_pos rfl] at he
        exact hfound.symm.trans he
      rw [m.put_self] at hholds
      refine ⟨hfound, hholds, hinsert, fun hsome => ⟨hdisk hsome, fun q v hq => ?_⟩⟩
      have hne : q ≠ path := by
        rintro rfl
        cases hg.symm.trans hq
      exact (hinsert.memory q hne).trans hq

theorem forget (h : Holds folder used here m w) (hu : used path) :
    Holds folder used here (m.put path none) (w.forget path) ∧ Change here path w (w.forget path) ∧
      (w.forget path).cache.entries.get? path = none ∧
      (w.forget path).disk.entry (spotIn here path) = .missing := by
  have ⟨hedit, hentry⟩ := h.houses.discard hu
  have hforget : w.forget path =
      { w.setEntries (w.cache.entries.erase path) with disk := w.disk.discard (fileIn folder path) } := by
    have hkept : (w.setEntries (w.cache.entries.erase path)).cache.folder = some folder := h.kept
    unfold Workspace.forget
    dsimp only
    rw [entryFile?_eq hkept]
    exact removeFile_eq _ _
  have hfolder : (w.forget path).cache.folder = w.cache.folder := by rw [hforget]; rfl
  have hdisk : (w.forget path).disk = w.disk.discard (fileIn folder path) := by rw [hforget]
  have hget (q : String) :
      (w.forget path).cache.entries.get? q = if q = path then none else w.cache.entries.get? q := by
    rw [hforget]
    exact Dict.get?_erase ..
  have hgone : (w.forget path).cache.entries.get? path = none := by rw [hget, if_pos rfl]
  have hchange : Change here path w (w.forget path) :=
    ⟨hfolder, hdisk ▸ hedit, fun q hq => by rw [hget, if_neg hq]⟩
  have hstored : (w.forget path).disk.stored folder path = none := by
    rw [hdisk]
    exact h.discard hu
  exact ⟨h.change hu hchange hstored fun e' he => (by cases hgone.symm.trans he), hchange, hgone, hdisk ▸ hentry⟩

theorem written {e : CacheEntry} (h : Holds folder used here m w) (hu : used e.path) :
    ∃ disk', w.remember e = { w.setEntries (w.cache.entries.insert e.path e) with disk := disk' } ∧
      Disk.Edit (spotIn here e.path) w.disk disk' ∧ disk'.entry (spotIn here e.path) = .file e.write := by
  have ⟨disk', hwrite, hedit, hentry⟩ := h.houses.write hu e.write
  refine ⟨disk', ?_, hedit, hentry⟩
  unfold Workspace.remember Workspace.writeEntry
  dsimp only
  rw [entryFile?_eq h.kept]
  dsimp only
  rw [hwrite]
  rfl

theorem remember {e : CacheEntry} (h : Holds folder used here m w) (hu : used e.path) (hs : e.result.Storable) :
    Holds folder used here (m.put e.path (some e)) (w.remember e) := by
  have ⟨disk', hremember, hedit, hentry⟩ := h.written hu
  rw [hremember]
  refine h.change hu ⟨rfl, hedit, fun q hq => ?_⟩ ?_ fun e' he => ?_
  · change (w.cache.entries.insert e.path e).get? q = _
    rw [Dict.get?_insert, if_neg hq]
  · change disk'.stored folder e.path = some e
    rw [(h.houses.edit hedit).stored_of_file hu hentry, CacheEntry.parse?_write hs]
    simp
  · change (w.cache.entries.insert e.path e).get? e.path = _ at he
    rwa [Dict.get?_insert, if_pos rfl] at he

theorem removeFiles (folder : String) (names : List String) (h : w.disk.Proper) :
    let w' := names.foldl (fun w name => w.removeFile (Path.join folder name)) w
    w'.cache = w.cache ∧ Disk.Cleared w.disk w'.disk ∧
      ∀ name ∈ names, ∀ spot, w.disk.locate (Path.join folder name) = .ok spot →
        w.disk.entry spot ≠ .folder → w'.disk.entry spot = .missing := by
  induction names generalizing w
  case nil => exact ⟨rfl, .refl h, fun name hm => nomatch hm⟩
  case cons name names ih =>
    rw [List.foldl_cons, removeFile_eq]
    have hcleared := h.discard_cleared (Path.join folder name)
    have ⟨hcache, hrest, hgone⟩ := ih (w := { w with disk := w.disk.discard (Path.join folder name) }) hcleared.proper
    refine ⟨hcache, hcleared.trans hrest, fun other hm spot hl hf => ?_⟩
    rcases List.mem_cons.1 hm with hm | hm
    case inl =>
      subst hm
      exact hrest.missing (h.discard hl hf).2
    case inr => exact hgone other hm spot (hcleared.same.locate hl) (mt (hcleared.same.folders spot).1 hf)

theorem forgetAll (h : Holds folder used here m w) : Holds folder used here (fun _ => none) w.forgetAll := by
  have hall : w.forgetAll = ((w.disk.names folder).filter (Path.extension · = ".json")).foldl
      (fun w name => w.removeFile (Path.join folder name)) (w.setEntries ∅) := by
    unfold Workspace.forgetAll
    dsimp only
    have hkept : (w.setEntries ∅).cache.folder = some folder := h.kept
    rw [hkept]
    rfl
  have ⟨hcache, hcleared, hgone⟩ := removeFiles folder (w := w.setEntries ∅)
    ((w.disk.names folder).filter (Path.extension · = ".json")) h.houses.proper
  rw [hall]
  have hhouses := h.houses.same hcleared.same hcleared.proper
  refine ⟨?_, hhouses, fun path hu => hhouses.stored_of_missing hu ?_, fun path e hu he => ?_⟩
  · rw [hcache]
    exact h.kept
  · cases he : w.disk.entry (spotIn here path)
    case file text =>
      exact hgone (nameOf path) (h.houses.mem_names hu he) _ (h.houses.files path hu) (h.houses.free path hu)
    case folder  => exact absurd he (h.houses.free path hu)
    case missing => exact hcleared.missing he
  · rw [hcache] at he
    cases he

theorem reopen (h : Holds folder used here m w) :
    ∃ w', w.openCache folder = .ok w' ∧ Holds folder used here m w' := by
  have hopen : w.openCache folder = .ok { w with cache := ⟨∅, some folder⟩ } := by
    rw [openCache, h.houses.opens.createFolders]
    rfl
  exact ⟨_, hopen, rfl, h.houses, h.stored, fun path e _ he => by cases he⟩

theorem ask (h : Holds folder used here m w) (hu : used path) (key : String) (hashes : String → Option String) :
    (w.ask path key hashes).1 = (m.step (.get path key hashes)).1 ∧
      Holds folder used here (m.step (.get path key hashes)).2 (w.ask path key hashes).2 := by
  have ⟨hfound, hholds, _, _⟩ := h.entry hu
  rw [ask_eq, hfound, CacheMap.step]
  cases m path
  case none => exact ⟨rfl, hholds⟩
  case some e =>
    dsimp only
    split
    case isTrue => exact ⟨rfl, hholds⟩
    case isFalse =>
      split
      case isTrue  => exact ⟨rfl, hholds⟩
      case isFalse => exact ⟨rfl, (hholds.forget hu).1⟩

-- One step is a step of the map.
theorem step {op : CacheOp} (h : Holds folder used here m w) (hu : op.Uses used) :
    ∃ w', op.run folder w = .ok ((m.step op).1, w') ∧ Holds folder used here (m.step op).2 w' := by
  cases op
  case insert e => exact ⟨_, rfl, h.remember hu.1 hu.2⟩
  case get path key hashes =>
    have ⟨hanswer, hholds⟩ := h.ask hu key hashes
    exact ⟨_, congrArg (fun answer => Except.ok (answer, _)) hanswer, hholds⟩
  case remove path => exact ⟨_, rfl, (h.forget hu).1⟩
  case clear       => exact ⟨_, rfl, h.forgetAll⟩
  case reopen =>
    have ⟨w', hopen, hholds⟩ := h.reopen
    refine ⟨w', ?_, hholds⟩
    rw [CacheOp.run, hopen]
    rfl

theorem run {ops : List CacheOp} (h : Holds folder used here m w) (hu : ∀ op ∈ ops, op.Uses used) :
    ∃ w', CacheOp.runAll folder w ops = .ok ((m.run ops).1, w') ∧ Holds folder used here (m.run ops).2 w' := by
  induction ops generalizing m w
  case nil => exact ⟨w, rfl, h⟩
  case cons op ops ih =>
    have ⟨w₁, hstep, h₁⟩ := h.step (hu op (.head _))
    have ⟨w₂, hrun, h₂⟩ := ih h₁ fun op hm => hu op (.tail _ hm)
    refine ⟨w₂, ?_, h₂⟩
    rw [CacheOp.runAll_cons hstep, hrun]
    rfl

end Holds

-- What a lookup deletes: the entry for the path, in memory and on disk, when a file that it depends on has changed,
-- and nothing under another key or for another path.
structure Spares (folder : String) (used : String → Prop) (m : CacheMap) (w : Workspace) : Prop where
  stale : ∀ path e hashes, used path → m path = some e → ¬e.Current hashes →
    (w.ask path e.key hashes).2.cache.entries.get? path = none ∧
      (w.ask path e.key hashes).2.disk.exists? (fileIn folder path) = false
  otherKey : ∀ path e key hashes, used path → m path = some e → e.key ≠ key →
    (w.ask path key hashes).2.disk = w.disk ∧
      w.cache.entries.Within (w.ask path key hashes).2.cache.entries
  otherPath : ∀ path q key hashes, used path → used q → q ≠ path →
    (w.ask path key hashes).2.cache.entries.get? q = w.cache.entries.get? q ∧
      (w.ask path key hashes).2.disk.read (fileIn folder q) = w.disk.read (fileIn folder q)

namespace Holds

variable {folder here : String} {used : String → Prop} {m : CacheMap}

theorem spares (h : Holds folder used here m w) : Spares folder used m w where
  stale path e hashes hu he hs := by
    have ⟨hfound, hholds, _, _⟩ := h.entry hu
    have ⟨hforgot, _, hgone, hmissing⟩ := hholds.forget hu
    rw [ask_eq, hfound, he]
    dsimp only
    rw [if_neg (not_not.2 rfl), if_neg hs]
    refine ⟨hgone, ?_⟩
    rw [Disk.exists?, Disk.entryAt, hforgot.houses.files path hu]
    dsimp only
    rw [hmissing]
    rfl
  otherKey path e key hashes hu he hk := by
    have ⟨hfound, _, _, hkeep⟩ := h.entry hu
    rw [ask_eq, hfound, he]
    dsimp only
    rw [if_pos hk]
    exact hkeep (by rw [he]; rfl)
  otherPath path q key hashes hu hq hne := by
    have ⟨hfound, hholds, hchange, _⟩ := h.entry hu
    have ⟨_, hforget, _, _⟩ := hholds.forget hu
    have hentry := And.intro (hchange.memory q hne) (h.houses.read_other hu hq hne hchange.disk)
    have hforgot : (((w.entry path).2.forget path).cache.entries.get? q = w.cache.entries.get? q) ∧
        ((w.entry path).2.forget path).disk.read (fileIn folder q) = w.disk.read (fileIn folder q) :=
      ⟨(hforget.memory q hne).trans hentry.1,
        (hholds.houses.read_other hu hq hne hforget.disk).trans hentry.2⟩
    rw [ask_eq]
    split
    case h_1 => exact hentry
    case h_2 =>
      split
      case isTrue => exact hentry
      case isFalse =>
        split
        case isTrue  => exact hentry
        case isFalse => exact hforgot

end Holds

-- A cache in a folder answers as one map from paths to entries does, which lasts when the cache is opened anew.
theorem openCache_refines {w₀ w : Workspace} {folder : String} {used : String → Prop} {ops : List CacheOp}
    (hp : w₀.disk.Proper) (ho : w₀.openCache folder = .ok w) (hf : folder ≠ "")
    (hi : ∀ p q, used p → used q → fingerprint p = fingerprint q → p = q)
    (hw : ∀ path, used path → ∀ text, ∃ disk, w.disk.write (fileIn folder path) text = .ok disk)
    (hu : ∀ op ∈ ops, op.Uses used) :
    ∃ w', CacheOp.runAll folder w ops = .ok ((CacheMap.run (w.disk.stored folder) ops).1, w') ∧
      Spares folder used (CacheMap.run (w.disk.stored folder) ops).2 w' := by
  cases hc : w₀.disk.createFolders folder
  case error =>
    rw [openCache, hc] at ho
    cases ho
  case ok disk =>
    have ⟨hproper, hopens⟩ := hp.createFolders hc
    rw [openCache, hc] at ho
    cases ho
    have ⟨here, hhouses⟩ := Houses.of_writes hproper hopens hf hi hw
    have hholds : Holds folder used here (disk.stored folder) { w₀ with disk, cache := ⟨∅, some folder⟩ } :=
      ⟨rfl, hhouses, fun _ _ => rfl, fun path e _ he => by cases he⟩
    have ⟨w', hrun, hafter⟩ := hholds.run hu
    exact ⟨w', hrun, hafter.spares⟩

section

-- An entry with nothing to it but a source map.
def keeping (map : Json) : CacheEntry :=
  ⟨"/a.css", "k", ⟨false, "", [], "", some map, none, "", "", ""⟩, ∅⟩

theorem empty_proper : Disk.empty.Proper :=
  ⟨rfl, fun _ hm => by cases hm⟩

theorem empty_write (text : String) : ∃ disk, Disk.empty.write (fileIn "/" "/a.css") text = .ok disk := by
  have hplace : Disk.empty.locate (fileIn "/" "/a.css") = .ok (spotIn "/" "/a.css") := by decide +kernel
  exact ⟨_, (Disk.write_eq_ok hplace).2 ⟨by decide +kernel, by decide +kernel, rfl⟩⟩

theorem one_apart (p q : String) (hp : p = "/a.css") (hq : q = "/a.css") (_ : fingerprint p = fingerprint q) : p = q :=
  hp.trans hq.symm

theorem openCache_refines_root :
    let e : CacheEntry := { keeping (.object [("version", .ofNat 3)]) with dependencies := .ofList [("/v.css", "h")] }
    ∃ w', CacheOp.runAll "/" ⟨.empty, ⟨∅, some "/"⟩, []⟩
        [.insert e, .reopen, .get "/a.css" "k" fun _ => some "h", .get "/a.css" "k" fun _ => none,
          .get "/a.css" "k" fun _ => some "h"] = .ok ([none, none, some e.result, none, none], w') ∧
      Spares "/" (· = "/a.css")
        (CacheMap.put (CacheMap.put (Disk.empty.stored "/") "/a.css" (some e)) "/a.css" none) w' := by
  intro e
  have hstorable : e.result.Storable := by
    intro map hm
    cases hm
    refine ⟨by simp, rfl, by decide, fun n hn => ?_⟩
    rw [List.mem_singleton.1 hn]
    exact ⟨by decide, by decide⟩
  have hopen : (inMemory .empty).openCache "/" = .ok ⟨.empty, ⟨∅, some "/"⟩, []⟩ := rfl
  refine openCache_refines empty_proper hopen (by decide) one_apart ?_ ?_
  · rintro path rfl text
    exact empty_write text
  · refine List.forall_mem_cons.2 ⟨⟨rfl, hstorable⟩, ?_⟩
    simp [CacheOp.Uses]

-- An entry that is not read back from its file is lost when the cache is opened anew.
theorem Holds.not_refines {folder here : String} {used : String → Prop} {m : CacheMap} {e : CacheEntry}
    {hashes : String → Option String} (h : Holds folder used here m w) (hu : used e.path) (hc : e.Current hashes)
    (hne : (CacheEntry.parse? e.write).map (·.result) ≠ some e.result) :
    ¬∃ w', CacheOp.runAll folder w [.insert e, .reopen, .get e.path e.key hashes] =
      .ok ((m.run [.insert e, .reopen, .get e.path e.key hashes]).1, w') := by
  rintro ⟨w', hrun⟩
  have ⟨disk', hremember, hedit, hentry⟩ := h.written hu
  have hhouses := h.houses.edit hedit
  have hreopened : Holds folder used here (disk'.stored folder) { w with disk := disk', cache := ⟨∅, some folder⟩ } :=
    ⟨rfl, hhouses, fun _ _ => rfl, fun path e _ he => by cases he⟩
  have ⟨hanswer, _⟩ := hreopened.ask hu e.key hashes
  have hopen : CacheOp.reopen.run folder (w.remember e) =
      .ok (none, { w with disk := disk', cache := ⟨∅, some folder⟩ }) := by
    rw [hremember, CacheOp.run, openCache]
    dsimp only
    rw [hhouses.opens.createFolders]
    rfl
  have hsteps : CacheOp.runAll folder w [.insert e, .reopen, .get e.path e.key hashes] =
      let asked := Workspace.ask { w with disk := disk', cache := ⟨∅, some folder⟩ } e.path e.key hashes
      .ok ([none, none, asked.1], asked.2) := by
    have hinsert : (CacheOp.insert e).run folder w = .ok (none, w.remember e) := rfl
    have hget (w : Workspace) : (CacheOp.get e.path e.key hashes).run folder w =
        .ok ((w.ask e.path e.key hashes).1, (w.ask e.path e.key hashes).2) := rfl
    rw [CacheOp.runAll_cons hinsert, CacheOp.runAll_cons hopen, CacheOp.runAll_cons (hget _)]
    rfl
  have hkept : (m.run [.insert e, .reopen, .get e.path e.key hashes]).1 = [none, none, some e.result] := by
    simp [CacheMap.run, CacheMap.step, hc]
  have hback : (CacheMap.step (disk'.stored folder) (.get e.path e.key hashes)).1 = some e.result := by
    rw [hkept, hsteps] at hrun
    have hthird := List.cons.inj (List.cons.inj (List.cons.inj (Prod.mk.inj (Except.ok.inj hrun)).1).2).2
    exact hanswer.symm.trans hthird.1
  rw [CacheMap.step, hhouses.stored_of_file hu hentry] at hback
  cases hp : CacheEntry.parse? e.write
  case none =>
    rw [hp] at hback
    cases hback
  case some found =>
    refine hne ?_
    rw [hp, Option.filter_some] at hback
    rw [hp]
    by_cases hpath : found.path = e.path
    case neg =>
      rw [if_neg (by simpa using hpath)] at hback
      cases hback
    case pos =>
      rw [if_pos (by simpa using hpath)] at hback
      dsimp only at hback
      split at hback
      case isTrue => cases hback
      case isFalse =>
        split at hback
        case isTrue  => exact hback
        case isFalse => cases hback

-- A source map inside as many brackets.
def wrapped : Nat → Json
  | 0     => .array []
  | n + 1 => .array [wrapped n]

theorem keeping_ne {map : Json}
    (h : (CacheEntry.parse? (keeping map).write).bind (·.result.sourceMap.map (·.write)) ≠ some map.write) :
    (CacheEntry.parse? (keeping map).write).map (·.result) ≠ some (keeping map).result := by
  intro he
  refine h ?_
  cases hp : CacheEntry.parse? (keeping map).write
  case none =>
    rw [hp] at he
    cases he
  case some found =>
    rw [hp] at he
    have hresult : found.result = (keeping map).result := Option.some.inj he
    change found.result.sourceMap.map (·.write) = _
    rw [hresult]
    rfl

-- It does not for a double that is read inexactly, nor for a source map that nests deeper, and the files in a folder
-- without a name outlast the removal of all entries.
theorem openCache_not_refines :
    let w (folder : String) : Workspace := ⟨.empty, ⟨∅, some folder⟩, []⟩
    let reopened (map : Json) : List CacheOp := [.insert (keeping map), .reopen, .get "/a.css" "k" fun _ => none]
    let cleared : List CacheOp := [.insert (keeping (.array [])), .clear, .get "/a.css" "k" fun _ => none]
    (¬∃ w', CacheOp.runAll "/" (w "/") (reopened (.number (.double (Double.ofDecimal 11 23)))) =
      .ok ((CacheMap.run (Disk.empty.stored "/") (reopened (.number (.double (Double.ofDecimal 11 23))))).1, w')) ∧
    (¬∃ w', CacheOp.runAll "/" (w "/") (reopened (wrapped 125)) =
      .ok ((CacheMap.run (Disk.empty.stored "/") (reopened (wrapped 125))).1, w')) ∧
    ¬∃ w', CacheOp.runAll "" (w "") cleared = .ok ((CacheMap.run (Disk.empty.stored "") cleared).1, w') := by
  intro w reopened cleared
  have hopens : Disk.empty.Opens "/" := ⟨"/", rfl, rfl⟩
  have ⟨here, hhouses⟩ :=
    Houses.of_writes empty_proper hopens (by decide) one_apart fun path hu text => hu ▸ empty_write text
  have hholds : Holds "/" (· = "/a.css") here (Disk.empty.stored "/") (w "/") :=
    ⟨rfl, hhouses, fun _ _ => rfl, fun path e _ he => by cases he⟩
  refine ⟨hholds.not_refines rfl (by decide) (keeping_ne ?_), hholds.not_refines rfl (by decide) (keeping_ne ?_), ?_⟩
  · unfold CacheEntry.parse? CacheEntry.write Json.parse? Json.compact
    rw [String.toList_ofList]
    decide +kernel
  · unfold CacheEntry.parse? CacheEntry.write Json.parse? Json.compact
    rw [String.toList_ofList]
    decide +kernel
  · rintro ⟨w', hrun⟩
    have hlasts : (CacheOp.runAll "" (w "") cleared).toOption.map (fun r => r.1.map (·.isSome)) =
        some [false, false, true] := by decide +kernel
    rw [hrun] at hlasts
    cases hlasts

end

end Workspace

end ScopedCss
