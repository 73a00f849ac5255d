import ScopedCss.Proofs.Build.Plain

namespace ScopedCss

open SessionM

-- The files of a build, and what is on disk at its time.
structure Round where
  disk  : Disk
  files : List HostFile

namespace Compiler

def buildRound (c : Compiler) (w : Workspace) (r : Round) :
    Except Error BuildReport × List HostFile × Workspace :=
  c.build { w with disk := r.disk } r.files

-- Builds one after another with the same cache.
def buildAll (c : Compiler) (w : Workspace) (rounds : List Round) : Workspace :=
  rounds.foldl (fun w r => (c.buildRound w r).2.2) w

end Compiler

-- From one round to another, only texts of style sheets change, and fingerprints tell them apart. What
-- is built again is built under the same name, and for clients or not as before.
structure Round.Steady (s : Settings) (r r' : Round) : Prop where
  isFile   : r'.disk.isFile = r.disk.isFile
  manifest : ∀ folder, r'.disk.read (folder ++ "/package.json") = r.disk.read (folder ++ "/package.json")
  apart    : ∀ q raw raw', r.disk.read q = .ok raw → r'.disk.read q = .ok raw' →
    fingerprint raw = fingerprint raw' → raw = raw'
  place    : ∀ f ∈ r.files, ∀ f' ∈ r'.files, (f'.source s).path = (f.source s).path → f'.place = f.place
  client   : ∀ f ∈ r.files, ∀ f' ∈ r'.files, (f'.source s).path = (f.source s).path →
    s.isClient f'.arch = s.isClient f.arch

theorem ImportTarget.settle_congr {disk disk' : Disk} {present : String → Bool} (target : ImportTarget)
    (specifier : String)
    (h : ∀ folder, disk'.read (folder ++ "/package.json") = disk.read (folder ++ "/package.json")) :
    target.settle specifier disk' present = target.settle specifier disk present := by
  cases target
  case mainEntry folder =>
    unfold settle
    dsimp only
    rw [h folder]
  all_goals rfl

theorem CacheEntry.keyOf_inj {s hash hash' : String} (h : keyOf s hash = keyOf s hash') : hash = hash' := by
  have hl := congrArg String.toList h
  simp only [keyOf, String.toList_append, List.append_assoc, List.append_cancel_left_eq] at hl
  exact String.toList_inj.1 hl

-- All files that a result stands on could be read.
theorem Evaluates.texts {p : Project} {W : Collection} {chain : List String} {path : String}
    {result : Except Error ScopedModule} (h : Evaluates p W chain path result) {r : ScopedModule}
    (hr : result = .ok r) : ∀ q ∈ path :: r.importTree, ∃ css, W.text q = .ok css := by
  induction h generalizing r
  case cyclic => cases hr
  case unread => cases hr
  case read css other _ ht _ ih =>
    have ⟨sheet, composed, hmodule, hsound, _⟩ := composed_of_resultOfText hr
    intro q hq
    rcases List.mem_cons.1 hq with rfl | hq
    · exact ⟨css, ht⟩
    · have ⟨c, hm, hq⟩ := mem_importTree (hmodule ▸ hq)
      have ⟨specifier, hs, hres, hother⟩ := hsound c hm
      exact ih specifier hs _ hres hother q hq

theorem Disk.hashOf_eq_some {disk : Disk} {q hash : String} :
    disk.hashOf q = some hash ↔ ∃ raw, disk.read q = .ok raw ∧ fingerprint raw = hash := by
  unfold hashOf
  cases disk.read q <;> simp

namespace Compiler

variable {c : Compiler} {q : Project} {rounds : List Round} {r r' : Round} {f f' : HostFile} {e : CacheEntry}

theorem keyFor_inj {i i' : Input} (h : c.keyFor i = c.keyFor i') :
    fingerprint i.contents = fingerprint i'.contents := by
  unfold keyFor at h
  exact CacheEntry.keyOf_inj h

-- The files of a round are as they are on disk.
def Reads (c : Compiler) (r : Round) : Prop :=
  ∀ f ∈ r.files, r.disk.read (f.source c.settings).path = .ok f.contents

-- What the specifiers of a file name is the same from one round to another.
theorem resolve_steady (hs : r.Steady c.settings r') (hr : c.Reads r) (hr' : c.Reads r') :
    ((c.registered r'.files).collection r'.disk).resolve { q with disk := r'.disk } =
      ((c.registered r.files).collection r.disk).resolve { q with disk := r.disk } := by
  have honDisk := registered_onDisk hr
  have honDisk' := registered_onDisk hr'
  funext specifier path
  unfold Collection.resolve Resolver.resolve
  rw [honDisk.known, honDisk'.known, hs.isFile]
  exact ImportTarget.settle_congr _ specifier hs.manifest

-- What a result stands on has the same text in two rounds if it has the same fingerprint.
theorem text_steady (hs : r.Steady c.settings r') (hr : c.Reads r) (hr' : c.Reads r') {path raw : String}
    (hread : r.disk.read path = .ok raw) (hhash : r'.disk.hashOf path = some (fingerprint raw)) :
    ((c.registered r'.files).collection r'.disk).text path =
      ((c.registered r.files).collection r.disk).text path := by
  have ⟨raw', hread', hsame⟩ := Disk.hashOf_eq_some.1 hhash
  have he : raw = raw' := hs.apart path raw raw' hread hread' hsame.symm
  rw [(registered_onDisk hr).text, (registered_onDisk hr').text, Settings.textOn, Settings.textOn, hread, hread', he]

-- An entry that a later round is answered with holds what the file comes to then.
theorem Records.current (hs : r.Steady c.settings r') (hr : c.Reads r) (hr' : c.Reads r') (hf : f ∈ r.files)
    (hf' : f' ∈ r'.files) (hpath : (f'.source c.settings).path = (f.source c.settings).path)
    (he : c.Records { q with disk := r.disk } (c.registered r.files) f e) (hkey : e.key = c.keyFor (.ofHost f'))
    (hcurrent : ∀ d ∈ e.dependencies.entries, r'.disk.hashOf d.1 = some d.2) :
    c.alone { q with disk := r'.disk } (c.registered r'.files) (f'.source c.settings) = .ok e.result := by
  cases he
  case mk source dependencies hscope hdependencies =>
    have honDisk := registered_onDisk hr
    have honDisk' := registered_onDisk hr'
    have hread := hr f hf
    have hread' := hr' f' hf'
    have hkey : c.keyFor (.ofHost f) = c.keyFor (.ofHost f') := hkey
    have hsame := keyFor_inj hkey
    have hcontents : f'.contents = f.contents := (hs.apart _ _ _ hread (hpath ▸ hread') hsame).symm
    have ⟨result, heval⟩ := evaluates_of_onDisk (p := { q with disk := r.disk }) honDisk hread
    have houtcome := outcome_of_evaluates (p := { q with disk := r.disk }) honDisk hread heval
    rw [hscope] at houtcome
    have ⟨result', heval', houtcome'⟩ : ∃ result', Evaluates { q with disk := r'.disk }
        ((c.registered r'.files).collection r'.disk) [] (f'.source c.settings).path result' ∧
          .ok source = if isLeft { q with disk := r.disk } (f.source c.settings) then .ok (f.source c.settings)
            else result'.map ((f.source c.settings).scopedAs { q with disk := r.disk }) := by
      split at houtcome
      case isTrue hleft =>
        have ⟨result', heval'⟩ := evaluates_of_onDisk (p := { q with disk := r'.disk }) honDisk' hread'
        exact ⟨result', heval', by rw [if_pos hleft, houtcome]⟩
      case isFalse hleft =>
        cases result
        case error => cases houtcome
        case ok m =>
          refine ⟨.ok m, ?_, by rw [if_neg hleft, houtcome]⟩
          cases houtcome
          rw [hpath]
          refine heval.agree rfl (resolve_steady hs hr hr') rfl fun x hx => ?_
          rcases List.mem_cons.1 hx with rfl | hm
          · refine text_steady hs hr hr' hread ?_
            exact Disk.hashOf_eq_some.2 ⟨_, hpath ▸ hread', hsame.symm⟩
          · have ⟨css, ht⟩ := heval.texts rfl x hx
            rw [honDisk.text, Settings.textOn] at ht
            cases hraw : r.disk.read x
            case error =>
              rw [hraw] at ht
              cases ht
            case ok raw =>
              refine text_steady hs hr hr' hraw (hcurrent (x, fingerprint raw) ?_)
              exact hdependencies x (PathSet.mem_addAll _ hm) _ (Disk.hashOf_eq_some.2 ⟨raw, hraw, rfl⟩)
    have halone := alone_of_evaluates (p := { q with disk := r'.disk }) honDisk' hread' heval'
    have halike := compiled_alike hpath (hs.place f hf f' hf' hpath)
      (hs.client f hf f' hf' hpath) hcontents
      (show ({ q with disk := r'.disk } : Project).settings = ({ q with disk := r.disk } : Project).settings from rfl) result'
    rw [halone, halike, ← houtcome']
    rfl

-- Every entry of a cache was made in one of the rounds.
structure Traced (c : Compiler) (q : Project) (rounds : List Round) (w : Workspace) : Prop where
  folder  : w.cache.folder = none
  entries : ∀ path e, w.cache.entries.get? path = some e → ∃ r ∈ rounds, ∃ f ∈ r.files,
    (f.source c.settings).path = path ∧
      c.Records { q with disk := r.disk } (c.registered r.files) f e

theorem Traced.trusts {w : Workspace} (h : c.Traced q rounds w) (hs : ∀ r ∈ rounds, r.Steady c.settings r')
    (hr : ∀ r ∈ rounds, c.Reads r) (hr' : c.Reads r') :
    c.Trusts { q with disk := r'.disk } (c.registered r'.files) r'.files w.cache.entries := by
  intro f' hf' e he
  have ⟨r, hm, f, hf, hpath, hrecords⟩ := h.entries _ e he.found
  exact hrecords.current (hs r hm) (hr r hm) hr' hf hf' hpath.symm he.key he.current

section

variable (hd : c.settings.dialects = []) (hi : c.settings.options.includedFolders = []) {disk : Disk}

include hd hi

theorem Traced.build (hq : Project.make disk c.settings = .ok q) {w : Workspace} (h : c.Traced q rounds w)
    (hs : ∀ r ∈ rounds, r.Steady c.settings r') (hr : ∀ r ∈ rounds, c.Reads r) (hr' : c.Reads r') :
    c.Traced q (rounds ++ [r']) (c.buildRound w r').2.2 := by
  have hmake : Project.make r'.disk c.settings = .ok { q with disk := r'.disk } := by
    rw [c.make_eq disk, hq]
    rfl
  have ⟨_, hfolder, hkeeps⟩ :=
    build_plain (w := { w with disk := r'.disk }) hd hi h.folder hmake hr' (h.trusts hs hr hr')
  refine ⟨hfolder, fun path e he => ?_⟩
  rcases hkeeps path e he with he | ⟨f, hf, hpath, hrecords⟩
  · have ⟨r, hm, hentry⟩ := h.entries path e he
    exact ⟨r, List.mem_append_left _ hm, hentry⟩
  · exact ⟨r', by simp, f, hf, hpath, hrecords⟩

theorem buildAll_traced (hq : Project.make disk c.settings = .ok q) (disk₀ : Disk)
    (hr : ∀ r ∈ rounds, c.Reads r) (hs : rounds.Pairwise (Round.Steady c.settings)) :
    c.Traced q rounds (c.buildAll (.inMemory disk₀) rounds) := by
  induction rounds using List.reverseRecOn
  case nil => exact ⟨rfl, fun path e he => by cases he⟩
  case append_singleton rounds r ih =>
    have ⟨hs, _, hlast⟩ := List.pairwise_append.1 hs
    have h := ih (fun r hm => hr r (List.mem_append_left _ hm)) hs
    have hbuild := h.build hd hi hq (fun r' hm => hlast r' hm r (.head _))
      (fun r hm => hr r (List.mem_append_left _ hm)) (hr r (by simp))
    unfold buildAll at hbuild ⊢
    rwa [List.foldl_append]

end

-- A build after others hands back what it would as the first one.
theorem build_again (c : Compiler) (disk : Disk) {rounds : List Round} {r : Round} {n : Nat} {f : HostFile}
    (hd : c.settings.dialects = []) (hi : c.settings.options.includedFolders = [])
    (hr : ∀ r' ∈ rounds ++ [r], c.Reads r') (hs : (rounds ++ [r]).Pairwise (Round.Steady c.settings))
    (hn : r.files[n]? = some f) :
    (c.buildRound (c.buildAll (.inMemory disk) rounds) r).2.1[n]? = (c.buildRound (.inMemory disk) r).2.1[n]? := by
  unfold buildRound
  cases hq : Project.make disk c.settings
  case error => rw [build_refused hd hi hq, build_refused hd hi hq]
  case ok q =>
    have hmake : Project.make r.disk c.settings = .ok { q with disk := r.disk } := by
      rw [c.make_eq disk, hq]
      rfl
    have ⟨hpast, _, hlast⟩ := List.pairwise_append.1 hs
    have hreads := hr r (by simp)
    have hpastReads (r' : Round) (hm : r' ∈ rounds) := hr r' (List.mem_append_left _ hm)
    have htraced := buildAll_traced hd hi hq disk hpastReads hpast
    have htrusts := htraced.trusts (fun r' hm => hlast r' hm r (.head _)) hpastReads hreads
    have hagain := (build_plain (w := { c.buildAll (.inMemory disk) rounds with disk := r.disk }) hd hi
      htraced.folder hmake hreads htrusts).1 n f hn
    have hfirst := (build_plain (w := { Workspace.inMemory disk with disk := r.disk }) hd hi rfl hmake hreads trusts_empty).1 n f hn
    rw [hagain, hfirst]

-- All of them, then one alone, and at last all of them in another order.
def neighbourRounds : List Round :=
  [⟨neighbourDisk, neighbours⟩, ⟨neighbourDisk, [composer]⟩]

def lastRound : Round :=
  ⟨neighbourDisk, neighbours.reverse⟩

theorem build_again_neighbours :
    bare.settings.dialects = [] ∧ bare.settings.options.includedFolders = [] ∧
      (∀ r ∈ neighbourRounds ++ [lastRound], bare.Reads r) ∧
      (neighbourRounds ++ [lastRound]).Pairwise (Round.Steady bare.settings) ∧
      lastRound.files[2]? = some composer ∧
      (bare.buildRound (bare.buildAll (.inMemory .empty) neighbourRounds) lastRound).2.1[2]? =
        (bare.buildRound (.inMemory .empty) lastRound).2.1[2]? := by
  have hr : ∀ r ∈ neighbourRounds ++ [lastRound], bare.Reads r := by
    unfold Reads
    decide
  have hsame : ∀ r ∈ neighbourRounds ++ [lastRound], ∀ r' ∈ neighbourRounds ++ [lastRound],
      r.disk = neighbourDisk ∧ r'.disk = neighbourDisk ∧ ∀ f ∈ r.files, ∀ f' ∈ r'.files,
        (f'.source bare.settings).path = (f.source bare.settings).path →
          f'.place = f.place ∧ bare.settings.isClient f'.arch = bare.settings.isClient f.arch := by
    decide
  have hs : (neighbourRounds ++ [lastRound]).Pairwise (Round.Steady bare.settings) := by
    refine List.Pairwise.imp_of_mem (R := fun _ _ => True) (fun h h' _ => ?_) (by simp [neighbourRounds])
    have ⟨hd, hd', hfiles⟩ := hsame _ h _ h'
    exact {
      isFile                       := by rw [hd, hd']
      manifest folder              := by rw [hd, hd']
      apart path raw raw' hr hr' _ := Except.ok.inj (hr.symm.trans (hd ▸ hd' ▸ hr'))
      place f hf f' hf' hpath      := (hfiles f hf f' hf' hpath).1
      client f hf f' hf' hpath     := (hfiles f hf f' hf' hpath).2 }
  have hn : lastRound.files[2]? = some composer := rfl
  exact ⟨rfl, rfl, hr, hs, hn, build_again bare .empty rfl rfl hr hs hn⟩

end Compiler

end ScopedCss
