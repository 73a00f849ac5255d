import ScopedCss.Proofs.Composition.Cycles
import ScopedCss.Proofs.Composition.Exports
import ScopedCss.Proofs.Composition.Plain

namespace ScopedCss

namespace Session

variable {s t : Session} {records : List ImportRecord} {q x : String} {r : ScopedModule}

theorem mem_importTree :
    x ∈ SessionM.importTree s records ↔
      ∃ record ∈ records, record.path = x ∨ ∃ r, s.resultOf record.path = some r ∧ x ∈ r.importTree := by
  unfold SessionM.importTree
  rw [List.mem_append, List.mem_map, List.mem_flatMap]
  constructor
  case mp =>
    rintro (⟨record, hm, he⟩ | ⟨record, hm, hx⟩)
    · exact ⟨record, hm, .inl he⟩
    · cases hr : s.resultOf record.path
      case none => simp [hr] at hx
      case some r => exact ⟨record, hm, .inr ⟨r, hr, by simpa [hr] using hx⟩⟩
  case mpr =>
    rintro ⟨record, hm, he | ⟨r, hr, hx⟩⟩
    · exact .inl ⟨record, hm, he⟩
    · exact .inr ⟨record, hm, by simpa [hr] using hx⟩

-- A tree is put together in the same way as long as the results that it is put together from are kept.
theorem Keeps.importTree (hk : s.Keeps t) (h : ∀ record ∈ records, ∃ r, s.resultOf record.path = some r) :
    SessionM.importTree t records = SessionM.importTree s records := by
  unfold SessionM.importTree
  refine congrArg (records.map (·.path) ++ ·) (List.flatMap_congr fun record hm => ?_)
  have ⟨r, hr⟩ := h record hm
  rw [hr, (hk _ _ hr).1]

-- The tree of every result is put together from what its file is composed of.
def Assembled (s : Session) : Prop :=
  ∀ q r, s.resultOf q = some r → r.importTree = SessionM.importTree s (s.importsOf q)

namespace Assembled

theorem keeps (hs : s.Assembled) (hg : s.Grounded) (hk : s.Keeps t)
    (h : ∀ q r, t.resultOf q = some r →
      s.resultOf q = some r ∨ r.importTree = SessionM.importTree t (t.importsOf q)) : t.Assembled := by
  intro q r hr
  rcases h q r hr with hr | ht
  case inr => exact ht
  case inl =>
    rw [(hk q r hr).2, hk.importTree (hg q r hr).closed]
    exact hs q r hr

-- Then a tree lists what can be reached from its file, and nothing else: what its file is composed of, and
-- what can be reached from there.
theorem mem_iff (hs : s.Assembled) (hf : s.Founded q) (hr : s.resultOf q = some r) :
    x ∈ r.importTree ↔ Relation.TransGen s.Imports q x := by
  -- By induction on what the result stands on: that the graph has no cycles is in this.
  induction hf generalizing r
  case mk q r' hr' hi ih =>
    have hedge (record) (hm : record ∈ s.importsOf q) : s.Imports q record.path :=
      ⟨⟨r', hr'⟩, record, hm, rfl⟩
    rw [hs q r hr, mem_importTree]
    constructor
    case mp =>
      rintro ⟨record, hm, rfl | ⟨r'', hr'', hx⟩⟩
      · exact .single (hedge record hm)
      · exact .head (hedge record hm) ((ih record hm hr'').1 hx)
    case mpr =>
      intro hx
      have ⟨target, ⟨_, record, hm, he⟩, hrest⟩ := Relation.TransGen.head'_iff.1 hx
      subst he
      refine ⟨record, hm, ?_⟩
      rcases Relation.reflTransGen_iff_eq_or_transGen.1 hrest with rfl | hrest
      case inl => exact .inl rfl
      case inr =>
        have ⟨r'', hr''⟩ := (hi record hm).resultOf
        exact .inr ⟨r'', hr'', (ih record hm hr'').2 hrest⟩

end Assembled

end Session

namespace Visit

open Scoping SessionM

variable {p : Project} {v w : Visit} {text q : String} {steps rest : List Step} {progress : Progress}
  {records : List ImportRecord} {t : Session} {r : ScopedModule}

-- A specifier leads from the file of a call to the file of a record.
structure LeadsTo (p : Project) (v : Visit) (specifier : String) (record : ImportRecord) : Prop where
  spelled : record.specifier = .ofList (Text.unquote specifier.toList)
  path    : v.resolve p v.session specifier = .ok record.path

-- The specifiers that the steps so far have named, each where it was named first, with the records of where they
-- lead.
structure Listing (p : Project) (v : Visit) (steps : List Step) (progress : Progress)
    (records : List ImportRecord) : Prop where
  named : progress.imported.keys = (steps.filterMap Step.specifier?).eraseDups
  leads : List.Forall₂ (v.LeadsTo p) progress.imported.keys records

-- A further step that asks for nothing names nothing for the first time.
theorem Listing.known_step {step : Step} {progress' : Progress} (h : v.Listing p steps progress records)
    (ha : step.asks progress = none)
    (he : runKnown v.path (p.naming.generate · v.path) progress step = .ok progress') :
    v.Listing p (steps ++ [step]) progress' records := by
  have hi := runKnown_imported ha he
  refine ⟨?_, hi ▸ h.leads⟩
  rw [hi, h.named, List.filterMap_append]
  cases hs : step.specifier?
  case none => simp [hs]
  case some specifier =>
    have hm : specifier ∈ steps.filterMap Step.specifier? := by
      have hc := Dict.contains_iff_mem_keys.1 (Step.asks_eq_none.1 ha specifier hs)
      rwa [h.named, List.mem_eraseDups] at hc
    simp only [List.filterMap_cons, hs, List.filterMap_nil]
    rw [eraseDups_append_singleton, if_pos hm]

-- A specifier whose file is asked for is a new one. The step that names it is still to be taken.
theorem Listing.answered {step : Step} {specifier : String} {tokens : Tokens} {progress' : Progress}
    {record : ImportRecord} (h : v.Listing p steps progress records) (ha : step.asks progress = some specifier)
    (hl : v.LeadsTo p specifier record)
    (he : runKnown v.path (p.naming.generate · v.path) (progress.know specifier tokens) step = .ok progress') :
    v.Listing p (steps ++ [step]) progress' (records ++ [record]) := by
  have ⟨hs, hn⟩ := Step.asks_eq_some.1 ha
  have hi := runKnown_imported (Step.asks_know ha) he
  have hnew : specifier ∉ progress.imported.keys := by
    rw [← Dict.contains_iff_mem_keys, hn]
    exact Bool.false_ne_true
  have hkeys : progress'.imported.keys = progress.imported.keys ++ [specifier] := by
    rw [hi, Progress.know, Dict.keys_insert, if_neg hnew]
  refine ⟨?_, ?_⟩
  case refine_1 =>
    rw [h.named, List.mem_eraseDups] at hnew
    rw [hkeys, h.named, List.filterMap_append]
    simp only [List.filterMap_cons, hs, List.filterMap_nil]
    rw [eraseDups_append_singleton, if_neg hnew]
  case refine_2 =>
    rw [hkeys]
    exact List.rel_append h.leads (.cons hl .nil)

theorem listing (ho : v.Opens p text) (hv : v.Proper) (h : plan text = steps ++ rest)
    (ha : v.after p steps = ((.ok progress, records), t)) : v.Listing p steps progress records := by
  induction steps using List.reverseRec generalizing rest progress records t
  case nil =>
    cases ha
    exact ⟨rfl, .nil⟩
  case append_singleton steps step ih =>
    replace h : plan text = steps ++ step :: rest := by simpa using h
    have hadv := advance (p := p) (v := v) steps step
    rw [ha] at hadv
    generalize hb : v.after p steps = before at hadv
    generalize hr : (Except.ok progress : Except Error Progress) = result at hadv
    cases hadv
    case known hs => exact (ih h hb).known_step hs hr.symm
    case answered t specifier path _ hs hres _ =>
      have hl := after_later ho hv h
      rw [hb] at hl
      have hpath : v.resolve p v.session specifier = .ok path := by
        rw [← resolve_reading hv, ← resolve_later hl]
        exact hres
      exact (ih h hb).answered hs ⟨rfl, hpath⟩ hr.symm
    all_goals cases hr

-- What a call that ends with a result has recorded, going by any session in which its results are kept.
theorem recorded (hv : v.Proper) (ho : v.Opens p text) (hr : (v.run p).1 = .ok r) (hk : (v.run p).2.Keeps t) :
    List.Forall₂ (v.LeadsTo p) (specifiersOf text).eraseDups (t.importsOf v.path) ∧
      r.importTree = importTree t (t.importsOf v.path) := by
  have ⟨progress, records, u, ha, he, hrun⟩ := run_of_opens ho hr
  have hl := listing ho hv (plan_end _) ha
  have hg := gathered ho hv (plan_end _) ha
  have hu := (after_keeps ho hv).trans hk
  rw [ha] at hu
  have himports : t.importsOf v.path = records := by
    have hresult := resultOf_run hrun
    rw [hrun] at hk
    exact (hk _ _ hresult).2.trans importsOf_filed
  have hspecifiers : (specifiersOf text).eraseDups = progress.imported.keys := hl.named.symm
  rw [himports, hspecifiers, hu.importTree hg.recorded, he]
  exact ⟨hl.leads, rfl⟩

end Visit

namespace Request

open SessionM

variable {p : Project} {s t : Session} {request : Request} {requests : List Request} {source source' : Source}
  {x : String}

theorem run_assembled (h : s.Resting) (ha : s.Assembled) (request : Request) : (request.run p s).Assembled := by
  have ht := run_traced (p := p) h request
  refine ha.keeps h.grounded ht.keeps fun q r hr => (ht.origin q r hr).imp_right fun hcall => ?_
  obtain ⟨top, w, htop, hw, rfl, ⟨text, ho⟩, hres, hk⟩ := hcall
  exact (Visit.recorded (hw.proper (visit?_resting h htop).2.1) ho hres hk).2

theorem runAll_assembled (h : s.Resting) (ha : s.Assembled) (requests : List Request) :
    (runAll p s requests).Assembled := by
  induction requests generalizing s
  case nil => exact ha
  case cons request requests ih => exact ih (run_resting h request) (run_assembled h ha request)

-- What is said of a result once all requests have been answered: its tree lists what can be reached from its file,
-- that is what the specifiers in the text of the file lead to, in the order in which they are first used there, and
-- then what the trees of these files list.
structure Reached (p : Project) (s : Session) (requests : List Request) (q : String) (r : ScopedModule) : Prop where
  reaches   : ∀ x, x ∈ r.importTree ↔ Relation.TransGen (runAll p s requests).Imports q x
  targets   : ∃ v text, v.path = q ∧ Scoped p s requests v text r ∧
    List.Forall₂ (v.LeadsTo p) (Scoping.specifiersOf text).eraseDups ((runAll p s requests).importsOf q)
  assembled : ∃ trees,
    List.Forall₂ (fun record tree => ∃ r, (runAll p s requests).resultOf record.path = some r ∧ r.importTree = tree)
      ((runAll p s requests).importsOf q) trees ∧
    r.importTree = ((runAll p s requests).importsOf q).map (·.path) ++ trees.flatten

theorem reached (h : s.Resting) (hn : ∀ q, s.resultOf q = none) {q : String} {r : ScopedModule}
    (hr : (runAll p s requests).resultOf q = some r) : Reached p s requests q r := by
  have ha : (runAll p s requests).Assembled :=
    runAll_assembled h (fun q r hq => by simp [hn] at hq) requests
  have hf := (runAll_resting (p := p) h requests).grounded q r hr
  refine ⟨fun x => ha.mem_iff hf hr, ?_, ?_⟩
  case refine_1 =>
    rcases runAll_origin h hr with hs | ⟨v, hv, rfl, ⟨text, ho⟩, hres, hk⟩
    case inl => simp [hn] at hs
    case inr => exact ⟨v, text, rfl, ⟨hv, ho, hres⟩, (Visit.recorded (hv.proper h) ho hres hk).1⟩
  case refine_2 =>
    refine ⟨((runAll p s requests).importsOf q).map fun record =>
      (((runAll p s requests).resultOf record.path).map (·.importTree)).getD [], ?_, ?_⟩
    case refine_1 =>
      refine List.forall₂_map_right_iff.2 (List.forall₂_same.2 fun record hm => ?_)
      have ⟨r, hr⟩ := hf.closed record hm
      exact ⟨r, hr, by rw [hr]; rfl⟩
    case refine_2 => rw [ha q r hr, importTree, List.flatMap_def]

-- A file that has been scoped refers to what it did before, and to all that can be reached from it.
structure Refers (source source' : Source) (t : Session) : Prop where
  done  : ∃ r, t.resultOf source.path = some r
  mem   : ∀ x, x ∈ source'.references.keys ↔
    x ∈ source.references.keys ∨ Relation.TransGen t.Imports source.path x
  nodup : source'.references.keys.Nodup

theorem scope_refers (h : s.Resting) (ha : s.Assembled) (hl : isLeft p source = false)
    (ho : (SessionM.scope p source).on s = (.ok source', t)) : Refers source source' t := by
  have hresting := run_resting (p := p) h (.scope source)
  have hassembled := run_assembled (p := p) h ha (.scope source)
  rw [run, ho] at hresting hassembled
  rw [scope_on, if_neg (by simp [hl])] at ho
  rcases hr : (Visit.top p s source).run p with ⟨e | r, u⟩
  all_goals rw [hr] at ho
  case error => cases ho
  case ok =>
    cases ho
    have hdone : Session.resultOf { u with registry := u.registry.insert (source.scopedAs p r) } source.path =
        some r := Visit.resultOf_run hr
    refine ⟨⟨r, hdone⟩, fun x => ?_, SortedDict.keys_nodup _⟩
    rw [← hassembled.mem_iff (hresting.grounded _ _ hdone) hdone, or_comm]
    exact PathSet.mem_keys_addAll

theorem call_refers (h : s.Resting) (ha : s.Assembled) {act : SessionM Source}
    (hc : request.call? p = some (source, act)) (hl : isLeft p source = false) (ho : act.on s = (.ok source', t)) :
    Refers source source' t := by
  cases request
  case scope =>
    cases hc
    exact scope_refers h ha hl ho
  case scopePlain =>
    cases hc
    have hplain : { s with preprocessors := [] }.Resting := h.of_eq h.keyed rfl rfl rfl rfl
    rw [scopePlain_on] at ho
    rcases hscope : (SessionM.scope p source).on { s with preprocessors := [] } with ⟨result, u⟩
    rw [hscope] at ho
    cases ho
    have hrefers := scope_refers hplain ha hl hscope
    exact ⟨hrefers.done, hrefers.mem, hrefers.nodup⟩
  all_goals cases hc

theorem call_left {act : SessionM Source} (hc : request.call? p = some (source, act)) (hl : isLeft p source = true)
    (ho : act.on s = (.ok source', t)) : source' = source := by
  cases request
  case scope =>
    cases hc
    rw [scope_left hl] at ho
    cases ho
    rfl
  case scopePlain =>
    cases hc
    rw [scopePlain_on, scope_left hl] at ho
    cases ho
    rfl
  all_goals cases hc

end Request

-- Whatever has been asked of a session, the tree of each result is exact, and a file that is scoped next refers to
-- all that can be reached from it. One that passes through, or has been scoped, stays as it is.
theorem import_trees_reach (p : Project) (arch : String) (requests : List Request) :
    let start := Session.start (.ofSettings p.settings arch) []
    let s := Request.runAll p start requests
    (∀ q r, s.resultOf q = some r → Request.Reached p start requests q r) ∧
      ∀ request source act source' t,
        Request.call? p request = some (source, act) → act.on s = (.ok source', t) →
          if SessionM.isLeft p source then source' = source else Request.Refers source source' t := by
  intro start s
  have hstart : start.Resting := .start (Registry.keyed_ofSettings p.settings arch)
  have hs : s.Resting := Request.runAll_resting hstart requests
  have ha : s.Assembled := Request.runAll_assembled hstart (fun _ _ hq => by cases hq) requests
  refine ⟨fun q r => Request.reached hstart fun _ => rfl, fun request source act source' t hc ho => ?_⟩
  split
  case isTrue hl  => exact Request.call_left hc hl ho
  case isFalse hl => exact Request.call_refers hs ha hc (Bool.eq_false_iff.2 hl) ho

-- Two files that take classes, the first one from the second, and that from a third one under two spellings. The
-- second one passes through.
def spelledDisk : Dict String :=
  .ofList [("/b.css", ".b \x7b composes: c from './c.css'; composes: c from 'c.css' \x7d"), ("/c.css", ".c \x7b\x7d")]

def spelledProject : Project :=
  let p := Project.bare spelledDisk
  { p with settings := { p.settings with passthrough := (Pattern.compile "/b" "").toOption.toList } }

def spelledFile (name contents : String) : Source where
  path     := "/" ++ name
  place    := name
  arch     := "web"
  raw      := ""
  contents := contents

def spellingFile : Source :=
  spelledFile "b.css" ".b \x7b composes: c from './c.css'; composes: c from 'c.css' \x7d"

def spelledSession : Session :=
  Request.runAll spelledProject (.start (.ofSettings spelledProject.settings "web") [])
    [.scope (spelledFile "a.css" ".a \x7b composes: b from './b.css' \x7d")]

-- Then the tree of the second file lists the third one twice, and the file itself does not refer to it.
theorem import_trees_reach_not_passed :
    ∃ r, spelledSession.resultOf spellingFile.path = some r ∧ r.importTree = ["/c.css", "/c.css"] ∧
      ∃ source t, (SessionM.scope spelledProject spellingFile).on spelledSession = (.ok source, t) ∧
        Relation.TransGen t.Imports spellingFile.path "/c.css" ∧ "/c.css" ∉ source.references.keys := by
  have hleft : SessionM.isLeft spelledProject spellingFile = true := by decide +kernel
  have htree : (spelledSession.resultOf "/b.css").map (·.importTree) = some ["/c.css", "/c.css"] := by decide +kernel
  have himports : (spelledSession.importsOf "/b.css").map (·.path) = ["/c.css", "/c.css"] := by decide +kernel
  have ⟨r, hr, he⟩ := Option.map_eq_some_iff.1 htree
  refine ⟨r, hr, he, spellingFile, spelledSession, Request.scope_left hleft, .single ⟨⟨r, hr⟩, ?_⟩, by decide⟩
  exact List.mem_map.1 (himports ▸ List.mem_cons_self)

end ScopedCss
