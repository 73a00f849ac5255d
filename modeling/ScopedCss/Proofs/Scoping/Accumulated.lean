import ScopedCss.Proofs.Scoping.Plan
import ScopedCss.Proofs.Scoping.Steps

namespace ScopedCss.Scoping

section

variable (own : String → String) (exported : String → Tokens)

-- What one of the names of a declaration stands for, where the names of the same file have these
-- lists.
def Declaration.stand (lists : String → List String) (d : Declaration) (name : String) : List String :=
  match d.source with
  | .everywhere     => [name]
  | .sameFile       => lists name
  | .file specifier => (wordsOf (exported specifier) name).getD []

def Declaration.adds (lists : String → List String) (d : Declaration) (c : String) : List String :=
  if c ∈ d.targets then d.names.flatMap (d.stand exported lists) else []

-- The lists of all names after some declarations: each has its scoped name first.
def accumulated (ds : List Declaration) : String → List String :=
  ds.foldl (fun lists d c => lists c ++ d.adds exported lists c) fun c => [own c]

variable {own exported} {ds : List Declaration} {d : Declaration} {c : String}

theorem accumulated_append (ds : List Declaration) (d : Declaration) (c : String) :
    accumulated own exported (ds ++ [d]) c =
      accumulated own exported ds c ++ d.adds exported (accumulated own exported ds) c := by
  simp [accumulated]

-- A list in full: what each declaration adds, going by the lists that there are at that point.
theorem accumulated_eq (ds : List Declaration) (c : String) :
    accumulated own exported ds c =
      own c :: ds.zipIdx.flatMap fun (d, i) =>
        d.adds exported (accumulated own exported (ds.take i)) c := by
  induction ds using List.reverseRecOn
  case nil => rfl
  case append_singleton ds d ih =>
    have hsame : ds.zipIdx.flatMap (fun (d', i) =>
          d'.adds exported (accumulated own exported ((ds ++ [d]).take i)) c) =
        ds.zipIdx.flatMap fun (d', i) => d'.adds exported (accumulated own exported (ds.take i)) c := by
      refine List.flatMap_congr fun (d', i) hm => ?_
      have hi := (List.mem_zipIdx' hm).1
      dsimp only
      rw [List.take_append_of_le_length (Nat.le_of_lt hi)]
    rw [accumulated_append, ih, List.zipIdx_append, List.flatMap_append, hsame]
    simp

theorem accumulated_append_of_not_mem {more : List Declaration} (h : ∀ d ∈ more, c ∉ d.targets) :
    accumulated own exported (ds ++ more) c = accumulated own exported ds c := by
  induction more using List.reverseRecOn
  case nil => simp
  case append_singleton more d ih =>
    rw [← List.append_assoc, accumulated_append, ih fun d hd => h d (by simp [hd])]
    simp [Declaration.adds, h d (by simp)]

theorem accumulated_of_not_mem (h : ∀ d ∈ ds, c ∉ d.targets) :
    accumulated own exported ds c = [own c] := by
  have he : accumulated own exported ([] ++ ds) c = accumulated own exported [] c :=
    accumulated_append_of_not_mem h
  exact he

-- A class that only one declaration adds to.
theorem accumulated_of_filter (h : ds.filter (c ∈ ·.targets) = [d]) :
    ∃ lists, accumulated own exported ds c = own c :: d.names.flatMap (d.stand exported lists) := by
  have ⟨before, after, hds, hb, hd, ha⟩ := List.filter_eq_cons_iff.1 h
  have hbefore : ∀ d ∈ before, c ∉ d.targets := by simpa using hb
  have hafter : ∀ d ∈ after, c ∉ d.targets := by simpa using ha
  refine ⟨accumulated own exported before, ?_⟩
  rw [hds, List.append_cons, accumulated_append_of_not_mem hafter, accumulated_append,
    accumulated_of_not_mem hbefore, Declaration.adds, if_pos (by simpa using hd), List.singleton_append]

end

section

variable {p p' : Progress} {steps : List Step} {step : Step} {file : String}
  {rename : String → Except Error String}

theorem addNames_get? {targets names : List String} (hn : targets.Nodup) (c : String) :
    (p.addNames targets names).exports.get? c =
      (p.exports.get? c).map fun list => if c ∈ targets then list ++ names else list := by
  unfold Progress.addNames
  dsimp only
  induction targets generalizing p
  case nil => simp
  case cons target targets ih =>
    have ⟨ht, hn⟩ := List.nodup_cons.1 hn
    rw [List.foldl_cons]
    cases hg : p.exports.get? target
    case none =>
      dsimp only
      rw [ih hn]
      by_cases hc : c = target
      case pos => simp [hc, hg]
      case neg => simp [hc]
    case some list =>
      dsimp only
      have := ih (p := { p with exports := p.exports.insert target (list ++ names) }) hn
      rw [this]
      by_cases hc : c = target
      case pos => simp [hc, hg, ht]
      case neg => simp [hc]

theorem expandNames_eq {lookup : String → Option (List String)} {names found : List String}
    (h : expandNames lookup names = .ok found) :
    found = names.flatMap (fun name => (lookup name).getD []) ∧ ∀ name ∈ names, lookup name ≠ none := by
  induction names generalizing found
  case nil =>
    cases h
    simp
  case cons name names ih =>
    unfold expandNames at h
    cases hl : lookup name
    case none =>
      rw [hl] at h
      cases h
    case some list =>
      rw [hl] at h
      cases hr : expandNames lookup names
      case error =>
        rw [hr] at h
        cases h
      case ok rest =>
        rw [hr] at h
        cases h
        have ⟨he, hn⟩ := ih hr
        refine ⟨by simp [hl, he], fun n hm => ?_⟩
        rcases List.mem_cons.1 hm with rfl | hm
        · simp [hl]
        · exact hn n hm

-- The scoped name of a local one, where there is one.
def scopedName (rename : String → Except Error String) (n : String) : String :=
  (rename n).toOption.getD ""

theorem specifier?_of_mem {d : Declaration} {specifier : String} (hd : d ∈ declarationsOf steps)
    (hs : d.source = .file specifier) : ∃ step ∈ steps, step.specifier? = some specifier := by
  have ⟨step, hm, he⟩ := List.mem_filterMap.1 hd
  refine ⟨step, hm, ?_⟩
  cases step
  case compose =>
    cases he
    cases hs
    rfl
  all_goals cases he

variable (rename) (exported : String → Tokens)

-- What is exported after some steps: a list for each local name so far. All names that were taken
-- from other files are exported there.
structure Listed (steps : List Step) (p : Progress) : Prop where
  lists    : ∀ c, p.exports.get? c =
    if c ∈ localNames steps then
      some (accumulated (scopedName rename) exported (declarationsOf steps) c)
    else none
  supplied : ∀ d ∈ declarationsOf steps, ∀ specifier, d.source = .file specifier →
    ∀ name ∈ d.names, ∃ value, (exported specifier).get? name = some value
  named    : ∀ n ∈ localNames steps, ∃ full, rename n = .ok full

variable {rename exported}

theorem Placed.not_mem {c : String} (h : Placed [] steps) (hc : c ∉ localNames steps) :
    ∀ d ∈ declarationsOf steps, c ∉ d.targets :=
  fun _ hd ht => hc ((h.of_mem hd).written c ht)

theorem Listed.start : Listed rename exported [] .start where
  lists _  := rfl
  supplied := by simp [declarationsOf]
  named    := by simp [localNames]

theorem Listed.write (h : Listed rename exported steps p) (hd : step.declaration? = none)
    (ho : step.own? = none) (he : p'.exports = p.exports) :
    Listed rename exported (steps ++ [step]) p' := by
  have hds : declarationsOf (steps ++ [step]) = declarationsOf steps := by simp [declarationsOf, hd]
  have hls : localNames (steps ++ [step]) = localNames steps := by simp [localNames, ho]
  refine ⟨fun c => ?_, hds ▸ h.supplied, hls ▸ h.named⟩
  rw [he, hds, hls, h.lists c]

theorem Listed.name {kind : NameKind} {n full : String} (h : Listed rename exported steps p)
    (hp : Placed [] steps) (hr : rename n = .ok full) :
    Listed rename exported (steps ++ [.name kind n]) (p.writeName n full) := by
  have hds : declarationsOf (steps ++ [.name kind n]) = declarationsOf steps := by
    simp [declarationsOf]
  have hls : localNames (steps ++ [.name kind n]) = localNames steps ++ [n] := localNames_append _ _
  refine ⟨fun c => ?_, hds ▸ h.supplied, fun m hm => ?_⟩
  case refine_2 =>
    rcases List.mem_append.1 (hls ▸ hm) with hm | hm
    · exact h.named m hm
    · exact ⟨full, List.mem_singleton.1 hm ▸ hr⟩
  have hmem := h.lists n
  rw [hds, hls]
  unfold Progress.writeName
  dsimp only
  by_cases hn : n ∈ localNames steps
  case pos =>
    rw [if_pos hn] at hmem
    simp only [Dict.contains, hmem, Option.isSome_some, ↓reduceIte, h.lists c, List.mem_append,
      List.mem_singleton]
    by_cases hc : c = n
    case pos => simp [hc, hn]
    case neg => simp [hc]
  case neg =>
    rw [if_neg hn] at hmem
    simp only [Dict.contains, hmem, Option.isSome_none, Bool.false_eq_true, ↓reduceIte,
      Dict.get?_insert, List.mem_append, List.mem_singleton]
    by_cases hc : c = n
    case pos =>
      have hfull : scopedName rename n = full := by simp [scopedName, hr, Except.toOption]
      simp [hc, accumulated_of_not_mem (hp.not_mem hn), hfull]
    case neg => simp [hc, h.lists c]

theorem Listed.compose {d : Declaration} {found : List String} (h : Listed rename exported steps p)
    (hd : step.declaration? = some d) (ho : step.own? = none) (hp : d.Proper (localNames steps))
    (hf : ∀ c ∈ d.targets, found =
      d.adds exported (accumulated (scopedName rename) exported (declarationsOf steps)) c)
    (hs : ∀ specifier, d.source = .file specifier →
      ∀ name ∈ d.names, ∃ value, (exported specifier).get? name = some value) :
    Listed rename exported (steps ++ [step]) (p.addNames d.targets found) := by
  have hds : declarationsOf (steps ++ [step]) = declarationsOf steps ++ [d] := by
    simp [declarationsOf, hd]
  have hls : localNames (steps ++ [step]) = localNames steps := by simp [localNames, ho]
  refine ⟨fun c => ?_, fun d' hm => ?_, hls ▸ h.named⟩
  · rw [addNames_get? hp.nodup, h.lists c, hds, hls, accumulated_append]
    by_cases hc : c ∈ d.targets
    case pos => simp [hc, hp.written c hc, ← hf c hc]
    case neg => by_cases hl : c ∈ localNames steps <;> simp [hc, hl, Declaration.adds]
  · rcases List.mem_append.1 (hds ▸ hm) with hm | hm
    · exact h.supplied d' hm
    · exact List.mem_singleton.1 hm ▸ hs

theorem Listed.know {specifier : String} {tokens : Tokens} (h : Listed rename exported steps p) :
    Listed rename exported steps (p.know specifier tokens) :=
  ⟨h.lists, h.supplied, h.named⟩

-- What one more step does to the lists, once what it asks for is known.
theorem Listed.more (h : Listed rename exported steps p) (hp : Placed [] (steps ++ [step]))
    (ha : step.asks p = none) (hr : runKnown file rename p step = .ok p')
    (hx : ∀ specifier tokens, p.imported.get? specifier = some tokens → exported specifier = tokens) :
    Listed rename exported (steps ++ [step]) p' := by
  have hproper {d : Declaration} (hd : step.declaration? = some d) : d.Proper (localNames steps) :=
    hp.proper hd
  cases step
  case text s =>
    cases hr
    exact h.write rfl rfl rfl
  case gap s =>
    cases hr
    refine h.write rfl rfl ?_
    split <;> rfl
  case fail => cases hr
  case name kind n =>
    rw [runKnown_name] at hr
    cases hn : rename n <;> rw [hn] at hr <;> cases hr
    exact h.name (placed_append.1 hp).1 hn
  case compose targets names source pos =>
    cases source
    case everywhere =>
      cases hr
      refine h.compose (d := ⟨targets, names, .everywhere⟩) rfl rfl (hproper rfl) (fun c hc => ?_) (by simp)
      rw [Declaration.adds, if_pos hc]
      exact (List.flatMap_singleton' names).symm
    case sameFile =>
      rw [runKnown_sameFile] at hr
      split at hr <;> cases hr
      case h_1 found hf =>
        have ⟨he, hn⟩ := expandNames_eq hf
        refine h.compose (d := ⟨targets, names, .sameFile⟩) rfl rfl (hproper rfl) (fun c hc => ?_) (by simp)
        rw [Declaration.adds, if_pos hc, he]
        refine List.flatMap_congr fun name hm => ?_
        have := hn name hm
        rw [h.lists name] at this ⊢
        by_cases hl : name ∈ localNames steps
        case pos => simp [hl, Declaration.stand]
        case neg => simp [hl] at this
    case file specifier =>
      have ⟨tokens, hk⟩ := Option.isSome_iff_exists.1 (Step.asks_eq_none.1 ha specifier rfl)
      rw [runKnown_file hk] at hr
      split at hr <;> cases hr
      case h_1 found hf =>
        have ⟨he, hn⟩ := expandNames_eq hf
        have hx := hx specifier tokens hk
        refine h.compose (d := ⟨targets, names, .file specifier⟩) rfl rfl (hproper rfl)
          (fun c hc => ?_) fun other ho name hm => ?_
        · rw [Declaration.adds, if_pos hc, he]
          exact List.flatMap_congr fun name _ => by simp [Declaration.stand, hx]
        · cases ho
          have := hn name hm
          rw [hx]
          unfold wordsOf at this
          cases hv : tokens.get? name
          case none => simp [hv] at this
          case some value => exact ⟨value, rfl⟩

end

end ScopedCss.Scoping
