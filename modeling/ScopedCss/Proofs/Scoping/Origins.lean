import ScopedCss.Proofs.Scoping.Accumulated
import ScopedCss.Proofs.Scoping.Substitution

namespace ScopedCss.Scoping

section

variable (locals : List String) (own : String → String) (exported : String → Tokens) (ds : List Declaration)

-- Where an exported name is from: it is the scoped name of a local one, or a declaration takes it over.
inductive Comes (x : String) : Prop
  | own {n : String} :
    n ∈ locals → own n = x → Comes x
  | everywhere {d : Declaration} :
    d ∈ ds → d.source = .everywhere → x ∈ d.names → Comes x
  | file {d : Declaration} {specifier name : String} {names : List String} :
    d ∈ ds → d.source = .file specifier → name ∈ d.names → wordsOf (exported specifier) name = some names →
    x ∈ names → Comes x

variable {locals own exported ds} {d : Declaration} {c x : String}

theorem Comes.mono {ds' : List Declaration} (h : Comes locals own exported ds x) (hs : ds ⊆ ds') :
    Comes locals own exported ds' x := by
  cases h
  case own hn he            => exact .own hn he
  case everywhere hd hs' hx => exact .everywhere (hs hd) hs' hx
  case file hd hs' hn hw hx => exact .file (hs hd) hs' hn hw hx

-- Names of the same file lead to names whose lists are known.
theorem comes_of_mem_accumulated (hl : ∀ d ∈ ds, d.source = .sameFile → d.names ⊆ locals) (hc : c ∈ locals)
    (hx : x ∈ accumulated own exported ds c) : Comes locals own exported ds x := by
  induction ds using List.reverseRecOn generalizing c
  case nil => exact .own hc (List.mem_singleton.1 hx).symm
  case append_singleton ds d ih =>
    have hbefore {c : String} (hc : c ∈ locals) (hx : x ∈ accumulated own exported ds c) :
        Comes locals own exported (ds ++ [d]) x :=
      (ih (fun d hd => hl d (List.mem_append_left _ hd)) hc hx).mono (List.subset_append_left _ _)
    have hd : d ∈ ds ++ [d] := by simp
    rw [accumulated_append] at hx
    rcases List.mem_append.1 hx with hx | hx
    · exact hbefore hc hx
    · unfold Declaration.adds at hx
      split at hx
      case isFalse => cases hx
      case isTrue =>
        have ⟨name, hn, hx⟩ := List.mem_flatMap.1 hx
        unfold Declaration.stand at hx
        split at hx
        case h_1 hs           => exact .everywhere hd hs (List.mem_singleton.1 hx ▸ hn)
        case h_2 hs           => exact hbefore (hl d hd hs hn) hx
        case h_3 specifier hs =>
          cases hw : wordsOf (exported specifier) name
          case none       => simp [hw] at hx
          case some names => exact .file hd hs hn hw (by simpa [hw] using hx)

-- What a declaration takes over from another file is listed with each of its targets.
theorem subset_accumulated {specifier name : String} {names : List String} (hd : d ∈ ds)
    (hs : d.source = .file specifier) (hc : c ∈ d.targets) (hn : name ∈ d.names)
    (hw : wordsOf (exported specifier) name = some names) : names ⊆ accumulated own exported ds c := by
  induction ds using List.reverseRecOn
  case nil => cases hd
  case append_singleton ds d' ih =>
    rw [accumulated_append]
    rcases List.mem_append.1 hd with hd | hd
    · exact List.subset_append_of_subset_left _ (ih hd)
    · cases List.mem_singleton.1 hd
      intro x hx
      refine List.mem_append_right _ ?_
      rw [Declaration.adds, if_pos hc]
      exact List.mem_flatMap.2 ⟨name, hn, by simpa [Declaration.stand, hs, hw] using hx⟩

-- Exported names are told apart in a list.
theorem Comes.isWord (h : Comes locals own exported ds x) (hown : ∀ n ∈ locals, Text.IsWord (own n).toList)
    (hds : ∀ d ∈ ds, ∀ n ∈ d.names, Text.IsWord n.toList) : Text.IsWord x.toList := by
  cases h
  case own hn he          => exact he ▸ hown _ hn
  case everywhere hd _ hx => exact hds _ hd x hx
  case file specifier name _ hd _ _ hw hx =>
    have ⟨value, _, he⟩ := Option.map_eq_some_iff.1 hw
    have ⟨w, hm, hw⟩ := List.mem_map.1 (he ▸ hx)
    simpa [← hw] using Text.isWord_of_mem_words hm

end

section

variable {rename : String → Except Error String} {stand : String → String} {steps : List Step} {step : Step}
  {p p' : Progress} {file : String}

-- A step that succeeds does so with any names that are those of the local ones where there are some.
theorem runKnown_congr (hs : ∀ n full, rename n = .ok full → stand n = full)
    (hr : runKnown file rename p step = .ok p') :
    runKnown file (fun n => .ok (stand n)) p step = .ok p' := by
  cases step
  case name kind n =>
    rw [runKnown_name] at hr ⊢
    cases hn : rename n
    case error => simp [hn, Except.map] at hr
    case ok    => rwa [hs n _ hn, ← hn]
  case compose targets names source pos =>
    cases source
    all_goals exact hr
  all_goals exact hr

-- What some steps have written, and that what they name as of the same file is.
structure Closed (stand : String → String) (steps : List Step) (p : Progress) : Prop where
  written : Written stand steps p
  locals  : ∀ d ∈ declarationsOf steps, d.source = .sameFile → d.names ⊆ localNames steps

theorem Closed.start : Closed stand [] .start where
  written := .start
  locals  := by simp [declarationsOf]

theorem Closed.know (h : Closed stand steps p) (specifier : String) (tokens : Tokens) :
    Closed stand steps (p.know specifier tokens) :=
  ⟨h.written.know specifier tokens, h.locals⟩

theorem Closed.more (h : Closed stand steps p) (hs : ∀ n full, rename n = .ok full → stand n = full)
    (hg : ∀ s, step = .gap s → p.endsInBlank = false) (ha : step.asks p = none)
    (hr : runKnown file rename p step = .ok p') : Closed stand (steps ++ [step]) p' where
  written := h.written.more hg ha (runKnown_congr hs hr)
  locals  := by
    intro d hd hsame
    rw [localNames_append]
    refine List.subset_append_of_subset_left _ ?_
    rw [declarationsOf_append] at hd
    rcases List.mem_append.1 hd with hd | hd
    · exact h.locals d hd hsame
    · have ⟨step', hm, he⟩ := List.mem_filterMap.1 hd
      cases List.mem_singleton.1 hm
      cases step
      case compose targets names source pos =>
        cases he
        cases hsame
        rw [runKnown_sameFile] at hr
        split at hr
        case h_2 => cases hr
        case h_1 found hf =>
          intro n hn
          have hfound := (expandNames_eq hf).2 n hn
          rw [ne_eq, Dict.get?_eq_none_iff, not_not, h.written.keys] at hfound
          exact List.mem_eraseDups.1 hfound
      all_goals cases he

end

-- A local name stands in what a text is scoped to wherever it stands in the text.
theorem Written.split {stand : String → String} {steps : List Step} {n : String} {p : Progress}
    (h : Written stand steps p) (hn : n ∈ localNames steps) :
    ∃ before kind after, steps = before ++ .name kind n :: after ∧
      p.css.toList = written stand (piecesOf before) ++ (stand n).toList ++ written stand (piecesOf after) := by
  have ⟨step, hm, ho⟩ := List.mem_filterMap.1 hn
  have ⟨before, after, hsplit⟩ := List.append_of_mem hm
  cases step
  case name kind n' =>
    cases ho
    refine ⟨before, kind, after, hsplit, ?_⟩
    rw [h.css, hsplit, piecesOf_append, written_append, List.append_assoc]
    rfl
  all_goals cases ho

end ScopedCss.Scoping
