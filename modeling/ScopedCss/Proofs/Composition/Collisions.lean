import ScopedCss.Proofs.Composition.Plain
import ScopedCss.Proofs.Composition.Respelled

namespace ScopedCss

namespace Dict

variable {α : Type}

theorem lookup_reverse (l : List (String × α)) (k : String) :
    l.reverse.lookup k = (l.filter (·.1 = k)).getLast?.map Prod.snd := by
  induction l using List.reverseRecOn
  case nil => rfl
  case append_singleton l entry ih =>
    rw [List.reverse_concat, lookup_cons, List.filter_append, ih]
    by_cases h : k = entry.1
    case pos => simp [h]
    case neg => simp [h, Ne.symm h]

-- A list without its repetitions is shorter, if it has any.
theorem length_eraseDups (l : List String) :
    l.eraseDups.length ≤ l.length ∧ (l.eraseDups.length = l.length ↔ l.Nodup) := by
  induction l using List.reverseRecOn
  case nil => simp
  case append_singleton l k ih =>
    obtain ⟨hle, heq⟩ := ih
    have hnodup : (l ++ [k]).Nodup ↔ k ∉ l ∧ l.eraseDups.length = l.length := by
      rw [← List.concat_eq_append, List.nodup_concat, heq]
    rw [eraseDups_append_singleton, hnodup, List.length_append, List.length_singleton]
    split
    case isTrue h =>
      simp only [h, not_true, false_and, iff_false]
      omega
    case isFalse h =>
      simp only [h, not_false_eq_true, true_and, List.length_append, List.length_singleton]
      omega

theorem filter_eq_singleton {β : Type} {f : β → String} {l : List β} {a : β} (h : (l.map f).Nodup) (ha : a ∈ l) :
    l.filter (f · = f a) = [a] := by
  induction l
  case nil => cases ha
  case cons b l ih =>
    obtain ⟨hb, hl⟩ := List.nodup_cons.1 h
    rcases List.mem_cons.1 ha with rfl | ha
    · have hnil : l.filter (f · = f a) = [] := by
        refine List.filter_eq_nil_iff.2 fun c hc he => hb ?_
        exact of_decide_eq_true he ▸ List.mem_map_of_mem hc
      rw [List.filter_cons_of_pos (by simp), hnil]
    · have hne : f b ≠ f a := fun he => hb (he ▸ List.mem_map_of_mem ha)
      rw [List.filter_cons_of_neg (by simpa using hne), ih hl ha]

end Dict

namespace Tokens

-- In camelCase, a name stands for what the last of the names that are spelled so stands for.
theorem get?_camelCased (tokens : Tokens) (form : String) :
    tokens.camelCased.get? form =
      (tokens.entries.filter (Text.camelCase ·.1 = form)).getLast?.map Prod.snd := by
  rw [camelCased, Dict.get?_ofList, Dict.lookup_reverse, List.filter_map, List.getLast?_map, Option.map_map]
  rfl

theorem keys_camelCased (tokens : Tokens) : tokens.camelCased.keys = (tokens.keys.map Text.camelCase).eraseDups := by
  rw [camelCased, Dict.keys_ofList, List.map_map, Dict.keys, List.map_map]
  rfl

theorem size_camelCased (tokens : Tokens) :
    tokens.camelCased.size = tokens.size ↔ (tokens.keys.map Text.camelCase).Nodup := by
  have hsize (tokens : Tokens) : tokens.size = tokens.keys.length := (List.length_map _).symm
  rw [hsize, hsize, keys_camelCased, ← (Dict.length_eraseDups _).2, List.length_map]

-- Where no two names are spelled alike, each keeps what it stands for.
theorem get?_camelCased_of_nodup {tokens : Tokens} {own names : String} (h : (tokens.keys.map Text.camelCase).Nodup)
    (hown : tokens.get? own = some names) : tokens.camelCased.get? (Text.camelCase own) = some names := by
  have hm : (own, names) ∈ tokens.entries := by
    obtain ⟨_, _, he, _⟩ := List.lookup_eq_some_iff.1 hown
    simp [he]
  rw [Dict.keys, List.map_map] at h
  have hfilter := Dict.filter_eq_singleton h hm
  dsimp only [Function.comp_apply] at hfilter
  rw [get?_camelCased, hfilter]
  rfl

end Tokens

namespace SessionM

variable {p : Project} {s s' : Session} {source source' : Source}

-- What a file exports in camelCase: each spelling once, with the value of the last local name that has it. So none
-- of its names is lost just if no two of them are spelled alike.
theorem scope_camelCase (hc : p.settings.options.camelCase = true) (hl : isLeft p source = false)
    (h : (scope p source).on s = (.ok source', s')) :
    ∃ r exported, s'.resultOf source.path = some r ∧ source'.tokens = some exported ∧
      exported.keys = (r.tokens.keys.map Text.camelCase).eraseDups ∧
      (∀ form, exported.get? form =
        (r.tokens.entries.filter (Text.camelCase ·.1 = form)).getLast?.map Prod.snd) ∧
      (exported.size = r.tokens.size ↔ (r.tokens.keys.map Text.camelCase).Nodup) ∧
      ((r.tokens.keys.map Text.camelCase).Nodup → ∀ own names, r.tokens.get? own = some names →
        exported.get? (Text.camelCase own) = some names) := by
  rw [scope_on, if_neg (by simp [hl])] at h
  rcases hv : (Visit.top p s source).run p with ⟨e | r, t⟩
  all_goals
    rw [hv] at h
    cases h
  have hr : t.resultOf source.path = some r := Visit.resultOf_run hv
  have hexported : exportTokens p r.tokens = r.tokens.camelCased := if_pos hc
  refine ⟨r, r.tokens.camelCased, hr, congrArg some hexported, ?_⟩
  exact ⟨r.tokens.keys_camelCased, r.tokens.get?_camelCased, r.tokens.size_camelCased,
    fun hn own names => Tokens.get?_camelCased_of_nodup hn⟩

-- A project that exports its names in camelCase, and a file with three classes, two of which are spelled alike.
def camelProject : Project :=
  (Project.bare ∅).camelCased ""

def camelSession : Session :=
  .start (.ofSettings camelProject.settings "web") []

def camelFile : Source where
  path     := "/a.css"
  place    := "a.css"
  arch     := "web"
  raw      := ""
  contents := ".foo-bar \x7b\x7d .foo_bar \x7b\x7d .up-to \x7b\x7d"

theorem camelFile_scoped :
    ∃ source t, (scope camelProject camelFile).on camelSession = (.ok source, t) ∧
      source.tokens.map Dict.entries = some [("fooBar", "_a__foo_bar"), ("upTo", "_a__up-to")] := by
  have htokens : (((scope camelProject camelFile).on camelSession).1.toOption.bind (·.tokens)).map Dict.entries =
    some [("fooBar", "_a__foo_bar"), ("upTo", "_a__up-to")] := by decide +kernel
  rcases h : (scope camelProject camelFile).on camelSession with ⟨e | source, t⟩
  all_goals rw [h] at htokens
  case error => cases htokens
  case ok    => exact ⟨source, t, rfl, htokens⟩

theorem scope_camelCase_file :
    camelProject.settings.options.camelCase = true ∧ isLeft camelProject camelFile = false ∧
      ∃ source t, (scope camelProject camelFile).on camelSession = (.ok source, t) ∧
        ∃ r exported, t.resultOf camelFile.path = some r ∧ source.tokens = some exported ∧
          exported.keys = (r.tokens.keys.map Text.camelCase).eraseDups ∧ exported.size ≠ r.tokens.size := by
  have hresult : (((scope camelProject camelFile).on camelSession).2.resultOf "/a.css").map (·.tokens.keys) =
    some ["foo-bar", "foo_bar", "up-to"] := by decide +kernel
  have hc : camelProject.settings.options.camelCase = true := by decide +kernel
  have hl : isLeft camelProject camelFile = false := by decide +kernel
  obtain ⟨source, t, h, -⟩ := camelFile_scoped
  obtain ⟨r, exported, hr, he, hkeys, -, hsize, -⟩ := scope_camelCase hc hl h
  have hr' : t.resultOf "/a.css" = some r := hr
  rw [h, hr', Option.map_some, Option.some_inj] at hresult
  refine ⟨hc, hl, source, t, h, r, exported, hr, he, hkeys, ?_⟩
  rw [Ne, hsize, hresult]
  decide +kernel

-- The first of the two names is lost.
theorem scope_camelCase_loses :
    ∃ source t, (scope camelProject camelFile).on camelSession = (.ok source, t) ∧
      ∃ r exported, t.resultOf camelFile.path = some r ∧ source.tokens = some exported ∧
        r.tokens.entries = [("foo-bar", "_a__foo-bar"), ("foo_bar", "_a__foo_bar"), ("up-to", "_a__up-to")] ∧
        exported.entries = [("fooBar", "_a__foo_bar"), ("upTo", "_a__up-to")] ∧
        Text.camelCase "foo-bar" = "fooBar" := by
  have hresult : (((scope camelProject camelFile).on camelSession).2.resultOf "/a.css").map (·.tokens.entries) =
      some [("foo-bar", "_a__foo-bar"), ("foo_bar", "_a__foo_bar"), ("up-to", "_a__up-to")] := by decide +kernel
  obtain ⟨source, t, h, he⟩ := camelFile_scoped
  rw [h] at hresult
  obtain ⟨r, hr, hentries⟩ := Option.map_eq_some_iff.1 hresult
  obtain ⟨exported, hexported, hentries'⟩ := Option.map_eq_some_iff.1 he
  exact ⟨source, t, h, r, exported, hr, hexported, hentries, hentries', by decide +kernel⟩

end SessionM

end ScopedCss
