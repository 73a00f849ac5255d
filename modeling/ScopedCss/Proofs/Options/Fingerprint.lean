import ScopedCss.Options.Decode
import ScopedCss.Options.Settings
import ScopedCss.Proofs.Cache.Entry

namespace ScopedCss

-- A whole number, of at most sixty-four bits.
def JsonNumber.IsWhole : JsonNumber → Prop
  | .int n    => -2 ^ 63 ≤ n ∧ n < 2 ^ 64
  | .double _ => False

theorem JsonNumber.IsWhole.readsBack {n : JsonNumber} (h : n.IsWhole) : n.ReadsBack := by
  cases n
  case int    => exact h
  case double => exact h.elim

namespace Json

-- Values without floating-point numbers. An object has its fields in order, as maps have them.
structure Whole (j : Json) : Prop where
  sorted  : j.sorted = j
  numbers : ∀ n ∈ j.numbers, n.IsWhole

mutual

theorem finite_whole (j : Json) (h : ∀ n ∈ j.numbers, n.IsWhole) : j.finite = j := by
  cases j
  case number n =>
    cases n
    case int    => rfl
    case double => exact (h _ (.head _)).elim
  case array items   => rw [finite, finiteItems_whole items h]
  case object fields => rw [finite, finiteFields_whole fields h]
  all_goals rfl

theorem finiteItems_whole (items : List Json) (h : ∀ n ∈ numbersItems items, n.IsWhole) :
    finiteItems items = items := by
  cases items
  case nil => rfl
  case cons j items =>
    rw [finiteItems, finite_whole j fun n hn => h n (List.mem_append_left _ hn),
      finiteItems_whole items fun n hn => h n (List.mem_append_right _ hn)]

theorem finiteFields_whole (fields : List (String × Json)) (h : ∀ n ∈ numbersFields fields, n.IsWhole) :
    finiteFields fields = fields := by
  cases fields
  case nil => rfl
  case cons field fields =>
    rw [finiteFields, finite_whole field.2 fun n hn => h n (List.mem_append_left _ hn),
      finiteFields_whole fields fun n hn => h n (List.mem_append_right _ hn)]

end

theorem nestingItems_le {items : List Json} {n : Nat} : nestingItems items ≤ n ↔ ∀ j ∈ items, j.nesting ≤ n := by
  induction items
  case nil => simp [nestingItems]
  case cons j items ih => simp [nestingItems, ih]

theorem mem_numbersItems {items : List Json} {n : JsonNumber} :
    n ∈ numbersItems items ↔ ∃ j ∈ items, n ∈ j.numbers := by
  induction items
  case nil => simp [numbersItems]
  case cons j items ih => simp [numbersItems, ih]

-- An object ends with its brace, whatever follows.
theorem readValue_object_append {fields : List (String × Json)} (hne : fields ≠ []) (fuel depth : Nat)
    (hf : 2 * (object fields).write.length ≤ fuel) (hd : (object fields).nesting < depth)
    (hn : ∀ n ∈ (object fields).numbers, n.ReadsBack) (rest : List Char) :
    readValue fuel depth ((object fields).write ++ rest) = some (object fields, rest) := by
  obtain ⟨field, fields, rfl⟩ := List.exists_cons_of_ne_nil hne
  rw [write, List.length_cons] at hf
  rw [nesting] at hd
  obtain ⟨fuel, rfl⟩ : ∃ more, fuel = more + 1 := ⟨fuel - 1, by omega⟩
  have hfields := readFields_write fuel (depth - 1) rest (field :: fields) hne (by omega) (by omega) hn
  obtain ⟨more, hmore⟩ : ∃ more, writeFields (field :: fields) ++ rest = '"' :: more := by
    cases fields <;> simp [writeFields, quote]
  rw [write, List.cons_append, hmore, readValue_object (by omega), ← hmore, hfields]
  rfl

-- Texts that go on behind objects have the same object in front, if they are the same.
theorem object_append_inj {fields fields' : List (String × Json)} {rest rest' : List Char} (hne : fields ≠ [])
    (hne' : fields' ≠ []) (hn : ∀ n ∈ (object fields).numbers, n.ReadsBack)
    (hn' : ∀ n ∈ (object fields').numbers, n.ReadsBack)
    (h : (object fields).write ++ rest = (object fields').write ++ rest') :
    object fields = object fields' ∧ rest = rest' := by
  have hread := readValue_object_append hne
    (2 * (object fields).write.length + 2 * (object fields').write.length)
    ((object fields).nesting + (object fields').nesting + 1) (by omega) (by omega) hn rest
  rw [h, readValue_object_append hne' _ _ (by omega) (by omega) hn' rest'] at hread
  simpa [eq_comm] using hread

end Json

namespace Json

-- Texts, and lists and maps of texts.
structure Flat (j : Json) : Prop where
  nesting : j.nesting ≤ 1
  numbers : j.numbers = []

theorem flat_string (s : String) : (string s).Flat :=
  ⟨Nat.zero_le 1, rfl⟩

theorem flat_ofStrings (l : List String) : (ofStrings l).Flat :=
  ⟨(congrArg (· + 1) (nestingItems_strings l)).le, numbersItems_strings l⟩

theorem flat_texts (l : List (String × String)) : (object (l.map fun (k, v) => (k, string v))).Flat :=
  ⟨(congrArg (· + 1) (nestingFields_strings l)).le, numbersFields_strings l⟩

-- An object with just the known fields is a record of them.
theorem record?_names {known : List String} {fields : List (String × Json)} (h : fields.map Prod.fst = known)
    (hn : known.Nodup) : record? known (object fields) = some fields := by
  have hall : fields.filter (fun field => known.contains field.1) = fields :=
    List.filter_eq_self.2 fun field hm => by simpa [← h] using ⟨field.2, hm⟩
  change (if ((fields.filter fun field => known.contains field.1).map Prod.fst).Nodup then
    some (fields.filter fun field => known.contains field.1) else none) = some fields
  rw [hall, h, if_pos hn]

section

variable {α : Type} {write : α → Json} (h : ∀ x, (write x).Flat) (l : List α)

include h

theorem nestingItems_map : nestingItems (l.map write) ≤ 1 := by
  refine nestingItems_le.2 fun j hj => ?_
  obtain ⟨x, _, hx⟩ := List.mem_map.1 hj
  exact hx ▸ (h x).nesting

theorem numbersItems_map : numbersItems (l.map write) = [] := by
  refine List.eq_nil_iff_forall_not_mem.2 fun n hn => ?_
  obtain ⟨j, hj, hn⟩ := mem_numbersItems.1 hn
  obtain ⟨x, _, hx⟩ := List.mem_map.1 hj
  rw [← hx, (h x).numbers] at hn
  cases hn

end

end Json

open Json

namespace Toggle

theorem ofJson?_toJson (t : Toggle) : ofJson? t.toJson = some t := by
  cases t
  case enabled      => rfl
  case extensions l => exact congrArg (Option.map extensions) (strings?_ofStrings l)

theorem flat_toJson (t : Toggle) : t.toJson.Flat := by
  cases t
  case enabled      => exact ⟨Nat.zero_le 1, rfl⟩
  case extensions l => exact flat_ofStrings l

end Toggle

namespace PatternSpec

theorem ofJson?_toJson (p : PatternSpec) : ofJson? p.toJson = some p := by
  cases p
  case text    => rfl
  case parts l => exact congrArg (Option.map parts) (strings?_ofStrings l)

theorem flat_toJson (p : PatternSpec) : p.toJson.Flat := by
  cases p
  case text s  => exact flat_string s
  case parts l => exact flat_ofStrings l

end PatternSpec

namespace ReplacementSpec

theorem ofJson?_toJson (r : ReplacementSpec) : ofJson? r.toJson = some r := by
  cases r
  case text    => rfl
  case parts l => exact congrArg (Option.map parts) (strings?_ofStrings l)

theorem flat_toJson (r : ReplacementSpec) : r.toJson.Flat := by
  cases r
  case text s  => exact flat_string s
  case parts l => exact flat_ofStrings l

end ReplacementSpec

namespace OutputTemplate

theorem ofJson?_toJson (t : OutputTemplate) : ofJson? t.toJson = some t := by
  cases t
  case single => rfl
  case byPattern d =>
    have hread : ofJson? (byPattern d).toJson =
        (texts? (.object (d.entries.map fun (k, v) => (k, .string v)))).map fun l => byPattern (.ofList l) := rfl
    rw [hread, texts?_object]
    exact congrArg (fun d => some (byPattern d)) d.ofList_entries

theorem flat_toJson (t : OutputTemplate) : t.toJson.Flat := by
  cases t
  case single s    => exact flat_string s
  case byPattern d => exact flat_texts d.entries

end OutputTemplate

namespace Options

variable {o o' : Options}

-- Options without floating-point numbers in the global variables.
def Whole (o : Options) : Prop :=
  ∀ j ∈ o.globalVariables, j.Whole

theorem variables?_array (h : o.Whole) : variables? (.array o.globalVariables) = some o.globalVariables := by
  have hread {l : List Json} (h : ∀ j ∈ l, j.Whole) : variables? (.array l) = some l := by
    induction l
    case nil => rfl
    case cons j l ih =>
      have hj : j.finite.sorted = j := by rw [finite_whole j (h j (.head _)).numbers, (h j (.head _)).sorted]
      have hl := ih fun j hj => h j (.tail _ hj)
      unfold variables? listOf? at hl ⊢
      simp only at hl
      simp [List.mapM_cons, hj, hl]
  exact hread h

theorem patterns?_array (l : List PatternSpec) : patterns? (.array (l.map (·.toJson))) = some l :=
  mapM_map PatternSpec.ofJson?_toJson l

theorem replacements?_array (l : List ReplacementSpec) :
    listOf? ReplacementSpec.ofJson? (.array (l.map (·.toJson))) = some l :=
  mapM_map ReplacementSpec.ofJson?_toJson l

theorem nullable?_string (s : Option String) : nullable? string? ((s.map Json.string).getD .null) = some s := by
  cases s <;> rfl

def fields (o : Options) : Record :=
  match o.toJson with
  | .object fields => fields
  | _              => []

theorem toJson_fields (o : Options) : o.toJson = .object o.fields :=
  rfl

theorem fields_ne_nil (o : Options) : o.fields ≠ [] :=
  List.cons_ne_nil _ _

theorem record?_toJson (o : Options) : record? fieldNames o.toJson = some o.fields :=
  record?_names rfl (by decide)

theorem ofJson?_toJson (h : o.Whole) : ofJson? o.toJson = some o := by
  have hread : ofJson? o.toJson = (do
      let replacements ← listOf? ReplacementSpec.ofJson? (.array (o.replacements.map (·.toJson)))
      let template ← nullable? string? ((o.template.map Json.string).getD .null)
      let sass ← Toggle.ofJson? o.sass.toJson
      let stylus ← Toggle.ofJson? o.stylus.toJson
      let less ← Toggle.ofJson? o.less.toJson
      let includedFolders ← strings? (ofStrings o.includedFolders)
      let extensions ← strings? (ofStrings o.extensions)
      let globalVariables ← variables? (.array o.globalVariables)
      let ignored ← patterns? (.array (o.ignored.map (·.toJson)))
      let included ← patterns? (.array (o.included.map (·.toJson)))
      let scriptPath ← OutputTemplate.ofJson? o.scriptPath.toJson
      let sheetPath ← OutputTemplate.ofJson? o.sheetPath.toJson
      let passthrough ← patterns? (.array (o.passthrough.map (·.toJson)))
      pure { o with
        replacements, template, sass, stylus, less, includedFolders, extensions, globalVariables, ignored, included,
        scriptPath, sheetPath, passthrough }) := by
    unfold ofJson?
    rw [record?_toJson]
    rfl
  rw [hread, replacements?_array, nullable?_string, Toggle.ofJson?_toJson, Toggle.ofJson?_toJson,
    Toggle.ofJson?_toJson, strings?_ofStrings, strings?_ofStrings, variables?_array h, patterns?_array,
    patterns?_array, OutputTemplate.ofJson?_toJson, OutputTemplate.ofJson?_toJson, patterns?_array]
  rfl

theorem numbers_toJson (o : Options) : o.toJson.numbers = numbersItems o.globalVariables := by
  have hreplacements := numbersItems_map ReplacementSpec.flat_toJson o.replacements
  have htemplate : ((o.template.map Json.string).getD .null).numbers = [] := by cases o.template <;> rfl
  have hpatterns (l : List PatternSpec) := numbersItems_map PatternSpec.flat_toJson l
  rw [toJson]
  simp [numbers, numbersFields, hreplacements, htemplate, hpatterns, (Toggle.flat_toJson _).numbers,
    (OutputTemplate.flat_toJson _).numbers, (flat_ofStrings _).numbers]

theorem readsBack_toJson (h : o.Whole) : ∀ n ∈ o.toJson.numbers, n.ReadsBack := by
  intro n hn
  rw [numbers_toJson] at hn
  obtain ⟨j, hj, hn⟩ := mem_numbersItems.1 hn
  exact ((h j hj).numbers n hn).readsBack

-- The global variables stand inside two brackets, and everything else is less deep than the limit.
theorem nesting_toJson (o : Options) :
    o.toJson.nesting < maxDepth ↔ ∀ j ∈ o.globalVariables, j.nesting ≤ 125 := by
  have hreplacements : nestingItems (o.replacements.map (·.toJson)) ≤ 1 :=
    nestingItems_map ReplacementSpec.flat_toJson o.replacements
  have hpatterns (l : List PatternSpec) : nestingItems (l.map (·.toJson)) ≤ 1 := nestingItems_map PatternSpec.flat_toJson l
  have htemplate : ((o.template.map Json.string).getD .null).nesting = 0 := by cases o.template <;> rfl
  have hignored     := hpatterns o.ignored
  have hincluded    := hpatterns o.included
  have hpassthrough := hpatterns o.passthrough
  have hsass       := o.sass.flat_toJson.nesting
  have hstylus     := o.stylus.flat_toJson.nesting
  have hless       := o.less.flat_toJson.nesting
  have hscript     := o.scriptPath.flat_toJson.nesting
  have hsheet      := o.sheetPath.flat_toJson.nesting
  have hfolders    := (flat_ofStrings o.includedFolders).nesting
  have hextensions := (flat_ofStrings o.extensions).nesting
  rw [← nestingItems_le, toJson, maxDepth]
  simp only [nesting, nestingFields, htemplate]
  omega

-- What is hashed gives the options and the prelude back, however deep the global variables are. From their own text
-- alone options are read back just if those stay inside the limit of brackets.
theorem hashedText_faithful (o o' : Options) (prelude prelude' : String) (h : o.Whole) (h' : o'.Whole) :
    (o.hashedText prelude = o'.hashedText prelude' → o = o' ∧ prelude = prelude') ∧
      ((∀ j ∈ o.globalVariables, j.nesting ≤ 125) → (parse? o.toJson.compact >>= ofJson?) = some o) ∧
      (¬(∀ j ∈ o.globalVariables, j.nesting ≤ 125) → parse? o.toJson.compact = none) ∧
      ∀ disk base renderers settings, o.settle disk base renderers = .ok settings →
        settings.options = o ∧ settings.hash = fingerprint (o.hashedText settings.prelude) := by
  refine ⟨fun he => ?_, fun hshallow => ?_, fun hdeep => ?_, fun disk base renderers settings hs => ?_⟩
  case refine_1 =>
    have hn  := readsBack_toJson h
    have hn' := readsBack_toJson h'
    rw [hashedText, hashedText, toJson_fields, toJson_fields] at he
    rw [toJson_fields] at hn hn'
    replace he := congrArg String.toList he
    simp only [compact, String.toList_append, String.toList_ofList, List.append_assoc] at he
    obtain ⟨hjson, hrest⟩ := object_append_inj o.fields_ne_nil o'.fields_ne_nil hn hn' he
    have hread := ofJson?_toJson h
    rw [toJson_fields, hjson, ← toJson_fields, ofJson?_toJson h'] at hread
    exact ⟨(Option.some.inj hread).symm, String.toList_inj.1 (List.append_cancel_left hrest)⟩
  case refine_2 =>
    rw [parse?_compact ((nesting_toJson o).2 hshallow) (readsBack_toJson h), Option.bind_eq_bind, Option.bind_some]
    exact ofJson?_toJson h
  case refine_3 =>
    rw [← nesting_toJson, Nat.not_lt] at hdeep
    exact parse?_deep hdeep (readsBack_toJson h)
  case refine_4 =>
    unfold settle at hs
    simp only [bind, Except.bind, pure, Except.pure] at hs
    repeat' split at hs
    all_goals cases hs
    exact ⟨rfl, rfl⟩

def spacing : Options where
  globalVariables := [.object [("gap", .ofInt 4), ("inset", .array [.ofInt (-1), .null])], .string "colors.json"]
  sass            := .extensions []

theorem whole_spacing : spacing.Whole := by
  intro j hj
  simp only [spacing, List.mem_cons, List.not_mem_nil, or_false] at hj
  rcases hj with rfl | rfl
  · refine ⟨rfl, fun n hn => ?_⟩
    have hn : n = .int 4 ∨ n = .int (-1) := by
      simpa [numbers, numbersFields, numbersItems, ofInt] using hn
    rcases hn with rfl | rfl <;> exact ⟨by decide, by decide⟩
  · exact ⟨rfl, fun n hn => by cases hn⟩

theorem hashedText_faithful_spacing :
    spacing.Whole ∧ ({} : Options).Whole ∧ (∀ p p', spacing.hashedText p ≠ ({} : Options).hashedText p') ∧
      (∀ j ∈ spacing.globalVariables, j.nesting ≤ 125) ∧
      (parse? spacing.toJson.compact >>= ofJson?) = some spacing := by
  have hdefault : ({} : Options).Whole := by simp [Whole]
  have hshallow : ∀ j ∈ spacing.globalVariables, j.nesting ≤ 125 := by decide
  refine ⟨whole_spacing, hdefault, fun p p' he => ?_, hshallow, ?_⟩
  · have heq := ((hashedText_faithful spacing {} p p' whole_spacing hdefault).1 he).1
    cases congrArg Options.globalVariables heq
  · exact (hashedText_faithful spacing {} "" "" whole_spacing hdefault).2.1 hshallow

-- Lists inside each other.
def nested : Nat → Json
  | 0     => .null
  | n + 1 => .array [nested n]

theorem whole_nested (n : Nat) : (nested n).Whole := by
  induction n
  case zero => exact ⟨rfl, fun m hm => by cases hm⟩
  case succ n ih =>
    refine ⟨?_, fun m hm => ih.numbers m (by simpa [nested, numbers, numbersItems] using hm)⟩
    rw [nested, Json.sorted, sortedItems, ih.sorted, sortedItems]

theorem nesting_nested (n : Nat) : (nested n).nesting = n := by
  induction n
  case zero => rfl
  case succ n ih => simp [nested, nesting, nestingItems, ih]

def deep : Options where
  globalVariables := [nested 126]

theorem whole_deep : deep.Whole := fun j hj => by
  rw [List.mem_singleton.1 hj]
  exact whole_nested 126

-- With one bracket more than the limit, options have a text that they are not read back from.
theorem toJson_unreadable : deep.Whole ∧ (parse? deep.toJson.compact >>= ofJson?) ≠ some deep := by
  have hdeep : maxDepth ≤ deep.toJson.nesting := by
    rw [← Nat.not_lt, nesting_toJson]
    simp [deep, nesting_nested]
  refine ⟨whole_deep, ?_⟩
  rw [parse?_deep hdeep (readsBack_toJson whole_deep)]
  exact (Option.some_ne_none deep).symm

end Options

end ScopedCss
