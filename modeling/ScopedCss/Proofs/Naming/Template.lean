import Mathlib.Data.List.TakeWhile
import ScopedCss.Naming.Basic
import ScopedCss.Proofs.Text.Suffix

namespace ScopedCss

namespace Naming

namespace Template

variable {t : Template} {s l r rest before : List Char} {index : Nat} {fault : Fault} {p : Placeholder}

theorem write_cons (part : TemplatePart) (t : Template) : write (part :: t) = write [part] ++ write t := by
  simp [write]

theorem bytes_append (s t : List Char) : bytes (s ++ t) = bytes s + bytes t := by
  simp [bytes]

-- Literals are runs of text in which nothing begins that could be a placeholder.
def HasRuns (t : Template) : Prop :=
  ∀ l, .literal l ∈ t → l ≠ [] ∧ '[' ∉ l

-- No run is cut in two.
def Parted (t : Template) : Prop :=
  ∀ l l', ¬[.literal l, .literal l'] <:+: t

-- What is wrong with a bracket at a place, in front of a text.
inductive FaultOf (rest : List Char) (index : Nat) : Fault → Prop
  | unclosed : ']' ∉ rest → FaultOf rest index (.unclosed index)
  | unknown (inner after : List Char) : rest = inner ++ ']' :: after → ']' ∉ inner →
    (∀ p : Placeholder, p.text ≠ '[' :: inner ++ [']']) → FaultOf rest index (.unknown ('[' :: inner ++ [']']) index)

-- The first bracket of a text that is unclosed or no placeholder, what is wrong with it, and where it stands.
def FirstFault (s : List Char) (fault : Fault) : Prop :=
  ∃ before rest, s = before ++ '[' :: rest ∧ FaultOf rest (bytes before) fault ∧
    ∀ l r, before = l ++ '[' :: r → ∀ index fault, ¬FaultOf (r ++ '[' :: rest) index fault

theorem HasRuns.nil : HasRuns [] :=
  fun _ h => nomatch h

theorem HasRuns.tail {part : TemplatePart} (h : HasRuns (part :: t)) : t.HasRuns :=
  fun l hl => h l (.tail _ hl)

theorem HasRuns.literal (hl : l ≠ []) (hn : '[' ∉ l) (h : t.HasRuns) : HasRuns (.literal l :: t) := by
  intro l' hm
  cases hm
  case head    => exact ⟨hl, hn⟩
  case tail hm => exact h l' hm

theorem HasRuns.placeholder (p : Placeholder) (h : t.HasRuns) : HasRuns (.placeholder p :: t) := by
  intro l hm
  cases hm
  case tail hm => exact h l hm

-- Behind a run stands a bracket, or nothing.
theorem HasRuns.ne_literal (h : t.HasRuns) (hs : (write t).head?.all (· == '[') = true) (l : List Char) :
    t.head? ≠ some (.literal l) := by
  intro hl
  obtain ⟨t, rfl⟩ := List.head?_eq_some_iff.1 hl
  obtain ⟨hne, hn⟩ := h l List.mem_cons_self
  obtain ⟨c, l, rfl⟩ := List.exists_cons_of_ne_nil hne
  have hc : c = '[' := by simpa [write] using hs
  exact hn (hc ▸ List.mem_cons_self)

theorem Parted.cons {part : TemplatePart} (h : t.Parted)
    (hp : ∀ l l', part = .literal l → t.head? ≠ some (.literal l')) : Parted (part :: t) := by
  intro l l' hi
  rcases List.infix_cons_iff.1 hi with hi | hi
  case inl =>
    obtain ⟨rfl, rest, rfl⟩ := List.cons_prefix_cons.1 hi
    exact hp l l' rfl rfl
  case inr => exact h l l' hi

theorem text_eq_cons (p : Placeholder) : ∃ inner, p.text = '[' :: inner ++ [']'] ∧ ']' ∉ inner ∧ '[' ∉ inner := by
  cases p
  case path      => exact ⟨"path".toList, by decide⟩
  case name      => exact ⟨"name".toList, by decide⟩
  case localName => exact ⟨"local".toList, by decide⟩
  case hash      => exact ⟨"hash".toList, by decide⟩

-- All brackets of a template that is written out begin placeholders.
theorem exists_placeholder (ht : t.HasRuns) (h : write t = l ++ '[' :: r) : ∃ p : Placeholder, p.text <+: '[' :: r := by
  induction t generalizing l
  case nil => simp [write] at h
  case cons part t ih =>
    rw [write_cons] at h
    obtain ⟨d, rfl, hd⟩ | ⟨d, hpart, hd⟩ := List.append_eq_append_iff.1 h
    · exact ih ht.tail hd
    -- The bracket stands in the first part, or right behind it.
    cases part
    case literal run =>
      cases d
      case nil => exact ih (l := []) ht.tail hd.symm
      case cons c d =>
        obtain ⟨rfl, -⟩ := List.cons.inj hd
        refine absurd ?_ (ht run List.mem_cons_self).2
        have hrun : run = l ++ '[' :: d := by simpa [write] using hpart
        simp [hrun]
    case placeholder p =>
      cases d
      case nil => exact ih (l := []) ht.tail hd.symm
      case cons c d =>
        obtain ⟨rfl, rfl⟩ := List.cons.inj hd
        obtain ⟨inner, hp, -, hn⟩ := text_eq_cons p
        have hl : '[' :: inner ++ [']'] = l ++ '[' :: d := by simpa [write, hp] using hpart
        cases l
        case nil =>
          exact ⟨p, by rw [hp, hl]; simp⟩
        case cons c l =>
          have hmem : '[' ∈ inner ++ [']'] := by
            rw [List.cons_append, List.cons_append] at hl
            simp [(List.cons.inj hl).2]
          simp [hn] at hmem

theorem cut?_bracket (h : ']' ∉ s) (r : List Char) : Text.cut? (· == ']') (s ++ ']' :: r) = some (s, ']', r) :=
  Text.cut?_append (fun _ hc => beq_eq_false_iff_ne.2 (ne_of_mem_of_not_mem hc h)) (beq_self_eq_true _) r

-- Nothing is wrong with a bracket that begins a placeholder.
theorem not_faultOf (h : p.text <+: '[' :: rest) : ¬FaultOf rest index fault := by
  obtain ⟨inner, hp, hc, -⟩ := text_eq_cons p
  obtain ⟨after, hafter⟩ := h
  have hrest : rest = inner ++ ']' :: after := by simpa [hp] using hafter.symm
  intro hf
  cases hf
  case unclosed hn => exact hn (by simp [hrest])
  case unknown inner' after' he hc' hne =>
    have hcut := cut?_bracket hc after
    rw [← hrest, he, cut?_bracket hc' after'] at hcut
    cases hcut
    exact hne p hp

-- What a text from a place on can be read as: it is a template written out, or it goes on behind one with
-- a bracket that something is wrong with.
inductive Reads (index : Nat) (s : List Char) : Except Fault Template → Prop
  | ok (t : Template) : t.HasRuns → t.Parted → write t = s → Reads index s (.ok t)
  | error (t : Template) (rest : List Char) (fault : Fault) : t.HasRuns → s = write t ++ '[' :: rest →
    FaultOf rest (index + bytes (write t)) fault → Reads index s (.error fault)

theorem Reads.placeholder {result : Except Fault Template} (h : Reads (index + bytes p.text) s result) :
    Reads index (p.text ++ s) ((.placeholder p :: ·) <$> result) := by
  have hw (t : Template) : write (.placeholder p :: t) = p.text ++ write t := rfl
  cases h
  case ok hr hp hs =>
    exact .ok _ (hr.placeholder p) (hp.cons fun _ _ hl => nomatch hl) (by rw [hw, hs])
  case error hr hs hf =>
    exact .error _ _ _ (hr.placeholder p) (by rw [hw, hs, List.append_assoc]) (by rwa [hw, bytes_append, ← Nat.add_assoc])

theorem Reads.literal {result : Except Fault Template} (hl : l ≠ []) (hn : '[' ∉ l)
    (hs : s.head?.all (· == '[') = true) (h : Reads (index + bytes l) s result) :
    Reads index (l ++ s) ((.literal l :: ·) <$> result) := by
  have hw (t : Template) : write (.literal l :: t) = l ++ write t := rfl
  cases h
  case ok t hr hp ht =>
    have hne := hr.ne_literal (ht ▸ hs)
    exact .ok _ (hr.literal hl hn) (hp.cons fun _ l _ => hne l) (by rw [hw, ht])
  case error hr ht hf =>
    exact .error _ _ _ (hr.literal hl hn) (by rw [hw, ht, List.append_assoc]) (by rwa [hw, bytes_append, ← Nat.add_assoc])

theorem text_eq_of_ofText? (h : Placeholder.ofText? s = some p) : s = p.text :=
  (beq_iff_eq.1 (List.find?_some h :)).symm

theorem text_ne_of_ofText? (h : Placeholder.ofText? s = none) (p : Placeholder) : p.text ≠ s := by
  rintro rfl
  simp at h

theorem parseFrom_reads (index : Nat) (s : List Char) : Reads index s (parseFrom index s) := by
  fun_induction parseFrom index s
  case case1 => exact .ok _ .nil (fun _ _ h => nomatch List.infix_nil.1 h) rfl
  case case2 index rest hcut =>
    have hc : ']' ∉ rest := fun hc => Text.cut?_ne_none (p := (· == ']')) hc rfl hcut
    exact .error [] _ _ .nil rfl (.unclosed hc)
  case case3 index rest inner d after hcut written hw =>
    obtain ⟨he, hd, hc⟩ := Text.eq_of_cut? hcut
    obtain rfl := beq_iff_eq.1 hd
    have hn : ']' ∉ inner := fun hm => hc _ hm (beq_self_eq_true _)
    exact .error [] _ _ .nil rfl (.unknown inner after he hn (text_ne_of_ofText? hw))
  case case4 index rest inner d after hcut written p hw ih =>
    obtain ⟨rfl, hd, -⟩ := Text.eq_of_cut? hcut
    obtain rfl := beq_iff_eq.1 hd
    have hp : '[' :: (inner ++ ']' :: after) = p.text ++ after := by
      rw [← text_eq_of_ofText? hw]
      simp [written]
    rw [text_eq_of_ofText? hw] at ih ⊢
    exact hp ▸ ih.placeholder
  case case5 index c rest hc _ run ih =>
    have hrest : c :: rest = run ++ rest.dropWhile (· != '[') := by simp [run]
    have hn : '[' ∉ run := by
      intro hm
      rcases List.mem_cons.1 hm with hm | hm
      case inl => exact hc hm.symm
      case inr => simpa using List.mem_takeWhile_imp hm
    have hs : (rest.dropWhile (· != '[')).head?.all (· == '[') = true := by
      have hd := List.head?_dropWhile_not (· != '[') rest
      cases hh : (rest.dropWhile (· != '[')).head?
      case none => rfl
      case some d => simpa [hh] using hd
    exact hrest ▸ ih.literal (List.cons_ne_nil _ _) hn hs

theorem written_of_parse {text : String} (h : parse text = .ok t) : t.HasRuns ∧ t.Parted ∧ write t = text.toList := by
  have hreads := parseFrom_reads 0 text.toList
  rw [show parseFrom 0 text.toList = .ok t from h] at hreads
  cases hreads
  case ok hr hp hw => exact ⟨hr, hp, hw⟩

theorem firstFault_of_parse {text : String} (h : parse text = .error fault) : FirstFault text.toList fault := by
  have hreads := parseFrom_reads 0 text.toList
  rw [show parseFrom 0 text.toList = .error fault from h] at hreads
  cases hreads
  case error t rest hr hs hf =>
    rw [Nat.zero_add] at hf
    refine ⟨write t, rest, hs, hf, fun l r hl index fault => ?_⟩
    obtain ⟨p, after, hp⟩ := exists_placeholder hr hl
    refine not_faultOf (p := p) ⟨after ++ '[' :: rest, ?_⟩
    rw [← List.append_assoc, hp, List.cons_append]

theorem exists_parse_iff (text : String) :
    (∃ t, parse text = .ok t) ↔ ∃ t : Template, t.HasRuns ∧ write t = text.toList := by
  constructor
  case mp =>
    rintro ⟨t, ht⟩
    have ⟨hr, _, hw⟩ := written_of_parse ht
    exact ⟨t, hr, hw⟩
  case mpr =>
    rintro ⟨t, hr, hw⟩
    cases hp : parse text
    case ok t' => exact ⟨t', rfl⟩
    case error fault =>
      obtain ⟨l, r, he, hf, -⟩ := firstFault_of_parse hp
      obtain ⟨p, hp⟩ := exists_placeholder hr (hw.trans he)
      exact absurd hf (not_faultOf hp)

end Template

-- What a part of a template stands for in a scoped name.
def partValue (n : Naming) (own path : String) : TemplatePart → List Char
  | .literal s              => s
  | .placeholder .path      => n.sanitizedPath path
  | .placeholder .name      => sanitizedName path
  | .placeholder .localName => own.toList
  | .placeholder .hash      => (fingerprint (.ofList (n.sanitizedPath path))).toList.take 8

def filled (n : Naming) (t : Template) (own path : String) : String :=
  .ofList (t.flatMap (n.partValue own path))

theorem rawName_filled {n : Naming} {t : Template} (h : n.template = some t) (own path : String) :
    n.rawName own path = n.filled t own path := by
  simp only [rawName, h, filled]
  congr 2
  funext part
  cases part
  case literal       => rfl
  case placeholder p => cases p <;> rfl

theorem generate_filled {n : Naming} {t : Template} {own path : String} (ht : n.template = some t)
    (hr : n.replacements = []) (hne : n.filled t own path ≠ "")
    (hb : ∀ c ∈ (n.filled t own path).toList, Text.isBlank c = false) :
    n.generate own path = .ok (n.filled t own path) := by
  have hv : isValid (n.filled t own path) = true := by
    simpa [isValid, hne] using hb
  simp only [generate, hr, List.foldl_nil, rawName_filled ht, hv, if_true]
  rfl

-- Templates are the sequences of runs and placeholders. They are read back as they were written, and names are
-- made of them by putting the values in. In all other texts the first wrong bracket is reported.
theorem template_reads_back (base text : String) :
    ((∃ t, Template.parse text = .ok t) ↔ ∃ t : Template, t.HasRuns ∧ t.write = text.toList) ∧
      (∀ t, Template.parse text = .ok t → t.HasRuns ∧ t.Parted ∧ t.write = text.toList ∧
        ∃ n, make base [] (some text) = .ok n ∧ ∀ own path, n.filled t own path ≠ "" →
          (∀ c ∈ (n.filled t own path).toList, Text.isBlank c = false) →
            n.generate own path = .ok (n.filled t own path)) ∧
      ∀ fault, Template.parse text = .error fault → Template.FirstFault text.toList fault ∧
        make base [] (some text) = .error (.invalidFormat fault.message) := by
  refine ⟨Template.exists_parse_iff text, fun t ht => ?_, fun fault hf => ⟨Template.firstFault_of_parse hf, ?_⟩⟩
  · obtain ⟨hr, hp, hw⟩ := Template.written_of_parse ht
    have hm : make base [] (some text) =
        .ok ⟨.ofList (Text.dropWhileEnd (· == '/') (Path.forwardSlashes base).toList), [], some t⟩ := by
      simp only [make, ht]
      rfl
    exact ⟨hr, hp, hw, _, hm, fun own path => generate_filled rfl rfl⟩
  · simp only [make, hf]
    rfl

theorem template_reads_back_accent :
    let t : Template := [.literal ['é'], .placeholder .name, .literal [']', '_'], .placeholder .localName]
    Template.parse "é[name]]_[local]" = .ok t ∧
      make "/app" [] (some "é[name]]_[local]") = .ok ⟨"/app", [], some t⟩ ∧
      filled ⟨"/app", [], some t⟩ t "x" "/app/a-b.css" = "éa_b]_x" ∧
      generate ⟨"/app", [], some t⟩ "x" "/app/a-b.css" = .ok "éa_b]_x" ∧
      Template.parse "é[name]_[locl]" = .error (.unknown "[locl]".toList 9) ∧
      Template.FirstFault "é[name]_[locl]".toList (.unknown "[locl]".toList 9) := by
  intro t
  have ht : Template.parse "é[name]]_[local]" = .ok t := by decide +kernel
  have hn : make "/app" [] (some "é[name]]_[local]") = .ok ⟨"/app", [], some t⟩ := by decide +kernel
  have hname : filled ⟨"/app", [], some t⟩ t "x" "/app/a-b.css" = "éa_b]_x" := by decide +kernel
  have hf : Template.parse "é[name]_[locl]" = .error (.unknown "[locl]".toList 9) := by decide +kernel
  obtain ⟨-, -, -, n, hn', hg⟩ := (template_reads_back "/app" _).2.1 t ht
  obtain rfl := Except.ok.inj (hn'.symm.trans hn)
  have hgenerate := hg "x" "/app/a-b.css" (by rw [hname]; decide) (by rw [hname]; decide)
  exact ⟨ht, hn, hname, hname ▸ hgenerate, hf, ((template_reads_back "/app" _).2.2 _ hf).1⟩

end Naming

end ScopedCss
