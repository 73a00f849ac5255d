import ScopedCss.Proofs.Composition.OnDisk
import ScopedCss.Proofs.Disk.Region

namespace ScopedCss

open Scoping SessionM

-- What is looked at for a specifier, and the file that it names, are outside of a region.
structure Project.Avoids (p : Project) (known region : String → Bool) (specifier path : String) : Prop where
  probes   : ∀ q ∈ (p.resolver.target specifier path).probes known, p.disk.avoids region q = true
  manifest : ∀ folder, p.resolver.target specifier path = .mainEntry folder →
    p.disk.avoids region (folder ++ "/package.json") = true
  names    : ∀ q, p.resolver.resolve p.disk known specifier path = .ok q → p.disk.avoids region q = true

-- A file, and those that it is composed of, directly or through others.
inductive Collection.Reaches (W : Collection) (p : Project) : String → String → Prop
  | refl {path : String} :
    Reaches W p path path
  | step {path target q css specifier : String} :
    W.text path = .ok css →
    specifier ∈ specifiersOf css →
    W.resolve p specifier path = .ok target →
    Reaches W p target q →
    Reaches W p path q

-- No specifier in any of them leads into the region.
def Collection.Spares (W : Collection) (p : Project) (region : String → Bool) (path : String) : Prop :=
  ∀ q, W.Reaches p path q → ∀ css, W.text q = .ok css → ∀ specifier ∈ specifiersOf css,
    p.Avoids W.known region specifier q

namespace Collection.Spares

variable {W : Collection} {p : Project} {region : String → Bool} {path target css specifier : String}

theorem avoids (h : W.Spares p region path) (ht : W.text path = .ok css) (hs : specifier ∈ specifiersOf css) :
    p.Avoids W.known region specifier path :=
  h path .refl css ht specifier hs

theorem of_resolve (h : W.Spares p region path) (ht : W.text path = .ok css) (hs : specifier ∈ specifiersOf css)
    (hr : W.resolve p specifier path = .ok target) : W.Spares p region target :=
  fun q hq => h q (.step ht hs hr hq)

end Collection.Spares

-- Asking stops at the same path where all that is asked for is known or not as before.
theorem ImportTarget.probes_congr {known known' : String → Bool} {candidates : List String}
    (h : ∀ q ∈ (firstExisting candidates).probes known, known' q = known q) :
    candidates.find? known' = candidates.find? known ∧
      (firstExisting candidates).probes known' = (firstExisting candidates).probes known := by
  unfold probes at h ⊢
  dsimp only at h ⊢
  induction candidates
  case nil => exact ⟨rfl, rfl⟩
  case cons q candidates ih =>
    cases hk : known q
    case true =>
      have hk' := h q (by simp [hk])
      simp [hk'.trans hk, hk]
    case false =>
      have hk' := h q (by simp [hk])
      have ⟨hfind, hprobes⟩ := ih fun other hm => h other (by
        simpa [List.takeWhile_cons, List.find?_cons, hk] using .inr (by simpa using hm))
      simp only [List.find?_cons, List.takeWhile_cons, hk'.trans hk, hk, Bool.not_false, if_true, List.cons_append]
      exact ⟨hfind, congrArg _ hprobes⟩

section

variable {p p' : Project} {registry : Registry} {region : String → Bool} {v w : Visit} {s : Session} {source : Source}
  {path specifier : String}

-- The same project, on a disk that differs in the region at most.
structure Project.Moved (p p' : Project) (region : String → Bool) : Prop where
  settings : p'.settings = p.settings
  naming   : p'.naming = p.naming
  disk     : p'.disk.without region = p.disk.without region

theorem Project.Moved.resolver (h : p.Moved p' region) : p'.resolver = p.resolver := by
  unfold Project.resolver
  rw [h.settings]

theorem Project.Moved.knows (h : p.Moved p' region) {r : Registry} (ha : p.disk.avoids region path = true) :
    r.knows p'.disk path = r.knows p.disk path := by
  unfold Registry.knows
  rw [Disk.isFile_of_avoids h.disk ha]

theorem Project.Moved.fetch (h : p.Moved p' region) {r : Registry} (ha : p.disk.avoids region path = true) :
    r.fetch p'.disk path = r.fetch p.disk path := by
  unfold Registry.fetch
  rw [Disk.read_of_avoids h.disk ha]

theorem Project.Moved.hashOf (h : p.Moved p' region) {r : Registry} (ha : p.disk.avoids region path = true) :
    r.hashOf p'.disk path = r.hashOf p.disk path := by
  unfold Registry.hashOf
  rw [h.fetch ha]

-- A specifier names the same file.
theorem Project.Moved.resolve (h : p.Moved p' region) {r : Registry}
    (ha : p.Avoids (r.knows p.disk) region specifier path) :
    p'.resolver.resolve p'.disk (r.knows p'.disk) specifier path =
      p.resolver.resolve p.disk (r.knows p.disk) specifier path := by
  rw [h.resolver]
  unfold Resolver.resolve
  cases ht : p.resolver.target specifier path
  case path              => rfl
  case unterminatedPackage => rfl
  case mainEntry folder =>
    unfold ImportTarget.settle
    dsimp only
    rw [Disk.read_of_avoids h.disk (ha.manifest folder ht)]
  case firstExisting candidates =>
    unfold ImportTarget.settle
    dsimp only
    rw [(ImportTarget.probes_congr fun q hq => h.knows (ha.probes q (ht ▸ hq))).1]

-- No specifier leads into the region from where it is not asked for what is there.
theorem Project.Avoids.moved {r : Registry} (ha : p.Avoids (r.knows p.disk) region specifier path)
    (h : p.Moved p' region) : p'.Avoids (r.knows p'.disk) region specifier path where
  probes q hq := by
    refine Disk.avoids_congr h.disk (ha.probes q ?_)
    rw [h.resolver] at hq
    cases ht : p.resolver.target specifier path
    case firstExisting candidates =>
      rw [ht] at hq
      rwa [(ImportTarget.probes_congr fun q hq => h.knows (ha.probes q (ht ▸ hq))).2] at hq
    all_goals
      rw [ht] at hq
      exact hq
  manifest folder hf := Disk.avoids_congr h.disk (ha.manifest folder (h.resolver ▸ hf))
  names q hq := Disk.avoids_congr h.disk (ha.names q ((h.resolve ha).symm.trans hq))

theorem Project.Moved.text (h : p.Moved p' region) {r : Registry}
    (hpath : r.contains path = true ∨ p.disk.avoids region path = true) :
    (r.collection p'.disk).text path = (r.collection p.disk).text path := by
  change (r.found p'.disk path).map Source.contents = (r.found p.disk path).map Source.contents
  unfold Registry.found
  rcases hpath with hc | ha
  · have ⟨source, hg⟩ := Option.isSome_iff_exists.1 hc
    rw [Registry.fetch_registered hg, Registry.fetch_registered hg]
  · rw [h.fetch ha]

theorem Collection.Spares.moved {r : Registry} (hs : (r.collection p.disk).Spares p region path)
    (h : p.Moved p' region) (hpath : r.contains path = true ∨ p.disk.avoids region path = true) :
    (r.collection p'.disk).Spares p' region path := by
  intro q hq
  induction hq
  case refl path =>
    intro css ht specifier hspecifier
    exact (hs.avoids ((h.text hpath).symm.trans ht) hspecifier).moved h
  case step path target q css specifier ht hspecifier hr _ ih =>
    replace ht := (h.text hpath).symm.trans ht
    have ha := hs.avoids ht hspecifier
    replace hr := (h.resolve ha).symm.trans hr
    exact ih (hs.of_resolve ht hspecifier hr) (.inr (ha.names target hr))

namespace Visit

variable {text : String} {steps rest : List Step} {step : Step} {progress : Progress} {records : List ImportRecord}
  {t : Session}

theorem Fits.text_of_opens (h : v.Fits (plainReader p registry)) (ho : v.Opens p text) :
    (registry.collection p.disk).text v.path = .ok text := by
  have ⟨hread, _⟩ := h.reading ho.slot trivial
  rw [ho.reading] at hread
  generalize (registry.collection p.disk).text v.path = found at hread
  cases hread
  rfl

theorem Fits.after (h : v.Fits (plainReader p registry)) (ho : v.Opens p text) (hp : plan text = steps ++ rest) :
    Consistent (plainReader p registry) (v.after p steps).2 ∧ (v.reading p).2.Later p (v.after p steps).2 := by
  have ⟨_, hc⟩ := h.reading ho.slot trivial
  refine after_induct (P := fun t => Consistent (plainReader p registry) t ∧ (v.reading p).2.Later p t)
    ho ⟨hc, .refl _⟩ ?_ hp
  rintro w hw ⟨hcw, hlw⟩
  cases hw
  case mk hr =>
    have hr' : Remembers (plainReader p registry) (v.reading p).2 [] _ := ⟨hcw, hlw, by simp⟩
    have hf := h.target ho.slot (h.text_of_opens ho) hr' hr
    have ⟨_, _, _, hrun⟩ := hf.run trivial
    exact ⟨hrun, hlw.trans (run_later hf.proper)⟩

-- A call that is made during one that fits does so as well.
theorem Fits.call (h : v.Fits (plainReader p registry)) (hw : v.Calls p w) : w.Fits (plainReader p registry) := by
  cases hw
  case mk ho hp ha _ hr =>
    have ⟨hc, hl⟩ := h.after ho hp
    rw [ha] at hc hl
    have hr' : Remembers (plainReader p registry) (v.reading p).2 [] _ := ⟨hc, hl, by simp⟩
    exact h.target ho.slot (h.text_of_opens ho) hr' hr

theorem Fits.within (h : v.Fits (plainReader p registry)) (hw : Within p v w) : w.Fits (plainReader p registry) := by
  induction hw
  case refl          => exact h
  case tail hcall ih => exact ih.call hcall

theorem Fits.withFuel {W : Collection} {R : Reader p W} (h : v.Fits R) {fuel : Nat} (hf : v.fuel ≤ fuel) :
    (v.withFuel fuel).Fits R where
  proper     := ⟨h.proper.keyed, h.proper.canonical⟩
  chained    := h.chained
  consistent := h.consistent
  admits     := h.admits
  nested     := h.nested
  text       := h.text
  fuel       := h.fuel.trans (Nat.add_le_add_right hf _)

-- What a call is made for, and all that it can lead to, is outside of a region.
structure Clear (p : Project) (registry : Registry) (region : String → Bool) (v : Visit) : Prop where
  fits   : v.Fits (plainReader p registry)
  spares : (registry.collection p.disk).Spares p region v.path
  path   : v.contents = none → p.disk.avoids region v.path = true

namespace Clear

theorem reading (h : v.Clear p registry region) (hm : p.Moved p' region) : v.reading p' = v.reading p := by
  unfold Visit.reading textOf
  cases hc : v.contents
  case some => rfl
  case none =>
    have hpre : (v.session.enter v.path).preprocessors = [] := h.fits.consistent.good.1
    dsimp only
    rw [contentsOf_plain_on hpre, contentsOf_plain_on hpre, hm.fetch (h.path hc)]

theorem known (h : v.Clear p registry region) (ho : v.Opens p text) (hp : plan text = steps ++ rest)
    (ha : v.after p steps = ((.ok progress, records), t)) : t.registry.knows p.disk = registry.knows p.disk := by
  have ⟨hc, _⟩ := h.fits.after ho hp
  rw [ha] at hc
  exact hc.good.2.1

theorem avoids (h : v.Clear p registry region) (ho : v.Opens p text) (hp : plan text = steps ++ step :: rest)
    (ha : v.after p steps = ((.ok progress, records), t)) (hs : step.asks progress = some specifier) :
    p.Avoids (t.registry.knows p.disk) region specifier v.path := by
  have hspecifier : specifier ∈ specifiersOf text :=
    List.mem_filterMap.2 ⟨step, by simp [hp], (Step.asks_eq_some.1 hs).1⟩
  rw [h.known ho hp ha]
  exact h.spares.avoids (h.fits.text_of_opens ho) hspecifier

theorem call (h : v.Clear p registry region) (hw : v.Calls p w) : w.Clear p registry region := by
  refine ⟨h.fits.call hw, ?_, ?_⟩
  all_goals
    cases hw
    case mk text steps _ step _ _ t specifier target ho hp ha hs hr => ?_
  case refine_1 =>
    have hspecifier : specifier ∈ specifiersOf text :=
      List.mem_filterMap.2 ⟨step, by simp [hp], (Step.asks_eq_some.1 hs).1⟩
    rw [Visit.resolve, h.known ho hp ha] at hr
    exact h.spares.of_resolve (h.fits.text_of_opens ho) hspecifier hr
  case refine_2 => exact fun _ => (h.avoids ho hp ha hs).names _ hr

-- What is in the region makes no difference to the call.
theorem run (h : v.Clear p registry region) (hm : p.Moved p' region) : v.run p' = v.run p := by
  induction v using induct (p := p)
  case h v ih =>
    have hf := h.fits.fuel_ne_zero
    have hafter {text} (ho : v.Opens p text) {steps rest} (hp : plan text = steps ++ rest) :
        v.after p' steps = v.after p steps := by
      induction steps using List.reverseRec generalizing rest
      case nil => rw [after_nil, after_nil, h.reading hm]
      case append_singleton steps step ihs =>
        replace hp : plan text = steps ++ step :: rest := by simpa using hp
        have ha := advance (p := p) (v := v) steps step
        have ha' := advance (p := p') (v := v) steps step
        rw [ihs hp] at ha'
        refine ha.agree ha' rfl hm.naming (fun progress records t specifier hb hs => ?_)
          fun progress records t specifier path hb hs hr => ?_
        · exact hm.resolve (h.avoids ho hp hb hs)
        · have hw : v.Calls p (v.target t path) := .mk ho hp hb hs hr
          exact ih _ hw (h.call hw)
    cases hs : v.session.slots.get? v.path
    case some slot =>
      cases slot
      case pending => rw [run_pending hf hs, run_pending hf hs]
      case done r  => rw [run_done hf hs, run_done hf hs]
    case none =>
      rw [run_none hf hs, run_none hf hs, h.reading hm]
      rcases hr : v.reading p with ⟨e | text, t⟩
      case error => rfl
      case ok =>
        have ho : v.Opens p text := ⟨hf, hs, by rw [hr]⟩
        dsimp only
        rw [hafter ho (plan_end _)]

end Clear

end Visit

-- A file is scoped as if the region were empty.
theorem Plain.scope_moved (h : Plain p registry s) (hm : p.Moved p' region) (hsize : p.disk.files.size ≤ p'.disk.files.size)
    (hp : s.preprocessors = [])
    (ht : (registry.collection p.disk).text source.path = .ok source.contents)
    (hs : (registry.collection p.disk).Spares p region source.path) :
    (SessionM.scope p' source).on s = (SessionM.scope p source).on s := by
  have hleft : isLeft p' source = isLeft p source := by
    unfold isLeft passesThrough
    rw [hm.settings]
  have hnone : { s with preprocessors := [] } = s := by rw [← hp]
  have hfits := h.fits ht
  rw [hnone] at hfits
  have hfuel : SessionM.maxChain p s ≤ SessionM.maxChain p' s := by
    unfold SessionM.maxChain
    have := Nat.mul_le_mul_right Disk.maxPathLength hsize
    omega
  have hrun : (Visit.top p' s source).run p' = (Visit.top p s source).run p := by
    have htop : (Visit.top p s source).withFuel (SessionM.maxChain p' s) = Visit.top p' s source := rfl
    have hmore : (Visit.top p s source).fuel + (SessionM.maxChain p' s - SessionM.maxChain p s) = SessionM.maxChain p' s :=
      Nat.add_sub_cancel' hfuel
    have hclear : ((Visit.top p s source).withFuel (SessionM.maxChain p' s)).Clear p registry region :=
      ⟨hfits.withFuel hfuel, hs, fun h => nomatch h⟩
    have hsame := Visit.run_more_fuel (fun w hw => (hfits.within hw).fuel_ne_zero) (SessionM.maxChain p' s - SessionM.maxChain p s)
    rw [← htop, hclear.run hm, ← hsame, hmore]
  rw [scope_on, scope_on, hleft, hrun]
  unfold Source.scopedAs exportTokens
  rw [hm.settings]

-- All files that a result stands on are outside of a region.
theorem Evaluates.avoids {chain : List String} {result : Except Error ScopedModule}
    (h : Evaluates p (registry.collection p.disk) chain path result)
    (hs : (registry.collection p.disk).Spares p region path) {r : ScopedModule} (hr : result = .ok r) :
    ∀ q ∈ r.importTree, p.disk.avoids region q = true := by
  induction h generalizing r
  case cyclic => cases hr
  case unread => cases hr
  case read css other _ ht _ ih =>
    have ⟨sheet, composed, hmodule, hsound, _⟩ := composed_of_resultOfText hr
    intro q hq
    have ⟨c, hm, hq⟩ := mem_importTree (hmodule ▸ hq)
    have ⟨specifier, hspecifier, hres, hother⟩ := hsound c hm
    rcases List.mem_cons.1 hq with rfl | hq
    · exact (hs.avoids ht hspecifier).names _ hres
    · exact ih specifier hspecifier _ hres (hs.of_resolve ht hspecifier hres) hother q hq

-- What scoping a file comes to, if it does not stay as it is.
theorem Plain.scoped_eq_ok (h : Plain p registry s) (hp : s.preprocessors = [])
    (ht : (registry.collection p.disk).text source.path = .ok source.contents) {source' : Source}
    (hr : ((SessionM.scope p source).on s).1 = .ok source') :
    source' = source ∨ ∃ r, Evaluates p (registry.collection p.disk) [] source.path (.ok r) ∧ source' = source.scopedAs p r := by
  have hs : { s with preprocessors := [] } = s := by rw [← hp]
  have heval := h.evaluates ht
  rw [hs] at heval
  rw [scope_outcome] at hr
  split at hr
  case isTrue  => exact .inl (Except.ok.inj hr).symm
  case isFalse =>
    cases hrun : ((Visit.top p s source).run p).1
    case error =>
      rw [hrun] at hr
      cases hr
    case ok r =>
      rw [hrun] at hr heval
      exact .inr ⟨r, heval, (Except.ok.inj hr).symm⟩

end

end ScopedCss
