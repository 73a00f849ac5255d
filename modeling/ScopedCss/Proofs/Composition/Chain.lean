import ScopedCss.Proofs.Composition.Later
import ScopedCss.Proofs.Disk

namespace ScopedCss

namespace Session

-- The files that are being scoped are those with a pending slot, each once.
structure Chained (s : Session) : Prop where
  pending : ∀ q, s.slots.get? q = some .pending ↔ q ∈ s.chain
  nodup   : s.chain.Nodup

variable {p : Project} {s t : Session}

theorem Later.chained (h : s.Later p t) (hs : s.Chained) : t.Chained where
  pending q := by
    rw [h.chain, ← hs.pending]
    exact ⟨h.pending q, h.slots q _⟩
  nodup := h.chain ▸ hs.nodup

theorem Chained.enter (hs : s.Chained) {path : String} (h : s.slots.get? path = none) :
    (s.enter path).Chained where
  pending q := by
    by_cases hq : q = path
    case pos => simp [Session.enter, hq]
    case neg => simp [Session.enter, hq, hs.pending]
  nodup := by
    refine List.nodup_append.2 ⟨hs.nodup, by simp, fun q hq q' hq' he => ?_⟩
    have := (hs.pending q).2 hq
    simp [he, List.mem_singleton.1 hq', h] at this

end Session

namespace Visit

open Scoping SessionM

variable {p : Project} {v w : Visit} {text : String} {steps rest : List Step} {s t : Session}

theorem reading_chained (hv : v.Proper) (hc : v.session.Chained)
    (hs : v.session.slots.get? v.path = none) : (v.reading p).2.Chained := by
  have ⟨_, _, _, he, _, _⟩ := reading_later (p := p) hv
  rw [he]
  exact ⟨(hc.enter hs).pending, (hc.enter hs).nodup⟩

theorem reading_chain (hv : v.Proper) : (v.reading p).2.chain = v.session.chain ++ [v.path] := by
  have ⟨_, _, _, he, _, _⟩ := reading_later (p := p) hv
  rw [he]
  rfl

theorem Calls.chained (hw : v.Calls p w) (hv : v.Proper) (hc : v.session.Chained) :
    w.session.Chained := by
  have ⟨_, ho⟩ := hw.opens
  exact (hw.later hv).chained (reading_chained hv hc ho.slot)

theorem Calls.chain (hw : v.Calls p w) (hv : v.Proper) :
    w.session.chain = v.session.chain ++ [v.path] :=
  (hw.later hv).chain.trans (reading_chain hv)

-- The sessions that are passed through during a call.
inductive During (p : Project) : Visit → Session → Prop
  | start {v : Visit} :
    During p v v.session
  | entered {v : Visit} :
    v.fuel ≠ 0 → v.session.slots.get? v.path = none → During p v (v.session.enter v.path)
  | read {v : Visit} :
    v.fuel ≠ 0 → v.session.slots.get? v.path = none → During p v (v.reading p).2
  | step {v : Visit} {text : String} {steps rest : List Step} :
    v.Opens p text → plan text = steps ++ rest → During p v (v.after p steps).2
  | call {v w : Visit} {t : Session} :
    v.Calls p w → During p w t → During p v t
  | final {v : Visit} :
    During p v (v.run p).2

theorem During.chained (h : During p v t) (hv : v.Proper) (hc : v.session.Chained) : t.Chained := by
  induction h
  case start => exact hc
  case entered hs => exact hc.enter hs
  case read hs => exact reading_chained hv hc hs
  case step ho h => exact (after_later ho hv h).chained (reading_chained hv hc ho.slot)
  case call hw _ ih => exact ih (hw.proper hv) (hw.chained hv hc)
  case final => exact (run_later hv).chained hc

-- What is done stays done, with the same result, at any time during a call.
theorem During.keeps (h : During p v t) (hv : v.Proper) : v.session.Keeps t := by
  induction h
  case start => exact .refl _
  case entered hs => exact Session.keeps_enter hs
  case read hs => exact reading_keeps hv hs
  case step ho h => exact (reading_keeps hv ho.slot).trans (after_later ho hv h).keeps
  case call hw _ ih => exact (hw.keeps hv).trans (ih (hw.proper hv))
  case final => exact (run_later hv).keeps

-- The calls that are made during a call, itself included.
def Within (p : Project) : Visit → Visit → Prop :=
  Relation.ReflTransGen (Calls p)

theorem Within.proper (h : Within p v w) (hv : v.Proper) : w.Proper := by
  induction h
  case refl => exact hv
  case tail hw ih => exact hw.proper ih

theorem Within.run_keeps (h : Within p v w) (hv : v.Proper) : (w.run p).2.Keeps (v.run p).2 := by
  induction h
  case refl => exact .refl _
  case tail hu hw ih => exact (hw.run_keeps (Within.proper hu hv)).trans ih

-- What bounds the depth of the calls within one that is made with an empty chain: all files on the
-- way down could be read, and that from the registry or from disk.
structure Bounded (p : Project) (v w : Visit) : Prop where
  proper   : w.Proper
  chained  : w.session.Chained
  fuel     : w.fuel + w.session.chain.length = v.fuel
  nested   : w.session.chain ≠ [] → w.contents = none
  registry : v.session.registry.Later p.disk (fun _ => False) w.session.registry
  tail     : ∀ q ∈ w.session.chain.tail,
    v.session.registry.contains q = true ∨ Path.IsCanonical q ∧ p.disk.isFile q = true

theorem Bounded.start (hv : v.Proper) (hc : v.session.Chained) (he : v.session.chain = []) :
    Bounded p v v where
  proper   := hv
  chained  := hc
  fuel     := by simp [he]
  nested h := absurd he h
  registry := .refl _
  tail     := by simp [he]

theorem Calls.registry (hw : v.Calls p w) (hv : v.Proper) :
    v.session.registry.Later p.disk (fun _ => False) w.session.registry := by
  have ⟨_, _, _, he, hr, _⟩ := reading_later (p := p) hv
  have h := (hw.later hv).registry
  rw [he] at h
  exact (hr.mono (by simp)).trans (h.mono (by simp))

-- A file that makes a call could be read.
theorem Calls.contains (hw : v.Calls p w) (hv : v.Proper) (hc : v.contents = none) :
    w.session.registry.contains v.path = true := by
  have ⟨_, ho⟩ := hw.opens
  have ⟨_, _, _, he, _, hr⟩ := reading_later (p := p) hv
  have h := (hw.later hv).registry.contains v.path
  rw [he] at h
  exact h (hr hc (reading_knows hc ho.reading))

theorem Bounded.call {u : Visit} (hb : Bounded p v w) (hu : w.Calls p u) : Bounded p v u where
  proper     := hu.proper hb.proper
  chained    := hu.chained hb.proper hb.chained
  fuel       := by
    have hf : u.fuel + 1 = w.fuel := by
      have ⟨_, ho⟩ := hu.opens
      have := ho.fuel
      cases hu
      simp only [target]
      omega
    have := hb.fuel
    rw [hu.chain hb.proper, List.length_append, List.length_singleton]
    omega
  nested _   := by
    cases hu
    rfl
  registry   := hb.registry.trans (hu.registry hb.proper)
  tail q hq  := by
    rw [hu.chain hb.proper] at hq
    cases hc : w.session.chain
    case nil => simp [hc] at hq
    case cons first others =>
      rw [hc, List.cons_append, List.tail_cons, List.mem_append, List.mem_singleton] at hq
      rcases hq with hq | hq
      · exact hb.tail q (by simp [hc, hq])
      · have hn := hb.nested (by simp [hc])
        have hk := (hb.registry.trans (hu.registry hb.proper)).added q (hq ▸ hu.contains hb.proper hn)
        exact hk.imp id fun h => ⟨hq ▸ hb.proper.canonical hn, h⟩

theorem Within.bounded (h : Within p v w) (hv : v.Proper) (hc : v.session.Chained)
    (he : v.session.chain = []) : Bounded p v w := by
  induction h
  case refl => exact .start hv hc he
  case tail hu ih => exact ih.call hu

theorem Bounded.fuel_ne_zero (hb : Bounded p v w) (hf : SessionM.maxChain p v.session ≤ v.fuel) :
    w.fuel ≠ 0 := by
  have hl := v.session.registry.length_le (hb.chained.nodup.sublist (List.tail_sublist _)) hb.tail
  have := hb.fuel
  simp only [List.length_tail] at hl
  simp only [SessionM.maxChain] at hf
  omega

-- No call that is made during one with enough fuel is out of fuel, so that none is cut off.
theorem Within.fuel_ne_zero (h : Within p v w) (hv : v.Proper) (hc : v.session.Chained)
    (he : v.session.chain = []) (hf : SessionM.maxChain p v.session ≤ v.fuel) : w.fuel ≠ 0 :=
  (h.bounded hv hc he).fuel_ne_zero hf

def withFuel (v : Visit) (fuel : Nat) : Visit :=
  { v with fuel }

theorem reading_withFuel (fuel : Nat) : (v.withFuel fuel).reading p = v.reading p :=
  rfl

-- More fuel changes nothing where no call is out of fuel.
theorem run_more_fuel (h : ∀ w, Within p v w → w.fuel ≠ 0) (more : Nat) :
    (v.withFuel (v.fuel + more)).run p = v.run p := by
  induction v using induct (p := p)
  case h v ih =>
    have hf : v.fuel ≠ 0 := h v .refl
    have hf' : (v.withFuel (v.fuel + more)).fuel ≠ 0 := by simp [withFuel, hf]
    have hafter {text} (ho : v.Opens p text) {steps rest} (hp : plan text = steps ++ rest) :
        (v.withFuel (v.fuel + more)).after p steps = v.after p steps := by
      induction steps using List.reverseRec generalizing rest
      case nil => rw [after_nil, after_nil, reading_withFuel]
      case append_singleton steps step ihs =>
        replace hp : plan text = steps ++ step :: rest := by simpa using hp
        have ha := advance (p := p) (v := v) steps step
        have ha' := advance (p := p) (v := v.withFuel (v.fuel + more)) steps step
        rw [ihs hp] at ha'
        refine ha.eq ha' rfl fun progress records t specifier path hb hs hr => ?_
        have hw : v.Calls p (v.target t path) := .mk ho hp hb hs hr
        have := ih _ hw fun w hw' => h w (.head hw hw')
        simpa [target, withFuel, Nat.sub_add_comm (Nat.one_le_iff_ne_zero.2 hf)] using this
    cases hs : v.session.slots.get? v.path
    case some slot =>
      cases slot
      case pending => rw [run_pending hf hs, run_pending (v := v.withFuel (v.fuel + more)) hf' hs]; rfl
      case done r  => rw [run_done hf hs, run_done (v := v.withFuel (v.fuel + more)) hf' hs]; rfl
    case none =>
      rw [run_none hf hs, run_none (v := v.withFuel (v.fuel + more)) hf' hs]
      rw [reading_withFuel]
      rcases hr : v.reading p with ⟨e | text, t⟩
      case error => rfl
      case ok =>
        have ho : v.Opens p text := ⟨hf, hs, by rw [hr]⟩
        dsimp only
        rw [hafter ho (List.append_nil _).symm]
        rfl
end Visit

end ScopedCss
