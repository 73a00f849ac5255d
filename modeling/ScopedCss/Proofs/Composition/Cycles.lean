import ScopedCss.Proofs.Composition.Request

namespace ScopedCss

namespace Visit

open Scoping SessionM

variable {p : Project} {v : Visit} {text : String} {t : Session} {e : Error}

-- A file that fails is as unknown as before, and is registered as it was.
theorem run_error (hv : v.Proper) (hc : v.contents = some text)
    (hs : v.session.slots.get? v.path = none) (h : v.run p = (.error e, t)) :
    t.slots.get? v.path = none ∧
      ∀ source, v.session.registry.get? v.path = some source → t.registry.get? v.path = some source := by
  have hread : v.reading p = (.ok text, v.session.enter v.path) := by
    unfold reading
    rw [hc]
    rfl
  have ho := outcome (p := p) (v := v)
  rw [h] at ho
  cases ho
  case exhausted => exact ⟨hs, fun _ h => h⟩
  case pending hp =>
    rw [hs] at hp
    cases hp
  case unread hr =>
    rw [hread] at hr
    cases hr
  case stopped ho ha =>
    refine ⟨by simp [Session.leave], fun source hg => ?_⟩
    have hl := (after_later ho hv (plan_end _)).registry
    rw [ha, hread] at hl
    exact (hl.get? v.path (by simp [Session.enter]) (Registry.contains_of_get? hg)).trans hg

end Visit

namespace Session

-- What holds between two calls.
structure Settled (s : Session) : Prop where
  chain   : s.chain = []
  pending : ∀ q, s.slots.get? q ≠ some .pending
  closed  : ∀ q r, s.resultOf q = some r → ∀ record ∈ s.importsOf q, ∃ r, s.resultOf record.path = some r
  acyclic : ∀ q, ¬Relation.TransGen s.Imports q q

theorem Resting.settled {s : Session} (h : s.Resting) : s.Settled where
  chain                := h.chain
  pending              := h.pending
  closed q r hr        := (h.grounded q r hr).closed
  acyclic q hc := by
    have ⟨r, hr⟩ : ∃ r, s.resultOf q = some r := by
      rcases Relation.TransGen.head'_iff.1 hc with ⟨_, hi, _⟩
      exact hi.1
    exact (h.grounded q r hr).acyclic hc

end Session

namespace Request

open SessionM

variable {p : Project} {s : Session} {request : Request}

-- The file that a request has scoped, and the action that does it.
def call? (p : Project) : Request → Option (Source × SessionM Source)
  | scopePlain source => some (source, SessionM.scopePlain p source)
  | scope source      => some (source, SessionM.scope p source)
  | _                 => none

-- What one call does to a session. That no call within it is cut off, and that more fuel changes
-- nothing, is that it ends by itself.
structure EndsCleanly (p : Project) (s : Session) (request : Request) : Prop where
  not_cut_off : ∀ top v, request.visit? p s = some top → Visit.Within p top v → v.fuel ≠ 0
  more_fuel   : ∀ top more, request.visit? p s = some top →
    (top.withFuel (top.fuel + more)).run p = top.run p
  chained     : ∀ top t, request.visit? p s = some top → Visit.During p top t → t.Chained
  keeps       : ∀ top t, request.visit? p s = some top → Visit.During p top t → s.Keeps t
  kept        : s.Keeps (request.run p s)
  failed      : ∀ source act e t, request.call? p = some (source, act) → act.on s = (.error e, t) →
    t.slots.get? source.path = none ∧
      ∀ entry, s.registry.get? source.path = some entry → t.registry.get? source.path = some entry

theorem scope_error (h : s.Resting) {source : Source} {e : Error} {t : Session}
    (he : (SessionM.scope p source).on s = (.error e, t)) :
    t.slots.get? source.path = none ∧
      ∀ entry, s.registry.get? source.path = some entry → t.registry.get? source.path = some entry := by
  rw [scope_on] at he
  split at he
  case isTrue => cases he
  case isFalse =>
    have hs : s.slots.get? source.path = none := by
      cases hs : s.slots.get? source.path
      case none => rfl
      case some slot =>
        cases slot
        case pending => exact absurd hs (h.pending _)
        case done r =>
          have hr : (Visit.top p s source).run p = (.ok r, s) :=
            Visit.run_done (by simp [Visit.top, SessionM.maxChain]) hs
          rw [hr] at he
          cases he
    rcases hr : (Visit.top p s source).run p with ⟨e | r, u⟩
    case error =>
      rw [hr] at he
      cases he
      have := Visit.run_error h.proper rfl hs hr
      exact this
    case ok =>
      rw [hr] at he
      cases he

theorem endsCleanly (h : s.Resting) (request : Request) : EndsCleanly p s request where
  not_cut_off top v ht hv := by
    have ⟨hr, hp, hf⟩ := visit?_resting h ht
    exact hv.fuel_ne_zero hp hr.chained hr.chain hf
  more_fuel top more ht := by
    have ⟨hr, hp, hf⟩ := visit?_resting h ht
    exact Visit.run_more_fuel (fun v hv => hv.fuel_ne_zero hp hr.chained hr.chain hf) more
  chained top t ht hd := by
    have ⟨hr, hp, _⟩ := visit?_resting h ht
    exact hd.chained hp hr.chained
  keeps top t ht hd := by
    have ⟨source, preprocessors, he, _⟩ := visit?_eq_some ht
    have hk : s.Keeps top.session := he ▸ Session.keeps_of_eq rfl rfl
    exact hk.trans (hd.keeps (visit?_resting h ht).2.1)
  kept := (run_traced h request).keeps
  failed source act e t hc he := by
    cases request
    case scopePlain =>
      cases hc
      have hs : { s with preprocessors := [] }.Resting := h.of_eq h.keyed rfl rfl rfl rfl
      rw [scopePlain_on] at he
      rcases hp : (SessionM.scope p source).on { s with preprocessors := [] } with ⟨e | r, u⟩
      all_goals
        rw [hp] at he
        cases he
      have := scope_error hs hp
      exact this
    case scope =>
      cases hc
      exact scope_error h he
    all_goals cases hc

-- A file that has a result is not in any set of files that always take classes from one another.
theorem not_done_of_closed {requests : List Request} (h : s.Resting) (he : ∀ q, s.resultOf q = none)
    {C : String → Prop}
    (hC : ∀ v text, Visited p s requests v → C v.path → v.Opens p text →
      ∃ target, C target ∧ v.Names p text target)
    {q : String} (hf : (runAll p s requests).Founded q) : ¬C q := by
  induction hf
  case mk q r hr _ ih =>
    intro hq
    rcases runAll_origin h hr with hs | ⟨v, hv, rfl, ⟨text, ho⟩, hres, hk⟩
    · simp [he] at hs
    · have ⟨target, ht, hn⟩ := hC v text hv hq ho
      have ⟨record, hm, hpath⟩ := hn.imported (hv.proper h) ho hres
      have hdone : (v.run p).2.resultOf v.path = some r := Visit.resultOf_run (by rw [← hres])
      refine ih record ?_ (hpath ▸ ht)
      rwa [(hk _ _ hdone).2]

end Request

-- Whatever was asked of a session, calls end and leave no trace of cycles. The files on a cycle, with
-- those that depend on one, are a set of which each text that is scoped takes classes from a member:
-- none of them gets a result.
theorem cycles_leave_no_trace (p : Project) (arch : String) (requests : List Request) :
    let start := Session.start (.ofSettings p.settings arch) []
    let s := Request.runAll p start requests
    s.Settled ∧ (∀ request, Request.EndsCleanly p s request) ∧
      ∀ C : String → Prop,
        (∀ v text, Request.Visited p start requests v → C v.path → v.Opens p text →
          ∃ target, C target ∧ v.Names p text target) →
        ∀ q, C q → s.resultOf q = none := by
  intro start s
  have hstart : start.Resting := .start (Registry.keyed_ofSettings p.settings arch)
  have hs : s.Resting := Request.runAll_resting hstart requests
  refine ⟨hs.settled, Request.endsCleanly hs, fun C hC q hq => ?_⟩
  by_contra hr
  have ⟨r, hr⟩ := Option.ne_none_iff_exists'.1 hr
  exact Request.not_done_of_closed hstart (fun _ => rfl) hC (hs.grounded q r hr) hq

end ScopedCss
