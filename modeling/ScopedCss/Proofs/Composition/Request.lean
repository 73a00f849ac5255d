import ScopedCss.Proofs.Composition.Imports

namespace ScopedCss

-- A file with the result of its scoping.
def Source.scopedAs (source : Source) (p : Project) (r : ScopedModule) : Source :=
  { source with
    contents := r.css
    tokens := some (SessionM.exportTokens p r.tokens)
    sourceMap := r.sourceMap
    imports := r.imports
    references := source.references.addAll r.importTree
    isScoped := true }

-- The call that scopes a file of its own.
def Visit.top (p : Project) (s : Session) (source : Source) : Visit where
  fuel     := SessionM.maxChain p s
  path     := source.path
  contents := some source.contents
  session  := s

namespace Session

-- A session between two calls.
structure Resting (s : Session) : Prop where
  keyed     : s.registry.Keyed
  chain     : s.chain = []
  pending   : ∀ q, s.slots.get? q ≠ some .pending
  grounded  : s.Grounded
  nodup     : s.completed.Nodup
  completed : ∀ q ∈ s.completed, s.slots.get? q ≠ none

namespace Resting

variable {p : Project} {s t : Session} {source : Source}

theorem start {registry : Registry} {preprocessors : List Preprocessor} (h : registry.Keyed) :
    (Session.start registry preprocessors).Resting where
  keyed        := h
  chain        := rfl
  pending      := by simp [Session.start]
  grounded q r := by simp [resultOf, Session.start]
  nodup        := .nil
  completed    := by simp [Session.start]

theorem chained (h : s.Resting) : s.Chained where
  pending q := by simp [h.chain, h.pending q]
  nodup     := by simp [h.chain]

theorem proper (h : s.Resting) : (Visit.top p s source).Proper where
  keyed        := h.keyed
  canonical hc := by simp [Visit.top] at hc

theorem of_eq (h : s.Resting) (hk : t.registry.Keyed) (hs : t.slots = s.slots)
    (hi : t.imports = s.imports) (hc : t.chain = s.chain) (hd : t.completed = s.completed) :
    t.Resting where
  keyed     := hk
  chain     := hc.trans h.chain
  pending   := hs ▸ h.pending
  grounded  := by
    refine h.grounded.keeps (keeps_of_eq hs hi) fun q r hq => .inl ⟨r, ?_⟩
    simpa [resultOf, hs] using hq
  nodup     := hd ▸ h.nodup
  completed := by
    rw [hd, hs]
    exact h.completed

theorem run (h : s.Resting) : ((Visit.top p s source).run p).2.Resting := by
  have hl : s.Later p ((Visit.top p s source).run p).2 := Visit.run_later h.proper
  refine ⟨hl.keyed h.keyed, hl.chain.trans h.chain, fun q hq => h.pending q (hl.pending q hq),
    Visit.run_grounded h.proper h.grounded, ?_, ?_⟩
  all_goals have ⟨new, he, hn, hm⟩ := hl.completed
  · rw [he]
    refine List.nodup_append.2 ⟨h.nodup, hn, fun q hq q' hq' he => ?_⟩
    exact h.completed q hq (he ▸ (hm q' hq').1)
  · intro q hq
    rw [he] at hq
    rcases List.mem_append.1 hq with hq | hq
    · exact hl.taken (h.completed q hq)
    · exact (hm q hq).2

end Resting

end Session

namespace SessionM

variable {p : Project} {s : Session} {source : Source}

def isLeft (p : Project) (source : Source) : Bool :=
  passesThrough p source.path || source.isScoped

theorem scope_on :
    (scope p source).on s =
      if isLeft p source then
        (.ok source, s)
      else
        match (Visit.top p s source).run p with
        | (.error e, t) =>
          (.error e, { t with log := t.log ++ LogEntry.banner .modules source.path e })
        | (.ok r, t) =>
          (.ok (source.scopedAs p r), { t with registry := t.registry.insert (source.scopedAs p r) }) := by
  unfold scope isLeft
  split
  case isTrue => rfl
  case isFalse =>
    rw [on_bind_ok (on_get s)]
    dsimp only
    rw [on_bind_ok (on_attempt ..)]
    have hr : (scopeFile p (SessionM.maxChain p s) source.path (some source.contents)).on s =
      (Visit.top p s source).run p := rfl
    rw [hr]
    rcases (Visit.top p s source).run p with ⟨e | r, t⟩ <;> rfl

theorem scopePlain_on :
    (scopePlain p source).on s =
      (((scope p source).on { s with preprocessors := [] }).1,
        { ((scope p source).on { s with preprocessors := [] }).2 with
          preprocessors := s.preprocessors }) := by
  unfold scopePlain
  rw [on_bind_ok (on_get s)]
  dsimp only
  rw [on_bind_ok (on_modify ..), on_bind_ok (on_attempt ..), on_bind_ok (on_modify ..), on_liftExcept]

end SessionM

-- What can be asked of a session from outside.
inductive Request
  | insert (source : Source)
  | load (path : String)
  | equip (preprocessors : List Preprocessor)
  | render (index : Nat) (source : Source)
  | scopePlain (source : Source)
  | scope (source : Source)

namespace Request

open SessionM

def run (p : Project) (s : Session) : Request → Session
  | insert source       => { s with registry := s.registry.insert source }
  | load path           =>
    match s.registry.fetch p.disk path with
    | .ok (_, registry) => { s with registry }
    | .error _          => s
  | equip preprocessors => { s with preprocessors }
  | render index source => ((SessionM.render p index source).on s).2
  | scopePlain source   => ((SessionM.scopePlain p source).on s).2
  | scope source        => ((SessionM.scope p source).on s).2

def runAll (p : Project) : Session → List Request → Session
  | s, []              => s
  | s, request :: rest => runAll p (request.run p s) rest

-- The call that a request makes, if any.
def visit? (p : Project) (s : Session) : Request → Option Visit
  | scopePlain source => if isLeft p source then none else some (.top p { s with preprocessors := [] } source)
  | scope source      => if isLeft p source then none else some (.top p s source)
  | _                 => none

-- The calls that are made for requests, one after another.
inductive Visited (p : Project) : Session → List Request → Visit → Prop
  | here {s : Session} {request : Request} {rest : List Request} {top v : Visit} :
    request.visit? p s = some top → Visit.Within p top v → Visited p s (request :: rest) v
  | later {s : Session} {request : Request} {rest : List Request} {v : Visit} :
    Visited p (request.run p s) rest v → Visited p s (request :: rest) v

variable {p : Project} {s : Session} {source : Source}

theorem scope_resting (h : s.Resting) : ((SessionM.scope p source).on s).2.Resting := by
  rw [scope_on]
  split
  case isTrue => exact h
  case isFalse =>
    have hr : ((Visit.top p s source).run p).2.Resting := h.run
    generalize (Visit.top p s source).run p = result at hr
    rcases result with ⟨e | r, t⟩
    · exact hr.of_eq hr.keyed rfl rfl rfl rfl
    · exact hr.of_eq (hr.keyed.insert _) rfl rfl rfl rfl

theorem run_resting (h : s.Resting) (request : Request) : (request.run p s).Resting := by
  cases request
  case insert source => exact h.of_eq (h.keyed.insert source) rfl rfl rfl rfl
  case load path =>
    simp only [run]
    split
    case h_1 hf =>
      have hl : s.registry.Later p.disk (fun _ => True) _ := (Registry.fetch_later hf).1
      exact h.of_eq (hl.keyed h.keyed) rfl rfl rfl rfl
    case h_2 => exact h
  case equip => exact h.of_eq h.keyed rfl rfl rfl rfl
  case render index source =>
    simp only [run]
    rw [render_on]
    cases s.preprocessors[index]?
    case none => exact h
    case some => exact h.of_eq (Preprocessor.render_keyed h.keyed) rfl rfl rfl rfl
  case scopePlain source =>
    have hs : { s with preprocessors := [] }.Resting := h.of_eq h.keyed rfl rfl rfl rfl
    have hr : ((SessionM.scope p source).on { s with preprocessors := [] }).2.Resting := scope_resting hs
    simp only [run]
    rw [scopePlain_on]
    exact hr.of_eq hr.keyed rfl rfl rfl rfl
  case scope => exact scope_resting h

theorem runAll_resting (h : s.Resting) (requests : List Request) : (runAll p s requests).Resting := by
  induction requests generalizing s
  case nil => exact h
  case cons request requests ih => exact ih (run_resting h request)

-- The results after a request were there before, or a call that it made ended with them.
structure Traced (p : Project) (s : Session) (request : Request) (t : Session) : Prop where
  keeps  : s.Keeps t
  origin : ∀ q r, t.resultOf q = some r → s.resultOf q = some r ∨
    ∃ top v, request.visit? p s = some top ∧ Visit.Within p top v ∧ Visit.Yields p v q r t

theorem Traced.of_eq {request : Request} {t : Session} (hs : t.slots = s.slots)
    (hi : t.imports = s.imports) : Traced p s request t where
  keeps         := Session.keeps_of_eq hs hi
  origin q r hr := .inl <| by simpa [Session.resultOf, hs] using hr

theorem Traced.of_top {request : Request} {u t : Session} (hu : u.Resting) (hk : s.Keeps u)
    (hr : ∀ q, u.resultOf q = s.resultOf q) (hv : request.visit? p s = some (.top p u source))
    (hs : t.slots = ((Visit.top p u source).run p).2.slots)
    (hi : t.imports = ((Visit.top p u source).run p).2.imports) : Traced p s request t where
  keeps         := (hk.trans (Visit.run_later hu.proper).keeps).trans (Session.keeps_of_eq hs hi)
  origin q r hq := by
    replace hq : ((Visit.top p u source).run p).2.resultOf q = some r := by
      simpa [Session.resultOf, hs] using hq
    refine (Visit.run_origin hu.proper q r hq).imp (hr q ▸ ·) fun hcall => ?_
    obtain ⟨w, hw, hy⟩ := hcall
    exact ⟨_, w, hv, hw, hy.later (Session.keeps_of_eq hs hi)⟩

theorem scope_left (h : isLeft p source = true) : (SessionM.scope p source).on s = (.ok source, s) := by
  rw [scope_on, if_pos h]

theorem scope_files (h : isLeft p source = false) :
    ((SessionM.scope p source).on s).2.slots = ((Visit.top p s source).run p).2.slots ∧
      ((SessionM.scope p source).on s).2.imports = ((Visit.top p s source).run p).2.imports := by
  rw [scope_on, h]
  rcases (Visit.top p s source).run p with ⟨e | r, t⟩ <;> exact ⟨rfl, rfl⟩

theorem run_traced (h : s.Resting) (request : Request) : Traced p s request (request.run p s) := by
  cases request
  case load path =>
    simp only [run]
    split <;> exact .of_eq rfl rfl
  case render index source =>
    simp only [run]
    rw [render_on]
    cases s.preprocessors[index]? <;> exact .of_eq rfl rfl
  case scopePlain source =>
    simp only [run, scopePlain_on]
    cases hl : isLeft p source
    case true =>
      rw [scope_left hl]
      exact .of_eq rfl rfl
    case false =>
      have hu : { s with preprocessors := [] }.Resting := h.of_eq h.keyed rfl rfl rfl rfl
      have ⟨hs, hi⟩ := scope_files (p := p) (s := { s with preprocessors := [] }) hl
      exact .of_top hu (Session.keeps_of_eq rfl rfl) (fun _ => rfl) (by simp [visit?, hl]) hs hi
  case scope source =>
    simp only [run]
    cases hl : isLeft p source
    case true =>
      rw [scope_left hl]
      exact .of_eq rfl rfl
    case false =>
      have ⟨hs, hi⟩ := scope_files (p := p) (s := s) hl
      exact .of_top h (.refl s) (fun _ => rfl) (by simp [visit?, hl]) hs hi
  all_goals exact .of_eq rfl rfl

theorem runAll_keeps (h : s.Resting) (requests : List Request) : s.Keeps (runAll p s requests) := by
  induction requests generalizing s
  case nil => exact .refl s
  case cons request requests ih =>
    exact (run_traced h request).keeps.trans (ih (run_resting h request))

theorem runAll_origin (h : s.Resting) {requests : List Request} {q : String} {r : ScopedModule}
    (hr : (runAll p s requests).resultOf q = some r) :
    s.resultOf q = some r ∨
      ∃ v, Visited p s requests v ∧ Visit.Yields p v q r (runAll p s requests) := by
  induction requests generalizing s
  case nil => exact .inl hr
  case cons request requests ih =>
    have hn := run_resting (p := p) h request
    rcases ih hn hr with hr | ⟨v, hv, hy⟩
    · have htr := run_traced (p := p) h request
      refine (htr.origin q r hr).imp id fun ⟨top, v, ht, hv, hy⟩ => ?_
      exact ⟨v, .here ht hv, hy.later (runAll_keeps hn requests)⟩
    · exact .inr ⟨v, .later hv, hy⟩

theorem visit?_eq_some {request : Request} {top : Visit} (h : request.visit? p s = some top) :
    ∃ source preprocessors, top = .top p { s with preprocessors } source ∧ isLeft p source = false := by
  cases request
  case scopePlain source =>
    simp only [visit?, Option.ite_none_left_eq_some, Option.some.injEq, Bool.not_eq_true] at h
    exact ⟨source, [], h.2.symm, h.1⟩
  case scope source =>
    simp only [visit?, Option.ite_none_left_eq_some, Option.some.injEq, Bool.not_eq_true] at h
    exact ⟨source, s.preprocessors, h.2.symm, h.1⟩
  all_goals simp [visit?] at h

theorem visit?_resting (h : s.Resting) {request : Request} {top : Visit}
    (ht : request.visit? p s = some top) :
    top.session.Resting ∧ top.Proper ∧ SessionM.maxChain p top.session ≤ top.fuel := by
  have ⟨source, preprocessors, he, _⟩ := visit?_eq_some ht
  have hr : { s with preprocessors }.Resting := h.of_eq h.keyed rfl rfl rfl rfl
  exact he ▸ ⟨hr, hr.proper, le_refl _⟩

theorem visit?_keeps {request : Request} {top : Visit} (ht : request.visit? p s = some top) :
    (top.run p).2.Keeps (request.run p s) := by
  cases request
  case scopePlain source =>
    simp only [visit?, Option.ite_none_left_eq_some, Option.some.injEq, Bool.not_eq_true] at ht
    have ⟨hs, hi⟩ := scope_files (s := { s with preprocessors := [] }) ht.1
    simp only [run, scopePlain_on]
    exact ht.2 ▸ Session.keeps_of_eq hs hi
  case scope source =>
    simp only [visit?, Option.ite_none_left_eq_some, Option.some.injEq, Bool.not_eq_true] at ht
    have ⟨hs, hi⟩ := scope_files (s := s) ht.1
    exact ht.2 ▸ Session.keeps_of_eq hs hi
  all_goals simp [visit?] at ht

theorem Visited.proper {requests : List Request} {v : Visit} (hv : Visited p s requests v)
    (h : s.Resting) : v.Proper := by
  induction hv
  case here ht hw => exact hw.proper (visit?_resting h ht).2.1
  case later ih => exact ih (run_resting h _)

-- What calls leave behind is still there after all requests.
theorem Visited.run_keeps {requests : List Request} {v : Visit} (hv : Visited p s requests v)
    (h : s.Resting) : (v.run p).2.Keeps (runAll p s requests) := by
  induction hv
  case later ih => exact ih (run_resting h _)
  case here s request rest top v ht hw =>
    have hk := runAll_keeps (p := p) (run_resting (p := p) h request) rest
    exact ((hw.run_keeps (visit?_resting h ht).2.1).trans (visit?_keeps ht)).trans hk

end Request

end ScopedCss
