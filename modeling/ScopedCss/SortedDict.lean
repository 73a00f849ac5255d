import ScopedCss.Dict

/-!
Maps from texts whose keys are in order. A second value for a key replaces the first.
-/

namespace ScopedCss

structure SortedDict (α : Type u) where
  entries : List (String × α)
  sorted : entries.Pairwise (·.1 < ·.1)

namespace SortedDict

variable {α : Type u}

@[ext]
theorem ext {d e : SortedDict α} (h : d.entries = e.entries) : d = e := by
  cases d; cases e; simp_all

instance [DecidableEq α] : DecidableEq (SortedDict α) := fun d e =>
  decidable_of_iff (d.entries = e.entries) ⟨ext, fun h => h ▸ rfl⟩

instance [Repr α] : Repr (SortedDict α) where
  reprPrec d n := reprPrec d.entries n

def empty : SortedDict α where
  entries := []
  sorted := .nil

instance : EmptyCollection (SortedDict α) := ⟨empty⟩

instance : Inhabited (SortedDict α) := ⟨empty⟩

def keys (d : SortedDict α) : List String :=
  d.entries.map Prod.fst

def get? (d : SortedDict α) (k : String) : Option α :=
  d.entries.lookup k

def put (k : String) (v : α) : List (String × α) → List (String × α)
  | [] => [(k, v)]
  | (j, w) :: l =>
    if k < j then (k, v) :: (j, w) :: l
    else if k = j then (k, v) :: l
    else (j, w) :: put k v l

theorem mem_of_mem_put {k : String} {v : α} {l : List (String × α)} {p : String × α}
    (h : p ∈ put k v l) : p = (k, v) ∨ p ∈ l := by
  induction l with
  | nil => simpa [put] using h
  | cons q l ih => grind [put]

theorem lt_of_not_lt {j k : String} (h : ¬k < j) (hne : k ≠ j) : j < k  :=
  Decidable.byContradiction fun hn => hne (String.le_antisymm hn h)

theorem put_sorted (k : String) (v : α) {l : List (String × α)} (h : l.Pairwise (·.1 < ·.1)) :
    (put k v l).Pairwise (·.1 < ·.1) := by
  induction l with
  | nil => simp [put]
  | cons q l ih =>
    obtain ⟨hq, hl⟩ := List.pairwise_cons.1 h
    simp only [put]
    split
    · rename_i hk
      exact List.pairwise_cons.2 ⟨by
        intro p hp
        rcases List.mem_cons.1 hp with rfl | hp
        · exact hk
        · exact String.lt_trans hk (hq p hp), h⟩
    · split
      · rename_i he
        exact List.pairwise_cons.2 ⟨by intro p hp; exact he ▸ hq p hp, hl⟩
      · rename_i hk he
        refine List.pairwise_cons.2 ⟨?_, ih hl⟩
        intro p hp
        rcases mem_of_mem_put hp with rfl | hp
        · exact lt_of_not_lt hk he
        · exact hq p hp

def insert (d : SortedDict α) (k : String) (v : α) : SortedDict α where
  entries := put k v d.entries
  sorted := put_sorted k v d.sorted

theorem lookup_put (k j : String) (v : α) (l : List (String × α)) :
    (put k v l).lookup j = if j = k then some v else l.lookup j := by
  induction l with
  | nil => simp only [put, Dict.lookup_cons, List.lookup_nil]
  | cons p l ih => grind [put, Dict.lookup_cons]

@[simp]
theorem get?_insert (d : SortedDict α) (k j : String) (v : α) :
    (d.insert k v).get? j = if j = k then some v else d.get? j :=
  lookup_put ..

@[simp]
theorem get?_empty (k : String) : (∅ : SortedDict α).get? k = none :=
  rfl

def ofList (l : List (String × α)) : SortedDict α :=
  l.foldl (fun d (k, v) => d.insert k v) ∅

end SortedDict

/-- Sets of paths, in order. -/
abbrev PathSet := SortedDict Unit

namespace PathSet

def add (s : PathSet) (path : String) : PathSet :=
  s.insert path ()

def addAll (s : PathSet) (paths : List String) : PathSet :=
  paths.foldl add s

end PathSet

end ScopedCss
