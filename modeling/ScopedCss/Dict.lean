/-!
Maps from texts, in the order in which their keys were first inserted. A later value for a key
takes the key's old place.
-/

namespace ScopedCss

structure Dict (α : Type u) where
  entries : List (String × α)
  nodup : (entries.map Prod.fst).Nodup

namespace Dict

variable {α : Type u} {β : Type v}

@[ext]
theorem ext {d e : Dict α} (h : d.entries = e.entries) : d = e := by
  cases d; cases e; simp_all

instance [DecidableEq α] : DecidableEq (Dict α) := fun d e =>
  decidable_of_iff (d.entries = e.entries) ⟨ext, fun h => h ▸ rfl⟩

instance [Repr α] : Repr (Dict α) where
  reprPrec d n := reprPrec d.entries n

def empty : Dict α where
  entries := []
  nodup := .nil

instance : EmptyCollection (Dict α) := ⟨empty⟩

instance : Inhabited (Dict α) := ⟨empty⟩

def keys (d : Dict α) : List String :=
  d.entries.map Prod.fst

def size (d : Dict α) : Nat :=
  d.entries.length

def get? (d : Dict α) (k : String) : Option α :=
  d.entries.lookup k

def contains (d : Dict α) (k : String) : Bool :=
  (d.get? k).isSome

def put (k : String) (v : α) : List (String × α) → List (String × α)
  | [] => [(k, v)]
  | (j, w) :: l => if j = k then (k, v) :: l else (j, w) :: put k v l

theorem map_fst_put (k : String) (v : α) (l : List (String × α)) :
    (put k v l).map Prod.fst = if k ∈ l.map Prod.fst then l.map Prod.fst else l.map Prod.fst ++ [k] := by
  induction l with
  | nil => simp [put]
  | cons p l ih =>
    by_cases h : p.1 = k
    · simp [put, h]
    · simp only [put, h, ↓reduceIte, List.map_cons, ih, List.mem_cons, Ne.symm h, false_or]
      split <;> simp

def insert (d : Dict α) (k : String) (v : α) : Dict α where
  entries := put k v d.entries
  nodup := by
    rw [map_fst_put]
    split
    · exact d.nodup
    · rename_i h
      exact List.nodup_append.2 ⟨d.nodup, by simp, by intro a ha b hb; simp_all; grind⟩

theorem keys_insert (d : Dict α) (k : String) (v : α) :
    (d.insert k v).keys = if k ∈ d.keys then d.keys else d.keys ++ [k] :=
  map_fst_put ..

theorem lookup_cons (k j : String) (v : α) (l : List (String × α)) :
    ((k, v) :: l).lookup j = if j = k then some v else l.lookup j := by
  rw [List.lookup_cons]
  by_cases h : j = k
  · simp [h]
  · simp only [beq_false_of_ne h, h, ↓reduceIte]

theorem lookup_put (k j : String) (v : α) (l : List (String × α)) :
    (put k v l).lookup j = if j = k then some v else l.lookup j := by
  induction l with
  | nil => simp only [put, lookup_cons, List.lookup_nil]
  | cons p l ih => grind [put, lookup_cons]

@[simp]
theorem get?_insert (d : Dict α) (k j : String) (v : α) :
    (d.insert k v).get? j = if j = k then some v else d.get? j :=
  lookup_put ..

def erase (d : Dict α) (k : String) : Dict α where
  entries := d.entries.filter (·.1 ≠ k)
  nodup := d.nodup.sublist (List.filter_sublist.map _)

@[simp]
theorem get?_erase (d : Dict α) (k j : String) :
    (d.erase k).get? j = if j = k then none else d.get? j := by
  simp only [erase, get?]
  induction d.entries with
  | nil => simp
  | cons p l ih => grind [lookup_cons]

def ofList (l : List (String × α)) : Dict α :=
  l.foldl (fun d (k, v) => d.insert k v) ∅

def values (d : Dict α) : List α :=
  d.entries.map Prod.snd

/-- New values under the same keys. -/
def mapValues (f : String → α → β) (d : Dict α) : Dict β where
  entries := d.entries.map fun (k, v) => (k, f k v)
  nodup := by simpa [Function.comp_def] using d.nodup

@[simp]
theorem get?_empty (k : String) : (∅ : Dict α).get? k = none :=
  rfl

@[simp]
theorem keys_empty : (∅ : Dict α).keys = [] :=
  rfl

end Dict

end ScopedCss
