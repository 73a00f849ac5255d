import Mathlib.Data.List.Induction
import ScopedCss.SortedDict

namespace ScopedCss

theorem eraseDups_append_singleton {α : Type} [BEq α] [LawfulBEq α] (l : List α) (a : α) :
    (l ++ [a]).eraseDups = if a ∈ l then l.eraseDups else l.eraseDups ++ [a] := by
  rw [List.eraseDups_append]
  by_cases h : a ∈ l
  case pos => simp [List.removeAll, h]
  case neg => simp [List.removeAll, h, List.eraseDups_cons]

namespace Dict

variable {α β : Type} {k : String} {v w : α}

@[simp]
theorem contains_insert (d : Dict α) (k j : String) (v : α) :
    (d.insert k v).contains j = (decide (j = k) || d.contains j) := by
  by_cases h : j = k <;> simp [contains, h]

theorem size_le_insert (d : Dict α) (k : String) (v : α) : d.size ≤ (d.insert k v).size := by
  have h : (d.insert k v).keys.length = (d.insert k v).size := List.length_map _
  rw [← h, keys_insert]
  split <;> simp [keys, size]

theorem mem_keys_of_get? {d : Dict α} (h : d.get? k = some v) : k ∈ d.keys := by
  unfold get? at h
  have ⟨_, _, he, _⟩ := List.lookup_eq_some_iff.1 h
  simp [keys, he]

theorem get?_of_mem_keys {d : Dict α} (h : k ∈ d.keys) : ∃ v, d.get? k = some v := by
  refine Option.isSome_iff_exists.1 ?_
  have ⟨entry, hm, hk⟩ := List.mem_map.1 h
  exact List.lookup_isSome_iff.2 ⟨entry, hm, by simp [hk]⟩

theorem contains_iff_mem_keys {d : Dict α} : d.contains k = true ↔ k ∈ d.keys := by
  refine ⟨fun h => ?_, fun h => Option.isSome_iff_exists.2 (get?_of_mem_keys h)⟩
  have ⟨_, hv⟩ := Option.isSome_iff_exists.1 h
  exact mem_keys_of_get? hv

theorem get?_eq_none_iff {d : Dict α} : d.get? k = none ↔ k ∉ d.keys := by
  rw [← contains_iff_mem_keys, contains, Option.not_isSome_iff_eq_none]

-- A key that has a value keeps its place.
theorem keys_insert_of_get? {d : Dict α} (h : d.get? k = some v) : (d.insert k w).keys = d.keys := by
  rw [keys_insert, if_pos (mem_keys_of_get? h)]

theorem get?_mapValues (f : String → α → β) (d : Dict α) (k : String) :
    (d.mapValues f).get? k = (d.get? k).map (f k) := by
  unfold get? mapValues
  dsimp only
  induction d.entries
  case nil => rfl
  case cons entry entries ih =>
    have ⟨key, value⟩ := entry
    rw [List.map_cons, lookup_cons, lookup_cons, ih]
    by_cases hk : k = key
    case pos => simp [hk]
    case neg => simp [hk]

theorem keys_mapValues (f : String → α → β) (d : Dict α) : (d.mapValues f).keys = d.keys := by
  simp [keys, mapValues, Function.comp_def]

theorem size_mapValues (f : String → α → β) (d : Dict α) : (d.mapValues f).size = d.size :=
  List.length_map _

theorem contains_mapValues (f : String → α → β) (d : Dict α) (k : String) :
    (d.mapValues f).contains k = d.contains k := by
  rw [contains, get?_mapValues, Option.isSome_map, contains]

theorem mapValues_insert (f : α → β) (d : Dict α) (k : String) (v : α) :
    (d.insert k v).mapValues (fun _ => f) = (d.mapValues fun _ => f).insert k (f v) := by
  have hput (l : List (String × α)) : (put k v l).map (fun entry => (entry.1, f entry.2)) =
      put k (f v) (l.map fun entry => (entry.1, f entry.2)) := by
    induction l
    case nil => rfl
    case cons entry l ih =>
      rw [List.map_cons, put, put]
      split
      case isTrue  => rfl
      case isFalse => rw [List.map_cons, ih]
  exact ext (hput d.entries)

-- All entries of one map are entries of another.
def Within (d e : Dict α) : Prop :=
  ∀ k v, d.get? k = some v → e.get? k = some v

theorem Within.refl (d : Dict α) : d.Within d :=
  fun _ _ h => h

theorem Within.trans {d e f : Dict α} (h : d.Within e) (h' : e.Within f) : d.Within f :=
  fun k v hk => h' k v (h k v hk)

theorem within_erase (d : Dict α) (k : String) : (d.erase k).Within d := by
  intro j v hj
  rw [get?_erase] at hj
  split at hj
  case isTrue  => cases hj
  case isFalse => exact hj

theorem put_of_not_mem (v : α) {l : List (String × α)} (h : k ∉ l.map Prod.fst) :
    put k v l = l ++ [(k, v)] := by
  induction l
  case nil => rfl
  case cons entry l ih =>
    rw [List.map_cons, List.mem_cons, not_or] at h
    rw [put, if_neg (Ne.symm h.1), ih h.2]
    rfl

theorem ofList_entries (d : Dict α) : ofList d.entries = d := by
  have hfold (l : List (String × α)) (acc : Dict α) (h : ((acc.entries ++ l).map Prod.fst).Nodup) :
      (l.foldl (fun d (k, v) => d.insert k v) acc).entries = acc.entries ++ l := by
    induction l generalizing acc
    case nil => simp
    case cons entry l ih =>
      have hk : entry.1 ∉ acc.entries.map Prod.fst := by
        rw [List.map_append, List.map_cons] at h
        exact fun hm => (List.nodup_append.1 h).2.2 _ hm _ (.head _) rfl
      have hinsert : (acc.insert entry.1 entry.2).entries = acc.entries ++ [entry] := put_of_not_mem entry.2 hk
      rw [List.foldl_cons, ih, hinsert, List.append_assoc, List.singleton_append]
      rwa [hinsert, List.append_assoc, List.singleton_append]
  exact ext (hfold d.entries ∅ d.nodup)

theorem ofList_append_singleton (l : List (String × α)) (entry : String × α) :
    ofList (l ++ [entry]) = (ofList l).insert entry.1 entry.2 := by
  rw [ofList, List.foldl_append]
  rfl

-- A key stands where it came first, ...
theorem keys_ofList (l : List (String × α)) : (ofList l).keys = (l.map Prod.fst).eraseDups := by
  induction l using List.reverseRecOn
  case nil => rfl
  case append_singleton l entry ih =>
    rw [ofList_append_singleton, keys_insert, ih, List.map_append, List.map_singleton, eraseDups_append_singleton]
    simp only [List.mem_eraseDups]

-- ... with the value that came last.
theorem get?_ofList (l : List (String × α)) (k : String) : (ofList l).get? k = l.reverse.lookup k := by
  induction l using List.reverseRecOn
  case nil => rfl
  case append_singleton l entry ih =>
    rw [ofList_append_singleton, get?_insert, ih, List.reverse_concat, lookup_cons]

end Dict

namespace SortedDict

variable {α : Type} {d : SortedDict α} {k : String} {v : α}

theorem mem_entries_of_get? (h : d.get? k = some v) : (k, v) ∈ d.entries := by
  have ⟨_, _, he, _⟩ := List.lookup_eq_some_iff.1 h
  simp [he]

theorem get?_of_mem_entries (h : (k, v) ∈ d.entries) : d.get? k = some v := by
  have hlookup (l : List (String × α)) (hs : l.Pairwise (·.1 < ·.1)) (h : (k, v) ∈ l) : l.lookup k = some v := by
    induction l
    case nil => cases h
    case cons entry l ih =>
      have ⟨hlt, hl⟩ := List.pairwise_cons.1 hs
      rw [Dict.lookup_cons]
      rcases List.mem_cons.1 h with rfl | h
      · rw [if_pos rfl]
      · rw [if_neg (String.ne_of_lt (hlt _ h)).symm]
        exact ih hl h
  exact hlookup d.entries d.sorted h

-- A map of what is known of some keys.
theorem get?_ofList_filterMap (f : String → Option α) (keys : List String) (k : String) :
    (ofList (keys.filterMap fun j => (f j).map (j, ·))).get? k = if k ∈ keys then f k else none := by
  unfold ofList
  induction keys using List.reverseRecOn
  case nil => simp
  case append_singleton keys j ih =>
    rw [List.filterMap_append, List.foldl_append]
    cases hf : f j
    case none =>
      simp only [List.filterMap_cons, hf, Option.map_none, List.filterMap_nil, List.foldl_nil, ih]
      by_cases hk : k = j <;> simp [hk, hf]
    case some =>
      simp only [List.filterMap_cons, hf, Option.map_some, List.filterMap_nil, List.foldl_cons,
        List.foldl_nil, get?_insert, ih]
      by_cases hk : k = j <;> simp [hk, hf]

theorem keys_nodup (d : SortedDict α) : d.keys.Nodup :=
  (List.pairwise_map.2 d.sorted).imp String.ne_of_lt

theorem put_of_lt (v : α) {l : List (String × α)} (h : ∀ entry ∈ l, entry.1 < k) :
    put k v l = l ++ [(k, v)] := by
  induction l
  case nil => rfl
  case cons entry l ih =>
    have hk := h entry (.head _)
    have hne : k ≠ entry.1 := fun he => String.lt_irrefl _ (he ▸ hk)
    rw [put, if_neg (String.lt_asymm hk), if_neg hne, ih fun entry hm => h entry (.tail _ hm)]
    rfl

theorem ofList_entries (d : SortedDict α) : ofList d.entries = d := by
  have hfold (l : List (String × α)) (acc : SortedDict α) (h : (acc.entries ++ l).Pairwise (·.1 < ·.1)) :
      (l.foldl (fun d (k, v) => d.insert k v) acc).entries = acc.entries ++ l := by
    induction l generalizing acc
    case nil => simp
    case cons entry l ih =>
      have hk (before) (hm : before ∈ acc.entries) : before.1 < entry.1 :=
        (List.pairwise_append.1 h).2.2 before hm entry (.head _)
      have hinsert : (acc.insert entry.1 entry.2).entries = acc.entries ++ [entry] := put_of_lt entry.2 hk
      rw [List.foldl_cons, ih, hinsert, List.append_assoc, List.singleton_append]
      rwa [hinsert, List.append_assoc, List.singleton_append]
  exact ext (hfold d.entries ∅ d.sorted)

end SortedDict

namespace PathSet

theorem get?_addAll (s : PathSet) (paths : List String) (q : String) :
    (s.addAll paths).get? q = if q ∈ paths then some () else s.get? q := by
  induction paths generalizing s
  case nil => simp [addAll]
  case cons path paths ih =>
    have hadd := ih (s.add path)
    rw [addAll] at hadd ⊢
    rw [List.foldl_cons, hadd]
    by_cases hq : q ∈ paths
    case pos => simp [hq]
    case neg => simp [hq, add]

theorem mem_keys {s : PathSet} {q : String} : q ∈ s.keys ↔ s.get? q = some () := by
  constructor
  case mp =>
    intro h
    have ⟨entry, hm, he⟩ := List.mem_map.1 h
    exact he ▸ SortedDict.get?_of_mem_entries hm
  case mpr => exact fun h => List.mem_map.2 ⟨_, SortedDict.mem_entries_of_get? h, rfl⟩

theorem mem_keys_addAll {s : PathSet} {paths : List String} {q : String} :
    q ∈ (s.addAll paths).keys ↔ q ∈ paths ∨ q ∈ s.keys := by
  rw [mem_keys, mem_keys, get?_addAll]
  by_cases hq : q ∈ paths <;> simp [hq]

theorem mem_of_mem_addAll {s : PathSet} {paths : List String} {q : String} (h : q ∈ (s.addAll paths).keys) :
    q ∈ paths ∨ q ∈ s.keys :=
  mem_keys_addAll.1 h

theorem mem_addAll (s : PathSet) {paths : List String} {q : String} (h : q ∈ paths) :
    q ∈ (s.addAll paths).keys :=
  mem_keys_addAll.2 (.inl h)

end PathSet

end ScopedCss
