import ScopedCss.Text.Cut

/-!
Paths as texts. Both slashes separate segments, so that a path written on either platform can be
taken apart; canonical paths have forward slashes only.

In the canonical form of a path there are forward slashes, no empty and no `.` segment, and each
`..` is taken together with the segment before it. At the root `..` is dropped; a relative path
keeps the ones it begins with.
-/

namespace ScopedCss.Path

def isSeparator (c : Char) : Bool :=
  c == '/' || c == '\\'

def forwardSlashes (path : String) : String :=
  .ofList (path.toList.map fun c => if c = '\\' then '/' else c)

/-- The last segment, trailing forward slashes aside. -/
def basename (path : String) : String :=
  .ofList (Text.takeWhileEnd (!isSeparator ·) (Text.dropWhileEnd (· == '/') path.toList))

/-- A path taken from a folder on; a path from the root stays as it is. -/
def join (folder path : String) : String :=
  if path.toList.head? = some '/' then path
  else if folder.toList.getLast? = some '/' then folder ++ path
  else folder ++ "/" ++ path

/-- What precedes the last separator: `.` if there is none, `/` if nothing precedes it. -/
def dirname (path : String) : String :=
  match Text.cutLast? isSeparator path.toList with
  | none => "."
  | some ([], _, _) => "/"
  | some (dir, _, _) => .ofList dir

/-- The last segment cut in front of its last dot; a dot in first place starts no extension. -/
def splitExtension (path : String) : String × String :=
  match Text.cutLast? (· == '.') (basename path).toList with
  | none | some ([], _, _) => (basename path, "")
  | some (stem, dot, rest) => (.ofList stem, .ofList (dot :: rest))

def stem (path : String) : String :=
  (splitExtension path).1

def extension (path : String) : String :=
  (splitExtension path).2

theorem stem_append_extension (path : String) : stem path ++ extension path = basename path := by
  simp only [stem, extension, splitExtension, Text.cutLast?]
  split
  · simp
  · simp
  · rename_i s d r _ h
    simp only [Option.map_eq_some_iff] at h
    obtain ⟨⟨l, c, t⟩, hc, he⟩ := h
    have := (Text.eq_of_cut? hc).1
    simp only [Prod.mk.injEq] at he
    obtain ⟨rfl, rfl, rfl⟩ := he
    apply String.toList_inj.1
    rw [← List.reverse_reverse (basename path).toList, this]
    simp

/-- Absolute on either platform: a leading slash of either kind, or a drive letter. -/
def isAbsolute (path : String) : Bool :=
  match path.toList with
  | c :: d :: _ => isSeparator c || (c.isAlpha && d == ':')
  | [c] => isSeparator c
  | [] => false

abbrev Segment := List Char

/-- One more segment at the end of a collapsed path. `stack` holds the segments so far, last first. -/
def pushSegment (rooted : Bool) (stack : List Segment) (s : Segment) : List Segment :=
  if s = [] ∨ s = ['.'] then
    stack
  else if s = ['.', '.'] then
    match stack with
    | [] => if rooted then [] else [s]
    | top :: below => if top = ['.', '.'] then s :: stack else below
  else
    s :: stack

def collapse (rooted : Bool) (segments : List Segment) : List Segment :=
  (segments.foldl (pushSegment rooted) []).reverse

def isRooted (path : String) : Bool :=
  path.toList.head? == some '/'

def segments (path : String) : List Segment :=
  Text.splitWhere (· == '/') path.toList

/-- A path is written with single slashes; the empty relative path is `.`. -/
def ofSegments (rooted : Bool) (segments : List Segment) : String :=
  if rooted then
    .ofList ('/' :: Text.join ['/'] segments)
  else if segments = [] then
    "."
  else
    .ofList (Text.join ['/'] segments)

def clean (path : String) : String :=
  let path := forwardSlashes path
  ofSegments (isRooted path) (collapse (isRooted path) (segments path))

theorem pushSegment_mem {rooted : Bool} {stack : List Segment} {s t : Segment}
    (h : t ∈ pushSegment rooted stack s) : t ∈ stack ∨ (t = s ∧ s ≠ [] ∧ s ≠ ['.']) := by
  unfold pushSegment at h
  split at h
  · exact .inl h
  · rename_i hs
    rw [not_or] at hs
    split at h
    · split at h
      · split at h <;> simp_all
      · split at h <;> simp_all
    · rcases List.mem_cons.1 h with rfl | h
      · exact .inr ⟨rfl, hs⟩
      · exact .inl h

end ScopedCss.Path
