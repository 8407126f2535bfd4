/-
# Type paths

The full name of a declared type: the segments of its namespace and its own name.  A path is
written with dots between the segments, and reading undoes writing as long as no segment
holds a dot.
-/

namespace Interop.Model

/-- The full name of a declared type. -/
structure TypePath where
  /-- The segments of the namespace, outermost first. -/
  scope : List String
  name : String
deriving DecidableEq

namespace TypePath

/-- The segments of the namespace, then the name. -/
def segments (p : TypePath) : List String := p.scope ++ [p.name]

/-- The path with the given segments, the last of which is the name. -/
def ofSegments (segments : List String) : TypePath :=
  ⟨segments.dropLast, segments.getLastD ""⟩

/-- A path as it is written. -/
def dotted (p : TypePath) : String := ".".intercalate p.segments

/-- Reads a path; between two dots in a row there is an empty segment. -/
def ofDotted (s : String) : TypePath :=
  ofSegments ((s.toList.splitOn '.').map String.ofList)

@[simp]
theorem ofSegments_segments (p : TypePath) : ofSegments p.segments = p := by
  simp [ofSegments, segments]

end TypePath

end Interop.Model
