import EcmaScript.Feature.Basic

/-!
# Sets of features

A `FeatureSet` lists its members once each, in the order of `Feature.all`. Sets only grow.
-/

namespace EcmaScript

/-- A set of features. -/
structure FeatureSet where
  /-- The members in the order of their rank. -/
  members : List Feature := []
  deriving DecidableEq, Repr, Inhabited

namespace FeatureSet

/-- The set without members. -/
def empty : FeatureSet := ⟨[]⟩

def contains (s : FeatureSet) (f : Feature) : Bool := s.members.contains f

/-- Puts `f` before the first member of a higher rank. -/
def insertRanked (f : Feature) : List Feature → List Feature
  | [] => [f]
  | g :: rest => if f.rank < g.rank then f :: g :: rest else g :: insertRanked f rest

/-- The set with `f` as a further member. -/
def insert (s : FeatureSet) (f : Feature) : FeatureSet :=
  if s.contains f then s else ⟨insertRanked f s.members⟩

/-- The set of the listed features. -/
def ofList (fs : List Feature) : FeatureSet := fs.foldl insert empty

/-- Every feature that an edition accepts. -/
def ofEdition (e : Edition) : FeatureSet :=
  ⟨Feature.all.filter fun f => f.minimumEdition ≤ e⟩

def size (s : FeatureSet) : Nat := s.members.length

def isEmpty (s : FeatureSet) : Bool := s.members.isEmpty

/-- Whether `s` has every member of `t`. -/
def containsAll (s t : FeatureSet) : Bool := t.members.all s.contains

/-- Whether `s` has every member of `t` and more. -/
def strictSuperset (s t : FeatureSet) : Bool := s.containsAll t && decide (t.size < s.size)

/-- The oldest edition that accepts every member. -/
def minimumEdition (s : FeatureSet) : Edition :=
  s.members.foldl (fun e f => e.newer f.minimumEdition) .es3

end FeatureSet

end EcmaScript
