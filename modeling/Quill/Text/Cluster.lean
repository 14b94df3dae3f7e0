import Quill.Text.Cluster.Classes
import Quill.Text.Lines

/-!
# Clusters

A text falls into clusters, each of them what a reader takes for one character: a letter with its
marks, a Hangul syllable spelled in parts, consonants tied into a conjunct, a flag, or pictographs
joined into one. Whether two neighbours belong together can hang on what stands before them, so the
cut goes from left to right and carries what has to be known of the text before it. Nothing is lost:
the clusters put together are the text.
-/

set_option autoImplicit false

namespace Quill.Text

/-- How far a sequence of joined pictographs has come. -/
inductive PictographState
  | none
  /-- A pictograph, and after it only what extends it. -/
  | begun
  /-- The same with a joiner at the end. -/
  | joined
deriving DecidableEq, Repr

/-- How far a conjunct has come. -/
inductive ConjunctState
  | none
  /-- A consonant, and after it only what extends it. -/
  | begun
  /-- The same with a linker among what extends it. -/
  | linked
deriving DecidableEq, Repr

/-- What the boundaries of the rest hang on. -/
structure ClusterState where
  last : ClusterClass
  /-- An odd number of halves of flags is at the end. -/
  oddRegional : Bool
  pictograph : PictographState
  conjunct : ConjunctState
deriving DecidableEq, Repr

namespace ClusterState

/-- The state before a text. -/
def start : ClusterState := ⟨.control, false, .none, .none⟩

/-- The sequence of pictographs after one more character. -/
def pictographAfter (s : ClusterState) : ClusterClass → PictographState
  | .pictograph => .begun
  | .extend => if s.pictograph = .begun then .begun else .none
  | .joiner => if s.pictograph = .begun then .joined else .none
  | _ => .none

/-- The conjunct after one more character. The non-joiner ends it. -/
def conjunctAfter (s : ClusterState) (c : Char) : ClusterClass → ConjunctState
  | .consonant => .begun
  | .extend | .joiner =>
    if c == '\u200C' || s.conjunct = .none then .none
    else if isLinker c then .linked
    else s.conjunct
  | _ => .none

/-- The state after one more character. -/
def next (s : ClusterState) (c : Char) : ClusterState :=
  let k := clusterClass c
  { last := k
    oddRegional := k == .regional && !(s.last == .regional && s.oddRegional)
    pictograph := s.pictographAfter k
    conjunct := s.conjunctAfter c k }

/-- The next character belongs to the cluster of the last. -/
def joins (s : ClusterState) (c : Char) : Bool :=
  match s.last, clusterClass c with
  | .carriageReturn, .newline => true
  | .carriageReturn, _ | .newline, _ | .control, _ => false
  | _, .carriageReturn | _, .newline | _, .control => false
  | .leading, .leading | .leading, .vowel | .leading, .openSyllable | .leading, .closedSyllable =>
    true
  | .openSyllable, .vowel | .vowel, .vowel | .openSyllable, .trailing | .vowel, .trailing => true
  | .closedSyllable, .trailing | .trailing, .trailing => true
  | _, .extend | _, .joiner | _, .spacing => true
  | .prepend, _ => true
  | _, .consonant => s.conjunct == .linked
  | .joiner, .pictograph => s.pictograph == .joined
  | .regional, .regional => s.oddRegional
  | _, _ => false

end ClusterState

/-- The clusters of what follows a text. -/
def clustersAfter (s : ClusterState) : List Char → List (List Char)
  | [] => []
  | [c] => [[c]]
  | c :: d :: cs =>
    if (s.next c).joins d then consFirst c (clustersAfter (s.next c) (d :: cs))
    else [c] :: clustersAfter (s.next c) (d :: cs)

/-- The clusters of a text, in order. -/
def clusters (cs : List Char) : List (List Char) := clustersAfter .start cs

theorem flatten_consFirst (c : Char) (parts : List (List Char)) :
    (consFirst c parts).flatten = c :: parts.flatten := by
  cases parts <;> simp [consFirst]

theorem flatten_clustersAfter (s : ClusterState) (cs : List Char) :
    (clustersAfter s cs).flatten = cs := by
  fun_induction clustersAfter s cs with
  | case1 => rfl
  | case2 => rfl
  | case3 s c d cs h ih => rw [flatten_consFirst, ih]
  | case4 s c d cs h ih => rw [List.flatten_cons, ih, List.singleton_append]

/-- No character is lost, added or moved. -/
theorem flatten_clusters (cs : List Char) : (clusters cs).flatten = cs :=
  flatten_clustersAfter .start cs

end Quill.Text
