/-!
# Methods

The methods that strings and arrays have, by name. What they do is told apart from what they are
called, so that a value can name a method before any of them is defined.
-/

set_option autoImplicit false

namespace Quill

/-- The methods of strings. -/
inductive StringMethod
  | toLowerCase | toUpperCase | trim | startsWith | endsWith | includes | contains | indexOf
  | substring | replace | split
deriving DecidableEq, Repr

namespace StringMethod

def all : List StringMethod :=
  [.toLowerCase, .toUpperCase, .trim, .startsWith, .endsWith, .includes, .contains, .indexOf,
    .substring, .replace, .split]

def name : StringMethod → String
  | .toLowerCase => "toLowerCase"
  | .toUpperCase => "toUpperCase"
  | .trim => "trim"
  | .startsWith => "startsWith"
  | .endsWith => "endsWith"
  | .includes => "includes"
  | .contains => "contains"
  | .indexOf => "indexOf"
  | .substring => "substring"
  | .replace => "replace"
  | .split => "split"

end StringMethod

/-- The methods of arrays. -/
inductive ArrayMethod
  | push | pop | shift | unshift | reverse | indexOf | includes | slice | concat | join | flat
  | flatMap | forEach | map | filter | find | findIndex | someOf | every | reduce
deriving DecidableEq, Repr

namespace ArrayMethod

def all : List ArrayMethod :=
  [.push, .pop, .shift, .unshift, .reverse, .indexOf, .includes, .slice, .concat, .join, .flat,
    .flatMap, .forEach, .map, .filter, .find, .findIndex, .someOf, .every, .reduce]

def name : ArrayMethod → String
  | .push => "push"
  | .pop => "pop"
  | .shift => "shift"
  | .unshift => "unshift"
  | .reverse => "reverse"
  | .indexOf => "indexOf"
  | .includes => "includes"
  | .slice => "slice"
  | .concat => "concat"
  | .join => "join"
  | .flat => "flat"
  | .flatMap => "flatMap"
  | .forEach => "forEach"
  | .map => "map"
  | .filter => "filter"
  | .find => "find"
  | .findIndex => "findIndex"
  | .someOf => "some"
  | .every => "every"
  | .reduce => "reduce"

end ArrayMethod

/-- A method of either kind. -/
inductive Method
  | ofString (method : StringMethod)
  | ofArray (method : ArrayMethod)
deriving DecidableEq, Repr

/-- The name that a script calls it by. -/
def Method.name : Method → String
  | ofString method => method.name
  | ofArray method => method.name

/-- The methods that can be found by name. -/
structure MethodTable where
  strings : List StringMethod
  arrays : List ArrayMethod

namespace MethodTable

/-- The table with all methods. -/
def standard : MethodTable := ⟨StringMethod.all, ArrayMethod.all⟩

/-- The table without methods. -/
def empty : MethodTable := ⟨[], []⟩

/-- The method of strings under a name. -/
def ofString? (t : MethodTable) (name : String) : Option Method :=
  (t.strings.find? (·.name == name)).map .ofString

/-- The method of arrays under a name. -/
def ofArray? (t : MethodTable) (name : String) : Option Method :=
  (t.arrays.find? (·.name == name)).map .ofArray

end MethodTable

end Quill
