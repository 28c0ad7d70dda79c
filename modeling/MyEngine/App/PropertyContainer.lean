import MyEngine.Serialization.RuntimeValue

/-!
# App — PropertyContainer

`PropertyContainerImpl` of `property_container_impl.cpp`: a tree of properties that is read and
written by paths, and whose strings refer to other properties by `$` and braces.

* `findValueAtPath`, `getDictionaryAtPath`, `set`: the walks over the tree.
* `regexSearch`, `expandConfigString`: the references in a string.
* `transformString`: expansion reads properties, and reading a string expands it; how deep the calls
  may be nested is given as fuel.
-/

namespace MyEngine.App

open Serialization Support

/-! ### Paths -/

/-- `strings::Split` by slashes. -/
def split (str : Text) : List Text := if str = [] then [] else str.splitOn '/'

/-- The names on a path; the loops over `Split` skip empty ones. -/
def names (path : Text) : List Text := (split path).filter (· ≠ [])

/-- `std::string_view::rfind`. -/
@[grind =] def rfind (c : Char) : Text → Option Nat
  | []       => none
  | d :: str =>
      match rfind c str with
      | some pos => some (pos + 1)
      | none     => if d = c then some 0 else none

/-- The path of the parent and the name of the property. -/
def splitPropertyPath (propertyPath : Text) : Text × Text :=
  match rfind '/' propertyPath with
  | none     => (['/'], propertyPath)
  | some pos => (propertyPath.take pos, propertyPath.drop (pos + 1))

/-! ### Reading -/

/-- A call that may not have returned yet. -/
abbrev Running := Option

/-- What `getValueFromJson` shows of a node: containers are views of theirs, a string is the one
that `transformString` makes of it. -/
def shown (transformString : Text → Running (Option Text)) : Json → Running Json
  | .string str => (transformString str).map fun newString => .string (newString.getD str)
  | j           => some j

/-- `JsonDictionary::getValue`, with the null pointer for what is not there. -/
def getValue (transformString : Text → Running (Option Text)) (members : Members) (key : Text) :
    Running (Option Json) :=
  if key = [] then some none
  else
    match members.lookup key with
    | none   => some none
    | some j => (shown transformString j).map some

@[grind =] def findValueAtPath (transformString : Text → Running (Option Text)) :
    List Text → Json → Running (Option Json)
  | [], current => some (some current)
  | propName :: path, .object members =>
      match getValue transformString members propName with
      | none                => none
      | some none           => some none
      | some (some current) => findValueAtPath transformString path current
  | _ :: _, _ => some none

/-! ### Writing -/

/-- `JsonDictionary::setValue`. -/
def setValue (key : Text) (value : RuntimeValue) (members : Members) :
    Members × Except Text Unit :=
  match value with
  | .nullptr => (members, .error "Value is null".toList)
  | value    =>
      if key = [] then (members, .error "key is empty".toList)
      else (demand key (fun field => setJsonValue field value) members, .ok ())

/-- The two messages of `getDictionaryAtPath`: on the way and at its end. -/
def notDictionary (valuePath : Text) (path : List Text) : Text :=
  "The enclosing object is not a dictionary".toList ++
    if path = [] then " (".toList ++ valuePath ++ ")".toList else []

/-- `getDictionaryAtPath`; `use` is what the caller does with the dictionary. -/
@[grind =]
def getDictionaryAtPath (transformString : Text → Running (Option Text)) (createPath : Bool)
    (valuePath : Text) (use : Members → Members × Except Text Unit) :
    List Text → Members → Running (Members × Except Text Unit)
  | [], members => some (use members)
  | propName :: path, members =>
      if (members.lookup propName).isNone && !createPath then
        some (members, .error "Path not exists".toList)
      else
        let members :=
          if (members.lookup propName).isNone then (setValue propName (.dictionary []) members).1
          else members
        match getValue transformString members propName with
        | none => none
        | some (some (.object child)) =>
            (getDictionaryAtPath transformString createPath valuePath use path child).map fun r =>
              (put propName (.object r.1) members, r.2)
        | some _ => some (members, .error (notDictionary valuePath path))

def set (transformString : Text → Running (Option Text)) (root : Members) (path : Text)
    (value : RuntimeValue) : Running (Members × Except Text Unit) :=
  let (parentPath, propName) := splitPropertyPath path
  getDictionaryAtPath transformString true parentPath (setValue propName value) (names parentPath)
    root

/-! ### References -/

/-- A match of the expression, with what stands before and behind it. -/
structure Match where
  before : Text
  varKind : Text
  varValue : Text
  after : Text
  deriving DecidableEq, Repr

/-- The characters of the two groups: letters, digits, `_`, `-` and `/` . -/
def isWordChar (c : Char) : Bool := c.isAlphanum || c == '_' || c == '-' || c == '/'

/-- The match itself. -/
def Match.text (m : Match) : Text := ['$'] ++ m.varKind ++ ['{'] ++ m.varValue ++ ['}']

/-- A match at the start; the braces are no word characters, so there is only one. -/
def matchHere : Text → Option Match
  | '$' :: str =>
      match str.dropWhile isWordChar with
      | '{' :: str' =>
          match str'.dropWhile isWordChar with
          | '}' :: after =>
              some ⟨[], str.takeWhile isWordChar, str'.takeWhile isWordChar, after⟩
          | _ => none
      | _ => none
  | _ => none

/-- The first match. -/
@[grind =] def regexSearch : Text → Option Match
  | []       => none
  | c :: str =>
      match matchHere (c :: str) with
      | some m => some m
      | none   => (regexSearch str).map fun m => { m with before := c :: m.before }

/-- The matches that the loop comes to, and what is left of the string behind them. -/
@[grind =] def occurrences : Nat → Text → List Match × Text
  | 0, str     => ([], str)
  | n + 1, str =>
      match regexSearch str with
      | none   => ([], str)
      | some m => (m :: (occurrences n m.after).1, (occurrences n m.after).2)

section Expand

variable (variableResolvers : Text → Option (Text → Option Text))

def replacementStr (transformString : Text → Running (Option Text)) (root : Members) (m : Match) :
    Running Text :=
  if m.varKind = [] then
    (findValueAtPath transformString (names m.varValue) (.object root)).map fun propValue =>
      match propValue with
      | some (.string strValue) => strValue
      | _                       => []
  else
    match variableResolvers m.varKind with
    | some resolver => some ((resolver m.varValue).getD m.text)
    | none          => some m.text

/-- What the loop appends to `result`. -/
@[grind =] def expandMatches (transformString : Text → Running (Option Text)) (root : Members) :
    List Match → Running Text
  | []            => some []
  | m :: matches' =>
      match replacementStr variableResolvers transformString root m with
      | none             => none
      | some replacement =>
          (expandMatches transformString root matches').map fun result =>
            m.before ++ replacement ++ result

/-- Each round leaves a shorter string, so the length is fuel enough. -/
def expandConfigString (transformString : Text → Running (Option Text)) (root : Members)
    (str : Text) : Running (Option Text) :=
  (expandMatches variableResolvers transformString root (occurrences str.length str).1).map
    fun result => if result = [] then none else some (result ++ (occurrences str.length str).2)

/-- The callback of the root. -/
@[grind =] def transformString (root : Members) : Nat → Text → Running (Option Text)
  | 0        => fun _ => none
  | fuel + 1 => expandConfigString variableResolvers (transformString root fuel) root

def getRead (root : Members) (fuel : Nat) (path : Text) : Running (Option Json) :=
  findValueAtPath (transformString variableResolvers root fuel) (names path) (.object root)

end Expand

end MyEngine.App
