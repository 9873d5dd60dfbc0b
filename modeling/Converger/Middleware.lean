import Converger.Activity
import Converger.Json
import Mathlib.Data.List.Infix

/-!
# Middleware

The transformations an activity passes on its way to a channel: those of the channel, then
those of the routing rules that matched. A transformation changes the activity or halts the
delivery; one that crashes halts it.
-/
namespace Converger.Middleware

abbrev Fields := List (String × Json)

/-- `Map.merge/2`: the second map wins. -/
def mergeFields (old new : Fields) : Fields :=
  old.filter (fun field => field.1 ∉ new.map Prod.fst) ++ new

structure Outbound where
  conversationId : Uuid
  type : String := "message"
  text : Option String := none
  metadata : Option Fields := none

inductive CallResult
  | cont (activity : Outbound)
  | halt (reason : String)
  | crash (message : String)

/-- A configured transformation, with options that its module accepted. Modules of the
application environment are arbitrary; a type that is no longer registered is skipped. -/
inductive Transformation
  | addPrefix (text : String)
  | addSuffix (text : String)
  | textReplace (pattern replacement : String)
  | truncateText (maxLength : ℕ) (ellipsis : Json)
  | setMetadata (values : Fields)
  | contentFilter (blockPatterns : List String)
  | extra (type : String) (call : Outbound → CallResult)
  | unregistered (type : String)

/-- What the transformations take from the runtime: the graphemes of a text, and the message
of the error that joining a text with another value raises. -/
structure Runtime where
  graphemes : String → List String
  joinError : Json → String

/-- Every occurrence of `pattern` replaced, from the left; `skip` characters of the last
occurrence are still to be passed. -/
def replaceFrom (pattern replacement : List Char) : ℕ → List Char → List Char
  | _, [] => []
  | skip + 1, _ :: cs => replaceFrom pattern replacement skip cs
  | 0, c :: cs =>
    if pattern.isPrefixOf (c :: cs) then
      replacement ++ replaceFrom pattern replacement (pattern.length - 1) cs
    else c :: replaceFrom pattern replacement 0 cs

/-- `String.replace/3`; an empty pattern occurs around every character. -/
def replaceText (text pattern replacement : String) : String :=
  String.ofList <|
    if pattern = "" then replacement.toList ++ text.toList.flatMap fun c => c :: replacement.toList
    else replaceFrom pattern.toList replacement.toList 0 text.toList

def call (rt : Runtime) : Transformation → Outbound → CallResult
  | .addPrefix text, a => .cont { a with text := some (text ++ a.text.getD "")}
  | .addSuffix text, a => .cont { a with text := some (a.text.getD "" ++ text)}
  | .textReplace pattern replacement, a =>
    .cont { a with text := some (replaceText (a.text.getD "") pattern replacement)}
  | .truncateText maxLength ellipsis, a =>
    let graphemes := rt.graphemes (a.text.getD "")
    if maxLength < graphemes.length then
      match ellipsis with
      | .str ellipsis =>
        .cont {a with text := some (String.join (graphemes.take maxLength) ++ ellipsis)}
      | other => .crash (rt.joinError other)
    else .cont a
  | .setMetadata values, a =>
    .cont {a with metadata := some (mergeFields (a.metadata.getD []) values)}
  | .contentFilter blockPatterns, a =>
    if blockPatterns.any fun pattern => pattern.toList <:+ (a.text.getD "").toList then
      .halt "content blocked by filter"
    else .cont a
  | .extra _ call, a => call a
  | .unregistered _, a => .cont a

def typeName : Transformation → String
  | .addPrefix _ => "add_prefix"
  | .addSuffix _ => "add_suffix"
  | .textReplace _ _ => "text_replace"
  | .truncateText _ _ => "truncate_text"
  | .setMetadata _ => "set_metadata"
  | .contentFilter _ => "content_filter"
  | .extra type _ => type
  | .unregistered type => type

/-- `Middleware.run/2`: the changed activity, or why the chain halted. -/
def run (rt : Runtime) : List Transformation → Outbound → Except String Outbound
  | [], a => .ok a
  | t :: ts, a =>
    match call rt t a with
    | .cont a => run rt ts a
    | .halt reason => .error reason
    | .crash message => .error ("middleware crashed: " ++ typeName t ++ ": " ++ message)

def runAll (rt : Runtime) : List (List Transformation) → Outbound → Except String Outbound
  | [], a => .ok a
  | chain :: chains, a =>
    match run rt chain a with
    | .ok a => runAll rt chains a
    | .error reason => .error reason

/-- `Pipeline.transform/2`, with the transformations of the rules that matched the activity as
it was stored. -/
def transform (rt : Runtime) (channel : List Transformation)
    (matched : Outbound → List (List Transformation)) (a : Outbound) : Except String Outbound :=
  match run rt channel a with
  | .ok transformed => runAll rt (matched a) transformed
  | .error reason => .error reason

end Converger.Middleware
