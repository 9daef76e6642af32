import Patchbay.Error
import Patchbay.Linker.Config

/-!
# Errors of the linker

`LinkError` lists every reason for which linking, or reading the linker's configuration, is refused.
-/

namespace Patchbay

/-- Why a file could not be read. -/
inductive ReadFailure where
  | missing
  | directory
  | notText
  deriving DecidableEq, Repr

def ReadFailure.message : ReadFailure → String
  | .missing => "No such file or directory (os error 2)"
  | .directory => "Is a directory (os error 21)"
  | .notText => "stream did not contain valid UTF-8"

inductive LinkError where
  | missingMarker (marker : String)
  /-- The two markers share characters of the template. -/
  | markerOverlap (values code : String)
  | graph (error : GraphError)
  | unreadable (path : String) (failure : ReadFailure)
  | document (error : Config.DocumentError)
  deriving Repr

namespace LinkError

def message : LinkError → String
  | .missingMarker marker => "template has no '" ++ marker ++ "' marker"
  | .markerOverlap values code => "markers '" ++ values ++ "' and '" ++ code ++ "' overlap"
  | .graph error => "failed to compile graph: " ++ error.message
  | .unreadable path failure => "failed to read file '" ++ path ++ "': " ++ failure.message
  | .document .malformed => "failed to parse TOML"
  | .document (.misfit reason) => "failed to parse TOML: " ++ reason.message

/-- What lies behind the error, in words. -/
def source? : LinkError → Option String
  | .graph error => some error.message
  | .unreadable _ failure => some failure.message
  | _ => none

end LinkError

/-- The configuration of a file, given what reading the file has led to. -/
def Config.load (path : String) (content : Except ReadFailure ByteArray) :
    Except LinkError Config :=
  match content with
  | .error failure => .error (.unreadable path failure)
  | .ok bytes =>
    match String.fromUTF8? bytes with
    | none => .error (.unreadable path .notText)
    | some text =>
      match Config.ofToml text with
      | .ok c => .ok c
      | .error error => .error (.document error)

end Patchbay
