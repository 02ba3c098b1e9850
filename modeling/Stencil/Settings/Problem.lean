import Stencil.Value.Display

/-! # What can be wrong with settings

Problems with options, with variables, and with the files they come from. The path says
where in the data a problem lies; it stands before the message.
-/
namespace Stencil

inductive SettingCause where
  | notAMapping (kind : String)
  | unknownOption (key : Value)
  | notABoolean
  | notASquashMode (v : Value)
  | notADepth (v : Value)
  | unsupported (kind : String)
  | invalidYaml (file reason : Text)
  | lockedFile (file reason : Text)
  | lockedSource (file reason : Text)
  | documentNotAMapping (file : Text)
  | variablesNotAMapping (file : Text)
  | noVariablesFile (file : Text)
  | noFile (file : Text)
  /-- A number has more digits than are written. -/
  | longNumeral

def SettingCause.isWritable : SettingCause → Bool
  | unknownOption key => key.isWritable
  | notASquashMode v => v.isWritable
  | notADepth v => v.isWritable
  | longNumeral => false
  | _ => true

def SettingCause.message : SettingCause → Text
  | notAMapping kind => "expected mapping for options, got ".toList ++ kind.toList
  | unknownOption key => "unexpected option ".toList ++ key.shown
  | notABoolean => "expected boolean".toList
  | notASquashMode v => "expected 'on' or 'off', got ".toList ++ v.shown
  | notADepth v => "expected positive integer, got ".toList ++ v.shown
  | unsupported kind => "unsupported value type ".toList ++ kind.toList
  | invalidYaml file reason => "invalid YAML in ".toList ++ file ++ ':' :: ' ' :: reason
  | lockedFile file reason => "cannot read ".toList ++ file ++ ':' :: ' ' :: reason
  | lockedSource file reason => "Failed to read file ".toList ++ file ++ ':' :: ' ' :: reason
  | documentNotAMapping file => "YAML must be a mapping: ".toList ++ file
  | variablesNotAMapping file => "variables must be a mapping: ".toList ++ file
  | noVariablesFile file => "variables file not found: ".toList ++ file
  | noFile file => "File not found: ".toList ++ file
  | longNumeral => "number too long".toList

structure SettingProblem where
  cause : SettingCause
  path : List Text := []

def SettingProblem.message (p : SettingProblem) : Text :=
  if p.path = [] then p.cause.message else Text.join ['.'] p.path ++ ':' :: ' ' :: p.cause.message

end Stencil
