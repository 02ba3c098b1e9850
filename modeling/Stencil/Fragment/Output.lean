import Stencil.Fragment.Basic
import Stencil.Text.Squash

/-! # From fragments to output

Merged and trimmed fragments become text from left to right. Strings are squashed while
the squash mode is on; a `conf` marker switches the mode for all that follows. Only a
string at the very start or end of the output loses the blanks at that edge, so that a
printed value comes out as it is.
-/
namespace Stencil.Fragment

def confMode? (key setting : Text) : Option SquashMode :=
  if key = "squash".toList then SquashMode.ofName? setting else none

/-- A string of the template under a squash mode, at the start or end of the output. -/
def settleString (mode : SquashMode) (isFirst isLast : Bool) (t : Text) : Text :=
  let t := if mode = .on then t.squash else t
  let t := if isFirst then t.trimStart else t
  if isLast then t.trimEnd else t

def pieces (mode : SquashMode) (isFirst : Bool) : List Fragment → List Text
  | [] => []
  | string t :: rest => settleString mode isFirst rest.isEmpty t :: pieces mode false rest
  | value t :: rest => t :: pieces mode false rest
  | trim _ :: rest => pieces mode false rest
  | conf key setting :: rest => pieces ((confMode? key setting).getD mode) false rest

def output (options : Options) (fs : List Fragment) : Text :=
  let settled : Text := (pieces options.squash true (applyTrims (merge fs))).flatten
  if options.trimEndLine then settled.stripLineEnds else settled

/-- What is wrong with a `conf` marker that changes nothing. -/
def warning? : Fragment → Option Text
  | conf key setting =>
    if key ≠ "squash".toList then some ("Ignoring unknown conf '".toList ++ key ++ ['\''])
    else if (SquashMode.ofName? setting).isNone then
      some ("Ignoring unsupported squash value '".toList ++ setting ++ ['\''])
    else none
  | _ => none

def warnings (fs : List Fragment) : List Text := fs.filterMap warning?

end Stencil.Fragment
