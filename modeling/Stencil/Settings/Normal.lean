import Stencil.Settings.Problem
import Stencil.Value.Mapping

/-! # Normal form of variables

Variables that are loaded from a file become texts, lists and mappings with text keys.
Every scalar turns into the text that it prints as. Foreign objects, and numbers too long
to be written, are refused with the path that leads to them.
-/
namespace Stencil.Value

def insertNormal (key : Value) (v : Value) (entries : Mapping) : Mapping :=
  Mapping.insert (.text key.keyText) v entries

mutual

def normalize (path : List Text) : Value → Except SettingProblem Value
  | null => .ok (text [])
  | bool b => .ok (text (boolText b))
  | int i => if isWritable (int i) then .ok (text (intText i)) else .error ⟨.longNumeral, path⟩
  | float x => .ok (text x.text)
  | text t => .ok (text t)
  | list items => do
    let items ← normalizeItems path 0 items
    return list items
  | tuple items => do
    let items ← normalizeItems path 0 items
    return list items
  | mapping entries => do
    let entries ← normalizeEntries path [] entries
    return mapping entries
  | foreign object => .error ⟨.unsupported object.kind, path⟩

/-- Items of a list, the first of which has the number `index`. -/
def normalizeItems (path : List Text) (index : Nat) : List Value → Except SettingProblem (List Value)
  | [] => .ok []
  | item :: items => do
    let item ← normalize (path ++ [natText index]) item
    let items ← normalizeItems path (index + 1) items
    return item :: items

def normalizeEntries (path : List Text) (done : Mapping) :
    List (Value × Value) → Except SettingProblem Mapping
  | [] => .ok done
  | (key, v) :: entries => do
    if !key.isWritable then throw ⟨.longNumeral, path⟩
    let v ← normalize (path ++ [key.keyText]) v
    normalizeEntries path (insertNormal key v done) entries

end

end Stencil.Value
