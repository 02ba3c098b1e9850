import Stencil.Tree.Block

/-! # What a tree mentions

The root names and the calls of a tree, in the order in which they stand in its source.
-/
namespace Stencil

/-- A root name, or a call of a method by its name and offset. -/
inductive Reference where
  | variable (root : Text)
  | method (name : Text) (offset : Nat)
  deriving DecidableEq, Repr

mutual

def Arg.references : Arg → List Reference
  | .mk operand calls => operand.references ++ callsReferences calls

def Operand.references : Operand → List Reference
  | .literal _ => []
  | .variable root steps => .variable root :: stepsReferences steps

def stepsReferences : List Step → List Reference
  | [] => []
  | step :: steps => step.references ++ stepsReferences steps

def Step.references : Step → List Reference
  | .field _ => []
  | .index arg => arg.references

def callsReferences : List Call → List Reference
  | [] => []
  | call :: calls => call.references ++ callsReferences calls

def Call.references : Call → List Reference
  | .mk function params offset => .method function offset :: paramsReferences params

def paramsReferences : List Param → List Reference
  | [] => []
  | param :: params => param.references ++ paramsReferences params

def Param.references : Param → List Reference
  | .mk _ none => []
  | .mk _ (some value) => value.references

end

def Condition.references : Condition → List Reference
  | .holds arg => arg.references
  | .brackets inner => inner.references
  | .join _ left right => left.references ++ right.references
  | .compare _ _ left right => left.references ++ right.references
  | .among _ arg items => arg.references ++ items.flatMap Arg.references

def LoopSource.references : LoopSource → List Reference
  | .range first last => first.references ++ last.references
  | .items args => args.flatMap Arg.references

mutual

def Block.references : Block → List Reference
  | .branch condition body => condition.references ++ blocksReferences body
  | .loop _ source body => source.references ++ blocksReferences body
  | .set _ arg => arg.references
  | .conf _ arg => arg.references
  | .print arg => arg.references
  | _ => []

def blocksReferences : List Block → List Reference
  | [] => []
  | block :: blocks => block.references ++ blocksReferences blocks

end

theorem stepsReferences_eq_flatMap (steps : List Step) :
    stepsReferences steps = steps.flatMap Step.references := by
  induction steps with
  | nil => rfl
  | cons step steps ih => rw [stepsReferences,ih,List.flatMap_cons]

theorem callsReferences_eq_flatMap (calls : List Call) :
    callsReferences calls = calls.flatMap Call.references := by
  induction calls with
  | nil => rfl
  | cons call calls ih => rw [callsReferences,ih,List.flatMap_cons]

theorem paramsReferences_eq_flatMap (params : List Param) :
    paramsReferences params = params.flatMap Param.references := by
  induction params with
  | nil => rfl
  | cons param params ih => rw [paramsReferences,ih,List.flatMap_cons]

theorem blocksReferences_eq_flatMap (blocks : List Block) :
    blocksReferences blocks = blocks.flatMap Block.references := by
  induction blocks with
  | nil => rfl
  | cons block blocks ih => rw [blocksReferences,ih,List.flatMap_cons]

end Stencil
