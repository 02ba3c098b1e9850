import Stencil.Evaluation.Expression
import Stencil.Tree.Block
import Stencil.Tree.Printing

/-! # Trees with other offsets

The offset of a call says where its name stands and nothing else. Changing all offsets of a
tree leaves what it prints as it is, and an evaluation finds the same methods, makes the
same calls and ends the same way, but for the offset in the report of an unknown function.
-/
namespace Stencil

mutual

def Arg.relocate (f : Nat → Nat) : Arg → Arg
  | .mk operand calls => .mk (operand.relocate f) (callsRelocate f calls)

def Operand.relocate (f : Nat → Nat) : Operand → Operand
  | .literal t => .literal t
  | .variable root steps => .variable root (stepsRelocate f steps)

def stepsRelocate (f : Nat → Nat) : List Step → List Step
  | [] => []
  | step :: steps => step.relocate f :: stepsRelocate f steps

def Step.relocate (f : Nat → Nat) : Step → Step
  | .field name => .field name
  | .index arg => .index (arg.relocate f)

def callsRelocate (f : Nat → Nat) : List Call → List Call
  | [] => []
  | call :: calls => call.relocate f :: callsRelocate f calls

def Call.relocate (f : Nat → Nat) : Call → Call
  | .mk function params offset => .mk function (paramsRelocate f params) (f offset)

def paramsRelocate (f : Nat → Nat) : List Param → List Param
  | [] => []
  | param :: params => param.relocate f :: paramsRelocate f params

def Param.relocate (f : Nat → Nat) : Param → Param
  | .mk key none => .mk key none
  | .mk key (some value) => .mk key (some (value.relocate f))

end

def Condition.relocate (f : Nat → Nat) : Condition → Condition
  | .holds arg => .holds (arg.relocate f)
  | .brackets inner => .brackets (inner.relocate f)
  | .join connective left right => .join connective (left.relocate f) (right.relocate f)
  | .compare comparison negated left right =>
    .compare comparison negated (left.relocate f) (right.relocate f)
  | .among negated arg items => .among negated (arg.relocate f) (items.map (Arg.relocate f))

def LoopSource.relocate (f : Nat → Nat) : LoopSource → LoopSource
  | .range first last => .range (first.relocate f) (last.relocate f)
  | .items args => .items (args.map (Arg.relocate f))

mutual

def Block.relocate (f : Nat → Nat) : Block → Block
  | .text t => .text t
  | .branch condition body => .branch (condition.relocate f) (blocksRelocate f body)
  | .loop name source body => .loop name (source.relocate f) (blocksRelocate f body)
  | .set name arg => .set name (arg.relocate f)
  | .conf key arg => .conf key (arg.relocate f)
  | .print arg => .print (arg.relocate f)
  | .trim direction => .trim direction
  | .newline => .newline
  | .foreign kind => .foreign kind

def blocksRelocate (f : Nat → Nat) : List Block → List Block
  | [] => []
  | block :: blocks => block.relocate f :: blocksRelocate f blocks

end

/-- The offset that stands for any other when places do not matter. -/
def nowhere (_ : Nat) : Nat := 0

variable (f : Nat → Nat)

@[simp] theorem stepsRelocate_eq_map (steps : List Step) :
    stepsRelocate f steps = steps.map (Step.relocate f) := by
  induction steps with
  | nil => rfl
  | cons step steps ih => rw [stepsRelocate,ih,List.map_cons]

@[simp] theorem callsRelocate_eq_map (calls : List Call) :
    callsRelocate f calls = calls.map (Call.relocate f) := by
  induction calls with
  | nil => rfl
  | cons call calls ih => rw [callsRelocate,ih,List.map_cons]

@[simp] theorem paramsRelocate_eq_map (params : List Param) :
    paramsRelocate f params = params.map (Param.relocate f) := by
  induction params with
  | nil => rfl
  | cons param params ih => rw [paramsRelocate,ih,List.map_cons]

@[simp] theorem blocksRelocate_eq_map (blocks : List Block) :
    blocksRelocate f blocks = blocks.map (Block.relocate f) := by
  induction blocks with
  | nil => rfl
  | cons block blocks ih => rw [blocksRelocate,ih,List.map_cons]

mutual

theorem Arg.relocate_id : ∀ arg : Arg, arg.relocate id = arg
  | .mk operand calls => by
    simp only [Arg.relocate,Operand.relocate_id operand,callsRelocate_id calls]

theorem Operand.relocate_id : ∀ operand : Operand, operand.relocate id = operand
  | .literal t => rfl
  | .variable root steps => by simp only [Operand.relocate,stepsRelocate_id steps]

theorem stepsRelocate_id : ∀ steps : List Step, stepsRelocate id steps = steps
  | [] => rfl
  | step :: steps => by simp only [stepsRelocate,Step.relocate_id step,stepsRelocate_id steps]

theorem Step.relocate_id : ∀ step : Step, step.relocate id = step
  | .field name => rfl
  | .index arg => by simp only [Step.relocate,Arg.relocate_id arg]

theorem callsRelocate_id : ∀ calls : List Call, callsRelocate id calls = calls
  | [] => rfl
  | call :: calls => by simp only [callsRelocate,Call.relocate_id call,callsRelocate_id calls]

theorem Call.relocate_id : ∀ call : Call, call.relocate id = call
  | .mk function params offset => by simp only [Call.relocate,paramsRelocate_id params,id]

theorem paramsRelocate_id : ∀ params : List Param, paramsRelocate id params = params
  | [] => rfl
  | param :: params => by simp only [paramsRelocate,Param.relocate_id param,paramsRelocate_id params]

theorem Param.relocate_id : ∀ param : Param, param.relocate id = param
  | .mk key none => rfl
  | .mk key (some value) => by simp only [Param.relocate,Arg.relocate_id value]

end

theorem map_argRelocate_id (args : List Arg) : args.map (Arg.relocate id) = args := by
  have hf : Arg.relocate id = id := funext Arg.relocate_id
  rw [hf,List.map_id]

theorem Condition.relocate_id (c : Condition) : c.relocate id = c := by
  induction c with
  | holds arg => rw [relocate,Arg.relocate_id]
  | brackets inner ih => rw [relocate,ih]
  | join connective left right ihl ihr => rw [relocate,ihl,ihr]
  | compare comparison negated left right => rw [relocate,Arg.relocate_id,Arg.relocate_id]
  | among negated arg items => rw [relocate,Arg.relocate_id,map_argRelocate_id]

theorem LoopSource.relocate_id : ∀ source : LoopSource, source.relocate id = source
  | .range first last => by rw [relocate,Arg.relocate_id,Arg.relocate_id]
  | .items args => by rw [relocate,map_argRelocate_id]

mutual

theorem Block.relocate_id : ∀ block : Block, block.relocate id = block
  | .text t => rfl
  | .branch condition body => by
    simp only [Block.relocate,Condition.relocate_id,blocksRelocate_id body]
  | .loop name source body => by
    simp only [Block.relocate,LoopSource.relocate_id,blocksRelocate_id body]
  | .set name arg => by simp only [Block.relocate,Arg.relocate_id]
  | .conf key arg => by simp only [Block.relocate,Arg.relocate_id]
  | .print arg => by simp only [Block.relocate,Arg.relocate_id]
  | .trim direction => rfl
  | .newline => rfl
  | .foreign kind => rfl

theorem blocksRelocate_id : ∀ blocks : List Block, blocksRelocate id blocks = blocks
  | [] => rfl
  | block :: blocks => by simp only [blocksRelocate,Block.relocate_id block,blocksRelocate_id blocks]

end

mutual

theorem Arg.print_relocate : ∀ arg : Arg, (arg.relocate f).print = arg.print
  | .mk operand calls => by
    simp only [Arg.relocate,Arg.print,Operand.print_relocate operand,callsPrint_relocate calls]

theorem Operand.print_relocate : ∀ operand : Operand, (operand.relocate f).print = operand.print
  | .literal t => rfl
  | .variable root steps => by
    simp only [Operand.relocate,Operand.print,stepsPrint_relocate steps]

theorem stepsPrint_relocate : ∀ steps : List Step, stepsPrint (stepsRelocate f steps) = stepsPrint steps
  | [] => rfl
  | step :: steps => by
    simp only [stepsRelocate,stepsPrint,Step.print_relocate step,stepsPrint_relocate steps]

theorem Step.print_relocate : ∀ step : Step, (step.relocate f).print = step.print
  | .field name => rfl
  | .index arg => by simp only [Step.relocate,Step.print,Arg.print_relocate arg]

theorem callsPrint_relocate : ∀ calls : List Call, callsPrint (callsRelocate f calls) = callsPrint calls
  | [] => rfl
  | call :: calls => by
    simp only [callsRelocate,callsPrint,Call.print_relocate call,callsPrint_relocate calls]

theorem Call.print_relocate : ∀ call : Call, (call.relocate f).print = call.print
  | .mk function params offset => by
    simp only [Call.relocate,Call.print,paramsPrint_relocate params]

theorem paramsPrint_relocate : ∀ params : List Param,
    paramsPrint (paramsRelocate f params) = paramsPrint params
  | [] => rfl
  | param :: params => by
    simp only [paramsRelocate,paramsPrint,Param.print_relocate param,paramsPrint_relocate params]

theorem Param.print_relocate : ∀ param : Param, (param.relocate f).print = param.print
  | .mk key none => rfl
  | .mk key (some value) => by simp only [Param.relocate,Param.print,Arg.print_relocate value]

end

theorem arrayPrint_relocate (items : List Arg) :
    arrayPrint (items.map (Arg.relocate f)) = arrayPrint items := by
  have hf : Arg.print ∘ Arg.relocate f = Arg.print := funext (Arg.print_relocate f)
  simp only [arrayPrint,List.map_map,hf]

theorem Condition.print_relocate (c : Condition) : (c.relocate f).print = c.print := by
  induction c with
  | holds arg => simp only [relocate,print,Arg.print_relocate]
  | brackets inner ih => simp only [relocate,print,ih]
  | join connective left right ihl ihr => simp only [relocate,print,ihl,ihr]
  | compare comparison negated left right => simp only [relocate,print,Arg.print_relocate]
  | among negated arg items => simp only [relocate,print,Arg.print_relocate,arrayPrint_relocate]

def EvalProblem.relocate : EvalProblem → EvalProblem
  | .unknownFunction name offset => .unknownFunction name (f offset)
  | problem => problem

def Run.relocate (r : Run α) : Run α := ⟨r.result.mapError (EvalProblem.relocate f),r.events⟩

/-- The methods that a tree with other offsets finds, asked for under its former offsets. -/
def Env.relocate (env : Env) : Env := ⟨env.scopes,fun name offset => env.methods name (f offset)⟩

/-- Methods that are taken by name alone, wherever they are called. -/
def Registry.byName (methods : Text → Option Method) : Registry := fun name _ => methods name

theorem Env.relocate_byName (scopes : Scopes) (methods : Text → Option Method) :
    Env.relocate f ⟨scopes,.byName methods⟩ = ⟨scopes,.byName methods⟩ := rfl

end Stencil
