import Mathlib.Data.List.Forall2
import Stencil.Evaluation.Expression
import Stencil.Proofs.Evaluation.Resolution

/-! # Which indices of a path are evaluated

The walk along a path asks for its keys one after another and never twice. It runs just as a
search that starts anew in every frame and remembers the keys that it has asked for. A key is
asked for if the keys before it lead to something in a frame that the search comes to.
-/
namespace Stencil

namespace Value

theorem bind_present_present (l : Landing Value) : (l.bind present).bind present = l.bind present := by
  cases l with
  | found v => cases v <;> rfl
  | nowhere => rfl
  | unreadable => rfl

theorem step_present (key : Text) (v : Value) : (v.step key).bind present = v.step key :=
  bind_present_present _

theorem follow_append (keys more : List Text) (v : Value) :
    v.follow (keys ++ more) = (v.follow keys).bind (follow more) := by
  induction keys generalizing v with
  | nil => rfl
  | cons key keys ih =>
    rw [List.cons_append,follow,follow]
    cases v.step key with
    | found w => exact ih w
    | nowhere => rfl
    | unreadable => rfl

theorem follow_singleton (key : Text) (v : Value) : v.follow [key] = v.step key := by
  rw [follow]
  cases v.step key <;> rfl

/-- The last key is looked for where the keys before it lead. -/
theorem follow_concat {keys : List Text} {v w : Value} (h : v.follow keys = .found w) (key : Text) :
    v.follow (keys ++ [key]) = w.step key := by
  rw [follow_append,h]
  exact follow_singleton key w

theorem follow_concat_present (keys : List Text) (key : Text) (v : Value) :
    (v.follow (keys ++ [key])).bind present = v.follow (keys ++ [key]) := by
  cases h : v.follow keys with
  | found w => rw [follow_concat h,step_present]
  | nowhere =>
    rw [follow_append,h]
    rfl
  | unreadable =>
    rw [follow_append,h]
    rfl

end Value

theorem Value.eq_nil_of_follow_null {keys : List Text} {v : Value} (h : v.follow keys = .found null) :
    keys = [] := by
  obtain rfl | ⟨keys,key,rfl⟩ := List.eq_nil_or_concat' keys
  · rfl
  · have hpresent := follow_concat_present keys key v
    rw [h] at hpresent
    cases hpresent

/-- The walk after the given keys: in the first frame in which they lead somewhere. -/
def firstFollowed (keys : List Text) : List Value → Landing Walk
  | [] => .nowhere
  | root :: roots =>
    match root.follow keys with
    | .found v => .found ⟨keys,v,roots⟩
    | .nowhere => firstFollowed keys roots
    | .unreadable => .unreadable

theorem firstReached_concat (keys : List Text) (key : Text) (roots : List Value) :
    ((firstReached (keys ++ [key]) roots).map fun (v,roots) => ⟨keys ++ [key],v,roots⟩) =
      firstFollowed (keys ++ [key]) roots := by
  induction roots with
  | nil => rfl
  | cons root roots ih =>
    rw [firstReached,firstFollowed,Value.follow_concat_present]
    cases root.follow (keys ++ [key]) with
    | found v => rfl
    | nowhere => exact ih
    | unreadable => rfl

/-- One more key takes the walk on to where all the keys lead. -/
theorem take_of_firstFollowed {keys : List Text} {roots : List Value} {walk : Walk}
    (h : firstFollowed keys roots = .found walk) (key : Text) :
    walk.take key = firstFollowed (keys ++ [key]) roots := by
  induction roots with
  | nil => cases h
  | cons root roots ih =>
    unfold firstFollowed at h ⊢
    cases hroot : root.follow keys with
    | found v =>
      rw [hroot] at h
      cases h
      rw [Value.follow_concat hroot,← firstReached_concat]
      unfold Walk.take
      cases v.step key <;> rfl
    | nowhere =>
      rw [hroot] at h
      rw [Value.follow_append,hroot]
      exact ih h
    | unreadable =>
      rw [hroot] at h
      cases h

theorem firstFollowed_of_append {keys more : List Text} {roots : List Value} {walk : Walk}
    (h : firstFollowed (keys ++ more) roots = .found walk) :
    ∃ walk', firstFollowed keys roots = .found walk' := by
  induction roots with
  | nil => cases h
  | cons root roots ih =>
    unfold firstFollowed at h ⊢
    rw [Value.follow_append] at h
    cases hroot : root.follow keys with
    | found v => exact ⟨_,rfl⟩
    | nowhere =>
      rw [hroot] at h
      exact ih h
    | unreadable =>
      rw [hroot] at h
      cases h

/-- The key of a step, which is not evaluated again if it is known. -/
def Step.keyOnce (env : Env) (step : Step) : Option Text → Run Text
  | some key => pure key
  | none => step.key env

/-- Takes the steps from a value as far as they lead. The first of their keys are known. Gives the
place and the keys that are known then. -/
def followOnce (env : Env) : List Step → (known : List Text) → Value → Run (Landing Value × List Text)
  | [],_,v => pure (.found v,[])
  | step :: steps,known,v => do
    let key ← step.keyOnce env known.head?
    match v.step key with
    | .found w => do
      let reached ← followOnce env steps known.tail w
      pure (reached.1,key :: reached.2)
    | landing => pure (landing,key :: known.tail)

/-- Ends a search where the path resolves, and otherwise goes on with the known keys. -/
def settleOr (search : List Text → Run Value) (reached : Landing Value × List Text) : Run Value :=
  match reached.1.bind Value.present with
  | .found w => pure w
  | .nowhere => search reached.2
  | .unreadable => .fail .longIndex

/-- Starts the path anew from each root, and asks only for the keys that no root before has needed. -/
def searchOnce (env : Env) (steps : List Step) : (known : List Text) → List Value → Run Value
  | _,[] => pure (.text [])
  | known,root :: roots => do
    let reached ← followOnce env steps known root
    settleOr (fun known => searchOnce env steps known roots) reached

/-- Goes on with a walk, if there is one. -/
def resume (env : Env) (steps : List Step) : Landing Walk → Run Value
  | .found walk => evalSteps env steps walk
  | .nowhere => pure (.text [])
  | .unreadable => .fail .longIndex

theorem evalSteps_cons (env : Env) (step : Step) (steps : List Step) (walk : Walk) :
    evalSteps env (step :: steps) walk =
      step.key env >>= fun key => resume env steps (walk.take key) := by
  rw [evalSteps]
  refine congrArg _ (funext fun key => ?_)
  cases walk.take key <;> rfl

section
variable {env : Env}

theorem followOnce_known {passed rest : List Step} {keys : List Text}
    (hlength : passed.length = keys.length) (v : Value) :
    followOnce env (passed ++ rest) keys v =
      match v.follow keys with
      | .found w => followOnce env rest [] w >>= fun reached => pure (reached.1,keys ++ reached.2)
      | landing => pure (landing,keys) := by
  induction keys generalizing passed v with
  | nil =>
    obtain rfl := List.length_eq_zero_iff.mp hlength
    exact (bind_pure _).symm
  | cons key keys ih =>
    obtain ⟨step,passed,rfl⟩ := List.exists_cons_of_length_eq_add_one hlength
    rw [List.cons_append,followOnce,Step.keyOnce.eq_def,Value.follow]
    simp only [List.head?_cons,List.tail_cons,pure_bind]
    cases v.step key with
    | found w =>
      change (followOnce env (passed ++ rest) keys w >>= _) = _
      rw [ih (Nat.succ.inj hlength) w]
      cases hw : w.follow keys with
      | found u => simp [Landing.bind,hw]
      | nowhere => simp [Landing.bind,hw]
      | unreadable => simp [Landing.bind,hw]
    | nowhere => rfl
    | unreadable => rfl

theorem searchOnce_of_found {passed rest : List Step} {keys : List Text} {v w : Value}
    (hlength : passed.length = keys.length) (hv : v.follow keys = .found w) (roots : List Value) :
    searchOnce env (passed ++ rest) keys (v :: roots) =
      followOnce env rest [] w >>= fun reached =>
        settleOr (fun known => searchOnce env (passed ++ rest) known roots) (reached.1,keys ++ reached.2) := by
  rw [searchOnce,followOnce_known hlength,hv]
  simp only [bind_assoc,pure_bind]

/-- In a frame in which the known keys lead on, the search does what the walk does from there, if
the same holds for the frames further out. -/
theorem searchOnce_eq_evalSteps {roots : List Value}
    (houter : ∀ {passed : List Step} {keys : List Text} (rest : List Step),
      passed.length = keys.length →
      searchOnce env (passed ++ rest) keys roots = resume env rest (firstFollowed keys roots))
    {passed : List Step} {keys : List Text} {v w : Value} (rest : List Step)
    (hlength : passed.length = keys.length) (hv : v.follow keys = .found w) :
    searchOnce env (passed ++ rest) keys (v :: roots) = evalSteps env rest ⟨keys,w,roots⟩ := by
  rw [searchOnce_of_found hlength hv]
  induction rest generalizing passed keys w with
  | nil =>
    cases w with
    | null =>
      obtain rfl := Value.eq_nil_of_follow_null hv
      obtain rfl := List.length_eq_zero_iff.mp hlength
      refine (houter [] hlength).trans ?_
      cases roots <;> rfl
    | _ => rfl
  | cons step rest ih =>
    have hwalk : firstFollowed keys (v :: roots) = .found ⟨keys,w,roots⟩ := by
      rw [firstFollowed,hv]
    rw [evalSteps_cons,followOnce,bind_assoc]
    refine congrArg _ (funext fun key => ?_)
    rw [take_of_firstFollowed hwalk,firstFollowed,Value.follow_concat hv]
    have hlength' : (passed ++ [step]).length = (keys ++ [key]).length := by
      rw [List.length_append,List.length_append,hlength]
      rfl
    have hsteps : passed ++ step :: rest = (passed ++ [step]) ++ rest := by simp
    cases hw : w.step key with
    | found u =>
      have hu : v.follow (keys ++ [key]) = .found u := (Value.follow_concat hv key).trans hw
      refine Eq.trans ?_ (ih hlength' hu)
      rw [hsteps]
      simp only [bind_assoc,pure_bind,List.append_assoc keys [key],List.singleton_append,List.tail_nil]
    | nowhere =>
      rw [hsteps]
      exact houter rest hlength'
    | unreadable => rfl

theorem searchOnce_eq_resume {passed : List Step} {keys : List Text} (rest : List Step)
    (hlength : passed.length = keys.length) (roots : List Value) :
    searchOnce env (passed ++ rest) keys roots = resume env rest (firstFollowed keys roots) := by
  induction roots generalizing passed keys rest with
  | nil => rfl
  | cons v roots ih =>
    cases hv : v.follow keys with
    | found w =>
      rw [searchOnce_eq_evalSteps ih rest hlength hv,firstFollowed,hv]
      rfl
    | nowhere =>
      rw [searchOnce,followOnce_known hlength,firstFollowed,hv]
      exact ih rest hlength
    | unreadable =>
      rw [searchOnce,followOnce_known hlength,firstFollowed,hv]
      rfl

end

/-- All of the steps have their keys, which are these. -/
def HaveKeys (env : Env) : List Step → List Text → Prop :=
  List.Forall₂ fun step key => (step.key env).result = .ok key

/-- From the place of a walk, the first `n` steps and no others are asked for their keys, each once
and in their order. A step is asked just if the steps before it lead on. -/
structure AsksFirst (env : Env) (keys : List Text) (roots : List Value) (run : List Step → Run Value)
    (steps : List Step) (n : Nat) : Prop where
  le : n ≤ steps.length
  events : (run steps).events = (steps.take n).flatMap fun step => (step.key env).events
  lt_iff : ∀ k < steps.length, k < n ↔ ∃ passed walk, HaveKeys env (steps.take k) passed ∧
    firstFollowed (keys ++ passed) roots = .found walk
  rest : n < steps.length → ∀ more, run (steps.take n ++ more) = run steps

section
variable {env : Env} {keys : List Text} {roots : List Value} {walk : Walk}

/-- A step at which the walk ends is the last one to be asked. -/
theorem asksFirst_one {step : Step} (hwalk : firstFollowed keys roots = .found walk)
    (hend : ∀ key walk', (step.key env).result = .ok key →
      firstFollowed (keys ++ [key]) roots ≠ .found walk')
    (hrun : ∀ steps, evalSteps env (step :: steps) walk =
      ⟨(evalSteps env [step] walk).result,(step.key env).events⟩) (steps : List Step) :
    AsksFirst env keys roots (fun steps => evalSteps env steps walk) (step :: steps) 1 where
  le := Nat.succ_le_succ (Nat.zero_le _)
  events := by
    rw [hrun]
    exact (List.append_nil _).symm
  lt_iff k hk := by
    cases k with
    | zero => exact iff_of_true Nat.one_pos ⟨[],walk,.nil,by rw [List.append_nil]; exact hwalk⟩
    | succ k =>
      refine iff_of_false (by omega) ?_
      rintro ⟨_,walk',hkeys,hfound⟩
      rw [List.take_succ_cons] at hkeys
      cases hkeys with
      | @cons _ key _ passed hkey _ =>
        rw [← List.singleton_append,← List.append_assoc] at hfound
        obtain ⟨walk'',h⟩ := firstFollowed_of_append hfound
        exact hend key walk'' hkey h
  rest _ more := by
    rw [List.take_succ_cons,List.take_zero]
    exact (hrun more).trans (hrun steps).symm

theorem evalSteps_of_key {step : Step} {key : Text} (hkey : (step.key env).result = .ok key)
    (hwalk : firstFollowed keys roots = .found walk) (steps : List Step) :
    evalSteps env (step :: steps) walk =
      ⟨(resume env steps (firstFollowed (keys ++ [key]) roots)).result,
        (step.key env).events ++ (resume env steps (firstFollowed (keys ++ [key]) roots)).events⟩ := by
  rw [evalSteps_cons,Run.bind_of_ok hkey,take_of_firstFollowed hwalk]

/-- A step that leads on is asked, and so are the steps that are asked behind it. -/
theorem AsksFirst.succ {step : Step} {steps : List Step} {key : Text} {walk' : Walk} {n : Nat}
    (h : AsksFirst env (keys ++ [key]) roots (fun steps => evalSteps env steps walk') steps n)
    (hkey : (step.key env).result = .ok key) (hwalk : firstFollowed keys roots = .found walk)
    (hnext : firstFollowed (keys ++ [key]) roots = .found walk') :
    AsksFirst env keys roots (fun steps => evalSteps env steps walk) (step :: steps) (n + 1) := by
  have hrun := evalSteps_of_key hkey hwalk
  rw [hnext] at hrun
  simp only [resume] at hrun
  refine ⟨Nat.succ_le_succ h.le,?_,fun k hk => ?_,fun hn more => ?_⟩
  · rw [hrun,h.events,List.take_succ_cons,List.flatMap_cons]
  · cases k with
    | zero =>
      exact iff_of_true (Nat.succ_pos n) ⟨[],walk,.nil,by rw [List.append_nil]; exact hwalk⟩
    | succ k =>
      rw [Nat.succ_lt_succ_iff,h.lt_iff k (Nat.lt_of_succ_lt_succ hk),List.take_succ_cons]
      constructor
      · rintro ⟨passed,walk'',hkeys,hfound⟩
        refine ⟨key :: passed,walk'',.cons hkey hkeys,?_⟩
        rwa [← List.singleton_append,← List.append_assoc]
      · rintro ⟨_,walk'',hkeys,hfound⟩
        cases hkeys with
        | @cons _ key' _ passed hkey' hkeys =>
          obtain rfl := Except.ok.inj (hkey.symm.trans hkey')
          refine ⟨passed,walk'',hkeys,?_⟩
          rwa [← List.singleton_append,← List.append_assoc] at hfound
  · rw [List.take_succ_cons,List.cons_append,hrun,hrun,h.rest (Nat.lt_of_succ_lt_succ hn) more]

theorem exists_asksFirst (hwalk : firstFollowed keys roots = .found walk) (steps : List Step) :
    ∃ n, AsksFirst env keys roots (fun steps => evalSteps env steps walk) steps n := by
  induction steps generalizing keys walk with
  | nil => exact ⟨0,Nat.le_refl 0,rfl,nofun,nofun⟩
  | cons step steps ih =>
    cases hkey : (step.key env).result with
    | error problem =>
      refine ⟨1,asksFirst_one hwalk (fun key _ h => by cases hkey.symm.trans h) (fun steps => ?_) steps⟩
      rw [evalSteps_cons,evalSteps_cons,Run.bind_of_error hkey,Run.bind_of_error hkey]
    | ok key =>
      by_cases hnext : ∃ walk', firstFollowed (keys ++ [key]) roots = .found walk'
      · obtain ⟨walk',hnext⟩ := hnext
        obtain ⟨n,h⟩ := ih hnext
        exact ⟨n + 1,h.succ hkey hwalk hnext⟩
      · refine ⟨1,asksFirst_one hwalk (fun key' walk' h hfound => ?_) (fun steps => ?_) steps⟩
        · obtain rfl := Except.ok.inj (hkey.symm.trans h)
          exact hnext ⟨walk',hfound⟩
        · rw [evalSteps_of_key hkey hwalk,evalSteps_of_key hkey hwalk]
          cases h : firstFollowed (keys ++ [key]) roots with
          | found walk' => exact absurd ⟨walk',h⟩ hnext
          | nowhere => exact congrArg _ (List.append_nil _)
          | unreadable => exact congrArg _ (List.append_nil _)

end

namespace Frame
variable {root : Text} {keys : List Text} {f : Frame} {frames : List Frame}

/-- A search for the path comes to a frame in which the keys lead somewhere. It does not come past
a frame that stops it, nor past one that resolves the path, in which the keys lead somewhere too. -/
def Reached (root : Text) (keys : List Text) (frames : List Frame) : Prop :=
  ∃ inner frame outer, frames = inner ++ frame :: outer ∧ (∀ f ∈ inner, ¬Overruns root keys f) ∧
    ¬Overruns root keys frame ∧ ∃ w, LeadsTo root keys frame w

theorem reached_cons : Reached root keys (f :: frames) ↔
    ¬Overruns root keys f ∧ ((∃ w, LeadsTo root keys f w) ∨ Reached root keys frames) := by
  constructor
  · rintro ⟨_ | ⟨g,inner⟩,frame,outer,h,hinner,hover,hleads⟩
    · obtain ⟨rfl,rfl⟩ := List.cons.inj h
      exact ⟨hover,Or.inl hleads⟩
    · obtain ⟨rfl,rfl⟩ := List.cons.inj h
      obtain ⟨hf,hinner⟩ := List.forall_mem_cons.mp hinner
      exact ⟨hf,Or.inr ⟨inner,frame,outer,rfl,hinner,hover,hleads⟩⟩
  · rintro ⟨hf,hleads | ⟨inner,frame,outer,rfl,hinner,hover,hleads⟩⟩
    · exact ⟨[],f,frames,rfl,nofun,hf,hleads⟩
    · exact ⟨f :: inner,frame,outer,rfl,List.forall_mem_cons.mpr ⟨hf,hinner⟩,hover,hleads⟩

theorem firstFollowed_iff : (∃ walk, firstFollowed keys (frames.filterMap (Mapping.get? root)) = .found walk) ↔
    Reached root keys frames := by
  induction frames with
  | nil =>
    refine iff_of_false (fun ⟨_,h⟩ => by cases h) ?_
    rintro ⟨_ | _,_,_,h,_⟩ <;> cases h
  | cons f frames ih =>
    rw [reached_cons,← ih]
    cases hv : Mapping.get? root f with
    | none =>
      rw [List.filterMap_cons_none hv]
      have hover : ¬Overruns root keys f := fun ⟨v,h,_⟩ => by cases hv.symm.trans h
      have hleads : ¬∃ w, LeadsTo root keys f w := fun ⟨_,v,h,_⟩ => by cases hv.symm.trans h
      exact ⟨fun h => ⟨hover,Or.inr h⟩,fun h => h.2.resolve_left hleads⟩
    | some v =>
      rw [List.filterMap_cons_some hv,firstFollowed]
      cases hfollow : v.follow keys with
      | found w =>
        obtain ⟨hleads,hover⟩ := (Frame.leadsTo_iff hv).mpr hfollow
        exact iff_of_true ⟨_,rfl⟩ ⟨hover,Or.inl ⟨w,hleads⟩⟩
      | nowhere =>
        have hover : ¬Overruns root keys f := fun h => by
          cases hfollow.symm.trans ((overruns_iff hv).mp h)
        have hleads : ¬∃ w, LeadsTo root keys f w := fun ⟨w,h⟩ => by
          cases hfollow.symm.trans ((leadsTo_iff hv).mp ⟨h,hover⟩)
        exact ⟨fun h => ⟨hover,Or.inr h⟩,fun h => h.2.resolve_left hleads⟩
      | unreadable =>
        exact iff_of_false (fun ⟨_,h⟩ => by cases h) fun h => h.1 ((overruns_iff hv).mpr hfollow)

end Frame

def Step.index? : Step → Option Arg
  | .field _ => none
  | .index arg => some arg

theorem Step.key_events (env : Env) (step : Step) :
    (step.key env).events = step.index?.toList.flatMap fun arg => (arg.eval env).events := by
  cases step with
  | field name => rfl
  | index arg =>
    rw [Step.key,Step.index?,Option.toList_some,List.flatMap_singleton]
    cases h : (arg.eval env).result with
    | ok v => exact (congrArg Run.events (Run.bind_of_ok h _)).trans (List.append_nil _)
    | error problem => exact congrArg Run.events (Run.bind_of_error h _)

/-- The events of the steps are those of the indices among them. -/
theorem flatMap_key_events (env : Env) (steps : List Step) :
    (steps.flatMap fun step => (step.key env).events) =
      (steps.filterMap Step.index?).flatMap fun arg => (arg.eval env).events := by
  induction steps with
  | nil => rfl
  | cons step steps ih =>
    rw [List.flatMap_cons,ih,Step.key_events]
    cases h : step.index? with
    | none => rw [List.filterMap_cons_none h]; rfl
    | some arg =>
      rw [List.filterMap_cons_some h,Option.toList_some,List.flatMap_singleton,List.flatMap_cons]

theorem eval_variable_eq_searchOnce (env : Env) (root : Text) (steps : List Step) :
    (Operand.variable root steps).eval env = searchOnce env steps [] (env.scopes.roots root) := by
  have hsearch : searchOnce env ([] ++ steps) [] (env.scopes.roots root) =
      resume env steps (firstFollowed [] (env.scopes.roots root)) := searchOnce_eq_resume steps rfl _
  rw [List.nil_append] at hsearch
  rw [hsearch,Operand.eval]
  cases env.scopes.roots root <;> rfl

/-- What a search for a path comes to in an evaluation. -/
def Landing.toResult : Landing Value → Except EvalProblem Value
  | .found v => .ok v
  | .nowhere => .ok (.text [])
  | .unreadable => .error .longIndex

section
variable {env : Env} {keys : List Text} {roots : List Value} {walk : Walk}

/-- A walk that takes no more steps arrives where the search for its keys ends. -/
theorem toResult_of_firstFollowed (h : firstFollowed keys roots = .found walk) :
    ((firstReached keys roots).map Prod.fst).toResult = .ok walk.arrival := by
  induction roots generalizing walk with
  | nil => cases h
  | cons root roots ih =>
    rw [firstFollowed] at h
    rw [firstReached]
    cases hroot : root.follow keys with
    | unreadable =>
      rw [hroot] at h
      cases h
    | nowhere =>
      rw [hroot] at h
      exact ih h
    | found v =>
      rw [hroot] at h
      cases h
      cases v with
      | null =>
        obtain rfl := Value.eq_nil_of_follow_null hroot
        cases roots with
        | nil => rfl
        | cons next roots =>
          have hnext : firstFollowed [] (next :: roots) = .found ⟨[],next,roots⟩ := rfl
          exact (ih hnext :)
      | _ => rfl

/-- Where some keys lead to no value, no more keys lead to one. -/
theorem toResult_append (env : Env) (h : ∀ walk, firstFollowed keys roots ≠ .found walk)
    (more : List Text) :
    ((firstReached (keys ++ more) roots).map Prod.fst).toResult =
      (resume env [] (firstFollowed keys roots)).result := by
  induction roots with
  | nil => rfl
  | cons root roots ih =>
    rw [firstFollowed] at h ⊢
    rw [firstReached,Value.follow_append]
    cases hroot : root.follow keys with
    | found v => exact absurd (by rw [hroot]) (h ⟨keys,v,roots⟩)
    | nowhere =>
      rw [hroot] at h
      exact ih h
    | unreadable => rfl

theorem result_evalSteps {steps : List Step} {more : List Text} (hkeys : HaveKeys env steps more)
    (hwalk : firstFollowed keys roots = .found walk) : (evalSteps env steps walk).result =
      ((firstReached (keys ++ more) roots).map Prod.fst).toResult := by
  induction hkeys generalizing keys walk with
  | nil =>
    rw [List.append_nil,toResult_of_firstFollowed hwalk]
    rfl
  | @cons step key steps more hkey _ ih =>
    have happend : keys ++ key :: more = keys ++ [key] ++ more := by simp
    rw [evalSteps_of_key hkey hwalk,happend]
    by_cases hnext : ∃ walk', firstFollowed (keys ++ [key]) roots = .found walk'
    · obtain ⟨walk',hnext⟩ := hnext
      rw [hnext]
      exact ih hnext
    · have hends := not_exists.mp hnext
      rw [toResult_append env hends]
      cases h : firstFollowed (keys ++ [key]) roots with
      | found walk' => exact absurd h (hends walk')
      | nowhere | unreadable => rfl

end

/-- A variable whose steps have these keys evaluates to what a look-up of them gives. -/
theorem eval_variable_eq_lookup {env : Env} {steps : List Step} {keys : List Text}
    (h : HaveKeys env steps keys) (root : Text) :
    ((Operand.variable root steps).eval env).result = (env.scopes.lookup root keys).toResult := by
  rw [Operand.eval,Scopes.lookup]
  cases env.scopes.roots root with
  | nil => rfl
  | cons place roots =>
    refine (result_evalSteps h (rfl : firstFollowed [] (place :: roots) = _)).trans ?_
    rw [List.nil_append]
    cases firstReached keys (place :: roots) <;> rfl

theorem exists_asksFirst_variable (env : Env) (root : Text) (steps : List Step) :
    ∃ n, AsksFirst env [] (env.scopes.roots root) (fun steps => (Operand.variable root steps).eval env)
      steps n := by
  simp only [Operand.eval]
  cases env.scopes.roots root with
  | nil =>
    refine ⟨0,Nat.zero_le _,rfl,fun k _ => iff_of_false (Nat.not_lt_zero k) ?_,fun _ _ => rfl⟩
    rintro ⟨_,_,_,h⟩
    cases h
  | cons place roots => exact exists_asksFirst rfl steps

/-- A variable is evaluated as by a search that starts its path anew in every frame and remembers
the keys. Of the indices on the path, those of the first `n` steps are evaluated, each once and in
their order, and no others: the events are theirs, and what the steps behind them are makes no
difference. A step is among those `n` just if all steps before it have keys and these keys lead
somewhere in a frame that the search comes to. -/
theorem eval_variable_lazy (env : Env) (root : Text) (steps : List Step) :
    (Operand.variable root steps).eval env = searchOnce env steps [] (env.scopes.roots root) ∧
    ∃ n ≤ steps.length,
      ((Operand.variable root steps).eval env).events =
        ((steps.take n).filterMap Step.index?).flatMap (fun arg => (arg.eval env).events) ∧
      (∀ k < steps.length, k < n ↔ ∃ keys, HaveKeys env (steps.take k) keys ∧
        Frame.Reached root keys env.scopes.frames) ∧
      (n < steps.length → ∀ more, (Operand.variable root (steps.take n ++ more)).eval env =
        (Operand.variable root steps).eval env) := by
  obtain ⟨n,h⟩ := exists_asksFirst_variable env root steps
  refine ⟨eval_variable_eq_searchOnce env root steps,n,h.le,?_,fun k hk => ?_,h.rest⟩
  · exact h.events.trans (flatMap_key_events env _)
  · rw [h.lt_iff k hk]
    refine exists_congr fun keys => ?_
    rw [exists_and_left,List.nil_append]
    exact and_congr_right fun _ => Frame.firstFollowed_iff

/-- The first index is evaluated once for both frames. The second one leads nowhere in the outer
frame, so that the third one may be a call of a method that does not exist. -/
theorem eval_variable_lazy_of_frames :
    (Operand.variable ['x'] [.index (.mk (.literal ['a']) [.mk ['f'] [] 0]),
        .index (.mk (.literal ['b']) [.mk ['f'] [] 0]),.index (.mk (.literal ['c']) [.mk ['f'] [] 0])]).eval
      ⟨⟨[(.text ['x'],.mapping [])],[[(.text ['x'],.mapping [(.text ['a'],.mapping [])])]]⟩,
        .ofList [(['f'],fun v _ => .ok v)]⟩ =
      ⟨.ok (.text []),[.call ['f'] (.text ['a']) [],.call ['f'] (.text ['b']) []]⟩ ∧
    (Operand.variable ['x'] [.index (.mk (.literal ['a']) [.mk ['f'] [] 0]),
        .index (.mk (.literal ['b']) [.mk ['f'] [] 0]),.index (.mk (.literal ['c']) [.mk ['g'] [] 0])]).eval
      ⟨⟨[(.text ['x'],.mapping [])],[[(.text ['x'],.mapping [(.text ['a'],.mapping [])])]]⟩,
        .ofList [(['f'],fun v _ => .ok v)]⟩ =
      ⟨.ok (.text []),[.call ['f'] (.text ['a']) [],.call ['f'] (.text ['b']) []]⟩ := by
  obtain ⟨_,n,hn,hevents,_,hrest⟩ := eval_variable_lazy
    ⟨⟨[(.text ['x'],.mapping [])],[[(.text ['x'],.mapping [(.text ['a'],.mapping [])])]]⟩,
      .ofList [(['f'],fun v _ => .ok v)]⟩ ['x']
    [.index (.mk (.literal ['a']) [.mk ['f'] [] 0]),.index (.mk (.literal ['b']) [.mk ['f'] [] 0]),
      .index (.mk (.literal ['c']) [.mk ['f'] [] 0])]
  refine ⟨rfl,?_⟩
  have hcount := congrArg List.length hevents
  obtain _ | _ | _ | _ | n := n
  · cases hcount
  · cases hcount
  · exact hrest (by decide) [.index (.mk (.literal ['c']) [.mk ['g'] [] 0])]
  · cases hcount
  · exact absurd hn (by simp)

end Stencil
