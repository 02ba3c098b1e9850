import Stencil.Proofs.Evaluation.Dependence
import Stencil.Proofs.Evaluation.Iteration
import Stencil.Proofs.Except

/-! # What a bound name prints

A name that was bound by `set` or by a loop prints what was bound to it, whatever frames further
out hold under the name, until it is bound again. Null does not count as bound: a name that was
bound to null prints what it stands for in the frames further out.
-/
namespace Stencil

/-- A name on its own. -/
def Arg.ofName (name : Text) : Arg := mk (.variable name []) []

/-- What a name prints that is bound to `v`, where the frames further out hold `below` under it. -/
def boundText (v : Value) (below : List Value) : Except Unwritable Text :=
  if v.isNull then (firstPresent below).display else v.display

theorem display_firstPresent_cons (v : Value) (below : List Value) :
    (firstPresent (v :: below)).display = boundText v below := by
  unfold firstPresent boundText
  rw [List.find?_cons]
  cases v.isNull <;> rfl

/-- What a print of `written` comes to in the scopes `s`. -/
def printed (written : Except Unwritable Text) (s : Scopes) :
    Except EvalProblem (Scopes × List Fragment) :=
  (written.mapError .unwritable).map fun t => (s,[.value t])

theorem printed_eq_ok {written : Except Unwritable Text} {s t : Scopes} {fragments : List Fragment} :
    printed written s = .ok (t,fragments) ↔
      ∃ shown, written = .ok shown ∧ t = s ∧ fragments = [.value shown] := by
  simp only [printed,map_eq_ok,mapError_eq_ok,Prod.mk.injEq,@eq_comm _ s,@eq_comm _ [_]]

theorem Block.eval_print {methods : Registry} {arg : Arg} {s : Scopes} {v : Value}
    (h : (arg.eval ⟨s,methods⟩).result = .ok v) :
    ((Block.print arg).eval methods s).result = printed v.display s := by
  rw [eval,Run.result_bind_pure,Arg.evalText_of_ok h]
  rfl

/-- A path without steps leads to the first of its roots that is not null. -/
theorem Operand.eval_name (env : Env) (name : Text) :
    (Operand.variable name []).eval env = pure (firstPresent (env.scopes.roots name)) := by
  simp only [eval]
  cases env.scopes.roots name <;> simp [evalSteps,Walk.arrival,firstPresent]

theorem Arg.eval_ofName (env : Env) (name : Text) :
    (ofName name).eval env = pure (firstPresent (env.scopes.roots name)) := by
  rw [ofName,eval,Operand.eval_name,pure_bind,evalCalls]

theorem Block.eval_print_ofName (methods : Registry) (name : Text) (s : Scopes) :
    ((Block.print (.ofName name)).eval methods s).result =
      printed (firstPresent (s.roots name)).display s :=
  eval_print (congrArg Run.result (Arg.eval_ofName ⟨s,methods⟩ name))

namespace Scopes
variable {name other : Text}

theorem roots_set (name : Text) (v : Value) (s : Scopes) :
    (s.set name v).roots name = v :: s.outer.filterMap (Mapping.get? name) := by
  have hname : Mapping.get? name (s.set name v).inner = some v := by
    simp [set,Mapping.get?_insert]
  exact List.filterMap_cons_some hname

theorem roots_push_name (name : Text) (v : Value) (s : Scopes) :
    (s.push [(.text name,v)]).roots name = v :: s.roots name := by
  simp [roots,frames,push,Mapping.get?,Value.isText]

theorem roots_push_other (h : other ≠ name) (v : Value) (s : Scopes) :
    (s.push [(.text other,v)]).roots name = s.roots name := by
  simp [roots,frames,push,Mapping.get?,Value.isText,h]

theorem roots_push_nil (name : Text) (s : Scopes) : (s.push []).roots name = s.roots name := rfl

/-- A name that is not set stands for what it stood for. -/
theorem SameBut.roots_eq {names : List Text} {s t : Scopes} (h : SameBut names s t)
    (hname : name ∉ names) : t.roots name = s.roots name := by
  have hinner : Mapping.get? name t.inner = Mapping.get? name s.inner := by
    rw [← Mapping.get?_others hname,h.inner,Mapping.get?_others hname]
  unfold roots frames
  rw [List.filterMap_cons,List.filterMap_cons,hinner,h.outer]

end Scopes

section
open Rendering
variable {methods : Registry} {name : Text} {blocks before after : List Block} {s t : Scopes}
variable {fragments : List Fragment}

/-- Evaluating the blocks from `s` may come to a print of `name`, in the scopes `t`, and the name
is not bound again on the way: neither set by a block before it nor the name of a loop around it. -/
inductive MayMeet (methods : Registry) (name : Text) : List Block → Scopes → Scopes → Prop where
  | here (blocks : List Block) (s : Scopes) : MayMeet methods name (.print (.ofName name) :: blocks) s s
  | past {block : Block} {blocks : List Block} {s t u : Scopes} {fragments : List Fragment}
    (hname : block.setName? ≠ some name) (h : (block.eval methods s).result = .ok (t,fragments))
    (rest : MayMeet methods name blocks t u) : MayMeet methods name (block :: blocks) s u
  | branch {condition : Condition} {body blocks : List Block} {s t : Scopes}
    (h : (condition.eval ⟨s,methods⟩).result = .ok true)
    (inside : MayMeet methods name body (s.push []) t) :
    MayMeet methods name (.branch condition body :: blocks) s t
  | loop {other : Text} {source : LoopSource} {body blocks : List Block} {s t : Scopes}
    (h : other ≠ name) (v : Value) (inside : MayMeet methods name body (s.push [(.text other,v)]) t) :
    MayMeet methods name (.loop other source body :: blocks) s t

/-- On the way there the name stands for the same. -/
theorem MayMeet.roots_eq (h : MayMeet methods name blocks s t) : t.roots name = s.roots name := by
  induction h with
  | here => rfl
  | @past block _ _ _ _ _ hname h _ ih =>
    have hkeeps : Keeps block.setName?.toList (block.eval methods) :=
      block.keeps_eval methods fun other hother => by simp [hother]
    exact ih.trans ((hkeeps h).roots_eq (by simpa using hname))
  | branch _ _ ih => exact ih.trans (Scopes.roots_push_nil name _)
  | loop h v _ ih => exact ih.trans (Scopes.roots_push_other h v _)

theorem evalBlocks_append (methods : Registry) (before after : List Block) :
    evalBlocks methods (before ++ after) = andThen (evalBlocks methods before) (evalBlocks methods after) := by
  induction before with
  | nil => exact (nothing_andThen _).symm
  | cons block before ih => rw [List.cons_append,evalBlocks_cons,evalBlocks_cons,ih,andThen_assoc]

/-- A print behind blocks that do not set the name prints what the name stood for before them. -/
theorem evalBlocks_ofName_ok (hname : name ∉ setNames before) :
    (evalBlocks methods (before ++ .print (.ofName name) :: after) s).result = .ok (t,fragments) ↔
      ∃ u first shown rest, (evalBlocks methods before s).result = .ok (u,first) ∧
        (firstPresent (s.roots name)).display = .ok shown ∧
        (evalBlocks methods after u).result = .ok (t,rest) ∧
        fragments = first ++ .value shown :: rest := by
  have hkeeps := keeps_evalBlocks methods before (List.Subset.refl _)
  rw [evalBlocks_append,evalBlocks_cons,andThen_ok]
  constructor
  · rintro ⟨u,first,more,hbefore,hmore,rfl⟩
    obtain ⟨u',_,rest,hprint,hafter,rfl⟩ := andThen_ok.mp hmore
    rw [Block.eval_print_ofName,(hkeeps hbefore).roots_eq hname] at hprint
    obtain ⟨shown,hshown,rfl,rfl⟩ := printed_eq_ok.mp hprint
    exact ⟨u',first,shown,rest,hbefore,hshown,hafter,rfl⟩
  · rintro ⟨u,first,shown,rest,hbefore,hshown,hafter,rfl⟩
    have hprint : ((Block.print (.ofName name)).eval methods u).result = .ok (u,[.value shown]) := by
      rw [Block.eval_print_ofName,(hkeeps hbefore).roots_eq hname]
      exact printed_eq_ok.mpr ⟨shown,hshown,rfl,rfl⟩
    exact ⟨u,first,_,hbefore,andThen_ok.mpr ⟨u,_,rest,hprint,hafter,rfl⟩,rfl⟩

end

open Rendering in
/-- A name that is bound to the value of an argument prints what the argument itself prints, and so
does the first print of it in the body of a loop over just that argument, wherever in the body it
stands, as long as the body does not bind the name again before it, and whatever the other frames
hold under the name. If the value is null, the name prints what it stands for in the frames below
the one it was written into: nothing, as the argument itself, where they hold nothing but null
under it. A value without a text is printed by neither. -/
theorem print_bound (methods : Registry) (name : Text) (arg : Arg) (s : Scopes) {v : Value}
    (h : (arg.eval ⟨s,methods⟩).result = .ok v) :
    ((Block.print arg).eval methods s).result = printed v.display s ∧
    (evalBlocks methods [.set name arg,.print (.ofName name)] s).result =
      printed (boundText v (s.outer.filterMap (Mapping.get? name))) (s.set name v) ∧
    (∀ before after, name ∉ setNames before → ∀ t fragments,
      ((Block.loop name (.items [arg]) (before ++ .print (.ofName name) :: after)).eval methods
        s).result = .ok (t,fragments) ↔
      t = s ∧ ∃ u w first shown rest,
        (evalBlocks methods before (s.push [(.text name,v)])).result = .ok (u,first) ∧
        boundText v (s.roots name) = .ok shown ∧
        (evalBlocks methods after u).result = .ok (w,rest) ∧
        fragments = first ++ .value shown :: rest) ∧
    ∀ body t, MayMeet methods name body (s.push [(.text name,v)]) t →
      ((Block.print (.ofName name)).eval methods t).result = printed (boundText v (s.roots name)) t := by
  refine ⟨Block.eval_print h,?_,fun before after hname t fragments => ?_,fun body t hmeet => ?_⟩
  · have hset : ((Block.set name arg).eval methods s).result = .ok (s.set name v,[]) :=
      Run.result_bind_eq_ok.mpr ⟨v,h,rfl⟩
    rw [evalBlocks_pair,result_andThen_of_ok hset,Block.eval_print_ofName,Scopes.roots_set,
      display_firstPresent_cons]
    exact congrFun Except.map_id _
  · refine (items_singleton_ok (keeps_evalBlocks methods _ (List.Subset.refl _))).trans ?_
    refine and_congr_right fun _ => ?_
    rw [← display_firstPresent_cons,← Scopes.roots_push_name]
    constructor
    · rintro ⟨v',w,hv',hbody⟩
      obtain rfl := Except.ok.inj (hv'.symm.trans h)
      obtain ⟨u,first,shown,rest,hrest⟩ := (evalBlocks_ofName_ok hname).mp hbody
      exact ⟨u,w,first,shown,rest,hrest⟩
    · rintro ⟨u,w,first,shown,rest,hrest⟩
      exact ⟨v,w,h,(evalBlocks_ofName_ok hname).mpr ⟨u,first,shown,rest,hrest⟩⟩
  · rw [Block.eval_print_ofName,hmeet.roots_eq,Scopes.roots_push_name,display_firstPresent_cons]

/-- The list that the method makes is printed and not the texts that the frames hold, also within
a conditional in the loop. -/
theorem print_bound_of_list :
    (evalBlocks (.ofList [(['f'],fun v _ => .ok (.list [v,.null]))])
        [.set ['x'] (.mk (.literal ['a']) [.mk ['f'] [] 0]),.print (.ofName ['x'])]
        ⟨[(.text ['x'],.text ['i'])],[[(.text ['x'],.text ['o'])]]⟩).result =
      .ok (⟨[(.text ['x'],.list [.text ['a'],.null])],[[(.text ['x'],.text ['o'])]]⟩,
        [.value ['a',',']]) ∧
    ((Block.loop ['x'] (.items [.mk (.literal ['a']) [.mk ['f'] [] 0]])
        [.text ['-'],.print (.ofName ['x']),.set ['x'] (.ofText ['b'])]).eval
        (.ofList [(['f'],fun v _ => .ok (.list [v,.null]))])
        ⟨[(.text ['x'],.text ['i'])],[[(.text ['x'],.text ['o'])]]⟩).result =
      .ok (⟨[(.text ['x'],.text ['i'])],[[(.text ['x'],.text ['o'])]]⟩,
        [.string ['-'],.value ['a',',']]) ∧
    ((Block.print (.ofName ['x'])).eval (.ofList [(['f'],fun v _ => .ok (.list [v,.null]))])
        ⟨[],[[(.text ['x'],.list [.text ['a'],.null])],[(.text ['x'],.text ['i'])],
          [(.text ['x'],.text ['o'])]]⟩).result =
      .ok (⟨[],[[(.text ['x'],.list [.text ['a'],.null])],[(.text ['x'],.text ['i'])],
        [(.text ['x'],.text ['o'])]]⟩,[.value ['a',',']]) := by
  obtain ⟨_,hset,hloop,hmeet⟩ := print_bound (.ofList [(['f'],fun v _ => .ok (.list [v,.null]))]) ['x']
    (.mk (.literal ['a']) [.mk ['f'] [] 0])
    ⟨[(.text ['x'],.text ['i'])],[[(.text ['x'],.text ['o'])]]⟩ (v := .list [.text ['a'],.null]) rfl
  refine ⟨hset,?_,?_⟩
  · refine (hloop [.text ['-']] [.set ['x'] (.ofText ['b'])] (by decide) _ _).mpr ?_
    exact ⟨rfl,_,_,_,_,_,rfl,rfl,rfl,rfl⟩
  · exact hmeet [.branch (.holds (.ofText ['1'])) [.print (.ofName ['x'])]] _
      (.branch rfl (.here [] _))

/-- A method that gives null is printed as nothing, but a name that is bound to what it gives prints
what it stands for further out. -/
theorem print_bound_to_null :
    ((Block.print (.mk (.literal ['a']) [.mk ['f'] [] 0])).eval (.ofList [(['f'],fun _ _ => .ok .null)])
        (.start [(.text ['x'],.text ['o'])])).result =
      .ok (.start [(.text ['x'],.text ['o'])],[.value []]) ∧
    (evalBlocks (.ofList [(['f'],fun _ _ => .ok .null)])
        [.set ['x'] (.mk (.literal ['a']) [.mk ['f'] [] 0]),.print (.ofName ['x'])]
        (.start [(.text ['x'],.text ['o'])])).result =
      .ok ((Scopes.start [(.text ['x'],.text ['o'])]).set ['x'] .null,[.value ['o']]) ∧
    ((Block.loop ['x'] (.items [.mk (.literal ['a']) [.mk ['f'] [] 0]]) [.print (.ofName ['x'])]).eval
        (.ofList [(['f'],fun _ _ => .ok .null)]) (.start [(.text ['x'],.text ['o'])])).result =
      .ok (.start [(.text ['x'],.text ['o'])],[.value ['o']]) :=
  ⟨rfl,rfl,rfl⟩

end Stencil
